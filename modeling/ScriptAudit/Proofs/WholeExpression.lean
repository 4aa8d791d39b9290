/-
Operands that are all of their text. An expression is tried as an arrow function first, then as an assignment, and only
then along the ladder of operators. An operand that goes to the end of the text is neither of the first two: after each
place where `=>` or an assignment operator might come, there is the end of the text, a link, an update or an operator
with an operand after it (`Seam`). So it is read as an expression (`finds_expr_of_rung`).
-/
import ScriptAudit.Proofs.CutLadder

namespace ScriptAudit

open ScriptGrammar

variable {source : Text} {α β γ : Type} {d : Nat} {c m next : Cursor source}

/-! ## Seams -/

/-- Neither an arrow function nor an assignment goes on here, nor do the parameters of an arrow function come next. -/
structure Seam (c : Cursor source) : Prop where
  arrow : Lacks (mark "=>") c.skip
  assign : Lacks (ref .assignOp) c.skip
  params : Lacks (ref .arrowParams) c.skip

theorem Seam.of_rest_eq_nil (h : c.rest = []) : Seam c := by
  have hskip : c.skip.rest = [] := Cursor.rest_skip_of_atEnd (List.isEmpty_iff.mpr h)
  exact
    { arrow := lacks_of_rest_eq_nil rfl hskip
      assign := lacks_of_rest_eq_nil rfl hskip
      params := lacks_of_rest_eq_nil rfl hskip }

theorem Seam.of_update {op : UpdateOp} (h : Finds (ref .updateOp) c.skip op next) : Seam c where
  arrow := h.lacks rfl
  assign := h.lacks rfl
  params := h.lacks rfl

theorem Seam.of_tight {p : Pattern α} {a : α} (h : Finds p c.skip a next) (hnext : next.rest.head?.any prolongs = false)
    (hp : (p.bearsOff (mark "=>") && p.bearsOff (ref .assignOp) && p.bearsOff (ref .arrowParams)) = true) : Seam c := by
  simp only [Bool.and_eq_true] at hp
  exact ⟨h.lacks_tight hp.1.1 hnext, h.lacks_tight hp.1.2 hnext, h.lacks_tight hp.2 hnext⟩

/-- An operator with an operand after it makes a seam. -/
theorem GoesOn.seam (h : GoesOn c) : Seam c := by
  obtain ⟨level, op, m, hlevel, hop, u, n, hunary⟩ := h
  have hm := prolongs_of_unary hunary
  have hcases : level = 1 ∨ level = 2 ∨ level = 3 ∨ level = 4 ∨ level = 5 ∨ level = 6 ∨ level = 7 ∨
    level = 8 ∨ level = 9 ∨ level = 10 ∨ level = 11 := by omega
  rcases hcases with rfl | rfl | rfl | rfl | rfl | rfl | rfl | rfl | rfl | rfl | rfl <;>
    · obtain ⟨_, hfound, -⟩ := Finds.of_build hop
      exact .of_tight hfound.of_rule hm rfl

/-! ## Arrow functions -/

theorem finds_or_lacks (r : Rule) (hc : c.offset ≤ source.length) :
    (∃ a next, Finds (ref r) c a next) ∨ Lacks (ref r) c := by
  obtain ⟨reply, hreply⟩ := scriptGrammar_descends.replies Rule.rank_lt _ r c hc (Nat.lt_succ_self _)
  cases reply with
  | missing => exact .inr ⟨_, hreply⟩
  | found a next => exact .inl ⟨a, next, _, hreply⟩

/-- The parameters of an arrow function and the arrow. -/
def arrowHead : Pattern (List Sketch) := ref .arrowParams <* gap <* mark "=>" <* gap

theorem lacks_arrowHead (hc : c.offset ≤ source.length)
    (h : ∀ {ps m}, Finds (ref .arrowParams) c ps m → Lacks (mark "=>") m.skip) : Lacks arrowHead c := by
  rcases finds_or_lacks .arrowParams hc with ⟨ps, m, hparams⟩ | hlacks
  · exact .seq_missing (.seq_found_missing (.seq_found hparams (finds_gap m)) (h hparams))
  · exact .seq_missing (.seq_missing (.seq_missing hlacks))

/-- An arrow function has its head after `async`, if that comes first. -/
theorem lacks_arrowFunction (hasync : ∀ {a m}, Finds (ref .asyncWord) c a m → Lacks arrowHead m.skip)
    (hplain : Lacks (ref .asyncWord) c → Lacks arrowHead c) : Lacks (ref .arrowFunction) c := by
  refine .rule (.build_missing (.seq_missing ?_))
  cases hlength : (Lexeme.exact "async" CodePoint.continuesName).length? c.rest with
  | none =>
    have hlacks : Lacks (ref .asyncWord) c := .rule (.lexeme_missing hlength)
    exact .seq_found_missing (.build_found (.build_found (finds_option_none (.seq_missing hlacks)))) (hplain hlacks)
  | some n =>
    have hword : Finds (ref .asyncWord) c _ _ := .rule (.lexeme_found hlength)
    have hbegin : c.atEnd = false := by
      obtain ⟨rest, hrest, -, -⟩ := Lexeme.exists_of_exact hlength
      exact List.isEmpty_eq_false_iff.mpr (by rw [hrest]; exact List.cons_ne_nil _ _)
    have hpresent : Finds (.option (ref .asyncWord *> gap)) c _ _ :=
      .option_found hbegin (.seq_found hword (finds_gap _))
    exact .seq_found_missing (.build_found (.build_found hpresent)) (hasync hword)

theorem Finds.of_arrowParams {ps : List Sketch} (h : Finds (ref .arrowParams) c ps next) :
    Finds (ref .params) c ps next ∨ ∃ l, Finds (ref .identifier) c l next := by
  rcases h.of_rule.of_either with h | ⟨-, h⟩
  · exact .inl h
  · obtain ⟨l, h, -⟩ := h.of_build
    exact .inr ⟨l, h⟩

/-- Brackets that open at one place close at one place. -/
theorem Finds.bracketed_unique {r r' : Rule} {a : Yield r} {b : Yield r'} {next' : Cursor source}
    (h : Finds (ref r) c a next) (h' : Finds (ref r') c b next')
    (hr : (scriptGrammar r).isBracketed "(" .code = true) (hr' : (scriptGrammar r').isBracketed "(" .code = true) :
    next' = next := by
  obtain ⟨d, h⟩ := h.of_rule
  obtain ⟨d', h'⟩ := h'.of_rule
  exact Reads.bracketed_unique h hr h' hr'

/-- A function expression with `async` has `function` where an arrow function has its head. -/
theorem lacks_arrowFunction_of_functionExpr {v : Sketch} (h : Finds (ref .functionExpr) c v next) :
    Lacks (ref .arrowFunction) c := by
  obtain ⟨_, h, -⟩ := h.of_rule.of_build
  obtain ⟨_, _, _, h, -, -⟩ := h.of_seq
  obtain ⟨_, _, _, h, -, -⟩ := h.of_seq
  obtain ⟨_, _, _, h, -, -⟩ := h.of_seq
  obtain ⟨_, m, _, hasync, hword, -⟩ := h.of_seq
  obtain ⟨_, _, _, hword, -, -⟩ := hword.of_seq
  obtain ⟨_, _, _, hword, -, -⟩ := hword.of_seq
  obtain ⟨_, hasync, -⟩ := hasync.of_build
  obtain ⟨_, ⟨d, hasync⟩, -⟩ := hasync.of_build
  rcases Reads.of_option hasync with ⟨-, rfl, -⟩ | ⟨_, -, -, hasync⟩
  · exact hword.lacks rfl
  · obtain ⟨_, n, _, hasyncWord, hgap, -⟩ := hasync.of_seq
    obtain rfl := hgap.finds.eq_skip
    refine lacks_arrowFunction (fun hfound => ?_) fun hlacks => ?_
    · cases hasyncWord.finds.unique hfound
      exact .seq_missing (.seq_missing (.seq_missing (hword.lacks rfl)))
    · cases hasyncWord.finds.unique hlacks

/-- The word `async` is a name as well. -/
theorem Finds.eq_of_asyncWord {a : Text} {l : Located} {next' : Cursor source} (h : Finds (ref .asyncWord) c a next)
    (h' : Finds (ref .identifier) c l next') : next' = next := by
  obtain ⟨n, hlength, rfl⟩ := Finds.of_lexeme h.of_rule
  obtain ⟨rest, hrest, rfl, hend⟩ := Lexeme.exists_of_exact hlength
  cases h'.unique (reads_identifier (n := asyncName) (d := 0) hrest hend).finds
  rfl

/-! ## Calls and members -/

theorem Runs.uncons {step : Cursor source → Option (Reply source α)} {as : List α} (h : Runs step c as next) :
    as = [] ∧ next = c ∨ ∃ a m as', step c = some (.found a m) ∧ Runs step m as' next := by
  induction h with
  | nil => exact .inl ⟨rfl, rfl⟩
  | @snoc as a m next h hm hstep hmoves ih =>
    rcases ih with ⟨rfl, rfl⟩ | ⟨a', m', as', hfirst, hruns⟩
    · exact .inr ⟨a, next, [], hstep, .nil⟩
    · exact .inr ⟨a', m', _, hfirst, .snoc hruns hm hstep hmoves⟩

/-- No arrow comes before links or the seam behind them. -/
theorem lacks_arrow_of_runs {tails : List Tail} (h : Runs ((ref .callTail).eval (scriptGrammar.eval d)) c tails next)
    (hnext : Seam next) : Lacks (mark "=>") c.skip := by
  rcases h.uncons with ⟨-, rfl⟩ | ⟨tail, m, _, htail, -⟩
  · exact hnext.arrow
  · obtain ⟨link, hlink⟩ := (Reads.finds htail).of_callTail
    exact hlink.lacks rfl

/-- A name before links or a seam is not a parameter, and if it is `async`, no parameters come after it. -/
theorem lacks_arrowFunction_of_identifier {l : Located} {tails : List Tail} (hc : c.offset ≤ source.length)
    (h : Finds (ref .identifier) c l m) (htails : Runs ((ref .callTail).eval (scriptGrammar.eval d)) m tails next)
    (hnext : Seam next) : Lacks (ref .arrowFunction) c := by
  refine lacks_arrowFunction (fun hasync => ?_) fun _ => ?_
  · obtain rfl := hasync.eq_of_asyncWord h
    have hskip : m.skip.offset ≤ source.length := by
      obtain ⟨k, h⟩ := h
      exact (Reads.le (reads_gap (d := 0) rfl) (Reads.le h hc).2).2
    refine lacks_arrowHead hskip fun hparams => ?_
    rcases htails.uncons with ⟨-, rfl⟩ | ⟨tail, m', _, htail, hrest⟩
    · cases hparams.unique hnext.params
    · obtain ⟨link, hlink⟩ := (Reads.finds htail).of_callTail
      rcases hlink.of_either with hcall | ⟨-, hother⟩
      · -- arguments and parameters end at the same bracket
        obtain ⟨args, harguments, -⟩ := hcall.of_build
        rcases hparams.of_arrowParams with hparams | ⟨_, hname⟩
        · obtain rfl := harguments.bracketed_unique hparams rfl rfl
          exact lacks_arrow_of_runs hrest hnext
        · cases hname.unique (harguments.lacks rfl)
      · cases hparams.unique (hother.lacks rfl)
  · refine lacks_arrowHead hc fun hparams => ?_
    rcases hparams.of_arrowParams with hparams | ⟨_, hname⟩
    · cases hparams.unique (h.lacks rfl)
    · cases hname.unique h
      exact lacks_arrow_of_runs htails hnext

theorem lacks_arrowFunction_of_parenExpr {v : Sketch} {tails : List Tail} (hc : c.offset ≤ source.length)
    (h : Finds (ref .parenExpr) c v m) (htails : Runs ((ref .callTail).eval (scriptGrammar.eval d)) m tails next)
    (hnext : Seam next) : Lacks (ref .arrowFunction) c := by
  refine lacks_arrowFunction (fun hasync => ?_) fun _ => lacks_arrowHead hc fun hparams => ?_
  · cases hasync.unique (h.lacks rfl)
  · rcases hparams.of_arrowParams with hparams | ⟨_, hname⟩
    · obtain rfl := h.bracketed_unique hparams rfl rfl
      exact lacks_arrow_of_runs htails hnext
    · cases hname.unique (h.lacks rfl)

theorem lacks_arrowFunction_of_callMember {v : Sketch} (hc : c.offset ≤ source.length)
    (h : Finds (ref .callMember) c v next) (hnext : Seam next) : Lacks (ref .arrowFunction) c := by
  obtain ⟨d, h⟩ := h
  obtain ⟨k, -, base, m, tails, hbase, htails, rfl⟩ := Links.of_callMember h hc
  rcases hbase.finds.of_either with hnew | ⟨-, hprimary⟩
  · exact hnew.lacks rfl
  rcases hprimary.of_rule.of_either with h | ⟨-, h⟩
  · exact h.lacks rfl
  rcases h.of_either with h | ⟨-, h⟩
  · exact h.lacks rfl
  rcases h.of_either with h | ⟨-, h⟩
  · exact h.lacks rfl
  rcases h.of_either with h | ⟨-, h⟩
  · exact h.lacks rfl
  rcases h.of_either with hfunction | ⟨-, h⟩
  · exact lacks_arrowFunction_of_functionExpr hfunction
  rcases h.of_either with hparen | ⟨-, h⟩
  · exact lacks_arrowFunction_of_parenExpr hc hparen htails hnext
  rcases h.of_either with h | ⟨-, h⟩
  · exact h.lacks rfl
  · obtain ⟨l, hname, -⟩ := h.of_build
    exact lacks_arrowFunction_of_identifier hc hname htails hnext

/-! ## Expressions -/

/-- A unary expression begins with a sign, or it is a call or member with nothing but an update after it. -/
theorem Finds.of_unary {u : Sketch} (h : Finds (ref .unary) c u m) (hm : Seam m) :
    Lacks (ref .callMember) c ∧ Lacks (ref .arrowFunction) c ∨ ∃ v n, Finds (ref .callMember) c v n ∧ Seam n := by
  rcases h.of_rule.of_either with h | ⟨-, h⟩
  · exact .inl ⟨h.lacks rfl, h.lacks rfl⟩
  rcases h.of_either with h | ⟨-, h⟩
  · exact .inl ⟨h.lacks rfl, h.lacks rfl⟩
  rcases h.of_either with h | ⟨-, h⟩
  · exact .inl ⟨h.lacks rfl, h.lacks rfl⟩
  · obtain ⟨_, hbuilt, -⟩ := h.of_rule.of_build
    obtain ⟨_, n, o, hcall, ⟨d, hoption⟩, -⟩ := hbuilt.of_seq
    obtain ⟨v, hcall, -⟩ := hcall.of_build
    refine .inr ⟨v, n, hcall, ?_⟩
    rcases Reads.of_option hoption with ⟨-, rfl, -⟩ | ⟨op, -, -, hop⟩
    · exact hm
    · exact .of_update hop.finds.of_update

/-- An operand before a seam is neither an arrow function nor an assignment. -/
theorem lacks_of_unary {u : Sketch} (hc : c.offset ≤ source.length) (h : Finds (ref .unary) c u m) (hm : Seam m) :
    Lacks (ref .arrowFunction) c ∧ Lacks (ref .assignment) c := by
  rcases h.of_unary hm with ⟨hcall, harrow⟩ | ⟨v, n, hcall, hn⟩
  · exact ⟨harrow, .rule (.build_missing (.seq_missing (.seq_missing (.build_missing (.seq_missing hcall)))))⟩
  · exact ⟨lacks_arrowFunction_of_callMember hc hcall hn, .rule (.build_missing (.seq_missing
      (.seq_found_missing (.build_found (.seq_found hcall (finds_gap n))) (.seq_missing hn.assign))))⟩

/-- **An operand that goes to the end of the text is an expression.** -/
theorem finds_expr_of_rung {level j : Nat} (hlevel : 1 ≤ level) (hj : level + j = 12) {v : Sketch}
    (hc : c.offset ≤ source.length) (h : Finds (rung level) c v next) (hend : next.rest = []) :
    Finds (ref .expr) c v next := by
  obtain ⟨u, m, hleads⟩ := h.exists_leads hlevel hj hc
  have hseam : Seam m := by
    rcases hleads.goesOn with rfl | hgoesOn
    · exact .of_rest_eq_nil hend
    · exact hgoesOn.seam
  obtain ⟨⟨d, harrow⟩, d', hassign⟩ := lacks_of_unary hc hleads.unary hseam
  obtain ⟨k, h⟩ := h
  let depth := max k (max d d')
  have hended : Ended (depth + 4) next := ended_of_rest_eq_nil hend
  have hrung : Reads (depth + 4 + (level - 1)) (rung 1) c v next := by
    have hread : Reads (depth + 4) (rung (1 + (level - 1))) c v next := by
      rw [Nat.add_sub_cancel' hlevel]
      exact Reads.mono h (by omega)
    exact reads_rung_of_misses (Nat.le_refl 1) (by omega) hread (fun l _ hl => hended.operator l hl)
      fun _ => hended.power
  exact ⟨_, reads_expr_of_rung hrung (Misses.mono harrow (by omega)) (Misses.mono hassign (by omega))
    (hended.branches.mono (by omega)) (hended.sequence.mono (by omega))⟩

end ScriptAudit
