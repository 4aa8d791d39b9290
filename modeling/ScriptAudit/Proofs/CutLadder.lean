/-
The ladder of operators when the source is cut off.
-/
import ScriptAudit.Proofs.CutUnary

namespace ScriptAudit

open ScriptGrammar

variable {source : Text} {α β γ : Type} {d e : Nat} {c m next : Cursor source} {follow : Cursor source → Prop}

/-! ## Operators -/

/-- What would make another operator of the one before it. No operand begins with it. -/
def prolongs (c : CodePoint) : Bool := c == '=' || c == '>'

/-- The texts of a pattern that is a choice of texts, with what is barred after them. -/
def Peg.texts {α : Type} : Pattern α → Option (List (Text × (CodePoint → Bool)))
  | .lexeme (.exact text barred) => some [(text, barred)]
  | .either p q =>
    match p.texts, q.texts with
    | some texts, some texts' => some (texts ++ texts')
    | _, _ => none
  | .build _ p => p.texts
  | _ => none

/-- The text with nothing after it that would prolong an operator. -/
def Start.tight (text : Text) (barred : CodePoint → Bool) : Start :=
  .lexeme (.exact text fun c => barred c || prolongs c)

theorem Finds.of_lexeme {l : Lexeme} {a : Text} (h : Finds (.lexeme l : Pattern Text) c a next) :
    ∃ n, l.length? c.rest = some n ∧ next = c.advance n := by
  obtain ⟨d, h⟩ := h
  rw [Peg.eval_lexeme] at h
  split at h
  · cases h
  · rename_i n hn
    cases h
    exact ⟨n, hn, rfl⟩

theorem Start.isThere_tight {text rest : Text} {barred : CodePoint → Bool} (hbarred : rest.head?.any barred = false)
    (hprolongs : rest.head?.any prolongs = false) : (Start.tight text barred).isThere (text ++ rest) = true := by
  have hprefix : text.isPrefixOf (text ++ rest) = true := List.isPrefixOf_iff_prefix.mpr (List.prefix_append _ _)
  have hnext : (rest.head?.any fun c => barred c || prolongs c) = false := by
    cases rest with
    | nil => rfl
    | cons x rest =>
      simp only [List.head?_cons, Option.any_some] at *
      rw [hbarred, hprolongs, Bool.false_or]
  simp [tight, isThere, Lexeme.length?, hprefix, hnext]

theorem Finds.exists_tight {p : Pattern α} {a : α} {texts : List (Text × (CodePoint → Bool))}
    (h : Finds p c a next) (hp : p.texts = some texts) (hnext : next.rest.head?.any prolongs = false) :
    ∃ text ∈ texts, (Start.tight text.1 text.2).isThere c.rest = true := by
  induction p generalizing texts with
  | lexeme l =>
    cases l with
    | «exact» text barred =>
      cases hp
      obtain ⟨n, hn, rfl⟩ := h.of_lexeme
      obtain ⟨rest, hrest, rfl, hbarred⟩ := Lexeme.exists_of_exact hn
      rw [Cursor.rest_advance, hrest, List.drop_left] at hnext
      exact ⟨_, List.mem_singleton_self _, hrest ▸ Start.isThere_tight hbarred hnext⟩
    | _ => cases hp
  | either p q ihp ihq =>
    simp only [Peg.texts] at hp
    split at hp
    · rename_i texts' texts'' htexts' htexts''
      cases hp
      rcases h.of_either with h | ⟨-, h⟩
      · obtain ⟨text, hmem, hthere⟩ := ihp h htexts'
        exact ⟨text, List.mem_append_left _ hmem, hthere⟩
      · obtain ⟨text, hmem, hthere⟩ := ihq h htexts''
        exact ⟨text, List.mem_append_right _ hmem, hthere⟩
    · cases hp
  | build f p ih =>
    obtain ⟨a, hread, -⟩ := h.of_build
    exact ih hread hp
  | _ => cases hp

/-- Where the first pattern matches and nothing prolongs it, the second does not match. -/
def Peg.bearsOff (p : Pattern α) (q : Pattern β) : Bool :=
  p.texts.any fun texts => texts.all fun text => (Start.tight text.1 text.2).bars q

theorem Finds.lacks_tight {p : Pattern α} {q : Pattern β} {a : α} (h : Finds p c a next)
    (hp : p.bearsOff q = true) (hnext : next.rest.head?.any prolongs = false) : Lacks q c := by
  obtain ⟨texts, htexts, hall⟩ := (Option.any_eq_true _ _).mp hp
  obtain ⟨text, hmem, hthere⟩ := h.exists_tight htexts hnext
  exact Start.lacks (List.all_eq_true.mp hall text hmem) hthere

/-- In the source that is cut off, nothing comes next that would prolong an operator. -/
def NotProlonged (e : Nat) (m : Cursor source) : Prop := (m.cut e).rest.head?.any prolongs = false

/-- The pattern is a choice of texts, each told from those before it by what follows. -/
def Peg.isDecided {α : Type} : Pattern α → Bool
  | .lexeme (.exact _ _) => true
  | .either p q => p.isDecided && q.isDecided && q.bearsOff p
  | .build _ p => p.isDecided
  | _ => false

theorem Stays.decided (he : e ≤ source.length) {p : Pattern α} (hp : p.isDecided = true) :
    Stays d e (NotProlonged e : Cursor source → Prop) p := by
  induction p with
  | lexeme l =>
    cases l with
    | «exact» text barred => exact .lexeme he nofun
    | _ => cases hp
  | either p q ihp ihq =>
    simp only [Peg.isDecided, Bool.and_eq_true] at hp
    exact .either (ihp hp.1.1) (ihq hp.1.2) fun _ _ _ hnext hfound => hfound.lacks_tight hp.2 hnext
  | build f p ih => exact .build (ih hp)
  | _ => cases hp

theorem stays_rungOp (he : e ≤ source.length) {level : Nat} (hlevel : 1 ≤ level ∧ level ≤ 11) :
    Stays d e (NotProlonged e : Cursor source → Prop) (rungOp level) := by
  have hcases : level = 1 ∨ level = 2 ∨ level = 3 ∨ level = 4 ∨ level = 5 ∨ level = 6 ∨ level = 7 ∨
    level = 8 ∨ level = 9 ∨ level = 10 ∨ level = 11 := by omega
  rcases hcases with rfl | rfl | rfl | rfl | rfl | rfl | rfl | rfl | rfl | rfl | rfl <;>
    exact .build (.rule fun _ _ => .decided he rfl)

/-! ## Spines -/

theorem reads_spaced_map {operator : Pattern α} {f : α → β} {a : α} (h : Reads d (spaced operator) c a next) :
    Reads d (spaced (f <$> operator)) c (f a) next := by
  obtain ⟨_, m', _, hleft, hgap, rfl⟩ := h.of_seq
  obtain ⟨_, m, _, hgap', hop, rfl⟩ := hleft.of_seq
  exact (hgap'.seq (Reads.build hop)).seq hgap

theorem Finds.of_spaced {operator : Pattern α} {a : α} (h : Finds (spaced operator) c a next) :
    ∃ m, Finds operator c.skip a m ∧ next = m.skip := by
  obtain ⟨_, m, _, hleft, hgap, rfl⟩ := h.of_seq
  obtain ⟨_, a, hop, rfl⟩ := hleft.of_gap
  exact ⟨m, hop, hgap.eq_skip⟩

/-- A chain is read along a spine. -/
theorem spine_of_chain {operand : Pattern Sketch} {operator : Pattern α} {f : α → InfixOp}
    {join : Sketch → α → Sketch → Sketch} (hjoin : ∀ l a r, join l a r = l.applied (f a) r)
    (hsolid : operand.isSolid Rule.isSolid = true) {v : Sketch} (hc : c.offset ≤ source.length)
    (h : Reads d (chain join operand operator) c v next) : Spine operand (f <$> operator) d c v next := by
  obtain ⟨first, m, steps, hfirst, hsteps, rfl⟩ := h.of_ap
  have hpart :
      (Prod.mk <$> (gap *> operator <* gap) <*> operand : Pattern (α × Sketch)).isSolid Rule.isSolid = true := by
    change (_ || operand.isSolid Rule.isSolid) = true
    rw [hsolid, Bool.or_true]
  have hruns := (hsteps.of_many hpart (hfirst.le hc).2).1
  clear hsteps h
  induction hruns with
  | nil => exact .first hfirst
  | @snoc steps step m' next hruns hm hstep hmoves ih =>
    obtain ⟨op, m'', r, hop, hr, rfl⟩ := Reads.of_ap hstep
    rw [List.foldl_append, List.foldl_cons, List.foldl_nil, hjoin]
    exact .step ih hm (reads_spaced_map hop) hr hmoves

theorem spine_of_rung {level : Nat} (hlevel : 1 ≤ level ∧ level ≤ 10) {v : Sketch} (hc : c.offset ≤ source.length)
    (h : Reads d (rung level) c v next) : ∃ k, k + 1 = d ∧ Spine (rung (level + 1)) (rungOp level) k c v next := by
  have hcases : level = 1 ∨ level = 2 ∨ level = 3 ∨ level = 4 ∨ level = 5 ∨ level = 6 ∨ level = 7 ∨
    level = 8 ∨ level = 9 ∨ level = 10 := by omega
  rcases hcases with rfl | rfl | rfl | rfl | rfl | rfl | rfl | rfl | rfl | rfl <;>
    · obtain ⟨k, hk, h⟩ := Reads.of_rule h
      exact ⟨k, hk, spine_of_chain (fun _ _ _ => rfl) rfl hc h⟩

/-- A chain is all that its rung reads, where no operator of the level comes next. -/
theorem Spine.finds_rung {level : Nat} (hlevel : 1 ≤ level ∧ level ≤ 10) {v : Sketch}
    (h : Spine (rung (level + 1)) (rungOp level) d c v next) (hstop : Lacks (rungOp level) next.skip) :
    Finds (rung level) c v next := by
  obtain ⟨d', hstop⟩ : Lacks (spaced (rungOp level)) next := .seq_missing hstop.after_gap
  exact ⟨_, reads_rung_of_spine hlevel (h.mono (Nat.le_max_left d d')) (Misses.mono hstop (Nat.le_max_right d d'))⟩

/-- An operator comes next, and an operand after it. -/
def GoesOn (c : Cursor source) : Prop :=
  ∃ level op m, (1 ≤ level ∧ level ≤ 11) ∧ Finds (rungOp level) c.skip op m ∧ ∃ u n, Finds (ref .unary) m.skip u n

/-- What a rung reads begins with a unary expression. After it nothing more is read, or an operator comes and an operand
after it. -/
structure Leads (c : Cursor source) (u : Sketch) (m next : Cursor source) : Prop where
  unary : Finds (ref .unary) c u m
  goesOn : m = next ∨ GoesOn m

theorem GoesOn.of_spaced {level : Nat} (hlevel : 1 ≤ level ∧ level ≤ 11) {op : InfixOp} {u : Sketch} {n : Cursor source}
    (hop : Finds (spaced (rungOp level)) c op m) (hunary : Finds (ref .unary) m u n) : GoesOn c := by
  obtain ⟨m', hfound, rfl⟩ := hop.of_spaced
  exact ⟨level, op, m', hlevel, hfound, u, n, hunary⟩

theorem Spine.le {operand : Pattern Sketch} {operator : Pattern InfixOp} {v : Sketch}
    (h : Spine operand operator d c v next) (hc : c.offset ≤ source.length) :
    c.offset ≤ next.offset ∧ next.offset ≤ source.length := by
  induction h with
  | first h => exact h.le hc
  | step h _ hop hr hmoves ih =>
    have hop := hop.le ih.2
    exact ⟨by omega, (hr.le hop.2).2⟩

/-- A chain begins with an operand. After it nothing more is read, or the chain goes on. -/
theorem Spine.exists_first {level : Nat} (hlevel : 1 ≤ level ∧ level ≤ 10) {v : Sketch}
    (h : Spine (rung (level + 1)) (rungOp level) d c v next) (hc : c.offset ≤ source.length)
    (hoperand : ∀ {c next : Cursor source} {v}, c.offset ≤ source.length → Finds (rung (level + 1)) c v next →
      ∃ u m, Leads c u m next) :
    ∃ v m, Reads d (rung (level + 1)) c v m ∧ (m = next ∨ GoesOn m) := by
  induction h with
  | first h => exact ⟨_, _, h, .inl rfl⟩
  | @step v r op m m' next h hm hop hr hmoves ih =>
    obtain ⟨v, m₁, hfirst, hgoesOn⟩ := ih
    refine ⟨v, m₁, hfirst, .inr ?_⟩
    rcases hgoesOn with rfl | hgoesOn
    · obtain ⟨u, n, hleads⟩ := hoperand (hop.le (h.le hc).2).2 hr.finds
      exact .of_spaced ⟨hlevel.1, by omega⟩ hop.finds hleads.unary
    · exact hgoesOn

theorem Finds.exists_base {v : Sketch} (h : Finds (ref .exponent) c v next) :
    ∃ u m o, Finds (ref .unary) c u m ∧ Finds (.option exponentPart) m o next := by
  obtain ⟨_, hbuilt, -⟩ := h.of_rule.of_build
  obtain ⟨_, m, o, hunary, hoption, -⟩ := hbuilt.of_seq
  obtain ⟨u, hunary, -⟩ := hunary.of_build
  exact ⟨u, m, o, hunary, hoption⟩

theorem Finds.exists_leads {level : Nat} (hlevel : 1 ≤ level) {j : Nat} (hj : level + j = 12) {v : Sketch}
    (hc : c.offset ≤ source.length) (h : Finds (rung level) c v next) : ∃ u m, Leads c u m next := by
  induction j generalizing level c v next with
  | zero =>
    obtain rfl : level = 12 := by omega
    exact ⟨v, next, h, .inl rfl⟩
  | succ j ih =>
    rcases Nat.lt_or_ge level 11 with hlt | hge
    · obtain ⟨d, h⟩ := h
      obtain ⟨k, -, hspine⟩ := spine_of_rung ⟨hlevel, by omega⟩ hc h
      obtain ⟨v, m, hfirst, hgoesOn⟩ := hspine.exists_first ⟨hlevel, by omega⟩ hc fun hc => ih (by omega) (by omega) hc
      obtain ⟨u, m', hleads⟩ := ih (by omega) (by omega) hc hfirst.finds
      refine ⟨u, m', hleads.unary, ?_⟩
      rcases hleads.goesOn with rfl | hgoesOn'
      · exact hgoesOn
      · exact .inr hgoesOn'
    · obtain rfl : level = 11 := by omega
      obtain ⟨u, m, o, hunary, d, hoption⟩ := Finds.exists_base h
      refine ⟨u, m, hunary, ?_⟩
      rcases Reads.of_option hoption with ⟨-, rfl, -⟩ | ⟨part, rfl, -, hpart⟩
      · exact .inl rfl
      · obtain ⟨op, m', r, hop, hr, -⟩ := hpart.of_ap
        obtain ⟨u', n, -, hunary', -⟩ := Finds.exists_base hr.finds
        exact .inr (.of_spaced (by decide : 1 ≤ 11 ∧ 11 ≤ 11) (reads_spaced_map hop).finds hunary')

/-- Before an operand, nothing prolongs the operator. -/
theorem prolongs_of_unary {v : Sketch} (h : Finds (ref .unary) c.skip v next) : c.rest.head?.any prolongs = false := by
  by_contra hprolongs
  obtain ⟨x, hx, hprolongs⟩ := (Option.any_eq_true _ _).mp (Bool.of_not_eq_false hprolongs)
  obtain ⟨rest, hrest⟩ := List.head?_eq_some_iff.mp hx
  have hcases : x = '=' ∨ x = '>' := by simpa [prolongs] using hprolongs
  have hlacks : Lacks (ref .unary) c.skip := by
    rcases hcases with rfl | rfl
    · have hthere : (Start.lexeme (.exact "=" fun _ => false)).isThere c.rest = true := by
        rw [hrest]
        cases rest <;> rfl
      rw [Cursor.skip_eq_of_start (by decide) hthere]
      exact Start.lacks rfl hthere
    · have hthere : (Start.lexeme (.exact ">" fun _ => false)).isThere c.rest = true := by
        rw [hrest]
        cases rest <;> rfl
      rw [Cursor.skip_eq_of_start (by decide) hthere]
      exact Start.lacks rfl hthere
  cases h.unique hlacks

section

variable (he : e ≤ source.length)
include he

/-- Before an operand, an operator stays with the blanks around it. -/
theorem stays_spaced {operator : Pattern α} (hop : Stays d e (NotProlonged e : Cursor source → Prop) operator) :
    Stays d e (fun m : Cursor source => ∃ v n, Finds (ref .unary) (m.cut e) v n) (spaced operator) := by
  refine .seq (.andThen (stays_gap he) hop) (stays_gap he) fun _ _ _ hunary hgap => ?_
  obtain ⟨v, n, hunary⟩ := hunary
  exact prolongs_of_unary (hgap.eq_skip ▸ hunary)

theorem stays_exponent : Stays d e (fun m : Cursor source => Halts 11 (m.cut e)) (rung 11) := by
  induction d using Nat.strongRecOn with
  | ind d ih =>
    have hpart {k} (hk : k < d) : Stays k e (fun m : Cursor source => Halts 11 (m.cut e)) exponentPart := by
      have hop : Stays k e (NotProlonged e : Cursor source → Prop) (ref .expOp) :=
        .rule fun _ _ => .decided he rfl
      refine .seq (.build (stays_spaced he hop)) (ih k hk) fun _ _ _ _ hfound => ?_
      obtain ⟨u, n, -, hunary, -⟩ := hfound.exists_base
      exact ⟨u, n, hunary⟩
    refine .rule fun k hk => .build (.seq (.build (stays_unary he))
      (.option he rfl (hpart (by omega)) ?stop) ?before)
    case stop =>
      intro c _ _ hhalts
      have hop : Lacks (ref .expOp) (c.cut e).skip := (hhalts.operator 11 (by omega) (by omega)).of_build
      exact .seq_missing (.build_missing (.seq_missing hop.after_gap))
    case before =>
      intro m o next hm hread hnext hhalts _
      rcases hread.of_option with ⟨rfl, rfl, -⟩ | ⟨part, rfl, -, hread⟩
      · exact hhalts.mono (by omega)
      · obtain ⟨_, m', _, hop, -, -⟩ := (hpart (by omega) hm hread hnext hhalts).of_seq
        obtain ⟨op, hop, -⟩ := hop.of_build
        obtain ⟨m', hop, -⟩ := hop.of_spaced
        have hop : Finds (rungOp 11) (m.cut e).skip _ m' := .build_found hop
        exact .of_operator ⟨by omega, by omega⟩ (by omega) hop

/-- **A chain of operands and operators stays**, if its operands do. -/
theorem Spine.cut {level : Nat} (hlevel : 1 ≤ level ∧ level ≤ 10)
    (hoperand : Stays d e (fun m : Cursor source => Halts (level + 1) (m.cut e)) (rung (level + 1))) {v : Sketch}
    (h : Spine (rung (level + 1)) (rungOp level) d c v next) (hc : c.offset ≤ source.length) (hnext : next.offset ≤ e)
    (hhalts : Halts (level + 1) (next.cut e)) :
    ∃ depth, Spine (rung (level + 1)) (rungOp level) depth (c.cut e) v (next.cut e) := by
  induction h with
  | first h =>
    obtain ⟨depth, hfound⟩ := hoperand hc h hnext hhalts
    exact ⟨depth, .first hfound⟩
  | @step v r op m m' next h hm hop hr hmoves ih =>
    have hopSpan := hop.le (by omega)
    have hrSpan := hr.le hopSpan.2
    have hr' := hoperand hopSpan.2 hr hnext hhalts
    obtain ⟨u, n, hleads⟩ := hr'.exists_leads (j := 12 - (level + 1)) (by omega) (by omega) (by
      rw [List.length_take_of_le he]
      exact Nat.le_trans hrSpan.1 hnext)
    have hop' := stays_spaced he (stays_rungOp he ⟨hlevel.1, by omega⟩) (by omega) hop (by omega) ⟨u, n, hleads.unary⟩
    obtain ⟨_, hfound, -⟩ := hop'.of_spaced
    have hhalts' : Halts (level + 1) (m.cut e) := .of_operator ⟨hlevel.1, by omega⟩ (by omega) hfound
    obtain ⟨depth, hspine⟩ := ih (by omega) hhalts'
    obtain ⟨depth', hop', hr'⟩ := hop'.both hr'
    exact ⟨max depth depth', .step (hspine.mono (Nat.le_max_left _ _)) (Cursor.atEnd_cut he (by omega))
      (Reads.mono hop' (Nat.le_max_right _ _)) (Reads.mono hr' (Nat.le_max_right _ _)) hmoves⟩

/-- **What a rung reads stays.** -/
theorem stays_rung {level : Nat} (hlevel : 1 ≤ level) {j : Nat} (hj : level + j = 12) :
    Stays d e (fun m : Cursor source => Halts level (m.cut e)) (rung level) := by
  induction j generalizing level d with
  | zero =>
    obtain rfl : level = 12 := by omega
    exact stays_unary he
  | succ j ih =>
    rcases Nat.lt_or_ge level 11 with hlt | hge
    · intro c v next hc hread hnext hhalts
      obtain ⟨k, -, hspine⟩ := spine_of_rung ⟨hlevel, by omega⟩ hc hread
      obtain ⟨depth, hspine'⟩ := hspine.cut he ⟨hlevel, by omega⟩ (ih (by omega) (by omega)) hc hnext
        (hhalts.mono (by omega))
      exact hspine'.finds_rung ⟨hlevel, by omega⟩ (hhalts.operator level (by omega) (by omega))
    · obtain rfl : level = 11 := by omega
      exact stays_exponent he

end

end ScriptAudit
