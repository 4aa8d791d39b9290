/-
Matches inside brackets. Every rule of the grammar closes what it opens and nothing else, which is a matter of looking
through the rules (`scriptGrammar_leads`). So the scanner passes every match and is on the level where it was
(`scans_of_reads`), and no rule gets over a bracket that closes more than was opened.

What comes behind such a bracket makes no difference: before it, all expressions match in the same way if the source is
cut off somewhere behind it (`Peg.eval_cut`). The proof goes by the depth of the rules and by the expression, and needs
nothing of the expressions but their lexemes.
-/
import ScriptAudit.Proofs.Brackets
import ScriptAudit.Proofs.Reading

namespace ScriptAudit

/-! ## Sources that are cut off -/

section Cut

variable {source : Text} {α : Type} {e : Nat} {c next : Cursor source}

/-- The same place in the source cut off at `e`. -/
def Cursor.cut (e : Nat) (c : Cursor source) : Cursor (source.take e) := ⟨c.offset, (source.take e).drop c.offset, rfl⟩

def Reply.cut (e : Nat) : Reply source α → Reply (source.take e) α
  | found a next => found a (next.cut e)
  | missing => missing

theorem Cursor.advance_cut (c : Cursor source) (n : Nat) : (c.advance n).cut e = (c.cut e).advance n :=
  Cursor.ext_offset rfl

theorem Cursor.rest_cut (hc : c.offset ≤ e) (he : e ≤ source.length) : c.rest = (c.cut e).rest ++ source.drop e := by
  have hle : c.offset ≤ (source.take e).length := by rwa [List.length_take_of_le he]
  have hsplit : (source.take e ++ source.drop e).drop c.offset = (source.take e).drop c.offset ++ source.drop e :=
    List.drop_append_of_le_length hle
  rwa [List.take_append_drop, ← c.rest_eq] at hsplit

theorem Cursor.length_rest (c : Cursor source) : c.rest.length = source.length - c.offset := by
  rw [c.rest_eq, List.length_drop]

theorem Cursor.length_rest_cut (he : e ≤ source.length) : (c.cut e).rest.length = e - c.offset := by
  rw [(c.cut e).length_rest, List.length_take_of_le he]
  rfl

/-- Places before the end are told apart by what comes after them. -/
theorem Cursor.eq_of_rest_eq (h : c.rest = next.rest) (hc : c.rest ≠ []) : next = c := by
  have hlength := congrArg List.length h
  have hpos := List.length_pos_iff.mpr hc
  rw [c.length_rest] at hpos
  rw [c.length_rest, next.length_rest] at hlength
  exact Cursor.ext_offset (by omega)

/-- The scanner stops at a bracket before the cut. -/
structure Cursor.Inside (e : Nat) (modes : List Mode) (c : Cursor source) : Prop where
  offset : c.offset ≤ e
  enclosed : Enclosed modes (c.cut e).rest (source.drop e)

namespace Cursor.Inside

variable {modes modes' : List Mode}

theorem scans (h : c.Inside e modes) (he : e ≤ source.length) (hscans : Scans modes c.rest modes' next.rest) :
    next.Inside e modes' := by
  have hrest := Cursor.rest_cut h.offset he
  obtain ⟨mode, k, w, hk, hstop⟩ := h.enclosed
  rw [← hrest] at hstop
  have htail := hscans.tail hstop (scan_closed hk _)
  have hlength := htail.length_le
  rw [next.length_rest] at hlength
  simp only [List.length_cons, List.length_append, List.length_drop] at hlength
  have hnext : next.offset ≤ e := by omega
  exact ⟨hnext, mode, k, w, hk, Cursor.rest_cut hnext he ▸ htail⟩

theorem of_scans (h : next.Inside e modes') (he : e ≤ source.length) (hscans : Scans modes c.rest modes' next.rest) :
    c.Inside e modes := by
  have hlength := hscans.length_le
  obtain ⟨mode, k, w, hk, hstop⟩ := h.enclosed
  rw [← Cursor.rest_cut h.offset he] at hstop
  have hstopped := hstop.length_le
  rw [c.length_rest, next.length_rest] at hlength
  rw [next.length_rest] at hstopped
  simp only [List.length_cons, List.length_append, List.length_drop] at hstopped
  have hc : c.offset ≤ e := by omega
  exact ⟨hc, mode, k, w, hk, Cursor.rest_cut hc he ▸ hscans.trans hstop⟩

theorem rest_cut_ne_nil (h : c.Inside e modes) : (c.cut e).rest ≠ [] := by
  intro hnil
  have := h.enclosed.ne_length (n := 0) (.refl _ _)
  rw [hnil] at this
  cases this

theorem atEnd_cut (h : c.Inside e modes) : (c.cut e).atEnd = false :=
  List.isEmpty_eq_false_iff.mpr h.rest_cut_ne_nil

theorem atEnd (h : c.Inside e modes) (he : e ≤ source.length) : c.atEnd = false := by
  refine List.isEmpty_eq_false_iff.mpr fun hnil => h.rest_cut_ne_nil ?_
  rw [Cursor.rest_cut h.offset he] at hnil
  exact (List.append_eq_nil_iff.mp hnil).1

end Cursor.Inside

end Cut

/-! ## What expressions open and close -/

section Leads

variable {Rule : Type} {Out : Rule → Type} {source : Text} {α : Type}

/-- The modes of the scanner behind a match, if it passes all matches. Each rule is tried in one mode and gives it
back. -/
def Peg.leads (mode : Rule → Mode) {α : Type} : Peg Out α → List Mode → Option (List Mode)
  | .lexeme l, modes => l.leads modes
  | .rule r, modes => Lexeme.within (mode r) modes
  | .seq _ p q, modes => (p.leads mode modes).bind fun modes => q.leads mode modes
  | .either p q, modes => if p.leads mode modes = q.leads mode modes then p.leads mode modes else none
  | .many p, modes | .option p, modes => if p.leads mode modes = some modes then some modes else none
  | .absent p, modes => if (p.leads mode modes).isSome then some modes else none
  | .build _ p, modes => p.leads mode modes

/-- The scanner passes what the rules match. -/
def CallsScan (mode : Rule → Mode) (call : (r : Rule) → Cursor source → Option (Reply source (Out r))) : Prop :=
  ∀ r c a next, call r c = some (.found a next) → Scans [mode r] c.rest [mode r] next.rest

variable {mode : Rule → Mode} {call : (r : Rule) → Cursor source → Option (Reply source (Out r))}
  {modes modes' : List Mode}

theorem scans_iterate {step : Cursor source → Option (Reply source α)}
    (h : ∀ c a next, step c = some (.found a next) → Scans modes c.rest modes next.rest) (bound : Text) :
    ∀ c as next, iterate step bound c = some (.found as next) → Scans modes c.rest modes next.rest := by
  induction bound with
  | nil =>
    intro c as next heval
    cases heval
    exact .refl _ _
  | cons _ bound ih =>
    intro c as next heval
    unfold iterate at heval
    split at heval
    · cases heval
      exact .refl _ _
    · split at heval
      · cases heval
      · cases heval
        exact .refl _ _
      · rename_i a m hstep
        split at heval
        · cases heval
          exact h c a _ hstep
        · cases hrest : iterate step bound m with
          | none => simp [hrest] at heval
          | some reply =>
            cases reply with
            | missing => simp [hrest] at heval
            | found as' last =>
              simp only [hrest, Option.some.injEq, Reply.found.injEq] at heval
              obtain ⟨-, rfl⟩ := heval
              exact (h c a m hstep).trans (ih m as' _ hrest)

/-- The scanner passes what an expression matches. -/
theorem Peg.scans (hcall : CallsScan mode call) (p : Peg Out α) : ∀ {modes modes' c a next},
    p.leads mode modes = some modes' → p.eval call c = some (.found a next) → Scans modes c.rest modes' next.rest := by
  induction p with
  | lexeme l =>
    intro modes modes' c a next hl heval
    rw [Peg.eval_lexeme] at heval
    split at heval
    · cases heval
    · rename_i n hn
      cases heval
      exact Lexeme.scans hl hn
  | rule r =>
    intro modes modes' c a next hl heval
    obtain ⟨outer, rfl, rfl⟩ := Lexeme.within_eq_some hl
    exact (hcall r c a next heval).append outer
  | seq f p q ihp ihq =>
    intro modes modes' c x next hl heval
    obtain ⟨middle, hp, hq⟩ := Option.bind_eq_some_iff.mp hl
    rw [Peg.eval_seq] at heval
    split at heval
    · cases heval
    · cases heval
    · rename_i a m hpeval
      split at heval
      · cases heval
      · cases heval
      · rename_i b next' hqeval
        cases heval
        exact (ihp hp hpeval).trans (ihq hq hqeval)
  | either p q ihp ihq =>
    intro modes modes' c a next hl heval
    simp only [Peg.leads] at hl
    split at hl
    · rename_i heq
      rw [Peg.eval_either] at heval
      split at heval
      · exact ihq (heq ▸ hl) heval
      · exact ihp hl heval
    · cases hl
  | many p ih =>
    intro modes modes' c as next hl heval
    simp only [Peg.leads] at hl
    split at hl
    · rename_i hp
      cases hl
      exact scans_iterate (fun c a next => ih hp) c.rest c as next heval
    · cases hl
  | option p ih =>
    intro modes modes' c a next hl heval
    simp only [Peg.leads] at hl
    split at hl
    · rename_i hp
      cases hl
      rw [Peg.eval_option] at heval
      split at heval
      · cases heval
        exact .refl _ _
      · split at heval
        · cases heval
        · cases heval
          exact .refl _ _
        · rename_i hpeval
          cases heval
          exact ih hp hpeval
    · cases hl
  | absent p ih =>
    intro modes modes' c a next hl heval
    simp only [Peg.leads] at hl
    split at hl
    · cases hl
      rw [Peg.eval_absent] at heval
      split at heval
      · cases heval
      · cases heval
        exact .refl _ _
      · cases heval
    · cases hl
  | build f p ih =>
    intro modes modes' c a next hl heval
    rw [Peg.eval_build] at heval
    split at heval
    · cases heval
    · cases heval
    · rename_i hpeval
      cases heval
      exact ih hl hpeval

/-! ## What is behind a bracket -/

/-- Inside brackets, the rules come to the same replies if the source is cut off behind them. -/
def CallsCut (mode : Rule → Mode) (e : Nat) (call : (r : Rule) → Cursor source → Option (Reply source (Out r)))
    (call' : (r : Rule) → Cursor (source.take e) → Option (Reply (source.take e) (Out r))) : Prop :=
  ∀ r c outer, c.Inside e (mode r :: outer) → call' r (c.cut e) = (call r c).map (Reply.cut e)

variable {e : Nat} {call' : (r : Rule) → Cursor (source.take e) → Option (Reply (source.take e) (Out r))}

theorem iterate_cut (he : e ≤ source.length) {step : Cursor source → Option (Reply source α)}
    {step' : Cursor (source.take e) → Option (Reply (source.take e) α)}
    (hscans : ∀ c a next, step c = some (.found a next) → Scans modes c.rest modes next.rest)
    (hstep : ∀ c, c.Inside e modes → step' (c.cut e) = (step c).map (Reply.cut e)) (bound' : Text) :
    ∀ (bound : Text) c, c.Inside e modes → c.rest.length ≤ bound.length → (c.cut e).rest.length ≤ bound'.length →
      iterate step' bound' (c.cut e) = (iterate step bound c).map (Reply.cut e) := by
  induction bound' with
  | nil =>
    intro bound c hc _ hbound
    exact absurd (List.length_eq_zero_iff.mp (Nat.le_zero.mp hbound)) hc.rest_cut_ne_nil
  | cons _ bound' ih =>
    intro bound c hc hbound hbound'
    have hend := hc.atEnd he
    have hrest : c.rest ≠ [] := List.isEmpty_eq_false_iff.mp hend
    have hpos := List.length_pos_iff.mpr hrest
    cases bound with
    | nil =>
      rw [List.length_nil] at hbound
      omega
    | cons _ bound =>
      rw [iterate, iterate, if_neg (by simp [hc.atEnd_cut]), if_neg (by simp [hend]), hstep c hc]
      cases hfound : step c with
      | none => rfl
      | some reply =>
        cases reply with
        | missing => rfl
        | found a next =>
          have hscan := hscans c a next hfound
          have hnext := hc.scans he hscan
          simp only [Option.map_some, Reply.cut]
          change (if next.offset = c.offset then _ else _) = _
          split
          · rfl
          · rename_i hmoves
            have hshorter := hscan.length_le
            rw [next.length_rest, c.length_rest] at hshorter
            rw [c.length_rest] at hpos hbound
            have hle := hnext.offset
            rw [Cursor.length_rest_cut he] at hbound'
            rw [List.length_cons] at hbound hbound'
            rw [ih bound next hnext (by rw [next.length_rest]; omega) (by rw [Cursor.length_rest_cut he]; omega)]
            cases iterate step bound next with
            | none => rfl
            | some reply => cases reply <;> rfl

/-- **What comes behind the bracket makes no difference.** -/
theorem Peg.eval_cut (he : e ≤ source.length) (hscan : CallsScan mode call) (hcall : CallsCut mode e call call')
    (p : Peg Out α) : ∀ {modes modes' outer c}, p.leads mode modes = some modes' → c.Inside e (modes ++ outer) →
      p.eval call' (c.cut e) = (p.eval call c).map (Reply.cut e) := by
  induction p with
  | lexeme l =>
    intro modes modes' outer c hl hc
    have hrest := Cursor.rest_cut hc.offset he
    rw [Peg.eval_lexeme, Peg.eval_lexeme, Lexeme.length?_of_enclosed hl hc.enclosed, ← hrest]
    cases hn : l.length? c.rest with
    | none => rfl
    | some n =>
      have hlt : n < (c.cut e).rest.length := by
        have hlength := Lexeme.length?_of_enclosed hl hc.enclosed
        rw [← hrest, hn] at hlength
        exact hc.enclosed.ne_length ((Lexeme.scans hl hlength).append outer)
      simp only [Option.map_some, Reply.cut]
      rw [hrest, List.take_append_of_le_length (Nat.le_of_lt hlt), Cursor.advance_cut]
  | rule r =>
    intro modes modes' outer c hl hc
    obtain ⟨inner, rfl, -⟩ := Lexeme.within_eq_some hl
    exact hcall r c (inner ++ outer) hc
  | seq f p q ihp ihq =>
    intro modes modes' outer c hl hc
    obtain ⟨middle, hp, hq⟩ := Option.bind_eq_some_iff.mp hl
    rw [Peg.eval_seq, Peg.eval_seq, ihp hp hc]
    cases hfound : p.eval call c with
    | none => rfl
    | some reply =>
      cases reply with
      | missing => rfl
      | found a m =>
        have hm := hc.scans he ((p.scans hscan hp hfound).append outer)
        simp only [Option.map_some, Reply.cut]
        rw [ihq hq hm]
        cases q.eval call m with
        | none => rfl
        | some reply => cases reply <;> rfl
  | either p q ihp ihq =>
    intro modes modes' outer c hl hc
    simp only [Peg.leads] at hl
    split at hl
    · rename_i heq
      rw [Peg.eval_either, Peg.eval_either, ihp hl hc]
      cases p.eval call c with
      | none => rfl
      | some reply =>
        cases reply with
        | missing => exact ihq (heq ▸ hl) hc
        | found a next => rfl
    · cases hl
  | many p ih =>
    intro modes modes' outer c hl hc
    simp only [Peg.leads] at hl
    split at hl
    · rename_i hp
      exact iterate_cut he (fun c a next h => (p.scans hscan hp h).append outer) (fun c hc => ih hp hc) _ _ c hc
        (Nat.le_refl _) (Nat.le_refl _)
    · cases hl
  | option p ih =>
    intro modes modes' outer c hl hc
    simp only [Peg.leads] at hl
    split at hl
    · rename_i hp
      rw [Peg.eval_option, Peg.eval_option, if_neg (by simp [hc.atEnd_cut]), if_neg (by simp [hc.atEnd he]), ih hp hc]
      cases p.eval call c with
      | none => rfl
      | some reply => cases reply <;> rfl
    · cases hl
  | absent p ih =>
    intro modes modes' outer c hl hc
    simp only [Peg.leads] at hl
    split at hl
    · rename_i hp
      obtain ⟨modes'', hp⟩ := Option.isSome_iff_exists.mp hp
      rw [Peg.eval_absent, Peg.eval_absent, ih hp hc]
      cases p.eval call c with
      | none => rfl
      | some reply => cases reply <;> rfl
    · cases hl
  | build f p ih =>
    intro modes modes' outer c hl hc
    rw [Peg.eval_build, Peg.eval_build, ih hl hc]
    cases p.eval call c with
    | none => rfl
    | some reply => cases reply <;> rfl

end Leads

/-! ## The grammar of scripts -/

open ScriptGrammar

/-- The mode in which a rule is tried. -/
def Rule.mode : Rule → Mode
  | templatePart | templateSubst | templateChars => .template
  | _ => .code

/-- Every rule closes what it opens, and nothing else. -/
theorem scriptGrammar_leads (r : Rule) : (scriptGrammar r).leads Rule.mode [r.mode] = some [r.mode] := by
  cases r <;> rfl

variable {source : Text} {α β γ : Type} {d e : Nat} {c m next : Cursor source} {modes modes' outer : List Mode}

theorem callsScan (d : Nat) : CallsScan Rule.mode fun r (c : Cursor source) => scriptGrammar.eval d r c := by
  induction d with
  | zero => intro r c a next h; cases h
  | succ d ih => exact fun r c a next h => (scriptGrammar r).scans ih (scriptGrammar_leads r) h

theorem callsCut (he : e ≤ source.length) (d : Nat) :
    CallsCut Rule.mode e (fun r (c : Cursor source) => scriptGrammar.eval d r c) (scriptGrammar.eval d) := by
  induction d with
  | zero => exact fun r c outer hc => rfl
  | succ d ih => exact fun r c outer hc => (scriptGrammar r).eval_cut he (callsScan d) ih (scriptGrammar_leads r) hc

/-- The scanner passes what a pattern reads. -/
theorem Reads.scans {p : Pattern α} {a : α} (h : Reads d p c a next) (hp : p.leads Rule.mode modes = some modes') :
    Scans modes c.rest modes' next.rest :=
  p.scans (callsScan d) hp h

/-- A match inside brackets stays if the source is cut off behind them. -/
theorem Reads.cut_inside {p : Pattern α} {a : α} (h : Reads d p c a next) (he : e ≤ source.length)
    (hp : p.leads Rule.mode modes = some modes') (hc : c.Inside e (modes ++ outer)) :
    Reads d p (c.cut e) a (next.cut e) := by
  rw [Reads, p.eval_cut he (callsScan d) (callsCut he d) hp hc, h]
  rfl

/-! ## Brackets and what is between them -/

section Bracketed

variable {Out : Rule → Type}

/-- The expression begins with the opening bracket and leaves it open. -/
def Peg.opens (opening : Text) (mode : Mode) {α : Type} : Peg Out α → Bool
  | .lexeme (.exact text barred) =>
    text == opening && Lexeme.leads (.exact text barred) [.code] == some [mode, .code]
  | .seq _ p q => p.opens opening mode && q.leads Rule.mode [mode] == some [mode]
  | .build _ p => p.opens opening mode
  | _ => false

/-- The expression begins with the opening bracket and ends with the one that closes it. -/
def Peg.isBracketed (opening : Text) (mode : Mode) {α : Type} : Peg Out α → Bool
  | .seq _ p (.lexeme (.exact [k] _)) => p.opens opening mode && mode.closedBy k
  | .build _ p => p.isBracketed opening mode
  | _ => false

end Bracketed

variable {opening : Text} {mode : Mode}

/-- Found text stays found if the source is cut off behind it. -/
theorem reads_lexeme_cut {l : Lexeme} {a : Text} (hl : l ≠ .chunk) (he : e ≤ source.length)
    (h : Reads d (.lexeme l : Pattern Text) c a next) (hnext : next.offset ≤ e) :
    Reads d (.lexeme l : Pattern Text) (c.cut e) a (next.cut e) := by
  rw [Reads, Peg.eval_lexeme] at h ⊢
  split at h
  · cases h
  · rename_i n hn
    cases h
    change c.offset + n ≤ e at hnext
    have hrest := Cursor.rest_cut (c := c) (Nat.le_trans (Nat.le_add_right _ n) hnext) he
    have hlength := Cursor.length_rest_cut (c := c) he
    rw [hrest] at hn
    rw [Lexeme.length?_of_append hl hn (by omega), hrest, List.take_append_of_le_length (by omega), Cursor.advance_cut]

/-- Up to the brackets: what comes after the opening bracket, and that it is enclosed. -/
theorem Reads.cut_opens {p : Pattern α} {a : α} (h : Reads d p c a next) (hp : p.opens opening mode = true)
    (he : e ≤ source.length) (hnext : next.Inside e [mode]) : Reads d p (c.cut e) a (next.cut e) := by
  induction p generalizing next with
  | lexeme l =>
    cases l with
    | «exact» text barred => exact reads_lexeme_cut nofun he h hnext.offset
    | _ => cases hp
  | seq f p q ihp =>
    obtain ⟨hp, hq⟩ := Bool.and_eq_true_iff.mp hp
    obtain ⟨a, m, b, hfirst, hsecond, rfl⟩ := Reads.of_seq h
    have hq := beq_iff_eq.mp hq
    have hm := hnext.of_scans he (hsecond.scans hq)
    exact (ihp hfirst hp hm).seq (hsecond.cut_inside he hq hm)
  | build f p ih =>
    obtain ⟨a, hread, rfl⟩ := Reads.of_build h
    exact Reads.build (ih hread hp hnext)
  | _ => cases hp

/-- The scanner passes what stands after the opening bracket. -/
theorem Reads.scans_opens {p : Pattern α} {a : α} (h : Reads d p c a next) (hp : p.opens opening mode = true) :
    opening <+: c.rest ∧ Scans [mode] (c.rest.drop opening.length) [mode] next.rest := by
  induction p generalizing next with
  | lexeme l =>
    cases l with
    | «exact» text barred =>
      obtain ⟨htext, -⟩ := Bool.and_eq_true_iff.mp hp
      obtain rfl := beq_iff_eq.mp htext
      rw [Reads, Peg.eval_lexeme] at h
      split at h
      · cases h
      · rename_i n hn
        cases h
        obtain ⟨rest, hrest, rfl, -⟩ := Lexeme.exists_of_exact hn
        exact ⟨⟨rest, hrest.symm⟩, .refl _ _⟩
    | _ => cases hp
  | seq f p q ihp =>
    obtain ⟨hp, hq⟩ := Bool.and_eq_true_iff.mp hp
    obtain ⟨a, m, b, hfirst, hsecond, rfl⟩ := Reads.of_seq h
    obtain ⟨hopening, hscans⟩ := ihp hfirst hp
    exact ⟨hopening, hscans.trans (hsecond.scans (beq_iff_eq.mp hq))⟩
  | build f p ih =>
    obtain ⟨a, hread, rfl⟩ := Reads.of_build h
    exact ih hread hp
  | _ => cases hp

/-- A bracket before the cut. -/
theorem Cursor.Inside.closer {k : CodePoint} {t : Text} (hk : mode.closedBy k = true) (hc : c.rest = k :: t)
    (he : e ≤ source.length) (hlt : c.offset < e) : c.Inside e [mode] := by
  have hrest := Cursor.rest_cut (Nat.le_of_lt hlt) he
  have hlength := Cursor.length_rest_cut (c := c) he
  refine ⟨Nat.le_of_lt hlt, mode, k, (c.cut e).rest.tail, hk, ?_⟩
  cases hcut : (c.cut e).rest with
  | nil =>
    rw [hcut, List.length_nil] at hlength
    omega
  | cons k' w =>
    rw [hcut, hc, List.cons_append] at hrest
    cases hrest
    exact .refl _ _

/-- The parts of a match between brackets: all up to the closing one, and that one. -/
theorem Reads.of_closed {k : CodePoint} {barred : CodePoint → Bool} {f : α → Text → γ} {p : Pattern α} {x : γ}
    (h : Reads d (.seq f p (.lexeme (.exact [k] barred))) c x next) :
    ∃ a m t, Reads d p c a m ∧ m.rest = k :: t ∧ next = m.advance 1 ∧ x = f a [k] ∧
      Reads d (.lexeme (.exact [k] barred) : Pattern Text) m [k] next := by
  obtain ⟨a, m, b, hp, hclose, rfl⟩ := Reads.of_seq h
  have hread := hclose
  rw [Reads, Peg.eval_lexeme] at hclose
  split at hclose
  · cases hclose
  · rename_i n hn
    obtain ⟨t, hrest, rfl, -⟩ := Lexeme.exists_of_exact hn
    rw [hrest] at hclose
    cases hclose
    exact ⟨a, m, t, hp, hrest, rfl, rfl, hread⟩

/-- **A match between brackets stays if the source is cut off behind them.** -/
theorem Reads.cut_bracketed {p : Pattern α} {a : α} (h : Reads d p c a next) (hp : p.isBracketed opening mode = true)
    (he : e ≤ source.length) (hnext : next.offset ≤ e) : Reads d p (c.cut e) a (next.cut e) := by
  fun_induction Peg.isBracketed opening mode p with
  | case1 _ _ f p k barred =>
    obtain ⟨hp, hk⟩ := Bool.and_eq_true_iff.mp hp
    obtain ⟨a, m, t, hfirst, hrest, rfl, rfl, hclose⟩ := Reads.of_closed h
    have hm : m.Inside e [mode] := .closer hk hrest he hnext
    exact (hfirst.cut_opens hp he hm).seq (reads_lexeme_cut nofun he hclose hnext)
  | case2 _ _ f p ih =>
    obtain ⟨a, hread, rfl⟩ := Reads.of_build h
    exact Reads.build (ih hread hp)
  | case3 => cases hp

/-- What the scanner does from the opening bracket on: it stops at the one that closes it, where the match ends. -/
theorem Reads.scans_bracketed {p : Pattern α} {a : α} (h : Reads d p c a next)
    (hp : p.isBracketed opening mode = true) :
    ∃ (m : Cursor source) (k : CodePoint) (t : Text), opening <+: c.rest ∧
      Scans [mode] (c.rest.drop opening.length) [mode] m.rest ∧ mode.closedBy k = true ∧ m.rest = k :: t ∧
      next = m.advance 1 := by
  fun_induction Peg.isBracketed opening mode p with
  | case1 _ _ f p k barred =>
    obtain ⟨hp, hk⟩ := Bool.and_eq_true_iff.mp hp
    obtain ⟨a, m, t, hfirst, hrest, rfl, rfl, -⟩ := Reads.of_closed h
    obtain ⟨hopening, hscans⟩ := hfirst.scans_opens hp
    exact ⟨m, k, t, hopening, hscans, hk, hrest, rfl⟩
  | case2 _ _ f p ih =>
    obtain ⟨a, hread, rfl⟩ := Reads.of_build h
    exact ih hread hp
  | case3 => cases hp

/-- Whatever is read between the same brackets ends at the same place. -/
theorem Reads.bracketed_unique {p : Pattern α} {q : Pattern β} {a : α} {b : β} {d' : Nat} {next' : Cursor source}
    (h : Reads d p c a next) (hp : p.isBracketed opening mode = true) (h' : Reads d' q c b next')
    (hq : q.isBracketed opening mode = true) : next' = next := by
  obtain ⟨m, k, t, -, hscans, hk, hm, rfl⟩ := h.scans_bracketed hp
  obtain ⟨m', k', t', -, hscans', hk', hm', rfl⟩ := h'.scans_bracketed hq
  obtain ⟨-, hrest⟩ := hscans.unique (hm ▸ scan_closed hk t) hscans' (hm' ▸ scan_closed hk' t')
  rw [Cursor.eq_of_rest_eq hrest (hm ▸ List.cons_ne_nil k t)]

end ScriptAudit
