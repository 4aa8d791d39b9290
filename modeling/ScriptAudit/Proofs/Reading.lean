/-
Matches of the script grammar at a given depth, put together from the matches of their parts.
-/
import ScriptAudit.Proofs.Foresight

namespace ScriptAudit

open ScriptGrammar

variable {source : Text} {α β γ : Type} {d : Nat} {c m next : Cursor source}

/-- The pattern matches from one place to another, within some depth of rules. -/
abbrev Reads (d : Nat) (p : Pattern α) (c : Cursor source) (a : α) (next : Cursor source) : Prop :=
  p.eval (scriptGrammar.eval d) c = some (.found a next)

/-- The pattern does not match, and some depth of rules suffices to see it. -/
abbrev Misses (d : Nat) (p : Pattern α) (c : Cursor source) : Prop :=
  p.eval (scriptGrammar.eval d) c = some .missing

theorem Reads.mono {p : Pattern α} {a : α} {d' : Nat} (h : Reads d p c a next) (hd : d ≤ d') :
    Reads d' p c a next :=
  Peg.eval_mono (fun r c reply => scriptGrammar.eval_le hd r c reply) p c _ h

theorem Misses.mono {p : Pattern α} {d' : Nat} (h : Misses d p c) (hd : d ≤ d') : Misses d' p c :=
  Peg.eval_mono (fun r c reply => scriptGrammar.eval_le hd r c reply) p c _ h

theorem Reads.rule {r : Rule} {a : Yield r} (h : Reads d (scriptGrammar r) c a next) :
    Reads (d + 1) (ref r) c a next := h

theorem Misses.rule {r : Rule} (h : Misses d (scriptGrammar r) c) : Misses (d + 1) (ref r) c := h

theorem Reads.seq {f : α → β → γ} {p : Pattern α} {q : Pattern β} {a : α} {b : β}
    (hp : Reads d p c a m) (hq : Reads d q m b next) : Reads d (.seq f p q) c (f a b) next := by
  simp only [Reads, Peg.eval_seq] at *
  simp only [hp, hq]

theorem Misses.seq_left {f : α → β → γ} {p : Pattern α} {q : Pattern β} (hp : Misses d p c) :
    Misses d (.seq f p q) c := by
  simp only [Misses, Peg.eval_seq] at *
  rw [hp]

theorem Misses.seq_right {f : α → β → γ} {p : Pattern α} {q : Pattern β} {a : α} (hp : Reads d p c a m)
    (hq : Misses d q m) : Misses d (.seq f p q) c := by
  simp only [Misses, Reads, Peg.eval_seq] at *
  simp only [hp, hq]

theorem Reads.left {p q : Pattern α} {a : α} (hp : Reads d p c a next) : Reads d (.either p q) c a next := by
  simp only [Reads, Peg.eval_either] at *
  rw [hp]

theorem Reads.right {p q : Pattern α} {a : α} (hp : Misses d p c) (hq : Reads d q c a next) :
    Reads d (.either p q) c a next := by
  simp only [Reads, Misses, Peg.eval_either] at *
  rw [hp, hq]

theorem Misses.either {p q : Pattern α} (hp : Misses d p c) (hq : Misses d q c) : Misses d (.either p q) c := by
  simp only [Misses, Peg.eval_either] at *
  rw [hp, hq]

theorem Reads.build {f : Span → α → β} {p : Pattern α} {a : α} (hp : Reads d p c a next) :
    Reads d (.build f p) c (f ⟨c.offset, next.offset⟩ a) next := by
  simp only [Reads, Peg.eval_build] at *
  rw [hp]

theorem Misses.build {f : Span → α → β} {p : Pattern α} (hp : Misses d p c) : Misses d (.build f p) c := by
  simp only [Misses, Peg.eval_build] at *
  rw [hp]

theorem Reads.option_some {p : Pattern α} {a : α} (hc : c.atEnd = false) (hp : Reads d p c a next) :
    Reads d (.option p) c (some a) next := by
  simp only [Reads, Peg.eval_option] at *
  rw [if_neg (by simp [hc]), hp]

theorem Reads.option_none {p : Pattern α} (hp : Misses d p c) : Reads d (.option p) c none c := by
  simp only [Reads, Misses, Peg.eval_option] at *
  split
  · rfl
  · rw [hp]

/-- A reading inverted: what a mapped pattern reads, the pattern reads. -/
theorem Reads.of_build {f : Span → α → β} {p : Pattern α} {b : β} (h : Reads d (.build f p) c b next) :
    ∃ a, Reads d p c a next ∧ b = f ⟨c.offset, next.offset⟩ a := by
  simp only [Reads, Peg.eval_build] at *
  split at h
  · cases h
  · cases h
  · rename_i a next' hp
    cases h
    exact ⟨a, hp, rfl⟩

theorem Reads.of_seq {f : α → β → γ} {p : Pattern α} {q : Pattern β} {x : γ}
    (h : Reads d (.seq f p q) c x next) :
    ∃ a m b, Reads d p c a m ∧ Reads d q m b next ∧ x = f a b := by
  simp only [Reads, Peg.eval_seq] at *
  split at h
  · cases h
  · cases h
  · rename_i a m hp
    split at h
    · cases h
    · cases h
    · rename_i b next' hq
      cases h
      exact ⟨a, m, b, hp, hq, rfl⟩

theorem Misses.of_build {f : Span → α → β} {p : Pattern α} (h : Misses d (.build f p) c) : Misses d p c := by
  simp only [Misses, Peg.eval_build] at *
  split at h
  · cases h
  · assumption
  · cases h

theorem Misses.of_seq {f : α → β → γ} {p : Pattern α} {q : Pattern β} (h : Misses d (.seq f p q) c) :
    Misses d p c ∨ ∃ a m, Reads d p c a m ∧ Misses d q m := by
  simp only [Misses, Reads, Peg.eval_seq] at *
  split at h
  · cases h
  · exact .inl ‹_›
  · rename_i a m hp
    split at h
    · cases h
    · exact .inr ⟨a, m, hp, ‹_›⟩
    · cases h

/-! ## Blanks -/

theorem Cursor.rest_advance (c : Cursor source) (n : Nat) : (c.advance n).rest = c.rest.drop n := rfl

theorem Cursor.advance_zero (c : Cursor source) : c.advance 0 = c := Cursor.ext_offset rfl

theorem Cursor.advance_advance (c : Cursor source) (n k : Nat) :
    (c.advance n).advance k = c.advance (n + k) :=
  Cursor.ext_offset (Nat.add_assoc _ _ _)

theorem reads_gap {n : Nat} (h : Lexeme.triviaLength c.rest = n) :
    Reads (d + 1) gap c (c.rest.take n) (c.advance n) := by
  change (Peg.lexeme Lexeme.trivia).eval (scriptGrammar.eval d) c = _
  rw [Peg.eval_lexeme, Lexeme.length?, h]

theorem reads_gap_nothing (h : Lexeme.triviaLength c.rest = 0) : Reads (d + 1) gap c [] c := by
  have := reads_gap (d := d) h
  rwa [List.take_zero, Cursor.advance_zero] at this

theorem triviaLength_space (t : Text) :
    Lexeme.triviaLength (CodePoint.ofChar ' ' :: t) = Lexeme.triviaLength t + 1 := by
  rw [Lexeme.triviaLength, Lexeme.triviaFrom, if_pos (by decide)]
  rfl

/-! ## Repetitions -/

/-- A step is taken time after time, each time further into the text. -/
inductive Runs (step : Cursor source → Option (Reply source α)) (c : Cursor source) :
    List α → Cursor source → Prop
  | nil : Runs step c [] c
  | snoc {as : List α} {a : α} {m next : Cursor source} (h : Runs step c as m) (hm : m.atEnd = false)
    (hstep : step m = some (.found a next)) (hmoves : m.offset < next.offset) :
    Runs step c (as ++ [a]) next

/-- A step before others. -/
theorem Runs.cons {step : Cursor source → Option (Reply source α)} {a : α} {as : List α}
    (h : Runs step m as next) (hc : c.atEnd = false) (hstep : step c = some (.found a m))
    (hmoves : c.offset < m.offset) : Runs step c (a :: as) next := by
  induction h with
  | nil => exact .snoc .nil hc hstep hmoves
  | snoc _ hm hlast hmoves' ih => exact .snoc ih hm hlast hmoves'

theorem iterate_of_runs {step : Cursor source → Option (Reply source α)} {as bs : List α}
    {last : Cursor source} (h : Runs step c as m)
    (hrest : ∀ bound : Text, m.rest.length ≤ bound.length → iterate step bound m = some (.found bs last)) :
    ∀ bound : Text, c.rest.length ≤ bound.length → iterate step bound c = some (.found (as ++ bs) last) := by
  induction h generalizing bs with
  | nil => exact hrest
  | @snoc as a m next h hm hstep hmoves ih =>
    rw [List.append_assoc]
    refine ih fun bound hbound => ?_
    have hlength := Cursor.length_rest_lt hm hmoves
    cases bound with
    | nil =>
      rw [List.length_nil] at hbound
      omega
    | cons x bound =>
      rw [List.length_cons] at hbound
      rw [iterate, if_neg (by simp [hm]), hstep]
      simp only [if_neg (Nat.ne_of_gt hmoves), hrest bound (by omega), List.singleton_append]

/-- A repetition reads what its steps read, up to where no further step is possible. -/
theorem Reads.many {p : Pattern α} {as : List α} (h : Runs (p.eval (scriptGrammar.eval d)) c as next)
    (hstop : next.atEnd = true ∨ Misses d p next) : Reads d (.many p) c as next := by
  have hlast : ∀ bound : Text, next.rest.length ≤ bound.length →
      iterate (p.eval (scriptGrammar.eval d)) bound next = some (.found [] next) := by
    intro bound _
    cases bound with
    | nil => rfl
    | cons x bound =>
      rw [iterate]
      split
      · rfl
      · rename_i hend
        rw [hstop.resolve_left hend]
  have := iterate_of_runs h hlast c.rest (Nat.le_refl _)
  rwa [List.append_nil] at this

end ScriptAudit
