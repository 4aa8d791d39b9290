/-
Offsets against lines and columns. The line of an offset says after how many line ends it comes, and so where its
line begins (`afterLineEnd?_lineAt`); the column says how far from there. So the pair gives the offset back, and that
pairs are ordered as their offsets are needs only that lines are.
-/
import Mathlib.Data.List.TakeWhile
import Mathlib.Data.Prod.Lex
import ScriptAudit.Proofs.LeadingTrivia
import ScriptAudit.Proofs.ParseOutcome

namespace ScriptAudit

namespace Text

/-- The offset just after the given number of line ends, if the text has so many. -/
def afterLineEnd? : Nat → Text → Option Nat
  | 0, _ => some 0
  | _ + 1, [] => none
  | n + 1, c :: t => (afterLineEnd? (if c = '\n' then n else n + 1) t).map (· + 1)

/-! ## Where lines begin -/

theorem afterLineEnd?_append (u v : Text) :
    afterLineEnd? u.lineEnds (u ++ v) = some (u.length - u.lastLineLength) := by
  induction u with
  | nil => rw [lineEnds, List.count_nil, afterLineEnd?, List.length_nil, Nat.zero_sub]
  | cons c u ih =>
    have hle := lastLineLength_le u
    have hcount : lineEnds (c :: u) = lineEnds u + if c = '\n' then 1 else 0 := by
      rw [lineEnds, List.count_cons, lineEnds]
      simp
    by_cases h : CodePoint.ofChar '\n' ∈ u
    · -- the line began after `c` already
      have hpos : 0 < lineEnds u := List.count_pos_iff.mpr h
      have hline : lastLineLength (c :: u) = lastLineLength u := lastLineLength_append_of_mem (w := [c]) h
      obtain ⟨n, hn⟩ := Nat.exists_eq_succ_of_ne_zero (n := lineEnds (c :: u)) (by omega)
      rw [hn, List.cons_append, afterLineEnd?, hline, List.length_cons]
      have hrest : (if c = '\n' then n else n + 1) = lineEnds u := by
        split at hcount <;> rename_i hc <;> simp only [hc, if_true, if_false] <;> omega
      rw [hrest, ih, Option.map_some]
      congr 1
      omega
    · have hzero : lineEnds u = 0 := List.count_eq_zero.mpr h
      have hline : lastLineLength (c :: u) = lastLineLength [c] + u.length :=
        lastLineLength_append_of_not_mem (w := [c]) h
      by_cases hc : c = '\n'
      · subst hc
        rw [hcount, hzero, if_pos rfl, List.cons_append, Nat.zero_add, afterLineEnd?, if_pos rfl, afterLineEnd?, hline]
        simp [lastLineLength, spanLength]
      · have hone : lastLineLength [c] = 1 := by simp [lastLineLength, spanLength, hc]
        rw [hcount, hzero, if_neg hc, afterLineEnd?, hline, hone, List.length_cons]
        congr 1
        omega

variable {t : Text}

theorem upTo_natCast (i : Nat) : t.upTo i = t.take i := by
  rw [upTo, if_neg (by omega), Int.toNat_natCast]

theorem lineAt_natCast (i : Nat) : t.lineAt i = lineEnds (t.take i) + 1 := by
  rw [lineAt, upTo_natCast, lineEnds]

theorem lineStart_natCast (i : Nat) : t.lineStart i = (t.take i).length - lastLineLength (t.take i) := by
  rw [lineStart, upTo_natCast, lastLineLength, spanLength]

/-- The line of an offset begins after as many line ends as there are lines before it. -/
theorem afterLineEnd?_lineAt (i : Nat) : t.afterLineEnd? (t.lineAt i - 1) = some (t.lineStart i) := by
  have h := afterLineEnd?_append (t.take i) (t.drop i)
  rwa [List.take_append_drop, ← lineStart_natCast] at h

/-- There is no line end between where the line of an offset begins and the offset. -/
theorem not_mem_slice_lineStart (i : Nat) :
    CodePoint.ofChar '\n' ∉ t.slice ⟨t.lineStart i, i⟩ := by
  have hslice : t.slice ⟨t.lineStart i, i⟩ = (t.take i).drop (t.lineStart i) := by
    rw [slice, List.drop_take]
  have hsplit : t.take i = ((t.take i).reverse.dropWhile (· != CodePoint.ofChar '\n')).reverse ++
      ((t.take i).reverse.takeWhile (· != CodePoint.ofChar '\n')).reverse := by
    rw [← List.reverse_append, List.takeWhile_append_dropWhile, List.reverse_reverse]
  have hdrop : (t.take i).drop (t.lineStart i) =
      ((t.take i).reverse.takeWhile (· != CodePoint.ofChar '\n')).reverse := by
    have hstart : t.lineStart i =
        (((t.take i).reverse.dropWhile (· != CodePoint.ofChar '\n')).reverse).length := by
      have hlength := congrArg List.length hsplit
      rw [List.length_append, List.length_reverse, List.length_reverse] at hlength
      rw [List.length_reverse]
      rw [lineStart_natCast, lastLineLength, spanLength]
      omega
    rw [hstart]
    exact (congrArg (List.drop _) hsplit).trans List.drop_left
  rw [hslice, hdrop, List.mem_reverse]
  intro hmem
  simpa using List.mem_takeWhile_imp hmem

/-! ## Order -/

theorem lineAt_le_lineAt {i j : Nat} (h : i ≤ j) : t.lineAt i ≤ t.lineAt j := by
  rw [lineAt_natCast, lineAt_natCast, lineEnds, lineEnds]
  exact Nat.succ_le_succ ((List.take_sublist_take_left h).count_le _)

/-- A later offset is on a later line, or further on in the same one. -/
theorem lex_of_lt {i j : Nat} (h : i < j) :
    Prod.Lex (· < ·) (· < ·) (t.lineAt i, t.columnAt i) (t.lineAt j, t.columnAt j) := by
  rcases Nat.lt_or_eq_of_le (t.lineAt_le_lineAt (Nat.le_of_lt h)) with hline | hline
  · exact .left _ _ hline
  · have hstart : t.lineStart i = t.lineStart j := by
      have hi := t.afterLineEnd?_lineAt i
      rw [hline, afterLineEnd?_lineAt] at hi
      exact (Option.some.inj hi).symm
    rw [hline]
    refine .right _ ?_
    rw [columnAt, columnAt, hstart]
    omega

/-! ## The correspondence -/

/-- Lines and columns of a text stand for its offsets, one pair for each. -/
structure Charted (t : Text) : Prop where
  ordered : ∀ i j : Nat, i < j → j ≤ t.length →
    Prod.Lex (· < ·) (· < ·) (t.lineAt i, t.columnAt i) (t.lineAt j, t.columnAt j)
  counted : ∀ i : Nat, i ≤ t.length → 1 ≤ t.lineAt i ∧ 1 ≤ t.columnAt i
  /-- The offset is as far from the beginning of its line as its column says, and on that line. -/
  recovered : ∀ i : Nat, i ≤ t.length → ∃ start : Nat, t.afterLineEnd? (t.lineAt i - 1) = some start ∧
    (i : Int) = start + t.columnAt i - 1 ∧ CodePoint.ofChar '\n' ∉ t.slice ⟨start, i⟩
  /-- The place of an offset is where a program with this text says it is. -/
  agreed : ∀ p : Program, p.source = t → ∀ i : Nat, i ≤ t.length → ∀ file : Text,
    (Place.ofOffset t i file).line = p.lineOf i ∧ (Place.ofOffset t i file).column = p.columnOf i
  before : ∀ offset : Int, offset < 0 → ∀ file : Text, Place.ofOffset t offset file = Place.ofOffset t 0 file
  beyond : ∀ offset : Int, t.length < offset → ∀ file : Text,
    Place.ofOffset t offset file = Place.ofOffset t t.length file

/-- **Offsets, and lines with columns, correspond one to one.** -/
theorem charted (t : Text) : t.Charted where
  ordered _ _ h _ := lex_of_lt h
  counted i _ := ⟨Nat.le_add_left 1 _, columnAt_pos (Int.natCast_nonneg i)⟩
  recovered i _ := by
    refine ⟨t.lineStart i, afterLineEnd?_lineAt i, ?_, not_mem_slice_lineStart i⟩
    rw [columnAt]
    omega
  agreed := by
    rintro p rfl i hi file
    have hclamped : max 0 (min (i : Int) p.source.length) = i := by omega
    rw [Place.ofOffset, hclamped]
    exact ⟨rfl, rfl⟩
  before offset h file := by
    have hclamped : max 0 (min offset t.length) = max 0 (min (0 : Int) t.length) := by omega
    rw [Place.ofOffset, hclamped, Place.ofOffset]
  beyond offset h file := by
    have hclamped : max 0 (min offset t.length) = max 0 (min (t.length : Int) t.length) := by omega
    rw [Place.ofOffset, hclamped, Place.ofOffset]

end Text

end ScriptAudit
