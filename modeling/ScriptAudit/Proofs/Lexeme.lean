/-
How much of a text a lexeme takes: never more than there is (`length?_le`), and, but for trivia and
spaces, at least one code point (`length?_pos`).
-/
import ScriptAudit.Grammar.Lexeme

namespace ScriptAudit.Lexeme

theorem spanLength_le (p : CodePoint → Bool) (t : Text) : Text.spanLength p t ≤ t.length :=
  (List.takeWhile_prefix p).length_le

theorem spanLength_pos {p : CodePoint → Bool} {t : Text} (h : t.head?.any p = true) :
    0 < Text.spanLength p t := by
  cases t with
  | nil => simp at h
  | cons c rest =>
    have hc : p c = true := by simpa using h
    simp [Text.spanLength, hc]

/-! ## Blanks and comments -/

theorem triviaFrom_le (skip : Nat) (t : Text) : triviaFrom skip t ≤ t.length := by
  induction t generalizing skip with
  | nil => cases skip <;> simp [triviaFrom]
  | cons c rest ih =>
    cases skip with
    | succ skip => have := ih skip; simp only [triviaFrom, List.length_cons]; omega
    | zero =>
      rw [triviaFrom]
      split
      · have := ih 0; simp only [List.length_cons]; omega
      · split
        · omega
        · rename_i n _; have := ih (n - 1); simp only [List.length_cons]; omega

/-! ## Numbers -/

theorem suffixLength_le (t : Text) : suffixLength t ≤ t.length := by
  unfold suffixLength
  split
  · cases t with
    | nil => simp_all
    | cons c rest => simp
  · omega

theorem radixLength?_bounds {lower upper : Char} {isDigit : CodePoint → Bool} {t : Text} {n : Nat}
    (h : radixLength? lower upper isDigit t = some n) : 0 < n ∧ n ≤ t.length := by
  match t with
  | [] | [_] => simp [radixLength?] at h
  | c :: d :: rest =>
    rw [radixLength?] at h
    split at h
    · have hspan := spanLength_le (fun e => isDigit e || e == CodePoint.ofChar '_') rest
      split at h
      · cases h
      · rename_i k hk
        cases h
        have := suffixLength_le (rest.drop (k + 1))
        simp only [List.length_drop] at this
        simp only [List.length_cons]; omega
    · cases h

theorem mantissaLength?_bounds {t : Text} {n : Nat} (h : mantissaLength? t = some n) :
    0 < n ∧ n ≤ t.length := by
  cases t with
  | nil => simp [mantissaLength?] at h
  | cons c rest =>
    have hspan := spanLength_le continuesNumber rest
    rw [mantissaLength?] at h
    split at h
    · simp only at h
      split at h
      · rename_i d fraction hdrop
        have hlength := congrArg List.length hdrop
        simp only [List.length_drop, List.length_cons] at hlength
        have := spanLength_le continuesNumber fraction
        cases h
        simp only [List.length_cons]
        split <;> omega
      · cases h; simp only [List.length_cons]; omega
    · split at h
      · cases h; simp only [List.length_cons]; omega
      · cases h

theorem exponentLength_le (t : Text) : exponentLength t ≤ t.length := by
  cases t with
  | nil => simp [exponentLength]
  | cons c rest =>
    rw [exponentLength]
    split
    · simp only
      split
      · omega
      · rename_i n hn
        -- the sign is taken only where there is a code point after the mark
        have hsign : (if rest.head?.any fun (d : CodePoint) => d == CodePoint.ofChar '+' || d == CodePoint.ofChar '-'
            then 1 else 0) ≤ rest.length := by
          cases rest with
          | nil => simp
          | cons d more => simp only [List.length_cons]; split <;> omega
        have hdigits := spanLength_le CodePoint.isDigit
          (rest.drop (if rest.head?.any fun (d : CodePoint) => d == CodePoint.ofChar '+' || d == CodePoint.ofChar '-'
            then 1 else 0))
        simp only [List.length_drop] at hdigits
        simp only [List.length_cons]; omega
    · omega

theorem decimalLength?_bounds {t : Text} {n : Nat} (h : decimalLength? t = some n) :
    0 < n ∧ n ≤ t.length := by
  obtain ⟨mantissa, hm, rfl⟩ := Option.map_eq_some_iff.mp h
  have hbounds := mantissaLength?_bounds hm
  have hexponent := exponentLength_le (t.drop mantissa)
  have hsuffix := suffixLength_le (t.drop (mantissa + exponentLength (t.drop mantissa)))
  simp only [List.length_drop] at hexponent hsuffix
  simp only; omega

theorem numberLength?_bounds {t : Text} {n : Nat} (h : numberLength? t = some n) :
    0 < n ∧ n ≤ t.length := by
  simp only [numberLength?, Option.orElse_eq_orElse, Option.orElse_eq_or, Option.or_eq_some_iff] at h
  rcases h with h | ⟨-, h | ⟨-, h | ⟨-, h⟩⟩⟩
  · exact radixLength?_bounds h
  · exact radixLength?_bounds h
  · exact radixLength?_bounds h
  · exact decimalLength?_bounds h

/-! ## Strings and templates -/

theorem stringTailLength?_le {quote : CodePoint} {t : Text} {n : Nat}
    (h : stringTailLength? quote t = some n) : n ≤ t.length := by
  fun_induction stringTailLength? quote t generalizing n with
  | case1 => cases h
  | case2 => cases h; simp
  | case3 => cases h
  | case4 => cases h
  | case5 _ _ _ rest ih =>
    obtain ⟨k, hk, rfl⟩ := Option.map_eq_some_iff.mp h
    have := ih hk
    simp only [List.length_cons]; omega
  | case6 c rest _ _ _ ih =>
    obtain ⟨k, hk, rfl⟩ := Option.map_eq_some_iff.mp h
    have := ih hk
    simp only [List.length_cons]; omega

theorem chunkLength_le (t : Text) : chunkLength t ≤ t.length := by
  fun_induction chunkLength t <;> simp only [List.length_cons, List.length_nil] <;> omega

/-! ## All lexemes -/

theorem length?_le {l : Lexeme} {t : Text} {n : Nat} (h : l.length? t = some n) : n ≤ t.length := by
  cases l with
  | «exact» text barred =>
    simp only [length?] at h
    split at h
    · rename_i hp
      cases h
      simp only [Bool.and_eq_true, List.isPrefixOf_iff_prefix] at hp
      exact hp.1.length_le
    · cases h
  | reserved =>
    simp only [length?] at h
    split at h
    · cases h; exact (List.takeWhile_prefix _).length_le
    · cases h
  | name =>
    simp only [length?] at h
    split at h
    · cases h; exact spanLength_le ..
    · cases h
  | trivia => cases h; exact triviaFrom_le 0 t
  | spaces => cases h; exact spanLength_le ..
  | digit =>
    simp only [length?] at h
    split at h
    · cases h
      cases t with
      | nil => simp_all
      | cons c rest => simp
    · cases h
  | number => exact (numberLength?_bounds h).2
  | string quote =>
    cases t with
    | nil => cases h
    | cons c rest =>
      simp only [length?] at h
      split at h
      · obtain ⟨k, hk, rfl⟩ := Option.map_eq_some_iff.mp h
        have := stringTailLength?_le hk
        simp only [List.length_cons]; omega
      · cases h
  | chunk =>
    have := chunkLength_le t
    simp only [length?] at h
    split at h
    · cases h
    · cases h; omega

/-- The lexeme is never the empty text. -/
def isSolid : Lexeme → Bool
  | «exact» text _ => !text.isEmpty
  | trivia | spaces => false
  | reserved | name | digit | number | string _ | chunk => true

theorem isReserved_nil : isReserved [] = false := by decide

theorem length?_pos {l : Lexeme} {t : Text} {n : Nat} (hl : l.isSolid = true)
    (h : l.length? t = some n) : 0 < n := by
  cases l with
  | «exact» text barred =>
    simp only [length?] at h
    split at h
    · cases h
      cases text with
      | nil => simp [isSolid] at hl
      | cons c rest => simp
    · cases h
  | reserved =>
    simp only [length?] at h
    split at h
    · rename_i hr
      cases h
      cases hw : t.takeWhile CodePoint.continuesName with
      | nil => rw [hw, isReserved_nil] at hr; cases hr
      | cons c rest => simp
    · cases h
  | name =>
    simp only [length?] at h
    split at h
    · rename_i hs
      cases h
      refine spanLength_pos ?_
      cases t with
      | nil => simp at hs
      | cons c rest =>
        have hc : c.startsName = true := by simpa using hs
        simp [CodePoint.continuesName, hc]
    · cases h
  | trivia | spaces => cases hl
  | digit =>
    simp only [length?] at h
    split at h
    · cases h; omega
    · cases h
  | number => exact (numberLength?_bounds h).1
  | string quote =>
    cases t with
    | nil => cases h
    | cons c rest =>
      simp only [length?] at h
      split at h
      · obtain ⟨k, _, rfl⟩ := Option.map_eq_some_iff.mp h; omega
      · cases h
  | chunk =>
    simp only [length?] at h
    split at h
    · cases h
    · cases h; omega

theorem length?_exact {text : Text} {barred : CodePoint → Bool} {t : Text} {n : Nat}
    (h : (exact text barred).length? t = some n) : n = text.length := by
  simp only [length?] at h
  split at h
  · cases h; rfl
  · cases h

/-- A name is taken whole, so it is reserved only where a reserved word begins. -/
theorem isReserved_name {t : Text} {n : Nat} (hn : name.length? t = some n)
    (hr : reserved.length? t = none) : isReserved (t.take n) = false := by
  simp only [length?] at hn hr
  split at hn
  · cases hn
    split at hr
    · cases hr
    · rename_i hw
      rw [Text.spanLength, ← List.prefix_iff_eq_take.mp (List.takeWhile_prefix _)]
      exact Bool.eq_false_iff.mpr hw
  · cases hn

end ScriptAudit.Lexeme
