/-
Which number tokens stand for a number, and for which. A token may be written in more ways than have a meaning: a
radix prefix may be followed by underscores alone, and the suffix `n` may follow a fraction, an exponent or digits
with a leading zero. What a token means is settled by its text without underscores (`Token.Valued`).

The shape of the tokens is needed for two things only: that what follows a radix prefix are digits of that radix, and
that what has neither a prefix nor a point nor an exponent are decimal digits.
-/
import Mathlib
import ScriptAudit.Proofs.NumberShape
import ScriptAudit.Proofs.Outcomes

namespace ScriptAudit

/-! ## What numbers mean -/

namespace Text

/-- A zero and a letter announce the radix of the digits after them. -/
def HasRadix (radix : Nat) (digits text : Text) : Prop :=
  ∃ mark : CodePoint, mark.Announces radix ∧ text = CodePoint.ofChar '0' :: mark :: digits

/-- Decimal digits and nothing else. -/
def IsDecimal (text : Text) : Prop := text ≠ [] ∧ ∀ c ∈ text, c.isDigit = true

/-- The first digit is zero only if all are. -/
def NoLeadingZero (text : Text) : Prop :=
  (∀ c ∈ text.head?, c.digitValue? ≠ some 0) ∨ ∀ c ∈ text, c.digitValue? = some 0

/-- The number that digits write in a radix, where `value` says what each is worth. -/
def inRadix (radix : Nat) (value : CodePoint → Option Nat) (digits : Text) : Nat :=
  Nat.ofDigits radix (digits.reverse.map fun c => (value c).getD 0)

theorem inRadix_eq_foldl (radix : Nat) (value : CodePoint → Option Nat) (digits : Text) :
    inRadix radix value digits = digits.foldl (fun n c => n * radix + (value c).getD 0) 0 := by
  rw [inRadix, Nat.ofDigits_eq_foldr, List.foldr_map, List.foldr_reverse]
  refine congrArg (fun f => List.foldl f 0 digits) (funext fun n => funext fun c => ?_)
  rw [Nat.cast_id, Nat.mul_comm, Nat.add_comm]

end Text

namespace Token

open Text

theorem wholeValue_eq_ok_iff {digits : Text} {n : Nat} : wholeValue digits = .ok n ↔
    digits.IsDecimal ∧ digits.length ≤ 4300 ∧ n = inRadix 10 CodePoint.digitValue? digits := by
  rw [inRadix_eq_foldl, IsDecimal, wholeValue]
  split
  · rename_i hbad
    refine iff_of_false (by rintro ⟨⟩) ?_
    rintro ⟨⟨hne, hall⟩, hle, -⟩
    simp only [Bool.or_eq_true, List.isEmpty_iff, Bool.not_eq_true', decide_eq_true_iff, hne, List.all_eq_true.mpr hall,
      false_or, Bool.true_eq_false] at hbad
    exact Nat.not_lt.mpr hle hbad
  · rename_i hgood
    simp only [Bool.or_eq_true, not_or, List.isEmpty_iff, Bool.not_eq_true', Bool.not_eq_false, decide_eq_true_iff,
      Nat.not_lt, List.all_eq_true] at hgood
    refine ⟨fun h => ?_, fun h => ?_⟩
    · cases h
      exact ⟨hgood.1, hgood.2, rfl⟩
    · rw [h.2.2]
      rfl

theorem radix?_of_hasRadix {radix : Nat} {digits text : Text} (h : HasRadix radix digits text) :
    radix? text = some radix := by
  obtain ⟨mark, hmark, rfl⟩ := h
  exact hmark.radix?_eq

theorem exists_hasRadix {radix : Nat} {text : Text} (h : radix? text = some radix) :
    ∃ digits, HasRadix radix digits text := by
  unfold radix? at h
  split at h
  · rename_i c d digits
    split at h
    · rename_i hc
      have announced : ∀ {r}, some r = some radix → d.Announces r →
          ∃ digits', HasRadix radix digits' (c :: d :: digits) := by
        rintro _ ⟨⟩ hd
        exact ⟨digits, d, hd, by rw [hc]⟩
      simp only [Bool.or_eq_true, decide_eq_true_iff] at h
      split at h
      · rename_i hd; exact announced h (.inl ⟨rfl, hd⟩)
      · split at h
        · rename_i hd; exact announced h (.inr (.inl ⟨rfl, hd⟩))
        · split at h
          · rename_i hd; exact announced h (.inr (.inr ⟨rfl, hd⟩))
          · cases h
    · cases h
  · cases h

theorem radixValue_eq_ok_iff {radix n : Nat} {digits text : Text} (h : HasRadix radix digits text) :
    radixValue radix text = .ok n ↔ digits ≠ [] ∧ n = inRadix radix CodePoint.hexValue? digits := by
  obtain ⟨mark, -, rfl⟩ := h
  rw [inRadix_eq_foldl]
  cases digits with
  | nil => exact iff_of_false (by rintro ⟨⟩) fun h => h.1 rfl
  | cons c digits =>
    refine ⟨fun h => ?_, fun h => ?_⟩
    · cases h
      exact ⟨List.cons_ne_nil c digits, rfl⟩
    · rw [h.2]
      rfl

/-- The value of decimal digits is zero if all of them are. -/
theorem inRadix_eq_zero_iff {text : Text} (h : text.IsDecimal) :
    inRadix 10 CodePoint.digitValue? text = 0 ↔ ∀ c ∈ text, c.digitValue? = some 0 := by
  have hzero : ∀ digits : List Nat, Nat.ofDigits 10 digits = 0 ↔ ∀ d ∈ digits, d = 0 := fun digits =>
    ⟨Nat.digits_zero_of_eq_zero (by decide), fun h => by rw [List.eq_replicate_of_mem h, Nat.ofDigits_replicate_zero]⟩
  rw [inRadix, hzero]
  simp only [List.mem_map, List.mem_reverse, forall_exists_index, and_imp, forall_apply_eq_imp_iff₂]
  refine forall₂_congr fun c hc => ?_
  obtain ⟨v, hv⟩ := Option.isSome_iff_exists.mp (h.2 c hc)
  rw [hv, Option.getD_some, Option.some.injEq]

theorem HasRadix.not_isDecimal {radix : Nat} {digits text : Text} (h : HasRadix radix digits text) :
    ¬text.IsDecimal := by
  obtain ⟨mark, hmark, rfl⟩ := h
  intro hdecimal
  have hdigit := hdecimal.2 mark (List.mem_cons_of_mem _ List.mem_cons_self)
  exact Bool.false_ne_true (hmark.not_decimal.1.symm.trans (CodePoint.isRealPart_of_isDigit hdigit))

theorem HasRadix.unique {radix radix' : Nat} {digits digits' text : Text} (h : HasRadix radix digits text)
    (h' : HasRadix radix' digits' text) : radix = radix' ∧ digits = digits' := by
  obtain ⟨mark, hmark, rfl⟩ := h
  obtain ⟨mark', hmark', htext⟩ := h'
  cases htext
  exact ⟨hmark.unique hmark', rfl⟩

/-- A leading zero is a fault unless the number is zero. -/
theorem noLeadingZero_iff {text : Text} (h : text.IsDecimal) : text.NoLeadingZero ↔
    ¬(text.head?.any (·.digitValue? == some 0) && inRadix 10 CodePoint.digitValue? text != 0) = true := by
  rw [Bool.and_eq_true, not_and_or, bne_iff_ne, not_not, inRadix_eq_zero_iff h, NoLeadingZero]
  refine or_congr_left ?_
  cases text.head? with
  | none => simp
  | some c => simp

theorem suffixedValue_eq_ok_iff {text : Text} {n : Nat} : suffixedValue text = .ok n ↔
    (∃ radix digits, HasRadix radix digits text ∧ digits ≠ [] ∧ n = inRadix radix CodePoint.hexValue? digits) ∨
    (text.IsDecimal ∧ text.NoLeadingZero ∧ text.length ≤ 4300 ∧ n = inRadix 10 CodePoint.digitValue? text) := by
  unfold suffixedValue
  cases hradix : radix? text with
  | some radix =>
    obtain ⟨digits, hdigits⟩ := exists_hasRadix hradix
    rw [radixValue_eq_ok_iff hdigits]
    refine ⟨fun h => .inl ⟨radix, digits, hdigits, h⟩, ?_⟩
    rintro (⟨radix', digits', hdigits', h⟩ | ⟨hdecimal, -⟩)
    · obtain ⟨rfl, rfl⟩ := HasRadix.unique hdigits hdigits'
      exact h
    · exact absurd hdecimal (HasRadix.not_isDecimal hdigits)
  | none =>
    have hnone : ¬∃ radix digits, HasRadix radix digits text ∧ digits ≠ [] ∧
        n = inRadix radix CodePoint.hexValue? digits := by
      rintro ⟨radix, digits, hdigits, -⟩
      rw [radix?_of_hasRadix hdigits] at hradix
      cases hradix
    rw [or_iff_right hnone]
    simp only [Except.bind_eq_ok, wholeValue_eq_ok_iff]
    refine ⟨?_, fun ⟨hdecimal, hzero, hle, hn⟩ => ⟨n, ⟨hdecimal, hle, hn⟩, ?_⟩⟩
    · rintro ⟨m, ⟨hdecimal, hle, rfl⟩, h⟩
      split at h
      · cases h
      · rename_i hzero
        cases h
        exact ⟨hdecimal, (noLeadingZero_iff hdecimal).mpr hzero, hle, rfl⟩
    · rw [hn, if_neg ((noLeadingZero_iff hdecimal).mp hzero)]
      rfl

/-- What a number token without its underscores means. -/
structure Valued (text : Text) (value : Except Fault Amount) : Prop where
  /-- The suffix follows a radix prefix with digits, or decimal digits without a leading zero. -/
  suffixed : ∀ number, text = number ++ [CodePoint.ofChar 'n'] → ∀ amount, value = .ok amount ↔
    (∃ radix digits, HasRadix radix digits number ∧ digits ≠ [] ∧ (∀ c ∈ digits, c.isDigitIn radix = true) ∧
      amount = .whole (inRadix radix CodePoint.hexValue? digits)) ∨
    (number.IsDecimal ∧ number.NoLeadingZero ∧ number.length ≤ 4300 ∧
      amount = .whole (inRadix 10 CodePoint.digitValue? number))
  /-- A radix prefix needs a digit. -/
  prefixed : text.getLast? ≠ some (CodePoint.ofChar 'n') → ∀ radix digits, HasRadix radix digits text →
    (∀ c ∈ digits, c.isDigitIn radix = true) ∧
      ∀ amount, value = .ok amount ↔ digits ≠ [] ∧ amount = .whole (inRadix radix CodePoint.hexValue? digits)
  /-- What has a point or an exponent is always a number. -/
  real : text.getLast? ≠ some (CodePoint.ofChar 'n') → (∀ radix digits, ¬HasRadix radix digits text) →
    (∃ c ∈ text, c.isRealMark = true) → value = .ok (.real (Decimal.ofText text).toFloat)
  /-- What is left are decimal digits, of which there must not be too many. -/
  whole : text.getLast? ≠ some (CodePoint.ofChar 'n') → (∀ radix digits, ¬HasRadix radix digits text) →
    (∀ c ∈ text, ¬c.isRealMark = true) → text.IsDecimal ∧
      ∀ amount, value = .ok amount ↔ text.length ≤ 4300 ∧ amount = .whole (inRadix 10 CodePoint.digitValue? text)
  failed : ∀ fault, value = .error fault → fault = .noNumber

theorem wholeValue_failed {digits : Text} {fault : Fault} (h : wholeValue digits = .error fault) :
    fault = .noNumber := by
  unfold wholeValue at h
  split at h
  · exact (Except.error.inj h).symm
  · cases h

theorem radixValue_failed {radix : Nat} {text : Text} {fault : Fault} (h : radixValue radix text = .error fault) :
    fault = .noNumber := by
  unfold radixValue at h
  split at h
  · exact (Except.error.inj h).symm
  · cases h

theorem suffixedValue_failed {text : Text} {fault : Fault} (h : suffixedValue text = .error fault) :
    fault = .noNumber := by
  unfold suffixedValue at h
  split at h
  · exact radixValue_failed h
  · obtain h | ⟨n, -, h⟩ := Except.bind_eq_error.mp h
    · exact wholeValue_failed h
    · split at h
      · exact (Except.error.inj h).symm
      · cases h

section Evaluation

variable {t text : Text} (htext : t.filter (· != CodePoint.ofChar '_') = text)
include htext

theorem numberValue_suffixed {number : Text} (h : text = number ++ [CodePoint.ofChar 'n']) :
    numberValue t = do return .whole (← suffixedValue number) := by
  simp only [numberValue, htext, h, List.getLast?_concat, List.dropLast_concat, if_true]

theorem numberValue_prefixed (hlast : text.getLast? ≠ some (CodePoint.ofChar 'n')) {radix : Nat}
    (h : radix? text = some radix) : numberValue t = do return .whole (← radixValue radix text) := by
  simp only [numberValue, htext, if_neg hlast, h]

theorem numberValue_unprefixed (hlast : text.getLast? ≠ some (CodePoint.ofChar 'n')) (h : radix? text = none) :
    numberValue t = if text.any CodePoint.isRealMark then .ok (.real (Decimal.ofText text).toFloat)
      else do return .whole (← wholeValue text) := by
  simp only [numberValue, htext, if_neg hlast, h]
  rfl

theorem numberValue_failed {fault : Fault} (h : numberValue t = .error fault) : fault = .noNumber := by
  have hwhole : ∀ {x : Except Fault Nat}, (do return Amount.whole (← x)) = Except.error fault → x = .error fault := by
    intro x hx
    obtain hx | ⟨n, -, hn⟩ := Except.bind_eq_error.mp hx
    · exact hx
    · cases hn
  by_cases hlast : text.getLast? = some (CodePoint.ofChar 'n')
  · obtain ⟨number, hnumber⟩ := List.getLast?_eq_some_iff.mp hlast
    rw [numberValue_suffixed htext hnumber] at h
    exact suffixedValue_failed (hwhole h)
  · cases hradix : radix? text with
    | some radix =>
      rw [numberValue_prefixed htext hlast hradix] at h
      exact radixValue_failed (hwhole h)
    | none =>
      rw [numberValue_unprefixed htext hlast hradix] at h
      split at h
      · cases h
      · exact wholeValue_failed (hwhole h)

end Evaluation

theorem eq_of_mem_suffix {suffix : Text} {c : CodePoint} (h : suffix = [] ∨ suffix = [CodePoint.ofChar 'n'])
    (hc : c ∈ suffix) : c = 'n' := by
  obtain rfl | rfl := h
  · cases hc
  · exact List.mem_singleton.mp hc

section Shape

variable {text : Text} (hshape : NumberShape text) (hplain : CodePoint.ofChar '_' ∉ text)
include hshape hplain

/-- What follows a radix prefix are digits of the radix. -/
theorem digits_of_hasRadix {number suffix digits : Text} {radix : Nat} (htext : text = number ++ suffix)
    (hsuffix : suffix = [CodePoint.ofChar 'n'] ∨ suffix = [] ∧ text.getLast? ≠ some (CodePoint.ofChar 'n'))
    (h : HasRadix radix digits number) : ∀ c ∈ digits, c.isDigitIn radix = true := by
  obtain ⟨mark, hmark, rfl⟩ := h
  have hdecimal : ¬∀ c ∈ text, (c.isRealPart = true ∨ c = '_') ∨ c = 'n' := by
    intro hall
    have hmem : mark ∈ text := by rw [htext]; simp
    obtain (hc | rfl) | rfl := hall mark hmem
    · rw [hmark.not_decimal.1] at hc
      cases hc
    · exact hplain hmem
    · exact hmark.not_decimal.2 rfl
  cases hshape with
  | @prefixed radix' mark' body suffix' hmark' hbody hsuffix' =>
    obtain ⟨rfl, hrest⟩ : mark' = mark ∧ body ++ suffix' = digits ++ suffix := by simpa using htext
    obtain rfl := hmark.unique hmark'
    have hdigits : ∀ c ∈ digits, c ∈ body := by
      obtain rfl | rfl := hsuffix'
      · intro c hc
        rw [List.append_nil] at hrest
        exact hrest ▸ List.mem_append_left suffix hc
      · obtain rfl | ⟨-, hlast⟩ := hsuffix
        · rw [List.append_inj_left' hrest rfl]
          exact fun _ hc => hc
        · exact absurd (List.getLast?_concat (l := CodePoint.ofChar '0' :: mark' :: body)) hlast
    intro c hc
    refine (hbody c (hdigits c hc)).resolve_right ?_
    rintro rfl
    exact hplain (by simp [hdigits _ hc])
  | whole hbody hdigit hsuffix' =>
    refine absurd (fun c hc => ?_) hdecimal
    obtain hc | hc := List.mem_append.mp hc
    · exact .inl ((hbody c hc).imp_left CodePoint.isRealPart_of_isDigit)
    · exact .inr (eq_of_mem_suffix hsuffix' hc)
  | real hbody hmark hsuffix' =>
    refine absurd (fun c hc => ?_) hdecimal
    obtain hc | hc := List.mem_append.mp hc
    · exact .inl (hbody c hc)
    · exact .inr (eq_of_mem_suffix hsuffix' hc)

/-- What has no suffix, no prefix, no point and no exponent are decimal digits. -/
theorem isDecimal_of_shape (hlast : text.getLast? ≠ some (CodePoint.ofChar 'n'))
    (hradix : ∀ radix digits, ¬HasRadix radix digits text) (hmark : ∀ c ∈ text, ¬c.isRealMark = true) :
    text.IsDecimal := by
  cases hshape with
  | prefixed hmark' _ _ => exact absurd ⟨_, hmark', rfl⟩ (hradix _ _)
  | whole hbody hdigit hsuffix =>
    obtain rfl | rfl := hsuffix
    · rw [List.append_nil] at hplain ⊢
      obtain ⟨c, hc, -⟩ := hdigit
      refine ⟨List.ne_nil_of_mem hc, fun c hc => (hbody c hc).resolve_right ?_⟩
      rintro rfl
      exact hplain hc
    · exact absurd List.getLast?_concat hlast
  | real _ hmark' _ =>
    obtain ⟨c, hc, hreal⟩ := hmark'
    exact absurd hreal (hmark c (List.mem_append_left _ hc))

end Shape

theorem bind_whole_eq_ok_iff {x : Except Fault Nat} {amount : Amount} :
    (do return Amount.whole (← x)) = Except.ok amount ↔ ∃ n, x = .ok n ∧ amount = .whole n := by
  rw [Except.bind_eq_ok]
  exact exists_congr fun n => and_congr_right fun _ => Except.pure_eq_ok.trans eq_comm

theorem radix?_eq_none {text : Text} (h : ∀ radix digits, ¬HasRadix radix digits text) : radix? text = none := by
  cases hradix : radix? text with
  | none => rfl
  | some radix =>
    obtain ⟨digits, hdigits⟩ := exists_hasRadix hradix
    exact absurd hdigits (h radix digits)

theorem valued_of_shape {t : Text} (h : NumberShape t) : Valued t.unseparated (numberValue t) := by
  have hshape := h.unseparated
  have hplain : CodePoint.ofChar '_' ∉ t.unseparated := fun hmem => (mem_unseparated.mp hmem).2 rfl
  have htext : t.filter (· != CodePoint.ofChar '_') = t.unseparated := rfl
  refine ⟨fun number hnumber amount => ?_, fun hlast radix digits hradix => ?_, fun hlast hradix hmark => ?_,
    fun hlast hradix hmark => ?_, fun fault => numberValue_failed htext⟩
  · rw [numberValue_suffixed htext hnumber, bind_whole_eq_ok_iff]
    simp only [suffixedValue_eq_ok_iff]
    constructor
    · rintro ⟨n, ⟨radix, digits, hradix, hne, rfl⟩ | ⟨hdecimal, hzero, hle, rfl⟩, rfl⟩
      · exact .inl ⟨radix, digits, hradix, hne, digits_of_hasRadix hshape hplain hnumber (.inl rfl) hradix, rfl⟩
      · exact .inr ⟨hdecimal, hzero, hle, rfl⟩
    · rintro (⟨radix, digits, hradix, hne, -, rfl⟩ | ⟨hdecimal, hzero, hle, rfl⟩)
      · exact ⟨_, .inl ⟨radix, digits, hradix, hne, rfl⟩, rfl⟩
      · exact ⟨_, .inr ⟨hdecimal, hzero, hle, rfl⟩, rfl⟩
  · refine ⟨digits_of_hasRadix hshape hplain (List.append_nil _).symm (.inr ⟨rfl, hlast⟩) hradix, fun amount => ?_⟩
    rw [numberValue_prefixed htext hlast (radix?_of_hasRadix hradix), bind_whole_eq_ok_iff]
    simp only [radixValue_eq_ok_iff hradix, and_assoc, exists_and_left, exists_eq_left]
  · rw [numberValue_unprefixed htext hlast (radix?_eq_none hradix), if_pos (List.any_eq_true.mpr hmark)]
  · have hdecimal := isDecimal_of_shape hshape hplain hlast hradix hmark
    refine ⟨hdecimal, fun amount => ?_⟩
    rw [numberValue_unprefixed htext hlast (radix?_eq_none hradix), if_neg (by simpa using hmark), bind_whole_eq_ok_iff]
    simp only [wholeValue_eq_ok_iff, hdecimal, true_and, and_assoc, exists_and_left, exists_eq_left]

end Token

/-! ## Case does not matter -/

namespace CodePoint

/-- The letter in lower case. -/
def lower (c : CodePoint) : CodePoint := if between 'A' 'Z' c then ofNat (c.val + 32) else c

/-- What is the same for each of the letters in either case is so for all code points. -/
theorem apply_lower {α : Type} [DecidableEq α] (f : CodePoint → α)
    (h : ((List.range 26).all fun k => f (ofNat (97 + k)) = f (ofNat (65 + k))) = true) (c : CodePoint) :
    f c.lower = f c := by
  by_cases hc : between 'A' 'Z' c = true
  · obtain ⟨hlow, hhigh⟩ : 65 ≤ c.val ∧ c.val ≤ 90 := between_iff.mp hc
    have hletter := of_decide_eq_true (List.all_eq_true.mp h (c.val - 65) (List.mem_range.mpr (by omega)))
    have hupper : ofNat (65 + (c.val - 65)) = c := by
      ext
      rw [Nat.add_sub_cancel' hlow]
      exact Nat.mod_eq_of_lt c.isLt
    rw [hupper, show 97 + (c.val - 65) = c.val + 32 by omega] at hletter
    rw [lower, if_pos hc, hletter]
  · rw [lower, if_neg hc]

theorem digitValue?_lower : ∀ c : CodePoint, c.lower.digitValue? = c.digitValue? :=
  apply_lower digitValue? rfl

theorem hexValue?_lower : ∀ c : CodePoint, c.lower.hexValue? = c.hexValue? :=
  apply_lower hexValue? rfl

theorem isRealMark_lower : ∀ c : CodePoint, c.lower.isRealMark = c.isRealMark :=
  apply_lower isRealMark rfl

end CodePoint

namespace Text

/-- The text without underscores and in lower case. -/
def folded (t : Text) : Text := t.unseparated.map CodePoint.lower

end Text

namespace Token

open CodePoint

theorem readRadix_lower (radix : Nat) (digits : Text) :
    readRadix radix (digits.map lower) = readRadix radix digits := by
  simp only [readRadix, List.foldl_map, hexValue?_lower]

theorem readDecimal_lower (digits : Text) : Text.readDecimal (digits.map lower) = digits.readDecimal := by
  simp only [Text.readDecimal, List.foldl_map, digitValue?_lower]

theorem radix?_lower (text : Text) : radix? (text.map lower) = radix? text := by
  have hzero : ∀ c : CodePoint, decide (c.lower = CodePoint.ofChar '0') = decide (c = CodePoint.ofChar '0') :=
    apply_lower (fun c => decide (c = CodePoint.ofChar '0')) rfl
  have hmark : ∀ d : CodePoint, radix? [CodePoint.ofChar '0', d.lower] = radix? [CodePoint.ofChar '0', d] :=
    apply_lower (fun d => radix? [CodePoint.ofChar '0', d]) rfl
  match text with
  | [] => rfl
  | [_] => rfl
  | c :: d :: rest =>
    by_cases hc : c = '0'
    · subst hc
      exact hmark d
    · have hc' : c.lower ≠ '0' := by simpa [hc] using hzero c
      simp only [List.map_cons, radix?, if_neg hc, if_neg hc']

theorem radixValue_lower (radix : Nat) (text : Text) : radixValue radix (text.map lower) = radixValue radix text := by
  rw [radixValue, radixValue, ← List.map_drop]
  cases text.drop 2 with
  | nil => rfl
  | cons c digits => exact congrArg Except.ok (readRadix_lower radix (c :: digits))

theorem wholeValue_lower (digits : Text) : wholeValue (digits.map lower) = wholeValue digits := by
  have hdigit : CodePoint.isDigit ∘ lower = CodePoint.isDigit :=
    funext fun c => congrArg Option.isSome (digitValue?_lower c)
  rw [wholeValue, wholeValue, readDecimal_lower, List.all_map, hdigit, List.length_map, List.isEmpty_map]

theorem suffixedValue_lower (text : Text) : suffixedValue (text.map lower) = suffixedValue text := by
  simp only [suffixedValue, radix?_lower, radixValue_lower, wholeValue_lower, List.head?_map, Option.any_map,
    digitValue?_lower]

theorem ofText_lower (text : Text) : Decimal.ofText (text.map lower) = Decimal.ofText text := by
  have hmark : ∀ c : CodePoint, (c.lower == CodePoint.ofChar 'e' || c.lower == CodePoint.ofChar 'E') =
      (c == CodePoint.ofChar 'e' || c == CodePoint.ofChar 'E') :=
    apply_lower (fun c => c == CodePoint.ofChar 'e' || c == CodePoint.ofChar 'E') rfl
  have hpoint : ∀ c : CodePoint, (c.lower == CodePoint.ofChar '.') = (c == CodePoint.ofChar '.') :=
    apply_lower (fun c => c == CodePoint.ofChar '.') rfl
  have hminus : ∀ c : CodePoint, (c.lower = CodePoint.ofChar '-') = (c = CodePoint.ofChar '-') := fun c =>
    decide_eq_decide.mp (apply_lower (fun c => decide (c = CodePoint.ofChar '-')) rfl c) |> propext
  have hplus : ∀ c : CodePoint, (c.lower = CodePoint.ofChar '+') = (c = CodePoint.ofChar '+') := fun c =>
    decide_eq_decide.mp (apply_lower (fun c => decide (c = CodePoint.ofChar '+')) rfl c) |> propext
  simp only [Decimal.ofText, List.takeWhile_map, List.dropWhile_map, Function.comp_def, hmark, hpoint, ← List.map_drop,
    ← List.map_append, readDecimal_lower, List.length_map]
  refine congrArg (fun scale => Decimal.mk _ (scale - _)) ?_
  generalize List.drop 1 (List.dropWhile _ text) = exponent
  cases exponent with
  | nil => rfl
  | cons c digits =>
    have hsigned := readDecimal_lower (c :: digits)
    rw [List.map_cons] at hsigned
    simp only [List.map_cons, hminus, hplus, readDecimal_lower, hsigned]

/-- A number token means the same in lower case, which leaves its suffix as it is. -/
theorem numberValue_folded {t : Text} (h : NumberShape t) : numberValue t.folded = numberValue t := by
  have htext : t.filter (· != CodePoint.ofChar '_') = t.unseparated := rfl
  have hplain : t.folded.filter (· != CodePoint.ofChar '_') = t.folded := by
    have hkept : ∀ c : CodePoint, (c.lower != CodePoint.ofChar '_') = (c != CodePoint.ofChar '_') :=
      apply_lower (fun c => c != CodePoint.ofChar '_') rfl
    simp only [Text.folded, Text.unseparated, List.filter_map, Function.comp_def, hkept, List.filter_filter,
      Bool.and_self]
  by_cases hlast : t.unseparated.getLast? = some (CodePoint.ofChar 'n')
  · obtain ⟨number, hnumber⟩ := List.getLast?_eq_some_iff.mp hlast
    have hfolded : t.folded = number.map lower ++ [CodePoint.ofChar 'n'] := by
      rw [Text.folded, hnumber, List.map_append]
      rfl
    rw [numberValue_suffixed htext hnumber, numberValue_suffixed hplain hfolded, suffixedValue_lower]
  · have hlast' : t.folded.getLast? ≠ some (CodePoint.ofChar 'n') := by
      intro hfolded
      rw [Text.folded, List.getLast?_map, Option.map_eq_some_iff] at hfolded
      obtain ⟨c, hc, hlower⟩ := hfolded
      have hcase : ∀ c : CodePoint, (c.lower == CodePoint.ofChar 'n' || c.lower == CodePoint.ofChar 'N') =
          (c == CodePoint.ofChar 'n' || c == CodePoint.ofChar 'N') :=
        apply_lower (fun c => c == CodePoint.ofChar 'n' || c == CodePoint.ofChar 'N') rfl
      have hletter : c = 'n' ∨ c = 'N' := by simpa [hlower] using (hcase c).symm
      obtain rfl | rfl := hletter
      · exact hlast hc
      · exact h.unseparated.not_mem_capital (List.mem_of_getLast? hc)
    cases hradix : radix? t.unseparated with
    | some radix =>
      have hradix' : radix? t.folded = some radix := (radix?_lower _).trans hradix
      rw [numberValue_prefixed htext hlast hradix, numberValue_prefixed hplain hlast' hradix', Text.folded,
        radixValue_lower]
    | none =>
      have hradix' : radix? t.folded = none := (radix?_lower _).trans hradix
      have hany : t.folded.any isRealMark = t.unseparated.any isRealMark := by
        simp only [Text.folded, List.any_map, Function.comp_def, isRealMark_lower]
      rw [numberValue_unprefixed htext hlast hradix, numberValue_unprefixed hplain hlast' hradix', hany, Text.folded,
        ofText_lower, wholeValue_lower]

/-- **Which number tokens have a value, and which.** Tokens that differ in nothing but underscores and case have the
same. -/
theorem numberValue_outcome {t : Text} (h : Lexeme.number.length? t = some t.length) :
    Valued t.unseparated (numberValue t) ∧
    ∀ t', Lexeme.number.length? t' = some t'.length → t'.folded = t.folded → numberValue t' = numberValue t := by
  refine ⟨valued_of_shape (Lexeme.shape_of_number h), fun t' h' hfolded => ?_⟩
  rw [← numberValue_folded (Lexeme.shape_of_number h), ← numberValue_folded (Lexeme.shape_of_number h'), hfolded]

theorem numberValue_outcome_separated :
    Lexeme.number.length? "0xF_fn" = some 6 ∧ Lexeme.number.length? "0X_fFn" = some 6 ∧
    Valued (Text.unseparated "0xF_fn") (numberValue "0xF_fn") ∧ numberValue "0X_fFn" = numberValue "0xF_fn" :=
  ⟨rfl, rfl, (numberValue_outcome (t := "0xF_fn") rfl).1,
    (numberValue_outcome (t := "0xF_fn") rfl).2 "0X_fFn" rfl (by decide)⟩

end Token

end ScriptAudit
