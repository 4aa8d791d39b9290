/-
The player that flags describe. A flag `N=LEVEL` is understood exactly if both sides of its first `=` are whole
numbers: blanks around, perhaps a sign, and digits with single underscores between them (`Text.readWhole_eq_ok_iff`).
Numbers that are printed are read back, and of several flags for one source file the last one counts
(`Player.ofFlags_outcome`).

There is one limit that the shape of a flag does not show: more than 4300 digits are not read, even if all of them are
zero (`Player.ofFlags_manyZeros`).
-/
import Mathlib
import ScriptAudit.Cost.Player
import ScriptAudit.Proofs.Outcomes

namespace ScriptAudit

/-! ## Digits, blanks and signs -/

namespace CodePoint

/-- All blanks, by number. -/
def blankNumbers : List Nat :=
  List.range' 9 5 ++ [0x20, 0x85, 0xA0, 0x1680] ++ List.range' 0x2000 11 ++ [0x2028, 0x2029, 0x202F, 0x205F, 0x3000]

theorem mem_blankNumbers {c : CodePoint} (h : c.isBlank = true) : c.val ∈ blankNumbers := by
  simp only [isBlank, Bool.or_eq_true, Bool.and_eq_true, decide_eq_true_eq, beq_iff_eq] at h
  simp only [blankNumbers, List.mem_append, List.mem_range'_1, List.mem_cons, List.not_mem_nil, or_false]
  omega

theorem isDigit_of_isBlank {c : CodePoint} (h : c.isBlank = true) : c.isDigit = false := by
  have hnone : ∀ n ∈ blankNumbers, (digitZeros.find? fun first => first ≤ n && n < first + 10) = none := by
    decide
  simp only [isDigit, digitValue?, hnone c.val (mem_blankNumbers h), Option.map_none, Option.isSome_none]

theorem isBlank_of_isDigit {c : CodePoint} (h : c.isDigit = true) : c.isBlank = false := by
  by_contra hblank
  rw [isDigit_of_isBlank (by simpa using hblank)] at h
  cases h

theorem ne_of_isDigit {c d : CodePoint} (h : c.isDigit = true) (hd : d.isDigit = false) : c ≠ d := by
  rintro rfl
  rw [h] at hd
  cases hd

/-- An ASCII digit is worth its distance from zero. -/
theorem digitValue?_ofChar {c : Char} (h : c.isDigit = true) :
    (ofChar c).digitValue? = some (c.toNat - '0'.toNat) := by
  obtain ⟨hlow, hhigh⟩ := Char.isDigit_iff_toNat.mp h
  have hfind : (digitZeros.find? fun first => first ≤ (ofChar c).val && (ofChar c).val < first + 10) = some 48 := by
    rw [digitZeros, List.find?_cons_of_pos]
    simp only [Bool.and_eq_true, decide_eq_true_eq]
    exact ⟨hlow, Nat.lt_succ_of_le hhigh⟩
  rw [digitValue?, hfind]
  rfl

theorem isDigit_ofChar {c : Char} (h : c.isDigit = true) : (ofChar c).isDigit = true := by
  rw [isDigit, digitValue?_ofChar h, Option.isSome_some]

end CodePoint

namespace Text

open CodePoint

/-! ## Digits with underscores between them -/

/-- Digits as they are written, with single underscores between them, and the digits alone. -/
inductive Spaced : Text → Text → Prop
  | last {d : CodePoint} (hd : d.isDigit = true) : Spaced [d] [d]
  | next {d : CodePoint} {written digits : Text} (hd : d.isDigit = true) (h : Spaced written digits) :
    Spaced (d :: written) (d :: digits)
  | gap {d : CodePoint} {written digits : Text} (hd : d.isDigit = true) (h : Spaced written digits) :
    Spaced (d :: ofChar '_' :: written) (d :: digits)

theorem isUnderscore_of_isDigit {d : CodePoint} (h : d.isDigit = true) : isUnderscore d = false := by
  simpa [isUnderscore] using ne_of_isDigit h (by decide)

theorem isUnderscore_iff {c : CodePoint} : isUnderscore c = true ↔ c = ofChar '_' := by
  rw [isUnderscore, beq_iff_eq]

theorem wellSpaced_single (c : CodePoint) : wellSpaced [c] = !isUnderscore c := by
  simp [wellSpaced]

theorem wellSpaced_last {c d : CodePoint} (hd : isUnderscore d = true) : wellSpaced [c, d] = false := by
  simp [wellSpaced, hd]

theorem isUnderscore_of_wellSpaced {c : CodePoint} {rest : Text} (h : wellSpaced (c :: rest) = true) :
    isUnderscore c = false := by
  simp only [wellSpaced, List.head?_cons, Option.any_some, Bool.and_eq_true, Bool.not_eq_true'] at h
  exact h.1.1

theorem wellSpaced_next {c d : CodePoint} (hc : isUnderscore c = false) (hd : isUnderscore d = false) (rest : Text) :
    wellSpaced (c :: d :: rest) = wellSpaced (d :: rest) := by
  simp [wellSpaced, hc, hd, List.getLast?_cons_cons]

theorem wellSpaced_gap {c d e : CodePoint} (hc : isUnderscore c = false) (hd : isUnderscore d = true) (rest : Text) :
    wellSpaced (c :: d :: e :: rest) = wellSpaced (e :: rest) := by
  cases he : isUnderscore e <;> simp [wellSpaced, hc, hd, he, List.getLast?_cons_cons]

/-- What may stand in the middle of a whole number. -/
def isWholePart (c : CodePoint) : Bool := c.isDigit || isUnderscore c

theorem isDigit_of_isWholePart {c : CodePoint} (h : isWholePart c = true) (hc : isUnderscore c = false) :
    c.isDigit = true := by
  rwa [isWholePart, hc, Bool.or_false] at h

namespace Spaced

variable {written digits : Text}

theorem head (h : Spaced written digits) : ∃ d rest, written = d :: rest ∧ d.isDigit = true := by
  cases h with
  | last hd => exact ⟨_, _, rfl, hd⟩
  | next hd => exact ⟨_, _, rfl, hd⟩
  | gap hd => exact ⟨_, _, rfl, hd⟩

theorem ne_nil (h : Spaced written digits) : digits ≠ [] := by
  cases h <;> exact List.cons_ne_nil _ _

theorem parts (h : Spaced written digits) : ∀ c ∈ written, isWholePart c = true := by
  induction h with
  | last hd => simp [isWholePart, hd]
  | next hd _ ih => simpa [isWholePart, hd] using ih
  | gap hd _ ih => simpa [isWholePart, hd, isUnderscore] using ih

theorem filter_eq (h : Spaced written digits) : (written.filter fun c => !isUnderscore c) = digits := by
  have hgap : isUnderscore (ofChar '_') = true := isUnderscore_iff.mpr rfl
  induction h with
  | last hd => simp [isUnderscore_of_isDigit hd]
  | next hd _ ih => simp [isUnderscore_of_isDigit hd, ih]
  | gap hd _ ih => simp [isUnderscore_of_isDigit hd, hgap, ih]

theorem wellSpaced (h : Spaced written digits) : wellSpaced written = true := by
  induction h with
  | last hd => rw [wellSpaced_single, isUnderscore_of_isDigit hd, Bool.not_false]
  | next hd h ih =>
    obtain ⟨e, rest, rfl, he⟩ := h.head
    rw [wellSpaced_next (isUnderscore_of_isDigit hd) (isUnderscore_of_isDigit he), ih]
  | gap hd h ih =>
    obtain ⟨e, rest, rfl, -⟩ := h.head
    rw [wellSpaced_gap (isUnderscore_of_isDigit hd) (isUnderscore_iff.mpr rfl), ih]

/-- The induction is on the digits: after each of them stands a digit, or an underscore and a digit. -/
theorem of_wellSpaced : ∀ {run : Text}, Text.wellSpaced run = true → (∀ c ∈ run, isWholePart c = true) → run ≠ [] →
    Spaced run (run.filter fun c => !isUnderscore c)
  | [], _, _, hne => absurd rfl hne
  | [c], hspaced, hparts, _ => by
    have hc := isUnderscore_of_wellSpaced hspaced
    rw [List.filter_cons_of_pos (by simpa using hc), List.filter_nil]
    exact .last (isDigit_of_isWholePart (hparts c List.mem_cons_self) hc)
  | c :: d :: rest, hspaced, hparts, _ => by
    have hc := isUnderscore_of_wellSpaced hspaced
    have hdigit := isDigit_of_isWholePart (hparts c List.mem_cons_self) hc
    rw [List.filter_cons_of_pos (by simpa using hc)]
    cases hd : isUnderscore d with
    | false =>
      rw [wellSpaced_next hc hd] at hspaced
      exact .next hdigit (of_wellSpaced hspaced (fun e he => hparts e (.tail _ he)) (List.cons_ne_nil _ _))
    | true =>
      cases rest with
      | nil => rw [wellSpaced_last hd] at hspaced; cases hspaced
      | cons e rest =>
        rw [wellSpaced_gap hc hd] at hspaced
        rw [List.filter_cons_of_neg (by simpa using hd), isUnderscore_iff.mp hd]
        exact .gap hdigit
          (of_wellSpaced hspaced (fun e he => hparts e (.tail _ (.tail _ he))) (List.cons_ne_nil _ _))

theorem of_digits : ∀ {digits : Text}, (∀ d ∈ digits, d.isDigit = true) → digits ≠ [] → Spaced digits digits
  | [], _, hne => absurd rfl hne
  | [d], hdigits, _ => .last (hdigits d List.mem_cons_self)
  | d :: _ :: _, hdigits, _ =>
    .next (hdigits d List.mem_cons_self) (of_digits (fun c hc => hdigits c (.tail _ hc)) (List.cons_ne_nil _ _))

end Spaced

/-! ## Whole numbers -/

inductive Sign
  | absent
  | plus
  | minus

namespace Sign

def text : Sign → Text
  | absent => []
  | plus => ['+']
  | minus => ['-']

def isMinus : Sign → Bool
  | minus => true
  | _ => false

end Sign

/-- The text of a whole number, with its digits and the number: blanks around, perhaps a sign, and digits with single
underscores between them. -/
def IsLiteral (t digits : Text) (n : Int) : Prop :=
  ∃ before sign written after, t = before ++ (Sign.text sign ++ (written ++ after)) ∧
    (∀ c ∈ before, c.isBlank = true) ∧ (∀ c ∈ after, c.isBlank = true) ∧ Spaced written digits ∧
    n = if sign.isMinus then -(readDecimal digits : Int) else readDecimal digits

theorem exists_sign (t : Text) : ∃ sign : Sign, t = sign.text ++ (splitSign t).2 ∧ (splitSign t).1 = sign.isMinus := by
  cases t with
  | nil => exact ⟨.absent, rfl, rfl⟩
  | cons c rest =>
    by_cases hminus : c = ofChar '-'
    · subst hminus
      exact ⟨.minus, rfl, rfl⟩
    · by_cases hplus : c = ofChar '+'
      · subst hplus
        exact ⟨.plus, rfl, rfl⟩
      · exact ⟨.absent, by simp [splitSign, hminus, hplus, Sign.text], by simp [splitSign, hminus, hplus, Sign.isMinus]⟩

theorem splitSign_append (sign : Sign) {d : CodePoint} (hd : d.isDigit = true) (rest : Text) :
    splitSign (sign.text ++ d :: rest) = (sign.isMinus, d :: rest) := by
  cases sign with
  | absent =>
    have hminus : d ≠ ofChar '-' := ne_of_isDigit hd (by decide)
    have hplus : d ≠ ofChar '+' := ne_of_isDigit hd (by decide)
    simp [Sign.text, Sign.isMinus, splitSign, hminus, hplus]
  | plus => rfl
  | minus => rfl

theorem dropWhile_isBlank {before : Text} (hbefore : ∀ c ∈ before, c.isBlank = true) (sign : Sign) {d : CodePoint}
    (hd : d.isDigit = true) (rest : Text) :
    (before ++ (sign.text ++ d :: rest)).dropWhile isBlank = sign.text ++ d :: rest := by
  rw [List.dropWhile_append_of_pos hbefore]
  cases sign with
  | absent => rw [Sign.text, List.nil_append, List.dropWhile_cons_of_neg (by simp [isBlank_of_isDigit hd])]
  | plus => rfl
  | minus => rfl

theorem isWholePart_of_isBlank {c : CodePoint} (h : c.isBlank = true) : isWholePart c = false := by
  have hgap : c ≠ ofChar '_' := by rintro rfl; revert h; decide
  simp [isWholePart, isDigit_of_isBlank h, isUnderscore, hgap]

theorem takeWhile_isWholePart {written after : Text} (hwritten : ∀ c ∈ written, isWholePart c = true)
    (hafter : ∀ c ∈ after, c.isBlank = true) : (written ++ after).takeWhile isWholePart = written := by
  rw [List.takeWhile_append_of_pos hwritten]
  cases after with
  | nil => exact List.append_nil _
  | cons c after =>
    have hc := isWholePart_of_isBlank (hafter c List.mem_cons_self)
    rw [List.takeWhile_cons_of_neg (by simp [hc]), List.append_nil]

theorem dropWhile_isWholePart {written after : Text} (hwritten : ∀ c ∈ written, isWholePart c = true)
    (hafter : ∀ c ∈ after, c.isBlank = true) : (written ++ after).dropWhile isWholePart = after := by
  have h := List.takeWhile_append_dropWhile (p := isWholePart) (l := written ++ after)
  rw [takeWhile_isWholePart hwritten hafter] at h
  exact List.append_cancel_left h

/-- What is read once blanks and a sign are gone. -/
def readUnsigned (t unsigned : Text) (negative : Bool) : Except WholeError Int :=
  let run := unsigned.takeWhile isWholePart
  let digits := run.filter fun c => !isUnderscore c
  if !wellSpaced run then .error (.notWhole t)
  else if Amount.digitLimit < digits.length then .error (.tooManyDigits digits.length)
  else if digits.isEmpty || !(unsigned.dropWhile isWholePart).all isBlank then .error (.notWhole t)
  else .ok (if negative then -(readDecimal digits : Int) else readDecimal digits)

theorem readWhole_eq_readUnsigned (t : Text) :
    readWhole t = readUnsigned t (splitSign (t.dropWhile isBlank)).2 (splitSign (t.dropWhile isBlank)).1 := rfl

theorem readWhole_of_isLiteral {t digits : Text} {n : Int} (h : IsLiteral t digits n) :
    readWhole t = if Amount.digitLimit < digits.length then .error (.tooManyDigits digits.length) else .ok n := by
  obtain ⟨before, sign, written, after, rfl, hbefore, hafter, hspaced, rfl⟩ := h
  have hsign : splitSign ((before ++ (sign.text ++ (written ++ after))).dropWhile isBlank)
      = (sign.isMinus, written ++ after) := by
    obtain ⟨d, more, rfl, hd⟩ := hspaced.head
    rw [List.cons_append, dropWhile_isBlank hbefore sign hd, splitSign_append sign hd]
  have hne : digits.isEmpty = false := List.isEmpty_eq_false_iff.mpr hspaced.ne_nil
  have hblank : after.all isBlank = true := List.all_eq_true.mpr hafter
  rw [readWhole_eq_readUnsigned, hsign]
  simp [readUnsigned, takeWhile_isWholePart hspaced.parts hafter, dropWhile_isWholePart hspaced.parts hafter,
    hspaced.wellSpaced, hspaced.filter_eq, hne, hblank]

/-- What is read is what is left of the text when blanks, the sign and the rest are taken off. -/
theorem isLiteral_of_readUnsigned {t : Text} {n : Int}
    (h : readUnsigned t (splitSign (t.dropWhile isBlank)).2 (splitSign (t.dropWhile isBlank)).1 = .ok n) :
    ∃ digits, IsLiteral t digits n ∧ digits.length ≤ Amount.digitLimit := by
  obtain ⟨sign, hrest, hnegative⟩ := exists_sign (t.dropWhile isBlank)
  rw [hnegative] at h
  generalize (splitSign (t.dropWhile isBlank)).2 = unsigned at h hrest
  simp only [readUnsigned] at h
  split at h
  · cases h
  rename_i hspaced
  split at h
  · cases h
  rename_i hlimit
  split at h
  · cases h
  rename_i hshape
  simp only [Bool.or_eq_true, Bool.not_eq_true', not_or, Bool.not_eq_false, Bool.not_eq_true] at hspaced hshape
  have hne : unsigned.takeWhile isWholePart ≠ [] := by
    intro hnil
    simp [hnil] at hshape
  refine ⟨_, ⟨t.takeWhile isBlank, sign, _, unsigned.dropWhile isWholePart, ?_, fun c => List.mem_takeWhile_imp,
    List.all_eq_true.mp hshape.2, .of_wellSpaced hspaced (fun c => List.mem_takeWhile_imp) hne,
    (Except.ok.inj h).symm⟩, Nat.le_of_not_lt hlimit⟩
  rw [List.takeWhile_append_dropWhile, ← hrest, List.takeWhile_append_dropWhile]

theorem readWhole_eq_ok_iff {t : Text} {n : Int} :
    readWhole t = .ok n ↔ ∃ digits, IsLiteral t digits n ∧ digits.length ≤ Amount.digitLimit := by
  constructor
  · exact isLiteral_of_readUnsigned
  · rintro ⟨digits, h, hlimit⟩
    rw [readWhole_of_isLiteral h, if_neg (Nat.not_lt.mpr hlimit)]

theorem readDecimal_ofNat (n : Nat) : readDecimal (ofNat n) = n := by
  have hfold : ∀ (digits : List Char) (m : Nat), (∀ c ∈ digits, c.isDigit = true) →
      (digits.map ofChar).foldl (fun n c => n * 10 + c.digitValue?.getD 0) m = Nat.ofDigitChars 10 digits m := by
    intro digits
    induction digits with
    | nil => intro m _; rfl
    | cons c digits ih =>
      intro m hdigits
      rw [List.map_cons, List.foldl_cons, digitValue?_ofChar (hdigits c List.mem_cons_self), Option.getD_some,
        ih _ fun d hd => hdigits d (List.mem_cons_of_mem _ hd), Nat.ofDigitChars_cons, Nat.mul_comm]
  rw [readDecimal, ofNat, hfold _ _ fun c => Nat.isDigit_of_mem_toDigits (by decide) (by decide),
    Nat.ofDigitChars_toDigits (by decide) (by decide)]

theorem spaced_ofNat (n : Nat) : Spaced (ofNat n) (ofNat n) := by
  refine .of_digits (fun d hd => ?_) ?_
  · obtain ⟨c, hc, rfl⟩ := List.mem_map.mp hd
    exact isDigit_ofChar (Nat.isDigit_of_mem_toDigits (by decide) (by decide) hc)
  · rw [ofNat, ne_eq, List.map_eq_nil_iff]
    exact Nat.toDigits_ne_nil

/-- A whole number is written as a sign and its digits. -/
theorem isLiteral_ofInt (n : Int) : IsLiteral (ofInt n) (ofNat n.natAbs) n := by
  cases n with
  | ofNat n =>
    refine ⟨[], .absent, ofNat n, [], by simp [ofInt, Sign.text], nofun, nofun, spaced_ofNat n, ?_⟩
    simp [Sign.isMinus, readDecimal_ofNat]
  | negSucc n =>
    refine ⟨[], .minus, ofNat (n + 1), [], by simp [ofInt, Sign.text], nofun, nofun, spaced_ofNat (n + 1), ?_⟩
    show Int.negSucc n = -(readDecimal (ofNat (n + 1)) : Int)
    rw [readDecimal_ofNat, Int.negSucc_eq, Nat.cast_succ]

/-- There is no `=` in the text of a whole number. -/
theorem IsLiteral.mark_notMem {t digits : Text} {n : Int} (h : IsLiteral t digits n) : ofChar '=' ∉ t := by
  obtain ⟨before, sign, written, after, rfl, hbefore, hafter, hspaced, -⟩ := h
  simp only [List.mem_append, not_or]
  refine ⟨fun h => ?_, fun h => ?_, fun h => ?_, fun h => ?_⟩
  · exact absurd (hbefore _ h) (by decide)
  · revert h
    cases sign <;> decide
  · exact absurd (hspaced.parts _ h) (by decide)
  · exact absurd (hafter _ h) (by decide)

/-! ## The two sides of a flag -/

theorem splitAtFirst?_append {mark : CodePoint} {before : Text} (h : mark ∉ before) (after : Text) :
    splitAtFirst? mark (before ++ mark :: after) = some (before, after) := by
  have hbefore : ∀ c ∈ before, (c != mark) = true := fun c hc => by
    rw [bne_iff_ne]
    rintro rfl
    exact h hc
  rw [splitAtFirst?, List.dropWhile_append_of_pos hbefore, List.takeWhile_append_of_pos hbefore,
    List.dropWhile_cons_of_neg (by simp), List.takeWhile_cons_of_neg (by simp), List.append_nil]

theorem splitAtFirst?_eq_none {mark : CodePoint} {t : Text} (h : mark ∉ t) : splitAtFirst? mark t = none := by
  have ht : ∀ c ∈ t, (c != mark) = true := fun c hc => by
    rw [bne_iff_ne]
    rintro rfl
    exact h hc
  rw [splitAtFirst?, List.dropWhile_eq_nil_iff.mpr ht]

end Text

open Text

/-- The text of a whole number that is short enough to be read. -/
def IsWhole (t : Text) : Prop := ∃ digits n, IsLiteral t digits n ∧ digits.length ≤ Amount.digitLimit

theorem exists_readWhole_iff {t : Text} : (∃ n, readWhole t = .ok n) ↔ IsWhole t := by
  simp only [IsWhole, readWhole_eq_ok_iff]
  exact exists_comm

/-- A flag that does not say which source file has which level: it has no `=`, or what stands before or after the
first one is not what counts as a number. -/
def SaysNothing (isNumber : Text → Prop) (flag : Text) : Prop :=
  CodePoint.ofChar '=' ∉ flag ∨ ∃ number level, CodePoint.ofChar '=' ∉ number ∧
    flag = number ++ CodePoint.ofChar '=' :: level ∧ (¬ isNumber number ∨ ¬ isNumber level)

theorem saysNothing_append_iff {isNumber : Text → Prop} {number : Text} (h : CodePoint.ofChar '=' ∉ number)
    (level : Text) :
    SaysNothing isNumber (number ++ CodePoint.ofChar '=' :: level) ↔ ¬ (isNumber number ∧ isNumber level) := by
  rw [not_and_or]
  constructor
  · rintro (hnone | ⟨number', level', h', heq, hnot⟩)
    · exact absurd (by simp) hnone
    · have hsame := splitAtFirst?_append h' level'
      rw [← heq, splitAtFirst?_append h] at hsame
      cases hsame
      exact hnot
  · exact fun hnot => .inr ⟨number, level, h, rfl, hnot⟩

/-! ## Reading flags -/

theorem readSourceFileFlag_append {number : Text} (h : CodePoint.ofChar '=' ∉ number) (level : Text) :
    readSourceFileFlag (number ++ CodePoint.ofChar '=' :: level) = do
      let n ← (readWhole number).mapError .notWhole
      let l ← (readWhole level).mapError .notWhole
      return (n, l) := by
  rw [readSourceFileFlag, splitAtFirst?_append h]

theorem exists_readSourceFileFlag_iff {flag : Text} :
    (∃ pair, readSourceFileFlag flag = .ok pair) ↔ ¬ SaysNothing IsWhole flag := by
  by_cases hmark : CodePoint.ofChar '=' ∈ flag
  · obtain ⟨number, level, rfl, h⟩ := List.eq_append_cons_of_mem hmark
    simp only [saysNothing_append_iff h, readSourceFileFlag_append h, Except.exists_bind_eq_ok,
      Except.mapError_eq_ok, Except.exists_pure_eq_ok, and_true, not_not, exists_and_right, exists_readWhole_iff]
  · have hnone : readSourceFileFlag flag = .error (.noLevel flag) := by
      rw [readSourceFileFlag, splitAtFirst?_eq_none hmark]
      rfl
    simp [hnone, SaysNothing, hmark]

namespace Player

/-- A flag as it is printed. -/
def flagText (pair : Int × Int) : Text := ofInt pair.1 ++ CodePoint.ofChar '=' :: ofInt pair.2

theorem readSourceFileFlag_flagText {pair : Int × Int} (hnumber : (Nat.toDigits 10 pair.1.natAbs).length ≤ 4300)
    (hlevel : (Nat.toDigits 10 pair.2.natAbs).length ≤ 4300) : readSourceFileFlag (flagText pair) = .ok pair := by
  have hread : ∀ n : Int, (Nat.toDigits 10 n.natAbs).length ≤ 4300 → readWhole (ofInt n) = .ok n := by
    intro n hn
    refine readWhole_eq_ok_iff.mpr ⟨_, isLiteral_ofInt n, ?_⟩
    rwa [Text.ofNat, List.length_map]
  rw [flagText, readSourceFileFlag_append (isLiteral_ofInt pair.1).mark_notMem, hread _ hnumber, hread _ hlevel]
  rfl

theorem mapM_flagText {pairs : List (Int × Int)} (h : ∀ pair ∈ pairs,
    (Nat.toDigits 10 pair.1.natAbs).length ≤ 4300 ∧ (Nat.toDigits 10 pair.2.natAbs).length ≤ 4300) :
    (pairs.map flagText).mapM readSourceFileFlag = .ok pairs := by
  induction pairs with
  | nil => rfl
  | cons pair pairs ih =>
    have hpair := h pair List.mem_cons_self
    rw [List.map_cons, List.mapM_cons, readSourceFileFlag_flagText hpair.1 hpair.2,
      ih fun other hother => h other (List.mem_cons_of_mem _ hother)]
    rfl

/-- The level of a source file is that of its last flag. -/
theorem get?_foldl_insert (pairs : List (Int × Int)) (levels : Table Int Int) (q : Int) :
    (pairs.foldl (fun levels pair => levels.insert pair.1 pair.2) levels).get? q =
      (pairs.reverse.lookup q).or (levels.get? q) := by
  induction pairs generalizing levels with
  | nil => rfl
  | cons pair pairs ih =>
    rw [List.foldl_cons, ih, List.reverse_cons, List.lookup_append, Option.or_assoc]
    congr 1
    by_cases hq : q = pair.1
    · rw [hq, Table.get?_insert_self, List.lookup_cons_self]
      rfl
    · rw [Table.get?_insert_other _ _ hq, List.lookup_cons, beq_eq_false_iff_ne.mpr hq]
      rfl

theorem exists_ofFlags_iff {bitnode : Option Int} {flags : List Text} :
    (∃ player, ofFlags bitnode flags = .ok player) ↔ ∀ flag ∈ flags, ¬ SaysNothing IsWhole flag := by
  simp only [ofFlags, Except.exists_bind_eq_ok, Except.exists_pure_eq_ok, and_true,
    ← exists_readSourceFileFlag_iff]
  refine ⟨fun h flag hflag => ?_, Except.exists_mapM_eq_ok⟩
  obtain ⟨pairs, hpairs⟩ := h
  obtain ⟨pair, -, hpair⟩ := Except.exists_of_mem_mapM hpairs hflag
  exact ⟨pair, hpair⟩

/-- **Flags for source files.** Numbers and levels of at most 4300 digits that are printed as flags are read back: the
level of a source file is that of the last flag for it, and zero if there is none, and without a bitnode it is the
first. Of any texts, one is refused exactly if it does not say which source file has which level. -/
theorem ofFlags_outcome (bitnode : Option Int) :
    (∀ pairs : List (Int × Int),
      (∀ pair ∈ pairs, (Nat.toDigits 10 pair.1.natAbs).length ≤ 4300 ∧ (Nat.toDigits 10 pair.2.natAbs).length ≤ 4300) →
      ∃ player, ofFlags bitnode (pairs.map flagText) = .ok player ∧ player.bitnode = bitnode.getD 1 ∧
        ∀ q, player.level q = (pairs.reverse.lookup q).getD 0) ∧
    ∀ flags : List Text, (∃ error, ofFlags bitnode flags = .error error) ↔ ∃ flag ∈ flags, SaysNothing IsWhole flag := by
  refine ⟨fun pairs h => ⟨_, by rw [ofFlags, mapM_flagText h]; rfl, rfl, fun q => ?_⟩, fun flags => ?_⟩
  · rw [level, get?_foldl_insert]
    exact congrArg (Option.getD · 0) (Option.or_none)
  · rw [Except.exists_eq_error_iff, exists_ofFlags_iff]
    push Not
    rfl

/-- One digit too many, though all are zero. -/
def manyZeros : Text := List.replicate 4301 (CodePoint.ofChar '0')

theorem isLiteral_manyZeros : IsLiteral manyZeros manyZeros (readDecimal manyZeros) := by
  refine ⟨[], .absent, manyZeros, [], by simp [Sign.text], nofun, nofun, .of_digits (fun d hd => ?_) ?_, rfl⟩
  · rw [List.eq_of_mem_replicate hd]
    decide
  · exact List.cons_ne_nil _ _

/-- Both sides of the flag are texts of whole numbers, and still it is refused. -/
theorem ofFlags_manyZeros :
    (∃ error, ofFlags none [manyZeros ++ CodePoint.ofChar '=' :: ofInt 1] = .error error) ∧
      ¬ ∃ flag ∈ [manyZeros ++ CodePoint.ofChar '=' :: ofInt 1],
        SaysNothing (fun t => ∃ digits n, IsLiteral t digits n) flag := by
  have hmark := isLiteral_manyZeros.mark_notMem
  have hlimit : Amount.digitLimit < manyZeros.length := by
    rw [manyZeros, List.length_replicate]
    decide
  constructor
  · rw [Except.exists_eq_error_iff, exists_ofFlags_iff]
    intro h
    refine h _ List.mem_cons_self ((saysNothing_append_iff hmark _).mpr fun hwhole => ?_)
    obtain ⟨n, hn⟩ := exists_readWhole_iff.mpr hwhole.1
    rw [readWhole_of_isLiteral isLiteral_manyZeros, if_pos hlimit] at hn
    cases hn
  · rintro ⟨flag, hflag, hnothing⟩
    rw [List.mem_singleton.mp hflag, saysNothing_append_iff hmark] at hnothing
    exact hnothing ⟨⟨_, _, isLiteral_manyZeros⟩, ⟨_, _, isLiteral_ofInt 1⟩⟩

end Player

end ScriptAudit
