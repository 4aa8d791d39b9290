/-
How number tokens are written: with a radix prefix, as decimal digits alone, or with a fraction or an exponent; each
may end in `n` (`Lexeme.shape_of_number`). Underscores among the digits can be left out.
-/
import ScriptAudit.Proofs.Foresight
import ScriptAudit.Proofs.Spelling

namespace ScriptAudit

/-! ## Code points of numbers -/

namespace CodePoint

theorem between_iff {low high : Char} {c : CodePoint} :
    between low high c = true ↔ low.toNat ≤ c.val ∧ c.val ≤ high.toNat := by
  rw [between, Bool.and_eq_true, decide_eq_true_iff, decide_eq_true_iff]

/-- A digit of a radix up to sixteen. -/
def isDigitIn (radix : Nat) (c : CodePoint) : Bool := c.hexValue?.any (· < radix)

/-- The letter announces the radix after a zero, in either case. -/
def Announces (radix : Nat) (c : CodePoint) : Prop :=
  radix = 16 ∧ (c = 'x' ∨ c = 'X') ∨ radix = 2 ∧ (c = 'b' ∨ c = 'B') ∨ radix = 8 ∧ (c = 'o' ∨ c = 'O')

/-- A code point of a number with a fraction or an exponent. -/
def isRealPart (c : CodePoint) : Bool := c.isDigit || c == '.' || c == 'e' || c == 'E' || c == '+' || c == '-'

/-- A mark of a number with a fraction or an exponent. -/
def isRealMark (c : CodePoint) : Bool := c == '.' || c == 'e' || c == 'E'

theorem isRealPart_of_isDigit {c : CodePoint} (h : c.isDigit = true) : c.isRealPart = true := by
  rw [isRealPart, h]
  rfl

/-- No letter that announces a radix belongs to a decimal number. -/
theorem Announces.not_decimal {radix : Nat} {c : CodePoint} (h : c.Announces radix) :
    c.isRealPart = false ∧ c ≠ 'n' := by
  obtain ⟨-, rfl | rfl⟩ | ⟨-, rfl | rfl⟩ | ⟨-, rfl | rfl⟩ := h <;> decide

theorem Announces.radix?_eq {radix : Nat} {c : CodePoint} (h : c.Announces radix) :
    Token.radix? [ofChar '0', c] = some radix := by
  obtain ⟨rfl, rfl | rfl⟩ | ⟨rfl, rfl | rfl⟩ | ⟨rfl, rfl | rfl⟩ := h <;> rfl

theorem Announces.unique {radix radix' : Nat} {c : CodePoint} (h : c.Announces radix) (h' : c.Announces radix') :
    radix = radix' :=
  Option.some.inj (h.radix?_eq.symm.trans h'.radix?_eq)

theorem isRealPart_of_isRealMark {c : CodePoint} (h : c.isRealMark = true) : c.isRealPart = true := by
  rw [isRealMark, Bool.or_eq_true, Bool.or_eq_true] at h
  obtain (h | h) | h := h <;> simp [isRealPart, h]

theorem isDigitIn_of_isHexDigit {c : CodePoint} (h : c.isHexDigit = true) : c.isDigitIn 16 = true := by
  obtain ⟨v, hv⟩ := Option.isSome_iff_exists.mp h
  have hlt := Text.hexValue?_lt c
  rw [hv, Option.getD_some] at hlt
  rw [isDigitIn, hv, Option.any_some, decide_eq_true hlt]

theorem isDigitIn_of_between {radix : Nat} {high : Char} {c : CodePoint} (h : between '0' high c = true)
    (hhigh : high.toNat ≤ 57) (hradix : high.toNat < 48 + radix) : c.isDigitIn radix = true := by
  obtain ⟨hlow, hle⟩ := between_iff.mp h
  have hdigit : between '0' '9' c = true := between_iff.mpr ⟨hlow, Nat.le_trans hle hhigh⟩
  have hlt : c.val - 48 < radix := by
    have : ('0' : Char).toNat = 48 := rfl
    omega
  rw [isDigitIn, hexValue?, if_pos hdigit, Option.any_some, decide_eq_true hlt]

end CodePoint

/-! ## The shape of number tokens -/

/-- How number tokens are written: with a radix prefix, as decimal digits alone, or with a fraction or an exponent;
each may end in `n`, and underscores may stand among the digits. -/
inductive NumberShape : Text → Prop
  | prefixed {radix : Nat} {mark : CodePoint} {body suffix : Text} (hmark : mark.Announces radix)
    (hbody : ∀ c ∈ body, c.isDigitIn radix = true ∨ c = '_') (hsuffix : suffix = [] ∨ suffix = [CodePoint.ofChar 'n']) :
    NumberShape (CodePoint.ofChar '0' :: mark :: (body ++ suffix))
  | whole {body suffix : Text} (hbody : ∀ c ∈ body, c.isDigit = true ∨ c = '_') (hdigit : ∃ c ∈ body, c.isDigit = true)
    (hsuffix : suffix = [] ∨ suffix = [CodePoint.ofChar 'n']) : NumberShape (body ++ suffix)
  | real {body suffix : Text} (hbody : ∀ c ∈ body, c.isRealPart = true ∨ c = '_')
    (hmark : ∃ c ∈ body, c.isRealMark = true) (hsuffix : suffix = [] ∨ suffix = [CodePoint.ofChar 'n']) :
    NumberShape (body ++ suffix)

namespace Lexeme

theorem take_spanLength (p : CodePoint → Bool) (t : Text) : t.take (Text.spanLength p t) = t.takeWhile p :=
  (List.prefix_iff_eq_take.mp (List.takeWhile_prefix p)).symm

/-- A suffix that takes all of a text. -/
theorem eq_of_suffixLength {t : Text} (h : suffixLength t = t.length) : t = [] ∨ t = [CodePoint.ofChar 'n'] := by
  unfold suffixLength at h
  split at h
  · rename_i hhead
    obtain ⟨rest, rfl⟩ := List.head?_eq_some_iff.mp hhead
    rw [List.length_cons] at h
    rw [List.eq_nil_of_length_eq_zero (l := rest) (by omega)]
    exact .inr rfl
  · exact .inl (List.eq_nil_of_length_eq_zero h.symm)

theorem shape_of_radixLength? {lower upper : Char} {isDigit : CodePoint → Bool} {radix : Nat} {t : Text}
    (hlower : CodePoint.Announces radix lower) (hupper : CodePoint.Announces radix upper)
    (hdigit : ∀ c, isDigit c = true → c.isDigitIn radix = true)
    (h : radixLength? lower upper isDigit t = some t.length) : NumberShape t := by
  match t with
  | [] | [_] => simp [radixLength?] at h
  | c :: d :: rest =>
    rw [radixLength?] at h
    split at h
    · rename_i hprefix
      obtain ⟨rfl, hd⟩ : c = '0' ∧ (d = lower ∨ d = upper) := by simpa using hprefix
      have hmark : d.Announces radix := by
        obtain rfl | rfl := hd
        · exact hlower
        · exact hupper
      split at h
      · cases h
      · rename_i n hn
        have hbody := take_spanLength (fun e => isDigit e || e == CodePoint.ofChar '_') rest
        rw [hn] at hbody
        have hsuffix : suffixLength (rest.drop (n + 1)) = (rest.drop (n + 1)).length := by
          have hle := spanLength_le (fun e => isDigit e || e == CodePoint.ofChar '_') rest
          simp only [List.length_cons, Option.some.injEq] at h
          rw [List.length_drop]
          omega
        rw [← List.take_append_drop (n + 1) rest, hbody]
        refine .prefixed hmark (fun e he => ?_) (eq_of_suffixLength hsuffix)
        have := List.all_eq_true.mp List.all_takeWhile e he
        rw [Bool.or_eq_true, beq_iff_eq] at this
        exact this.imp_left (hdigit e)
    · cases h

theorem of_mem_take_spanLength {p : CodePoint → Bool} {t : Text} {c : CodePoint}
    (h : c ∈ t.take (Text.spanLength p t)) : p c = true := by
  rw [take_spanLength] at h
  exact List.all_eq_true.mp List.all_takeWhile c h

theorem isDigit_or_of_continuesNumber {c : CodePoint} (h : continuesNumber c = true) : c.isDigit = true ∨ c = '_' := by
  rwa [continuesNumber, Bool.or_eq_true, beq_iff_eq] at h

/-- A mantissa has a digit, and besides digits and underscores at most a point. -/
theorem mantissa_parts {t : Text} {n : Nat} (h : mantissaLength? t = some n) :
    (∃ c ∈ t.take n, c.isDigit = true) ∧ ∀ c ∈ t.take n, (c.isDigit = true ∨ c = '_') ∨ c = '.' := by
  cases t with
  | nil => cases h
  | cons c rest =>
    rw [mantissaLength?] at h
    split at h
    · rename_i hc
      have hwhole : ∀ d ∈ (c :: rest).take (Text.spanLength continuesNumber rest + 1), d.isDigit = true ∨ d = '_' := by
        intro d hd
        rw [List.take_succ_cons, List.mem_cons] at hd
        obtain rfl | hd := hd
        · exact .inl hc
        · exact isDigit_or_of_continuesNumber (of_mem_take_spanLength hd)
      have hfirst : c ∈ (c :: rest).take (Text.spanLength continuesNumber rest + 1) := List.mem_cons_self
      simp only at h
      split at h
      · rename_i d fraction hdrop
        split at h
        · rename_i hd
          obtain rfl := Option.some.inj h
          rw [Nat.add_assoc, List.take_add, hdrop, Nat.add_comm 1 (Text.spanLength continuesNumber fraction),
            List.take_succ_cons (a := d)]
          refine ⟨⟨c, List.mem_append_left _ hfirst, hc⟩, fun x hx => ?_⟩
          rw [List.mem_append, List.mem_cons] at hx
          obtain hx | rfl | hx := hx
          · exact .inl (hwhole x hx)
          · exact .inr hd
          · exact .inl (isDigit_or_of_continuesNumber (of_mem_take_spanLength hx))
        · obtain rfl := Option.some.inj h
          exact ⟨⟨c, hfirst, hc⟩, fun x hx => .inl (hwhole x hx)⟩
      · obtain rfl := Option.some.inj h
        exact ⟨⟨c, hfirst, hc⟩, fun x hx => .inl (hwhole x hx)⟩
    · split at h
      · rename_i hpoint
        obtain rfl := Option.some.inj h
        rw [Bool.and_eq_true, decide_eq_true_iff] at hpoint
        obtain ⟨hc, hhead⟩ := hpoint
        rw [List.take_succ_cons]
        refine ⟨?_, fun x hx => ?_⟩
        · obtain ⟨d, hd, hdigit⟩ := (Option.any_eq_true _ _).mp hhead
          obtain ⟨more, rfl⟩ := List.head?_eq_some_iff.mp hd
          have hcontinues : continuesNumber d = true := by rw [continuesNumber, hdigit, Bool.true_or]
          refine ⟨d, List.mem_cons_of_mem _ ?_, hdigit⟩
          rw [take_spanLength, List.takeWhile_cons, if_pos hcontinues]
          exact List.mem_cons_self
        · obtain rfl | hx := List.mem_cons.mp hx
          · exact .inr hc
          · exact .inl (isDigit_or_of_continuesNumber (of_mem_take_spanLength hx))
      · cases h

theorem of_mem_take_sign {t : Text} {c : CodePoint} (h : c ∈ t.take
    (if t.head?.any fun (d : CodePoint) => d == CodePoint.ofChar '+' || d == CodePoint.ofChar '-' then 1 else 0)) :
    c = '+' ∨ c = '-' := by
  cases t with
  | nil => simp at h
  | cons d rest =>
    split at h
    · rename_i hsign
      rw [List.take_succ_cons, List.take_zero, List.mem_singleton] at h
      simpa [← h] using hsign
    · cases h

/-- An exponent has its mark, perhaps a sign, and digits. -/
theorem exponent_parts (t : Text) : exponentLength t = 0 ∨
    (∃ c ∈ t.take (exponentLength t), c.isRealMark = true) ∧ ∀ c ∈ t.take (exponentLength t), c.isRealPart = true := by
  cases t with
  | nil => exact .inl rfl
  | cons c rest =>
    rw [exponentLength]
    split
    · rename_i hmark
      simp only
      split
      · exact .inl rfl
      · rename_i n hn
        have hc : c.isRealMark = true := by
          rw [Bool.or_eq_true, decide_eq_true_iff, decide_eq_true_iff] at hmark
          obtain rfl | rfl := hmark <;> rfl
        rw [Nat.add_comm, show n + 2 = n.succ + 1 from rfl, ← Nat.add_assoc, List.take_succ_cons, List.take_add, ← hn]
        refine .inr ⟨⟨c, List.mem_cons_self, hc⟩, fun x hx => ?_⟩
        rw [List.mem_cons, List.mem_append] at hx
        obtain rfl | hx | hx := hx
        · exact CodePoint.isRealPart_of_isRealMark hc
        · obtain rfl | rfl := of_mem_take_sign hx <;> rfl
        · exact CodePoint.isRealPart_of_isDigit (of_mem_take_spanLength hx)
    · exact .inl rfl

theorem shape_of_decimalLength? {t : Text} (h : decimalLength? t = some t.length) : NumberShape t := by
  obtain ⟨m, hm, htotal⟩ := Option.map_eq_some_iff.mp h
  simp only at htotal
  have hbounds := mantissaLength?_bounds hm
  have hexponent := exponentLength_le (t.drop m)
  obtain ⟨⟨digit, hmem, hdigit⟩, hmantissa⟩ := mantissa_parts hm
  rw [List.length_drop] at hexponent
  generalize hlength : exponentLength (t.drop m) = e at htotal hexponent
  have hsuffix : suffixLength (t.drop (m + e)) = (t.drop (m + e)).length := by
    rw [List.length_drop]
    omega
  have hends := eq_of_suffixLength hsuffix
  have hparts := exponent_parts (t.drop m)
  rw [hlength] at hparts
  rw [← List.take_append_drop (m + e) t, List.take_add]
  have hpart : ∀ c ∈ t.take m, c.isRealPart = true ∨ c = '_' := by
    intro c hc
    obtain (hc | hc) | rfl := hmantissa c hc
    · exact .inl (CodePoint.isRealPart_of_isDigit hc)
    · exact .inr hc
    · exact .inl rfl
  obtain rfl | ⟨⟨mark, hmark, hreal⟩, hexponent⟩ := hparts
  · rw [List.take_zero, List.append_nil]
    by_cases hpoint : CodePoint.ofChar '.' ∈ t.take m
    · exact .real hpart ⟨_, hpoint, rfl⟩ hends
    · refine .whole (fun c hc => (hmantissa c hc).resolve_right ?_) ⟨digit, hmem, hdigit⟩ hends
      rintro rfl
      exact hpoint hc
  · refine .real (fun c hc => ?_) ⟨mark, List.mem_append_right _ hmark, hreal⟩ hends
    exact (List.mem_append.mp hc).elim (hpart c) fun hc => .inl (hexponent c hc)

/-- Every number token has one of the shapes. -/
theorem shape_of_number {t : Text} (h : number.length? t = some t.length) : NumberShape t := by
  simp only [length?, numberLength?, Option.orElse_eq_orElse, Option.orElse_eq_or, Option.or_eq_some_iff] at h
  obtain h | ⟨-, h | ⟨-, h | ⟨-, h⟩⟩⟩ := h
  · exact shape_of_radixLength? (.inl ⟨rfl, .inl rfl⟩) (.inl ⟨rfl, .inr rfl⟩)
      (fun c => CodePoint.isDigitIn_of_isHexDigit) h
  · exact shape_of_radixLength? (.inr (.inl ⟨rfl, .inl rfl⟩)) (.inr (.inl ⟨rfl, .inr rfl⟩))
      (fun c hc => CodePoint.isDigitIn_of_between hc (by decide) (by decide)) h
  · exact shape_of_radixLength? (.inr (.inr ⟨rfl, .inl rfl⟩)) (.inr (.inr ⟨rfl, .inr rfl⟩))
      (fun c hc => CodePoint.isDigitIn_of_between hc (by decide) (by decide)) h
  · exact shape_of_decimalLength? h

end Lexeme

/-! ## Underscores -/

namespace Text

/-- The text without underscores. -/
def unseparated (t : Text) : Text := t.filter fun c => c != CodePoint.ofChar '_'

theorem mem_unseparated {t : Text} {c : CodePoint} : c ∈ t.unseparated ↔ c ∈ t ∧ c ≠ '_' := by
  rw [unseparated, List.mem_filter, bne_iff_ne]

end Text

/-- Without its underscores, a number token is one. -/
theorem NumberShape.unseparated {t : Text} (h : NumberShape t) : NumberShape t.unseparated := by
  have hends : ∀ {suffix : Text}, suffix = [] ∨ suffix = [CodePoint.ofChar 'n'] → suffix.unseparated = suffix := by
    rintro _ (rfl | rfl) <;> rfl
  have happend : ∀ s s' : Text, Text.unseparated (s ++ s') = s.unseparated ++ s'.unseparated :=
    fun _ _ => List.filter_append ..
  cases h with
  | @prefixed radix mark body suffix hmark hbody hsuffix =>
    have hhead : Text.unseparated [CodePoint.ofChar '0', mark] = [CodePoint.ofChar '0', mark] := by
      obtain ⟨-, rfl | rfl⟩ | ⟨-, rfl | rfl⟩ | ⟨-, rfl | rfl⟩ := hmark <;> rfl
    have hkept := happend [CodePoint.ofChar '0', mark] (body ++ suffix)
    simp only [happend body, hends hsuffix, hhead, List.cons_append, List.nil_append] at hkept
    rw [hkept]
    exact .prefixed hmark (fun c hc => hbody c (Text.mem_unseparated.mp hc).1) hsuffix
  | whole hbody hdigit hsuffix =>
    obtain ⟨c, hc, hc'⟩ := hdigit
    rw [happend, hends hsuffix]
    refine .whole (fun c hc => hbody c (Text.mem_unseparated.mp hc).1)
      ⟨c, Text.mem_unseparated.mpr ⟨hc, ?_⟩, hc'⟩ hsuffix
    rintro rfl
    cases hc'
  | real hbody hmark hsuffix =>
    obtain ⟨c, hc, hc'⟩ := hmark
    rw [happend, hends hsuffix]
    refine .real (fun c hc => hbody c (Text.mem_unseparated.mp hc).1)
      ⟨c, Text.mem_unseparated.mpr ⟨hc, ?_⟩, hc'⟩ hsuffix
    rintro rfl
    cases hc'

/-- No number token has a suffix in upper case. -/
theorem NumberShape.not_mem_capital {t : Text} (h : NumberShape t) : CodePoint.ofChar 'N' ∉ t := by
  have hends : ∀ {suffix : Text}, suffix = [] ∨ suffix = [CodePoint.ofChar 'n'] → CodePoint.ofChar 'N' ∉ suffix := by
    rintro _ (rfl | rfl) <;> decide
  cases h with
  | @prefixed radix mark body suffix hmark hbody hsuffix =>
    have hbody' : CodePoint.ofChar 'N' ∉ body := by
      intro hc
      obtain hdigit | hdigit := hbody _ hc
      · cases hdigit
      · cases hdigit
    have hmark' : CodePoint.ofChar 'N' ≠ mark := by
      obtain ⟨-, rfl | rfl⟩ | ⟨-, rfl | rfl⟩ | ⟨-, rfl | rfl⟩ := hmark <;> decide
    have hzero : CodePoint.ofChar 'N' ≠ CodePoint.ofChar '0' := by decide
    simp only [List.mem_cons, List.mem_append, hbody', hmark', hzero, hends hsuffix, or_self, not_false_iff]
  | whole hbody hdigit hsuffix =>
    intro hc
    obtain hc | hc := List.mem_append.mp hc
    · obtain hdigit | hdigit := hbody _ hc <;> cases hdigit
    · exact hends hsuffix hc
  | real hbody hmark hsuffix =>
    intro hc
    obtain hc | hc := List.mem_append.mp hc
    · obtain hpart | hpart := hbody _ hc <;> cases hpart
    · exact hends hsuffix hc

end ScriptAudit
