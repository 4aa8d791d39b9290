/-
Which whole numbers are in the range of binary numbers. A whole number is rounded to 53 bits, and what is rounded
to 2¹⁰²⁴ or more is beyond the range. That happens from `Binary.limit` on, which is halfway between the greatest
binary number and 2¹⁰²⁴: the tie goes to the even number, and that is the greater one.

The work is in `exists_roundWithAccuracy`, which says how the exponent comes out of rounding: the bits that are
shifted out add to it, and so does a carry into the next power of two. Numbers below 2⁵³ are not rounded but
multiplied by one, which does the same.
-/
import Mathlib
import ScriptAudit.Number.Amount

namespace ScriptAudit

namespace Binary

open Float.Model
open Float.Model.UnpackedFloat (Sign ExtendedMantissa packComponents unpackExponent roundWithAccuracy
  shiftToTargetExponent)

/-! ## Overflow -/

/-- What becomes infinite when it is packed. -/
def overflows : UnpackedFloat → Bool
  | .infinity _ => true
  | .finite _ _ exponent _ => 972 ≤ exponent
  | _ => false

theorem isInf_unpack_packComponents (sign : Sign) (exponent : BitVec 11) (mantissa : BitVec 52) :
    (UnpackedFloat.unpack .binary64 (packComponents .binary64 sign exponent mantissa)).isInf =
      decide (exponent = -1#11 ∧ mantissa = 0#52) := by
  unfold UnpackedFloat.unpack
  simp only [UnpackedFloat.unpackExponent_packComponents, UnpackedFloat.unpackMantissa_packComponents]
  split_ifs <;> simp_all [UnpackedFloat.isInf]

/-- The exponent of a number that does not overflow, as it is packed. -/
theorem toNat_biased {e : Int} (h : ¬2 ^ 11 ≤ (e + 1023 + 52).toNat + 1) :
    (BitVec.ofNat 11 (e + 1023 + 52).toNat).toNat = (e + 1023 + 52).toNat := by
  rw [BitVec.toNat_ofNat, Nat.mod_eq_of_lt (by omega)]

theorem biased_ne {e : Int} (h : ¬2 ^ 11 ≤ (e + 1023 + 52).toNat + 1) :
    BitVec.ofNat 11 (e + 1023 + 52).toNat ≠ -1#11 := by
  intro heq
  have hvalue := toNat_biased h
  rw [heq] at hvalue
  change 2047 = _ at hvalue
  omega

theorem isInf_pack (x : UnpackedFloat) : (Float.Model.pack x).isInf = overflows x := by
  change (UnpackedFloat.unpack .binary64 (UnpackedFloat.pack .binary64 x)).isInf = _
  fun_cases UnpackedFloat.pack .binary64 x with
  | case1 => rfl
  | case2 s => exact (isInf_unpack_packComponents s (-1#11) 0).trans rfl
  | case3 s => exact (isInf_unpack_packComponents s 0 0).trans rfl
  | case4 s m e hm biased h =>
    change 2 ^ 11 ≤ (e + 1023 + 52).toNat + 1 at h
    have hlarge : 972 ≤ e := by omega
    refine (isInf_unpack_packComponents s (-1#11) 0).trans ?_
    simp [overflows, hlarge]
  | case5 s m e hm bits biased h h' =>
    change ¬2 ^ 11 ≤ (e + 1023 + 52).toNat + 1 at h
    have hsmall : ¬972 ≤ e := by omega
    refine (isInf_unpack_packComponents s (BitVec.ofNat 11 (e + 1023 + 52).toNat) _).trans ?_
    rw [decide_eq_false (mt And.left (biased_ne h)), overflows, decide_eq_false hsmall]
  | case6 s m e hm bits biased h h' =>
    change ¬2 ^ 11 ≤ (e + 1023 + 52).toNat + 1 at h
    have hsmall : ¬972 ≤ e := by omega
    refine (isInf_unpack_packComponents s 0#11 _).trans ?_
    simp [overflows, hsmall]

/-- Numbers that are finite do not overflow when they are packed again. -/
theorem overflows_unpack (x : Float.Model) : overflows x.unpack = x.isInf := by
  unfold Float.Model.isInf Float.Model.unpack UnpackedFloat.unpack
  dsimp only
  split_ifs with hall hzero hleast hzero
  · rfl
  · rfl
  · rfl
  · simp [overflows, UnpackedFloat.isInf, Format.exponentBias, hleast]
  · have hlt : (@unpackExponent .binary64 x.toBits.toBitVec).toNat < 2048 := BitVec.isLt _
    have hne : (@unpackExponent .binary64 x.toBits.toBitVec).toNat ≠ 2047 := fun heq =>
      hall (BitVec.eq_of_toNat_eq heq)
    change decide (972 ≤ ((@unpackExponent .binary64 x.toBits.toBitVec).toNat : Int)
      - ((1023 : Nat) + (52 : Nat))) = false
    rw [decide_eq_false_iff_not]
    omega

theorem isInf_neg (x : Float) : x.neg.isInf = x.isInf := by
  change (Float.Model.pack x.toModel.unpack.neg).isInf = x.toModel.isInf
  rw [isInf_pack, ← overflows_unpack]
  cases x.toModel.unpack <;> rfl

/-- Numbers of 53 bits that do not overflow are the same after packing. -/
theorem exists_unpack_pack (sign : Sign) {m : Nat} {e : Int} (hm : 0 < m) (hbits : m.log2 = 52) (hlow : -1074 ≤ e)
    (hhigh : e < 972) : ∃ sign', (Float.Model.pack (.finite sign m e hm)).unpack = .finite sign' m e hm := by
  have hfits : ¬2 ^ 11 ≤ (e + 1023 + 52).toNat + 1 := by omega
  have hne : BitVec.ofNat 11 (e + 1023 + 52).toNat ≠ 0#11 := by
    intro heq
    have hvalue := toNat_biased hfits
    rw [heq] at hvalue
    change 0 = _ at hvalue
    omega
  have hpack : UnpackedFloat.pack .binary64 (.finite sign m e hm) =
      packComponents .binary64 sign (BitVec.ofNat 11 (e + 1023 + 52).toNat) (BitVec.ofNat 52 m) := by
    unfold UnpackedFloat.pack
    change (if 2 ^ 11 ≤ (e + 1023 + 52).toNat + 1 then _ else if m.log2 + 1 = 53 then _ else _) = _
    rw [if_neg hfits, if_pos (by rw [hbits])]
    rfl
  -- the first of the 53 bits is not stored
  have hmantissa : (1#1 ++ BitVec.ofNat 52 m).toNat = m := by
    have hle : 2 ^ 52 ≤ m := hbits ▸ Nat.log2_self_le hm.ne'
    have hlt : m < 2 ^ (52 + 1) := hbits ▸ Nat.lt_log2_self
    rw [BitVec.toNat_append, ← Nat.shiftLeft_add_eq_or_of_lt (BitVec.isLt _)]
    simp only [BitVec.toNat_ofNat, Nat.shiftLeft_eq]
    omega
  have hexponent : ((BitVec.ofNat 11 (e + 1023 + 52).toNat).toNat : Int) - ((1023 : Nat) + (52 : Nat)) = e := by
    rw [toNat_biased hfits]
    omega
  change ∃ sign', UnpackedFloat.unpack .binary64 (UnpackedFloat.pack .binary64 (.finite sign m e hm)) = _
  rw [hpack]
  unfold UnpackedFloat.unpack
  simp only [UnpackedFloat.unpackExponent_packComponents, UnpackedFloat.unpackMantissa_packComponents]
  rw [if_neg (biased_ne hfits), if_neg hne]
  simp only [UnpackedFloat.finite.injEq]
  exact ⟨_, rfl, hmantissa, hexponent⟩

/-! ## Rounding -/

theorem log2_eq_of_le {n k : Nat} (h : 2 ^ k ≤ n) (h' : n < 2 ^ (k + 1)) : n.log2 = k := by
  have hne : n ≠ 0 := by
    have := Nat.two_pow_pos k
    omega
  have := (Nat.le_log2 hne).mpr h
  have := (Nat.log2_lt hne).mpr h'
  omega

theorem log2_mul_two_pow {n : Nat} (h : n ≠ 0) (j : Nat) : (n * 2 ^ j).log2 = n.log2 + j := by
  apply log2_eq_of_le
  · rw [Nat.pow_add]
    exact Nat.mul_le_mul_right _ (Nat.log2_self_le h)
  · rw [show n.log2 + j + 1 = n.log2 + 1 + j by omega, Nat.pow_add]
    exact Nat.mul_lt_mul_of_pos_right Nat.lt_log2_self (Nat.two_pow_pos j)

/-- What is shifted out is remembered in two bits. -/
theorem shiftRight_succ (mantissa k : Nat) : ExtendedMantissa.mk mantissa false false >>> (k + 1) =
    ⟨mantissa / 2 ^ (k + 1), mantissa / 2 ^ k % 2 != 0, mantissa % 2 ^ k != 0⟩ := by
  change (k + 1).repeat ExtendedMantissa.shiftRightOne _ = _
  induction k with
  | zero => simp [Nat.repeat, ExtendedMantissa.shiftRightOne, Nat.mod_one]
  | succ k ih =>
    have hmod : mantissa % 2 ^ (k + 1) = mantissa % 2 ^ k + 2 ^ k * (mantissa / 2 ^ k % 2) := by
      rw [Nat.pow_succ, Nat.mod_mul]
    rw [Nat.repeat, ih, ExtendedMantissa.shiftRightOne]
    congr 1
    · rw [Nat.div_div_eq_div_mul, ← Nat.pow_succ]
    · rw [hmod]
      rcases Nat.mod_two_eq_zero_or_one (mantissa / 2 ^ k) with h | h <;> simp [h]

/-- More than half goes up, and half goes to the even number. -/
theorem roundedMantissa_eq (q : Nat) (half rest : Bool) : (ExtendedMantissa.mk q half rest).roundedMantissa =
    if half && (rest || q % 2 == 1) then q + 1 else q := by
  cases half with
  | false => cases rest <;> rfl
  | true =>
    cases rest with
    | true => rfl
    | false =>
      change q + q % 2 = _
      rcases Nat.mod_two_eq_zero_or_one q with h | h <;> simp [h]

/-- Whether rounding to 53 bits goes up to the next power of two. -/
def carries (mantissa : Nat) : Bool :=
  52 < mantissa.log2 ∧ (2 ^ 54 - 1) * 2 ^ (mantissa.log2 - 53) ≤ mantissa

/-- All 53 bits are set, and so is the next one. -/
theorem carries_iff {mantissa k : Nat} (h : mantissa.log2 = 52 + (k + 1))
    (hlt : mantissa / 2 ^ (k + 1) < 2 ^ 53) : carries mantissa = true ↔
      mantissa / 2 ^ (k + 1) = 2 ^ 53 - 1 ∧ (mantissa / 2 ^ k % 2 != 0) = true := by
  have hle : (2 ^ 54 - 1) * 2 ^ k ≤ mantissa ↔ 2 ^ 54 - 1 ≤ mantissa / 2 ^ k :=
    (Nat.le_div_iff_mul_le (Nat.two_pow_pos _)).symm
  have hhalf : mantissa / 2 ^ (k + 1) = mantissa / 2 ^ k / 2 := by rw [Nat.div_div_eq_div_mul, Nat.pow_succ]
  rw [hhalf] at hlt ⊢
  simp only [carries, h, show 52 + (k + 1) - 53 = k by omega, hle, decide_eq_true_eq, bne_iff_ne]
  omega

/-- A number of at least 53 bits after rounding to 53. -/
theorem rounded_cases {mantissa k : Nat} (h : mantissa.log2 = 52 + k) {r : Nat}
    (hr : (ExtendedMantissa.mk mantissa false false >>> k).roundedMantissa = r) :
    carries mantissa = true ∧ r = 2 ^ 53 ∨ carries mantissa = false ∧ r.log2 = 52 := by
  have hne : mantissa ≠ 0 := by
    intro hzero
    rw [hzero, Nat.log2_zero] at h
    omega
  cases k with
  | zero =>
    refine .inr ⟨by simp [carries, h], ?_⟩
    rw [← hr]
    exact h
  | succ k =>
    have hge : 2 ^ 52 ≤ mantissa / 2 ^ (k + 1) := by
      rw [Nat.le_div_iff_mul_le (Nat.two_pow_pos _), ← Nat.pow_add, ← h]
      exact Nat.log2_self_le hne
    have hlt : mantissa / 2 ^ (k + 1) < 2 ^ 53 := by
      rw [Nat.div_lt_iff_lt_mul (Nat.two_pow_pos _), ← Nat.pow_add, show 53 + (k + 1) = 52 + (k + 1) + 1 by omega,
        ← h]
      exact Nat.lt_log2_self
    rw [shiftRight_succ, roundedMantissa_eq] at hr
    cases hcarries : carries mantissa with
    | true =>
      obtain ⟨hq, hhalf⟩ := (carries_iff h hlt).mp hcarries
      refine .inl ⟨rfl, ?_⟩
      rw [← hr, hhalf, hq]
      simp
    | false =>
      have hnot := (carries_iff h hlt).not.mp (by rw [hcarries]; exact Bool.false_ne_true)
      refine .inr ⟨rfl, ?_⟩
      rw [← hr]
      split
      · rename_i hup
        have hhalf := (Bool.and_eq_true_iff.mp hup).1
        have hne : mantissa / 2 ^ (k + 1) ≠ 2 ^ 53 - 1 := fun hq => hnot ⟨hq, hhalf⟩
        exact log2_eq_of_le (by omega) (by omega)
      · exact log2_eq_of_le hge hlt

theorem targetExponent_eq (mantissa : Nat) (exponent : Int) :
    Format.binary64.targetExponent (totalExponent mantissa exponent) =
      max (mantissa.log2 + 1 + exponent - 53) (-1074) := rfl

/-- The first shift leaves 53 bits. -/
theorem shift_of_log2 {mantissa k : Nat} {exponent : Int} (h : mantissa.log2 = 52 + k)
    (hexponent : -1074 ≤ exponent + k) :
    shiftToTargetExponent .binary64 mantissa exponent .exact =
      (ExtendedMantissa.mk mantissa false false >>> k, exponent + k) := by
  have hshift : (Format.binary64.targetExponent (totalExponent mantissa exponent) - exponent).toNat = k := by
    rw [targetExponent_eq]
    omega
  unfold shiftToTargetExponent UnpackedFloat.shiftToExponent
  simp only [hshift]
  rfl

/-- A number of at least 53 bits is rounded to one of 53 bits. Its exponent grows by the number of bits that are
left out, and by one more if there is a carry. -/
theorem exists_roundWithAccuracy (sign : Sign) {mantissa k : Nat} {exponent : Int} (h : mantissa.log2 = 52 + k)
    (hexponent : -1074 ≤ exponent + k) :
    ∃ m hm, m.log2 = 52 ∧ roundWithAccuracy .binary64 sign mantissa exponent .exact =
      .finite sign m (exponent + k + if carries mantissa then 1 else 0) hm := by
  unfold roundWithAccuracy
  rw [shift_of_log2 h hexponent]
  dsimp only
  generalize hr : (ExtendedMantissa.mk mantissa false false >>> k).roundedMantissa = r
  rcases rounded_cases h hr with ⟨hcarries, rfl⟩ | ⟨hcarries, hbits⟩
  · have hpow : (2 ^ 53 : Nat).log2 = 52 + 1 := Nat.log2_two_pow
    rw [shift_of_log2 hpow (by omega)]
    exact ⟨2 ^ 52, by decide, Nat.log2_two_pow, by rw [hcarries]; rfl⟩
  · have hne : r ≠ 0 := by
      intro hzero
      rw [hzero, Nat.log2_zero] at hbits
      omega
    have hzero : -1074 ≤ exponent + k + (0 : Nat) := by omega
    rw [shift_of_log2 (k := 0) hbits hzero]
    refine ⟨r, Nat.pos_of_ne_zero hne, hbits, ?_⟩
    rw [hcarries]
    exact dif_neg hne

/-! ## Whole numbers -/

/-- The least whole number beyond the range. -/
def limit : Nat := 2 ^ 1024 - 2 ^ 970

theorem limit_eq : limit = (2 ^ 54 - 1) * 2 ^ 970 := by
  rw [limit, Nat.sub_mul, ← pow_add, one_mul]

theorem limit_pos : 0 < limit := by
  rw [limit_eq]
  positivity

theorem exists_ofNat {n : Nat} (hpos : 0 < n) (hlt : n < 2 ^ 53) :
    ∃ m hm, m.log2 = 52 ∧ UnpackedFloat.ofNat .binary64 n = .finite .positive m (n.log2 - 52) hm := by
  have hlog : n.log2 < 53 := (Nat.log2_lt hpos.ne').mpr hlt
  have hcompare : compare (n : Int) 0 = .gt := compare_gt_iff_gt.mpr (by omega)
  have htarget : Format.binary64.targetExponent (totalExponent n 0) = (n.log2 : Int) - 52 := by
    rw [targetExponent_eq]
    omega
  have hbits : (n * 2 ^ (52 - n.log2)).log2 = 52 + 0 := by
    rw [log2_mul_two_pow hpos.ne']
    omega
  have hcarries : carries (n * 2 ^ (52 - n.log2)) = false := by simp [carries, hbits]
  have hexponent : -1074 ≤ (n.log2 : Int) - 52 + (0 : Nat) := by omega
  obtain ⟨m, hm, hmbits, hround⟩ := exists_roundWithAccuracy .positive hbits hexponent
  refine ⟨m, hm, hmbits, ?_⟩
  simp only [UnpackedFloat.ofNat, UnpackedFloat.ofInt, UnpackedFloat.normalize, hcompare, Int.toNat_natCast,
    UnpackedFloat.round, htarget, UnpackedFloat.decreaseExponent, Nat.shiftLeft_eq,
    show ((0 : Int) - (n.log2 - 52)).toNat = 52 - n.log2 by omega,
    show (0 : Int) - (52 - n.log2 : Nat) = n.log2 - 52 by omega, hround, hcarries]
  simp

theorem isInf_of_lt {n : Nat} (h : n < 2 ^ 53) : (Float.ofNat n).isInf = false := by
  rcases Nat.eq_zero_or_pos n with rfl | hpos
  · rfl
  -- the number is multiplied by the zeroth power of ten
  have hproduct : Float.ofNat n = n.toUInt64.toFloat * Float.ofBits 0x3FF0000000000000 := by
    change Float.ofScientific n false 0 = _
    rw [Float.ofScientific, dif_pos ⟨h, by omega⟩]
    rfl
  have hone : (Float.ofBits 0x3FF0000000000000).toModel.unpack = .finite .positive (2 ^ 52) (-52) (by decide) := rfl
  have hmodel : n.toUInt64.toFloat.toModel = Float.Model.pack (UnpackedFloat.ofNat .binary64 n) := by
    have htoNat : n.toUInt64.toNat = n := Nat.mod_eq_of_lt (by omega)
    change Float.Model.pack (UnpackedFloat.ofNat .binary64 n.toUInt64.toNat) = _
    rw [htoNat]
  obtain ⟨m, hm, hbits, hn⟩ := exists_ofNat hpos h
  have hlog : n.log2 < 53 := (Nat.log2_lt hpos.ne').mpr h
  obtain ⟨sign, hunpack⟩ := exists_unpack_pack .positive hm hbits (e := (n.log2 : Int) - 52) (by omega) (by omega)
  have hlength : (m * 2 ^ 52).log2 = 52 + 52 := by rw [log2_mul_two_pow hm.ne', hbits]
  have hexponent : -1074 ≤ (n.log2 : Int) - 52 + -52 + (52 : Nat) := by omega
  obtain ⟨m', hm', -, hround⟩ := exists_roundWithAccuracy (sign * .positive) hlength hexponent
  rw [hproduct]
  change (Float.Model.pack (UnpackedFloat.mul .binary64 n.toUInt64.toFloat.toModel.unpack
    (Float.ofBits 0x3FF0000000000000).toModel.unpack)).isInf = false
  rw [isInf_pack, hmodel, hn, hunpack, hone, UnpackedFloat.mul, hround, overflows, decide_eq_false_iff_not]
  split <;> omega

theorem isInf_of_le {n : Nat} (h : 2 ^ 53 ≤ n) : (Float.ofNat n).isInf = decide (limit ≤ n) := by
  have hne : n ≠ 0 := by omega
  have hmodel : (Float.ofNat n).toModel =
      Float.Model.pack (roundWithAccuracy .binary64 .positive (n * 2 ^ 53) (-53) .exact) := by
    change (Float.ofScientific n false 0).toModel = _
    rw [Float.ofScientific, dif_neg (by omega)]
    change Float.Model.pack (UnpackedFloat.ofScientific .binary64 n 0) = _
    rw [UnpackedFloat.ofScientific, dif_neg hne, if_neg (by decide), if_neg (by simp), if_pos (by decide)]
    change Float.Model.pack (roundWithAccuracy .binary64 .positive (n <<< 53 * 1) (-53 + 0) .exact) = _
    rw [Nat.mul_one, Nat.shiftLeft_eq, Int.add_zero]
  have hbits : (n * 2 ^ 53).log2 = 52 + (n.log2 + 1) := by
    rw [log2_mul_two_pow hne]
    omega
  have hexponent : -1074 ≤ (-53 : Int) + (n.log2 + 1 : Nat) := by omega
  obtain ⟨m, hm, -, hround⟩ := exists_roundWithAccuracy .positive hbits hexponent
  change (Float.ofNat n).toModel.isInf = _
  rw [hmodel, isInf_pack, hround, overflows, decide_eq_decide, limit_eq]
  rcases Nat.lt_trichotomy n.log2 1023 with hlog | hlog | hlog
  · have hpow : n < 2 ^ 1023 := by rwa [← Nat.log2_lt hne]
    have hlimit : 2 ^ 1023 ≤ (2 ^ 54 - 1) * 2 ^ 970 := by
      rw [pow_add 2 53 970]
      exact Nat.mul_le_mul_right _ (by decide)
    refine iff_of_false ?_ (Nat.not_le.mpr (hpow.trans_le hlimit))
    split <;> omega
  · -- between the last two powers of two the carry decides
    have hcarries : carries (n * 2 ^ 53) = true ↔ (2 ^ 54 - 1) * 2 ^ 970 ≤ n := by
      have hsplit : (2 ^ 54 - 1) * 2 ^ (52 + (1023 + 1) - 53) = (2 ^ 54 - 1) * 2 ^ 970 * 2 ^ 53 := by
        rw [mul_assoc, ← pow_add]
      rw [carries, hbits, hlog, decide_eq_true_eq, hsplit, Nat.mul_le_mul_right_iff (by decide)]
      exact and_iff_right (by omega)
    rw [← hcarries, hlog]
    cases carries (n * 2 ^ 53) <;> decide
  · have hpow : 2 ^ 1024 ≤ n := by rwa [← Nat.le_log2 hne]
    have hlimit : (2 ^ 54 - 1) * 2 ^ 970 ≤ 2 ^ 1024 := limit_eq ▸ Nat.sub_le ..
    refine iff_of_true ?_ (hlimit.trans hpow)
    split <;> omega

theorem isInf_ofNat (n : Nat) : (Float.ofNat n).isInf = decide (limit ≤ n) := by
  rcases Nat.lt_or_ge n (2 ^ 53) with h | h
  · have hlimit : 2 ^ 53 ≤ limit := by
      rw [limit_eq]
      exact Nat.le_trans (by decide) (Nat.le_mul_of_pos_right _ (by positivity))
    rw [isInf_of_lt h, eq_comm, decide_eq_false_iff_not, Nat.not_le]
    exact h.trans_le hlimit
  · exact isInf_of_le h

end Binary

/-- **Whole numbers can be converted below the limit**, on both sides of zero. -/
theorem Amount.toFloat_whole (n : Int) :
    (Amount.whole n).toFloat = if n.natAbs < Binary.limit then .ok (Float.ofInt n) else .error .beyondRange := by
  have hinf : (Float.ofInt n).isInf = decide (Binary.limit ≤ n.natAbs) := by
    cases n with
    | ofNat n => exact Binary.isInf_ofNat n
    | negSucc n => exact (Binary.isInf_neg _).trans (Binary.isInf_ofNat _)
  simp only [toFloat, hinf, decide_eq_true_eq]
  by_cases h : n.natAbs < Binary.limit
  · rw [if_neg (Nat.not_le.mpr h), if_pos h]
  · rw [if_pos (Nat.not_lt.mp h), if_neg h]

end ScriptAudit
