/-
The shortest decimal that stands for a binary number. Of all decimals nearer to the number than to any
other binary number, `shortest` picks one with the fewest digits, and of those the nearest.
`Float.text` lays its digits out.

All comparisons are exact. A binary number is `m * 2 ^ q`; the reals that round to it reach halfway to
its neighbours, and the ends count when `m` is even. In units of `2 ^ (q - 2)` the number is `4 * m` and
the ends are whole.
-/
import ScriptAudit.Number.Decimal

namespace ScriptAudit

/-- A positive binary number `mantissa * 2 ^ exponent`. After a power of two the neighbour below is
only half as far away as the one above. -/
structure Binary where
  mantissa : Nat
  exponent : Int
  afterPower : Bool

namespace Binary

/-- The magnitude of a finite number. -/
def ofFloat (x : Float) : Binary :=
  let bits := x.toBits.toNat
  let fraction : Nat := bits % Nat.pow 2 52
  let exponent : Nat := bits / Nat.pow 2 52 % Nat.pow 2 11
  if exponent = 0 then ⟨fraction, -1074, false⟩
  else ⟨fraction + Nat.pow 2 52, exponent - 1075, fraction == 0 && 1 < exponent⟩

/-- `n` quarter units of the last binary place, on a scale shared with `tens` decimal units. -/
def quarters (b : Binary) (scale : Int) (n : Nat) : Nat :=
  n * Nat.pow 2 (b.exponent - 2).toNat * Nat.pow 10 (-scale).toNat

/-- `n * 10 ^ scale`, on the scale of `quarters`. -/
def tens (b : Binary) (scale : Int) (n : Nat) : Nat :=
  n * Nat.pow 10 scale.toNat * Nat.pow 2 (2 - b.exponent).toNat

/-- Whether `n * 10 ^ scale` rounds to the number. -/
def readsBack (b : Binary) (scale : Int) (n : Nat) : Bool :=
  let low := b.quarters scale (4 * b.mantissa - if b.afterPower then 1 else 2)
  let high := b.quarters scale (4 * b.mantissa + 2)
  let value := b.tens scale n
  if b.mantissa % 2 = 0 then low ≤ value && value ≤ high else low < value && value < high

/-- The least `k` with the number below `10 ^ k`: an estimate from the binary logarithm is at most a
few steps too low. -/
def scale (b : Binary) : Int :=
  let estimate := ((b.mantissa.log2 : Int) + b.exponent) * 30103 / 100000
  let isAbove (k : Int) := b.quarters k (4 * b.mantissa) < b.tens k 1
  if isAbove estimate then estimate
  else if isAbove (estimate + 1) then estimate + 1
  else if isAbove (estimate + 2) then estimate + 2
  else estimate + 3

/-- The decimal on the grid `10 ^ scale` that stands for the number, if there is one: the nearer of
the two next to it, and the even one of two equally near. -/
def onGrid? (b : Binary) (scale : Int) : Option Decimal :=
  let value := b.quarters scale (4 * b.mantissa)
  let below := value / b.tens scale 1
  let middle := b.tens scale (2 * below + 1)
  let takeAbove :=
    if b.readsBack scale below then
      b.readsBack scale (below + 1)
        && (middle < 2 * value || (middle == 2 * value && below % 2 == 1))
    else true
  let chosen := if takeAbove then below + 1 else below
  if b.readsBack scale chosen then some ⟨chosen, scale⟩ else none

/-- Seventeen digits are enough for every number. -/
def shortest (b : Binary) : Decimal :=
  let k := b.scale
  (((List.range 17).findSome? fun n => b.onGrid? (k - (n + 1 : Nat))).getD
    ⟨b.mantissa * Nat.pow 2 b.exponent.toNat * Nat.pow 5 (-b.exponent).toNat, min b.exponent 0⟩)

end Binary

/-! ## Layout -/

/-- Which decimals are written positionally, and how wide an exponent is at least. -/
structure DecimalStyle where
  /-- The least exponent of the first digit that is written positionally. -/
  lowest : Int
  /-- The greatest exponent of the first digit that is written positionally. -/
  highest : Int
  exponentWidth : Nat

namespace DecimalStyle

def digits (d : Decimal) : Text × Int :=
  let all := Text.ofNat d.coefficient
  let zeros := all.reverse.takeWhile fun (c : CodePoint) => c == '0'
  (all.take (all.length - zeros.length), d.exponent + zeros.length)

/-- The exponent with its sign, filled up with zeros. -/
def exponentText (style : DecimalStyle) (e : Int) : Text :=
  let digits := Text.ofNat e.natAbs
  (if e < 0 then '-' else '+') ::
    (List.replicate (style.exponentWidth - digits.length) (CodePoint.ofChar '0') ++ digits)

/-- A positive decimal. Positional notation always has a digit on both sides of the point. -/
def render (style : DecimalStyle) (d : Decimal) : Text :=
  let (digits, scale) := digits d
  let zeros (n : Int) : Text := List.replicate n.toNat (CodePoint.ofChar '0')
  let first := digits.length + scale - 1
  if first < style.lowest || style.highest < first then
    let fraction : Text := if digits.length ≤ 1 then [] else '.' :: digits.drop 1
    digits.take 1 ++ fraction ++ "e" ++ style.exponentText first
  else if first < 0 then "0." ++ zeros (-first - 1) ++ digits
  else if scale ≥ 0 then digits ++ zeros scale ++ ".0"
  else digits.take (first + 1).toNat ++ "." ++ digits.drop (first + 1).toNat

end DecimalStyle

/-- Positional from `0.0001` up to sixteen digits before the point, otherwise with a signed exponent
of at least two digits. -/
def realStyle : DecimalStyle := ⟨-4, 15, 2⟩

/-- The text of a binary number. -/
def realText (x : Float) : Text :=
  if x.isNaN then "nan"
  else
    let sign : Text := if x.toBits.toNat < Nat.pow 2 63 then [] else "-"
    if x.isInf then sign ++ "inf"
    else
      let b := Binary.ofFloat x
      sign ++ (if b.mantissa = 0 then Text.ofString "0.0" else realStyle.render b.shortest)

end ScriptAudit
