/-
Binary numbers with a fixed number of decimal places. The exact value is rounded, and a half goes to
the even neighbour.
-/
import ScriptAudit.Number.Shortest

namespace ScriptAudit

/-- The whole number nearest to `num / den`, the even one of two. -/
def roundDiv (num den : Nat) : Nat :=
  let below := num / den
  let twice := 2 * (num % den)
  if den < twice || (twice == den && below % 2 == 1) then below + 1 else below

/-- The text of a binary number with `places` digits after the point. -/
def fixedText (places : Nat) (x : Float) : Text :=
  if x.isNaN then "nan"
  else
    let sign : Text := if x.toBits.toNat < Nat.pow 2 63 then [] else "-"
    if x.isInf then sign ++ "inf"
    else
      let b := Binary.ofFloat x
      let units :=
        roundDiv (b.mantissa * Nat.pow 2 b.exponent.toNat * Nat.pow 10 places) (Nat.pow 2 (-b.exponent).toNat)
      let fraction := Text.ofNat (units % Nat.pow 10 places)
      sign ++ Text.ofNat (units / Nat.pow 10 places) ++ "."
        ++ List.replicate (places - fraction.length) (CodePoint.ofChar '0') ++ fraction

end ScriptAudit
