/-
Decimal numbers with an exponent, as literals and catalogs write them, and the binary number nearest
to each. Texts are taken apart at the exponent mark and at the point; `Text.readDecimal` does the rest.
-/
import ScriptAudit.Text.Digit

namespace ScriptAudit

/-- The number `coefficient * 10 ^ exponent`. -/
structure Decimal where
  coefficient : Nat
  exponent : Int

namespace Decimal

def infinity : Float := 1.0 / 0.0

/-- The nearest binary number, infinite from half a unit above the greatest finite one on. The two
bounds keep powers of ten that cannot matter from being computed. -/
def toFloat (d : Decimal) : Float :=
  if d.coefficient = 0 then 0.0
  else if d.exponent > 400 then infinity
  else if d.exponent + d.coefficient.log2 < -400 then 0.0
  else .ofScientific d.coefficient (d.exponent < 0) d.exponent.natAbs

/-- Reads digits with an optional point and an optional exponent. -/
def ofText (t : Text) : Decimal :=
  let isMark (c : CodePoint) := c == 'e' || c == 'E'
  let mantissa := t.takeWhile fun c => !isMark c
  let scale : Int :=
    match (t.dropWhile fun c => !isMark c).drop 1 with
    | [] => 0
    | c :: digits =>
      if c = '-' then -(Text.readDecimal digits : Int)
      else if c = '+' then Text.readDecimal digits
      else Text.readDecimal (c :: digits)
  let isPoint (c : CodePoint) := c == '.'
  let whole := mantissa.takeWhile fun c => !isPoint c
  let fraction := (mantissa.dropWhile fun c => !isPoint c).drop 1
  ⟨Text.readDecimal (whole ++ fraction), scale - fraction.length⟩

end Decimal

end ScriptAudit
