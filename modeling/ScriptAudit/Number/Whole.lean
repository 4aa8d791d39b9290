/-
Whole numbers as a user writes them: blanks around, a sign, decimal digits of any script, and single
underscores between the digits.
-/
import ScriptAudit.Number.Amount
import ScriptAudit.Text.Blank
import ScriptAudit.Text.Digit
import ScriptAudit.Text.Quoted

namespace ScriptAudit

inductive WholeError
  | notWhole (found : Text)
  | tooManyDigits (count : Nat)
  deriving DecidableEq

def WholeError.message : WholeError → Text
  | notWhole found => "invalid literal for int() with base 10: " ++ found.quoted.take 200
  | tooManyDigits count => digitLimitText (": value has " ++ Text.ofNat count ++ " digits")

namespace Text

def isUnderscore (c : CodePoint) : Bool := c == '_'

/-- No underscore comes first, last or after another one. -/
def wellSpaced (digits : Text) : Bool :=
  !digits.head?.any isUnderscore && !digits.getLast?.any isUnderscore
    && (digits.zip digits.tail).all fun pair => !(isUnderscore pair.1 && isUnderscore pair.2)

/-- Splits off a sign, and tells whether it is a minus. -/
def splitSign : Text → Bool × Text
  | [] => (false, [])
  | c :: rest => if c = '-' then (true, rest) else if c = '+' then (false, rest) else (false, c :: rest)

/-- The whole number that a text writes. Misplaced underscores are found first, then too many digits,
and last what does not belong there. -/
def readWhole (t : Text) : Except WholeError Int :=
  let (negative, unsigned) := splitSign (t.dropWhile CodePoint.isBlank)
  let isPart (c : CodePoint) : Bool := c.isDigit || isUnderscore c
  let run := unsigned.takeWhile isPart
  let digits := run.filter fun c => !isUnderscore c
  if !wellSpaced run then .error (.notWhole t)
  else if Amount.digitLimit < digits.length then .error (.tooManyDigits digits.length)
  else if digits.isEmpty || !(unsigned.dropWhile isPart).all CodePoint.isBlank then .error (.notWhole t)
  else
    let n : Int := Text.readDecimal digits
    .ok (if negative then -n else n)

end Text

end ScriptAudit
