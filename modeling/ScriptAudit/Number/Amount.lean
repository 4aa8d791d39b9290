/-
Amounts of memory and other numbers that scripts and catalogs write: whole numbers of any size or
binary numbers. Whole numbers stay whole among themselves; mixed with a binary number they are rounded
to one first, which fails beyond the range of binary numbers.
-/
import ScriptAudit.Number.Shortest

namespace ScriptAudit

inductive Amount
  | whole (n : Int)
  | real (x : Float)

/-- Why an amount cannot be computed or written. -/
inductive AmountError
  /-- A whole number is beyond the range of binary numbers. -/
  | beyondRange
  /-- A whole number has too many digits to be written. -/
  | tooManyDigits
  deriving DecidableEq

namespace Amount

/-- Whole numbers with more decimal digits are neither read nor written. -/
def digitLimit : Nat := 4300

end Amount

/-- What is said of a whole number with too many digits, and what to do about it. -/
def digitLimitText (found : Text) : Text :=
  "Exceeds the limit (" ++ Text.ofNat Amount.digitLimit
    ++ " digits) for integer string conversion" ++ found
    ++ "; use sys.set_int_max_str_digits() to increase the limit"

def AmountError.message : AmountError → Text
  | beyondRange => "int too large to convert to float"
  | tooManyDigits => digitLimitText []

namespace Amount

def zero : Amount := .whole 0

/-- Greater than zero. What is not a number is not positive. -/
def isPositive : Amount → Bool
  | .whole n => 0 < n
  | .real x => 0.0 < x

/-- The nearest binary number. -/
def toFloat : Amount → Except AmountError Float
  | .whole n =>
    let x := Float.ofInt n
    if x.isInf then .error .beyondRange else .ok x
  | .real x => .ok x

def add : Amount → Amount → Except AmountError Amount
  | .whole n, .whole m => .ok (.whole (n + m))
  | a, b => do return .real ((← a.toFloat) + (← b.toFloat))

def mul : Amount → Amount → Except AmountError Amount
  | .whole n, .whole m => .ok (.whole (n * m))
  | a, b => do return .real ((← a.toFloat) * (← b.toFloat))

/-- The sum from left to right, beginning with the whole number zero. -/
def sum (amounts : List Amount) : Except AmountError Amount := amounts.foldlM add zero

def text : Amount → Except AmountError Text
  | .whole n =>
    let digits := Text.ofNat n.natAbs
    if digitLimit < digits.length then .error .tooManyDigits else .ok (Text.ofInt n)
  | .real x => .ok (realText x)

end Amount

end ScriptAudit
