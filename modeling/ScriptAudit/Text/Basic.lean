/-
Texts as sequences of Unicode code points. A script or a catalog may hold a surrogate on its own
(an escape such as `\uD83D` makes one), so a text is a list of code points and not a string of
characters. Offsets, columns and lengths all count code points.
-/
namespace ScriptAudit

/-- A Unicode code point, the surrogates included. -/
abbrev CodePoint := Fin 0x110000

/-- A text is the list of its code points. -/
abbrev Text := List CodePoint

namespace CodePoint

theorem toNat_lt (c : Char) : c.toNat < 0x110000 := by
  have h := c.valid
  simp only [UInt32.isValidChar, Nat.isValidChar] at h
  show c.val.toNat < _
  omega

def ofChar (c : Char) : CodePoint := ⟨c.toNat, toNat_lt c⟩

instance : Coe Char CodePoint := ⟨ofChar⟩

/-- The code point `n`, if there is one. -/
def ofNat? (n : Nat) : Option CodePoint := if h : n < 0x110000 then some ⟨n, h⟩ else none

/-- The code point `n`, where it is known that there is one. -/
def ofNat (n : Nat) : CodePoint := Fin.ofNat 0x110000 n

def between (low high : Char) (c : CodePoint) : Bool := low.toNat ≤ c.val && c.val ≤ high.toNat

/-- The surrogates D800 to DFFF stand for no character on their own. -/
def isSurrogate (c : CodePoint) : Bool := 0xD800 ≤ c.val && c.val ≤ 0xDFFF

/-- The value of an ASCII digit in a base up to sixteen. -/
def hexValue? (c : CodePoint) : Option Nat :=
  if between '0' '9' c then some (c.val - 48)
  else if between 'a' 'f' c then some (c.val - 87)
  else if between 'A' 'F' c then some (c.val - 55)
  else none

def isHexDigit (c : CodePoint) : Bool := c.hexValue?.isSome

/-- The lower-case digit for a value below sixteen. -/
def hexDigit (n : Nat) : CodePoint :=
  if n < 10 then ⟨48 + n % 10, by omega⟩ else ⟨87 + n % 16, by omega⟩

end CodePoint

namespace Text

def ofString (s : String) : Text := s.toList.map CodePoint.ofChar

instance : Coe String Text := ⟨ofString⟩

/-- The decimal digits of a number. -/
def ofNat (n : Nat) : Text := (Nat.toDigits 10 n).map CodePoint.ofChar

def ofInt : Int → Text
  | .ofNat n => ofNat n
  | .negSucc n => '-' :: ofNat (n + 1)

/-- The last `width` hexadecimal digits of a number, in lower case. -/
def hex : (width : Nat) → Nat → Text
  | 0, _ => []
  | width + 1, n => hex width (n / 16) ++ [CodePoint.hexDigit (n % 16)]

/-- The number that hexadecimal digits write; other code points count as zero. -/
def readHex (t : Text) : Nat := t.foldl (fun n c => n * 16 + c.hexValue?.getD 0) 0

/-- How many code points at the beginning satisfy `p`. -/
def spanLength (p : CodePoint → Bool) (t : Text) : Nat := (t.takeWhile p).length

/-- The texts with `separator` between them. -/
def join (separator : Text) (ts : List Text) : Text := separator.intercalate ts

/-- What precedes and what follows the first `mark`, if there is one. -/
def splitAtFirst? (mark : CodePoint) (t : Text) : Option (Text × Text) :=
  match t.dropWhile (· != mark) with
  | [] => none
  | _ :: after => some (t.takeWhile (· != mark), after)

/-- Fills up with spaces on the right. -/
def padRight (width : Nat) (t : Text) : Text :=
  t ++ List.replicate (width - t.length) (CodePoint.ofChar ' ')

/-- The order of texts by code points. -/
def le : Text → Text → Bool
  | [], _ => true
  | _ :: _, [] => false
  | a :: as, b :: bs => if a = b then le as bs else a < b

end Text

end ScriptAudit
