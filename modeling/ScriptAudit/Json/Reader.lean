/-
Reading JSON. Besides what the format allows, `NaN`, `Infinity` and `-Infinity` are numbers. Where a
text is not JSON, the error says what was expected and at which offset.
-/
import ScriptAudit.Json.Basic
import ScriptAudit.Text.Digit

namespace ScriptAudit.Json

/-- What is wrong with a text. -/
inductive Flaw
  | expectingValue
  | expectingKey
  | expectingColon
  | expectingComma
  | extraData
  | unterminatedString
  | controlCharacter
  | badEscape
  | badUnicodeEscape
  | byteOrderMark
  deriving DecidableEq

def Flaw.message : Flaw → String
  | expectingValue => "Expecting value"
  | expectingKey => "Expecting property name enclosed in double quotes"
  | expectingColon => "Expecting ':' delimiter"
  | expectingComma => "Expecting ',' delimiter"
  | extraData => "Extra data"
  | unterminatedString => "Unterminated string starting at"
  | controlCharacter => "Invalid control character at"
  | badEscape => "Invalid \\escape"
  | badUnicodeEscape => "Invalid \\uXXXX escape"
  | byteOrderMark => "Unexpected UTF-8 BOM (decode using utf-8-sig)"

inductive ReadError
  | flaw (flaw : Flaw) (offset : Nat)
  /-- A whole number has more digits than are read. -/
  | tooManyDigits (count : Nat)
  deriving DecidableEq

/-- The text from an offset on. -/
structure Mark where
  offset : Nat
  rest : Text

namespace Mark

def advance (m : Mark) (n : Nat) : Mark := ⟨m.offset + n, m.rest.drop n⟩

def head? (m : Mark) : Option CodePoint := m.rest.head?

def isAt (m : Mark) (c : Char) : Bool := m.rest.head? == some (CodePoint.ofChar c)

/-- Past the blanks of JSON. -/
def skipBlanks (m : Mark) : Mark :=
  m.advance (Text.spanLength (fun c => c == ' ' || c == '\t' || c == '\n' || c == '\r') m.rest)

def fail {α : Type} (m : Mark) (flaw : Flaw) : Except ReadError α := .error (.flaw flaw m.offset)

end Mark

/-! ## Strings -/

def escapeMeaning? (c : CodePoint) : Option CodePoint :=
  if c = '"' || c = '\\' || c = '/' then some c
  else if c = 'b' then some (CodePoint.ofChar '\x08')
  else if c = 'f' then some (CodePoint.ofChar '\x0c')
  else if c = 'n' then some (CodePoint.ofChar '\n')
  else if c = 'r' then some (CodePoint.ofChar '\r')
  else if c = 't' then some (CodePoint.ofChar '\t')
  else none

/-- The code point of four hexadecimal digits. -/
def unit? (t : Text) : Option Nat :=
  let digits := t.take 4
  if digits.length = 4 && digits.all CodePoint.isHexDigit then some (Text.readHex digits) else none

def isHighUnit (n : Nat) : Bool := 0xD800 ≤ n && n ≤ 0xDBFF

def isLowUnit (n : Nat) : Bool := 0xDC00 ≤ n && n ≤ 0xDFFF

/-- After `\u`: the code point and how far it reaches. A high surrogate joins with the escape of a low
one after it. A quote must still follow each escape, so the text may not end with it. -/
def unicodeEscape (m : Mark) : Except ReadError (CodePoint × Mark) := do
  let flawed {α : Type} (offset : Nat) : Except ReadError α :=
    .error (.flaw .badUnicodeEscape (offset - 1))
  if m.rest.length ≤ 4 then flawed m.offset
  let some high := unit? m.rest | flawed m.offset
  let next := m.advance 4
  let single := (CodePoint.ofNat high, next)
  if isHighUnit high && 6 < next.rest.length && Text.ofString "\\u" == next.rest.take 2 then
    let some low := unit? (next.rest.drop 2) | flawed (next.offset + 2)
    if isLowUnit low then
      return (CodePoint.ofNat (0x10000 + (high - 0xD800) * 0x400 + (low - 0xDC00)), next.advance 6)
  return single

/-- The rest of a string that began at offset `start`, up to and past its closing quote. -/
def stringTail (start : Nat) : (fuel : Nat) → Mark → Except ReadError (Text × Mark)
  | 0, _ => .error (.flaw .unterminatedString start)
  | fuel + 1, m =>
    match m.rest with
    | [] => .error (.flaw .unterminatedString start)
    | c :: rest =>
      if c = '"' then .ok ([], m.advance 1)
      else if c = '\\' then
        match rest with
        | [] => .error (.flaw .unterminatedString start)
        | d :: _ =>
          if d = 'u' then do
            let (c, next) ← unicodeEscape (m.advance 2)
            let (tail, next) ← stringTail start fuel next
            return (c :: tail, next)
          else
            match escapeMeaning? d with
            | none => m.fail .badEscape
            | some c => do
              let (tail, next) ← stringTail start fuel (m.advance 2)
              return (c :: tail, next)
      else if c.val ≤ 0x1F then m.fail .controlCharacter
      else do
        let (tail, next) ← stringTail start fuel (m.advance 1)
        return (c :: tail, next)

/-- A string from its opening quote on. -/
def readString (m : Mark) : Except ReadError (Text × Mark) :=
  stringTail m.offset (m.rest.length + 1) (m.advance 1)

/-! ## Numbers -/

def isAsciiDigit (c : CodePoint) : Bool := CodePoint.between '0' '9' c

/-- The length of the digits before a point: a leading zero stands alone. -/
def wholeLength? : Text → Option Nat
  | [] => none
  | c :: rest =>
    if c = '0' then some 1
    else if isAsciiDigit c then some (Text.spanLength isAsciiDigit rest + 1)
    else none

/-- A point and at least one digit, or nothing. -/
def fractionLength : Text → Nat
  | [] => 0
  | c :: rest =>
    if c = '.' then
      match Text.spanLength isAsciiDigit rest with
      | 0 => 0
      | n + 1 => n + 2
    else 0

/-- An exponent with at least one digit, or nothing. -/
def exponentLength : Text → Nat
  | [] => 0
  | c :: rest =>
    if c = 'e' || c = 'E' then
      let sign := if rest.head?.any fun (d : CodePoint) => d == '+' || d == '-' then 1 else 0
      match Text.spanLength isAsciiDigit (rest.drop sign) with
      | 0 => 0
      | n + 1 => n + 2 + sign
    else 0

def readNumber (m : Mark) : Except ReadError (Json × Mark) := do
  let negative := m.isAt '-'
  let unsigned := if negative then m.advance 1 else m
  let some whole := wholeLength? unsigned.rest | m.fail .expectingValue
  let fraction := fractionLength (unsigned.rest.drop whole)
  let exponent := exponentLength (unsigned.rest.drop (whole + fraction))
  let next := unsigned.advance (whole + fraction + exponent)
  if fraction + exponent = 0 then
    if Amount.digitLimit < whole then throw (.tooManyDigits whole)
    let n : Int := Text.readDecimal (unsigned.rest.take whole)
    return (.number (.whole (if negative then -n else n)), next)
  let x := (Decimal.ofText (unsigned.rest.take (whole + fraction + exponent))).toFloat
  return (.number (.real (if negative then -x else x)), next)

/-! ## Values -/

/-- A word that stands for a value. -/
def word? (m : Mark) : Option (Json × Mark) :=
  let words : List (String × Json) :=
    [("null", .null), ("true", .bool true), ("false", .bool false),
     ("NaN", .number (.real (0.0 / 0.0))), ("Infinity", .number (.real Decimal.infinity)),
     ("-Infinity", .number (.real (-Decimal.infinity)))]
  (words.find? fun word => (Text.ofString word.1).isPrefixOf m.rest).map fun word =>
    (word.2, m.advance word.1.length)

mutual

/-- One value. -/
def readValue : (fuel : Nat) → Mark → Except ReadError (Json × Mark)
  | 0, m => m.fail .expectingValue
  | fuel + 1, m =>
    if m.isAt '"' then do
      let (text, next) ← readString m
      return (.string text, next)
    else if m.isAt '\x7b' then
      let inside := (m.advance 1).skipBlanks
      if inside.isAt '\x7d' then .ok (.object [], inside.advance 1) else readMembers fuel [] inside
    else if m.isAt '[' then
      let inside := (m.advance 1).skipBlanks
      if inside.isAt ']' then .ok (.array [], inside.advance 1) else readItems fuel [] inside
    else
      match word? m with
      | some found => .ok found
      | none => readNumber m

/-- The items of an array, from one item on. -/
def readItems : (fuel : Nat) → (before : List Json) → Mark → Except ReadError (Json × Mark)
  | 0, _, m => m.fail .expectingValue
  | fuel + 1, before, m => do
    let (item, next) ← readValue fuel m
    let next := next.skipBlanks
    let before := item :: before
    if next.isAt ']' then return (.array before.reverse, next.advance 1)
    if !next.isAt ',' then next.fail .expectingComma
    readItems fuel before (next.advance 1).skipBlanks

/-- The members of an object, from one key on. -/
def readMembers : (fuel : Nat) → (before : List (Text × Json)) → Mark → Except ReadError (Json × Mark)
  | 0, _, m => m.fail .expectingValue
  | fuel + 1, before, m => do
    if !m.isAt '"' then m.fail .expectingKey
    let (key, next) ← readString m
    let next := next.skipBlanks
    if !next.isAt ':' then next.fail .expectingColon
    let (member, next) ← readValue fuel (next.advance 1).skipBlanks
    let next := next.skipBlanks
    let before := Table.insert before key member
    if next.isAt '\x7d' then return (.object before, next.advance 1)
    if !next.isAt ',' then next.fail .expectingComma
    readMembers fuel before (next.advance 1).skipBlanks

end

/-- Reads a text that is one JSON value. Each step takes at least one code point, so the fuel is
enough. -/
def read (t : Text) : Except ReadError Json := do
  if t.head?.any (·.val == 0xFEFF) then throw (.flaw .byteOrderMark 0)
  let (json, next) ← readValue (t.length + 1) (Mark.skipBlanks ⟨0, t⟩)
  let next := next.skipBlanks
  if !next.rest.isEmpty then next.fail .extraData
  return json

end ScriptAudit.Json
