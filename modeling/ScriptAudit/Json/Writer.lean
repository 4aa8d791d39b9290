/-
Writing JSON, on one line or indented. Only printable ASCII is written as it is; a code point beyond
the first plane is written as its two surrogates. Infinite numbers and what is not a number have the
names that the reader knows. `display` is for messages: it has words for null and the truth values.
-/
import ScriptAudit.Json.Basic
import ScriptAudit.Text.Quoted

namespace ScriptAudit.Json

def unicodeUnit (n : Nat) : Text := "\\u" ++ Text.hex 4 n

def escaped (c : CodePoint) : Text :=
  if c = '"' then "\\\""
  else if c = '\\' then "\\\\"
  else if c = '\n' then "\\n"
  else if c = '\r' then "\\r"
  else if c = '\t' then "\\t"
  else if c = '\x08' then "\\b"
  else if c = '\x0c' then "\\f"
  else if 0x20 ≤ c.val && c.val ≤ 0x7E then [c]
  else if c.val < 0x10000 then unicodeUnit c.val
  else
    let n := c.val - 0x10000
    unicodeUnit (0xD800 + n / 0x400) ++ unicodeUnit (0xDC00 + n % 0x400)

def quoted (t : Text) : Text := "\"" ++ t.flatMap escaped ++ "\""

def numberText : Amount → Except AmountError Text
  | .real x =>
    if x.isNaN then .ok "NaN"
    else if x.isInf then .ok (if x < 0.0 then "-Infinity" else "Infinity")
    else Amount.text (.real x)
  | amount => amount.text

/-- A line end with the indentation of a level, where the layout has lines. -/
def lineBreak (indent : Option Nat) (level : Nat) : Text :=
  match indent with
  | none => []
  | some width => '\n' :: List.replicate (width * level) (CodePoint.ofChar ' ')

/-- What stands between two items. -/
def separator (indent : Option Nat) (level : Nat) : Text :=
  match indent with
  | none => ", "
  | some _ => "," ++ lineBreak indent level

mutual

/-- Writes a value in front of a text. -/
def write (indent : Option Nat) (level : Nat) : Json → Text → Except AmountError Text
  | .null, rest => .ok ("null" ++ rest)
  | .bool truth, rest => .ok (Text.ofString (if truth then "true" else "false") ++ rest)
  | .number amount, rest => do return (← numberText amount) ++ rest
  | .string text, rest => .ok (quoted text ++ rest)
  | .array [], rest => .ok ("[]" ++ rest)
  | .array items, rest => do
    return "[" ++ lineBreak indent (level + 1)
      ++ (← writeItems indent (level + 1) items (lineBreak indent level ++ ("]" ++ rest)))
  | .object [], rest => .ok ("\x7b\x7d" ++ rest)
  | .object fields, rest => do
    return "\x7b" ++ lineBreak indent (level + 1)
      ++ (← writeFields indent (level + 1) fields (lineBreak indent level ++ ("\x7d" ++ rest)))

def writeItems (indent : Option Nat) (level : Nat) : List Json → Text → Except AmountError Text
  | [], rest => .ok rest
  | [item], rest => write indent level item rest
  | item :: items, rest => do
    write indent level item (separator indent level ++ (← writeItems indent level items rest))

def writeFields (indent : Option Nat) (level : Nat) :
    List (Text × Json) → Text → Except AmountError Text
  | [], rest => .ok rest
  | [(key, value)], rest => do return quoted key ++ (": " ++ (← write indent level value rest))
  | (key, value) :: fields, rest => do
    let after ← writeFields indent level fields rest
    return quoted key ++ (": " ++ (← write indent level value (separator indent level ++ after)))

end

/-- The value on one line. -/
def render (json : Json) : Except AmountError Text := write none 0 json []

/-- The value with two spaces for each level. -/
def renderIndented (json : Json) : Except AmountError Text := write (some 2) 0 json []

mutual

/-- The value as messages show it. -/
def display : Json → Text
  | .null => "None"
  | .bool truth => if truth then "True" else "False"
  | .number (.whole n) => Text.ofInt n
  | .number (.real x) => realText x
  | .string text => text.quoted
  | .array items => "[" ++ Text.join ", " (displayItems items) ++ "]"
  | .object fields => "\x7b" ++ Text.join ", " (displayFields fields) ++ "\x7d"

def displayItems : List Json → List Text
  | [] => []
  | item :: items => item.display :: displayItems items

def displayFields : List (Text × Json) → List Text
  | [] => []
  | (key, value) :: fields => (key.quoted ++ ": " ++ value.display) :: displayFields fields

end

/-- How messages name the kind of a value. -/
def typeName : Json → String
  | .null => "NoneType"
  | .bool _ => "bool"
  | .number (.whole _) => "int"
  | .number (.real _) => "float"
  | .string _ => "str"
  | .array _ => "list"
  | .object _ => "dict"

end ScriptAudit.Json
