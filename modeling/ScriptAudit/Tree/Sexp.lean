/-
Trees as S-expressions: `(Type (field value) …)`, fields in order, without spans and without fields
that are empty. Strings are between double quotes with the usual escapes.
-/
import ScriptAudit.Tree.Fold
import ScriptAudit.Tree.Token

namespace ScriptAudit

inductive Sexp
  | symbol (name : Text)
  | string (content : Text)
  | number (amount : Amount)
  | list (items : List Sexp)

namespace Sexp

def escaped (c : CodePoint) : Text :=
  if c = '\\' then "\\\\"
  else if c = '"' then "\\\""
  else if c = '\x08' then "\\b"
  else if c = '\x0c' then "\\f"
  else if c = '\n' then "\\n"
  else if c = '\r' then "\\r"
  else if c = '\t' then "\\t"
  else [c]

mutual

/-- Writes an expression in front of a text. -/
def write : Sexp → Text → Except AmountError Text
  | symbol name, rest => .ok (name ++ rest)
  | string content, rest =>
    let quote : CodePoint := '"'
    .ok (quote :: (content.flatMap escaped ++ quote :: rest))
  | number amount, rest => do return (← amount.text) ++ rest
  | list items, rest => do return '(' :: (← writeItems items (')' :: rest))

/-- Writes expressions in front of a text, with spaces between them. -/
def writeItems : List Sexp → Text → Except AmountError Text
  | [], rest => .ok rest
  | [item], rest => item.write rest
  | item :: items, rest => do item.write (' ' :: (← writeItems items rest))

end

def text (s : Sexp) : Except AmountError Text := s.write []

def ofFlag (isSet : Bool) : Sexp := .symbol (if isSet then "true" else "false")

/-- A literal `null` is left out. -/
def ofValue? : Value → Option Sexp
  | .null => none
  | .boolean truth => some (ofFlag truth)
  | .number amount => some (.number amount)
  | .text content => some (.string content)

/-- The contents of a field, unless it is empty. -/
def ofSlot? : Slot Value Sexp → Option Sexp
  | .node child => some child
  | .optional child => child
  | .nodes [] => none
  | .nodes children => some (.list children)
  | .text content => some (.string content)
  | .texts [] => none
  | .texts contents => some (.list (contents.map .string))
  | .flag isSet => some (ofFlag isSet)
  | .value content => ofValue? content

def ofForm (form : Form Value Sexp) : Sexp :=
  .list (.symbol form.kind.name :: form.slots.filterMap fun (name, slot) =>
    (ofSlot? slot).map fun contents => .list [.symbol name, contents])

end Sexp

/-- The tree without its spans. -/
def Node.toSexp (n : Tree) : Sexp := n.fold fun form _ => .ofForm form

end ScriptAudit
