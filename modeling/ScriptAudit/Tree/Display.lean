/-
Trees as records: `Type(field=value, …, start=0, end=3)`, with every field and the span. Several values
stand between round brackets, and a single one has a comma after it.
-/
import ScriptAudit.Text.Quoted
import ScriptAudit.Tree.Fold
import ScriptAudit.Tree.Token

namespace ScriptAudit

/-- Something that writes itself in front of a text, if it can be written. -/
abbrev Writer := Except AmountError (Text → Text)

namespace Writer

def ofText (t : Text) : Writer := .ok (t ++ ·)

def append (a b : Writer) : Writer := do
  let first ← a
  let second ← b
  return fun rest => first (second rest)

def concat (writers : List Writer) : Writer := writers.foldr append (.ok id)

/-- With a comma and a space between them. -/
def commaSeparated : List Writer → Writer
  | [] => .ok id
  | [writer] => writer
  | writer :: writers => concat [writer, ofText ", ", commaSeparated writers]

/-- Values between round brackets. -/
def tuple : List Writer → Writer
  | [] => ofText "()"
  | [writer] => concat [ofText "(", writer, ofText ",)"]
  | writers => concat [ofText "(", commaSeparated writers, ofText ")"]

def absent : Writer := ofText "None"

def ofFlag (isSet : Bool) : Writer := ofText (if isSet then "True" else "False")

def ofValue : Value → Writer
  | .null => absent
  | .boolean truth => ofFlag truth
  | .number amount => do ofText (← amount.text)
  | .text content => ofText content.quoted

def ofSlot : Slot Value Writer → Writer
  | .node child => child
  | .optional child => child.getD absent
  | .nodes children => tuple children
  | .text content => ofText content.quoted
  | .texts contents => tuple (contents.map fun content => ofText content.quoted)
  | .flag isSet => ofFlag isSet
  | .value content => ofValue content

def ofField (name : String) (value : Writer) : Writer := append (ofText (name ++ "=")) value

def ofForm (form : Form Value Writer) (span : Span) : Writer :=
  let fields := form.slots.map fun (name, slot) => ofField name (ofSlot slot)
  let bounds := [ofField "start" (ofText (Text.ofNat span.start)), ofField "end" (ofText (Text.ofNat span.stop))]
  concat [ofText (form.kind.name ++ "("), commaSeparated (fields ++ bounds), ofText ")"]

end Writer

/-- The tree with its spans. -/
def Node.display (n : Tree) : Except AmountError Text := do
  let write ← n.fold Writer.ofForm
  return write []

end ScriptAudit
