/-
Catalogs as JSON documents. A document with the wrong shape is refused; a price that makes no sense is
only warned about, and so is a namespace that no one will look at.
-/
import ScriptAudit.Cost.Catalog
import ScriptAudit.Json.Reader
import ScriptAudit.Json.Writer
import ScriptAudit.Report.AuditError
import ScriptAudit.Report.Noted

namespace ScriptAudit

inductive CatalogWarning
  /-- A value is no price. -/
  | malformed (place : Text) (found : Json)
  /-- A namespace is not in the priority list. -/
  | unconsulted (ns : Text)

def CatalogWarning.message : CatalogWarning → Text
  | malformed place found =>
    let shown : Text := if place.isEmpty then "?" else place
    "malformed cost value for " ++ shown ++ ": " ++ found.display ++ " (priced at 0)"
  | unconsulted ns =>
    "namespace " ++ ns.quoted ++ " is not in the priority list and will never be consulted"

abbrev CatalogReading := Noted CatalogWarning AuditError

namespace PriceList

/-- A price, or a warning. -/
def readPrice (place : Text) (value : Json) : CatalogReading Price :=
  match Price.ofJson? value with
  | some price => pure price
  | none => do
    Noted.note [.malformed place value]
    return .malformed

def refuse {α : Type} (source message : Text) : CatalogReading α :=
  Noted.stop (.badCatalog message (.inFile source) [])

/-- The table of a label. -/
def readTable (label source : Text) : Json → CatalogReading (Table Text Price)
  | .object fields =>
    fields.mapM fun (name, value) => do return (name, ← readPrice (Catalog.qualified label name) value)
  | value => refuse source (label ++ " must be a JSON object, got " ++ Text.ofString value.typeName)

def readNamespaces (source : Text) : Json → CatalogReading (Table Text (Table Text Price))
  | .object fields => fields.mapM fun (ns, table) => do return (ns, ← readTable ns source table)
  | _ => refuse source "namespaces must be a JSON object"

def asText? : Json → Option Text
  | .string text => some text
  | _ => none

def readPriority (source : Text) (value : Json) : CatalogReading (List Text) :=
  let names? := match value with
    | .array items => items.mapM asText?
    | _ => none
  match names? with
  | some names => pure names
  | none => refuse source "priority must be a list of namespace names"

/-- Sets the constant of a name, if there is one. -/
def setConstant? (c : Constants) (name : Text) (amount : Amount) : Option Constants :=
  if name == Text.ofString "base" then some { c with base := amount }
  else if name == Text.ofString "hacknet" then some { c with hacknet := amount }
  else if name == Text.ofString "dom" then some { c with dom := amount }
  else if name == Text.ofString "corporation" then some { c with corporation := amount }
  else none

def constantNames : List Text := ["base", "corporation", "dom", "hacknet"]

def readConstant (source : Text) (c : Constants) (field : Text × Json) : CatalogReading Constants :=
  match setConstant? c field.1 .zero, field.2 with
  | none, _ =>
    Noted.stop (.badCatalog ("unknown cost constant " ++ field.1.quoted) (.inFile source)
      ("known constants: " ++ Text.join ", " constantNames))
  | some _, .number amount => pure ((setConstant? c field.1 amount).getD c)
  | some _, _ => refuse source ("cost constant " ++ field.1.quoted ++ " must be a number")

def readConstants (source : Text) : Json → CatalogReading Constants
  | .null => pure .standard
  | .object fields => fields.foldlM (readConstant source) .standard
  | _ => refuse source "constants must be a JSON object"

/-- The price list that a document describes. -/
def ofJson (source : Text) : Json → CatalogReading PriceList
  | .object fields => do
    let field (name : String) (absent : Json) : Json := (Table.get? fields name).getD absent
    let default ← readTable "default" source (field "default" (.object []))
    let namespaces ← readNamespaces source (field "namespaces" (.object []))
    let priority ← readPriority source (field "priority" (.array (Catalog.defaultPriority.map .string)))
    let unconsulted := namespaces.keys.filter fun ns => !priority.contains ns
    Noted.note (unconsulted.map .unconsulted)
    let constants ← readConstants source (field "constants" .null)
    return ⟨⟨default, namespaces, priority⟩, constants⟩
  | _ => refuse source "catalog must be a JSON object"

end PriceList

end ScriptAudit
