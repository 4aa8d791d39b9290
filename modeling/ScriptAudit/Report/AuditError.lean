/-
Errors: why a script or a catalog was not accepted, and where. Names that no catalog prices and prices
that make no sense are not among them; those are priced at zero.
-/
import ScriptAudit.Json.Basic
import ScriptAudit.Source.Position
import ScriptAudit.Text.Quoted

namespace ScriptAudit

inductive ErrorKind
  | general
  /-- A script is not written in the script language. -/
  | script
  /-- An import names a script that is not there. -/
  | importing
  /-- A catalog cannot be read or has the wrong shape. -/
  | catalog
  deriving DecidableEq

def ErrorKind.id : ErrorKind → String
  | general => "scriptCostError"
  | script => "syntaxError"
  | importing => "importError"
  | catalog => "catalogError"

structure AuditError where
  kind : ErrorKind
  message : Text
  place : Place
  hint : Text

namespace AuditError

/-- A script that is not accepted. What was expected is the hint, unless there is a better one. -/
def unreadable (message : Text) (place : Place) (expected hint : Text) : AuditError where
  kind := .script
  message
  place
  hint := if hint.isEmpty && !expected.isEmpty then "Expected " ++ expected else hint

def unresolved (path importer : Text) (place : Place) (hint : Text) : AuditError :=
  let origin : Text := if importer.isEmpty then [] else " from " ++ importer
  ⟨.importing, "Cannot resolve import " ++ path.quoted ++ origin, place, hint⟩

def badCatalog (message : Text) (place : Place) (hint : Text) : AuditError :=
  ⟨.catalog, message, place, hint⟩

/-- A hint on a line of its own. -/
def hintText (hint : Text) : Text := if hint.isEmpty then [] else "\n  hint: " ++ hint

/-- The error as a line of a compiler's output. -/
def text (e : AuditError) : Text :=
  e.place.text ++ ": error: " ++ e.message ++ " [" ++ Text.ofString e.kind.id ++ "]" ++ hintText e.hint

def record (e : AuditError) : Json :=
  .object [("errorId", .ofString e.kind.id), ("message", .string e.message),
    ("file", .string e.place.file), ("line", .ofInt e.place.line), ("column", .ofInt e.place.column)]

end AuditError

end ScriptAudit
