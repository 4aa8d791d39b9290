/-
Diagnostics: what is reported about a script. A diagnostic is written as a line of a compiler's output
or as a flat JSON object.
-/
import ScriptAudit.Json.Writer
import ScriptAudit.Report.AuditError
import ScriptAudit.Script.Loops

namespace ScriptAudit

inductive Severity
  | error
  | warning
  | information
  deriving DecidableEq

namespace Severity

def name : Severity → String
  | error => "error"
  | warning => "warning"
  | information => "information"

def all : List Severity := [error, warning, information]

def ofName? (name : Text) : Option Severity := all.find? fun s => Text.ofString s.name == name

end Severity

/-- A point in a script. -/
structure Location where
  file : Text
  line : Int
  column : Int

/-- The column is left out if it is zero. -/
def Location.text (l : Location) : Text :=
  let column : Text := if l.column = 0 then [] else ":" ++ Text.ofInt l.column
  l.file ++ ":" ++ Text.ofInt l.line ++ column

structure Diagnostic where
  id : Text
  message : Text
  severity : Severity
  location : Location
  /-- What to do about it; may be empty. -/
  extra : Text := []
  /-- Details for other tools; may be empty. -/
  evidence : List (Text × Json) := []

namespace Diagnostic

/-- Extra and evidence are left out if they are empty. -/
def record (d : Diagnostic) : Json :=
  let finding : List (Text × Json) :=
    [("file", .string d.location.file), ("linenr", .ofInt d.location.line),
      ("column", .ofInt d.location.column), ("severity", .ofString d.severity.name),
      ("message", .string d.message), ("errorId", .string d.id)]
  let extra : List (Text × Json) := if d.extra.isEmpty then [] else [("extra", .string d.extra)]
  let evidence : List (Text × Json) :=
    if d.evidence.isEmpty then [] else [("evidence", .object d.evidence)]
  .object (finding ++ extra ++ evidence)

/-- The diagnostic as a line of a compiler's output. -/
def text (d : Diagnostic) : Text :=
  d.location.text ++ ": " ++ Text.ofString d.severity.name ++ ": " ++ d.message ++ " [" ++ d.id ++ "]"
    ++ AuditError.hintText d.extra

def ofLoop (finding : LoopFinding) : Diagnostic where
  id := "infiniteLoop"
  message := "while(true) loop never awaits and will freeze the game"
  severity := .error
  location := ⟨finding.filename, finding.line, finding.column⟩
  extra := "add an await (e.g. await ns.sleep(...)) inside the loop"

def ofError (e : AuditError) : Diagnostic where
  id := e.kind.id
  message := e.message
  severity := .error
  location := ⟨e.place.file, e.place.line, e.place.column⟩
  extra := e.hint

end Diagnostic

end ScriptAudit
