/-
Running commands. A command prints as it goes on, and what it has printed stays printed when it comes to a
halt later.
-/
import ScriptAudit.Command.Task
import ScriptAudit.Number.Fixed
import ScriptAudit.Tree.Display
import ScriptAudit.Tree.Sexp

namespace ScriptAudit

/-- What a command does that can be seen. -/
inductive Act
  | tell (notice : Notice)
  | print (text : Text)

namespace Act

def notice? : Act → Option Notice
  | tell notice => some notice
  | print _ => none

def printed : Act → Text
  | tell _ => []
  | print text => text

end Act

/-- A command at work. -/
abbrev Session := Noted Act Halt

namespace Session

variable {α : Type}

/-- Does a task, which prints nothing. -/
def perform (task : Task α) : Session α := task.convert .tell id

def print (text : Text) : Session Unit := Noted.note [.print text]

def notices (m : Session α) : List Notice := m.notes.filterMap Act.notice?

def output (m : Session α) : Text := m.notes.flatMap Act.printed

end Session

/-- The code of a command that did its work and found nothing wrong. -/
def exitFine : Nat := 0

/-- The code of a command that found errors. -/
def exitFaulty : Nat := 1

/-- The code of a command that could not do its work. -/
def exitHalted : Nat := 2

namespace Command

/-! ## Results as text -/

/-- A text with a line end. -/
def line (t : Text) : Text := t ++ "\n"

/-- Amounts have two places. -/
def amountText (amount : Amount) : Except AmountError Text := do return fixedText 2 (← amount.toFloat)

def entryText (width : Nat) (e : UsageEntry) : Except AmountError Text := do
  return line ("  " ++ Text.padRight 4 e.kind.name ++ " " ++ Text.padRight width e.name ++ "  "
    ++ (← amountText e.cost))

/-- The total on a line, and a line for each entry, with the costs in a column. -/
def costText (script : Text) (b : Breakdown) : Except AmountError Text := do
  let width := (b.entries.map (·.name.length)).foldl max 0
  let total ← amountText b.total
  let lines ← b.entries.mapM (entryText width)
  return line (script ++ ": " ++ total ++ " GB") ++ lines.flatten

/-- How many diagnostics there are. -/
def tallyText (diagnostics : List Diagnostic) : Text :=
  let errors := diagnostics.filter fun d => d.severity = .error
  "--- " ++ Text.ofNat diagnostics.length ++ " diagnostic(s), " ++ Text.ofNat errors.length ++ " error(s) ---"

/-- The record of a priced script. -/
def costFields (script : Text) (b : Breakdown) : List (Text × Json) :=
  ("script", Json.string script) :: b.fields

/-- The record of a script that was priced and searched for loops. -/
def checkFields (script : Text) (b : Breakdown) (diagnostics : List Diagnostic) : List (Text × Json) :=
  costFields script b ++ [(Text.ofString "diagnostics", .array (diagnostics.map Diagnostic.record))]

def recordText (fields : List (Text × Json)) : Except AmountError Text := do
  return line (← (Json.object fields).renderIndented)

def written {α : Type} (result : Except AmountError α) : Task α :=
  Noted.ofExcept (result.mapError fun e => .unforeseen e.message)

/-! ## The commands -/

open Session

/-- Prints diagnostics, each on a line, and with the summary how many there are. -/
def emit (format : ReportFormat) (diagnostics : List Diagnostic) : Session Unit := do
  diagnostics.forM fun d => do
    let text ← perform <| match format with
      | .summary => pure d.text
      | .json => written d.record.render
    print (line text)
  match format with
  | .summary => print (line (tallyText diagnostics))
  | .json => pure ()

/-- All right unless one of the diagnostics is an error. -/
def verdict (diagnostics : List Diagnostic) : Nat :=
  if diagnostics.any (·.severity = .error) then exitFaulty else exitFine

def costSession (s : Surroundings) (r : CostRequest) (format : ReportFormat) : Session Nat := do
  let (script, breakdown) ← perform (Task.computeCost s r)
  match format with
  | .summary => print (← perform (written (costText script breakdown)))
  | .json => print (← perform (written (recordText (costFields script breakdown))))
  return exitFine

def loopsSession (s : Surroundings) (script : Text) (format : ReportFormat) : Session Nat := do
  let diagnostics ← perform (Task.loopDiagnostics s (← perform (Task.locate s "script" script)))
  emit format diagnostics
  return verdict diagnostics

def checkSession (s : Surroundings) (r : CostRequest) (format : ReportFormat) : Session Nat := do
  let diagnostics ← perform (Task.loopDiagnostics s (← perform (Task.locate s "script" r.script)))
  let (script, breakdown) ← perform (Task.computeCost s r)
  match format with
  | .summary =>
    print (← perform (written (costText script breakdown)))
    emit .summary diagnostics
  | .json => print (← perform (written (recordText (checkFields script breakdown diagnostics))))
  return verdict diagnostics

def parseSession (s : Surroundings) (script : Text) (format : DumpFormat) : Session Nat := do
  let program ← perform (Task.readProgram s (← perform (Task.locate s "script" script)))
  match format with
  | .sexp => print (line (← perform (written program.root.toSexp.text)))
  | .display => print (line (← perform (written program.root.display)))
  return exitFine

def session (s : Surroundings) : Command → Session Nat
  | .cost r format => costSession s r format
  | .loops script format => loopsSession s script format
  | .check r format => checkSession s r format
  | .parse script format => parseSession s script format

end Command

/-! ## The whole program -/

/-- What a run of the program leaves behind. -/
structure Report where
  exit : Nat
  output : Text
  notices : List Notice
  /-- What stands after the notices. -/
  complaint : Text
  /-- Whether the program ended while it read its arguments. -/
  departed : Bool

namespace Report

/-- The notices of at least a level. -/
def shown (level : Level) (notices : List Notice) : List Notice :=
  notices.filter fun n => level.rank ≤ n.level.rank

def ofSession (level : Level) (session : Session Nat) : Report :=
  match session.result with
  | .ok exit => ⟨exit, session.output, shown level session.notices, [], false⟩
  | .error halt =>
    ⟨exitHalted, session.output, shown level (session.notices ++ halt.notices), halt.report, false⟩

def ofDeparture : Departure → Report
  | .help topic => ⟨0, topic.help, [], [], true⟩
  | .version => ⟨0, programName ++ " " ++ versionText ++ "\n", [], [], true⟩
  | .misuse topic message =>
    ⟨exitHalted, [], [], topic.usage ++ topic.name ++ ": error: " ++ message ++ "\n", true⟩

/-- Everything that goes to the error channel, with the time before each notice. -/
def errors (time : Text) (r : Report) : Text := r.notices.flatMap (Notice.line time) ++ r.complaint

end Report

/-- Runs the program. Without a command it shows its manual. -/
def runProgram (s : Surroundings) (args : List Text) : Report :=
  match readArguments args with
  | .error departure => .ofDeparture departure
  | .ok ⟨_, none⟩ => ⟨exitHalted, [], [], Topic.help none, false⟩
  | .ok ⟨verbosity, some command⟩ => .ofSession (.ofVerbosity verbosity) (command.session s)

end ScriptAudit
