/-
The steps that commands are made of. A task takes notices as it goes on and ends with a result or comes
to a halt. What it reads is in its surroundings, so that a task is a function of these and nothing else.
-/
import ScriptAudit.Command.Arguments
import ScriptAudit.Command.Notice
import ScriptAudit.Cost.Breakdown
import ScriptAudit.Cost.Load
import ScriptAudit.Report.Diagnostic

namespace ScriptAudit

/-- What a command finds when it is started. -/
structure Surroundings where
  disk : FileTree
  /-- The current directory. -/
  here : Route
  /-- The home directories of users; that of the empty name is the current user's. -/
  home : Text → Option Text

/-- Why a command does not come to its end. -/
inductive Halt
  | missing (what : Text) (route : Route)
  /-- The script is not in the directory of the scripts. -/
  | outside (script directory : Route)
  | badFlag (error : FlagError)
  | audit (error : AuditError)
  /-- Anything that is not foreseen. -/
  | unforeseen (message : Text)

/-- The parts of the program that tell notices. -/
def notice (part : String) (level : Level) (message : Text) : Notice :=
  let topic : Text := if part.isEmpty then programName else programName ++ "." ++ Text.ofString part
  ⟨level, topic, message⟩

namespace Halt

/-- What is noted about a halt. An audit error is reported in another way. -/
def notices : Halt → List Notice
  | missing what route => [notice "" .error (what ++ " not found: " ++ Route.text route)]
  | outside script directory =>
    [notice "" .error (Route.text script ++ " is not inside the scripts directory " ++ Route.text directory)]
  | badFlag error => [notice "" .error ("bad --source-file value: " ++ error.message)]
  | audit _ => []
  | unforeseen message => [notice "" .error ("Unhandled exception: " ++ message)]

/-- What is reported about a halt. -/
def report : Halt → Text
  | audit error => (Diagnostic.ofError error).text ++ "\n"
  | _ => []

end Halt

abbrev Task := Noted Notice Halt

namespace Task

def say (part : String) (level : Level) (message : Text) : Task Unit :=
  Noted.note [notice part level message]

/-- Says something about an amount, if it can be written. -/
def sayAmount (part : String) (level : Level) (amount : Amount) (message : Text → Text) : Task Unit :=
  match amount.text with
  | .ok text => say part level (message text)
  | .error _ => pure ()

def count (n : Nat) : Text := Text.ofNat n

/-! ## Files -/

/-- A path with the home directory in place of a `~`. -/
def expandHome (s : Surroundings) (p : Path) : Task Path :=
  match p.slashes, p.parts with
  | 0, (c :: user) :: rest =>
    if c = '~' then
      match s.home user with
      | some home => return ⟨(Path.ofText home).slashes, (Path.ofText home).parts ++ rest⟩
      | none => Noted.stop (.unforeseen "Could not determine home directory.")
    else return p
  | _, _ => return p

/-- Finds what a path in an argument names. -/
def locate (s : Surroundings) (what : Text) (path : Text) : Task Route := do
  let route := Path.resolve s.here (← expandHome s (Path.ofText path))
  if s.disk.exists? route then return route else Noted.stop (.missing what route)

def decode (bytes : List UInt8) : Task Text :=
  Noted.ofExcept ((Text.ofFile bytes).mapError fun e => .unforeseen e.message)

def readFile (s : Surroundings) (route : Route) : Task Text := do
  decode (← Noted.ofExcept ((s.disk.read route).mapError fun e => .unforeseen (e.text (Route.text route))))

/-- The ends of the names of scripts. -/
def scriptSuffixes : List Text := [".js", ".script"]

def isScript (route : Route) : Bool :=
  match route.getLast? with
  | some name => scriptSuffixes.contains (nameSuffix name)
  | none => false

/-- The files in a directory, in the order of their paths. -/
def filesUnder (s : Surroundings) (directory : Route) : List (Route × List UInt8) :=
  match s.disk.at? directory with
  | .ok tree => tree.files.mergeSort fun a b => Route.le a.1 b.1
  | .error _ => []

/-- Reads all scripts in a directory. -/
def loadScripts (s : Surroundings) (directory : Route) : Task Scripts := do
  let scripts ← ((filesUnder s directory).filter fun (route, _) => isScript route).mapM
    fun (route, bytes) => do return (relativeName route, ← decode bytes)
  say "" .debug ("loaded " ++ count scripts.length ++ " script(s) from " ++ Route.text directory)
  return scripts

/-! ## Scripts -/

def parsed (p : Program) : Notice :=
  notice "parser" .debug
    ("parsed " ++ p.filename ++ ": " ++ count p.body.length ++ " top-level statement(s)")

/-- Reads one script. -/
def readProgram (s : Surroundings) (route : Route) : Task Program := do
  let program ← Noted.ofExcept ((Program.read (← readFile s route) (Route.text route)).mapError .audit)
  Noted.note [parsed program]
  return program

/-- Looks for an unsafe loop in a script. -/
def loopDiagnostics (s : Surroundings) (route : Route) : Task (List Diagnostic) := do
  match (← readProgram s route).loopFinding? with
  | none => return []
  | some finding =>
    say "loops" .info
      (finding.filename ++ ":" ++ count finding.line ++ ": while(true) loop without await")
    return [.ofLoop finding]

/-- The names a script and its imports use. -/
def collectNames (scripts : Scripts) (filename : Text) : Task (List Text) := do
  let survey := scripts.survey filename
  Noted.note (survey.visits.flatMap fun visit => parsed visit.program :: visit.targets.map fun target =>
    notice "symbols" .debug (visit.program.filename ++ " imports " ++ target))
  match survey.failure with
  | some error => Noted.stop (.audit error)
  | none => return survey.names

/-! ## Costs -/

def loadHalt : LoadError → Halt
  | .audit error => .audit error
  | error => .unforeseen error.message

/-- Reads a catalog. -/
def loadPrices (s : Surroundings) (route : Route) : Task PriceList := do
  let list ← (PriceList.load s.disk [] ⟨1, route⟩).convert
    (fun warning => notice "catalog" .warning warning.message) loadHalt
  say "catalog" .debug ("catalog " ++ Route.text route ++ ": " ++ count list.catalog.default.length
    ++ " default name(s), " ++ count list.catalog.namespaces.length ++ " namespace(s)")
  return list

/-- Prices names. -/
def aggregate (list : PriceList) (player : Player) (names : List Text) : Task Breakdown := do
  Noted.note ((names.filter fun name => !list.knows name).map fun name =>
    notice "aggregator" .debug ("unresolved name " ++ name.quoted ++ " priced at 0"))
  let breakdown ← Noted.ofExcept
    ((list.aggregate (some player) names).mapError fun e => .unforeseen e.message)
  sayAmount "aggregator" .debug breakdown.total fun total =>
    "aggregated " ++ count names.length ++ " name(s) into " ++ count breakdown.entries.length
      ++ " entr(ies), total " ++ total
  return breakdown

/-- The directory of the scripts: the one that is named, or else that of the script. -/
def scriptsDirectory (s : Surroundings) (r : CostRequest) (script : Route) : Task Route :=
  match r.directory? with
  | none => pure (Route.parent script)
  | some path => locate s "scripts directory" path

/-- Prices a script. The result has the script's name in the directory of the scripts. -/
def computeCost (s : Surroundings) (r : CostRequest) : Task (Text × Breakdown) := do
  let script ← locate s "script" r.script
  let directory ← scriptsDirectory s r script
  let catalog ← locate s "catalog" r.catalog
  let list ← loadPrices s catalog
  let player ← Noted.ofExcept ((Player.ofFlags r.bitnode r.sourceFiles).mapError .badFlag)
  let scripts ← loadScripts s directory
  let some parts := Route.within? directory script | Noted.stop (.outside script directory)
  let name := relativeName parts
  let source ← readFile s script
  let scripts := if (Table.get? scripts name).isSome then scripts else scripts ++ [(name, source)]
  let breakdown ← aggregate list player (← collectNames scripts name)
  sayAmount "" .info breakdown.total fun total =>
    name ++ ": " ++ total ++ " GB over " ++ count breakdown.entries.length ++ " entr(ies)"
  return (name, breakdown)

end Task

end ScriptAudit
