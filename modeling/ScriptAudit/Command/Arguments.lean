/-
Reading the arguments of a command line. Options and other arguments may be mixed. A long option may be
shortened as long as it is clear which one is meant, and its value may be joined to it by `=`; short
options may be joined to each other and to a value. After `--` nothing is an option.
-/
import ScriptAudit.Command.Manual
import ScriptAudit.Number.Whole
import ScriptAudit.Table

namespace ScriptAudit

/-! ## What was asked for -/

inductive ReportFormat
  | summary
  | json
  deriving DecidableEq

inductive DumpFormat
  | sexp
  | display
  deriving DecidableEq

/-- What is needed to price a script. -/
structure CostRequest where
  script : Text
  catalog : Text
  scriptsDir : Option Text
  bitnode : Option Int
  sourceFiles : List Text

/-- The directory of the scripts, if one is named. -/
def CostRequest.directory? (r : CostRequest) : Option Text := r.scriptsDir.filter (!·.isEmpty)

inductive Command
  | cost (request : CostRequest) (format : ReportFormat)
  | loops (script : Text) (format : ReportFormat)
  | check (request : CostRequest) (format : ReportFormat)
  | parse (script : Text) (format : DumpFormat)

structure Invocation where
  verbosity : Nat
  command : Option Command

/-- Why nothing is run: the user asked about the program, or asked for something that makes no sense. -/
inductive Departure
  | help (topic : Topic)
  | version
  | misuse (topic : Topic) (message : Text)

/-! ## Which arguments are options -/

inductive Shape
  | plain
  /-- The argument `--`. -/
  | dashes
  /-- An option as it is spelled in full, if there is one, and what is joined to it. -/
  | switch (found : Option (Switch × Text)) (joined : Option Text)

def dash : CodePoint := '-'

/-- A minus with digits after it, or with a point that has digits after it. A line end may follow. -/
def isNegativeNumber : Text → Bool
  | [] => false
  | c :: rest =>
    let number := if rest.getLast? == some (CodePoint.ofChar '\n') then rest.dropLast else rest
    let fraction := number.dropWhile CodePoint.isDigit
    c == dash && match fraction with
      | [] => !number.isEmpty
      | point :: digits => point == CodePoint.ofChar '.' && !digits.isEmpty && digits.all CodePoint.isDigit

namespace Topic

/-- All options with their spellings. -/
def spelled (topic : Topic) : List (Text × Switch) :=
  topic.switches.flatMap fun s => s.spellings.map fun spelling => (spelling, s)

def find? (topic : Topic) (spelling : Text) : Option Switch := Table.get? topic.spelled spelling

/-- What an argument that is no exact spelling may stand for. -/
def candidates (topic : Topic) (arg : Text) : List (Switch × Text × Option Text) :=
  if (Text.ofString "--").isPrefixOf arg then
    let (start, joined) := match Text.splitAtFirst? '=' arg with
      | some (before, after) => (before, some after)
      | none => (arg, none)
    (topic.spelled.filter fun (spelling, _) => start.isPrefixOf spelling).map fun (spelling, s) =>
      (s, spelling, joined)
  else
    topic.spelled.filterMap fun (spelling, s) =>
      if spelling == arg.take 2 then some (s, spelling, some (arg.drop 2))
      else if arg.isPrefixOf spelling then some (s, spelling, none)
      else none

def misused {α : Type} (topic : Topic) (message : Text) : Except Departure α :=
  .error (.misuse topic message)

/-- What an argument before any `--` is. -/
def shapeOf (topic : Topic) (arg : Text) : Except Departure Shape :=
  if arg.head? != some dash || arg == [dash] then .ok .plain
  else
    match topic.find? arg with
    | some s => .ok (.switch (some (s, arg)) none)
    | none =>
      let joinedTo? := (Text.splitAtFirst? '=' arg).bind fun (before, after) =>
        (topic.find? before).map fun s => Shape.switch (some (s, before)) (some after)
      match joinedTo? with
      | some shape => .ok shape
      | none =>
        match topic.candidates arg with
        | [] =>
          if isNegativeNumber arg || arg.contains (CodePoint.ofChar ' ') then .ok .plain
          else .ok (.switch none none)
        | [(s, spelling, joined)] => .ok (.switch (some (s, spelling)) joined)
        | several =>
          topic.misused ("ambiguous option: " ++ arg ++ " could match "
            ++ Text.join ", " (several.map (·.2.1)))

/-- What all arguments are. -/
def shapes (topic : Topic) : List Text → Except Departure (List (Text × Shape))
  | [] => .ok []
  | arg :: args =>
    if arg == Text.ofString "--" then .ok ((arg, .dashes) :: args.map (·, .plain))
    else do return (arg, ← topic.shapeOf arg) :: (← shapes topic args)

end Topic

/-! ## Taking the arguments in order -/

/-- What has been taken so far. -/
structure Draft where
  verbosity : Nat := 0
  /-- A command with its arguments. -/
  words : Option (List Text) := none
  script : Option Text := none
  catalog : Option Text := none
  scriptsDir : Option Text := none
  bitnode : Option Int := none
  sourceFiles : List Text := []
  format : Option Text := none
  /-- What belongs nowhere. -/
  extras : List Text := []

def choices (names : List Text) : Text := Text.join ", " (names.map Text.quoted)

namespace Topic

def badArgument {α : Type} (topic : Topic) (title message : Text) : Except Departure α :=
  topic.misused ("argument " ++ title ++ ": " ++ message)

def badChoice {α : Type} (topic : Topic) (title found : Text) (names : List Text) : Except Departure α :=
  topic.badArgument title ("invalid choice: " ++ found.quoted ++ " (choose from " ++ choices names ++ ")")

/-- Takes an option that has no value. -/
def takeBare (topic : Topic) (d : Draft) : Switch → Except Departure Draft
  | .help => .error (.help topic)
  | .version => .error .version
  | .verbose => .ok { d with verbosity := d.verbosity + 1 }
  | _ => .ok d

/-- Takes an option with its value. -/
def takeValue (topic : Topic) (d : Draft) (value : Text) : Switch → Except Departure Draft
  | .catalog => .ok { d with catalog := some value }
  | .scriptsDir => .ok { d with scriptsDir := some value }
  | .bitnode =>
    match value.readWhole with
    | .ok n => .ok { d with bitnode := some n }
    | .error _ => topic.badArgument Switch.bitnode.title ("invalid int value: " ++ value.quoted)
  | .sourceFile => .ok { d with sourceFiles := d.sourceFiles ++ [value] }
  | .format =>
    if topic.formats.contains value then .ok { d with format := some value }
    else topic.badChoice Switch.format.title value topic.formats
  | _ => .ok d

/-- Takes apart short options that are joined: those without a value, the last one, and what is joined to
that. -/
def unjoin (topic : Topic) (short : Bool) (s : Switch) :
    Text → Except Departure (List Switch × Switch × Option Text)
  | [] =>
    if s.takesValue then .ok ([], s, some [])
    else topic.badArgument s.title ("ignored explicit argument " ++ Text.quoted [])
  | c :: rest =>
    if s.takesValue then .ok ([], s, some (c :: rest))
    else
      match if short then topic.find? [dash, c] else none with
      | none => topic.badArgument s.title ("ignored explicit argument " ++ Text.quoted (c :: rest))
      | some next =>
        if rest.isEmpty then .ok ([s], next, none)
        else do
          let (before, last, value) ← unjoin topic short next rest
          return (s :: before, last, value)

def isShort (spelling : Text) : Bool := spelling.length = 2

/-- Takes an option, and the next argument with it if that is its value. Tells whether it is. -/
def takeSwitch (topic : Topic) (d : Draft) (s : Switch) (spelling : Text) (joined : Option Text)
    (rest : List (Text × Shape)) : Except Departure (Draft × Bool) := do
  let (before, last, value) ← match joined with
    | none => .ok ([], s, none)
    | some joined => topic.unjoin (isShort spelling) s joined
  match value, last.takesValue, rest with
  | some value, _, _ => return (← topic.takeValue (← before.foldlM topic.takeBare d) value last, false)
  | none, false, _ => return (← (before ++ [last]).foldlM topic.takeBare d, false)
  | none, true, (value, .plain) :: _ =>
    return (← topic.takeValue (← before.foldlM topic.takeBare d) value last, true)
  | none, true, _ => topic.badArgument last.title "expected one argument"

def extra (d : Draft) (arg : Text) : Draft := { d with extras := d.extras ++ [arg] }

/-- The arguments without the first one, if that is gone. -/
def dropIf (gone : Bool) (args : List (Text × Shape)) : List (Text × Shape) :=
  if gone then args.tail else args

theorem length_dropIf_le (gone : Bool) (args : List (Text × Shape)) :
    (dropIf gone args).length ≤ args.length := by
  cases gone <;> simp [dropIf]

def startsWithDashes : List (Text × Shape) → Bool
  | (_, .dashes) :: _ => true
  | _ => false

/-- Takes all arguments. The program as a whole takes a command, with everything after it; a command
takes one script. A `--` before or after what is taken goes with it. -/
def take (topic : Topic) (d : Draft) : List (Text × Shape) → Except Departure Draft
  | [] => .ok d
  | (arg, .switch none _) :: rest => take topic (extra d arg) rest
  | (_, .switch (some (s, spelling)) joined) :: rest => do
    let (d, used) ← topic.takeSwitch d s spelling joined rest
    take topic d (dropIf used rest)
  | (arg, .plain) :: rest =>
    match topic, d.script with
    | none, _ => .ok { d with words := some (arg :: rest.map (·.1)) }
    | some _, some _ => take topic (extra d arg) rest
    | some _, none => take topic { d with script := some arg } (dropIf (startsWithDashes rest) rest)
  | [(arg, .dashes)] => .ok (extra d arg)
  | (arg, .dashes) :: (next, shape) :: rest =>
    match topic, d.script with
    | none, _ => .ok { d with words := some (arg :: next :: rest.map (·.1)) }
    | some _, some _ => take topic (extra d arg) ((next, shape) :: rest)
    | some _, none => take topic { d with script := some next } rest
termination_by args => args.length
decreasing_by
  · exact Nat.lt_succ_self _
  · exact Nat.lt_succ_of_le (length_dropIf_le ..)
  · exact Nat.lt_succ_self _
  · exact Nat.lt_succ_of_le (length_dropIf_le ..)
  · exact Nat.lt_succ_self _
  · exact Nat.lt_succ_of_le (Nat.le_succ _)

end Topic

/-! ## The whole command line -/

def reportFormat (d : Draft) : ReportFormat :=
  if d.format == some (Text.ofString "json") then .json else .summary

def dumpFormat (d : Draft) : DumpFormat :=
  if d.format == some (Text.ofString "repr") then .display else .sexp

namespace Verb

/-- The arguments that a command needs and that are not there. -/
def missing (verb : Verb) (d : Draft) : List Text :=
  let script : List Text := if d.script.isNone then ["SCRIPT"] else []
  let needsCatalog := (Topic.switches (some verb)).contains .catalog
  let catalog : List Text := if needsCatalog && d.catalog.isNone then ["--catalog"] else []
  script ++ catalog

/-- The command with its arguments, if they are all there. -/
def command (verb : Verb) (d : Draft) : Except Departure Command :=
  match verb.missing d with
  | [] =>
    let script := d.script.getD []
    let request := ⟨script, d.catalog.getD [], d.scriptsDir, d.bitnode, d.sourceFiles⟩
    .ok <| match verb with
      | .cost => .cost request (reportFormat d)
      | .loops => .loops script (reportFormat d)
      | .check => .check request (reportFormat d)
      | .parse => .parse script (dumpFormat d)
  | names =>
    Topic.misused (some verb) ("the following arguments are required: " ++ Text.join ", " names)

end Verb

/-- What the words after the program's own options ask for, and those of them that belong nowhere. -/
def readCommand : List Text → Except Departure (Command × List Text)
  | [] => Topic.badChoice none "<command>" [] (Verb.all.map Verb.name)
  | word :: args =>
    match Verb.ofName? word with
    | none => Topic.badChoice none "<command>" word (Verb.all.map Verb.name)
    | some verb => do
      let d ← Topic.take (some verb) {} (← Topic.shapes (some verb) args)
      return (← verb.command d, d.extras)

/-- Reads a command line. -/
def readArguments (args : List Text) : Except Departure Invocation := do
  let d ← Topic.take none {} (← Topic.shapes none args)
  let (command, extras) ← match d.words with
    | none => .ok (none, [])
    | some words => do
      let (command, extras) ← readCommand words
      .ok (some command, extras)
  match d.extras ++ extras with
  | [] => return ⟨d.verbosity, command⟩
  | unknown => Topic.misused none ("unrecognized arguments: " ++ Text.join " " unknown)

end ScriptAudit
