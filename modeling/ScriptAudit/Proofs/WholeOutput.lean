/-
Commands print all of their result or nothing. A command prints piece by piece, but nothing that can fail comes
after the first piece: texts with amounts are complete before they are printed, and of diagnostics there is never
more than one. So a command does the same as a task that ends with everything that is printed
(`Command.delivers`), and that is how runs of the program are looked at elsewhere (`runProgram_eq`).
-/
import Mathlib
import ScriptAudit.Command.Run
import ScriptAudit.Proofs.Outcomes

namespace ScriptAudit

/-! ## Commands that print once -/

/-- What a command prints, and the code that it ends with. -/
structure Output where
  text : Text
  exit : Nat

namespace Output

/-- Everything is all right. -/
def fine (text : Text) : Output := ⟨text, exitFine⟩

def judged (text : Text) (diagnostics : List Diagnostic) : Output := ⟨text, Command.verdict diagnostics⟩

end Output

namespace Command

def diagnosticsText (diagnostics : List Diagnostic) : Text :=
  (diagnostics.flatMap fun d => line d.text) ++ line (tallyText diagnostics)

/-- One line for each diagnostic. -/
def diagnosticsRecords (diagnostics : List Diagnostic) : Except AmountError Text := do
  let records ← diagnostics.mapM fun d => d.record.render
  return records.flatMap line

def runCost (s : Surroundings) (r : CostRequest) (format : ReportFormat) : Task Output := do
  let (script, breakdown) ← Task.computeCost s r
  let text ← written <| match format with
    | .summary => costText script breakdown
    | .json => recordText (costFields script breakdown)
  return .fine text

def runLoops (s : Surroundings) (script : Text) (format : ReportFormat) : Task Output := do
  let diagnostics ← Task.loopDiagnostics s (← Task.locate s "script" script)
  let text ← written <| match format with
    | .summary => .ok (diagnosticsText diagnostics)
    | .json => diagnosticsRecords diagnostics
  return .judged text diagnostics

def runCheck (s : Surroundings) (r : CostRequest) (format : ReportFormat) : Task Output := do
  let diagnostics ← Task.loopDiagnostics s (← Task.locate s "script" r.script)
  let (script, breakdown) ← Task.computeCost s r
  let text ← written <| match format with
    | .summary => do return (← costText script breakdown) ++ diagnosticsText diagnostics
    | .json => recordText (checkFields script breakdown diagnostics)
  return .judged text diagnostics

def runParse (s : Surroundings) (script : Text) (format : DumpFormat) : Task Output := do
  let program ← Task.readProgram s (← Task.locate s "script" script)
  let text ← written <| match format with
    | .sexp => program.root.toSexp.text
    | .display => program.root.display
  return .fine (line text)

def run (s : Surroundings) : Command → Task Output
  | .cost r format => runCost s r format
  | .loops script format => runLoops s script format
  | .check r format => runCheck s r format
  | .parse script format => runParse s script format

end Command

def Report.ofTask (level : Level) (task : Task Output) : Report :=
  match task.result with
  | .ok output => ⟨output.exit, output.text, shown level task.notes, [], false⟩
  | .error halt => ⟨exitHalted, [], shown level (task.notes ++ halt.notices), halt.report, false⟩

/-! ## Printing in the end -/

namespace Noted

variable {ν ε α β γ : Type} {m : Noted ν ε α}

theorem notes_bind_of_ok {a : α} (h : m.result = .ok a) (f : α → Noted ν ε β) :
    (m >>= f).notes = m.notes ++ (f a).notes := by
  show (m.andThen f).notes = _
  rw [andThen, h]

theorem notes_bind_of_error {error : ε} (h : m.result = .error error) (f : α → Noted ν ε β) :
    (m >>= f).notes = m.notes := by
  show (m.andThen f).notes = _
  rw [andThen, h]

theorem bind_assoc (m : Noted ν ε α) (f : α → Noted ν ε β) (g : β → Noted ν ε γ) :
    m >>= f >>= g = m >>= fun a => f a >>= g := by
  obtain ⟨notes, result⟩ := m
  cases result with
  | error error => rfl
  | ok a =>
    show andThen ⟨notes ++ (f a).notes, (f a).result⟩ g = ⟨notes ++ (andThen (f a) g).notes, (andThen (f a) g).result⟩
    obtain ⟨notes', result'⟩ := f a
    cases result' with
    | error error => rfl
    | ok b => simp only [andThen, List.append_assoc]

end Noted

namespace Session

variable {α β : Type}

@[simp]
theorem result_perform (task : Task α) : (perform task).result = task.result := by
  obtain ⟨notes, result⟩ := task
  cases result <;> rfl

@[simp]
theorem notices_perform (task : Task α) : (perform task).notices = task.notes := by
  show (task.notes.map Act.tell).filterMap Act.notice? = task.notes
  rw [List.filterMap_map]
  exact List.filterMap_some

@[simp]
theorem output_perform (task : Task α) : (perform task).output = [] := by
  show (task.notes.map Act.tell).flatMap Act.printed = []
  simp [List.flatMap_map, Act.printed]

theorem notices_bind {m : Session α} {a : α} (h : m.result = .ok a) (f : α → Session β) :
    (m >>= f).notices = m.notices ++ (f a).notices := by
  rw [notices, Noted.notes_bind_of_ok h]
  exact List.filterMap_append

theorem output_bind {m : Session α} {a : α} (h : m.result = .ok a) (f : α → Session β) :
    (m >>= f).output = m.output ++ (f a).output := by
  rw [output, Noted.notes_bind_of_ok h]
  exact List.flatMap_append

/-- The session does what the task does, and prints what comes out of it in the end. -/
structure Delivers (m : Session Nat) (task : Task Output) : Prop where
  notices : m.notices = task.notes
  result : m.result = task.result.map Output.exit
  output : m.output = (task.result.toOption.map Output.text).getD []
  /-- Only a halt has the code of a halt. -/
  exit : ∀ out, task.result = .ok out → out.exit ≠ exitHalted

/-- Tasks may come first. -/
theorem Delivers.perform_bind {task : Task α} {f : α → Session Nat} {g : α → Task Output}
    (h : ∀ a, task.result = .ok a → Delivers (f a) (g a)) : Delivers (perform task >>= f) (task >>= g) := by
  cases htask : task.result with
  | error halt =>
    have hperform : (perform task).result = .error halt := (result_perform task).trans htask
    have hresult : (task >>= g).result = .error halt := by rw [Noted.result_bind, htask]; rfl
    constructor
    case notices =>
      rw [Session.notices, Noted.notes_bind_of_error hperform, Noted.notes_bind_of_error htask]
      exact notices_perform task
    case result => rw [Noted.result_bind, hperform, hresult]; rfl
    case output =>
      rw [Session.output, Noted.notes_bind_of_error hperform, hresult]
      exact output_perform task
    case exit =>
      intro out hout
      cases hresult.symm.trans hout
  | ok a =>
    have hperform : (perform task).result = .ok a := (result_perform task).trans htask
    have hresult : (task >>= g).result = (g a).result := by rw [Noted.result_bind, htask]; rfl
    have hnext := h a htask
    constructor
    case notices =>
      rw [notices_bind hperform, Noted.notes_bind_of_ok htask, notices_perform, hnext.notices]
    case result => rw [Noted.result_bind, hperform, hresult]; exact hnext.result
    case output => rw [output_bind hperform, output_perform, hresult]; exact hnext.output
    case exit =>
      rw [hresult]
      exact hnext.exit

/-- The session prints a text, and nothing goes wrong. -/
structure Prints (m : Session Unit) (text : Text) : Prop where
  notices : m.notices = []
  result : m.result = .ok ()
  output : m.output = text

theorem prints_print (text : Text) : Prints (print text) text := ⟨rfl, rfl, List.append_nil text⟩

theorem Prints.bind {m m' : Session Unit} {text text' : Text} (h : Prints m text) (h' : Prints m' text') :
    Prints (m >>= fun _ => m') (text ++ text') := by
  constructor
  case notices => rw [notices_bind h.result, h.notices, h'.notices, List.nil_append]
  case result => rw [Noted.result_bind, h.result]; exact h'.result
  case output => rw [output_bind h.result, h.output, h'.output]

theorem Prints.delivers {m : Session Unit} {text : Text} (h : Prints m text) {exit : Nat} (hexit : exit ≠ exitHalted) :
    Delivers (m >>= fun _ => pure exit) (pure ⟨text, exit⟩) := by
  constructor
  case notices => rw [notices_bind h.result, h.notices]; rfl
  case result => rw [Noted.result_bind, h.result]; rfl
  case output =>
    rw [output_bind h.result, h.output]
    exact List.append_nil text
  case exit =>
    intro out hout
    cases hout
    exact hexit

end Session

namespace Task

variable {s : Surroundings}

theorem result_loopDiagnostics (route : Route) : (loopDiagnostics s route).result =
    (readProgram s route).result.map fun p => p.loopFinding?.toList.map Diagnostic.ofLoop := by
  rw [loopDiagnostics, Noted.result_bind]
  cases (readProgram s route).result with
  | error halt => rfl
  | ok p =>
    show _ = Except.ok (p.loopFinding?.toList.map Diagnostic.ofLoop)
    rw [Except.bind_eq_ok]
    refine ⟨p, rfl, ?_⟩
    cases p.loopFinding? <;> rfl

/-- At most one loop is reported. -/
theorem loopDiagnostics_cases {route : Route} {diagnostics : List Diagnostic}
    (h : (loopDiagnostics s route).result = .ok diagnostics) : diagnostics = [] ∨ ∃ d, diagnostics = [d] := by
  rw [result_loopDiagnostics, Except.map_eq_ok] at h
  obtain ⟨p, -, rfl⟩ := h
  cases p.loopFinding? with
  | none => exact .inl rfl
  | some finding => exact .inr ⟨_, rfl⟩

end Task

namespace Command

open Session

variable {s : Surroundings} {diagnostics : List Diagnostic}

theorem verdict_ne (diagnostics : List Diagnostic) : verdict diagnostics ≠ exitHalted := by
  rw [verdict]
  split <;> decide

theorem prints_emit (diagnostics : List Diagnostic) :
    Prints (emit .summary diagnostics) (diagnosticsText diagnostics) := by
  have hlines : Prints (diagnostics.forM fun d => print (line d.text)) (diagnostics.flatMap fun d => line d.text) := by
    induction diagnostics with
    | nil => exact ⟨rfl, rfl, rfl⟩
    | cons d diagnostics ih => exact (prints_print _).bind ih
  exact hlines.bind (prints_print _)

/-- Written texts are printed whole. -/
theorem delivers_written (result : Except AmountError Text) (f : Text → Text) {exit : Nat} (hexit : exit ≠ exitHalted) :
    Delivers (perform (written result) >>= fun text => print (f text) >>= fun _ => pure exit)
      (written result >>= fun text => pure ⟨f text, exit⟩) :=
  .perform_bind fun text _ => (prints_print (f text)).delivers hexit

theorem delivers_cost (r : CostRequest) (format : ReportFormat) :
    Delivers (costSession s r format) (runCost s r format) := by
  refine .perform_bind fun priced _ => ?_
  cases format with
  | summary => exact delivers_written _ id (by decide)
  | json => exact delivers_written _ id (by decide)

theorem delivers_parse (script : Text) (format : DumpFormat) :
    Delivers (parseSession s script format) (runParse s script format) := by
  refine .perform_bind fun route _ => .perform_bind fun program _ => ?_
  cases format with
  | sexp => exact delivers_written _ line (by decide)
  | display => exact delivers_written _ line (by decide)

theorem written_bind_pure (result : Except AmountError Text) (f : Text → Text) :
    written (do return f (← result)) = (do return f (← written result)) := by
  cases result <;> rfl

theorem delivers_loops (script : Text) (format : ReportFormat) :
    Delivers (loopsSession s script format) (runLoops s script format) := by
  refine .perform_bind fun route _ => .perform_bind fun diagnostics hdiagnostics => ?_
  cases format with
  | summary => exact (prints_emit diagnostics).delivers (verdict_ne diagnostics)
  | json =>
    rcases Task.loopDiagnostics_cases hdiagnostics with rfl | ⟨d, rfl⟩
    · exact Prints.delivers ⟨rfl, rfl, rfl⟩ (verdict_ne [])
    · have hrecords : diagnosticsRecords [d] = (do return line (← d.record.render)) := by
        simp [diagnosticsRecords]
      have hemit : emit .json [d] = perform (written d.record.render) >>= fun text => print (line text) := by
        change (perform (written d.record.render) >>= fun text => print (line text)) >>= (fun _ => pure ())
          >>= (fun _ => pure ()) = _
        cases d.record.render <;> rfl
      change Delivers (emit .json [d] >>= fun _ => pure (verdict [d]))
        (written (diagnosticsRecords [d]) >>= fun text => pure (.judged text [d]))
      rw [hrecords, written_bind_pure, hemit, Noted.bind_assoc, Noted.bind_assoc]
      exact delivers_written _ line (verdict_ne [d])

theorem delivers_check (r : CostRequest) (format : ReportFormat) :
    Delivers (checkSession s r format) (runCheck s r format) := by
  refine .perform_bind fun route _ => .perform_bind fun diagnostics _ => .perform_bind fun priced _ => ?_
  cases format with
  | summary => 
    change Delivers (perform (written (costText priced.1 priced.2)) >>= fun text => print text >>= fun _ =>
        emit .summary diagnostics >>= fun _ => pure (verdict diagnostics))
      (written (do return (← costText priced.1 priced.2) ++ diagnosticsText diagnostics) >>= fun text =>
        pure (.judged text diagnostics))
    rw [written_bind_pure _ (· ++ diagnosticsText diagnostics), Noted.bind_assoc]
    refine .perform_bind fun text _ => ?_
    rw [← Noted.bind_assoc]
    exact ((prints_print text).bind (prints_emit diagnostics)).delivers (verdict_ne diagnostics)
  | json => exact delivers_written _ id (verdict_ne diagnostics)

/-- **Whatever a command prints, it prints in the end.** -/
theorem delivers (s : Surroundings) (command : Command) : Delivers (command.session s) (command.run s) := by
  cases command with
  | cost r format => exact delivers_cost r format
  | loops script format => exact delivers_loops script format
  | check r format => exact delivers_check r format
  | parse script format => exact delivers_parse script format

end Command

/-! ## The whole program -/

theorem Session.Delivers.report_eq {m : Session Nat} {task : Task Output} (h : m.Delivers task) (level : Level) :
    Report.ofSession level m = .ofTask level task := by
  rw [Report.ofSession, h.result, h.output, h.notices, Report.ofTask]
  cases task.result <;> rfl

theorem runProgram_eq {s : Surroundings} {args : List Text} {verbosity : Nat} {command : Command}
    (h : readArguments args = .ok ⟨verbosity, some command⟩) :
    runProgram s args = .ofTask (.ofVerbosity verbosity) (command.run s) := by
  rw [runProgram, h]
  exact (command.delivers s).report_eq _

/-- **A run that comes to a halt has printed nothing**, whatever stopped it. -/
theorem output_of_exitHalted (s : Surroundings) (args : List Text) (h : (runProgram s args).exit = exitHalted) :
    (runProgram s args).output = [] := by
  cases hargs : readArguments args with
  | error departure =>
    rw [runProgram, hargs] at h ⊢
    cases departure with
    | help topic => cases h
    | version => cases h
    | misuse topic message => rfl
  | ok invocation =>
    obtain ⟨verbosity, _ | command⟩ := invocation
    · rw [runProgram, hargs]
    · rw [runProgram_eq hargs, Report.ofTask] at h ⊢
      cases hresult : (command.run s).result with
      | error halt => rfl
      | ok out =>
        rw [hresult] at h
        exact absurd h ((command.delivers s).exit out hresult)

/-- A disk with a script that never stops and a catalog that is a list. -/
def unpricedDisk : FileTree :=
  .directory [
    ("a.js", .file [119, 104, 105, 108, 101, 40, 116, 114, 117, 101, 41, 59]),
    ("prices.json", .file [91, 93])]

theorem output_of_exitHalted_unpriced :
    (runProgram ⟨unpricedDisk, [], fun _ => none⟩ ["check", "a.js", "--catalog", "prices.json"]).exit = exitHalted ∧
    (runProgram ⟨unpricedDisk, [], fun _ => none⟩ ["check", "a.js", "--catalog", "prices.json"]).output = [] := by
  let request : CostRequest := ⟨"a.js", "prices.json", none, none, []⟩
  have hargs : readArguments ["check", "a.js", "--catalog", "prices.json"] =
      .ok ⟨0, some (.check request .summary)⟩ := by cbv
  have hcost : (Task.computeCost ⟨unpricedDisk, [], fun _ => none⟩ request).result.isOk = false := by
    decide +kernel
  have hexit : (runProgram ⟨unpricedDisk, [], fun _ => none⟩
      ["check", "a.js", "--catalog", "prices.json"]).exit = exitHalted := by
    rw [runProgram_eq hargs, Report.ofTask, Command.run]
    cases hresult : (Command.runCheck ⟨unpricedDisk, [], fun _ => none⟩ request .summary).result with
    | error halt => rfl
    | ok out =>
      simp only [Command.runCheck, Noted.result_bind, Except.bind_eq_ok] at hresult
      obtain ⟨_, -, _, -, priced, hpriced, -⟩ := hresult
      rw [hpriced] at hcost
      cases hcost
  exact ⟨hexit, output_of_exitHalted _ _ hexit⟩

end ScriptAudit
