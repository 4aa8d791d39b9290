/-
The command `check` is `cost` and `loops` together. It reads the script before it prices it, and whatever
can be priced can be read: the script that is priced is the one at the path, whatever it is called there
(`exists_search_of_computeCost`). What is reported about loops can always be written, since lines and
columns of a file on a disk are not too large (`writable_of_search`).
-/
import Mathlib
import ScriptAudit.Proofs.DiskScripts
import ScriptAudit.Proofs.ImportClosure
import ScriptAudit.Proofs.JsonWriting
import ScriptAudit.Proofs.ParseOutcome
import ScriptAudit.Proofs.WholeOutput

namespace ScriptAudit

/-! ## Names and places of scripts -/

/-- What a script is called has no part in reading it. -/
theorem parse_filename (source filename filename' : Text) :
    parse source filename' = (parse source filename).map fun p => { p with filename := filename' } := by
  unfold parse parseWithin
  cases scriptGrammar.match nestingLimit .program source with
  | tooDeep => rfl
  | settled reply h =>
    cases reply with
    | missing => exact absurd h program_ne_missing
    | found statements next =>
      dsimp only
      split
      · cases Sketch.readList statements <;> rfl
      · rfl

theorem read_filename {source filename : Text} {p : Program} (h : Program.read source filename = .ok p)
    (filename' : Text) : Program.read source filename' = .ok { p with filename := filename' } := by
  rw [read_eq_ok_iff] at h ⊢
  rw [parse_filename source filename, h]
  rfl

/-- Loops are found on lines and in columns of the source. -/
theorem loopFinding?_le {source filename : Text} {p : Program} (h : Program.read source filename = .ok p)
    {finding : LoopFinding} (hfinding : p.loopFinding? = some finding) :
    finding.line ≤ source.length + 1 ∧ finding.column.natAbs ≤ source.length + 1 := by
  obtain ⟨loop, hloop, rfl⟩ := Option.map_eq_some_iff.mp hfinding
  rw [read_eq_ok_iff] at h
  have hmem : loop ∈ p.root.nodes := Node.mem_nodes_of_mem_preorder (List.mem_of_find?_eq_some hloop)
  have hstart : loop.span.start ≤ source.length := by
    rcases (arranged_of_parse h).eq_or_all hmem with rfl | hall
    · exact Nat.zero_le _
    · have := hall.self.nonempty
      have := hall.self.inside
      omega
  obtain ⟨_, _, -, -, -, rfl, -⟩ := settles_of_parse h
  refine ⟨?_, ?_⟩
  · show (p.source.upTo loop.span.start).count (CodePoint.ofChar '\n') + 1 ≤ p.source.length + 1
    have hcount := List.count_le_length (a := CodePoint.ofChar '\n') (l := p.source.upTo loop.span.start)
    have hlength : (p.source.upTo loop.span.start).length ≤ p.source.length := List.length_take_le' _ _
    omega
  · show (p.source.columnAt loop.span.start).natAbs ≤ p.source.length + 1
    have hpos : 0 < p.source.columnAt loop.span.start := Text.columnAt_pos (by omega)
    rw [Text.columnAt] at hpos ⊢
    omega

/-- A diagnostic can be written if its line and column are not too large and its details can be written. -/
theorem Diagnostic.writable_record {d : Diagnostic} (hline : d.location.line.natAbs ≤ 2 ^ 64)
    (hcolumn : d.location.column.natAbs ≤ 2 ^ 64) (hevidence : ∀ field ∈ d.evidence, field.2.Writable) :
    d.record.Writable := by
  refine .object fun field hfield => ?_
  simp only [List.mem_append, List.mem_cons, List.not_mem_nil, or_false] at hfield
  rcases hfield with (hfield | hfield) | hfield
  · rcases hfield with rfl | rfl | rfl | rfl | rfl | rfl
    · exact .string _
    · exact Json.writable_ofInt hline
    · exact Json.writable_ofInt hcolumn
    · exact .string _
    · exact .string _
    · exact .string _
  · split at hfield
    · cases hfield
    · obtain rfl := List.mem_singleton.mp hfield
      exact .string _
  · split at hfield
    · cases hfield
    · obtain rfl := List.mem_singleton.mp hfield
      exact .object hevidence

namespace Task

variable {s : Surroundings}

/-- The part of a check that is about loops. -/
def search (s : Surroundings) (script : Text) : Task (List Diagnostic) := do
  loopDiagnostics s (← locate s "script" script)

theorem not_mem_of_locate {what path : Text} {route : Route}
    (h : (locate s what path).result = .ok route) : parentMark ∉ route := by
  simp only [locate, Noted.result_bind, Except.bind_eq_ok] at h
  obtain ⟨p, -, h⟩ := h
  split at h
  · cases h
    exact not_mem_resolve _ _
  · cases h

theorem readProgram_eq_ok_iff {route : Route} {p : Program} : (readProgram s route).result = .ok p ↔
    ∃ source, (readFile s route).result = .ok source ∧ Program.read source (Route.text route) = .ok p := by
  simp only [readProgram, Noted.result_bind, Noted.result_ofExcept, Noted.result_note, Noted.result_pure,
    Except.bind_eq_ok, Except.mapError_eq_ok]
  simp

theorem search_eq_ok_iff {script : Text} {diagnostics : List Diagnostic} :
    (search s script).result = .ok diagnostics ↔ ∃ route source p,
      (locate s "script" script).result = .ok route ∧ (readFile s route).result = .ok source ∧
        Program.read source (Route.text route) = .ok p ∧ p.loopFinding?.toList.map .ofLoop = diagnostics := by
  simp only [search, Noted.result_bind, Except.bind_eq_ok, result_loopDiagnostics, Except.map_eq_ok,
    readProgram_eq_ok_iff]
  constructor
  · intro h
    obtain ⟨route, hroute, p, ⟨source, hsource, hread⟩, rfl⟩ := h
    exact ⟨route, source, p, hroute, hsource, hread, rfl⟩
  · intro h
    obtain ⟨route, source, p, hroute, hsource, hread, rfl⟩ := h
    exact ⟨route, hroute, p, ⟨source, hsource, hread⟩, rfl⟩

/-- What is found out about loops can be written. -/
theorem writable_of_search (hdisk : s.disk.Proper) {script : Text} {diagnostics : List Diagnostic}
    (h : (search s script).result = .ok diagnostics) : ∀ d ∈ diagnostics, d.record.Writable := by
  obtain ⟨route, source, p, hroute, hsource, hread, rfl⟩ := search_eq_ok_iff.mp h
  intro d hd
  obtain ⟨finding, hfinding, rfl⟩ := List.mem_map.mp hd
  have hlength := length_lt_of_readFile hdisk (not_mem_of_locate hroute) hsource
  obtain ⟨hline, hcolumn⟩ := loopFinding?_le hread (Option.mem_toList.mp hfinding)
  refine Diagnostic.writable_record ?_ ?_ (by simp [Diagnostic.ofLoop])
  · show (finding.line : Int).natAbs ≤ 2 ^ 64
    omega
  · show finding.column.natAbs ≤ 2 ^ 64
    omega

theorem collectNames_eq_ok {scripts : Scripts} {filename : Text} {names : List Text}
    (h : (collectNames scripts filename).result = .ok names) : scripts.collectNames filename = .ok names := by
  rw [collectNames, Noted.result_bind, Noted.result_note, Except.bind_eq_ok] at h
  obtain ⟨-, -, h⟩ := h
  unfold Scripts.collectNames
  dsimp only at h ⊢
  cases hfailure : (scripts.survey filename).failure with
  | none =>
    rw [hfailure] at h
    simpa using h
  | some error =>
    rw [hfailure] at h
    cases h

/-- A script with its own source among the others. -/
theorem get?_with_script {scripts : Scripts} {name source : Text}
    (h : ∀ source', Table.get? scripts name = some source' → source' = source) :
    Table.get? (if (Table.get? scripts name).isSome then scripts else scripts ++ [(name, source)]) name =
      some source := by
  cases hget : Table.get? scripts name with
  | some source' => rw [Option.isSome_some, if_pos rfl, hget, h source' hget]
  | none =>
    have hnone : scripts.find? (·.1 == name) = none := Option.map_eq_none_iff.mp hget
    simp [Table.get?, hnone]

/-- Whatever can be priced can be searched for loops. -/
theorem exists_search_of_computeCost (hdisk : s.disk.Proper) {r : CostRequest} {priced : Text × Breakdown}
    (h : (computeCost s r).result = .ok priced) : ∃ diagnostics, (search s r.script).result = .ok diagnostics := by
  simp only [computeCost, Noted.result_bind, Except.bind_eq_ok] at h
  obtain ⟨script, hscript, directory, -, catalog, -, list, -, player, -, scripts, hscripts, h⟩ := h
  split at h
  · rename_i parts hparts
    simp only [Noted.result_bind, Except.bind_eq_ok] at h
    obtain ⟨source, hsource, names, hnames, -⟩ := h
    have hget := get?_with_script fun source' =>
      eq_of_loadScripts hdisk (not_mem_of_locate hscript) hparts hscripts hsource
    obtain ⟨-, hsound⟩ := Scripts.exists_collectNames_iff.mp ⟨names, collectNames_eq_ok hnames⟩
    obtain ⟨p, hp, -⟩ := hsound (relativeName parts) .refl
    obtain ⟨source', hsource', hread⟩ := Scripts.program?_eq_some_iff.mp hp
    obtain rfl : source' = source := Option.some.inj (hsource'.symm.trans hget)
    exact ⟨_, search_eq_ok_iff.mpr ⟨script, source', _, hscript, hsource, read_filename hread _, rfl⟩⟩
  · cases h

end Task

/-! ## What is printed -/

namespace Command

variable {s : Surroundings} {format : ReportFormat} {script : Text} {b : Breakdown}
  {diagnostics : List Diagnostic} {out : Output}

def costReport (format : ReportFormat) (script : Text) (b : Breakdown) : Except AmountError Text :=
  match format with
  | .summary => costText script b
  | .json => recordText (costFields script b)

def loopsReport (format : ReportFormat) (diagnostics : List Diagnostic) : Except AmountError Text :=
  match format with
  | .summary => .ok (diagnosticsText diagnostics)
  | .json => diagnosticsRecords diagnostics

def checkReport (format : ReportFormat) (script : Text) (b : Breakdown) (diagnostics : List Diagnostic) :
    Except AmountError Text :=
  match format with
  | .summary => do return (← costText script b) ++ diagnosticsText diagnostics
  | .json => recordText (checkFields script b diagnostics)

theorem written_eq_ok_iff {α : Type} {result : Except AmountError α} {a : α} :
    (written result).result = .ok a ↔ result = .ok a := by
  rw [written, Noted.result_ofExcept, Except.mapError_eq_ok]

theorem runCost_eq_ok_iff {r : CostRequest} : (runCost s r format).result = .ok out ↔ ∃ script b text,
    (Task.computeCost s r).result = .ok (script, b) ∧ costReport format script b = .ok text ∧
      .fine text = out := by
  simp only [runCost, Noted.result_bind, Noted.result_pure, Except.bind_eq_ok, written_eq_ok_iff,
    Except.ok.injEq]
  constructor
  · intro h
    obtain ⟨⟨script, b⟩, hcost, text, htext, hout⟩ := h
    exact ⟨script, b, text, hcost, htext, hout⟩
  · intro h
    obtain ⟨script, b, text, hcost, htext, hout⟩ := h
    exact ⟨(script, b), hcost, text, htext, hout⟩

theorem runLoops_eq_ok_iff : (runLoops s script format).result = .ok out ↔ ∃ diagnostics text,
    (Task.search s script).result = .ok diagnostics ∧ loopsReport format diagnostics = .ok text ∧
      .judged text diagnostics = out := by
  simp only [runLoops, Task.search, Noted.result_bind, Noted.result_pure, Except.bind_eq_ok, written_eq_ok_iff,
    Except.ok.injEq]
  constructor
  · intro h
    obtain ⟨route, hroute, diagnostics, hloops, text, htext, hout⟩ := h
    exact ⟨diagnostics, text, ⟨route, hroute, hloops⟩, htext, hout⟩
  · intro h
    obtain ⟨diagnostics, text, ⟨route, hroute, hloops⟩, htext, hout⟩ := h
    exact ⟨route, hroute, diagnostics, hloops, text, htext, hout⟩

theorem runCheck_eq_ok_iff {r : CostRequest} : (runCheck s r format).result = .ok out ↔
    ∃ diagnostics script b text, (Task.search s r.script).result = .ok diagnostics ∧
      (Task.computeCost s r).result = .ok (script, b) ∧ checkReport format script b diagnostics = .ok text ∧
      .judged text diagnostics = out := by
  simp only [runCheck, Task.search, Noted.result_bind, Noted.result_pure, Except.bind_eq_ok, written_eq_ok_iff,
    Except.ok.injEq]
  constructor
  · intro h
    obtain ⟨route, hroute, diagnostics, hloops, ⟨script, b⟩, hcost, text, htext, hout⟩ := h
    exact ⟨diagnostics, script, b, text, ⟨route, hroute, hloops⟩, hcost, htext, hout⟩
  · intro h
    obtain ⟨diagnostics, script, b, text, ⟨route, hroute, hloops⟩, hcost, htext, hout⟩ := h
    exact ⟨route, hroute, diagnostics, hloops, (script, b), hcost, text, htext, hout⟩

theorem exists_recordText_iff {fields : List (Text × Json)} :
    (∃ t, recordText fields = .ok t) ↔ ∀ field ∈ fields, field.2.Writable := by
  rw [← Json.writable_object_iff, ← Json.exists_renderIndented_iff]
  simp only [recordText, Except.exists_bind_eq_ok, Except.exists_pure_eq_ok, and_true]

/-- Diagnostics that can be written make no difference to what else can be written. -/
theorem exists_checkReport_iff (h : ∀ d ∈ diagnostics, d.record.Writable) :
    (∃ t, checkReport format script b diagnostics = .ok t) ↔ ∃ t, costReport format script b = .ok t := by
  cases format with
  | summary =>
    simp only [checkReport, costReport, Except.exists_bind_eq_ok, Except.exists_pure_eq_ok, and_true]
  | json =>
    have hrecords : (Json.array (diagnostics.map Diagnostic.record)).Writable := by
      refine .array fun record hrecord => ?_
      obtain ⟨d, hd, rfl⟩ := List.mem_map.mp hrecord
      exact h d hd
    simp only [checkReport, costReport, exists_recordText_iff, checkFields, List.forall_mem_append,
      List.forall_mem_singleton, hrecords, and_true]

theorem exists_loopsReport (h : ∀ d ∈ diagnostics, d.record.Writable) :
    ∃ t, loopsReport format diagnostics = .ok t := by
  cases format with
  | summary => exact ⟨_, rfl⟩
  | json =>
    have hrecords : ∃ records, (diagnostics.mapM fun d => d.record.render) = .ok records :=
      Except.exists_mapM_eq_ok fun d hd => Json.exists_render_iff.mpr (h d hd)
    simp only [loopsReport, diagnosticsRecords, Except.exists_bind_eq_ok, Except.exists_pure_eq_ok, and_true]
    exact hrecords

/-- A script can be checked whenever it can be priced. -/
theorem exists_runCheck_of_runCost (hdisk : s.disk.Proper) {r : CostRequest}
    (h : (runCost s r format).result = .ok out) : ∃ out, (runCheck s r format).result = .ok out := by
  obtain ⟨script, b, text, hcost, htext, -⟩ := runCost_eq_ok_iff.mp h
  obtain ⟨diagnostics, hsearch⟩ := Task.exists_search_of_computeCost hdisk hcost
  obtain ⟨text, htext⟩ := (exists_checkReport_iff (Task.writable_of_search hdisk hsearch)).mpr ⟨text, htext⟩
  exact ⟨_, runCheck_eq_ok_iff.mpr ⟨diagnostics, script, b, text, hsearch, hcost, htext, rfl⟩⟩

/-- A check that comes to its end, together with what the other two commands do then. -/
theorem exists_reports_of_runCheck (hdisk : s.disk.Proper) {r : CostRequest} (format' : ReportFormat)
    (h : (runCheck s r format).result = .ok out) : ∃ diagnostics script b text costs loops,
      checkReport format script b diagnostics = .ok text ∧ .judged text diagnostics = out ∧
      costReport format script b = .ok costs ∧ (runCost s r format).result = .ok (.fine costs) ∧
      loopsReport format' diagnostics = .ok loops ∧
      (runLoops s r.script format').result = .ok (.judged loops diagnostics) := by
  obtain ⟨diagnostics, script, b, text, hsearch, hcost, htext, hout⟩ := runCheck_eq_ok_iff.mp h
  have hwritable := Task.writable_of_search hdisk hsearch
  obtain ⟨costs, hcosts⟩ := (exists_checkReport_iff hwritable).mp ⟨text, htext⟩
  obtain ⟨loops, hloops⟩ : ∃ t, loopsReport format' diagnostics = .ok t := exists_loopsReport hwritable
  exact ⟨diagnostics, script, b, text, costs, loops, htext, hout, hcosts,
    runCost_eq_ok_iff.mpr ⟨script, b, costs, hcost, hcosts, rfl⟩, hloops,
    runLoops_eq_ok_iff.mpr ⟨diagnostics, loops, hsearch, hloops, rfl⟩⟩

end Command

/-! ## The whole program -/

namespace Report

variable {level : Level} {task : Task Output} {out : Output}

theorem exit_of_ok (h : task.result = .ok out) : (ofTask level task).exit = out.exit := by
  rw [ofTask, h]

theorem output_of_ok (h : task.result = .ok out) : (ofTask level task).output = out.text := by
  rw [ofTask, h]

theorem exists_ok_of_exit_ne (h : (ofTask level task).exit ≠ exitHalted) : ∃ out, task.result = .ok out := by
  cases hresult : task.result with
  | ok out => exact ⟨out, rfl⟩
  | error halt =>
    rw [ofTask, hresult] at h
    exact absurd rfl h

/-- A judgement is no halt. -/
theorem exit_ne_of_judged {text : Text} {diagnostics : List Diagnostic}
    (h : task.result = .ok (.judged text diagnostics)) : (ofTask level task).exit ≠ exitHalted := by
  rw [exit_of_ok h]
  show (if _ then 1 else 0) ≠ 2
  split <;> omega

theorem exit_ne_of_fine {text : Text} (h : task.result = .ok (.fine text)) :
    (ofTask level task).exit ≠ exitHalted := by
  rw [exit_of_ok h]
  show (0 : Nat) ≠ 2
  omega

end Report

/-- The first report is the other two together, as far as formats allow. -/
structure Report.Combines (format format' : ReportFormat) (check cost loops : Report) : Prop where
  halts_iff : check.exit = exitHalted ↔ cost.exit = exitHalted
  halts_of_loops : loops.exit = exitHalted → check.exit = exitHalted
  exit_eq : check.exit ≠ exitHalted → check.exit = loops.exit
  summary : check.exit ≠ exitHalted → format = .summary → format' = .summary →
    check.output = cost.output ++ loops.output
  /-- The record has one more field, with the records that are otherwise printed one on a line. -/
  json : check.exit ≠ exitHalted → format = .json → format' = .json → ∃ fields records lines,
    Command.recordText fields = .ok cost.output ∧
    Command.recordText (fields ++ [(Text.ofString "diagnostics", .array records)]) = .ok check.output ∧
    records.mapM Json.render = .ok lines ∧ loops.output = lines.flatMap Command.line

/-- **A check is a price and a search for loops.** It comes to a halt exactly if the script cannot be
priced, and it does if the script cannot be searched. Otherwise it ends as the search does and prints what
both print. -/
theorem combines_of_readArguments {s : Surroundings} (hdisk : s.disk.Proper) {checkArgs costArgs loopsArgs : List Text}
    {v v' v'' : Nat} {r : CostRequest} {format format' : ReportFormat}
    (hcheck : readArguments checkArgs = .ok ⟨v, some (.check r format)⟩)
    (hcost : readArguments costArgs = .ok ⟨v', some (.cost r format)⟩)
    (hloops : readArguments loopsArgs = .ok ⟨v'', some (.loops r.script format')⟩) :
    Report.Combines format format' (runProgram s checkArgs) (runProgram s costArgs) (runProgram s loopsArgs) := by
  rw [runProgram_eq hcheck, runProgram_eq hcost, runProgram_eq hloops, Command.run, Command.run, Command.run]
  constructor
  case halts_iff =>
    constructor
    · intro hhalt
      by_contra hends
      obtain ⟨_, hout⟩ := Report.exists_ok_of_exit_ne hends
      obtain ⟨_, hout⟩ := Command.exists_runCheck_of_runCost hdisk hout
      obtain ⟨_, _, _, _, -, -, -, rfl⟩ := Command.runCheck_eq_ok_iff.mp hout
      exact Report.exit_ne_of_judged hout hhalt
    · intro hhalt
      by_contra hends
      obtain ⟨_, hout⟩ := Report.exists_ok_of_exit_ne hends
      obtain ⟨_, _, _, _, _, _, -, -, -, hcost, -⟩ := Command.exists_reports_of_runCheck hdisk format' hout
      exact Report.exit_ne_of_fine hcost hhalt
  case halts_of_loops =>
    intro hhalt
    by_contra hends
    obtain ⟨_, hout⟩ := Report.exists_ok_of_exit_ne hends
    obtain ⟨_, _, _, _, _, _, -, -, -, -, -, hsearch⟩ := Command.exists_reports_of_runCheck hdisk format' hout
    exact Report.exit_ne_of_judged hsearch hhalt
  case exit_eq =>
    intro hends
    obtain ⟨out, hout⟩ := Report.exists_ok_of_exit_ne hends
    obtain ⟨diagnostics, _, _, _, _, _, -, rfl, -, -, -, hsearch⟩ :=
      Command.exists_reports_of_runCheck hdisk format' hout
    exact (Report.exit_of_ok hout).trans (Report.exit_of_ok hsearch).symm
  case summary =>
    intro hends hformat hformat'
    subst hformat hformat'
    obtain ⟨out, hout⟩ := Report.exists_ok_of_exit_ne hends
    obtain ⟨diagnostics, script, b, text, costs, loops, htext, rfl, hcosts, hcost, hloops, hsearch⟩ :=
      Command.exists_reports_of_runCheck hdisk .summary hout
    rw [Report.output_of_ok hout, Report.output_of_ok hcost, Report.output_of_ok hsearch]
    obtain ⟨_, hcosts', htext⟩ := Except.bind_eq_ok.mp htext
    cases hcosts.symm.trans hcosts'
    cases htext
    cases hloops
    rfl
  case json =>
    intro hends hformat hformat'
    subst hformat hformat'
    obtain ⟨out, hout⟩ := Report.exists_ok_of_exit_ne hends
    obtain ⟨diagnostics, script, b, text, costs, loops, htext, rfl, hcosts, hcost, hloops, hsearch⟩ :=
      Command.exists_reports_of_runCheck hdisk .json hout
    rw [Report.output_of_ok hout, Report.output_of_ok hcost, Report.output_of_ok hsearch]
    obtain ⟨lines, hlines, hloops⟩ := Except.bind_eq_ok.mp hloops
    refine ⟨Command.costFields script b, diagnostics.map Diagnostic.record, lines, hcosts, htext, ?_, ?_⟩
    · rw [List.mapM_map]
      exact hlines
    · exact (Except.pure_eq_ok.mp hloops).symm

/-- A disk with a script that never stops and a catalog with no prices. -/
def endlessDisk : FileTree :=
  .directory [
    ("a.js", .file [119, 104, 105, 108, 101, 40, 116, 114, 117, 101, 41, 59]),
    ("prices.json", .file [123, 125])]

theorem endlessDisk_proper : endlessDisk.Proper := by
  refine .directory (by decide) ?_ ?_
  · intro entry hentry
    simp only [List.mem_cons, List.not_mem_nil, or_false] at hentry
    rcases hentry with rfl | rfl
    · constructor <;> decide
    · constructor <;> decide
  · intro entry hentry
    simp only [List.mem_cons, List.not_mem_nil, or_false] at hentry
    rcases hentry with rfl | rfl
    · exact .file (by simp)
    · exact .file (by simp)

theorem combines_of_readArguments_endless : endlessDisk.Proper ∧ Report.Combines .json .json
    (runProgram ⟨endlessDisk, [], fun _ => none⟩ ["check", "a.js", "--catalog", "prices.json", "-f", "json"])
    (runProgram ⟨endlessDisk, [], fun _ => none⟩ ["cost", "a.js", "--catalog", "prices.json", "-f", "json"])
    (runProgram ⟨endlessDisk, [], fun _ => none⟩ ["loops", "a.js", "-f", "json"]) := by
  let request : CostRequest := ⟨"a.js", "prices.json", none, none, []⟩
  have hcheck : readArguments ["check", "a.js", "--catalog", "prices.json", "-f", "json"] =
      .ok ⟨0, some (.check request .json)⟩ := by cbv
  have hcost : readArguments ["cost", "a.js", "--catalog", "prices.json", "-f", "json"] =
      .ok ⟨0, some (.cost request .json)⟩ := by cbv
  have hloops : readArguments ["loops", "a.js", "-f", "json"] =
      .ok ⟨0, some (.loops request.script .json)⟩ := by cbv
  exact ⟨endlessDisk_proper, combines_of_readArguments endlessDisk_proper hcheck hcost hloops⟩

end ScriptAudit
