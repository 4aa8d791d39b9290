/-
Files that have nothing to do with a script do not change its price. All scripts of a directory are read, but what
comes of a script depends only on those that it reaches: a name that none of their imports could mean can be given
to another script or taken away (`Scripts.collectNames_congr`). So a file can be put into the directory of the
scripts, if it is neither the script nor the catalog and no import that counts could mean it.

One thing is needed besides: if the name of the file is that of a script, it must be possible to decode the file,
since it is decoded before anything is known about imports. Without that the price is lost
(`runProgram_withFile_undecodable`).
-/
import Mathlib
import ScriptAudit.Proofs.AddedFile
import ScriptAudit.Proofs.ChargedNames
import ScriptAudit.Proofs.CheckCommand

namespace ScriptAudit

/-! ## Names that no import means -/

/-- What an import can mean. -/
def candidates (path : Text) : List Text := [moduleName path, moduleName path ++ ".js"]

theorem mem_candidates_of_resolveImport {path target : Text} {names : List Text}
    (h : resolveImport path names = some target) : target ∈ candidates path :=
  List.mem_of_find?_eq_some h

theorem resolveImport_congr {path : Text} {names names' : List Text}
    (h : ∀ name ∈ candidates path, name ∈ names' ↔ name ∈ names) :
    resolveImport path names' = resolveImport path names := by
  have hcontains : ∀ name ∈ candidates path, names'.contains name = names.contains name := by
    intro name hname
    rw [Bool.eq_iff_iff, List.contains_iff_mem, List.contains_iff_mem]
    exact h name hname
  simp only [resolveImport, List.find?_cons, List.find?_nil, hcontains _ List.mem_cons_self,
    hcontains _ (List.mem_cons_of_mem _ List.mem_cons_self)]

namespace Scripts

variable {scripts scripts' : Scripts} {root added name : Text}

/-- No import in a script that is reached could mean the name. -/
def Unmentioned (scripts : Scripts) (root added : Text) : Prop :=
  ∀ name, scripts.Reaches root name → ∀ p, scripts.program? name = some p →
    ∀ d ∈ p.imports, added ∉ candidates d.2

/-- The scripts are the same, except for what has the one name. -/
def AgreeBut (added : Text) (scripts scripts' : Scripts) : Prop :=
  ∀ name, name ≠ added → Table.get? scripts' name = Table.get? scripts name

theorem mem_keys_iff : name ∈ scripts.keys ↔ ∃ source, Table.get? scripts name = some source := by
  constructor
  · exact get?_of_mem_keys
  · intro hfound
    obtain ⟨source, h⟩ := hfound
    exact Table.mem_keys_of_get? h

theorem Unmentioned.ne_of_reaches (h : scripts.Unmentioned root added) (hroot : root ≠ added)
    (hname : scripts.Reaches root name) : name ≠ added := by
  rcases Relation.ReflTransGen.cases_tail hname with rfl | ⟨_, hreaches, p, hp, d, hd, hresolve⟩
  · exact hroot
  · rintro rfl
    exact h _ hreaches p hp d hd (mem_candidates_of_resolveImport hresolve)

section Agree

variable (hroot : root ≠ added) (hagree : AgreeBut added scripts scripts')
  (hunmentioned : scripts.Unmentioned root added)

include hagree in
theorem AgreeBut.mem_keys_iff (hname : name ≠ added) : name ∈ scripts'.keys ↔ name ∈ scripts.keys := by
  rw [Scripts.mem_keys_iff, Scripts.mem_keys_iff, hagree name hname]

include hagree in
theorem AgreeBut.program?_eq (hname : name ≠ added) : scripts'.program? name = scripts.program? name := by
  rw [program?, program?, hagree name hname]

include hagree hunmentioned in
/-- Imports mean the same scripts. -/
theorem resolveImport_of_agreeBut (hname : scripts.Reaches root name) {p : Program}
    (hp : scripts.program? name = some p) {d : Tree × Text} (hd : d ∈ p.imports) :
    resolveImport d.2 scripts'.keys = resolveImport d.2 scripts.keys := by
  refine resolveImport_congr fun candidate hcandidate => hagree.mem_keys_iff ?_
  rintro rfl
  exact hunmentioned name hname p hp d hd hcandidate

include hroot hagree hunmentioned in
theorem targets_of_agreeBut (hname : scripts.Reaches root name) : scripts'.targets name = scripts.targets name := by
  rw [targets, targets, hagree.program?_eq (hunmentioned.ne_of_reaches hroot hname)]
  cases hp : scripts.program? name with
  | none => rfl
  | some p =>
    simp only [Option.toList_some, List.flatMap_cons, List.flatMap_nil, List.append_nil]
    exact List.filterMap_congr fun d hd => resolveImport_of_agreeBut hagree hunmentioned hname hp hd

include hroot hagree hunmentioned in
theorem breadthFirst_of_agreeBut (hkey : root ∈ scripts.keys) :
    scripts'.breadthFirst root = scripts.breadthFirst root := by
  have hkey' : root ∈ scripts'.keys := (hagree.mem_keys_iff hroot).mpr hkey
  have hwave : ∀ n, wave scripts'.targets root n = wave scripts.targets root n := by
    refine wave_congr fun name hname => targets_of_agreeBut hroot hagree hunmentioned ?_
    simpa only [mem_targets_iff] using hname
  -- there may be more keys and so more waves now, but nothing new is in them
  calc (wave scripts'.targets root scripts'.keys.length).seen
    _ = (wave scripts'.targets root (max scripts'.keys.length scripts.keys.length)).seen :=
        (seen_eq_of_le hkey' (fun _ => targets_subset) (Nat.le_refl _) (Nat.le_max_left ..)).symm
    _ = (wave scripts.targets root (max scripts'.keys.length scripts.keys.length)).seen := by rw [hwave]
    _ = (wave scripts.targets root scripts.keys.length).seen :=
        seen_eq_of_le hkey (fun _ => targets_subset) (Nat.le_refl _) (Nat.le_max_right ..)

include hroot hagree hunmentioned in
/-- The names that are used stay the same. -/
theorem collectNames_congr {names : List Text} (h : scripts.collectNames root = .ok names) :
    scripts'.collectNames root = .ok names := by
  obtain ⟨hkey, hsound⟩ := exists_collectNames_iff.mp ⟨names, h⟩
  have hkey' : root ∈ scripts'.keys := (hagree.mem_keys_iff hroot).mpr hkey
  have horder := breadthFirst_of_agreeBut hroot hagree hunmentioned hkey
  have hreaches : ∀ {name}, scripts'.Reaches root name → scripts.Reaches root name := by
    intro name hname
    rwa [← mem_breadthFirst_iff hkey', horder, mem_breadthFirst_iff hkey] at hname
  have hprogram : ∀ {name}, scripts.Reaches root name → scripts'.program? name = scripts.program? name :=
    fun hname => hagree.program?_eq (hunmentioned.ne_of_reaches hroot hname)
  have hsound' : ∀ name, scripts'.Reaches root name → scripts'.Sound name := by
    intro name hname
    obtain ⟨p, hp, hall⟩ := hsound name (hreaches hname)
    refine ⟨p, (hprogram (hreaches hname)).trans hp, fun d hd => ?_⟩
    rw [resolveImport_of_agreeBut hagree hunmentioned (hreaches hname) hp hd]
    exact hall d hd
  obtain ⟨names', h'⟩ := exists_collectNames_iff.mpr ⟨hkey', hsound'⟩
  have hused : ∀ name ∈ scripts.breadthFirst root, scripts'.namesOf name = scripts.namesOf name := by
    intro name hname
    rw [namesOf, namesOf, hprogram ((mem_breadthFirst_iff hkey).mp hname)]
  rw [h', eq_of_collectNames h', eq_of_collectNames h, horder, List.flatMap_def, List.flatMap_def,
    List.map_congr_left hused]

end Agree

end Scripts

/-! ## What a price is about -/

theorem Table.get?_append {κ α : Type} [BEq κ] (t t' : Table κ α) (key : κ) :
    Table.get? (t ++ t') key = (t.get? key).or (t'.get? key) := by
  simp [Table.get?, List.find?_append, Option.map_or]

/-- The scripts with one more, unless there is one of that name. -/
def Scripts.withScript (scripts : Scripts) (name source : Text) : Scripts :=
  if (Table.get? scripts name).isSome then scripts else scripts ++ [(name, source)]

theorem Scripts.AgreeBut.withScript {added name : Text} {scripts scripts' : Scripts}
    (h : AgreeBut added scripts scripts') (hname : name ≠ added) (source : Text) :
    AgreeBut added (scripts.withScript name source) (scripts'.withScript name source) := by
  intro other hother
  rw [Scripts.withScript, Scripts.withScript, h name hname]
  split
  · exact h other hother
  · rw [Table.get?_append, Table.get?_append, h other hother]

/-- What is read for a price. -/
structure Subject where
  script : Route
  /-- The directory of the scripts. -/
  directory : Route
  catalog : Route
  scripts : Scripts
  /-- What the script is called among the others. -/
  name : Text

namespace Task

variable {s : Surroundings} {r : CostRequest} {m : Subject}

/-- Finds everything that is read for a price. -/
def subject (s : Surroundings) (r : CostRequest) : Task Subject := do
  let script ← locate s "script" r.script
  let directory ← scriptsDirectory s r script
  let catalog ← locate s "catalog" r.catalog
  let scripts ← loadScripts s directory
  let some parts := Route.within? directory script | Noted.stop (.outside script directory)
  let source ← readFile s script
  return ⟨script, directory, catalog, scripts.withScript (relativeName parts) source, relativeName parts⟩

theorem subject_eq_ok_iff : (subject s r).result = .ok m ↔ ∃ scripts parts source,
    (locate s "script" r.script).result = .ok m.script ∧
    (scriptsDirectory s r m.script).result = .ok m.directory ∧
    (locate s "catalog" r.catalog).result = .ok m.catalog ∧
    (loadScripts s m.directory).result = .ok scripts ∧ Route.within? m.directory m.script = some parts ∧
    (readFile s m.script).result = .ok source ∧
    m.scripts = scripts.withScript (relativeName parts) source ∧ m.name = relativeName parts := by
  simp only [subject, Noted.result_bind, Except.bind_eq_ok]
  constructor
  · intro hrun
    obtain ⟨script, hscript, directory, hdirectory, catalog, hcatalog, scripts, hscripts, h⟩ := hrun
    split at h
    · rename_i parts hparts
      simp only [Noted.result_bind, Except.bind_eq_ok] at h
      obtain ⟨source, hsource, h⟩ := h
      cases h
      exact ⟨scripts, parts, source, hscript, hdirectory, hcatalog, hscripts, hparts, hsource, rfl, rfl⟩
    · cases h
  · intro h
    obtain ⟨scripts, parts, source, hscript, hdirectory, hcatalog, hscripts, hparts, hsource, hall, hname⟩ := h
    refine ⟨_, hscript, _, hdirectory, _, hcatalog, _, hscripts, ?_⟩
    rw [hparts]
    simp only [Noted.result_bind, Except.bind_eq_ok]
    refine ⟨source, hsource, ?_⟩
    rw [← hall, ← hname]
    rfl

theorem result_sayAmount (part : String) (level : Level) (amount : Amount) (message : Text → Text) :
    (sayAmount part level amount message).result = .ok () := by
  unfold sayAmount
  split <;> rfl

theorem result_collectNames (scripts : Scripts) (filename : Text) :
    (collectNames scripts filename).result = (scripts.collectNames filename).mapError .audit := by
  rw [collectNames, Noted.result_bind, Noted.result_note, Scripts.collectNames]
  cases (scripts.survey filename).failure <;> rfl

theorem aggregate_eq_ok_iff {list : PriceList} {player : Player} {names : List Text} {b : Breakdown} :
    (aggregate list player names).result = .ok b ↔ list.aggregate (some player) names = .ok b := by
  simp only [aggregate, Noted.result_bind, Noted.result_note, Noted.result_ofExcept, Noted.result_pure,
    result_sayAmount, Except.bind_eq_ok, Except.mapError_eq_ok]
  simp

/-- The prices are in one file. -/
theorem loadPrices_eq_ok_iff {route : Route} {list : PriceList} : (loadPrices s route).result = .ok list ↔
    ∃ bytes, s.disk.at? route = .ok (.file bytes) ∧ ∃ text, Text.ofFile bytes = .ok text ∧
      (PriceList.ofText (Path.text ⟨1, route⟩) text).result = .ok list := by
  have hunder : (Path.mk 1 route).under [] = route := rfl
  simp only [loadPrices, say, Noted.result_bind, Noted.convert, PriceList.load, Noted.result_ofExcept,
    Noted.result_note, Noted.result_pure, Except.bind_eq_ok, Except.mapError_eq_ok, hunder,
    FileTree.read_eq_ok_iff]
  simp

theorem computeCost_eq_ok_iff {name : Text} {b : Breakdown} : (computeCost s r).result = .ok (name, b) ↔
    ∃ m list player names, (subject s r).result = .ok m ∧ (loadPrices s m.catalog).result = .ok list ∧
      Player.ofFlags r.bitnode r.sourceFiles = .ok player ∧ m.scripts.collectNames m.name = .ok names ∧
      list.aggregate (some player) names = .ok b ∧ m.name = name := by
  simp only [computeCost, Noted.result_bind, Except.bind_eq_ok]
  constructor
  · intro hrun
    obtain ⟨script, hscript, directory, hdirectory, catalog, hcatalog, list, hlist, player, hplayer, scripts,
      hscripts, h⟩ := hrun
    split at h
    · rename_i parts hparts
      simp only [Noted.result_bind, Except.bind_eq_ok, aggregate_eq_ok_iff, result_collectNames,
        Except.mapError_eq_ok] at h
      obtain ⟨source, hsource, names, hnames, b', hb, -, -, h⟩ := h
      cases h
      exact ⟨⟨script, directory, catalog, scripts.withScript (relativeName parts) source, relativeName parts⟩,
        list, player, names,
        subject_eq_ok_iff.mpr ⟨scripts, parts, source, hscript, hdirectory, hcatalog, hscripts, hparts, hsource,
          rfl, rfl⟩, hlist, Except.mapError_eq_ok.mp hplayer, hnames, hb, rfl⟩
    · cases h
  · intro h
    obtain ⟨m, list, player, names, hm, hlist, hplayer, hnames, hb, rfl⟩ := h
    obtain ⟨scripts, parts, source, hscript, hdirectory, hcatalog, hscripts, hparts, hsource, hall, hname⟩ :=
      subject_eq_ok_iff.mp hm
    refine ⟨_, hscript, _, hdirectory, _, hcatalog, _, hlist, _, Except.mapError_eq_ok.mpr hplayer, _, hscripts, ?_⟩
    rw [hparts]
    simp only [Noted.result_bind, Except.bind_eq_ok, aggregate_eq_ok_iff, result_collectNames,
      Except.mapError_eq_ok]
    rw [hall, hname] at hnames
    exact ⟨source, hsource, names, hnames, b, hb, (), result_sayAmount .., by rw [hname]; rfl⟩

/-! ## With one more file -/

section WithFile

variable {path : Route} {bytes : List UInt8} (hpath : parentMark ∉ path) (htakes : s.disk.Takes path)

include hpath htakes

theorem locate_withFile {what argument : Text} {route : Route} (h : (locate s what argument).result = .ok route) :
    (locate (withFile s path bytes) what argument).result = .ok route := by
  have hparent := not_mem_of_locate h
  simp only [locate, Noted.result_bind, Except.bind_eq_ok] at h ⊢
  obtain ⟨p, hp, h⟩ := h
  refine ⟨p, hp, ?_⟩
  split at h
  · rename_i hexists
    cases h
    rw [if_pos]
    · rfl
    · exact FileTree.exists?_put hpath htakes hparent hexists
  · cases h

theorem scriptsDirectory_withFile {script directory : Route}
    (h : (scriptsDirectory s r script).result = .ok directory) :
    (scriptsDirectory (withFile s path bytes) r script).result = .ok directory := by
  unfold scriptsDirectory at h ⊢
  split
  · rename_i hnone
    rwa [hnone] at h
  · rename_i argument hsome
    rw [hsome] at h
    exact locate_withFile hpath htakes h

theorem readFile_withFile {route : Route} (hroute : parentMark ∉ route) (hne : path ≠ route) {t : Text}
    (h : (readFile s route).result = .ok t) : (readFile (withFile s path bytes) route).result = .ok t := by
  rw [readFile_eq_ok_iff] at h ⊢
  obtain ⟨bytes', hat, ht⟩ := h
  exact ⟨bytes', (FileTree.at?_put_iff hpath htakes hroute hne.symm).mpr hat, ht⟩

theorem loadPrices_withFile {route : Route} (hroute : parentMark ∉ route) (hne : path ≠ route) {list : PriceList}
    (h : (loadPrices s route).result = .ok list) : (loadPrices (withFile s path bytes) route).result = .ok list := by
  rw [loadPrices_eq_ok_iff] at h ⊢
  obtain ⟨bytes', hat, hlist⟩ := h
  exact ⟨bytes', (FileTree.at?_put_iff hpath htakes hroute hne.symm).mpr hat, hlist⟩

end WithFile

/-- The file has nothing to do with what is read for the price. -/
structure Unrelated (s : Surroundings) (m : Subject) (parts : List Text) (bytes : List UInt8) : Prop where
  names : ∀ part ∈ parts, IsFileName part
  size : bytes.length < 2 ^ 63
  takes : s.disk.Takes (m.directory ++ parts)
  ne_script : m.directory ++ parts ≠ m.script
  ne_catalog : m.directory ++ parts ≠ m.catalog
  unmentioned : m.scripts.Unmentioned m.name (relativeName parts)

/-- The script is in the directory of the scripts, at a path of names of files. -/
theorem names_of_subject (hdisk : s.disk.Proper) (h : (subject s r).result = .ok m) :
    ∃ parts, m.script = m.directory ++ parts ∧ m.name = relativeName parts ∧
      ∀ part ∈ m.directory ++ parts, IsFileName part := by
  obtain ⟨_, parts, _, hscript, -, -, -, hparts, hsource, -, hname⟩ := subject_eq_ok_iff.mp h
  have hsplit := Route.eq_append_of_within? hparts
  obtain ⟨_, hat, -⟩ := readFile_eq_ok_iff.mp hsource
  refine ⟨parts, hsplit, hname, ?_⟩
  rw [← hsplit]
  exact (hdisk.of_at? (not_mem_of_locate hscript) hat).2

namespace Unrelated

variable {parts : List Text} {bytes : List UInt8} (h : Unrelated s m parts bytes) (hdisk : s.disk.Proper)
  (hm : (subject s r).result = .ok m)

include h hdisk hm

theorem isFileName : ∀ part ∈ m.directory ++ parts, IsFileName part := by
  obtain ⟨_, -, -, hnames⟩ := names_of_subject hdisk hm
  exact List.forall_mem_append.mpr ⟨(List.forall_mem_append.mp hnames).1, h.names⟩

theorem name_ne : m.name ≠ relativeName parts := by
  obtain ⟨parts', hsplit, hname, hnames⟩ := names_of_subject hdisk hm
  rw [hname]
  intro heq
  obtain rfl : parts' = parts := relativeName_injective (List.forall_mem_append.mp hnames).2 h.names heq
  exact h.ne_script hsplit.symm

/-- What is read for the price is the same as before, except for other scripts of the new name. -/
theorem exists_subject (hreadable : isScript parts = true → ∃ source, Text.ofFile bytes = .ok source) :
    ∃ scripts', (subject (withFile s (m.directory ++ parts) bytes) r).result = .ok { m with scripts := scripts' } ∧
      Scripts.AgreeBut (relativeName parts) m.scripts scripts' := by
  obtain ⟨scripts, parts', source, hscript, hdirectory, hcatalog, hscripts, hparts, hsource, hall, hname⟩ :=
    subject_eq_ok_iff.mp hm
  have hpath := not_mem_of_isFileName (h.isFileName hdisk hm)
  obtain ⟨scripts', hscripts', hagree⟩ :=
    exists_loadScripts_withFile hdisk (h.isFileName hdisk hm) h.size h.takes hreadable hscripts
  refine ⟨scripts'.withScript m.name source, ?_, ?_⟩
  · refine subject_eq_ok_iff.mpr ⟨scripts', parts', source, locate_withFile hpath h.takes hscript,
      scriptsDirectory_withFile hpath h.takes hdirectory, locate_withFile hpath h.takes hcatalog, hscripts', hparts,
      readFile_withFile hpath h.takes (not_mem_of_locate hscript) h.ne_script hsource, ?_, hname⟩
    rw [hname]
  · rw [hall, ← hname]
    exact Scripts.AgreeBut.withScript hagree (h.name_ne hdisk hm) source

theorem computeCost_eq (hreadable : isScript parts = true → ∃ source, Text.ofFile bytes = .ok source)
    {name : Text} {b : Breakdown} (hcost : (computeCost s r).result = .ok (name, b)) :
    (computeCost (withFile s (m.directory ++ parts) bytes) r).result = .ok (name, b) := by
  obtain ⟨m', list, player, names, hm', hlist, hplayer, hnames, hb, hname⟩ := computeCost_eq_ok_iff.mp hcost
  cases hm.symm.trans hm'
  obtain ⟨scripts', hsubject, hagree⟩ := h.exists_subject hdisk hm hreadable
  obtain ⟨_, _, _, _, _, hcatalog, _⟩ := subject_eq_ok_iff.mp hm
  have hpath := not_mem_of_isFileName (h.isFileName hdisk hm)
  exact computeCost_eq_ok_iff.mpr ⟨_, list, player, names, hsubject,
    loadPrices_withFile hpath h.takes (not_mem_of_locate hcatalog) h.ne_catalog hlist, hplayer,
    Scripts.collectNames_congr (h.name_ne hdisk hm) hagree h.unmentioned hnames, hb, hname⟩

end Unrelated

end Task

/-- **Unrelated files do not matter.** If a script has been priced, a file can be put into the directory of the
scripts, and the same is printed with the same code. The file must not be the script or the catalog, and no import
in a script that is reached may mean it. If it has the name of a script, it must be possible to decode it. -/
theorem runProgram_withFile {s : Surroundings} {args : List Text} {v : Nat} {r : CostRequest} {format : ReportFormat}
    (hdisk : s.disk.Proper) (hargs : readArguments args = .ok ⟨v, some (.cost r format)⟩)
    (hexit : (runProgram s args).exit = exitFine) :
    ∃ m, (Task.subject s r).result = .ok m ∧ ∀ parts bytes, Task.Unrelated s m parts bytes →
      (Task.isScript parts = true → ∃ source, Text.ofFile bytes = .ok source) →
      (runProgram (Task.withFile s (m.directory ++ parts) bytes) args).exit = exitFine ∧
      (runProgram (Task.withFile s (m.directory ++ parts) bytes) args).output = (runProgram s args).output := by
  simp only [runProgram_eq hargs, Command.run] at hexit ⊢
  have hends : (Report.ofTask (.ofVerbosity v) (Command.runCost s r format)).exit ≠ exitHalted := by
    rw [hexit]
    decide
  obtain ⟨out, hout⟩ := Report.exists_ok_of_exit_ne hends
  obtain ⟨script, b, text, hcost, htext, rfl⟩ := Command.runCost_eq_ok_iff.mp hout
  obtain ⟨m, _, _, _, hm, -⟩ := Task.computeCost_eq_ok_iff.mp hcost
  refine ⟨m, hm, fun parts bytes hunrelated hreadable => ?_⟩
  have hcost' := hunrelated.computeCost_eq hdisk hm hreadable hcost
  have hout' := Command.runCost_eq_ok_iff.mpr ⟨script, b, text, hcost', htext, rfl⟩
  rw [Report.exit_of_ok hout', Report.output_of_ok hout', Report.output_of_ok hout]
  exact ⟨rfl, rfl⟩

/-! ## Two scripts and a third -/

/-- A disk with two scripts that import each other and a catalog with no prices. -/
def circularDisk : FileTree :=
  .directory [
    ("a.js", .file [105, 109, 112, 111, 114, 116, 39, 98, 39, 59, 102, 117, 110, 99, 116, 105, 111, 110, 32, 102, 40,
      41, 123, 125]),
    ("b.js", .file [105, 109, 112, 111, 114, 116, 39, 97, 39, 59, 102, 117, 110, 99, 116, 105, 111, 110, 32, 103, 40,
      41, 123, 125]),
    ("prices.json", .file [123, 125])]

def circularPlace : Surroundings := ⟨circularDisk, [], fun _ => none⟩

def circularRequest : CostRequest := ⟨"a.js", "prices.json", none, none, []⟩

def circularArguments : List Text := ["cost", "a.js", "--catalog", "prices.json"]

def circularSubject : Subject := ⟨["a.js"], [], ["prices.json"], .circular, "a.js"⟩

theorem circularDisk_proper : circularDisk.Proper := by
  refine .directory (by decide) ?_ ?_
  · simp only [List.forall_mem_cons, List.not_mem_nil, false_imp_iff, implies_true, and_true]
    refine ⟨?_, ?_, ?_⟩ <;> constructor <;> decide
  · simp only [List.forall_mem_cons, List.not_mem_nil, false_imp_iff, implies_true, and_true]
    exact ⟨.file (by decide), .file (by decide), .file (by decide)⟩

theorem circular_readArguments : readArguments circularArguments = .ok ⟨0, some (.cost circularRequest .summary)⟩ := by
  cbv

theorem circular_subject : (Task.subject circularPlace circularRequest).result = .ok circularSubject := by
  cbv

theorem circular_reaches {name : Text} (h : Scripts.circular.Reaches "a.js" name) :
    name = Text.ofString "a.js" ∨ name = Text.ofString "b.js" := by
  have hkey : Text.ofString "a.js" ∈ Scripts.circular.keys := List.mem_cons_self
  have hname := Scripts.mem_keys_of_mem_breadthFirst hkey ((Scripts.mem_breadthFirst_iff hkey).mpr h)
  simpa [Scripts.circular, Table.keys] using hname

/-- An import that cannot mean the name. -/
theorem not_mem_candidates {scripts : Scripts} {name source path word content added : Text}
    (hsource : Table.get? scripts name = some source) (h : Scripts.isImportAndFunction source path word = true)
    (hpath : Token.stringContent path = .ok content) (hadded : added ∉ candidates content) {p : Program}
    (hp : scripts.program? name = some p) : ∀ d ∈ p.imports, added ∉ candidates d.2 := by
  obtain ⟨q, d, hread, himports, -⟩ := Scripts.read_of_isImportAndFunction name h hpath
  obtain rfl : q = p := Option.some.inj ((Scripts.program?_eq_some_iff.mpr ⟨source, hsource, hread⟩).symm.trans hp)
  rw [himports]
  exact List.forall_mem_singleton.mpr hadded

theorem circular_unmentioned : Scripts.circular.Unmentioned "a.js" "c.js" := by
  intro name hname p hp
  rcases circular_reaches hname with rfl | rfl
  · exact not_mem_candidates rfl Scripts.circular_shape.1 rfl (by decide) hp
  · exact not_mem_candidates rfl Scripts.circular_shape.2 rfl (by decide) hp

theorem circular_unrelated {bytes : List UInt8} (h : bytes.length < 2 ^ 63) :
    Task.Unrelated circularPlace circularSubject ["c.js"] bytes := by
  constructor
  case names =>
    refine List.forall_mem_singleton.mpr ?_
    constructor <;> decide
  case size => exact h
  case takes => exact .inl rfl
  case ne_script => decide
  case ne_catalog => decide
  case unmentioned => exact circular_unmentioned

/-- The names that are used cost nothing. -/
theorem circular_exit : (runProgram circularPlace circularArguments).exit = exitFine := by
  let free : PriceList := ⟨⟨[], [], Catalog.defaultPriority⟩, .standard⟩
  have hlist : (Task.loadPrices circularPlace circularSubject.catalog).result = .ok free := rfl
  obtain ⟨names, hnames⟩ := Scripts.exists_collectNames_iff.mpr ⟨List.mem_cons_self, fun _ => Scripts.circular_sound⟩
  have hused : ∀ name ∈ names, name = Text.ofString "f" ∨ name = Text.ofString "g" := by
    intro name hname
    obtain ⟨script, hreaches, hname⟩ := (Scripts.mem_iff_of_collectNames hnames).mp hname
    rcases circular_reaches hreaches with rfl | rfl
    · rw [Scripts.circular_a.2.2] at hname
      exact .inl (List.mem_singleton.mp hname)
    · rw [Scripts.circular_b.2.2] at hname
      exact .inr (List.mem_singleton.mp hname)
  have hcharged : free.chargedNames (some ⟨1, []⟩) names = [] := by
    rw [PriceList.chargedNames, List.filter_eq_nil_iff.mpr]
    · rfl
    · intro name hname
      rcases hused name hname with rfl | rfl <;> decide
  have hcomputable : free.Computable (some ⟨1, []⟩) := by simp [PriceList.Computable, Catalog.prices, free]
  obtain ⟨line, hline⟩ := hcomputable.exists_line
  have hlines : free.lines line names = [free.baseLine] := by
    rw [PriceList.lines_eq_append hline, hcharged]
    rfl
  have hb : free.aggregate (some ⟨1, []⟩) names = .ok ⟨.real 1.6, [free.baseLine]⟩ := by
    rw [PriceList.aggregate_of_line hline, hlines]
    rfl
  obtain ⟨text, htext⟩ : ∃ text, Command.costReport .summary "a.js" ⟨.real 1.6, [free.baseLine]⟩ = .ok text :=
    ⟨_, rfl⟩
  have hcost := Task.computeCost_eq_ok_iff.mpr ⟨_, free, ⟨1, []⟩, names, circular_subject, hlist, rfl, hnames, hb, rfl⟩
  rw [runProgram_eq circular_readArguments, Command.run,
    Report.exit_of_ok (Command.runCost_eq_ok_iff.mpr ⟨_, _, text, hcost, htext, rfl⟩)]
  rfl

theorem runProgram_withFile_circular :
    circularDisk.Proper ∧ (runProgram circularPlace circularArguments).exit = exitFine ∧
      Task.Unrelated circularPlace circularSubject ["c.js"] [] ∧
      (runProgram (Task.withFile circularPlace ["c.js"] []) circularArguments).exit = exitFine ∧
      (runProgram (Task.withFile circularPlace ["c.js"] []) circularArguments).output =
        (runProgram circularPlace circularArguments).output := by
  have hunrelated : Task.Unrelated circularPlace circularSubject ["c.js"] [] := circular_unrelated (by decide)
  obtain ⟨m, hm, hkeeps⟩ := runProgram_withFile circularDisk_proper circular_readArguments circular_exit
  cases hm.symm.trans circular_subject
  exact ⟨circularDisk_proper, circular_exit, hunrelated, hkeeps _ _ hunrelated fun _ => ⟨[], rfl⟩⟩

/-- A file that cannot be decoded has nothing to do with the script, either, but with the name of a script it makes
the program halt. -/
theorem runProgram_withFile_undecodable :
    (Task.subject circularPlace circularRequest).result = .ok circularSubject ∧
      (runProgram circularPlace circularArguments).exit = exitFine ∧
      Task.Unrelated circularPlace circularSubject ["c.js"] [255] ∧
      (runProgram (Task.withFile circularPlace ["c.js"] [255]) circularArguments).exit = exitHalted := by
  refine ⟨circular_subject, circular_exit, circular_unrelated (by decide), ?_⟩
  have hscripts : (Task.loadScripts (Task.withFile circularPlace ["c.js"] [255]) []).result.isOk = false := by cbv
  by_contra hends
  rw [runProgram_eq circular_readArguments] at hends
  obtain ⟨out, hout⟩ := Report.exists_ok_of_exit_ne hends
  obtain ⟨_, _, _, hcost, -⟩ := Command.runCost_eq_ok_iff.mp hout
  obtain ⟨⟨script, directory, catalog, scripts, name⟩, _, _, _, hm, -⟩ := Task.computeCost_eq_ok_iff.mp hcost
  obtain ⟨_, _, _, hscript, hdirectory, -, hload, -⟩ := Task.subject_eq_ok_iff.mp hm
  cases hscript
  cases hdirectory
  rw [hload] at hscripts
  cases hscripts

end ScriptAudit
