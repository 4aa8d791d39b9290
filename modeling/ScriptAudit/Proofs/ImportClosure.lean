/-
What a survey of scripts goes through. `breadthFirst` puts a script and everything that it imports in
order without mention of a worklist. A survey reads the scripts in that order up to the first that cannot
be read or has an import that names no script (`survey_eq_readAll`), whatever cycles there are, and so
the names it collects and the error it ends with are those of `collectNames_exact`.
-/
import ScriptAudit.Proofs.BreadthFirst
import ScriptAudit.Proofs.Matcher
import ScriptAudit.Proofs.Preorder
import ScriptAudit.Script.Imports

namespace ScriptAudit

theorem mem_of_resolveImport {path target : Text} {names : List Text}
    (h : resolveImport path names = some target) : target ∈ names := by
  have := List.find?_some h
  simpa using this

/-! ## The imports of one script -/

/-- If all imports name scripts, those are the targets. -/
theorem resolveImports_of_forall {names : List Text} (p : Program) {imports : List (Tree × Text)}
    (h : ∀ d ∈ imports, (resolveImport d.2 names).isSome) :
    resolveImports names p imports = (imports.filterMap fun d => resolveImport d.2 names, none) := by
  induction imports with
  | nil => rfl
  | cons d imports ih =>
    obtain ⟨target, htarget⟩ := Option.isSome_iff_exists.mp (h d List.mem_cons_self)
    simp only [resolveImports, List.filterMap_cons, htarget,
      ih fun d hd => h d (List.mem_cons_of_mem _ hd)]

/-- The error is about the first import that names no script. -/
theorem resolveImports_of_split {names : List Text} (p : Program) {before after : List (Tree × Text)}
    {declaration : Tree} {path : Text} (h : ∀ d ∈ before, (resolveImport d.2 names).isSome)
    (hnone : resolveImport path names = none) :
    (resolveImports names p (before ++ (declaration, path) :: after)).2 =
      some (.unresolved path p.filename (p.placeOf declaration) []) := by
  induction before with
  | nil => simp only [List.nil_append, resolveImports, hnone]
  | cons d before ih =>
    obtain ⟨target, htarget⟩ := Option.isSome_iff_exists.mp (h d List.mem_cons_self)
    have := ih fun d hd => h d (List.mem_cons_of_mem _ hd)
    simpa only [List.cons_append, resolveImports, htarget] using this

theorem exists_first_unresolved {names : List Text} {imports : List (Tree × Text)}
    (h : ¬ ∀ d ∈ imports, (resolveImport d.2 names).isSome) :
    ∃ before declaration path after, imports = before ++ (declaration, path) :: after ∧
      (∀ d ∈ before, (resolveImport d.2 names).isSome) ∧ resolveImport path names = none := by
  induction imports with
  | nil => exact absurd nofun h
  | cons d imports ih =>
    by_cases hd : (resolveImport d.2 names).isSome
    · have hrest : ¬ ∀ d ∈ imports, (resolveImport d.2 names).isSome := by
        intro hrest
        exact h (List.forall_mem_cons.mpr ⟨hd, hrest⟩)
      obtain ⟨before, declaration, path, after, heq, hbefore, hnone⟩ := ih hrest
      exact ⟨d :: before, declaration, path, after, by rw [heq, List.cons_append],
        List.forall_mem_cons.mpr ⟨hd, hbefore⟩, hnone⟩
    · exact ⟨[], d.1, d.2, imports, rfl, nofun, by simpa using hd⟩

/-- The names of the scripts that were read, in order. -/
def Survey.filesRead (s : Survey) : List Text := s.visits.map (·.program.filename)

namespace Scripts

variable (scripts : Scripts)

/-- The script of a name, if it can be read. -/
def program? (name : Text) : Option Program :=
  (Table.get? scripts name).bind fun source => (Program.read source name).toOption

/-- The scripts that the imports of a script name, in order. -/
def targets (name : Text) : List Text :=
  (scripts.program? name).toList.flatMap fun p =>
    p.imports.filterMap fun d => resolveImport d.2 scripts.keys

def namesOf (name : Text) : List Text :=
  (scripts.program? name).toList.flatMap fun p => p.root.referencedNames

/-- The one script has an import that names the other. -/
def Imports (name target : Text) : Prop :=
  ∃ p, scripts.program? name = some p ∧ ∃ d ∈ p.imports, resolveImport d.2 scripts.keys = some target

/-- The one script imports the other, directly or not, or is that script. -/
abbrev Reaches : Text → Text → Prop := Relation.ReflTransGen scripts.Imports

/-- A script and everything it imports, in breadth-first order. -/
def breadthFirst (filename : Text) : List Text :=
  (wave scripts.targets filename scripts.keys.length).seen

/-- The script can be read, and all its imports name scripts. -/
def Sound (name : Text) : Prop :=
  ∃ p, scripts.program? name = some p ∧ ∀ d ∈ p.imports, (resolveImport d.2 scripts.keys).isSome

/-- The script cannot be read, with this error. -/
def Unreadable (name : Text) (error : AuditError) : Prop :=
  ∃ source, Table.get? scripts name = some source ∧ Program.read source name = .error error

/-- The script can be read, and the error is about its first import that names no script, at the place
where that one begins. -/
def Unresolved (name : Text) (error : AuditError) : Prop :=
  ∃ p, scripts.program? name = some p ∧ ∃ before declaration path after,
    p.imports = before ++ (declaration, path) :: after ∧
    (∀ d ∈ before, (resolveImport d.2 scripts.keys).isSome) ∧
    resolveImport path scripts.keys = none ∧
    error = .unresolved path name (.point name (p.source.lineAt declaration.span.start)
      (p.source.columnAt declaration.span.start)) []

variable {scripts} {name : Text}

theorem program?_eq_some_iff {p : Program} : scripts.program? name = some p ↔
    ∃ source, Table.get? scripts name = some source ∧ Program.read source name = .ok p := by
  rw [program?, Option.bind_eq_some_iff]
  refine exists_congr fun source => and_congr_right fun _ => ?_
  cases Program.read source name with
  | error error => exact ⟨nofun, nofun⟩
  | ok q => simp [Except.toOption]

theorem filename_of_program? {p : Program} (h : scripts.program? name = some p) : p.filename = name := by
  obtain ⟨source, -, hread⟩ := program?_eq_some_iff.mp h
  obtain ⟨-, -, -, -, -, -, hname⟩ := settles_of_parse (read_eq_ok_iff.mp hread)
  exact hname

theorem mem_targets_iff {target : Text} : target ∈ scripts.targets name ↔ scripts.Imports name target := by
  simp only [targets, Imports, List.mem_flatMap, Option.mem_toList, List.mem_filterMap]

theorem targets_subset : scripts.targets name ⊆ scripts.keys := by
  intro target h
  obtain ⟨_, _, _, _, htarget⟩ := mem_targets_iff.mp h
  exact mem_of_resolveImport htarget

/-- The breadth-first order has just what can be reached. -/
theorem mem_breadthFirst_iff {filename : Text} (h : filename ∈ scripts.keys) :
    name ∈ scripts.breadthFirst filename ↔ scripts.Reaches filename name := by
  rw [breadthFirst, mem_seen_iff h (fun _ => targets_subset) (Nat.le_refl _)]
  simp only [mem_targets_iff]

theorem mem_keys_of_mem_breadthFirst {filename : Text} (h : filename ∈ scripts.keys)
    (hname : name ∈ scripts.breadthFirst filename) : name ∈ scripts.keys := by
  rcases Relation.ReflTransGen.cases_tail ((mem_breadthFirst_iff h).mp hname) with rfl | ⟨_, -, himports⟩
  · exact h
  · exact targets_subset (mem_targets_iff.mpr himports)

/-! ## One script after the other -/

variable (scripts) in
/-- Reads one script, and then the rest if there is nothing wrong with it. -/
def enter (name : Text) (rest : Survey) : Survey :=
  match Table.get? scripts name with
  | none => rest
  | some source =>
    match Program.read source name with
    | .error error => .failed error
    | .ok program =>
      let (targets, failure) := resolveImports scripts.keys program program.imports
      .after ⟨program, targets⟩ <| match failure with
        | some error => .failed error
        | none => rest

/-- Reads the scripts of a list one after the other. -/
def readAll (scripts : Scripts) (names : List Text) (rest : Survey) : Survey := names.foldr scripts.enter rest

theorem get?_of_mem_keys (h : name ∈ scripts.keys) : ∃ source, Table.get? scripts name = some source := by
  obtain ⟨entry, hentry, rfl⟩ := List.mem_map.mp h
  have : (scripts.find? (·.1 == entry.1)).isSome := List.find?_isSome.mpr ⟨entry, hentry, by simp⟩
  obtain ⟨found, hfound⟩ := Option.isSome_iff_exists.mp this
  exact ⟨found.2, by rw [Table.get?, hfound]; rfl⟩

theorem enter_of_sound (h : scripts.Sound name) : ∃ visit : Visit,
    scripts.program? name = some visit.program ∧ ∀ rest, scripts.enter name rest = .after visit rest := by
  obtain ⟨p, hp, hall⟩ := h
  obtain ⟨source, hsource, hread⟩ := program?_eq_some_iff.mp hp
  refine ⟨⟨p, (resolveImports scripts.keys p p.imports).1⟩, hp, fun rest => ?_⟩
  simp only [enter, hsource, hread, resolveImports_of_forall p hall]

theorem enter_of_unreadable {error : AuditError} (h : scripts.Unreadable name error) (rest : Survey) :
    scripts.enter name rest = .failed error := by
  obtain ⟨source, hsource, hread⟩ := h
  simp only [enter, hsource, hread]

theorem enter_of_unresolved {error : AuditError} (h : scripts.Unresolved name error) : ∃ visit : Visit,
    visit.program.filename = name ∧ ∀ rest, scripts.enter name rest = .after visit (.failed error) := by
  obtain ⟨p, hp, before, declaration, path, after, himports, hbefore, hnone, rfl⟩ := h
  obtain ⟨source, hsource, hread⟩ := program?_eq_some_iff.mp hp
  have hname := filename_of_program? hp
  refine ⟨⟨p, (resolveImports scripts.keys p p.imports).1⟩, hname, fun rest => ?_⟩
  simp only [enter, hsource, hread, himports, resolveImports_of_split p hbefore hnone, hname,
    Program.placeOf, Program.lineOf, Program.columnOf]

theorem not_sound_of_error {error : AuditError}
    (h : scripts.Unreadable name error ∨ scripts.Unresolved name error) : ¬ scripts.Sound name := by
  rintro ⟨p, hp, hall⟩
  rcases h with ⟨source, hsource, hread⟩ | ⟨q, hq, before, declaration, path, after, himports, -, hnone, -⟩
  · obtain ⟨source', hsource', hread'⟩ := program?_eq_some_iff.mp hp
    obtain rfl : source = source' := by simpa [hsource] using hsource'
    rw [hread] at hread'
    cases hread'
  · obtain rfl : p = q := by simpa [hp] using hq
    have := hall (declaration, path) (by rw [himports]; simp)
    simp [hnone] at this

/-- A script is sound, or it cannot be read, or it has a first import that names nothing. -/
theorem sound_or_error (h : name ∈ scripts.keys) :
    scripts.Sound name ∨ ∃ error, scripts.Unreadable name error ∨ scripts.Unresolved name error := by
  obtain ⟨source, hsource⟩ := get?_of_mem_keys h
  cases hread : Program.read source name with
  | error error => exact .inr ⟨error, .inl ⟨source, hsource, hread⟩⟩
  | ok p =>
    have hp : scripts.program? name = some p := program?_eq_some_iff.mpr ⟨source, hsource, hread⟩
    by_cases hall : ∀ d ∈ p.imports, (resolveImport d.2 scripts.keys).isSome
    · exact .inl ⟨p, hp, hall⟩
    · obtain ⟨before, declaration, path, after, himports, hbefore, hnone⟩ := exists_first_unresolved hall
      exact .inr ⟨_, .inr ⟨p, hp, before, declaration, path, after, himports, hbefore, hnone, rfl⟩⟩

/-! ## The worklist -/

theorem explore_nil (visited : List Text) : scripts.explore visited [] = .finished := by
  rw [explore]

theorem explore_cons_of_mem {visited pending : List Text} (h : name ∈ visited) :
    scripts.explore visited (name :: pending) = scripts.explore visited pending := by
  rw [explore, dif_pos (List.contains_iff_mem.mpr h)]

/-- What a script that is not sound imports does not matter, since nothing is read after it. -/
theorem explore_cons_of_not_mem {visited pending : List Text} (hname : name ∈ scripts.keys)
    (h : name ∉ visited) : scripts.explore visited (name :: pending) =
      scripts.enter name (scripts.explore (name :: visited) (pending ++ scripts.targets name)) := by
  obtain ⟨source, hsource⟩ := get?_of_mem_keys hname
  rw [explore, dif_neg (by rwa [List.contains_iff_mem])]
  split
  · rename_i hnone
    rw [hsource] at hnone
    cases hnone
  · rename_i source' hsource'
    obtain rfl : source = source' := by simpa [hsource] using hsource'
    cases hread : Program.read source name with
    | error error => simp only [enter, hsource, hread]
    | ok p =>
      have hp : scripts.program? name = some p := program?_eq_some_iff.mpr ⟨source, hsource, hread⟩
      by_cases hall : ∀ d ∈ p.imports, (resolveImport d.2 scripts.keys).isSome
      · have htargets : scripts.targets name =
            p.imports.filterMap fun d => resolveImport d.2 scripts.keys := by simp [targets, hp]
        simp only [enter, hsource, hread, resolveImports_of_forall p hall, htargets]
      · obtain ⟨before, declaration, path, after, himports, hbefore, hnone⟩ :=
          exists_first_unresolved hall
        simp only [enter, hsource, hread, himports, resolveImports_of_split p hbefore hnone]

/-- One round of the worklist: what is new among the scripts at its front is read in order, and then
come the scripts that were behind and what the new ones import. -/
theorem explore_append (visited : List Text) {pending : List Text} (rest : List Text)
    (h : pending ⊆ scripts.keys) :
    scripts.explore visited (pending ++ rest) =
      scripts.readAll (fresh visited pending) (scripts.explore ((fresh visited pending).reverse ++ visited)
        (rest ++ (fresh visited pending).flatMap scripts.targets)) := by
  induction pending generalizing visited rest with
  | nil => simp [fresh, readAll]
  | cons name pending ih =>
    obtain ⟨hname, hpending⟩ := List.cons_subset.mp h
    by_cases hmem : name ∈ visited
    · rw [fresh_cons_of_mem hmem, List.cons_append, explore_cons_of_mem hmem, ih _ _ hpending]
    · rw [fresh_cons_of_not_mem hmem, List.cons_append, explore_cons_of_not_mem hname hmem,
        List.append_assoc, ih _ _ hpending]
      simp only [readAll, List.foldr_cons, List.reverse_cons, List.append_assoc, List.cons_append,
        List.nil_append, List.flatMap_cons]

/-- After any number of rounds the scripts seen so far have been read, and what the last of them import
is to be read next. -/
theorem explore_eq_readAll_wave {filename : Text} (h : filename ∈ scripts.keys) (n : Nat) :
    ∃ visited, (∀ name, name ∈ visited ↔ name ∈ (wave scripts.targets filename n).seen) ∧
      scripts.explore [] [filename] = scripts.readAll (wave scripts.targets filename n).seen
        (scripts.explore visited ((wave scripts.targets filename n).front.flatMap scripts.targets)) := by
  induction n with
  | zero =>
    refine ⟨[filename], fun _ => Iff.rfl, ?_⟩
    rw [explore_cons_of_not_mem h List.not_mem_nil]
    simp [wave, readAll]
  | succ n ih =>
    obtain ⟨visited, hvisited, heq⟩ := ih
    let w := wave scripts.targets filename n
    have hfront : w.front.flatMap scripts.targets ⊆ scripts.keys := by
      intro target htarget
      obtain ⟨_, _, htarget⟩ := List.mem_flatMap.mp htarget
      exact targets_subset htarget
    have hround := explore_append visited [] hfront
    rw [List.append_nil, List.nil_append, fresh_congr hvisited] at hround
    refine ⟨(fresh w.seen (w.front.flatMap scripts.targets)).reverse ++ visited, ?_, ?_⟩
    · intro name
      simp only [List.mem_append, List.mem_reverse, hvisited, wave, Wave.advance]
      exact Or.comm
    · rw [heq, hround]
      simp only [readAll, wave, Wave.advance, List.foldr_append]
      rfl

/-- A survey reads the scripts in breadth-first order. -/
theorem survey_eq_readAll {filename : Text} (h : filename ∈ scripts.keys) :
    scripts.survey filename = scripts.readAll (scripts.breadthFirst filename) .finished := by
  obtain ⟨visited, -, heq⟩ := explore_eq_readAll_wave h scripts.keys.length
  rw [front_eq_nil h (fun _ => targets_subset) (Nat.le_refl _), List.flatMap_nil, explore_nil] at heq
  rw [survey, if_pos (List.contains_iff_mem.mpr h), heq, breadthFirst]

/-! ## What comes of reading a list -/

theorem readAll_of_sound {names : List Text} (h : ∀ name ∈ names, scripts.Sound name) :
    ∃ visits : List Visit, visits.map (·.program.filename) = names ∧
      (visits.flatMap fun visit => visit.program.root.referencedNames) = names.flatMap scripts.namesOf ∧
      ∀ rest, scripts.readAll names rest = ⟨visits ++ rest.visits, rest.failure⟩ := by
  induction names with
  | nil => exact ⟨[], rfl, rfl, fun _ => rfl⟩
  | cons name names ih =>
    obtain ⟨hname, hnames⟩ := List.forall_mem_cons.mp h
    obtain ⟨visit, hp, henter⟩ := enter_of_sound hname
    obtain ⟨visits, hfiles, hused, hread⟩ := ih hnames
    refine ⟨visit :: visits, ?_, ?_, fun rest => ?_⟩
    · rw [List.map_cons, hfiles, filename_of_program? hp]
    · rw [List.flatMap_cons, List.flatMap_cons, hused]
      simp [namesOf, hp]
    · have := hread rest
      simp only [readAll, List.foldr_cons] at this ⊢
      rw [this, henter]
      rfl

/-- The scripts of a list are all sound, or there is a first one that is not. -/
theorem sound_or_first_error {names : List Text} (h : names ⊆ scripts.keys) :
    (∀ name ∈ names, scripts.Sound name) ∨ ∃ before name after error, names = before ++ name :: after ∧
      (∀ other ∈ before, scripts.Sound other) ∧
      (scripts.Unreadable name error ∨ scripts.Unresolved name error) := by
  induction names with
  | nil => exact .inl nofun
  | cons name names ih =>
    obtain ⟨hname, hnames⟩ := List.cons_subset.mp h
    rcases sound_or_error hname with hsound | ⟨error, herror⟩
    · rcases ih hnames with hall | ⟨before, other, after, error, heq, hbefore, herror⟩
      · exact .inl (List.forall_mem_cons.mpr ⟨hsound, hall⟩)
      · exact .inr ⟨name :: before, other, after, error, by rw [heq, List.cons_append],
          List.forall_mem_cons.mpr ⟨hsound, hbefore⟩, herror⟩
    · exact .inr ⟨[], name, names, error, rfl, nofun, herror⟩

theorem readAll_of_error {before : List Text} (after : List Text) {error : AuditError}
    (hbefore : ∀ other ∈ before, scripts.Sound other)
    (h : scripts.Unreadable name error ∨ scripts.Unresolved name error) :
    ∃ s, scripts.readAll (before ++ name :: after) .finished = s ∧ s.failure = some error ∧
      (scripts.Unreadable name error ∧ s.filesRead = before ∨
        scripts.Unresolved name error ∧ s.filesRead = before ++ [name]) := by
  obtain ⟨visits, hfiles, -, hread⟩ := readAll_of_sound hbefore
  have hsplit : scripts.readAll (before ++ name :: after) .finished =
      scripts.readAll before (scripts.enter name (scripts.readAll after .finished)) := by
    simp only [readAll, List.foldr_append, List.foldr_cons]
  rw [hsplit, hread]
  refine ⟨_, rfl, ?_⟩
  rcases h with h | h
  · rw [enter_of_unreadable h]
    exact ⟨rfl, .inl ⟨h, by simp [Survey.filesRead, Survey.failed, hfiles]⟩⟩
  · obtain ⟨visit, hname, henter⟩ := enter_of_unresolved h
    rw [henter]
    exact ⟨rfl, .inr ⟨h, by simp [Survey.filesRead, Survey.after, Survey.failed, hfiles, hname]⟩⟩

/-! ## The names -/

theorem nodup_breadthFirst (filename : Text) : (scripts.breadthFirst filename).Nodup := nodup_seen _

/-- Either everything is sound, and a survey reads all of it, or a survey ends at the first script in
breadth-first order that is not sound. -/
theorem survey_cases {filename : Text} (h : filename ∈ scripts.keys) :
    ((∀ name, scripts.Reaches filename name → scripts.Sound name) ∧
      (scripts.survey filename).failure = none ∧
      (scripts.survey filename).filesRead = scripts.breadthFirst filename ∧
      (scripts.survey filename).names =
        ((scripts.breadthFirst filename).flatMap scripts.namesOf).eraseDups) ∨
    ∃ before name after error, scripts.breadthFirst filename = before ++ name :: after ∧
      (∀ other ∈ before, scripts.Sound other) ∧ ¬ scripts.Sound name ∧
      (scripts.survey filename).failure = some error ∧
      (scripts.Unreadable name error ∧ (scripts.survey filename).filesRead = before ∨
        scripts.Unresolved name error ∧ (scripts.survey filename).filesRead = before ++ [name]) := by
  have hkeys : scripts.breadthFirst filename ⊆ scripts.keys := fun _ => mem_keys_of_mem_breadthFirst h
  rw [survey_eq_readAll h]
  rcases sound_or_first_error hkeys with hall | ⟨before, name, after, error, heq, hbefore, herror⟩
  · obtain ⟨visits, hfiles, hused, hread⟩ := readAll_of_sound hall
    refine .inl ⟨fun name hname => hall name ((mem_breadthFirst_iff h).mpr hname), ?_⟩
    rw [hread]
    simp only [Survey.finished, List.append_nil, Survey.filesRead, Survey.names, hfiles, hused, and_self]
  · obtain ⟨s, hs, hfailure, hfiles⟩ := readAll_of_error after hbefore herror
    rw [heq, hs]
    exact .inr ⟨before, name, after, error, rfl, hbefore, not_sound_of_error herror, hfailure, hfiles⟩

theorem filesRead_prefix (scripts : Scripts) (filename : Text) :
    (scripts.survey filename).filesRead <+: scripts.breadthFirst filename := by
  by_cases h : filename ∈ scripts.keys
  · rcases survey_cases h with ⟨-, -, hfiles, -⟩ | ⟨before, name, after, error, heq, -, -, -, hfiles⟩
    · exact ⟨[], by rw [hfiles, List.append_nil]⟩
    · rw [heq]
      rcases hfiles with ⟨-, hfiles⟩ | ⟨-, hfiles⟩
      · exact ⟨name :: after, by rw [hfiles]⟩
      · exact ⟨after, by rw [hfiles, List.append_assoc, List.singleton_append]⟩
  · rw [survey, if_neg (by rwa [List.contains_iff_mem])]
    exact List.nil_prefix

theorem collectNames_eq_ok_iff {filename : Text} {names : List Text} :
    scripts.collectNames filename = .ok names ↔
      (scripts.survey filename).failure = none ∧ names = (scripts.survey filename).names := by
  cases hfailure : (scripts.survey filename).failure with
  | none => simp [collectNames, hfailure, eq_comm]
  | some error => simp [collectNames, hfailure]

theorem collectNames_eq_error_iff {filename : Text} {error : AuditError} :
    scripts.collectNames filename = .error error ↔ (scripts.survey filename).failure = some error := by
  cases hfailure : (scripts.survey filename).failure with
  | none => simp [collectNames, hfailure]
  | some error => simp [collectNames, hfailure]

theorem mem_keys_of_collectNames {filename : Text} {names : List Text}
    (h : scripts.collectNames filename = .ok names) : filename ∈ scripts.keys := by
  apply Classical.byContradiction
  intro hn
  have hfailure := (collectNames_eq_ok_iff.mp h).1
  rw [survey, if_neg (by rwa [List.contains_iff_mem])] at hfailure
  cases hfailure

/-- Names are collected from scripts that are sound, and from no others. -/
theorem exists_collectNames_iff {filename : Text} :
    (∃ names, scripts.collectNames filename = .ok names) ↔
      filename ∈ scripts.keys ∧ ∀ name, scripts.Reaches filename name → scripts.Sound name := by
  constructor
  · rintro ⟨names, hnames⟩
    have hkey := mem_keys_of_collectNames hnames
    refine ⟨hkey, ?_⟩
    rcases survey_cases hkey with ⟨hall, -⟩ | ⟨_, _, _, _, _, _, _, hfailure, _⟩
    · exact hall
    · rw [(collectNames_eq_ok_iff.mp hnames).1] at hfailure
      cases hfailure
  · rintro ⟨hkey, hall⟩
    rcases survey_cases hkey with ⟨-, hfailure, -⟩ | ⟨before, name, after, _, heq, _, hname, _⟩
    · exact ⟨_, collectNames_eq_ok_iff.mpr ⟨hfailure, rfl⟩⟩
    · have hmem : name ∈ scripts.breadthFirst filename := by rw [heq]; simp
      exact absurd (hall name ((mem_breadthFirst_iff hkey).mp hmem)) hname

theorem eq_of_collectNames {filename : Text} {names : List Text}
    (h : scripts.collectNames filename = .ok names) :
    names = ((scripts.breadthFirst filename).flatMap scripts.namesOf).eraseDups := by
  obtain ⟨hnone, hnames⟩ := collectNames_eq_ok_iff.mp h
  rcases survey_cases (mem_keys_of_collectNames h) with ⟨-, -, -, horder⟩ | ⟨_, _, _, _, _, _, _, hfailure, _⟩
  · rw [hnames, horder]
  · rw [hnone] at hfailure
    cases hfailure

theorem nodup_of_collectNames {filename : Text} {names : List Text}
    (h : scripts.collectNames filename = .ok names) : names.Nodup := by
  rw [eq_of_collectNames h]
  exact nodup_eraseDups _

theorem mem_iff_of_collectNames {filename : Text} {names : List Text}
    (h : scripts.collectNames filename = .ok names) {x : Text} :
    x ∈ names ↔ ∃ name, scripts.Reaches filename name ∧ x ∈ scripts.namesOf name := by
  simp only [eq_of_collectNames h, List.mem_eraseDups, List.mem_flatMap,
    mem_breadthFirst_iff (mem_keys_of_collectNames h)]

/-- **Names are collected exactly.** No script is read twice. The names are collected if and only if the
script is there, everything that it reaches can be read and all imports in that name scripts; then they
are the names of the scripts in breadth-first order, each where it is used first. Otherwise the error is
about the first script in that order that cannot be read or has an import that names nothing, and about
the first such import. -/
theorem collectNames_exact (scripts : Scripts) (filename : Text) :
    ((scripts.breadthFirst filename).Nodup ∧
      (scripts.survey filename).filesRead <+: scripts.breadthFirst filename) ∧
    ((∃ names, scripts.collectNames filename = .ok names) ↔
      filename ∈ scripts.keys ∧ ∀ name, scripts.Reaches filename name → scripts.Sound name) ∧
    (∀ names, scripts.collectNames filename = .ok names → names.Nodup ∧
      (∀ x, x ∈ names ↔ ∃ name, scripts.Reaches filename name ∧ x ∈ scripts.namesOf name) ∧
      (∀ name, name ∈ scripts.breadthFirst filename ↔ scripts.Reaches filename name) ∧
      names = ((scripts.breadthFirst filename).flatMap scripts.namesOf).eraseDups) ∧
    (∀ error, filename ∈ scripts.keys → scripts.collectNames filename = .error error →
      ∃ before name after, scripts.breadthFirst filename = before ++ name :: after ∧
        (∀ other ∈ before, scripts.Sound other) ∧
        (scripts.Unreadable name error ∧ (scripts.survey filename).filesRead = before ∨
          scripts.Unresolved name error ∧ (scripts.survey filename).filesRead = before ++ [name])) := by
  refine ⟨⟨nodup_breadthFirst filename, filesRead_prefix scripts filename⟩, exists_collectNames_iff, ?_, ?_⟩
  · intro names h
    exact ⟨nodup_of_collectNames h, fun _ => mem_iff_of_collectNames h,
      fun _ => mem_breadthFirst_iff (mem_keys_of_collectNames h), eq_of_collectNames h⟩
  · intro error hkey herror
    have hsome := collectNames_eq_error_iff.mp herror
    rcases survey_cases hkey with ⟨-, hnone, -⟩ | ⟨before, name, after, _, heq, hbefore, -, hfailure, hfiles⟩
    · rw [hsome] at hnone
      cases hnone
    · rw [hsome] at hfailure
      cases hfailure
      exact ⟨before, name, after, heq, hbefore, hfiles⟩

/-! ## Scripts that import each other -/

/-- The source has an import and a function that does nothing, and nothing else. -/
def isImportAndFunction (source path name : Text) : Bool :=
  match scriptGrammar.eval 40 .program (Cursor.start source) with
  | some (.found [⟨.importDeclaration [] path', _⟩, ⟨.functionDeclaration ⟨.identifier name', _⟩ []
      ⟨.blockStatement [], _⟩ false false, _⟩] next) => path' == path && name' == name && next.atEnd
  | _ => false

theorem read_of_isImportAndFunction {source path name content : Text} (filename : Text)
    (h : isImportAndFunction source path name = true) (hpath : Token.stringContent path = .ok content) :
    ∃ p d, Program.read source filename = .ok p ∧ p.imports = [(d, content)] ∧
      p.root.referencedNames = [name] := by
  unfold isImportAndFunction at h
  split at h
  · rename_i path' span name' span₁ span₂ span₃ next heval
    simp only [Bool.and_eq_true, beq_iff_eq] at h
    obtain ⟨⟨rfl, rfl⟩, hend⟩ := h
    have hbody : Sketch.readList [⟨.importDeclaration [] path', span⟩, ⟨.functionDeclaration
          ⟨.identifier name', span₁⟩ [] ⟨.blockStatement [], span₂⟩ false false, span₃⟩] =
        .ok [⟨.importDeclaration [] content, span⟩, ⟨.functionDeclaration ⟨.identifier name', span₁⟩ []
          ⟨.blockStatement [], span₂⟩ false false, span₃⟩] := by
      simp only [Sketch.readList, Sketch.read, Sketch.readForm, hpath]
      rfl
    refine ⟨_, ⟨.importDeclaration [] content, span⟩,
      read_eq_ok_iff.mpr (parse_of_eval (by decide) heval hend hbody), ?_, ?_⟩
    · simp [Program.imports, Program.root, Node.nodes_eq, Node.children, Form.children, Form.slots,
        Slot.children]
    · simp only [Node.referencedNames, Program.root, Node.preorder_eq, Descent.pastKeys, Node.children,
        Form.children, Form.slots, Slot.children, List.flatMap_cons, List.flatMap_nil, List.append_nil,
        List.nil_append, List.cons_append]
      rfl
  · cases h

def circular : Scripts :=
  [("a.js", "import'b';function f()\x7b\x7d"), ("b.js", "import'a';function g()\x7b\x7d")]

/-- What there is to know about a script of this kind whose import names a script. -/
theorem of_isImportAndFunction {source path word content target : Text}
    (hsource : Table.get? scripts name = some source)
    (h : isImportAndFunction source path word = true) (hpath : Token.stringContent path = .ok content)
    (htarget : resolveImport content scripts.keys = some target) :
    scripts.Sound name ∧ scripts.targets name = [target] ∧ scripts.namesOf name = [word] := by
  obtain ⟨p, d, hread, himports, hused⟩ := read_of_isImportAndFunction name h hpath
  have hp : scripts.program? name = some p := program?_eq_some_iff.mpr ⟨source, hsource, hread⟩
  refine ⟨⟨p, hp, ?_⟩, ?_, ?_⟩
  · simp [himports, htarget]
  · simp [targets, hp, himports, htarget]
  · simp [namesOf, hp, hused]

theorem circular_shape : isImportAndFunction "import'b';function f()\x7b\x7d" "'b'" "f" = true ∧
    isImportAndFunction "import'a';function g()\x7b\x7d" "'a'" "g" = true := by decide +kernel

theorem circular_a : circular.Sound "a.js" ∧ circular.targets "a.js" = [Text.ofString "b.js"] ∧
    circular.namesOf "a.js" = [Text.ofString "f"] :=
  of_isImportAndFunction rfl circular_shape.1 rfl (by decide)

theorem circular_b : circular.Sound "b.js" ∧ circular.targets "b.js" = [Text.ofString "a.js"] ∧
    circular.namesOf "b.js" = [Text.ofString "g"] :=
  of_isImportAndFunction rfl circular_shape.2 rfl (by decide)

theorem circular_imports : circular.Imports "a.js" "b.js" ∧ circular.Imports "b.js" "a.js" :=
  ⟨mem_targets_iff.mp (by simp [circular_a]), mem_targets_iff.mp (by simp [circular_b])⟩

theorem circular_sound (h : circular.Reaches "a.js" name) : circular.Sound name := by
  have hkey : Text.ofString "a.js" ∈ circular.keys := List.mem_cons_self
  have hname := mem_keys_of_mem_breadthFirst hkey ((mem_breadthFirst_iff hkey).mpr h)
  simp only [circular, Table.keys, List.map_cons, List.map_nil, List.mem_cons, List.not_mem_nil,
    or_false] at hname
  rcases hname with rfl | rfl
  · exact circular_a.1
  · exact circular_b.1

theorem collectNames_exact_circular :
    circular.Imports "a.js" "b.js" ∧ circular.Imports "b.js" "a.js" ∧
      circular.collectNames "a.js" = .ok ["f", "g"] := by
  obtain ⟨-, hta, hna⟩ := circular_a
  obtain ⟨-, htb, hnb⟩ := circular_b
  refine ⟨circular_imports.1, circular_imports.2, ?_⟩
  obtain ⟨-, hok, hnames, -⟩ := collectNames_exact circular "a.js"
  obtain ⟨names, h⟩ := hok.mpr ⟨List.mem_cons_self, fun _ => circular_sound⟩
  obtain ⟨-, -, -, heq⟩ := hnames names h
  have horder : circular.breadthFirst "a.js" = [Text.ofString "a.js", Text.ofString "b.js"] := by
    have hfirst : fresh [Text.ofString "a.js"] [Text.ofString "b.js"] = [Text.ofString "b.js"] := by
      decide
    have hsecond : fresh [Text.ofString "a.js", Text.ofString "b.js"] [Text.ofString "a.js"] = [] := by
      decide
    change (wave circular.targets "a.js" 2).seen = _
    simp only [wave, Wave.advance, List.flatMap_cons, List.flatMap_nil, List.append_nil, hta, htb, hfirst,
      hsecond, List.cons_append, List.nil_append]
  rw [h, heq, horder]
  simp only [List.flatMap_cons, List.flatMap_nil, List.append_nil, List.cons_append, List.nil_append, hna,
    hnb]
  rfl

end Scripts

end ScriptAudit
