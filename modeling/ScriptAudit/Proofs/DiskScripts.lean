/-
Scripts on a disk. A directory of a disk has each name once, and no name has a slash in it, so a file is at
one path (`at?_of_mem_files`) and the names that scripts have for each other are of different files
(`relativeName_injective`). A script that is found under its name among the scripts of a directory is
therefore the one that is read at its own path (`eq_of_loadScripts`).
-/
import Mathlib.Algebra.Group.Nat.Defs
import ScriptAudit.Command.Task
import ScriptAudit.Proofs.Outcomes

namespace ScriptAudit

/-! ## What a disk can hold -/

/-- Names of files have no slashes and are not the names of this directory or the one above. -/
structure IsFileName (name : Text) : Prop where
  ne_nil : name ≠ []
  ne_here : name ≠ "."
  ne_parent : name ≠ parentMark
  no_slash : CodePoint.ofChar '/' ∉ name

/-- What every disk is like: the names in a directory are names of files and distinct, and no file has 2⁶³
bytes or more. -/
inductive FileTree.Proper : FileTree → Prop
  | file {bytes : List UInt8} (size : bytes.length < 2 ^ 63) : Proper (.file bytes)
  | directory {entries : List (Text × FileTree)} (distinct : (Table.keys entries).Nodup)
    (names : ∀ entry ∈ entries, IsFileName entry.1) (inside : ∀ entry ∈ entries, Proper entry.2) :
    Proper (.directory entries)

namespace Table

variable {κ α : Type} [BEq κ] [LawfulBEq κ] {t : Table κ α} {key : κ} {value : α}

theorem mem_of_get? (h : t.get? key = some value) : (key, value) ∈ t := by
  obtain ⟨entry, hentry, rfl⟩ := Option.map_eq_some_iff.mp h
  have hkey : entry.1 = key := by simpa using List.find?_some hentry
  rw [← hkey]
  exact List.mem_of_find?_eq_some hentry

theorem get?_of_mem (hkeys : t.keys.Nodup) (h : (key, value) ∈ t) : t.get? key = some value := by
  induction t with
  | nil => cases h
  | cons entry t ih =>
    obtain ⟨hfirst, hkeys⟩ := List.nodup_cons.mp hkeys
    rw [get?, List.find?_cons]
    rcases List.mem_cons.mp h with rfl | h
    · simp
    · have hne : (entry.1 == key) = false := by
        rw [beq_eq_false_iff_ne]
        intro heq
        subst heq
        exact hfirst (List.mem_map.mpr ⟨_, h, rfl⟩)
      rw [hne]
      exact ih hkeys h

end Table

namespace FileTree

/-! ## Following paths -/

/-- The directories passed matter only on the way back. -/
theorem descend_above {parts : List Text} (h : parentMark ∉ parts) (above above' : List FileTree) (t : FileTree) :
    t.descend above parts = t.descend above' parts := by
  induction parts generalizing above above' t with
  | nil => rw [descend, descend]
  | cons part parts ih =>
    rw [List.mem_cons, not_or] at h
    obtain ⟨hpart, hparts⟩ := h
    have hne : ¬(part == parentMark) = true := by simpa using fun heq => hpart heq.symm
    cases t with
    | file bytes => rfl
    | directory entries =>
      simp only [descend, if_neg hne]
      cases Table.get? entries part with
      | none => rfl
      | some child => exact ih hparts _ _ child

theorem at?_cons {entries : List (Text × FileTree)} {part : Text} {parts : List Text}
    (h : parentMark ∉ part :: parts) {t : FileTree} :
    (directory entries).at? (part :: parts) = .ok t ↔
      ∃ child, Table.get? entries part = some child ∧ child.at? parts = .ok t := by
  rw [List.mem_cons, not_or] at h
  obtain ⟨hpart, hparts⟩ := h
  have hne : ¬(part == parentMark) = true := by simpa using fun heq => hpart heq.symm
  rw [at?, descend, if_neg hne]
  cases Table.get? entries part with
  | none => simp
  | some child =>
    simp only [Option.some.injEq, exists_eq_left']
    rw [at?, descend_above hparts]

theorem at?_append {t u v : FileTree} {parts rest : List Text} (h : parentMark ∉ parts ++ rest)
    (hu : t.at? parts = .ok u) : t.at? (parts ++ rest) = .ok v ↔ u.at? rest = .ok v := by
  induction parts generalizing t with
  | nil => cases hu; rfl
  | cons part parts ih =>
    have hparts : parentMark ∉ parts ++ rest := fun hmem => h (List.mem_cons_of_mem _ hmem)
    cases t with
    | file bytes => cases hu
    | directory entries =>
      have hfirst : parentMark ∉ part :: parts := fun hmem => h (List.mem_append_left _ hmem)
      obtain ⟨child, hchild, hu⟩ := (at?_cons hfirst).mp hu
      rw [List.cons_append] at h ⊢
      rw [at?_cons h]
      simp only [hchild, Option.some.injEq, exists_eq_left']
      exact ih hparts hu

/-- What is found in a proper tree is proper, at a path of names of files. -/
theorem Proper.of_at? {t u : FileTree} {parts : List Text} (ht : t.Proper) (h : parentMark ∉ parts)
    (hu : t.at? parts = .ok u) : u.Proper ∧ ∀ part ∈ parts, IsFileName part := by
  induction parts generalizing t with
  | nil => cases hu; exact ⟨ht, by simp⟩
  | cons part parts ih =>
    cases ht with
    | file _ => cases hu
    | directory _ names inside =>
      obtain ⟨child, hchild, hu⟩ := (at?_cons h).mp hu
      have hmem := Table.mem_of_get? hchild
      obtain ⟨hproper, hparts⟩ := ih (inside _ hmem) (fun hmem => h (List.mem_cons_of_mem _ hmem)) hu
      exact ⟨hproper, List.forall_mem_cons.mpr ⟨names _ hmem, hparts⟩⟩

theorem read_eq_ok_iff {t : FileTree} {parts : List Text} {bytes : List UInt8} :
    t.read parts = .ok bytes ↔ t.at? parts = .ok (.file bytes) := by
  unfold read
  rw [Except.bind_eq_ok]
  constructor
  · intro h
    obtain ⟨u, hu, h⟩ := h
    cases u with
    | file bytes' => cases h; exact hu
    | directory entries => cases h
  · exact fun h => ⟨_, h, rfl⟩

/-! ## All files -/

theorem mem_filesIn {entries : List (Text × FileTree)} {route : Route} {bytes : List UInt8}
    (h : (route, bytes) ∈ filesIn entries) : ∃ name child, (name, child) ∈ entries ∧
      (route = [name] ∧ child = .file bytes ∨
        ∃ rest, route = name :: rest ∧ (rest, bytes) ∈ child.files) := by
  induction entries with
  | nil => simp [filesIn] at h
  | cons entry entries ih =>
    obtain ⟨name, child⟩ := entry
    have hlater : (route, bytes) ∈ filesIn entries → ∃ name' child', (name', child') ∈ (name, child) :: entries ∧
        (route = [name'] ∧ child' = .file bytes ∨
          ∃ rest, route = name' :: rest ∧ (rest, bytes) ∈ child'.files) := by
      intro h
      obtain ⟨name', child', hmem, h⟩ := ih h
      exact ⟨name', child', List.mem_cons_of_mem _ hmem, h⟩
    cases child with
    | file bytes' =>
      simp only [filesIn, List.mem_cons] at h
      rcases h with h | h
      · cases h
        exact ⟨name, _, List.mem_cons_self, .inl ⟨rfl, rfl⟩⟩
      · exact hlater h
    | directory inner =>
      simp only [filesIn, List.mem_append, List.mem_map] at h
      rcases h with ⟨⟨rest, bytes'⟩, hfile, h⟩ | h
      · cases h
        exact ⟨name, _, List.mem_cons_self, .inr ⟨rest, rfl, hfile⟩⟩
      · exact hlater h

/-- Every file of a proper tree is at its path. -/
theorem Proper.at?_of_mem_files {t : FileTree} (h : t.Proper) {route : Route} {bytes : List UInt8}
    (hfile : (route, bytes) ∈ t.files) :
    t.at? route = .ok (.file bytes) ∧ route ≠ [] ∧ ∀ part ∈ route, IsFileName part := by
  induction h generalizing route with
  | file _ => simp [files] at hfile
  | @directory entries distinct names inside ih =>
    rw [files] at hfile
    obtain ⟨name, child, hmem, hfile⟩ := mem_filesIn hfile
    have hget := Table.get?_of_mem distinct hmem
    have hname : IsFileName name := names _ hmem
    rcases hfile with ⟨rfl, rfl⟩ | ⟨rest, rfl, hrest⟩
    · have hparent : parentMark ∉ [name] := by simpa using hname.ne_parent.symm
      refine ⟨(at?_cons hparent).mpr ⟨_, hget, rfl⟩, by simp, ?_⟩
      simpa using hname
    · obtain ⟨hat, -, hnames⟩ := ih _ hmem hrest
      have hnames : ∀ part ∈ name :: rest, IsFileName part := List.forall_mem_cons.mpr ⟨hname, hnames⟩
      have hparent : parentMark ∉ name :: rest := fun hmem => (hnames _ hmem).ne_parent rfl
      exact ⟨(at?_cons hparent).mpr ⟨child, hget, hat⟩, by simp, hnames⟩

end FileTree

/-! ## Paths and names -/

theorem not_mem_resolve (base : Route) (p : Path) : parentMark ∉ Path.resolve base p := by
  have hstep : ∀ (parts : List Text) (route : Route), parentMark ∉ route →
      parentMark ∉ parts.foldl Path.step route := by
    intro parts
    induction parts with
    | nil => exact fun route h => h
    | cons part parts ih =>
      intro route h
      refine ih _ ?_
      unfold Path.step
      split
      · exact fun hmem => h (List.dropLast_subset _ hmem)
      · rename_i hne
        simp only [List.mem_append, List.mem_singleton, not_or]
        exact ⟨h, fun heq => hne (by simp [heq])⟩
  exact hstep _ [] (by simp)

theorem Route.eq_append_of_within? {directory route parts : Route} (h : within? directory route = some parts) :
    route = directory ++ parts := by
  unfold within? at h
  split at h
  · rename_i hprefix
    cases h
    obtain ⟨rest, rfl⟩ := List.isPrefixOf_iff_prefix.mp hprefix
    rw [List.drop_left]
  · cases h

theorem splitOn_join {parts : List Text} (h : ∀ part ∈ parts, IsFileName part) (hne : parts ≠ []) :
    List.splitOn (CodePoint.ofChar '/') (Text.join "/" parts) = parts :=
  List.splitOn_intercalate _ (fun part hpart => (h part hpart).no_slash) hne

/-- Different files have different names. -/
theorem relativeName_injective {parts parts' : List Text} (h : ∀ part ∈ parts, IsFileName part)
    (h' : ∀ part ∈ parts', IsFileName part) (heq : relativeName parts = relativeName parts') :
    parts = parts' := by
  -- the name of the directory itself is no name of a file
  have hdot : ∀ {parts : List Text}, (∀ part ∈ parts, IsFileName part) → parts ≠ [] →
      Text.join "/" parts ≠ "." := by
    intro parts h hne hjoin
    have hsplit := splitOn_join h hne
    rw [hjoin] at hsplit
    have hmem : Text.ofString "." ∈ parts := by
      rw [← hsplit]
      decide
    exact (h _ hmem).ne_here rfl
  unfold relativeName at heq
  cases parts with
  | nil =>
    cases parts' with
    | nil => rfl
    | cons part' parts' => exact absurd heq.symm (hdot h' (by simp))
  | cons part parts =>
    cases parts' with
    | nil => exact absurd heq (hdot h (by simp))
    | cons part' parts' =>
      rw [← splitOn_join h (by simp), ← splitOn_join h' (by simp)]
      exact congrArg _ heq

/-! ## Reading files -/

theorem Utf8.length_le_of_decodeFrom {bytes : List UInt8} : ∀ {position skip : Nat} {t : Text},
    decodeFrom position skip bytes = .ok t → t.length ≤ bytes.length := by
  induction bytes with
  | nil => intro position skip t h; cases h; exact Nat.le_refl _
  | cons b bytes ih =>
    intro position skip t h
    cases skip with
    | succ skip =>
      have := ih h
      rw [List.length_cons]
      omega
    | zero =>
      rw [decodeFrom] at h
      split at h
      · cases h
      · split at h
        · cases h
        · obtain ⟨rest, hrest, h⟩ := Except.bind_eq_ok.mp h
          cases h
          have := ih hrest
          rw [List.length_cons, List.length_cons]
          omega

namespace Text

theorem length_normalizeLines_le (t : Text) : (normalizeLines t).length ≤ t.length := by
  fun_induction normalizeLines t with
  | case1 | case2 | case3 => exact Nat.le_refl _
  | case4 rest ih =>
    simp only [List.length_cons]
    omega
  | case5 d rest _ ih | case6 c d rest _ ih =>
    simp only [List.length_cons] at ih ⊢
    omega

/-- A file has no more code points than bytes. -/
theorem length_le_of_ofFile {bytes : List UInt8} {t : Text} (h : ofFile bytes = .ok t) :
    t.length ≤ bytes.length := by
  unfold ofFile at h
  cases hread : ofUtf8 bytes with
  | error error => rw [hread] at h; cases h
  | ok raw =>
    rw [hread] at h
    cases h
    exact Nat.le_trans (length_normalizeLines_le raw) (Utf8.length_le_of_decodeFrom hread)

end Text

namespace Task

variable {s : Surroundings}

theorem decode_eq_ok_iff {bytes : List UInt8} {t : Text} :
    (decode bytes).result = .ok t ↔ Text.ofFile bytes = .ok t := by
  rw [decode, Noted.result_ofExcept, Except.mapError_eq_ok]

theorem readFile_eq_ok_iff {route : Route} {t : Text} : (readFile s route).result = .ok t ↔
    ∃ bytes, s.disk.at? route = .ok (.file bytes) ∧ Text.ofFile bytes = .ok t := by
  simp only [readFile, Noted.result_bind, Noted.result_ofExcept, Except.bind_eq_ok, Except.mapError_eq_ok,
    FileTree.read_eq_ok_iff, decode_eq_ok_iff]

/-- What is read from a disk is not too long. -/
theorem length_lt_of_readFile (hdisk : s.disk.Proper) {route : Route} (hroute : parentMark ∉ route) {t : Text}
    (h : (readFile s route).result = .ok t) : t.length < 2 ^ 63 := by
  obtain ⟨bytes, hat, hread⟩ := readFile_eq_ok_iff.mp h
  cases (hdisk.of_at? hroute hat).1 with
  | file size => exact Nat.lt_of_le_of_lt (Text.length_le_of_ofFile hread) size

/-- The scripts of a directory are the texts of files in it. -/
theorem exists_file_of_loadScripts {directory : Route} {scripts : Scripts}
    (h : (loadScripts s directory).result = .ok scripts) {name source : Text}
    (hget : Table.get? scripts name = some source) : ∃ tree route bytes, s.disk.at? directory = .ok tree ∧
      (route, bytes) ∈ tree.files ∧ relativeName route = name ∧ Text.ofFile bytes = .ok source := by
  simp only [loadScripts, say, Noted.result_bind, Noted.result_mapM, Noted.result_note, Noted.result_pure,
    Except.bind_eq_ok] at h
  obtain ⟨scripts', hscripts, -, -, h⟩ := h
  cases h
  obtain ⟨⟨route, bytes⟩, hfile, hentry⟩ := Except.exists_of_mem_result hscripts (Table.mem_of_get? hget)
  obtain ⟨text, htext, hentry⟩ := Except.bind_eq_ok.mp hentry
  cases hentry
  have hfile := (List.mem_filter.mp hfile).1
  unfold filesUnder at hfile
  split at hfile
  · rename_i tree htree
    exact ⟨tree, route, bytes, htree, List.mem_mergeSort.mp hfile, rfl, decode_eq_ok_iff.mp htext⟩
  · cases hfile

/-- What is among the scripts of a directory under the name of a script is that script. -/
theorem eq_of_loadScripts (hdisk : s.disk.Proper) {script directory : Route} (hscript : parentMark ∉ script)
    {parts : List Text} (hwithin : Route.within? directory script = some parts) {scripts : Scripts}
    (hload : (loadScripts s directory).result = .ok scripts) {source source' : Text}
    (hread : (readFile s script).result = .ok source)
    (hget : Table.get? scripts (relativeName parts) = some source') : source' = source := by
  obtain rfl : script = directory ++ parts := Route.eq_append_of_within? hwithin
  obtain ⟨tree, route, bytes', htree, hfile, hname, hsource'⟩ := exists_file_of_loadScripts hload hget
  obtain ⟨bytes, hat, hsource⟩ := readFile_eq_ok_iff.mp hread
  have hdirectory : parentMark ∉ directory := fun hmem => hscript (List.mem_append_left _ hmem)
  obtain ⟨hat', -, hroute⟩ := (hdisk.of_at? hdirectory htree).1.at?_of_mem_files hfile
  have hparts : ∀ part ∈ parts, IsFileName part :=
    fun part hpart => (hdisk.of_at? hscript hat).2 part (List.mem_append_right _ hpart)
  obtain rfl : route = parts := relativeName_injective hroute hparts hname
  rw [FileTree.at?_append hscript htree, hat'] at hat
  cases hat
  exact Except.ok.inj (hsource'.symm.trans hsource)

end Task

end ScriptAudit
