/-
A file that is put on a disk, and what there is besides it. Where a path can take a file, because there is nothing
or another file at it, all other files stay as they are (`at?_put_iff`) and nothing else vanishes (`exists?_put`).
The scripts of a directory are therefore the same as before, except for that one (`exists_loadScripts_put`).
-/
import Mathlib
import ScriptAudit.Proofs.DiskScripts
import ScriptAudit.Proofs.ImportClosure

namespace ScriptAudit

namespace Table

variable {κ α : Type} [BEq κ] [LawfulBEq κ] {t : Table κ α} {key : κ} {value : α}

theorem mem_insert {entry : κ × α} (h : entry ∈ t.insert key value) : entry = (key, value) ∨ entry ∈ t := by
  unfold insert at h
  split at h
  · obtain ⟨old, hold, rfl⟩ := List.mem_map.mp h
    by_cases hkey : old.1 = key
    · exact .inl (by simp [hkey])
    · exact .inr (by simpa [hkey] using hold)
  · simpa [or_comm] using h

theorem nodup_keys_insert (h : t.keys.Nodup) (key : κ) (value : α) : (t.insert key value).keys.Nodup := by
  unfold insert
  split
  · have hkeys : keys (t.map fun entry => if entry.1 == key then (entry.1, value) else entry) = t.keys := by
      rw [keys, keys, List.map_map]
      refine List.map_congr_left fun entry _ => ?_
      simp only [Function.comp_apply]
      split <;> rfl
    rwa [hkeys]
  · rename_i hnew
    have hkey : key ∉ t.keys := by
      intro hmem
      obtain ⟨entry, hentry, rfl⟩ := List.mem_map.mp hmem
      exact hnew (List.any_eq_true.mpr ⟨entry, hentry, beq_self_eq_true _⟩)
    rw [keys, List.map_append]
    refine List.nodup_append.mpr ⟨h, List.nodup_singleton key, fun a ha b hb => ?_⟩
    obtain rfl := List.mem_singleton.mp hb
    exact ne_of_mem_of_not_mem ha hkey

end Table

namespace FileTree

/-! ## Putting a file somewhere -/

/-- A file can be put at the path: there is no file on the way, and no directory at its end. -/
def Takes (t : FileTree) (parts : List Text) : Prop :=
  t.at? parts = .error .missing ∨ ∃ bytes, t.at? parts = .ok (.file bytes)

theorem not_takes_file {bytes : List UInt8} {part : Text} {parts : List Text} :
    ¬(file bytes).Takes (part :: parts) := by
  rintro (h | ⟨_, h⟩) <;> cases h

theorem Takes.of_get? {entries : List (Text × FileTree)} {part : Text} {parts : List Text} {child : FileTree}
    (h : (directory entries).Takes (part :: parts)) (hparent : parentMark ∉ part :: parts)
    (hchild : Table.get? entries part = some child) : child.Takes parts := by
  rw [List.mem_cons, not_or] at hparent
  have hne : ¬(part == parentMark) = true := by simpa using fun heq => hparent.1 heq.symm
  have hat : (directory entries).at? (part :: parts) = child.at? parts := by
    rw [at?, descend, if_neg hne, hchild]
    exact descend_above hparent.2 _ _ child
  rwa [Takes, hat] at h

variable {parts : List Text} {content : FileTree}

theorem put_directory (entries : List (Text × FileTree)) (part : Text) (parts : List Text) (content : FileTree) :
    (directory entries).put (part :: parts) content =
      .directory (Table.insert entries part (((Table.get? entries part).getD empty).put parts content)) := by
  rw [put]

/-- A disk stays one if the names are those of files. -/
theorem Proper.put {t : FileTree} (ht : t.Proper) (h : ∀ part ∈ parts, IsFileName part) (hcontent : content.Proper) :
    (t.put parts content).Proper := by
  have hempty : empty.Proper := .directory List.nodup_nil (by simp) (by simp)
  induction parts generalizing t with
  | nil => rwa [FileTree.put]
  | cons part parts ih =>
    obtain ⟨hpart, hparts⟩ := List.forall_mem_cons.mp h
    cases ht with
    | file size =>
      rw [FileTree.put]
      exact .directory (by simp [Table.keys]) (by simpa using hpart) (by simpa using ih hempty hparts)
    | @directory entries distinct names inside =>
      have hinside : ((Table.get? entries part).getD empty).Proper := by
        cases hget : Table.get? entries part with
        | none => exact hempty
        | some child => exact inside _ (Table.mem_of_get? hget)
      rw [put_directory]
      refine .directory (Table.nodup_keys_insert distinct ..) ?_ ?_
      · intro entry hentry
        rcases Table.mem_insert hentry with rfl | hentry
        · exact hpart
        · exact names entry hentry
      · intro entry hentry
        rcases Table.mem_insert hentry with rfl | hentry
        · exact ih hinside hparts
        · exact inside entry hentry

theorem at?_put_self (t : FileTree) (h : parentMark ∉ parts) : (t.put parts content).at? parts = .ok content := by
  induction parts generalizing t with
  | nil => rw [put]; rfl
  | cons part parts ih =>
    have hparts : parentMark ∉ parts := fun hmem => h (List.mem_cons_of_mem _ hmem)
    cases t with
    | file bytes =>
      rw [put, at?_cons h]
      exact ⟨_, by simp [Table.get?], ih empty hparts⟩
    | directory entries =>
      rw [put_directory, at?_cons h]
      exact ⟨_, Table.get?_insert_self .., ih _ hparts⟩

/-- In a new directory there is no file but the one that was put there. -/
theorem at?_put_empty_ne {p : List Text} (hp : parentMark ∉ p) (hne : p ≠ parts) {bytes bytes' : List UInt8} :
    (empty.put parts (.file bytes)).at? p ≠ .ok (.file bytes') := by
  induction parts generalizing p with
  | nil =>
    rw [put]
    cases p with
    | nil => exact absurd rfl hne
    | cons q p => intro h; cases h
  | cons part parts ih =>
    rw [empty, put_directory]
    cases p with
    | nil => intro h; cases h
    | cons q p =>
      rw [Ne, at?_cons hp]
      intro hfound
      obtain ⟨child, hchild, hat⟩ := hfound
      by_cases hq : q = part
      · subst hq
        rw [Table.get?_insert_self] at hchild
        cases hchild
        exact ih (fun hmem => hp (List.mem_cons_of_mem _ hmem)) (fun heq => hne (by rw [heq])) hat
      · rw [Table.get?_insert_other _ _ hq] at hchild
        cases hchild

/-- All other files stay as they are. -/
theorem at?_put_iff {t : FileTree} (h : parentMark ∉ parts) (htakes : t.Takes parts) {p : List Text}
    (hp : parentMark ∉ p) (hne : p ≠ parts) {bytes bytes' : List UInt8} :
    (t.put parts (.file bytes)).at? p = .ok (.file bytes') ↔ t.at? p = .ok (.file bytes') := by
  induction parts generalizing t p with
  | nil =>
    rw [put]
    cases p with
    | nil => exact absurd rfl hne
    | cons q p =>
      rcases htakes with h | ⟨old, h⟩
      · cases h
      · cases h
        exact Iff.rfl
  | cons part parts ih =>
    cases t with
    | file old => exact absurd htakes not_takes_file
    | directory entries =>
      rw [put_directory]
      cases p with
      | nil => exact iff_of_false (by intro h; cases h) (by intro h; cases h)
      | cons q p =>
        rw [at?_cons hp, at?_cons hp]
        by_cases hq : q = part
        · subst hq
          have hp' : parentMark ∉ p := fun hmem => hp (List.mem_cons_of_mem _ hmem)
          have hne' : p ≠ parts := fun heq => hne (by rw [heq])
          rw [Table.get?_insert_self]
          cases hchild : Table.get? entries q with
          | none => simp [at?_put_empty_ne hp' hne']
          | some child =>
            have hih := ih (fun hmem => h (List.mem_cons_of_mem _ hmem)) (htakes.of_get? h hchild) hp' hne'
            simp [hih]
        · rw [Table.get?_insert_other _ _ hq]

/-- Directories stay, whatever is in them. -/
theorem exists_directory_put {t : FileTree} (h : parentMark ∉ parts) (htakes : t.Takes parts) {p : List Text}
    (hp : parentMark ∉ p) {entries : List (Text × FileTree)} (hat : t.at? p = .ok (.directory entries)) :
    ∃ entries', (t.put parts content).at? p = .ok (.directory entries') := by
  induction parts generalizing t p with
  | nil =>
    rcases htakes with h | ⟨old, h⟩
    · cases h
    · cases h
      cases p with
      | nil => cases hat
      | cons q p => cases hat
  | cons part parts ih =>
    cases t with
    | file old => exact absurd htakes not_takes_file
    | directory top =>
      rw [put_directory]
      cases p with
      | nil => exact ⟨_, rfl⟩
      | cons q p =>
        simp only [at?_cons hp] at hat ⊢
        obtain ⟨child, hchild, hat⟩ := hat
        by_cases hq : q = part
        · subst hq
          have hp' : parentMark ∉ p := fun hmem => hp (List.mem_cons_of_mem _ hmem)
          obtain ⟨entries', hat'⟩ :=
            ih (fun hmem => h (List.mem_cons_of_mem _ hmem)) (htakes.of_get? h hchild) hp' hat
          rw [Table.get?_insert_self, hchild]
          exact ⟨entries', _, rfl, hat'⟩
        · rw [Table.get?_insert_other _ _ hq]
          exact ⟨entries, child, hchild, hat⟩

/-- Nothing vanishes. -/
theorem exists?_put {t : FileTree} (h : parentMark ∉ parts) (htakes : t.Takes parts) {p : List Text}
    (hp : parentMark ∉ p) {bytes : List UInt8} (hexists : t.exists? p = true) :
    (t.put parts (.file bytes)).exists? p = true := by
  have hat : ∃ u, (t.put parts (.file bytes)).at? p = .ok u := by
    unfold exists? at hexists
    split at hexists
    · rename_i u hu
      cases u with
      | directory entries =>
        obtain ⟨entries', hat⟩ : ∃ entries', (t.put parts (.file bytes)).at? p = .ok (.directory entries') :=
          exists_directory_put h htakes hp hu
        exact ⟨_, hat⟩
      | file old =>
        by_cases heq : p = parts
        · subst heq
          exact ⟨_, at?_put_self t h⟩
        · exact ⟨_, (at?_put_iff h htakes hp heq).mpr hu⟩
    · cases hexists
  obtain ⟨u, hu⟩ := hat
  rw [exists?, hu]

/-! ## The files of a directory -/

theorem exists_at?_of_append {t v : FileTree} {parts rest : List Text} (h : parentMark ∉ parts ++ rest)
    (hat : t.at? (parts ++ rest) = .ok v) : ∃ u, t.at? parts = .ok u := by
  induction parts generalizing t with
  | nil => exact ⟨t, rfl⟩
  | cons part parts ih =>
    have hparts : parentMark ∉ parts ++ rest := fun hmem => h (List.mem_cons_of_mem _ hmem)
    have hfirst : parentMark ∉ part :: parts := fun hmem => h (List.mem_append_left _ hmem)
    cases t with
    | file bytes => cases hat
    | directory entries =>
      rw [List.cons_append] at h hat
      obtain ⟨child, hchild, hat⟩ := (at?_cons h).mp hat
      obtain ⟨u, hu⟩ := ih hparts hat
      exact ⟨u, (at?_cons hfirst).mpr ⟨child, hchild, hu⟩⟩

theorem mem_filesIn_of_mem {entries : List (Text × FileTree)} {name : Text} {child : FileTree}
    (h : (name, child) ∈ entries) {route : Route} {bytes : List UInt8}
    (hfile : route = [name] ∧ child = .file bytes ∨ ∃ rest, route = name :: rest ∧ (rest, bytes) ∈ child.files) :
    (route, bytes) ∈ filesIn entries := by
  induction entries with
  | nil => cases h
  | cons entry entries ih =>
    rcases List.mem_cons.mp h with rfl | hmem
    · cases child with
      | file bytes' =>
        rw [filesIn, List.mem_cons]
        rcases hfile with ⟨rfl, hfile⟩ | ⟨rest, -, hrest⟩
        · cases hfile
          exact .inl rfl
        · simp [files] at hrest
      | directory inner =>
        rw [filesIn, List.mem_append]
        rcases hfile with ⟨-, hfile⟩ | ⟨rest, rfl, hrest⟩
        · cases hfile
        · exact .inl (List.mem_map.mpr ⟨(rest, bytes), hrest, rfl⟩)
        · intro bytes' heq
          cases heq
    · obtain ⟨name', child'⟩ := entry
      cases child' with
      | file bytes' =>
        rw [filesIn]
        exact List.mem_cons_of_mem _ (ih hmem)
      | directory inner =>
        rw [filesIn]
        · exact List.mem_append_right _ (ih hmem)
        · intro bytes' heq
          cases heq

/-- What is at a path is among the files. -/
theorem mem_files_of_at? {t : FileTree} {route : Route} (h : parentMark ∉ route) (hne : route ≠ [])
    {bytes : List UInt8} (hat : t.at? route = .ok (.file bytes)) : (route, bytes) ∈ t.files := by
  induction route generalizing t with
  | nil => exact absurd rfl hne
  | cons name rest ih =>
    cases t with
    | file bytes' => cases hat
    | directory entries =>
      obtain ⟨child, hchild, hat⟩ := (at?_cons h).mp hat
      rw [files]
      refine mem_filesIn_of_mem (Table.mem_of_get? hchild) ?_
      cases rest with
      | nil => cases hat; exact .inl ⟨rfl, rfl⟩
      | cons part rest => exact .inr ⟨_, rfl, ih (fun hmem => h (List.mem_cons_of_mem _ hmem)) (by simp) hat⟩

end FileTree

theorem not_mem_of_isFileName {parts : List Text} (h : ∀ part ∈ parts, IsFileName part) : parentMark ∉ parts :=
  fun hmem => (h _ hmem).ne_parent rfl

namespace Task

variable {s : Surroundings} {directory route : Route} {bytes : List UInt8}

theorem mem_filesUnder_iff (hdisk : s.disk.Proper) (hdirectory : parentMark ∉ directory) :
    (route, bytes) ∈ filesUnder s directory ↔
      parentMark ∉ route ∧ route ≠ [] ∧ s.disk.at? (directory ++ route) = .ok (.file bytes) := by
  have happend : parentMark ∉ route → parentMark ∉ directory ++ route := by simp [hdirectory]
  unfold filesUnder
  constructor
  · intro hfile
    split at hfile
    · rename_i tree htree
      obtain ⟨hat, hne, hnames⟩ :=
        (hdisk.of_at? hdirectory htree).1.at?_of_mem_files (List.mem_mergeSort.mp hfile)
      have hroute := not_mem_of_isFileName hnames
      exact ⟨hroute, hne, (FileTree.at?_append (happend hroute) htree).mpr hat⟩
    · cases hfile
  · intro hfile
    obtain ⟨hroute, hne, hat⟩ := hfile
    obtain ⟨tree, htree⟩ := FileTree.exists_at?_of_append (happend hroute) hat
    rw [htree]
    have hat' := (FileTree.at?_append (happend hroute) htree).mp hat
    exact List.mem_mergeSort.mpr (FileTree.mem_files_of_at? hroute hne hat')

/-! ## The scripts of a directory -/

/-- The file is a script with this source. -/
def IsSource (s : Surroundings) (directory route : Route) (source : Text) : Prop :=
  ∃ bytes, (route, bytes) ∈ filesUnder s directory ∧ isScript route = true ∧ Text.ofFile bytes = .ok source

theorem isFileName_of_mem_filesUnder (hdisk : s.disk.Proper) (hdirectory : parentMark ∉ directory)
    (h : (route, bytes) ∈ filesUnder s directory) : ∀ part ∈ route, IsFileName part := by
  obtain ⟨hroute, -, hat⟩ := (mem_filesUnder_iff hdisk hdirectory).mp h
  have hparent : parentMark ∉ directory ++ route := by simp [hdirectory, hroute]
  exact fun part hpart => (hdisk.of_at? hparent hat).2 part (List.mem_append_right _ hpart)

/-- There is only one script of a name. -/
theorem IsSource.unique (hdisk : s.disk.Proper) (hdirectory : parentMark ∉ directory) {route' : Route}
    {source source' : Text} (h : IsSource s directory route source) (h' : IsSource s directory route' source')
    (hname : relativeName route = relativeName route') : source = source' := by
  obtain ⟨bytes, hfile, -, hsource⟩ := h
  obtain ⟨bytes', hfile', -, hsource'⟩ := h'
  obtain rfl : route = route' := relativeName_injective (isFileName_of_mem_filesUnder hdisk hdirectory hfile)
    (isFileName_of_mem_filesUnder hdisk hdirectory hfile') hname
  obtain ⟨-, -, hat⟩ := (mem_filesUnder_iff hdisk hdirectory).mp hfile
  obtain ⟨-, -, hat'⟩ := (mem_filesUnder_iff hdisk hdirectory).mp hfile'
  cases hat.symm.trans hat'
  exact Except.ok.inj (hsource.symm.trans hsource')

/-- A script with its name. -/
def loadScript (file : Route × List UInt8) : Except Halt (Text × Text) :=
  (decode file.2).result.map fun source => (relativeName file.1, source)

theorem loadScript_eq_ok_iff {file : Route × List UInt8} {name source : Text} :
    loadScript file = .ok (name, source) ↔ relativeName file.1 = name ∧ Text.ofFile file.2 = .ok source := by
  rw [loadScript, Except.map_eq_ok]
  constructor
  · intro h
    obtain ⟨source', hsource, heq⟩ := h
    cases heq
    exact ⟨rfl, decode_eq_ok_iff.mp hsource⟩
  · intro h
    obtain ⟨rfl, hsource⟩ := h
    exact ⟨source, decode_eq_ok_iff.mpr hsource, rfl⟩

theorem loadScripts_eq_ok_iff {scripts : Scripts} : (loadScripts s directory).result = .ok scripts ↔
    ((filesUnder s directory).filter fun file => isScript file.1).mapM loadScript = .ok scripts := by
  have hscript : ∀ file : Route × List UInt8, loadScript file =
      (do return (relativeName file.1, ← decode file.2) : Task (Text × Text)).result := by
    intro file
    rw [loadScript, Noted.result_bind]
    cases (decode file.2).result <;> rfl
  rw [funext hscript]
  simp only [loadScripts, say, Noted.result_bind, Noted.result_mapM, Noted.result_note, Noted.result_pure,
    Except.bind_eq_ok, Except.ok.injEq]
  constructor
  · intro h
    obtain ⟨_, hload, -, -, rfl⟩ := h
    exact hload
  · intro h
    exact ⟨scripts, h, (), trivial, rfl⟩

/-- Scripts can be loaded if all of them can be decoded. -/
theorem exists_loadScripts_iff : (∃ scripts, (loadScripts s directory).result = .ok scripts) ↔
    ∀ file ∈ filesUnder s directory, isScript file.1 = true → ∃ source, Text.ofFile file.2 = .ok source := by
  simp only [loadScripts_eq_ok_iff]
  constructor
  · intro hload file hfile hscript
    obtain ⟨scripts, h⟩ := hload
    obtain ⟨⟨name, source⟩, -, hload⟩ := Except.exists_of_mem_mapM h (List.mem_filter.mpr ⟨hfile, hscript⟩)
    exact ⟨source, (loadScript_eq_ok_iff.mp hload).2⟩
  · intro h
    refine Except.exists_mapM_eq_ok fun file hfile => ?_
    obtain ⟨hfile, hscript⟩ := List.mem_filter.mp hfile
    obtain ⟨source, hsource⟩ := h file hfile hscript
    exact ⟨_, loadScript_eq_ok_iff.mpr ⟨rfl, hsource⟩⟩

/-- What is found among the scripts of a directory are the sources of its files. -/
theorem get?_loadScripts_iff (hdisk : s.disk.Proper) (hdirectory : parentMark ∉ directory) {scripts : Scripts}
    (h : (loadScripts s directory).result = .ok scripts) {name source : Text} :
    Table.get? scripts name = some source ↔
      ∃ route, relativeName route = name ∧ IsSource s directory route source := by
  rw [loadScripts_eq_ok_iff] at h
  have hmem : ∀ {name source : Text}, (name, source) ∈ scripts →
      ∃ route, relativeName route = name ∧ IsSource s directory route source := by
    intro name source hmem
    obtain ⟨⟨route, bytes⟩, hfile, hload⟩ := Except.exists_of_mem_result h hmem
    obtain ⟨hfile, hscript⟩ := List.mem_filter.mp hfile
    obtain ⟨hname, hsource⟩ := loadScript_eq_ok_iff.mp hload
    exact ⟨route, hname, bytes, hfile, hscript, hsource⟩
  constructor
  · exact fun hget => hmem (Table.mem_of_get? hget)
  · intro hfound
    obtain ⟨route, rfl, bytes, hfile, hscript, hsource⟩ := hfound
    obtain ⟨entry, hentry, hload⟩ := Except.exists_of_mem_mapM h (List.mem_filter.mpr ⟨hfile, hscript⟩)
    have hkey : relativeName route ∈ scripts.keys :=
      List.mem_map.mpr ⟨entry, hentry, (loadScript_eq_ok_iff.mp hload).1.symm⟩
    obtain ⟨source', hget⟩ := Scripts.get?_of_mem_keys hkey
    obtain ⟨route', hname, hsource'⟩ := hmem (Table.mem_of_get? hget)
    rw [hget, hsource'.unique hdisk hdirectory ⟨bytes, hfile, hscript, hsource⟩ hname]

/-! ## One more file -/

/-- The surroundings after a file was put on the disk. -/
def withFile (s : Surroundings) (route : Route) (bytes : List UInt8) : Surroundings :=
  { s with disk := s.disk.put route (.file bytes) }

section WithFile

variable {parts : List Text} (hdisk : s.disk.Proper) (hnames : ∀ part ∈ directory ++ parts, IsFileName part)
  (hsize : bytes.length < 2 ^ 63) (htakes : s.disk.Takes (directory ++ parts))

include hdisk hnames hsize htakes

/-- The other files in the directory are the same as before. -/
theorem mem_filesUnder_withFile_iff (hne : route ≠ parts) {bytes' : List UInt8} :
    (route, bytes') ∈ filesUnder (withFile s (directory ++ parts) bytes) directory ↔
      (route, bytes') ∈ filesUnder s directory := by
  have hparent := not_mem_of_isFileName hnames
  have hdirectory : parentMark ∉ directory := fun hmem => hparent (List.mem_append_left _ hmem)
  rw [mem_filesUnder_iff hdisk hdirectory, mem_filesUnder_iff (hdisk.put hnames (.file hsize)) hdirectory]
  refine and_congr_right fun hroute => and_congr_right fun _ => ?_
  have hroute' : parentMark ∉ directory ++ route := by simp [hdirectory, hroute]
  exact FileTree.at?_put_iff hparent htakes hroute' (by simpa using hne)

/-- The scripts can still be loaded if the new file is none or can be decoded, and those of other names are the
same as before. -/
theorem exists_loadScripts_withFile
    (hreadable : isScript parts = true → ∃ source, Text.ofFile bytes = .ok source) {scripts : Scripts}
    (h : (loadScripts s directory).result = .ok scripts) :
    ∃ scripts', (loadScripts (withFile s (directory ++ parts) bytes) directory).result = .ok scripts' ∧
      ∀ name, name ≠ relativeName parts → Table.get? scripts' name = Table.get? scripts name := by
  have hparent := not_mem_of_isFileName hnames
  have hdirectory : parentMark ∉ directory := fun hmem => hparent (List.mem_append_left _ hmem)
  have hdisk' : (withFile s (directory ++ parts) bytes).disk.Proper := hdisk.put hnames (.file hsize)
  have hload : ∃ scripts', (loadScripts (withFile s (directory ++ parts) bytes) directory).result = .ok scripts' := by
    rw [exists_loadScripts_iff]
    intro file hfile hscript
    obtain ⟨route, bytes'⟩ := file
    by_cases hroute : route = parts
    · subst hroute
      obtain ⟨-, -, hat⟩ := (mem_filesUnder_iff hdisk' hdirectory).mp hfile
      cases hat.symm.trans (FileTree.at?_put_self s.disk hparent)
      exact hreadable hscript
    · exact exists_loadScripts_iff.mp ⟨scripts, h⟩ _
        ((mem_filesUnder_withFile_iff hdisk hnames hsize htakes hroute).mp hfile) hscript
  obtain ⟨scripts', h'⟩ := hload
  refine ⟨scripts', h', fun name hname => Option.ext fun source => ?_⟩
  rw [get?_loadScripts_iff hdisk' hdirectory h', get?_loadScripts_iff hdisk hdirectory h]
  refine exists_congr fun route => and_congr_right fun heq => ?_
  have hroute : route ≠ parts := fun hroute => hname (by rw [← heq, hroute])
  simp only [IsSource, mem_filesUnder_withFile_iff hdisk hnames hsize htakes hroute]

end WithFile

end Task

end ScriptAudit
