/-
Scripts that import each other. `survey` reads a script and everything it imports, breadth first and
each script once, until one cannot be read or imports something that is not there.
-/
import ScriptAudit.Script.Names

namespace ScriptAudit

/-- The scripts an import can name, with their sources. -/
abbrev Scripts := Table Text Text

/-! ## Resolving one import -/

/-- A module path without the `./` and `/` at its beginning. -/
def moduleName : Text → Text
  | [] => []
  | c :: rest =>
    if c = '/' then moduleName rest
    else
      match rest with
      | [] => [c]
      | d :: more => if c = '.' && d = '/' then moduleName more else c :: d :: more

/-- The script that an import names: the name as it is, or else with `.js` added. -/
def resolveImport (path : Text) (names : List Text) : Option Text :=
  let name := moduleName path
  [name, name ++ ".js"].find? names.contains

namespace Program

/-- The import declarations with their module paths, in order. -/
def imports (p : Program) : List (Tree × Text) :=
  p.root.nodes.filterMap fun n => match n.form with
    | .importDeclaration _ path => some (n, path)
    | _ => none

end Program

/-- Resolves imports in order, up to the first that names no script. -/
def resolveImports (names : List Text) (p : Program) :
    List (Tree × Text) → List Text × Option AuditError
  | [] => ([], none)
  | (declaration, path) :: rest =>
    match resolveImport path names with
    | none => ([], some (.unresolved path p.filename (p.placeOf declaration) []))
    | some target =>
      let (targets, failure) := resolveImports names p rest
      (target :: targets, failure)

/-! ## Everything a script imports -/

/-- A script that was read, with the scripts that its imports name. -/
structure Visit where
  program : Program
  targets : List Text

/-- The scripts that were read, in order, and what ended the survey early. -/
structure Survey where
  visits : List Visit
  failure : Option AuditError

namespace Survey

def finished : Survey := ⟨[], none⟩

def failed (error : AuditError) : Survey := ⟨[], some error⟩

def after (visit : Visit) (rest : Survey) : Survey := ⟨visit :: rest.visits, rest.failure⟩

/-- The names used in all scripts, each once, in the order of first use. -/
def names (s : Survey) : List Text :=
  (s.visits.flatMap fun visit => visit.program.root.referencedNames).eraseDups

end Survey

namespace Scripts

def unvisited (scripts : Scripts) (visited : List Text) : List Text :=
  scripts.keys.filter fun name => !visited.contains name

theorem length_unvisited_cons_lt {scripts : Scripts} {visited : List Text} {name source : Text}
    (hs : Table.get? scripts name = some source) (hv : ¬ visited.contains name = true) :
    (scripts.unvisited (name :: visited)).length < (scripts.unvisited visited).length := by
  have hmem : name ∈ scripts.unvisited visited := by
    simp only [unvisited, List.mem_filter]
    exact ⟨Table.mem_keys_of_get? hs, by simpa using hv⟩
  have hsub : scripts.unvisited (name :: visited)
      = (scripts.unvisited visited).filter fun other => other != name := by
    simp only [unvisited, List.filter_filter]
    congr 1
    funext other
    rw [List.contains_cons, Bool.not_or, bne]
  rw [hsub]
  refine Nat.lt_of_le_of_ne (List.length_filter_le ..) fun heq => ?_
  have := (List.length_filter_eq_length_iff.mp heq) name hmem
  simp at this

/-- Reads the scripts that are still to be read, and what they import. -/
def explore (scripts : Scripts) (visited : List Text) : (pending : List Text) → Survey
  | [] => .finished
  | name :: pending =>
    if hv : visited.contains name = true then explore scripts visited pending
    else
      match hs : Table.get? scripts name with
      | none => explore scripts visited pending
      | some source =>
        have := length_unvisited_cons_lt hs hv
        match Program.read source name with
        | .error error => .failed error
        | .ok program =>
          let (targets, failure) := resolveImports scripts.keys program program.imports
          .after ⟨program, targets⟩ <| match failure with
            | some error => .failed error
            | none => explore scripts (name :: visited) (pending ++ targets)
termination_by pending => ((scripts.unvisited visited).length, pending.length)
decreasing_by
  · exact .right _ (by simp)
  · exact .right _ (by simp)
  · exact .left _ _ this

/-- Reads a script and everything it imports. -/
def survey (scripts : Scripts) (filename : Text) : Survey :=
  if scripts.keys.contains filename then scripts.explore [] [filename]
  else .failed (.unresolved filename [] .unknown [])

/-- The names used by a script and everything it imports. -/
def collectNames (scripts : Scripts) (filename : Text) : Except AuditError (List Text) :=
  let survey := scripts.survey filename
  match survey.failure with
  | some error => .error error
  | none => .ok survey.names

end Scripts

end ScriptAudit
