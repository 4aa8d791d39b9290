/-
File trees: what a command finds on the disk, as a value. Names in a directory are distinct; of two
entries with one name only the first can be reached.
-/
import ScriptAudit.Files.Path
import ScriptAudit.Table
import ScriptAudit.Text.Quoted

namespace ScriptAudit

inductive FileTree
  | file (bytes : List UInt8)
  | directory (entries : List (Text × FileTree))

/-- Why a file cannot be read. -/
inductive AccessError
  | missing
  | notDirectory
  | isDirectory
  deriving DecidableEq

namespace AccessError

def message : AccessError → String
  | missing => "No such file or directory"
  | notDirectory => "Not a directory"
  | isDirectory => "Is a directory"

def number : AccessError → Nat
  | missing => 2
  | notDirectory => 20
  | isDirectory => 21

/-- The error with its number and the path. -/
def text (e : AccessError) (path : Text) : Text :=
  "[Errno " ++ Text.ofNat e.number ++ "] " ++ Text.ofString e.message ++ ": " ++ path.quoted

end AccessError

namespace FileTree

def empty : FileTree := .directory []

/-- Goes down a path. `above` are the directories passed, the nearest one first. -/
def descend (above : List FileTree) (t : FileTree) : List Text → Except AccessError FileTree
  | [] => .ok t
  | part :: parts =>
    match t with
    | .file _ => .error .notDirectory
    | .directory entries =>
      if part == parentMark then
        match above with
        | [] => descend [] t parts
        | parent :: above => descend above parent parts
      else
        match Table.get? entries part with
        | none => .error .missing
        | some child => descend (t :: above) child parts

/-- What is at a path, followed from the top of the tree. -/
def at? (t : FileTree) (parts : List Text) : Except AccessError FileTree := t.descend [] parts

def exists? (t : FileTree) (parts : List Text) : Bool :=
  match t.at? parts with
  | .ok _ => true
  | .error _ => false

/-- The bytes of the file at a path. -/
def read (t : FileTree) (parts : List Text) : Except AccessError (List UInt8) := do
  match ← t.at? parts with
  | .file bytes => return bytes
  | .directory _ => throw .isDirectory

mutual

/-- All files of a tree, with their paths in it. -/
def files : FileTree → List (Route × List UInt8)
  | .file _ => []
  | .directory entries => filesIn entries

def filesIn : List (Text × FileTree) → List (Route × List UInt8)
  | [] => []
  | (name, .file bytes) :: entries => ([name], bytes) :: filesIn entries
  | (name, child) :: entries =>
    (child.files.map fun (route, bytes) => (name :: route, bytes)) ++ filesIn entries

end

/-- The tree with something else at a path. Directories on the way are made where they are missing. -/
def put : FileTree → List Text → FileTree → FileTree
  | _, [], content => content
  | .file _, part :: parts, content => .directory [(part, put empty parts content)]
  | .directory entries, part :: parts, content =>
    let inside := (Table.get? entries part).getD empty
    .directory (Table.insert entries part (inside.put parts content))

end FileTree

end ScriptAudit
