/-
The command line. It reads as much of the disk as the arguments ask for, runs the program on that, and
prints what the program reports.
-/
import ScriptAudit.Command.Run
import Std.Time.Zoned

namespace ScriptAudit

/-- A text for the terminal; a surrogate on its own is shown as a question mark. -/
def Text.shown (t : Text) : String :=
  String.ofList (t.map fun c => if c.isSurrogate then '?' else Char.ofNat c.val)

/-- The file or directory at a path, if there is one. Of a directory only the scripts are read, and those
only if `deep`. -/
partial def readDisk (deep : Bool) (route : Route) : IO (Option FileTree) := do
  let path := (← IO.currentDir) / (Route.text route).shown
  if ← path.isDir then
    if !deep then return some .empty
    let entries ← (← path.readDir).toList.filterMapM fun entry => do
      let route := route ++ [Text.ofString entry.fileName]
      let linked := (← entry.path.symlinkMetadata).type matches .symlink
      let directory ← entry.path.isDir
      if directory && linked || !directory && !Task.isScript route then return none
      return (← readDisk deep route).map fun tree => (Text.ofString entry.fileName, tree)
    return some (.directory entries)
  else if ← path.pathExists then return some (.file (← IO.FS.readBinFile path).toList)
  else return none

/-- Adds what is at a path, unless the tree has it already. -/
def addToDisk (deep : Bool) (disk : FileTree) (route : Route) : IO FileTree := do
  if !deep && disk.exists? route then return disk
  match ← readDisk deep route with
  | some tree => return disk.put route tree
  | none => return disk

/-- The directory of scripts that a command reads. -/
def Command.directory? (locate : Text → Option Route) : Command → Option Route
  | .cost r _ | .check r _ =>
    match r.directory? with
    | some path => locate path
    | none => (locate r.script).map Route.parent
  | .loops _ _ | .parse _ _ => none

/-- The files that a command reads. -/
def Command.files : Command → List Text
  | .cost r _ | .check r _ => [r.script, r.catalog]
  | .loops script _ | .parse script _ => [script]

/-- Reads what a command needs. -/
def Command.surroundings (command : Command) : IO Surroundings := do
  let here := Path.resolve [] (Path.ofText (← IO.currentDir).toString)
  let home := (← IO.getEnv "HOME").map Text.ofString
  let bare : Surroundings := ⟨.empty, here, fun user => if user.isEmpty then home else none⟩
  let locate (path : Text) : Option Route :=
    (Task.expandHome bare (Path.ofText path)).result.toOption.map (Path.resolve here)
  let disk ← (command.directory? locate).toList.foldlM (addToDisk true) .empty
  return { bare with disk := ← (command.files.filterMap locate).foldlM (addToDisk false) disk }

def clock : IO Text := do
  let now ← Std.Time.PlainTime.now
  let two (n : Int) : Text := List.replicate (if n < 10 then 1 else 0) (CodePoint.ofChar '0') ++ Text.ofInt n
  return Text.join ":" [two now.hour.val, two now.minute.val, two now.second.val]

end ScriptAudit

open ScriptAudit in
def main (args : List String) : IO UInt32 := do
  let args := args.map Text.ofString
  let surroundings ← match readArguments args with
    | .ok ⟨_, some command⟩ => command.surroundings
    | _ => pure ⟨.empty, [], fun _ => none⟩
  let report := runProgram surroundings args
  (← IO.getStdout).putStr report.output.shown
  (← IO.getStderr).putStr (report.errors (← clock)).shown
  return report.exit.toUInt32
