/-
What prices may depend on: the bitnode a player is in and the levels of the player's source files.
-/
import ScriptAudit.Number.Whole
import ScriptAudit.Table

namespace ScriptAudit

structure Player where
  bitnode : Int
  /-- The levels of source files by their numbers. -/
  levels : Table Int Int

/-- Why a text `N=LEVEL` gives no level. -/
inductive FlagError
  | noLevel (found : Text)
  | notWhole (error : WholeError)
  deriving DecidableEq

def FlagError.message : FlagError → Text
  | noLevel found => "expected N=LEVEL, got " ++ found.quoted
  | notWhole error => error.message

/-- Reads `N=LEVEL`, divided at the first `=`. -/
def readSourceFileFlag (t : Text) : Except FlagError (Int × Int) := do
  let some (number, level) := Text.splitAtFirst? '=' t | throw (.noLevel t)
  let number ← (Text.readWhole number).mapError .notWhole
  let level ← (Text.readWhole level).mapError .notWhole
  return (number, level)

namespace Player

/-- The level of a source file; one that the player does not own has level zero. -/
def level (p : Player) (sourceFile : Int) : Int := (p.levels.get? sourceFile).getD 0

/-- The first bitnode, unless another one is given. -/
def defaultBitnode : Int := 1

/-- The player that flags describe. A later flag overrides an earlier one for the same source file. -/
def ofFlags (bitnode : Option Int) (flags : List Text) : Except FlagError Player := do
  let pairs ← flags.mapM readSourceFileFlag
  return ⟨bitnode.getD defaultBitnode, pairs.foldl (fun levels pair => levels.insert pair.1 pair.2) []⟩

end Player

end ScriptAudit
