/-
Notices: what a command tells about its work while it goes on. How many of them are shown is up to the
user.
-/
import ScriptAudit.Text.Basic

namespace ScriptAudit

inductive Level
  | debug
  | info
  | warning
  | error
  deriving DecidableEq

namespace Level

def name : Level → String
  | debug => "DEBUG"
  | info => "INFO"
  | warning => "WARNING"
  | error => "ERROR"

def rank : Level → Nat
  | debug => 0
  | info => 1
  | warning => 2
  | error => 3

/-- The lowest level that is shown when more was asked for this many times. -/
def ofVerbosity : Nat → Level
  | 0 => warning
  | 1 => info
  | _ => debug

end Level

structure Notice where
  level : Level
  /-- The part of the program that tells it. -/
  topic : Text
  message : Text

/-- The notice on a line, after the time. Names of levels take five columns. -/
def Notice.line (time : Text) (n : Notice) : Text :=
  let level := Text.padRight 5 ((Text.ofString n.level.name).take 5)
  time ++ " [" ++ level ++ "] " ++ n.topic ++ ": " ++ n.message ++ "\n"

end ScriptAudit
