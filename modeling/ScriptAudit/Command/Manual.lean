/-
The commands, their options and what the manual says about them.
-/
import ScriptAudit.Text.Basic

namespace ScriptAudit

def programName : Text := "scriptcost"

def versionText : Text := "0.1.0"

inductive Verb
  | cost
  | loops
  | check
  | parse
  deriving DecidableEq

namespace Verb

def name : Verb → Text
  | cost => "cost"
  | loops => "loops"
  | check => "check"
  | parse => "parse"

def all : List Verb := [cost, loops, check, parse]

def ofName? (name : Text) : Option Verb := all.find? (·.name == name)

end Verb

inductive Switch
  | help
  | version
  | verbose
  | catalog
  | scriptsDir
  | bitnode
  | sourceFile
  | format
  deriving DecidableEq

namespace Switch

def spellings : Switch → List Text
  | help => ["-h", "--help"]
  | version => ["--version"]
  | verbose => ["-v", "--verbose"]
  | catalog => ["--catalog"]
  | scriptsDir => ["--scripts-dir"]
  | bitnode => ["--bitnode"]
  | sourceFile => ["--source-file"]
  | format => ["-f", "--format"]

def takesValue : Switch → Bool
  | help | version | verbose => false
  | catalog | scriptsDir | bitnode | sourceFile | format => true

/-- All spellings, as messages name an option. -/
def title (s : Switch) : Text := Text.join "/" s.spellings

end Switch

/-- What a part of the manual is about: one command, or the program as a whole. -/
abbrev Topic := Option Verb

namespace Topic

def name : Topic → Text
  | none => programName
  | some verb => programName ++ " " ++ verb.name

def switches : Topic → List Switch
  | none => [.help, .version, .verbose]
  | some .cost | some .check => [.help, .catalog, .scriptsDir, .bitnode, .sourceFile, .format]
  | some .loops | some .parse => [.help, .format]

/-- The formats a command can print in, the one it prints in by itself first. -/
def formats : Topic → List Text
  | none => []
  | some .cost | some .loops | some .check => ["summary", "json"]
  | some .parse => ["sexp", "repr"]

def usage : Topic → Text
  | none => "usage: scriptcost [-h] [--version] [-v] <command> ...\n"
  | some .cost => "usage: scriptcost cost [-h] --catalog FILE [--scripts-dir DIR] [--bitnode N]
                       [--source-file N=LEVEL] [-f \x7bsummary,json\x7d]
                       SCRIPT\n"
  | some .loops => "usage: scriptcost loops [-h] [-f \x7bsummary,json\x7d] SCRIPT\n"
  | some .check => "usage: scriptcost check [-h] --catalog FILE [--scripts-dir DIR] [--bitnode N]
                        [--source-file N=LEVEL] [-f \x7bsummary,json\x7d]
                        SCRIPT\n"
  | some .parse => "usage: scriptcost parse [-h] [-f \x7bsexp,repr\x7d] SCRIPT\n"

def purpose : Topic → Text
  | none => "
scriptcost — static memory-cost and loop-safety checks for
game scripts.
"
  | some .cost => "
Collect every capability name a script and its imports reference and price
them against a cost catalog.
"
  | some .loops => "
Report the first while(true) loop with no await inside it. Such a loop never
yields and freezes the game.
"
  | some .check => []
  | some .parse => "
Parse a script and pretty-print its abstract syntax tree. Useful for front-end
debugging.
"

/-- What every command takes. -/
def commonArguments : Text := "
positional arguments:
  SCRIPT                Script file (.js or .script).

options:
  -h, --help            show this help message and exit
"

def costOptions : Text := "  --catalog FILE        Cost catalog JSON file.
  --scripts-dir DIR     Directory imports are resolved in (default: the
                        script's).
"

def reportOptions : Text := "  -f \x7bsummary,json\x7d, --format \x7bsummary,json\x7d
                        Output format (default: summary).
"

def playerOptions : Text := "
player state:
  --bitnode N           Current bitnode (default: 1).
  --source-file N=LEVEL
                        Owned source-file level; may be repeated.
"

def dumpOptions : Text := "  -f \x7bsexp,repr\x7d, --format \x7bsexp,repr\x7d
                        AST output format (default: sexp).
"

def overview : Text := "
options:
  -h, --help     show this help message and exit
  --version      show program's version number and exit
  -v, --verbose  Increase verbosity (-v info, -vv debug).

commands:
  <command>
    cost         Compute a script's memory cost.
    loops        Find while(true) loops that never await.
    check        Run the loop check and the cost computation.
    parse        Parse a script and dump the AST.

examples:
  scriptcost cost  hack.js --catalog costs.json
  scriptcost loops hack.js
  scriptcost check hack.js --catalog costs.json --bitnode 4
  scriptcost parse hack.js --format sexp
"

def details : Topic → Text
  | none => overview
  | some .cost | some .check => commonArguments ++ costOptions ++ reportOptions ++ playerOptions
  | some .loops => commonArguments ++ reportOptions
  | some .parse => commonArguments ++ dumpOptions

def help (topic : Topic) : Text := topic.usage ++ topic.purpose ++ topic.details

end Topic

end ScriptAudit
