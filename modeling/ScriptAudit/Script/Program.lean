/-
Reading scripts. A script is matched against the grammar as a whole, and then the values of its tokens
are worked out. Whatever else happens, a script that is not accepted is refused for one of three
reasons: it goes wrong at an offset, it nests too deeply, or one of its tokens stands for nothing.
-/
import ScriptAudit.Grammar.Packrat
import ScriptAudit.Grammar.Script
import ScriptAudit.Report.AuditError

namespace ScriptAudit

/-- A script and its statements. -/
structure Program where
  body : List Tree
  source : Text
  filename : Text

namespace Program

/-- The root of the tree, which spans the whole source. -/
def root (p : Program) : Tree := ⟨.program p.body, ⟨0, p.source.length⟩⟩

def lineOf (p : Program) (offset : Int) : Nat := p.source.lineAt offset

def columnOf (p : Program) (offset : Int) : Int := p.source.columnAt offset

/-- The place of a node in its file. -/
def placeOf (p : Program) (n : Tree) : Place :=
  .point p.filename (p.lineOf n.span.start) (p.columnOf n.span.start)

end Program

/-! ## The program rule never fails -/

theorem iterate_ne_missing {source : Text} {α : Type}
    (step : Cursor source → Option (Reply source α)) (bound : Text) :
    ∀ c, iterate step bound c ≠ some .missing := by
  induction bound with
  | nil => intro c h; cases h
  | cons _ bound ih =>
    intro c h
    unfold iterate at h
    split at h
    · cases h
    · split at h
      · cases h
      · cases h
      · split at h
        · cases h
        · rename_i a next _ _
          cases hi : iterate step bound next with
          | none => simp [hi] at h
          | some reply =>
            cases reply with
            | missing => exact ih next hi
            | found as last => simp [hi] at h

theorem gap_ne_missing {source : Text} (depth : Nat) (c : Cursor source) :
    ScriptGrammar.gap.eval (scriptGrammar.eval depth) c ≠ some .missing := by
  cases depth with
  | zero => exact nofun
  | succ depth =>
    change (Peg.lexeme Lexeme.trivia).eval (scriptGrammar.eval depth) c ≠ some .missing
    simp [Peg.eval, Lexeme.length?]

theorem program_ne_missing {source : Text} {c : Cursor source} :
    ¬ Settles scriptGrammar (.rule Rule.program) c .missing := by
  rintro ⟨depth, h⟩
  cases depth with
  | zero => exact nomatch h
  | succ depth =>
    change (Peg.seq (fun _ b => b) ScriptGrammar.gap
      (.many (ScriptGrammar.ref .statement))).eval (scriptGrammar.eval depth) c = some .missing at h
    simp only [Peg.eval] at h
    split at h
    · cases h
    · exact gap_ne_missing _ _ ‹_›
    · split at h
      · cases h
      · exact iterate_ne_missing _ _ _ ‹_›
      · cases h

/-! ## Parsing -/

/-- Why a text is not accepted as a script. -/
inductive ParseFailure
  /-- No statement begins at this offset, where the last complete one ends. -/
  | unexpected (offset : Nat)
  /-- The rules nest too deeply. -/
  | tooDeep
  /-- The first token that stands for nothing. -/
  | malformed (fault : Fault)

/-- Reads a script, as long as no more than `depth` rules of the grammar are inside each other. -/
def parseWithin (depth : Nat) (source filename : Text) : Except ParseFailure Program :=
  match scriptGrammar.match depth .program source with
  | .tooDeep => .error .tooDeep
  | .settled .missing h => absurd h program_ne_missing
  | .settled (.found statements next) _ =>
    if next.atEnd then
      match Sketch.readList statements with
      | .ok body => .ok ⟨body, source, filename⟩
      | .error fault => .error (.malformed fault)
    else .error (.unexpected next.offset)

/-- Enough for scripts that nest some eighty levels deep in any way. -/
def nestingLimit : Nat := 2400

def parse (source filename : Text) : Except ParseFailure Program :=
  parseWithin nestingLimit source filename

namespace ParseFailure

/-- How a message names the fault of a token. -/
def faultName : Fault → String
  | .noNumber | .noCodePoint => "ValueError"
  | .beyondMeasure => "OverflowError"

/-- The next twenty code points of the source, as far as they are on one line. -/
def snippet (source : Text) (offset : Nat) : Text :=
  ((source.drop offset).take 20).takeWhile (· != CodePoint.ofChar '\n')

def report (source filename : Text) : ParseFailure → AuditError
  | unexpected offset =>
    let found := snippet source offset
    .unreadable
      (if found.isEmpty then Text.ofString "Unexpected end of input" else "Unexpected input " ++ found.quoted)
      (.ofOffset source offset filename) Rule.program.name []
  | tooDeep => .unreadable "Script nests too deeply to parse" (.inFile filename) [] []
  | malformed fault =>
    .unreadable ("Malformed construct: " ++ Text.ofString (faultName fault)) (.inFile filename) [] []

end ParseFailure

/-- Reads a script or reports why not. -/
def Program.read (source filename : Text) : Except AuditError Program :=
  (parse source filename).mapError (·.report source filename)

end ScriptAudit
