/-
Lines and columns. Both count from one, and only `\n` ends a line. An offset below zero counts back
from the end when the lines before it are counted, as far back as the beginning.
-/
import ScriptAudit.Text.Basic

namespace ScriptAudit

namespace Text

/-- What stands before an offset. -/
def upTo (t : Text) (offset : Int) : Text :=
  t.take (if offset < 0 then t.length + offset else offset).toNat

/-- The number of the line an offset is on. -/
def lineAt (t : Text) (offset : Int) : Nat := (t.upTo offset).count (CodePoint.ofChar '\n') + 1

/-- The offset at which the line of an offset begins. -/
def lineStart (t : Text) (offset : Int) : Nat :=
  let before := t.upTo offset
  before.length - (before.reverse.takeWhile (· != CodePoint.ofChar '\n')).length

/-- The number of an offset within its line. -/
def columnAt (t : Text) (offset : Int) : Int := offset - t.lineStart offset + 1

end Text

/-- A place in a file, from one line and column to another; zero stands for what is not known. -/
structure Place where
  file : Text
  line : Int
  column : Int
  endLine : Int
  endColumn : Int

namespace Place

/-- An end that is not known is the beginning. -/
def spanning (file : Text) (line column endLine endColumn : Int) : Place :=
  ⟨file, line, column, if endLine = 0 then line else endLine,
    if endColumn = 0 then column else endColumn⟩

def point (file : Text) (line column : Int) : Place := spanning file line column 0 0

/-- Somewhere in a file. -/
def inFile (file : Text) : Place := point file 0 0

/-- Not known at all. -/
def unknown : Place := inFile []

/-- The place of an offset; one outside the text counts as the nearer end. -/
def ofOffset (text : Text) (offset : Int) (file : Text) : Place :=
  let offset := max 0 (min offset text.length)
  point file (text.lineAt offset) (text.columnAt offset)

/-- The known parts of file, line and column. A column says nothing without its line. -/
def text (p : Place) : Text :=
  if p.file.isEmpty && p.line = 0 then "<unknown location>"
  else
    let file := if p.file.isEmpty then [] else [p.file]
    let line := if 0 < p.line then [Text.ofInt p.line] else []
    let column := if 0 < p.line && 0 < p.column then [Text.ofInt p.column] else []
    Text.join ":" (file ++ line ++ column)

end Place

end ScriptAudit
