/-
How a text is quoted inside a message: between single quotes, or between double quotes where it holds
a single quote and no double one. Backslashes, the quote in use and whatever cannot be shown are
escaped.
-/
import ScriptAudit.Text.Printable

namespace ScriptAudit.Text

/-- Single quotes, unless only double quotes spare an escape. -/
def quoteMark (t : Text) : CodePoint :=
  if t.contains '\'' && !t.contains '"' then '"' else '\''

/-- One code point between quotes. -/
def quotedPoint (mark c : CodePoint) : Text :=
  if c = mark || c = '\\' then ['\\', c]
  else if c = '\n' then "\\n"
  else if c = '\r' then "\\r"
  else if c = '\t' then "\\t"
  else if c.isPrintable then [c]
  else if c.val < 0x100 then "\\x" ++ hex 2 c.val
  else if c.val < 0x10000 then "\\u" ++ hex 4 c.val
  else "\\U" ++ hex 8 c.val

def quoted (t : Text) : Text :=
  let mark := quoteMark t
  mark :: t.flatMap (quotedPoint mark) ++ [mark]

end ScriptAudit.Text
