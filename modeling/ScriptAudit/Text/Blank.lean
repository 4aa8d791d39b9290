/-
The code points with the Unicode property White_Space: what may stand between the tokens of a script
and around a whole number.
-/
import ScriptAudit.Text.Basic

namespace ScriptAudit

/-- White_Space: tab to carriage return, the spaces, and the line and paragraph separators.
U+001C to U+001F, U+200B and U+FEFF are not among them. -/
def CodePoint.isBlank (c : CodePoint) : Bool :=
  (9 ≤ c.val && c.val ≤ 13) || c.val == 0x20 || c.val == 0x85 || c.val == 0xA0 || c.val == 0x1680
    || (0x2000 ≤ c.val && c.val ≤ 0x200A) || c.val == 0x2028 || c.val == 0x2029 || c.val == 0x202F
    || c.val == 0x205F || c.val == 0x3000

/-- The text without the blanks at both ends. -/
def Text.trim (t : Text) : Text :=
  ((t.dropWhile CodePoint.isBlank).reverse.dropWhile CodePoint.isBlank).reverse

end ScriptAudit
