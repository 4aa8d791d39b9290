/-
Cursors: an offset into a source together with the text from there on. The offset alone determines
the cursor, which is what lets a table be keyed by offsets.
-/
import ScriptAudit.Text.Basic

namespace ScriptAudit

structure Cursor (source : Text) where
  offset : Nat
  rest : Text
  rest_eq : rest = source.drop offset

namespace Cursor

variable {source : Text}

theorem ext_offset {c d : Cursor source} (h : c.offset = d.offset) : c = d := by
  obtain ⟨i, s, hs⟩ := c
  obtain ⟨j, t, ht⟩ := d
  simp only at h
  subst h hs ht
  rfl

/-- The beginning of the source. -/
def start (source : Text) : Cursor source := ⟨0, source, rfl⟩

/-- The cursor `n` code points further on. -/
def advance (c : Cursor source) (n : Nat) : Cursor source where
  offset := c.offset + n
  rest := c.rest.drop n
  rest_eq := by rw [c.rest_eq, List.drop_drop]

/-- No text is left. -/
def atEnd (c : Cursor source) : Bool := c.rest.isEmpty

end Cursor

end ScriptAudit
