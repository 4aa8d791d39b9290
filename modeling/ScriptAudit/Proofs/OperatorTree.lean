/-
Trees of operators over names, and how they are written: with one space on either side of an operator and
with parentheses only where the levels of the operators ask for them.
-/
import ScriptAudit.Proofs.Foresight
import ScriptAudit.Tree.Fold

namespace ScriptAudit

/-! ## Operators -/

/-- An operator between two operands. -/
inductive InfixOp
  | logical (op : LogicalOp)
  | binary (op : BinaryOp)
  deriving DecidableEq

namespace InfixOp

def symbol : InfixOp → String
  | logical op => op.symbol
  | binary op => op.symbol

/-- The operator with a space on either side. -/
def text (op : InfixOp) : Text := ' ' :: (Text.ofString op.symbol ++ [CodePoint.ofChar ' '])

/-- How tightly an operator binds, from 1 to 11. -/
def level : InfixOp → Nat
  | logical .or | logical .coalesce => 1
  | logical .and => 2
  | binary .bitOr => 3
  | binary .bitXor => 4
  | binary .bitAnd => 5
  | binary .strictEq | binary .strictNe | binary .looseEq | binary .looseNe => 6
  | binary .le | binary .ge | binary .lt | binary .gt | binary .instanceOf | binary .isIn => 7
  | binary .shiftRightUnsigned | binary .shiftLeft | binary .shiftRight => 8
  | binary .add | binary .sub => 9
  | binary .mul | binary .div | binary .rem => 10
  | binary .power => 11

/-- Powers associate to the right, all others to the left. -/
def associatesRight (op : InfixOp) : Bool := op == .binary .power

def all : List InfixOp :=
  [logical .or, logical .coalesce, logical .and, binary .bitOr, binary .bitXor, binary .bitAnd,
   binary .strictEq, binary .strictNe, binary .looseEq, binary .looseNe, binary .le, binary .ge,
   binary .lt, binary .gt, binary .instanceOf, binary .isIn, binary .shiftRightUnsigned,
   binary .shiftLeft, binary .shiftRight, binary .add, binary .sub, binary .mul, binary .div,
   binary .rem, binary .power]

theorem mem_all (op : InfixOp) : op ∈ all := by
  cases op with
  | logical op => cases op <;> decide
  | binary op => cases op <;> decide

theorem level_pos (op : InfixOp) : 1 ≤ op.level := by
  cases op with
  | logical op => cases op <;> decide
  | binary op => cases op <;> decide

theorem level_le (op : InfixOp) : op.level ≤ 11 := by
  cases op with
  | logical op => cases op <;> decide
  | binary op => cases op <;> decide

theorem level_eq_iff (op : InfixOp) : op.level = 11 ↔ op = .binary .power := by
  cases op with
  | logical op => cases op <;> decide
  | binary op => cases op <;> decide

theorem associatesRight_iff (op : InfixOp) : op.associatesRight = true ↔ op.level = 11 := by
  rw [level_eq_iff, associatesRight, beq_iff_eq]

end InfixOp

/-! ## Trees -/

/-- Names with operators between them. -/
inductive Infix
  | name (n : VarName)
  | apply (left : Infix) (op : InfixOp) (right : Infix)

namespace Infix

/-- A name binds tighter than all operators. -/
def level : Infix → Nat
  | name _ => 12
  | apply _ op _ => op.level

/-- The operand binds less tightly than the operator, or as tightly on the side to which the operator
does not associate. -/
def needsParens (op : InfixOp) (onRight : Bool) : Infix → Bool
  | name _ => false
  | apply _ inner _ =>
    inner.level < op.level || (inner.level == op.level && onRight != op.associatesRight)

/-- An operand as it is written, in parentheses or not. -/
def operandText (parens : Bool) (text : Text) : Text :=
  if parens then '(' :: (text ++ [CodePoint.ofChar ')']) else text

def render : Infix → Text
  | name n => n.text
  | apply left op right =>
    operandText (left.needsParens op false) left.render
      ++ (op.text ++ operandText (right.needsParens op true) right.render)

/-- The syntax tree, with all spans empty. -/
def node {ℓ : Type} : Infix → Node ℓ
  | name n => ⟨.identifier n.text, ⟨0, 0⟩⟩
  | apply left (.logical op) right => ⟨.logicalExpression left.node op right.node, ⟨0, 0⟩⟩
  | apply left (.binary op) right => ⟨.binaryExpression left.node op right.node, ⟨0, 0⟩⟩

theorem level_pos (t : Infix) : 1 ≤ t.level := by
  cases t with
  | name n => exact Nat.succ_pos 11
  | apply left op right => exact op.level_pos

/-- What stands on the left without parentheses binds at least as tightly, and tighter than a power. -/
theorem le_level_of_left {t : Infix} {op : InfixOp} (h : t.needsParens op false = false) :
    op.level ≤ t.level ∧ (op.level = 11 → t.level = 12) := by
  cases t with
  | name n => exact ⟨Nat.le_succ_of_le op.level_le, fun _ => rfl⟩
  | apply left inner right =>
    have := inner.level_le
    have hpower := op.associatesRight_iff
    simp only [needsParens, Bool.or_eq_false_iff, decide_eq_false_iff_not, Bool.and_eq_false_iff,
      beq_eq_false_iff_ne, bne_eq_false_iff_eq, level] at h ⊢
    cases hop : op.associatesRight with
    | false =>
      have : op.level ≠ 11 := by
        intro heq
        rw [hpower.mpr heq] at hop
        cases hop
      omega
    | true =>
      have := hpower.mp hop
      rw [hop] at h
      rcases h with ⟨_, _ | h⟩
      · omega
      · cases h

/-- What stands on the right without parentheses binds tighter, or as tightly as a power. -/
theorem le_level_of_right {t : Infix} {op : InfixOp} (h : t.needsParens op true = false) :
    op.level ≤ t.level ∧ (op.level < 11 → op.level < t.level) := by
  cases t with
  | name n =>
    have := op.level_le
    simp only [level]
    omega
  | apply left inner right =>
    have := inner.level_le
    have hpower := op.associatesRight_iff
    simp only [needsParens, Bool.or_eq_false_iff, decide_eq_false_iff_not, Bool.and_eq_false_iff,
      beq_eq_false_iff_ne, bne_eq_false_iff_eq, level] at h ⊢
    cases hop : op.associatesRight with
    | false =>
      rw [hop] at h
      rcases h with ⟨_, _ | h⟩
      · omega
      · cases h
    | true =>
      have := hpower.mp hop
      omega

/-- How many rules of the grammar parentheses add: those from an operand to the expression in them. -/
def parensNesting (parens : Bool) : Nat := if parens then 19 else 0

/-- How many rules of the grammar are inside each other for the tree, apart from a fixed number. It takes
one more to come from a power to its exponent. -/
def nesting : Infix → Nat
  | name _ => 0
  | apply left op right =>
    max (left.nesting + parensNesting (left.needsParens op false))
      (right.nesting + parensNesting (right.needsParens op true) + if op.associatesRight then 1 else 0)

theorem left_nesting_le (left : Infix) (op : InfixOp) (right : Infix) :
    left.nesting + parensNesting (left.needsParens op false) ≤ (apply left op right).nesting :=
  Nat.le_max_left _ _

theorem right_nesting_le (left : Infix) (op : InfixOp) (right : Infix) :
    right.nesting + parensNesting (right.needsParens op true) + (if op.associatesRight then 1 else 0)
      ≤ (apply left op right).nesting :=
  Nat.le_max_right _ _

end Infix

/-! ## Syntax trees without their spans -/

/-- The tree with all spans empty. -/
def Node.unspanned {ℓ : Type} (n : Node ℓ) : Node ℓ := n.fold fun form _ => ⟨form, ⟨0, 0⟩⟩

/-- The syntax tree is that of the operators and names, whatever the spans. -/
inductive Depicts {ℓ : Type} : Node ℓ → Infix → Prop
  | name (n : VarName) (span : Span) : Depicts ⟨.identifier n.text, span⟩ (.name n)
  | logical {l r : Node ℓ} {t u : Infix} (op : LogicalOp) (span : Span) (hl : Depicts l t) (hr : Depicts r u) :
    Depicts ⟨.logicalExpression l op r, span⟩ (.apply t (.logical op) u)
  | binary {l r : Node ℓ} {t u : Infix} (op : BinaryOp) (span : Span) (hl : Depicts l t) (hr : Depicts r u) :
    Depicts ⟨.binaryExpression l op r, span⟩ (.apply t (.binary op) u)

theorem Depicts.unspanned_eq {ℓ : Type} {n : Node ℓ} {t : Infix} (h : Depicts n t) :
    n.unspanned = t.node := by
  induction h with
  | name n span => rfl
  | logical op span hl hr ihl ihr =>
    rw [Infix.node, ← ihl, ← ihr]
    rfl
  | binary op span hl hr ihl ihr =>
    rw [Infix.node, ← ihl, ← ihr]
    rfl

/-- Names and operators have no tokens to read, so reading keeps them. -/
theorem Depicts.read {n : Sketch} {t : Infix} (h : Depicts n t) :
    ∃ tree : Tree, Sketch.read n = .ok tree ∧ Depicts tree t := by
  induction h with
  | name n span => exact ⟨⟨.identifier n.text, span⟩, rfl, .name n span⟩
  | logical op span hl hr ihl ihr =>
    obtain ⟨l, hl, hl'⟩ := ihl
    obtain ⟨r, hr, hr'⟩ := ihr
    refine ⟨⟨.logicalExpression l op r, span⟩, ?_, .logical op span hl' hr'⟩
    simp only [Sketch.read, Sketch.readForm, hl, hr]
    rfl
  | binary op span hl hr ihl ihr =>
    obtain ⟨l, hl, hl'⟩ := ihl
    obtain ⟨r, hr, hr'⟩ := ihr
    refine ⟨⟨.binaryExpression l op r, span⟩, ?_, .binary op span hl' hr'⟩
    simp only [Sketch.read, Sketch.readForm, hl, hr]
    rfl

end ScriptAudit
