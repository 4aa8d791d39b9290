/-
Loops that freeze the game. A script gives control back only where it awaits, so a `while (true)` loop
with no `await` anywhere in it never does. The check looks at the text alone: only `while` counts, the
test must be the word `true`, and an `await` in a nested function makes the loop safe.
-/
import ScriptAudit.Script.Program

namespace ScriptAudit

namespace Node

/-- Something in the tree awaits. -/
def containsAwait (n : Tree) : Bool := (n.find? fun m => m.kind = .awaitExpression).isSome

/-- The word `true`; what would come out true does not count. -/
def isTrueLiteral (n : Tree) : Bool :=
  match n.form with
  | .literal _ raw => raw == Text.ofString "true"
  | _ => false

/-- A `while (true)` loop that never awaits. -/
def isCondemned (n : Tree) : Bool :=
  match n.form with
  | .whileStatement test _ => test.isTrueLiteral && !n.containsAwait
  | _ => false

end Node

/-- The search for loops goes into the body of a `while` and not into its test. -/
def Descent.throughBodies : Descent Value where
  into n := match n.form with
    | .whileStatement _ body => [body]
    | _ => n.children
  mem_children {n c} h := by
    obtain ⟨form, span⟩ := n
    cases form <;> first
      | exact h
      | simp_all [Node.children, Form.children, Form.slots, Slot.children]

/-- Where an unsafe loop is. -/
structure LoopFinding where
  line : Nat
  column : Int
  filename : Text

namespace Program

/-- The first unsafe loop of a script. -/
def unsafeLoop? (p : Program) : Option Tree := (p.root.preorder .throughBodies).find? Node.isCondemned

def loopFinding? (p : Program) : Option LoopFinding :=
  p.unsafeLoop?.map fun loop => ⟨p.lineOf loop.span.start, p.columnOf loop.span.start, p.filename⟩

end Program

/-- Reads a script and looks for an unsafe loop. -/
def checkLoops (source filename : Text) : Except AuditError (Option LoopFinding) :=
  (Program.read source filename).map Program.loopFinding?

end ScriptAudit
