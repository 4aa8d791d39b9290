/-
The names a script uses: all identifiers of its tree, each once and in the order of their first use.
The key of a property says nothing about the script unless it is computed, so it is passed over.
-/
import ScriptAudit.Script.Program

namespace ScriptAudit

/-- The search for names passes over the keys of properties that are not computed. -/
def Descent.pastKeys : Descent Value where
  into n := match n.form with
    | .property _ value false _ _ => [value]
    | _ => n.children
  mem_children {n c} h := by
    obtain ⟨form, span⟩ := n
    cases form <;> first
      | exact h
      | (rename_i computed _ _
         cases computed <;> simp_all [Node.children, Form.children, Form.slots, Slot.children])

namespace Node

def name? (n : Tree) : Option Text :=
  match n.form with
  | .identifier name => some name
  | _ => none

/-- The names used in a tree, each once, in the order of first use. -/
def referencedNames (n : Tree) : List Text :=
  ((n.preorder .pastKeys).filterMap name?).eraseDups

end Node

end ScriptAudit
