/-
Visitors: a method for some kinds of nodes, and for all others a general way of visiting. Depth-first,
the general way enters the node, visits its children and leaves it; otherwise it does nothing. A method
takes over the visit of its node and may hand it on to the general way.
-/
import ScriptAudit.Tree.Token

namespace ScriptAudit

/-- Words written together, each with a capital letter, become words in lower case with underscores
between them. -/
def Text.snakeCase : Text → Text
  | [] => []
  | first :: rest =>
    let lower (c : CodePoint) : CodePoint :=
      if CodePoint.between 'A' 'Z' c then (CodePoint.ofNat? (c.val + 32)).getD c else c
    lower first :: rest.flatMap fun c =>
      if CodePoint.between 'A' 'Z' c then ['_', lower c] else [c]

/-- The method for a kind of node. -/
def Kind.methodName (kind : Kind) : Text := "visit_" ++ Text.snakeCase kind.name

inductive Event
  | called (method : Text) (node : Tree)
  | enter (node : Tree)
  | leave (node : Tree)

structure Visitor where
  depthFirst : Bool
  /-- Whether entering and leaving are noted. -/
  hooks : Bool
  /-- The names of the methods; those that descend hand the node on to the general way. -/
  methods : List (Text × Bool)

namespace Visitor

def method? (v : Visitor) (kind : Kind) : Option (Text × Bool) :=
  v.methods.find? (·.1 == kind.methodName)

/-- The events of a visit, in order. -/
def events (v : Visitor) (n : Tree) : List Event :=
  let noted (event : Event) : List Event := if v.hooks then [event] else []
  let general : List Event :=
    if v.depthFirst then
      noted (.enter n) ++ (n.children.attach.flatMap fun ⟨c, _⟩ => v.events c) ++ noted (.leave n)
    else []
  match v.method? n.kind with
  | none => general
  | some (name, descends) => .called name n :: if descends then general else []
termination_by n
decreasing_by exact Node.sizeOf_lt_of_mem_children ‹_›

/-- What a visit returns: the name of the method, if there is one. -/
def result (v : Visitor) (n : Tree) : Option Text := (v.method? n.kind).map (·.1)

end Visitor

end ScriptAudit
