/-
Nodes: a layer of syntax at a span of the source. A node's children are smaller than it, so a tree can
be searched from the top, through all children (`Descent.full`) or only through some of them, by
recursion (`Node.preorder`) or with a stack (`Node.search`).
-/
import ScriptAudit.Tree.Form

namespace ScriptAudit

/-- The code points from offset `start` up to and without `stop`. -/
structure Span where
  start : Nat
  stop : Nat
  deriving DecidableEq

structure Node (ℓ : Type) where
  form : Form ℓ (Node ℓ)
  span : Span

namespace Node

variable {ℓ : Type}

def kind (n : Node ℓ) : Kind := n.form.kind

def children (n : Node ℓ) : List (Node ℓ) := n.form.children

/-! ## Children are smaller -/

theorem sizeOf_lt_of_mem [SizeOf ℓ] {c : Node ℓ} {xs : List (Node ℓ)} {n : Nat} (h : c ∈ xs)
    (hn : sizeOf xs ≤ n) : sizeOf c < n :=
  Nat.lt_of_lt_of_le (List.sizeOf_lt_of_mem h) hn

theorem sizeOf_lt_of_mem_toList [SizeOf ℓ] {c : Node ℓ} {x : Option (Node ℓ)} {n : Nat} (h : c ∈ x.toList)
    (hn : sizeOf x ≤ n) : sizeOf c < n := by
  cases x with
  | none => simp at h
  | some y =>
    have hc : c = y := by simpa using h
    subst hc
    simp at hn
    omega

theorem sizeOf_lt_of_mem_children [SizeOf ℓ] {c n : Node ℓ} (h : c ∈ n.children) :
    sizeOf c < sizeOf n := by
  obtain ⟨form, span⟩ := n
  revert c
  cases form <;>
    simp only [children, Form.children, Form.slots, Slot.children, List.flatMap_cons,
      List.flatMap_nil, List.append_nil, List.nil_append, List.singleton_append, List.mem_append,
      List.mem_cons, List.not_mem_nil, or_imp, forall_and, forall_eq, false_imp_iff, implies_true,
      and_true] <;>
    (try refine ⟨?_, ?_⟩) <;> (try refine ⟨?_, ?_⟩) <;> (try refine ⟨?_, ?_⟩) <;>
    first
    | (simp; omega)
    | (intro c h; refine sizeOf_lt_of_mem h ?_; simp; omega)
    | (intro c h; refine sizeOf_lt_of_mem_toList h ?_; simp; omega)

/-- What holds of a node whenever it holds of its children holds of every node. -/
theorem induction {P : Node ℓ → Prop} (step : ∀ n, (∀ c ∈ n.children, P c) → P n) (n : Node ℓ) :
    P n :=
  step n fun c _ => induction step c
termination_by n
decreasing_by exact sizeOf_lt_of_mem_children ‹_›

end Node

/-! ## Searching from the top -/

/-- Which children of a node a search goes into. -/
structure Descent (ℓ : Type) where
  into : Node ℓ → List (Node ℓ)
  mem_children : ∀ {n c}, c ∈ into n → c ∈ n.children

namespace Descent

variable {ℓ : Type}

/-- Into every child. -/
def full : Descent ℓ := ⟨Node.children, id⟩

/-- Into every child of the nodes that `closed` does not close. -/
def stoppingAt (closed : Node ℓ → Bool) : Descent ℓ where
  into n := if closed n then [] else n.children
  mem_children {n c} h := by
    cases hc : closed n with
    | true => simp [hc] at h
    | false => simpa [hc] using h

end Descent

namespace Node

variable {ℓ : Type}

/-- A node and what the search finds below it, each node before its children. -/
def preorder (d : Descent ℓ) (n : Node ℓ) : List (Node ℓ) :=
  n :: (d.into n).attach.flatMap fun ⟨c, _⟩ => c.preorder d
termination_by n
decreasing_by exact sizeOf_lt_of_mem_children (d.mem_children ‹_›)

theorem preorder_eq (d : Descent ℓ) (n : Node ℓ) :
    n.preorder d = n :: (d.into n).flatMap (preorder d) := by
  rw [preorder, List.flatMap_subtype (g := fun c => c.preorder d) (by simp), List.unattach_attach]

/-- The nodes put on the stack from the last to the first, so that the first one is on top. -/
def stacked (stack ns : List (Node ℓ)) : List (Node ℓ) := ns.reverse.foldl (fun stack n => n :: stack) stack

theorem stacked_eq (stack ns : List (Node ℓ)) : stacked stack ns = ns ++ stack := by
  rw [stacked, List.foldl_flip_cons_eq_append, List.map_id', List.reverse_reverse]

/-- The same search with a stack of the nodes that are still to come. -/
def search (d : Descent ℓ) : List (Node ℓ) → List (Node ℓ)
  | [] => []
  | n :: stack => n :: search d (stacked stack (d.into n))
termination_by stack => (stack.flatMap (preorder d)).length
decreasing_by simp [stacked_eq, preorder_eq d n]

/-- All nodes of a tree, each before its children. -/
def nodes (n : Node ℓ) : List (Node ℓ) := n.preorder .full

/-- The first node of the tree that satisfies `p`. -/
def find? (p : Node ℓ → Bool) (n : Node ℓ) : Option (Node ℓ) := n.nodes.find? p

end Node

end ScriptAudit
