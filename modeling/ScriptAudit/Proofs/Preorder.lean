/-
Searching trees from the top: who is found by a search, and properties of all nodes of a tree.
-/
import ScriptAudit.Tree.Node

namespace ScriptAudit.Node

variable {ℓ : Type}

theorem nodes_eq (n : Node ℓ) : n.nodes = n :: n.children.flatMap nodes := preorder_eq .full n

theorem mem_preorder_iff {d : Descent ℓ} {m n : Node ℓ} :
    m ∈ n.preorder d ↔ m = n ∨ ∃ c ∈ d.into n, m ∈ c.preorder d := by
  rw [preorder_eq, List.mem_cons, List.mem_flatMap]

theorem mem_nodes_iff {m n : Node ℓ} : m ∈ n.nodes ↔ m = n ∨ ∃ c ∈ n.children, m ∈ c.nodes :=
  mem_preorder_iff

theorem mem_nodes_self (n : Node ℓ) : n ∈ n.nodes := mem_nodes_iff.mpr (.inl rfl)

theorem mem_nodes_of_mem_children {m c n : Node ℓ} (hc : c ∈ n.children) (hm : m ∈ c.nodes) :
    m ∈ n.nodes :=
  mem_nodes_iff.mpr (.inr ⟨c, hc, hm⟩)

/-- A search finds nodes of the tree only. -/
theorem mem_nodes_of_mem_preorder {d : Descent ℓ} {m n : Node ℓ} (h : m ∈ n.preorder d) :
    m ∈ n.nodes := by
  induction n using Node.induction with
  | step n ih =>
    rcases mem_preorder_iff.mp h with rfl | ⟨c, hc, hm⟩
    · exact mem_nodes_self m
    · exact mem_nodes_of_mem_children (d.mem_children hc) (ih c (d.mem_children hc) hm)

theorem mem_preorder_trans {d : Descent ℓ} {k m n : Node ℓ} (hk : k ∈ m.preorder d)
    (hm : m ∈ n.preorder d) : k ∈ n.preorder d := by
  induction n using Node.induction with
  | step n ih =>
    rcases mem_preorder_iff.mp hm with rfl | ⟨c, hc, hm⟩
    · exact hk
    · exact mem_preorder_iff.mpr (.inr ⟨c, hc, ih c (d.mem_children hc) hm⟩)

theorem mem_nodes_trans {k m n : Node ℓ} (hk : k ∈ m.nodes) (hm : m ∈ n.nodes) : k ∈ n.nodes :=
  mem_preorder_trans hk hm

/-! ## Nodes in the order of the search -/

/-- The nodes of a tree come in the order that they have in a larger one. -/
theorem nodes_sublist_of_mem {m n : Node ℓ} (h : m ∈ n.nodes) : List.Sublist m.nodes n.nodes := by
  induction n using Node.induction with
  | step n ih =>
    rcases mem_nodes_iff.mp h with rfl | ⟨c, hc, hm⟩
    · exact .refl _
    · have hchild : List.Sublist c.nodes (n.children.flatMap nodes) :=
        List.sublist_flatten_of_mem (List.mem_map_of_mem hc)
      rw [nodes_eq n]
      exact ((ih c hc hm).trans hchild).cons n

theorem sublist_flatMap_nodes (cs : List (Node ℓ)) : List.Sublist cs (cs.flatMap nodes) := by
  induction cs with
  | nil => exact .refl _
  | cons c cs ih =>
    rw [List.flatMap_cons, nodes_eq c, List.cons_append]
    exact (ih.trans (List.sublist_append_right _ _)).cons_cons c

/-- Children are found in their order. -/
theorem children_sublist_nodes (n : Node ℓ) : List.Sublist n.children n.nodes := by
  rw [nodes_eq n]
  exact (sublist_flatMap_nodes n.children).cons n

/-! ## Properties of all nodes -/

/-- All nodes of the tree have the property. -/
def All (P : Node ℓ → Prop) (n : Node ℓ) : Prop := ∀ m ∈ n.nodes, P m

theorem all_iff {P : Node ℓ → Prop} {n : Node ℓ} : n.All P ↔ P n ∧ ∀ c ∈ n.children, c.All P := by
  constructor
  · exact fun h => ⟨h n (mem_nodes_self n), fun c hc m hm => h m (mem_nodes_of_mem_children hc hm)⟩
  · rintro ⟨hn, hc⟩ m hm
    rcases mem_nodes_iff.mp hm with rfl | ⟨c, hmem, hm⟩
    · exact hn
    · exact hc c hmem m hm

namespace All

variable {P : Node ℓ → Prop} {n : Node ℓ}

theorem self (h : n.All P) : P n := h n (mem_nodes_self n)

theorem child {c : Node ℓ} (h : n.All P) (hc : c ∈ n.children) : c.All P := (all_iff.mp h).2 c hc

end All

end ScriptAudit.Node
