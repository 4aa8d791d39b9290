/-
Trees further on in the source. Moving a tree changes its spans and nothing else, so it does not matter whether
its tokens are worked out before or after (`read_shift`), and a search finds in the moved tree what it finds in
the tree itself (`preorder_shift`).
-/
import ScriptAudit.Proofs.Preorder
import ScriptAudit.Proofs.Related
import ScriptAudit.Script.Loops
import ScriptAudit.Script.Names
import ScriptAudit.Tree.Fold

namespace ScriptAudit

variable {ℓ : Type} {k : Nat}

namespace Node

/-- The tree `k` code points further on. -/
def shift (k : Nat) (n : Node ℓ) : Node ℓ := n.fold fun form span => ⟨form, span.shift k⟩

theorem shift_mk (form : Form ℓ (Node ℓ)) (span : Span) :
    shift k ⟨form, span⟩ = ⟨form.map (shift k), span.shift k⟩ := fold_eq _ _

theorem eq_shift {m n : Node ℓ} (hform : m.form = n.form.map (shift k)) (hspan : m.span = n.span.shift k) :
    m = n.shift k := by
  obtain ⟨form, span⟩ := n
  obtain ⟨form', span'⟩ := m
  rw [shift_mk]
  exact congrArg₂ Node.mk hform hspan

@[simp]
theorem span_shift (n : Node ℓ) : (n.shift k).span = n.span.shift k := by
  obtain ⟨form, span⟩ := n
  rw [shift_mk]

theorem children_shift (n : Node ℓ) : (n.shift k).children = n.children.map (shift k) := by
  obtain ⟨form, span⟩ := n
  rw [shift_mk]
  exact form.children_map _

theorem kind_shift (n : Node ℓ) : (n.shift k).kind = n.kind := by
  obtain ⟨form, span⟩ := n
  rw [shift_mk]
  cases form <;> rfl

end Node

/-! ## Reading -/

namespace Sketch

theorem readList_shift {ns : List Sketch} (h : ∀ n ∈ ns, read (n.shift k) = Node.shift k <$> read n) :
    readList (ns.map (Node.shift k)) = List.map (Node.shift k) <$> readList ns := by
  induction ns with
  | nil => rfl
  | cons n ns ih =>
    rw [List.forall_mem_cons] at h
    simp only [List.map_cons, readList, h.1, ih h.2, bind_map_left, map_bind, map_pure]

theorem readOption_shift {n : Option Sketch} (h : ∀ m ∈ n.toList, read (m.shift k) = Node.shift k <$> read m) :
    readOption (n.map (Node.shift k)) = Option.map (Node.shift k) <$> readOption n := by
  cases n with
  | none => rfl
  | some n => simp only [Option.map_some, readOption, h n (by simp), bind_map_left, map_bind, map_pure]

theorem readForm_shift {form : Form TokenClass Sketch}
    (h : ∀ c ∈ form.children, read (c.shift k) = Node.shift k <$> read c) :
    readForm (form.map (Node.shift k)) = Form.map (Node.shift k) <$> readForm form := by
  have hlist : ∀ ns, (∀ c ∈ ns, c ∈ form.children) →
      readList (ns.map (Node.shift k)) = List.map (Node.shift k) <$> readList ns :=
    fun ns hns => readList_shift fun c hc => h c (hns c hc)
  have hoption : ∀ n : Option Sketch, (∀ c ∈ n.toList, c ∈ form.children) →
      readOption (n.map (Node.shift k)) = Option.map (Node.shift k) <$> readOption n :=
    fun n hn => readOption_shift fun c hc => h c (hn c hc)
  cases form <;>
    simp (disch := simp +contextual [Form.children, Form.slots, Slot.children]) only [Form.map, readForm, h, hlist,
      hoption, bind_map_left, map_bind, map_pure]

theorem read_shift (n : Sketch) : read (n.shift k) = Node.shift k <$> read n := by
  induction n using Node.induction with
  | step n ih =>
    obtain ⟨form, span⟩ := n
    have hform := readForm_shift ih
    rw [Node.shift_mk]
    simp only [read, hform, bind_map_left, map_bind, map_pure, Node.shift_mk]

end Sketch

/-! ## Searching -/

namespace Node

/-- A search that goes into the same children of a moved node finds the moved nodes. -/
theorem preorder_shift {d : Descent ℓ} (hd : ∀ n, d.into (shift k n) = (d.into n).map (shift k)) (n : Node ℓ) :
    (n.shift k).preorder d = (n.preorder d).map (shift k) := by
  induction n using Node.induction with
  | step n ih =>
    rw [preorder_eq, preorder_eq, hd, List.map_cons, List.flatMap_map, List.map_flatMap]
    exact congrArg _ (List.flatMap_congr fun c hc => ih c (d.mem_children hc))

theorem nodes_shift (n : Node ℓ) : (n.shift k).nodes = n.nodes.map (shift k) := preorder_shift children_shift n

theorem into_throughBodies_shift (n : Tree) :
    Descent.throughBodies.into (n.shift k) = (Descent.throughBodies.into n).map (shift k) := by
  have hchildren := children_shift (k := k) n
  obtain ⟨form, span⟩ := n
  rw [shift_mk] at hchildren ⊢
  cases form with
  | whileStatement test body => rfl
  | _ => exact hchildren

theorem into_pastKeys_shift (n : Tree) :
    Descent.pastKeys.into (n.shift k) = (Descent.pastKeys.into n).map (shift k) := by
  have hchildren := children_shift (k := k) n
  obtain ⟨form, span⟩ := n
  rw [shift_mk] at hchildren ⊢
  cases form with
  | property key value computed shorthand method =>
    cases computed with
    | false => rfl
    | true => exact hchildren
  | _ => exact hchildren

theorem name?_shift (n : Tree) : (n.shift k).name? = n.name? := by
  obtain ⟨form, span⟩ := n
  rw [shift_mk]
  cases form <;> rfl

theorem isTrueLiteral_shift (n : Tree) : (n.shift k).isTrueLiteral = n.isTrueLiteral := by
  obtain ⟨form, span⟩ := n
  rw [shift_mk]
  cases form <;> rfl

theorem containsAwait_shift (n : Tree) : (n.shift k).containsAwait = n.containsAwait := by
  simp only [containsAwait, find?, nodes_shift, List.find?_map, Option.isSome_map, Function.comp_def, kind_shift]

theorem isCondemned_shift (n : Tree) : (n.shift k).isCondemned = n.isCondemned := by
  have hawait := containsAwait_shift (k := k) n
  obtain ⟨form, span⟩ := n
  rw [shift_mk] at hawait ⊢
  cases form with
  | whileStatement test body =>
    change ((test.shift k).isTrueLiteral && !containsAwait _) = (test.isTrueLiteral && !containsAwait _)
    rw [isTrueLiteral_shift]
    exact congrArg _ (congrArg _ hawait)
  | _ => rfl

end Node

end ScriptAudit
