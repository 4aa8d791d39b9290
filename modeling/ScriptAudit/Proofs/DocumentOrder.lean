/-
Document order: does a search from the top meet the nodes in the order in which they begin? It does wherever
children follow each other, which leaves properties. The function of a method begins with its property, so a
key that has a bracket, `async` or a star before it begins after the function, and yet comes first. Such a
method is out of order, and nothing else is (`inDocumentOrder_of_read`).
-/
import ScriptAudit.Proofs.TreeLayout

namespace ScriptAudit

variable {ℓ : Type} {source : Text}

/-- The nodes come in the order in which they begin. -/
def InDocumentOrder (ns : List (Node ℓ)) : Prop := ns.Pairwise fun a b => a.span.start ≤ b.span.start

namespace Node

/-- A method that begins with a bracket, `async` or a star, and not with its key. -/
def isPrefixedMethod (n : Node ℓ) : Bool :=
  match n.form with
  | .property _ value computed _ method => method && (computed || value.form.isModified)
  | _ => false

end Node

/-! ## Properties -/

section Properties

variable [Literal ℓ] {key value : Node ℓ} {span : Span} {computed shorthand method : Bool}

/-- Only in a method with a prefix does the value begin before the key. -/
theorem PropertyOrder.start_le_iff (h : PropertyOrder span key value computed shorthand method)
    (hk : key.Fits source) :
    key.span.start ≤ value.span.start ↔ (method && (computed || value.form.isModified)) = false := by
  cases h with
  | keyed order =>
    have hlt := hk.nonempty
    have hle : key.span.stop ≤ value.span.start := order.2.1
    exact ⟨fun _ => rfl, fun _ => by omega⟩
  | method isFunction whole order first =>
    have hle : span.start ≤ key.span.start := order.1
    rw [Bool.true_and, Bool.or_eq_false_iff, ← first, whole]
    omega
  | shorthand isName whole => exact ⟨fun _ => rfl, fun _ => Nat.le_refl _⟩
  | defaulted isName isDefault whole first => exact ⟨fun _ => rfl, fun _ => Nat.le_of_eq (by rw [first, whole])⟩

/-- A key that begins no later than the value is wholly before it, or has nothing in it. -/
theorem PropertyOrder.contents_le (h : PropertyOrder span key value computed shorthand method)
    (hk : key.All (Node.Fits source)) (hv : value.All (Node.Fits source))
    (hbare : computed = false → key.children = []) (hle : key.span.start ≤ value.span.start) :
    ∀ v ∈ key.nodes, ∀ w ∈ value.nodes, v.span.start ≤ w.span.start := by
  intro v hv' w hw
  cases computed with
  | false =>
    rcases Node.mem_nodes_iff.mp hv' with rfl | ⟨c, hc, -⟩
    · exact Nat.le_trans hle (hv.covers w hw).start
    · rw [hbare rfl] at hc
      cases hc
  | true =>
    cases h with
    | keyed order => exact Nat.le_of_lt (before_of_le hk hv order.2.1 v hv' w hw)
    | method isFunction whole order first =>
      have hstart : key.span.start = span.start := Nat.le_antisymm (whole ▸ hle) order.1
      cases (first.mp hstart).1

end Properties

/-! ## Trees -/

namespace Node

variable [Literal ℓ] {n m : Node ℓ}

theorem Arranged.children_inOrder_iff (h : n.Arranged source) :
    InDocumentOrder n.children ↔ n.isPrefixedMethod = false := by
  obtain ⟨form, span⟩ := n
  cases form with
  | property key value computed shorthand method =>
    have horder : PropertyOrder span key value computed shorthand method := h.ordered
    refine Iff.trans ?_ (horder.start_le_iff (h.children key List.mem_cons_self).self)
    exact List.pairwise_pair
  | _ =>
    have hbefore := h.before nofun
    exact ⟨fun _ => rfl, fun _ => hbefore.imp fun {a b} hab =>
      Nat.le_of_lt (hab a (mem_nodes_self a) b (mem_nodes_self b))⟩

/-- Where the children of a node are in order, so is what they hold. -/
theorem Arranged.contents_le (h : n.Arranged source) (hbare : ∀ c ∈ n.form.labels, c.children = [])
    (hn : n.isPrefixedMethod = false) :
    n.children.Pairwise fun a b => ∀ v ∈ a.nodes, ∀ w ∈ b.nodes, v.span.start ≤ w.span.start := by
  obtain ⟨form, span⟩ := n
  cases form with
  | property key value computed shorthand method =>
    have horder : PropertyOrder span key value computed shorthand method := h.ordered
    have hkey := h.children key List.mem_cons_self
    refine List.pairwise_pair.mpr (horder.contents_le hkey
      (h.children value (List.mem_cons_of_mem _ List.mem_cons_self)) ?_ ((horder.start_le_iff hkey.self).mpr hn))
    rintro rfl
    exact hbare key List.mem_cons_self
  | _ => exact (h.before nofun).imp fun hab v hv w hw => Nat.le_of_lt (hab v hv w hw)

/-- A search is in order unless it meets a method with a prefix. -/
theorem Arranged.nodes_inOrder_iff (h : n.Arranged source) (hbare : ∀ c ∈ n.form.labels, c.children = []) :
    InDocumentOrder n.nodes ↔ ∀ m ∈ n.nodes, m.isPrefixedMethod = false := by
  refine ⟨fun horder m hm => ?_, fun hnone => h.preorder_pairwise ?_ ?_⟩
  · have hchildren := (children_sublist_nodes m).trans (nodes_sublist_of_mem hm)
    exact (h.of_mem hm).children_inOrder_iff.mp (horder.sublist hchildren)
  · intro m hm hm' c hc w hw
    exact Nat.le_trans (hm'.covers_child hc).start ((hm'.children c hc).covers w hw).start
  · intro m hm hm'
    refine hm'.contents_le ?_ (hnone m hm)
    rcases h.eq_or_all hm with rfl | hall
    · exact hbare
    · exact hall.self.bare

end Node

/-- **Children come in document order, but for methods with a prefix.** In the tree of a script the children
of a node begin one after the other, unless the node is a method with a bracket, `async` or a star before
its key; and a search from the top meets the nodes in the order in which they begin, unless there is such a
method among them. -/
theorem inDocumentOrder_of_read {filename : Text} {p : Program}
    (h : Program.read source filename = .ok p) :
    (∀ n ∈ p.root.nodes, InDocumentOrder n.children ↔ n.isPrefixedMethod = false) ∧
      (InDocumentOrder p.root.nodes ↔ ∀ n ∈ p.root.nodes, n.isPrefixedMethod = false) := by
  have harranged := arranged_of_parse (read_eq_ok_iff.mp h)
  exact ⟨fun n hn => (harranged.of_mem hn).children_inOrder_iff, harranged.nodes_inOrder_iff nofun⟩

/-- `x=\x7basync m()\x7b\x7d\x7d;` -/
def Program.prefixed : Program where
  body :=
    [⟨.expressionStatement ⟨.assignmentExpression ⟨.identifier "x", ⟨0, 1⟩⟩ .set ⟨.objectExpression
      [⟨.property ⟨.identifier "m", ⟨9, 10⟩⟩ ⟨.functionExpression none [] ⟨.blockStatement [], ⟨12, 14⟩⟩ true false,
        ⟨3, 14⟩⟩ false false true, ⟨3, 14⟩⟩], ⟨2, 15⟩⟩, ⟨0, 15⟩⟩, ⟨0, 16⟩⟩]
  source := "x=\x7basync m()\x7b\x7d\x7d;"
  filename := "prefixed.js"

set_option maxRecDepth 1000 in
theorem parse_prefixed : parse "x=\x7basync m()\x7b\x7d\x7d;" "prefixed.js" = .ok .prefixed := by
  have heval : scriptGrammar.eval 49 .program (Cursor.start (Text.ofString "x=\x7basync m()\x7b\x7d\x7d;")) =
      some (.found
        [⟨.expressionStatement ⟨.assignmentExpression ⟨.identifier "x", ⟨0, 1⟩⟩ .set ⟨.objectExpression
          [⟨.property ⟨.identifier "m", ⟨9, 10⟩⟩ ⟨.functionExpression none [] ⟨.blockStatement [], ⟨12, 14⟩⟩ true false,
            ⟨3, 14⟩⟩ false false true, ⟨3, 14⟩⟩], ⟨2, 15⟩⟩, ⟨0, 15⟩⟩, ⟨0, 16⟩⟩]
        ((Cursor.start _).advance 16)) := by rfl
  exact parse_of_eval (by decide) heval (by decide) rfl

theorem inDocumentOrder_of_read_prefixed :
    Program.read "x=\x7basync m()\x7b\x7d\x7d;" "prefixed.js" = .ok .prefixed ∧
    ¬InDocumentOrder Program.prefixed.root.nodes := by
  have hread := read_eq_ok_iff.mpr parse_prefixed
  refine ⟨hread, fun horder => ?_⟩
  have hnone := (inDocumentOrder_of_read hread).2.mp horder
  simp [Program.prefixed, Program.root, Node.nodes_eq, Node.children, Form.children, Form.slots,
    Slot.children, Node.isPrefixedMethod, Form.isModified] at hnone

end ScriptAudit
