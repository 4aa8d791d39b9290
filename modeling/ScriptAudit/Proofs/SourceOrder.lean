/-
Nodes in source order. In a tree that lies in its source as it should, the contents of neighbours follow
each other (`Arranged.before`), so a search from the top meets the `while` statements in the order in
which they begin (`preorder_precedes`), and no two of them begin at the same place. Properties are what
makes this more than a look at neighbours: the function of a method begins before its key does, and a
shorthand property has one name twice.
-/
import ScriptAudit.Proofs.Layout

namespace ScriptAudit

variable {ℓ : Type} {source : Text}

namespace Node

def IsLoop (n : Node ℓ) : Prop := n.kind = .whileStatement

/-- If both are loops, the first begins before the second. -/
def Precedes (a b : Node ℓ) : Prop := a.IsLoop → b.IsLoop → a.span.start < b.span.start

/-- All loops in the first tree begin before those in the second. -/
def Leads (a b : Node ℓ) : Prop := ∀ v ∈ a.nodes, ∀ w ∈ b.nodes, v.Precedes w

variable [Literal ℓ]

/-- The node's children are in order and fit. Unlike a node that fits, it may be empty itself, which
a script is. -/
structure Arranged (source : Text) (n : Node ℓ) : Prop where
  ordered : n.Ordered source
  children : ∀ c ∈ n.children, c.All (Fits source)

theorem All.arranged {n : Node ℓ} (h : n.All (Fits source)) : n.Arranged source :=
  ⟨h.self.ordered, fun _ hc => h.child hc⟩

theorem Arranged.eq_or_all {n m : Node ℓ} (h : n.Arranged source) (hm : m ∈ n.nodes) :
    m = n ∨ m.All (Fits source) := by
  rcases mem_nodes_iff.mp hm with rfl | ⟨c, hc, hm⟩
  · exact .inl rfl
  · exact .inr fun w hw => h.children c hc w (mem_nodes_trans hw hm)

theorem Arranged.of_mem {n m : Node ℓ} (h : n.Arranged source) (hm : m ∈ n.nodes) : m.Arranged source := by
  rcases h.eq_or_all hm with rfl | hall
  · exact h
  · exact hall.arranged

end Node

/-! ## Where the contents of a node lie -/

section Within

variable [Literal ℓ]

/-- The second span is inside the first. -/
structure Span.Covers (a b : Span) : Prop where
  start : a.start ≤ b.start
  stop : b.stop ≤ a.stop

theorem sequenced_le {ns : List (Node ℓ)} : (∀ n ∈ ns, n.All (Node.Fits source)) →
    ∀ {s e : Nat}, Sequenced s ns e → s ≤ e := by
  induction ns with
  | nil => exact fun _ _ _ h => h
  | cons n ns ih =>
    intro hns s e h
    obtain ⟨hn, hns⟩ := List.forall_mem_cons.mp hns
    have := hn.self.nonempty
    have := ih hns h.2
    have := h.1
    omega

theorem sequenced_covers {ns : List (Node ℓ)} : (∀ n ∈ ns, n.All (Node.Fits source)) →
    ∀ {s e : Nat}, Sequenced s ns e → ∀ n ∈ ns, Span.Covers ⟨s, e⟩ n.span := by
  induction ns with
  | nil => exact fun _ _ _ _ => nofun
  | cons n ns ih =>
    intro hns s e h m hm
    obtain ⟨hn, hrest⟩ := List.forall_mem_cons.mp hns
    rcases List.mem_cons.mp hm with rfl | hm
    · exact ⟨h.1, sequenced_le hrest h.2⟩
    · have hcovers := ih hrest h.2 m hm
      have := hn.self.nonempty
      exact ⟨Nat.le_trans h.1 (Nat.le_trans (Nat.le_of_lt this) hcovers.start), hcovers.stop⟩

theorem Span.Covers.of_eq {a b : Span} (h : b = a) : a.Covers b := by
  subst h
  exact ⟨Nat.le_refl _, Nat.le_refl _⟩

theorem PropertyOrder.covers {key value : Node ℓ} {span : Span} {computed shorthand method : Bool}
    (h : PropertyOrder span key value computed shorthand method) (hk : key.All (Node.Fits source))
    (hv : value.All (Node.Fits source)) : span.Covers key.span ∧ span.Covers value.span := by
  cases h with
  | keyed order =>
    have hcovers := sequenced_covers (List.forall_mem_cons.mpr ⟨hk, List.forall_mem_singleton.mpr hv⟩) order
    exact ⟨hcovers key List.mem_cons_self, hcovers value (List.mem_cons_of_mem _ List.mem_cons_self)⟩
  | method isFunction whole order _ =>
    have hfits := List.forall_mem_cons.mpr ⟨hk, fun c hc => hv.child hc⟩
    exact ⟨sequenced_covers hfits order key List.mem_cons_self, .of_eq whole⟩
  | shorthand isName whole => exact ⟨.of_eq whole, .of_eq whole⟩
  | defaulted isName isDefault whole first =>
    -- the name is also the left of the default, which has the span of the property
    have hvalue : value.Ordered source := hv.self.ordered
    have hkey : key ∈ value.children := by rw [Node.children, isDefault]; exact List.mem_cons_self
    have hkind : value.kind = .assignmentPattern := by rw [Node.kind, isDefault]; rfl
    rw [Node.ordered_iff (by rw [hkind]; decide) (by rw [hkind]; decide) (by rw [hkind]; decide)] at hvalue
    exact ⟨whole ▸ sequenced_covers (fun c hc => hv.child hc) hvalue key hkey, .of_eq whole⟩

namespace Node

theorem Arranged.covers_child {n c : Node ℓ} (h : n.Arranged source) (hc : c ∈ n.children) :
    n.span.Covers c.span := by
  obtain ⟨form, span⟩ := n
  cases form with
  | property key value computed shorthand method =>
    have hcovers := PropertyOrder.covers h.ordered (h.children key List.mem_cons_self)
      (h.children value (List.mem_cons_of_mem _ List.mem_cons_self))
    rcases List.mem_cons.mp hc with rfl | hc
    · exact hcovers.1
    · rw [List.mem_singleton.mp hc]; exact hcovers.2
  | whileStatement test body =>
    have hcovers := sequenced_covers h.children h.ordered.2 c hc
    exact ⟨Nat.le_trans (Nat.le_add_right _ 5) hcovers.start, hcovers.stop⟩
  | awaitExpression argument =>
    have hcovers := sequenced_covers h.children h.ordered.2 c hc
    exact ⟨Nat.le_trans (Nat.le_add_right _ 5) hcovers.start, hcovers.stop⟩
  | _ => exact sequenced_covers h.children h.ordered c hc

/-- What is inside a tree is inside its span. -/
theorem All.covers {n : Node ℓ} : n.All (Fits source) → ∀ m ∈ n.nodes, n.span.Covers m.span := by
  induction n using Node.induction with
  | step n ih =>
    intro h m hm
    rcases mem_nodes_iff.mp hm with rfl | ⟨c, hc, hm⟩
    · exact .of_eq rfl
    · have hchild := h.arranged.covers_child hc
      have hinner := ih c hc (h.child hc) m hm
      exact ⟨Nat.le_trans hchild.start hinner.start, Nat.le_trans hinner.stop hchild.stop⟩

end Node

end Within

/-! ## The order of neighbours -/

section Neighbours

/-- All nodes in the first tree begin before those in the second. -/
def Node.Before (a b : Node ℓ) : Prop := ∀ v ∈ a.nodes, ∀ w ∈ b.nodes, v.span.start < w.span.start

theorem Node.Before.leads {a b : Node ℓ} (h : a.Before b) : a.Leads b :=
  fun v hv w hw _ _ => h v hv w hw

variable [Literal ℓ]

theorem before_of_le {a b : Node ℓ} (ha : a.All (Node.Fits source)) (hb : b.All (Node.Fits source))
    (h : a.span.stop ≤ b.span.start) : a.Before b := by
  intro v hv w hw
  have := (ha.covers v hv).stop
  have := (ha v hv).nonempty
  have := (hb.covers w hw).start
  omega

theorem sequenced_before {ns : List (Node ℓ)} :
    (∀ n ∈ ns, n.All (Node.Fits source)) → ∀ {s e : Nat}, Sequenced s ns e → ns.Pairwise Node.Before := by
  induction ns with
  | nil => exact fun _ _ _ _ => .nil
  | cons n ns ih =>
    intro hns s e h
    obtain ⟨hn, hns⟩ := List.forall_mem_cons.mp hns
    refine .cons (fun m hm => before_of_le hn (hns m hm) ?_) (ih hns h.2)
    exact (sequenced_covers hns h.2 m hm).start

namespace Node

theorem Arranged.before {n : Node ℓ} (h : n.Arranged source) (hn : n.kind ≠ .property) :
    n.children.Pairwise Before := by
  obtain ⟨form, span⟩ := n
  cases form with
  | property key value computed shorthand method => exact absurd rfl hn
  | whileStatement test body => exact sequenced_before h.children h.ordered.2
  | awaitExpression argument => exact sequenced_before h.children h.ordered.2
  | _ => exact sequenced_before h.children h.ordered

/-- What holds between a node and its contents, and between the contents of the children that a search
goes into, holds along the search. -/
theorem Arranged.preorder_pairwise {d : Descent ℓ} {R : Node ℓ → Node ℓ → Prop} {n : Node ℓ}
    (h : n.Arranged source)
    (hself : ∀ m ∈ n.nodes, m.Arranged source → ∀ c ∈ m.children, ∀ w ∈ c.nodes, R m w)
    (hinto : ∀ m ∈ n.nodes, m.Arranged source →
      (d.into m).Pairwise fun a b => ∀ v ∈ a.nodes, ∀ w ∈ b.nodes, R v w) :
    (n.preorder d).Pairwise R := by
  induction n using Node.induction with
  | step n ih =>
    rw [preorder_eq, List.pairwise_cons, List.pairwise_flatMap]
    refine ⟨fun w hw => ?_, fun c hc => ?_, ?_⟩
    · obtain ⟨c, hc, hw⟩ := List.mem_flatMap.mp hw
      exact hself n (mem_nodes_self n) h c (d.mem_children hc) w (mem_nodes_of_mem_preorder hw)
    · have hc := d.mem_children hc
      exact ih c hc (h.children c hc).arranged (fun m hm => hself m (mem_nodes_of_mem_children hc hm))
        fun m hm => hinto m (mem_nodes_of_mem_children hc hm)
    · refine (hinto n (mem_nodes_self n) h).imp fun hR v hv w hw => ?_
      exact hR v (mem_nodes_of_mem_preorder hv) w (mem_nodes_of_mem_preorder hw)

end Node

end Neighbours

/-! ## The order of loops -/

section Order

/-- A name has nothing in it. -/
theorem leads_of_isName {a b : Node ℓ} (ha : a.kind = .identifier) : a.Leads b := by
  intro v hv w hw hloop _
  obtain ⟨form, span⟩ := a
  cases form with
  | identifier name =>
    rcases Node.mem_nodes_iff.mp hv with rfl | ⟨c, hc, -⟩
    · cases hloop
    · cases hc
  | _ => cases ha

variable [Literal ℓ]

theorem PropertyOrder.leads {key value : Node ℓ} {span : Span} {computed shorthand method : Bool}
    (h : PropertyOrder span key value computed shorthand method) (hk : key.All (Node.Fits source))
    (hv : value.All (Node.Fits source)) : key.Leads value := by
  cases h with
  | keyed order => exact (before_of_le hk hv order.2.1).leads
  | method isFunction whole order _ =>
    intro v hv' w hw
    rcases Node.mem_nodes_iff.mp hw with rfl | ⟨c, hc, hw⟩
    · intro _ hloop
      exact absurd (hloop.symm.trans isFunction) nofun
    · have hfits : ∀ c ∈ value.children, c.All (Node.Fits source) := fun c hc => hv.child hc
      have hbefore := before_of_le hk (hfits c hc) (sequenced_covers hfits order.2 c hc).start
      exact hbefore.leads v hv' w hw
  | shorthand isName whole => exact leads_of_isName isName
  | defaulted isName isDefault whole first => exact leads_of_isName isName

namespace Node

theorem Arranged.leads {n : Node ℓ} (h : n.Arranged source) : n.children.Pairwise Leads := by
  obtain ⟨form, span⟩ := n
  cases form with
  | property key value computed shorthand method =>
    refine .cons (fun c hc => ?_) (List.pairwise_singleton _ _)
    rw [List.mem_singleton.mp hc]
    exact PropertyOrder.leads h.ordered (h.children key List.mem_cons_self)
      (h.children value (List.mem_cons_of_mem _ List.mem_cons_self))
  | _ => exact (h.before nofun).imp Before.leads

/-- No loop is in two children. -/
theorem Arranged.eq_of_mem_nodes {n c c' w : Node ℓ} (h : n.Arranged source) (hw : w.IsLoop)
    (hc : c ∈ n.children) (hc' : c' ∈ n.children) (hwc : w ∈ c.nodes) (hwc' : w ∈ c'.nodes) : c = c' := by
  have hleads := h.leads
  generalize n.children = ns at hc hc' hleads
  induction ns with
  | nil => cases hc
  | cons m ms ih =>
    obtain ⟨hm, hms⟩ := List.pairwise_cons.mp hleads
    rcases List.mem_cons.mp hc with rfl | hcms <;> rcases List.mem_cons.mp hc' with rfl | hcms'
    · rfl
    · exact absurd (hm c' hcms' w hwc w hwc' hw hw) (Nat.lt_irrefl _)
    · exact absurd (hm c hcms w hwc' w hwc hw hw) (Nat.lt_irrefl _)
    · exact ih hcms hcms' hms

/-- A loop begins before all that is in it. -/
theorem Arranged.lt_of_isLoop {n c m : Node ℓ} (h : n.Arranged source) (hn : n.IsLoop) (hc : c ∈ n.children)
    (hm : m ∈ c.nodes) : n.span.start < m.span.start := by
  have hinner := ((h.children c hc).covers m hm).start
  obtain ⟨form, span⟩ := n
  cases form with
  | whileStatement test body =>
    have := (sequenced_covers h.children h.ordered.2 c hc).start
    simp only at this ⊢
    omega
  | _ => cases hn

/-- Where a loop begins, the word `while` does. -/
theorem Arranged.opens_of_isLoop {n w : Node ℓ} (h : n.Arranged source) (hw : w ∈ n.nodes)
    (hloop : w.IsLoop) : Opens source "while" w.span.start := by
  have hordered := (h.of_mem hw).ordered
  obtain ⟨form, span⟩ := w
  cases form with
  | whileStatement test body => exact hordered.1
  | _ => cases hloop

/-- **A search from the top meets the loops in the order in which they begin.** -/
theorem Arranged.preorder_precedes {d : Descent ℓ} (hd : ∀ n, List.Sublist (d.into n) n.children)
    {n : Node ℓ} (h : n.Arranged source) : (n.preorder d).Pairwise Precedes :=
  h.preorder_pairwise (fun _ _ hn _ hc _ hm hloop _ => hn.lt_of_isLoop hloop hc hm)
    fun n _ hn => hn.leads.sublist (hd n)

end Node

end Order

end ScriptAudit
