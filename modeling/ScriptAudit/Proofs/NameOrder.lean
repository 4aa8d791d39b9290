/-
The names of a script in source order. The search for names passes over the keys that are only labels and
meets every other name once, in the order of the source (`namedInOrder_of_read`).

A shorthand property has one name for both its key and its value, so the place of a node in the tree says
more than the node: places are given by paths (`Node.at?`), the positions of the children to go into.
-/
import ScriptAudit.Proofs.BreadthFirst
import ScriptAudit.Proofs.TreeLayout
import ScriptAudit.Script.Names

namespace ScriptAudit

variable {source : Text}

/-! ## Paths -/

namespace Node

/-- The node at the end of a path. -/
def at? {ℓ : Type} (n : Node ℓ) : List Nat → Option (Node ℓ)
  | [] => some n
  | i :: path => n.children[i]?.bind fun c => c.at? path

/-- A property whose key is only a label. -/
def IsLabelled {ℓ : Type} (n : Node ℓ) : Prop :=
  ∃ key value shorthand method, n.form = .property key value false shorthand method

/-- The path goes into the key of a property where the key is only a label. -/
def InKey {ℓ : Type} (n : Node ℓ) (path : List Nat) : Prop :=
  ∃ before after property, path = before ++ 0 :: after ∧ n.at? before = some property ∧ property.IsLabelled

section Paths

variable {ℓ : Type} {n m : Node ℓ} {i : Nat} {path : List Nat}

theorem at?_cons : n.at? (i :: path) = some m ↔ ∃ c, n.children[i]? = some c ∧ c.at? path = some m :=
  Option.bind_eq_some_iff

theorem mem_nodes_of_at? (h : n.at? path = some m) : m ∈ n.nodes := by
  induction path generalizing n with
  | nil => cases h; exact mem_nodes_self m
  | cons i path ih =>
    obtain ⟨c, hc, hm⟩ := at?_cons.mp h
    exact mem_nodes_of_mem_children (List.mem_of_getElem? hc) (ih hm)

theorem not_inKey_nil : ¬n.InKey [] := by
  rintro ⟨before, after, property, h, -⟩
  exact absurd h.symm (by simp)

theorem inKey_cons : n.InKey (i :: path) ↔
    i = 0 ∧ n.IsLabelled ∨ ∃ c, n.children[i]? = some c ∧ c.InKey path := by
  constructor
  · rintro ⟨before, after, property, hpath, hat, hlabel⟩
    cases before with
    | nil =>
      cases hat
      exact .inl ⟨(List.cons.inj hpath).1, hlabel⟩
    | cons j before =>
      obtain ⟨rfl, rfl⟩ := List.cons.inj hpath
      obtain ⟨c, hc, hat⟩ := at?_cons.mp hat
      exact .inr ⟨c, hc, before, after, property, rfl, hat, hlabel⟩
  · rintro (⟨rfl, hlabel⟩ | ⟨c, hc, before, after, property, rfl, hat, hlabel⟩)
    · exact ⟨[], path, n, rfl, rfl, hlabel⟩
    · exact ⟨i :: before, after, property, rfl, at?_cons.mpr ⟨c, hc, hat⟩, hlabel⟩

end Paths

/-! ## What the search visits -/

theorem pastKeys_into_of_not_isLabelled {n : Tree} (h : ¬n.IsLabelled) :
    Descent.pastKeys.into n = n.children := by
  obtain ⟨form, span⟩ := n
  cases form with
  | property key value computed shorthand method =>
    cases computed with
    | false => exact absurd ⟨key, value, shorthand, method, rfl⟩ h
    | true => rfl
  | _ => rfl

/-- The search goes into all children except a key that is only a label. -/
theorem mem_pastKeys_into {n c : Tree} :
    c ∈ Descent.pastKeys.into n ↔ ∃ i, n.children[i]? = some c ∧ ¬(i = 0 ∧ n.IsLabelled) := by
  by_cases hlabel : n.IsLabelled
  · obtain ⟨form, span⟩ := n
    obtain ⟨key, value, shorthand, method, rfl⟩ := id hlabel
    constructor
    · intro hc
      obtain rfl := List.mem_singleton.mp hc
      exact ⟨1, rfl, fun h => absurd h.1 (by decide)⟩
    · rintro ⟨i, hi, hne⟩
      have hpos : i ≠ 0 := fun h => hne ⟨h, hlabel⟩
      obtain ⟨j, rfl⟩ := Nat.exists_eq_succ_of_ne_zero hpos
      exact List.mem_of_getElem? (l := [value]) hi
  · rw [pastKeys_into_of_not_isLabelled hlabel, List.mem_iff_getElem?]
    exact exists_congr fun i => ⟨fun h => ⟨h, fun hi => hlabel hi.2⟩, fun h => h.1⟩

theorem mem_pastKeys_iff_path {n m : Tree} :
    m ∈ n.preorder .pastKeys ↔ ∃ path, n.at? path = some m ∧ ¬n.InKey path := by
  constructor
  · intro h
    induction n using Node.induction with
    | step n ih =>
      rcases mem_preorder_iff.mp h with rfl | ⟨c, hc, hm⟩
      · exact ⟨[], rfl, not_inKey_nil⟩
      · obtain ⟨i, hi, hkey⟩ := mem_pastKeys_into.mp hc
        obtain ⟨path, hpath, hin⟩ := ih c (List.mem_of_getElem? hi) hm
        refine ⟨i :: path, at?_cons.mpr ⟨c, hi, hpath⟩, fun h => ?_⟩
        rcases inKey_cons.mp h with h | ⟨c', hc', h⟩
        · exact hkey h
        · obtain rfl := Option.some.inj (hi.symm.trans hc')
          exact hin h
  · rintro ⟨path, hpath, hin⟩
    induction path generalizing n with
    | nil => cases hpath; exact mem_preorder_iff.mpr (.inl rfl)
    | cons i path ih =>
      obtain ⟨c, hc, hpath⟩ := at?_cons.mp hpath
      refine mem_preorder_iff.mpr (.inr ⟨c, ?_, ih hpath fun h => hin (inKey_cons.mpr (.inr ⟨c, hc, h⟩))⟩)
      exact mem_pastKeys_into.mpr ⟨i, hc, fun h => hin (inKey_cons.mpr (.inl h))⟩

/-- Labels hide nothing but themselves. -/
theorem All.mem_pastKeys {n m : Tree} (h : n.All (Fits source)) (hm : m ∈ n.nodes) (hne : m.children ≠ []) :
    m ∈ n.preorder .pastKeys := by
  induction n using Node.induction with
  | step n ih =>
    rcases mem_nodes_iff.mp hm with rfl | ⟨c, hc, hm⟩
    · exact mem_preorder_iff.mpr (.inl rfl)
    · obtain ⟨i, hi⟩ := List.mem_iff_getElem?.mp hc
      refine mem_preorder_iff.mpr (.inr ⟨c, mem_pastKeys_into.mpr ⟨i, hi, ?_⟩, ih c hc (h.child hc) hm⟩)
      rintro ⟨rfl, key, value, shorthand, method, hform⟩
      have hkey : key = c := by
        rw [children, hform] at hi
        exact Option.some.inj hi
      have hbare : c.children = [] := h.self.bare c (by rw [hform, hkey]; exact List.mem_singleton_self c)
      rcases mem_nodes_iff.mp hm with rfl | ⟨c', hc', -⟩
      · exact hne hbare
      · rw [hbare] at hc'
        cases hc'

/-! ## The order of names -/

def IsName {ℓ : Type} (n : Node ℓ) : Prop := n.kind = .identifier

theorem children_of_isName {ℓ : Type} {n : Node ℓ} (h : n.IsName) : n.children = [] := by
  obtain ⟨form, span⟩ := n
  cases form with
  | identifier name => rfl
  | _ => cases h

/-- All names in the first tree begin before those in the second. -/
def NamesBefore (a b : Tree) : Prop :=
  ∀ v ∈ a.nodes, ∀ w ∈ b.nodes, v.IsName → w.IsName → v.span.start < w.span.start

theorem Before.namesBefore {a b : Tree} (h : a.Before b) : a.NamesBefore b :=
  fun v hv w hw _ _ => h v hv w hw

theorem namesBefore_of_computed {key value : Tree} {span : Span} {shorthand method : Bool}
    (h : PropertyOrder span key value true shorthand method) (hk : key.All (Fits source))
    (hv : value.All (Fits source)) : key.NamesBefore value := by
  cases h with
  | keyed order => exact (before_of_le hk hv order.2.1).namesBefore
  | method isFunction whole order _ =>
    -- the function begins before the key, but it is no name, and its contents follow the key
    intro v hv' w hw
    rcases mem_nodes_iff.mp hw with rfl | ⟨c, hc, hw⟩
    · intro _ hname
      exact absurd (hname.symm.trans isFunction) nofun
    · have hfits : ∀ c ∈ value.children, c.All (Fits source) := fun c hc => hv.child hc
      have hbefore := before_of_le hk (hfits c hc) (sequenced_covers hfits order.2 c hc).start
      exact hbefore.namesBefore v hv' w hw

theorem Arranged.children_namesBefore {n : Tree} (h : n.Arranged source) (hlabel : ¬n.IsLabelled) :
    n.children.Pairwise NamesBefore := by
  by_cases hkind : n.kind = .property
  · obtain ⟨form, span⟩ := n
    cases form with
    | property key value computed shorthand method =>
      cases computed with
      | false => exact absurd ⟨key, value, shorthand, method, rfl⟩ hlabel
      | true =>
        refine .cons (fun c hc => ?_) (List.pairwise_singleton _ _)
        rw [List.mem_singleton.mp hc]
        exact namesBefore_of_computed h.ordered (h.children key List.mem_cons_self)
          (h.children value (List.mem_cons_of_mem _ List.mem_cons_self))
    | _ => cases hkind
  · exact (h.before hkind).imp Before.namesBefore

theorem Arranged.into_namesBefore {n : Tree} (h : n.Arranged source) :
    (Descent.pastKeys.into n).Pairwise NamesBefore := by
  by_cases hlabel : n.IsLabelled
  · obtain ⟨form, span⟩ := n
    obtain ⟨key, value, shorthand, method, rfl⟩ := hlabel
    exact List.pairwise_singleton _ _
  · rw [pastKeys_into_of_not_isLabelled hlabel]
    exact h.children_namesBefore hlabel

/-- The names that the search visits, in its order. -/
def uses (n : Tree) : List Tree := (n.preorder .pastKeys).filter fun m => m.kind = .identifier

theorem mem_uses {n m : Tree} : m ∈ n.uses ↔ m ∈ n.preorder .pastKeys ∧ m.IsName := by
  rw [uses, List.mem_filter, decide_eq_true_iff]
  exact Iff.rfl

theorem Arranged.uses_pairwise {n : Tree} (h : n.Arranged source) :
    n.uses.Pairwise fun a b => a.span.start < b.span.start := by
  have hsearch : (n.preorder .pastKeys).Pairwise fun a b : Tree =>
      a.IsName → b.IsName → a.span.start < b.span.start := by
    refine h.preorder_pairwise (fun m _ _ c hc _ _ hname => ?_) fun m _ hm => hm.into_namesBefore
    rw [children_of_isName hname] at hc
    cases hc
  rw [uses, List.pairwise_filter]
  refine hsearch.imp fun {a b} h ha hb => h ?_ ?_
  · exact of_decide_eq_true (p := a.kind = .identifier) ha
  · exact of_decide_eq_true (p := b.kind = .identifier) hb

/-- Two paths that avoid the labels and end in names that begin at one offset are the same. -/
theorem Arranged.path_unique {n m m' : Tree} {path path' : List Nat} (h : n.Arranged source)
    (hm : m.IsName) (hm' : m'.IsName) (hstart : m.span.start = m'.span.start)
    (hpath : n.at? path = some m) (hin : ¬n.InKey path)
    (hpath' : n.at? path' = some m') (hin' : ¬n.InKey path') : path = path' := by
  induction path generalizing n path' with
  | nil =>
    cases path' with
    | nil => rfl
    | cons j path' =>
      cases hpath
      obtain ⟨c, hc, -⟩ := at?_cons.mp hpath'
      rw [children_of_isName hm] at hc
      cases hc
  | cons i path ih =>
    obtain ⟨c, hc, hcm⟩ := at?_cons.mp hpath
    cases path' with
    | nil =>
      cases hpath'
      rw [children_of_isName hm'] at hc
      cases hc
    | cons j path' =>
      obtain ⟨c', hc', hcm'⟩ := at?_cons.mp hpath'
      rw [inKey_cons, not_or] at hin hin'
      have hij : i = j := by
        by_cases hlabel : n.IsLabelled
        · -- only the value of such a property is left to go into
          obtain ⟨form, span⟩ := n
          obtain ⟨key, value, shorthand, method, rfl⟩ := id hlabel
          have hi := (List.getElem?_eq_some_iff.mp hc).1
          have hj := (List.getElem?_eq_some_iff.mp hc').1
          have hi0 : i ≠ 0 := fun h => hin.1 ⟨h, hlabel⟩
          have hj0 : j ≠ 0 := fun h => hin'.1 ⟨h, hlabel⟩
          change i < 2 at hi
          change j < 2 at hj
          omega
        · have hpairs := List.pairwise_iff_getElem.mp (h.children_namesBefore hlabel)
          obtain ⟨hi, rfl⟩ := List.getElem?_eq_some_iff.mp hc
          obtain ⟨hj, rfl⟩ := List.getElem?_eq_some_iff.mp hc'
          have hmem := mem_nodes_of_at? hcm
          have hmem' := mem_nodes_of_at? hcm'
          rcases Nat.lt_trichotomy i j with hlt | heq | hlt
          · exact absurd (hpairs i j hi hj hlt m hmem m' hmem' hm hm') (by omega)
          · exact heq
          · exact absurd (hpairs j i hj hi hlt m' hmem' m hmem hm' hm) (by omega)
      subst hij
      obtain rfl := Option.some.inj (hc.symm.trans hc')
      have hfits := h.children c (List.mem_of_getElem? hc)
      rw [ih hfits.arranged hcm (fun h => hin.2 ⟨c, hc, h⟩) hcm' fun h => hin'.2 ⟨c, hc, h⟩]

/-! ## Each name once -/

theorem name?_eq_some_iff {n : Tree} {name : Text} : n.name? = some name ↔ n.form = .identifier name := by
  obtain ⟨form, span⟩ := n
  cases form <;> simp [name?]

theorem referencedNames_eq (n : Tree) : n.referencedNames = (n.uses.filterMap name?).eraseDups := by
  have hname : ∀ m : Tree, (if decide (m.kind = .identifier) = true then m.name? else none) = m.name? := by
    intro m
    obtain ⟨form, span⟩ := m
    cases form <;> rfl
  rw [referencedNames, uses, List.filterMap_filter]
  simp only [hname]

theorem mem_referencedNames {n : Tree} {name : Text} :
    name ∈ n.referencedNames ↔ ∃ m ∈ n.uses, m.form = .identifier name := by
  rw [referencedNames_eq, List.mem_eraseDups, List.mem_filterMap]
  simp only [name?_eq_some_iff]

end Node

/-- Of items in order, those with different keys are kept in the order of their first occurrence. -/
theorem pairwise_eraseDups_filterMap {α β : Type} [BEq β] [LawfulBEq β] {R : α → α → Prop} {f : α → Option β}
    {items : List α} (h : items.Pairwise R) : (items.filterMap f).eraseDups.Pairwise fun a b =>
      ∃ x ∈ items, f x = some a ∧ ∀ y ∈ items, f y = some b → R x y := by
  induction hlen : items.length using Nat.strongRecOn generalizing items with
  | ind k ih =>
    subst hlen
    cases items with
    | nil => exact .nil
    | cons x items =>
      obtain ⟨hx, hitems⟩ := List.pairwise_cons.mp h
      cases hf : f x with
      | none =>
        rw [List.filterMap_cons_none hf]
        refine (ih _ (Nat.lt_succ_self _) hitems rfl).imp ?_
        rintro a b ⟨y, hy, ha, hbefore⟩
        refine ⟨y, List.mem_cons_of_mem _ hy, ha, fun z hz hb => ?_⟩
        rcases List.mem_cons.mp hz with rfl | hz
        · cases hf.symm.trans hb
        · exact hbefore z hz hb
      | some a =>
        -- the rest without the items of the first key has the same keys as the rest without the first key
        let others := items.filter fun y => f y != some a
        have hothers : (items.filterMap f).filter (fun b => !b == a) = others.filterMap f := by
          rw [List.filter_filterMap, List.filterMap_filter]
          congr 1
          funext y
          cases hy : f y with
          | none => simp
          | some b => by_cases hb : b = a <;> simp [hb]
        rw [List.filterMap_cons_some hf, List.eraseDups_cons, hothers]
        have hkeep : ∀ {b : β}, b ∈ (others.filterMap f).eraseDups → ∀ y ∈ x :: items, f y = some b →
            y ∈ items ∧ y ∈ others := by
          intro b hb y hy hfy
          have hne : b ≠ a := by
            rw [List.mem_eraseDups, ← hothers, List.mem_filter] at hb
            simpa using hb.2
          rcases List.mem_cons.mp hy with rfl | hy
          · exact absurd (Option.some.inj (hfy.symm.trans hf)) hne
          · exact ⟨hy, List.mem_filter.mpr ⟨hy, by simp [hfy, hne]⟩⟩
        refine .cons (fun b hb => ⟨x, List.mem_cons_self, hf, fun y hy hfy => ?_⟩) ?_
        · exact hx y (hkeep hb y hy hfy).1
        · have hrest := ih others.length (Nat.lt_succ_of_le (List.length_filter_le _ _))
            (hitems.sublist List.filter_sublist) rfl
          refine hrest.imp_of_mem ?_
          rintro b c hb hc ⟨y, hy, hfy, hbefore⟩
          refine ⟨y, List.mem_cons_of_mem _ (List.mem_filter.mp hy).1, hfy, fun z hz hfz => ?_⟩
          exact hbefore z (hkeep hc z hz hfz).2 hfz

theorem filter_eq_singleton {α : Type} {f : α → Nat} {items : List α} {a : α}
    (h : items.Pairwise fun x y => f x < f y) (ha : a ∈ items) :
    (items.filter fun x => f x = f a) = [a] := by
  induction items with
  | nil => cases ha
  | cons x items ih =>
    obtain ⟨hx, hitems⟩ := List.pairwise_cons.mp h
    rcases List.mem_cons.mp ha with rfl | ha
    · have hrest : (items.filter fun y => f y = f a) = [] := by
        rw [List.filter_eq_nil_iff]
        intro y hy heq
        have := hx y hy
        have := of_decide_eq_true heq
        omega
      rw [List.filter_cons_of_pos (by simp), hrest]
    · have hlt := hx a ha
      rw [List.filter_cons_of_neg (by simp; omega)]
      exact ih hitems ha

/-! ## Names of a script -/

namespace Program

/-- The search visits the names that are more than labels, each place once and in the order of the source,
and the names found are those visited, each where it occurs first. -/
structure NamedInOrder (p : Program) : Prop where
  increasing : p.root.uses.Pairwise fun a b => a.span.start < b.span.start
  visited : ∀ n, n ∈ p.root.uses ↔
    n.kind = .identifier ∧ ∃ path, p.root.at? path = some n ∧ ¬p.root.InKey path
  /-- A name that is visited has one place only. -/
  placed : ∀ n ∈ p.root.uses, ∀ path path', p.root.at? path = some n → ¬p.root.InKey path →
    p.root.at? path' = some n → ¬p.root.InKey path' → path = path'
  nodup : p.root.referencedNames.Nodup
  found : ∀ name, name ∈ p.root.referencedNames ↔ ∃ n ∈ p.root.uses, n.form = .identifier name
  /-- The first use of a name comes before all uses of the names after it. -/
  firsts : p.root.referencedNames.Pairwise fun a b => ∃ n ∈ p.root.uses, n.form = .identifier a ∧
    ∀ m ∈ p.root.uses, m.form = .identifier b → n.span.start < m.span.start
  /-- The name of a shorthand property, with or without a default, is visited once. -/
  shorthands : ∀ n ∈ p.root.nodes, ∀ key value computed method,
    n.form = .property key value computed true method →
      key.kind = .identifier ∧ (value = key ∨ ∃ default, value.form = .assignmentPattern key default) ∧
        (p.root.uses.filter fun m => m.span.start = key.span.start) = [key]

theorem mem_uses_of_shorthand {p : Program} (h : p.root.Arranged source) {n key value : Tree}
    {computed method : Bool} (hn : n ∈ p.root.nodes)
    (hform : n.form = .property key value computed true method) :
    key.kind = .identifier ∧ (value = key ∨ ∃ default, value.form = .assignmentPattern key default) ∧
      key ∈ p.root.uses := by
  rcases Node.mem_nodes_iff.mp hn with rfl | ⟨c, hc, hn⟩
  · cases hform
  have hfits := h.children c hc
  have hchildren : n.children ≠ [] := by rw [Node.children, hform]; nofun
  have hsearch : n ∈ p.root.preorder .pastKeys :=
    Node.mem_preorder_iff.mpr (.inr ⟨c, hc, hfits.mem_pastKeys hn hchildren⟩)
  obtain ⟨form, span⟩ := n
  obtain rfl : form = _ := hform
  have hvalue {m : Tree} (hm : m ∈ value.preorder .pastKeys) (hinto : computed = false) :
      m ∈ p.root.preorder .pastKeys := by
    subst hinto
    exact Node.mem_preorder_trans (Node.mem_preorder_iff.mpr (.inr ⟨value, List.mem_singleton_self _, hm⟩))
      hsearch
  cases (hfits _ hn).ordered with
  | shorthand isName whole =>
    exact ⟨isName, .inl rfl, Node.mem_uses.mpr ⟨hvalue (Node.mem_preorder_iff.mpr (.inl rfl)) rfl, isName⟩⟩
  | defaulted isName isDefault whole first =>
    refine ⟨isName, .inr ⟨_, isDefault⟩, Node.mem_uses.mpr ⟨hvalue ?_ rfl, isName⟩⟩
    refine Node.mem_preorder_iff.mpr (.inr ⟨key, ?_, Node.mem_preorder_iff.mpr (.inl rfl)⟩)
    obtain ⟨form, span⟩ := value
    obtain rfl : form = _ := isDefault
    exact List.mem_cons_self

theorem namedInOrder_of_arranged {p : Program} (h : p.root.Arranged source) : p.NamedInOrder where
  increasing := h.uses_pairwise
  visited n := by rw [Node.mem_uses, Node.mem_pastKeys_iff_path, and_comm]; rfl
  placed n hn path path' hpath hin hpath' hin' := by
    have hname := (Node.mem_uses.mp hn).2
    exact h.path_unique hname hname rfl hpath hin hpath' hin'
  nodup := nodup_eraseDups _
  found name := Node.mem_referencedNames
  firsts := by
    rw [Node.referencedNames_eq]
    simpa only [Node.name?_eq_some_iff] using
      pairwise_eraseDups_filterMap (f := Node.name?) h.uses_pairwise
  shorthands n hn key value computed method hform := by
    obtain ⟨hkey, hvalue, hmem⟩ := mem_uses_of_shorthand h hn hform
    exact ⟨hkey, hvalue, filter_eq_singleton h.uses_pairwise hmem⟩

end Program

/-- **The names of a script are reported in the order of the source, each use once.** -/
theorem namedInOrder_of_read {filename : Text} {p : Program} (h : Program.read source filename = .ok p) :
    p.NamedInOrder :=
  Program.namedInOrder_of_arranged (arranged_of_parse (read_eq_ok_iff.mp h))

/-- A pattern with a default takes apart an object with a shorthand property. -/
def Program.patterned : Program where
  body := [⟨.variableDeclaration .blockScoped [⟨.variableDeclarator
    ⟨.objectPattern [⟨.property ⟨.identifier "a", ⟨4, 5⟩⟩ ⟨.assignmentPattern ⟨.identifier "a", ⟨4, 5⟩⟩
      ⟨.identifier "b", ⟨6, 7⟩⟩, ⟨4, 7⟩⟩ false true false, ⟨4, 7⟩⟩], ⟨3, 8⟩⟩
    (some ⟨.objectExpression [⟨.property ⟨.identifier "c", ⟨10, 11⟩⟩ ⟨.identifier "c", ⟨10, 11⟩⟩
      false true false, ⟨10, 11⟩⟩], ⟨9, 12⟩⟩), ⟨3, 12⟩⟩], ⟨0, 12⟩⟩]
  source := "let\x7ba=b\x7d=\x7bc\x7d;"
  filename := "patterned.js"

theorem parse_patterned : parse "let\x7ba=b\x7d=\x7bc\x7d;" "patterned.js" = .ok .patterned := by
  have heval : scriptGrammar.eval 40 .program (Cursor.start (Text.ofString "let\x7ba=b\x7d=\x7bc\x7d;")) =
      some (.found
        [⟨.variableDeclaration .blockScoped [⟨.variableDeclarator
          ⟨.objectPattern [⟨.property ⟨.identifier "a", ⟨4, 5⟩⟩ ⟨.assignmentPattern ⟨.identifier "a", ⟨4, 5⟩⟩
            ⟨.identifier "b", ⟨6, 7⟩⟩, ⟨4, 7⟩⟩ false true false, ⟨4, 7⟩⟩], ⟨3, 8⟩⟩
          (some ⟨.objectExpression [⟨.property ⟨.identifier "c", ⟨10, 11⟩⟩ ⟨.identifier "c", ⟨10, 11⟩⟩
            false true false, ⟨10, 11⟩⟩], ⟨9, 12⟩⟩), ⟨3, 12⟩⟩], ⟨0, 12⟩⟩]
        ((Cursor.start _).advance 13)) := by rfl
  exact parse_of_eval (by decide) heval (by decide) rfl

theorem namedInOrder_of_read_patterned :
    Program.read "let\x7ba=b\x7d=\x7bc\x7d;" "patterned.js" = .ok .patterned ∧
      Program.patterned.NamedInOrder :=
  ⟨read_eq_ok_iff.mpr parse_patterned, namedInOrder_of_read (read_eq_ok_iff.mpr parse_patterned)⟩

end ScriptAudit
