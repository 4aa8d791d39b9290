/-
Visitors and searches walk the same tree. A search with a stack finds what the recursive one finds
(`Node.search_eq`). A visitor that goes depth-first and notes where it enters and leaves logs its first
events in the order of the search that stops below the nodes it does not descend from (`map_paths_log`).

One node can occur in a tree more than once, so events are logged with the places of their nodes, as paths
(`Visitor.log`). The log of a node is one piece of the log of the tree, and nothing outside of it happens
at or below the place of the node (`exists_pieces`).
-/
import Mathlib.Data.List.Induction
import ScriptAudit.Proofs.NameOrder
import ScriptAudit.Tree.Visitor

namespace ScriptAudit

/-! ## First occurrences -/

section FirstOccurrences

variable {α β : Type} [BEq α] [LawfulBEq α] [BEq β] [LawfulBEq β]

theorem eraseDups_concat_of_mem {as : List α} {a : α} (h : a ∈ as) : (as ++ [a]).eraseDups = as.eraseDups := by
  have hnone : [a].removeAll as = [] := by simp [List.removeAll, h]
  rw [List.eraseDups_append, hnone, List.eraseDups_nil, List.append_nil]

theorem eraseDups_append_of_disjoint {as bs : List α} (h : ∀ b ∈ bs, b ∉ as) :
    (as ++ bs).eraseDups = as.eraseDups ++ bs.eraseDups := by
  have hall : bs.removeAll as = bs := by
    rw [List.removeAll, List.filter_eq_self]
    intro b hb
    simpa using h b hb
  rw [List.eraseDups_append, hall]

theorem eraseDups_concat_of_not_mem {as : List α} {a : α} (h : a ∉ as) :
    (as ++ [a]).eraseDups = as.eraseDups ++ [a] :=
  eraseDups_append_of_disjoint (by simpa using h)

theorem eraseDups_map {f : α → β} (hf : ∀ a a', f a = f a' → a = a') (as : List α) :
    (as.map f).eraseDups = as.eraseDups.map f := by
  induction as using List.reverseRecOn with
  | nil => rfl
  | append_singleton as a ih =>
    rw [List.map_append, List.map_cons, List.map_nil]
    by_cases ha : a ∈ as
    · rw [eraseDups_concat_of_mem ha, eraseDups_concat_of_mem (List.mem_map_of_mem ha), ih]
    · have hfa : f a ∉ as.map f := by
        intro hmem
        obtain ⟨a', ha', heq⟩ := List.mem_map.mp hmem
        exact ha (hf a' a heq ▸ ha')
      rw [eraseDups_concat_of_not_mem ha, eraseDups_concat_of_not_mem hfa, ih, List.map_append]
      rfl

theorem filter_eraseDups (p : α → Bool) (as : List α) :
    as.eraseDups.filter p = (as.filter p).eraseDups := by
  induction as using List.reverseRecOn with
  | nil => rfl
  | append_singleton as a ih =>
    by_cases ha : a ∈ as
    · rw [eraseDups_concat_of_mem ha, ih, List.filter_append]
      cases hp : p a with
      | true =>
        rw [List.filter_singleton, hp]
        exact (eraseDups_concat_of_mem (List.mem_filter.mpr ⟨ha, hp⟩)).symm
      | false => simp [hp]
    · have hfilter : a ∉ as.filter p := fun hmem => ha (List.mem_filter.mp hmem).1
      rw [eraseDups_concat_of_not_mem ha, List.filter_append, ih, List.filter_append]
      cases hp : p a with
      | true =>
        rw [List.filter_singleton, hp]
        exact (eraseDups_concat_of_not_mem hfilter).symm
      | false => simp [hp]

theorem eraseDups_cons_of_not_mem {as : List α} {a : α} (h : a ∉ as) : (a :: as).eraseDups = a :: as.eraseDups := by
  have hall : as.filter (fun b => !b == a) = as := by
    rw [List.filter_eq_self]
    intro b hb
    have hne : b ≠ a := fun heq => h (heq ▸ hb)
    simpa using hne
  rw [List.eraseDups_cons, hall]

theorem eraseDups_cons_cons (as : List α) (a : α) : (a :: a :: as).eraseDups = (a :: as).eraseDups := by
  simp [List.eraseDups_cons]

/-- Lists that begin with different numbers have nothing in common. -/
theorem eraseDups_flatMap_cons {k : Nat} (f : Fin k → List (List Nat)) {is : List (Fin k)} (h : is.Nodup) :
    (is.flatMap fun i => (f i).map (i.val :: ·)).eraseDups =
      is.flatMap fun i => (f i).eraseDups.map (i.val :: ·) := by
  induction is with
  | nil => rfl
  | cons i is ih =>
    obtain ⟨hi, his⟩ := List.nodup_cons.mp h
    have hdisjoint : ∀ b ∈ is.flatMap (fun j => (f j).map (j.val :: ·)), b ∉ (f i).map (i.val :: ·) := by
      intro b hb hb'
      obtain ⟨j, hj, hb⟩ := List.mem_flatMap.mp hb
      obtain ⟨rest, -, rfl⟩ := List.mem_map.mp hb
      obtain ⟨rest', -, heq⟩ := List.mem_map.mp hb'
      exact hi (Fin.ext (List.cons.inj heq).1 ▸ hj)
    rw [List.flatMap_cons, List.flatMap_cons, eraseDups_append_of_disjoint hdisjoint, ih his,
      eraseDups_map fun _ _ => List.cons_injective.eq_iff.mp]

end FirstOccurrences

/-! ## Searching with a stack -/

namespace Node

variable {ℓ : Type}

theorem search_eq_flatMap (d : Descent ℓ) (stack : List (Node ℓ)) :
    search d stack = stack.flatMap (preorder d) := by
  induction stack using search.induct d with
  | case1 => rw [search, List.flatMap_nil]
  | case2 n stack ih =>
    rw [search, ih, stacked_eq, List.flatMap_append, List.flatMap_cons, preorder_eq d n, List.cons_append]

theorem search_eq (d : Descent ℓ) (n : Node ℓ) : search d [n] = n.preorder d := by
  rw [search_eq_flatMap, List.flatMap_cons, List.flatMap_nil, List.append_nil]

theorem at?_append {n m : Node ℓ} {path : List Nat} (h : n.at? path = some m) (rest : List Nat) :
    n.at? (path ++ rest) = m.at? rest := by
  induction path generalizing n with
  | nil => cases h; rfl
  | cons i path ih =>
    obtain ⟨c, hc, hm⟩ := at?_cons.mp h
    rw [List.cons_append, at?, hc]
    exact ih hm

end Node

/-! ## Logs -/

def Event.node : Event → Tree
  | .called _ n => n
  | .enter n => n
  | .leave n => n

/-- Entering or leaving. -/
def Event.isHook : Event → Bool
  | .called _ _ => false
  | .enter _ => true
  | .leave _ => true

def Event.entered? : Event → Option Tree
  | .enter n => some n
  | _ => none

/-- An event at the node at the end of a path. -/
structure LogEntry where
  path : List Nat
  event : Event

namespace LogEntry

/-- The entry in the log of a larger tree. -/
def below (path : List Nat) (e : LogEntry) : LogEntry := ⟨path ++ e.path, e.event⟩

/-- The places of a log, in the order of their first events. -/
def paths (log : List LogEntry) : List (List Nat) := (log.map path).eraseDups

/-- Whatever is entered is left, after all that is entered since. -/
inductive Nested : List LogEntry → Prop
  | nil : Nested []
  | around (path : List Nat) (n : Tree) {log : List LogEntry} :
    Nested log → Nested (⟨path, .enter n⟩ :: log ++ [⟨path, .leave n⟩])
  | append {log log' : List LogEntry} : Nested log → Nested log' → Nested (log ++ log')

@[simp] theorem path_below (path : List Nat) (e : LogEntry) : (e.below path).path = path ++ e.path := rfl

@[simp] theorem event_below (path : List Nat) (e : LogEntry) : (e.below path).event = e.event := rfl

theorem below_below (path path' : List Nat) (e : LogEntry) :
    (e.below path').below path = e.below (path ++ path') := by
  simp [below]

theorem paths_below (path : List Nat) (log : List LogEntry) :
    paths (log.map (below path)) = (paths log).map (path ++ ·) := by
  rw [paths, paths, List.map_map, ← eraseDups_map fun _ _ => List.append_cancel_left, List.map_map]
  rfl

theorem Nested.map_below (path : List Nat) {log : List LogEntry} (h : Nested log) :
    Nested (log.map (LogEntry.below path)) := by
  induction h with
  | nil => exact .nil
  | around path' n _ ih =>
    rw [List.map_append, List.map_cons]
    exact .around (path ++ path') n ih
  | append _ _ ih ih' =>
    rw [List.map_append]
    exact .append ih ih'

theorem Nested.flatMap {α : Type} {f : α → List LogEntry} {as : List α} (h : ∀ a ∈ as, Nested (f a)) :
    Nested (as.flatMap f) := by
  induction as with
  | nil => exact .nil
  | cons a as ih =>
    rw [List.flatMap_cons]
    exact .append (h a List.mem_cons_self) (ih fun b hb => h b (List.mem_cons_of_mem _ hb))

end LogEntry

namespace Visitor

/-- The visitor that goes depth-first and notes where it enters and leaves. -/
def hooked (methods : List (Text × Bool)) : Visitor := ⟨true, true, methods⟩

@[simp] theorem depthFirst_hooked (methods : List (Text × Bool)) : (hooked methods).depthFirst = true := rfl

@[simp] theorem hooks_hooked (methods : List (Text × Bool)) : (hooked methods).hooks = true := rfl

/-- The node has a method that does not descend. -/
def closes (v : Visitor) (n : Tree) : Bool := (v.method? n.kind).any fun method => !method.2

/-- The call of the method, if there is one. -/
def calls (v : Visitor) (n : Tree) : List Event := (v.method? n.kind).toList.map fun method => .called method.1 n

/-- The events of a visit with the places of their nodes. -/
def log (v : Visitor) (n : Tree) : List LogEntry :=
  (v.calls n).map (LogEntry.mk []) ++
    if v.closes n then []
    else ⟨[], .enter n⟩ ::
      ((List.finRange n.children.length).flatMap fun i => (v.log (n.children.get i)).map (LogEntry.below [i.val]))
      ++ [⟨[], .leave n⟩]
termination_by n
decreasing_by exact Node.sizeOf_lt_of_mem_children (List.get_mem _ _)

/-- The log between entering and leaving a node. -/
def inside (v : Visitor) (n : Tree) : List LogEntry :=
  (List.finRange n.children.length).flatMap fun i => (v.log (n.children.get i)).map (LogEntry.below [i.val])

variable {v : Visitor} {n : Tree} {e : LogEntry}

theorem log_of_closes (h : v.closes n = true) : v.log n = (v.calls n).map (LogEntry.mk []) := by
  rw [log, if_pos h, List.append_nil]

theorem log_of_not_closes (h : ¬v.closes n = true) :
    v.log n = (v.calls n).map (LogEntry.mk []) ++ (⟨[], .enter n⟩ :: v.inside n ++ [⟨[], .leave n⟩]) := by
  rw [log, if_neg h, inside]

theorem exists_of_mem_inside (h : e ∈ v.inside n) :
    ∃ i c, n.children[i]? = some c ∧ ∃ e' ∈ v.log c, e = e'.below [i] := by
  obtain ⟨i, -, he⟩ := List.mem_flatMap.mp h
  obtain ⟨e', he', rfl⟩ := List.mem_map.mp he
  exact ⟨i, n.children.get i, by simp, e', he', rfl⟩

theorem path_ne_nil_of_mem_inside (h : e ∈ v.inside n) : e.path ≠ [] := by
  obtain ⟨i, c, -, e', -, rfl⟩ := exists_of_mem_inside h
  simp

/-- A log has what happens at its node and what is inside of it. -/
theorem mem_log_cases (h : e ∈ v.log n) :
    e.path = [] ∧ e.event.node = n ∨ ¬v.closes n = true ∧ e ∈ v.inside n := by
  have hcalls : e ∈ (v.calls n).map (LogEntry.mk []) → e.path = [] ∧ e.event.node = n := by
    intro he
    obtain ⟨event, hevent, rfl⟩ := List.mem_map.mp he
    obtain ⟨method, -, rfl⟩ := List.mem_map.mp hevent
    exact ⟨rfl, rfl⟩
  by_cases hclosed : v.closes n = true
  · rw [log_of_closes hclosed] at h
    exact .inl (hcalls h)
  · rw [log_of_not_closes hclosed] at h
    simp only [List.mem_append, List.mem_cons, List.not_mem_nil, or_false] at h
    rcases h with he | (rfl | he) | rfl
    · exact .inl (hcalls he)
    · exact .inl ⟨rfl, rfl⟩
    · exact .inr ⟨hclosed, he⟩
    · exact .inl ⟨rfl, rfl⟩

/-- The node of every event is where its path leads. -/
theorem at?_of_mem_log (h : e ∈ v.log n) : n.at? e.path = some e.event.node := by
  induction n using Node.induction generalizing e with
  | step n ih =>
    rcases mem_log_cases h with ⟨hpath, hnode⟩ | ⟨-, he⟩
    · rw [hpath, hnode]
      rfl
    · obtain ⟨i, c, hc, e', he', rfl⟩ := exists_of_mem_inside he
      exact Node.at?_cons.mpr ⟨c, hc, ih c (List.mem_of_getElem? hc) he'⟩

/-- The log of a child is one piece of what is inside. -/
theorem exists_pieces_inside {i : Nat} {c : Tree} (hc : n.children[i]? = some c) :
    ∃ before after, v.inside n = before ++ (v.log c).map (LogEntry.below [i]) ++ after ∧
      ∀ e ∈ before ++ after, ¬[i] <+: e.path := by
  obtain ⟨hi, rfl⟩ := List.getElem?_eq_some_iff.mp hc
  obtain ⟨before, after, hsplit⟩ := List.append_of_mem (List.mem_finRange (⟨i, hi⟩ : Fin n.children.length))
  let logs (i : Fin n.children.length) : List LogEntry :=
    (v.log (n.children.get i)).map (LogEntry.below [i.val])
  have hinside : v.inside n = before.flatMap logs ++ logs ⟨i, hi⟩ ++ after.flatMap logs := by
    rw [inside, hsplit, List.flatMap_append, List.flatMap_cons, List.append_assoc]
  have hnodup := List.nodup_finRange n.children.length
  rw [hsplit, List.nodup_append] at hnodup
  obtain ⟨-, hafter, hbefore⟩ := hnodup
  refine ⟨before.flatMap logs, after.flatMap logs, hinside, ?_⟩
  intro e he hprefix
  rw [← List.flatMap_append] at he
  obtain ⟨j, hj, he⟩ := List.mem_flatMap.mp he
  obtain ⟨e', -, rfl⟩ := List.mem_map.mp he
  have hij : i = j.val := by simpa using hprefix
  obtain rfl : j = ⟨i, hi⟩ := Fin.ext hij.symm
  rcases List.mem_append.mp hj with hj | hj
  · exact hbefore _ hj _ List.mem_cons_self rfl
  · exact (List.nodup_cons.mp hafter).1 hj

/-- The log of a node is one piece of the log of the tree, and nothing outside of it happens at its place or
below. -/
theorem exists_pieces (h : e ∈ v.log n) :
    ∃ before after, v.log n = before ++ (v.log e.event.node).map (LogEntry.below e.path) ++ after ∧
      ∀ e' ∈ before ++ after, ¬e.path <+: e'.path := by
  induction n using Node.induction generalizing e with
  | step n ih =>
    rcases mem_log_cases h with ⟨hpath, hnode⟩ | ⟨hopen, he⟩
    · refine ⟨[], [], ?_, by simp⟩
      rw [hpath, hnode, List.nil_append, List.append_nil]
      exact (List.map_id' _).symm
    · obtain ⟨i, c, hc, e, hchild, rfl⟩ := exists_of_mem_inside he
      obtain ⟨before, after, hlog, hout⟩ := ih c (List.mem_of_getElem? hc) hchild
      obtain ⟨earlier, later, hinside, hapart⟩ := exists_pieces_inside (v := v) hc
      refine ⟨(v.calls n).map (LogEntry.mk []) ++ ⟨[], .enter n⟩ :: earlier ++
        before.map (LogEntry.below [i]), after.map (LogEntry.below [i]) ++ later ++ [⟨[], .leave n⟩], ?_, ?_⟩
      · rw [log_of_not_closes hopen, hinside, hlog]
        simp [LogEntry.below_below]
      · intro e' he' hprefix
        have hhere : e'.path ≠ [] := by
          intro hnil
          rw [hnil] at hprefix
          simp at hprefix
        have hother : e' ∉ earlier ++ later := by
          intro hmem
          exact hapart e' hmem ((List.prefix_append [i] e.path).trans hprefix)
        have hwithin : e' ∉ (before ++ after).map (LogEntry.below [i]) := by
          intro hmem
          obtain ⟨e'', he'', rfl⟩ := List.mem_map.mp hmem
          exact hout e'' he'' (List.cons_prefix_cons.mp hprefix).2
        simp only [List.map_append, List.mem_append, List.mem_cons, List.not_mem_nil, or_false,
          not_or] at he' hother hwithin
        rcases he' with ((hcall | rfl | hmem) | hmem) | (hmem | hmem) | rfl
        · obtain ⟨event, -, rfl⟩ := List.mem_map.mp hcall
          exact hhere rfl
        · exact hhere rfl
        · exact hother.1 hmem
        · exact hwithin.1 hmem
        · exact hwithin.2 hmem
        · exact hother.2 hmem
        · exact hhere rfl

/-! ## What happens at one place -/

/-- The events of a node itself. -/
def own (v : Visitor) (n : Tree) : List Event := v.calls n ++ if v.closes n then [] else [.enter n, .leave n]

theorem filter_log_nil : (v.log n).filter (·.path == []) = (v.own n).map (LogEntry.mk []) := by
  have hcalls : ((v.calls n).map (LogEntry.mk [])).filter (·.path == []) = (v.calls n).map (LogEntry.mk []) := by
    rw [List.filter_eq_self]
    intro e he
    obtain ⟨event, -, rfl⟩ := List.mem_map.mp he
    rfl
  have hinside : (v.inside n).filter (·.path == []) = [] := by
    rw [List.filter_eq_nil_iff]
    intro e he
    simpa using path_ne_nil_of_mem_inside he
  by_cases hclosed : v.closes n = true
  · rw [log_of_closes hclosed, hcalls, own, if_pos hclosed, List.append_nil]
  · rw [log_of_not_closes hclosed, List.filter_append, hcalls, own, if_neg hclosed, List.map_append,
      List.filter_append, List.filter_cons_of_pos rfl, hinside]
    rfl

theorem filter_log (h : e ∈ v.log n) :
    (v.log n).filter (·.path == e.path) = (v.own e.event.node).map (LogEntry.mk e.path) := by
  obtain ⟨before, after, hlog, hout⟩ := exists_pieces h
  have hnone : ∀ log : List LogEntry, (∀ e' ∈ log, ¬e.path <+: e'.path) →
      log.filter (·.path == e.path) = [] := by
    intro log hlog
    rw [List.filter_eq_nil_iff]
    intro e' he' heq
    rw [beq_iff_eq] at heq
    exact hlog e' he' (heq ▸ List.prefix_rfl)
  have hhere : ((v.log e.event.node).map (LogEntry.below e.path)).filter (·.path == e.path) =
      ((v.log e.event.node).filter (·.path == [])).map (LogEntry.below e.path) := by
    rw [List.filter_map]
    congr 2
    funext e'
    show (e.path ++ e'.path == e.path) = (e'.path == [])
    rw [Bool.eq_iff_iff]
    simp
  rw [hlog, List.filter_append, List.filter_append, hnone before fun e' he' => hout e' (by simp [he']),
    hnone after fun e' he' => hout e' (by simp [he']), hhere, filter_log_nil]
  simp [LogEntry.below]

/-! ## The order of first events -/

theorem paths_inside : LogEntry.paths (v.inside n) =
    (List.finRange n.children.length).flatMap fun i =>
      (LogEntry.paths (v.log (n.children.get i))).map (i.val :: ·) := by
  unfold LogEntry.paths
  rw [← eraseDups_flatMap_cons _ (List.nodup_finRange _), inside, List.map_flatMap]
  simp only [List.map_map]
  rfl

theorem paths_log : LogEntry.paths (v.log n) =
    [] :: if v.closes n then [] else LogEntry.paths (v.inside n) := by
  have hinside : [] ∉ (v.inside n).map LogEntry.path := by
    intro hmem
    obtain ⟨e, he, hpath⟩ := List.mem_map.mp hmem
    exact path_ne_nil_of_mem_inside he hpath
  -- entering and leaving, and the method first if there is one, are at one place
  have hopen : ([] :: ((v.inside n).map LogEntry.path ++ [[]])).eraseDups =
      [] :: LogEntry.paths (v.inside n) := by
    rw [← List.cons_append, eraseDups_concat_of_mem List.mem_cons_self, eraseDups_cons_of_not_mem hinside, LogEntry.paths]
  by_cases hclosed : v.closes n = true
  · rw [log_of_closes hclosed, if_pos hclosed]
    cases hmethod : v.method? n.kind with
    | none => simp [closes, hmethod] at hclosed
    | some method =>
      rw [calls, hmethod]
      rfl
  · rw [log_of_not_closes hclosed, if_neg hclosed, LogEntry.paths, List.map_append, ← hopen]
    cases hmethod : v.method? n.kind with
    | none => simp [calls, hmethod]
    | some method =>
      rw [← eraseDups_cons_cons]
      simp [calls, hmethod]

theorem map_paths_inside (h : ∀ c ∈ n.children,
      (LogEntry.paths (v.log c)).map c.at? = (c.preorder (.stoppingAt v.closes)).map some) :
    (LogEntry.paths (v.inside n)).map n.at? =
      (n.children.flatMap (Node.preorder (.stoppingAt v.closes))).map some := by
  have hchild : ∀ i : Fin n.children.length,
      ((LogEntry.paths (v.log (n.children.get i))).map (i.val :: ·)).map n.at? =
        ((n.children.get i).preorder (.stoppingAt v.closes)).map some := by
    intro i
    rw [← h _ (List.get_mem _ _), List.map_map]
    refine List.map_congr_left fun path _ => ?_
    simp [Node.at?]
  rw [paths_inside, List.map_flatMap, funext hchild, ← List.map_flatMap]
  conv_rhs => rw [← List.map_get_finRange n.children, List.flatMap_map]

theorem map_paths_log : (LogEntry.paths (v.log n)).map n.at? =
    (n.preorder (.stoppingAt v.closes)).map some := by
  induction n using Node.induction with
  | step n ih =>
    rw [paths_log, Node.preorder_eq, List.map_cons, List.map_cons]
    congr 1
    by_cases hclosed : v.closes n = true
    · simp [Descent.stoppingAt, hclosed]
    · rw [if_neg hclosed, map_paths_inside ih]
      simp [Descent.stoppingAt, hclosed]

/-! ## Nesting -/

theorem nested_log : LogEntry.Nested ((v.log n).filter (·.event.isHook)) := by
  induction n using Node.induction with
  | step n ih =>
    have hcalls : ((v.calls n).map (LogEntry.mk [])).filter (·.event.isHook) = [] := by
      rw [List.filter_eq_nil_iff]
      intro e he
      obtain ⟨event, hevent, rfl⟩ := List.mem_map.mp he
      obtain ⟨method, -, rfl⟩ := List.mem_map.mp hevent
      simp [Event.isHook]
    have hinside : LogEntry.Nested ((v.inside n).filter (·.event.isHook)) := by
      rw [inside, List.filter_flatMap]
      refine .flatMap fun i _ => ?_
      rw [List.filter_map]
      exact (ih _ (List.get_mem _ _)).map_below [i.val]
    by_cases hclosed : v.closes n = true
    · rw [log_of_closes hclosed, hcalls]
      exact .nil
    · rw [log_of_not_closes hclosed, List.filter_append, hcalls, List.filter_append,
        List.filter_cons_of_pos rfl]
      exact .around [] n hinside

/-- One place is further down than the other. -/
def isBelow (path path' : List Nat) : Bool := path.isPrefixOf path' && path' != path

theorem isBelow_eq_true {path path' : List Nat} : isBelow path path' = true ↔ path <+: path' ∧ path' ≠ path := by
  simp [isBelow]

/-- Entering and leaving a node are around what is inside of it, and nothing else is further down. -/
theorem exists_around (h : e ∈ v.log n) (hopen : ¬v.closes e.event.node = true) :
    ∃ before after, v.log n = before ++
        ⟨e.path, .enter e.event.node⟩ :: (v.inside e.event.node).map (LogEntry.below e.path) ++
        ⟨e.path, .leave e.event.node⟩ :: after ∧
      ∀ e' ∈ before ++ after, ¬isBelow e.path e'.path = true := by
  obtain ⟨before, after, hlog, hout⟩ := exists_pieces h
  refine ⟨before ++ (v.calls e.event.node).map (LogEntry.mk e.path), after, ?_, ?_⟩
  · rw [hlog, log_of_not_closes hopen]
    simp [LogEntry.below]
  · intro e' he' hbelow
    rw [List.append_assoc, List.mem_append, List.mem_append] at he'
    rcases he' with he' | hcall | he'
    · exact hout e' (by simp [he']) (isBelow_eq_true.mp hbelow).1
    · obtain ⟨event, -, rfl⟩ := List.mem_map.mp hcall
      exact (isBelow_eq_true.mp hbelow).2 rfl
    · exact hout e' (by simp [he']) (isBelow_eq_true.mp hbelow).1

theorem isBelow_of_mem_inside {path : List Nat} (h : e ∈ (v.inside n).map (LogEntry.below path)) :
    isBelow path e.path = true := by
  obtain ⟨e', he', rfl⟩ := List.mem_map.mp h
  exact isBelow_eq_true.mpr ⟨List.prefix_append _ _, by simpa using path_ne_nil_of_mem_inside he'⟩

/-- Between entering and leaving a node are the events further down, of what the search finds below. -/
theorem exists_between (h : e ∈ v.log n) (hopen : ¬v.closes e.event.node = true) :
    ∃ before inside after,
      v.log n = before ++ ⟨e.path, .enter e.event.node⟩ :: inside ++ ⟨e.path, .leave e.event.node⟩ :: after ∧
      LogEntry.paths inside = (LogEntry.paths (v.log n)).filter (isBelow e.path) ∧
      (LogEntry.paths inside).map n.at? =
        (e.event.node.preorder (.stoppingAt v.closes)).tail.map some := by
  obtain ⟨before, after, hlog, hout⟩ := exists_around h hopen
  refine ⟨before, _, after, hlog, ?_, ?_⟩
  · rw [List.forall_mem_append] at hout
    have hhere : ¬isBelow e.path e.path = true := fun hbelow => (isBelow_eq_true.mp hbelow).2 rfl
    have hbelow : (v.log n).filter (fun e' => isBelow e.path e'.path) =
        (v.inside e.event.node).map (LogEntry.below e.path) := by
      rw [hlog, List.filter_append, List.filter_append, List.filter_eq_nil_iff.mpr hout.1, List.filter_cons,
        if_neg hhere, List.filter_eq_self.mpr fun e' => isBelow_of_mem_inside, List.filter_cons, if_neg hhere,
        List.filter_eq_nil_iff.mpr hout.2, List.append_nil, List.nil_append]
    rw [← hbelow, LogEntry.paths, LogEntry.paths, filter_eraseDups, List.filter_map]
    rfl
  · have hat : n.at? ∘ (e.path ++ ·) = e.event.node.at? :=
      funext fun rest => Node.at?_append (at?_of_mem_log h) rest
    rw [LogEntry.paths_below, List.map_map, hat, map_paths_inside fun c _ => map_paths_log,
      Node.preorder_eq, List.tail_cons]
    simp [Descent.stoppingAt, hopen]

/-! ## The visit -/

theorem events_hooked (methods : List (Text × Bool)) (n : Tree) :
    (hooked methods).events n = (hooked methods).calls n ++
      if (hooked methods).closes n then []
      else .enter n :: n.children.flatMap (hooked methods).events ++ [.leave n] := by
  rw [events, List.flatMap_subtype (g := (hooked methods).events) (by simp), List.unattach_attach]
  cases hmethod : (hooked methods).method? n.kind with
  | none => simp [calls, closes, hmethod]
  | some method =>
    obtain ⟨name, descends⟩ := method
    cases descends <;> simp [calls, closes, hmethod]

theorem map_event_log (methods : List (Text × Bool)) (n : Tree) :
    ((hooked methods).log n).map (·.event) = (hooked methods).events n := by
  induction n using Node.induction with
  | step n ih =>
    have hcalls : (((hooked methods).calls n).map (LogEntry.mk [])).map (·.event) = (hooked methods).calls n := by
      rw [List.map_map]
      exact List.map_id' _
    have hinside : ((hooked methods).inside n).map (·.event) = n.children.flatMap (hooked methods).events := by
      have hchild : ∀ i : Fin n.children.length,
          (((hooked methods).log (n.children.get i)).map (LogEntry.below [i.val])).map (·.event) =
            (hooked methods).events (n.children.get i) := by
        intro i
        rw [← ih _ (List.get_mem _ _), List.map_map]
        rfl
      conv_rhs => rw [← List.map_get_finRange n.children, List.flatMap_map]
      rw [inside, List.map_flatMap, funext hchild]
    rw [events_hooked]
    by_cases hclosed : (hooked methods).closes n = true
    · rw [log_of_closes hclosed, hcalls, if_pos hclosed, List.append_nil]
    · rw [log_of_not_closes hclosed, if_neg hclosed, List.map_append, hcalls, List.map_append,
        List.map_cons, hinside]
      rfl

theorem entered_events (n : Tree) : ((hooked []).events n).filterMap Event.entered? = n.nodes := by
  induction n using Node.induction with
  | step n ih =>
    have hchildren : (n.children.flatMap (hooked []).events).filterMap Event.entered? =
        n.children.flatMap Node.nodes := by
      rw [List.filterMap_flatMap]
      exact List.flatMap_congr ih
    have hevents : (hooked []).events n =
        .enter n :: n.children.flatMap (hooked []).events ++ [.leave n] := by
      rw [events_hooked]
      rfl
    have hfirst : Event.entered? (.enter n) = some n := rfl
    rw [hevents, Node.nodes_eq, List.filterMap_append, List.filterMap_cons_some hfirst, hchildren]
    simp [Event.entered?]

/-- The log of a visit that walks the tree as the search does: the first events come in the order of the
search; at every place there is first the call of the method and then, if it descends, one entering and one
leaving; and in between is what the search finds below. -/
structure Walks (v : Visitor) (root : Tree) (log : List LogEntry) : Prop where
  events : log.map (·.event) = v.events root
  located : ∀ e ∈ log, root.at? e.path = some e.event.node
  order : (LogEntry.paths log).map root.at? = (Node.search (.stoppingAt v.closes) [root]).map some
  own : ∀ e ∈ log, (log.filter (·.path == e.path)).map (·.event) = v.own e.event.node
  nested : LogEntry.Nested (log.filter (·.event.isHook))
  between : ∀ e ∈ log, ¬v.closes e.event.node = true → ∃ before inside after,
    log = before ++ ⟨e.path, .enter e.event.node⟩ :: inside ++ ⟨e.path, .leave e.event.node⟩ :: after ∧
    LogEntry.paths inside = (LogEntry.paths log).filter (isBelow e.path) ∧
    (LogEntry.paths inside).map root.at? =
      (Node.search (.stoppingAt v.closes) [e.event.node]).tail.map some

/-- **Visitors and searches walk the same tree**, whatever methods the visitor has. With no methods it enters
all nodes in the order of the search, and the search with a stack is the recursive one. -/
theorem walks_log (methods : List (Text × Bool)) (root : Tree) :
    (hooked methods).Walks root ((hooked methods).log root) ∧
    ((hooked []).events root).filterMap Event.entered? = Node.search .full [root] ∧
    ∀ d : Descent Value, Node.search d [root] = root.preorder d := by
  refine ⟨?_, ?_, fun d => Node.search_eq d root⟩
  · constructor
    case events => exact map_event_log methods root
    case located => exact fun e => at?_of_mem_log
    case order => rw [Node.search_eq, map_paths_log]
    case own =>
      intro e he
      rw [filter_log he, List.map_map]
      exact List.map_id' _
    case nested => exact nested_log
    case between =>
      intro e he hopen
      rw [Node.search_eq]
      exact exists_between he hopen
  · rw [entered_events, Node.search_eq]
    rfl

end Visitor

end ScriptAudit
