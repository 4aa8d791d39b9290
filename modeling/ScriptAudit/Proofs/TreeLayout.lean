/-
Working out the tokens of a tree changes neither its shape nor its spans (`readList_children`), so the
tree of a script lies in its source as the grammar found it (`arranged_of_parse`).
-/
import ScriptAudit.Proofs.Matcher
import ScriptAudit.Proofs.Outcomes
import ScriptAudit.Proofs.ScriptLayout
import ScriptAudit.Proofs.SourceOrder

namespace ScriptAudit

namespace Sketch

theorem readList_cons {n : Sketch} {ns : List Sketch} {t : Tree} {ts : List Tree} (h : read n = .ok t)
    (hs : readList ns = .ok ts) : readList (n :: ns) = .ok (t :: ts) := by
  simp only [readList, h, hs]
  rfl

theorem readList_append {ms ns : List Sketch} {ts us : List Tree} (hm : readList ms = .ok ts)
    (hn : readList ns = .ok us) : readList (ms ++ ns) = .ok (ts ++ us) := by
  induction ms generalizing ts with
  | nil => simp only [readList, Except.pure_eq_ok] at hm; subst hm; exact hn
  | cons m ms ih =>
    simp only [readList, Except.bind_eq_ok, Except.pure_eq_ok] at hm
    obtain ⟨t, ht, ts, hts, rfl⟩ := hm
    exact readList_cons ht (ih hts)

theorem readList_toList {n : Option Sketch} {t : Option Tree} (h : readOption n = .ok t) :
    readList n.toList = .ok t.toList := by
  cases n with
  | none => simp only [readOption, Except.pure_eq_ok] at h; subst h; rfl
  | some n =>
    simp only [readOption, Except.bind_eq_ok, Except.pure_eq_ok] at h
    obtain ⟨t, ht, rfl⟩ := h
    exact readList_cons ht rfl

/-- The children of a tree are those of its sketch. -/
theorem readList_children {form : Form TokenClass Sketch} {form' : Form Value Tree}
    (h : readForm form = .ok form') : readList form.children = .ok form'.children := by
  cases form <;> simp only [readForm, Except.bind_eq_ok, Except.pure_eq_ok] at h <;>
    (repeat (first | subst h | obtain ⟨_, _, h⟩ := h)) <;>
    simp only [Form.children, Form.slots, Slot.children, List.flatMap_cons, List.flatMap_nil,
      List.append_nil, List.nil_append, List.cons_append] <;>
    (repeat (first
      | rfl
      | assumption
      | exact readList_toList ‹_›
      | apply readList_cons ‹_›
      | apply readList_append ‹_›
      | apply readList_append (readList_toList ‹_›)))

theorem kind_of_readForm {form : Form TokenClass Sketch} {form' : Form Value Tree}
    (h : readForm form = .ok form') : form'.kind = form.kind := by
  cases form <;> simp only [readForm, Except.bind_eq_ok, Except.pure_eq_ok] at h <;>
    (repeat (first | subst h | obtain ⟨_, _, h⟩ := h)) <;> rfl

theorem isModified_of_readForm {form : Form TokenClass Sketch} {form' : Form Value Tree}
    (h : readForm form = .ok form') : form'.isModified = form.isModified := by
  have hkind := kind_of_readForm h
  cases form with
  | functionExpression id params body isAsync generator =>
    simp only [readForm, Except.bind_eq_ok, Except.pure_eq_ok] at h
    obtain ⟨_, -, _, -, _, -, rfl⟩ := h
    rfl
  | _ => exact Form.isModified_of_kind (by rw [hkind]; nofun)

theorem of_read {n : Sketch} {t : Tree} (h : read n = .ok t) :
    readForm n.form = .ok t.form ∧ t.span = n.span := by
  obtain ⟨form, span⟩ := n
  simp only [read, Except.bind_eq_ok, Except.pure_eq_ok] at h
  obtain ⟨form', hform, rfl⟩ := h
  exact ⟨hform, rfl⟩

theorem kind_of_read {n : Sketch} {t : Tree} (h : read n = .ok t) : t.kind = n.kind :=
  kind_of_readForm (of_read h).1

theorem exists_of_mem_readList {ns : List Sketch} {ts : List Tree} (h : readList ns = .ok ts) {t : Tree}
    (ht : t ∈ ts) : ∃ n ∈ ns, read n = .ok t := by
  induction ns generalizing ts with
  | nil => simp only [readList, Except.pure_eq_ok] at h; subst h; cases ht
  | cons n ns ih =>
    simp only [readList, Except.bind_eq_ok, Except.pure_eq_ok] at h
    obtain ⟨u, hu, us, hus, rfl⟩ := h
    rcases List.mem_cons.mp ht with rfl | ht
    · exact ⟨n, List.mem_cons_self, hu⟩
    · obtain ⟨m, hm, hread⟩ := ih hus ht
      exact ⟨m, List.mem_cons_of_mem _ hm, hread⟩

theorem form_of_read_identifier {n : Sketch} {t : Tree} {name : Text} (h : read n = .ok t)
    (ht : t.form = .identifier name) : n.form = .identifier name := by
  have hkind : n.form.kind = .identifier := by
    rw [← kind_of_readForm (of_read h).1, ht]
    rfl
  cases hn : n.form <;> rw [hn] at hkind <;> try cases hkind
  case identifier m =>
    have := (of_read h).1
    rw [hn, ht] at this
    simp only [readForm, Except.pure_eq_ok] at this
    cases this
    rfl

end Sketch

/-! ## A tree lies where its sketch does -/

section Transfer

open Sketch

variable {source : Text}

theorem sequenced_of_readList {ns : List Sketch} {ts : List Tree} (h : readList ns = .ok ts) {s e : Nat}
    (hs : Sequenced s ns e) : Sequenced s ts e := by
  induction ns generalizing s ts with
  | nil => simp only [readList, Except.pure_eq_ok] at h; subst h; exact hs
  | cons n ns ih =>
    simp only [readList, Except.bind_eq_ok, Except.pure_eq_ok] at h
    obtain ⟨t, ht, ts, hts, rfl⟩ := h
    have hspan := (of_read ht).2
    exact ⟨hspan ▸ hs.1, hspan ▸ ih hts hs.2⟩

theorem unreserved_of_read {n : Sketch} {t : Tree} (h : read n = .ok t) (hn : n.Unreserved) :
    t.Unreserved :=
  fun name hname => hn name (form_of_read_identifier h hname)

theorem readList_exposed {form : Form TokenClass Sketch} {form' : Form Value Tree}
    (h : readForm form = .ok form') : readList form.exposed = .ok form'.exposed := by
  have hkind := kind_of_readForm h
  cases form with
  | memberExpression object selected computed optional =>
    simp only [readForm, Except.bind_eq_ok, Except.pure_eq_ok] at h
    obtain ⟨o, ho, p, hp, rfl⟩ := h
    cases computed with
    | false => exact readList_cons ho rfl
    | true => exact readList_cons ho (readList_cons hp rfl)
  | property key value computed shorthand method =>
    simp only [readForm, Except.bind_eq_ok, Except.pure_eq_ok] at h
    obtain ⟨k, hk, v, hv, rfl⟩ := h
    cases computed with
    | false => exact readList_cons hv rfl
    | true => exact readList_cons hk (readList_cons hv rfl)
  | _ =>
    have hexposed : form'.exposed = form'.children :=
      Form.exposed_of_kind (by rw [hkind]; nofun) (by rw [hkind]; nofun)
    rw [hexposed]
    exact readList_children h

theorem readList_labels {form : Form TokenClass Sketch} {form' : Form Value Tree}
    (h : readForm form = .ok form') : readList form.labels = .ok form'.labels := by
  have hkind := kind_of_readForm h
  cases form with
  | memberExpression object selected computed optional =>
    simp only [readForm, Except.bind_eq_ok, Except.pure_eq_ok] at h
    obtain ⟨o, ho, p, hp, rfl⟩ := h
    cases computed with
    | false => exact readList_cons hp rfl
    | true => rfl
  | property key value computed shorthand method =>
    simp only [readForm, Except.bind_eq_ok, Except.pure_eq_ok] at h
    obtain ⟨k, hk, v, hv, rfl⟩ := h
    cases computed with
    | false => exact readList_cons hk rfl
    | true => rfl
  | _ =>
    have hlabels : form'.labels = [] :=
      Form.labels_of_kind (by rw [hkind]; nofun) (by rw [hkind]; nofun)
    rw [hlabels]
    rfl

theorem bare_of_read {n : Sketch} {t : Tree} (h : read n = .ok t) (hn : n.children = []) :
    t.children = [] := by
  have hchildren := readList_children (of_read h).1
  rw [show n.form.children = [] from hn] at hchildren
  exact (Except.ok.inj hchildren).symm

theorem written_of_readForm {form : Form TokenClass Sketch} {form' : Form Value Tree} {span : Span}
    (h : readForm form = .ok form') (hw : form.Written source span) : form'.Written source span := by
  cases form with
  | identifier name => simp only [readForm, Except.pure_eq_ok] at h; subst h; exact hw
  | literal value raw =>
    simp only [readForm, Except.bind_eq_ok, Except.pure_eq_ok] at h
    obtain ⟨v, hv, rfl⟩ := h
    obtain ⟨hl, hraw⟩ := hw
    exact ⟨Token.lexemes_value hv ▸ hl, hraw⟩
  | _ =>
    have hkind := kind_of_readForm h
    exact Form.written_of_kind (by rw [hkind]; nofun) (by rw [hkind]; nofun)

theorem propertyOrder_of_read {key value : Sketch} {k v : Tree} {span : Span}
    {computed shorthand method : Bool} (hk : read key = .ok k) (hv : read value = .ok v)
    (h : PropertyOrder span key value computed shorthand method) :
    PropertyOrder span k v computed shorthand method := by
  cases h with
  | keyed order => exact .keyed (sequenced_of_readList (readList_cons hk (readList_cons hv rfl)) order)
  | method isFunction whole order first =>
    refine .method ((kind_of_read hv).trans isFunction) ((of_read hv).2.trans whole) ?_ ?_
    · exact sequenced_of_readList (readList_cons hk (readList_children (of_read hv).1)) order
    · rw [(of_read hk).2, isModified_of_readForm (of_read hv).1]
      exact first
  | shorthand isName whole =>
    obtain rfl : k = v := Except.ok.inj (hk.symm.trans hv)
    exact .shorthand ((kind_of_read hk).trans isName) ((of_read hk).2.trans whole)
  | defaulted isName isDefault whole first =>
    have hform := (of_read hv).1
    rw [isDefault] at hform
    simp only [readForm, Except.bind_eq_ok, Except.pure_eq_ok] at hform
    obtain ⟨k', hk', d, hd, hv'⟩ := hform
    obtain rfl : k = k' := Except.ok.inj (hk.symm.trans hk')
    exact .defaulted ((kind_of_read hk).trans isName) hv'.symm ((of_read hv).2.trans whole)
      (by rw [(of_read hk).2]; exact first)

theorem ordered_of_read {n : Sketch} {t : Tree} (h : read n = .ok t) (hn : n.Ordered source) :
    t.Ordered source := by
  obtain ⟨hform, hspan⟩ := of_read h
  obtain ⟨form, span⟩ := n
  obtain ⟨form', span'⟩ := t
  obtain rfl : span' = span := hspan
  have hkind := kind_of_readForm hform
  cases form with
  | property key value computed shorthand method =>
    simp only [readForm, Except.bind_eq_ok, Except.pure_eq_ok] at hform
    obtain ⟨k, hk, v, hv, rfl⟩ := hform
    exact propertyOrder_of_read hk hv hn
  | whileStatement test body =>
    simp only [readForm, Except.bind_eq_ok, Except.pure_eq_ok] at hform
    obtain ⟨a, ha, b, hb, rfl⟩ := hform
    exact ⟨hn.1, sequenced_of_readList (readList_cons ha (readList_cons hb rfl)) hn.2⟩
  | awaitExpression argument =>
    simp only [readForm, Except.bind_eq_ok, Except.pure_eq_ok] at hform
    obtain ⟨a, ha, rfl⟩ := hform
    exact ⟨hn.1, sequenced_of_readList (readList_cons ha rfl) hn.2⟩
  | _ =>
    refine (Node.ordered_iff ?_ ?_ ?_).mpr (sequenced_of_readList (readList_children hform) hn)
    all_goals (change form'.kind ≠ _; rw [hkind]; nofun)

theorem fits_of_read {n : Sketch} {t : Tree} (h : read n = .ok t) (hn : n.Fits source) : t.Fits source := by
  obtain ⟨hform, hspan⟩ := of_read h
  refine ⟨hspan ▸ hn.nonempty, hspan ▸ hn.inside, hspan ▸ written_of_readForm hform hn.written,
    ordered_of_read h hn.ordered, fun c hc => ?_, fun c hc => ?_⟩
  · obtain ⟨m, hm, hread⟩ := exists_of_mem_readList (readList_exposed hform) hc
    exact unreserved_of_read hread (hn.unreserved m hm)
  · obtain ⟨m, hm, hread⟩ := exists_of_mem_readList (readList_labels hform) hc
    exact bare_of_read hread (hn.bare m hm)

theorem all_fits_of_read {n : Sketch} : ∀ {t : Tree}, read n = .ok t → n.All (Node.Fits source) →
    t.All (Node.Fits source) := by
  induction n using Node.induction with
  | step n ih =>
    intro t h hn
    refine Node.all_iff.mpr ⟨fits_of_read h hn.self, fun c hc => ?_⟩
    obtain ⟨m, hm, hread⟩ := exists_of_mem_readList (readList_children (of_read h).1) hc
    exact ih m hm hread (hn.child hm)

theorem root_children (p : Program) : p.root.children = p.body := by
  simp [Program.root, Node.children, Form.children, Form.slots, Slot.children]

/-- The statements of a script lie one after the other in its source. -/
theorem laid_of_parse {depth : Nat} {filename : Text} {p : Program}
    (h : parseWithin depth source filename = .ok p) : p.source = source ∧ ∃ statements,
      readList statements = .ok p.body ∧ Laid source 0 (statements.map .free) source.length := by
  obtain ⟨statements, next, ⟨n, hn⟩, -, hread, hsource, -⟩ := settles_of_parse h
  obtain ⟨ps, hfound⟩ := (layout_supports source n).found .program _ _ _ (Nat.zero_le _) hn
  obtain rfl : ps = statements.map .free := hfound.shape
  exact ⟨hsource, statements, hread, hfound.laid.mono (Nat.le_refl _) hfound.inside⟩

/-- **The tree of a script lies in its source as it should.** -/
theorem arranged_of_parse {depth : Nat} {filename : Text} {p : Program}
    (h : parseWithin depth source filename = .ok p) : p.root.Arranged source := by
  obtain ⟨hsource, statements, hread, hlaid⟩ := laid_of_parse h
  have hkind {k : Kind} (hk : k ≠ .program) : p.root.kind ≠ k := fun e => hk e.symm
  refine ⟨(Node.ordered_iff (hkind nofun) (hkind nofun) (hkind nofun)).mpr ?_, fun c hc => ?_⟩
  · have hseq := hlaid.sequenced
    rw [Part.map_node_free] at hseq
    rw [root_children, Program.root, hsource]
    exact sequenced_of_readList hread hseq
  · rw [root_children] at hc
    obtain ⟨m, hm, hc⟩ := exists_of_mem_readList hread hc
    exact all_fits_of_read hc (hlaid.good (List.mem_map_of_mem hm)).fits

/-- Everything but the root fits. -/
theorem fits_of_arranged {p : Program} (h : p.root.Arranged source) {n : Tree} (hn : n ∈ p.root.nodes)
    (hkind : n.kind ≠ .program) : n.Fits source := by
  rcases h.eq_or_all hn with rfl | hall
  · exact absurd rfl hkind
  · exact hall.self

theorem unreserved_of_parse {depth : Nat} {filename : Text} {p : Program}
    (h : parseWithin depth source filename = .ok p) : ∀ c ∈ p.root.children, c.Unreserved := by
  obtain ⟨-, statements, hread, hlaid⟩ := laid_of_parse h
  intro c hc
  rw [root_children] at hc
  obtain ⟨m, hm, hc⟩ := exists_of_mem_readList hread hc
  exact unreserved_of_read hc ((hlaid.good (List.mem_map_of_mem hm)).unreserved rfl)

end Transfer

end ScriptAudit
