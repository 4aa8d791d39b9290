/-
Parts of a match: trees that lie one after the other in a stretch of the source (`Laid`). Each way the
grammar has of putting parts together into one tree gives a tree that fits.
-/
import ScriptAudit.Grammar.Script
import ScriptAudit.Proofs.Account
import ScriptAudit.Proofs.Layout

namespace ScriptAudit

/-- A tree that is to become a child of another. -/
structure Part where
  node : Sketch
  /-- Whether it stands for something. Otherwise it is a label. -/
  exposed : Bool

namespace Part

def free (n : Sketch) : Part := ⟨n, true⟩

def label (n : Sketch) : Part := ⟨n, false⟩

structure Good (source : Text) (p : Part) : Prop where
  fits : p.node.All (Node.Fits source)
  unreserved : p.exposed = true → p.node.Unreserved
  bare : p.exposed = false → p.node.children = []

end Part

/-- The parts are good and follow each other between the offsets. -/
def Laid (source : Text) : (start : Nat) → List Part → (stop : Nat) → Prop
  | s, [], e => s ≤ e
  | s, p :: ps, e => s ≤ p.node.span.start ∧ p.Good source ∧ Laid source p.node.span.stop ps e

variable {source : Text}

theorem Part.Good.nonempty {p : Part} (h : p.Good source) : p.node.span.start < p.node.span.stop :=
  h.fits.self.nonempty

theorem Part.Good.inside {p : Part} (h : p.Good source) : p.node.span.stop ≤ source.length :=
  h.fits.self.inside

namespace Laid

theorem le {ps : List Part} {s e : Nat} (h : Laid source s ps e) : s ≤ e := by
  induction ps generalizing s with
  | nil => exact h
  | cons p ps ih =>
    obtain ⟨hs, hp, hps⟩ := h
    have := hp.nonempty
    have := ih hps
    omega

theorem mono {ps : List Part} {s s' e e' : Nat} (h : Laid source s ps e) (hs : s' ≤ s) (he : e ≤ e') :
    Laid source s' ps e' := by
  induction ps generalizing s s' with
  | nil => simp only [Laid] at h ⊢; omega
  | cons p ps ih => exact ⟨Nat.le_trans hs h.1, h.2.1, ih h.2.2 (Nat.le_refl _)⟩

theorem append {ps qs : List Part} {s m e : Nat} (hp : Laid source s ps m) (hq : Laid source m qs e) :
    Laid source s (ps ++ qs) e := by
  induction ps generalizing s with
  | nil => exact hq.mono hp (Nat.le_refl e)
  | cons p ps ih => exact ⟨hp.1, hp.2.1, ih hp.2.2⟩

theorem composes : Account.Composes (Laid source) := ⟨fun h => h, append⟩

theorem sublist {ps qs : List Part} (hsub : List.Sublist qs ps) :
    ∀ {s e : Nat}, Laid source s ps e → Laid source s qs e := by
  induction hsub with
  | slnil => exact id
  | cons p _ ih =>
    intro s e h
    have := h.2.1.nonempty
    exact (ih h.2.2).mono (by have := h.1; omega) (Nat.le_refl e)
  | cons_cons p _ ih => intro s e h; exact ⟨h.1, h.2.1, ih h.2.2⟩

theorem good {ps : List Part} {p : Part} (hp : p ∈ ps) :
    ∀ {s e : Nat}, Laid source s ps e → p.Good source := by
  induction hp with
  | head => exact fun h => h.2.1
  | tail _ _ ih => exact fun h => ih h.2.2

theorem sequenced {ps : List Part} {s e : Nat} (h : Laid source s ps e) :
    Sequenced s (ps.map Part.node) e := by
  induction ps generalizing s with
  | nil => exact h
  | cons p ps ih => exact ⟨h.1, ih h.2.2⟩

theorem single_iff {p : Part} {s e : Nat} :
    Laid source s [p] e ↔ s ≤ p.node.span.start ∧ p.Good source ∧ p.node.span.stop ≤ e := Iff.rfl

end Laid

/-! ## Trees from their parts -/

theorem Node.unreserved_of_kind {n : Sketch} (h : n.kind ≠ .identifier) : n.Unreserved := by
  intro name hn
  exact absurd (by rw [Node.kind, hn]; rfl) h

namespace Part

theorem good_of_fits {n : Sketch} (hfits : n.Fits source)
    (hchildren : ∀ c ∈ n.children, c.All (Node.Fits source)) (hname : n.Unreserved) : (free n).Good source :=
  ⟨Node.all_iff.mpr ⟨hfits, hchildren⟩, fun _ => hname, nofun⟩

/-- A tree without children that serves as a label. -/
theorem good_label {n : Sketch} (hfits : n.All (Node.Fits source)) (hbare : n.children = []) :
    (label n).Good source :=
  ⟨hfits, nofun, fun _ => hbare⟩

theorem map_node_free (ns : List Sketch) : (ns.map free).map node = ns := by
  rw [List.map_map]; exact List.map_id ns

/-- A node without labels, over good parts. -/
theorem good_node {n : Sketch} {s : Nat} (h : Laid source s (n.children.map free) n.span.stop)
    (hordered : n.Ordered source) (hwritten : n.form.Written source n.span)
    (hexposed : n.form.exposed = n.children) (hlabels : n.form.labels = []) (hkind : n.kind ≠ .identifier)
    (hlt : n.span.start < n.span.stop) (hin : n.span.stop ≤ source.length) : (free n).Good source := by
  have hgood : ∀ c ∈ n.children, (free c).Good source := fun c hc => h.good (List.mem_map_of_mem hc)
  refine good_of_fits ⟨hlt, hin, hwritten, hordered, fun c hc => ?_, fun c hc => ?_⟩
    (fun c hc => (hgood c hc).fits) (Node.unreserved_of_kind hkind)
  · exact (hgood c (hexposed ▸ hc)).unreserved rfl
  · rw [hlabels] at hc
    cases hc

/-- A plain form over parts in their order. -/
theorem good_plain {form : Form TokenClass Sketch} {ps : List Part} {s e : Nat}
    (hplain : form.isPlain = true) (hsub : List.Sublist (form.children.map free) ps)
    (hps : Laid source s ps e) (hlt : s < e) (hin : e ≤ source.length) :
    (free ⟨form, ⟨s, e⟩⟩).Good source := by
  have hlaid := hps.sublist hsub
  have hseq := hlaid.sequenced
  rw [map_node_free] at hseq
  exact good_node hlaid (Node.ordered_of_isPlain hplain hseq) (Form.written_of_isPlain hplain)
    (Form.exposed_of_isPlain hplain) (Form.labels_of_isPlain hplain) (Form.kind_ne_of_isPlain hplain) hlt hin

end Part

/-- A plain node at the span of its match. -/
theorem Laid.node {form : Form TokenClass Sketch} {ps : List Part} {s e : Nat}
    (h : Laid source s ps e) (hplain : form.isPlain = true)
    (hsub : List.Sublist (form.children.map Part.free) ps) (hlt : s < e) (hin : e ≤ source.length) :
    Laid source s [.free ⟨form, ⟨s, e⟩⟩] e :=
  ⟨Nat.le_refl s, Part.good_plain hplain hsub h hlt hin, Nat.le_refl e⟩

/-! ## Names and literals -/

namespace Part

theorem good_name {l : Located} (hlt : l.span.start < l.span.stop) (hin : l.span.stop ≤ source.length)
    (hs : Stands source .name l.span) (ht : l.text = source.slice l.span) :
    (label l.identifier).Good source :=
  good_label (Node.all_iff.mpr ⟨⟨hlt, hin, ⟨hs, ht⟩, Nat.le_of_lt hlt, nofun, nofun⟩, nofun⟩) rfl

theorem good_identifier {l : Located} (h : (label l.identifier).Good source)
    (hr : Lexeme.isReserved l.text = false) : (free l.identifier).Good source := by
  refine ⟨h.fits, fun _ name hn => ?_, nofun⟩
  cases hn
  exact hr

theorem good_literal {c : TokenClass} {l : Lexeme} {raw : Text} {span : Span} (hl : l ∈ Literal.lexemes c)
    (hlt : span.start < span.stop) (hin : span.stop ≤ source.length) (hs : Stands source l span)
    (ht : raw = source.slice span) : (free ⟨.literal c raw, span⟩).Good source :=
  good_of_fits ⟨hlt, hin, ⟨⟨l, hl, hs⟩, ht⟩, Nat.le_of_lt hlt, nofun, nofun⟩ nofun
    (Node.unreserved_of_kind nofun)

theorem good_defaultImport {l : Located} (h : (label l.identifier).Good source) :
    (free l.defaultImport).Good source :=
  good_of_fits ⟨h.nonempty, h.inside, trivial, Nat.le_of_lt h.nonempty, nofun, nofun⟩ nofun
    (Node.unreserved_of_kind nofun)

theorem good_shorthand {l : Located} (h : (free l.identifier).Good source) :
    (free l.shorthand).Good source := by
  have hchild : ∀ c ∈ l.shorthand.children, c = l.identifier := by
    intro c hc
    rcases List.mem_cons.mp hc with rfl | hc
    · rfl
    · exact List.mem_singleton.mp hc
  refine good_of_fits ⟨h.nonempty, h.inside, trivial, .shorthand rfl rfl, fun c hc => ?_, fun c hc => ?_⟩
    (fun c hc => hchild c hc ▸ h.fits) (Node.unreserved_of_kind nofun)
  · rw [hchild c (Form.exposed_subset hc)]
    exact h.unreserved rfl
  · rw [List.mem_singleton.mp hc]
    rfl

end Part

/-! ## Operators and chains -/

/-- Two neighbours become one tree, from the start of the first to the end of the second. -/
theorem Laid.join {a b : Sketch} {ps : List Part} {form : Form TokenClass Sketch} {s e : Nat}
    (h : Laid source s (.free a :: .free b :: ps) e) (hplain : form.isPlain = true)
    (hchildren : form.children = [a, b]) :
    Laid source s (.free ⟨form, ⟨a.span.start, b.span.stop⟩⟩ :: ps) e := by
  obtain ⟨hs, ha, hab, hb, hps⟩ := h
  have hlt : a.span.start < b.span.stop :=
    Nat.lt_of_lt_of_le ha.nonempty (Nat.le_trans hab (Nat.le_of_lt hb.nonempty))
  have hboth : Laid source a.span.start [.free a, .free b] b.span.stop :=
    ⟨Nat.le_refl _, ha, hab, hb, Nat.le_refl _⟩
  refine ⟨hs, Part.good_plain hplain ?_ hboth hlt hb.inside, hps⟩
  rw [hchildren]
  exact .refl _

theorem Laid.foldl_join {op : Type} {join : Sketch → op → Sketch → Sketch}
    (hjoin : ∀ a o b, ∃ form, join a o b = ⟨form, ⟨a.span.start, b.span.stop⟩⟩ ∧
      form.isPlain = true ∧ form.children = [a, b])
    {steps : List (op × Sketch)} :
    ∀ {first : Sketch} {s e : Nat}, Laid source s (.free first :: steps.map fun step => .free step.2) e →
      Laid source s [.free (steps.foldl (fun left step => join left step.1 step.2) first)] e := by
  induction steps with
  | nil => exact id
  | cons step steps ih =>
    intro first s e h
    obtain ⟨form, hform, hplain, hchildren⟩ := hjoin first step.1 step.2
    rw [List.foldl_cons]
    refine ih ?_
    rw [hform]
    exact Laid.join h hplain hchildren

/-- The parts of a link. The name of a member is a label. -/
def Link.parts : Link → List Part
  | .call arguments => arguments.map .free
  | .member name => [.label name.identifier]
  | .index expression => [.free expression]

def Piece.parts : Piece → List Part
  | .chunk _ => []
  | .substitution expression => [.free expression]

/-- A link lies between the offsets and ends where it says. -/
structure Tail.Fits (source : Text) (s : Nat) (tail : Tail) (e : Nat) : Prop where
  parts : Laid source s tail.link.parts e
  stop : tail.stop = e
  lt : s < e
  inside : e ≤ source.length

/-- A member is exposed where it is computed. -/
theorem Part.good_member {n x : Sketch} {computed optional : Bool} {e : Nat}
    (h : Laid source n.span.start [.free n, ⟨x, computed⟩] e) (hlt : n.span.start < e)
    (hin : e ≤ source.length) :
    (free ⟨.memberExpression n x computed optional, ⟨n.span.start, e⟩⟩).Good source := by
  obtain ⟨-, hn, -, hx, -⟩ := id h
  refine good_of_fits ⟨hlt, hin, trivial, h.sequenced, ?_, ?_⟩ ?_ (Node.unreserved_of_kind nofun)
  · intro c hc
    cases computed with
    | false => rw [List.mem_singleton.mp hc]; exact hn.unreserved rfl
    | true =>
      rcases List.mem_cons.mp hc with rfl | hc
      · exact hn.unreserved rfl
      · rw [List.mem_singleton.mp hc]; exact hx.unreserved rfl
  · intro c hc
    cases computed with
    | false => rw [List.mem_singleton.mp hc]; exact hx.bare rfl
    | true => cases hc
  · intro c hc
    rcases List.mem_cons.mp hc with rfl | hc
    · exact hn.fits
    · rw [List.mem_singleton.mp hc]; exact hx.fits

theorem Laid.extend {n : Sketch} {tail : Tail} {s m e : Nat} (h : Laid source s [.free n] m)
    (ht : tail.Fits source m e) : Laid source s [.free (n.extend tail)] e := by
  obtain ⟨hs, hn, hm⟩ := Laid.single_iff.mp h
  obtain ⟨link, optional, stop⟩ := tail
  obtain ⟨hparts, rfl, hlt, hin⟩ := ht
  have hlaid : Laid source n.span.start (.free n :: link.parts) stop :=
    ⟨Nat.le_refl _, hn, hparts.mono hm (Nat.le_refl _)⟩
  have hspan : n.span.start < stop :=
    Nat.lt_of_lt_of_le hn.nonempty (Nat.le_trans hm (Nat.le_of_lt hlt))
  refine ⟨hs, ?_, Nat.le_refl _⟩
  cases link with
  | call arguments =>
    refine Part.good_plain rfl ?_ hlaid hspan hin
    simp [Form.children, Form.slots, Slot.children, Link.parts]
  | member name => exact Part.good_member hlaid hspan hin
  | index expression => exact Part.good_member hlaid hspan hin

theorem Laid.extendAll {L : Nat → Tail → Nat → List Part → Prop}
    (hL : ∀ s tail e ps, s ≤ source.length → L s tail e ps → tail.Fits source s e) {tails : List Tail} :
    ∀ {n : Sketch} {s m e : Nat} {ps : List Part}, m ≤ source.length → Laid source s [.free n] m →
      LaysRun L m tails e ps → Laid source s [.free (n.extendAll tails)] e := by
  induction tails with
  | nil => rintro n s m e ps - h ⟨rfl, -⟩; exact h
  | cons tail tails ih =>
    rintro n s m e ps hm h ⟨k, qs, rs, ht, hts, -⟩
    have hfits := hL _ _ _ _ hm ht
    exact ih hfits.inside (h.extend hfits) hts

/-! ## Declarations and properties -/

theorem Part.good_headDeclaration {kind : VariableKind} {binding : Sketch} {s e : Nat}
    (h : Laid source s [.free binding] e) (hlt : s < e) (hin : e ≤ source.length) :
    (free (.headDeclaration ⟨s, e⟩ kind binding)).Good source := by
  obtain ⟨hs, hb, he⟩ := Laid.single_iff.mp h
  have hlaid : Laid source binding.span.start [.free binding] binding.span.stop :=
    ⟨Nat.le_refl _, hb, Nat.le_refl _⟩
  have hdeclarator : (free ⟨.variableDeclarator binding none, binding.span⟩).Good source :=
    good_plain rfl (.refl _) hlaid hb.nonempty hb.inside
  have hlaid' : Laid source s [.free ⟨.variableDeclarator binding none, binding.span⟩] e :=
    ⟨hs, hdeclarator, he⟩
  exact good_plain rfl (.refl _) hlaid' hlt hin

/-- The children of a property, where the value is exposed and the key only if it is computed. -/
theorem Part.good_property {key value : Sketch} {computed shorthand method : Bool} {span : Span}
    (hlt : span.start < span.stop) (hin : span.stop ≤ source.length)
    (hkey : Good source ⟨key, computed⟩) (hvalue : (free value).Good source)
    (horder : PropertyOrder span key value computed shorthand method) :
    (free ⟨.property key value computed shorthand method, span⟩).Good source := by
  refine good_of_fits ⟨hlt, hin, trivial, horder, ?_, ?_⟩ ?_ (Node.unreserved_of_kind nofun)
  · intro c hc
    cases computed with
    | false => rw [List.mem_singleton.mp hc]; exact hvalue.unreserved rfl
    | true =>
      rcases List.mem_cons.mp hc with rfl | hc
      · exact hkey.unreserved rfl
      · rw [List.mem_singleton.mp hc]; exact hvalue.unreserved rfl
  · intro c hc
    cases computed with
    | false => rw [List.mem_singleton.mp hc]; exact hkey.bare rfl
    | true => cases hc
  · intro c hc
    rcases List.mem_cons.mp hc with rfl | hc
    · exact hkey.fits
    · rw [List.mem_singleton.mp hc]; exact hvalue.fits

theorem Part.good_keyed {key value : Sketch} {computed : Bool} {s e : Nat}
    (h : Laid source s [⟨key, computed⟩, .free value] e) (hlt : s < e) (hin : e ≤ source.length) :
    (free ⟨.property key value computed false false, ⟨s, e⟩⟩).Good source := by
  obtain ⟨-, hkey, -, hvalue, -⟩ := id h
  exact good_property hlt hin hkey hvalue (.keyed h.sequenced)

theorem Part.good_method {key : Key} {isAsync generator : Bool} {params : List Sketch} {body : Sketch}
    {s e : Nat} (h : Laid source s (⟨key.node, key.computed⟩ :: (params.map .free ++ [.free body])) e)
    (hfirst : key.node.span.start = s ↔ key.computed = false ∧ (isAsync || generator) = false)
    (hlt : s < e) (hin : e ≤ source.length) :
    (free (.method ⟨s, e⟩ isAsync generator key params body)).Good source := by
  have hchildren : (Form.functionExpression none params body isAsync generator :
      Form TokenClass Sketch).children = params ++ [body] := by
    simp [Form.children, Form.slots, Slot.children]
  have hfunction : (free ⟨.functionExpression none params body isAsync generator, ⟨s, e⟩⟩).Good source := by
    refine good_plain rfl ?_ h hlt hin
    rw [hchildren, List.map_append]
    exact List.sublist_cons_self _ _
  refine good_property hlt hin h.2.1 hfunction (.method rfl rfl ?_ hfirst)
  have hseq := h.sequenced
  rw [List.map_cons, List.map_append, map_node_free] at hseq
  rw [Node.children, hchildren]
  exact hseq

theorem Part.good_defaulted {name : Located} {value : Sketch} {s e : Nat}
    (h : Laid source s [.free name.identifier, .free value] e) (hfirst : name.span.start = s) (hlt : s < e)
    (hin : e ≤ source.length) : (free (.defaulted ⟨s, e⟩ name value)).Good source := by
  have hpattern : (free ⟨.assignmentPattern name.identifier value, ⟨s, e⟩⟩).Good source :=
    good_plain rfl (.refl _) h hlt hin
  exact good_property hlt hin (good_label h.2.1.fits rfl) hpattern (.defaulted rfl rfl rfl hfirst)

end ScriptAudit
