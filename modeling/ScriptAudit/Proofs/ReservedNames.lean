/-
Where reserved words may be names. Names come from two rules of the grammar, one that takes any name and one that
takes no reserved word. What the first one makes an identifier of is the name of a member or the key of a property
(`Form.labels`), so every other identifier is none of the words that mean something to the analyses.
-/
import ScriptAudit.Proofs.Foresight
import ScriptAudit.Proofs.TreeLayout

namespace ScriptAudit

variable {source : Text}

/-! ## Names as they are written -/

/-- A letter, an underscore or a dollar sign, and then such code points and digits. -/
def Text.IsName (t : Text) : Prop :=
  ∃ first rest, t = first :: rest ∧ first.startsName = true ∧ ∀ c ∈ rest, c.continuesName = true

/-- What stands at the span of a name is a name, and all of it. -/
theorem isName_of_stands {span : Span} (h : Stands source .name span) (hlt : span.start < span.stop) :
    (source.slice span).IsName ∧ ∀ c ∈ (source.drop span.stop).head?, c.continuesName = false := by
  simp only [Stands, Lexeme.length?] at h
  split at h
  · rename_i hstarts
    have hlength : ((source.drop span.start).takeWhile CodePoint.continuesName).length = span.stop - span.start :=
      Option.some.inj h
    have hslice : source.slice span = (source.drop span.start).takeWhile CodePoint.continuesName := by
      rw [Text.slice, ← hlength, ← List.prefix_iff_eq_take.mp (List.takeWhile_prefix _)]
    have hafter : source.drop span.stop = (source.drop span.start).dropWhile CodePoint.continuesName := by
      have hsplit := List.takeWhile_append_dropWhile (p := CodePoint.continuesName) (l := source.drop span.start)
      have hdrop := congrArg (List.drop (span.stop - span.start)) hsplit
      rwa [← hlength, List.drop_left, hlength, List.drop_drop, Nat.add_sub_cancel' (Nat.le_of_lt hlt), eq_comm] at hdrop
    constructor
    · rw [hslice]
      cases ht : source.drop span.start with
      | nil => rw [ht] at hstarts; cases hstarts
      | cons c rest =>
        have hc : c.startsName = true := by simpa [ht] using hstarts
        rw [List.takeWhile_cons_of_pos (CodePoint.continuesName_of_startsName hc)]
        exact ⟨c, _, rfl, hc, List.all_eq_true.mp List.all_takeWhile⟩
    · intro c hc
      rw [hafter] at hc
      have hnot := List.head?_dropWhile_not CodePoint.continuesName (source.drop span.start)
      rw [Option.mem_def.mp hc] at hnot
      simpa using hnot
  · cases h

/-! ## Labels -/

/-- A child that does not stand for something is the name of a member or the key of a property. -/
theorem Form.isLabel_of_not_mem_exposed {ℓ α : Type} {form : Form ℓ α} {a : α} (ha : a ∈ form.children)
    (hexposed : a ∉ form.exposed) :
    (∃ object optional, form = .memberExpression object a false optional ∧ object ≠ a) ∨
      ∃ value shorthand method, form = .property a value false shorthand method ∧ value ≠ a := by
  cases form with
  | memberExpression object selected computed optional =>
    cases computed with
    | true => exact absurd ha hexposed
    | false =>
      have hne : object ≠ a := fun h => hexposed (h ▸ List.mem_cons_self)
      obtain rfl : a = selected := by
        simpa [children, slots, Slot.children, Ne.symm hne] using ha
      exact .inl ⟨object, optional, rfl, hne⟩
  | property key value computed shorthand method =>
    cases computed with
    | true => exact absurd ha hexposed
    | false =>
      have hne : value ≠ a := fun h => hexposed (h ▸ List.mem_cons_self)
      obtain rfl : a = key := by
        simpa [children, slots, Slot.children, Ne.symm hne] using ha
      exact .inr ⟨value, shorthand, method, rfl, hne⟩
  | _ => exact absurd ha hexposed

namespace Program

/-- The identifiers of a script are names, written out in its source, and reserved words only where they are labels:
the name of a member or the key of a property, if it is not computed. -/
structure ProperlyNamed (p : Program) (source : Text) : Prop where
  names : ∀ n ∈ p.root.nodes, ∀ name, n.form = .identifier name → name.IsName
  whole : ∀ n ∈ p.root.nodes, ∀ name, n.form = .identifier name →
    ∀ c ∈ (source.drop n.span.stop).head?, c.continuesName = false
  reserved : ∀ n ∈ p.root.nodes, ∀ c ∈ n.children, ∀ name, c.form = .identifier name →
    Lexeme.isReserved name = true →
    (∃ object optional, n.form = .memberExpression object c false optional ∧ object ≠ c) ∨
      ∃ value shorthand method, n.form = .property c value false shorthand method ∧ value ≠ c

end Program

/-- **Reserved words are no variables.** -/
theorem properlyNamed_of_read {filename : Text} {p : Program} (h : Program.read source filename = .ok p) :
    p.ProperlyNamed source := by
  have hparse := read_eq_ok_iff.mp h
  have harranged := arranged_of_parse hparse
  have hname : ∀ n ∈ p.root.nodes, ∀ name, n.form = .identifier name →
      name.IsName ∧ ∀ c ∈ (source.drop n.span.stop).head?, c.continuesName = false := by
    intro n hn name hform
    have hfits := fits_of_arranged harranged hn (by rw [Node.kind, hform]; rintro ⟨⟩)
    obtain ⟨hstands, hslice⟩ : Stands source .name n.span ∧ name = source.slice n.span := by
      have hwritten := hfits.written
      rwa [hform] at hwritten
    rw [hslice]
    exact isName_of_stands hstands hfits.nonempty
  refine ⟨fun n hn name hform => (hname n hn name hform).1, fun n hn name hform => (hname n hn name hform).2,
    fun n hn c hc name hform hreserved => ?_⟩
  refine Form.isLabel_of_not_mem_exposed hc fun hexposed => ?_
  have hunreserved : c.Unreserved := by
    rcases harranged.eq_or_all hn with rfl | hall
    · exact unreserved_of_parse hparse c hc
    · exact hall.self.unreserved c hexposed
  rw [hunreserved name hform] at hreserved
  cases hreserved

/-- The name of the member is a reserved word. -/
def Program.labelled : Program where
  body := [⟨.expressionStatement ⟨.memberExpression ⟨.identifier "a", ⟨0, 1⟩⟩ ⟨.identifier "in", ⟨2, 4⟩⟩ false false,
    ⟨0, 4⟩⟩, ⟨0, 4⟩⟩]
  source := "a.in"
  filename := "labelled.js"

theorem parse_labelled : parse "a.in" "labelled.js" = .ok .labelled := by
  have heval : scriptGrammar.eval 30 .program (Cursor.start (Text.ofString "a.in")) = some (.found
      [⟨.expressionStatement ⟨.memberExpression ⟨.identifier "a", ⟨0, 1⟩⟩ ⟨.identifier "in", ⟨2, 4⟩⟩ false false,
        ⟨0, 4⟩⟩, ⟨0, 4⟩⟩] ((Cursor.start _).advance 4)) := by rfl
  exact parse_of_eval (by decide) heval (by decide) rfl

theorem properlyNamed_of_read_labelled : Program.read "a.in" "labelled.js" = .ok .labelled ∧
    Program.labelled.ProperlyNamed "a.in" :=
  ⟨read_eq_ok_iff.mpr parse_labelled, properlyNamed_of_read (read_eq_ok_iff.mpr parse_labelled)⟩

end ScriptAudit
