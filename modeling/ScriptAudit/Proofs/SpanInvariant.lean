/-
What the spans of a script's tree say about its source: the root spans all of it, every other node a stretch
that is not empty and lies inside that of its parent, and names, literals and the words of loops and awaits
stand where their nodes say.
-/
import ScriptAudit.Proofs.Foresight
import ScriptAudit.Proofs.TreeLayout

namespace ScriptAudit

variable {source : Text}

/-! ## Words and literals as they are written -/

theorem Lexeme.take_of_exact {text : Text} {barred : CodePoint → Bool} {t : Text} {n : Nat}
    (h : (Lexeme.exact text barred).length? t = some n) : t.take n = text := by
  have hn := Lexeme.length?_exact h
  simp only [Lexeme.length?] at h
  split at h
  · rename_i hprefix
    rw [Bool.and_eq_true, List.isPrefixOf_iff_prefix] at hprefix
    rw [hn]
    exact (List.prefix_iff_eq_take.mp hprefix.1).symm
  · cases h

theorem Opens.prefix_drop {word : String} {offset : Nat} (h : Opens source word offset) :
    Text.ofString word <+: source.drop offset := by
  have htake := Lexeme.take_of_exact h
  rw [← htake]
  exact List.take_prefix _ _

/-- Only the word `true` stands for truth. -/
theorem raw_eq_true_iff {value : Value} {raw : Text} {span : Span}
    (h : (Form.literal value raw : Form Value Tree).Written source span) :
    raw = Text.ofString "true" ↔ value = .boolean true := by
  obtain ⟨⟨l, hl, hstands⟩, rfl⟩ := h
  constructor
  · intro hraw
    -- the text at the span begins with a `t`, which neither a number nor a string does
    obtain ⟨rest, hrest⟩ : ∃ rest, source.drop span.start = CodePoint.ofChar 't' :: rest := by
      obtain ⟨rest, hrest⟩ : source.slice span <+: source.drop span.start := List.take_prefix _ _
      rw [hraw] at hrest
      exact ⟨_, hrest.symm⟩
    cases value with
    | null =>
      obtain rfl := List.mem_singleton.mp hl
      rw [Text.slice, Lexeme.take_of_exact hstands] at hraw
      exact absurd hraw (by decide)
    | boolean truth =>
      obtain rfl := List.mem_singleton.mp hl
      rw [Text.slice, Lexeme.take_of_exact hstands] at hraw
      cases truth with
      | true => rfl
      | false => exact absurd hraw (by decide)
    | number amount =>
      obtain rfl := List.mem_singleton.mp hl
      rw [Stands, hrest, Lexeme.length?, Lexeme.numberLength?_eq_none (by decide) (by decide)] at hstands
      cases hstands
    | text content =>
      rw [Stands, hrest] at hstands
      rcases List.mem_cons.mp hl with rfl | hl
      · simp only [Lexeme.length?, if_neg (show CodePoint.ofChar 't' ≠ CodePoint.ofChar '"' by decide)] at hstands
        cases hstands
      · obtain rfl := List.mem_singleton.mp hl
        simp only [Lexeme.length?, if_neg (show CodePoint.ofChar 't' ≠ CodePoint.ofChar '\'' by decide)] at hstands
        cases hstands
  · rintro rfl
    obtain rfl := List.mem_singleton.mp hl
    exact Lexeme.take_of_exact hstands

/-! ## Nodes of a script -/

namespace Program

/-- The spans of the script's tree are those of the source, and the source has there what the tree says. -/
structure Anchored (p : Program) (source : Text) : Prop where
  whole : p.root.span = ⟨0, source.length⟩
  nonempty : ∀ c ∈ p.root.children, ∀ n ∈ c.nodes, n.span.start < n.span.stop
  inside : ∀ c ∈ p.root.children, ∀ n ∈ c.nodes, n.span.stop ≤ source.length
  nested : ∀ n ∈ p.root.nodes, ∀ c ∈ n.children, n.span.Covers c.span
  names : ∀ n ∈ p.root.nodes, ∀ name, n.form = .identifier name → source.slice n.span = name
  literals : ∀ n ∈ p.root.nodes, ∀ value raw, n.form = .literal value raw →
    source.slice n.span = raw ∧ (raw = Text.ofString "true" ↔ value = .boolean true)
  loops : ∀ n ∈ p.root.nodes, n.kind = .whileStatement →
    Text.ofString "while" <+: source.drop n.span.start
  awaits : ∀ n ∈ p.root.nodes, n.kind = .awaitExpression →
    Text.ofString "await" <+: source.drop n.span.start

theorem anchored_of_arranged {p : Program} (hsource : p.source = source) (h : p.root.Arranged source) :
    p.Anchored source := by
  have hfits : ∀ n ∈ p.root.nodes, n.kind ≠ .program → n.Fits source := fun _ => fits_of_arranged h
  refine ⟨?_, ?_, ?_, ?_, ?_, ?_, ?_, ?_⟩
  · rw [root, hsource]
  · exact fun c hc n hn => (h.children c hc n hn).nonempty
  · exact fun c hc n hn => (h.children c hc n hn).inside
  · exact fun n hn c hc => (h.of_mem hn).covers_child hc
  · intro n hn name hform
    have hwritten := (hfits n hn (by rw [Node.kind, hform, Form.kind]; decide)).written
    rw [hform] at hwritten
    exact hwritten.2.symm
  · intro n hn value raw hform
    have hwritten := (hfits n hn (by rw [Node.kind, hform, Form.kind]; decide)).written
    rw [hform] at hwritten
    exact ⟨hwritten.2.symm, raw_eq_true_iff hwritten⟩
  · exact fun n hn hkind => (h.opens_of_isLoop hn hkind).prefix_drop
  · intro n hn hkind
    have hordered := (hfits n hn (by rw [hkind]; decide)).ordered
    obtain ⟨form, span⟩ := n
    cases form with
    | awaitExpression argument => exact hordered.1.prefix_drop
    | _ => cases hkind

end Program

/-- **The tree of a script is anchored in its source.** -/
theorem anchored_of_read {filename : Text} {p : Program} (h : Program.read source filename = .ok p) :
    p.Anchored source := by
  have hparse := read_eq_ok_iff.mp h
  obtain ⟨-, -, -, -, -, hsource, -⟩ := settles_of_parse hparse
  exact p.anchored_of_arranged hsource (arranged_of_parse hparse)

/-- A loop that awaits an object with a shorthand property. -/
def Program.awaiting : Program where
  body := [⟨.whileStatement ⟨.literal (.boolean true) "true", ⟨6, 10⟩⟩
    ⟨.expressionStatement ⟨.awaitExpression ⟨.objectExpression [⟨.property ⟨.identifier "a", ⟨17, 18⟩⟩
      ⟨.identifier "a", ⟨17, 18⟩⟩ false true false, ⟨17, 18⟩⟩], ⟨16, 19⟩⟩, ⟨11, 19⟩⟩, ⟨11, 20⟩⟩, ⟨0, 20⟩⟩]
  source := "while(true)await\x7ba\x7d;"
  filename := "awaiting.js"

theorem parse_awaiting : parse "while(true)await\x7ba\x7d;" "awaiting.js" = .ok .awaiting := by
  have heval : scriptGrammar.eval 40 .program (Cursor.start (Text.ofString "while(true)await\x7ba\x7d;")) =
      some (.found
        [⟨.whileStatement ⟨.literal (.boolean true) "true", ⟨6, 10⟩⟩
          ⟨.expressionStatement ⟨.awaitExpression ⟨.objectExpression [⟨.property ⟨.identifier "a", ⟨17, 18⟩⟩
            ⟨.identifier "a", ⟨17, 18⟩⟩ false true false, ⟨17, 18⟩⟩], ⟨16, 19⟩⟩, ⟨11, 19⟩⟩, ⟨11, 20⟩⟩, ⟨0, 20⟩⟩]
        ((Cursor.start _).advance 20)) := by rfl
  exact parse_of_eval (by decide) heval (by decide) rfl

theorem anchored_of_read_awaiting : Program.read "while(true)await\x7ba\x7d;" "awaiting.js" = .ok .awaiting ∧
    Program.awaiting.Anchored "while(true)await\x7ba\x7d;" :=
  ⟨read_eq_ok_iff.mpr parse_awaiting, anchored_of_read (read_eq_ok_iff.mpr parse_awaiting)⟩

end ScriptAudit
