/-
Strings and templates are read back. Any text between quotes, and any texts with variables between them in a template,
are one literal once they are written with the escapes they need, and the literal has the texts they were written from.

What a template comes to is put together from its pieces (`Template.Composes`). They are read from left to right, but
found from right to left: what a piece adds depends on the pieces after it.
-/
import ScriptAudit.Proofs.EscapedText
import ScriptAudit.Proofs.ExpressionReading
import ScriptAudit.Proofs.Layout

namespace ScriptAudit

open ScriptGrammar

variable {source : Text} {d : Nat} {c next : Cursor source} {e : Sketch}

/-! ## A literal as a script -/

/-- What a string or a template begins with. -/
def literalViews : List (List Glimpse) := [Text.glimpses "\"", Text.glimpses "'", Text.glimpses "\x60"]

theorem outdone_statement : Outdone 3 statementRivals literalViews := by rfl

theorem outdone_primary : Outdone 4 primaryRivals literalViews := by rfl

theorem outdone_number : Outdone 1 [.number] literalViews := by rfl

theorem reads_semi_at_end (h : c.rest = []) : Reads (d + 2) (ref .semi) c () c := by
  obtain ⟨offset, rest, hrest⟩ := c
  subst h
  rfl

/-- A string or a template that is all of the text is a script of one expression. -/
theorem reads_program_of_literal (hshows : ∃ view ∈ literalViews, Shows view source)
    (h : Reads (d + 4) (ref .primary) (Cursor.start source) e next) (hend : next.rest = []) :
    Reads (d + 24) (ref .program) (Cursor.start source) [⟨.expressionStatement e, ⟨0, next.offset⟩⟩] next := by
  have hgap : Lexeme.triviaLength next.rest = 0 := by rw [hend]; rfl
  have hexpr : Reads (d + 21) (ref .expr) (Cursor.start source) e next :=
    reads_expr_of_primary h (fun r hr => outdone_primary.misses hshows (by omega) hr) (ended_of_rest_eq_nil hend)
  have hstatement := reads_statement_of_expr hexpr hgap (reads_semi_at_end hend)
    fun r hr => outdone_statement.misses hshows (by omega) hr
  have hsource : source ≠ [] := by
    obtain ⟨view, hview, hshows⟩ := hshows
    refine hshows.ne_nil fun hnil => ?_
    rw [hnil] at hview
    exact absurd hview (by decide)
  have hsolid : Lexeme.triviaLength source = 0 := triviaLength_of_solid (by decide) hshows
  exact reads_program_of_statement hsolid hsource hstatement (by rw [Cursor.atEnd, hend]; rfl)

/-- The tree of a script that is one expression. -/
def Tree.sole (source : Text) (form : Form Value Tree) : Tree :=
  ⟨.expressionStatement ⟨form, ⟨0, source.length⟩⟩, ⟨0, source.length⟩⟩

/-- A literal that is all of the text is a script, if it stands for something. -/
theorem parse_eq_of_literal {sketch : Form TokenClass Sketch} (filename : Text)
    (hshows : ∃ view ∈ literalViews, Shows view source)
    (h : Reads (d + 4) (ref .primary) (Cursor.start source) ⟨sketch, ⟨0, 0 + source.length⟩⟩
      ((Cursor.start source).advance source.length)) (hd : d + 24 ≤ 2400) :
    parse source filename = ((Sketch.readForm sketch).mapError ParseFailure.malformed).map
      fun form => ⟨[.sole source form], source, filename⟩ := by
  have hend : ((Cursor.start source).advance source.length).rest = [] := List.drop_length
  have hoffset : ((Cursor.start source).advance source.length).offset = source.length := Nat.zero_add _
  have hprogram := reads_program_of_literal hshows h hend
  have hparse : parse source filename = _ := parseWithin_of_eval hd hprogram
  rw [hparse, ofMatch, if_pos (by rw [Cursor.atEnd, hend]; rfl)]
  simp only [Sketch.readList, Sketch.read, hoffset, Nat.zero_add]
  rw [Sketch.readForm.eq_def]
  simp only [Sketch.read]
  cases Sketch.readForm sketch <;> rfl

theorem parse_of_literal {sketch : Form TokenClass Sketch} {form : Form Value Tree} (filename : Text)
    (hshows : ∃ view ∈ literalViews, Shows view source)
    (h : Reads (d + 4) (ref .primary) (Cursor.start source) ⟨sketch, ⟨0, 0 + source.length⟩⟩
      ((Cursor.start source).advance source.length))
    (hread : Sketch.readForm sketch = .ok form) (hd : d + 24 ≤ 2400) :
    parse source filename = .ok ⟨[.sole source form], source, filename⟩ := by
  rw [parse_eq_of_literal filename hshows h hd, hread]
  rfl

/-! ## Strings -/

namespace Quote

variable {q : Quote} {n : Nat}

theorem exists_of_mem_strings {l : Lexeme} (h : l ∈ Lexeme.strings) : ∃ q : Quote, l = .string q.mark := by
  rcases List.mem_cons.mp h with rfl | h
  · exact ⟨.double, rfl⟩
  · exact ⟨.single, List.mem_singleton.mp h⟩

/-- Where a string is there is its quote. -/
theorem exists_of_length? {t : Text} (h : (Lexeme.string q.mark).length? t = some n) :
    ∃ rest, t = q.mark :: rest ∧ Lexeme.stringTailLength? q.mark rest = some (n - 1) ∧ 0 < n := by
  cases t with
  | nil => cases h
  | cons c rest =>
    simp only [Lexeme.length?] at h
    split at h
    · rename_i hc
      obtain ⟨tail, htail, rfl⟩ := Option.map_eq_some_iff.mp h
      exact ⟨rest, by rw [hc], htail, Nat.succ_pos tail⟩
    · cases h

theorem shows_mark (q : Quote) (rest : Text) : ∃ view ∈ literalViews, Shows view (q.mark :: rest) := by
  refine ⟨[.char q.mark], ?_, .char q.mark (.nothing _)⟩
  cases q <;> decide

theorem reads_string (h : (Lexeme.string q.mark).length? c.rest = some n) :
    Reads (d + 1) (ref .string) c ⟨c.rest.take n, ⟨c.offset, c.offset + n⟩⟩ (c.advance n) := by
  have hlexeme : Reads d (.lexeme (.string q.mark)) c (c.rest.take n) (c.advance n) := by
    rw [Reads, Peg.eval_lexeme, h]
  have heither : Reads d (.either (.lexeme (.string '"')) (.lexeme (.string '\'')) : Pattern Text) c (c.rest.take n)
      (c.advance n) := by
    cases q with
    | double => exact .left hlexeme
    | single =>
      obtain ⟨rest, hrest, -⟩ := exists_of_length? h
      have hdouble : Misses d (.lexeme (.string '"')) c := by
        rw [Misses, Peg.eval_lexeme, hrest]
        rfl
      exact .right hdouble hlexeme
  exact Reads.rule (Reads.build heither)

theorem reads_primary (h : (Lexeme.string q.mark).length? c.rest = some n) :
    Reads (d + 3) (ref .primary) c ⟨.literal .string (c.rest.take n), ⟨c.offset, c.offset + n⟩⟩ (c.advance n) := by
  obtain ⟨rest, hrest, -⟩ := exists_of_length? h
  have hnumber : Misses (d + 1) (ref .number) c :=
    outdone_number.misses (hrest ▸ q.shows_mark rest) (by omega) (List.mem_singleton_self _)
  exact .rule (.left (.rule (.right (.build hnumber) (.left (Reads.build (reads_string h))))))

/-- A string that is all of the text is a script, if its escapes stand for something. -/
theorem parse_eq_of_string (filename : Text) (h : (Lexeme.string q.mark).length? source = some source.length) :
    parse source filename = ((Token.stringContent source).mapError ParseFailure.malformed).map
      fun content => ⟨[.sole source (.literal (.text content) source)], source, filename⟩ := by
  have hprimary := reads_primary (d := 1) (c := Cursor.start source) h
  rw [show (Cursor.start source).rest.take source.length = source from List.take_length] at hprimary
  have hshows : ∃ view ∈ literalViews, Shows view source := by
    obtain ⟨rest, rfl, -⟩ := exists_of_length? h
    exact q.shows_mark rest
  rw [parse_eq_of_literal (d := 0) filename hshows hprimary (by decide), Sketch.readForm, Token.value]
  cases Token.stringContent source <;> rfl

/-- A string is a script, and its value is the text it was written from. -/
theorem parse_write (q : Quote) (t filename : Text) :
    parse (q.write t) filename =
      .ok ⟨[.sole (q.write t) (.literal (.text t) (q.write t))], q.write t, filename⟩ := by
  have hlength := q.length?_write t []
  rw [List.append_nil] at hlength
  rw [parse_eq_of_string filename hlength, q.stringContent_write]
  rfl

end Quote

/-! ## Templates -/

/-- A text, and variables with the texts after them. -/
structure Template where
  first : Text
  rest : List (VarName × Text)

namespace Template

def substitution (n : VarName) : Text := Text.ofString "$\x7b" ++ (n.text ++ Text.ofString "\x7d")

def substitutions : List (VarName × Text) → Text
  | [] => []
  | (n, t) :: rest => substitution n ++ (chunkEncoding.write t ++ substitutions rest)

/-- The template as it is written. -/
def write (t : Template) : Text :=
  Text.ofString "\x60" ++ (chunkEncoding.write t.first ++ (substitutions t.rest ++ Text.ofString "\x60"))

def texts (t : Template) : List Text := t.first :: t.rest.map (·.2)

/-- The names where they stand, if the first substitution begins at the given offset. -/
def namesFrom {α : Type} (start : Nat) : List (VarName × Text) → List (Node α)
  | [] => []
  | (n, t) :: rest =>
    ⟨.identifier n.text, ⟨start + 2, start + 2 + n.text.length⟩⟩ ::
      namesFrom (start + (substitution n).length + (chunkEncoding.write t).length) rest

def names {α : Type} (t : Template) : List (Node α) :=
  namesFrom (1 + (chunkEncoding.write t.first).length) t.rest

/-! ### What the pieces come to -/

/-- The pieces come to the template, if the first of them begins at the given offset. The texts are still as they were
written. -/
structure Composes (pieces : List Piece) (start : Nat) (t : Template) : Prop where
  first : (Sketch.templateParts pieces).1 = chunkEncoding.write t.first
  texts : (Sketch.templateParts pieces).2.map (·.2) = t.rest.map fun part => chunkEncoding.write part.2
  names : (Sketch.templateParts pieces).2.map (·.1) =
    namesFrom (start + (chunkEncoding.write t.first).length) t.rest

namespace Composes

variable {pieces : List Piece} {start : Nat} {rest : List (VarName × Text)}

theorem nil : Composes [] start ⟨[], []⟩ := ⟨rfl, rfl, rfl⟩

theorem chunk {t : Text} (h : Composes pieces (start + (chunkEncoding.write t).length) ⟨[], rest⟩) :
    Composes (.chunk (chunkEncoding.write t) :: pieces) start ⟨t, rest⟩ where
  first := by
    have hfirst : (Sketch.templateParts pieces).1 = [] := h.first
    simp only [Sketch.templateParts, hfirst, List.append_nil]
  texts := h.texts
  names := h.names

theorem substitution {n : VarName} {t : Text}
    (h : Composes pieces (start + (Template.substitution n).length) ⟨t, rest⟩) :
    Composes (.substitution ⟨.identifier n.text, ⟨start + 2, start + 2 + n.text.length⟩⟩ :: pieces) start
      ⟨[], (n, t) :: rest⟩ where
  first := rfl
  texts := by
    simp only [Sketch.templateParts, List.map_cons, h.first, h.texts]
  names := by
    simp only [Sketch.templateParts, List.map_cons, h.names]
    rfl

theorem template_eq {t : Template} (h : Composes pieces start t) :
    Sketch.template pieces = .templateLiteral (t.texts.map chunkEncoding.write)
      (namesFrom (start + (chunkEncoding.write t.first).length) t.rest) := by
  simp only [Sketch.template, h.first, h.texts, h.names, Template.texts, List.map_cons, List.map_map,
    Function.comp_def]

end Composes

/-! ### Reading the pieces -/

/-- Where a chunk goes on there is no substitution. -/
theorem misses_substitution (h : Lexeme.chunkLength c.rest ≠ 0) : Misses (d + 1) (ref .templateSubst) c := by
  have hprefix : (Text.ofString "$\x7b").isPrefixOf c.rest = false := by
    rw [Bool.eq_false_iff, ne_eq, List.isPrefixOf_iff_prefix]
    rintro ⟨after, hafter⟩
    rw [← hafter] at h
    exact h rfl
  have hmark : Misses d (mark "$\x7b") c := by
    simp only [Misses, mark, Peg.eval_lexeme, Lexeme.length?, hprefix, Bool.false_and, Bool.false_eq_true, if_false]
  exact .rule (.seq_left (.seq_left (.seq_left (.seq_left hmark))))

theorem reads_chunk {t rest : Text} (ht : chunkEncoding.write t ≠ [])
    (h : c.rest = chunkEncoding.write t ++ rest) (hrest : Lexeme.chunkLength rest = 0) :
    Reads (d + 2) (ref .templatePart) c (.chunk (chunkEncoding.write t))
      (c.advance (chunkEncoding.write t).length) := by
  have hlength : Lexeme.chunkLength c.rest = (chunkEncoding.write t).length := by
    rw [h, chunkLength_chunkEncoding t hrest]
  obtain ⟨n, hn⟩ := Nat.exists_eq_add_one_of_ne_zero fun hzero => ht (List.length_eq_zero_iff.mp hzero)
  have hlexeme : Reads d (.lexeme .chunk : Pattern Text) c (chunkEncoding.write t)
      (c.advance (chunkEncoding.write t).length) := by
    simp only [Reads, Peg.eval_lexeme, Lexeme.length?, hlength, hn]
    rw [← hn, h, List.take_left]
  exact .rule (.right (.build (misses_substitution (by omega))) (Reads.build (Reads.rule hlexeme)))

/-- A name before the end of a substitution. -/
def namedViews : List (List Glimpse) := nameViews.map (· ++ Text.glimpses "\x7d")

theorem shows_namedViews (n : VarName) (rest : Text) :
    ∃ view ∈ namedViews, Shows view (n.text ++ (Text.ofString "\x7d" ++ rest)) := by
  obtain ⟨name, hname, hshows⟩ := exists_shows_name n (shows_known "\x7d" rest) rfl
  exact ⟨_, List.mem_map_of_mem hname, hshows⟩

theorem outdone_named : Outdone 4 (primaryRivals ++ [.literal, .template, .arrayLiteral, .objectLiteral,
    .functionExpr, .parenExpr, .thisExpr]) namedViews := by rfl

theorem reads_variable {n : VarName} {rest : Text} (h : c.rest = n.text ++ (Text.ofString "\x7d" ++ rest)) :
    Reads (d + 22) (ref .expr) c ⟨.identifier n.text, ⟨c.offset, c.offset + n.text.length⟩⟩
      (c.advance n.text.length) := by
  have hshows : ∃ view ∈ namedViews, Shows view c.rest := h ▸ shows_namedViews n rest
  have hnext : (c.advance n.text.length).rest = CodePoint.ofChar '\x7d' :: rest := by
    rw [Cursor.rest_advance, h, List.drop_left]
    rfl
  refine reads_expr_of_primary (d := d + 5) (reads_primary_of_name h rfl fun r hr => ?_) (fun r hr => ?_)
    (ended_of_brace hnext)
  · exact outdone_named.misses hshows (by omega) (List.mem_append_right _ hr)
  · exact outdone_named.misses hshows (by omega) (List.mem_append_left _ hr)

theorem triviaLength_brace (t : Text) : Lexeme.triviaLength (Text.ofString "\x7d" ++ t) = 0 :=
  Lexeme.triviaFrom_cons_of_not_blank (by decide) (Lexeme.commentLength?_of_ne _ (by decide))

theorem reads_substitution {n : VarName} {rest : Text} (h : c.rest = substitution n ++ rest) :
    Reads (d + 24) (ref .templatePart) c
      (.substitution ⟨.identifier n.text, ⟨c.offset + 2, c.offset + 2 + n.text.length⟩⟩)
      (c.advance (substitution n).length) := by
  have hopened : (c.advance 2).rest = n.text ++ (Text.ofString "\x7d" ++ rest) := by
    rw [Cursor.rest_advance, h, substitution, List.append_assoc, List.append_assoc]
    rfl
  have hclosing : ((c.advance 2).advance n.text.length).rest = Text.ofString "\x7d" ++ rest := by
    rw [Cursor.rest_advance, hopened, List.drop_left]
  have hopen : Reads (d + 22) (mark "$\x7b") c (Text.ofString "$\x7b") (c.advance 2) :=
    reads_mark (by rw [h, substitution, List.append_assoc])
  have hgap : Reads (d + 22) gap (c.advance 2) [] (c.advance 2) :=
    reads_gap_nothing (triviaLength_of_solid (by decide) (hopened ▸ shows_namedViews n rest))
  have hgap' : Reads (d + 22) gap ((c.advance 2).advance n.text.length) [] ((c.advance 2).advance n.text.length) :=
    reads_gap_nothing (by rw [hclosing]; exact triviaLength_brace rest)
  have hclose : Reads (d + 22) (mark "\x7d") ((c.advance 2).advance n.text.length) (Text.ofString "\x7d")
      (((c.advance 2).advance n.text.length).advance 1) := reads_mark hclosing
  have hread := (((hopen.seq (f := fun _ b => b) hgap).seq (f := fun _ b => b) (reads_variable hopened)).seq
    (f := fun a _ => a) hgap').seq (f := fun a _ => a) hclose
  have hlength : 2 + (n.text.length + 1) = (substitution n).length := by
    rw [substitution, List.length_append, List.length_append]
    rfl
  rw [Cursor.advance_advance, Cursor.advance_advance, hlength] at hread
  exact .rule (.left (Reads.build (Reads.rule hread)))

/-! ### Reading the template -/

variable {last : Cursor source} {pieces : List Piece}

/-- The pieces are read one after the other. -/
abbrev RunsPieces (d : Nat) (c : Cursor source) (pieces : List Piece) (last : Cursor source) : Prop :=
  Runs ((ref .templatePart).eval (scriptGrammar.eval (d + 24))) c pieces last

/-- One piece before others. -/
theorem runs_cons {piece : Piece} {t rest : Text} (ht : t ≠ []) (h : c.rest = t ++ rest)
    (hread : Reads (d + 24) (ref .templatePart) c piece (c.advance t.length))
    (hruns : RunsPieces d (c.advance t.length) pieces last) : RunsPieces d c (piece :: pieces) last := by
  have hc : c.atEnd = false := by
    rw [Cursor.atEnd, h, List.isEmpty_eq_false_iff]
    exact List.append_ne_nil_of_left_ne_nil ht rest
  exact hruns.cons hc hread (Nat.lt_add_of_pos_right (List.length_pos_iff.mpr ht))

/-- A chunk before the pieces, unless there is nothing in it. -/
theorem exists_runs_chunk {t stop : Text} {rest : List (VarName × Text)}
    (h : c.rest = chunkEncoding.write t ++ stop) (hstop : Lexeme.chunkLength stop = 0)
    (hruns : RunsPieces d (c.advance (chunkEncoding.write t).length) pieces last)
    (hpieces : Composes pieces (c.offset + (chunkEncoding.write t).length) ⟨[], rest⟩) :
    ∃ pieces, RunsPieces d c pieces last ∧ Composes pieces c.offset ⟨t, rest⟩ := by
  by_cases ht : t = []
  · -- no piece stands for an empty chunk
    subst ht
    rw [show (chunkEncoding.write []).length = 0 from rfl, Cursor.advance_zero] at hruns
    exact ⟨pieces, hruns, hpieces⟩
  · have hne : chunkEncoding.write t ≠ [] := Encoding.write_ne_nil ht
    exact ⟨_, runs_cons hne h (reads_chunk hne h hstop) hruns, hpieces.chunk⟩

theorem chunkLength_substitutions (rest : List (VarName × Text)) (after : Text) :
    Lexeme.chunkLength (substitutions rest ++ (Text.ofString "\x60" ++ after)) = 0 := by
  cases rest with
  | nil => exact Lexeme.chunkLength.eq_def _
  | cons part rest => rfl

/-- The substitutions are read with the chunks after them. -/
theorem exists_runs_substitutions (rest : List (VarName × Text)) {after : Text}
    (h : c.rest = substitutions rest ++ (Text.ofString "\x60" ++ after)) :
    ∃ pieces, RunsPieces d c pieces (c.advance (substitutions rest).length) ∧
      Composes pieces c.offset ⟨[], rest⟩ := by
  induction rest generalizing c with
  | nil => exact ⟨[], .nil, .nil⟩
  | cons part rest ih =>
    obtain ⟨n, t⟩ := part
    rw [substitutions, List.append_assoc, List.append_assoc] at h
    have hchunk : (c.advance (substitution n).length).rest = chunkEncoding.write t ++
        (substitutions rest ++ (Text.ofString "\x60" ++ after)) := by
      rw [Cursor.rest_advance, h, List.drop_left]
    have hrest : ((c.advance (substitution n).length).advance (chunkEncoding.write t).length).rest =
        substitutions rest ++ (Text.ofString "\x60" ++ after) := by
      rw [Cursor.rest_advance, hchunk, List.drop_left]
    -- the pieces behind it, then the chunk before them, then the substitution itself
    obtain ⟨pieces, hruns, hpieces⟩ := ih hrest
    obtain ⟨pieces, hruns, hpieces⟩ := exists_runs_chunk hchunk (chunkLength_substitutions rest after) hruns hpieces
    refine ⟨_, ?_, hpieces.substitution⟩
    rw [Cursor.advance_advance, Cursor.advance_advance] at hruns
    rw [substitutions, List.length_append, List.length_append]
    exact runs_cons (List.cons_ne_nil _ _) h (reads_substitution h) hruns

theorem shows_write (t : Template) (rest : Text) : ∃ view ∈ literalViews, Shows view (t.write ++ rest) := by
  refine ⟨[.char '\x60'], by decide, ?_⟩
  exact .char _ (.nothing _)

theorem shows_backtick (t : Text) :
    ∃ view ∈ [Text.glimpses "\x60"], Shows view (Text.ofString "\x60" ++ t) :=
  ⟨_, List.mem_singleton_self _, shows_known "\x60" t⟩

theorem outdone_backtick : Outdone 2 [.literal, .templateSubst] [Text.glimpses "\x60"] := by rfl

/-- No piece begins with a backtick. -/
theorem misses_part {rest : Text} (h : c.rest = Text.ofString "\x60" ++ rest) :
    Misses (d + 3) (ref .templatePart) c := by
  have hsubst : Misses (d + 2) (ref .templateSubst) c :=
    outdone_backtick.misses (h ▸ shows_backtick rest) (by omega) (by decide)
  have hlength : Lexeme.chunkLength c.rest = 0 := by
    rw [h]
    exact chunkLength_substitutions [] rest
  have hchunk : Misses (d + 1) (.lexeme .chunk : Pattern Text) c := by
    simp only [Misses, Peg.eval_lexeme, Lexeme.length?, hlength]
  exact .rule (.either (.build hsubst) (.build (.rule hchunk)))

theorem reads_template {t : Template} {rest : Text} (h : c.rest = t.write ++ rest) :
    Reads (d + 25) (ref .template) c
      ⟨.templateLiteral (t.texts.map chunkEncoding.write)
        (namesFrom (c.offset + 1 + (chunkEncoding.write t.first).length) t.rest),
        ⟨c.offset, c.offset + t.write.length⟩⟩
      (c.advance t.write.length) := by
  rw [write, List.append_assoc, List.append_assoc, List.append_assoc] at h
  have hchunk : (c.advance 1).rest = chunkEncoding.write t.first ++
      (substitutions t.rest ++ (Text.ofString "\x60" ++ rest)) := by
    rw [Cursor.rest_advance, h]
    rfl
  have hrest : ((c.advance 1).advance (chunkEncoding.write t.first).length).rest =
      substitutions t.rest ++ (Text.ofString "\x60" ++ rest) := by
    rw [Cursor.rest_advance, hchunk, List.drop_left]
  obtain ⟨pieces, hruns, hpieces⟩ := exists_runs_substitutions (d := d) t.rest hrest
  obtain ⟨pieces, hruns, hpieces⟩ := exists_runs_chunk hchunk (chunkLength_substitutions t.rest rest) hruns hpieces
  have hclosing : (((c.advance 1).advance (chunkEncoding.write t.first).length).advance
      (substitutions t.rest).length).rest = Text.ofString "\x60" ++ rest := by
    rw [Cursor.rest_advance, hrest, List.drop_left]
  have hopen : Reads (d + 24) (mark "\x60") c (Text.ofString "\x60") (c.advance 1) := reads_mark h
  have hmany := Reads.many hruns (.inr (misses_part hclosing))
  have hread := (hopen.seq (f := fun _ b => b) hmany).seq (f := fun a _ => a) (reads_mark hclosing)
  have hlength : 1 + ((chunkEncoding.write t.first).length + ((substitutions t.rest).length +
      (Text.ofString "\x60").length)) = t.write.length := by
    rw [write, List.length_append, List.length_append, List.length_append]
    rfl
  rw [Cursor.advance_advance, Cursor.advance_advance, Cursor.advance_advance, hlength] at hread
  have hnode := Reads.rule (r := .template) (Reads.build (Reads.build hread))
  rw [hpieces.template_eq] at hnode
  exact hnode

theorem readList_names (start : Nat) (rest : List (VarName × Text)) :
    Sketch.readList (namesFrom start rest) = .ok (namesFrom start rest) := by
  induction rest generalizing start with
  | nil => rfl
  | cons part rest ih =>
    simp only [namesFrom, Sketch.readList, Sketch.read, Sketch.readForm, ih]
    rfl

theorem mapM_unescape (ts : List Text) : (ts.map chunkEncoding.write).mapM Token.unescape = .ok ts := by
  induction ts with
  | nil => rfl
  | cons t ts ih =>
    rw [List.map_cons, List.mapM_cons, ih, chunkEncoding.unescape_write]
    rfl

theorem parse_write (t : Template) (filename : Text) :
    parse t.write filename =
      .ok ⟨[.sole t.write (.templateLiteral t.texts t.names)], t.write, filename⟩ := by
  have hrest : (Cursor.start t.write).rest = t.write ++ [] := (List.append_nil _).symm
  have hliteral : Misses 25 (ref .literal) (Cursor.start t.write) :=
    outdone_backtick.misses (shows_backtick _) (by decide) (by decide)
  have hprimary := Reads.rule (r := .primary) (.right hliteral (.left (reads_template (d := 0) hrest)))
  refine parse_of_literal (d := 22) filename (by simpa using t.shows_write []) hprimary ?_ (by decide)
  simp only [Sketch.readForm, readList_names, mapM_unescape]
  rfl

end Template

/-- **Literals are read back as they were written.** A text in quotes of either kind, with its backslashes, quotes and
line ends escaped, is a script of one string with that text as its value. Texts with variables between them, with their
backslashes, backticks and dollar signs escaped, are a script of one template with these texts, empty or not, and these
variables. -/
theorem parse_written_literal (filename : Text) :
    (∀ (q : Quote) (t : Text), parse (q.write t) filename =
      .ok ⟨[.sole (q.write t) (.literal (.text t) (q.write t))], q.write t, filename⟩) ∧
    ∀ t : Template, parse t.write filename =
      .ok ⟨[.sole t.write (.templateLiteral t.texts t.names)], t.write, filename⟩ :=
  ⟨fun q t => q.parse_write t filename, fun t => t.parse_write filename⟩

end ScriptAudit
