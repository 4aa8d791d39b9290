/-
Blanks and comments before a script. They are passed over as a whole, so that the script after them is read as if
it stood alone, with every place as much further on as they are long (`parse_append`). What a script uses and
which of its loops are unsafe does not depend on where it stands.
-/
import ScriptAudit.Proofs.Lexeme
import ScriptAudit.Proofs.Matcher
import ScriptAudit.Proofs.RunsAlike
import ScriptAudit.Proofs.ScriptShift

namespace ScriptAudit

/-! ## Blanks and comments -/

/-- A sequence of blanks, closed block comments, and line comments with the end of their line. -/
inductive IsTrivia : Text → Prop
  | nil : IsTrivia []
  | blank {c : CodePoint} {w : Text} (hc : c.isBlank = true) (hw : IsTrivia w) : IsTrivia (c :: w)
  /-- The comment ends where it is closed for the first time. -/
  | block {body w : Text} (hbody : ¬ Text.ofString "*/" <:+: body) (hw : IsTrivia w) :
    IsTrivia ("/*" ++ body ++ "*/" ++ w)
  | line {body w : Text} (hbody : CodePoint.ofChar '\n' ∉ body) (hw : IsTrivia w) :
    IsTrivia ("//" ++ body ++ "\n" ++ w)

namespace Lexeme

theorem triviaFrom_length (t s : Text) : triviaFrom t.length (t ++ s) = t.length + triviaFrom 0 s := by
  induction t with
  | nil => exact (Nat.zero_add _).symm
  | cons c t ih =>
    rw [List.length_cons, List.cons_append, triviaFrom, ih]
    omega

/-- A comment is passed over as a whole. -/
theorem triviaFrom_comment {c : CodePoint} {t s : Text} (hc : c.isBlank = false)
    (h : commentLength? (c :: (t ++ s)) = some (t.length + 1)) :
    triviaFrom 0 (c :: (t ++ s)) = t.length + 1 + triviaFrom 0 s := by
  rw [triviaFrom, if_neg (by simp [hc]), h]
  simp only [Nat.add_sub_cancel, triviaFrom_length]
  omega

theorem blockTailLength?_of_closed {body : Text} (s : Text) (h : ¬ Text.ofString "*/" <:+: body) :
    blockTailLength? (body ++ CodePoint.ofChar '*' :: CodePoint.ofChar '/' :: s) = some (body.length + 2) := by
  induction body with
  | nil => rfl
  | cons c body ih =>
    have hrest := ih fun hclosed => h (hclosed.trans (List.suffix_cons c body).isInfix)
    have hopen : ¬ (c = CodePoint.ofChar '*' ∧ (body ++ CodePoint.ofChar '*' :: CodePoint.ofChar '/' :: s).head? =
        some (CodePoint.ofChar '/')) := by
      rintro ⟨rfl, hhead⟩
      cases body with
      | nil => cases hhead
      | cons d body =>
        cases hhead
        exact h ⟨[], body, rfl⟩
    rw [List.cons_append, blockTailLength?, if_neg (by simpa using hopen), hrest]
    rfl

/-- Blanks and comments before a text are passed over. -/
theorem triviaLength_append {w : Text} (hw : IsTrivia w) (s : Text) :
    triviaLength (w ++ s) = w.length + triviaLength s := by
  unfold triviaLength
  induction hw with
  | nil => exact (Nat.zero_add _).symm
  | blank hc _ ih =>
    rw [List.cons_append, triviaFrom, if_pos hc, ih, List.length_cons]
    omega
  | @block body w hbody _ ih =>
    have htext : Text.ofString "/*" ++ body ++ "*/" ++ w ++ s =
        CodePoint.ofChar '/' :: ((CodePoint.ofChar '*' :: (body ++ Text.ofString "*/")) ++ (w ++ s)) := by
      simp only [List.append_assoc, List.cons_append]
      rfl
    have hlength : commentLength? (CodePoint.ofChar '/' ::
          ((CodePoint.ofChar '*' :: (body ++ Text.ofString "*/")) ++ (w ++ s))) =
        some ((CodePoint.ofChar '*' :: (body ++ Text.ofString "*/")).length + 1) := by
      rw [List.cons_append, List.append_assoc]
      change (blockTailLength? (body ++ CodePoint.ofChar '*' :: CodePoint.ofChar '/' :: (w ++ s))).map (· + 2) = _
      rw [blockTailLength?_of_closed _ hbody, List.length_cons, List.length_append]
      rfl
    rw [htext, triviaFrom_comment rfl hlength, ih]
    simp only [List.length_append, List.length_cons]
    change _ = 2 + _ + _ + _ + _
    omega
  | @line body w hbody _ ih =>
    have htext : Text.ofString "//" ++ body ++ "\n" ++ w ++ s =
        CodePoint.ofChar '/' :: ((CodePoint.ofChar '/' :: body) ++ (CodePoint.ofChar '\n' :: (w ++ s))) := by
      simp only [List.append_assoc, List.cons_append]
      rfl
    have hlength : commentLength? (CodePoint.ofChar '/' ::
          ((CodePoint.ofChar '/' :: body) ++ (CodePoint.ofChar '\n' :: (w ++ s)))) =
        some ((CodePoint.ofChar '/' :: body).length + 1) := by
      change some (Text.spanLength (· != CodePoint.ofChar '\n') (body ++ CodePoint.ofChar '\n' :: (w ++ s)) + 2) = _
      have hspan : (body ++ CodePoint.ofChar '\n' :: (w ++ s)).takeWhile (· != CodePoint.ofChar '\n') = body := by
        rw [List.takeWhile_append_of_pos fun c hc => by simpa using ne_of_mem_of_not_mem hc hbody]
        simp
      rw [Text.spanLength, hspan]
      rfl
    have hblank : (CodePoint.ofChar '\n').isBlank = true := rfl
    rw [htext, triviaFrom_comment rfl hlength, triviaFrom, if_pos hblank, ih]
    simp only [List.length_append, List.length_cons]
    change _ = 2 + _ + 1 + _ + _
    omega

end Lexeme

/-! ## Matching -/

section Matching

open ScriptGrammar

variable {w s : Text}

/-- Where the first statement begins. -/
def Cursor.afterTrivia (source : Text) : Cursor source := (Cursor.start source).advance (Lexeme.triviaLength source)

theorem afterTrivia_apart (hw : IsTrivia w) : (Cursor.afterTrivia s).Apart w.length (Cursor.afterTrivia (w ++ s)) where
  offset := by
    change 0 + _ = _ + (0 + _)
    rw [Lexeme.triviaLength_append hw]
    omega
  rest := by
    change (w ++ s).drop _ = s.drop _
    rw [Lexeme.triviaLength_append hw, ← List.drop_drop, List.drop_left]

theorem gap_settles (source : Text) : ∃ text,
    Settles scriptGrammar (.rule .trivia) (Cursor.start source) (.found text (Cursor.afterTrivia source)) :=
  ⟨_, 1, rfl⟩

theorem trivia_isImmediate : scriptGrammar.IsImmediate .trivia := by
  intro source call c memo
  exact ⟨_, _, rfl⟩

/-- A script nests as deeply as it does without what is before it. -/
theorem match_append_tooDeep_iff (hw : IsTrivia w) (depth : Nat) :
    scriptGrammar.match depth .program (w ++ s) = .tooDeep ↔ scriptGrammar.match depth .program s = .tooDeep := by
  obtain ⟨_, h⟩ := gap_settles s
  obtain ⟨_, h'⟩ := gap_settles (w ++ s)
  exact Grammar.match_tooDeep_iff (r := .program) rfl trivia_isImmediate h h' (afterTrivia_apart hw) depth

theorem eval_program (depth : Nat) (source : Text) :
    scriptGrammar.eval (depth + 2) .program (Cursor.start source) =
      (Peg.many (ref .statement)).eval (scriptGrammar.eval (depth + 1)) (Cursor.afterTrivia source) := by
  change (Peg.seq (fun _ b => b) gap (.many (ref .statement))).eval (scriptGrammar.eval (depth + 1))
    (Cursor.start source) = _
  have hgap : gap.eval (scriptGrammar.eval (depth + 1)) (Cursor.start source) =
    some (.found (source.take (Lexeme.triviaLength source)) (Cursor.afterTrivia source)) := rfl
  rw [Peg.eval_seq, hgap]
  dsimp only
  split <;> simp only [*]

/-- The statements are those of the script alone, further on. -/
theorem eval_program_append (hw : IsTrivia w) (depth : Nat) :
    Reply.OptionRel w.length (Image (List.map (Node.shift w.length)))
      (scriptGrammar.eval depth .program (Cursor.start s)) (scriptGrammar.eval depth .program (Cursor.start (w ++ s))) := by
  match depth with
  | 0 => exact .none
  | 1 => exact .none
  | depth + 2 =>
    rw [eval_program, eval_program]
    have hstatements : Shifts w.length (.many (ref .statement)) (Image (List.map (Node.shift w.length))) :=
      .repeated .ref
    exact hstatements.eval (Grammar.eval_related shifts_of_rule (depth + 1)) (afterTrivia_apart hw)

theorem settles_append (hw : IsTrivia w) {statements : List Sketch} {next : Cursor s}
    (h : Settles scriptGrammar (.rule Rule.program) (Cursor.start s) (.found statements next)) :
    ∃ next', next.Apart w.length next' ∧ Settles scriptGrammar (.rule Rule.program) (Cursor.start (w ++ s))
      (.found (statements.map (Node.shift w.length)) next') := by
  obtain ⟨depth, heval⟩ := h
  replace heval : scriptGrammar.eval depth .program (Cursor.start s) = some (.found statements next) := heval
  have hrel := eval_program_append (s := s) hw depth
  rw [heval] at hrel
  obtain ⟨_, next', heval', hstatements, hnext⟩ := hrel.exists_found
  exact ⟨next', hnext, depth, hstatements ▸ heval'⟩

end Matching

/-! ## Reading -/

/-- The script after the text. -/
def Program.after (w : Text) (p : Program) : Program :=
  ⟨p.body.map (Node.shift w.length), w ++ p.source, p.filename⟩

/-- What is wrong with a script, after the text. -/
def ParseFailure.after (w : Text) : ParseFailure → ParseFailure
  | unexpected offset => unexpected (w.length + offset)
  | tooDeep => tooDeep
  | malformed fault => malformed fault

theorem ofMatch_append {w s filename : Text} {statements : List Sketch} {next : Cursor s} {next' : Cursor (w ++ s)}
    (hnext : next.Apart w.length next') :
    ofMatch (w ++ s) filename (statements.map (Node.shift w.length)) next' =
      ((ofMatch s filename statements next).map (Program.after w)).mapError (ParseFailure.after w) := by
  rw [ofMatch, ofMatch, hnext.atEnd_eq, Sketch.readList_shift fun n _ => Sketch.read_shift n]
  split
  · cases Sketch.readList statements <;> rfl
  · rw [hnext.offset]
    rfl

/-- **Blanks and comments before a script only move it.** -/
theorem parse_append {w : Text} (hw : IsTrivia w) (s filename : Text) :
    parse (w ++ s) filename = ((parse s filename).map (Program.after w)).mapError (ParseFailure.after w) := by
  by_cases hdeep : parse s filename = .error .tooDeep
  · rw [hdeep]
    exact parseWithin_eq_tooDeep_iff.mpr ((match_append_tooDeep_iff hw _).mpr (parseWithin_eq_tooDeep_iff.mp hdeep))
  · have hdeep' : parse (w ++ s) filename ≠ .error .tooDeep := fun h => hdeep
      (parseWithin_eq_tooDeep_iff.mpr ((match_append_tooDeep_iff hw _).mp (parseWithin_eq_tooDeep_iff.mp h)))
    obtain ⟨statements, next, hs⟩ := exists_settles_of_parse hdeep
    obtain ⟨next', hnext, hs'⟩ := settles_append hw hs
    rw [parse, parse, (parseWithin_of_settles hs _).resolve_left hdeep,
      (parseWithin_of_settles hs' _).resolve_left hdeep', ofMatch_append hnext]

/-! ## Searching -/

namespace Program

theorem children_after (w : Text) (p : Program) :
    (p.after w).root.children = p.root.children.map (Node.shift w.length) :=
  Form.children_map _ (Form.program p.body)

/-- Below the root, a search finds the moved nodes. -/
theorem preorder_after {d : Descent Value} (hroot : ∀ p : Program, d.into p.root = p.root.children) {w : Text}
    (hd : ∀ n, d.into (Node.shift w.length n) = (d.into n).map (Node.shift w.length)) (p : Program) :
    (p.after w).root.preorder d =
      (p.after w).root :: (p.root.children.flatMap (Node.preorder d)).map (Node.shift w.length) := by
  rw [Node.preorder_eq, hroot, children_after, List.flatMap_map, List.map_flatMap]
  exact congrArg _ (List.flatMap_congr fun c _ => Node.preorder_shift hd c)

theorem referencedNames_after (w : Text) (p : Program) :
    (p.after w).root.referencedNames = p.root.referencedNames := by
  have hroot : ∀ p : Program, Descent.pastKeys.into p.root = p.root.children := fun _ => rfl
  rw [Node.referencedNames, Node.referencedNames, preorder_after hroot Node.into_pastKeys_shift, Node.preorder_eq,
    hroot, List.filterMap_cons_none rfl, List.filterMap_cons_none rfl, List.filterMap_map]
  simp only [Function.comp_def, Node.name?_shift]

theorem unsafeLoop?_after (w : Text) (p : Program) :
    (p.after w).unsafeLoop? = p.unsafeLoop?.map (Node.shift w.length) := by
  have hroot : ∀ p : Program, Descent.throughBodies.into p.root = p.root.children := fun _ => rfl
  have hsafe : ∀ p : Program, ¬ p.root.isCondemned = true := fun _ => nofun
  rw [unsafeLoop?, unsafeLoop?, preorder_after hroot Node.into_throughBodies_shift, Node.preorder_eq, hroot,
    List.find?_cons_of_neg (hsafe _), List.find?_cons_of_neg (hsafe _), List.find?_map]
  simp only [Function.comp_def, Node.isCondemned_shift]

end Program

/-! ## Lines and columns -/

namespace Text

/-- The number of line ends. -/
def lineEnds (t : Text) : Nat := t.count (CodePoint.ofChar '\n')

/-- The length of the last line, which is not ended. -/
def lastLineLength (t : Text) : Nat := spanLength (· != CodePoint.ofChar '\n') t.reverse

theorem upTo_append (w s : Text) (offset : Nat) :
    (w ++ s).upTo ((w.length + offset : Nat) : Int) = w ++ s.upTo (offset : Int) := by
  rw [upTo, upTo, if_neg (by omega), if_neg (by omega), Int.toNat_natCast, Int.toNat_natCast, List.take_length_add_append]

theorem lineAt_append (w s : Text) (offset : Nat) :
    (w ++ s).lineAt ((w.length + offset : Nat) : Int) = w.lineEnds + s.lineAt (offset : Int) := by
  rw [lineAt, lineAt, upTo_append, List.count_append, lineEnds]
  omega

theorem lastLineLength_le (t : Text) : t.lastLineLength ≤ t.length :=
  Nat.le_trans (Lexeme.spanLength_le _ _) (Nat.le_of_eq List.length_reverse)

/-- The last line of a text without line ends goes on from the line before it. -/
theorem lastLineLength_append_of_not_mem {w t : Text} (h : CodePoint.ofChar '\n' ∉ t) :
    (w ++ t).lastLineLength = w.lastLineLength + t.length := by
  rw [lastLineLength, spanLength, List.reverse_append, List.takeWhile_append_of_pos, List.length_append,
    List.length_reverse, Nat.add_comm]
  · rfl
  · exact fun c hc => by simpa using ne_of_mem_of_not_mem (List.mem_reverse.mp hc) h

theorem lastLineLength_append_of_mem {w t : Text} (h : CodePoint.ofChar '\n' ∈ t) :
    (w ++ t).lastLineLength = t.lastLineLength := by
  rw [lastLineLength, lastLineLength, spanLength, spanLength, List.reverse_append, List.takeWhile_append, if_neg]
  intro hlength
  have hall : (t.reverse.takeWhile (· != CodePoint.ofChar '\n')).all (· != CodePoint.ofChar '\n') = true :=
    List.all_takeWhile
  rw [(List.takeWhile_prefix _).eq_of_length hlength, List.all_reverse, List.all_eq_true] at hall
  simpa using hall _ h

/-- On the first line after the text, its last line counts as well. -/
theorem columnAt_append (w s : Text) (offset : Nat) :
    (w ++ s).columnAt ((w.length + offset : Nat) : Int) =
      (if s.lineAt (offset : Int) = 1 then w.lastLineLength else 0 : Nat) + s.columnAt (offset : Int) := by
  have hstart : ∀ t : Text, ∀ offset, t.lineStart offset = (t.upTo offset).length - (t.upTo offset).lastLineLength :=
    fun _ _ => rfl
  have hw := w.lastLineLength_le
  have ht := (s.upTo offset).lastLineLength_le
  rw [columnAt, columnAt, hstart, hstart, upTo_append, List.length_append, lineAt]
  by_cases h : CodePoint.ofChar '\n' ∈ s.upTo offset
  · have hcount := List.count_pos_iff.mpr h
    rw [lastLineLength_append_of_mem h, if_neg (by omega)]
    omega
  · have hcount := List.count_eq_zero.mpr h
    have hline := lastLineLength_append_of_not_mem (w := []) h
    rw [lastLineLength_append_of_not_mem h, if_pos (by omega)]
    simp only [List.nil_append] at hline
    omega

end Text

/-- The finding in a script after the text. -/
def LoopFinding.after (w : Text) (found : LoopFinding) : LoopFinding :=
  ⟨w.lineEnds + found.line, (if found.line = 1 then w.lastLineLength else 0 : Nat) + found.column, found.filename⟩

theorem Program.loopFinding?_after (w : Text) (p : Program) :
    (p.after w).loopFinding? = p.loopFinding?.map (LoopFinding.after w) := by
  rw [loopFinding?, loopFinding?, unsafeLoop?_after, Option.map_map, Option.map_map]
  refine congrArg (Option.map · p.unsafeLoop?) (funext fun loop => ?_)
  simp only [Function.comp_apply, Node.span_shift, Span.shift, lineOf, columnOf, after, LoopFinding.after,
    Text.lineAt_append, Text.columnAt_append]

/-! ## Errors -/

namespace ParseFailure

theorem snippet_append (w s : Text) (offset : Nat) : snippet (w ++ s) (w.length + offset) = snippet s offset := by
  rw [snippet, snippet, ← List.drop_drop, List.drop_left]

theorem message_after (w s filename : Text) (failure : ParseFailure) :
    ((failure.after w).report (w ++ s) filename).message = (failure.report s filename).message := by
  cases failure with
  | unexpected offset => simp only [after, report, AuditError.unreadable, snippet_append]
  | tooDeep => rfl
  | malformed fault => rfl

end ParseFailure

theorem read_append {w : Text} (hw : IsTrivia w) (s filename : Text) :
    Program.read (w ++ s) filename = ((parse s filename).map (Program.after w)).mapError
      fun failure => (failure.after w).report (w ++ s) filename := by
  rw [Program.read, parse_append hw]
  cases parse s filename <;> rfl

theorem read_append_ok {w : Text} (hw : IsTrivia w) {s filename : Text} {p : Program}
    (h : Program.read s filename = .ok p) : Program.read (w ++ s) filename = .ok (p.after w) := by
  rw [read_append hw, read_eq_ok_iff.mp h]
  rfl

/-! ## The script as it was -/

/-- What is read of a script is the same after the text, but for its places. -/
structure OnlyMoved (w s filename : Text) : Prop where
  accepted : (∃ q, Program.read (w ++ s) filename = .ok q) ↔ ∃ p, Program.read s filename = .ok p
  tree : ∀ p q, Program.read s filename = .ok p → Program.read (w ++ s) filename = .ok q →
    q.body = p.body.map (Node.shift w.length) ∧ q.root.span = ⟨0, (w ++ s).length⟩
  /-- The error is the same one, as much further on. -/
  unexpected : ∀ offset, parse s filename = .error (.unexpected offset) →
    parse (w ++ s) filename = .error (.unexpected (w.length + offset)) ∧
    ∃ e e', Program.read s filename = .error e ∧ Program.read (w ++ s) filename = .error e' ∧
      e.place = .ofOffset s offset filename ∧ e'.place = .ofOffset (w ++ s) (w.length + offset : Nat) filename ∧
      e'.message = e.message
  malformed : ∀ fault, parse s filename = .error (.malformed fault) →
    Program.read (w ++ s) filename = Program.read s filename
  names : ∀ p q, Program.read s filename = .ok p → Program.read (w ++ s) filename = .ok q →
    q.root.referencedNames = p.root.referencedNames
  /-- The finding is as many lines further down as the text ends. -/
  loops : ∀ found, checkLoops s filename = .ok found →
    checkLoops (w ++ s) filename = .ok (found.map (LoopFinding.after w))

/-- **Blanks and comments before a script change nothing but its places**, however deeply it nests. -/
theorem onlyMoved_of_isTrivia {w : Text} (hw : IsTrivia w) (s filename : Text) : OnlyMoved w s filename where
  accepted := by
    rw [read_append hw, Program.read]
    cases parse s filename with
    | ok p => exact iff_of_true ⟨_, rfl⟩ ⟨_, rfl⟩
    | error failure => exact iff_of_false nofun nofun
  tree p q hp hq := by
    obtain rfl := Except.ok.inj ((read_append_ok hw hp).symm.trans hq)
    obtain ⟨-, -, -, -, -, hsource, -⟩ := settles_of_parse (read_eq_ok_iff.mp hp)
    exact ⟨rfl, by rw [← hsource]; rfl⟩
  unexpected offset h := by
    refine ⟨?_, (ParseFailure.unexpected offset).report s filename,
      ((ParseFailure.unexpected offset).after w).report (w ++ s) filename, ?_, ?_, rfl, rfl,
      ParseFailure.message_after w s filename _⟩
    · rw [parse_append hw, h]
      rfl
    · rw [Program.read, h]
      rfl
    · rw [read_append hw, h]
      rfl
  malformed fault h := by
    rw [read_append hw, Program.read, h]
    rfl
  names p q hp hq := by
    obtain rfl := Except.ok.inj ((read_append_ok hw hp).symm.trans hq)
    exact Program.referencedNames_after w p
  loops found h := by
    rw [checkLoops] at h ⊢
    cases hread : Program.read s filename with
    | error e => rw [hread] at h; cases h
    | ok p =>
      rw [hread] at h
      obtain rfl := Except.ok.inj h
      rw [read_append_ok hw hread]
      exact congrArg Except.ok (Program.loopFinding?_after w p)

/-- A line comment, a block comment and a blank. -/
def leadingNote : Text := "// calm\n/***/ "

theorem onlyMoved_of_isTrivia_leadingNote :
    IsTrivia leadingNote ∧ OnlyMoved leadingNote "while(true);" "endless.js" :=
  have hnote : IsTrivia (Text.ofString "//" ++ " calm" ++ "\n" ++ (Text.ofString "/*" ++ "*" ++ "*/" ++ " ")) :=
    .line (by decide) (.block (by decide) (.blank rfl .nil))
  ⟨hnote, onlyMoved_of_isTrivia hnote _ _⟩

end ScriptAudit
