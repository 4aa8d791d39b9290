/-
Expressions put together from their parts. An expression is read through a long line of rules, from the primary
expressions over calls, signs and operators up to sequences. Each of them tries something before or after what is
there, and hands it on unchanged where that misses. The lemmas here say so rule by rule, and `reads_expr_of_primary`
for the whole line, given that nothing that comes next is taken (`Ended`).
-/
import ScriptAudit.Proofs.OperatorLadder

namespace ScriptAudit

open ScriptGrammar

variable {source : Text} {d : Nat} {c m next : Cursor source} {e : Sketch}

/-! ## What is tried first -/

/-- A view shows less if only its beginning is kept. -/
theorem Shows.of_prefix {short view : List Glimpse} {t : Text} (h : Shows view t) (hshort : short <+: view) :
    Shows short t := by
  induction h generalizing short with
  | nothing t =>
    obtain rfl := List.prefix_nil.mp hshort
    exact .nothing t
  | char c h ih =>
    rcases List.prefix_cons_iff.mp hshort with rfl | ⟨short, rfl, hbegins⟩
    · exact .nothing _
    · exact .char c (ih hbegins)
  | name n hn hend h ih =>
    rcases List.prefix_cons_iff.mp hshort with rfl | ⟨short, rfl, hbegins⟩
    · exact .nothing _
    · exact .name n hn hend (ih hbegins)

/-- No view lets any of the rules match. -/
def Outdone (depth : Nat) (rivals : List Rule) (views : List (List Glimpse)) : Prop :=
  (rivals.all fun r => views.all fun view =>
    (ref r).foresee (scriptGrammar.foresee depth) view == some .missing) = true

theorem Outdone.misses {depth : Nat} {rivals : List Rule} {views : List (List Glimpse)}
    (h : Outdone depth rivals views) (hshows : ∃ view ∈ views, Shows view c.rest) (hd : depth ≤ d) {r : Rule}
    (hr : r ∈ rivals) : Misses d (ref r) c :=
  Barred.misses (List.all_eq_true.mp h r hr) hshows hd

/-- No view begins with blanks. -/
theorem triviaLength_of_solid {views : List (List Glimpse)} {t : Text}
    (h : (views.all fun view => Lexeme.foreseeTrivia view == some 0) = true) (hshows : ∃ view ∈ views, Shows view t) :
    Lexeme.triviaLength t = 0 := by
  obtain ⟨view, hview, hshows⟩ := hshows
  exact (Lexeme.triviaLength_of_foreseeTrivia (beq_iff_eq.mp (List.all_eq_true.mp h view hview)) hshows).1

/-- What is tried before an operand is read. -/
def operandRivals : List Rule :=
  [.awaitExpr, .prefixUpdate, .prefixUnary, .newExpr, .literal, .template, .arrayLiteral, .objectLiteral,
   .functionExpr]

/-- What is tried before an expression that is a primary one is read. -/
def primaryRivals : List Rule := [.newExpr, .awaitExpr, .prefixUpdate, .prefixUnary, .arrowFunction]

/-- What is tried before an expression is taken as a statement. -/
def statementRivals : List Rule :=
  [.block, .importDecl, .exportDecl, .functionDecl, .varStatement, .ifStmt, .whileStmt, .doWhileStmt,
   .forInOfStmt, .forStmt, .tryStmt, .returnStmt, .breakStmt, .continueStmt, .throwStmt, .emptyStmt]

/-! ## Names and marks -/

/-- A name, or the word `async`. -/
def nameViews : List (List Glimpse) := [[.name], asyncName.text.glimpses]

theorem exists_shows_name (n : VarName) {view : List Glimpse} {t : Text} (h : Shows view t)
    (hend : t.head?.any CodePoint.continuesName = false) :
    ∃ name ∈ nameViews, Shows (name ++ view) (n.text ++ t) := by
  by_cases hn : n.text = asyncName.text
  · refine ⟨_, List.mem_cons_of_mem _ List.mem_cons_self, ?_⟩
    rw [hn]
    exact shows_glimpses _ h
  · exact ⟨_, List.mem_cons_self, .name n hn hend h⟩

theorem reads_identifier {n : VarName} {t : Text} (h : c.rest = n.text ++ t)
    (hend : t.head?.any CodePoint.continuesName = false) :
    Reads (d + 2) (ref .identifier) c ⟨n.text, ⟨c.offset, c.offset + n.text.length⟩⟩
      (c.advance n.text.length) := by
  have hspan : c.rest.takeWhile CodePoint.continuesName = n.text := by rw [h, n.takeWhile_append hend]
  have hstarts : c.rest.head?.any CodePoint.startsName = true := by
    obtain ⟨x, rest, htext, hx⟩ := n.exists_cons
    simpa [h, htext] using hx
  have hkeyword : Misses (d + 1) (ref .keyword) c := by
    change (Peg.lexeme Lexeme.reserved).eval (scriptGrammar.eval d) c = some .missing
    simp only [Peg.eval_lexeme, Lexeme.length?, hspan, n.free, Bool.false_eq_true, if_false]
  have habsent : Reads (d + 1) (.absent (ref .keyword)) c () c := by
    rw [Reads, Peg.eval_absent, hkeyword]
  have hname : Reads (d + 1) (.lexeme .name : Pattern Text) c n.text (c.advance n.text.length) := by
    simp only [Reads, Peg.eval_lexeme, Lexeme.length?, if_pos hstarts, Text.spanLength, hspan]
    rw [h, List.take_left]
  exact Reads.rule (Reads.build (habsent.seq (f := fun _ b => b) hname))

theorem reads_mark {text : String} {t : Text} (h : c.rest = Text.ofString text ++ t) :
    Reads d (mark text) c text (c.advance (Text.ofString text).length) := by
  have hprefix : (Text.ofString text).isPrefixOf c.rest = true := by
    rw [h, List.isPrefixOf_iff_prefix]
    exact List.prefix_append _ _
  have hbarred : (c.rest.drop (Text.ofString text).length).head?.any (fun _ => false) = false := by
    cases (c.rest.drop (Text.ofString text).length).head? <;> rfl
  simp only [Reads, mark, Peg.eval_lexeme, Lexeme.length?, hprefix, hbarred, Bool.not_false, Bool.and_self,
    if_true]
  rw [h, List.take_left]

/-- A name is a primary expression where nothing else is. -/
theorem reads_primary_of_name {n : VarName} {t : Text} (h : c.rest = n.text ++ t)
    (hend : t.head?.any CodePoint.continuesName = false)
    (hrivals : ∀ r ∈ [Rule.literal, .template, .arrayLiteral, .objectLiteral, .functionExpr, .parenExpr, .thisExpr],
      Misses (d + 2) (ref r) c) :
    Reads (d + 3) (ref .primary) c ⟨.identifier n.text, ⟨c.offset, c.offset + n.text.length⟩⟩
      (c.advance n.text.length) := by
  refine Reads.rule ?_
  iterate 7 refine Reads.right (hrivals _ (by decide)) ?_
  exact Reads.build (reads_identifier h hend)

/-! ## From rule to rule -/

/-- A primary expression is a call with no calls in it. -/
theorem reads_callMember_of_primary (h : Reads d (ref .primary) c e next) (hnew : Misses d (ref .newExpr) c)
    (htail : Misses d (ref .callTail) next) : Reads (d + 1) (ref .callMember) c e next :=
  .rule ((Reads.build (.right hnew h)).seq (.many .nil (.inr htail)))

theorem reads_unary_of_callMember (h : Reads d (ref .callMember) c e next)
    (hrivals : ∀ r ∈ [Rule.awaitExpr, .prefixUpdate, .prefixUnary], Misses (d + 1) (ref r) c)
    (hupdate : Misses d (.lexeme .spaces *> ref .updateOp : Pattern UpdateOp) next) :
    Reads (d + 2) (rung 12) c e next := by
  have hpostfix : Reads (d + 1) (ref .postfixExpr) c e next :=
    .rule (Reads.build ((Reads.build h).seq (.option_none hupdate)))
  refine Reads.rule ?_
  iterate 3 refine Reads.right (hrivals _ (by decide)) ?_
  exact hpostfix

/-- What a rung reads a looser one reads, where no operator between them follows. -/
theorem reads_rung_of_misses {level k : Nat} (hlevel : 1 ≤ level) (hk : level + k ≤ 12)
    (h : Reads d (rung (level + k)) c e next)
    (hops : ∀ l, level ≤ l → l ≤ 10 → Misses d (spaced (rungOp l)) next)
    (hpower : level ≤ 11 → Misses d exponentPart next) : Reads (d + k) (rung level) c e next := by
  induction k generalizing level with
  | zero => exact h
  | succ k ih =>
    have hstep : Reads (d + k) (rung (level + 1)) c e next :=
      ih (by omega) (by omega) (by rwa [Nat.add_assoc, Nat.add_comm 1 k]) (fun l hl => hops l (by omega))
        (fun _ => hpower (by omega))
    rcases Nat.lt_or_ge level 11 with hlt | hge
    · have hstop := (hops level (Nat.le_refl _) (by omega)).mono (Nat.le_add_right d k)
      exact reads_rung_of_spine ⟨hlevel, by omega⟩ (.first hstep) hstop
    · obtain rfl : level = 11 := by omega
      exact reads_exponent_of_unary hstep ((hpower (Nat.le_refl _)).mono (Nat.le_add_right d k))

/-- An assignment gives up after its target. -/
theorem misses_assignment_of_callMember (h : Reads d (ref .callMember) c e m)
    (hop : Misses d (gap *> ref .assignOp) m) : Misses (d + 1) (ref .assignment) c := by
  refine .rule (.build (.seq_left ?_))
  rcases Misses.of_seq hop with hgap | ⟨blanks, m', hgap, hop⟩
  · exact .seq_left (.build (.seq_right h hgap))
  · exact .seq_right (Reads.build (h.seq hgap)) (.seq_left hop)

/-- The rest of a sequence, and the branches of a conditional. -/
def sequencePart : Pattern Sketch := gap *> mark "," *> gap *> ref .assignExpr

def branchPart : Pattern (Sketch × Sketch) :=
  Prod.mk <$> (gap *> mark "?" *> gap *> ref .assignExpr) <*> (gap *> mark ":" *> gap *> ref .assignExpr)

/-- What the loosest rung reads an expression reads, if it is neither an arrow function nor an assignment. -/
theorem reads_expr_of_rung (h : Reads d (rung 1) c e next) (harrow : Misses (d + 1) (ref .arrowFunction) c)
    (hassign : Misses (d + 1) (ref .assignment) c) (hbranches : Misses d branchPart next)
    (hsequence : Misses (d + 2) sequencePart next) : Reads (d + 3) (ref .expr) c e next := by
  have hconditional : Reads (d + 1) (ref .conditional) c e next :=
    .rule (Reads.build ((Reads.build h).seq (.option_none hbranches)))
  have hassignExpr : Reads (d + 2) (ref .assignExpr) c e next := .rule (.right harrow (.right hassign hconditional))
  exact .rule (Reads.build ((Reads.build hassignExpr).seq (.many .nil (.inr hsequence))))

/-! ## Primary expressions on their own -/

/-- Nothing goes on from what was read. -/
structure Ended (d : Nat) (c : Cursor source) : Prop where
  callTail : Misses d (ref .callTail) c
  update : Misses d (.lexeme .spaces *> ref .updateOp : Pattern UpdateOp) c
  power : Misses d exponentPart c
  operator : ∀ level, level ≤ 10 → Misses d (spaced (rungOp level)) c
  assignOp : Misses d (gap *> ref .assignOp) c
  branches : Misses d branchPart c
  sequence : Misses d sequencePart c

/-- At the end of the text. -/
theorem ended_of_rest_eq_nil (h : c.rest = []) : Ended (d + 4) c := by
  obtain ⟨offset, rest, hrest⟩ := c
  subst h
  exact
    { callTail := rfl
      update := rfl
      power := rfl
      operator := fun level _ => by
        unfold rungOp
        split <;> rfl
      assignOp := rfl
      branches := rfl
      sequence := rfl }

/-- Before a closing brace. -/
theorem ended_of_brace {t : Text} (h : c.rest = CodePoint.ofChar '\x7d' :: t) : Ended (d + 4) c := by
  have hshows : ∃ view ∈ [Text.glimpses "\x7d"], Shows view c.rest :=
    ⟨_, List.mem_cons_self, h ▸ shows_known "\x7d" t⟩
  have hd : 4 ≤ d + 4 := Nat.le_add_left 4 d
  have hops : ((List.range 11).all fun level => [Text.glimpses "\x7d"].all fun view =>
      (spaced (rungOp level)).foresee (scriptGrammar.foresee 4) view == some .missing) = true := rfl
  exact
    { callTail := Barred.misses (by rfl) hshows hd
      update := Barred.misses (by rfl) hshows hd
      power := Barred.misses (by rfl) hshows hd
      operator := fun level hlevel =>
        Barred.misses (List.all_eq_true.mp hops level (List.mem_range.mpr (by omega))) hshows hd
      assignOp := Barred.misses (by rfl) hshows hd
      branches := Barred.misses (by rfl) hshows hd
      sequence := Barred.misses (by rfl) hshows hd }

/-- A primary expression is an expression where nothing goes on from it. -/
theorem reads_expr_of_primary (h : Reads d (ref .primary) c e next)
    (hrivals : ∀ r ∈ primaryRivals, Misses d (ref r) c) (hnext : Ended d next) :
    Reads (d + 17) (ref .expr) c e next := by
  have hcall : Reads (d + 1) (ref .callMember) c e next :=
    reads_callMember_of_primary h (hrivals _ (by decide)) hnext.callTail
  have hunary : Reads (d + 3) (rung (1 + 11)) c e next := by
    refine reads_unary_of_callMember hcall (fun r hr => ?_) (hnext.update.mono (by omega))
    exact (hrivals r (by revert r; decide)).mono (by omega)
  have hrung : Reads (d + 14) (rung 1) c e next := by
    refine reads_rung_of_misses (d := d + 3) (Nat.le_refl 1) (Nat.le_refl 12) hunary (fun l _ hmax => ?_) fun _ => ?_
    · exact (hnext.operator l hmax).mono (by omega)
    · exact hnext.power.mono (by omega)
  have hassign : Misses (d + 2) (ref .assignment) c :=
    misses_assignment_of_callMember hcall (hnext.assignOp.mono (by omega))
  exact reads_expr_of_rung hrung ((hrivals _ (by decide)).mono (by omega)) (hassign.mono (by omega))
    (hnext.branches.mono (by omega)) (hnext.sequence.mono (by omega))

/-! ## Scripts of one expression -/

theorem reads_statement_of_expr (h : Reads (d + 1) (ref .expr) c e m) (hgap : Lexeme.triviaLength m.rest = 0)
    (hsemi : Reads (d + 1) (ref .semi) m () next) (hrivals : ∀ r ∈ statementRivals, Misses (d + 2) (ref r) c) :
    Reads (d + 3) (ref .statement) c ⟨.expressionStatement e, ⟨c.offset, next.offset⟩⟩ next := by
  have hread := (h.seq (f := fun a _ => a) (reads_gap_nothing hgap)).seq (f := fun a _ => a) hsemi
  have hstmt : Reads (d + 2) (ref .exprStmt) c _ next := .rule (Reads.build (Reads.build hread))
  refine Reads.rule ?_
  iterate 16 refine Reads.right (hrivals _ (by decide)) ?_
  exact hstmt

/-- A statement that is all of the text is a script. -/
theorem reads_program_of_statement {statement : Sketch} (hgap : Lexeme.triviaLength source = 0)
    (hsource : source ≠ []) (h : Reads (d + 1) (ref .statement) (Cursor.start source) statement next)
    (hend : next.atEnd = true) : Reads (d + 2) (ref .program) (Cursor.start source) [statement] next := by
  have hbegin : (Cursor.start source).atEnd = false := List.isEmpty_eq_false_iff.mpr hsource
  have hmoves : (Cursor.start source).offset < next.offset := by
    refine Nat.pos_of_ne_zero fun hzero => ?_
    rw [Cursor.ext_offset (c := next) (d := Cursor.start source) hzero, hbegin] at hend
    cases hend
  have hmany : Reads (d + 1) (.many (ref .statement)) (Cursor.start source) ([] ++ [statement]) next :=
    .many (.snoc .nil hbegin h hmoves) (.inl hend)
  exact Reads.rule ((reads_gap_nothing hgap).seq (f := fun _ b => b) hmany)

end ScriptAudit
