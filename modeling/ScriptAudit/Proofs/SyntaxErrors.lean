/-
Where a syntax error is reported. A source that is no script goes wrong where a statement would have to begin and
none does, and never at a blank or in front of a line comment: every statement takes the blanks and comments after
it, as does what comes before the first one. So the error always has something to quote.

What does the work is `Peg.endsClear`, which tells from an expression alone whether its matches end where neither
a blank nor a comment begins. A rule of the grammar does if its expression does (`clear_of_rule`).
-/
import ScriptAudit.Proofs.Foresight
import ScriptAudit.Proofs.LeadingTrivia
import ScriptAudit.Proofs.ParseOutcome

namespace ScriptAudit

/-! ## Places without blanks and comments -/

/-- Neither a blank nor a comment begins at the offset. -/
def Text.IsClearAt (t : Text) (offset : Nat) : Prop := Lexeme.triviaLength (t.drop offset) = 0

namespace Lexeme

/-- Blanks and comments are passed over all at once. -/
theorem triviaFrom_drop (skip : Nat) (t : Text) : triviaFrom 0 (t.drop (triviaFrom skip t)) = 0 := by
  induction t generalizing skip with
  | nil => rw [List.drop_nil, triviaFrom]
  | cons c t ih =>
    cases skip with
    | succ skip => exact ih skip
    | zero =>
      by_cases hc : c.isBlank = true
      · rw [triviaFrom, if_pos hc]
        exact ih 0
      · cases hcomment : commentLength? (c :: t) with
        | none =>
          have hnothing := triviaFrom_cons_of_not_blank (Bool.eq_false_iff.mpr hc) hcomment
          rw [hnothing, List.drop_zero, hnothing]
        | some n =>
          rw [triviaFrom, if_neg hc, hcomment]
          exact ih (n - 1)

end Lexeme

theorem Text.IsClearAt.of_cons {t rest : Text} {offset : Nat} {c : CodePoint} (h : t.IsClearAt offset)
    (ht : t.drop offset = c :: rest) : c.isBlank = false ∧ Lexeme.commentLength? (c :: rest) = none := by
  rw [IsClearAt, ht, Lexeme.triviaLength, Lexeme.triviaFrom] at h
  split at h
  · omega
  · rename_i hblank
    split at h
    · rename_i hcomment
      exact ⟨Bool.eq_false_iff.mpr hblank, hcomment⟩
    · omega

theorem Text.IsClearAt.not_lineComment {t : Text} {offset : Nat} (h : t.IsClearAt offset) :
    ¬Text.ofString "//" <+: t.drop offset := by
  rintro ⟨rest, hrest⟩
  cases (h.of_cons hrest.symm).2

namespace Lexeme

/-- A block comment ends where it is closed for the first time. -/
theorem exists_closed_of_blockTailLength? {t : Text} {n : Nat} (h : blockTailLength? t = some n) :
    ∃ body s, t = body ++ Text.ofString "*/" ++ s ∧ ¬Text.ofString "*/" <:+: body := by
  induction t generalizing n with
  | nil => cases h
  | cons c t ih =>
    rw [blockTailLength?] at h
    split at h
    · rename_i hclosed
      obtain ⟨hc, hhead⟩ : c = CodePoint.ofChar '*' ∧ t.head? = some (CodePoint.ofChar '/') := by simpa using hclosed
      obtain ⟨s, rfl⟩ := List.head?_eq_some_iff.mp hhead
      rw [hc]
      exact ⟨[], s, rfl, by decide⟩
    · rename_i hopen
      obtain ⟨n, hn, -⟩ := Option.map_eq_some_iff.mp h
      obtain ⟨body, s, rfl, hbody⟩ := ih hn
      refine ⟨c :: body, s, rfl, fun hinfix => ?_⟩
      obtain ⟨rest, hprefix⟩ | hinfix := List.infix_cons_iff.mp hinfix
      · cases hprefix
        exact hopen rfl
      · exact hbody hinfix

/-- A comment goes to the end of its line, or to where it is closed. -/
theorem exists_of_commentLength? {t : Text} {n : Nat} (h : commentLength? t = some n) :
    (∃ body s, t = Text.ofString "//" ++ body ++ s ∧ n = body.length + 2 ∧ CodePoint.ofChar '\n' ∉ body ∧
      (s = [] ∨ ∃ s', s = CodePoint.ofChar '\n' :: s')) ∨
    ∃ body s, t = Text.ofString "/*" ++ body ++ Text.ofString "*/" ++ s ∧ ¬Text.ofString "*/" <:+: body := by
  unfold commentLength? at h
  split at h
  · rename_i c d rest
    split at h
    · rename_i hc
      split at h
      · rename_i hd
        refine .inl ⟨rest.takeWhile (· != CodePoint.ofChar '\n'), rest.dropWhile (· != CodePoint.ofChar '\n'), ?_,
          (Option.some.inj h).symm, ?_, ?_⟩
        · rw [List.append_assoc, List.takeWhile_append_dropWhile, hc, hd]
          rfl
        · intro hmem
          simpa using List.all_eq_true.mp List.all_takeWhile _ hmem
        · cases hrest : rest.dropWhile (· != CodePoint.ofChar '\n') with
          | nil => exact .inl rfl
          | cons e s' =>
            have he := List.head?_dropWhile_not (· != CodePoint.ofChar '\n') rest
            rw [hrest] at he
            exact .inr ⟨s', by simpa using he⟩
      · split at h
        · rename_i hd
          obtain ⟨n, hn, -⟩ := Option.map_eq_some_iff.mp h
          obtain ⟨body, s, rfl, hbody⟩ := exists_closed_of_blockTailLength? hn
          refine .inr ⟨body, s, ?_, hbody⟩
          rw [hc, hd]
          simp only [List.append_assoc]
          rfl
        · cases h
    · cases h
  · cases h

/-- A text begins with blanks and comments, after which there are none, or a line comment takes all of it. -/
theorem exists_isTrivia (t : Text) :
    ∃ w s, t = w ++ s ∧ IsTrivia w ∧ (triviaLength s = 0 ∨ triviaLength s = s.length) := by
  induction hlength : t.length using Nat.strongRecOn generalizing t with
  | ind length ih =>
    cases t with
    | nil => exact ⟨[], [], rfl, .nil, .inl rfl⟩
    | cons c t =>
      by_cases hc : c.isBlank = true
      · obtain ⟨w, s, rfl, hw, hs⟩ := ih t.length (by rw [← hlength, List.length_cons]; omega) t rfl
        exact ⟨c :: w, s, rfl, .blank hc hw, hs⟩
      · cases hcomment : commentLength? (c :: t) with
        | none =>
          exact ⟨[], c :: t, rfl, .nil, .inl (triviaFrom_cons_of_not_blank (Bool.eq_false_iff.mpr hc) hcomment)⟩
        | some n =>
          obtain ⟨body, s, ht, rfl, hbody, rfl | ⟨s, rfl⟩⟩ | ⟨body, s, ht, hbody⟩ := exists_of_commentLength? hcomment
          · replace ht : c :: t = CodePoint.ofChar '/' :: ((CodePoint.ofChar '/' :: body) ++ []) := ht
            rw [ht] at hcomment
            refine ⟨[], c :: t, rfl, .nil, .inr ?_⟩
            rw [ht, triviaLength, triviaFrom_comment rfl hcomment, List.append_nil, List.length_cons, triviaFrom]
            rfl
          · rw [ht] at hlength ⊢
            obtain ⟨w, s, rfl, hw, hs⟩ := ih s.length (by rw [← hlength]; simp; omega) s rfl
            refine ⟨Text.ofString "//" ++ body ++ Text.ofString "\n" ++ w, s, ?_, .line hbody hw, hs⟩
            simp only [List.append_assoc]
            rfl
          · rw [ht] at hlength ⊢
            have hopening : (Text.ofString "/*").length = 2 := rfl
            obtain ⟨w, s, rfl, hw, hs⟩ := ih s.length (by simp only [← hlength, List.length_append]; omega) s rfl
            refine ⟨Text.ofString "/*" ++ body ++ Text.ofString "*/" ++ w, s, ?_, .block hbody hw, hs⟩
            simp only [List.append_assoc]

/-- The blanks and comments at the beginning, unless they are all there is. -/
theorem exists_leading {t : Text} (h : triviaLength t < t.length) :
    ∃ lead, IsTrivia lead ∧ lead <+: t ∧ triviaLength t = lead.length := by
  obtain ⟨w, s, rfl, hw, hs⟩ := exists_isTrivia t
  rw [triviaLength_append hw, List.length_append] at h
  exact ⟨w, hw, List.prefix_append w s, by rw [triviaLength_append hw]; omega⟩

end Lexeme

/-! ## Matches that end at such places -/

section Clear

variable {Rule : Type} {Out : Rule → Type} {Part : Type} {source : Text} {α : Type}

/-- The matches of the expression end where neither a blank nor a comment begins, if that is so for the rules that
`clear` names. With `here`, this is said only of the matches that start at such a place. -/
def Peg.endsClear (clear : Rule → Bool) {α : Type} : (here : Bool) → Peg Out α → Bool
  | _, .lexeme .trivia => true
  | _, .lexeme _ => false
  | _, .rule r => clear r
  | here, .seq _ p q => q.endsClear clear (p.endsClear clear here)
  | here, .either p q => p.endsClear clear here && q.endsClear clear here
  | here, .many p | here, .option p => here && p.endsClear clear true
  | here, .absent _ => here
  | here, .build _ p => p.endsClear clear here

namespace Account

variable {A : Account source Out Part}

theorem clear_of_laysRun {L : Nat → α → Nat → List Part → Prop}
    (h : ∀ s v e ps, L s v e ps → source.IsClearAt s → source.IsClearAt e) {vs : List α} :
    ∀ {s e ps}, LaysRun L s vs e ps → source.IsClearAt s → source.IsClearAt e := by
  induction vs with
  | nil => rintro s e ps ⟨rfl, -⟩ hs; exact hs
  | cons v vs ih => rintro s e ps ⟨m, qs, rs, hv, hvs, -⟩ hs; exact ih hvs (h _ _ _ _ hv hs)

theorem Lays.clear {clear : Rule → Bool}
    (hA : ∀ r s v e ps, A.found r s v e ps → clear r = true → source.IsClearAt e) {p : Peg Out α} :
    ∀ {here s v e ps}, A.Lays p s v e ps → (here = true → source.IsClearAt s) →
      p.endsClear clear here = true → source.IsClearAt e := by
  induction p with
  | lexeme l =>
    rintro here s v e ps ⟨n, hn, -, rfl, -⟩ - hclear
    cases l with
    | trivia =>
      obtain rfl := Option.some.inj hn
      rw [Text.IsClearAt, ← List.drop_drop]
      exact Lexeme.triviaFrom_drop 0 _
    | _ => cases hclear
  | rule r => intro here s v e ps h _ hclear; exact hA r s v e ps h hclear
  | seq f p q ihp ihq =>
    rintro here s v e ps ⟨a, m, b, qs, rs, hp, hq, -, -⟩ hs hclear
    exact ihq hq (ihp hp hs) hclear
  | either p q ihp ihq =>
    rintro here s v e ps (h | h) hs hclear
    · exact ihp h hs (Bool.and_eq_true_iff.mp hclear).1
    · exact ihq h hs (Bool.and_eq_true_iff.mp hclear).2
  | many p ih =>
    intro here s v e ps h hs hclear
    obtain ⟨hhere, hp⟩ := Bool.and_eq_true_iff.mp hclear
    exact clear_of_laysRun (fun _ _ _ _ hv hs => ih hv (fun _ => hs) hp) h (hs hhere)
  | option p ih =>
    intro here s v e ps h hs hclear
    obtain ⟨hhere, hp⟩ := Bool.and_eq_true_iff.mp hclear
    obtain ⟨-, rfl, -⟩ | ⟨a, h, -⟩ := h
    · exact hs hhere
    · exact ih h (fun _ => hs hhere) hp
  | absent p ih => rintro here s v e ps ⟨-, rfl, -⟩ hs hclear; exact hs hclear
  | build f p ih => rintro here s v e ps ⟨a, h, -⟩ hs hclear; exact ih h hs hclear

end Account

end Clear

/-! ## Statements take what comes after them -/

namespace Rule

/-- The rule takes the blanks and comments after it. -/
def endsClear : Rule → Bool
  | program | statement | block | emptyStmt | semi | importDecl | importFrom | importBare | exportDecl | functionDecl
  | varStatement | ifStmt | whileStmt | doWhileStmt | forStmt | forInOfStmt | tryStmt | catchClause | finallyClause
  | returnStmt | breakStmt | continueStmt | throwStmt | exprStmt | trivia => true
  | _ => false

end Rule

theorem clear_of_rule (r : Rule) (h : r.endsClear = true) :
    (scriptGrammar r).endsClear Rule.endsClear false = true := by
  cases r <;> first | rfl | cases h

/-- Whether the matches of the rules end at such places. -/
def clearances (source : Text) : Account source Yield Unit where
  found r _ _ e _ := e ≤ source.length ∧ (r.endsClear = true → source.IsClearAt e)
  inside h := h.1
  missing _ _ := True

theorem clearances_supports (source : Text) (depth : Nat) :
    (clearances source).Supports (scriptGrammar.eval depth) := by
  refine Account.supports (fun r s v e ps hs h => ?_) (fun _ _ _ => trivial) depth
  have hrules : ∀ r s v e ps, (clearances source).found r s v e ps → r.endsClear = true → source.IsClearAt e :=
    fun _ _ _ _ _ hfound => hfound.2
  exact ⟨[], h.inside hs, fun hr => h.clear hrules (absurd · Bool.false_ne_true) (clear_of_rule r hr)⟩

/-! ## Where the statements end -/

variable {source filename : Text}

/-- Statements one after the other. -/
inductive Statements : Cursor source → Cursor source → Prop
  | none {c : Cursor source} : Statements c c
  | more {c middle next : Cursor source} {n : Sketch}
    (hfirst : Settles scriptGrammar (.rule Rule.statement) c (.found n middle)) (hrest : Statements middle next) :
    Statements c next

theorem statement_moves {depth : Nat} {c next : Cursor source} {n : Sketch} (hc : c.offset ≤ source.length)
    (h : scriptGrammar.eval depth .statement c = some (.found n next)) :
    c.offset < next.offset ∧ next.offset ≤ source.length := by
  obtain ⟨ps, hfound⟩ := (layout_supports source depth).found .statement c n next hc h
  exact ⟨hfound.spanned.lt rfl, hfound.inside⟩

theorem Statements.offset_le {c next : Cursor source} (h : Statements c next) (hc : c.offset ≤ source.length) :
    c.offset ≤ next.offset := by
  induction h with
  | none => exact Nat.le_refl _
  | more hfirst _ ih =>
    obtain ⟨depth, heval⟩ := hfirst
    obtain ⟨hmoves, hmiddle⟩ := statement_moves hc heval
    exact Nat.le_trans (Nat.le_of_lt hmoves) (ih hmiddle)

/-- A repetition of statements goes on until there is no text or no statement. -/
theorem statements_of_iterate {depth : Nat} (bound : Text) :
    ∀ {c last : Cursor source} {ns : List Sketch}, c.offset ≤ source.length → c.rest.length ≤ bound.length →
      iterate (scriptGrammar.eval depth .statement) bound c = some (.found ns last) →
      Statements c last ∧ (last.atEnd = true ∨ Settles scriptGrammar (.rule Rule.statement) last .missing) := by
  induction bound with
  | nil =>
    intro c last ns hc hbound h
    cases h
    exact ⟨.none, .inl (List.isEmpty_iff_length_eq_zero.mpr (Nat.le_zero.mp hbound))⟩
  | cons _ bound ih =>
    intro c last ns hc hbound h
    unfold iterate at h
    split at h
    · rename_i hend
      cases h
      exact ⟨.none, .inl hend⟩
    · rename_i hend
      cases hstep : scriptGrammar.eval depth .statement c with
      | none => simp [hstep] at h
      | some reply =>
        rw [hstep] at h
        cases reply with
        | missing =>
          cases h
          exact ⟨.none, .inr ⟨depth, hstep⟩⟩
        | found n next =>
          obtain ⟨hmoves, hnext⟩ := statement_moves hc hstep
          have hlength := Cursor.length_rest_lt (Bool.eq_false_iff.mpr hend) hmoves
          simp only [if_neg (Nat.ne_of_gt hmoves)] at h
          cases hrest : iterate (scriptGrammar.eval depth .statement) bound next with
          | none => simp [hrest] at h
          | some reply =>
            rw [hrest] at h
            cases reply with
            | missing => cases h
            | found ns stop =>
              cases h
              rw [List.length_cons] at hbound
              obtain ⟨hstatements, hstop⟩ := ih hnext (by omega) hrest
              exact ⟨.more ⟨depth, hstep⟩ hstatements, hstop⟩

/-- What the match of a source from its beginning says about where it stops. -/
theorem statements_of_settles {statements : List Sketch} {next : Cursor source}
    (h : Settles scriptGrammar (.rule Rule.program) (Cursor.start source) (.found statements next)) :
    Statements (Cursor.afterTrivia source) next ∧
      (next.atEnd = true ∨ Settles scriptGrammar (.rule Rule.statement) next .missing) ∧
      Lexeme.triviaLength source ≤ next.offset ∧ next.offset ≤ source.length ∧ source.IsClearAt next.offset := by
  obtain ⟨depth, heval⟩ := h
  obtain ⟨ps, hinside, hclear⟩ := (clearances_supports source depth).found .program _ _ _ (Nat.zero_le _) heval
  have heval := scriptGrammar.eval_le (Nat.le_add_right depth 2) _ _ _ heval
  rw [eval_program] at heval
  have hstart : (Cursor.afterTrivia source).offset = Lexeme.triviaLength source := Nat.zero_add _
  have hle : (Cursor.afterTrivia source).offset ≤ source.length := hstart ▸ Lexeme.triviaFrom_le 0 source
  obtain ⟨hstatements, hstop⟩ := statements_of_iterate _ hle (Nat.le_refl _) heval
  exact ⟨hstatements, hstop, hstart ▸ hstatements.offset_le hle, hinside, hclear rfl⟩

/-! ## The error -/

/-- No match of the grammar from its beginning takes all of the source. -/
def IsNoScript (source : Text) : Prop :=
  ∀ statements next, Settles scriptGrammar (.rule Rule.program) (Cursor.start source) (.found statements next) →
    next.atEnd = false

theorem isNoScript_of_eval {n : Nat} {statements : List Sketch} {next : Cursor source}
    (h : scriptGrammar.eval n .program (Cursor.start source) = some (.found statements next))
    (hnext : next.atEnd = false) : IsNoScript source := by
  intro statements' next' hsettles
  have hmatch : Settles scriptGrammar (.rule Rule.program) (Cursor.start source) (.found statements next) := ⟨n, h⟩
  obtain ⟨-, rfl⟩ := Reply.found.inj (hmatch.unique hsettles)
  exact hnext

/-- The offset at which a source goes wrong. -/
structure GoesWrongAt (source : Text) (offset : Nat) : Prop where
  inside : offset < source.length
  /-- Up to there, there are only complete statements after the leading blanks and comments. -/
  statements : ∃ lead, IsTrivia lead ∧ lead <+: source ∧
    Statements ((Cursor.start source).advance lead.length) ((Cursor.start source).advance offset)
  stuck : Settles scriptGrammar (.rule Rule.statement) ((Cursor.start source).advance offset) .missing
  notBlank : ∀ c ∈ source[offset]?, c.isBlank = false
  noLineComment : ¬Text.ofString "//" <+: source.drop offset

/-- The error quotes the source at the offset, and says where that is. -/
structure AuditError.Quotes (e : AuditError) (source filename : Text) (offset : Nat) : Prop where
  kind : e.kind = .script
  quoted : ParseFailure.snippet source offset ≠ []
  message : e.message = Text.ofString "Unexpected input " ++ (ParseFailure.snippet source offset).quoted
  hint : e.hint = "Expected program"
  /-- The line and the column, both counted from one. -/
  place : e.place = .point filename (Text.lineEnds (source.take offset) + 1 : Nat)
    (Text.lastLineLength (source.take offset) + 1 : Nat)

theorem Place.ofOffset_of_le {offset : Nat} (h : offset ≤ source.length) : Place.ofOffset source offset filename =
    .point filename (Text.lineEnds (source.take offset) + 1 : Nat)
      (Text.lastLineLength (source.take offset) + 1 : Nat) := by
  have hupTo : source.upTo (offset : Int) = source.take offset := by
    rw [Text.upTo, if_neg (by omega), Int.toNat_natCast]
  have hlength : (source.take offset).length = offset := List.length_take_of_le h
  have hline := Text.lastLineLength_le (source.take offset)
  have hcolumn : source.columnAt (offset : Int) = (Text.lastLineLength (source.take offset) + 1 : Nat) := by
    rw [Text.columnAt, Text.lineStart, hupTo]
    change (offset : Int) - ((source.take offset).length - Text.lastLineLength (source.take offset) : Nat) + 1 = _
    omega
  have hnearest : max 0 (min (offset : Int) source.length) = offset := by omega
  simp only [ofOffset, hnearest, hcolumn, Text.lineAt, hupTo]
  rfl

theorem ParseFailure.report_quotes {offset : Nat} (hinside : offset < source.length)
    (hclear : source.IsClearAt offset) :
    ((unexpected offset).report source filename).Quotes source filename offset := by
  obtain ⟨c, rest, hrest⟩ := List.exists_cons_of_length_pos (l := source.drop offset) (by rw [List.length_drop]; omega)
  have hline : (c != CodePoint.ofChar '\n') = true := by
    rw [bne_iff_ne]
    rintro rfl
    cases (hclear.of_cons hrest).1
  have hsnippet : snippet source offset ≠ [] := by
    rw [snippet, hrest, List.take_succ_cons, List.takeWhile_cons, if_pos hline]
    exact List.cons_ne_nil _ _
  have hquoted : (snippet source offset).isEmpty = false := by simpa using hsnippet
  refine ⟨rfl, hsnippet, ?_, rfl, Place.ofOffset_of_le (Nat.le_of_lt hinside)⟩
  simp only [report, AuditError.unreadable, hquoted]
  rfl

/-- **Where a syntax error is reported.** A source that is no script and does not nest too deeply is refused at an
offset inside it, where what is not blank and no line comment is quoted. -/
theorem goesWrong_of_isNoScript (hdeep : parse source filename ≠ .error .tooDeep) (hscript : IsNoScript source) :
    ∃ offset e, parse source filename = .error (.unexpected offset) ∧ Program.read source filename = .error e ∧
      GoesWrongAt source offset ∧ e.Quotes source filename offset := by
  obtain ⟨statements, next, hsettles⟩ := exists_settles_of_parse hdeep
  have hnext := hscript statements next hsettles
  obtain ⟨hstatements, hstop, hleading, hle, hclear⟩ := statements_of_settles hsettles
  have hparse : parse source filename = .error (.unexpected next.offset) := by
    rw [parse, (parseWithin_of_settles hsettles _).resolve_left hdeep, ofMatch,
      if_neg (by rw [hnext]; exact Bool.false_ne_true)]
  have hinside : next.offset < source.length := by
    refine Nat.lt_of_le_of_ne hle fun hend => ?_
    rw [Cursor.atEnd, next.rest_eq, hend, List.drop_length] at hnext
    cases hnext
  have hcursor : (Cursor.start source).advance next.offset = next := Cursor.ext_offset (Nat.zero_add _)
  refine ⟨next.offset, _, hparse, read_of_parse_error hparse, ⟨hinside, ?_, ?_, ?_, hclear.not_lineComment⟩,
    ParseFailure.report_quotes hinside hclear⟩
  · obtain ⟨lead, htrivia, hprefix, hlength⟩ := Lexeme.exists_leading (Nat.lt_of_le_of_lt hleading hinside)
    refine ⟨lead, htrivia, hprefix, ?_⟩
    rw [hcursor, ← hlength]
    exact hstatements
  · rw [hcursor]
    exact hstop.resolve_left (by rw [hnext]; exact Bool.false_ne_true)
  · intro c hc
    obtain ⟨hlt, rfl⟩ := List.getElem?_eq_some_iff.mp hc
    exact (hclear.of_cons (List.drop_eq_getElem_cons hlt)).1

/-- After a comment and a statement, a bracket that was never opened. -/
def unopened : Text := "/**/a;\n)"

theorem eval_unopened : ∃ statements, scriptGrammar.eval 30 .program (Cursor.start unopened) =
    some (.found statements ((Cursor.start unopened).advance 7)) :=
  ⟨[⟨.expressionStatement ⟨.identifier "a", ⟨4, 5⟩⟩, ⟨4, 7⟩⟩], rfl⟩

theorem goesWrong_of_isNoScript_unopened :
    parse unopened "unopened.js" ≠ .error .tooDeep ∧ IsNoScript unopened ∧
      ∃ offset e, parse unopened "unopened.js" = .error (.unexpected offset) ∧
        Program.read unopened "unopened.js" = .error e ∧ GoesWrongAt unopened offset ∧
        e.Quotes unopened "unopened.js" offset := by
  obtain ⟨statements, heval⟩ := eval_unopened
  have hdeep : parse unopened "unopened.js" ≠ .error .tooDeep := by
    rw [parse, parseWithin_of_eval (by decide) heval]
    rintro ⟨⟩
  have hscript : IsNoScript unopened := isNoScript_of_eval heval rfl
  exact ⟨hdeep, hscript, goesWrong_of_isNoScript hdeep hscript⟩

end ScriptAudit
