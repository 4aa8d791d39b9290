/-
Operands that stay when the source is cut off behind them.
-/
import ScriptAudit.Proofs.CutMatches
import ScriptAudit.Proofs.ExpressionReading

namespace ScriptAudit

open ScriptGrammar

variable {source : Text} {α β γ : Type} {d e : Nat} {c m next : Cursor source} {follow : Cursor source → Prop}

/-! ## Blanks -/

/-- The place behind the blanks and comments. -/
def Cursor.skip (c : Cursor source) : Cursor source := c.advance (Lexeme.triviaLength c.rest)

theorem finds_gap (c : Cursor source) : Finds gap c (c.rest.take (Lexeme.triviaLength c.rest)) c.skip :=
  (reads_gap (d := 0) rfl).finds

theorem Finds.eq_skip {a : Text} (h : Finds gap c a next) : next = c.skip := by
  cases h.unique (finds_gap c)
  rfl

theorem Lacks.after_gap {p : Pattern α} {f : Text → α → β} (h : Lacks p c.skip) : Lacks (.seq f gap p) c :=
  .seq_found_missing (finds_gap c) h

theorem Finds.of_seq {f : α → β → γ} {p : Pattern α} {q : Pattern β} {x : γ} (h : Finds (.seq f p q) c x next) :
    ∃ a m b, Finds p c a m ∧ Finds q m b next ∧ x = f a b := by
  obtain ⟨d, h⟩ := h
  obtain ⟨a, m, b, hp, hq, rfl⟩ := Reads.of_seq h
  exact ⟨a, m, b, ⟨d, hp⟩, ⟨d, hq⟩, rfl⟩

theorem Finds.of_gap {p : Pattern α} {f : Text → α → β} {x : β} (h : Finds (.seq f ScriptGrammar.gap p) c x next) :
    ∃ b a, Finds p c.skip a next ∧ x = f b a := by
  obtain ⟨a, m, b, hgap, hp, rfl⟩ := h.of_seq
  obtain rfl := hgap.eq_skip
  exact ⟨a, b, hp, rfl⟩

theorem Lacks.of_gap {p : Pattern α} {f : Text → α → β} (h : Lacks (.seq f ScriptGrammar.gap p) c) :
    Lacks p c.skip := by
  obtain ⟨d, h⟩ := h
  rcases Misses.of_seq h with hmiss | ⟨a, m, hgap, hmiss⟩
  · cases (finds_gap c).unique ⟨d, hmiss⟩
  · obtain rfl := Finds.eq_skip ⟨d, hgap⟩
    exact ⟨d, hmiss⟩

theorem Finds.of_build {f : Span → α → β} {p : Pattern α} {b : β} (h : Finds (.build f p) c b next) :
    ∃ a, Finds p c a next ∧ b = f ⟨c.offset, next.offset⟩ a := by
  obtain ⟨d, h⟩ := h
  obtain ⟨a, hp, rfl⟩ := Reads.of_build h
  exact ⟨a, ⟨d, hp⟩, rfl⟩

theorem Lacks.of_build {f : Span → α → β} {p : Pattern α} (h : Lacks (.build f p) c) : Lacks p c := by
  obtain ⟨d, h⟩ := h
  exact ⟨d, Misses.of_build h⟩

theorem Finds.of_rule {r : Rule} {a : Yield r} (h : Finds (ref r) c a next) : Finds (scriptGrammar r) c a next := by
  obtain ⟨d, h⟩ := h
  obtain ⟨k, -, h⟩ := Reads.of_rule h
  exact ⟨k, h⟩

theorem Finds.of_either {p q : Pattern α} {a : α} (h : Finds (.either p q) c a next) :
    Finds p c a next ∨ Lacks p c ∧ Finds q c a next := by
  obtain ⟨d, h⟩ := h
  rcases Reads.of_either h with h | ⟨hmiss, h⟩
  · exact .inl ⟨d, h⟩
  · exact .inr ⟨⟨d, hmiss⟩, d, h⟩

theorem Lacks.of_rule {r : Rule} (h : Lacks (ref r) c) : Lacks (scriptGrammar r) c := by
  obtain ⟨d, h⟩ := h
  cases d with
  | zero => cases h
  | succ d => exact ⟨d, h⟩

theorem Lacks.length? {l : Lexeme} (h : Lacks (.lexeme l : Pattern Text) c) : l.length? c.rest = none := by
  obtain ⟨d, h⟩ := h
  rw [Peg.eval_lexeme] at h
  split at h
  · assumption
  · cases h

theorem Lacks.of_seq_gap {p : Pattern α} {f : α → Text → β} (h : Lacks (.seq f p ScriptGrammar.gap) c) : Lacks p c := by
  obtain ⟨d, h⟩ := h
  rcases Misses.of_seq h with hmiss | ⟨a, m, -, hmiss⟩
  · exact ⟨d, hmiss⟩
  · cases (finds_gap m).unique ⟨d, hmiss⟩

theorem Lacks.of_either {p q : Pattern α} (h : Lacks (.either p q) c) : Lacks p c ∧ Lacks q c := by
  obtain ⟨d, h⟩ := h
  simp only [Peg.eval_either] at h
  split at h
  · rename_i hp
    exact ⟨⟨d, hp⟩, ⟨d, h⟩⟩
  · rename_i hp
    exact absurd h hp

/-- Nothing is skipped before a code point that neither is blank nor begins a comment. -/
theorem Cursor.skip_eq_self {x : CodePoint} {t : Text} (hc : c.rest = x :: t) (hblank : x.isBlank = false)
    (hslash : x ≠ '/') : c.skip = c := by
  have htrivia : Lexeme.triviaLength c.rest = 0 := by
    rw [hc, Lexeme.triviaLength]
    exact Lexeme.triviaFrom_cons_of_not_blank hblank (Lexeme.commentLength?_of_ne t hslash)
  rw [skip, htrivia, Cursor.advance_zero]

/-- It begins with something that neither is blank nor begins a comment. -/
def Start.isSolid : Start → Bool
  | lexeme l => l.first?.any fun (x : CodePoint) => !x.isBlank && x != '/'
  | free => true

theorem Cursor.skip_eq_of_start {s : Start} (hs : s.isSolid = true) (h : s.isThere c.rest = true) : c.skip = c := by
  cases s with
  | lexeme l =>
    obtain ⟨x, hx, hsolid⟩ := (Option.any_eq_true _ _).mp hs
    obtain ⟨n, hn⟩ := Start.isThere_lexeme.mp h
    obtain ⟨t, ht⟩ := Lexeme.head?_of_first? hx hn
    simp only [Bool.and_eq_true, Bool.not_eq_true', bne_iff_ne] at hsolid
    exact skip_eq_self ht hsolid.1 hsolid.2
  | free =>
    obtain ⟨-, x, t, ht, hx⟩ := Start.exists_of_free h
    refine skip_eq_self ht ?_ ?_
    · simpa using CodePoint.of_startsName (P := fun c => !c.isBlank) hx rfl
    · simpa using CodePoint.of_startsName (P := fun c => c != CodePoint.ofChar '/') hx rfl

/-! ## The end of the text -/

/-- The pattern begins with some text. -/
def Peg.needsText (p : Pattern α) : Bool := p.begins.any fun starts => starts.all fun s => !s.isThere []

theorem lacks_of_rest_eq_nil {p : Pattern α} (hp : p.needsText = true) (hc : c.rest = []) : Lacks p c := by
  obtain ⟨starts, hstarts, hall⟩ := (Option.any_eq_true _ _).mp hp
  refine Peg.lacks_of_begins hstarts fun s hs => ?_
  rw [hc]
  simpa using List.all_eq_true.mp hall s hs

/-- Where an option is not taken, the pattern does not match. -/
theorem lacks_of_untaken {p : Pattern α} (hp : p.needsText = true) (h : c.atEnd = true ∨ Misses d p c) : Lacks p c := by
  rcases h with hend | hmiss
  · exact lacks_of_rest_eq_nil hp (List.isEmpty_iff.mp hend)
  · exact ⟨d, hmiss⟩

section

variable (he : e ≤ source.length)
include he

theorem stays_gap : Stays d e follow gap := .rule fun _ _ => .lexeme he nofun

theorem Cursor.skip_cut (h : c.skip.offset ≤ e) : (c.cut e).skip = c.skip.cut e := by
  have hc : c.offset ≤ c.skip.offset := Nat.le_add_right _ _
  have hstays : Stays 1 e (fun _ : Cursor source => True) gap := stays_gap he
  exact (hstays (by omega) (reads_gap rfl) h trivial).eq_skip.symm

/-- A mark that is not there is not there if the source is cut off. -/
theorem lacks_mark_cut {text : String} (hc : c.offset ≤ e) (h : Lacks (mark text) c) : Lacks (mark text) (c.cut e) := by
  refine .lexeme_missing (Lexeme.exact_eq_none_of_append (y := source.drop e) ?_ fun _ _ => rfl)
  rw [← Cursor.rest_cut hc he]
  exact Lacks.length? h

theorem stays_mark {text : String} : Stays d e follow (mark text) := .lexeme he nofun

theorem stays_propertyName : Stays d e follow (ref .propertyName) := .rule fun _ _ => .build (.lexeme he nofun)

theorem stays_arguments : Stays d e follow (ref .arguments) := .rule fun _ _ => .bracketed "(" .code he rfl

theorem stays_memberIndex : Stays d e follow (ref .memberIndex) :=
  .rule fun _ _ => .bracketed "[" .code he rfl

theorem stays_params : Stays d e follow (ref .params) := .rule fun _ _ => .bracketed "(" .code he rfl

theorem stays_block : Stays d e follow (ref .block) :=
  .rule fun _ _ => .build (.build (.andThen (.bracketed "\x7b" .code he rfl) (stays_gap he)))

/-! ## Primary expressions -/

theorem stays_literal : Stays d e follow (ref .literal) := by
  have number {k} : Stays k e follow (ref .number) := .rule fun _ _ => .build (.lexeme he nofun)
  have string {k} : Stays k e follow (ref .string) :=
    .rule fun _ _ => .build (.or (.lexeme he nofun) (.lexeme he nofun) rfl)
  have boolean {k} : Stays k e follow (ref .boolean) :=
    .rule fun _ _ => .build (.or (.build (.lexeme he nofun)) (.build (.lexeme he nofun)) rfl)
  have null {k} : Stays k e follow (ref .null) := .rule fun _ _ => .build (.build (.lexeme he nofun))
  exact .rule fun _ _ => .or (.build number) (.or (.build string) (.or boolean null rfl)
    rfl) rfl

theorem stays_identifier : Stays d e follow (ref .identifier) := by
  refine .rule fun k _ => .build ?_
  -- the name goes as far as before, so it is the same word
  let sameWord (m : Cursor source) : Prop :=
    (m.cut e).rest.takeWhile CodePoint.continuesName = m.rest.takeWhile CodePoint.continuesName
  have habsent : Stays k e sameWord (.absent (ref .keyword)) := by
    refine .absent fun {c} hc hmiss hword => .rule (.lexeme_missing ?_)
    have hreserved := Lacks.length? (Lacks.of_rule ⟨k, hmiss⟩)
    rw [Lexeme.length?] at hreserved ⊢
    rwa [hword]
  refine .seq habsent (.lexeme he (by rintro ⟨⟩)) fun {m b next} hm hread hnext _ _ => ?_
  rw [Reads, Peg.eval_lexeme, Lexeme.length?] at hread
  split at hread
  · cases hread
  · rename_i n hn
    cases hread
    have hle : m.offset ≤ e := Nat.le_trans (Nat.le_add_right _ n) hnext
    have hlength := Cursor.length_rest_cut (c := m) he
    change m.offset + n ≤ e at hnext
    split at hn
    · cases hn
      refine (Lexeme.takeWhile_of_append (y := source.drop e) ?_).trans ?_ <;> rw [← Cursor.rest_cut hle he]
      rw [hlength]
      change Text.spanLength _ _ ≤ _
      omega
    · cases hn

omit he in
/-- Before a list of parameters there is no name, also if blanks come first. -/
theorem lacks_identifier_of_gap {ps : List Sketch} (h : Finds (ref .params) c.skip ps next) :
    Lacks (ref .identifier) c := by
  cases hthere : Start.isThere c.rest .free with
  | false => exact ⟨2, misses_identifier hthere 0⟩
  | true =>
    rw [Cursor.skip_eq_of_start rfl hthere] at h
    exact h.lacks rfl

theorem stays_functionExpr : Stays d e follow (ref .functionExpr) := by
  refine .rule fun k _ => .build ?_
  have hasync : Stays k e (fun m : Cursor source => Lacks (ref .asyncWord *> gap : Pattern Text) (m.cut e))
      (present (ref .asyncWord *> gap)) :=
    .build (.option he rfl (.andThen (.rule fun _ _ => .lexeme he nofun) (stays_gap he)) fun _ _ h => h)
  have hstar {follow : Cursor source → Prop} : Stays k e follow (present (mark "*" *> gap)) := by
    refine .build (.option he rfl (.andThen (stays_mark he) (stays_gap he)) fun {c} hc hmiss _ => ?_)
    have hlacks : Lacks (mark "*") c := (lacks_of_untaken rfl hmiss).of_seq_gap
    exact .seq_missing (lacks_mark_cut he hc hlacks)
  have hword {follow : Cursor source → Prop} :
      Stays k e follow (ref .functionWord *> gap *> present (mark "*" *> gap)) :=
    .andThen (.andThen (.rule fun _ _ => .lexeme he nofun) (stays_gap he)) hstar
  have hname : Stays k e (fun m : Cursor source => ∃ ps n, Finds (ref .params) (m.cut e) ps n)
      (.option (ref .identifier) <* gap) := by
    have hoption : Stays k e (fun m : Cursor source => Lacks (ref .identifier) (m.cut e)) (.option (ref .identifier)) :=
      .option he rfl (stays_identifier he) fun _ _ h => h
    refine .seq hoption (stays_gap he) fun _ _ _ hparams hgap => ?_
    obtain ⟨ps, n, hparams⟩ := hparams
    exact lacks_identifier_of_gap (hgap.eq_skip ▸ hparams)
  have hparams : Stays k e (fun _ => True) (ref .params <* gap) := .andThen (stays_params he) (stays_gap he)
  refine .andThen (.seq (.andThen (.seq (.build hasync) hword ?_) hname) hparams ?_) (stays_block he)
  · exact fun _ _ _ _ hfound => hfound.lacks rfl
  · intro m ps next _ _ _ _ hfound
    obtain ⟨ps, n, -, hfound, -⟩ := hfound.of_seq
    exact ⟨ps, n, hfound⟩

omit he in
/-- A function expression does not begin with `async` if something else than `function` follows. -/
theorem lacks_functionExpr_of_identifier {l : Located} (h : Finds (ref .identifier) c l next)
    (hword : Lacks (ref .functionWord) next.skip) : Lacks (ref .functionExpr) c := by
  cases hasync : (Lexeme.exact "async" CodePoint.continuesName).length? c.rest with
  | none =>
    obtain ⟨s, hs, hthere⟩ := h.exists_start rfl
    obtain rfl := List.mem_singleton.mp hs
    have hbegins : Peg.begins (ref .functionExpr) = some [.lexeme (.exact "async" CodePoint.continuesName),
        .lexeme (.exact "function" CodePoint.continuesName)] := rfl
    refine Peg.lacks_of_begins hbegins fun s hs => ?_
    rcases List.mem_cons.mp hs with rfl | hs
    · simp [Start.isThere, hasync]
    · obtain rfl := List.mem_singleton.mp hs
      exact Start.isThere_of_excludes rfl hthere
  | some n =>
    obtain ⟨rest, hrest, rfl, hend⟩ := Lexeme.exists_of_exact hasync
    have hname := (reads_identifier (n := asyncName) (d := 0) hrest hend).finds
    cases h.unique hname
    have hbegin : c.atEnd = false := List.isEmpty_eq_false_iff.mpr (by rw [hrest]; exact List.cons_ne_nil _ _)
    have hword' : Finds (ref .asyncWord) c _ _ := .rule (.lexeme_found hasync)
    have hpresent : Finds (.option (ref .asyncWord *> gap)) c _ _ :=
      .option_found hbegin (hword'.seq_found (finds_gap _))
    have hmissing : Lacks (ref .functionWord *> gap *> present (mark "*" *> gap)) _ := .seq_missing (.seq_missing hword)
    exact .rule (.build_missing (.seq_missing (.seq_missing (.seq_missing
      (.seq_found_missing (.build_found (.build_found hpresent)) hmissing)))))

/-- A primary expression stays if no `function` comes next. -/
theorem stays_primary :
    Stays d e (fun m : Cursor source => Lacks (ref .functionWord) (m.cut e).skip) (ref .primary) := by
  have template {k} {follow : Cursor source → Prop} : Stays k e follow (ref .template) :=
    .rule fun _ _ => .build (.build (.bracketed "\x60" .template he rfl))
  have arrayLiteral {k} {follow : Cursor source → Prop} : Stays k e follow (ref .arrayLiteral) :=
    .rule fun _ _ => .build (.build (.bracketed "[" .code he rfl))
  have objectLiteral {k} {follow : Cursor source → Prop} : Stays k e follow (ref .objectLiteral) :=
    .rule fun _ _ => .build (.build (.bracketed "\x7b" .code he rfl))
  have parenExpr {k} {follow : Cursor source → Prop} : Stays k e follow (ref .parenExpr) :=
    .rule fun _ _ => .bracketed "(" .code he rfl
  have thisExpr {k} {follow : Cursor source → Prop} : Stays k e follow (ref .thisExpr) :=
    .rule fun _ _ => .build (.build (.lexeme he nofun))
  refine .rule fun k _ => .or (stays_literal he) (.or template (.or arrayLiteral (.or objectLiteral ?_ ?_) ?_) ?_) ?_
  · refine .either (stays_functionExpr he) (.or parenExpr (.or thisExpr (.build (stays_identifier he)) ?_) ?_) ?_
    · rfl
    · rfl
    · intro c v next _ _ _ hfunction hfound
      rcases hfound.of_either with hparen | ⟨-, hfound⟩
      · exact hparen.lacks rfl
      rcases hfound.of_either with hthis | ⟨-, hfound⟩
      · exact hthis.lacks rfl
      obtain ⟨l, hname, -⟩ := hfound.of_build
      exact lacks_functionExpr_of_identifier hname hfunction
  all_goals rfl

/-! ## Links -/

/-- A member access, as a link of a chain. -/
def memberLink : Pattern Link := Link.member <$> ref .memberDot <|> Link.index <$> ref .memberIndex

/-- Any link of a chain, and whether it is optional. -/
def chainLink : Pattern (Link × Bool) :=
  (fun arguments => (Link.call arguments, false)) <$> ref .arguments
    <|> (fun name => (Link.member name, false)) <$> ref .memberDot
    <|> (fun index => (Link.index index, false)) <$> ref .memberIndex
    <|> (fun link => (link, true)) <$> ref .optionalChain

/-- A member access with the blanks before it. -/
def memberTail : Pattern Tail := spanned ((fun link span => ⟨link, false, span.stop⟩) <$> (gap *> memberLink))

theorem stays_memberDot : Stays d e follow (ref .memberDot) := by
  refine .rule fun k _ => .andThen (.andThen (.andThen (stays_mark he) ?_) (stays_gap he)) (stays_propertyName he)
  exact .absent fun hc hmiss _ => lacks_mark_cut he hc ⟨k, hmiss⟩

theorem stays_memberTail : Stays d e follow memberTail :=
  .build (.build (.andThen (stays_gap he)
    (.or (.build (stays_memberDot he)) (.build (stays_memberIndex he)) rfl)))

theorem stays_optionalChain : Stays d e follow (ref .optionalChain) := by
  refine .rule fun k _ => .andThen (.andThen (.andThen (stays_mark he) ?_) (stays_gap he)) ?_
  · refine .absent fun {c} hc hmiss _ => .lexeme_missing ?_
    have hdigit := Lacks.length? ⟨k, hmiss⟩
    rw [Cursor.rest_cut hc he] at hdigit
    exact Lexeme.length?_eq_none_of_append rfl hdigit
  · exact .or (.build (stays_arguments he)) (.or (.build (stays_memberIndex he)) (.build (stays_propertyName he))
      rfl) rfl

theorem stays_callTail : Stays d e follow (ref .callTail) := by
  refine .rule fun k _ => .build (.build (.andThen (stays_gap he) ?_))
  exact .or (.build (stays_arguments he)) (.or (.build (stays_memberDot he)) (.or (.build (stays_memberIndex he))
    (.build (stays_optionalChain he)) rfl) rfl) rfl

end

end ScriptAudit
