/-
The edges of operands. Brackets around an expression leave no trace in its tree, so the span of a tree may be less than
the text that was read for it. If so, brackets tell: behind the place where the span starts one is closed that was not
opened there, and before the place where it stops one was opened that is not closed there (`Edges`).

On the way from one bracketed expression out to the next, each rule makes a node that spans all of its text, or hands
on the edges of what it reads first and last (`edged_expr`).
-/
import ScriptAudit.Proofs.WholeExpression

namespace ScriptAudit

open ScriptGrammar

variable {source : Text} {α β : Type} {d s e : Nat} {c m next : Cursor source} {span : Span}

/-! ## Brackets that are missing -/

/-- From the offset on, a bracket is closed before `next` that was not opened there. -/
def Unopened (s : Nat) (next : Cursor source) : Prop :=
  ∃ k t, Mode.code.closedBy k = true ∧ Scans [.code] (source.drop s) [.code] (k :: t) ∧ next.rest.length ≤ t.length

/-- From `c` up to the offset, a bracket is opened that is not closed there. -/
def Unclosed (c : Cursor source) (e : Nat) : Prop :=
  ∃ modes, 1 < modes.length ∧ Scans [.code] c.rest modes (source.drop e)

theorem Unopened.mono (h : Unopened s m) (hle : next.rest.length ≤ m.rest.length) : Unopened s next := by
  obtain ⟨k, t, hk, hscans, hm⟩ := h
  exact ⟨k, t, hk, hscans, Nat.le_trans hle hm⟩

theorem Unclosed.of_scans (h : Unclosed m e) (hscans : Scans [.code] c.rest [.code] m.rest) : Unclosed c e := by
  obtain ⟨modes, hmodes, hm⟩ := h
  exact ⟨modes, hmodes, hscans.trans hm⟩

theorem Unclosed.le (h : Unclosed c e) (hc : c.offset ≤ source.length) : c.offset ≤ e := by
  obtain ⟨modes, -, hscans⟩ := h
  have hlength := hscans.length_le
  rw [c.length_rest, List.length_drop] at hlength
  omega

/-- The text from the start of a span on is that of the span and what comes after it. -/
theorem Text.drop_eq_slice_append (t : Text) (h : s ≤ e) : t.drop s = t.slice ⟨s, e⟩ ++ t.drop e := by
  have hsplit := List.take_append_drop (e - s) (t.drop s)
  rw [List.drop_drop, Nat.add_sub_cancel' h] at hsplit
  exact hsplit.symm

/-- A text in which a bracket is closed that was not opened is not balanced. -/
theorem Unopened.isBalanced_eq_false (h : Unopened s m) (hm : m.offset ≤ source.length) (he : m.offset ≤ e) :
    (source.slice ⟨s, e⟩).isBalanced = false := by
  obtain ⟨k, t, hk, hscans, ht⟩ := h
  have hlength := hscans.length_le
  rw [m.length_rest] at ht
  rw [List.length_cons, List.length_drop] at hlength
  have hrest : source.drop e <:+ t := by
    have hsuffix : t <:+ source := (List.suffix_cons k t).trans (hscans.suffix.trans (List.drop_suffix s source))
    refine List.suffix_of_suffix_length_le (List.drop_suffix e source) hsuffix ?_
    rw [List.length_drop]
    omega
  obtain ⟨w, rfl⟩ := hrest
  rw [Text.drop_eq_slice_append source (by omega : s ≤ e), ← List.cons_append] at hscans
  rw [← Bool.not_eq_true, Text.isBalanced_iff]
  intro hbalanced
  cases (hscans.of_append.unique (scan_closed hk w) hbalanced (scan_nil _)).2

/-- Neither is one in which a bracket is opened that is not closed. -/
theorem Unclosed.isBalanced_eq_false (h : Unclosed c e) (hc : c.offset ≤ source.length) :
    (source.slice ⟨c.offset, e⟩).isBalanced = false := by
  have hle := h.le hc
  obtain ⟨modes, hmodes, hscans⟩ := h
  rw [c.rest_eq, Text.drop_eq_slice_append source hle] at hscans
  have hinside : Scans [.code] (source.slice ⟨c.offset, e⟩) modes [] := hscans.of_append
  rw [← Bool.not_eq_true, Text.isBalanced_iff]
  intro hbalanced
  obtain ⟨rfl, -⟩ := hinside.unique (scan_nil _) hbalanced (scan_nil _)
  exact absurd hmodes (by decide)

/-! ## Edges -/

/-- The span is the text that was read, but for brackets that are missing in it. -/
structure Edges (c : Cursor source) (span : Span) (next : Cursor source) : Prop where
  start : span.start = c.offset ∨ Unopened span.start next
  stop : span.stop = next.offset ∨ Unclosed c span.stop

theorem Edges.le_stop (h : Edges c span next) (hle : c.offset ≤ next.offset) (hc : c.offset ≤ source.length) :
    c.offset ≤ span.stop := by
  rcases h.stop with hstop | hunclosed
  · rwa [hstop]
  · exact hunclosed.le hc

/-- What the pattern reads has edges. -/
def Edged (source : Text) (d : Nat) (p : Pattern α) (f : α → Span) : Prop :=
  ∀ ⦃c : Cursor source⦄ ⦃a next⦄, c.offset ≤ source.length → Reads d p c a next → Edges c (f a) next

namespace Edged

variable {f : α → Span} {g : β → Span}

theorem rule {r : Rule} {f : Yield r → Span} (h : ∀ k, k + 1 = d → Edged source k (scriptGrammar r) f) :
    Edged source d (ref r) f := by
  intro c a next hc hread
  obtain ⟨k, hk, hread⟩ := hread.of_rule
  exact h k hk hc hread

theorem or {p q : Pattern α} (hp : Edged source d p f) (hq : Edged source d q f) : Edged source d (p <|> q) f := by
  intro c a next hc hread
  rcases hread.of_either with hread | ⟨-, hread⟩
  · exact hp hc hread
  · exact hq hc hread

theorem map {p : Pattern α} {h : α → β} (hp : Edged source d p f) (hh : ∀ a, g (h a) = f a) :
    Edged source d (h <$> p) g := by
  intro c b next hc hread
  obtain ⟨a, hbuilt, rfl⟩ := hread.of_build
  rw [hh]
  exact hp hc hbuilt

/-- What is built at the span of its match spans all of it. -/
theorem whole {p : Pattern α} {h : Span → α → β} (hh : ∀ span a, g (h span a) = span) :
    Edged source d (.build h p) g := by
  intro c b next _ hread
  obtain ⟨a, -, rfl⟩ := hread.of_build
  rw [hh]
  exact ⟨.inl rfl, .inl rfl⟩

/-- A rule that makes something of its own only if more comes. -/
theorem handsOn {p : Pattern Sketch} {q : Pattern α} {f : Span → Sketch → Option α → Sketch}
    (hp : Edged source d p Node.span) (hnone : ∀ span v, f span v none = v)
    (hsome : ∀ span v a, (f span v (some a)).span = span) :
    Edged source d (spanned ((fun v a span => f span v a) <$> p <*> .option q)) Node.span := by
  intro c v next hc hread
  obtain ⟨_, hbuilt, rfl⟩ := hread.of_build
  obtain ⟨v, m, a, hv, ha, rfl⟩ := hbuilt.of_ap
  rcases ha.of_option with ⟨rfl, rfl, -⟩ | ⟨a, rfl, -, -⟩
  · simp only [hnone]
    exact hp hc hv
  · simp only [hsome]
    exact ⟨.inl rfl, .inl rfl⟩

/-- Behind the opening bracket the closing one is not opened, and before the closing one the opening one is not
closed. -/
theorem paren (hexpr : Edged source d (ref .expr) Node.span) : Edged source d parenExpr Node.span := by
  intro c v next hc hread
  obtain ⟨_, m₃, _, hleft, hclose, rfl⟩ := hread.of_seq
  obtain ⟨_, m₂, _, hleft, hgap, rfl⟩ := hleft.of_seq
  obtain ⟨_, m₁, v, hopen, hinner, rfl⟩ := hleft.of_seq
  have hm₁ := (hopen.le hc).2
  have hopens : Scans [.code] c.rest [.code, .code] m₁.rest := hopen.scans rfl
  have hinside : Scans [.code] m₁.rest [.code] m₂.rest := hinner.scans rfl
  have hblanks : Scans [.code] m₂.rest [.code] m₃.rest := hgap.scans rfl
  obtain ⟨t, hrest, hnext⟩ : ∃ t, m₃.rest = CodePoint.ofChar ')' :: t ∧ next.rest = t := by
    obtain ⟨n, hn, rfl⟩ := hclose.finds.of_lexeme
    obtain ⟨t, hrest, rfl, -⟩ := Lexeme.exists_of_exact hn
    exact ⟨t, hrest, by rw [Cursor.rest_advance, hrest]; rfl⟩
  have hedges := hexpr hm₁ hinner
  -- on each side, the bracket that is missing is this one or one further in
  refine ⟨.inr ?_, .inr ?_⟩
  · rcases hedges.start with hstart | hunopened
    · refine ⟨CodePoint.ofChar ')', t, by decide, ?_, Nat.le_of_eq (congrArg List.length hnext)⟩
      rw [hstart, ← m₁.rest_eq, ← hrest]
      exact hinside.trans hblanks
    · refine hunopened.mono ?_
      have hlength := hblanks.length_le
      rw [hrest, List.length_cons] at hlength
      rw [hnext]
      omega
  · rcases hedges.stop with hstop | ⟨modes, hmodes, hscans⟩
    · refine ⟨[.code, .code], by decide, ?_⟩
      rw [hstop, ← m₂.rest_eq]
      exact hopens.trans (hinside.append [.code])
    · have hscans : Scans [.code, .code] m₁.rest (modes ++ [.code]) (source.drop v.span.stop) := hscans.append [.code]
      refine ⟨modes ++ [.code], ?_, hopens.trans hscans⟩
      rw [List.length_append]
      omega

end Edged

/-! ## Calls and members -/

/-- A link ends where its match does. -/
theorem Reads.stop_callTail {tail : Tail} (h : Reads d (ref .callTail) c tail next) : tail.stop = next.offset := by
  obtain ⟨k, -, hbody⟩ := h.of_rule
  obtain ⟨_, hbuilt, rfl⟩ := hbody.of_build
  obtain ⟨_, -, rfl⟩ := hbuilt.of_build
  rfl

theorem Sketch.extendAll_append (v : Sketch) (tails : List Tail) (tail : Tail) :
    v.extendAll (tails ++ [tail]) = (v.extendAll tails).extend tail := by
  rw [extendAll, List.foldl_append]
  rfl

theorem Links.edges {v : Sketch} (h : Links d c v next) (hc : c.offset ≤ source.length)
    (hbase : Edged source d linkBase Node.span) : Edges c v.span next := by
  obtain ⟨base, m, tails, hread, hruns, rfl⟩ := h
  induction hruns with
  | nil => exact hbase hc hread
  | @snoc tails tail m' next hruns hm htail hmoves ih =>
    rw [Sketch.extendAll_append]
    refine ⟨?_, .inl (Reads.stop_callTail htail)⟩
    rcases ih.start with hstart | hunopened
    · exact .inl hstart
    · refine .inr (hunopened.mono ?_)
      rw [m'.length_rest, next.length_rest]
      omega

/-! ## Operators -/

theorem Sketch.span_applied (l : Sketch) (op : InfixOp) (r : Sketch) :
    (l.applied op r).span = ⟨l.span.start, r.span.stop⟩ := by
  cases op <;> rfl

theorem rung_leads (level : Nat) : (rung level).leads Rule.mode [.code] = some [.code] := by
  unfold rung
  split <;> rfl

theorem spaced_rungOp_leads (level : Nat) : (spaced (rungOp level)).leads Rule.mode [.code] = some [.code] := by
  unfold rungOp
  split <;> rfl

theorem Spine.scans {level : Nat} {v : Sketch} (h : Spine (rung (level + 1)) (rungOp level) d c v next) :
    Scans [.code] c.rest [.code] next.rest := by
  induction h with
  | first h => exact h.scans (rung_leads _)
  | step _ _ hop hr _ ih => exact (ih.trans (hop.scans (spaced_rungOp_leads _))).trans (hr.scans (rung_leads _))

theorem Spine.edges {level : Nat} {v : Sketch} (h : Spine (rung (level + 1)) (rungOp level) d c v next)
    (hc : c.offset ≤ source.length) (hoperand : Edged source d (rung (level + 1)) Node.span) :
    Edges c v.span next := by
  induction h with
  | first h => exact hoperand hc h
  | @step l r op m m' next hl hm hop hr hmoves ih =>
    have hm' := (hop.le (hl.le hc).2).2
    have hscans := hl.scans.trans (hop.scans (spaced_rungOp_leads level))
    rw [Sketch.span_applied]
    refine ⟨?_, ?_⟩
    · rcases ih.start with hstart | hunopened
      · exact .inl hstart
      · exact .inr (hunopened.mono (by rw [m.length_rest, next.length_rest]; omega))
    · rcases (hoperand hm' hr).stop with hstop | hunclosed
      · exact .inl hstop
      · exact .inr (hunclosed.of_scans hscans)

/-! ## Expressions -/

theorem edged_literal : Edged source d (ref .literal) Node.span :=
  have located {r : Rule} {f : Yield r → Span} (h : ∀ k, Edged source k (scriptGrammar r) f) {k} :
      Edged source k (ref r) f := .rule fun _ _ => h _
  .rule fun _ _ => .or (.map (located fun _ => .whole fun _ _ => rfl) fun _ => rfl)
    (.or (.map (located fun _ => .whole fun _ _ => rfl) fun _ => rfl)
      (.or (.rule fun _ _ => .whole fun _ _ => rfl) (.rule fun _ _ => .whole fun _ _ => rfl)))

section

variable (hexpr : ∀ k < d, Edged source k (ref .expr) Node.span)
include hexpr

theorem edged_primary : Edged source d (ref .primary) Node.span := by
  refine .rule fun k hk => .or edged_literal (.or ?_ (.or ?_ (.or ?_ (.or ?_ (.or ?paren (.or ?_ ?name))))))
  case paren => exact .rule fun i hi => .paren (hexpr i (by omega))
  case name => exact .map (.rule fun _ _ => .whole fun _ _ => rfl) fun _ => rfl
  all_goals exact .rule fun _ _ => .whole fun _ _ => rfl

theorem edged_linkBase : Edged source d linkBase Node.span :=
  .or (.rule fun _ _ => .whole fun _ _ => rfl) (edged_primary hexpr)

theorem edged_callMember : Edged source d (ref .callMember) Node.span := by
  intro c v next hc hread
  obtain ⟨k, hk, hlinks⟩ := Links.of_callMember hread hc
  exact hlinks.edges hc (edged_linkBase fun i hi => hexpr i (by omega))

theorem edged_unary : Edged source d (ref .unary) Node.span := by
  refine .rule fun k hk => .or ?_ (.or ?_ (.or ?_ ?postfixExpr))
  case postfixExpr =>
    exact .rule fun i hi => .handsOn (edged_callMember fun l hl => hexpr l (by omega)) (fun _ _ => rfl) fun _ _ _ => rfl
  all_goals exact .rule fun _ _ => .whole fun _ _ => rfl

theorem edged_rung {level j : Nat} (hlevel : 1 ≤ level) (hj : level + j = 12) :
    Edged source d (rung level) Node.span := by
  induction j generalizing level d with
  | zero =>
    obtain rfl : level = 12 := by omega
    exact edged_unary hexpr
  | succ j ih =>
    rcases Nat.lt_or_ge level 11 with hlt | hge
    · intro c v next hc hread
      obtain ⟨k, hk, hspine⟩ := spine_of_rung ⟨hlevel, by omega⟩ hc hread
      exact hspine.edges hc (ih (fun i hi => hexpr i (by omega)) (by omega) (by omega))
    · obtain rfl : level = 11 := by omega
      exact .rule fun k hk => .handsOn (edged_unary fun i hi => hexpr i (by omega)) (fun _ _ => rfl) fun _ _ _ => rfl

theorem edged_assignExpr : Edged source d (ref .assignExpr) Node.span := by
  refine .rule fun k hk => .or ?_ (.or ?_ ?conditional)
  case conditional =>
    refine .rule fun i hi => .handsOn ?_ (fun _ _ => rfl) fun _ _ _ => rfl
    exact edged_rung (fun l hl => hexpr l (by omega)) (Nat.le_refl 1) (rfl : 1 + 11 = 12)
  all_goals exact .rule fun _ _ => .whole fun _ _ => rfl

end

theorem Runs.eq_of_nil {step : Cursor source → Option (Reply source α)} (h : Runs step c [] next) : next = c := by
  generalize has : ([] : List α) = as at h
  cases h with
  | nil => rfl
  | snoc => exact absurd has.symm (List.append_ne_nil_of_right_ne_nil _ (List.cons_ne_nil _ _))

/-- **Expressions have edges.** -/
theorem edged_expr (d : Nat) : Edged source d (ref .expr) Node.span := by
  -- brackets lead back to expressions, a few rules deeper
  induction d using Nat.strongRecOn with
  | ind d hexpr =>
    refine .rule fun k hk => ?_
    intro c v next hc hread
    obtain ⟨_, hbuilt, rfl⟩ := hread.of_build
    obtain ⟨first, m, rest, hfirst, hrest, rfl⟩ := hbuilt.of_ap
    cases rest with
    | nil =>
      obtain ⟨hruns, -⟩ := hrest.of_many rfl (hfirst.le hc).2
      obtain rfl := hruns.eq_of_nil
      exact edged_assignExpr (fun i hi => hexpr i (by omega)) hc hfirst
    | cons second rest => exact ⟨.inl rfl, .inl rfl⟩

end ScriptAudit
