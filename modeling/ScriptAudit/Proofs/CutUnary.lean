/-
Chains of calls and members, and the signs around them, when the source is cut off.
-/
import ScriptAudit.Proofs.CutOperands

namespace ScriptAudit

open ScriptGrammar

variable {source : Text} {α β γ : Type} {d e : Nat} {c m next : Cursor source} {follow : Cursor source → Prop}

/-! ## Links that follow -/

theorem Finds.of_callTail {tail : Tail} (h : Finds (ref .callTail) c tail next) :
    ∃ link, Finds chainLink c.skip link next := by
  obtain ⟨f, hbuilt, -⟩ := h.of_rule.of_build
  obtain ⟨link, hseq, -⟩ := hbuilt.of_build
  obtain ⟨-, link, hlink, -⟩ := hseq.of_gap
  exact ⟨link, hlink⟩

theorem lacks_callTail_iff : Lacks (ref .callTail) c ↔ Lacks chainLink c.skip :=
  ⟨fun h => h.of_rule.of_build.of_build.of_gap, fun h => .rule (.build_missing (.build_missing h.after_gap))⟩

theorem Finds.of_memberTail {tail : Tail} (h : Finds memberTail c tail next) :
    ∃ link, Finds memberLink c.skip link next := by
  obtain ⟨f, hbuilt, -⟩ := h.of_build
  obtain ⟨link, hseq, -⟩ := hbuilt.of_build
  obtain ⟨-, link, hlink, -⟩ := hseq.of_gap
  exact ⟨link, hlink⟩

theorem lacks_memberTail_iff : Lacks memberTail c ↔ Lacks memberLink c.skip :=
  ⟨fun h => h.of_build.of_build.of_gap, fun h => .build_missing (.build_missing h.after_gap)⟩

/-- Where no link follows, none of its kinds does. -/
theorem Lacks.of_chainLink (h : Lacks chainLink c) : Lacks memberLink c ∧ Lacks (ref .arguments) c := by
  obtain ⟨harguments, h⟩ := h.of_either
  obtain ⟨hdot, h⟩ := h.of_either
  obtain ⟨hindex, -⟩ := h.of_either
  exact ⟨.either_right (.build_missing hdot.of_build) (.build_missing hindex.of_build), harguments.of_build⟩

theorem Cursor.rest_skip_of_atEnd (h : c.atEnd = true) : c.skip.rest = [] := by
  rw [skip, Cursor.rest_advance, List.isEmpty_iff.mp h, List.drop_nil]

/-- What is not taken with the blanks before it is not there behind them. -/
theorem lacks_skip_of_untaken {p : Pattern α} {f : Text → α → β} (hp : p.needsText = true)
    (h : c.atEnd = true ∨ Misses d (.seq f gap p) c) : Lacks p c.skip := by
  rcases h with hend | hmiss
  · exact lacks_of_rest_eq_nil hp (Cursor.rest_skip_of_atEnd hend)
  · exact Lacks.of_gap ⟨d, hmiss⟩

theorem finds_many {p : Pattern α} {as : List α} (h : Runs (p.eval (scriptGrammar.eval d)) c as next)
    (hstop : Lacks p next) : Finds (.many p) c as next := by
  obtain ⟨d', hstop⟩ := hstop
  exact ⟨max d d', Reads.many (h.mono (Nat.le_max_left _ _)) (.inr (Misses.mono hstop (Nat.le_max_right _ _)))⟩

/-! ## Objects that are created -/

/-- What may come after `new` and a callee: if neither a member nor arguments could come, they cannot in the source that
is cut off. -/
def AfterNew (e : Nat) (m : Cursor source) : Prop :=
  Lacks memberLink m.skip → Lacks (ref .arguments) m.skip →
    Lacks memberLink (m.cut e).skip ∧ Lacks (ref .arguments) (m.cut e).skip ∧ Lacks (ref .functionWord) (m.cut e).skip

/-- What may come after a callee. -/
structure AfterCallee (e : Nat) (m : Cursor source) : Prop where
  member : Lacks memberLink (m.cut e).skip
  function : Lacks (ref .functionWord) (m.cut e).skip
  arguments : Lacks (ref .arguments) m.skip → Lacks (ref .arguments) (m.cut e).skip

/-- What links apply to. -/
def linkBase : Pattern Sketch := ref .newExpr <|> ref .primary

theorem stays_linkBase (he : e ≤ source.length) (hnew : Stays d e (AfterNew e : Cursor source → Prop) (ref .newExpr)) :
    Stays d e (fun m : Cursor source => AfterNew e m ∧ Lacks (ref .functionWord) (m.cut e).skip) linkBase :=
  .or (hnew.weaken fun _ h => h.1) ((stays_primary he).weaken fun _ h => h.2) rfl

/-- The callee of `new` goes on as long as members come. -/
theorem lacks_memberLink_of_newCallee {v : Sketch} (h : Reads d (ref .newCallee) c v next)
    (hc : c.offset ≤ source.length) : Lacks memberLink next.skip := by
  obtain ⟨k, -, h⟩ := h.of_rule
  obtain ⟨base, b, tails, hbase, htails, rfl⟩ := h.of_ap
  obtain ⟨-, hstop⟩ := htails.of_many (p := memberTail) rfl (hbase.le hc).2
  rcases hstop with hend | hmiss
  · exact lacks_of_rest_eq_nil rfl (Cursor.rest_skip_of_atEnd hend)
  · exact lacks_memberTail_iff.mp ⟨k, hmiss⟩

section

variable (he : e ≤ source.length)
include he

theorem stays_newCallee (hnew : ∀ k < d, Stays k e (AfterNew e : Cursor source → Prop) (ref .newExpr)) :
    Stays d e (AfterCallee e : Cursor source → Prop) (ref .newCallee) := by
  refine .rule fun k hk => ?_
  intro c v m hc hread hm hafter
  obtain ⟨base, b, tails, hbase, htails, rfl⟩ := hread.of_ap
  have hb := (hbase.le hc).2
  obtain ⟨hruns, -⟩ := htails.of_many (p := memberTail) rfl hb
  have hle := (htails.le hb).1
  obtain ⟨⟨depth, hruns⟩, hfirst⟩ := (stays_memberTail he).runs he hb hruns hm trivial fun _ _ _ => trivial
  have hfollow : AfterNew e b ∧ Lacks (ref .functionWord) (b.cut e).skip := by
    rcases hfirst with ⟨rfl, rfl⟩ | ⟨tail, m', hread, -, hfound⟩
    · exact ⟨fun _ harguments => ⟨hafter.member, hafter.arguments harguments, hafter.function⟩, hafter.function⟩
    · obtain ⟨link, hlink⟩ := hread.finds.of_memberTail
      obtain ⟨link', hlink'⟩ := hfound.of_memberTail
      refine ⟨fun hmember => ?_, hlink'.lacks rfl⟩
      cases hlink.unique hmember
  have hbase' := stays_linkBase he (hnew k (by omega)) hc hbase (by omega) hfollow
  exact .seq_found (.build_found hbase') (finds_many hruns (lacks_memberTail_iff.mpr hafter.member))

theorem stays_newExpr : Stays d e (AfterNew e : Cursor source → Prop) (ref .newExpr) := by
  induction d using Nat.strongRecOn with
  | ind d ih =>
    refine .rule fun k hk => .build ?_
    intro c v next hc hread hnext hafter
    obtain ⟨callee, m, arguments, hcallee, hoption, rfl⟩ := hread.of_ap
    have hm := (hcallee.le hc).2
    have hword : Stays k e (fun _ : Cursor source => True) (ref .newWord *> gap : Pattern Text) :=
      .andThen (.rule fun _ _ => .lexeme he nofun) (stays_gap he)
    have hstays : Stays k e (AfterCallee e : Cursor source → Prop) (ref .newWord *> gap *> ref .newCallee) :=
      .andThen hword (stays_newCallee he fun i hi => ih i (by omega))
    obtain ⟨_, b, _, hbegin, hlast, -⟩ := hcallee.of_seq
    have hmember := lacks_memberLink_of_newCallee hlast (hbegin.le hc).2
    rcases hoption.of_option with ⟨rfl, rfl, hmiss⟩ | ⟨arguments, rfl, hend, hread⟩
    · -- no arguments before, none after
      have hlacks := lacks_skip_of_untaken rfl hmiss
      obtain ⟨hmember', hlacks', hfunction⟩ := hafter hmember hlacks
      have hfound := hstays hc hcallee hnext ⟨hmember', hfunction, fun _ => hlacks'⟩
      exact .seq_found (.build_found hfound) (finds_option_none hlacks'.after_gap)
    · have hseq : Stays k e (fun _ : Cursor source => True) (gap *> ref .arguments) :=
        .andThen (stays_gap he) (stays_arguments he)
      have hfound := hseq hm hread hnext trivial
      have hlt := hread.lt hm rfl
      obtain ⟨-, args, harguments, -⟩ := hread.finds.of_gap
      obtain ⟨-, args', harguments', -⟩ := hfound.of_gap
      refine .seq_found (.build_found (hstays hc hcallee (by omega) ⟨?_, ?_, fun hlacks => ?_⟩))
        (.option_found (Cursor.atEnd_cut he (by omega)) hfound)
      · exact harguments'.lacks rfl
      · exact harguments'.lacks rfl
      · cases harguments.unique hlacks

end

/-! ## Chains of links -/

/-- Nothing goes on from an operand of the level: after the twelve levels of operators, calls and members are the
thirteenth. -/
structure Halts (level : Nat) (c : Cursor source) : Prop where
  function : Lacks (ref .functionWord) c.skip
  link : Lacks chainLink c.skip
  update : level ≤ 12 → Lacks (.lexeme .spaces *> ref .updateOp : Pattern UpdateOp) c
  operator : ∀ k, level ≤ k → k ≤ 11 → Lacks (rungOp k) c.skip

theorem Halts.mono {level level' : Nat} (h : Halts level c) (hle : level ≤ level') : Halts level' c where
  function := h.function
  link := h.link
  update hlevel := h.update (Nat.le_trans hle hlevel)
  operator k hk := h.operator k (Nat.le_trans hle hk)

/-- What is read with some of the links that follow it. -/
def Links (d : Nat) (c : Cursor source) (v : Sketch) (next : Cursor source) : Prop :=
  ∃ base m tails, Reads d linkBase c base m ∧ Runs ((ref .callTail).eval (scriptGrammar.eval d)) m tails next ∧
    v = base.extendAll tails

theorem Links.of_callMember {v : Sketch} (h : Reads d (ref .callMember) c v next) (hc : c.offset ≤ source.length) :
    ∃ k, k + 1 = d ∧ Links k c v next := by
  obtain ⟨k, hk, h⟩ := h.of_rule
  obtain ⟨base, m, tails, hbase, htails, rfl⟩ := h.of_ap
  have hruns := (htails.of_many rfl (hbase.le hc).2).1
  exact ⟨k, hk, base, m, tails, hbase, hruns, rfl⟩

theorem Links.callMember {v : Sketch} (h : Links d c v next) (hstop : Lacks chainLink next.skip) :
    Finds (ref .callMember) c v next := by
  obtain ⟨base, m, tails, hbase, htails, rfl⟩ := h
  exact .rule (.seq_found (.build_found hbase.finds) (finds_many htails (lacks_callTail_iff.mpr hstop)))

section

variable (he : e ≤ source.length)
include he

/-- What `new` creates stays before a link: where neither a member nor arguments could come, the link is optional. -/
theorem afterNew_of_callTail {tail : Tail} (hm : m.offset ≤ source.length) (h : Reads d (ref .callTail) m tail next)
    (hnext : next.offset ≤ e) : AfterNew e m ∧ Lacks (ref .functionWord) (m.cut e).skip := by
  have hskip : m.skip.offset ≤ source.length := (Reads.le (reads_gap (d := 0) rfl) hm).2
  have hfound := (stays_callTail he : Stays d e (fun _ => True) _) hm h hnext trivial
  obtain ⟨link, hlink'⟩ := hfound.of_callTail
  refine ⟨fun hmember harguments => ?_, hlink'.lacks rfl⟩
  obtain ⟨link, hlink⟩ := h.finds.of_callTail
  rcases hlink.of_either with hcall | ⟨-, hlink⟩
  · cases hcall.unique (.build_missing harguments)
  obtain ⟨hdot, hindex⟩ := hmember.of_either
  rcases hlink.of_either with hmember | ⟨-, hlink⟩
  · cases hmember.unique (.build_missing hdot.of_build)
  rcases hlink.of_either with hmember | ⟨-, hlink⟩
  · cases hmember.unique (.build_missing hindex.of_build)
  obtain ⟨link, ⟨depth, hoptional⟩, -⟩ := hlink.of_build
  have hle := (Reads.le hoptional hskip).1
  have hoptional' := (stays_optionalChain he : Stays depth e (fun _ => True) _) hskip hoptional hnext trivial
  rw [← Cursor.skip_cut he (by omega)] at hoptional'
  exact ⟨hoptional'.lacks rfl, hoptional'.lacks rfl, hoptional'.lacks rfl⟩

/-- **A chain of links stays.** -/
theorem Links.cut {v : Sketch} (h : Links d c v next) (hc : c.offset ≤ source.length) (hnext : next.offset ≤ e)
    (hhalts : Halts 13 (next.cut e)) : ∃ depth, Links depth (c.cut e) v (next.cut e) := by
  obtain ⟨base, m, tails, hbase, htails, rfl⟩ := h
  have hm := (hbase.le hc).2
  obtain ⟨⟨depth, hruns⟩, hfirst⟩ := (stays_callTail he).runs he hm htails hnext trivial fun _ _ _ => trivial
  have hfollow : m.offset ≤ e ∧ AfterNew e m ∧ Lacks (ref .functionWord) (m.cut e).skip := by
    rcases hfirst with ⟨rfl, rfl⟩ | ⟨tail, m', hread, hm', hfound⟩
    · obtain ⟨hmember, harguments⟩ := hhalts.link.of_chainLink
      exact ⟨hnext, fun _ _ => ⟨hmember, harguments, hhalts.function⟩, hhalts.function⟩
    · have hle := (hread.le hm).1
      exact ⟨by omega, afterNew_of_callTail he hm hread hm'⟩
  obtain ⟨depth', hbase'⟩ := stays_linkBase he (stays_newExpr he) hc hbase hfollow.1 hfollow.2
  exact ⟨max depth depth', base, m.cut e, tails, Reads.mono hbase' (Nat.le_max_right _ _),
    hruns.mono (Nat.le_max_left _ _), rfl⟩

theorem stays_callMember : Stays d e (fun m : Cursor source => Halts 13 (m.cut e)) (ref .callMember) := by
  intro c v next hc hread hnext hhalts
  obtain ⟨k, -, hlinks⟩ := Links.of_callMember hread hc
  obtain ⟨depth, hlinks'⟩ := hlinks.cut he hc hnext hhalts
  exact hlinks'.callMember hhalts.link

end

/-! ## Signs and updates -/

theorem triviaLength_of_spaces (t : Text) :
    Lexeme.triviaLength t = Text.spanLength (fun c => c == ' ' || c == '\t') t +
      Lexeme.triviaLength (t.drop (Text.spanLength (fun c => c == ' ' || c == '\t') t)) := by
  induction t with
  | nil => rfl
  | cons c t ih =>
    cases hc : c == ' ' || c == '\t' with
    | true =>
      have hblank : c.isBlank = true := by
        simp only [Bool.or_eq_true, beq_iff_eq] at hc
        rcases hc with rfl | rfl <;> decide
      have hspan : Text.spanLength (fun c => c == ' ' || c == '\t') (c :: t) =
          Text.spanLength (fun c => c == ' ' || c == '\t') t + 1 := by
        simp [Text.spanLength, hc]
      rw [hspan, List.drop_succ_cons, Lexeme.triviaLength, Lexeme.triviaFrom, if_pos hblank]
      change Lexeme.triviaLength t + 1 = _
      omega
    | false =>
      have hspan : Text.spanLength (fun c => c == ' ' || c == '\t') (c :: t) = 0 := by
        simp [Text.spanLength, hc]
      rw [hspan, List.drop_zero, Nat.zero_add]

/-- The place behind spaces and tabs. -/
def Cursor.skipSpaces (c : Cursor source) : Cursor source :=
  c.advance (Text.spanLength (fun c => c == ' ' || c == '\t') c.rest)

theorem Cursor.skip_skipSpaces (c : Cursor source) : c.skipSpaces.skip = c.skip := by
  refine Cursor.ext_offset ?_
  have := triviaLength_of_spaces c.rest
  simp only [skip, skipSpaces, Cursor.advance]
  omega

theorem finds_spaces (c : Cursor source) : ∃ a, Finds (.lexeme .spaces : Pattern Text) c a c.skipSpaces :=
  ⟨_, .lexeme_found rfl⟩

/-- Where an update begins after spaces and tabs, nothing else is to be skipped. -/
theorem Cursor.skipSpaces_eq_skip {s : Start} (hs : s.isSolid = true) (h : s.isThere c.skipSpaces.rest = true) :
    c.skipSpaces = c.skip := by
  rw [← Cursor.skip_skipSpaces, Cursor.skip_eq_of_start hs h]

/-- What an update begins with. -/
def updateStarts : List Start := ((ref .updateOp).begins).getD []

theorem begins_updateOp : (ref .updateOp).begins = some updateStarts := rfl

theorem isSolid_updateStarts : (updateStarts.all Start.isSolid) = true := rfl

theorem Finds.of_update {op : UpdateOp} (h : Finds (.lexeme .spaces *> ref .updateOp : Pattern UpdateOp) c op next) :
    Finds (ref .updateOp) c.skip op next := by
  obtain ⟨_, m, op, hspaces, hop, rfl⟩ := h.of_seq
  obtain ⟨_, hspaces'⟩ := finds_spaces c
  cases hspaces.unique hspaces'
  obtain ⟨s, hs, hthere⟩ := hop.exists_start begins_updateOp
  rwa [Cursor.skipSpaces_eq_skip (List.all_eq_true.mp isSolid_updateStarts s hs) hthere] at hop

theorem lacks_update (h : Lacks (ref .updateOp) c.skip) :
    Lacks (.lexeme .spaces *> ref .updateOp : Pattern UpdateOp) c := by
  obtain ⟨_, hspaces⟩ := finds_spaces c
  refine .seq_found_missing hspaces ?_
  by_cases hthere : ∃ s ∈ updateStarts, s.isThere c.skipSpaces.rest = true
  · obtain ⟨s, hs, hthere⟩ := hthere
    rwa [Cursor.skipSpaces_eq_skip (List.all_eq_true.mp isSolid_updateStarts s hs) hthere]
  · refine Peg.lacks_of_begins begins_updateOp fun s hs => ?_
    by_contra hs'
    exact hthere ⟨s, hs, Bool.of_not_eq_false hs'⟩

/-! ## What operators end -/

theorem Halts.of_rest_eq_nil (h : c.rest = []) (level : Nat) : Halts level c := by
  have hskip : c.skip.rest = [] := Cursor.rest_skip_of_atEnd (List.isEmpty_iff.mpr h)
  have hops : ((List.range 12).all fun k => (rungOp k).needsText) = true := rfl
  exact
    { function := lacks_of_rest_eq_nil rfl hskip
      link := lacks_of_rest_eq_nil rfl hskip
      update := fun _ => lacks_update (lacks_of_rest_eq_nil rfl hskip)
      operator := fun k _ hk =>
        lacks_of_rest_eq_nil (List.all_eq_true.mp hops k (List.mem_range.mpr (by omega))) hskip }

/-- Nothing but looser operators begins as an operator does. -/
theorem rungOp_bars : ((List.range 12).all fun k => k == 0 || (rungOp k).bars (ref .functionWord) &&
    (rungOp k).bars chainLink && (rungOp k).bars (ref .updateOp) &&
      (List.range 12).all fun l => l ≤ k || (rungOp k).bars (rungOp l)) = true := by rfl

/-- An operand ends before a looser operator. -/
theorem Halts.of_operator {k level : Nat} (hk : 1 ≤ k ∧ k ≤ 11) (hlevel : k < level) {op : InfixOp}
    (h : Finds (rungOp k) c.skip op next) : Halts level c := by
  have hbars := List.all_eq_true.mp rungOp_bars k (List.mem_range.mpr (by omega))
  have hzero : (k == 0) = false := by simp; omega
  rw [hzero, Bool.false_or] at hbars
  simp only [Bool.and_eq_true] at hbars
  obtain ⟨⟨⟨hfunction, hlink⟩, hupdate⟩, hops⟩ := hbars
  refine ⟨h.lacks hfunction, h.lacks hlink, fun _ => lacks_update (h.lacks hupdate), fun l hl hmax => ?_⟩
  have hbars := List.all_eq_true.mp hops l (List.mem_range.mpr (by omega))
  rw [Bool.or_eq_true, decide_eq_true_iff] at hbars
  exact h.lacks (hbars.resolve_left (by omega))

theorem Halts.of_update {op : UpdateOp} (h : Finds (ref .updateOp) c.skip op next) : Halts 13 c where
  function := h.lacks rfl
  link := h.lacks rfl
  update hlevel := absurd hlevel (by omega)
  operator k hk hmax := absurd hk (by omega)

section

variable (he : e ≤ source.length)
include he

theorem stays_updateOp : Stays d e follow (ref .updateOp) :=
  .rule fun _ _ => .or (.build (.lexeme he nofun)) (.build (.lexeme he nofun)) rfl

theorem stays_unaryOp : Stays d e follow (ref .unaryOp) := by
  have lexeme {k} {l : Lexeme} {op : UnaryOp} (hl : l ≠ .chunk) :
      Stays k e follow ((fun _ => op) <$> .lexeme l : Pattern UnaryOp) := .build (.lexeme he hl)
  refine .rule fun k _ => .or (lexeme nofun) (.or (lexeme nofun) (.or (lexeme nofun) (.or (lexeme nofun)
    (.or (lexeme nofun) (.or (lexeme nofun) (lexeme nofun) ?_) ?_) ?_) ?_) ?_) ?_
  all_goals rfl

/-- **An operand with its signs stays.** -/
theorem stays_unary : Stays d e (fun m : Cursor source => Halts 12 (m.cut e)) (rung 12) := by
  induction d using Nat.strongRecOn with
  | ind d ih =>
    have hupdate {k} :
        Stays k e (fun _ : Cursor source => True) (.lexeme .spaces *> ref .updateOp : Pattern UpdateOp) :=
      .andThen (.lexeme he nofun) (stays_updateOp he)
    refine .rule fun k hk => .or ?await (.or ?prefixUpdate (.or ?prefixUnary ?postfixExpr ?_) ?_) ?_
    case await =>
      refine .rule fun i hi =>
        .build (.build (.andThen (.andThen (.rule fun _ _ => .lexeme he nofun) (stays_gap he)) ?_))
      exact ih i (by omega)
    case prefixUpdate =>
      refine .rule fun i hi => .build (.andThen (.build (.andThen (stays_updateOp he) (stays_gap he))) ?_)
      exact ih i (by omega)
    case prefixUnary =>
      refine .rule fun i hi => .build (.andThen (.build (.andThen (stays_unaryOp he) (stays_gap he))) ?_)
      exact ih i (by omega)
    case postfixExpr =>
      refine .rule fun i hi => .build (.seq (.build (stays_callMember he)) (.option he rfl ?_ ?_) ?_)
      · exact hupdate.weaken fun _ _ => trivial
      · exact fun _ _ h => h.update (Nat.le_refl _)
      · intro m o next hm hread hnext hhalts _
        rcases hread.of_option with ⟨rfl, rfl, -⟩ | ⟨op, rfl, -, hread⟩
        · exact hhalts.mono (by omega)
        · exact .of_update (hupdate hm hread hnext trivial).of_update
    all_goals rfl

end

end ScriptAudit
