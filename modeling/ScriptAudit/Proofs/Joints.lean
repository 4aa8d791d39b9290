/-
Joints and their texts. A node that puts an operator or a link between its children was read as part of a chain of
operands, as a power, or as part of a chain of links (`Joint`, `allJoints_of_reads`). If the source is cut off behind
it, what is left from its beginning on is an expression, and this very node (`Joint.finds_expr`). If the brackets in
the span of the node are balanced, the span is all that was read for it (`Joint.span_eq`).
-/
import ScriptAudit.Proofs.MadeNodes
import ScriptAudit.Proofs.OperandEdges

namespace ScriptAudit

open ScriptGrammar

variable {source : Text} {α : Type} {d : Nat} {c m next : Cursor source} {v : Sketch}

/-! ## Joints -/

/-- The ways to read a joint. Only a power has the span of its match. -/
inductive Joint : Cursor source → Sketch → Cursor source → Prop
  | operator {level d : Nat} {c m m' next : Cursor source} {l r : Sketch} {op : InfixOp}
    (hlevel : 1 ≤ level ∧ level ≤ 10) (hl : Spine (rung (level + 1)) (rungOp level) d c l m) (hm : m.atEnd = false)
    (hop : Reads d (spaced (rungOp level)) m op m') (hr : Reads d (rung (level + 1)) m' r next)
    (hmoves : m.offset < next.offset) : Joint c (l.applied op r) next
  | power {d : Nat} {c next : Cursor source} {v : Sketch} (h : Reads d (rung 11) c v next)
    (hspan : v.span = ⟨c.offset, next.offset⟩) : Joint c v next
  | link {d : Nat} {c m next : Cursor source} {object : Sketch} {tail : Tail} (hobject : Links d c object m)
    (hm : m.atEnd = false) (htail : Finds (ref .callTail) m tail next) (hmoves : m.offset < next.offset) :
    Joint c (object.extend tail) next

/-- A chain with one link more. -/
theorem Links.extend {tail : Tail} (h : Links d c v m) (hm : m.atEnd = false)
    (htail : Finds (ref .callTail) m tail next) (hmoves : m.offset < next.offset) :
    ∃ depth, Links depth c (v.extend tail) next := by
  obtain ⟨base, b, tails, hbase, hruns, rfl⟩ := h
  obtain ⟨d', htail⟩ := htail
  refine ⟨max d d', base, b, tails ++ [tail], Reads.mono hbase (Nat.le_max_left _ _), ?_,
    (Sketch.extendAll_append _ _ _).symm⟩
  exact .snoc (hruns.mono (Nat.le_max_left _ _)) hm (Reads.mono htail (Nat.le_max_right _ _)) hmoves

theorem Links.le (h : Links d c v next) (hc : c.offset ≤ source.length) :
    c.offset ≤ next.offset ∧ next.offset ≤ source.length := by
  obtain ⟨base, m, tails, hbase, hruns, rfl⟩ := h
  induction hruns with
  | nil => exact hbase.le hc
  | snoc _ _ htail hmoves ih => exact ⟨by omega, (Reads.le htail ih.2).2⟩

theorem Joint.le (h : Joint c v next) (hc : c.offset ≤ source.length) :
    c.offset ≤ next.offset ∧ next.offset ≤ source.length := by
  cases h with
  | operator _ hl hm hop hr hmoves => exact (Spine.step hl hm hop hr hmoves).le hc
  | power h _ => exact h.le hc
  | link hobject hm htail hmoves =>
    obtain ⟨depth, hlinks⟩ := hobject.extend hm htail hmoves
    exact hlinks.le hc

/-! ## Their texts -/

theorem finds_unary_of_callMember (h : Finds (ref .callMember) c v next) (hhalts : Halts 12 next) :
    Finds (ref .unary) c v next :=
  have hpostfix : Finds (ref .postfixExpr) c v next :=
    .rule (.build_found (.seq_found (.build_found h) (finds_option_none (hhalts.update (Nat.le_refl _)))))
  .rule (.either_right (h.lacks rfl) (.either_right (h.lacks rfl) (.either_right (h.lacks rfl) hpostfix)))

theorem Cursor.rest_cut_self (c : Cursor source) : (c.cut c.offset).rest = [] :=
  List.drop_eq_nil_of_le (List.length_take_le _ _)

/-- **What was read for a joint is an expression**, if the source is cut off behind it. -/
theorem Joint.finds_expr (h : Joint c v next) (hc : c.offset ≤ source.length) :
    Finds (ref .expr) (c.cut next.offset) v (next.cut next.offset) := by
  have hle := h.le hc
  have he := hle.2
  have hend := next.rest_cut_self
  -- behind the cut there is nothing that an operand could go on with
  have hhalts : ∀ level, Halts level (next.cut next.offset) := Halts.of_rest_eq_nil hend
  have hc' : (c.cut next.offset).offset ≤ (source.take next.offset).length := by
    rw [List.length_take_of_le he]
    exact hle.1
  cases h with
  | @operator level d c m m' next l r op hlevel hl hm hop hr hmoves =>
    have hspine := Spine.step hl hm hop hr hmoves
    have hoperand := stays_rung he (d := d) (Nat.succ_le_succ (Nat.zero_le level)) (j := 11 - level) (by omega)
    obtain ⟨depth, hspine'⟩ := hspine.cut he hlevel hoperand hc (Nat.le_refl _) (hhalts _)
    have hrung := hspine'.finds_rung hlevel ((hhalts level).operator level (Nat.le_refl _) (by omega))
    exact finds_expr_of_rung hlevel.1 (j := 12 - level) (by omega) hc' hrung hend
  | power h _ =>
    have hrung := stays_exponent he hc h (Nat.le_refl _) (hhalts _)
    exact finds_expr_of_rung (by decide : 1 ≤ 11) (rfl : 11 + 1 = 12) hc' hrung hend
  | link hobject hm htail hmoves =>
    obtain ⟨depth, hlinks⟩ := hobject.extend hm htail hmoves
    obtain ⟨depth', hlinks'⟩ := hlinks.cut he hc (Nat.le_refl _) (hhalts _)
    have hunary := finds_unary_of_callMember (hlinks'.callMember (hhalts 13).link) (hhalts _)
    exact finds_expr_of_rung (by decide : 1 ≤ 12) (rfl : 12 + 0 = 12) hc' hunary hend

/-! ## Their spans -/

/-- If the brackets between them are balanced, edges lie where the match begins and ends. -/
theorem span_eq_of_isBalanced {span : Span} (hc : c.offset ≤ source.length)
    (hstart : span.start = c.offset ∨ Unopened span.start m) (hm : m.offset ≤ source.length)
    (hle : m.offset ≤ span.stop) (hstop : span.stop = next.offset ∨ Unclosed c span.stop)
    (hbalanced : (source.slice span).isBalanced = true) : span = ⟨c.offset, next.offset⟩ := by
  obtain ⟨s, e⟩ := span
  rcases hstart with rfl | hunopened
  · rcases hstop with rfl | hunclosed
    · rfl
    · exact absurd hbalanced (Bool.eq_false_iff.mp (hunclosed.isBalanced_eq_false hc))
  · exact absurd hbalanced (Bool.eq_false_iff.mp (hunopened.isBalanced_eq_false hm hle))

/-- **If the brackets in it are balanced, the span of a joint is all that was read for it.** -/
theorem Joint.span_eq (h : Joint c v next) (hc : c.offset ≤ source.length)
    (hbalanced : (source.slice v.span).isBalanced = true) : v.span = ⟨c.offset, next.offset⟩ := by
  cases h with
  | @operator level d c m m' next l r op hlevel hl hm hop hr hmoves =>
    have hoperand : Edged source d (rung (level + 1)) Node.span :=
      edged_rung (fun k _ => edged_expr k) (Nat.succ_le_succ (Nat.zero_le level)) (j := 11 - level) (by omega)
    have hedges := (Spine.step hl hm hop hr hmoves).edges hc hoperand
    have hm := hl.le hc
    have hm' := hop.le hm.2
    refine span_eq_of_isBalanced hc ?start hm.2 ?le hedges.stop hbalanced <;> rw [Sketch.span_applied]
    case start => exact (hl.edges hc hoperand).start
    case le => exact Nat.le_trans hm'.1 ((hoperand hm'.2 hr).le_stop (hr.le hm'.2).1 hm'.2)
  | power _ hspan => exact hspan
  | @link d c m next object tail hobject hm htail hmoves =>
    obtain ⟨d', htail⟩ := htail
    have hedges := hobject.edges hc (edged_linkBase fun k _ => edged_expr k)
    have hstop : tail.stop = next.offset := Reads.stop_callTail htail
    refine span_eq_of_isBalanced hc hedges.start (hobject.le hc).2 ?_ (.inl hstop) hbalanced
    exact Nat.le_trans (Nat.le_of_lt hmoves) (Nat.le_of_eq hstop.symm)

/-! ## Where joints come from -/

/-- The tree was read as a joint. -/
def Joined (source : Text) (v : Sketch) : Prop := ∃ c next : Cursor source, c.offset ≤ source.length ∧ Joint c v next

theorem allJoints_applied {Q : Sketch → Prop} {l r : Sketch} {op : InfixOp} (hl : AllJoints Q l) (hr : AllJoints Q r)
    (h : Q (l.applied op r)) : AllJoints Q (l.applied op r) := by
  refine allJoints_of_form (fun _ => h) ?_
  cases op with
  | logical => exact ⟨hl, trivial, hr⟩
  | binary => exact ⟨hl, trivial, hr⟩

theorem allJoints_extend {Q : Sketch → Prop} {tail : Tail} (hv : AllJoints Q v) (htail : tail.link.AllJoints Q)
    (h : Q (v.extend tail)) : AllJoints Q (v.extend tail) := by
  refine allJoints_of_form (fun _ => h) ?_
  obtain ⟨link, optional, stop⟩ := tail
  cases link with
  | call arguments => exact ⟨hv, htail, trivial⟩
  | member name => exact ⟨hv, allJoints_identifier name, trivial, trivial⟩
  | index expression => exact ⟨hv, htail, trivial, trivial⟩

theorem Spine.allJoints {level : Nat} (hlevel : 1 ≤ level ∧ level ≤ 10) (hc : c.offset ≤ source.length)
    (h : Spine (rung (level + 1)) (rungOp level) d c v next)
    (hoperand : ∀ {c next : Cursor source} {v}, Reads d (rung (level + 1)) c v next → AllJoints (Joined source) v) :
    AllJoints (Joined source) v := by
  induction h with
  | first h => exact hoperand h
  | @step l r op m m' next hl hm hop hr hmoves ih =>
    exact allJoints_applied ih (hoperand hr) ⟨c, next, hc, .operator hlevel hl hm hop hr hmoves⟩

/-- Each link makes a joint of what comes before it. -/
theorem allJoints_extendAll {base : Sketch} {tails : List Tail} {step : Cursor source → Option (Reply source Tail)}
    (hstep : ∀ {m tail next}, step m = some (.found tail next) →
      Finds (ref .callTail) m tail next ∧ tail.link.AllJoints (Joined source))
    (hc : c.offset ≤ source.length) (hbase : Reads d linkBase c base m) (hall : AllJoints (Joined source) base)
    (h : Runs step m tails next) :
    AllJoints (Joined source) (base.extendAll tails) ∧ ∃ depth, Links depth c (base.extendAll tails) next := by
  induction h with
  | nil => exact ⟨hall, d, base, m, [], hbase, .nil, rfl⟩
  | @snoc tails tail m' next hruns hm htail hmoves ih =>
    -- the depth is that of a call, also behind `new`, so it has to grow with the links
    obtain ⟨hobject, depth, hlinks⟩ := ih
    obtain ⟨hfound, hlink⟩ := hstep htail
    rw [Sketch.extendAll_append]
    exact ⟨allJoints_extend hobject hlink ⟨c, next, hc, .link hlinks hm hfound hmoves⟩, hlinks.extend hm hfound hmoves⟩

/-- What follows a callee would follow a call. -/
theorem Finds.callTail {tail : Tail} (h : Finds memberTail c tail next) : Finds (ref .callTail) c tail next := by
  obtain ⟨_, hbuilt, rfl⟩ := h.of_build
  obtain ⟨link, hseq, rfl⟩ := hbuilt.of_build
  obtain ⟨_, _, hlink, rfl⟩ := hseq.of_gap
  have hchain : Finds chainLink c.skip (link, false) next := by
    rcases hlink.of_either with hlink | ⟨-, hlink⟩
    · obtain ⟨_, hdot, rfl⟩ := hlink.of_build
      exact .either_right (hdot.lacks rfl) (.either_left (.build_found hdot))
    · obtain ⟨_, hindex, rfl⟩ := hlink.of_build
      exact .either_right (hindex.lacks rfl) (.either_right (hindex.lacks rfl) (.either_left (.build_found hindex)))
  exact .rule (.build_found (.build_found (.seq_found (finds_gap c) hchain)))

theorem linkBase_yields {Q : Sketch → Prop} : Yields Q linkBase (AllJoints Q) := .or .ref .ref

theorem memberTail_yields {Q : Sketch → Prop} : Yields Q memberTail fun tail => tail.link.AllJoints Q :=
  .spanned (.map (R := Link.AllJoints Q) (.right (.or (.map .anything fun _ _ => trivial) (.map .ref fun _ h => h)))
    fun _ h _ => h)

/-- No rung matches where there is no operand. -/
theorem lacks_rung {level j : Nat} (hlevel : 1 ≤ level) (hj : level + j = 12) (h : Lacks (ref .unary) c) :
    Lacks (rung level) c := by
  induction j generalizing level with
  | zero =>
    obtain rfl : level = 12 := by omega
    exact h
  | succ j ih =>
    have hnext : Lacks (rung (level + 1)) c := ih (by omega) (by omega)
    rcases Nat.lt_or_ge level 11 with hlt | hge
    · have hcases : level = 1 ∨ level = 2 ∨ level = 3 ∨ level = 4 ∨ level = 5 ∨ level = 6 ∨ level = 7 ∨
        level = 8 ∨ level = 9 ∨ level = 10 := by omega
      rcases hcases with rfl | rfl | rfl | rfl | rfl | rfl | rfl | rfl | rfl | rfl <;>
        exact .rule (.seq_missing (.build_missing hnext))
    · obtain rfl : level = 11 := by omega
      exact .rule (.build_missing (.seq_missing (.build_missing hnext)))

/-- What needs text matches only inside the source. -/
theorem Reads.offset_le {p : Pattern α} {a : α} (h : Reads d p c a next) (hp : c.rest = [] → Lacks p c) :
    c.offset ≤ source.length := by
  by_contra hc
  have hrest : c.rest = [] := by
    rw [c.rest_eq]
    exact List.drop_eq_nil_of_le (by omega)
  cases h.finds.unique (hp hrest)

theorem rung_yields {Q : Sketch → Prop} (level : Nat) : Yields Q (rung level) (AllJoints Q) := by
  unfold rung
  split <;> exact .ref

section

variable (ih : ∀ r (c : Cursor source) a next, Reads d (ref r) c a next → Yield.AllJoints (Joined source) r a)
include ih

theorem allJoints_of_chain {level : Nat} (hlevel : 1 ≤ level ∧ level ≤ 10) (h : Reads (d + 1) (rung level) c v next) :
    AllJoints (Joined source) v := by
  have hc := h.offset_le fun hrest => lacks_rung hlevel.1 (j := 12 - level) (by omega) (lacks_of_rest_eq_nil rfl hrest)
  obtain ⟨k, hk, hspine⟩ := spine_of_rung hlevel hc h
  cases hk
  exact hspine.allJoints hlevel hc fun hread => (rung_yields _).holds ih hread

theorem allJoints_of_exponent (h : Reads (d + 1) (rung 11) c v next) : AllJoints (Joined source) v := by
  have hc := h.offset_le fun hrest => lacks_rung (by decide) (rfl : 11 + 1 = 12) (lacks_of_rest_eq_nil rfl hrest)
  obtain ⟨k, hk, hread⟩ := Reads.of_rule h
  cases hk
  obtain ⟨_, hbuilt, rfl⟩ := hread.of_build
  obtain ⟨base, m, part, hbase, hpart, rfl⟩ := hbuilt.of_ap
  rcases hpart.of_option with ⟨rfl, rfl, -⟩ | ⟨⟨op, r⟩, rfl, -, hpart⟩
  · exact ih _ _ _ _ hbase
  · have hyields : Yields (Joined source) exponentPart _ := .pair .anything .ref
    exact allJoints_of_form (fun _ => ⟨c, next, hc, .power h rfl⟩)
      ⟨ih _ _ _ _ hbase, trivial, (hyields.holds ih hpart).2⟩

theorem allJoints_of_links {p : Pattern Tail} (hsolid : p.isSolid Rule.isSolid = true)
    (hp : ∀ {m : Cursor source} {tail next}, Reads d p m tail next →
      Finds (ref .callTail) m tail next ∧ tail.link.AllJoints (Joined source))
    (h : Reads d (Sketch.extendAll <$> linkBase <*> .many p) c v next) : AllJoints (Joined source) v := by
  obtain ⟨base, m, tails, hbase, htails, rfl⟩ := h.of_ap
  have hc := hbase.offset_le fun hrest => lacks_of_rest_eq_nil rfl hrest
  obtain ⟨hruns, -⟩ := htails.of_many hsolid (hbase.le hc).2
  exact (allJoints_extendAll hp hc hbase (linkBase_yields.holds ih hbase) hruns).1

end

/-- **The joints in what is read were read as such.** -/
theorem allJoints_of_reads (d : Nat) (r : Rule) (c : Cursor source) (a : Yield r) (next : Cursor source)
    (h : Reads d (ref r) c a next) : Yield.AllJoints (Joined source) r a := by
  -- by the depth of the grammar: most rules only keep the joints that the rules in them have made
  induction d generalizing r c next with
  | zero => cases h
  | succ d ih =>
    cases hr : r.joins with
    | false => exact (yields_of_rule hr).holds ih h
    | true =>
      cases r with
      | logicalOr => exact allJoints_of_chain ih (by decide : 1 ≤ 1 ∧ 1 ≤ 10) h
      | logicalAnd => exact allJoints_of_chain ih (by decide : 1 ≤ 2 ∧ 2 ≤ 10) h
      | bitOr => exact allJoints_of_chain ih (by decide : 1 ≤ 3 ∧ 3 ≤ 10) h
      | bitXor => exact allJoints_of_chain ih (by decide : 1 ≤ 4 ∧ 4 ≤ 10) h
      | bitAnd => exact allJoints_of_chain ih (by decide : 1 ≤ 5 ∧ 5 ≤ 10) h
      | equality => exact allJoints_of_chain ih (by decide : 1 ≤ 6 ∧ 6 ≤ 10) h
      | relational => exact allJoints_of_chain ih (by decide : 1 ≤ 7 ∧ 7 ≤ 10) h
      | shift => exact allJoints_of_chain ih (by decide : 1 ≤ 8 ∧ 8 ≤ 10) h
      | additive => exact allJoints_of_chain ih (by decide : 1 ≤ 9 ∧ 9 ≤ 10) h
      | multiplicative => exact allJoints_of_chain ih (by decide : 1 ≤ 10 ∧ 10 ≤ 10) h
      | exponent => exact allJoints_of_exponent ih h
      | callMember => exact allJoints_of_links ih rfl (fun h => ⟨h.finds, ih _ _ _ _ h⟩) h
      | newCallee =>
        exact allJoints_of_links ih rfl (fun h => ⟨h.finds.callTail, memberTail_yields.holds ih h⟩) h
      | _ => cases hr

end ScriptAudit
