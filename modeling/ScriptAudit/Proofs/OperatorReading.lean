/-
Reading operators back. Whatever tree of operators is written out, reading it gives the tree again: the
levels of the operators put the parentheses where the ladder of the grammar needs them and nowhere else.

The induction on the tree carries three readings at once (`Readable`). The operands of an operator are read
by the rung above it. A chain of one level is read from its left end. And the first operand of all has to be
read on its own, since an assignment is tried before any operator and gives up only after that operand.
-/
import ScriptAudit.Proofs.ExpressionReading

namespace ScriptAudit

open ScriptGrammar

variable {source : Text} {d : Nat} {c m next : Cursor source}

/-! ## What a written tree begins with -/

/-- A name with what may follow an operand. -/
def nameStarts : List (List Glimpse) :=
  nameViews.flatMap fun name => (followers 12).map fun view => name ++ view

/-- An operand in parentheses. -/
def parenStarts : List (List Glimpse) := [Text.glimpses "("]

/-- A name and an operator. -/
def applicationStarts : List (List Glimpse) :=
  nameViews.flatMap fun name => InfixOp.all.map fun op => name ++ op.text.glimpses

/-- A name and an operator, with none, one or more parentheses before them. -/
def openings : List (List Glimpse) :=
  Text.glimpses "((" :: (applicationStarts ++ applicationStarts.map fun view => Text.glimpses "(" ++ view)

theorem Follows.ends {level : Nat} {t : Text} (h : Follows level t) :
    t.head?.any CodePoint.continuesName = false := by
  cases h with
  | close t => rfl
  | semicolon t => rfl
  | operator op h t => rfl

theorem shows_nameStarts (n : VarName) {t : Text} (h : Follows 12 t) :
    ∃ view ∈ nameStarts, Shows view (n.text ++ t) := by
  obtain ⟨view, hview, hshows⟩ := h.shows
  obtain ⟨name, hname, hshows⟩ := exists_shows_name n hshows h.ends
  exact ⟨_, List.mem_flatMap.mpr ⟨name, hname, List.mem_map_of_mem hview⟩, hshows⟩

theorem shows_parenStarts (t : Text) : ∃ view ∈ parenStarts, Shows view (CodePoint.ofChar '(' :: t) :=
  ⟨_, List.mem_cons_self, shows_known "(" t⟩

theorem shows_applicationStarts (n : VarName) (op : InfixOp) (t : Text) :
    ∃ view ∈ applicationStarts, Shows view (n.text ++ (op.text ++ t)) := by
  obtain ⟨name, hname, hshows⟩ := exists_shows_name n (shows_known op.text t) rfl
  exact ⟨_, List.mem_flatMap.mpr ⟨name, hname, List.mem_map_of_mem op.mem_all⟩, hshows⟩

/-- One more parenthesis in front still makes an opening. -/
theorem shows_openings_cons {t : Text} (h : ∃ view ∈ openings, Shows view t) :
    ∃ view ∈ openings, Shows view (CodePoint.ofChar '(' :: t) := by
  obtain ⟨view, hview, hshows⟩ := h
  have hparens {t : Text} : Shows (Text.glimpses "((") (Text.ofString "((" ++ t) := shows_known "((" t
  rcases List.mem_cons.mp hview with rfl | hview
  · cases hshows with
    | char c hshows => exact ⟨_, List.mem_cons_self, hparens⟩
  · rcases List.mem_append.mp hview with hview | hview
    · refine ⟨Text.glimpses "(" ++ view, ?_, .char _ hshows⟩
      exact List.mem_cons_of_mem _ (List.mem_append_right _ (List.mem_map_of_mem hview))
    · obtain ⟨inner, -, rfl⟩ := List.mem_map.mp hview
      cases hshows with
      | char c hshows => exact ⟨_, List.mem_cons_self, hparens⟩

namespace Infix

theorem shows_openings (left : Infix) (op : InfixOp) (right : Infix) (t : Text) :
    ∃ view ∈ openings, Shows view ((apply left op right).render ++ t) := by
  induction left generalizing op right t with
  | name n =>
    rw [render, needsParens, operandText, if_neg Bool.false_ne_true, render, List.append_assoc, List.append_assoc]
    obtain ⟨view, hview, hshows⟩ := shows_applicationStarts n op (operandText (right.needsParens op true) right.render ++ t)
    exact ⟨view, List.mem_cons_of_mem _ (List.mem_append_left _ hview), hshows⟩
  | apply l inner r ihl ihr =>
    rw [render, List.append_assoc, operandText]
    split
    · rw [List.cons_append, List.append_assoc]
      exact shows_openings_cons (ihl inner r _)
    · exact ihl inner r _

end Infix

/-! ## What is ruled out -/

/-- What a whole tree may begin with. -/
def treeStarts : List (List Glimpse) := openings ++ nameStarts

/-- As much of a name as tells it from other beginnings: all of it, and after `async` what follows. -/
def nameFirsts : List (List Glimpse) := [.name] :: (followers 12).map (asyncName.text.glimpses ++ ·)

/-- As much of a tree as tells it from a statement, and of an operand as tells it from other ones. -/
def treeFirsts : List (List Glimpse) := Text.glimpses "(" :: nameFirsts

theorem shows_nameFirsts {t : Text} (h : ∃ view ∈ nameStarts, Shows view t) : ∃ view ∈ nameFirsts, Shows view t := by
  obtain ⟨view, hview, hshows⟩ := h
  obtain ⟨name, hname, hview⟩ := List.mem_flatMap.mp hview
  obtain ⟨after, hafter, rfl⟩ := List.mem_map.mp hview
  rcases List.mem_cons.mp hname with rfl | hname
  · exact ⟨_, List.mem_cons_self, hshows.of_prefix (List.prefix_append _ _)⟩
  · obtain rfl := List.mem_singleton.mp hname
    exact ⟨_, List.mem_cons_of_mem _ (List.mem_map_of_mem hafter), hshows⟩

theorem mem_nameStarts_of_application {view : List Glimpse} (h : view ∈ applicationStarts) : view ∈ nameStarts := by
  obtain ⟨name, hname, hview⟩ := List.mem_flatMap.mp h
  obtain ⟨op, hop, rfl⟩ := List.mem_map.mp hview
  refine List.mem_flatMap.mpr ⟨name, hname, List.mem_map_of_mem (List.mem_cons_of_mem _ (List.mem_cons_of_mem _ ?_))⟩
  exact List.mem_map_of_mem (List.mem_filter.mpr ⟨hop, by simpa using Nat.lt_succ_of_le op.level_le⟩)

theorem shows_treeFirsts {t : Text} (h : ∃ view ∈ treeStarts, Shows view t) : ∃ view ∈ treeFirsts, Shows view t := by
  obtain ⟨view, hview, hshows⟩ := h
  -- a parenthesis is enough to see, whatever comes after it
  have hparen {after : List Glimpse} (h : Shows (Text.glimpses "(" ++ after) t) : ∃ view ∈ treeFirsts, Shows view t :=
    ⟨_, List.mem_cons_self, h.of_prefix (List.prefix_append _ _)⟩
  have hname (h : view ∈ nameStarts) : ∃ view ∈ treeFirsts, Shows view t := by
    obtain ⟨first, hfirst, hshows⟩ := shows_nameFirsts ⟨view, h, hshows⟩
    exact ⟨first, List.mem_cons_of_mem _ hfirst, hshows⟩
  rcases List.mem_append.mp hview with hview | hview
  · rcases List.mem_cons.mp hview with rfl | hview
    · have hshows : Shows (Text.glimpses "(" ++ Text.glimpses "(") t := hshows
      exact hparen hshows
    · rcases List.mem_append.mp hview with hview | hview
      · exact hname (mem_nameStarts_of_application hview)
      · obtain ⟨inner, -, rfl⟩ := List.mem_map.mp hview
        exact hparen hshows
  · exact hname hview

theorem shows_operandFirsts {t : Text} (h : ∃ view ∈ nameStarts ++ parenStarts, Shows view t) :
    ∃ view ∈ treeFirsts, Shows view t := by
  obtain ⟨view, hview, hshows⟩ := h
  rcases List.mem_append.mp hview with hview | hview
  · exact shows_treeFirsts ⟨view, List.mem_append_right _ hview, hshows⟩
  · obtain rfl := List.mem_singleton.mp hview
    exact ⟨_, List.mem_cons_self, hshows⟩

/-- What is tried in vain where a tree or an operand begins, and after them. -/
structure Outlook : Prop where
  solid : (treeStarts.all fun view => Lexeme.foreseeTrivia view == some 0) = true
  arrow : Barred 24 (ref .arrowFunction) treeStarts
  statement : Outdone 3 statementRivals treeFirsts
  operand : Outdone 6 operandRivals treeFirsts
  name : Outdone 2 [.parenExpr, .thisExpr] nameFirsts
  callTail : Barred 4 (ref .callTail) (followers 12)
  update : Barred 2 (.lexeme .spaces *> ref .updateOp : Pattern UpdateOp) (followers 12)
  assignOp : Barred 1 (gap *> ref .assignOp) (followers 12)
  sequence : Barred 1 sequencePart (followers 1)
  branches : Barred 1 branchPart (followers 1)

-- Evaluating the grammar takes a while; in parentheses, `(outlook).arrow` does not wait for it.
theorem outlook : Outlook where
  solid := by decide +kernel
  arrow := by unfold Barred; decide +kernel
  statement := by unfold Outdone; decide +kernel
  operand := by unfold Outdone; decide +kernel
  name := by unfold Outdone; decide +kernel
  callTail := by unfold Barred; decide +kernel
  update := by unfold Barred; decide +kernel
  assignOp := by unfold Barred; decide +kernel
  sequence := by unfold Barred; decide +kernel
  branches := by unfold Barred; decide +kernel

/-! ## Operands -/

/-- An operand is a call with no calls in it. -/
theorem reads_callMember {e : Sketch} (hrivals : ∃ view ∈ nameStarts ++ parenStarts, Shows view c.rest)
    (h : Reads d (ref .primary) c e next) (hnext : Follows 12 next.rest) (hd : 6 ≤ d) :
    Reads (d + 1) (ref .callMember) c e next :=
  reads_callMember_of_primary h ((outlook).operand.misses (shows_operandFirsts hrivals) hd (by decide))
    ((outlook).callTail.misses hnext.shows (by omega))

theorem reads_unary {e : Sketch} (hrivals : ∃ view ∈ nameStarts ++ parenStarts, Shows view c.rest)
    (h : Reads d (ref .callMember) c e next) (hnext : Follows 12 next.rest) (hd : 6 ≤ d) :
    Reads (d + 2) (rung 12) c e next := by
  refine reads_unary_of_callMember h (fun r hr => ?_) ((outlook).update.misses hnext.shows (by omega))
  exact (outlook).operand.misses (shows_operandFirsts hrivals) (by omega) (by revert r; decide)

theorem reads_primary_name {n : VarName} {t : Text} (h : c.rest = n.text ++ t) (ht : Follows 12 t)
    (hd : 6 ≤ d) : ∃ span, Reads (d + 1) (ref .primary) c ⟨.identifier n.text, span⟩ (c.advance n.text.length) := by
  have hstarts : ∃ view ∈ nameStarts, Shows view c.rest := h ▸ shows_nameStarts n ht
  have hrivals : ∃ view ∈ nameStarts ++ parenStarts, Shows view c.rest := by
    obtain ⟨view, hview, hshows⟩ := hstarts
    exact ⟨view, List.mem_append_left _ hview, hshows⟩
  obtain ⟨d, rfl⟩ := Nat.exists_eq_add_of_le' (show 2 ≤ d by omega)
  refine ⟨_, reads_primary_of_name h ht.ends fun r hr => ?_⟩
  have hr : r ∈ operandRivals ∨ r ∈ [Rule.parenExpr, .thisExpr] := by revert r; decide
  rcases hr with hr | hr
  · exact (outlook).operand.misses (shows_operandFirsts hrivals) hd hr
  · exact (outlook).name.misses (shows_nameFirsts hstarts) (by omega) hr

theorem triviaLength_close (t : Text) : Lexeme.triviaLength (CodePoint.ofChar ')' :: t) = 0 :=
  Lexeme.triviaFrom_cons_of_not_blank (by decide) (Lexeme.commentLength?_of_ne _ (by decide))

/-- Parentheses read as what is in them. -/
theorem reads_primary_parens {e : Sketch} {t after : Text}
    (h : c.rest = CodePoint.ofChar '(' :: (t ++ CodePoint.ofChar ')' :: after))
    (hgap : Lexeme.triviaLength (t ++ CodePoint.ofChar ')' :: after) = 0)
    (hexpr : Reads d (ref .expr) (c.advance 1) e ((c.advance 1).advance t.length)) (hd : 6 ≤ d) :
    Reads (d + 2) (ref .primary) c e (c.advance (t.length + 2)) := by
  have hrivals : ∃ view ∈ nameStarts ++ parenStarts, Shows view c.rest := by
    obtain ⟨view, hview, hshows⟩ := shows_parenStarts (t ++ CodePoint.ofChar ')' :: after)
    exact ⟨view, List.mem_append_right _ hview, h ▸ hshows⟩
  have hrival {r : Rule} (hr : r ∈ operandRivals) : Misses (d + 1) (ref r) c :=
    (outlook).operand.misses (shows_operandFirsts hrivals) (by omega) hr
  have hinner : (c.advance 1).rest = t ++ CodePoint.ofChar ')' :: after := by
    rw [Cursor.rest_advance, h, List.drop_one, List.tail_cons]
  have hafter : ((c.advance 1).advance t.length).rest = CodePoint.ofChar ')' :: after := by
    rw [Cursor.rest_advance, hinner, List.drop_left]
  obtain ⟨d, rfl⟩ := Nat.exists_eq_add_of_le' (show 1 ≤ d by omega)
  have hopen : Reads (d + 1) (mark "(") c (Text.ofString "(") (c.advance 1) := reads_mark h
  have hclose : Reads (d + 1) (mark ")") ((c.advance 1).advance t.length) (Text.ofString ")")
      (((c.advance 1).advance t.length).advance 1) := reads_mark hafter
  have hbefore : Reads (d + 1) gap (c.advance 1) [] (c.advance 1) :=
    reads_gap_nothing (by rw [hinner]; exact hgap)
  have hbehind : Reads (d + 1) gap ((c.advance 1).advance t.length) [] ((c.advance 1).advance t.length) :=
    reads_gap_nothing (by rw [hafter, triviaLength_close])
  have hparen : Reads (d + 2) (ref .parenExpr) c e (c.advance (t.length + 2)) := by
    have hread := (((hopen.seq (f := fun _ b => b) hbefore).seq (f := fun _ b => b) hexpr).seq
      (f := fun a _ => a) hbehind).seq (f := fun a _ => a) hclose
    rw [Cursor.advance_advance, Cursor.advance_advance,
      show 1 + (t.length + 1) = t.length + 2 by omega] at hread
    exact hread
  refine .rule (.right (hrival (by decide)) (.right (hrival (by decide)) (.right (hrival (by decide)) ?_)))
  exact .right (hrival (by decide)) (.right (hrival (by decide)) (.left hparen))

/-! ## Expressions -/

theorem Infix.shows_treeStarts (t : Infix) {after : Text} (h : Follows 12 after) :
    ∃ view ∈ treeStarts, Shows view (t.render ++ after) := by
  cases t with
  | name n =>
    obtain ⟨view, hview, hshows⟩ := shows_nameStarts n h
    exact ⟨view, List.mem_append_right _ hview, hshows⟩
  | apply left op right =>
    obtain ⟨view, hview, hshows⟩ := shows_openings left op right after
    exact ⟨view, List.mem_append_left _ hview, hshows⟩

theorem Infix.triviaLength_render (t : Infix) {after : Text} (h : Follows 12 after) :
    Lexeme.triviaLength (t.render ++ after) = 0 :=
  triviaLength_of_solid (outlook).solid (t.shows_treeStarts h)

/-- What a rung reads an expression reads, if it is no arrow function and its first operand can be read. -/
theorem reads_expr {e first : Sketch} (hstart : ∃ view ∈ treeStarts, Shows view c.rest)
    (hhead : Reads d (ref .callMember) c first m) (hm : Follows 12 m.rest)
    (h : Reads (d + 1) (rung 1) c e next) (hnext : Follows 1 next.rest) (hd : 22 ≤ d) :
    Reads (d + 4) (ref .expr) c e next := by
  have harrow : Misses (d + 2) (ref .arrowFunction) c := (outlook).arrow.misses hstart (by omega)
  have hassign : Misses (d + 1) (ref .assignment) c :=
    misses_assignment_of_callMember hhead ((outlook).assignOp.misses hm.shows (by omega))
  exact reads_expr_of_rung h harrow (hassign.mono (Nat.le_succ _)) ((outlook).branches.misses hnext.shows (by omega))
    ((outlook).sequence.misses hnext.shows (by omega))

/-! ## Rungs -/

/-- What a rung reads a looser one reads, where no operator between them follows. -/
theorem reads_rung_of_le {e : Sketch} {level k : Nat} (hlevel : 1 ≤ level) (hk : level + k ≤ 12)
    (hd : 1 ≤ d) (h : Reads d (rung (level + k)) c e next) (hnext : Follows level next.rest) :
    Reads (d + k) (rung level) c e next := by
  refine reads_rung_of_misses hlevel hk h (fun l hl hmax => ?_) fun hmax => ?_
  · exact (barred_rungOp ⟨by omega, hmax⟩).misses (hnext.mono hl).shows hd
  · exact barred_exponentPart.misses (hnext.mono hmax).shows hd

namespace Infix

/-- How a tree is read where it is written out: its first operand, the chain of its own level, each rung
up to its own, and the whole as an expression. -/
structure Readable (t : Infix) : Prop where
  head : ∀ {source : Text} {c : Cursor source} {after : Text}, c.rest = t.render ++ after →
    Follows 12 after → ∃ first m, Reads (t.nesting + 10) (ref .callMember) c first m ∧ Follows 12 m.rest
  spine : ∀ {source : Text} {c : Cursor source} {after : Text}, c.rest = t.render ++ after →
    t.level ≤ 10 → Follows (t.level + 1) after →
    ∃ e, Spine (rung (t.level + 1)) (rungOp t.level) (t.nesting + 12 + (11 - t.level)) c e
      (c.advance t.render.length) ∧ Depicts e t
  rung : ∀ {source : Text} {c : Cursor source} {after : Text} {level : Nat}, c.rest = t.render ++ after →
    1 ≤ level → level ≤ t.level → Follows level after →
    ∃ e, Reads (t.nesting + 12 + (12 - level)) (rung level) c e (c.advance t.render.length) ∧ Depicts e t

namespace Readable

variable {t left right : Infix} {op : InfixOp} {after : Text}

/-- A whole tree is an expression. -/
theorem expr (ht : t.Readable) (h : c.rest = t.render ++ after) (hafter : Follows 1 after) :
    ∃ e, Reads (t.nesting + 26) (ref .expr) c e (c.advance t.render.length) ∧ Depicts e t := by
  have hafter12 := hafter.mono (show 1 ≤ 12 by decide)
  have hstart : ∃ view ∈ treeStarts, Shows view c.rest := h ▸ t.shows_treeStarts hafter12
  have hnext : (c.advance t.render.length).rest = after := by rw [Cursor.rest_advance, h, List.drop_left]
  obtain ⟨first, m, hhead, hm⟩ := ht.head h hafter12
  obtain ⟨e, hread, hdepicts⟩ := ht.rung h (Nat.le_refl 1) t.level_pos hafter
  refine ⟨e, ?_, hdepicts⟩
  exact reads_expr hstart (hhead.mono (by omega)) hm (hread.mono (by omega)) (hnext ▸ hafter)
    (show 22 ≤ t.nesting + 22 by omega)

/-- A tree in parentheses is an operand. -/
theorem callMember_parens (ht : t.Readable) (h : c.rest = operandText true t.render ++ after)
    (hafter : Follows 12 after) :
    ∃ e, Reads (t.nesting + 29) (ref .callMember) c e (c.advance (operandText true t.render).length) ∧
      Depicts e t := by
  have hrest : c.rest = CodePoint.ofChar '(' :: (t.render ++ CodePoint.ofChar ')' :: after) := by
    rw [h, operandText, if_pos rfl, List.cons_append, List.append_assoc, List.singleton_append]
  have hinner : (c.advance 1).rest = t.render ++ CodePoint.ofChar ')' :: after := by
    rw [Cursor.rest_advance, hrest, List.drop_one, List.tail_cons]
  have hlength : (operandText true t.render).length = t.render.length + 2 := by simp [operandText]
  have hnext : (c.advance (t.render.length + 2)).rest = after := by
    rw [Cursor.rest_advance, h, ← hlength, List.drop_left]
  obtain ⟨e, hread, hdepicts⟩ := ht.expr hinner (.close after)
  have hrivals : ∃ view ∈ nameStarts ++ parenStarts, Shows view c.rest := by
    obtain ⟨view, hview, hshows⟩ := shows_parenStarts (t.render ++ CodePoint.ofChar ')' :: after)
    exact ⟨view, List.mem_append_right _ hview, hrest ▸ hshows⟩
  have hprimary := reads_primary_parens hrest (t.triviaLength_render (.close after)) hread (by omega)
  refine ⟨e, ?_, hdepicts⟩
  rw [hlength]
  exact reads_callMember hrivals hprimary (hnext ▸ hafter) (by omega)

/-- An operand, in parentheses or not, is read by each rung that it does not need parentheses for. -/
theorem operand {parens : Bool} {level : Nat} (ht : t.Readable) (hlevel : 1 ≤ level) (hmax : level ≤ 12)
    (hfree : parens = false → level ≤ t.level) (h : c.rest = operandText parens t.render ++ after)
    (hafter : Follows level after) :
    ∃ e, Reads (t.nesting + parensNesting parens + 12 + (12 - level)) (ScriptAudit.rung level) c e
      (c.advance (operandText parens t.render).length) ∧ Depicts e t := by
  cases parens with
  | false => exact ht.rung h hlevel (hfree rfl) hafter
  | true =>
    have hafter12 := hafter.mono hmax
    have hnext : (c.advance (operandText true t.render).length).rest = after := by
      rw [Cursor.rest_advance, h, List.drop_left]
    have hrivals : ∃ view ∈ nameStarts ++ parenStarts, Shows view c.rest := by
      obtain ⟨view, hview, hshows⟩ := shows_parenStarts (t.render ++ [CodePoint.ofChar ')'] ++ after)
      exact ⟨view, List.mem_append_right _ hview, h ▸ hshows⟩
    obtain ⟨e, hcall, hdepicts⟩ := ht.callMember_parens h hafter12
    have hunary := reads_unary hrivals hcall (hnext ▸ hafter12) (by omega)
    rw [← Nat.add_sub_cancel' hmax] at hunary
    have hlift := reads_rung_of_le hlevel (by omega) (by omega) hunary (hnext ▸ hafter)
    have hparens : parensNesting true = 19 := rfl
    exact ⟨e, hlift.mono (by omega), hdepicts⟩

end Readable

/-- Nothing that is read begins with blanks. -/
theorem triviaLength_operandText (t : Infix) (parens : Bool) {after : Text} (h : Follows 12 after) :
    Lexeme.triviaLength (operandText parens t.render ++ after) = 0 := by
  cases parens with
  | false => exact t.triviaLength_render h
  | true => exact Lexeme.triviaFrom_cons_of_not_blank (by decide) (Lexeme.commentLength?_of_ne _ (by decide))

theorem render_append (left : Infix) (op : InfixOp) (right : Infix) (after : Text) :
    (apply left op right).render ++ after = operandText (left.needsParens op false) left.render
      ++ (op.text ++ (operandText (right.needsParens op true) right.render ++ after)) := by
  rw [render, List.append_assoc, List.append_assoc]

/-! ## Names -/

theorem callMember_name {n : VarName} {after : Text} (h : c.rest = n.text ++ after)
    (hafter : Follows 12 after) :
    ∃ e, Reads 8 (ref .callMember) c e (c.advance n.text.length) ∧ Depicts e (name n) := by
  have hnext : (c.advance n.text.length).rest = after := by rw [Cursor.rest_advance, h, List.drop_left]
  have hrivals : ∃ view ∈ nameStarts ++ parenStarts, Shows view c.rest := by
    obtain ⟨view, hview, hshows⟩ := shows_nameStarts n hafter
    exact ⟨view, List.mem_append_left _ hview, h ▸ hshows⟩
  obtain ⟨span, hprimary⟩ := reads_primary_name h hafter (Nat.le_refl 6)
  exact ⟨_, reads_callMember hrivals hprimary (hnext ▸ hafter) (by decide), .name n span⟩

theorem readable_name (n : VarName) : (name n).Readable where
  head {source c after} h hafter := by
    have hnext : (c.advance n.text.length).rest = after := by
      rw [Cursor.rest_advance, h, render, List.drop_left]
    obtain ⟨e, hread, -⟩ := callMember_name h hafter
    exact ⟨e, _, hread.mono (by omega), hnext ▸ hafter⟩
  spine _ hlevel := by simp only [level] at hlevel; omega
  rung {source c after level} h hlevel hmax hafter := by
    have hmax : level ≤ 12 := hmax
    have hafter12 := hafter.mono hmax
    have hnext : (c.advance n.text.length).rest = after := by
      rw [Cursor.rest_advance, h, render, List.drop_left]
    have hrivals : ∃ view ∈ nameStarts ++ parenStarts, Shows view c.rest := by
      obtain ⟨view, hview, hshows⟩ := shows_nameStarts n hafter12
      exact ⟨view, List.mem_append_left _ hview, h ▸ hshows⟩
    obtain ⟨e, hread, hdepicts⟩ := callMember_name h hafter12
    have hunary := reads_unary hrivals hread (hnext ▸ hafter12) (by decide)
    rw [← Nat.add_sub_cancel' hmax] at hunary
    have hlift := reads_rung_of_le hlevel (by omega) (by omega) hunary (hnext ▸ hafter)
    exact ⟨e, hlift.mono (by omega), hdepicts⟩

/-! ## Operators -/

section Apply

variable {left right : Infix} {op : InfixOp} {after : Text}

/-- The left operand of a chain is the chain so far, or its first operand. -/
theorem left_spine (hl : left.Readable) (hlevel : op.level ≤ 10)
    (h : c.rest = operandText (left.needsParens op false) left.render ++ after)
    (hafter : Follows (op.level + 1) after) :
    ∃ e, Spine (ScriptAudit.rung (op.level + 1)) (rungOp op.level)
      (left.nesting + parensNesting (left.needsParens op false) + 12 + (11 - op.level)) c e
      (c.advance (operandText (left.needsParens op false) left.render).length) ∧ Depicts e left := by
  by_cases hsame : left.needsParens op false = false ∧ left.level = op.level
  · obtain ⟨hparens, hsame⟩ := hsame
    rw [hparens] at h ⊢
    rw [← hsame] at hafter hlevel ⊢
    exact hl.spine h hlevel hafter
  · have hfree : left.needsParens op false = false → op.level + 1 ≤ left.level := by
      intro hparens
      have hne : left.level ≠ op.level := fun heq => hsame ⟨hparens, heq⟩
      have := (le_level_of_left hparens).1
      omega
    obtain ⟨e, hread, hdepicts⟩ := hl.operand (by omega) (by omega) hfree h hafter
    exact ⟨e, (Spine.first hread).mono (by omega), hdepicts⟩

/-- What an application has after its left operand: its operator, then its right operand. -/
structure RightPart (left : Infix) (op : InfixOp) (right : Infix) (level : Nat) (c m m' : Cursor source)
    (r : Sketch) : Prop where
  middle : m = c.advance (operandText (left.needsParens op false) left.render).length
  left_rest : c.rest = operandText (left.needsParens op false) left.render ++ m.rest
  follows : ∀ {k : Nat}, op.level < k → Follows k m.rest
  atEnd : m.atEnd = false
  operator : Reads 1 (spaced (rungOp op.level)) m op m'
  operand : Reads (right.nesting + parensNesting (right.needsParens op true) + 12 + (12 - level))
    (ScriptAudit.rung level) m' r (c.advance (apply left op right).render.length)
  moves : m.offset < (c.advance (apply left op right).render.length).offset
  depicts : Depicts r right

theorem exists_rightPart (hr : right.Readable) {level : Nat} (hlevel : 1 ≤ level) (hmax : level ≤ 12)
    (hfree : right.needsParens op true = false → level ≤ right.level)
    (h : c.rest = (apply left op right).render ++ after) (hafter : Follows level after) :
    ∃ m m' r, RightPart left op right level c m m' r := by
  rw [render_append] at h
  have hrest : (c.advance (operandText (left.needsParens op false) left.render).length).rest
      = op.text ++ (operandText (right.needsParens op true) right.render ++ after) := by
    rw [Cursor.rest_advance, h, List.drop_left]
  have hrest' : ((c.advance (operandText (left.needsParens op false) left.render).length).advance
      op.text.length).rest = operandText (right.needsParens op true) right.render ++ after := by
    rw [Cursor.rest_advance, hrest, List.drop_left]
  have hlength : (apply left op right).render.length
      = (operandText (left.needsParens op false) left.render).length + op.text.length
        + (operandText (right.needsParens op true) right.render).length := by
    rw [render, List.length_append, List.length_append, Nat.add_assoc]
  obtain ⟨r, hright, hdepicts⟩ := hr.operand hlevel hmax hfree hrest' hafter
  rw [Cursor.advance_advance, Cursor.advance_advance, ← hlength, ← Cursor.advance_advance] at hright
  refine ⟨_, _, r, rfl, by rw [hrest, h], fun hk => hrest ▸ .operator op hk _, ?_, ?_, hright, ?_, hdepicts⟩
  · rw [Cursor.atEnd, hrest]
    rfl
  · exact reads_spaced op hrest (right.triviaLength_operandText _ (hafter.mono hmax))
  · simp only [Cursor.advance, hlength, InfixOp.text, List.length_cons]
    omega

/-- A chain is its left operand, an operator and a right operand. -/
theorem apply_spine (hl : left.Readable) (hr : right.Readable) (hlevel : op.level ≤ 10)
    (h : c.rest = (apply left op right).render ++ after) (hafter : Follows (op.level + 1) after) :
    ∃ e, Spine (ScriptAudit.rung (op.level + 1)) (rungOp op.level)
      ((apply left op right).nesting + 12 + (11 - op.level)) c e
      (c.advance (apply left op right).render.length) ∧ Depicts e (apply left op right) := by
  have hfree : right.needsParens op true = false → op.level + 1 ≤ right.level :=
    fun hparens => (le_level_of_right hparens).2 (by omega)
  obtain ⟨m, m', r, hpart⟩ := exists_rightPart hr (by omega) (by omega) hfree h hafter
  obtain ⟨l, hspine, hdepicts⟩ := left_spine hl hlevel hpart.left_rest (hpart.follows (Nat.lt_succ_self _))
  rw [← hpart.middle] at hspine
  have hbound := left_nesting_le left op right
  have hbound' := right_nesting_le left op right
  refine ⟨l.applied op r, ?_, .applied op hdepicts hpart.depicts⟩
  exact .step (hspine.mono (by omega)) hpart.atEnd (hpart.operator.mono (by omega))
    (hpart.operand.mono (by omega)) hpart.moves

/-- A power has an operand on its left and a power on its right. -/
theorem apply_power (hl : left.Readable) (hr : right.Readable) (hlevel : op.level = 11)
    (h : c.rest = (apply left op right).render ++ after) (hafter : Follows 11 after) :
    ∃ e, Reads ((apply left op right).nesting + 13) (ScriptAudit.rung 11) c e
      (c.advance (apply left op right).render.length) ∧ Depicts e (apply left op right) := by
  have hfree : left.needsParens op false = false → 12 ≤ left.level :=
    fun hparens => Nat.le_of_eq ((le_level_of_left hparens).2 hlevel).symm
  have hfree' : right.needsParens op true = false → 11 ≤ right.level :=
    fun hparens => hlevel ▸ (le_level_of_right hparens).1
  obtain ⟨m, m', r, hpart⟩ := exists_rightPart hr (by decide) (by decide) hfree' h hafter
  obtain ⟨l, hleft, hdepicts⟩ :=
    hl.operand (by decide) (Nat.le_refl 12) hfree hpart.left_rest (hpart.follows (by omega))
  rw [← hpart.middle] at hleft
  have hbound := left_nesting_le left op right
  have hbound' := right_nesting_le left op right
  rw [if_pos (op.associatesRight_iff.mpr hlevel)] at hbound'
  obtain rfl := op.level_eq_iff.mp hlevel
  obtain ⟨span, hpower⟩ := reads_power (d := (apply left (.binary .power) right).nesting + 12)
    (hleft.mono (by omega)) hpart.atEnd (hpart.operator.mono (by omega)) (hpart.operand.mono (by omega))
  exact ⟨_, hpower, .binary .power span hdepicts hpart.depicts⟩

/-- An application is read by the rung of its operator. -/
theorem apply_rung (hl : left.Readable) (hr : right.Readable)
    (h : c.rest = (apply left op right).render ++ after) (hafter : Follows op.level after) :
    ∃ e, Reads ((apply left op right).nesting + 12 + (12 - op.level)) (ScriptAudit.rung op.level) c e
      (c.advance (apply left op right).render.length) ∧ Depicts e (apply left op right) := by
  have hpos := op.level_pos
  have hmax := op.level_le
  have hnext : (c.advance (apply left op right).render.length).rest = after := by
    rw [Cursor.rest_advance, h, List.drop_left]
  rcases Nat.lt_or_ge op.level 11 with hlt | hge
  · obtain ⟨e, hspine, hdepicts⟩ := apply_spine hl hr (by omega) h (hafter.mono (Nat.le_succ _))
    have hstop := (barred_rungOp ⟨hpos, by omega⟩).misses (hnext ▸ hafter).shows
      (show 1 ≤ (apply left op right).nesting + 12 + (11 - op.level) by omega)
    exact ⟨e, (reads_rung_of_spine ⟨hpos, by omega⟩ hspine hstop).mono (by omega), hdepicts⟩
  · have hlevel : op.level = 11 := by omega
    rw [hlevel] at hafter ⊢
    exact apply_power hl hr hlevel h hafter

end Apply

theorem readable_apply {left right : Infix} (op : InfixOp) (hl : left.Readable) (hr : right.Readable) :
    (apply left op right).Readable where
  head {source c after} h hafter := by
    rw [render_append] at h
    have hfollows : Follows 12 (op.text ++ (operandText (right.needsParens op true) right.render ++ after)) :=
      .operator op (Nat.lt_succ_of_le op.level_le) _
    have hbound := left_nesting_le left op right
    cases hparens : left.needsParens op false with
    | false =>
      rw [hparens] at h
      obtain ⟨first, m, hread, hm⟩ := hl.head h hfollows
      exact ⟨first, m, hread.mono (by omega), hm⟩
    | true =>
      rw [hparens] at h hbound
      have hnineteen : parensNesting true = 19 := rfl
      obtain ⟨first, hread, -⟩ := hl.callMember_parens h hfollows
      refine ⟨first, _, hread.mono (by omega), ?_⟩
      rw [Cursor.rest_advance, h, List.drop_left]
      exact hfollows
  spine h hlevel hafter := apply_spine hl hr hlevel h hafter
  rung {source c after level} h hlevel hmax hafter := by
    have hmax : level ≤ op.level := hmax
    have hnext : (c.advance (apply left op right).render.length).rest = after := by
      rw [Cursor.rest_advance, h, List.drop_left]
    have htop := op.level_le
    obtain ⟨e, hread, hdepicts⟩ := apply_rung hl hr h (hafter.mono hmax)
    rw [← Nat.add_sub_cancel' hmax] at hread
    have hlift := reads_rung_of_le hlevel (by omega) (by omega) hread (hnext ▸ hafter)
    exact ⟨e, hlift.mono (by omega), hdepicts⟩

theorem readable (t : Infix) : t.Readable := by
  induction t with
  | name n => exact readable_name n
  | apply left op right ihl ihr => exact readable_apply op ihl ihr

end Infix

/-! ## Scripts -/

/-- A semicolon at the very end. -/
theorem reads_semi_last (h : c.rest = Text.ofString ";") : Reads (d + 2) (ref .semi) c () (c.advance 1) := by
  have hend : (c.advance 1).rest = [] := by rw [Cursor.rest_advance, h]; rfl
  have hmark : Reads (d + 1) (mark ";") c (Text.ofString ";") (c.advance 1) := reads_mark (t := []) h
  have hgap : Reads (d + 1) gap (c.advance 1) [] (c.advance 1) := reads_gap_nothing (by rw [hend]; rfl)
  have hoption := Reads.option_some (by rw [Cursor.atEnd, h]; rfl) hmark
  exact .rule (Reads.build (hoption.seq (f := fun a _ => a) hgap))

/-- A tree with a semicolon is a statement. -/
theorem reads_statement {t : Infix} (h : c.rest = t.render ++ Text.ofString ";") :
    ∃ e span, Reads (t.nesting + 28) (ref .statement) c ⟨.expressionStatement e, span⟩
      (c.advance (t.render.length + 1)) ∧ Depicts e t := by
  have hafter : Follows 1 (Text.ofString ";") := .semicolon []
  have hstart : ∃ view ∈ treeStarts, Shows view c.rest := h ▸ t.shows_treeStarts (hafter.mono (by decide))
  have hnext : (c.advance t.render.length).rest = Text.ofString ";" := by
    rw [Cursor.rest_advance, h, List.drop_left]
  obtain ⟨e, hexpr, hdepicts⟩ := t.readable.expr h hafter
  have hsemi : Reads (t.nesting + 26) (ref .semi) (c.advance t.render.length) () _ :=
    reads_semi_last (d := t.nesting + 24) hnext
  rw [Cursor.advance_advance] at hsemi
  refine ⟨e, _, reads_statement_of_expr hexpr (by rw [hnext]; rfl) hsemi (fun r hr => ?_), hdepicts⟩
  exact (outlook).statement.misses (shows_treeFirsts hstart) (by omega) hr

/-- A tree with a semicolon is a script of one statement. -/
theorem reads_program (t : Infix) :
    ∃ e span next, Reads (t.nesting + 29) (ref .program) (Cursor.start (t.render ++ Text.ofString ";"))
      [⟨.expressionStatement e, span⟩] next ∧ next.atEnd = true ∧ Depicts e t := by
  let c := Cursor.start (t.render ++ Text.ofString ";")
  have hrest : c.rest = t.render ++ Text.ofString ";" := rfl
  obtain ⟨e, span, hstatement, hdepicts⟩ := reads_statement hrest
  have hgap : Lexeme.triviaLength (t.render ++ Text.ofString ";") = 0 := t.triviaLength_render (.semicolon [])
  have hend : (c.advance (t.render.length + 1)).atEnd = true := by
    rw [Cursor.atEnd, Cursor.rest_advance, hrest, List.isEmpty_iff, List.drop_eq_nil_iff, List.length_append]
    exact Nat.le_refl _
  have hne : t.render ++ Text.ofString ";" ≠ [] := List.append_ne_nil_of_right_ne_nil _ (List.cons_ne_nil _ _)
  exact ⟨e, span, _, reads_program_of_statement hgap hne hstatement hend, hend, hdepicts⟩

/-- **Operators are read back as they were written.** A tree of operators over names, with a semicolon after
it, is a script of one expression statement with the same tree, whatever the limit on how deep the rules
nest, unless the limit is too low for it. -/
theorem parse_render_infix (t : Infix) (filename : Text) :
    ∃ (e : Tree) (span : Span), e.unspanned = t.node ∧ ∀ limit : Nat,
      parseWithin limit (t.render ++ Text.ofString ";") filename
          = .ok ⟨[⟨.expressionStatement e, span⟩], t.render ++ Text.ofString ";", filename⟩ ∨
        limit < t.nesting + 29 ∧
          parseWithin limit (t.render ++ Text.ofString ";") filename = .error .tooDeep := by
  obtain ⟨e, span, next, hread, hend, hdepicts⟩ := reads_program t
  obtain ⟨tree, htree, hdepicts'⟩ := hdepicts.read
  have hbody : Sketch.readList [⟨.expressionStatement e, span⟩] = .ok [⟨.expressionStatement tree, span⟩] := by
    simp only [Sketch.readList, Sketch.read, Sketch.readForm, htree]
    rfl
  refine ⟨tree, span, hdepicts'.unspanned_eq, fun limit => ?_⟩
  rcases Nat.lt_or_ge limit (t.nesting + 29) with hlt | hge
  · rcases parseWithin_of_settles ⟨_, hread⟩ limit with hdeep | hmatch
    · exact .inr ⟨hlt, hdeep⟩
    · left
      rw [hmatch]
      simp only [ofMatch, hend, if_true, hbody]
  · exact .inl (parse_of_eval hge hread hend hbody)

end ScriptAudit
