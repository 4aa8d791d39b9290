/-
The ladder of operators in the script grammar, one rung for each level. Every rung takes operands from the
next one, so what a rung reads a looser one reads as well where none of the operators between follows.
-/
import ScriptAudit.Proofs.OperatorTree
import ScriptAudit.Proofs.Reading

namespace ScriptAudit

open ScriptGrammar

variable {source : Text} {d : Nat} {c m next : Cursor source}

/-- Two operands joined by an operator. -/
def Sketch.applied (l : Sketch) : InfixOp → Sketch → Sketch
  | .logical op, r => .logical l op r
  | .binary op, r => .binary l op r

theorem Depicts.applied {l r : Sketch} {t u : Infix} (op : InfixOp) (hl : Depicts l t) (hr : Depicts r u) :
    Depicts (l.applied op r) (.apply t op u) := by
  cases op with
  | logical op => exact .logical op _ hl hr
  | binary op => exact .binary op _ hl hr

/-! ## Rungs -/

/-- The pattern for expressions of a level and all tighter ones. -/
def rung : Nat → Pattern Sketch
  | 1 => ref .logicalOr
  | 2 => ref .logicalAnd
  | 3 => ref .bitOr
  | 4 => ref .bitXor
  | 5 => ref .bitAnd
  | 6 => ref .equality
  | 7 => ref .relational
  | 8 => ref .shift
  | 9 => ref .additive
  | 10 => ref .multiplicative
  | 11 => ref .exponent
  | _ => ref .unary

/-- The operators of a level. -/
def rungOp : Nat → Pattern InfixOp
  | 1 => InfixOp.logical <$> ref .orOp
  | 2 => InfixOp.logical <$> ref .andOp
  | 3 => InfixOp.binary <$> ref .bitOrOp
  | 4 => InfixOp.binary <$> ref .bitXorOp
  | 5 => InfixOp.binary <$> ref .bitAndOp
  | 6 => InfixOp.binary <$> ref .equalityOp
  | 7 => InfixOp.binary <$> ref .relationalOp
  | 8 => InfixOp.binary <$> ref .shiftOp
  | 9 => InfixOp.binary <$> ref .additiveOp
  | 10 => InfixOp.binary <$> ref .mulOp
  | _ => InfixOp.binary <$> ref .expOp

/-- An operator with the blanks around it. -/
def spaced {α : Type} (operator : Pattern α) : Pattern α := gap *> operator <* gap

theorem reads_rungOp (op : InfixOp) {t : Text}
    (h : c.rest = Text.ofString op.symbol ++ (CodePoint.ofChar ' ' :: t)) :
    Reads (d + 1) (rungOp op.level) c op (c.advance (Text.ofString op.symbol).length) := by
  obtain ⟨offset, rest, hrest⟩ := c
  subst h
  cases op with
  | logical op => cases op <;> rfl
  | binary op => cases op <;> rfl

theorem triviaLength_text (op : InfixOp) (t : Text) : Lexeme.triviaLength (op.text ++ t) = 1 := by
  cases op with
  | logical op => cases op <;> rfl
  | binary op => cases op <;> rfl

theorem reads_spaced (op : InfixOp) {t : Text} (h : c.rest = op.text ++ t)
    (ht : Lexeme.triviaLength t = 0) :
    Reads (d + 1) (spaced (rungOp op.level)) c op (c.advance op.text.length) := by
  have hsymbol : (c.advance 1).rest = Text.ofString op.symbol ++ (CodePoint.ofChar ' ' :: t) := by
    simp [Cursor.advance, h, InfixOp.text]
  have hlast : ((c.advance 1).advance (Text.ofString op.symbol).length).rest = CodePoint.ofChar ' ' :: t := by
    rw [Cursor.rest_advance, hsymbol, List.drop_left]
  have hgap : Reads (d + 1) gap c _ (c.advance 1) := reads_gap (by rw [h, triviaLength_text])
  have hgap' : Reads (d + 1) gap ((c.advance 1).advance (Text.ofString op.symbol).length) _ _ :=
    reads_gap (n := 1) (by rw [hlast, triviaLength_space, ht])
  have hread := (hgap.seq (f := fun _ b => b) (reads_rungOp (d := d) op hsymbol)).seq (f := fun a _ => a) hgap'
  rw [Cursor.advance_advance, Cursor.advance_advance] at hread
  have hlength : 1 + ((Text.ofString op.symbol).length + 1) = op.text.length := by
    rw [InfixOp.text, List.length_cons, List.length_append, List.length_singleton]
    omega
  rwa [hlength] at hread

/-! ## Chains -/

/-- Operands and operators read from left to right, and what they come to. -/
inductive Spine (operand : Pattern Sketch) (operator : Pattern InfixOp) (d : Nat) (c : Cursor source) :
    Sketch → Cursor source → Prop
  | first {e : Sketch} {next : Cursor source} (h : Reads d operand c e next) : Spine operand operator d c e next
  | step {e r : Sketch} {op : InfixOp} {m m' next : Cursor source} (h : Spine operand operator d c e m)
    (hm : m.atEnd = false) (hop : Reads d (spaced operator) m op m') (hr : Reads d operand m' r next)
    (hmoves : m.offset < next.offset) : Spine operand operator d c (e.applied op r) next

theorem Spine.mono {operand : Pattern Sketch} {operator : Pattern InfixOp} {e : Sketch} {d' : Nat}
    (h : Spine operand operator d c e next) (hd : d ≤ d') : Spine operand operator d' c e next := by
  induction h with
  | first h => exact .first (h.mono hd)
  | step h hm hop hr hmoves ih => exact .step ih hm (hop.mono hd) (hr.mono hd) hmoves

/-- An operator that is mapped, with blanks around it, was read as an operator. -/
theorem reads_of_spaced {α : Type} {operator : Pattern α} {f : α → InfixOp} {op : InfixOp}
    (h : Reads d (spaced (f <$> operator)) c op next) :
    ∃ a, Reads d (spaced operator) c a next ∧ f a = op := by
  obtain ⟨op', m', b, hleft, hgap, rfl⟩ := Reads.of_seq h
  obtain ⟨g, m, op'', hgap', hop, rfl⟩ := Reads.of_seq hleft
  obtain ⟨a, ha, rfl⟩ := Reads.of_build hop
  exact ⟨a, (hgap'.seq ha).seq hgap, rfl⟩

theorem misses_of_spaced {α : Type} {operator : Pattern α} {f : α → InfixOp}
    (h : Misses d (spaced (f <$> operator)) c) : Misses d (spaced operator) c := by
  rcases Misses.of_seq h with hleft | ⟨op, m, hleft, hgap⟩
  · rcases Misses.of_seq hleft with hgap | ⟨g, m, hgap, hop⟩
    · exact .seq_left (.seq_left hgap)
    · exact .seq_left (.seq_right hgap hop.of_build)
  · obtain ⟨g, m', op', hgap', hop, -⟩ := Reads.of_seq hleft
    obtain ⟨a, ha, -⟩ := Reads.of_build hop
    exact .seq_right (hgap'.seq ha) hgap

/-- A chain reads its spine. -/
theorem reads_chain {α : Type} {operand : Pattern Sketch} {operator : Pattern α} {f : α → InfixOp}
    {join : Sketch → α → Sketch → Sketch} (hjoin : ∀ l a r, join l a r = l.applied (f a) r) {e : Sketch}
    (h : Spine operand (f <$> operator) d c e next) (hstop : Misses d (spaced operator) next) :
    Reads d (chain join operand operator) c e next := by
  have hruns : ∃ first m steps, Reads d operand c first m ∧
      Runs ((Prod.mk <$> spaced operator <*> operand).eval (scriptGrammar.eval d)) m steps next ∧
      steps.foldl (fun left step => join left step.1 step.2) first = e := by
    clear hstop
    induction h with
    | @first e next h => exact ⟨e, next, [], h, .nil, rfl⟩
    | @step e r op m m' next h hm hop hr hmoves ih =>
      obtain ⟨first, start, steps, hfirst, hruns, hfold⟩ := ih
      obtain ⟨a, ha, rfl⟩ := reads_of_spaced hop
      refine ⟨first, start, steps ++ [(a, r)], hfirst, .snoc hruns hm ?_ hmoves, ?_⟩
      · exact (Reads.build ha).seq hr
      · rw [List.foldl_append, hfold]
        exact hjoin e a r
  obtain ⟨first, m, steps, hfirst, hruns, rfl⟩ := hruns
  have hmany := Reads.many hruns (.inr (Misses.seq_left (Misses.build hstop)))
  exact (Reads.build hfirst).seq hmany

/-- Each rung up to that of the products is a chain of the next one. -/
theorem reads_rung_of_spine {level : Nat} (hlevel : 1 ≤ level ∧ level ≤ 10) {e : Sketch}
    (h : Spine (rung (level + 1)) (rungOp level) d c e next)
    (hstop : Misses d (spaced (rungOp level)) next) : Reads (d + 1) (rung level) c e next := by
  have hcases : level = 1 ∨ level = 2 ∨ level = 3 ∨ level = 4 ∨ level = 5 ∨ level = 6 ∨ level = 7 ∨
    level = 8 ∨ level = 9 ∨ level = 10 := by omega
  rcases hcases with rfl | rfl | rfl | rfl | rfl | rfl | rfl | rfl | rfl | rfl <;>
    exact reads_chain (fun _ _ _ => rfl) h (misses_of_spaced hstop)

/-- The part of a power after its base. -/
def exponentPart : Pattern (BinaryOp × Sketch) := Prod.mk <$> spaced (ref .expOp) <*> ref .exponent

theorem reads_exponent_of_unary {e : Sketch} (h : Reads d (rung 12) c e next)
    (hstop : Misses d exponentPart next) : Reads (d + 1) (rung 11) c e next :=
  Reads.build ((Reads.build h).seq (.option_none hstop))

theorem reads_power {e r : Sketch} {m' : Cursor source} (h : Reads d (rung 12) c e m)
    (hm : m.atEnd = false) (hop : Reads d (spaced (rungOp 11)) m (.binary .power) m')
    (hr : Reads d (rung 11) m' r next) :
    ∃ span, Reads (d + 1) (rung 11) c ⟨.binaryExpression e .power r, span⟩ next := by
  obtain ⟨op, hop, heq⟩ := reads_of_spaced hop
  cases heq
  have hpart : Reads d exponentPart m (.power, r) next := (Reads.build hop).seq hr
  exact ⟨_, Reads.build ((Reads.build h).seq (.option_some hm hpart))⟩

/-! ## What may follow an operand -/

/-- A closing parenthesis, a semicolon, or an operator looser than the level. -/
inductive Follows (level : Nat) : Text → Prop
  | close (t : Text) : Follows level (CodePoint.ofChar ')' :: t)
  | semicolon (t : Text) : Follows level (CodePoint.ofChar ';' :: t)
  | operator (op : InfixOp) (h : op.level < level) (t : Text) : Follows level (op.text ++ t)

theorem Follows.mono {level level' : Nat} {t : Text} (h : Follows level t) (hle : level ≤ level') :
    Follows level' t := by
  cases h with
  | close t => exact .close t
  | semicolon t => exact .semicolon t
  | operator op h t => exact .operator op (Nat.lt_of_lt_of_le h hle) t

/-- The views of all that may follow. -/
def followers (level : Nat) : List (List Glimpse) :=
  Text.glimpses ")" :: Text.glimpses ";" ::
    (InfixOp.all.filter (·.level < level)).map fun op => op.text.glimpses

theorem shows_known (known t : Text) : Shows known.glimpses (known ++ t) := by
  have := shows_glimpses known (.nothing t)
  rwa [List.append_nil] at this

theorem Follows.shows {level : Nat} {t : Text} (h : Follows level t) :
    ∃ view ∈ followers level, Shows view t := by
  cases h with
  | close t => exact ⟨_, List.mem_cons_self, shows_known ")" t⟩
  | semicolon t => exact ⟨_, List.mem_cons_of_mem _ List.mem_cons_self, shows_known ";" t⟩
  | operator op h t =>
    refine ⟨op.text.glimpses, ?_, shows_known op.text t⟩
    refine List.mem_cons_of_mem _ (List.mem_cons_of_mem _ (List.mem_map.mpr ⟨op, ?_, rfl⟩))
    exact List.mem_filter.mpr ⟨op.mem_all, by simpa using h⟩

/-- No view of the list lets the pattern match. -/
def Barred {α : Type} (depth : Nat) (p : Pattern α) (views : List (List Glimpse)) : Prop :=
  (views.all fun view => p.foresee (scriptGrammar.foresee depth) view == some .missing) = true

theorem Barred.misses {α : Type} {depth : Nat} {p : Pattern α} {views : List (List Glimpse)}
    (h : Barred depth p views) (hshows : ∃ view ∈ views, Shows view c.rest) (hd : depth ≤ d) :
    Misses d p c := by
  obtain ⟨view, hview, hshows⟩ := hshows
  have hmissing := List.all_eq_true.mp h view hview
  exact Peg.eval_of_foresee_missing (beq_iff_eq.mp hmissing) hshows hd

theorem barred_rungOp {level : Nat} (hlevel : 1 ≤ level ∧ level ≤ 10) :
    Barred 1 (spaced (rungOp level)) (followers level) := by
  have hall : ((List.range 11).all fun level => level == 0 || (followers level).all fun view =>
      (spaced (rungOp level)).foresee (scriptGrammar.foresee 1) view == some .missing) = true := rfl
  have := List.all_eq_true.mp hall level (List.mem_range.mpr (by omega))
  rw [Bool.or_eq_true, beq_iff_eq] at this
  exact this.resolve_left (by omega)

theorem barred_exponentPart : Barred 1 exponentPart (followers 11) := by rfl

end ScriptAudit
