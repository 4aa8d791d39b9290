/-
Matches with the parts they are made of. `Peg.traced` matches as the expression does and yields the parts of
the match next to its value: those of the rules it refers to, one after the other. What is only looked at to
see that it is absent has no parts.
-/
import ScriptAudit.Proofs.Related

namespace ScriptAudit

variable {Rule : Type} {Out : Rule → Type} {Part : Type} {source : Text} {α : Type}

/-- What a rule yields, with the parts of its match. -/
abbrev Traced (Out : Rule → Type) (Part : Type) (r : Rule) : Type := Out r × List Part

/-- The expression that also yields the parts of its match. -/
def Peg.traced {α : Type} : Peg Out α → Peg (Traced Out Part) (α × List Part)
  | .lexeme l => .build (fun _ text => (text, [])) (.lexeme l)
  | .rule r => .rule r
  | .seq f p q => .seq (fun a b => (f a.1 b.1, a.2 ++ b.2)) p.traced q.traced
  | .either p q => .either p.traced q.traced
  | .many p => .build (fun _ items => (items.map Prod.fst, items.flatMap Prod.snd)) (.many p.traced)
  | .option p => .build (fun _ item => (item.map Prod.fst, item.toList.flatMap Prod.snd)) (.option p.traced)
  | .absent p => .build (fun _ _ => ((), [])) (.absent p.traced)
  | .build f p => .build (fun span a => (f span a.1, a.2)) p.traced

/-- The grammar whose rules also yield the parts of their matches. `parts` says which parts a match of a rule
has, from its value and the parts of what it is made of. -/
def Grammar.traced (g : Grammar Out) (parts : (r : Rule) → Out r → List Part → List Part) :
    Grammar (Traced Out Part) :=
  fun r => .build (fun _ a => (a.1, parts r a.1 a.2)) (g r).traced

/-- The same value, with parts. -/
def Carries {α : Type} (a : α) (b : α × List Part) : Prop := b.1 = a

theorem Span.shift_zero (span : Span) : span.shift 0 = span := by
  simp [Span.shift]

theorem Cursor.Apart.refl (c : Cursor source) : c.Apart 0 c := ⟨(Nat.zero_add _).symm, rfl⟩

theorem Cursor.Apart.eq {c d : Cursor source} (h : c.Apart 0 d) : d = c :=
  Cursor.ext_offset (h.offset.trans (Nat.zero_add _))

theorem map_fst_of_carries {items : List α} {traced : List (α × List Part)} (h : List.Forall₂ Carries items traced) :
    traced.map Prod.fst = items := by
  induction h with
  | nil => rfl
  | cons ha _ ih => rw [List.map_cons, ha, ih]

theorem Peg.related_traced (p : Peg Out α) :
    p.Related 0 (fun _ => Carries) Carries (p.traced : Peg (Traced Out Part) _) := by
  induction p with
  | lexeme l => exact .further (fun _ _ _ ha => ha.symm) (.lexeme l)
  | rule r => exact .rule r
  | seq f p q ihp ihq =>
    refine .seq (fun a a' b b' ha hb => ?_) ihp ihq
    rw [Carries, ha, hb]
  | either p q ihp ihq => exact .either ihp ihq
  | many p ih => exact .further (fun _ _ _ h => map_fst_of_carries h) (.many ih)
  | option p ih =>
    refine .further (fun _ _ _ h => ?_) (.option ih)
    cases h with
    | none => rfl
    | some ha => exact congrArg some ha
  | absent p ih => exact .further (fun _ _ _ _ => rfl) (.absent ih)
  | build f p ih =>
    refine .build (fun span a a' ha => ?_) ih
    rw [Carries, Span.shift_zero, ha]

theorem Grammar.related_traced (g : Grammar Out) (parts : (r : Rule) → Out r → List Part → List Part) (r : Rule) :
    (g r).Related 0 (fun _ => Carries) Carries (g.traced parts r) :=
  .further (fun _ _ _ ha => ha) (g r).related_traced

end ScriptAudit
