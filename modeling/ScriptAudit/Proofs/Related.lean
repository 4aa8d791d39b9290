/-
Expressions of one shape. Two expressions are related if they differ only in what they build, and build
related values from related values. Matched at places with the same text after them, they match alike and
yield related values (`Related.eval`), whatever they are and however far the two places are apart.

This is the abstraction theorem of the expressions. It says that nothing but the text from a place on
decides about a match there, and that a value is only ever touched by what builds it.
-/
import Mathlib.Data.List.Forall2
import ScriptAudit.Grammar.Settled

namespace ScriptAudit

/-- The span `k` code points further on. -/
def Span.shift (k : Nat) (span : Span) : Span := ⟨k + span.start, k + span.stop⟩

/-- Places with the same text after them, the second `k` code points further on. -/
structure Cursor.Apart {source source' : Text} (k : Nat) (c : Cursor source) (d : Cursor source') : Prop where
  offset : d.offset = k + c.offset
  rest : d.rest = c.rest

namespace Cursor.Apart

variable {source source' : Text} {k : Nat} {c : Cursor source} {d : Cursor source'}

theorem advance (h : c.Apart k d) (n : Nat) : (c.advance n).Apart k (d.advance n) where
  offset := (congrArg (· + n) h.offset).trans (Nat.add_assoc k c.offset n)
  rest := congrArg (List.drop n) h.rest

theorem atEnd_eq (h : c.Apart k d) : d.atEnd = c.atEnd := by rw [Cursor.atEnd, Cursor.atEnd, h.rest]

theorem offset_eq_iff {c' : Cursor source} {d' : Cursor source'} (h : c.Apart k d) (h' : c'.Apart k d') :
    d'.offset = d.offset ↔ c'.offset = c.offset := by
  rw [h.offset, h'.offset]
  omega

theorem span_eq {c' : Cursor source} {d' : Cursor source'} (h : c.Apart k d) (h' : c'.Apart k d') :
    (⟨d.offset, d'.offset⟩ : Span) = Span.shift k ⟨c.offset, c'.offset⟩ := by
  rw [h.offset, h'.offset]
  rfl

end Cursor.Apart

/-- Both replies are matches of related values that stop at corresponding places, or neither is. -/
inductive Reply.Rel {source source' : Text} {α β : Type} (k : Nat) (R : α → β → Prop) :
    Reply source α → Reply source' β → Prop
  | found {a : α} {b : β} {next : Cursor source} {next' : Cursor source'} (value : R a b)
    (place : next.Apart k next') : Rel k R (.found a next) (.found b next')
  | missing : Rel k R .missing .missing

/-- Both answers show and are related, or neither shows. -/
abbrev Reply.OptionRel {source source' : Text} {α β : Type} (k : Nat) (R : α → β → Prop) :
    Option (Reply source α) → Option (Reply source' β) → Prop :=
  Option.Rel (Reply.Rel k R)

variable {Rule : Type} {Out Out' : Rule → Type} {source source' : Text} {α β γ α' β' γ' : Type} {k : Nat}

/-- The expressions have one shape and build related values, if the rules do. The spans of the second are `k`
code points further on. -/
inductive Peg.Related (k : Nat) (rel : (r : Rule) → Out r → Out' r → Prop) :
    {α α' : Type} → (α → α' → Prop) → Peg Out α → Peg Out' α' → Prop
  | lexeme (l : Lexeme) : Related k rel Eq (.lexeme l) (.lexeme l)
  | rule (r : Rule) : Related k rel (rel r) (.rule r) (.rule r)
  | seq {α β γ α' β' γ' : Type} {R : α → α' → Prop} {S : β → β' → Prop} {T : γ → γ' → Prop}
    {f : α → β → γ} {f' : α' → β' → γ'} {p : Peg Out α} {p' : Peg Out' α'} {q : Peg Out β} {q' : Peg Out' β'}
    (hf : ∀ a a' b b', R a a' → S b b' → T (f a b) (f' a' b'))
    (hp : Related k rel R p p') (hq : Related k rel S q q') : Related k rel T (.seq f p q) (.seq f' p' q')
  | either {α α' : Type} {R : α → α' → Prop} {p q : Peg Out α} {p' q' : Peg Out' α'}
    (hp : Related k rel R p p') (hq : Related k rel R q q') : Related k rel R (.either p q) (.either p' q')
  | many {α α' : Type} {R : α → α' → Prop} {p : Peg Out α} {p' : Peg Out' α'} (hp : Related k rel R p p') :
    Related k rel (List.Forall₂ R) (.many p) (.many p')
  | option {α α' : Type} {R : α → α' → Prop} {p : Peg Out α} {p' : Peg Out' α'} (hp : Related k rel R p p') :
    Related k rel (Option.Rel R) (.option p) (.option p')
  | absent {α α' : Type} {R : α → α' → Prop} {p : Peg Out α} {p' : Peg Out' α'} (hp : Related k rel R p p') :
    Related k rel Eq (.absent p) (.absent p')
  | build {α β α' β' : Type} {R : α → α' → Prop} {S : β → β' → Prop} {f : Span → α → β} {f' : Span → α' → β'}
    {p : Peg Out α} {p' : Peg Out' α'} (hf : ∀ span a a', R a a' → S (f span a) (f' (span.shift k) a'))
    (hp : Related k rel R p p') : Related k rel S (.build f p) (.build f' p')
  /-- The second may build something more. -/
  | further {α α' β' : Type} {R : α → α' → Prop} {S : α → β' → Prop} {f' : Span → α' → β'} {p : Peg Out α}
    {p' : Peg Out' α'} (hf : ∀ span a a', R a a' → S a (f' span a')) (hp : Related k rel R p p') :
    Related k rel S p (.build f' p')
  | weaken {α α' : Type} {R S : α → α' → Prop} {p : Peg Out α} {p' : Peg Out' α'} (h : ∀ a a', R a a' → S a a')
    (hp : Related k rel R p p') : Related k rel S p p'

/-- At corresponding places the rules come to related answers. -/
def CallsRelated (k : Nat) (rel : (r : Rule) → Out r → Out' r → Prop)
    (call : (r : Rule) → Cursor source → Option (Reply source (Out r)))
    (call' : (r : Rule) → Cursor source' → Option (Reply source' (Out' r))) : Prop :=
  ∀ r c d, c.Apart k d → Reply.OptionRel k (rel r) (call r c) (call' r d)

theorem Reply.OptionRel.cases {R : α → α' → Prop} {answer : Option (Reply source α)}
    {answer' : Option (Reply source' α')} (h : Reply.OptionRel k R answer answer') :
    (answer = none ∧ answer' = none) ∨ (answer = some .missing ∧ answer' = some .missing) ∨
      ∃ a a' next next', answer = some (.found a next) ∧ answer' = some (.found a' next') ∧ R a a' ∧
        next.Apart k next' := by
  cases h with
  | none => exact .inl ⟨rfl, rfl⟩
  | some h =>
    cases h with
    | missing => exact .inr (.inl ⟨rfl, rfl⟩)
    | found value place => exact .inr (.inr ⟨_, _, _, _, rfl, rfl, value, place⟩)

/-- Where the first finds something, the second does. -/
theorem Reply.OptionRel.exists_found {R : α → α' → Prop} {a : α} {next : Cursor source}
    {answer' : Option (Reply source' α')} (h : Reply.OptionRel k R (some (.found a next)) answer') :
    ∃ a' next', answer' = some (.found a' next') ∧ R a a' ∧ next.Apart k next' := by
  obtain ⟨hnone, -⟩ | ⟨hmissing, -⟩ | ⟨_, a', _, next', hfound, hanswer, ha, hnext⟩ := h.cases
  · cases hnone
  · cases hmissing
  · cases hfound
    exact ⟨a', next', hanswer, ha, hnext⟩

theorem iterate_related {R : α → α' → Prop} {step : Cursor source → Option (Reply source α)}
    {step' : Cursor source' → Option (Reply source' α')}
    (h : ∀ c d, c.Apart k d → Reply.OptionRel k R (step c) (step' d)) (bound : Text) :
    ∀ {c d}, c.Apart k d → Reply.OptionRel k (List.Forall₂ R) (iterate step bound c) (iterate step' bound d) := by
  induction bound with
  | nil => exact fun hcd => .some (.found .nil hcd)
  | cons _ bound ih =>
    intro c d hcd
    unfold iterate
    rw [hcd.atEnd_eq]
    split
    · exact .some (.found .nil hcd)
    · obtain ⟨hc, hd⟩ | ⟨hc, hd⟩ | ⟨a, a', next, next', hc, hd, ha, hnext⟩ := (h c d hcd).cases
      · rw [hc, hd]; exact .none
      · rw [hc, hd]; exact .some (.found .nil hcd)
      · simp only [hc, hd, hcd.offset_eq_iff hnext]
        split
        · exact .some (.found (.cons ha .nil) hnext)
        · obtain ⟨hi, hi'⟩ | ⟨hi, hi'⟩ | ⟨as, as', last, last', hi, hi', has, hlast⟩ := (ih hnext).cases
          · rw [hi, hi']; exact .none
          · rw [hi, hi']; exact .some .missing
          · rw [hi, hi']; exact .some (.found (.cons ha has) hlast)

/-- **Related expressions match alike.** -/
theorem Peg.Related.eval {rel : (r : Rule) → Out r → Out' r → Prop}
    {call : (r : Rule) → Cursor source → Option (Reply source (Out r))}
    {call' : (r : Rule) → Cursor source' → Option (Reply source' (Out' r))} (hcalls : CallsRelated k rel call call')
    {R : α → α' → Prop} {p : Peg Out α} {p' : Peg Out' α'} (h : Related k rel R p p') :
    ∀ {c d}, c.Apart k d → Reply.OptionRel k R (p.eval call c) (p'.eval call' d) := by
  induction h with
  | lexeme l =>
    intro c d hcd
    rw [Peg.eval_lexeme, Peg.eval_lexeme, hcd.rest]
    cases l.length? c.rest with
    | none => exact .some .missing
    | some n => exact .some (.found rfl (hcd.advance n))
  | rule r => exact hcalls r _ _
  | seq hf _ _ ihp ihq =>
    intro c d hcd
    rw [Peg.eval_seq, Peg.eval_seq]
    obtain ⟨hc, hd⟩ | ⟨hc, hd⟩ | ⟨a, a', middle, middle', hc, hd, ha, hmiddle⟩ := (ihp hcd).cases
    · rw [hc, hd]; exact .none
    · rw [hc, hd]; exact .some .missing
    · obtain ⟨hm, hm'⟩ | ⟨hm, hm'⟩ | ⟨b, b', next, next', hm, hm', hb, hnext⟩ := (ihq hmiddle).cases
      · simp only [hc, hd, hm, hm']; exact .none
      · simp only [hc, hd, hm, hm']; exact .some .missing
      · simp only [hc, hd, hm, hm']; exact .some (.found (hf _ _ _ _ ha hb) hnext)
  | either _ _ ihp ihq =>
    intro c d hcd
    rw [Peg.eval_either, Peg.eval_either]
    obtain ⟨hc, hd⟩ | ⟨hc, hd⟩ | ⟨a, a', next, next', hc, hd, ha, hnext⟩ := (ihp hcd).cases
    · rw [hc, hd]; exact .none
    · rw [hc, hd]; exact ihq hcd
    · rw [hc, hd]; exact .some (.found ha hnext)
  | many _ ih =>
    intro c d hcd
    rw [Peg.eval, Peg.eval, hcd.rest]
    exact iterate_related (fun _ _ => ih) c.rest hcd
  | option _ ih =>
    intro c d hcd
    rw [Peg.eval_option, Peg.eval_option, hcd.atEnd_eq]
    split
    · exact .some (.found .none hcd)
    · obtain ⟨hc, hd⟩ | ⟨hc, hd⟩ | ⟨a, a', next, next', hc, hd, ha, hnext⟩ := (ih hcd).cases
      · rw [hc, hd]; exact .none
      · rw [hc, hd]; exact .some (.found .none hcd)
      · rw [hc, hd]; exact .some (.found (.some ha) hnext)
  | absent _ ih =>
    intro c d hcd
    rw [Peg.eval_absent, Peg.eval_absent]
    obtain ⟨hc, hd⟩ | ⟨hc, hd⟩ | ⟨a, a', next, next', hc, hd, ha, hnext⟩ := (ih hcd).cases
    · rw [hc, hd]; exact .none
    · rw [hc, hd]; exact .some (.found rfl hcd)
    · rw [hc, hd]; exact .some .missing
  | build hf _ ih =>
    intro c d hcd
    rw [Peg.eval_build, Peg.eval_build]
    obtain ⟨hc, hd⟩ | ⟨hc, hd⟩ | ⟨a, a', next, next', hc, hd, ha, hnext⟩ := (ih hcd).cases
    · rw [hc, hd]; exact .none
    · rw [hc, hd]; exact .some .missing
    · simp only [hc, hd]
      refine .some (.found ?_ hnext)
      rw [hcd.span_eq hnext]
      exact hf _ _ _ ha
  | further hf _ ih =>
    intro c d hcd
    rw [Peg.eval_build]
    obtain ⟨hc, hd⟩ | ⟨hc, hd⟩ | ⟨a, a', next, next', hc, hd, ha, hnext⟩ := (ih hcd).cases
    · rw [hc, hd]; exact .none
    · rw [hc, hd]; exact .some .missing
    · rw [hc, hd]; exact .some (.found (hf _ _ _ ha) hnext)
  | weaken h _ ih =>
    intro c d hcd
    obtain ⟨hc, hd⟩ | ⟨hc, hd⟩ | ⟨a, a', next, next', hc, hd, ha, hnext⟩ := (ih hcd).cases
    · rw [hc, hd]; exact .none
    · rw [hc, hd]; exact .some .missing
    · rw [hc, hd]; exact .some (.found (h _ _ ha) hnext)

/-- Grammars with related rules come to related answers at every depth. -/
theorem Grammar.eval_related {rel : (r : Rule) → Out r → Out' r → Prop} {g : Grammar Out} {g' : Grammar Out'}
    (h : ∀ r, Peg.Related k rel (rel r) (g r) (g' r)) (depth : Nat) :
    CallsRelated k rel (fun r (c : Cursor source) => g.eval depth r c)
      (fun r (d : Cursor source') => g'.eval depth r d) := by
  induction depth with
  | zero => exact fun _ _ _ _ => .none
  | succ depth ih => exact fun r _ _ hcd => (h r).eval ih hcd

/-- Related expressions settle on related replies. -/
theorem Settles.related {rel : (r : Rule) → Out r → Out' r → Prop} {g : Grammar Out} {g' : Grammar Out'}
    (hg : ∀ r, Peg.Related k rel (rel r) (g r) (g' r)) {R : α → α' → Prop} {p : Peg Out α} {p' : Peg Out' α'}
    (hp : Peg.Related k rel R p p') {c : Cursor source} {d : Cursor source'} (hcd : c.Apart k d)
    {reply : Reply source α} {reply' : Reply source' α'} (h : Settles g p c reply) (h' : Settles g' p' d reply') :
    Reply.Rel k R reply reply' := by
  obtain ⟨m, e⟩ := h
  obtain ⟨n, e'⟩ := h'
  have hrel : Reply.OptionRel k R (p.eval (g.eval (max m n)) c) (p'.eval (g'.eval (max m n)) d) :=
    hp.eval (Grammar.eval_related hg (max m n)) hcd
  rw [Settles.eval_of_le e (Nat.le_max_left m n), Settles.eval_of_le e' (Nat.le_max_right m n)] at hrel
  cases hrel with
  | some h => exact h

/-- Whatever it builds, an expression has its own shape. -/
theorem Peg.Related.any {rel : (r : Rule) → Out r → Out r → Prop} (p : Peg Out α) :
    p.Related k rel (fun _ _ => True) p := by
  induction p with
  | lexeme l => exact .weaken (fun _ _ _ => trivial) (.lexeme l)
  | rule r => exact .weaken (fun _ _ _ => trivial) (.rule r)
  | seq f p q ihp ihq => exact .seq (fun _ _ _ _ _ _ => trivial) ihp ihq
  | either p q ihp ihq => exact .either ihp ihq
  | many p ih => exact .weaken (fun _ _ _ => trivial) (.many ih)
  | option p ih => exact .weaken (fun _ _ _ => trivial) (.option ih)
  | absent p ih => exact .weaken (fun _ _ _ => trivial) (.absent ih)
  | build f p ih => exact .build (fun _ _ _ _ => trivial) ih

/-- What an expression comes to at one place it comes to at any other with the same text after it, but for what
it builds. -/
theorem Settles.apart {g : Grammar Out} {p : Peg Out α} {c : Cursor source} {d : Cursor source'}
    (hcd : c.Apart k d) {reply : Reply source α} {reply' : Reply source' α} (h : Settles g p c reply)
    (h' : Settles g p d reply') : Reply.Rel k (fun _ _ => True) reply reply' :=
  have hg : ∀ r, Peg.Related k (fun _ _ _ => True) (fun _ _ => True) (g r) (g r) := fun r => .any (g r)
  h.related hg (.any p) hcd h'

end ScriptAudit
