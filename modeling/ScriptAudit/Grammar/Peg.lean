/-
Parsing expressions with the values they build. A `Peg Out α` matches at a place of a text or does
not; where it matches it yields an `α` and the place after. Alternatives are tried in order, a
repetition takes what it can, and neither is reconsidered. Rules are referred to by name, and `Out`
gives the type of value each rule yields.

`Peg.eval` is the meaning of an expression, given the meaning of the rules to a certain depth;
`Grammar.eval` unrolls the rules that far. `Settles` abstracts from the depth.
-/
import ScriptAudit.Grammar.Cursor
import ScriptAudit.Grammar.Lexeme
import ScriptAudit.Tree.Node

namespace ScriptAudit

inductive Peg {Rule : Type} (Out : Rule → Type) : Type → Type 1
  /-- A lexeme yields its text. -/
  | lexeme (l : Lexeme) : Peg Out Text
  | rule (r : Rule) : Peg Out (Out r)
  /-- One expression after the other, their values combined. -/
  | seq {α β γ : Type} (f : α → β → γ) (p : Peg Out α) (q : Peg Out β) : Peg Out γ
  /-- The second expression is tried only where the first does not match. -/
  | either {α : Type} (p q : Peg Out α) : Peg Out α
  /-- As often as possible. Not tried at the end of the text, and no further after an empty match. -/
  | many {α : Type} (p : Peg Out α) : Peg Out (List α)
  /-- Once if possible. Not tried at the end of the text. -/
  | option {α : Type} (p : Peg Out α) : Peg Out (Option α)
  /-- Matches the empty text where the expression does not match. -/
  | absent {α : Type} (p : Peg Out α) : Peg Out Unit
  /-- Builds a value from the span of the match and its value. -/
  | build {α β : Type} (f : Span → α → β) (p : Peg Out α) : Peg Out β

/-- What matching at a place comes to. -/
inductive Reply (source : Text) (α : Type)
  | found (value : α) (next : Cursor source)
  | missing

/-- The rules of a grammar. -/
abbrev Grammar {Rule : Type} (Out : Rule → Type) := (r : Rule) → Peg Out (Out r)

section Writing

variable {Rule : Type} {Out : Rule → Type}

instance : Functor (Peg Out) where
  map f p := .build (fun _ a => f a) p

instance : Seq (Peg Out) where
  seq p q := .seq (fun f a => f a) p (q ())

instance : SeqLeft (Peg Out) where
  seqLeft p q := .seq (fun a _ => a) p (q ())

instance : SeqRight (Peg Out) where
  seqRight p q := .seq (fun _ b => b) p (q ())

instance {α : Type} : OrElse (Peg Out α) where
  orElse p q := .either p (q ())

end Writing

/-! ## Meaning -/

section Meaning

variable {Rule : Type} {Out : Rule → Type} {source : Text} {α : Type}

/-- Repeats a step from a place on, at most once for each code point of `bound`. The text that is left
is always enough of a bound, since a step that takes none of it is the last. -/
def iterate (step : Cursor source → Option (Reply source α)) :
    (bound : Text) → Cursor source → Option (Reply source (List α))
  | [], c => some (.found [] c)
  | _ :: bound, c =>
    if c.atEnd then some (.found [] c)
    else match step c with
      | none => none
      | some .missing => some (.found [] c)
      | some (.found a next) =>
        if next.offset = c.offset then some (.found [a] next)
        else match iterate step bound next with
          | some (.found as last) => some (.found (a :: as) last)
          | other => other

/-- The meaning of an expression where `call` gives the meaning of the rules; `none` where that does
not reach deep enough. -/
def Peg.eval (call : (r : Rule) → Cursor source → Option (Reply source (Out r))) {α : Type} :
    Peg Out α → Cursor source → Option (Reply source α)
  | .lexeme l, c =>
    match l.length? c.rest with
    | none => some .missing
    | some n => some (.found (c.rest.take n) (c.advance n))
  | .rule r, c => call r c
  | .seq f p q, c =>
    match p.eval call c with
    | none => none
    | some .missing => some .missing
    | some (.found a middle) =>
      match q.eval call middle with
      | none => none
      | some .missing => some .missing
      | some (.found b next) => some (.found (f a b) next)
  | .either p q, c =>
    match p.eval call c with
    | some .missing => q.eval call c
    | other => other
  | .many p, c => iterate (p.eval call) c.rest c
  | .option p, c =>
    if c.atEnd then some (.found none c)
    else match p.eval call c with
      | none => none
      | some .missing => some (.found none c)
      | some (.found a next) => some (.found (some a) next)
  | .absent p, c =>
    match p.eval call c with
    | none => none
    | some .missing => some (.found () c)
    | some (.found _ _) => some .missing
  | .build f p, c =>
    match p.eval call c with
    | none => none
    | some .missing => some .missing
    | some (.found a next) => some (.found (f ⟨c.offset, next.offset⟩ a) next)

namespace Peg

variable {β γ : Type} {call : (r : Rule) → Cursor source → Option (Reply source (Out r))}
  {c : Cursor source}

theorem eval_lexeme {l : Lexeme} :
    (lexeme l : Peg Out Text).eval call c = match l.length? c.rest with
      | none => some .missing
      | some n => some (.found (c.rest.take n) (c.advance n)) := rfl

theorem eval_seq {f : α → β → γ} {p : Peg Out α} {q : Peg Out β} :
    (seq f p q).eval call c = match p.eval call c with
      | none => none
      | some .missing => some .missing
      | some (.found a middle) =>
        match q.eval call middle with
        | none => none
        | some .missing => some .missing
        | some (.found b next) => some (.found (f a b) next) := rfl

theorem eval_either {p q : Peg Out α} :
    (either p q).eval call c = match p.eval call c with
      | some .missing => q.eval call c
      | other => other := rfl

theorem eval_option {p : Peg Out α} :
    (option p).eval call c = if c.atEnd then some (.found none c)
      else match p.eval call c with
        | none => none
        | some .missing => some (.found none c)
        | some (.found a next) => some (.found (some a) next) := rfl

theorem eval_absent {p : Peg Out α} :
    (absent p).eval call c = match p.eval call c with
      | none => none
      | some .missing => some (.found () c)
      | some (.found _ _) => some .missing := rfl

theorem eval_build {f : Span → α → β} {p : Peg Out α} :
    (build f p).eval call c = match p.eval call c with
      | none => none
      | some .missing => some .missing
      | some (.found a next) => some (.found (f ⟨c.offset, next.offset⟩ a) next) := rfl

end Peg

/-- The meaning of a rule as far as `depth` rules inside each other show it. -/
def Grammar.eval (g : Grammar Out) : (depth : Nat) → (r : Rule) → Cursor source →
    Option (Reply source (Out r))
  | 0, _, _ => none
  | depth + 1, r, c => (g r).eval (eval g depth) c

/-- The expression has this meaning at some depth, and so at every greater one. -/
def Settles (g : Grammar Out) (p : Peg Out α) (c : Cursor source) (reply : Reply source α) : Prop :=
  ∃ depth, p.eval (g.eval depth) c = some reply

end Meaning

end ScriptAudit
