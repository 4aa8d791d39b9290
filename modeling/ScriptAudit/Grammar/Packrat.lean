/-
Matching with a table of what each rule came to at each offset, so that no rule is tried twice at the
same place. Every entry of the table carries the proof that it is the settled meaning of its rule, and
so does every answer: running out of depth is the only other outcome.
-/
import Std.Data.DHashMap
import ScriptAudit.Grammar.Settled

namespace ScriptAudit

variable {Rule : Type} {Out : Rule → Type} {source : Text} {α : Type}

/-- What a rule came to at an offset. -/
structure Entry (g : Grammar Out) (source : Text) (key : Rule × Nat) where
  reply : Reply source (Out key.1)
  settles : ∀ c : Cursor source, c.offset = key.2 → Settles g (.rule key.1) c reply

/-- What is known of the rules so far. -/
abbrev Memo [BEq Rule] [Hashable Rule] (g : Grammar Out) (source : Text) :=
  Std.DHashMap (Rule × Nat) (Entry g source)

/-- The settled meaning of an expression at a place, unless the rules nest too deeply there. -/
inductive Answer (g : Grammar Out) (p : Peg Out α) (c : Cursor source)
  | settled (reply : Reply source α) (settles : Settles g p c reply)
  | tooDeep

section Run

variable [BEq Rule] [Hashable Rule] {g : Grammar Out}

/-- Repeats an expression from `c` on. `before` holds what the repetition has yielded on the way from
`origin` to `c`, the last item first. -/
def Peg.repeat {p : Peg Out α} {limit : Text} {origin : Cursor source}
    (step : (c : Cursor source) → Memo g source → Answer g p c × Memo g source) :
    (bound : Text) → (c : Cursor source) → (before : List α) →
    (∀ as last, Iterates g p bound c (.found as last) →
      Iterates g p limit origin (.found (before.reverse ++ as) last)) →
    Memo g source →
    Option { reply // Iterates g p limit origin reply } × Memo g source
  | [], c, before, extend, memo => (some ⟨_, extend [] c .nil⟩, memo)
  | _ :: bound, c, before, extend, memo =>
    if hc : c.atEnd = true then (some ⟨_, extend [] c (.atEnd hc)⟩, memo)
    else
      have hc : c.atEnd = false := by simpa using hc
      match step c memo with
      | (.tooDeep, memo) => (none, memo)
      | (.settled .missing h, memo) => (some ⟨_, extend [] c (.stop hc h)⟩, memo)
      | (.settled (.found a next) h, memo) =>
        if ho : next.offset = c.offset then (some ⟨_, extend [a] next (.stall hc h ho)⟩, memo)
        else
          Peg.repeat step bound next (a :: before)
            (fun as last h' => by
              have := extend (a :: as) last (.step hc h ho h')
              simpa using this)
            memo

/-- Runs an expression, where `call` runs the rules. -/
def Peg.run (call : (r : Rule) → (c : Cursor source) → Memo g source →
      Answer g (.rule r) c × Memo g source) {α : Type} :
    (p : Peg Out α) → (c : Cursor source) → Memo g source → Answer g p c × Memo g source
  | .lexeme l, c, memo =>
    match h : l.length? c.rest with
    | none => (.settled .missing (.lexeme_missing h), memo)
    | some _ => (.settled _ (.lexeme_found h), memo)
  | .rule r, c, memo => call r c memo
  | .seq _ p q, c, memo =>
    match p.run call c memo with
    | (.tooDeep, memo) => (.tooDeep, memo)
    | (.settled .missing h, memo) => (.settled .missing (.seq_missing h), memo)
    | (.settled (.found _ middle) h, memo) =>
      match q.run call middle memo with
      | (.tooDeep, memo) => (.tooDeep, memo)
      | (.settled .missing h', memo) => (.settled .missing (.seq_found_missing h h'), memo)
      | (.settled (.found _ _) h', memo) => (.settled _ (.seq_found h h'), memo)
  | .either p q, c, memo =>
    match p.run call c memo with
    | (.tooDeep, memo) => (.tooDeep, memo)
    | (.settled (.found _ _) h, memo) => (.settled _ (.either_left h), memo)
    | (.settled .missing h, memo) =>
      match q.run call c memo with
      | (.tooDeep, memo) => (.tooDeep, memo)
      | (.settled _ h', memo) => (.settled _ (.either_right h h'), memo)
  | .many p, c, memo =>
    match Peg.repeat (p.run call) c.rest c [] (fun _ _ h => h) memo with
    | (none, memo) => (.tooDeep, memo)
    | (some ⟨_, h⟩, memo) => (.settled _ (.many h), memo)
  | .option p, c, memo =>
    if hc : c.atEnd = true then (.settled _ (.option_atEnd hc), memo)
    else
      have hc : c.atEnd = false := by simpa using hc
      match p.run call c memo with
      | (.tooDeep, memo) => (.tooDeep, memo)
      | (.settled .missing h, memo) => (.settled _ (.option_missing hc h), memo)
      | (.settled (.found _ _) h, memo) => (.settled _ (.option_found hc h), memo)
  | .absent p, c, memo =>
    match p.run call c memo with
    | (.tooDeep, memo) => (.tooDeep, memo)
    | (.settled .missing h, memo) => (.settled _ (.absent_missing h), memo)
    | (.settled (.found _ _) h, memo) => (.settled _ (.absent_found h), memo)
  | .build _ p, c, memo =>
    match p.run call c memo with
    | (.tooDeep, memo) => (.tooDeep, memo)
    | (.settled .missing h, memo) => (.settled .missing (.build_missing h), memo)
    | (.settled (.found _ _) h, memo) => (.settled _ (.build_found h), memo)

variable [LawfulBEq Rule]

/-- Runs a rule, at most `depth` rules inside each other. -/
def Grammar.run (g : Grammar Out) : (depth : Nat) → (r : Rule) → (c : Cursor source) →
    Memo g source → Answer g (.rule r) c × Memo g source
  | 0, _, _, memo => (.tooDeep, memo)
  | depth + 1, r, c, memo =>
    match memo.get? (r, c.offset) with
    | some entry => (.settled entry.reply (entry.settles c rfl), memo)
    | none =>
      match (g r).run (run g depth) c memo with
      | (.tooDeep, memo) => (.tooDeep, memo)
      | (.settled reply h, memo) =>
        (.settled reply h.rule,
          memo.insert (r, c.offset)
            ⟨reply, fun _ hd => Cursor.ext_offset hd ▸ h.rule⟩)

/-- What a rule comes to at the beginning of a source, or that it nests too deeply. -/
def Grammar.match (g : Grammar Out) (depth : Nat) (r : Rule) (source : Text) :
    Answer g (.rule r) (Cursor.start source) :=
  (g.run depth r (Cursor.start source) ∅).1

end Run

end ScriptAudit
