/-
Depth only ever adds answers: what a parsing expression means at one depth it means at every greater
one (`Peg.eval_mono`, `Grammar.eval_le`). So a settled meaning can be put together from the settled
meanings of the parts, whatever the depths at which those were found, and the `Settles` lemmas below
say how for each kind of expression.
-/
import ScriptAudit.Grammar.Peg

namespace ScriptAudit

variable {Rule : Type} {Out : Rule → Type} {source : Text} {α β γ : Type}

/-! ## More depth, same answers -/

/-- `call` answers nothing that `call'` does not answer in the same way. -/
def Extends (call call' : (r : Rule) → Cursor source → Option (Reply source (Out r))) : Prop :=
  ∀ r c reply, call r c = some reply → call' r c = some reply

theorem iterate_mono {step step' : Cursor source → Option (Reply source α)}
    (h : ∀ c reply, step c = some reply → step' c = some reply) (bound : Text) :
    ∀ c reply, iterate step bound c = some reply → iterate step' bound c = some reply := by
  induction bound with
  | nil => intro c reply e; exact e
  | cons _ bound ih =>
    intro c reply e
    unfold iterate at e ⊢
    split at e
    · rename_i hc; rw [if_pos hc]; exact e
    · rename_i hc
      rw [if_neg hc]
      cases hs : step c with
      | none => simp [hs] at e
      | some r =>
        rw [h c r hs]
        rw [hs] at e
        cases r with
        | missing => exact e
        | found a next =>
          simp only at e ⊢
          split at e
          · rename_i ho; rw [if_pos ho]; exact e
          · rename_i ho
            rw [if_neg ho]
            cases hi : iterate step bound next with
            | none => simp [hi] at e
            | some r => rw [ih _ _ hi]; rw [hi] at e; exact e

theorem Peg.eval_mono {call call' : (r : Rule) → Cursor source → Option (Reply source (Out r))}
    (h : Extends call call') (p : Peg Out α) :
    ∀ c reply, p.eval call c = some reply → p.eval call' c = some reply := by
  induction p with
  | lexeme l => intro c reply e; exact e
  | rule r => intro c reply e; exact h r c reply e
  | seq f p q ihp ihq =>
    intro c reply e
    simp only [Peg.eval_seq] at e ⊢
    cases hp : p.eval call c with
    | none => simp [hp] at e
    | some r =>
      rw [ihp c r hp]
      rw [hp] at e
      cases r with
      | missing => exact e
      | found a middle =>
        simp only at e ⊢
        cases hq : q.eval call middle with
        | none => simp [hq] at e
        | some r => rw [ihq _ r hq]; rw [hq] at e; exact e
  | either p q ihp ihq =>
    intro c reply e
    simp only [Peg.eval_either] at e ⊢
    cases hp : p.eval call c with
    | none => simp [hp] at e
    | some r =>
      rw [ihp c r hp]
      rw [hp] at e
      cases r with
      | missing => exact ihq c reply e
      | found a next => exact e
  | many p ih => intro c reply e; exact iterate_mono ih _ c reply e
  | option p ih =>
    intro c reply e
    simp only [Peg.eval_option] at e ⊢
    split at e
    · rename_i hc; rw [if_pos hc]; exact e
    · rename_i hc
      rw [if_neg hc]
      cases hp : p.eval call c with
      | none => simp [hp] at e
      | some r => rw [ih c r hp]; rw [hp] at e; exact e
  | absent p ih =>
    intro c reply e
    simp only [Peg.eval_absent] at e ⊢
    cases hp : p.eval call c with
    | none => simp [hp] at e
    | some r => rw [ih c r hp]; rw [hp] at e; exact e
  | build f p ih =>
    intro c reply e
    simp only [Peg.eval_build] at e ⊢
    cases hp : p.eval call c with
    | none => simp [hp] at e
    | some r => rw [ih c r hp]; rw [hp] at e; exact e

theorem Grammar.eval_succ (g : Grammar Out) (depth : Nat) :
    ∀ r (c : Cursor source) reply, g.eval depth r c = some reply →
      g.eval (depth + 1) r c = some reply := by
  induction depth with
  | zero => intro r c reply e; simp [Grammar.eval] at e
  | succ depth ih => intro r c reply e; exact (g r).eval_mono ih c reply e

theorem Grammar.eval_le (g : Grammar Out) {n m : Nat} (h : n ≤ m) :
    ∀ r (c : Cursor source) reply, g.eval n r c = some reply → g.eval m r c = some reply := by
  induction h with
  | refl => exact fun _ _ _ e => e
  | step _ ih => exact fun r c reply e => eval_succ g _ r c reply (ih r c reply e)

/-! ## Settled meanings -/

/-- Repetition has this meaning at some depth. -/
def Iterates (g : Grammar Out) (p : Peg Out α) (bound : Text) (c : Cursor source)
    (reply : Reply source (List α)) : Prop :=
  ∃ depth, iterate (p.eval (g.eval depth)) bound c = some reply

namespace Settles

variable {g : Grammar Out} {p : Peg Out α} {q : Peg Out β} {c : Cursor source}

theorem eval_of_le {reply : Reply source α} {n m : Nat} (h : p.eval (g.eval n) c = some reply)
    (hm : n ≤ m) : p.eval (g.eval m) c = some reply :=
  p.eval_mono (Grammar.eval_le g hm) c reply h

/-- Two settled meanings are found at one depth. -/
theorem both {d : Cursor source} {reply : Reply source α} {reply' : Reply source β}
    (h : Settles g p c reply) (h' : Settles g q d reply') :
    ∃ depth, p.eval (g.eval depth) c = some reply ∧ q.eval (g.eval depth) d = some reply' := by
  obtain ⟨n, hn⟩ := h
  obtain ⟨m, hm⟩ := h'
  exact ⟨max n m, eval_of_le hn (Nat.le_max_left n m), eval_of_le hm (Nat.le_max_right n m)⟩

theorem unique {reply reply' : Reply source α} (h : Settles g p c reply)
    (h' : Settles g p c reply') : reply = reply' := by
  obtain ⟨n, hn, hm⟩ := h.both h'
  exact Option.some.inj (hn.symm.trans hm)

theorem lexeme_missing {l : Lexeme} (h : l.length? c.rest = none) :
    Settles g (.lexeme l) c .missing :=
  ⟨0, by simp [Peg.eval_lexeme, h]⟩

theorem lexeme_found {l : Lexeme} {n : Nat} (h : l.length? c.rest = some n) :
    Settles g (.lexeme l) c (.found (c.rest.take n) (c.advance n)) :=
  ⟨0, by simp [Peg.eval_lexeme, h]⟩

theorem rule {r : Rule} {reply : Reply source (Out r)} (h : Settles g (g r) c reply) :
    Settles g (.rule r) c reply := by
  obtain ⟨n, hn⟩ := h
  exact ⟨n + 1, hn⟩

theorem seq_missing {f : α → β → γ} (h : Settles g p c .missing) :
    Settles g (.seq f p q) c .missing := by
  obtain ⟨n, hn⟩ := h
  exact ⟨n, by simp only [Peg.eval_seq, hn]⟩

theorem seq_found_missing {f : α → β → γ} {a : α} {middle : Cursor source}
    (h : Settles g p c (.found a middle)) (h' : Settles g q middle .missing) :
    Settles g (.seq f p q) c .missing := by
  obtain ⟨n, hp, hq⟩ := h.both h'
  exact ⟨n, by simp only [Peg.eval_seq, hp, hq]⟩

theorem seq_found {f : α → β → γ} {a : α} {b : β} {middle next : Cursor source}
    (h : Settles g p c (.found a middle)) (h' : Settles g q middle (.found b next)) :
    Settles g (.seq f p q) c (.found (f a b) next) := by
  obtain ⟨n, hp, hq⟩ := h.both h'
  exact ⟨n, by simp only [Peg.eval_seq, hp, hq]⟩

theorem either_left {p' : Peg Out α} {a : α} {next : Cursor source}
    (h : Settles g p c (.found a next)) : Settles g (.either p p') c (.found a next) := by
  obtain ⟨n, hn⟩ := h
  exact ⟨n, by simp only [Peg.eval_either, hn]⟩

theorem either_right {p' : Peg Out α} {reply : Reply source α} (h : Settles g p c .missing)
    (h' : Settles g p' c reply) : Settles g (.either p p') c reply := by
  obtain ⟨n, hp, hq⟩ := h.both h'
  exact ⟨n, by simp only [Peg.eval_either, hp, hq]⟩

theorem option_atEnd (h : c.atEnd = true) : Settles g (.option p) c (.found none c) :=
  ⟨0, by simp [Peg.eval_option, h]⟩

theorem option_missing (hc : c.atEnd = false) (h : Settles g p c .missing) :
    Settles g (.option p) c (.found none c) := by
  obtain ⟨n, hn⟩ := h
  exact ⟨n, by simp [Peg.eval_option, hn, hc]⟩

theorem option_found (hc : c.atEnd = false) {a : α} {next : Cursor source}
    (h : Settles g p c (.found a next)) : Settles g (.option p) c (.found (some a) next) := by
  obtain ⟨n, hn⟩ := h
  exact ⟨n, by simp [Peg.eval_option, hn, hc]⟩

theorem absent_missing (h : Settles g p c .missing) : Settles g (.absent p) c (.found () c) := by
  obtain ⟨n, hn⟩ := h
  exact ⟨n, by simp only [Peg.eval_absent, hn]⟩

theorem absent_found {a : α} {next : Cursor source} (h : Settles g p c (.found a next)) :
    Settles g (.absent p) c .missing := by
  obtain ⟨n, hn⟩ := h
  exact ⟨n, by simp only [Peg.eval_absent, hn]⟩

theorem build_missing {f : Span → α → β} (h : Settles g p c .missing) :
    Settles g (.build f p) c .missing := by
  obtain ⟨n, hn⟩ := h
  exact ⟨n, by simp only [Peg.eval_build, hn]⟩

theorem build_found {f : Span → α → β} {a : α} {next : Cursor source}
    (h : Settles g p c (.found a next)) :
    Settles g (.build f p) c (.found (f ⟨c.offset, next.offset⟩ a) next) := by
  obtain ⟨n, hn⟩ := h
  exact ⟨n, by simp only [Peg.eval_build, hn]⟩

theorem many {reply : Reply source (List α)} (h : Iterates g p c.rest c reply) :
    Settles g (.many p) c reply := h

end Settles

namespace Iterates

variable {g : Grammar Out} {p : Peg Out α} {bound : Text} {x : CodePoint}
  {c : Cursor source}

theorem nil : Iterates g p [] c (.found [] c) := ⟨0, rfl⟩

theorem atEnd (h : c.atEnd = true) : Iterates g p bound c (.found [] c) := by
  refine ⟨0, ?_⟩
  cases bound with
  | nil => rfl
  | cons _ bound => simp [iterate, h]

theorem stop (hc : c.atEnd = false) (h : Settles g p c .missing) :
    Iterates g p (x :: bound) c (.found [] c) := by
  obtain ⟨n, hn⟩ := h
  exact ⟨n, by simp [iterate, hc, hn]⟩

theorem stall (hc : c.atEnd = false) {a : α} {next : Cursor source}
    (h : Settles g p c (.found a next)) (ho : next.offset = c.offset) :
    Iterates g p (x :: bound) c (.found [a] next) := by
  obtain ⟨n, hn⟩ := h
  exact ⟨n, by simp [iterate, hc, hn, ho]⟩

theorem step (hc : c.atEnd = false) {a : α} {as : List α} {next last : Cursor source}
    (h : Settles g p c (.found a next)) (ho : next.offset ≠ c.offset)
    (h' : Iterates g p bound next (.found as last)) :
    Iterates g p (x :: bound) c (.found (a :: as) last) := by
  obtain ⟨n, hn⟩ := h
  obtain ⟨m, hm⟩ := h'
  refine ⟨max n m, ?_⟩
  have hp := Settles.eval_of_le hn (Nat.le_max_left n m)
  have hi := iterate_mono (fun d reply (e : p.eval (g.eval m) d = some reply) =>
    Settles.eval_of_le e (Nat.le_max_right n m)) bound next _ hm
  simp [iterate, hc, hp, ho, hi]

end Iterates

end ScriptAudit
