/-
Matching with a memo comes to what the expression means. An answer is the settled meaning by its type;
that there is an answer wherever the meaning shows at a depth, whatever is in the memo, is by induction
on the expression and on the depth (`Grammar.run_of_eval`). For scripts this says when a text is read:
`settles_of_parse` in one direction and `parse_of_eval` in the other.
-/
import ScriptAudit.Script.Program

namespace ScriptAudit

section Run

variable {Rule : Type} {Out : Rule → Type} {source : Text} {α : Type} [BEq Rule] [Hashable Rule]
  {g : Grammar Out}

/-- The run settles on something. -/
def Answered {p : Peg Out α} {c : Cursor source} (run : Answer g p c × Memo g source) : Prop :=
  ∃ reply h memo, run = (.settled reply h, memo)

/-- The run settles on this reply. -/
def Answers {p : Peg Out α} {c : Cursor source} (run : Answer g p c × Memo g source)
    (reply : Reply source α) : Prop :=
  ∃ h memo, run = (.settled reply h, memo)

/-- An answer at all is the right one. -/
theorem Answered.answers {p : Peg Out α} {c : Cursor source} {run : Answer g p c × Memo g source}
    {reply : Reply source α} (h : Answered run) (hr : Settles g p c reply) : Answers run reply := by
  obtain ⟨reply', h', memo, e⟩ := h
  obtain rfl := hr.unique h'
  exact ⟨h', memo, e⟩

theorem Peg.repeat_of_iterate {p : Peg Out α} {limit : Text} {origin : Cursor source} {n : Nat}
    {step : (c : Cursor source) → Memo g source → Answer g p c × Memo g source}
    (hstep : ∀ c reply memo, p.eval (g.eval n) c = some reply → Answers (step c memo) reply)
    (bound : Text) :
    ∀ c before (extend : ∀ as last, Iterates g p bound c (.found as last) →
        Iterates g p limit origin (.found (before.reverse ++ as) last)) memo reply,
      iterate (p.eval (g.eval n)) bound c = some reply →
        ∃ result memo', Peg.repeat step bound c before extend memo = (some result, memo') := by
  induction bound with
  | nil => intro c before extend memo reply _; exact ⟨_, memo, rfl⟩
  | cons _ bound ih =>
    intro c before extend memo reply e
    unfold iterate at e
    unfold Peg.repeat
    split at e
    · rename_i hc
      rw [dif_pos hc]
      exact ⟨_, memo, rfl⟩
    · rename_i hc
      rw [dif_neg hc]
      cases hp : p.eval (g.eval n) c with
      | none => simp [hp] at e
      | some reply =>
        obtain ⟨h, memo', hrun⟩ := hstep c reply memo hp
        simp only [hrun]
        cases reply with
        | missing => exact ⟨_, memo', rfl⟩
        | found a next =>
          simp only [hp] at e
          by_cases ho : next.offset = c.offset
          · simp only [dif_pos ho]; exact ⟨_, memo', rfl⟩
          · simp only [dif_neg ho]
            rw [if_neg ho] at e
            cases hi : iterate (p.eval (g.eval n)) bound next with
            | none => simp [hi] at e
            | some reply => exact ih _ _ _ _ _ hi

theorem Peg.run_of_eval {n : Nat}
    {call : (r : Rule) → (c : Cursor source) → Memo g source → Answer g (.rule r) c × Memo g source}
    (hcall : ∀ r c reply memo, g.eval n r c = some reply → Answers (call r c memo) reply) (p : Peg Out α) :
    ∀ c reply memo, p.eval (g.eval n) c = some reply → Answers (p.run call c memo) reply := by
  suffices h : ∀ c reply memo, p.eval (g.eval n) c = some reply → Answered (p.run call c memo) from
    fun c reply memo e => (h c reply memo e).answers ⟨n, e⟩
  induction p with
  | lexeme l =>
    intro c reply memo e
    rw [Peg.run]
    split
    · exact ⟨_, _, memo, rfl⟩
    · exact ⟨_, _, memo, rfl⟩
  | rule r =>
    intro c reply memo e
    obtain ⟨h, memo', hr⟩ := hcall r c reply memo e
    exact ⟨_, h, memo', hr⟩
  | seq f p q ihp ihq =>
    intro c reply memo e
    rw [Peg.eval_seq] at e
    cases hp : p.eval (g.eval n) c with
    | none => simp [hp] at e
    | some r =>
      obtain ⟨h, memo, hrun⟩ := (ihp c r memo hp).answers ⟨n, hp⟩
      rw [Peg.run, hrun]
      cases r with
      | missing => exact ⟨_, _, memo, rfl⟩
      | found a middle =>
        simp only [hp] at e
        cases hq : q.eval (g.eval n) middle with
        | none => simp [hq] at e
        | some r =>
          obtain ⟨h', memo, hrun'⟩ := (ihq middle r memo hq).answers ⟨n, hq⟩
          simp only [hrun']
          cases r with
          | missing => exact ⟨_, _, memo, rfl⟩
          | found b next => exact ⟨_, _, memo, rfl⟩
  | either p q ihp ihq =>
    intro c reply memo e
    rw [Peg.eval_either] at e
    cases hp : p.eval (g.eval n) c with
    | none => simp [hp] at e
    | some r =>
      obtain ⟨h, memo, hrun⟩ := (ihp c r memo hp).answers ⟨n, hp⟩
      rw [Peg.run, hrun]
      cases r with
      | found a next => exact ⟨_, _, memo, rfl⟩
      | missing =>
        simp only [hp] at e
        obtain ⟨h', memo, hrun'⟩ := (ihq c reply memo e).answers ⟨n, e⟩
        simp only [hrun']
        exact ⟨_, _, memo, rfl⟩
  | many p ih =>
    intro c reply memo e
    obtain ⟨result, memo', hrun⟩ := Peg.repeat_of_iterate (fun c reply memo e =>
      (ih c reply memo e).answers ⟨n, e⟩) c.rest c [] (fun _ _ h => h) memo reply e
    rw [Peg.run, hrun]
    exact ⟨_, _, memo', rfl⟩
  | option p ih =>
    intro c reply memo e
    rw [Peg.eval_option] at e
    rw [Peg.run]
    split at e
    · rename_i hc
      rw [dif_pos hc]
      exact ⟨_, _, memo, rfl⟩
    · rename_i hc
      rw [dif_neg hc]
      cases hp : p.eval (g.eval n) c with
      | none => simp [hp] at e
      | some r =>
        obtain ⟨h, memo, hrun⟩ := (ih c r memo hp).answers ⟨n, hp⟩
        simp only [hrun]
        cases r with
        | missing => exact ⟨_, _, memo, rfl⟩
        | found a next => exact ⟨_, _, memo, rfl⟩
  | absent p ih =>
    intro c reply memo e
    rw [Peg.eval_absent] at e
    cases hp : p.eval (g.eval n) c with
    | none => simp [hp] at e
    | some r =>
      obtain ⟨h, memo, hrun⟩ := (ih c r memo hp).answers ⟨n, hp⟩
      rw [Peg.run, hrun]
      cases r with
      | missing => exact ⟨_, _, memo, rfl⟩
      | found a next => exact ⟨_, _, memo, rfl⟩
  | build f p ih =>
    intro c reply memo e
    rw [Peg.eval_build] at e
    cases hp : p.eval (g.eval n) c with
    | none => simp [hp] at e
    | some r =>
      obtain ⟨h, memo, hrun⟩ := (ih c r memo hp).answers ⟨n, hp⟩
      rw [Peg.run, hrun]
      cases r with
      | missing => exact ⟨_, _, memo, rfl⟩
      | found a next => exact ⟨_, _, memo, rfl⟩

/-- **What a rule means at a depth, running it that deep finds out.** -/
theorem Grammar.run_of_eval [LawfulBEq Rule] (g : Grammar Out) (depth : Nat) :
    ∀ r (c : Cursor source) reply memo, g.eval depth r c = some reply →
      Answers (g.run depth r c memo) reply := by
  induction depth with
  | zero => intro r c reply memo e; cases e
  | succ depth ih =>
    intro r c reply memo e
    have hsettles : Settles g (.rule r) c reply := ⟨depth + 1, e⟩
    rw [Grammar.run]
    cases hmemo : memo.get? (r, c.offset) with
    | some entry => exact Answered.answers ⟨_, _, memo, rfl⟩ hsettles
    | none =>
      obtain ⟨h, memo, hrun⟩ := Peg.run_of_eval ih (g r) c reply memo e
      simp only [hrun]
      exact Answered.answers ⟨_, _, _, rfl⟩ hsettles

end Run

/-! ## Scripts -/

theorem settles_of_parse {depth : Nat} {source filename : Text} {p : Program}
    (h : parseWithin depth source filename = .ok p) :
    ∃ statements next,
      Settles scriptGrammar (.rule Rule.program) (Cursor.start source) (.found statements next) ∧
      next.atEnd = true ∧ Sketch.readList statements = .ok p.body ∧ p.source = source ∧
        p.filename = filename := by
  unfold parseWithin at h
  split at h
  · cases h
  · exact absurd ‹_› program_ne_missing
  · rename_i statements next hs _
    split at h
    · rename_i hend
      split at h
      · rename_i body hread
        cases h
        exact ⟨statements, next, hs, hend, hread, rfl, rfl⟩
      · cases h
    · cases h

theorem exists_settles_of_parse {source filename : Text} (h : parse source filename ≠ .error .tooDeep) :
    ∃ statements next,
      Settles scriptGrammar (.rule Rule.program) (Cursor.start source) (.found statements next) := by
  unfold parse parseWithin at h
  split at h
  · exact absurd rfl h
  · exact absurd ‹_› program_ne_missing
  · rename_i statements next hs _
    exact ⟨statements, next, hs⟩

theorem parseWithin_eq_tooDeep_iff {depth : Nat} {source filename : Text} :
    parseWithin depth source filename = .error .tooDeep ↔ scriptGrammar.match depth .program source = .tooDeep := by
  unfold parseWithin
  split
  · rename_i hmatch
    exact iff_of_true rfl hmatch
  · exact absurd ‹_› program_ne_missing
  · rename_i hmatch
    refine iff_of_false ?_ (by rw [hmatch]; nofun)
    split
    · split <;> nofun
    · nofun

/-- What is made of a match from the beginning of a script. -/
def ofMatch (source filename : Text) (statements : List Sketch) (next : Cursor source) :
    Except ParseFailure Program :=
  if next.atEnd then
    match Sketch.readList statements with
    | .ok body => .ok ⟨body, source, filename⟩
    | .error fault => .error (.malformed fault)
  else .error (.unexpected next.offset)

/-- A script that is not too deep is read as its one match says. -/
theorem parseWithin_of_settles {source filename : Text} {statements : List Sketch} {next : Cursor source}
    (h : Settles scriptGrammar (.rule Rule.program) (Cursor.start source) (.found statements next))
    (depth : Nat) : parseWithin depth source filename = .error .tooDeep ∨
      parseWithin depth source filename = ofMatch source filename statements next := by
  unfold parseWithin
  split
  · exact .inl rfl
  · exact absurd ‹_› program_ne_missing
  · rename_i statements' next' hs _
    obtain ⟨rfl, rfl⟩ := Reply.found.inj (h.unique hs)
    exact .inr rfl

theorem parseWithin_of_eval {n depth : Nat} {source filename : Text} {statements : List Sketch}
    {next : Cursor source} (hn : n ≤ depth)
    (h : scriptGrammar.eval n .program (Cursor.start source) = some (.found statements next)) :
    parseWithin depth source filename = ofMatch source filename statements next := by
  have h := scriptGrammar.eval_le hn _ _ _ h
  obtain ⟨hs, memo, hrun⟩ := Grammar.run_of_eval scriptGrammar depth .program _ _ ∅ h
  simp only [parseWithin, Grammar.match, hrun]
  rfl

theorem parse_of_eval {n depth : Nat} {source filename : Text} {statements : List Sketch}
    {next : Cursor source} {body : List Tree} (hn : n ≤ depth)
    (h : scriptGrammar.eval n .program (Cursor.start source) = some (.found statements next))
    (hend : next.atEnd = true) (hread : Sketch.readList statements = .ok body) :
    parseWithin depth source filename = .ok ⟨body, source, filename⟩ := by
  rw [parseWithin_of_eval hn h, ofMatch, if_pos hend, hread]

theorem read_eq_ok_iff {source filename : Text} {p : Program} :
    Program.read source filename = .ok p ↔ parse source filename = .ok p := by
  unfold Program.read
  cases parse source filename with
  | error e => exact ⟨nofun, nofun⟩
  | ok q => exact ⟨fun h => by cases h; rfl, fun h => by cases h; rfl⟩

end ScriptAudit
