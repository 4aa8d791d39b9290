/-
Matching with a memo at places with the same text after them. The two runs try the same rules, and their memos
come to know the same ones, so that one of them gets as deep as the other does (`Grammar.run_alike`). Rules
that are matched at once are left out of account: they never run out of depth, whether the memo knows them or
not.
-/
import ScriptAudit.Grammar.Packrat
import ScriptAudit.Proofs.Related

namespace ScriptAudit

variable {Rule : Type} {Out : Rule → Type} {source source' : Text} {α : Type} {k : Nat} [BEq Rule] [Hashable Rule]
  {g : Grammar Out}

/-- The rule is matched without trying other rules, and the memo is not touched. -/
def Grammar.IsImmediate (g : Grammar Out) (r : Rule) : Prop :=
  ∀ {source : Text} (call : (r : Rule) → (c : Cursor source) → Memo g source →
      Answer g (.rule r) c × Memo g source) (c : Cursor source) (memo : Memo g source),
    ∃ reply h, (g r).run call c memo = (.settled reply h, memo)

/-- The memos know the same rules at corresponding places. -/
def Memo.Alike (k : Nat) (memo : Memo g source) (memo' : Memo g source') : Prop :=
  ∀ r, ¬g.IsImmediate r → ∀ offset, (r, offset) ∈ memo ↔ (r, k + offset) ∈ memo'

/-- The runs come to the same end and leave memos that know the same rules. -/
inductive RunsAlike (k : Nat) {p : Peg Out α} {c : Cursor source} {d : Cursor source'} :
    Answer g p c × Memo g source → Answer g p d × Memo g source' → Prop
  | tooDeep {memo : Memo g source} {memo' : Memo g source'} (hmemo : memo.Alike k memo') :
    RunsAlike k (.tooDeep, memo) (.tooDeep, memo')
  | missing {memo : Memo g source} {memo' : Memo g source'} {h : Settles g p c .missing}
    {h' : Settles g p d .missing} (hmemo : memo.Alike k memo') :
    RunsAlike k (.settled .missing h, memo) (.settled .missing h', memo')
  | found {memo : Memo g source} {memo' : Memo g source'} {a b : α} {next : Cursor source} {next' : Cursor source'}
    {h : Settles g p c (.found a next)} {h' : Settles g p d (.found b next')} (hnext : next.Apart k next')
    (hmemo : memo.Alike k memo') : RunsAlike k (.settled (.found a next) h, memo) (.settled (.found b next') h', memo')

/-- Runs that both settle do so alike. -/
theorem RunsAlike.settled {p : Peg Out α} {c : Cursor source} {d : Cursor source'} (hcd : c.Apart k d)
    {reply : Reply source α} {reply' : Reply source' α} {h : Settles g p c reply} {h' : Settles g p d reply'}
    {memo : Memo g source} {memo' : Memo g source'} (hmemo : memo.Alike k memo') :
    RunsAlike k (.settled reply h, memo) (.settled reply' h', memo') := by
  cases h.apart hcd h' with
  | missing => exact .missing hmemo
  | found _ hnext => exact .found hnext hmemo

/-- The repetitions come to the same end and leave memos that know the same rules. -/
def RepeatsAlike (k : Nat) {P : Reply source (List α) → Prop} {P' : Reply source' (List α) → Prop}
    (run : Option { reply // P reply } × Memo g source) (run' : Option { reply // P' reply } × Memo g source') :
    Prop :=
  run.1.isSome = run'.1.isSome ∧ run.2.Alike k run'.2

theorem Peg.repeat_alike {p : Peg Out α} {limit limit' : Text} {origin : Cursor source} {origin' : Cursor source'}
    {step : (c : Cursor source) → Memo g source → Answer g p c × Memo g source}
    {step' : (d : Cursor source') → Memo g source' → Answer g p d × Memo g source'}
    (hstep : ∀ {c d memo memo'}, c.Apart k d → memo.Alike k memo' → RunsAlike k (step c memo) (step' d memo'))
    {bound bound' : Text} (hbound : bound' = bound) :
    ∀ {c d before before' memo memo'}
      {extend : ∀ as last, Iterates g p bound c (.found as last) →
        Iterates g p limit origin (.found (before.reverse ++ as) last)}
      {extend' : ∀ as last, Iterates g p bound' d (.found as last) →
        Iterates g p limit' origin' (.found (before'.reverse ++ as) last)},
      c.Apart k d → memo.Alike k memo' →
      RepeatsAlike k (Peg.repeat step bound c before extend memo)
        (Peg.repeat step' bound' d before' extend' memo') := by
  subst hbound
  induction bound' with
  | nil => exact fun _ hmemo => ⟨rfl, hmemo⟩
  | cons _ bound ih =>
    intro c d before before' memo memo' extend extend' hcd hmemo
    unfold Peg.repeat
    by_cases hc : c.atEnd = true
    · rw [dif_pos hc, dif_pos (hcd.atEnd_eq.trans hc)]
      exact ⟨rfl, hmemo⟩
    · rw [dif_neg hc, dif_neg (by rwa [hcd.atEnd_eq])]
      have h := hstep hcd hmemo
      generalize step c memo = run at h
      generalize step' d memo' = run' at h
      cases h with
      | tooDeep hmemo => exact ⟨rfl, hmemo⟩
      | missing hmemo => exact ⟨rfl, hmemo⟩
      | found hnext hmemo =>
        simp only [hcd.offset_eq_iff hnext]
        split
        · exact ⟨rfl, hmemo⟩
        · exact ih hnext hmemo

/-- **Runs of an expression are alike if those of the rules are.** -/
theorem Peg.run_alike
    {call : (r : Rule) → (c : Cursor source) → Memo g source → Answer g (.rule r) c × Memo g source}
    {call' : (r : Rule) → (d : Cursor source') → Memo g source' → Answer g (.rule r) d × Memo g source'}
    (hcall : ∀ {r c d memo memo'}, c.Apart k d → memo.Alike k memo' →
      RunsAlike k (call r c memo) (call' r d memo')) (p : Peg Out α) :
    ∀ {c d memo memo'}, c.Apart k d → memo.Alike k memo' →
      RunsAlike k (p.run call c memo) (p.run call' d memo') := by
  induction p with
  | lexeme l =>
    intro c d memo memo' hcd hmemo
    rw [Peg.run, Peg.run]
    split <;> split <;> exact .settled hcd hmemo
  | rule r => exact hcall
  | seq f p q ihp ihq =>
    intro c d memo memo' hcd hmemo
    rw [Peg.run, Peg.run]
    have hp := ihp hcd hmemo
    generalize p.run call c memo = run at hp
    generalize p.run call' d memo' = run' at hp
    cases hp with
    | tooDeep hmemo => exact .tooDeep hmemo
    | missing hmemo => exact .settled hcd hmemo
    | @found memo memo' a b middle middle' h h' hmiddle hmemo =>
      have hq := ihq hmiddle hmemo
      dsimp only
      generalize q.run call middle memo = run at hq
      generalize q.run call' middle' memo' = run' at hq
      cases hq with
      | tooDeep hmemo => exact .tooDeep hmemo
      | missing hmemo => exact .settled hcd hmemo
      | found _ hmemo => exact .settled hcd hmemo
  | either p q ihp ihq =>
    intro c d memo memo' hcd hmemo
    rw [Peg.run, Peg.run]
    have hp := ihp hcd hmemo
    generalize p.run call c memo = run at hp
    generalize p.run call' d memo' = run' at hp
    cases hp with
    | tooDeep hmemo => exact .tooDeep hmemo
    | found _ hmemo => exact .settled hcd hmemo
    | @missing memo memo' h h' hmemo =>
      have hq := ihq hcd hmemo
      dsimp only
      generalize q.run call c memo = run at hq
      generalize q.run call' d memo' = run' at hq
      cases hq with
      | tooDeep hmemo => exact .tooDeep hmemo
      | missing hmemo => exact .settled hcd hmemo
      | found _ hmemo => exact .settled hcd hmemo
  | many p ih =>
    intro c d memo memo' hcd hmemo
    rw [Peg.run, Peg.run]
    have h : RepeatsAlike k (Peg.repeat (p.run call) c.rest c [] (fun _ _ h => h) memo)
        (Peg.repeat (p.run call') d.rest d [] (fun _ _ h => h) memo') := Peg.repeat_alike ih hcd.rest hcd hmemo
    split <;> rename_i hrun <;> split <;> rename_i hrun' <;> rw [hrun, hrun'] at h
    · exact .tooDeep h.2
    · cases h.1
    · cases h.1
    · exact .settled hcd h.2
  | option p ih =>
    intro c d memo memo' hcd hmemo
    rw [Peg.run, Peg.run]
    by_cases hc : c.atEnd = true
    · rw [dif_pos hc, dif_pos (hcd.atEnd_eq.trans hc)]
      exact .settled hcd hmemo
    · rw [dif_neg hc, dif_neg (by rwa [hcd.atEnd_eq])]
      have hp := ih hcd hmemo
      generalize p.run call c memo = run at hp
      generalize p.run call' d memo' = run' at hp
      cases hp with
      | tooDeep hmemo => exact .tooDeep hmemo
      | missing hmemo => exact .settled hcd hmemo
      | found _ hmemo => exact .settled hcd hmemo
  | absent p ih =>
    intro c d memo memo' hcd hmemo
    rw [Peg.run, Peg.run]
    have hp := ih hcd hmemo
    generalize p.run call c memo = run at hp
    generalize p.run call' d memo' = run' at hp
    cases hp with
    | tooDeep hmemo => exact .tooDeep hmemo
    | missing hmemo => exact .settled hcd hmemo
    | found _ hmemo => exact .settled hcd hmemo
  | build f p ih =>
    intro c d memo memo' hcd hmemo
    rw [Peg.run, Peg.run]
    have hp := ih hcd hmemo
    generalize p.run call c memo = run at hp
    generalize p.run call' d memo' = run' at hp
    cases hp with
    | tooDeep hmemo => exact .tooDeep hmemo
    | missing hmemo => exact .settled hcd hmemo
    | found _ hmemo => exact .settled hcd hmemo

variable [LawfulBEq Rule]

theorem Memo.Alike.insert {memo : Memo g source} {memo' : Memo g source'} (h : memo.Alike k memo') {r : Rule}
    {c : Cursor source} {d : Cursor source'} (hcd : c.Apart k d) {entry : Entry g source (r, c.offset)}
    {entry' : Entry g source' (r, d.offset)} :
    Memo.Alike k (memo.insert (r, c.offset) entry) (memo'.insert (r, d.offset) entry') := by
  intro r' hr' offset
  simp only [Std.DHashMap.mem_insert, h r' hr' offset, hcd.offset, beq_iff_eq, Prod.mk.injEq,
    Nat.add_left_cancel_iff]

/-- A rule that is matched at once settles at any depth, and the memo knows as much of the others as before. -/
theorem Grammar.IsImmediate.run {r : Rule} (hr : g.IsImmediate r) (depth : Nat) (c : Cursor source)
    (memo : Memo g source) : ∃ reply h memo', g.run (depth + 1) r c memo = (.settled reply h, memo') ∧
      ∀ r', ¬g.IsImmediate r' → ∀ offset, (r', offset) ∈ memo' ↔ (r', offset) ∈ memo := by
  rw [Grammar.run]
  cases memo.get? (r, c.offset) with
  | some entry => exact ⟨_, _, memo, rfl, fun _ _ _ => .rfl⟩
  | none =>
    obtain ⟨reply, h, hrun⟩ := hr (g.run depth) c memo
    rw [hrun]
    refine ⟨reply, h.rule, _, rfl, fun r' hr' offset => ?_⟩
    have hne : r ≠ r' := fun he => hr' (he ▸ hr)
    simp only [Std.DHashMap.mem_insert, beq_iff_eq, Prod.mk.injEq, hne, false_and, false_or]

/-- **Runs at corresponding places are alike**, at any depth. -/
theorem Grammar.run_alike (g : Grammar Out) (depth : Nat) :
    ∀ {r} {c : Cursor source} {d : Cursor source'} {memo memo'}, c.Apart k d → memo.Alike k memo' →
      RunsAlike k (g.run depth r c memo) (g.run depth r d memo') := by
  induction depth with
  | zero => exact fun _ hmemo => .tooDeep hmemo
  | succ depth ih =>
    intro r c d memo memo' hcd hmemo
    by_cases hr : g.IsImmediate r
    · obtain ⟨reply, h, memo₁, hrun, hsame⟩ := hr.run depth c memo
      obtain ⟨reply', h', memo₁', hrun', hsame'⟩ := hr.run depth d memo'
      rw [hrun, hrun']
      exact .settled hcd fun r hr offset => (hsame r hr _).trans ((hmemo r hr _).trans (hsame' r hr _).symm)
    · rw [Grammar.run, Grammar.run]
      have hknown : (memo.get? (r, c.offset)).isSome = (memo'.get? (r, d.offset)).isSome := by
        rw [Bool.eq_iff_iff, ← Std.DHashMap.mem_iff_isSome_get?, ← Std.DHashMap.mem_iff_isSome_get?, hcd.offset]
        exact hmemo r hr c.offset
      generalize memo.get? (r, c.offset) = entry at hknown
      generalize memo'.get? (r, d.offset) = entry' at hknown
      cases entry with
      | some entry =>
        cases entry' with
        | some entry' => exact .settled hcd hmemo
        | none => cases hknown
      | none =>
        cases entry' with
        | some entry' => cases hknown
        | none =>
          have h := Peg.run_alike ih (g r) hcd hmemo
          generalize (g r).run (g.run depth) c memo = run at h
          generalize (g r).run (g.run depth) d memo' = run' at h
          cases h with
          | tooDeep hmemo => exact .tooDeep hmemo
          | missing hmemo => exact .settled hcd (hmemo.insert hcd)
          | found _ hmemo => exact .settled hcd (hmemo.insert hcd)

/-- From an empty memo, a rule nests as deeply as its expression does. -/
theorem Grammar.run_succ_tooDeep_iff {r : Rule} {depth : Nat} {c : Cursor source} :
    (g.run (depth + 1) r c ∅).1 = .tooDeep ↔ ((g r).run (g.run depth) c ∅).1 = .tooDeep := by
  rw [Grammar.run, Std.DHashMap.get?_empty]
  dsimp only
  generalize (g r).run (g.run depth) c ∅ = run
  obtain ⟨_ | _, memo⟩ := run
  · exact iff_of_false nofun nofun
  · exact iff_of_true rfl rfl

/-- A rule that begins with one that is matched at once nests as deeply in both sources, if the same text is left
after that. -/
theorem Grammar.match_tooDeep_iff {r lead : Rule} {β : Type} {f : Out lead → β → Out r} {q : Peg Out β}
    (hr : g r = .seq f (.rule lead) q) (hlead : g.IsImmediate lead) {a b : Out lead} {middle : Cursor source}
    {middle' : Cursor source'} (h : Settles g (.rule lead) (Cursor.start source) (.found a middle))
    (h' : Settles g (.rule lead) (Cursor.start source') (.found b middle')) (hmiddle : middle.Apart k middle')
    (depth : Nat) : g.match depth r source' = .tooDeep ↔ g.match depth r source = .tooDeep := by
  rw [Grammar.match, Grammar.match]
  cases depth with
  | zero => exact iff_of_true rfl rfl
  | succ depth =>
    rw [Grammar.run_succ_tooDeep_iff, Grammar.run_succ_tooDeep_iff, hr, Peg.run, Peg.run, Peg.run, Peg.run]
    cases depth with
    | zero => exact iff_of_true rfl rfl
    | succ depth =>
      obtain ⟨reply, hs, memo, hrun, hmemo⟩ := hlead.run depth (Cursor.start source) ∅
      obtain ⟨reply', hs', memo', hrun', hmemo'⟩ := hlead.run depth (Cursor.start source') ∅
      obtain rfl := h.unique hs
      obtain rfl := h'.unique hs'
      have halike : memo.Alike k memo' := fun r hr offset => by simp [hmemo r hr, hmemo' r hr]
      have hq := Peg.run_alike (Grammar.run_alike g (depth + 1)) q hmiddle halike
      simp only [hrun, hrun']
      generalize q.run (g.run (depth + 1)) middle memo = run at hq
      generalize q.run (g.run (depth + 1)) middle' memo' = run' at hq
      cases hq with
      | tooDeep => exact iff_of_true rfl rfl
      | missing => exact iff_of_false nofun nofun
      | found => exact iff_of_false nofun nofun

end ScriptAudit
