/-
Matches that stay. If the source is cut off behind a match, most of it is read as before: the texts of its lexemes are
still there. What may change is what was tried and did not match, and what could come next. So a pattern is said to
stay under a condition on what follows it (`Stays`), and there is a lemma for each way to put patterns together: what
comes first must stay before what comes second, an option that was not taken must not be there, and a choice is
made as before if the beginning decides it.
-/
import ScriptAudit.Proofs.Nesting
import ScriptAudit.Proofs.Starts

namespace ScriptAudit

open ScriptGrammar

variable {source : Text} {α β γ : Type} {d e : Nat} {c m next : Cursor source}

/-! ## Readings taken apart -/

theorem Reads.finds {p : Pattern α} {a : α} (h : Reads d p c a next) : Finds p c a next := ⟨d, h⟩

theorem Reads.of_either {p q : Pattern α} {a : α} (h : Reads d (.either p q) c a next) :
    Reads d p c a next ∨ Misses d p c ∧ Reads d q c a next := by
  simp only [Reads, Misses, Peg.eval_either] at *
  split at h
  · rename_i hp
    exact .inr ⟨hp, h⟩
  · exact .inl h

theorem Reads.of_option {p : Pattern α} {o : Option α} (h : Reads d (.option p) c o next) :
    (o = none ∧ next = c ∧ (c.atEnd = true ∨ Misses d p c)) ∨
      ∃ a, o = some a ∧ c.atEnd = false ∧ Reads d p c a next := by
  simp only [Reads, Misses, Peg.eval_option] at *
  split at h
  · rename_i hend
    cases h
    exact .inl ⟨rfl, rfl, .inl hend⟩
  · rename_i hend
    split at h
    · cases h
    · rename_i hp
      cases h
      exact .inl ⟨rfl, rfl, .inr hp⟩
    · rename_i a next' hp
      cases h
      exact .inr ⟨a, rfl, Bool.eq_false_iff.mpr hend, hp⟩

theorem Reads.of_absent {p : Pattern α} {u : Unit} (h : Reads d (.absent p) c u next) : next = c ∧ Misses d p c := by
  simp only [Reads, Misses, Peg.eval_absent] at *
  split at h
  · cases h
  · cases h
    exact ⟨rfl, ‹_›⟩
  · cases h

theorem Reads.of_ap {f : α → β → γ} {p : Pattern α} {q : Pattern β} {x : γ} (h : Reads d (f <$> p <*> q) c x next) :
    ∃ a m b, Reads d p c a m ∧ Reads d q m b next ∧ x = f a b := by
  obtain ⟨_, m, b, hp, hq, rfl⟩ := h.of_seq
  obtain ⟨a, hp, rfl⟩ := hp.of_build
  exact ⟨a, m, b, ‹_›, hq, rfl⟩

/-- A match of a rule is one of its pattern, one rule less deep. -/
theorem Reads.of_rule {r : Rule} {a : Yield r} (h : Reads d (ref r) c a next) :
    ∃ k, k + 1 = d ∧ Reads k (scriptGrammar r) c a next := by
  cases d with
  | zero => cases h
  | succ k => exact ⟨k, rfl, h⟩

theorem Reads.le {p : Pattern α} {a : α} (h : Reads d p c a next) (hc : c.offset ≤ source.length) :
    c.offset ≤ next.offset ∧ next.offset ≤ source.length :=
  have hspanned := scriptGrammar_descends.spanned hc h
  ⟨hspanned.1.le, hspanned.2⟩

theorem Reads.lt {p : Pattern α} {a : α} (h : Reads d p c a next) (hc : c.offset ≤ source.length)
    (hp : p.isSolid Rule.isSolid = true) : c.offset < next.offset :=
  (scriptGrammar_descends.spanned hc h).1.lt hp

/-- What a repetition reads, step by step. -/
theorem Reads.of_many {p : Pattern α} {as : List α} (h : Reads d (.many p) c as next)
    (hp : p.isSolid Rule.isSolid = true) (hc : c.offset ≤ source.length) :
    Runs (p.eval (scriptGrammar.eval d)) c as next ∧ (next.atEnd = true ∨ Misses d p next) := by
  have hiterate : ∀ (bound : Text) (c : Cursor source) as, c.offset ≤ source.length → c.rest.length ≤ bound.length →
      iterate (p.eval (scriptGrammar.eval d)) bound c = some (.found as next) →
        Runs (p.eval (scriptGrammar.eval d)) c as next ∧ (next.atEnd = true ∨ Misses d p next) := by
    intro bound
    induction bound with
    | nil =>
      intro c as _ hbound h
      cases h
      exact ⟨.nil, .inl (List.isEmpty_iff.mpr (List.length_eq_zero_iff.mp (Nat.le_zero.mp hbound)))⟩
    | cons x bound ih =>
      intro c as hc hbound h
      rw [iterate] at h
      split at h
      · rename_i hend
        cases h
        exact ⟨.nil, .inl hend⟩
      · rename_i hend
        have hend := Bool.eq_false_iff.mpr hend
        split at h
        · cases h
        · rename_i hmiss
          cases h
          exact ⟨.nil, .inr hmiss⟩
        · rename_i a m hstep
          have hmoves := Reads.lt hstep hc hp
          have hshorter := Cursor.length_rest_lt hend hmoves
          rw [List.length_cons] at hbound
          rw [if_neg (Nat.ne_of_gt hmoves)] at h
          split at h
          · rename_i as' last hrest
            cases h
            obtain ⟨hruns, hstop⟩ := ih m as' (Reads.le hstep hc).2 (by omega) hrest
            exact ⟨hruns.cons hend hstep hmoves, hstop⟩
          · rename_i hother
            exact absurd h (hother _ _)
  exact hiterate c.rest c as hc (Nat.le_refl _) h

theorem Runs.mono {p : Pattern α} {as : List α} {d' : Nat} (h : Runs (p.eval (scriptGrammar.eval d)) c as next)
    (hd : d ≤ d') : Runs (p.eval (scriptGrammar.eval d')) c as next := by
  induction h with
  | nil => exact .nil
  | snoc _ hm hstep hmoves ih => exact .snoc ih hm (Reads.mono hstep hd) hmoves

theorem finds_option_none {p : Pattern α} (h : Lacks p c) : Finds (.option p) c none c := by
  cases hend : c.atEnd with
  | true => exact .option_atEnd hend
  | false => exact .option_missing hend h

/-! ## Patterns that stay -/

theorem Cursor.atEnd_cut (he : e ≤ source.length) (h : c.offset < e) : (c.cut e).atEnd = false := by
  have hlength := Cursor.length_rest_cut (c := c) he
  refine List.isEmpty_eq_false_iff.mpr fun hnil => ?_
  rw [hnil, List.length_nil] at hlength
  omega

/-- Matches of the pattern stay if the source is cut off behind them, at a place where the condition holds. -/
def Stays (d e : Nat) (follow : Cursor source → Prop) (p : Pattern α) : Prop :=
  ∀ ⦃c a next⦄, c.offset ≤ source.length → Reads d p c a next → next.offset ≤ e → follow next →
    Finds p (c.cut e) a (next.cut e)

namespace Stays

variable {follow before : Cursor source → Prop} {p : Pattern α} {q : Pattern β}

theorem weaken (hp : Stays d e before p) (h : ∀ m, follow m → before m) : Stays d e follow p :=
  fun _ _ _ hc hread hnext hfollow => hp hc hread hnext (h _ hfollow)

theorem lexeme {l : Lexeme} (he : e ≤ source.length) (hl : l ≠ .chunk) : Stays d e follow (.lexeme l : Pattern Text) :=
  fun _ _ _ _ hread hnext _ => (reads_lexeme_cut hl he hread hnext).finds

theorem rule {r : Rule} (h : ∀ k, k + 1 = d → Stays k e follow (scriptGrammar r)) : Stays d e follow (ref r) := by
  intro c a next hc hread hnext hfollow
  obtain ⟨k, hk, hread⟩ := hread.of_rule
  exact .rule (h k hk hc hread hnext hfollow)

theorem build {f : Span → α → β} (hp : Stays d e follow p) : Stays d e follow (.build f p) := by
  intro c b next hc hread hnext hfollow
  obtain ⟨a, hinner, rfl⟩ := hread.of_build
  exact .build_found (hp hc hinner hnext hfollow)

/-- What comes first stays before what comes second. -/
theorem seq {f : α → β → γ} (hp : Stays d e before p) (hq : Stays d e follow q)
    (hbefore : ∀ {m b next}, m.offset ≤ source.length → Reads d q m b next → next.offset ≤ e → follow next →
      Finds q (m.cut e) b (next.cut e) → before m) : Stays d e follow (.seq f p q) := by
  intro c x next hc hread hnext hfollow
  obtain ⟨a, m, b, hfirst, hsecond, rfl⟩ := hread.of_seq
  have hm := (hfirst.le hc).2
  have hfound := hq hm hsecond hnext hfollow
  have hle := (hsecond.le hm).1
  exact .seq_found (hp hc hfirst (by omega) (hbefore hm hsecond hnext hfollow hfound)) hfound

/-- What stays before anything comes first. -/
theorem andThen {f : α → β → γ} (hp : Stays d e (fun _ : Cursor source => True) p) (hq : Stays d e follow q) :
    Stays d e follow (.seq f p q) :=
  .seq hp hq fun _ _ _ _ _ => trivial

theorem either {p q : Pattern α} (hp : Stays d e follow p) (hq : Stays d e follow q)
    (hchoice : ∀ {c a next}, c.offset ≤ source.length → Reads d q c a next → next.offset ≤ e → follow next →
      Finds q (c.cut e) a (next.cut e) → Lacks p (c.cut e)) : Stays d e follow (.either p q) := by
  intro c a next hc hread hnext hfollow
  rcases hread.of_either with hread | ⟨-, hread⟩
  · exact .either_left (hp hc hread hnext hfollow)
  · have hfound := hq hc hread hnext hfollow
    exact .either_right (hchoice hc hread hnext hfollow hfound) hfound

/-- A choice that the beginning decides. -/
theorem or {p q : Pattern α} (hp : Stays d e follow p) (hq : Stays d e follow q) (h : q.bars p = true) :
    Stays d e follow (.either p q) :=
  .either hp hq fun _ _ _ _ hfound => hfound.lacks h

theorem bracketed (opening : Text) (mode : Mode) (he : e ≤ source.length) (hp : p.isBracketed opening mode = true) :
    Stays d e follow p :=
  fun _ _ _ _ hread hnext _ => (hread.cut_bracketed hp he hnext).finds

theorem option (he : e ≤ source.length) (hsolid : p.isSolid Rule.isSolid = true) (hp : Stays d e follow p)
    (hstop : ∀ {c}, c.offset ≤ e → (c.atEnd = true ∨ Misses d p c) → follow c → Lacks p (c.cut e)) :
    Stays d e follow (.option p) := by
  intro c o next hc hread hnext hfollow
  rcases hread.of_option with ⟨rfl, rfl, hmiss⟩ | ⟨a, rfl, hend, hread⟩
  · exact finds_option_none (hstop hnext hmiss hfollow)
  · have hlt := hread.lt hc hsolid
    exact .option_found (Cursor.atEnd_cut he (by omega)) (hp hc hread hnext hfollow)

/-- What is absent stays absent. -/
theorem absent (hp : ∀ {c}, c.offset ≤ e → Misses d p c → follow c → Lacks p (c.cut e)) :
    Stays d e follow (.absent p) := by
  intro c u next hc hread hnext hfollow
  obtain ⟨rfl, hmiss⟩ := hread.of_absent
  exact .absent_missing (hp hnext hmiss hfollow)

/-- A run stays if each step stays before the next one. There is no step in it, or the first one stays. -/
theorem runs (he : e ≤ source.length) (hp : Stays d e before p) (hc : c.offset ≤ source.length) {as : List α}
    (hruns : Runs (p.eval (scriptGrammar.eval d)) c as next) (hnext : next.offset ≤ e) (hlast : before next)
    (hbefore : ∀ {m a next}, Reads d p m a next → next.offset ≤ e → Finds p (m.cut e) a (next.cut e) → before m) :
    (∃ depth, Runs (p.eval (scriptGrammar.eval depth)) (c.cut e) as (next.cut e)) ∧
      (as = [] ∧ next = c ∨ ∃ a m, Reads d p c a m ∧ m.offset ≤ e ∧ Finds p (c.cut e) a (m.cut e)) := by
  induction hruns with
  | nil => exact ⟨⟨0, .nil⟩, .inl ⟨rfl, rfl⟩⟩
  | @snoc as a m next hruns hm hstep hmoves ih =>
    have hle : m.offset ≤ e := by omega
    have hfound := hp (by omega) hstep hnext hlast
    obtain ⟨⟨depth, hruns'⟩, hfirst⟩ := ih hle (hbefore hstep hnext hfound)
    obtain ⟨depth', hfound'⟩ := hfound
    refine ⟨⟨max depth depth', ?_⟩, .inr ?_⟩
    · exact .snoc (hruns'.mono (Nat.le_max_left _ _)) (Cursor.atEnd_cut he (by omega))
        (Reads.mono hfound' (Nat.le_max_right _ _)) hmoves
    · rcases hfirst with ⟨rfl, rfl⟩ | hfirst
      · exact ⟨a, next, hstep, hnext, depth', hfound'⟩
      · exact hfirst

end Stays

end ScriptAudit
