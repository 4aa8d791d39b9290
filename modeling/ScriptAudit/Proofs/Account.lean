/-
What a match says about its place and its value. An account of a grammar claims something of every
match of a rule, with its value, the offsets where it starts and stops, and the parts the value is made
of, and of every place where the rule does not match. `Account.Lays` carries these claims over to
expressions, the parts of an expression being those of its pieces one after the other.

An account that each rule's own expression passes on holds of all matches (`Account.supports`), and if it
passes on the parts of the match themselves, it holds of all matches with their parts (`Account.traces`).
What does the work is induction on the expression, once for all grammars: a proof about one grammar is
left with a statement about each of its rules, in which offsets and parts are already sorted out.
-/
import ScriptAudit.Proofs.Lexeme
import ScriptAudit.Proofs.Traced

namespace ScriptAudit

variable {Rule : Type} {Out : Rule → Type} {Part : Type} {source : Text} {α β γ : Type}

structure Account (source : Text) {Rule : Type} (Out : Rule → Type) (Part : Type) where
  /-- What is claimed of a match. -/
  found : (r : Rule) → (start : Nat) → Out r → (stop : Nat) → List Part → Prop
  inside : ∀ {r start v stop parts}, found r start v stop parts → stop ≤ source.length
  /-- What is claimed of a place where there is no match. -/
  missing : Rule → (start : Nat) → Prop

/-- Values one after the other, each with its own parts. -/
def LaysRun (step : Nat → α → Nat → List Part → Prop) : Nat → List α → Nat → List Part → Prop
  | s, [], e, ps => s = e ∧ ps = []
  | s, v :: vs, e, ps => ∃ m qs rs, step s v m qs ∧ LaysRun step m vs e rs ∧ ps = qs ++ rs

namespace Account

/-- What is known where an expression does not match: only lexemes and rules say something. -/
def Misses (A : Account source Out Part) : Peg Out α → Nat → Prop
  | .lexeme l, s => l.length? (source.drop s) = none
  | .rule r, s => A.missing r s
  | _, _ => True

/-- What is known of a match of an expression from `s` to `e` with the value `v` and the parts `ps`. -/
def Lays (A : Account source Out Part) {α : Type} : Peg Out α → Nat → α → Nat → List Part → Prop
  | .lexeme l, s, v, e, ps =>
    ∃ n, l.length? (source.drop s) = some n ∧ v = (source.drop s).take n ∧ e = s + n ∧ ps = []
  | .rule r, s, v, e, ps => A.found r s v e ps
  | .seq f p q, s, v, e, ps =>
    ∃ a m b qs rs, Lays A p s a m qs ∧ Lays A q m b e rs ∧ v = f a b ∧ ps = qs ++ rs
  | .either p q, s, v, e, ps => Lays A p s v e ps ∨ Lays A q s v e ps
  | .many p, s, vs, e, ps => LaysRun (Lays A p) s vs e ps
  | .option p, s, v, e, ps => (v = none ∧ s = e ∧ ps = []) ∨ ∃ a, Lays A p s a e ps ∧ v = some a
  | .absent p, s, _, e, ps => Misses A p s ∧ s = e ∧ ps = []
  | .build f p, s, v, e, ps => ∃ a, Lays A p s a e ps ∧ v = f ⟨s, e⟩ a

/-- The account is right about the answers of `call`. -/
structure Supports (A : Account source Out Part)
    (call : (r : Rule) → Cursor source → Option (Reply source (Out r))) : Prop where
  found : ∀ r c v next, c.offset ≤ source.length → call r c = some (.found v next) →
    ∃ parts, A.found r c.offset v next.offset parts
  missing : ∀ r c, call r c = some .missing → A.missing r c.offset

/-- The account is right about the answers of `call`, with the parts that come with them. -/
structure Traces (A : Account source Out Part)
    (call : (r : Rule) → Cursor source → Option (Reply source (Traced Out Part r))) : Prop where
  found : ∀ r c v ps next, c.offset ≤ source.length → call r c = some (.found (v, ps) next) →
    A.found r c.offset v next.offset ps
  missing : ∀ r c, call r c = some .missing → A.missing r c.offset

/-! ## Matches stay inside -/

theorem inside_of_laysRun {L : Nat → α → Nat → List Part → Prop}
    (h : ∀ s v e ps, L s v e ps → s ≤ source.length → e ≤ source.length) {vs : List α} :
    ∀ {s e ps}, LaysRun L s vs e ps → s ≤ source.length → e ≤ source.length := by
  induction vs with
  | nil => rintro s e ps ⟨rfl, -⟩ hs; exact hs
  | cons v vs ih => rintro s e ps ⟨m, qs, rs, hv, hvs, -⟩ hs; exact ih hvs (h _ _ _ _ hv hs)

theorem Lays.inside {A : Account source Out Part} {p : Peg Out α} :
    ∀ {s v e ps}, A.Lays p s v e ps → s ≤ source.length → e ≤ source.length := by
  induction p with
  | lexeme l =>
    rintro s v e ps ⟨n, hn, -, rfl, -⟩ hs
    have := Lexeme.length?_le hn
    rw [List.length_drop] at this
    omega
  | rule r => intro s v e ps h _; exact A.inside h
  | seq f p q ihp ihq =>
    rintro s v e ps ⟨a, m, b, qs, rs, hp, hq, -, -⟩ hs
    exact ihq hq (ihp hp hs)
  | either p q ihp ihq =>
    rintro s v e ps (h | h) hs
    · exact ihp h hs
    · exact ihq h hs
  | many p ih => intro s v e ps h hs; exact inside_of_laysRun (fun _ _ _ _ hp => ih hp) h hs
  | option p ih =>
    rintro s v e ps (⟨-, rfl, -⟩ | ⟨a, h, -⟩) hs
    · exact hs
    · exact ih h hs
  | absent p ih => rintro s v e ps ⟨-, rfl, -⟩ hs; exact hs
  | build f p ih => rintro s v e ps ⟨a, h, -⟩ hs; exact ih h hs

/-! ## From rules to expressions -/

section Soundness

variable {A : Account source Out Part}

section Parts

variable {call : (r : Rule) → Cursor source → Option (Reply source (Traced Out Part r))}

theorem misses_of_traced (h : A.Traces call) {p : Peg Out α} {c : Cursor source}
    (e : p.traced.eval call c = some .missing) : A.Misses p c.offset := by
  cases p with
  | lexeme l =>
    rw [Peg.traced, Peg.eval_build, Peg.eval_lexeme] at e
    cases hl : l.length? c.rest with
    | none => rw [c.rest_eq] at hl; exact hl
    | some n => simp [hl] at e
  | rule r => exact h.missing r c e
  | _ => trivial

theorem laysRun_of_iterate {step : Cursor source → Option (Reply source (α × List Part))}
    {L : Nat → α → Nat → List Part → Prop}
    (h : ∀ c v ps next, c.offset ≤ source.length → step c = some (.found (v, ps) next) →
      L c.offset v next.offset ps)
    (hin : ∀ s v e ps, L s v e ps → s ≤ source.length → e ≤ source.length) (bound : Text) :
    ∀ c items last, c.offset ≤ source.length → iterate step bound c = some (.found items last) →
      LaysRun L c.offset (items.map Prod.fst) last.offset (items.flatMap Prod.snd) := by
  induction bound with
  | nil => intro c items last _ e; cases e; exact ⟨rfl, rfl⟩
  | cons _ bound ih =>
    intro c items last hc e
    unfold iterate at e
    split at e
    · cases e; exact ⟨rfl, rfl⟩
    · cases hs : step c with
      | none => simp [hs] at e
      | some reply =>
        rw [hs] at e
        cases reply with
        | missing => cases e; exact ⟨rfl, rfl⟩
        | found item next =>
          have hitem := h c item.1 item.2 next hc hs
          simp only at e
          split at e
          · cases e; exact ⟨_, item.2, [], hitem, ⟨rfl, rfl⟩, rfl⟩
          · cases hi : iterate step bound next with
            | none => simp [hi] at e
            | some reply =>
              rw [hi] at e
              cases reply with
              | missing => simp at e
              | found items stop =>
                simp only [Option.some.injEq, Reply.found.injEq] at e
                obtain ⟨rfl, rfl⟩ := e
                exact ⟨next.offset, item.2, _, hitem, ih next items stop (hin _ _ _ _ hitem hc) hi, rfl⟩

theorem lays_of_traced (h : A.Traces call) (p : Peg Out α) :
    ∀ c v ps next, c.offset ≤ source.length → p.traced.eval call c = some (.found (v, ps) next) →
      A.Lays p c.offset v next.offset ps := by
  induction p with
  | lexeme l =>
    intro c v ps next hc e
    rw [Peg.traced, Peg.eval_build, Peg.eval_lexeme] at e
    cases hl : l.length? c.rest with
    | none => simp [hl] at e
    | some n =>
      simp only [hl, Option.some.injEq, Reply.found.injEq, Prod.mk.injEq] at e
      obtain ⟨⟨rfl, rfl⟩, rfl⟩ := e
      rw [c.rest_eq] at hl ⊢
      exact ⟨n, hl, rfl, rfl, rfl⟩
  | rule r => intro c v ps next hc e; exact h.found r c v ps next hc e
  | seq f p q ihp ihq =>
    intro c v ps next hc e
    rw [Peg.traced, Peg.eval_seq] at e
    split at e
    · cases e
    · cases e
    · rename_i a middle hp
      split at e
      · cases e
      · cases e
      · rename_i b stop hq
        cases e
        have ha := ihp c a.1 a.2 middle hc hp
        have hb := ihq middle b.1 b.2 _ (ha.inside hc) hq
        exact ⟨a.1, middle.offset, b.1, a.2, b.2, ha, hb, rfl, rfl⟩
  | either p q ihp ihq =>
    intro c v ps next hc e
    rw [Peg.traced, Peg.eval_either] at e
    split at e
    · exact .inr (ihq c v ps next hc e)
    · exact .inl (ihp c v ps next hc e)
  | many p ih =>
    intro c v ps next hc e
    rw [Peg.traced, Peg.eval_build] at e
    split at e
    · cases e
    · cases e
    · rename_i items stop hi
      cases e
      exact laysRun_of_iterate ih (fun _ _ _ _ hp => hp.inside) c.rest c items _ hc hi
  | option p ih =>
    intro c v ps next hc e
    rw [Peg.traced, Peg.eval_build, Peg.eval_option] at e
    split at e
    · cases e
    · cases e
    · rename_i item stop hi
      cases e
      split at hi
      · cases hi; exact .inl ⟨rfl, rfl, rfl⟩
      · split at hi
        · cases hi
        · cases hi; exact .inl ⟨rfl, rfl, rfl⟩
        · rename_i a stop hp
          cases hi
          refine .inr ⟨a.1, ?_, rfl⟩
          rw [Option.toList_some, List.flatMap_singleton]
          exact ih c a.1 a.2 _ hc hp
  | absent p ih =>
    intro c v ps next hc e
    rw [Peg.traced, Peg.eval_build, Peg.eval_absent] at e
    split at e
    · cases e
    · cases e
    · rename_i hi
      cases e
      split at hi
      · cases hi
      · rename_i hp; cases hi; exact ⟨misses_of_traced h hp, rfl, rfl⟩
      · cases hi
  | build f p ih =>
    intro c v ps next hc e
    rw [Peg.traced, Peg.eval_build] at e
    split at e
    · cases e
    · cases e
    · rename_i a stop hp
      cases e
      exact ⟨a.1, ih c a.1 a.2 _ hc hp, rfl⟩

end Parts

variable {call : (r : Rule) → Cursor source → Option (Reply source (Out r))}

/-- Where an account is right, the answers come with parts. -/
theorem exists_traces (h : A.Supports call) :
    ∃ traced : (r : Rule) → Cursor source → Option (Reply source (Traced Out Part r)),
      A.Traces traced ∧ CallsRelated 0 (fun _ => Carries) call traced := by
  have hanswer : ∀ r c, ∃ answer : Option (Reply source (Traced Out Part r)),
      (∀ v ps next, c.offset ≤ source.length → answer = some (.found (v, ps) next) →
        A.found r c.offset v next.offset ps) ∧
      (answer = some .missing → A.missing r c.offset) ∧ Reply.OptionRel 0 Carries (call r c) answer := by
    intro r c
    cases hcall : call r c with
    | none => exact ⟨none, nofun, nofun, .none⟩
    | some reply =>
      cases reply with
      | missing => exact ⟨some .missing, nofun, fun _ => h.missing r c hcall, .some .missing⟩
      | found v next =>
        have hps : ∃ ps, c.offset ≤ source.length → A.found r c.offset v next.offset ps := by
          by_cases hc : c.offset ≤ source.length
          · obtain ⟨ps, hps⟩ := h.found r c v next hc hcall
            exact ⟨ps, fun _ => hps⟩
          · exact ⟨[], fun hc' => absurd hc' hc⟩
        obtain ⟨ps, hps⟩ := hps
        refine ⟨some (.found (v, ps) next), fun v' ps' next' hc e => ?_, nofun, .some (.found rfl (.refl next))⟩
        cases e
        exact hps hc
  choose traced hfound hmissing hrel using hanswer
  refine ⟨traced, ⟨fun r c => hfound r c, fun r c => hmissing r c⟩, fun r c d hcd => ?_⟩
  obtain rfl := hcd.eq
  exact hrel r d

theorem lays_of_eval (h : A.Supports call) (p : Peg Out α) (c : Cursor source) (v : α) (next : Cursor source)
    (hc : c.offset ≤ source.length) (e : p.eval call c = some (.found v next)) :
    ∃ ps, A.Lays p c.offset v next.offset ps := by
  obtain ⟨traced, htraces, hcalls⟩ := exists_traces h
  have hrel := p.related_traced.eval hcalls (.refl c)
  rw [e] at hrel
  obtain ⟨⟨v', ps⟩, next', htraced, hv, hnext⟩ := hrel.exists_found
  obtain rfl : v' = v := hv
  obtain rfl := hnext.eq
  exact ⟨ps, lays_of_traced htraces p c v' ps _ hc htraced⟩

theorem misses_of_eval (h : A.Supports call) {p : Peg Out α} {c : Cursor source}
    (e : p.eval call c = some .missing) : A.Misses p c.offset := by
  obtain ⟨traced, htraces, hcalls⟩ := exists_traces h
  have hrel := p.related_traced.eval hcalls (.refl c)
  rw [e] at hrel
  obtain ⟨hnone, -⟩ | ⟨-, hmissing⟩ | ⟨_, _, _, _, hfound, -⟩ := hrel.cases
  · cases hnone
  · exact misses_of_traced htraces hmissing
  · cases hfound

/-- **An account that the rules pass on is right about every match**: it is enough that each rule's
expression, matched as the account says, gives what the account claims of the rule. -/
theorem supports {g : Grammar Out}
    (found : ∀ r s v e ps, s ≤ source.length → A.Lays (g r) s v e ps → ∃ qs, A.found r s v e qs)
    (missing : ∀ r s, A.Misses (g r) s → A.missing r s) (depth : Nat) :
    A.Supports (g.eval depth) := by
  induction depth with
  | zero => exact ⟨fun _ _ _ _ _ e => (nomatch e), fun _ _ e => (nomatch e)⟩
  | succ depth ih =>
    refine ⟨fun r c v next hc e => ?_, fun r c e => missing r c.offset (misses_of_eval ih e)⟩
    obtain ⟨ps, hps⟩ := lays_of_eval ih (g r) c v next hc e
    exact found r _ _ _ ps hc hps

end Soundness

end Account

/-! ## Offsets -/

/-- Where a match that starts at `s` may stop. A solid match takes at least one code point. -/
structure Spanned (solid : Bool) (s e : Nat) : Prop where
  le : s ≤ e
  lt : solid = true → s < e

namespace Spanned

theorem refl {s : Nat} : Spanned false s s := ⟨Nat.le_refl s, nofun⟩

theorem trans {solid solid' : Bool} {s m e : Nat} (h : Spanned solid s m)
    (h' : Spanned solid' m e) : Spanned (solid || solid') s e := by
  refine ⟨Nat.le_trans h.le h'.le, fun hb => ?_⟩
  have := h.le
  have := h'.le
  rcases Bool.or_eq_true_iff.mp hb with hb | hb
  · have := h.lt hb; omega
  · have := h'.lt hb; omega

theorem weaken {solid solid' : Bool} {s e : Nat} (h : Spanned solid s e)
    (hb : solid' = true → solid = true) : Spanned solid' s e :=
  ⟨h.le, fun hs => h.lt (hb hs)⟩

theorem lexeme {l : Lexeme} {t : Text} {s n : Nat} (h : l.length? t = some n) :
    Spanned l.isSolid s (s + n) := by
  refine ⟨by omega, fun hl => ?_⟩
  have := Lexeme.length?_pos hl h
  omega

end Spanned

/-- The expression never matches the empty text, if that is so for the rules that `solid` names. -/
def Peg.isSolid (solid : Rule → Bool) {α : Type} : Peg Out α → Bool
  | .lexeme l => l.isSolid
  | .rule r => solid r
  | .seq _ p q => p.isSolid solid || q.isSolid solid
  | .either p q => p.isSolid solid && q.isSolid solid
  | .many _ | .option _ | .absent _ => false
  | .build _ p => p.isSolid solid

namespace Account

variable {A : Account source Out Part}

theorem spanned_of_laysRun {L : Nat → α → Nat → List Part → Prop} {b : Bool}
    (h : ∀ s v e ps, L s v e ps → Spanned b s e) {vs : List α} :
    ∀ {s e ps}, LaysRun L s vs e ps → Spanned false s e := by
  induction vs with
  | nil => rintro s e ps ⟨rfl, -⟩; exact .refl
  | cons v vs ih =>
    rintro s e ps ⟨m, qs, rs, hv, hvs, -⟩
    exact ((h _ _ _ _ hv).trans (ih hvs)).weaken nofun

theorem Lays.spanned {solid : Rule → Bool}
    (hA : ∀ r s v e ps, A.found r s v e ps → Spanned (solid r) s e) {p : Peg Out α} :
    ∀ {s v e ps}, A.Lays p s v e ps → Spanned (p.isSolid solid) s e := by
  induction p with
  | lexeme l => rintro s v e ps ⟨n, hn, -, rfl, -⟩; exact .lexeme hn
  | rule r => intro s v e ps h; exact hA r s v e ps h
  | seq f p q ihp ihq => rintro s v e ps ⟨a, m, b, qs, rs, hp, hq, -, -⟩; exact (ihp hp).trans (ihq hq)
  | either p q ihp ihq =>
    rintro s v e ps (h | h)
    · exact (ihp h).weaken fun hb => (Bool.and_eq_true_iff.mp hb).1
    · exact (ihq h).weaken fun hb => (Bool.and_eq_true_iff.mp hb).2
  | many p ih => intro s v e ps h; exact spanned_of_laysRun (fun _ _ _ _ => ih) h
  | option p ih =>
    rintro s v e ps (⟨-, rfl, -⟩ | ⟨a, h, -⟩)
    · exact .refl
    · exact (ih h).weaken nofun
  | absent p ih => rintro s v e ps ⟨-, rfl, -⟩; exact .refl
  | build f p ih => rintro s v e ps ⟨a, h, -⟩; exact ih h

/-! ## Parts -/

/-- Parts laid out one after the other: a property of stretches of text with their parts that holds of
stretches without parts and of stretches that follow each other. -/
structure Composes (Laid : Nat → List Part → Nat → Prop) : Prop where
  nil : ∀ {s e}, s ≤ e → Laid s [] e
  append : ∀ {s m e ps qs}, Laid s ps m → Laid m qs e → Laid s (ps ++ qs) e

theorem composes_laysRun {Laid : Nat → List Part → Nat → Prop} (hl : Composes Laid)
    {L : Nat → α → Nat → List Part → Prop} (h : ∀ s v e ps, L s v e ps → Laid s ps e) {vs : List α} :
    ∀ {s e ps}, LaysRun L s vs e ps → Laid s ps e := by
  induction vs with
  | nil => rintro s e ps ⟨rfl, rfl⟩; exact hl.nil (Nat.le_refl s)
  | cons v vs ih =>
    rintro s e ps ⟨m, qs, rs, hv, hvs, rfl⟩
    exact hl.append (h _ _ _ _ hv) (ih hvs)

theorem Lays.composes {Laid : Nat → List Part → Nat → Prop} (hl : Composes Laid)
    (hA : ∀ r s v e ps, A.found r s v e ps → Laid s ps e) {p : Peg Out α} :
    ∀ {s v e ps}, A.Lays p s v e ps → Laid s ps e := by
  induction p with
  | lexeme l => rintro s v e ps ⟨n, -, -, rfl, rfl⟩; exact hl.nil (by omega)
  | rule r => intro s v e ps h; exact hA r s v e ps h
  | seq f p q ihp ihq =>
    rintro s v e ps ⟨a, m, b, qs, rs, hp, hq, -, rfl⟩
    exact hl.append (ihp hp) (ihq hq)
  | either p q ihp ihq =>
    rintro s v e ps (h | h)
    · exact ihp h
    · exact ihq h
  | many p ih => intro s v e ps h; exact composes_laysRun hl (fun _ _ _ _ => ih) h
  | option p ih =>
    rintro s v e ps (⟨-, rfl, rfl⟩ | ⟨a, h, -⟩)
    · exact hl.nil (Nat.le_refl s)
    · exact ih h
  | absent p ih => rintro s v e ps ⟨-, rfl, rfl⟩; exact hl.nil (Nat.le_refl s)
  | build f p ih => rintro s v e ps ⟨a, h, -⟩; exact ih h

theorem Lays.of_left {p : Peg Out α} {q : Peg Out β} {s e : Nat} {v : α} {ps : List Part}
    (h : A.Lays (p <* q) s v e ps) : ∃ m qs, A.Lays p s v m qs := by
  obtain ⟨a, m, b, qs, rs, hp, -, rfl, -⟩ := h
  exact ⟨m, qs, hp⟩

end Account

/-- No part comes from the expression, if that is so for the rules that `silent` names. -/
def Peg.isSilent (silent : Rule → Bool) {α : Type} : Peg Out α → Bool
  | .lexeme _ | .absent _ => true
  | .rule r => silent r
  | .seq _ p q | .either p q => p.isSilent silent && q.isSilent silent
  | .many p | .option p | .build _ p => p.isSilent silent

namespace Account

variable {A : Account source Out Part}

theorem nil_of_laysRun {L : Nat → α → Nat → List Part → Prop} (h : ∀ s v e ps, L s v e ps → ps = [])
    {vs : List α} : ∀ {s e ps}, LaysRun L s vs e ps → ps = [] := by
  induction vs with
  | nil => rintro s e ps ⟨-, rfl⟩; rfl
  | cons v vs ih =>
    rintro s e ps ⟨m, qs, rs, hv, hvs, rfl⟩
    rw [h _ _ _ _ hv, ih hvs, List.append_nil]

theorem Lays.silent {silent : Rule → Bool}
    (hA : ∀ r s v e ps, silent r = true → A.found r s v e ps → ps = []) {p : Peg Out α} :
    ∀ {s v e ps}, p.isSilent silent = true → A.Lays p s v e ps → ps = [] := by
  induction p with
  | lexeme l => rintro s v e ps - ⟨n, -, -, -, rfl⟩; rfl
  | rule r => intro s v e ps hr h; exact hA r s v e ps hr h
  | seq f p q ihp ihq =>
    rintro s v e ps hpq ⟨a, m, b, qs, rs, hp, hq, -, rfl⟩
    obtain ⟨hp', hq'⟩ := Bool.and_eq_true_iff.mp hpq
    rw [ihp hp' hp, ihq hq' hq, List.append_nil]
  | either p q ihp ihq =>
    rintro s v e ps hpq (h | h)
    · exact ihp (Bool.and_eq_true_iff.mp hpq).1 h
    · exact ihq (Bool.and_eq_true_iff.mp hpq).2 h
  | many p ih => intro s v e ps hp h; exact nil_of_laysRun (fun _ _ _ _ => ih hp) h
  | option p ih =>
    rintro s v e ps hp (⟨-, -, rfl⟩ | ⟨a, h, -⟩)
    · rfl
    · exact ih hp h
  | absent p ih => rintro s v e ps - ⟨-, -, rfl⟩; rfl
  | build f p ih => rintro s v e ps hp ⟨a, h, -⟩; exact ih hp h

/-! ## Values and their parts -/

/-- The value of every match of the expression is related to its parts. -/
def Relates (A : Account source Out Part) (p : Peg Out α) (R : α → List Part → Prop) : Prop :=
  ∀ s v e ps, A.Lays p s v e ps → R v ps

/-- The parts that `f` takes from a value are among its parts, in the same order. -/
abbrev Keeps (f : α → List Part) (v : α) (ps : List Part) : Prop := List.Sublist (f v) ps

/-- The parts are these and no others. -/
def Comprises (kept ps : List Part) : Prop := ps = kept

theorem Comprises.append {ps qs kept kept' : List Part} (h : Comprises kept ps) (h' : Comprises kept' qs) :
    Comprises (kept ++ kept') (ps ++ qs) := by
  rw [Comprises, h, h']

/-- The parts that `f` takes from a value are all its parts. -/
abbrev Gives (f : α → List Part) (v : α) (ps : List Part) : Prop := Comprises (f v) ps

/-- A function whose results are related by `S` to the parts before and after, where its argument is
related by `R` to the parts after. -/
def Maps (R : α → List Part → Prop) (S : β → List Part → Prop) (f : α → β) (ps : List Part) : Prop :=
  ∀ a qs, R a qs → S (f a) (ps ++ qs)

namespace Relates

variable {R : α → List Part → Prop} {S : β → List Part → Prop} {f : α → List Part}
  {p : Peg Out α} {q : Peg Out β}

theorem nothing : A.Relates p (Keeps fun _ => []) := fun _ _ _ ps _ => List.nil_sublist ps

theorem map {g : α → β} (hp : A.Relates p R) (hg : ∀ {a ps}, R a ps → S (g a) ps) :
    A.Relates (g <$> p) S := by
  rintro s v e ps ⟨a, h, rfl⟩
  exact hg (hp _ _ _ _ h)

theorem ap {p : Peg Out (α → β)} {q : Peg Out α} (hp : A.Relates p (Maps R S)) (hq : A.Relates q R) :
    A.Relates (p <*> q) S := by
  rintro s v e ps ⟨a, m, b, qs, rs, h, h', rfl, rfl⟩
  exact hp _ _ _ _ h b rs (hq _ _ _ _ h')

theorem pair {g : β → List Part} (hp : A.Relates p (Keeps f)) (hq : A.Relates q (Keeps g)) :
    A.Relates (Prod.mk <$> p <*> q) (Keeps fun v => f v.1 ++ g v.2) :=
  .ap (.map hp fun ha _ _ hb => ha.append hb) hq

theorem left (hp : A.Relates p (Keeps f)) : A.Relates (p <* q) (Keeps f) := by
  rintro s v e ps ⟨a, m, b, qs, rs, h, -, rfl, rfl⟩
  exact (hp _ _ _ _ h).trans (List.sublist_append_left qs rs)

theorem right {f : β → List Part} (hq : A.Relates q (Keeps f)) : A.Relates (p *> q) (Keeps f) := by
  rintro s v e ps ⟨a, m, b, qs, rs, -, h, rfl, rfl⟩
  exact (hq _ _ _ _ h).trans (List.sublist_append_right qs rs)

theorem or {p q : Peg Out α} (hp : A.Relates p R) (hq : A.Relates q R) : A.Relates (p <|> q) R := by
  rintro s v e ps (h | h)
  · exact hp _ _ _ _ h
  · exact hq _ _ _ _ h

theorem option (hp : A.Relates p (Keeps f)) :
    A.Relates (.option p) (Keeps fun v => v.toList.flatMap f) := by
  rintro s v e ps (⟨rfl, -, rfl⟩ | ⟨a, h, rfl⟩)
  · exact .slnil
  · simpa [Keeps] using hp _ _ _ _ h

theorem many (hp : A.Relates p (Keeps f)) : A.Relates (.many p) (Keeps fun vs => vs.flatMap f) := by
  intro s vs e ps h
  replace h : LaysRun (A.Lays p) s vs e ps := h
  induction vs generalizing s ps with
  | nil => exact List.nil_sublist ps
  | cons v vs ih =>
    obtain ⟨m, qs, rs, hv, hvs, rfl⟩ := h
    exact (hp _ _ _ _ hv).append (ih _ _ hvs)

end Relates

end Account

end ScriptAudit
