/-
With what a match begins. Some lexemes cannot begin at one place: their texts differ, or one of them bars what the other
goes on with (`Start.excludes`). The lexemes with which the matches of a rule may begin are computed from the grammar
(`Rule.starts`), and where one pattern matches, none does whose beginnings are all excluded (`Finds.lacks`).

That is most of what there is to the choices of the grammar outside brackets: the first lexeme decides.
-/
import ScriptAudit.Proofs.Enclosure

namespace ScriptAudit

/-! ## Lexemes that exclude each other -/

namespace Lexeme

variable {t : Text} {l : Lexeme} {n : Nat}

/-- The texts differ, or what is barred after one of them comes next in the other. -/
def differ (barred barred' : CodePoint → Bool) : Text → Text → Bool
  | [], [] => false
  | [], y :: _ => barred y
  | x :: _, [] => barred' x
  | x :: text, y :: text' => x != y || differ barred barred' text text'

theorem differ_eq_false {barred barred' : CodePoint → Bool} {text text' rest rest' : Text}
    (h : text ++ rest = text' ++ rest') (hrest : rest.head?.any barred = false)
    (hrest' : rest'.head?.any barred' = false) : differ barred barred' text text' = false := by
  fun_induction differ barred barred' text text' with
  | case1 => rfl
  | case2 y text' =>
    rw [List.nil_append] at h
    simpa [h] using hrest
  | case3 x text =>
    rw [List.nil_append] at h
    simpa [← h] using hrest'
  | case4 x text y text' ih =>
    obtain ⟨rfl, htail⟩ := List.cons.inj h
    simpa using ih htail

/-- What the lexeme may begin with. -/
def begins : Lexeme → CodePoint → Bool
  | «exact» (x :: _) _, c => c == x
  | name, c => c.startsName
  | digit, c => c.isDigit
  | number, c => c.isDigit || c == '.'
  | string quote, c => c == quote
  | _, _ => true

theorem begins_of_length? {c : CodePoint} (h : l.length? (c :: t) = some n) : l.begins c = true := by
  cases l with
  | «exact» text barred =>
    cases text with
    | nil => rfl
    | cons x text =>
      obtain ⟨rest, heq, -, -⟩ := exists_of_exact h
      exact beq_iff_eq.mpr (List.cons.inj heq).1
  | name =>
    simp only [length?] at h
    split at h
    · rename_i hstarts
      simpa [begins] using hstarts
    · cases h
  | digit =>
    simp only [length?] at h
    split at h
    · rename_i hdigit
      simpa [begins] using hdigit
    · cases h
  | number =>
    by_contra hc
    have hne : c.isDigit = false ∧ c ≠ '.' := by simpa [begins] using hc
    rw [length?, numberLength?_eq_none hne.1 hne.2] at h
    cases h
  | string quote =>
    simp only [length?] at h
    split at h
    · rename_i hquote
      exact beq_iff_eq.mpr hquote
    · cases h
  | reserved | trivia | spaces | chunk => rfl

/-- Whether the lexeme may begin as a name does. -/
def isNamelike : Lexeme → Bool
  | «exact» (x :: _) _ => x.startsName
  | string quote => CodePoint.startsName quote
  | number | digit => false
  | _ => true

theorem isNamelike_of_begins {c : CodePoint} (hc : c.startsName = true) (h : l.begins c = true) :
    l.isNamelike = true := by
  have hdigit : (!(c.isDigit || c == '.')) = true :=
    CodePoint.of_startsName (P := fun c => !(c.isDigit || c == CodePoint.ofChar '.')) hc (by decide)
  cases l with
  | «exact» text barred =>
    cases text with
    | nil => rfl
    | cons x text => rwa [isNamelike, ← beq_iff_eq.mp h]
  | string quote => rwa [isNamelike, ← beq_iff_eq.mp h]
  | number => rw [show (c.isDigit || c == '.') = true from h] at hdigit; cases hdigit
  | digit => rw [show c.isDigit = true from h] at hdigit; cases hdigit
  | name | reserved | trivia | spaces | chunk => rfl

/-- The code point that is known to come first. -/
def first? : Lexeme → Option CodePoint
  | «exact» (x :: _) _ => some x
  | string quote => some quote
  | _ => none

theorem head?_of_first? {x : CodePoint} (hx : l.first? = some x) (h : l.length? t = some n) :
    ∃ rest, t = x :: rest := by
  cases l with
  | «exact» text barred =>
    cases text with
    | nil => cases hx
    | cons y text =>
      cases hx
      obtain ⟨rest, rfl, -, -⟩ := exists_of_exact h
      exact ⟨_, rfl⟩
  | string quote =>
    cases hx
    cases t with
    | nil => cases h
    | cons c t =>
      have := begins_of_length? h
      exact ⟨t, by rw [beq_iff_eq.mp this]⟩
  | _ => cases hx

end Lexeme

/-- A lexeme with which a match begins, or a name that is not reserved. -/
inductive Start
  | lexeme (l : Lexeme)
  | free

namespace Start

def isThere (t : Text) : Start → Bool
  | lexeme l => (l.length? t).isSome
  | free => (Lexeme.name.length? t).isSome && (Lexeme.reserved.length? t).isNone

/-- The text is a reserved word, and not the beginning of a longer name. -/
def isWord (text : Text) (barred : CodePoint → Bool) : Bool :=
  text.all CodePoint.continuesName && Lexeme.isReserved text &&
    CodePoint.ascii.all fun c => !c.continuesName || barred c

/-- Where the first is, the second is not. -/
def clashes : Start → Start → Bool
  | lexeme (.exact text barred), lexeme (.exact text' barred') => Lexeme.differ barred barred' text text'
  | lexeme l, lexeme l' => l.first?.any fun x => !l'.begins x
  | lexeme (.exact text barred), free => isWord text barred
  | free, lexeme l => !l.isNamelike
  | _, _ => false

def excludes (a b : Start) : Bool := clashes a b || clashes b a

variable {t : Text} {a b : Start}

theorem isThere_lexeme {l : Lexeme} : (lexeme l).isThere t = true ↔ ∃ n, l.length? t = some n :=
  Option.isSome_iff_exists

theorem reserved_of_isWord {text : Text} {barred : CodePoint → Bool} (hword : isWord text barred = true) {n : Nat}
    (h : (Lexeme.exact text barred).length? t = some n) : Lexeme.reserved.length? t = some text.length := by
  simp only [isWord, Bool.and_eq_true] at hword
  obtain ⟨⟨hall, hreserved⟩, hbarred⟩ := hword
  obtain ⟨rest, rfl, -, hrest⟩ := Lexeme.exists_of_exact h
  have hspan : (text ++ rest).takeWhile CodePoint.continuesName = text := by
    rw [List.takeWhile_append_of_pos (List.all_eq_true.mp hall)]
    cases rest with
    | nil => simp
    | cons c rest =>
      have hc : c.continuesName = false := by
        by_contra hcontinues
        have := CodePoint.of_continuesName (Bool.of_not_eq_false hcontinues) hbarred
        simp [this] at hrest
      simp [hc]
  rw [Lexeme.length?, hspan]
  exact if_pos hreserved

theorem exists_of_free (h : free.isThere t = true) :
    Lexeme.reserved.length? t = none ∧ ∃ c rest, t = c :: rest ∧ c.startsName = true := by
  obtain ⟨hname, hreserved⟩ := Bool.and_eq_true_iff.mp h
  refine ⟨Option.isNone_iff_eq_none.mp hreserved, ?_⟩
  obtain ⟨n, hn⟩ := Option.isSome_iff_exists.mp hname
  cases t with
  | nil => cases hn
  | cons c rest => exact ⟨c, rest, rfl, Lexeme.begins_of_length? hn⟩

theorem clashes_eq_false (ha : a.isThere t = true) (hb : b.isThere t = true) : clashes a b = false := by
  fun_cases clashes a b with
  | case1 text barred text' barred' =>
    obtain ⟨n, ha⟩ := isThere_lexeme.mp ha
    obtain ⟨n', hb⟩ := isThere_lexeme.mp hb
    obtain ⟨rest, rfl, -, hrest⟩ := Lexeme.exists_of_exact ha
    obtain ⟨rest', heq, -, hrest'⟩ := Lexeme.exists_of_exact hb
    exact Lexeme.differ_eq_false heq hrest hrest'
  | case2 l l' =>
    obtain ⟨n, ha⟩ := isThere_lexeme.mp ha
    obtain ⟨n', hb⟩ := isThere_lexeme.mp hb
    cases hfirst : l.first? with
    | none => rfl
    | some x =>
      obtain ⟨rest, rfl⟩ := Lexeme.head?_of_first? hfirst ha
      simp [Lexeme.begins_of_length? hb]
  | case3 text barred =>
    by_contra hword
    obtain ⟨n, ha⟩ := isThere_lexeme.mp ha
    have hreserved := reserved_of_isWord (Bool.of_not_eq_false hword) ha
    rw [(exists_of_free hb).1] at hreserved
    cases hreserved
  | case4 l =>
    obtain ⟨-, c, rest, rfl, hc⟩ := exists_of_free ha
    obtain ⟨n, hb⟩ := isThere_lexeme.mp hb
    rw [Lexeme.isNamelike_of_begins hc (Lexeme.begins_of_length? hb), Bool.not_true]
  | case5 => rfl

/-- Of two that exclude each other, only one is there. -/
theorem isThere_of_excludes (h : a.excludes b = true) (ha : a.isThere t = true) : b.isThere t = false := by
  by_contra hb
  have hb := Bool.of_not_eq_false hb
  rw [excludes, clashes_eq_false ha hb, clashes_eq_false hb ha] at h
  cases h

end Start

/-! ## With what expressions begin -/

section Starts

variable {Rule : Type} {Out : Rule → Type} {source : Text} {α : Type}

/-- With what the matches of the expression begin, and whether there may be empty ones. -/
def Peg.starts (call : Rule → Option (List Start × Bool)) {α : Type} : Peg Out α → Option (List Start × Bool)
  | .lexeme l => some ([.lexeme l], false)
  | .rule r => call r
  | .seq _ p q =>
    match p.starts call with
    | some (starts, true) => (q.starts call).map fun (starts', empty) => (starts ++ starts', empty)
    | other => other
  | .either p q =>
    match p.starts call, q.starts call with
    | some (starts, empty), some (starts', empty') => some (starts ++ starts', empty || empty')
    | _, _ => none
  | .many p | .option p => (p.starts call).map fun (starts, _) => (starts, true)
  | .absent _ => none
  | .build _ p => p.starts call

/-- There is no match, or an empty one if that may be. -/
def Idle (empty : Bool) (c : Cursor source) (reply : Option (Reply source α)) : Prop :=
  reply = some .missing ∨ empty = true ∧ ∃ a, reply = some (.found a c)

variable {call : (r : Rule) → Cursor source → Option (Reply source (Out r))}
  {begin : Rule → Option (List Start × Bool)} {c : Cursor source}

theorem Peg.idle_of_starts
    (hcall : ∀ {r starts empty}, begin r = some (starts, empty) → (∀ s ∈ starts, s.isThere c.rest = false) →
      Idle empty c (call r c)) (p : Peg Out α) :
    ∀ {starts empty}, p.starts begin = some (starts, empty) → (∀ s ∈ starts, s.isThere c.rest = false) →
      Idle empty c (p.eval call c) := by
  induction p with
  | lexeme l =>
    intro starts empty h hstarts
    cases h
    have hnone : l.length? c.rest = none := by
      simpa [Start.isThere] using hstarts _ List.mem_cons_self
    exact .inl (by rw [Peg.eval_lexeme, hnone])
  | rule r => exact fun h hstarts => hcall h hstarts
  | seq f p q ihp ihq =>
    intro starts empty h hstarts
    rw [Peg.eval_seq]
    simp only [Peg.starts] at h
    split at h
    · rename_i starts' hp
      obtain ⟨⟨starts'', empty'⟩, hq, heq⟩ := Option.map_eq_some_iff.mp h
      cases heq
      obtain ⟨hstarts', hstarts''⟩ := List.forall_mem_append.mp hstarts
      rcases ihp hp hstarts' with hmiss | ⟨-, a, hfound⟩
      · exact .inl (by rw [hmiss])
      · rcases ihq hq hstarts'' with hmiss | ⟨hempty, b, hfound'⟩
        · exact .inl (by simp only [hfound, hmiss])
        · exact .inr ⟨hempty, f a b, by simp only [hfound, hfound']⟩
    · rename_i hfirm
      rcases ihp h hstarts with hmiss | ⟨rfl, -⟩
      · exact .inl (by rw [hmiss])
      · exact absurd h (hfirm starts)
  | either p q ihp ihq =>
    intro starts empty h hstarts
    rw [Peg.eval_either]
    simp only [Peg.starts] at h
    split at h
    · rename_i hp hq
      cases h
      obtain ⟨hstarts', hstarts''⟩ := List.forall_mem_append.mp hstarts
      rcases ihp hp hstarts' with hmiss | ⟨rfl, a, hfound⟩
      · rw [hmiss]
        rcases ihq hq hstarts'' with hmiss' | ⟨rfl, b, hfound⟩
        · exact .inl hmiss'
        · exact .inr ⟨Bool.or_true _, b, hfound⟩
      · exact .inr ⟨Bool.true_or _, a, by rw [hfound]⟩
    · cases h
  | many p ih =>
    intro starts empty h hstarts
    obtain ⟨⟨starts', empty'⟩, hp, heq⟩ := Option.map_eq_some_iff.mp h
    cases heq
    refine .inr ⟨rfl, ?_⟩
    rw [Peg.eval]
    cases c.rest with
    | nil => exact ⟨[], rfl⟩
    | cons x bound =>
      rw [iterate]
      split
      · exact ⟨[], rfl⟩
      · rcases ih hp hstarts with hmiss | ⟨-, a, hfound⟩
        · exact ⟨[], by rw [hmiss]⟩
        · exact ⟨[a], by simp only [hfound, if_true]⟩
  | option p ih =>
    intro starts empty h hstarts
    obtain ⟨⟨starts', empty'⟩, hp, heq⟩ := Option.map_eq_some_iff.mp h
    cases heq
    refine .inr ⟨rfl, ?_⟩
    rw [Peg.eval_option]
    split
    · exact ⟨none, rfl⟩
    · rcases ih hp hstarts with hmiss | ⟨-, a, hfound⟩
      · exact ⟨none, by rw [hmiss]⟩
      · exact ⟨some a, by rw [hfound]⟩
  | absent p =>
    intro starts empty h
    cases h
  | build f p ih =>
    intro starts empty h hstarts
    rw [Peg.eval_build]
    rcases ih h hstarts with hmiss | ⟨hempty, a, hfound⟩
    · exact .inl (by rw [hmiss])
    · exact .inr ⟨hempty, _, by rw [hfound]⟩

end Starts

/-! ## With what the rules begin -/

open ScriptGrammar

variable {source : Text} {α β : Type} {c next : Cursor source}

/-- The pattern matches from one place to another. -/
abbrev Finds (p : Pattern α) (c : Cursor source) (a : α) (next : Cursor source) : Prop :=
  Settles scriptGrammar p c (.found a next)

/-- The pattern does not match. -/
abbrev Lacks (p : Pattern α) (c : Cursor source) : Prop := Settles scriptGrammar p c .missing

/-- With what the matches of a rule begin, and whether there may be empty ones, as far as `depth` rules inside each
other show it. -/
def Rule.starts : (depth : Nat) → Rule → Option (List Start × Bool)
  | 0, _ => none
  | depth + 1, r =>
    if r = identifier then some ([.free], false) else (scriptGrammar r).starts (starts depth)

theorem misses_identifier (h : Start.isThere c.rest .free = false) (d : Nat) : Misses (d + 2) (ref .identifier) c := by
  refine Misses.rule (.build ?_)
  cases hreserved : Lexeme.reserved.length? c.rest with
  | some n =>
    refine .seq_left ?_
    have hkeyword : Reads (d + 1) (ref .keyword) c (c.rest.take n) (c.advance n) := by
      change (Peg.lexeme Lexeme.reserved).eval _ c = _
      rw [Peg.eval_lexeme, hreserved]
    rw [Misses, Peg.eval_absent, hkeyword]
  | none =>
    have hname : Lexeme.name.length? c.rest = none := by
      simpa [Start.isThere, hreserved] using h
    have hkeyword : Misses (d + 1) (ref .keyword) c := by
      change (Peg.lexeme Lexeme.reserved).eval _ c = _
      rw [Peg.eval_lexeme, hreserved]
    have habsent : Reads (d + 1) (.absent (ref .keyword)) c () c := by
      rw [Reads, Peg.eval_absent, hkeyword]
    refine .seq_right habsent ?_
    rw [Misses, Peg.eval_lexeme, hname]

theorem Rule.idle_of_starts (depth : Nat) : ∀ {r starts empty}, Rule.starts depth r = some (starts, empty) →
    (∀ s ∈ starts, s.isThere c.rest = false) → Idle empty c (scriptGrammar.eval (depth + 1) r c) := by
  induction depth with
  | zero =>
    intro r starts empty h
    cases h
  | succ depth ih =>
    intro r starts empty h hstarts
    rw [Rule.starts] at h
    split at h
    · rename_i hr
      subst hr
      cases h
      exact .inl (misses_identifier (hstarts _ List.mem_cons_self) depth)
    · exact (scriptGrammar r).idle_of_starts ih h hstarts

/-- What the matches of a pattern begin with, if none is empty. -/
def Peg.begins (p : Pattern α) : Option (List Start) :=
  match p.starts (Rule.starts 6) with
  | some (starts, false) => some starts
  | _ => none

/-- Where this is, the pattern does not match. -/
def Start.bars (s : Start) (p : Pattern α) : Bool := p.begins.any fun starts => starts.all s.excludes

/-- Where the first pattern matches, the second does not. -/
def Peg.bars (p : Pattern α) (q : Pattern β) : Bool := p.begins.any fun starts => starts.all (·.bars q)

variable {p : Pattern α} {q : Pattern β} {starts : List Start}

theorem Peg.lacks_of_begins (h : p.begins = some starts) (hstarts : ∀ s ∈ starts, s.isThere c.rest = false) :
    Lacks p c := by
  rw [Peg.begins] at h
  split at h
  · rename_i hp
    cases h
    rcases p.idle_of_starts (Rule.idle_of_starts 6) hp hstarts with hmiss | ⟨hempty, -⟩
    · exact ⟨7, hmiss⟩
    · cases hempty
  · cases h

/-- Where a pattern matches, one of its beginnings is. -/
theorem Finds.exists_start {a : α} (h : Finds p c a next) (hp : p.begins = some starts) :
    ∃ s ∈ starts, s.isThere c.rest = true := by
  by_contra hnone
  have hlacks : Lacks p c := Peg.lacks_of_begins hp fun s hs => by
    by_contra hthere
    exact hnone ⟨s, hs, Bool.of_not_eq_false hthere⟩
  cases h.unique hlacks

theorem Start.lacks {s : Start} (h : s.bars p = true) (hs : s.isThere c.rest = true) : Lacks p c := by
  obtain ⟨starts, hstarts, hall⟩ := (Option.any_eq_true _ _).mp h
  exact Peg.lacks_of_begins hstarts fun s' hs' => Start.isThere_of_excludes (List.all_eq_true.mp hall s' hs') hs

/-- **The beginning decides.** Where a pattern matches, none does that begins with something else. -/
theorem Finds.lacks {a : α} (h : Finds p c a next) (hp : p.bars q = true) : Lacks q c := by
  obtain ⟨starts, hstarts, hall⟩ := (Option.any_eq_true _ _).mp hp
  obtain ⟨s, hs, hthere⟩ := h.exists_start hstarts
  exact Start.lacks (List.all_eq_true.mp hall s hs) hthere

end ScriptAudit
