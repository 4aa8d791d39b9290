/-
What a parsing expression does on a text of which only the beginning is known. A view of a text lists what
is known of it: single code points, and names of which only that they are free is known. `Peg.foresee`
follows an expression through a view, as far as the view reaches, and `Peg.eval_of_foresee` says that
whatever it foresees comes true of every text with that view. So that no rule of the script grammar but
one matches at some place is a matter of computation, even where the text has variable parts.
-/
import ScriptAudit.Proofs.Matcher

namespace ScriptAudit

/-! ## Names -/

/-- A name that a variable may have. -/
structure VarName where
  text : Text
  starts : text.head?.any CodePoint.startsName = true := by decide
  continues : text.all CodePoint.continuesName = true := by decide
  free : Lexeme.isReserved text = false := by decide

/-- The word that makes functions asynchronous, which is not reserved. -/
def asyncName : VarName where text := "async"

namespace CodePoint

theorem continuesName_of_startsName {c : CodePoint} (h : c.startsName = true) : c.continuesName = true := by
  rw [continuesName, h, Bool.true_or]

def ascii : List CodePoint := (List.range 128).filterMap ofNat?

theorem mem_ascii {c : CodePoint} (h : c.val < 128) : c ∈ ascii := by
  refine List.mem_filterMap.mpr ⟨c.val, List.mem_range.mpr h, ?_⟩
  rw [ofNat?, dif_pos c.isLt]

theorem mem_ascii_of_continuesName {c : CodePoint} (h : c.continuesName = true) : c ∈ ascii := by
  apply mem_ascii
  simp only [continuesName, startsName, between, Bool.or_eq_true, Bool.and_eq_true, decide_eq_true_eq,
    beq_iff_eq, Char.reduceToNat, ofChar, Fin.ext_iff] at h
  omega

/-- What is checked for the ASCII code points holds of all that a name may begin with. -/
theorem of_startsName {P : CodePoint → Bool} {c : CodePoint} (hc : c.startsName = true)
    (h : (ascii.all fun c => !c.startsName || P c) = true) : P c = true := by
  have hmem := mem_ascii_of_continuesName (continuesName_of_startsName hc)
  simpa [hc] using List.all_eq_true.mp h c hmem

theorem of_continuesName {P : CodePoint → Bool} {c : CodePoint} (hc : c.continuesName = true)
    (h : (ascii.all fun c => !c.continuesName || P c) = true) : P c = true := by
  simpa [hc] using List.all_eq_true.mp h c (mem_ascii_of_continuesName hc)

end CodePoint

namespace VarName

variable (n : VarName)

theorem exists_cons : ∃ c rest, n.text = c :: rest ∧ c.startsName = true := by
  have h := n.starts
  cases htext : n.text with
  | nil => simp [htext] at h
  | cons c rest => exact ⟨c, rest, rfl, by simpa [htext] using h⟩

theorem length_pos : 0 < n.text.length := by
  obtain ⟨c, rest, htext, -⟩ := n.exists_cons
  simp [htext]

/-- A name ends where a code point comes that no name goes on with. -/
theorem takeWhile_append {t : Text} (h : t.head?.any CodePoint.continuesName = false) :
    (n.text ++ t).takeWhile CodePoint.continuesName = n.text := by
  rw [List.takeWhile_append_of_pos (List.all_eq_true.mp n.continues)]
  cases t with
  | nil => simp
  | cons c t =>
    have hc : c.continuesName = false := by simpa using h
    simp [hc]

end VarName

/-! ## Views -/

/-- A code point, or a name other than `async`. -/
inductive Glimpse
  | char (c : CodePoint)
  | name
  deriving DecidableEq

/-- The text begins with what the view lists. A name is seen as a whole. -/
inductive Shows : List Glimpse → Text → Prop
  | nothing (t : Text) : Shows [] t
  | char {view : List Glimpse} {t : Text} (c : CodePoint) (h : Shows view t) :
    Shows (.char c :: view) (c :: t)
  | name {view : List Glimpse} {t : Text} (n : VarName) (hn : n.text ≠ asyncName.text)
    (hend : t.head?.any CodePoint.continuesName = false) (h : Shows view t) :
    Shows (.name :: view) (n.text ++ t)

/-- A text as a view. -/
def Text.glimpses (t : Text) : List Glimpse := t.map .char

theorem shows_glimpses {view : List Glimpse} {t : Text} (known : Text) (h : Shows view t) :
    Shows (known.glimpses ++ view) (known ++ t) := by
  induction known with
  | nil => exact h
  | cons c known ih => exact .char c ih

theorem Shows.ne_nil {view : List Glimpse} {t : Text} (h : Shows view t) (hview : view ≠ []) : t ≠ [] := by
  cases h with
  | nothing => exact absurd rfl hview
  | char => exact List.cons_ne_nil _ _
  | name n =>
    intro hnil
    exact absurd n.length_pos (by simp [(List.append_eq_nil_iff.mp hnil).1])

/-- What can be told of a match from a view: that there is none, or how much of the view it takes. -/
inductive Verdict
  | missing
  | found (taken : Nat)
  deriving DecidableEq

/-! ## Lexemes -/

namespace Lexeme

/-- The verdict comes true of the length of a lexeme. -/
def Confirms (view : List Glimpse) (t : Text) (length : Option Nat) : Verdict → Prop
  | .missing => length = none
  | .found n => ∃ k, length = some k ∧ Shows (view.drop n) (t.drop k) ∧ (n = 0 ↔ k = 0)

/-- Whether the text is there with no barred code point after it. -/
def foreseeExact (barred : CodePoint → Bool) : Text → List Glimpse → Option Bool
  | _, [] => none
  | [], .char c :: _ => some (!barred c)
  | [], .name :: _ => if CodePoint.ascii.all fun c => !c.startsName || !barred c then some true else none
  | x :: text, .char c :: view => if x = c then foreseeExact barred text view else some false
  | x :: _, .name :: _ => if x.startsName then none else some false

theorem length?_of_foreseeExact {barred : CodePoint → Bool} {text : Text} {view : List Glimpse} {t : Text}
    {there : Bool} (h : foreseeExact barred text view = some there) (hs : Shows view t) :
    (text.isPrefixOf t && !(t.drop text.length).head?.any barred) = there ∧
      (there = true → Shows (view.drop text.length) (t.drop text.length)) := by
  induction text generalizing view t with
  | nil =>
    cases hs with
    | nothing => cases h
    | char c hs =>
      cases h
      exact ⟨by simp, fun _ => .char c hs⟩
    | name n hn hend hs =>
      simp only [foreseeExact] at h
      split at h
      · rename_i hall
        cases h
        obtain ⟨c, rest, htext, hc⟩ := n.exists_cons
        have hbarred := CodePoint.of_startsName (P := fun c => !barred c) hc hall
        exact ⟨by simpa [htext] using hbarred, fun _ => .name n hn hend hs⟩
      · cases h
  | cons x text ih =>
    cases hs with
    | nothing => cases h
    | char c hs =>
      simp only [foreseeExact] at h
      split at h
      · rename_i heq
        subst heq
        obtain ⟨hthere, hshows⟩ := ih h hs
        exact ⟨by simpa using hthere, by simpa using hshows⟩
      · rename_i hne
        cases h
        exact ⟨by simp [hne], nofun⟩
    | name n hn hend hs =>
      simp only [foreseeExact] at h
      split at h
      · cases h
      · rename_i hx
        cases h
        obtain ⟨c, rest, htext, hc⟩ := n.exists_cons
        have hne : x ≠ c := by
          rintro rfl
          exact hx hc
        exact ⟨by simp [htext, hne], nofun⟩

/-- The text is a word that no name but `async` can be, and not the beginning of a name either. -/
def isWordApart (text : Text) (barred : CodePoint → Bool) : Bool :=
  (isReserved text || text == asyncName.text)
    && CodePoint.ascii.all fun c => !c.continuesName || barred c

theorem all_continuesName_of_isReserved {text : Text}
    (h : (isReserved text || text == asyncName.text) = true) : ∀ c ∈ text, c.continuesName = true := by
  have hwords : (reservedWords.all fun word => (Text.ofString word).all CodePoint.continuesName) = true := by
    decide
  rw [Bool.or_eq_true, isReserved, List.any_eq_true, beq_iff_eq] at h
  rcases h with ⟨word, hword, heq⟩ | rfl
  · rw [← beq_iff_eq.mp heq]
    exact List.all_eq_true.mp (List.all_eq_true.mp hwords word hword)
  · exact List.all_eq_true.mp asyncName.continues

theorem isPrefixOf_of_isWordApart {text : Text} {barred : CodePoint → Bool} (h : isWordApart text barred = true)
    {n : VarName} (hn : n.text ≠ asyncName.text) {t : Text}
    (hend : t.head?.any CodePoint.continuesName = false) :
    (text.isPrefixOf (n.text ++ t) && !((n.text ++ t).drop text.length).head?.any barred) = false := by
  obtain ⟨hword, hbarred⟩ := Bool.and_eq_true_iff.mp h
  have hall := all_continuesName_of_isReserved hword
  have hne : text ≠ n.text := by
    rintro rfl
    simp [n.free, hn] at hword
  rw [Bool.and_eq_false_iff, Bool.not_eq_false']
  by_cases hprefix : text.isPrefixOf (n.text ++ t) = true
  · right
    obtain ⟨after, heq⟩ := List.isPrefixOf_iff_prefix.mp hprefix
    rw [← heq, List.drop_left]
    rcases List.append_eq_append_iff.mp heq with ⟨more, htext, rfl⟩ | ⟨more, htext, ht⟩
    · -- the name goes on where the word ends
      cases more with
      | nil => exact absurd (by simpa using htext.symm) hne
      | cons d more =>
        have hd : d.continuesName = true := List.all_eq_true.mp n.continues d (by simp [htext])
        simpa using CodePoint.of_continuesName hd hbarred
    · -- the word goes on where the name ends
      cases more with
      | nil => exact absurd (by simpa using htext) hne
      | cons d more =>
        have hd : d.continuesName = true := hall d (by simp [htext])
        simp [ht, hd] at hend
  · exact .inl (Bool.eq_false_iff.mpr hprefix)

/-- The first code point is one of these. -/
def foreseeFirst (p : CodePoint → Bool) : List Glimpse → Bool
  | [] => false
  | .char c :: _ => p c
  | .name :: _ => CodePoint.ascii.all fun c => !c.startsName || p c

theorem first_of_foreseeFirst {p : CodePoint → Bool} {view : List Glimpse} {t : Text}
    (h : foreseeFirst p view = true) (hs : Shows view t) : ∃ c rest, t = c :: rest ∧ p c = true := by
  cases hs with
  | nothing => cases h
  | char c hs => exact ⟨c, _, rfl, h⟩
  | name n hn hend hs =>
    obtain ⟨c, rest, htext, hc⟩ := n.exists_cons
    exact ⟨c, _, by rw [htext, List.cons_append], CodePoint.of_startsName hc h⟩

/-- The code points with a property, up to the first without it. -/
def foreseeSpan (p : CodePoint → Bool) : List Glimpse → Option Text
  | .char c :: view => if p c then (foreseeSpan p view).map (c :: ·) else some []
  | view => if foreseeFirst (fun c => !p c) view then some [] else none

theorem takeWhile_of_foreseeSpan {p : CodePoint → Bool} {view : List Glimpse} {t span : Text}
    (h : foreseeSpan p view = some span) (hs : Shows view t) :
    t.takeWhile p = span ∧ Shows (view.drop span.length) (t.drop span.length) := by
  induction hs generalizing span with
  | nothing => cases h
  | char c hs ih =>
    simp only [foreseeSpan] at h
    split at h
    · rename_i hc
      obtain ⟨rest, hrest, rfl⟩ := Option.map_eq_some_iff.mp h
      obtain ⟨heq, hshows⟩ := ih hrest
      exact ⟨by rw [List.takeWhile_cons_of_pos hc, heq], hshows⟩
    · rename_i hc
      cases h
      exact ⟨List.takeWhile_cons_of_neg hc, .char c hs⟩
  | name n hn hend hs =>
    have hshows := Shows.name n hn hend hs
    simp only [foreseeSpan] at h
    split at h
    · rename_i hfirst
      cases h
      obtain ⟨c, rest, htext, hc⟩ := first_of_foreseeFirst hfirst hshows
      rw [htext] at hshows ⊢
      exact ⟨List.takeWhile_cons_of_neg (by simpa using hc), hshows⟩
    · cases h

/-- After a slash, this makes no comment. -/
def isNoComment : List Glimpse → Bool
  | .char d :: _ => d != '/' && d != '*'
  | _ => false

/-- How many blanks come first, where no comment comes after them. -/
def foreseeTrivia : List Glimpse → Option Nat
  | [] => none
  | .name :: _ => some 0
  | .char c :: view =>
    if c.isBlank then (foreseeTrivia view).map (· + 1)
    else if c != '/' || isNoComment view then some 0
    else none

theorem triviaFrom_cons_of_not_blank {c : CodePoint} {t : Text} (hblank : c.isBlank = false)
    (h : commentLength? (c :: t) = none) : triviaFrom 0 (c :: t) = 0 := by
  rw [triviaFrom, if_neg (by simp [hblank]), h]

theorem commentLength?_of_ne {c : CodePoint} (t : Text) (h : c ≠ '/') : commentLength? (c :: t) = none := by
  cases t with
  | nil => rfl
  | cons d t => rw [commentLength?, if_neg h]

theorem commentLength?_of_next_ne {c d : CodePoint} (t : Text) (h : d ≠ '/') (h' : d ≠ '*') :
    commentLength? (c :: d :: t) = none := by
  simp only [commentLength?, if_neg h, if_neg h', ite_self]

theorem triviaLength_of_foreseeTrivia {view : List Glimpse} {t : Text} {n : Nat}
    (h : foreseeTrivia view = some n) (hs : Shows view t) :
    triviaLength t = n ∧ Shows (view.drop n) (t.drop n) := by
  unfold triviaLength
  induction hs generalizing n with
  | nothing => cases h
  | @char view t c hs ih =>
    rw [foreseeTrivia] at h
    by_cases hblank : c.isBlank = true
    · rw [if_pos hblank] at h
      obtain ⟨m, hm, rfl⟩ := Option.map_eq_some_iff.mp h
      obtain ⟨heq, hshows⟩ := ih hm
      rw [triviaFrom, if_pos hblank, heq]
      exact ⟨rfl, hshows⟩
    · rw [if_neg hblank] at h
      have hcomment : n = 0 ∧ commentLength? (c :: t) = none := by
        by_cases hopens : (c != '/' || isNoComment view) = true
        · rw [if_pos hopens] at h
          cases h
          rw [Bool.or_eq_true, bne_iff_ne] at hopens
          rcases hopens with hslash | hview
          · exact ⟨rfl, commentLength?_of_ne _ hslash⟩
          · cases hs with
            | nothing => cases hview
            | char d hs =>
              rw [isNoComment, Bool.and_eq_true, bne_iff_ne, bne_iff_ne] at hview
              exact ⟨rfl, commentLength?_of_next_ne _ hview.1 hview.2⟩
            | name => cases hview
        · rw [if_neg hopens] at h
          cases h
      obtain ⟨rfl, hcomment⟩ := hcomment
      exact ⟨triviaFrom_cons_of_not_blank (Bool.eq_false_iff.mpr hblank) hcomment, .char c hs⟩
  | @name view t m hm hend hs =>
    cases h
    obtain ⟨c, rest, htext, hc⟩ := m.exists_cons
    have hblank : c.isBlank = false := by
      simpa using CodePoint.of_startsName (P := fun c => !c.isBlank) hc (by decide)
    have hslash : c ≠ '/' := by
      simpa using CodePoint.of_startsName (P := fun c => c != CodePoint.ofChar '/') hc (by decide)
    have hshows : Shows (.name :: view) (m.text ++ t) := .name m hm hend hs
    rw [htext] at hshows ⊢
    exact ⟨triviaFrom_cons_of_not_blank hblank (commentLength?_of_ne _ hslash), hshows⟩

theorem numberLength?_eq_none {c : CodePoint} {t : Text} (hdigit : c.isDigit = false) (hpoint : c ≠ '.') :
    numberLength? (c :: t) = none := by
  have hzero : c ≠ '0' := by
    rintro rfl
    exact absurd hdigit (by decide)
  have hradix : ∀ lower upper isDigit, radixLength? lower upper isDigit (c :: t) = none := by
    intro lower upper isDigit
    cases t with
    | nil => rfl
    | cons d t => simp [radixLength?, hzero]
  have hmantissa : mantissaLength? (c :: t) = none := by simp [mantissaLength?, hdigit, hpoint]
  simp [numberLength?, hradix, decimalLength?, hmantissa]

def foresee : Lexeme → List Glimpse → Option Verdict
  | exact text barred, view =>
    match foreseeExact barred text view with
    | some there => some (if there then .found text.length else .missing)
    | none => if view.head? = some .name && isWordApart text barred then some .missing else none
  | reserved, view =>
    if view.head? = some .name then some .missing
    else (foreseeSpan CodePoint.continuesName view).map fun word => if isReserved word then .found word.length else .missing
  | name, view =>
    if view.head? = some .name then some (.found 1)
    else if foreseeFirst (fun c => !c.startsName) view then some .missing
    else if foreseeFirst CodePoint.startsName view then
      (foreseeSpan CodePoint.continuesName view).map fun word => .found word.length
    else none
  | trivia, view => (foreseeTrivia view).map .found
  | spaces, view => (foreseeSpan (fun c => c == ' ' || c == '\t') view).map fun span => .found span.length
  | digit, view => if foreseeFirst (fun c => !c.isDigit) view then some .missing else none
  | number, view => if foreseeFirst (fun c => !c.isDigit && c != '.') view then some .missing else none
  | string quote, view => if foreseeFirst (fun c => c != quote) view then some .missing else none
  | chunk, _ => none

/-- A span of known code points has a length. -/
theorem confirms_span {p : CodePoint → Bool} {view : List Glimpse} {t span : Text}
    (h : foreseeSpan p view = some span) (hs : Shows view t) :
    Confirms view t (some (Text.spanLength p t)) (.found span.length) := by
  obtain ⟨heq, hshows⟩ := takeWhile_of_foreseeSpan h hs
  exact ⟨span.length, by rw [Text.spanLength, heq], hshows, Iff.rfl⟩

theorem confirms_exact {text : Text} {barred : CodePoint → Bool} {view : List Glimpse} {t : Text}
    {v : Verdict} (h : (exact text barred).foresee view = some v) (hs : Shows view t) :
    Confirms view t ((exact text barred).length? t) v := by
  simp only [foresee] at h
  split at h
  · rename_i there hthere
    obtain ⟨heq, hshows⟩ := length?_of_foreseeExact hthere hs
    cases there with
    | true =>
      cases h
      exact ⟨text.length, if_pos heq, hshows rfl, Iff.rfl⟩
    | false =>
      cases h
      exact if_neg (Bool.eq_false_iff.mp heq)
  · split at h
    · rename_i hword
      cases h
      rw [Bool.and_eq_true, decide_eq_true_eq] at hword
      cases hs with
      | name n hn hend hs => exact if_neg (Bool.eq_false_iff.mp (isPrefixOf_of_isWordApart hword.2 hn hend))
      | _ => simp at hword
    · cases h

theorem confirms_reserved {view : List Glimpse} {t : Text} {v : Verdict}
    (h : reserved.foresee view = some v) (hs : Shows view t) : Confirms view t (reserved.length? t) v := by
  simp only [foresee] at h
  split at h
  · rename_i hname
    cases h
    cases hs with
    | name n hn hend hs =>
      simp only [Confirms, length?, n.takeWhile_append hend, n.free, Bool.false_eq_true, if_false]
    | _ => simp at hname
  · obtain ⟨word, hword, rfl⟩ := Option.map_eq_some_iff.mp h
    obtain ⟨heq, hshows⟩ := takeWhile_of_foreseeSpan hword hs
    simp only [length?, heq]
    split
    · exact ⟨word.length, rfl, hshows, Iff.rfl⟩
    · rfl

theorem confirms_name {view : List Glimpse} {t : Text} {v : Verdict}
    (h : name.foresee view = some v) (hs : Shows view t) : Confirms view t (name.length? t) v := by
  simp only [foresee] at h
  split at h
  · rename_i hname
    cases h
    cases hs with
    | @name view t n hn hend hs =>
      have hstarts : (n.text ++ t).head?.any CodePoint.startsName = true := by
        obtain ⟨c, rest, htext, hc⟩ := n.exists_cons
        simpa [htext] using hc
      refine ⟨n.text.length, ?_, ?_, by simp [Nat.ne_of_gt n.length_pos]⟩
      · rw [length?, if_pos hstarts, Text.spanLength, n.takeWhile_append hend]
      · rw [List.drop_left]
        exact hs
    | _ => simp at hname
  · split at h
    · rename_i hfirst
      cases h
      obtain ⟨c, rest, rfl, hc⟩ := first_of_foreseeFirst hfirst hs
      exact if_neg (by simpa using hc)
    · split at h
      · rename_i hfirst
        obtain ⟨word, hword, rfl⟩ := Option.map_eq_some_iff.mp h
        have hlength : name.length? t = some (Text.spanLength CodePoint.continuesName t) := by
          obtain ⟨c, rest, rfl, hc⟩ := first_of_foreseeFirst hfirst hs
          exact if_pos (by simpa using hc)
        rw [hlength]
        exact confirms_span hword hs
      · cases h

/-- Whatever is foreseen of a lexeme comes true. -/
theorem confirms_of_foresee {l : Lexeme} {view : List Glimpse} {t : Text} {v : Verdict}
    (h : l.foresee view = some v) (hs : Shows view t) : Confirms view t (l.length? t) v := by
  cases l with
  | exact text barred => exact confirms_exact h hs
  | reserved => exact confirms_reserved h hs
  | name => exact confirms_name h hs
  | trivia =>
    obtain ⟨n, hn, rfl⟩ := Option.map_eq_some_iff.mp h
    obtain ⟨heq, hshows⟩ := triviaLength_of_foreseeTrivia hn hs
    exact ⟨n, by rw [length?, heq], hshows, Iff.rfl⟩
  | spaces =>
    obtain ⟨span, hspan, rfl⟩ := Option.map_eq_some_iff.mp h
    exact confirms_span hspan hs
  | digit =>
    simp only [foresee] at h
    split at h
    · rename_i hfirst
      cases h
      obtain ⟨c, rest, rfl, hc⟩ := first_of_foreseeFirst hfirst hs
      exact if_neg (by simpa using hc)
    · cases h
  | number =>
    simp only [foresee] at h
    split at h
    · rename_i hfirst
      cases h
      obtain ⟨c, rest, rfl, hc⟩ := first_of_foreseeFirst hfirst hs
      have hc : c.isDigit = false ∧ c ≠ '.' := by simpa using hc
      exact numberLength?_eq_none hc.1 hc.2
    · cases h
  | string quote =>
    simp only [foresee] at h
    split at h
    · rename_i hfirst
      cases h
      obtain ⟨c, rest, rfl, hc⟩ := first_of_foreseeFirst hfirst hs
      exact if_neg (by simpa using hc)
    · cases h
  | chunk => cases h

end Lexeme

/-! ## Expressions -/

section Expressions

variable {Rule : Type} {Out : Rule → Type}

def foreseeMany (step : List Glimpse → Option Verdict) : (limit : Nat) → List Glimpse → Option Verdict
  | 0, _ => none
  | limit + 1, view =>
    if view.isEmpty then none
    else match step view with
      | some .missing => some (.found 0)
      | some (.found 0) => some (.found 0)
      | some (.found (n + 1)) =>
        match foreseeMany step limit (view.drop (n + 1)) with
        | some (.found m) => some (.found (n + 1 + m))
        | _ => none
      | none => none

/-- What an expression does on a text with the view, where `call` tells what the rules do. -/
def Peg.foresee (call : Rule → List Glimpse → Option Verdict) {α : Type} :
    Peg Out α → List Glimpse → Option Verdict
  | .lexeme l, view => l.foresee view
  | .rule r, view => call r view
  | .seq _ p q, view =>
    match p.foresee call view with
    | some (.found n) =>
      match q.foresee call (view.drop n) with
      | some (.found m) => some (.found (n + m))
      | other => other
    | other => other
  | .either p q, view =>
    match p.foresee call view with
    | some .missing => q.foresee call view
    | other => other
  | .many p, view => foreseeMany (p.foresee call) view.length view
  | .option p, view =>
    if view.isEmpty then none
    else match p.foresee call view with
      | some .missing => some (.found 0)
      | other => other
  | .absent p, view =>
    match p.foresee call view with
    | some .missing => some (.found 0)
    | some (.found _) => some .missing
    | none => none
  | .build _ p, view => p.foresee call view

def Grammar.foresee (g : Grammar Out) : (depth : Nat) → Rule → List Glimpse → Option Verdict
  | 0, _, _ => none
  | depth + 1, r, view => (g r).foresee (foresee g depth) view

variable {source : Text} {α : Type}

/-- The verdict comes true of a reply. -/
def Verdict.Describes (view : List Glimpse) (c : Cursor source) (reply : Option (Reply source α)) :
    Verdict → Prop
  | .missing => reply = some .missing
  | .found n => ∃ a next, reply = some (.found a next) ∧ Shows (view.drop n) next.rest ∧
      (n = 0 → next = c) ∧ (0 < n → c.offset < next.offset)

theorem Shows.atEnd_eq_false {view : List Glimpse} {c : Cursor source} (h : Shows view c.rest)
    (hview : view.isEmpty = false) : c.atEnd = false := by
  have hne : view ≠ [] := by
    rintro rfl
    cases hview
  rw [Cursor.atEnd, List.isEmpty_eq_false_iff]
  exact h.ne_nil hne

theorem Cursor.length_rest_lt {c d : Cursor source} (hc : c.atEnd = false) (h : c.offset < d.offset) :
    d.rest.length < c.rest.length := by
  have hpos : 0 < c.rest.length := by
    rw [List.length_pos_iff]
    simpa [Cursor.atEnd] using hc
  rw [c.rest_eq, List.length_drop] at hpos ⊢
  rw [d.rest_eq, List.length_drop]
  omega

/-- What is foreseen of a step comes true of its repetition. -/
theorem describes_iterate {step : Cursor source → Option (Reply source α)}
    {foreseen : List Glimpse → Option Verdict}
    (hstep : ∀ view v c, foreseen view = some v → Shows view c.rest → v.Describes view c (step c))
    (limit : Nat) : ∀ view v c (bound : Text), foreseeMany foreseen limit view = some v →
      Shows view c.rest → c.rest.length ≤ bound.length → v.Describes view c (iterate step bound c) := by
  induction limit with
  | zero => intro view v c bound h; cases h
  | succ limit ih =>
    intro view v c bound h hs hbound
    rw [foreseeMany] at h
    split at h
    · cases h
    · rename_i hview
      have hend := hs.atEnd_eq_false (Bool.eq_false_iff.mpr hview)
      have hpos : 0 < c.rest.length := by
        rw [List.length_pos_iff]
        simpa [Cursor.atEnd] using hend
      obtain ⟨x, bound, rfl⟩ : ∃ x bound', bound = x :: bound' := by
        cases bound with
        | nil =>
          rw [List.length_nil] at hbound
          omega
        | cons x bound => exact ⟨x, bound, rfl⟩
      rw [iterate, if_neg (by simp [hend])]
      split at h
      · rename_i hmissing
        cases h
        have := hstep view _ c hmissing hs
        simp only [Verdict.Describes] at this
        rw [this]
        exact ⟨[], c, rfl, hs, fun _ => rfl, fun h => absurd h (Nat.lt_irrefl 0)⟩
      · rename_i hfound
        cases h
        obtain ⟨a, next, heq, hshows, hstay, -⟩ := hstep view _ c hfound hs
        have hnext := hstay rfl
        subst hnext
        rw [heq]
        exact ⟨[a], next, if_pos rfl, hs, fun _ => rfl, fun h => absurd h (Nat.lt_irrefl 0)⟩
      · rename_i n hfound
        obtain ⟨a, next, heq, hshows, -, hmoves⟩ := hstep view _ c hfound hs
        have hmoves := hmoves (Nat.succ_pos n)
        split at h
        · rename_i m hrest
          cases h
          have hlength := Cursor.length_rest_lt hend hmoves
          obtain ⟨as, last, hiter, hlast, hstay, hgoes⟩ :=
            ih _ _ next bound hrest hshows (by rw [List.length_cons] at hbound; omega)
          rw [List.drop_drop] at hlast
          rw [heq]
          simp only [if_neg (Nat.ne_of_gt hmoves), hiter]
          refine ⟨a :: as, last, rfl, hlast, by omega, fun _ => ?_⟩
          rcases Nat.eq_zero_or_pos m with hm | hm
          · rw [hstay hm]
            exact hmoves
          · exact Nat.lt_trans hmoves (hgoes hm)
        · cases h
      · cases h

/-- Whatever is foreseen of an expression comes true, if it does of the rules. -/
theorem Peg.describes_of_foresee {call : (r : Rule) → Cursor source → Option (Reply source (Out r))}
    {foreseen : Rule → List Glimpse → Option Verdict}
    (hcall : ∀ r view v c, foreseen r view = some v → Shows view c.rest → v.Describes view c (call r c))
    (p : Peg Out α) : ∀ view v c, p.foresee foreseen view = some v → Shows view c.rest →
      v.Describes view c (p.eval call c) := by
  induction p with
  | lexeme l =>
    intro view v c h hs
    have hconfirms := Lexeme.confirms_of_foresee h hs
    rw [Peg.eval_lexeme]
    cases v with
    | missing =>
      rw [Lexeme.Confirms] at hconfirms
      simp only [hconfirms, Verdict.Describes]
    | found n =>
      obtain ⟨k, hk, hshows, hzero⟩ := hconfirms
      rw [hk]
      refine ⟨_, c.advance k, rfl, hshows, fun hn => ?_, fun hn => ?_⟩
      · exact Cursor.ext_offset (by simp [Cursor.advance, hzero.mp hn])
      · have : k ≠ 0 := fun hk => Nat.ne_of_gt hn (hzero.mpr hk)
        simp only [Cursor.advance]
        omega
  | rule r => exact hcall r
  | seq f p q ihp ihq =>
    intro view v c h hs
    rw [Peg.foresee] at h
    rw [Peg.eval_seq]
    split at h
    · rename_i n hp
      obtain ⟨a, middle, heq, hmiddle, hstay, hgoes⟩ := ihp view _ c hp hs
      simp only [heq]
      split at h
      · rename_i m hq
        cases h
        obtain ⟨b, next, heq', hnext, hstay', hgoes'⟩ := ihq _ _ middle hq hmiddle
        rw [List.drop_drop] at hnext
        rw [heq']
        refine ⟨f a b, next, rfl, hnext, fun hnm => ?_, fun hnm => ?_⟩
        · rw [hstay' (by omega), hstay (by omega)]
        · rcases Nat.eq_zero_or_pos n with hn | hn
          · rw [← hstay hn]
            exact hgoes' (by omega)
          · rcases Nat.eq_zero_or_pos m with hm | hm
            · rw [hstay' hm]
              exact hgoes hn
            · exact Nat.lt_trans (hgoes hn) (hgoes' hm)
      · rename_i hq
        cases v with
        | missing =>
          have := ihq _ _ middle h hmiddle
          rw [Verdict.Describes] at this
          simp only [this, Verdict.Describes]
        | found m => exact absurd h (hq m)
    · rename_i hp
      cases v with
      | missing =>
        have := ihp _ _ c h hs
        rw [Verdict.Describes] at this
        simp only [this, Verdict.Describes]
      | found m => exact absurd h (hp m)
  | either p q ihp ihq =>
    intro view v c h hs
    rw [Peg.foresee] at h
    rw [Peg.eval_either]
    split at h
    · rename_i hp
      have := ihp _ _ c hp hs
      rw [Verdict.Describes] at this
      simp only [this]
      exact ihq _ _ c h hs
    · rename_i hp
      cases v with
      | missing => exact absurd h hp
      | found m =>
        obtain ⟨a, next, heq, hrest⟩ := ihp _ _ c h hs
        rw [heq]
        exact ⟨a, next, rfl, hrest⟩
  | many p ih =>
    intro view v c h hs
    exact describes_iterate ih _ view v c c.rest h hs (Nat.le_refl _)
  | option p ih =>
    intro view v c h hs
    rw [Peg.foresee] at h
    split at h
    · cases h
    · rename_i hview
      have hend := hs.atEnd_eq_false (Bool.eq_false_iff.mpr hview)
      rw [Peg.eval_option, if_neg (by simp [hend])]
      split at h
      · rename_i hp
        cases h
        have := ih _ _ c hp hs
        rw [Verdict.Describes] at this
        simp only [this]
        exact ⟨none, c, rfl, hs, fun _ => rfl, nofun⟩
      · rename_i hp
        cases v with
        | missing => exact absurd h hp
        | found m =>
          obtain ⟨a, next, heq, hrest⟩ := ih _ _ c h hs
          rw [heq]
          exact ⟨some a, next, rfl, hrest⟩
  | absent p ih =>
    intro view v c h hs
    rw [Peg.foresee] at h
    rw [Peg.eval_absent]
    split at h
    · rename_i hp
      cases h
      have := ih _ _ c hp hs
      rw [Verdict.Describes] at this
      simp only [this]
      exact ⟨(), c, rfl, hs, fun _ => rfl, nofun⟩
    · rename_i hp
      cases h
      obtain ⟨a, next, heq, -⟩ := ih _ _ c hp hs
      simp only [heq, Verdict.Describes]
    · cases h
  | build f p ih =>
    intro view v c h hs
    rw [Peg.foresee] at h
    rw [Peg.eval_build]
    have := ih view v c h hs
    cases v with
    | missing =>
      rw [Verdict.Describes] at this
      simp only [this, Verdict.Describes]
    | found m =>
      obtain ⟨a, next, heq, hrest⟩ := this
      rw [heq]
      exact ⟨_, next, rfl, hrest⟩

theorem Grammar.describes_of_foresee (g : Grammar Out) (depth : Nat) : ∀ r view v (c : Cursor source),
    g.foresee depth r view = some v → Shows view c.rest → v.Describes view c (g.eval depth r c) := by
  induction depth with
  | zero => intro r view v c h; cases h
  | succ depth ih => exact fun r => Peg.describes_of_foresee ih (g r)

/-- Where no match is foreseen there is none, at any greater depth either. -/
theorem Peg.eval_of_foresee_missing {g : Grammar Out} {p : Peg Out α} {view : List Glimpse}
    {c : Cursor source} {depth d : Nat} (h : p.foresee (g.foresee depth) view = some .missing)
    (hs : Shows view c.rest) (hd : depth ≤ d) : p.eval (g.eval d) c = some .missing :=
  Peg.eval_mono (fun r c reply => g.eval_le hd r c reply) p c _
    (Peg.describes_of_foresee (g.describes_of_foresee depth) p view _ c h hs)

end Expressions

end ScriptAudit
