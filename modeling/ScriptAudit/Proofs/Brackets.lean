/-
Brackets. A scanner goes through a text of a script from left to right and knows at each place whether it is in code or
in the text of a template, and inside what. It passes comments and strings as a whole, an opening bracket leads one
level down, a closing one leads up again, and where nothing is open to be closed, it stops. A text is balanced if the
scanner gets through it and ends on the level where it began (`Text.isBalanced`).

Each lexeme of the grammar is a stretch that the scanner passes (`Lexeme.scans`). Before a bracket that closes more than
was opened, it makes no difference to a lexeme what comes behind that bracket (`Lexeme.length?_of_enclosed`).
-/
import ScriptAudit.Proofs.CutText
import ScriptAudit.Proofs.NumberShape

namespace ScriptAudit

/-! ## The scanner -/

/-- Where the scanner is: in code, or in the text of a template. -/
inductive Mode
  | code
  | template
  deriving DecidableEq

namespace CodePoint

def quotes (c : CodePoint) : Bool := c == '"' || c == '\''

def opens (c : CodePoint) : Bool := c == '(' || c == '[' || c == '\x7b'

def closes (c : CodePoint) : Bool := c == ')' || c == ']' || c == '\x7d'

/-- What the scanner has to look at in code. -/
def specials : Text := "/\x60\"'()[]\x7b\x7d"

def isSpecial (c : CodePoint) : Bool := specials.contains c

end CodePoint

/-- What a step of the scanner does to its level. -/
inductive Move
  | stay
  | enter (mode : Mode)
  | leave

/-- The modes after a move, the innermost first. The outermost is never left. -/
def Move.apply : Move → List Mode → Option (List Mode)
  | stay, modes => some modes
  | enter mode, modes => some (mode :: modes)
  | leave, _ :: mode :: outer => some (mode :: outer)
  | leave, _ => none

def CodePoint.move (c : CodePoint) : Move :=
  if c.opens then .enter .code
  else if c.closes then .leave
  else if c = '\x60' then .enter .template
  else .stay

/-- The next step of the scanner and how much of the text it takes. -/
def look : Mode → Text → Option (Move × Nat)
  | _, [] => none
  | .code, c :: rest =>
    match Lexeme.commentLength? (c :: rest) with
    | some n => some (.stay, n)
    | none => some (c.move, if c.quotes then (Lexeme.stringTailLength? c rest).getD 0 + 1 else 1)
  | .template, c :: rest =>
    if c = '\x60' then some (.leave, 1)
    else if c = '\\' then
      match rest with
      | [] => none
      | _ :: _ => some (.stay, 2)
    else if c = '$' && rest.head? = some (CodePoint.ofChar '\x7b') then some (.enter .code, 2)
    else some (.stay, 1)

/-- One step of the scanner: the modes it is in afterwards, and how much of the text it takes. -/
def scan : List Mode → Text → Option (List Mode × Nat)
  | [], _ => none
  | mode :: outer, t => (look mode t).bind fun step => (step.1.apply (mode :: outer)).map fun modes => (modes, step.2)

/-- The modes at the end of the text, whose first `skip` code points belong to a step already taken. -/
def scanAll : (skip : Nat) → List Mode → Text → Option (List Mode)
  | _, modes, [] => some modes
  | skip + 1, modes, _ :: rest => scanAll skip modes rest
  | 0, modes, c :: rest =>
    match scan modes (c :: rest) with
    | none => none
    | some (modes, n) => scanAll (n - 1) modes rest

/-- Every bracket and every template that is opened is closed, and no other. -/
def Text.isBalanced (t : Text) : Bool := scanAll 0 [.code] t = some [.code]

/-- The scanner gets from one place to another. -/
inductive Scans : List Mode → Text → List Mode → Text → Prop
  | refl (modes : List Mode) (t : Text) : Scans modes t modes t
  | step {modes modes' last : List Mode} {t rest : Text} {n : Nat} (h : scan modes t = some (modes', n))
    (hrest : Scans modes' (t.drop n) last rest) : Scans modes t last rest

variable {modes modes' last : List Mode} {t rest x y w : Text} {n : Nat}

theorem scan_of_look {mode : Mode} {move : Move} (outer : List Mode) (h : look mode t = some (move, n)) :
    scan (mode :: outer) t = (move.apply (mode :: outer)).map fun modes => (modes, n) := by
  rw [scan, h]
  rfl

theorem scan_eq_some_iff : scan modes t = some (modes', n) ↔
    ∃ mode move, modes.head? = some mode ∧ look mode t = some (move, n) ∧ move.apply modes = some modes' := by
  cases modes with
  | nil => simp [scan]
  | cons mode outer =>
    simp only [scan, Option.bind_eq_some_iff, Option.map_eq_some_iff, Prod.mk.injEq, Prod.exists, List.head?_cons,
      Option.some.injEq]
    constructor
    · rintro ⟨move, n, hlook, modes', hmove, rfl, rfl⟩
      exact ⟨mode, move, rfl, hlook, hmove⟩
    · rintro ⟨_, move, rfl, hlook, hmove⟩
      exact ⟨move, n, hlook, modes', hmove, rfl, rfl⟩

theorem look_bounds {mode : Mode} {move : Move} (h : look mode t = some (move, n)) : 1 ≤ n ∧ n ≤ t.length := by
  cases t with
  | nil => cases mode <;> cases h
  | cons c rest =>
    cases mode with
    | code =>
      simp only [look] at h
      split at h
      · rename_i k hcomment
        cases h
        have := Lexeme.commentLength?_bounds hcomment
        omega
      · cases h
        split
        · cases htail : Lexeme.stringTailLength? c rest with
          | none => simp
          | some k =>
            have := Lexeme.stringTailLength?_le htail
            simpa using this
        · simp
    | template =>
      simp only [look] at h
      split at h
      · cases h
        simp
      · split at h
        · split at h
          · cases h
          · cases h
            simp
        · split at h
          · rename_i hopen
            cases h
            cases rest with
            | nil => simp at hopen
            | cons d rest => simp
          · cases h
            simp

/-- The scanner looks no further than what it takes. -/
theorem look_of_append {mode : Mode} {move : Move} (h : look mode (x ++ y) = some (move, n)) (hn : n ≤ x.length) :
    look mode x = some (move, n) := by
  have hpos := (look_bounds h).1
  cases x with
  | nil =>
    rw [List.length_nil] at hn
    omega
  | cons c x =>
    rw [List.length_cons] at hn
    cases mode with
    | code =>
      simp only [List.cons_append, look] at h ⊢
      split at h
      · rename_i k hcomment
        cases h
        rw [Lexeme.commentLength?_of_append (x := c :: x) hcomment hn]
      · rename_i hcomment
        rw [Lexeme.commentLength?_eq_none_of_append (x := c :: x) hcomment]
        simp only [Option.some.injEq, Prod.mk.injEq] at h ⊢
        refine ⟨h.1, ?_⟩
        obtain ⟨-, rfl⟩ := h
        split
        · rename_i hquotes
          rw [if_pos hquotes] at hn
          cases htail : Lexeme.stringTailLength? c (x ++ y) with
          | none => rw [Lexeme.stringTailLength?_eq_none_of_append htail]
          | some k =>
            rw [htail, Option.getD_some] at hn
            rw [Lexeme.stringTailLength?_of_append htail (by omega)]
        · rfl
    | template =>
      simp only [List.cons_append, look] at h ⊢
      split at h
      · rename_i htick
        rw [if_pos htick]
        exact h
      · rename_i htick
        rw [if_neg htick]
        split at h
        · rename_i hslash
          rw [if_pos hslash]
          cases x with
          | nil =>
            split at h
            · cases h
            · cases h
              simp at hn
          | cons d x => exact h
        · rename_i hslash
          rw [if_neg hslash]
          split at h
          · cases h
            cases x with
            | nil => simp at hn
            | cons d x =>
              rename_i hopen
              exact if_pos hopen
          · rename_i hopen
            cases h
            refine if_neg fun hx => hopen ?_
            cases x with
            | nil => simp at hx
            | cons d x => exact hx

theorem Move.apply_append {move : Move} (h : move.apply modes = some modes') (outer : List Mode) :
    move.apply (modes ++ outer) = some (modes' ++ outer) := by
  match move, modes with
  | .stay, _ =>
    cases h
    rfl
  | .enter _, _ =>
    cases h
    rfl
  | .leave, _ :: _ :: _ =>
    cases h
    rfl
  | .leave, [] => cases h
  | .leave, [_] => cases h

theorem scan_append (h : scan modes t = some (modes', n)) (outer : List Mode) :
    scan (modes ++ outer) t = some (modes' ++ outer, n) := by
  obtain ⟨mode, move, hmode, hlook, hmove⟩ := scan_eq_some_iff.mp h
  refine scan_eq_some_iff.mpr ⟨mode, move, ?_, hlook, Move.apply_append hmove outer⟩
  rw [List.head?_append, hmode]
  rfl

theorem scan_of_append (h : scan modes (x ++ y) = some (modes', n)) (hn : n ≤ x.length) :
    scan modes x = some (modes', n) := by
  obtain ⟨mode, move, hmode, hlook, hmove⟩ := scan_eq_some_iff.mp h
  exact scan_eq_some_iff.mpr ⟨mode, move, hmode, look_of_append hlook hn, hmove⟩

theorem scan_bounds (h : scan modes t = some (modes', n)) : 1 ≤ n ∧ n ≤ t.length := by
  obtain ⟨mode, move, -, hlook, -⟩ := scan_eq_some_iff.mp h
  exact look_bounds hlook

/-! ## Ways of the scanner -/

namespace Scans

theorem single (h : scan modes t = some (modes', n)) : Scans modes t modes' (t.drop n) := .step h (.refl _ _)

theorem trans (h : Scans modes t modes' w) (h' : Scans modes' w last rest) : Scans modes t last rest := by
  induction h with
  | refl => exact h'
  | step hstep _ ih => exact .step hstep (ih h')

theorem suffix (h : Scans modes t last rest) : rest <:+ t := by
  induction h with
  | refl => exact List.suffix_refl _
  | step _ _ ih => exact ih.trans (List.drop_suffix _ _)

theorem length_le (h : Scans modes t last rest) : rest.length ≤ t.length := h.suffix.length_le

/-- What is open around all of it makes no difference. -/
theorem append (h : Scans modes t last rest) (outer : List Mode) : Scans (modes ++ outer) t (last ++ outer) rest := by
  induction h with
  | refl => exact .refl _ _
  | step hstep _ ih => exact .step (scan_append hstep outer) ih

/-- Neither does what comes after all of it. -/
theorem of_append (h : Scans modes (x ++ y) last (w ++ y)) : Scans modes x last w := by
  generalize htext : x ++ y = t at h
  generalize hrest : w ++ y = rest at h
  induction h generalizing x with
  | refl =>
    obtain rfl := List.append_cancel_right (htext.trans hrest.symm)
    exact .refl _ _
  | @step modes modes' last t rest n hstep h ih =>
    subst htext hrest
    have hle := h.length_le
    have hbounds := scan_bounds hstep
    simp only [List.length_drop, List.length_append] at hle hbounds
    have hdrop : (x ++ y).drop n = x.drop n ++ y := List.drop_append_of_le_length (by omega)
    exact .step (scan_of_append hstep (by omega)) (ih hdrop.symm rfl)

/-- From every place on its way the scanner gets to where it stops. -/
theorem tail (h : Scans modes t modes' w) (hlast : Scans modes t last rest) (hstop : scan last rest = none) :
    Scans modes' w last rest := by
  induction h with
  | refl => exact hlast
  | step hstep _ ih =>
    refine ih ?_
    cases hlast with
    | refl => rw [hstop] at hstep; cases hstep
    | step hstep' hrest =>
      rw [hstep] at hstep'
      cases hstep'
      exact hrest

/-- Where the scanner stops is determined. -/
theorem unique (h : Scans modes t modes' w) (hstop : scan modes' w = none) (hlast : Scans modes t last rest)
    (hstop' : scan last rest = none) : modes' = last ∧ w = rest := by
  cases h.tail hlast hstop' with
  | refl => exact ⟨rfl, rfl⟩
  | step hstep _ => rw [hstop] at hstep; cases hstep

end Scans

theorem scan_nil (modes : List Mode) : scan modes [] = none := by
  cases modes with
  | nil => rfl
  | cons mode outer => cases mode <;> rfl

theorem scanAll_eq_drop (n : Nat) (modes : List Mode) (t : Text) : scanAll n modes t = scanAll 0 modes (t.drop n) := by
  induction t generalizing n with
  | nil =>
    rw [List.drop_nil]
    cases n <;> rfl
  | cons c t ih =>
    cases n with
    | zero => rfl
    | succ n => exact ih n

theorem scanAll_of_scan (h : scan modes t = some (modes', n)) : scanAll 0 modes t = scanAll 0 modes' (t.drop n) := by
  have hpos := (scan_bounds h).1
  cases t with
  | nil => rw [scan_nil] at h; cases h
  | cons c t =>
    obtain ⟨n, rfl⟩ := Nat.exists_eq_add_of_le' hpos
    rw [scanAll, h]
    exact scanAll_eq_drop n modes' t

theorem scans_end_iff : Scans modes t last [] ↔ scanAll 0 modes t = some last := by
  constructor
  · intro h
    generalize hend : ([] : Text) = rest at h
    induction h with
    | refl =>
      subst hend
      rfl
    | step hstep _ ih =>
      rw [scanAll_of_scan hstep]
      exact ih hend
  · intro h
    induction hlength : t.length using Nat.strongRecOn generalizing modes t with
    | ind k ih =>
      cases t with
      | nil =>
        cases h
        exact .refl _ _
      | cons c t =>
        cases hstep : scan modes (c :: t) with
        | none =>
          rw [scanAll, hstep] at h
          cases h
        | some step =>
          obtain ⟨modes', n⟩ := step
          rw [scanAll_of_scan hstep] at h
          have hbounds := scan_bounds hstep
          refine .step hstep (ih _ ?_ h rfl)
          rw [List.length_drop]
          omega

/-- A text is balanced if the scanner gets through it. -/
theorem Text.isBalanced_iff {t : Text} : t.isBalanced = true ↔ Scans [.code] t [.code] [] := by
  rw [scans_end_iff, Text.isBalanced, decide_eq_true_iff]

/-! ## Lexemes -/

/-- A class of code points that has none of the special ones. -/
theorem CodePoint.isSpecial_eq_false {p : CodePoint → Bool} {c : CodePoint}
    (h : (specials.all fun s => !p s) = true) (hc : p c = true) : c.isSpecial = false := by
  by_contra hspecial
  have hmem : c ∈ specials := List.contains_iff_mem.mp (Bool.of_not_eq_false hspecial)
  have := List.all_eq_true.mp h c hmem
  rw [hc] at this
  cases this

theorem scan_code {c : CodePoint} (outer : List Mode) (h : Lexeme.commentLength? (c :: t) = none)
    (hquotes : c.quotes = false) :
    scan (.code :: outer) (c :: t) = (c.move.apply (.code :: outer)).map fun modes => (modes, 1) := by
  refine scan_of_look outer ?_
  simp only [look, h, hquotes]
  rfl

/-- In code, the scanner passes an ordinary code point on its own. -/
theorem scan_plain {c : CodePoint} (hc : c.isSpecial = false) (outer : List Mode) (t : Text) :
    scan (.code :: outer) (c :: t) = some (.code :: outer, 1) := by
  have hne : ∀ s ∈ CodePoint.specials, c ≠ s := by
    rintro s hs rfl
    rw [CodePoint.isSpecial, List.contains_iff_mem.mpr hs] at hc
    cases hc
  have hslash : c ≠ '/' := hne _ (by decide)
  have hquotes : c.quotes = false := by
    simp [CodePoint.quotes, hne (CodePoint.ofChar '"') (by decide), hne (CodePoint.ofChar '\'') (by decide)]
  have hmove : c.move = .stay := by
    simp [CodePoint.move, CodePoint.opens, CodePoint.closes, hne (CodePoint.ofChar '(') (by decide),
      hne (CodePoint.ofChar '[') (by decide), hne (CodePoint.ofChar '\x7b') (by decide),
      hne (CodePoint.ofChar ')') (by decide), hne (CodePoint.ofChar ']') (by decide),
      hne (CodePoint.ofChar '\x7d') (by decide), hne (CodePoint.ofChar '\x60') (by decide)]
  rw [scan_code outer (Lexeme.commentLength?_of_ne t hslash) hquotes, hmove]
  rfl

/-- A slash is passed like that if no comment begins with it. -/
theorem scan_slash (outer : List Mode) (h : t.head? ≠ some (CodePoint.ofChar '/'))
    (h' : t.head? ≠ some (CodePoint.ofChar '*')) :
    scan (.code :: outer) (CodePoint.ofChar '/' :: t) = some (.code :: outer, 1) := by
  have hcomment : Lexeme.commentLength? (CodePoint.ofChar '/' :: t) = none := by
    cases t with
    | nil => rfl
    | cons d t =>
      refine Lexeme.commentLength?_of_next_ne t ?_ ?_
      · rintro rfl
        exact h rfl
      · rintro rfl
        exact h' rfl
  rw [scan_code outer hcomment rfl]
  rfl

theorem scans_plain (h : ∀ c ∈ x, c.isSpecial = false) (outer : List Mode) (t : Text) :
    Scans (.code :: outer) (x ++ t) (.code :: outer) t := by
  induction x with
  | nil => exact .refl _ _
  | cons c x ih =>
    obtain ⟨hc, hx⟩ := List.forall_mem_cons.mp h
    exact .step (scan_plain hc outer (x ++ t)) (ih hx)

theorem scans_take (h : ∀ c ∈ t.take n, c.isSpecial = false) (outer : List Mode) :
    Scans (.code :: outer) t (.code :: outer) (t.drop n) := by
  have := scans_plain h outer (t.drop n)
  rwa [List.take_append_drop] at this

theorem scans_span {p : CodePoint → Bool} (hp : (CodePoint.specials.all fun s => !p s) = true) (outer : List Mode)
    (t : Text) : Scans (.code :: outer) t (.code :: outer) (t.drop (Text.spanLength p t)) :=
  scans_take (fun _ hc => CodePoint.isSpecial_eq_false hp (Lexeme.of_mem_take_spanLength hc)) outer

theorem scans_trivia (outer : List Mode) (t : Text) :
    Scans (.code :: outer) t (.code :: outer) (t.drop (Lexeme.triviaLength t)) := by
  induction hlength : t.length using Nat.strongRecOn generalizing t with
  | ind k ih =>
    cases t with
    | nil => exact .refl _ _
    | cons c t =>
      rw [List.length_cons] at hlength
      rw [Lexeme.triviaLength, Lexeme.triviaFrom]
      split
      · rename_i hblank
        have hc : c.isSpecial = false := CodePoint.isSpecial_eq_false (by decide) hblank
        exact .step (scan_plain hc outer t) (ih _ (by omega) t rfl)
      · cases hcomment : Lexeme.commentLength? (c :: t) with
        | none => exact .refl _ _
        | some n =>
          have hbounds := Lexeme.commentLength?_bounds hcomment
          rw [List.length_cons] at hbounds
          have hlook : look .code (c :: t) = some (.stay, n) := by simp only [look, hcomment]
          have hstep : scan (.code :: outer) (c :: t) = some (.code :: outer, n) := scan_of_look outer hlook
          obtain ⟨n, rfl⟩ := Nat.exists_eq_add_of_le' (Nat.le_of_succ_le hbounds.1)
          simp only [Nat.add_sub_cancel, List.drop_succ_cons]
          rw [Lexeme.triviaFrom_eq (by omega), ← List.drop_drop]
          refine .step hstep (ih _ ?_ (t.drop n) rfl)
          rw [List.length_drop]
          omega

theorem scans_string {quote : CodePoint} (hquote : quote.quotes = true) (outer : List Mode)
    (h : (Lexeme.string quote).length? t = some n) : Scans (.code :: outer) t (.code :: outer) (t.drop n) := by
  cases t with
  | nil => cases h
  | cons c t =>
    simp only [Lexeme.length?] at h
    split at h
    · rename_i hc
      subst hc
      obtain ⟨k, hk, rfl⟩ := Option.map_eq_some_iff.mp h
      have hcases : c = '"' ∨ c = '\'' := by simpa [CodePoint.quotes] using hquote
      have hne : c ≠ '/' := by rcases hcases with rfl | rfl <;> decide
      have hmove : c.move = .stay := by rcases hcases with rfl | rfl <;> rfl
      refine .single (scan_of_look outer (?look : look .code _ = some (.stay, _)))
      simp only [look, Lexeme.commentLength?_of_ne t hne, hquote, if_true, hk, Option.getD_some, hmove]
    · cases h

/-- The text of a template goes on as long as the scanner stays in it. -/
theorem chunkLength_of_look (h : look .template t = some (.stay, n)) :
    Lexeme.chunkLength t = n + Lexeme.chunkLength (t.drop n) := by
  cases t with
  | nil => cases h
  | cons c rest =>
    simp only [look] at h
    rw [Lexeme.chunkLength.eq_def]
    simp only
    split at h
    · cases h
    · rename_i htick
      rw [if_neg htick]
      split at h
      · rename_i hslash
        rw [if_pos hslash]
        cases rest with
        | nil => cases h
        | cons d rest =>
          cases h
          exact Nat.add_comm _ _
      · rename_i hslash
        rw [if_neg hslash]
        split at h
        · cases h
        · rename_i hopen
          cases h
          rw [if_neg hopen]
          exact Nat.add_comm _ _

theorem chunkLength_eq_zero (h : ∀ n, look .template t ≠ some (.stay, n)) : Lexeme.chunkLength t = 0 := by
  cases t with
  | nil => rfl
  | cons c rest =>
    simp only [look] at h
    rw [Lexeme.chunkLength.eq_def]
    simp only
    split
    · rfl
    · rename_i htick
      rw [if_neg htick] at h
      split
      · rename_i hslash
        rw [if_pos hslash] at h
        cases rest with
        | nil => rfl
        | cons d rest => exact absurd rfl (h 2)
      · rename_i hslash
        rw [if_neg hslash] at h
        split
        · rfl
        · rename_i hopen
          exact absurd (if_neg hopen) (h 1)

/-- In a template, the scanner always goes on, unless the text ends with a backslash. -/
theorem eq_of_look_template (h : look .template t = none) : t = [] ∨ t = [CodePoint.ofChar '\\'] := by
  cases t with
  | nil => exact .inl rfl
  | cons c rest =>
    simp only [look] at h
    split at h
    · cases h
    · split at h
      · rename_i hslash
        cases rest with
        | nil => exact .inr (congrArg (fun c => [c]) hslash)
        | cons d rest => cases h
      · split at h <;> cases h

theorem eq_one_of_look_leave (h : look .template t = some (.leave, n)) : n = 1 := by
  cases t with
  | nil => cases h
  | cons c rest =>
    simp only [look] at h
    split at h
    · cases h
      rfl
    · split at h
      · split at h <;> cases h
      · split at h <;> cases h

theorem scans_chunk (outer : List Mode) (t : Text) :
    Scans (.template :: outer) t (.template :: outer) (t.drop (Lexeme.chunkLength t)) := by
  induction hlength : t.length using Nat.strongRecOn generalizing t with
  | ind k ih =>
    by_cases h : ∃ n, look .template t = some (.stay, n)
    · obtain ⟨n, h⟩ := h
      have hbounds := look_bounds h
      rw [chunkLength_of_look h, ← List.drop_drop]
      refine .step (scan_of_look outer h) (ih _ ?_ (t.drop n) rfl)
      rw [List.length_drop]
      omega
    · rw [chunkLength_eq_zero (not_exists.mp h)]
      exact .refl _ _

namespace Lexeme

/-- There is no special code point in the text, and no comment begins in it or at its end. -/
def isInert (barred : CodePoint → Bool) : Text → Bool
  | [] => true
  | [c] => !c.isSpecial || c == '/' && barred '/' && barred '*'
  | c :: d :: t => (!c.isSpecial || c == '/' && d != '/' && d != '*') && isInert barred (d :: t)

theorem scans_inert {text : Text} {barred : CodePoint → Bool} (h : isInert barred text = true) (outer : List Mode)
    (hnext : t.head?.any barred = false) : Scans (.code :: outer) (text ++ t) (.code :: outer) t := by
  fun_induction isInert barred text with
  | case1 => exact .refl _ _
  | case2 c =>
    refine .step (n := 1) ?_ (.refl _ _)
    rcases Bool.or_eq_true_iff.mp h with hplain | hslash
    · exact scan_plain (by simpa using hplain) outer t
    · simp only [Bool.and_eq_true, beq_iff_eq] at hslash
      obtain ⟨⟨rfl, hline⟩, hblock⟩ := hslash
      refine scan_slash (t := t) outer (fun hhead => ?_) fun hhead => ?_
      · simp [hhead, hline] at hnext
      · simp [hhead, hblock] at hnext
  | case3 c d text ih =>
    obtain ⟨hc, hrest⟩ := Bool.and_eq_true_iff.mp h
    refine .step (n := 1) ?_ (ih hrest)
    rcases Bool.or_eq_true_iff.mp hc with hplain | hslash
    · exact scan_plain (by simpa using hplain) outer _
    · simp only [Bool.and_eq_true, beq_iff_eq, bne_iff_ne] at hslash
      obtain ⟨⟨rfl, hline⟩, hblock⟩ := hslash
      refine scan_slash outer ?_ ?_
      · simpa using hline
      · simpa using hblock

/-- The texts that open or close something. -/
def brackets : List Text := ["(", ")", "[", "]", "\x7b", "\x7d", "\x60", "$\x7b"]

theorem look_bracket {text : Text} (h : text ∈ brackets) (mode : Mode) (t : Text) :
    look mode (text ++ t) = look mode text := by
  simp only [brackets, List.mem_cons, List.not_mem_nil, or_false] at h
  obtain rfl | rfl | rfl | rfl | rfl | rfl | rfl | rfl := h <;> cases mode <;> cases t <;> rfl

/-- The modes as they are, if the innermost is the given one. -/
def within (mode : Mode) (modes : List Mode) : Option (List Mode) :=
  if modes.head? = some mode then some modes else none

/-- The modes of the scanner behind the lexeme, if it passes it. -/
def leads : Lexeme → List Mode → Option (List Mode)
  | .exact text barred, modes =>
    if brackets.contains text then
      (scan modes text).bind fun step => if step.2 = text.length then some step.1 else none
    else if isInert barred text then within .code modes
    else none
  | .string quote, modes => if quote.quotes then within .code modes else none
  | .chunk, modes => within .template modes
  | _, modes => within .code modes

theorem within_eq_some {mode : Mode} (h : within mode modes = some modes') :
    ∃ outer, modes = mode :: outer ∧ modes' = mode :: outer := by
  rw [within] at h
  split at h
  · rename_i hhead
    cases h
    obtain ⟨outer, rfl⟩ := List.head?_eq_some_iff.mp hhead
    exact ⟨outer, rfl, rfl⟩
  · cases h

theorem isSpecial_of_number {c : CodePoint} (h : number.length? t = some n) (hc : c ∈ t.take n) :
    c.isSpecial = false := by
  have hlength : (t.take n).length = n := List.length_take_of_le (length?_le h)
  have hcut : number.length? (t.take n) = some (t.take n).length := by
    rw [hlength]
    refine length?_of_append (y := t.drop n) nofun ?_ (Nat.le_of_eq hlength.symm)
    rwa [List.take_append_drop]
  have hsuffix : ∀ {suffix : Text}, suffix = [] ∨ suffix = [CodePoint.ofChar 'n'] → c ∈ suffix →
      c.isSpecial = false := by
    rintro _ (rfl | rfl) hc
    · cases hc
    · rw [List.mem_singleton.mp hc]
      rfl
  have hunderscore : c = '_' → c.isSpecial = false := by
    rintro rfl
    rfl
  generalize t.take n = text at hc hcut
  cases shape_of_number hcut with
  | @prefixed radix mark body suffix hmark hbody hends =>
    simp only [List.mem_cons, List.mem_append] at hc
    obtain rfl | rfl | hc | hc := hc
    · rfl
    · obtain ⟨-, rfl | rfl⟩ | ⟨-, rfl | rfl⟩ | ⟨-, rfl | rfl⟩ := hmark <;> rfl
    · exact (hbody c hc).elim (CodePoint.isSpecial_eq_false rfl) hunderscore
    · exact hsuffix hends hc
  | whole hbody _ hends =>
    obtain hc | hc := List.mem_append.mp hc
    · exact (hbody c hc).elim (CodePoint.isSpecial_eq_false (by decide)) hunderscore
    · exact hsuffix hends hc
  | real hbody _ hends =>
    obtain hc | hc := List.mem_append.mp hc
    · exact (hbody c hc).elim (CodePoint.isSpecial_eq_false (by decide)) hunderscore
    · exact hsuffix hends hc

/-- A text that is there, and what follows it. -/
theorem exists_of_exact {text : Text} {barred : CodePoint → Bool} (h : (Lexeme.exact text barred).length? t = some n) :
    ∃ rest, t = text ++ rest ∧ n = text.length ∧ rest.head?.any barred = false := by
  simp only [length?] at h
  split at h
  · rename_i hmatch
    cases h
    obtain ⟨hstart, hbarred⟩ := Bool.and_eq_true_iff.mp hmatch
    obtain ⟨rest, rfl⟩ := List.isPrefixOf_iff_prefix.mp hstart
    rw [List.drop_left] at hbarred
    exact ⟨rest, rfl, rfl, by simpa using hbarred⟩
  · cases h

/-- The scanner passes the lexeme. -/
theorem scans {l : Lexeme} (hl : l.leads modes = some modes') (h : l.length? t = some n) :
    Scans modes t modes' (t.drop n) := by
  cases l with
  | «exact» text barred =>
    obtain ⟨rest, rfl, rfl, hnext⟩ := exists_of_exact h
    rw [List.drop_left]
    simp only [leads] at hl
    split at hl
    · rename_i hbracket
      obtain ⟨⟨modes'', k⟩, hscan, hk⟩ := Option.bind_eq_some_iff.mp hl
      split at hk
      · rename_i hlength
        change k = text.length at hlength
        cases hk
        obtain ⟨mode, move, hmode, hlook, hmove⟩ := scan_eq_some_iff.mp hscan
        rw [← look_bracket (List.contains_iff_mem.mp hbracket) mode rest] at hlook
        have hstep := Scans.single (scan_eq_some_iff.mpr ⟨mode, move, hmode, hlook, hmove⟩)
        rwa [hlength, List.drop_left] at hstep
      · cases hk
    · split at hl
      · rename_i hinert
        obtain ⟨outer, rfl, rfl⟩ := within_eq_some hl
        exact scans_inert hinert outer hnext
      · cases hl
  | reserved =>
    obtain ⟨outer, rfl, rfl⟩ := within_eq_some hl
    simp only [length?] at h
    split at h
    · cases h
      exact scans_span (by decide) outer t
    · cases h
  | name =>
    obtain ⟨outer, rfl, rfl⟩ := within_eq_some hl
    simp only [length?] at h
    split at h
    · cases h
      exact scans_span (by decide) outer t
    · cases h
  | trivia =>
    obtain ⟨outer, rfl, rfl⟩ := within_eq_some hl
    cases h
    exact scans_trivia outer t
  | spaces =>
    obtain ⟨outer, rfl, rfl⟩ := within_eq_some hl
    cases h
    exact scans_span (by decide) outer t
  | digit =>
    obtain ⟨outer, rfl, rfl⟩ := within_eq_some hl
    cases t with
    | nil => cases h
    | cons c t =>
      simp only [length?] at h
      split at h
      · rename_i hdigit
        cases h
        exact .single (scan_plain (CodePoint.isSpecial_eq_false (p := CodePoint.isDigit) (by decide) hdigit) outer t)
      · cases h
  | number =>
    obtain ⟨outer, rfl, rfl⟩ := within_eq_some hl
    exact scans_take (fun _ hc => isSpecial_of_number h hc) outer
  | string quote =>
    simp only [leads] at hl
    split at hl
    · rename_i hquote
      obtain ⟨outer, rfl, rfl⟩ := within_eq_some hl
      exact scans_string hquote outer h
    · cases hl
  | chunk =>
    obtain ⟨outer, rfl, rfl⟩ := within_eq_some hl
    simp only [length?] at h
    split at h
    · cases h
    · rename_i hchunk
      cases h
      have := scans_chunk outer t
      rw [hchunk] at this
      exact this

end Lexeme

/-! ## Enclosed text -/

/-- The code point closes what the scanner is in. -/
def Mode.closedBy : Mode → CodePoint → Bool
  | code, c => c.closes
  | template, c => c == '\x60'

theorem scan_closed {mode : Mode} {c : CodePoint} (h : mode.closedBy c = true) (t : Text) :
    scan [mode] (c :: t) = none := by
  cases mode with
  | code =>
    have hcases : (c = ')' ∨ c = ']') ∨ c = '\x7d' := by simpa [Mode.closedBy, CodePoint.closes] using h
    obtain (rfl | rfl) | rfl := hcases <;> rw [scan_code [] (Lexeme.commentLength?_of_ne t (by decide)) rfl] <;> rfl
  | template =>
    obtain rfl : c = '\x60' := by simpa [Mode.closedBy] using h
    rfl

/-- In the first text, before what comes after it, something is closed that was not opened there. -/
def Enclosed (modes : List Mode) (x y : Text) : Prop :=
  ∃ mode c w, Mode.closedBy mode c = true ∧ Scans modes (x ++ y) [mode] (c :: (w ++ y))

namespace Enclosed

/-- The scanner does not get beyond the text. -/
theorem le_length (h : Enclosed modes x y) (hn : Scans modes (x ++ y) modes' ((x ++ y).drop n))
    (hle : n ≤ (x ++ y).length) :
    n < x.length ∧ Enclosed modes' (x.drop n) y := by
  obtain ⟨mode, c, w, hc, h⟩ := h
  have htail := hn.tail h (scan_closed hc _)
  have hlength := htail.length_le
  simp only [List.length_drop, List.length_append, List.length_cons] at hlength hle
  have hlt : n < x.length := by omega
  rw [List.drop_append_of_le_length (Nat.le_of_lt hlt)] at htail
  exact ⟨hlt, mode, c, w, hc, htail⟩

/-- Neither does it if nothing comes after the text. -/
theorem ne_length (h : Enclosed modes x y) (hn : Scans modes x modes' (x.drop n)) : n < x.length := by
  obtain ⟨mode, c, w, hc, h⟩ := h
  have htail := hn.tail (h.of_append (w := c :: w)) (scan_closed hc _)
  have hlength := htail.length_le
  simp only [List.length_drop, List.length_cons] at hlength
  omega

end Enclosed

namespace Lexeme

theorem chunkLength_of_enclosed {outer : List Mode} (h : Enclosed (.template :: outer) x y) :
    chunkLength x = chunkLength (x ++ y) := by
  induction hlength : x.length using Nat.strongRecOn generalizing x with
  | ind k ih =>
    by_cases hstay : ∃ n, look .template (x ++ y) = some (.stay, n)
    · obtain ⟨n, hlook⟩ := hstay
      obtain ⟨hn, hrest⟩ := h.le_length (.single (scan_of_look outer hlook)) (look_bounds hlook).2
      have hpos := (look_bounds hlook).1
      rw [chunkLength_of_look hlook, chunkLength_of_look (look_of_append hlook (Nat.le_of_lt hn)),
        List.drop_append_of_le_length (Nat.le_of_lt hn)]
      refine congrArg (n + ·) (ih _ ?_ hrest rfl)
      rw [List.length_drop]
      omega
    · -- the scanner looks no further in the text alone
      rw [chunkLength_eq_zero (not_exists.mp hstay)]
      refine chunkLength_eq_zero fun n hx => ?_
      have hpos : 0 < x.length := h.ne_length (n := 0) (.refl _ _)
      cases hlook : look .template (x ++ y) with
      | none =>
        obtain hnil | hslash := eq_of_look_template hlook
        · rw [List.append_eq_nil_iff.mp hnil |>.1] at hpos
          cases hpos
        · obtain ⟨rfl, -⟩ | ⟨rfl, rfl⟩ := List.append_eq_singleton_iff.mp hslash
          · cases hpos
          · cases hx
      | some step =>
        obtain ⟨move, k⟩ := step
        have hk : k ≤ x.length := by
          cases move with
          | stay => exact absurd ⟨k, hlook⟩ hstay
          | enter mode =>
            exact Nat.le_of_lt (h.le_length (.single (scan_of_look outer hlook)) (look_bounds hlook).2).1
          | leave => rwa [eq_one_of_look_leave hlook]
        rw [look_of_append hlook hk] at hx
        cases hx
        exact hstay ⟨n, hlook⟩

/-- Whether an enclosed lexeme is there and how long it is has nothing to do with what comes after the text. -/
theorem length?_of_enclosed {l : Lexeme} {outer : List Mode} (hl : l.leads modes = some modes')
    (h : Enclosed (modes ++ outer) x y) : l.length? x = l.length? (x ++ y) := by
  cases hfound : l.length? (x ++ y) with
  | some n =>
    have hn := (h.le_length ((scans hl hfound).append outer) (length?_le hfound)).1
    cases l with
    | chunk =>
      obtain ⟨outer', rfl, rfl⟩ := within_eq_some hl
      rw [← hfound, length?, length?, chunkLength_of_enclosed h]
    | _ => exact length?_of_append (by rintro ⟨⟩) hfound (Nat.le_of_lt hn)
  | none =>
    by_contra hx
    obtain ⟨k, hk⟩ := Option.ne_none_iff_exists'.mp hx
    have hlt := h.ne_length ((scans hl hk).append outer)
    cases l with
    | «exact» text barred =>
      refine hx (exact_eq_none_of_append hfound ?_)
      rintro rfl
      rw [length?_exact hk] at hlt
      exact absurd hlt (Nat.lt_irrefl _)
    | reserved =>
      simp only [length?] at hk hfound
      split at hk
      · rename_i hreserved
        cases hk
        rw [List.takeWhile_append, if_neg (Nat.ne_of_lt hlt), if_pos hreserved] at hfound
        cases hfound
      · cases hk
    | name | digit | number | string quote => exact hx (length?_eq_none_of_append rfl hfound)
    | trivia | spaces => cases hfound
    | chunk =>
      obtain ⟨outer', rfl, rfl⟩ := within_eq_some hl
      rw [length?, chunkLength_of_enclosed h] at hx
      exact hx hfound

end Lexeme

end ScriptAudit
