/-
Lexemes of a text that is cut off. Where the cut leaves all of what a lexeme takes, the lexeme takes the same
(`Lexeme.length?_of_append`); only the text of a template may go on differently. Most lexemes that are not there are
not there either if less of the text is left (`Lexeme.length?_eq_none_of_append`). The others are a text with something
barred after it and a reserved word, since the cut may fall just behind them.
-/
import ScriptAudit.Proofs.Lexeme

namespace ScriptAudit.Lexeme

variable {x y : Text} {n : Nat}

theorem takeWhile_of_append {p : CodePoint → Bool} (h : ((x ++ y).takeWhile p).length ≤ x.length) :
    x.takeWhile p = (x ++ y).takeWhile p := by
  rw [List.takeWhile_append] at h ⊢
  split
  · rename_i hall
    rw [if_pos hall, List.length_append] at h
    have hnone : y.takeWhile p = [] := List.length_eq_zero_iff.mp (by omega)
    rw [hnone, List.append_nil]
    exact (List.takeWhile_prefix p).eq_of_length hall
  · rfl

theorem spanLength_of_append {p : CodePoint → Bool} (h : Text.spanLength p (x ++ y) ≤ x.length) :
    Text.spanLength p x = Text.spanLength p (x ++ y) :=
  congrArg List.length (takeWhile_of_append h)

/-! ## Blanks and comments -/

theorem blockTailLength?_le {t : Text} (h : blockTailLength? t = some n) : n ≤ t.length := by
  induction t generalizing n with
  | nil => cases h
  | cons c t ih =>
    rw [blockTailLength?] at h
    split at h
    · rename_i hclosed
      cases h
      cases t with
      | nil => simp at hclosed
      | cons d t => simp
    · obtain ⟨k, hk, rfl⟩ := Option.map_eq_some_iff.mp h
      exact Nat.succ_le_succ (ih hk)

theorem commentLength?_bounds {t : Text} (h : commentLength? t = some n) : 2 ≤ n ∧ n ≤ t.length := by
  match t with
  | [] | [_] => cases h
  | c :: d :: t =>
    simp only [commentLength?] at h
    simp only [List.length_cons]
    split at h
    · split at h
      · cases h
        have := spanLength_le (· != CodePoint.ofChar '\n') t
        omega
      · split at h
        · obtain ⟨k, hk, rfl⟩ := Option.map_eq_some_iff.mp h
          have := blockTailLength?_le hk
          omega
        · cases h
    · cases h

theorem blockTailLength?_of_append (h : blockTailLength? (x ++ y) = some n) (hn : n ≤ x.length) :
    blockTailLength? x = some n := by
  induction x generalizing n with
  | nil =>
    obtain rfl : n = 0 := by simpa using hn
    cases y with
    | nil => exact h
    | cons c y =>
      rw [List.nil_append, blockTailLength?] at h
      split at h
      · cases h
      · obtain ⟨k, -, hk⟩ := Option.map_eq_some_iff.mp h
        cases hk
  | cons c x ih =>
    rw [List.cons_append, blockTailLength?] at h
    rw [blockTailLength?]
    cases x with
    | nil =>
      split at h
      · cases h
        simp at hn
      · obtain ⟨k, hk, rfl⟩ := Option.map_eq_some_iff.mp h
        obtain rfl : k = 0 := by simpa using hn
        rw [if_neg (by simp), ih hk (Nat.le_refl 0)]
        rfl
    | cons d x =>
      rw [List.cons_append, List.head?_cons] at h
      rw [List.head?_cons]
      split at h
      · rename_i hclosed
        rw [if_pos hclosed]
        exact h
      · rename_i hopen
        obtain ⟨k, hk, rfl⟩ := Option.map_eq_some_iff.mp h
        rw [if_neg hopen, ih hk (by simpa using hn)]
        rfl

theorem blockTailLength?_eq_none_of_append (h : blockTailLength? (x ++ y) = none) : blockTailLength? x = none := by
  induction x with
  | nil => rfl
  | cons c x ih =>
    rw [List.cons_append, blockTailLength?] at h
    split at h
    · cases h
    · rename_i hopen
      have hrest := ih (Option.map_eq_none_iff.mp h)
      rw [blockTailLength?, if_neg, hrest]
      · rfl
      · cases x with
        | nil => simp
        | cons d x => exact hopen

theorem commentLength?_of_append (h : commentLength? (x ++ y) = some n) (hn : n ≤ x.length) :
    commentLength? x = some n := by
  have hpos := (commentLength?_bounds h).1
  match x with
  | [] | [_] =>
    simp only [List.length_cons, List.length_nil] at hn
    omega
  | c :: d :: x =>
    simp only [List.length_cons] at hn
    simp only [List.cons_append, commentLength?] at h ⊢
    split at h
    · rename_i hslash
      rw [if_pos hslash]
      split at h
      · rename_i hline
        cases h
        rw [if_pos hline, spanLength_of_append (y := y) (by omega)]
      · rename_i hline
        rw [if_neg hline]
        split at h
        · rename_i hblock
          obtain ⟨k, hk, rfl⟩ := Option.map_eq_some_iff.mp h
          rw [if_pos hblock, blockTailLength?_of_append hk (by omega)]
          rfl
        · cases h
    · cases h

theorem commentLength?_eq_none_of_append (h : commentLength? (x ++ y) = none) : commentLength? x = none := by
  match x with
  | [] | [_] => rfl
  | c :: d :: x =>
    simp only [List.cons_append, commentLength?] at h ⊢
    split at h
    · rename_i hslash
      rw [if_pos hslash]
      split at h
      · cases h
      · rename_i hline
        rw [if_neg hline]
        split at h
        · rename_i hblock
          rw [if_pos hblock, blockTailLength?_eq_none_of_append (Option.map_eq_none_iff.mp h)]
          rfl
        · rename_i hblock
          rw [if_neg hblock]
    · rename_i hslash
      rw [if_neg hslash]

theorem triviaFrom_eq {skip : Nat} {t : Text} (h : skip ≤ t.length) :
    triviaFrom skip t = skip + triviaLength (t.drop skip) := by
  induction t generalizing skip with
  | nil =>
    obtain rfl : skip = 0 := by simpa using h
    rfl
  | cons c t ih =>
    cases skip with
    | zero => exact (Nat.zero_add _).symm
    | succ skip =>
      rw [triviaFrom, ih (Nat.le_of_succ_le_succ h), List.drop_succ_cons]
      omega

theorem triviaFrom_of_append {skip : Nat} (h : triviaFrom skip (x ++ y) ≤ x.length) :
    triviaFrom skip x = triviaFrom skip (x ++ y) := by
  induction x generalizing skip with
  | nil =>
    rw [List.length_nil] at h
    rw [triviaFrom]
    omega
  | cons c x ih =>
    cases skip with
    | succ skip =>
      simp only [List.cons_append, triviaFrom, List.length_cons] at h ⊢
      rw [ih (by omega)]
    | zero =>
      rw [List.cons_append, triviaFrom] at h ⊢
      rw [triviaFrom]
      split
      · rename_i hblank
        rw [if_pos hblank, List.length_cons] at h
        rw [ih (by omega)]
      · rename_i hblank
        rw [if_neg hblank, List.length_cons] at h
        cases hcomment : commentLength? (c :: (x ++ y)) with
        | none => rw [commentLength?_eq_none_of_append (x := c :: x) hcomment]
        | some n =>
          simp only [hcomment] at h
          -- the comment is passed over as a whole, so all of it is left
          have hbounds := commentLength?_bounds hcomment
          have hle : n - 1 ≤ (x ++ y).length := by
            have := hbounds.2
            rw [List.length_cons] at this
            omega
          have hskip := triviaFrom_eq hle
          rw [commentLength?_of_append (x := c :: x) hcomment (by rw [List.length_cons]; omega)]
          simp only
          rw [ih (by omega)]

/-! ## Numbers -/

theorem suffixLength_of_append (h : suffixLength (x ++ y) ≤ x.length) : suffixLength x = suffixLength (x ++ y) := by
  cases x with
  | nil =>
    rw [List.length_nil] at h
    exact (Nat.le_zero.mp h).symm
  | cons c x => rfl

theorem radixLength?_of_append {lower upper : Char} {isDigit : CodePoint → Bool}
    (h : radixLength? lower upper isDigit (x ++ y) = some n) (hn : n ≤ x.length) :
    radixLength? lower upper isDigit x = some n := by
  match x with
  | [] =>
    have := (radixLength?_bounds h).1
    rw [List.length_nil] at hn
    omega
  | [c] =>
    cases y with
    | nil => exact h
    | cons d y =>
      simp only [List.cons_append, List.nil_append, radixLength?] at h
      split at h
      · split at h
        · cases h
        · cases h
          simp only [List.length_cons, List.length_nil] at hn
          omega
      · cases h
  | c :: d :: x =>
    simp only [List.length_cons] at hn
    simp only [List.cons_append, radixLength?] at h ⊢
    split at h
    · rename_i hradix
      rw [if_pos hradix]
      cases hspan : Text.spanLength (fun e => isDigit e || e == CodePoint.ofChar '_') (x ++ y) with
      | zero => simp [hspan] at h
      | succ k =>
        simp only [hspan, Option.some.injEq] at h
        have hdrop : (x ++ y).drop (k + 1) = x.drop (k + 1) ++ y := List.drop_append_of_le_length (by omega)
        rw [hdrop] at h
        rw [spanLength_of_append (y := y) (by omega), hspan]
        simp only
        rw [suffixLength_of_append (y := y) (by rw [List.length_drop]; omega), h]
    · cases h

theorem radixLength?_eq_none_of_append {lower upper : Char} {isDigit : CodePoint → Bool}
    (h : radixLength? lower upper isDigit (x ++ y) = none) : radixLength? lower upper isDigit x = none := by
  match x with
  | [] | [_] => rfl
  | c :: d :: x =>
    simp only [List.cons_append, radixLength?] at h ⊢
    split at h
    · rename_i hradix
      rw [if_pos hradix]
      cases hspan : Text.spanLength (fun e => isDigit e || e == CodePoint.ofChar '_') (x ++ y) with
      | zero =>
        rw [spanLength_of_append (y := y) (by omega), hspan]
      | succ k => simp [hspan] at h
    · rename_i hradix
      rw [if_neg hradix]

theorem mantissaLength?_of_append (h : mantissaLength? (x ++ y) = some n) (hn : n ≤ x.length) :
    mantissaLength? x = some n := by
  cases x with
  | nil =>
    have := (mantissaLength?_bounds h).1
    rw [List.length_nil] at hn
    omega
  | cons c x =>
    rw [List.length_cons] at hn
    rw [List.cons_append, mantissaLength?] at h
    rw [mantissaLength?]
    split at h
    · rename_i hdigit
      rw [if_pos hdigit]
      simp only [List.drop_succ_cons] at h ⊢
      have hwhole : Text.spanLength continuesNumber (x ++ y) + 1 ≤ n := by
        split at h
        · split at h <;> cases h <;> omega
        · cases h; omega
      rw [spanLength_of_append (y := y) (by omega)]
      have hdrop : (x ++ y).drop (Text.spanLength continuesNumber (x ++ y)) =
          x.drop (Text.spanLength continuesNumber (x ++ y)) ++ y := List.drop_append_of_le_length (by omega)
      rw [hdrop] at h
      have hlength := List.length_drop (i := Text.spanLength continuesNumber (x ++ y)) (l := x)
      generalize x.drop (Text.spanLength continuesNumber (x ++ y)) = z at h hlength ⊢
      cases z with
      | nil =>
        -- the cut is behind the digits, and no point may follow them there
        rw [List.length_nil] at hlength
        cases y with
        | nil => exact h
        | cons d y =>
          simp only [List.nil_append, Option.some.injEq] at h ⊢
          split at h <;> omega
      | cons d z =>
        rw [List.length_cons] at hlength
        simp only [List.cons_append, Option.some.injEq] at h ⊢
        split at h
        · rename_i hpoint
          rw [if_pos hpoint, spanLength_of_append (x := z) (y := y) (by omega), h]
        · rename_i hpoint
          rw [if_neg hpoint, h]
    · rename_i hdigit
      rw [if_neg hdigit]
      split at h
      · rename_i hpoint
        cases h
        rw [spanLength_of_append (y := y) (by omega)]
        refine if_pos ?_
        cases x with
        | nil =>
          -- a digit follows the point, and it is taken as well
          exfalso
          have hspan := spanLength_pos (p := continuesNumber) (t := y) (by
            cases y with
            | nil => simp at hpoint
            | cons d y => simp_all [continuesNumber])
          simp only [List.nil_append, List.length_nil] at hn
          omega
        | cons d x => exact hpoint
      · cases h

theorem mantissaLength?_eq_none_of_append (h : mantissaLength? (x ++ y) = none) : mantissaLength? x = none := by
  cases x with
  | nil => rfl
  | cons c x =>
    rw [List.cons_append, mantissaLength?] at h
    rw [mantissaLength?]
    split at h
    · simp only at h
      split at h <;> cases h
    · rename_i hdigit
      rw [if_neg hdigit]
      split at h
      · cases h
      · rename_i hpoint
        refine if_neg fun hx => hpoint ?_
        cases x with
        | nil => simp at hx
        | cons d x => exact hx

/-- The sign of an exponent, if there is one. -/
def signLength (t : Text) : Nat := if t.head?.any fun (d : CodePoint) => d == '+' || d == '-' then 1 else 0

theorem exponentLength_cons (c : CodePoint) (t : Text) : exponentLength (c :: t) =
    if c = 'e' || c = 'E' then
      if Text.spanLength CodePoint.isDigit (t.drop (signLength t)) = 0 then 0
      else Text.spanLength CodePoint.isDigit (t.drop (signLength t)) + 1 + signLength t
    else 0 := by
  rw [exponentLength]
  split
  · dsimp only
    split
    · exact (if_pos ‹_›).symm
    · rename_i n hn
      have hlength : Text.spanLength CodePoint.isDigit (t.drop (signLength t)) = n + 1 := hn
      rw [hlength, if_neg (Nat.succ_ne_zero n)]
      rfl
  · rfl

theorem signLength_le (t : Text) : signLength t ≤ t.length := by
  cases t with
  | nil => exact Nat.le_refl 0
  | cons c t =>
    rw [signLength, List.length_cons]
    split <;> omega

theorem exponentLength_of_append (h : exponentLength (x ++ y) ≤ x.length) :
    exponentLength x = exponentLength (x ++ y) := by
  cases x with
  | nil =>
    rw [List.length_nil] at h
    exact (Nat.le_zero.mp h).symm
  | cons c x =>
    rw [List.cons_append, exponentLength_cons, List.length_cons] at h
    rw [List.cons_append, exponentLength_cons, exponentLength_cons]
    split
    · rename_i hmark
      rw [if_pos hmark] at h
      cases x with
      | nil =>
        -- an exponent takes two code points at least
        rw [List.length_nil] at h
        split at h
        · rename_i hnone
          rw [if_pos hnone]
          rfl
        · omega
      | cons d x =>
        have hsign : signLength (d :: x ++ y) = signLength (d :: x) := rfl
        have hle := signLength_le (d :: x)
        have hlength := List.length_drop (i := signLength (d :: x)) (l := d :: x)
        rw [hsign, List.drop_append_of_le_length hle] at h ⊢
        rw [spanLength_of_append (x := (d :: x).drop (signLength (d :: x))) (y := y)]
        split at h <;> omega
    · rfl

theorem decimalLength?_of_append (h : decimalLength? (x ++ y) = some n) (hn : n ≤ x.length) :
    decimalLength? x = some n := by
  obtain ⟨m, hm, rfl⟩ := Option.map_eq_some_iff.mp h
  simp only at hn
  rw [decimalLength?, mantissaLength?_of_append hm (by omega), Option.map_some]
  simp only [Option.some.injEq]
  rw [List.drop_append_of_le_length (by omega)] at hn ⊢
  have hexponent := exponentLength_of_append (x := x.drop m) (y := y) (by rw [List.length_drop]; omega)
  rw [← hexponent] at hn ⊢
  rw [List.drop_append_of_le_length (by omega)] at hn ⊢
  rw [suffixLength_of_append (x := x.drop _) (y := y) (by rw [List.length_drop]; omega)]

theorem decimalLength?_eq_none_of_append (h : decimalLength? (x ++ y) = none) : decimalLength? x = none :=
  Option.map_eq_none_iff.mpr (mantissaLength?_eq_none_of_append (Option.map_eq_none_iff.mp h))

theorem numberLength?_of_append (h : numberLength? (x ++ y) = some n) (hn : n ≤ x.length) :
    numberLength? x = some n := by
  simp only [numberLength?, Option.orElse_eq_orElse, Option.orElse_eq_or, Option.or_eq_some_iff] at h ⊢
  rcases h with h | ⟨hx, h | ⟨hb, h | ⟨ho, h⟩⟩⟩
  · exact .inl (radixLength?_of_append h hn)
  · exact .inr ⟨radixLength?_eq_none_of_append hx, .inl (radixLength?_of_append h hn)⟩
  · exact .inr ⟨radixLength?_eq_none_of_append hx, .inr ⟨radixLength?_eq_none_of_append hb,
      .inl (radixLength?_of_append h hn)⟩⟩
  · exact .inr ⟨radixLength?_eq_none_of_append hx, .inr ⟨radixLength?_eq_none_of_append hb,
      .inr ⟨radixLength?_eq_none_of_append ho, decimalLength?_of_append h hn⟩⟩⟩

theorem numberLength?_eq_none_of_append (h : numberLength? (x ++ y) = none) : numberLength? x = none := by
  simp only [numberLength?, Option.orElse_eq_orElse, Option.orElse_eq_or, Option.or_eq_none_iff] at h ⊢
  obtain ⟨hx, hb, ho, hd⟩ := h
  exact ⟨radixLength?_eq_none_of_append hx, radixLength?_eq_none_of_append hb, radixLength?_eq_none_of_append ho,
    decimalLength?_eq_none_of_append hd⟩

/-! ## Strings -/

theorem stringTailLength?_cons (quote c : CodePoint) (t : Text) : stringTailLength? quote (c :: t) =
    if c = quote then some 1
    else if c = '\n' then none
    else if c = '\\' then
      match t with
      | [] => none
      | _ :: t => (stringTailLength? quote t).map (· + 2)
    else (stringTailLength? quote t).map (· + 1) := by
  rw [stringTailLength?.eq_def]
  rfl

theorem stringTailLength?_pos {quote : CodePoint} {t : Text} (h : stringTailLength? quote t = some n) : 0 < n := by
  cases t with
  | nil => cases h
  | cons c t =>
    rw [stringTailLength?_cons] at h
    split at h
    · cases h
      exact Nat.one_pos
    · split at h
      · cases h
      · split at h
        · split at h
          · cases h
          · obtain ⟨k, -, rfl⟩ := Option.map_eq_some_iff.mp h
            omega
        · obtain ⟨k, -, rfl⟩ := Option.map_eq_some_iff.mp h
          omega

theorem stringTailLength?_of_append {quote : CodePoint} (h : stringTailLength? quote (x ++ y) = some n)
    (hn : n ≤ x.length) : stringTailLength? quote x = some n := by
  have hpos := stringTailLength?_pos h
  fun_induction stringTailLength? quote x generalizing n with
  | case1 =>
    rw [List.length_nil] at hn
    omega
  | case2 rest =>
    rw [List.cons_append, stringTailLength?_cons, if_pos rfl] at h
    exact h
  | case3 rest hquote =>
    rw [List.cons_append, stringTailLength?_cons, if_neg hquote, if_pos rfl] at h
    cases h
  | case4 hquote hline =>
    rw [List.cons_append, stringTailLength?_cons, if_neg hquote, if_neg hline, if_pos rfl] at h
    split at h
    · cases h
    · obtain ⟨k, hk, rfl⟩ := Option.map_eq_some_iff.mp h
      simp at hn
  | case5 d rest hquote hline ih =>
    rw [List.cons_append, stringTailLength?_cons, if_neg hquote, if_neg hline, if_pos rfl] at h
    obtain ⟨k, hk, rfl⟩ := Option.map_eq_some_iff.mp h
    rw [ih hk (by simpa using hn) (stringTailLength?_pos hk)]
    rfl
  | case6 c rest hquote hline hslash ih =>
    rw [List.cons_append, stringTailLength?_cons, if_neg hquote, if_neg hline, if_neg hslash] at h
    obtain ⟨k, hk, rfl⟩ := Option.map_eq_some_iff.mp h
    rw [ih hk (by simpa using hn) (stringTailLength?_pos hk)]
    rfl

theorem stringTailLength?_eq_none_of_append {quote : CodePoint} (h : stringTailLength? quote (x ++ y) = none) :
    stringTailLength? quote x = none := by
  fun_induction stringTailLength? quote x with
  | case1 => rfl
  | case2 rest =>
    rw [List.cons_append, stringTailLength?_cons, if_pos rfl] at h
    cases h
  | case3 rest hquote => rfl
  | case4 hquote hline => rfl
  | case5 d rest hquote hline ih =>
    rw [List.cons_append, stringTailLength?_cons, if_neg hquote, if_neg hline, if_pos rfl] at h
    rw [ih (Option.map_eq_none_iff.mp h)]
    rfl
  | case6 c rest hquote hline hslash ih =>
    rw [List.cons_append, stringTailLength?_cons, if_neg hquote, if_neg hline, if_neg hslash] at h
    rw [ih (Option.map_eq_none_iff.mp h)]
    rfl

/-! ## All lexemes -/

/-- What a lexeme takes of a text it takes of every beginning that holds it. -/
theorem length?_of_append {l : Lexeme} (hl : l ≠ .chunk) (h : l.length? (x ++ y) = some n) (hn : n ≤ x.length) :
    l.length? x = some n := by
  cases l with
  | «exact» text barred =>
    simp only [length?] at h ⊢
    split at h
    · rename_i hmatch
      cases h
      obtain ⟨hstart, hbarred⟩ := Bool.and_eq_true_iff.mp hmatch
      refine if_pos (Bool.and_eq_true_iff.mpr ⟨?_, ?_⟩)
      · rw [List.isPrefixOf_iff_prefix] at hstart ⊢
        exact List.prefix_of_prefix_length_le hstart (List.prefix_append x y) hn
      · rw [List.drop_append_of_le_length hn] at hbarred
        cases hrest : x.drop text.length with
        | nil => rfl
        | cons c rest =>
          rw [hrest] at hbarred
          exact hbarred
    · cases h
  | reserved =>
    simp only [length?] at h ⊢
    split at h
    · rename_i hreserved
      cases h
      have hspan : x.takeWhile CodePoint.continuesName = (x ++ y).takeWhile CodePoint.continuesName :=
        takeWhile_of_append hn
      rw [hspan, if_pos hreserved]
    · cases h
  | name =>
    cases x with
    | nil =>
      have := length?_pos rfl h
      rw [List.length_nil] at hn
      omega
    | cons c x =>
      simp only [length?] at h ⊢
      split at h
      · rename_i hstarts
        cases h
        rw [spanLength_of_append hn]
        exact if_pos hstarts
      · cases h
  | trivia =>
    cases h
    exact congrArg some (triviaFrom_of_append hn)
  | spaces =>
    cases h
    exact congrArg some (spanLength_of_append hn)
  | digit =>
    cases x with
    | nil =>
      have := length?_pos rfl h
      rw [List.length_nil] at hn
      omega
    | cons c x => exact h
  | number => exact numberLength?_of_append h hn
  | string quote =>
    cases x with
    | nil =>
      have := length?_pos rfl h
      rw [List.length_nil] at hn
      omega
    | cons c x =>
      simp only [List.cons_append, length?] at h ⊢
      split at h
      · rename_i hquote
        obtain ⟨k, hk, rfl⟩ := Option.map_eq_some_iff.mp h
        rw [if_pos hquote, stringTailLength?_of_append hk (by simpa using hn)]
        rfl
      · cases h
  | chunk => exact absurd rfl hl

/-- Whether the lexeme is there does not depend on what may follow it. -/
def isSteady : Lexeme → Bool
  | name | digit | number | string _ => true
  | _ => false

/-- Where a steady lexeme is not there, it is not there either if the text is cut off. -/
theorem length?_eq_none_of_append {l : Lexeme} (hl : l.isSteady = true) (h : l.length? (x ++ y) = none) :
    l.length? x = none := by
  cases l with
  | «exact» text barred | reserved | trivia | spaces | chunk => cases hl
  | name =>
    cases x with
    | nil => rfl
    | cons c x =>
      simp only [length?] at h ⊢
      split at h
      · cases h
      · rename_i hstarts
        exact if_neg hstarts
  | digit =>
    cases x with
    | nil => rfl
    | cons c x => exact h
  | number => exact numberLength?_eq_none_of_append h
  | string quote =>
    cases x with
    | nil => rfl
    | cons c x =>
      simp only [List.cons_append, length?] at h ⊢
      split at h
      · rename_i hquote
        rw [if_pos hquote, stringTailLength?_eq_none_of_append (Option.map_eq_none_iff.mp h)]
        rfl
      · rename_i hquote
        exact if_neg hquote

/-- Neither is a text, unless it is barred by what comes just behind the cut. -/
theorem exact_eq_none_of_append {text : Text} {barred : CodePoint → Bool}
    (h : (Lexeme.exact text barred).length? (x ++ y) = none) (hend : x = text → ∀ c, barred c = false) :
    (Lexeme.exact text barred).length? x = none := by
  simp only [length?] at h ⊢
  split at h
  · cases h
  · rename_i hmatch
    refine if_neg fun hx => hmatch ?_
    obtain ⟨hstart, hbarred⟩ := Bool.and_eq_true_iff.mp hx
    rw [List.isPrefixOf_iff_prefix] at hstart
    refine Bool.and_eq_true_iff.mpr ⟨?_, ?_⟩
    · rw [List.isPrefixOf_iff_prefix]
      exact hstart.trans (List.prefix_append x y)
    · obtain ⟨rest, rfl⟩ := hstart
      rw [List.append_assoc, List.drop_left]
      rw [List.drop_left] at hbarred
      cases rest with
      | nil =>
        have hnone := hend (List.append_nil text)
        cases y with
        | nil => rfl
        | cons c y => simp [hnone c]
      | cons c rest => exact hbarred

end ScriptAudit.Lexeme
