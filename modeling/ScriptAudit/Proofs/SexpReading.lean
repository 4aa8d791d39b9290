/-
What an S-expression is written as says what it is. Words end where a delimiter comes, a string goes on to the first
quote that is not escaped, and a list to the bracket that closes it; so an expression and the text that comes after it
can both be told from the two written together (`Sexp.legible`). The one thing that is lost is the difference between
a number and a symbol of the same spelling.
-/
import ScriptAudit.Proofs.EscapedText
import ScriptAudit.Tree.Sexp

namespace ScriptAudit

/-! ## Words -/

/-- Neither a blank nor a bracket nor a quote. -/
def CodePoint.isWordPart (c : CodePoint) : Bool := !(c == ' ' || c == '(' || c == ')' || c == '"')

/-- Symbols and numbers are written as words. -/
structure IsWord (w : Text) : Prop where
  nonempty : w ≠ []
  parts : ∀ c ∈ w, c.isWordPart = true

/-- A word does not go on here. -/
def IsDelimited (t : Text) : Prop := t.head?.all (!CodePoint.isWordPart ·) = true

theorem isDelimited_cons {c : CodePoint} (hc : c.isWordPart = false) (t : Text) : IsDelimited (c :: t) := by
  simp [IsDelimited, hc]

theorem IsDelimited.takeWhile_append {t : Text} (h : IsDelimited t) {w : Text} (hw : ∀ c ∈ w, c.isWordPart = true) :
    (w ++ t).takeWhile CodePoint.isWordPart = w := by
  rw [List.takeWhile_append_of_pos hw]
  cases t with
  | nil => exact List.append_nil w
  | cons c t =>
    have hc : c.isWordPart = false := by simpa [IsDelimited] using h
    rw [List.takeWhile_cons_of_neg (by simp [hc]), List.append_nil]

theorem IsWord.append_inj {w w' r r' : Text} (hw : IsWord w) (hw' : IsWord w') (hr : IsDelimited r)
    (hr' : IsDelimited r') (h : w ++ r = w' ++ r') : w = w' ∧ r = r' := by
  have hwords : w = w' := by rw [← hr.takeWhile_append hw.parts, h, hr'.takeWhile_append hw'.parts]
  subst hwords
  exact ⟨rfl, List.append_cancel_left h⟩

theorem IsWord.append_ne {w : Text} (hw : IsWord w) {c : CodePoint} (hc : c.isWordPart = false) (rest t : Text) :
    w ++ rest ≠ c :: t := by
  obtain ⟨d, w, rfl⟩ := List.exists_cons_of_ne_nil hw.nonempty
  intro heq
  have hd := hw.parts d List.mem_cons_self
  rw [(List.cons.inj heq).1, hc] at hd
  cases hd

/-! ### Numbers -/

theorem ofNat_isWordPart (n : Nat) : ∀ c ∈ Text.ofNat n, c.isWordPart = true := by
  intro c hc
  obtain ⟨d, hd, rfl⟩ := List.mem_map.mp hc
  have hdigit := Nat.isDigit_of_mem_toDigits (by decide) (by decide) hd
  have hne {e : Char} (he : e.isDigit = false) : CodePoint.ofChar d ≠ CodePoint.ofChar e := by
    intro heq
    rw [show d = e from Char.toNat_inj.mp (Fin.mk.inj heq), he] at hdigit
    cases hdigit
  simp only [CodePoint.isWordPart, Bool.not_eq_true', Bool.or_eq_false_iff, beq_eq_false_iff_ne]
  exact ⟨⟨⟨hne rfl, hne rfl⟩, hne rfl⟩, hne rfl⟩

theorem ofNat_ne_nil (n : Nat) : Text.ofNat n ≠ [] := by
  rw [Text.ofNat, ne_eq, List.map_eq_nil_iff]
  exact Nat.toDigits_ne_nil

theorem zeros_isWordPart (n : Nat) : ∀ c ∈ List.replicate n (CodePoint.ofChar '0'), c.isWordPart = true := by
  intro c hc
  rw [List.eq_of_mem_replicate hc]
  decide

theorem digits_isWordPart (d : Decimal) : ∀ c ∈ (DecimalStyle.digits d).1, c.isWordPart = true :=
  fun c hc => ofNat_isWordPart _ c (List.mem_of_mem_take hc)

theorem exponentText_isWordPart (style : DecimalStyle) (e : Int) :
    ∀ c ∈ style.exponentText e, c.isWordPart = true := by
  refine List.forall_mem_cons.mpr ⟨?_, List.forall_mem_append.mpr ⟨zeros_isWordPart _, ofNat_isWordPart _⟩⟩
  split <;> decide

/-- A decimal is written without delimiters in every layout. -/
theorem isWord_render (style : DecimalStyle) (d : Decimal) : IsWord (style.render d) := by
  have hdigits := digits_isWordPart d
  have htake (n : Nat) : ∀ c ∈ (DecimalStyle.digits d).1.take n, c.isWordPart = true :=
    fun c hc => hdigits c (List.mem_of_mem_take hc)
  have hdrop (n : Nat) : ∀ c ∈ (DecimalStyle.digits d).1.drop n, c.isWordPart = true :=
    fun c hc => hdigits c (List.mem_of_mem_drop hc)
  unfold DecimalStyle.render
  simp only
  split
  · refine ⟨by simp [Text.ofString], ?_⟩
    simp only [List.forall_mem_append]
    refine ⟨⟨⟨htake 1, ?_⟩, List.all_eq_true.mp rfl⟩, exponentText_isWordPart _ _⟩
    split
    · exact List.forall_mem_nil _
    · exact List.forall_mem_cons.mpr ⟨by decide, hdrop 1⟩
  · split
    · refine ⟨by simp [Text.ofString], ?_⟩
      simp only [List.forall_mem_append]
      exact ⟨⟨List.all_eq_true.mp rfl, zeros_isWordPart _⟩, hdigits⟩
    · split
      · refine ⟨by simp [Text.ofString], ?_⟩
        simp only [List.forall_mem_append]
        exact ⟨⟨hdigits, zeros_isWordPart _⟩, List.all_eq_true.mp rfl⟩
      · refine ⟨by simp [Text.ofString], ?_⟩
        simp only [List.forall_mem_append]
        exact ⟨⟨htake _, List.all_eq_true.mp rfl⟩, hdrop _⟩

theorem IsWord.append {u w : Text} (hu : ∀ c ∈ u, c.isWordPart = true) (hw : IsWord w) : IsWord (u ++ w) :=
  ⟨List.append_ne_nil_of_right_ne_nil _ hw.nonempty, List.forall_mem_append.mpr ⟨hu, hw.parts⟩⟩

theorem isWord_realText (x : Float) : IsWord (realText x) := by
  unfold realText
  simp only
  split
  · exact ⟨List.cons_ne_nil _ _, List.all_eq_true.mp rfl⟩
  · have hsign : ∀ c ∈ (if x.toBits.toNat < Nat.pow 2 63 then ([] : Text) else "-"), c.isWordPart = true := by
      split <;> exact List.all_eq_true.mp rfl
    split
    · exact .append hsign ⟨List.cons_ne_nil _ _, List.all_eq_true.mp rfl⟩
    · refine .append hsign ?_
      split
      · exact ⟨List.cons_ne_nil _ _, List.all_eq_true.mp rfl⟩
      · exact isWord_render _ _

theorem isWord_text {amount : Amount} {w : Text} (h : amount.text = .ok w) : IsWord w := by
  cases amount with
  | whole n =>
    simp only [Amount.text] at h
    split at h
    · cases h
    · cases h
      cases n with
      | ofNat n => exact ⟨ofNat_ne_nil n, ofNat_isWordPart n⟩
      | negSucc n =>
        exact ⟨List.cons_ne_nil _ _, List.forall_mem_cons.mpr ⟨by decide, ofNat_isWordPart _⟩⟩
  | real x =>
    cases h
    exact isWord_realText x

namespace Sexp

/-! ## Strings -/

/-- The escapes of strings are among those that scripts have. -/
def encoding : Encoding where
  escaped? c :=
    if c = '\\' then some (CodePoint.ofChar '\\')
    else if c = '"' then some (CodePoint.ofChar '"')
    else if c = '\x08' then some (CodePoint.ofChar 'b')
    else if c = '\x0c' then some (CodePoint.ofChar 'f')
    else if c = '\n' then some (CodePoint.ofChar 'n')
    else if c = '\r' then some (CodePoint.ofChar 'r')
    else if c = '\t' then some (CodePoint.ofChar 't')
    else none
  meaning {c d} h rest := by
    iterate 7
      split at h
      · rename_i hc
        cases h
        subst hc
        rfl
    cases h
  backslash := rfl

theorem escaped_eq_writePoint : escaped = encoding.writePoint := by
  funext c
  unfold escaped Encoding.writePoint encoding
  simp only
  iterate 7
    split
    · rfl
  rfl

theorem flatMap_escaped (content : Text) : content.flatMap escaped = encoding.write content := by
  rw [escaped_eq_writePoint, Encoding.write]

/-- The closing quote is the first that is not escaped. -/
theorem escaped_append_inj {c c' r r' : Text}
    (h : c.flatMap escaped ++ CodePoint.ofChar '"' :: r = c'.flatMap escaped ++ CodePoint.ofChar '"' :: r') :
    c = c' ∧ r = r' := by
  rw [flatMap_escaped, flatMap_escaped] at h
  have hscan : Lexeme.stringTailLength? '"' (encoding.write c ++ CodePoint.ofChar '"' :: r) = _ :=
    encoding.stringTailLength?_write rfl rfl (by decide) c r
  rw [h, encoding.stringTailLength?_write rfl rfl (by decide)] at hscan
  obtain ⟨hwritten, hrest⟩ := List.append_inj h (Nat.succ.inj (Option.some.inj hscan)).symm
  have hread := encoding.unescape_write c
  rw [hwritten, encoding.unescape_write] at hread
  exact ⟨(Except.ok.inj hread).symm, (List.cons.inj hrest).2⟩

/-! ## Expressions -/

/-- The expressions of a list. -/
def items : Sexp → List Sexp
  | list items => items
  | _ => []

/-- What holds of an expression whenever it holds of its items holds of every expression. -/
theorem induction {P : Sexp → Prop} (step : ∀ s, (∀ i ∈ s.items, P i) → P s) (s : Sexp) : P s :=
  step s fun i _ => induction step i
termination_by s
decreasing_by
  rename_i hi
  cases s with
  | list items =>
    have := List.sizeOf_lt_of_mem hi
    simp only [Sexp.items, Sexp.list.sizeOf_spec] at *
    omega
  | _ => cases hi

mutual

/-- The expression with symbols in place of the numbers that are written like them. -/
def spelled : Sexp → Sexp
  | number amount => .symbol (amount.text.toOption.getD [])
  | list items => .list (spelledItems items)
  | s => s

def spelledItems : List Sexp → List Sexp
  | [] => []
  | item :: items => item.spelled :: spelledItems items

end

theorem spelledItems_eq (items : List Sexp) : spelledItems items = items.map spelled := by
  induction items with
  | nil => rfl
  | cons item items ih => rw [spelledItems, ih, List.map_cons]

@[simp]
theorem spelled_list (items : List Sexp) : (list items).spelled = .list (items.map spelled) := by
  rw [spelled, spelledItems_eq]

/-- All symbols are words. -/
inductive Clean : Sexp → Prop
  | symbol {name : Text} (h : IsWord name) : Clean (.symbol name)
  | string (content : Text) : Clean (.string content)
  | number (amount : Amount) : Clean (.number amount)
  | list {items : List Sexp} (h : ∀ i ∈ items, Clean i) : Clean (.list items)

/-- What an expression in front of a text is written as. -/
inductive Written : Sexp → (rest text : Text) → Prop
  | word {s : Sexp} {w : Text} (hw : IsWord w) (hs : s.spelled = .symbol w) (rest : Text) : Written s rest (w ++ rest)
  | string (content rest : Text) :
    Written (.string content) rest
      (CodePoint.ofChar '"' :: (content.flatMap escaped ++ CodePoint.ofChar '"' :: rest))
  | list {items : List Sexp} {rest text : Text} (h : writeItems items (CodePoint.ofChar ')' :: rest) = .ok text) :
    Written (.list items) rest (CodePoint.ofChar '(' :: text)

theorem Clean.written {s : Sexp} {rest text : Text} (hs : s.Clean) (h : s.write rest = .ok text) :
    Written s rest text := by
  cases hs with
  | symbol hname =>
    cases h
    exact .word hname rfl rest
  | string content =>
    cases h
    exact .string content rest
  | number amount =>
    rw [write] at h
    cases hw : amount.text with
    | error e =>
      rw [hw] at h
      cases h
    | ok w =>
      rw [hw] at h
      cases h
      exact .word (isWord_text hw) (by rw [spelled, hw]; rfl) rest
  | list hitems =>
    rename_i items
    rw [write] at h
    cases hw : writeItems items (CodePoint.ofChar ')' :: rest) with
    | error e =>
      rw [hw] at h
      cases h
    | ok w =>
      rw [hw] at h
      cases h
      exact .list hw

/-- No expression begins with a closing bracket. -/
theorem Written.ne_closing {s : Sexp} {rest text : Text} (h : Written s rest text) (t : Text) :
    text ≠ CodePoint.ofChar ')' :: t := by
  cases h with
  | word hw _ => exact hw.append_ne (by decide) _ t
  | string content rest => exact fun heq => absurd (List.cons.inj heq).1 (by decide)
  | list _ => exact fun heq => absurd (List.cons.inj heq).1 (by decide)

/-- The spelling of an expression, and the rest, can be told from the text. -/
def Legible (s : Sexp) : Prop :=
  ∀ {s' : Sexp} {rest rest' text : Text}, s.Clean → s'.Clean → IsDelimited rest → IsDelimited rest' →
    s.write rest = .ok text → s'.write rest' = .ok text → s.spelled = s'.spelled ∧ rest = rest'

theorem exists_of_writeItems {item : Sexp} {items : List Sexp} {rest text : Text}
    (h : writeItems (item :: items) rest = .ok text) : ∃ after, item.write after = .ok text ∧
      (items = [] ∧ after = rest ∨ ∃ t, items ≠ [] ∧ writeItems items rest = .ok t ∧ after = CodePoint.ofChar ' ' :: t) := by
  cases items with
  | nil => exact ⟨rest, h, .inl ⟨rfl, rfl⟩⟩
  | cons next items =>
    rw [writeItems] at h
    · cases hnext : writeItems (next :: items) rest with
      | error e =>
        rw [hnext] at h
        cases h
      | ok t =>
        rw [hnext] at h
        exact ⟨_, h, .inr ⟨t, List.cons_ne_nil _ _, rfl, rfl⟩⟩
    · exact List.cons_ne_nil _ _

/-- A list ends where no further item comes. -/
theorem writeItems_inj {items : List Sexp} (hlegible : ∀ i ∈ items, i.Legible) (hclean : ∀ i ∈ items, i.Clean)
    {items' : List Sexp} (hclean' : ∀ i ∈ items', i.Clean) {rest rest' text : Text}
    (h : writeItems items (CodePoint.ofChar ')' :: rest) = .ok text)
    (h' : writeItems items' (CodePoint.ofChar ')' :: rest') = .ok text) :
    items.map spelled = items'.map spelled ∧ rest = rest' := by
  have hclosing (t : Text) : IsDelimited (CodePoint.ofChar ')' :: t) := isDelimited_cons (by decide) t
  have hblank (t : Text) : IsDelimited (CodePoint.ofChar ' ' :: t) := isDelimited_cons (by decide) t
  induction items generalizing items' text with
  | nil =>
    cases h
    cases items' with
    | nil =>
      cases h'
      exact ⟨rfl, rfl⟩
    | cons item' items' =>
      obtain ⟨after', hitem', -⟩ := exists_of_writeItems h'
      exact absurd rfl (((hclean' _ List.mem_cons_self).written hitem').ne_closing rest)
  | cons item items ih =>
    obtain ⟨after, hitem, hafter⟩ := exists_of_writeItems h
    cases items' with
    | nil =>
      cases h'
      exact absurd rfl (((hclean _ List.mem_cons_self).written hitem).ne_closing rest')
    | cons item' items' =>
      obtain ⟨after', hitem', hafter'⟩ := exists_of_writeItems h'
      have hends : IsDelimited after := by
        rcases hafter with ⟨-, rfl⟩ | ⟨t, -, -, rfl⟩
        · exact hclosing rest
        · exact hblank t
      have hends' : IsDelimited after' := by
        rcases hafter' with ⟨-, rfl⟩ | ⟨t, -, -, rfl⟩
        · exact hclosing rest'
        · exact hblank t
      obtain ⟨hclean, hcleans⟩ := List.forall_mem_cons.mp hclean
      obtain ⟨hclean', hcleans'⟩ := List.forall_mem_cons.mp hclean'
      obtain ⟨hlegible, hlegibles⟩ := List.forall_mem_cons.mp hlegible
      obtain ⟨hspelled, hsame⟩ := hlegible hclean hclean' hends hends' hitem hitem'
      rw [List.map_cons, List.map_cons, hspelled]
      rcases hafter with ⟨rfl, rfl⟩ | ⟨t, -, ht, rfl⟩
      · rcases hafter' with ⟨rfl, rfl⟩ | ⟨t', -, -, rfl⟩
        · exact ⟨rfl, (List.cons.inj hsame).2⟩
        · exact absurd (List.cons.inj hsame).1 (by decide)
      · rcases hafter' with ⟨rfl, rfl⟩ | ⟨t', -, ht', rfl⟩
        · exact absurd (List.cons.inj hsame).1 (by decide)
        · rw [(List.cons.inj hsame).2] at ht
          obtain ⟨htail, hrest⟩ := ih hlegibles hcleans hcleans' ht ht'
          exact ⟨by rw [htail], hrest⟩

/-- **What is written says what it is**, and where it ends. -/
theorem legible (s : Sexp) : s.Legible := by
  induction s using Sexp.induction with
  | step s ih =>
    intro s' rest rest' text hs hs' hrest hrest' h h'
    have hw := hs.written h
    have hw' := hs'.written h'
    clear h h'
    generalize htext : text = text' at hw'
    cases hw with
    | word hword hspelled =>
      cases hw' with
      | word hword' hspelled' =>
        obtain ⟨rfl, rfl⟩ := hword.append_inj hword' hrest hrest' htext
        exact ⟨hspelled.trans hspelled'.symm, rfl⟩
      | string => exact absurd htext (hword.append_ne (by decide) _ _)
      | list => exact absurd htext (hword.append_ne (by decide) _ _)
    | string content =>
      cases hw' with
      | word hword' => exact absurd htext.symm (hword'.append_ne (by decide) _ _)
      | string content' =>
        obtain ⟨rfl, rfl⟩ := escaped_append_inj (List.cons.inj htext).2
        exact ⟨rfl, rfl⟩
      | list => exact absurd (List.cons.inj htext).1 (by decide)
    | list hitems =>
      cases hw' with
      | word hword' => exact absurd htext.symm (hword'.append_ne (by decide) _ _)
      | string => exact absurd (List.cons.inj htext).1 (by decide)
      | list hitems' =>
        cases hs with
        | list hclean =>
          cases hs' with
          | list hclean' =>
            rw [(List.cons.inj htext).2] at hitems
            obtain ⟨hsame, hrest⟩ := writeItems_inj ih hclean hclean' hitems hitems'
            exact ⟨by rw [spelled_list, spelled_list]; exact congrArg list hsame, hrest⟩

theorem spelled_eq_of_text {s s' : Sexp} {t : Text} (hs : s.Clean) (hs' : s'.Clean) (h : s.text = .ok t)
    (h' : s'.text = .ok t) : s.spelled = s'.spelled :=
  have hend : IsDelimited [] := rfl
  (s.legible hs hs' hend hend h h').1

end Sexp

end ScriptAudit
