/-
Texts written with escapes. An encoding says which code points are written after a backslash, and as what; all others
stand for themselves. Whatever the encoding, resolving the escapes gives the text back (`Encoding.unescape_write`). The
scanners of strings and templates know nothing of what an escape means: they take all that is written because what
would stop them is escaped.
-/
import ScriptAudit.Grammar.Lexeme
import ScriptAudit.Tree.Token

namespace ScriptAudit

/-- Which code points are written after a backslash, and as what. -/
structure Encoding where
  escaped? : CodePoint → Option CodePoint
  /-- Each escape is read back as what it stands for, whatever comes after it. -/
  meaning : ∀ {c d}, escaped? c = some d → ∀ rest, Token.escape d rest = (.ok [c], 1)
  /-- A backslash does not stand for itself. -/
  backslash : (escaped? '\\').isSome = true

namespace Encoding

variable (e : Encoding)

def writePoint (c : CodePoint) : Text :=
  match e.escaped? c with
  | some d => [CodePoint.ofChar '\\', d]
  | none => [c]

def write (t : Text) : Text := t.flatMap e.writePoint

variable {e} {c d : CodePoint}

theorem write_cons_escaped (h : e.escaped? c = some d) (t : Text) :
    e.write (c :: t) = CodePoint.ofChar '\\' :: d :: e.write t := by
  rw [write, List.flatMap_cons, writePoint, h]
  rfl

theorem write_cons_plain (h : e.escaped? c = none) (t : Text) : e.write (c :: t) = c :: e.write t := by
  rw [write, List.flatMap_cons, writePoint, h]
  rfl

theorem ne_of_escaped? (h : e.escaped? c = none) (hd : (e.escaped? d).isSome = true) : c ≠ d := by
  rintro rfl
  rw [h] at hd
  cases hd

theorem write_ne_nil {t : Text} (h : t ≠ []) : e.write t ≠ [] := by
  obtain ⟨c, t, rfl⟩ := List.exists_cons_of_ne_nil h
  cases hc : e.escaped? c with
  | some d =>
    rw [write_cons_escaped hc]
    exact List.cons_ne_nil _ _
  | none =>
    rw [write_cons_plain hc]
    exact List.cons_ne_nil _ _

/-- **What is written is read back.** -/
theorem unescape_write (e : Encoding) (t : Text) : Token.unescape (e.write t) = .ok t := by
  rw [Token.unescape]
  induction t with
  | nil => rfl
  | cons c t ih =>
    cases hc : e.escaped? c with
    | some d =>
      rw [write_cons_escaped hc]
      simp only [Token.unescapeFrom, if_true, e.meaning hc, ih]
      rfl
    | none =>
      rw [write_cons_plain hc, Token.unescapeFrom.eq_def]
      simp only [if_neg (ne_of_escaped? hc e.backslash), ih]
      rfl

/-- A string whose quotes and line ends are escaped goes on to its closing quote. -/
theorem stringTailLength?_write (e : Encoding) {quote : CodePoint} (hquote : (e.escaped? quote).isSome = true)
    (hline : (e.escaped? '\n').isSome = true) (hne : quote ≠ '\\') (t rest : Text) :
    Lexeme.stringTailLength? quote (e.write t ++ quote :: rest) = some ((e.write t).length + 1) := by
  induction t with
  | nil =>
    rw [write, List.flatMap_nil, List.nil_append, Lexeme.stringTailLength?.eq_def]
    exact if_pos rfl
  | cons c t ih =>
    cases hc : e.escaped? c with
    | some d =>
      have hslash : (CodePoint.ofChar '\\') ≠ '\n' := by decide
      rw [write_cons_escaped hc, List.cons_append, List.cons_append, Lexeme.stringTailLength?, if_neg hne.symm,
        if_neg hslash, if_pos rfl]
      simp only [ih, Option.map_some, List.length_cons]
    | none =>
      rw [write_cons_plain hc, List.cons_append, Lexeme.stringTailLength?.eq_def]
      simp only [if_neg (ne_of_escaped? hc hquote), if_neg (ne_of_escaped? hc hline),
        if_neg (ne_of_escaped? hc e.backslash), ih, Option.map_some, List.length_cons]

/-- A chunk of a template whose backticks and dollar signs are escaped goes on to where a chunk would end. -/
theorem chunkLength_write (e : Encoding) (htick : (e.escaped? '\x60').isSome = true)
    (hdollar : (e.escaped? '$').isSome = true) (t : Text) {rest : Text} (hrest : Lexeme.chunkLength rest = 0) :
    Lexeme.chunkLength (e.write t ++ rest) = (e.write t).length := by
  induction t with
  | nil => exact hrest
  | cons c t ih =>
    cases hc : e.escaped? c with
    | some d =>
      have hslash : (CodePoint.ofChar '\\') ≠ '\x60' := by decide
      rw [write_cons_escaped hc, List.cons_append, List.cons_append, Lexeme.chunkLength, if_neg hslash, if_pos rfl]
      simp only [ih, List.length_cons]
    | none =>
      have hopen : ¬ (c = '$' && (e.write t ++ rest).head? = some (CodePoint.ofChar '\x7b')) = true := by
        simp [ne_of_escaped? hc hdollar]
      rw [write_cons_plain hc, List.cons_append, Lexeme.chunkLength.eq_def]
      simp only [if_neg (ne_of_escaped? hc htick), if_neg (ne_of_escaped? hc e.backslash), if_neg hopen, ih,
        List.length_cons]

end Encoding

/-! ## Strings -/

/-- The two kinds of quotes. -/
inductive Quote
  | double
  | single

namespace Quote

def mark : Quote → CodePoint
  | double => '"'
  | single => '\''

/-- Backslashes, the quote and line ends are escaped. -/
def encoding (q : Quote) : Encoding where
  escaped? c := if c = '\\' || c = q.mark then some c else if c = '\n' then some (CodePoint.ofChar 'n') else none
  meaning {c d} h rest := by
    have hcases : c = '\\' ∧ d = '\\' ∨ c = q.mark ∧ d = q.mark ∨ c = '\n' ∧ d = 'n' := by
      grind
    rcases hcases with ⟨rfl, rfl⟩ | ⟨rfl, rfl⟩ | ⟨rfl, rfl⟩
    · rfl
    · cases q <;> rfl
    · rfl
  backslash := by cases q <;> rfl

/-- The string token for a text. -/
def write (q : Quote) (t : Text) : Text := q.mark :: (q.encoding.write t ++ [q.mark])

theorem length?_write (q : Quote) (t rest : Text) :
    (Lexeme.string q.mark).length? (q.write t ++ rest) = some (q.write t).length := by
  have hquote : (q.encoding.escaped? q.mark).isSome = true := by cases q <;> rfl
  have hline : (q.encoding.escaped? '\n').isSome = true := by cases q <;> rfl
  have htail := q.encoding.stringTailLength?_write hquote hline (by cases q <;> decide) t rest
  rw [write, List.cons_append, List.append_assoc, List.singleton_append, Lexeme.length?, if_pos rfl, htail]
  simp only [Option.map_some, List.length_cons, List.length_append, List.length_nil]

theorem stringContent_write (q : Quote) (t : Text) : Token.stringContent (q.write t) = .ok t := by
  rw [Token.stringContent, write, List.drop_one, List.tail_cons, List.dropLast_concat, Encoding.unescape_write]

end Quote

/-! ## Templates -/

/-- Backslashes, backticks and dollar signs are escaped. -/
def chunkEncoding : Encoding where
  escaped? c := if c = '\\' || c = '\x60' || c = '$' then some c else none
  meaning {c d} h rest := by
    have hcases : d = c ∧ (c = '\\' ∨ c = '\x60' ∨ c = '$') := by
      grind
    obtain ⟨rfl, rfl | rfl | rfl⟩ := hcases <;> rfl
  backslash := rfl

/-- What is written goes up to where a chunk ends. -/
theorem chunkLength_chunkEncoding (t : Text) {rest : Text} (hrest : Lexeme.chunkLength rest = 0) :
    Lexeme.chunkLength (chunkEncoding.write t ++ rest) = (chunkEncoding.write t).length :=
  chunkEncoding.chunkLength_write rfl rfl t hrest

end ScriptAudit
