/-
Line continuations in strings: a backslash before a line end stands for nothing. Between the quotes a string is a row of
units, single code points and escapes, where an escape takes as much as it can (`IsUnit`). What a unit means does not
change when a backslash is put behind it, so a continuation may stand at any boundary between units, as far as the
meaning of the text is concerned.

The scanner of strings does not know these units. To it a backslash takes one code point with it and no more. It agrees
with a continuation of two code points, but stops in the middle of one that ends in CR LF, where the string then has no
end and the script is refused.
-/
import ScriptAudit.Proofs.LiteralReading
import ScriptAudit.Proofs.Spelling
import ScriptAudit.Proofs.TreeLayout

namespace ScriptAudit

open ScriptGrammar

/-! ## Units -/

/-- What may stand behind a backslash as one escape. -/
inductive IsEscape : Text → Prop
  | byte {digits : Text} (hlength : digits.length = 2) (hdigits : digits.all CodePoint.isHexDigit = true) :
    IsEscape (CodePoint.ofChar 'x' :: digits)
  | braced {digits : Text} (hne : digits ≠ []) (hdigits : digits.all CodePoint.isHexDigit = true) :
    IsEscape (CodePoint.ofChar 'u' :: CodePoint.ofChar '\x7b' :: (digits ++ [CodePoint.ofChar '\x7d']))
  | unicode {digits : Text} (hlength : digits.length = 4) (hdigits : digits.all CodePoint.isHexDigit = true) :
    IsEscape (CodePoint.ofChar 'u' :: digits)
  | lineEnd : IsEscape (Text.ofString "\r\n")
  | single (c : CodePoint) : IsEscape [c]

/-- No longer escape begins where the escape does. -/
def IsLongest (e rest : Text) : Prop := ∀ e', IsEscape e' → e' <+: e ++ rest → e'.length ≤ e.length

/-- The text is one unit of a string in which the rest comes after it. -/
inductive IsUnit (rest : Text) : Text → Prop
  | plain {c : CodePoint} (hc : c ≠ '\\') : IsUnit rest [c]
  | escape {e : Text} (he : IsEscape e) (hlongest : IsLongest e rest) : IsUnit rest (CodePoint.ofChar '\\' :: e)

/-- The first text is made of whole units when the second comes after it. -/
inductive Boundary : Text → Text → Prop
  | first (v : Text) : Boundary [] v
  | after {u w v : Text} (hu : IsUnit (w ++ v) u) (h : Boundary w v) : Boundary (u ++ w) v

theorem isHexDigit_backslash : CodePoint.isHexDigit '\\' = false := by decide

theorem ne_of_isHexDigit {c d : CodePoint} (hc : c.isHexDigit = true) (hd : d.isHexDigit = false) : c ≠ d := by
  rintro rfl
  rw [hc] at hd
  cases hd

/-- Only an escaped backslash is an escape with a backslash in it. -/
theorem IsEscape.backslash_notMem {e : Text} (h : IsEscape e) (hlength : 1 < e.length) :
    CodePoint.ofChar '\\' ∉ e := by
  have hdigit {digits : Text} (hdigits : digits.all CodePoint.isHexDigit = true) :
      CodePoint.ofChar '\\' ∉ digits := fun hmem =>
    ne_of_isHexDigit (List.all_eq_true.mp hdigits _ hmem) isHexDigit_backslash rfl
  cases h with
  | byte _ hdigits => exact List.not_mem_cons_of_ne_of_not_mem (by decide) (hdigit hdigits)
  | braced _ hdigits =>
    refine List.not_mem_cons_of_ne_of_not_mem (by decide) (List.not_mem_cons_of_ne_of_not_mem (by decide) ?_)
    rw [List.mem_append, not_or]
    exact ⟨hdigit hdigits, by decide⟩
  | unicode _ hdigits => exact List.not_mem_cons_of_ne_of_not_mem (by decide) (hdigit hdigits)
  | lineEnd => decide
  | single c => exact absurd hlength (Nat.lt_irrefl 1)

/-- An escape does not get longer by a backslash somewhere behind it. -/
theorem IsLongest.insert {e w v : Text} (he : e ≠ []) (h : IsLongest e (w ++ v)) (k : Text) :
    IsLongest e (w ++ CodePoint.ofChar '\\' :: k) := by
  rintro e' he' ⟨after, hafter⟩
  rw [← List.append_assoc] at hafter
  rcases List.append_eq_append_iff.mp hafter with ⟨more, hmore, -⟩ | ⟨more, rfl, hmore⟩
  · refine h e' he' ?_
    rw [← List.append_assoc, hmore, List.append_assoc]
    exact List.prefix_append _ _
  · cases more with
    | nil =>
      rw [List.append_nil] at he' ⊢
      exact h _ he' (by rw [← List.append_assoc]; exact List.prefix_append _ _)
    | cons c more =>
      -- the escape would go on over the backslash
      obtain ⟨rfl, -⟩ := List.cons.inj hmore
      have hpos := List.length_pos_iff.mpr he
      refine absurd (List.mem_append_right _ List.mem_cons_self) (he'.backslash_notMem ?_)
      simp only [List.length_append, List.length_cons]
      omega

theorem IsEscape.ne_nil {e : Text} (h : IsEscape e) : e ≠ [] := by
  cases h <;> exact List.cons_ne_nil _ _

theorem IsUnit.insert {u w v : Text} (h : IsUnit (w ++ v) u) (k : Text) :
    IsUnit (w ++ CodePoint.ofChar '\\' :: k) u := by
  cases h with
  | plain hc => exact .plain hc
  | escape he hlongest => exact .escape he (hlongest.insert he.ne_nil k)

/-- What stands before a boundary is whole units too when a backslash comes after it. -/
theorem Boundary.insert {u v : Text} (h : Boundary u v) (k : Text) : Boundary u (CodePoint.ofChar '\\' :: k) := by
  induction h with
  | first v => exact .first _
  | after hu _ ih => exact .after (hu.insert k) ih

/-! ## Meaning -/

namespace Token

theorem hexDigits?_append {n : Nat} {digits : Text} (hlength : digits.length = n)
    (hdigits : digits.all CodePoint.isHexDigit = true) (rest : Text) :
    hexDigits? n (digits ++ rest) = some digits := by
  simp only [hexDigits?, List.take_left' hlength, hlength, hdigits, decide_true, Bool.and_self, if_true]

theorem braced?_append {digits : Text} (hne : digits ≠ []) (hdigits : digits.all CodePoint.isHexDigit = true)
    (rest : Text) : braced? (CodePoint.ofChar '\x7b' :: (digits ++ CodePoint.ofChar '\x7d' :: rest)) =
      some (digits, digits.length) := by
  have htake : (digits ++ CodePoint.ofChar '\x7d' :: rest).takeWhile CodePoint.isHexDigit = digits := by
    rw [List.takeWhile_append_of_pos (List.all_eq_true.mp hdigits), List.takeWhile_cons_of_neg (by decide),
      List.append_nil]
  simp [braced?, htake, hne]

theorem exists_of_braced? {t : Text} {found : Text × Nat} (h : braced? t = some found) :
    ∃ digits : Text, digits ≠ [] ∧ digits.all CodePoint.isHexDigit = true ∧
      CodePoint.ofChar '\x7b' :: (digits ++ [CodePoint.ofChar '\x7d']) <+: t := by
  cases t with
  | nil => cases h
  | cons c t =>
    simp only [braced?] at h
    split at h
    · rename_i hbraced
      simp only [Bool.and_eq_true, decide_eq_true_iff, Bool.not_eq_true', List.isEmpty_eq_false_iff] at hbraced
      obtain ⟨⟨rfl, hne⟩, hclosed⟩ := hbraced
      refine ⟨t.takeWhile CodePoint.isHexDigit, hne, List.all_takeWhile, ?_⟩
      obtain ⟨rest, hrest⟩ := List.head?_eq_some_iff.mp hclosed
      refine ⟨rest, ?_⟩
      rw [List.cons_append, List.append_assoc, List.singleton_append, ← hrest,
        List.prefix_iff_eq_append.mp (List.takeWhile_prefix _)]
    · cases h

end Token

/-- What an escape means and how long it is do not depend on what follows, as long as it is the longest. -/
theorem IsEscape.exists_meaning {d : CodePoint} {e : Text} (h : IsEscape (d :: e)) :
    ∃ meaning, ∀ rest, IsLongest (d :: e) rest → Token.escape d (e ++ rest) = (meaning, e.length + 1) := by
  generalize hwhole : d :: e = whole at h
  cases h with
  | byte hlength hdigits =>
    cases hwhole
    refine ⟨Token.numbered e.readHex, fun rest _ => ?_⟩
    rw [Token.escape, if_pos rfl, Token.hexDigits?_append hlength hdigits, hlength]
  | @braced digits hne hdigits =>
    cases hwhole
    refine ⟨Token.numbered digits.readHex, fun rest _ => ?_⟩
    rw [List.cons_append, List.append_assoc, List.singleton_append, Token.escape, if_neg (by decide), if_pos rfl,
      Token.braced?_append hne hdigits]
    simp only [List.length_cons, List.length_append, List.length_nil]
  | unicode hlength hdigits =>
    cases hwhole
    refine ⟨Token.numbered e.readHex, fun rest _ => ?_⟩
    have hbraced : Token.braced? (e ++ rest) = none := by
      cases hfound : Token.braced? (e ++ rest) with
      | none => rfl
      | some found =>
        obtain ⟨digits, -, -, hbegins⟩ := Token.exists_of_braced? hfound
        obtain ⟨c, e, rfl⟩ := List.exists_cons_of_length_eq_add_one hlength
        have hc := (List.cons_prefix_cons.mp hbegins).1
        have hdigit := List.all_eq_true.mp hdigits _ List.mem_cons_self
        rw [← hc] at hdigit
        exact absurd hdigit (by decide)
    rw [Token.escape, if_neg (by decide), if_pos rfl, hbraced]
    simp only [Token.hexDigits?_append hlength hdigits, hlength]
  | lineEnd =>
    cases hwhole
    exact ⟨_, fun rest _ => rfl⟩
  | single c =>
    cases hwhole
    refine ⟨.ok (Token.simpleEscape d), fun rest hlongest => ?_⟩
    have hshort {e' : Text} (he : IsEscape (d :: e')) (hbegins : e' <+: rest) : e' = [] := by
      have hlength := hlongest _ he (List.cons_prefix_cons.mpr ⟨rfl, hbegins⟩)
      exact List.length_eq_zero_iff.mp (by simpa using hlength)
    have hbyte : d = 'x' → Token.hexDigits? 2 rest = none := by
      rintro rfl
      refine Option.eq_none_iff_forall_ne_some.mpr fun digits hfound => ?_
      obtain ⟨hlength, hdigits, hbegins⟩ := Token.exists_of_hexDigits? hfound
      rw [hshort (.byte hlength hdigits) hbegins] at hlength
      cases hlength
    have hunicode : d = 'u' → Token.braced? rest = none ∧ Token.hexDigits? 4 rest = none := by
      rintro rfl
      refine ⟨Option.eq_none_iff_forall_ne_some.mpr fun found hfound => ?_,
        Option.eq_none_iff_forall_ne_some.mpr fun digits hfound => ?_⟩
      · obtain ⟨digits, hne, hdigits, hbegins⟩ := Token.exists_of_braced? hfound
        exact List.cons_ne_nil _ _ (hshort (.braced hne hdigits) hbegins)
      · obtain ⟨hlength, hdigits, hbegins⟩ := Token.exists_of_hexDigits? hfound
        rw [hshort (.unicode hlength hdigits) hbegins] at hlength
        cases hlength
    have hline : ¬(d = '\r' && rest.head? = some (CodePoint.ofChar '\n')) = true := by
      rw [Bool.and_eq_true, decide_eq_true_iff, decide_eq_true_iff]
      rintro ⟨rfl, hhead⟩
      obtain ⟨more, rfl⟩ := List.head?_eq_some_iff.mp hhead
      exact List.cons_ne_nil _ _ (hshort .lineEnd (List.prefix_append [CodePoint.ofChar '\n'] more))
    simp only [List.nil_append, List.length_nil, Token.escape, if_neg hline]
    split
    · rw [hbyte ‹_›]
    · split
      · rw [(hunicode ‹_›).1, (hunicode ‹_›).2]
      · rfl

theorem Token.unescapeFrom_drop (skip : Nat) (t : Text) :
    Token.unescapeFrom skip t = Token.unescape (t.drop skip) := by
  induction t generalizing skip with
  | nil => cases skip <;> rfl
  | cons c t ih =>
    cases skip with
    | zero => rfl
    | succ skip => exact ih skip

theorem Token.unescape_escape {d : CodePoint} {e rest : Text} {meaning : Except Fault Text}
    (h : Token.escape d (e ++ rest) = (meaning, e.length + 1)) :
    Token.unescape (CodePoint.ofChar '\\' :: d :: (e ++ rest)) =
      (do return (← meaning) ++ (← Token.unescape rest)) := by
  rw [Token.unescape, Token.unescapeFrom.eq_def]
  simp only [if_true, h, Token.unescapeFrom_drop, List.drop_succ_cons, List.drop_left]

/-- Behind a unit one text may be put in the place of another that means the same. -/
theorem IsUnit.unescape_congr {u rest rest' : Text} (h : IsUnit rest u) (h' : IsUnit rest' u)
    (hrest : Token.unescape rest = Token.unescape rest') :
    Token.unescape (u ++ rest) = Token.unescape (u ++ rest') := by
  cases h with
  | @plain c hc =>
    have hplain (t : Text) : Token.unescape (c :: t) = (do return c :: (← Token.unescape t)) := by
      rw [Token.unescape, Token.unescapeFrom.eq_def]
      simp only [if_neg hc]
      rfl
    rw [List.singleton_append, List.singleton_append, hplain, hplain, hrest]
  | escape he hlongest =>
    cases h' with
    | plain hc => exact absurd rfl hc
    | escape _ hlongest' =>
      obtain ⟨d, e, rfl⟩ := List.exists_cons_of_ne_nil he.ne_nil
      obtain ⟨meaning, hmeaning⟩ := he.exists_meaning
      rw [List.cons_append, List.cons_append, List.cons_append, List.cons_append,
        Token.unescape_escape (hmeaning _ hlongest), Token.unescape_escape (hmeaning _ hlongest'), hrest]

/-- An escape may be put at a boundary without a change if there is none for what comes after the boundary. -/
theorem Boundary.unescape_insert {u v k : Text} (h : Boundary u v)
    (hk : Token.unescape (CodePoint.ofChar '\\' :: k) = Token.unescape v) :
    Token.unescape (u ++ CodePoint.ofChar '\\' :: k) = Token.unescape (u ++ v) := by
  induction h with
  | first v => exact hk
  | after hu _ ih =>
    rw [List.append_assoc, List.append_assoc]
    exact (hu.insert k).unescape_congr hu (ih hk)

/-- A line end behind a backslash means nothing. -/
theorem Token.unescape_continuation {lineEnd : CodePoint} {v : Text}
    (h : Token.escape lineEnd v = (.ok [], 1)) :
    Token.unescape (CodePoint.ofChar '\\' :: lineEnd :: v) = Token.unescape v := by
  rw [← List.nil_append v, Token.unescape_escape h, List.nil_append]
  cases Token.unescape v <;> rfl

theorem Token.escape_return {v : Text} (h : v.head? ≠ some (CodePoint.ofChar '\n')) :
    Token.escape '\r' v = (.ok [], 1) := by
  rw [Token.escape, if_neg (by decide), if_neg (by decide), if_neg (by simp [h])]
  rfl

/-! ## Scanning -/

namespace Quote

variable {q : Quote}

/-- A code point inside a string that the scanner passes on its own. -/
def IsInner (q : Quote) (c : CodePoint) : Prop := c ≠ q.mark ∧ c ≠ '\n' ∧ c ≠ '\\'

theorem stringTailLength?_inner {c : CodePoint} (hc : q.IsInner c) (t : Text) :
    Lexeme.stringTailLength? q.mark (c :: t) = (Lexeme.stringTailLength? q.mark t).map (· + 1) := by
  rw [Lexeme.stringTailLength?.eq_def]
  simp only [if_neg hc.1, if_neg hc.2.1, if_neg hc.2.2]

theorem stringTailLength?_run {w : Text} (hw : ∀ c ∈ w, q.IsInner c) (t : Text) :
    Lexeme.stringTailLength? q.mark (w ++ t) = (Lexeme.stringTailLength? q.mark t).map (· + w.length) := by
  induction w with
  | nil => simp
  | cons c w ih =>
    obtain ⟨hc, hw⟩ := List.forall_mem_cons.mp hw
    rw [List.cons_append, stringTailLength?_inner hc, ih hw, Option.map_map]
    rfl

theorem stringTailLength?_pair (d : CodePoint) (t : Text) :
    Lexeme.stringTailLength? q.mark (CodePoint.ofChar '\\' :: d :: t) =
      (Lexeme.stringTailLength? q.mark t).map (· + 2) := by
  have hmark : CodePoint.ofChar '\\' ≠ q.mark := by cases q <;> decide
  have hline : CodePoint.ofChar '\\' ≠ CodePoint.ofChar '\n' := by decide
  rw [Lexeme.stringTailLength?, if_neg hmark, if_neg hline, if_pos rfl]

theorem stringTailLength?_newline (t : Text) :
    Lexeme.stringTailLength? q.mark (CodePoint.ofChar '\n' :: t) = none := by
  have hmark : CodePoint.ofChar '\n' ≠ q.mark := by cases q <;> decide
  rw [Lexeme.stringTailLength?.eq_def]
  simp only [if_neg hmark, if_true]

theorem isInner_of_isHexDigit {c : CodePoint} (hc : c.isHexDigit = true) : q.IsInner c := by
  refine ⟨ne_of_isHexDigit hc ?_, ne_of_isHexDigit hc (by decide), ne_of_isHexDigit hc isHexDigit_backslash⟩
  cases q <;> decide

end Quote

/-- The scanner passes what an escape has behind its first code point, or the escape is a whole line end. -/
theorem IsEscape.tail_isInner {d : CodePoint} {e : Text} (h : IsEscape (d :: e)) (q : Quote) :
    e = [CodePoint.ofChar '\n'] ∨ ∀ c ∈ e, q.IsInner c := by
  have hdigit {digits : Text} (hdigits : digits.all CodePoint.isHexDigit = true) :
      ∀ c ∈ digits, q.IsInner c := fun c hc => q.isInner_of_isHexDigit (List.all_eq_true.mp hdigits c hc)
  generalize hwhole : d :: e = whole at h
  cases h with
  | byte _ hdigits =>
    cases hwhole
    exact .inr (hdigit hdigits)
  | braced _ hdigits =>
    cases hwhole
    refine .inr (List.forall_mem_cons.mpr ⟨?_, List.forall_mem_append.mpr ⟨hdigit hdigits, ?_⟩⟩)
    · cases q <;> exact ⟨by decide, by decide, by decide⟩
    · rw [List.forall_mem_singleton]
      cases q <;> exact ⟨by decide, by decide, by decide⟩
  | unicode _ hdigits =>
    cases hwhole
    exact .inr (hdigit hdigits)
  | lineEnd =>
    cases hwhole
    exact .inl rfl
  | single c =>
    cases hwhole
    exact .inr (List.forall_mem_nil _)

/-- The scanner passes a unit of a string whose end it finds later. -/
theorem IsUnit.stringTailLength? {q : Quote} {u rest t : Text} {n : Nat} (hu : IsUnit rest u)
    (h : Lexeme.stringTailLength? q.mark (u ++ t) = some n) (hn : u.length < n) (t' : Text) :
    Lexeme.stringTailLength? q.mark (u ++ t') = (Lexeme.stringTailLength? q.mark t').map (· + u.length) := by
  cases hu with
  | @plain c hc =>
    have hmark : c ≠ q.mark := by
      rintro rfl
      rw [List.singleton_append, Lexeme.stringTailLength?.eq_def] at h
      simp only [if_true, Option.some.injEq] at h
      rw [← h] at hn
      exact Nat.lt_irrefl _ hn
    have hline : c ≠ '\n' := by
      rintro rfl
      rw [List.singleton_append, Quote.stringTailLength?_newline] at h
      cases h
    exact Quote.stringTailLength?_inner ⟨hmark, hline, hc⟩ t'
  | escape he _ =>
    obtain ⟨d, e, rfl⟩ := List.exists_cons_of_ne_nil he.ne_nil
    rw [List.cons_append, List.cons_append, Quote.stringTailLength?_pair] at h ⊢
    rcases he.tail_isInner q with rfl | hinner
    · rw [List.singleton_append, Quote.stringTailLength?_newline] at h
      cases h
    · rw [Quote.stringTailLength?_run hinner, Option.map_map]
      rfl

/-- The scanner passes what stands before a boundary. -/
theorem Boundary.stringTailLength? {q : Quote} {u v t : Text} {n : Nat} (hu : Boundary u v)
    (h : Lexeme.stringTailLength? q.mark (u ++ t) = some n) (hn : u.length < n) (t' : Text) :
    Lexeme.stringTailLength? q.mark (u ++ t') = (Lexeme.stringTailLength? q.mark t').map (· + u.length) := by
  induction hu generalizing n with
  | first v => simp
  | @after u w v hu _ ih =>
    rw [List.append_assoc] at h ⊢
    rw [List.length_append] at hn ⊢
    have hstep := hu.stringTailLength? h (by omega)
    rw [hstep] at h ⊢
    obtain ⟨m, hm, rfl⟩ := Option.map_eq_some_iff.mp h
    rw [ih hm (by omega), Option.map_map]
    congr 1
    funext k
    simp only [Function.comp_apply]
    omega

/-! ## Scripts -/

/-- The text is a script of one string with that content. -/
def IsString (source filename content : Text) : Prop :=
  parse source filename = .ok ⟨[.sole source (.literal (.text content) source)], source, filename⟩

namespace Quote

variable {source filename content : Text} {d : Nat} {c : Cursor source} {q : Quote}

def enclose (q : Quote) (body : Text) : Text := q.mark :: (body ++ [q.mark])

/-- What is tried besides strings where a primary expression may begin. -/
def stringRivals : List Rule :=
  [.number, .boolean, .null, .template, .arrayLiteral, .objectLiteral, .functionExpr, .parenExpr, .thisExpr,
   .identifier]

theorem outdone_stringRivals : Outdone 4 stringRivals [Text.glimpses "\"", Text.glimpses "'"] := by rfl

/-- No statement begins with a quote where no string does. -/
theorem misses_statement {rest : Text} (hrest : c.rest = q.mark :: rest)
    (h : (Lexeme.string q.mark).length? c.rest = none) : Misses (d + 25) (ref .statement) c := by
  have hshows : ∃ view ∈ literalViews, Shows view c.rest := hrest ▸ q.shows_mark rest
  have hquote : ∃ view ∈ [Text.glimpses "\"", Text.glimpses "'"], Shows view c.rest := by
    refine ⟨[.char q.mark], ?_, hrest ▸ .char q.mark (.nothing _)⟩
    cases q <;> decide
  have hrival {r : Rule} (hr : r ∈ stringRivals) : Misses (d + 4) (ref r) c :=
    outdone_stringRivals.misses hquote (by omega) hr
  have hstring : Misses (d + 4) (ref .string) c := by
    have hlexeme (q' : Quote) : Misses (d + 3) (.lexeme (.string q'.mark) : Pattern Text) c := by
      have hnone : (Lexeme.string q'.mark).length? c.rest = none := by
        cases q <;> cases q' <;> first | exact h | (rw [hrest]; rfl)
      rw [Misses, Peg.eval_lexeme, hnone]
    exact .rule (.build (.either (hlexeme .double) (hlexeme .single)))
  have hliteral : Misses (d + 5) (ref .literal) c :=
    .rule (.either (.build (hrival (by decide))) (.either (.build hstring)
      (.either (hrival (by decide)) (hrival (by decide)))))
  have hprimary : Misses (d + 6) (ref .primary) c := by
    refine .rule (.either hliteral ?_)
    iterate 6 refine .either ((hrival (by decide)).mono (by omega)) ?_
    exact .build ((hrival (by decide)).mono (by omega))
  have houtdone {r : Rule} {d' : Nat} (hr : r ∈ primaryRivals) (hd : 4 ≤ d') : Misses d' (ref r) c :=
    outdone_primary.misses hshows hd hr
  have hcall : Misses (d + 7) (ref .callMember) c :=
    .rule (.seq_left (.build (.either (houtdone (by decide) (by omega)) hprimary)))
  have hunary : Misses (d + 9) (ref .unary) c := by
    refine .rule ?_
    iterate 3 refine .either (houtdone (by decide) (by omega)) ?_
    exact .rule (.build (.seq_left (.build hcall)))
  have hladder : Misses (d + 20) (ref .logicalOr) c := by
    iterate 10 refine .rule (.seq_left (.build ?_))
    exact .rule (.build (.seq_left (.build hunary)))
  have hassign : Misses (d + 22) (ref .assignExpr) c := by
    refine .rule (.either (houtdone (by decide) (by omega)) (.either ?_ ?_))
    · exact .rule (.build (.seq_left (.seq_left (.build (.seq_left (hcall.mono (by omega)))))))
    · exact .rule (.build (.seq_left (.build hladder)))
  have hexpr : Misses (d + 24) (ref .exprStmt) c :=
    .rule (.build (.build (.seq_left (.seq_left (.rule (.build (.seq_left (.build hassign))))))))
  refine .rule ?_
  iterate 16 refine .either (outdone_statement.misses hshows (by omega) (by decide)) ?_
  exact hexpr

/-- A text that begins with a quote, but not with a string, is refused where it begins. -/
theorem parse_of_misses {rest : Text} (hsource : source = q.mark :: rest)
    (h : (Lexeme.string q.mark).length? source = none) : parse source filename = .error (.unexpected 0) := by
  have hgap : Lexeme.triviaLength source = 0 :=
    triviaLength_of_solid (by decide) (hsource ▸ q.shows_mark rest)
  have hstatement : Misses 25 (ref .statement) (Cursor.start source) := misses_statement (d := 0) hsource h
  have hprogram : Reads 26 (ref .program) (Cursor.start source) [] (Cursor.start source) :=
    .rule ((reads_gap_nothing hgap).seq (f := fun _ b => b) (.many .nil (.inr hstatement)))
  have hparse : parse source filename = _ := parseWithin_of_eval (by decide) hprogram
  have hend : (Cursor.start source).atEnd = false := by
    subst hsource
    rfl
  rw [hparse, ofMatch, if_neg (by simp [hend])]
  rfl

/-- A string is taken as a whole by the scanner. -/
theorem length?_of_isString {body : Text} (h : IsString (q.enclose body) filename content) :
    (Lexeme.string q.mark).length? (q.enclose body) = some (q.enclose body).length := by
  have hroot := arranged_of_parse h
  have hstatement : (Tree.sole (q.enclose body) (.literal (.text content) (q.enclose body))).All
      (Node.Fits (q.enclose body)) := hroot.children _ (by rw [root_children]; exact List.mem_singleton_self _)
  have hliteral := (hstatement.child List.mem_cons_self).self
  obtain ⟨⟨l, hl, hstands⟩, -⟩ := hliteral.written
  obtain ⟨q', rfl⟩ := exists_of_mem_strings hl
  obtain ⟨rest, hrest, -⟩ := exists_of_length? hstands
  rw [← (List.cons.inj hrest).1] at hstands
  exact hstands

/-- A text between quotes is a string if the scanner takes all of it and its escapes stand for something. -/
theorem isString_enclose_iff {body : Text} : IsString (q.enclose body) filename content ↔
    Lexeme.stringTailLength? q.mark (body ++ [q.mark]) = some (body.length + 1) ∧
      Token.unescape body = .ok content := by
  have hcontent : Token.stringContent (q.enclose body) = Token.unescape body := by
    rw [Token.stringContent, enclose, List.drop_one, List.tail_cons, List.dropLast_concat]
  have hscanned : Lexeme.stringTailLength? q.mark (body ++ [q.mark]) = some (body.length + 1) ↔
      (Lexeme.string q.mark).length? (q.enclose body) = some (q.enclose body).length := by
    rw [enclose, Lexeme.length?, if_pos rfl]
    simp
  rw [hscanned]
  constructor
  · intro h
    have hlength := length?_of_isString h
    refine ⟨hlength, ?_⟩
    rw [IsString, parse_eq_of_string filename hlength, hcontent] at h
    cases hbody : Token.unescape body with
    | error fault =>
      rw [hbody] at h
      cases h
    | ok found =>
      rw [hbody] at h
      cases h
      rfl
  · rintro ⟨hlength, hbody⟩
    rw [IsString, parse_eq_of_string filename hlength, hcontent, hbody]
    rfl

end Quote

/-- A backslash and a line end, before what comes after it. -/
def continuation (lineEnd : String) (v : Text) : Text := Text.ofString "\\" ++ (Text.ofString lineEnd ++ v)

/-- **Line continuations are invisible, but for one.** Let the text between the quotes of a string be cut at a boundary
between two units, or before the first or behind the last of them. A backslash with a LF or a CR there gives a string
with the same content. A backslash with CR LF gives no script at all: it is refused where the string begins. -/
theorem isString_continuation (q : Quote) {u v filename content : Text} (hboundary : Boundary u v)
    (h : IsString (q.enclose (u ++ v)) filename content) :
    IsString (q.enclose (u ++ continuation "\n" v)) filename content ∧
      IsString (q.enclose (u ++ continuation "\r" v)) filename content ∧
      parse (q.enclose (u ++ continuation "\r\n" v)) filename = .error (.unexpected 0) := by
  obtain ⟨hscanned, hcontent⟩ := Quote.isString_enclose_iff.mp h
  rw [List.append_assoc, List.length_append] at hscanned
  have hpass := hboundary.stringTailLength? hscanned (by omega)
  have hrest : Lexeme.stringTailLength? q.mark (v ++ [q.mark]) = some (v.length + 1) := by
    rw [hpass] at hscanned
    obtain ⟨n, hn, hlength⟩ := Option.map_eq_some_iff.mp hscanned
    rw [hn]
    congr 1
    omega
  have hhead : v.head? ≠ some (CodePoint.ofChar '\n') := by
    intro hhead
    obtain ⟨t, rfl⟩ := List.head?_eq_some_iff.mp hhead
    rw [List.cons_append, Quote.stringTailLength?_newline] at hrest
    cases hrest
  have hsingle {lineEnd : CodePoint} (hmeaning : Token.escape lineEnd v = (.ok [], 1)) :
      IsString (q.enclose (u ++ CodePoint.ofChar '\\' :: lineEnd :: v)) filename content := by
    refine Quote.isString_enclose_iff.mpr ⟨?_, ?_⟩
    · rw [List.append_assoc, hpass, List.cons_append, List.cons_append, Quote.stringTailLength?_pair, hrest,
        List.length_append]
      simp only [Option.map_some, List.length_cons, Option.some.injEq]
      omega
    · rw [hboundary.unescape_insert (Token.unescape_continuation hmeaning), hcontent]
  have hstopped : Lexeme.stringTailLength? q.mark (u ++ continuation "\r\n" v ++ [q.mark]) = none := by
    rw [List.append_assoc, hpass]
    exact congrArg _ ((Quote.stringTailLength?_pair _ _).trans (congrArg _ (Quote.stringTailLength?_newline _)))
  refine ⟨hsingle rfl, hsingle (Token.escape_return hhead), Quote.parse_of_misses rfl ?_⟩
  rw [Quote.enclose, Lexeme.length?, if_pos rfl, hstopped]
  rfl

/-- A string that is cut between two escapes. -/
theorem isString_continuation_escapes :
    Boundary "a\\x41" "\\u\x7b62\x7d" ∧ IsString (Quote.single.enclose "a\\x41\\u\x7b62\x7d") "cut.js" "aAb" ∧
      IsString (Quote.single.enclose "a\\x41\\\n\\u\x7b62\x7d") "cut.js" "aAb" ∧
      IsString (Quote.single.enclose "a\\x41\\\r\\u\x7b62\x7d") "cut.js" "aAb" ∧
      parse (Quote.single.enclose "a\\x41\\\r\n\\u\x7b62\x7d") "cut.js" = .error (.unexpected 0) := by
  have hlongest : IsLongest "x41" "\\u\x7b62\x7d" := by
    intro e he hbegins
    cases he with
    | byte hlength _ => exact Nat.le_of_eq (congrArg (· + 1) hlength)
    | braced _ _ => exact absurd (List.cons_prefix_cons.mp hbegins).1 (by decide)
    | unicode _ _ => exact absurd (List.cons_prefix_cons.mp hbegins).1 (by decide)
    | lineEnd => exact absurd (List.cons_prefix_cons.mp hbegins).1 (by decide)
    | single c => exact Nat.le_add_left 1 2
  have hboundary : Boundary "a\\x41" "\\u\x7b62\x7d" :=
    .after (u := Text.ofString "a") (.plain (by decide)) (.after (u := Text.ofString "\\x41") (w := [])
      (.escape (e := Text.ofString "x41") (.byte rfl (by decide)) hlongest) (.first _))
  have hstring : IsString (Quote.single.enclose "a\\x41\\u\x7b62\x7d") "cut.js" "aAb" :=
    Quote.isString_enclose_iff.mpr ⟨by decide +kernel, by decide +kernel⟩
  exact ⟨hboundary, hstring, isString_continuation .single hboundary hstring⟩

end ScriptAudit
