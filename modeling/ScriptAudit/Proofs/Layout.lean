/-
How a tree lies in its source. A node fits (`Node.Fits`) when its span is a stretch of the source, names
and literals are written there, its children follow each other inside it, and no child that stands for
a variable is a reserved word. The one kind of node whose children may overlap is a property: a method
begins where its property does, and a shorthand property has its name for both children.
-/
import ScriptAudit.Proofs.Preorder
import ScriptAudit.Tree.Token
import ScriptAudit.Grammar.Lexeme

namespace ScriptAudit

/-- The text of a span. -/
def Text.slice (t : Text) (span : Span) : Text := (t.drop span.start).take (span.stop - span.start)

/-- The lexeme is what the source has at the span, neither more nor less. -/
def Stands (source : Text) (l : Lexeme) (span : Span) : Prop :=
  l.length? (source.drop span.start) = some (span.stop - span.start)

/-- A word of its own begins at the offset. -/
def Opens (source : Text) (word : String) (offset : Nat) : Prop :=
  (Lexeme.exact word CodePoint.continuesName).length? (source.drop offset)
    = some (Text.ofString word).length

/-- Literals, classified or with their values. -/
class Literal (ℓ : Type) where
  /-- The ways to write a literal of this kind. -/
  lexemes : ℓ → List Lexeme

def Lexeme.truth (b : Bool) : Lexeme := .exact (if b then "true" else "false") CodePoint.continuesName

def Lexeme.strings : List Lexeme := [.string '"', .string '\'']

instance : Literal TokenClass where
  lexemes
    | .number => [.number]
    | .string => Lexeme.strings
    | .boolean truth => [.truth truth]
    | .null => [.exact "null" CodePoint.continuesName]

instance : Literal Value where
  lexemes
    | .number _ => [.number]
    | .text _ => Lexeme.strings
    | .boolean truth => [.truth truth]
    | .null => [.exact "null" CodePoint.continuesName]

theorem Token.lexemes_value {c : TokenClass} {raw : Text} {v : Value} (h : Token.value c raw = .ok v) :
    Literal.lexemes v = Literal.lexemes c := by
  cases c with
  | number =>
    simp only [Token.value, bind, Except.bind] at h
    split at h
    · cases h
    · cases h; rfl
  | string =>
    simp only [Token.value, bind, Except.bind] at h
    split at h
    · cases h
    · cases h; rfl
  | boolean truth => cases h; rfl
  | null => cases h; rfl

variable {ℓ : Type}

/-! ## The order of children -/

/-- The nodes follow each other between the offsets. -/
def Sequenced : (start : Nat) → List (Node ℓ) → (stop : Nat) → Prop
  | s, [], e => s ≤ e
  | s, n :: ns, e => s ≤ n.span.start ∧ Sequenced n.span.stop ns e

/-- Whether `async` or a star comes before the function. -/
def Form.isModified {α : Type} : Form ℓ α → Bool
  | .functionExpression _ _ _ isAsync generator => isAsync || generator
  | _ => false

theorem Form.isModified_of_kind {α : Type} {form : Form ℓ α} (h : form.kind ≠ .functionExpression) :
    form.isModified = false := by
  cases form <;> first | rfl | exact absurd rfl h

/-- Where the key and the value of a property lie. -/
inductive PropertyOrder (span : Span) :
    (key value : Node ℓ) → (computed shorthand method : Bool) → Prop
  | keyed {key value : Node ℓ} {computed : Bool} (order : Sequenced span.start [key, value] span.stop) :
    PropertyOrder span key value computed false false
  /-- The function of a method spans the whole property, and its contents follow the key. The key is the
  first thing in the property, unless there is a bracket, `async` or a star before it. -/
  | method {key value : Node ℓ} {computed : Bool} (isFunction : value.kind = .functionExpression)
    (whole : value.span = span) (order : Sequenced span.start (key :: value.children) span.stop)
    (first : key.span.start = span.start ↔ computed = false ∧ value.form.isModified = false) :
    PropertyOrder span key value computed false true
  | shorthand {key : Node ℓ} (isName : key.kind = .identifier) (whole : key.span = span) :
    PropertyOrder span key key false true false
  /-- A shorthand property with a default begins with its name. -/
  | defaulted {key value default : Node ℓ} (isName : key.kind = .identifier)
    (isDefault : value.form = .assignmentPattern key default) (whole : value.span = span)
    (first : key.span.start = span.start) : PropertyOrder span key value false true false

namespace Form

variable {α : Type}

/-- What the source has to say at the span of a name or a literal. -/
def Written [Literal ℓ] (source : Text) (span : Span) : Form ℓ α → Prop
  | .identifier name => Stands source .name span ∧ name = source.slice span
  | .literal value raw =>
    (∃ l ∈ Literal.lexemes value, Stands source l span) ∧ raw = source.slice span
  | _ => True

/-- The children that stand for something, which a label does not: a label is the name of a member or
of a property. -/
def exposed : Form ℓ α → List α
  | .memberExpression object _ false _ => [object]
  | .property _ value false _ _ => [value]
  | form => form.children

/-- The children that are labels. -/
def labels : Form ℓ α → List α
  | .memberExpression _ selected false _ => [selected]
  | .property key _ false _ _ => [key]
  | _ => []

/-- Forms with no text of their own, no labels and nothing but their children in order. -/
def isPlain : Form ℓ α → Bool
  | .property .. | .whileStatement .. | .awaitExpression .. | .identifier .. | .literal ..
  | .memberExpression .. => false
  | _ => true

theorem written_of_kind [Literal ℓ] {form : Form ℓ α} {source : Text} {span : Span}
    (hi : form.kind ≠ .identifier) (hl : form.kind ≠ .literal) : form.Written source span := by
  cases form <;> trivial

theorem written_of_isPlain [Literal ℓ] {form : Form ℓ α} {source : Text} {span : Span}
    (h : form.isPlain = true) : form.Written source span := by
  cases form <;> trivial

theorem kind_ne_of_isPlain {form : Form ℓ α} (h : form.isPlain = true) : form.kind ≠ .identifier := by
  cases form <;> first | cases h; done | (intro hk; cases hk)

theorem exposed_of_isPlain {form : Form ℓ α} (h : form.isPlain = true) :
    form.exposed = form.children := by
  cases form <;> first | rfl | cases h

theorem labels_of_isPlain {form : Form ℓ α} (h : form.isPlain = true) : form.labels = [] := by
  cases form <;> first | rfl | cases h

theorem labels_of_kind {form : Form ℓ α} (hm : form.kind ≠ .memberExpression)
    (hp : form.kind ≠ .property) : form.labels = [] := by
  cases form <;> first | rfl | exact absurd rfl hm | exact absurd rfl hp

theorem exposed_of_kind {form : Form ℓ α} (hm : form.kind ≠ .memberExpression)
    (hp : form.kind ≠ .property) : form.exposed = form.children := by
  cases form <;> first | rfl | exact absurd rfl hm | exact absurd rfl hp

theorem exposed_subset {form : Form ℓ α} {a : α} (h : a ∈ form.exposed) : a ∈ form.children := by
  cases form with
  | memberExpression object selected computed optional =>
    cases computed with
    | true => exact h
    | false =>
      obtain rfl : a = object := by simpa [exposed] using h
      exact List.mem_cons_self
  | property key value computed shorthand method =>
    cases computed with
    | true => exact h
    | false =>
      obtain rfl : a = value := by simpa [exposed] using h
      exact List.mem_cons_of_mem _ List.mem_cons_self
  | _ => exact h

end Form

namespace Node

/-- The node is not a reserved word. -/
def Unreserved (n : Node ℓ) : Prop :=
  ∀ name, n.form = .identifier name → Lexeme.isReserved name = false

/-- The children of the node follow each other, as far as those of a property do, and come after its
opening word, if it has one. -/
def Ordered (source : Text) (n : Node ℓ) : Prop :=
  match n.form with
  | .property key value computed shorthand method =>
    PropertyOrder n.span key value computed shorthand method
  | .whileStatement test body =>
    Opens source "while" n.span.start ∧ Sequenced (n.span.start + 5) [test, body] n.span.stop
  | .awaitExpression argument =>
    Opens source "await" n.span.start ∧ Sequenced (n.span.start + 5) [argument] n.span.stop
  | form => Sequenced n.span.start form.children n.span.stop

theorem ordered_iff {source : Text} {n : Node ℓ} (hp : n.kind ≠ .property)
    (hw : n.kind ≠ .whileStatement) (ha : n.kind ≠ .awaitExpression) :
    n.Ordered source ↔ Sequenced n.span.start n.children n.span.stop := by
  obtain ⟨form, span⟩ := n
  cases form <;> first | rfl | exact absurd rfl hp | exact absurd rfl hw | exact absurd rfl ha

theorem ordered_of_isPlain {source : Text} {n : Node ℓ} (h : n.form.isPlain = true)
    (hs : Sequenced n.span.start n.children n.span.stop) : n.Ordered source := by
  obtain ⟨form, span⟩ := n
  cases form <;> first | exact hs | cases h

/-- The node lies in the source as it should. -/
structure Fits [Literal ℓ] (source : Text) (n : Node ℓ) : Prop where
  nonempty : n.span.start < n.span.stop
  inside : n.span.stop ≤ source.length
  written : n.form.Written source n.span
  ordered : n.Ordered source
  unreserved : ∀ c ∈ n.form.exposed, c.Unreserved
  /-- A label is a name or a literal. -/
  bare : ∀ c ∈ n.form.labels, c.children = []

end Node

end ScriptAudit
