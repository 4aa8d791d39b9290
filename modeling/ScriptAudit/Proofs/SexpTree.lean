/-
The dump of a tree loses its spans and nothing else. A layer can be read back from its dump: the first item names the
kind, and a field that is missing was empty (`Sexp.toForm_spelled`). What a literal stands for need not be read at all,
since it is known from how the literal is written (`Token.ofRaw`). Layer by layer, a tree without its spans is what
can be read from its dump (`Sexp.toTree_spelled`).
-/
import Mathlib.Data.List.Nodup
import ScriptAudit.Proofs.LiteralReading
import ScriptAudit.Proofs.SexpReading
import ScriptAudit.Proofs.SpanInvariant

namespace ScriptAudit

/-! ## Layers -/

namespace Form

variable {ℓ α β γ : Type}

theorem map_map (f : α → β) (g : β → γ) (form : Form ℓ α) : (form.map f).map g = form.map (g ∘ f) := by
  cases form <;> simp only [map, List.map_map, Option.map_map, Function.comp_apply]

theorem map_congr {f g : α → β} {form : Form ℓ α} (h : ∀ a ∈ form.children, f a = g a) : form.map f = form.map g := by
  have hlist {as : List α} (has : ∀ a ∈ as, f a = g a) : as.map f = as.map g := List.map_congr_left has
  have hoption {a : Option α} (ha : ∀ b ∈ a.toList, f b = g b) : a.map f = a.map g := by
    cases a with
    | none => rfl
    | some a => exact congrArg some (ha a (List.mem_singleton_self a))
  cases form <;>
    simp only [children, slots, Slot.children, List.flatMap_cons, List.flatMap_nil, List.append_nil, List.nil_append,
      List.singleton_append, List.forall_mem_cons, List.forall_mem_append] at h <;>
    grind [map]

theorem eq_literal_of_map {f : α → β} {form : Form ℓ α} {value : ℓ} {raw : Text}
    (h : form.map f = .literal value raw) : form = .literal value raw := by
  cases form <;> cases h
  rfl

/-- No layer has two fields of one name. -/
theorem nodup_names (form : Form ℓ α) : (form.slots.map (·.1)).Nodup := by
  cases form <;> simp only [slots, List.map_cons, List.map_nil] <;> decide

end Form

/-! ## Names -/

theorem ofString_injective : Function.Injective Text.ofString := by
  intro a b h
  refine String.toList_injective (List.map_injective_iff.mpr (fun c d hcd => ?_) h)
  exact Char.toNat_inj.mp (Fin.mk.inj hcd)

/-- Things that are told apart by their names. -/
structure Naming (α : Type) where
  name : α → String
  all : List α
  distinct : (all.map name).Nodup
  complete : ∀ a, a ∈ all

namespace Naming

variable {α : Type} (n : Naming α)

/-- What has the name. -/
def named? (t : Text) : Option α := n.all.find? fun a => Text.ofString (n.name a) == t

theorem named?_name (a : α) : n.named? (n.name a) = some a := by
  cases hfound : n.named? (n.name a) with
  | none => exact absurd BEq.rfl (List.find?_eq_none.mp hfound a (n.complete a))
  | some b =>
    have hsame : (Text.ofString (n.name b) == Text.ofString (n.name a)) = true :=
      List.find?_some (p := fun a' => Text.ofString (n.name a') == Text.ofString (n.name a)) hfound
    have hname : n.name b = n.name a := ofString_injective (beq_iff_eq.mp hsame)
    rw [List.inj_on_of_nodup_map n.distinct (n.complete b) (n.complete a) hname]

end Naming

def Kind.naming : Naming Kind := ⟨name, all, by decide +kernel, fun k => by cases k <;> decide⟩

def VariableKind.naming : Naming VariableKind :=
  ⟨keyword, [constant, blockScoped, functionScoped], by decide +kernel, fun k => by cases k <;> decide⟩

def ImportKind.naming : Naming ImportKind :=
  ⟨name, [named, byDefault, wholeModule], by decide +kernel, fun k => by cases k <;> decide⟩

def UnaryOp.naming : Naming UnaryOp :=
  ⟨symbol, [not, complement, plus, minus, typeOf, void, delete], by decide +kernel, fun op => by cases op <;> decide⟩

def UpdateOp.naming : Naming UpdateOp :=
  ⟨symbol, [increment, decrement], by decide +kernel, fun op => by cases op <;> decide⟩

def BinaryOp.naming : Naming BinaryOp where
  name := symbol
  all := [bitOr, bitXor, bitAnd, strictEq, strictNe, looseEq, looseNe, le, ge, lt, gt, instanceOf, isIn,
    shiftRightUnsigned, shiftLeft, shiftRight, add, sub, mul, div, rem, power]
  distinct := by decide +kernel
  complete op := by cases op <;> decide

def LogicalOp.naming : Naming LogicalOp :=
  ⟨symbol, [or, coalesce, and], by decide +kernel, fun op => by cases op <;> decide⟩

def AssignOp.naming : Naming AssignOp where
  name := symbol
  all := [set, power, shiftRightUnsigned, shiftLeft, shiftRight, coalesce, and, or, sub, add, mul, div, rem, bitAnd,
    bitOr, bitXor]
  distinct := by decide +kernel
  complete op := by cases op <;> decide

theorem Kind.ofName?_name (k : Kind) : Kind.ofName? k.name = some k := Kind.naming.named?_name k

/-! ## Literals -/

namespace Token

/-- What kind of literal is written so. -/
def classOf (raw : Text) : TokenClass :=
  if raw = Text.ofString "true" then .boolean true
  else if raw = Text.ofString "false" then .boolean false
  else if raw = Text.ofString "null" then .null
  else if raw.head?.any (fun (c : CodePoint) => c == '"' || c == '\'') then .string
  else .number

/-- What a literal that is written so stands for. -/
def ofRaw (raw : Text) : Except Fault Value := value (classOf raw) raw

end Token

/-! ## Reading a layer -/

namespace Sexp

/-- The contents of a field. -/
def contents? (name : String) : Sexp → Option Sexp
  | .list [.symbol n, contents] => if n = Text.ofString name then some contents else none
  | _ => none

def field? (name : String) (fields : List Sexp) : Option Sexp := fields.findSome? (contents? name)

def asNode (contents : Option Sexp) : Sexp := contents.getD (.list [])

def asNodes : Option Sexp → List Sexp
  | some (.list items) => items
  | _ => []

def asText : Option Sexp → Text
  | some (.string content) => content
  | _ => []

def asTexts (contents : Option Sexp) : List Text := (asNodes contents).map fun item => asText (some item)

def asFlag : Option Sexp → Bool
  | some (.symbol word) => word == Text.ofString "true"
  | _ => false

/-- What the contents name, or else some default. -/
def asNamed {α : Type} (naming : Naming α) (default : α) (contents : Option Sexp) : α :=
  (naming.named? (asText contents)).getD default

/-- The layer of the kind with the fields. -/
def ofFields (get : String → Option Sexp) : Kind → Form Value Sexp
  | .program => .program (asNodes (get "body"))
  | .blockStatement => .blockStatement (asNodes (get "body"))
  | .emptyStatement => .emptyStatement
  | .expressionStatement => .expressionStatement (asNode (get "expression"))
  | .variableDeclarator => .variableDeclarator (asNode (get "id")) (get "init")
  | .variableDeclaration =>
    .variableDeclaration
      (asNamed VariableKind.naming .constant (get "kind"))
      (asNodes (get "declarations"))
  | .functionDeclaration =>
    .functionDeclaration (asNode (get "id")) (asNodes (get "params")) (asNode (get "body"))
      (asFlag (get "is_async")) (asFlag (get "generator"))
  | .returnStatement => .returnStatement (get "argument")
  | .ifStatement => .ifStatement (asNode (get "test")) (asNode (get "consequent")) (get "alternate")
  | .whileStatement => .whileStatement (asNode (get "test")) (asNode (get "body"))
  | .doWhileStatement => .doWhileStatement (asNode (get "body")) (asNode (get "test"))
  | .forStatement => .forStatement (get "init") (get "test") (get "update") (asNode (get "body"))
  | .forOfStatement => .forOfStatement (asNode (get "left")) (asNode (get "right")) (asNode (get "body"))
  | .forInStatement => .forInStatement (asNode (get "left")) (asNode (get "right")) (asNode (get "body"))
  | .breakStatement => .breakStatement
  | .continueStatement => .continueStatement
  | .throwStatement => .throwStatement (asNode (get "argument"))
  | .catchClause => .catchClause (get "param") (asNode (get "body"))
  | .tryStatement => .tryStatement (asNode (get "block")) (get "handler") (get "finalizer")
  | .importSpecifier =>
    .importSpecifier (asText (get "imported")) (asText (get "local"))
      (asNamed ImportKind.naming .named (get "kind"))
  | .importDeclaration => .importDeclaration (asNodes (get "specifiers")) (asText (get "source"))
  | .exportDeclaration => .exportDeclaration (asNode (get "declaration")) (asFlag (get "default"))
  | .identifier => .identifier (asText (get "name"))
  | .literal => .literal ((Token.ofRaw (asText (get "raw"))).toOption.getD .null) (asText (get "raw"))
  | .thisExpression => .thisExpression
  | .templateLiteral => .templateLiteral (asTexts (get "quasis")) (asNodes (get "expressions"))
  | .arrayExpression => .arrayExpression (asNodes (get "elements"))
  | .property =>
    .property (asNode (get "key")) (asNode (get "value")) (asFlag (get "computed")) (asFlag (get "shorthand"))
      (asFlag (get "method"))
  | .objectExpression => .objectExpression (asNodes (get "properties"))
  | .spreadElement => .spreadElement (asNode (get "argument"))
  | .functionExpression =>
    .functionExpression (get "id") (asNodes (get "params")) (asNode (get "body")) (asFlag (get "is_async"))
      (asFlag (get "generator"))
  | .arrowFunctionExpression =>
    .arrowFunctionExpression (asNodes (get "params")) (asNode (get "body")) (asFlag (get "is_async"))
  | .unaryExpression =>
    .unaryExpression
      (asNamed UnaryOp.naming .not (get "operator"))
      (asNode (get "argument"))
  | .updateExpression =>
    .updateExpression (asNamed UpdateOp.naming .increment (get "operator")) (asNode (get "argument"))
      (asFlag (get "prefix"))
  | .binaryExpression =>
    .binaryExpression (asNode (get "left"))
      (asNamed BinaryOp.naming .bitOr (get "operator"))
      (asNode (get "right"))
  | .logicalExpression =>
    .logicalExpression (asNode (get "left")) (asNamed LogicalOp.naming .or (get "operator"))
      (asNode (get "right"))
  | .assignmentExpression =>
    .assignmentExpression (asNode (get "left"))
      (asNamed AssignOp.naming .set (get "operator"))
      (asNode (get "right"))
  | .conditionalExpression =>
    .conditionalExpression (asNode (get "test")) (asNode (get "consequent")) (asNode (get "alternate"))
  | .callExpression =>
    .callExpression (asNode (get "callee")) (asNodes (get "arguments")) (asFlag (get "optional"))
  | .newExpression => .newExpression (asNode (get "callee")) (asNodes (get "arguments"))
  | .memberExpression =>
    .memberExpression (asNode (get "object")) (asNode (get "property")) (asFlag (get "computed"))
      (asFlag (get "optional"))
  | .sequenceExpression => .sequenceExpression (asNodes (get "expressions"))
  | .awaitExpression => .awaitExpression (asNode (get "argument"))
  | .arrayPattern => .arrayPattern (asNodes (get "elements"))
  | .objectPattern => .objectPattern (asNodes (get "properties"))
  | .restElement => .restElement (asNode (get "argument"))
  | .assignmentPattern => .assignmentPattern (asNode (get "left")) (asNode (get "right"))

/-- The layer that is written as the expression. -/
def toForm : Sexp → Form Value Sexp
  | .list (.symbol name :: fields) => ofFields (fun name => field? name fields) ((Kind.ofName? name).getD .program)
  | _ => .emptyStatement

/-! ### Fields -/

theorem asNode_node (child : Sexp) : asNode ((ofSlot? (.node child)).map spelled) = child.spelled := rfl

theorem optional_map (child : Option Sexp) : (ofSlot? (.optional child)).map spelled = child.map spelled := rfl

theorem asText_text (content : Text) : asText ((ofSlot? (.text content)).map spelled) = content := rfl

theorem asNodes_nodes (children : List Sexp) :
    asNodes ((ofSlot? (.nodes children)).map spelled) = children.map spelled := by
  cases children with
  | nil => rfl
  | cons child children => exact congrArg asNodes (congrArg some (spelled_list _))

theorem asTexts_texts (contents : List Text) : asTexts ((ofSlot? (.texts contents)).map spelled) = contents := by
  have hstrings : asTexts (some (spelled (.list (contents.map .string)))) = contents := by
    rw [spelled_list, asTexts, asNodes, List.map_map, List.map_map]
    exact List.map_id'' (fun _ => rfl) contents
  cases contents with
  | nil => rfl
  | cons content contents => exact hstrings

theorem asFlag_flag (isSet : Bool) : asFlag ((ofSlot? (.flag isSet)).map spelled) = isSet := by
  cases isSet <;> rfl

theorem asNamed_text {α : Type} (naming : Naming α) (default a : α) :
    asNamed naming default ((ofSlot? (.text (naming.name a))).map spelled) = a := by
  rw [asNamed, asText_text, naming.named?_name, Option.getD_some]

/-- The fields that are written. -/
def fields (slots : List (String × Slot Value Sexp)) : List Sexp :=
  slots.filterMap fun (name, slot) => (ofSlot? slot).map fun contents => .list [.symbol name, contents]

theorem ofForm_eq (form : Form Value Sexp) : ofForm form = .list (.symbol form.kind.name :: fields form.slots) := rfl

theorem contents?_spelled (name n : String) (contents : Sexp) :
    contents? name (spelled (.list [.symbol n, contents])) = if n = name then some contents.spelled else none := by
  rw [spelled_list]
  simp only [List.map_cons, List.map_nil, spelled, contents?, ofString_injective.eq_iff]

theorem fields_cons (n : String) (slot : Slot Value Sexp) (slots : List (String × Slot Value Sexp)) :
    fields ((n, slot) :: slots) =
      ((ofSlot? slot).map fun contents => .list [.symbol n, contents]).toList ++ fields slots := by
  rw [fields, List.filterMap_cons]
  simp only
  cases h : ofSlot? slot <;> rfl

theorem field?_cons (name n : String) (slot : Slot Value Sexp) (slots : List (String × Slot Value Sexp)) :
    field? name ((fields ((n, slot) :: slots)).map spelled) =
      (if n = name then (ofSlot? slot).map spelled else none).or (field? name ((fields slots).map spelled)) := by
  rw [fields_cons, List.map_append, field?, List.findSome?_append]
  congr 1
  cases ofSlot? slot with
  | none => simp
  | some contents => simp only [Option.map_some, Option.toList_some, List.map_cons, List.map_nil,
      List.findSome?_singleton, contents?_spelled]

/-- A field holds what its slot does, if no other field has its name. -/
theorem field?_fields (name : String) {slots : List (String × Slot Value Sexp)} (h : (slots.map (·.1)).Nodup) :
    field? name ((fields slots).map spelled) = ((slots.lookup name).bind ofSlot?).map spelled := by
  induction slots with
  | nil => rfl
  | cons slot slots ih =>
    obtain ⟨n, slot⟩ := slot
    obtain ⟨hn, h⟩ := List.nodup_cons.mp h
    rw [field?_cons, ih h, List.lookup_cons]
    by_cases hname : n = name
    · subst hname
      have hrest : slots.lookup n = none := by
        refine List.lookup_eq_none_iff.mpr fun p hp => bne_iff_ne.mpr fun hp' => hn ?_
        exact List.mem_map.mpr ⟨p, hp, hp'.symm⟩
      simp [hrest]
    · have hne : (name == n) = false := beq_eq_false_iff_ne.mpr (Ne.symm hname)
      simp [hname, hne]

/-- **A layer is read back from its dump**, with its literal if it is one. -/
theorem toForm_spelled {form : Form Value Sexp}
    (h : ∀ value raw, form = .literal value raw → Token.ofRaw raw = .ok value) :
    (ofForm form).spelled.toForm = form.map spelled := by
  have hsymbol : (symbol form.kind.name).spelled = .symbol form.kind.name := rfl
  rw [ofForm_eq, spelled_list, List.map_cons, hsymbol, toForm]
  simp only [Kind.ofName?_name, Option.getD_some, field?_fields _ form.nodup_names]
  have hnamed {α : Type} (naming : Naming α) (default a : α) := asNamed_text naming default a
  have hvariable (k : VariableKind) : asNamed VariableKind.naming .constant
    ((ofSlot? (.text k.keyword)).map spelled) = k := hnamed _ _ k
  have himport (k : ImportKind) : asNamed ImportKind.naming .named
    ((ofSlot? (.text k.name)).map spelled) = k := hnamed _ _ k
  have hunary (op : UnaryOp) : asNamed UnaryOp.naming .not
    ((ofSlot? (.text op.symbol)).map spelled) = op := hnamed _ _ op
  have hupdate (op : UpdateOp) : asNamed UpdateOp.naming .increment
    ((ofSlot? (.text op.symbol)).map spelled) = op := hnamed _ _ op
  have hbinary (op : BinaryOp) : asNamed BinaryOp.naming .bitOr
    ((ofSlot? (.text op.symbol)).map spelled) = op := hnamed _ _ op
  have hlogical (op : LogicalOp) : asNamed LogicalOp.naming .or
    ((ofSlot? (.text op.symbol)).map spelled) = op := hnamed _ _ op
  have hassign (op : AssignOp) : asNamed AssignOp.naming .set
    ((ofSlot? (.text op.symbol)).map spelled) = op := hnamed _ _ op
  cases form with
  | literal value raw =>
    simp only [Form.kind, Form.slots, Form.map, ofFields, List.lookup_cons, String.reduceBEq, Option.bind_some,
      asText_text, h value raw rfl]
    rfl
  | _ =>
    simp only [Form.kind, Form.slots, Form.map, ofFields, List.lookup_cons, String.reduceBEq, Option.bind_some,
      asNode_node, optional_map, asText_text, asNodes_nodes, asTexts_texts, asFlag_flag, hvariable, himport, hunary,
      hupdate, hbinary, hlogical, hassign]

end Sexp

/-! ## Literals of a script -/

namespace Token

theorem classOf_of_head {c : CodePoint} {t : Text} (ht : c ≠ 't') (hf : c ≠ 'f') (hn : c ≠ 'n') :
    classOf (c :: t) = if c = '"' ∨ c = '\'' then .string else .number := by
  have hne {word : String} {d : CodePoint} {rest : Text} (hword : Text.ofString word = d :: rest) (hd : c ≠ d) :
      c :: t ≠ Text.ofString word := by
    rw [hword]
    exact fun heq => hd (List.cons.inj heq).1
  rw [classOf, if_neg (hne rfl ht), if_neg (hne rfl hf), if_neg (hne rfl hn)]
  simp

variable {source : Text} {span : Span}

theorem classOf_word {word : String} {c : TokenClass} (h : classOf (Text.ofString word) = c) {span : Span}
    (hstands : Stands source (.exact word CodePoint.continuesName) span) : classOf (source.slice span) = c := by
  rw [Text.slice, Lexeme.take_of_exact hstands, h]

/-- The class of a literal can be told from how it is written. -/
theorem classOf_of_written {c : TokenClass} {raw : Text}
    (h : (Form.literal c raw : Form TokenClass Sketch).Written source span) : classOf raw = c := by
  obtain ⟨⟨l, hl, hstands⟩, rfl⟩ := h
  cases c with
  | number =>
    obtain rfl := List.mem_singleton.mp hl
    rw [Text.slice]
    cases hrest : (source.drop span.start).take (span.stop - span.start) with
    | nil => rfl
    | cons d t =>
      have hd : d.isDigit = true ∨ d = '.' := by
        obtain ⟨rest, hsource⟩ : d :: t <+: source.drop span.start := hrest ▸ List.take_prefix _ _
        by_contra hnone
        rw [not_or, Bool.not_eq_true] at hnone
        rw [Stands, ← hsource, List.cons_append, Lexeme.length?, Lexeme.numberLength?_eq_none hnone.1 hnone.2] at hstands
        cases hstands
      have hne {e : CodePoint} (hdigit : e.isDigit = false) (hpoint : e ≠ '.') : d ≠ e := by
        rintro rfl
        rcases hd with hd | hd
        · rw [hd] at hdigit
          cases hdigit
        · exact hpoint hd
      rw [classOf_of_head (hne (by decide) (by decide)) (hne (by decide) (by decide))
        (hne (by decide) (by decide)), if_neg]
      exact not_or.mpr ⟨hne (by decide) (by decide), hne (by decide) (by decide)⟩
  | string =>
    obtain ⟨q, rfl⟩ := Quote.exists_of_mem_strings hl
    obtain ⟨rest, hrest, -, hpos⟩ := Quote.exists_of_length? hstands
    obtain ⟨n, hn⟩ := Nat.exists_eq_add_one_of_ne_zero (Nat.ne_of_gt hpos)
    rw [Text.slice, hrest, hn, List.take_succ_cons]
    cases q <;> exact classOf_of_head (by decide) (by decide) (by decide)
  | boolean truth =>
    obtain rfl := List.mem_singleton.mp hl
    cases truth with
    | true => exact classOf_word (if_pos rfl) hstands
    | false => exact classOf_word ((if_neg (by decide)).trans (if_pos rfl)) hstands
  | null =>
    obtain rfl := List.mem_singleton.mp hl
    exact classOf_word ((if_neg (by decide)).trans ((if_neg (by decide)).trans (if_pos rfl))) hstands

end Token

/-- If the node is a literal, its value is that of its text. -/
def Node.IsFaithful (n : Tree) : Prop := ∀ value raw, n.form = .literal value raw → Token.ofRaw raw = .ok value

section Transfer

open Sketch

variable {source : Text}

theorem isFaithful_of_read {n : Sketch} {t : Tree} (h : read n = .ok t) (hn : n.Fits source) : t.IsFaithful := by
  intro value raw hform
  have hread := (of_read h).1
  have hkind := kind_of_readForm hread
  have hwritten := hn.written
  cases hsketch : n.form with
  | literal c raw' =>
    rw [hsketch, hform] at hread
    simp only [readForm, Except.bind_eq_ok, Except.pure_eq_ok] at hread
    obtain ⟨value', hvalue, heq⟩ := hread
    cases heq
    rw [hsketch] at hwritten
    rw [Token.ofRaw, Token.classOf_of_written hwritten, hvalue]
  | _ =>
    rw [hsketch, hform] at hkind
    cases hkind

theorem all_isFaithful_of_read {n : Sketch} : ∀ {t : Tree}, read n = .ok t → n.All (Node.Fits source) →
    t.All Node.IsFaithful := by
  induction n using Node.induction with
  | step n ih =>
    intro t h hn
    refine Node.all_iff.mpr ⟨isFaithful_of_read h hn.self, fun c hc => ?_⟩
    obtain ⟨m, hm, hread⟩ := exists_of_mem_readList (readList_children (of_read h).1) hc
    exact ih m hm hread (hn.child hm)

/-- The literals of a script stand for what their texts say. -/
theorem all_isFaithful_of_parse {filename : Text} {p : Program} (h : parse source filename = .ok p) :
    p.root.All Node.IsFaithful := by
  obtain ⟨statements, next, ⟨n, hn⟩, -, hread, -, -⟩ := settles_of_parse h
  obtain ⟨ps, hfound⟩ := (layout_supports source n).found .program _ _ _ (Nat.zero_le _) hn
  obtain rfl : ps = statements.map .free := hfound.shape
  have hroot : p.root.IsFaithful := by
    intro value raw hform
    cases hform
  refine Node.all_iff.mpr ⟨hroot, fun c hc => ?_⟩
  rw [root_children] at hc
  obtain ⟨m, hm, hread⟩ := exists_of_mem_readList hread hc
  exact all_isFaithful_of_read hread (hfound.laid.good (List.mem_map_of_mem hm)).fits

end Transfer

/-! ## Trees -/

namespace Node

variable {ℓ : Type}

/-- The tree without its spans. -/
def unplaced (n : Node ℓ) : Node ℓ := n.fold fun form _ => ⟨form, ⟨0, 0⟩⟩

theorem unplaced_eq (n : Node ℓ) : n.unplaced = ⟨n.form.map unplaced, ⟨0, 0⟩⟩ := fold_eq _ n

theorem toSexp_eq (n : Tree) : n.toSexp = .ofForm (n.form.map toSexp) := fold_eq _ n

/-- The dump knows nothing of spans. -/
theorem toSexp_unplaced (n : Tree) : n.unplaced.toSexp = n.toSexp := by
  induction n using Node.induction with
  | step n ih =>
    rw [unplaced_eq, toSexp_eq, toSexp_eq, Form.map_map]
    exact congrArg Sexp.ofForm (Form.map_congr ih)

end Node

namespace Sexp

theorem isWord_ofList {l : List Char} (hne : l ≠ []) (h : (l.all fun c => (CodePoint.ofChar c).isWordPart) = true) :
    IsWord (Text.ofString (String.ofList l)) := by
  rw [Text.ofString, String.toList_ofList]
  refine ⟨fun hnil => hne (List.map_eq_nil_iff.mp hnil), fun c hc => ?_⟩
  obtain ⟨d, hd, rfl⟩ := List.mem_map.mp hc
  exact List.all_eq_true.mp h d hd

theorem isWord_kind (k : Kind) : IsWord k.name := by
  cases k <;> exact isWord_ofList (List.cons_ne_nil _ _) rfl

theorem isWord_field {ℓ α : Type} (form : Form ℓ α) : ∀ slot ∈ form.slots, IsWord slot.1 := by
  cases form <;> simp only [Form.slots] <;>
    repeat' first
    | exact List.forall_mem_nil _
    | refine List.forall_mem_cons.mpr ⟨?_, ?_⟩
    | exact isWord_ofList (List.cons_ne_nil _ _) rfl

theorem clean_ofFlag (isSet : Bool) : (ofFlag isSet).Clean := by
  cases isSet <;> exact .symbol (isWord_ofList (List.cons_ne_nil _ _) rfl)

theorem clean_ofSlot? {slot : Slot Value Sexp} (h : ∀ s ∈ slot.children, s.Clean) :
    ∀ contents ∈ ofSlot? slot, contents.Clean := by
  intro contents hcontents
  cases slot with
  | node child =>
    cases hcontents
    exact h _ (List.mem_singleton_self _)
  | optional child => exact h contents (Option.mem_toList.mpr hcontents)
  | nodes children =>
    cases children with
    | nil => cases hcontents
    | cons child children =>
      cases hcontents
      exact .list h
  | text content =>
    cases hcontents
    exact .string content
  | texts texts =>
    cases texts with
    | nil => cases hcontents
    | cons t texts =>
      cases hcontents
      refine .list fun s hs => ?_
      obtain ⟨t, -, rfl⟩ := List.mem_map.mp hs
      exact .string t
  | flag isSet =>
    cases hcontents
    exact clean_ofFlag isSet
  | value value =>
    cases value with
    | null => cases hcontents
    | boolean truth =>
      cases hcontents
      exact clean_ofFlag truth
    | number amount =>
      cases hcontents
      exact .number amount
    | text content =>
      cases hcontents
      exact .string content

theorem clean_ofForm {form : Form Value Sexp} (h : ∀ s ∈ form.children, s.Clean) : (ofForm form).Clean := by
  refine .list (List.forall_mem_cons.mpr ⟨.symbol (isWord_kind _), fun field hfield => ?_⟩)
  obtain ⟨⟨name, slot⟩, hslot, hfield⟩ := List.mem_filterMap.mp hfield
  obtain ⟨contents, hcontents, rfl⟩ := Option.map_eq_some_iff.mp hfield
  have hclean := clean_ofSlot? (fun s hs => h s (List.mem_flatMap.mpr ⟨_, hslot, hs⟩)) contents hcontents
  refine .list (List.forall_mem_cons.mpr ⟨.symbol (isWord_field form _ hslot), ?_⟩)
  rw [List.forall_mem_singleton]
  exact hclean

theorem clean_toSexp (n : Tree) : n.toSexp.Clean := by
  induction n using Node.induction with
  | step n ih =>
    rw [Node.toSexp_eq]
    refine clean_ofForm fun s hs => ?_
    rw [Form.children_map] at hs
    obtain ⟨c, hc, rfl⟩ := List.mem_map.mp hs
    exact ih c hc

/-- The tree that is written as the expression, without spans and down to some depth. -/
def toTree : (depth : Nat) → Sexp → Tree
  | 0, _ => ⟨.emptyStatement, ⟨0, 0⟩⟩
  | depth + 1, s => ⟨s.toForm.map (toTree depth), ⟨0, 0⟩⟩

/-- A tree without its spans is read back from its dump. -/
theorem toTree_spelled {n : Tree} (hn : n.All Node.IsFaithful) :
    ∀ {depth : Nat}, sizeOf n ≤ depth → toTree depth n.toSexp.spelled = n.unplaced := by
  induction n using Node.induction with
  | step n ih =>
    intro depth hdepth
    cases depth with
    | zero =>
      obtain ⟨form, span⟩ := n
      simp at hdepth
    | succ depth =>
      have hform : n.toSexp.spelled.toForm = n.form.map (spelled ∘ Node.toSexp) := by
        rw [Node.toSexp_eq, toForm_spelled fun value raw hform => hn.self value raw ?_, Form.map_map]
        exact Form.eq_literal_of_map hform
      rw [toTree, Node.unplaced_eq, hform, Form.map_map]
      refine congrArg (Node.mk · _) (Form.map_congr fun c hc => ?_)
      have hsize := Node.sizeOf_lt_of_mem_children (n := n) hc
      exact ih c hc (hn.child hc) (by omega)

end Sexp

/-- **The dump of a script loses its spans and nothing else.** Two scripts whose trees can both be written have the same
dump exactly if their trees differ in nothing but their spans. -/
theorem text_toSexp_eq_iff {source source' filename filename' t t' : Text} {p p' : Program}
    (hp : parse source filename = .ok p) (hp' : parse source' filename' = .ok p')
    (ht : p.root.toSexp.text = .ok t) (ht' : p'.root.toSexp.text = .ok t') :
    t = t' ↔ p.root.unplaced = p'.root.unplaced := by
  constructor
  · rintro rfl
    have hspelled := Sexp.spelled_eq_of_text (Sexp.clean_toSexp _) (Sexp.clean_toSexp _) ht ht'
    have hread := Sexp.toTree_spelled (all_isFaithful_of_parse hp) (Nat.le_add_right _ (sizeOf p'.root))
    have hread' := Sexp.toTree_spelled (all_isFaithful_of_parse hp') (Nat.le_add_left _ (sizeOf p.root))
    rw [← hread, hspelled, hread']
  · intro h
    have hsexp : p.root.toSexp = p'.root.toSexp := by
      rw [← Node.toSexp_unplaced p.root, h, Node.toSexp_unplaced]
    rw [hsexp, ht'] at ht
    exact (Except.ok.inj ht).symm

/-- A string in quotes of either kind. -/
def Program.quoted (q : Quote) : Program :=
  ⟨[.sole (q.write "a") (.literal (.text "a") (q.write "a"))], q.write "a", "quoted.js"⟩

theorem parse_quoted (q : Quote) : parse (q.write "a") "quoted.js" = .ok (.quoted q) := q.parse_write "a" "quoted.js"

/-- The kind of quotes is not lost. -/
theorem text_toSexp_eq_iff_quoted : ∃ t t', (Program.quoted .double).root.toSexp.text = .ok t ∧
    (Program.quoted .single).root.toSexp.text = .ok t' ∧ t ≠ t' := by
  have ht : (Program.quoted .double).root.toSexp.text = .ok _ := rfl
  have ht' : (Program.quoted .single).root.toSexp.text = .ok _ := rfl
  refine ⟨_, _, ht, ht', fun heq => ?_⟩
  have htrees := (text_toSexp_eq_iff (parse_quoted .double) (parse_quoted .single) ht ht').mp heq
  cases htrees

end ScriptAudit
