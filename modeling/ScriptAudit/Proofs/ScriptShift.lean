/-
Scripts further on in the source. The grammar is gone through rule by rule once more: from values that have been
moved a rule builds what it builds from the values themselves, moved by as much. So where the same text stands at
two places, the rules yield there the same values but for the distance between the places (`shifts_of_rule`).
-/
import ScriptAudit.Proofs.TreeShift

namespace ScriptAudit

variable {k : Nat} {α β γ : Type}

/-! ## What the rules yield -/

def Located.shift (k : Nat) (l : Located) : Located := ⟨l.text, l.span.shift k⟩

def Link.shift (k : Nat) : Link → Link
  | .call arguments => .call (arguments.map (Node.shift k))
  | .member name => .member (name.shift k)
  | .index expression => .index (expression.shift k)

def Tail.shift (k : Nat) (tail : Tail) : Tail := ⟨tail.link.shift k, tail.optional, k + tail.stop⟩

def Key.shift (k : Nat) (key : Key) : Key := ⟨key.node.shift k, key.computed⟩

def Piece.shift (k : Nat) : Piece → Piece
  | .chunk text => .chunk text
  | .substitution expression => .substitution (expression.shift k)

/-- What a rule yields, `k` code points further on. -/
def Yield.shift (k : Nat) (r : Rule) : Yield r → Yield r :=
  Yield.elim (motive := fun α => α → α) (List.map (Node.shift k)) (Node.shift k) (Located.shift k) (Tail.shift k)
    (Link.shift k) (Key.shift k) (Piece.shift k) (fun _ => id) r

/-! ## Expressions -/

/-- The second value is made of the first. -/
def Image (f : α → β) (a : α) (b : β) : Prop := b = f a

/-- Further on, the expression yields related values. -/
abbrev Shifts (k : Nat) (p : Peg Yield α) (R : α → α → Prop) : Prop :=
  p.Related k (fun r => Image (Yield.shift k r)) R p

namespace Peg.Related

open ScriptGrammar

variable {p : Pattern α} {q : Pattern β} {R : α → α → Prop} {S : β → β → Prop} {f : α → α} {g : β → β}

theorem map {h : α → β} (hp : Shifts k p (Image f)) (hh : ∀ a, S (h a) (h (f a))) : Shifts k (h <$> p) S := by
  refine .build ?_ hp
  rintro _ a _ rfl
  exact hh a

theorem ap {p : Pattern (α → β)} {q : Pattern α} (hp : Shifts k p fun h h' => ∀ a, S (h a) (h' (f a)))
    (hq : Shifts k q (Image f)) : Shifts k (p <*> q) S := by
  refine .seq ?_ hp hq
  rintro h h' a _ hh rfl
  exact hh a

theorem ref {r : Rule} : Shifts k (ref r) (Image (Yield.shift k r)) := .rule r

theorem left (hp : Shifts k p R) : Shifts k (p <* q) R := .seq (fun _ _ _ _ ha _ => ha) hp (.any q)

theorem right (hq : Shifts k q S) : Shifts k (p *> q) S := .seq (fun _ _ _ _ _ hb => hb) (.any p) hq

theorem or {p q : Pattern α} (hp : Shifts k p R) (hq : Shifts k q R) : Shifts k (p <|> q) R := .either hp hq

theorem constant {b : β} (hb : S b b) : Shifts k ((fun _ => b) <$> p) S := .build (fun _ _ _ _ => hb) (.any p)

theorem text {l : Lexeme} : Shifts k (.lexeme l) (Image id) := .weaken (fun _ _ h => h.symm) (.lexeme l)

theorem optional (hp : Shifts k p (Image f)) : Shifts k (.option p) (Image (Option.map f)) := by
  refine .weaken (fun a a' h => ?_) (.option hp)
  cases h with
  | none => rfl
  | some h => exact congrArg some h

theorem repeated (hp : Shifts k p (Image f)) : Shifts k (.many p) (Image (List.map f)) := by
  refine .weaken (fun as as' h => ?_) (.many hp)
  induction h with
  | nil => rfl
  | cons h _ ih => exact congrArg₂ List.cons h ih

theorem present : Shifts k (present p) (Image id) := by
  refine .build (fun _ a a' h => ?_) (.option (.any p))
  cases h with
  | none => rfl
  | some _ => rfl

theorem pair (hp : Shifts k p (Image f)) (hq : Shifts k q (Image g)) :
    Shifts k (Prod.mk <$> p <*> q) (Image (Prod.map f g)) :=
  .ap (.map hp fun _ _ => rfl) hq

theorem located {p : Pattern Text} (hp : Shifts k p (Image id)) : Shifts k (located p) (Image (Located.shift k)) := by
  refine .build ?_ hp
  rintro span text _ rfl
  rfl

theorem node {p : Pattern (Form TokenClass Sketch)} (hp : Shifts k p (Image (Form.map (Node.shift k)))) :
    Shifts k (node p) (Image (Node.shift k)) := by
  refine .build ?_ hp
  rintro span form _ rfl
  exact (Node.shift_mk form span).symm

theorem spanned {p : Pattern (Span → α)} (hp : Shifts k p fun h h' => ∀ span, R (h span) (h' (span.shift k))) :
    Shifts k (spanned p) R :=
  .build (fun span _ _ h => h span) hp

theorem bracketed {opening closing : String} {item : Pattern α} (h : Shifts k item (Image f)) :
    Shifts k (bracketed opening closing item) (Image (List.map f)) :=
  have items : Shifts k ((fun first rest => first :: rest) <$> (item <* gap)
      <*> .many (mark "," *> gap *> item <* gap)) (Image (List.map f)) :=
    .ap (.map (.left h) fun _ _ => rfl) (.repeated (.left (.right h)))
  .left (.right (.map (.optional (.left items)) fun items => by cases items <;> rfl))

theorem chain {op : Type} {join : Sketch → op → Sketch → Sketch} {operand : Pattern Sketch} {operator : Pattern op}
    (hjoin : ∀ left o right, join (Node.shift k left) o (Node.shift k right) = (join left o right).shift k)
    (hoperand : Shifts k operand (Image (Node.shift k))) (hoperator : Shifts k operator (Image id)) :
    Shifts k (chain join operand operator) (Image (Node.shift k)) :=
  .ap (.map hoperand fun first rest => by
    rw [Image, List.foldl_map]
    exact List.foldl_hom (Node.shift k) fun left step => hjoin left step.1 step.2)
    (.repeated (.pair (.left (.right hoperator)) hoperand))

end Peg.Related

/-! ## What is built -/

namespace Located

theorem identifier_shift (l : Located) : (l.shift k).identifier = l.identifier.shift k := Node.eq_shift rfl rfl

theorem string_shift (l : Located) : (l.shift k).string = l.string.shift k := Node.eq_shift rfl rfl

theorem number_shift (l : Located) : (l.shift k).number = l.number.shift k := Node.eq_shift rfl rfl

theorem defaultImport_shift (l : Located) : (l.shift k).defaultImport = l.defaultImport.shift k :=
  Node.eq_shift rfl rfl

theorem shorthand_shift (l : Located) : (l.shift k).shorthand = l.shorthand.shift k := by
  rw [shorthand, shorthand, Node.shift_mk, Form.map, identifier_shift]
  rfl

end Located

namespace Sketch

theorem extend_shift (e : Sketch) (tail : Tail) : extend (e.shift k) (tail.shift k) = (extend e tail).shift k := by
  obtain ⟨link, optional, stop⟩ := tail
  rw [extend, extend, Node.shift_mk, Node.span_shift]
  cases link with
  | call arguments => rfl
  | member name => simp only [Tail.shift, Link.shift, Located.identifier_shift, Form.map]; rfl
  | index expression => rfl

theorem extendAll_shift (e : Sketch) (tails : List Tail) :
    extendAll (e.shift k) (tails.map (Tail.shift k)) = (extendAll e tails).shift k := by
  rw [extendAll, List.foldl_map]
  exact List.foldl_hom (Node.shift k) extend_shift

theorem logical_shift (left : Sketch) (operator : LogicalOp) (right : Sketch) :
    logical (left.shift k) operator (right.shift k) = (logical left operator right).shift k := by
  rw [logical, logical, Node.shift_mk, Node.span_shift, Node.span_shift]
  rfl

theorem binary_shift (left : Sketch) (operator : BinaryOp) (right : Sketch) :
    binary (left.shift k) operator (right.shift k) = (binary left operator right).shift k := by
  rw [binary, binary, Node.shift_mk, Node.span_shift, Node.span_shift]
  rfl

theorem headDeclaration_shift (span : Span) (kind : VariableKind) (binding : Sketch) :
    headDeclaration (span.shift k) kind (binding.shift k) = (headDeclaration span kind binding).shift k := by
  simp only [headDeclaration, Node.shift_mk, Form.map, Node.span_shift, List.map_cons, List.map_nil, Option.map_none]

theorem method_shift (span : Span) (isAsync generator : Bool) (key : Key) (params : List Sketch) (body : Sketch) :
    method (span.shift k) isAsync generator (key.shift k) (params.map (Node.shift k)) (body.shift k) =
      (method span isAsync generator key params body).shift k := by
  simp only [method, Node.shift_mk, Form.map, Key.shift, Option.map_none]

theorem keyed_shift (span : Span) (key : Key) (value : Sketch) :
    keyed (span.shift k) (key.shift k) (value.shift k) = (keyed span key value).shift k := by
  simp only [keyed, Node.shift_mk, Form.map, Key.shift]

theorem defaulted_shift (span : Span) (name : Located) (value : Sketch) :
    defaulted (span.shift k) (name.shift k) (value.shift k) = (defaulted span name value).shift k := by
  simp only [defaulted, Node.shift_mk, Form.map, Located.identifier_shift]

theorem sequence_shift (span : Span) (first : Sketch) (rest : List Sketch) :
    sequence (span.shift k) (first.shift k) (rest.map (Node.shift k)) = (sequence span first rest).shift k := by
  cases rest with
  | nil => rfl
  | cons second rest => exact Node.eq_shift rfl rfl

theorem conditional_shift (span : Span) (test : Sketch) (branches : Option (Sketch × Sketch)) :
    conditional (span.shift k) (test.shift k) (branches.map (Prod.map (Node.shift k) (Node.shift k))) =
      (conditional span test branches).shift k := by
  cases branches with
  | none => rfl
  | some branches => exact Node.eq_shift rfl rfl

theorem power_shift (span : Span) (base : Sketch) (exponent : Option (BinaryOp × Sketch)) :
    power (span.shift k) (base.shift k) (exponent.map (Prod.map id (Node.shift k))) =
      (power span base exponent).shift k := by
  cases exponent with
  | none => rfl
  | some exponent => exact Node.eq_shift rfl rfl

theorem postfixUpdate_shift (span : Span) (operand : Sketch) (operator : Option UpdateOp) :
    postfixUpdate (span.shift k) (operand.shift k) (operator.map id) =
      (postfixUpdate span operand operator).shift k := by
  cases operator with
  | none => rfl
  | some operator => exact Node.eq_shift rfl rfl

theorem templateParts_shift (pieces : List Piece) : templateParts (pieces.map (Piece.shift k)) =
    ((templateParts pieces).1, (templateParts pieces).2.map (Prod.map (Node.shift k) id)) := by
  induction pieces with
  | nil => rfl
  | cons piece pieces ih =>
    cases piece with
    | chunk text => simp only [List.map_cons, Piece.shift, templateParts, ih]
    | substitution expression => simp only [List.map_cons, Piece.shift, templateParts, ih, Prod.map, id]

theorem template_shift (pieces : List Piece) :
    template (pieces.map (Piece.shift k)) = (template pieces).map (Node.shift k) := by
  simp only [template, templateParts_shift, List.map_map, Form.map]
  rfl

end Sketch

open ScriptGrammar

/-! ## Statements -/

theorem condition_shifts : Shifts k condition (Image (Node.shift k)) := .left (.left (.left (.right .ref)))

theorem statement_shifts : Shifts k statement (Image (Node.shift k)) := by
  repeat' apply Peg.Related.or
  all_goals exact .ref

theorem program_shifts : Shifts k program (Image (List.map (Node.shift k))) := .right (.repeated .ref)

theorem block_shifts : Shifts k block (Image (Node.shift k)) :=
  .node (.map (.left (.left (.right (.repeated .ref)))) fun _ => rfl)

theorem emptyStmt_shifts : Shifts k emptyStmt (Image (Node.shift k)) := .node (.constant rfl)

theorem semi_shifts : Shifts k semi (Image id) := .constant rfl

theorem ifStmt_shifts : Shifts k ifStmt (Image (Node.shift k)) :=
  .node (.ap (.ap (.map (.right condition_shifts) fun _ _ _ => rfl) .ref) (.optional (.right .ref)))

theorem whileStmt_shifts : Shifts k whileStmt (Image (Node.shift k)) :=
  .node (.ap (.map (.right condition_shifts) fun _ _ => rfl) .ref)

theorem doWhileStmt_shifts : Shifts k doWhileStmt (Image (Node.shift k)) :=
  .node (.ap (.map (.right .ref) fun _ _ => rfl) (.left (.right condition_shifts)))

theorem forStmt_shifts : Shifts k forStmt (Image (Node.shift k)) :=
  .node (.ap (.ap (.ap (.map (.left (.left (.left (.right (.optional .ref))))) fun _ _ _ _ => rfl)
    (.left (.left (.left (.optional .ref))))) (.left (.left (.left (.optional .ref))))) .ref)

theorem forInit_shifts : Shifts k forInit (Image (Node.shift k)) := .or .ref .ref

theorem forInOfStmt_shifts : Shifts k forInOfStmt (Image (Node.shift k)) :=
  have overValues : Shifts k ((fun _ => true) <$> ref .ofWord <|> (fun _ => false) <$> ref .inWord) (Image id) :=
    .or (.constant rfl) (.constant rfl)
  .node (.ap (.ap (.ap (.map (.left (.right .ref)) fun _ overValues _ _ => by cases overValues <;> rfl) overValues)
    (.left (.left (.left (.right .ref))))) .ref)

theorem forLeft_shifts : Shifts k forLeft (Image (Node.shift k)) := .or .ref .ref

theorem varHead_shifts : Shifts k varHead (Image (Node.shift k)) :=
  .spanned (.ap (.map (.left .ref) fun kind binding span => Sketch.headDeclaration_shift span kind binding) .ref)

theorem tryStmt_shifts : Shifts k tryStmt (Image (Node.shift k)) :=
  .node (.ap (.ap (.map (.right .ref) fun _ _ _ => rfl) (.optional .ref)) (.optional .ref))

theorem catchClause_shifts : Shifts k catchClause (Image (Node.shift k)) :=
  .node (.ap (.map (.right (.optional (.left (.left (.left (.right .ref)))))) fun _ _ => rfl) .ref)

theorem finallyClause_shifts : Shifts k finallyClause (Image (Node.shift k)) := .right .ref

theorem returnStmt_shifts : Shifts k returnStmt (Image (Node.shift k)) :=
  .node (.map (.left (.left (.right (.optional (.right .ref))))) fun _ => rfl)

theorem breakStmt_shifts : Shifts k breakStmt (Image (Node.shift k)) := .node (.constant rfl)

theorem continueStmt_shifts : Shifts k continueStmt (Image (Node.shift k)) := .node (.constant rfl)

theorem throwStmt_shifts : Shifts k throwStmt (Image (Node.shift k)) :=
  .node (.map (.left (.left (.right .ref))) fun _ => rfl)

theorem exprStmt_shifts : Shifts k exprStmt (Image (Node.shift k)) :=
  .node (.map (.left (.left .ref)) fun _ => rfl)

/-! ## Modules -/

theorem importDecl_shifts : Shifts k importDecl (Image (Node.shift k)) := .or .ref .ref

theorem importFrom_shifts : Shifts k importFrom (Image (Node.shift k)) :=
  .node (.ap (f := Located.shift k) (.map (.left (.right .ref)) fun _ _ => rfl) (.left (.left (.right .ref))))

theorem importBare_shifts : Shifts k importBare (Image (Node.shift k)) :=
  .node (.map (.left (.left (.right .ref))) fun _ => rfl)

theorem importNamed_shifts : Shifts k importNamed (Image (List.map (Node.shift k))) := .bracketed .ref

theorem importSpec_shifts : Shifts k importSpec (Image (Node.shift k)) :=
  .node (.ap (.map .ref fun _ bound => by cases bound <;> rfl) (.optional (.right .ref)))

theorem importNamespace_shifts : Shifts k importNamespace (Image (Node.shift k)) :=
  .node (.map (.right .ref) fun _ => rfl)

theorem importDefaultNamed_shifts : Shifts k importDefaultNamed (Image (List.map (Node.shift k))) :=
  .ap (.map (.left (.left (.left .ref))) fun name _ => congrArg (· :: _) (Located.defaultImport_shift name))
    (.or .ref (.map .ref fun _ => rfl))

theorem importClause_shifts : Shifts k importClause (Image (List.map (Node.shift k))) :=
  .or .ref (.or (.map .ref fun _ => rfl) (.or .ref
    (.map .ref fun name => congrArg (fun specifier => [specifier]) (Located.defaultImport_shift name))))

theorem exportDecl_shifts : Shifts k exportDecl (Image (Node.shift k)) :=
  .node (.ap (.map (.right .present) fun _ _ => rfl) (.or .ref (.or .ref .ref)))

/-! ## Declarations -/

theorem functionDecl_shifts : Shifts k functionDecl (Image (Node.shift k)) :=
  .node (.ap (.ap (.ap (.ap (.map .present fun _ _ name _ _ => by
      exact congrArg (Form.functionDeclaration · _ _ _ _) (Located.identifier_shift name))
    (.right .present)) (.left .ref)) (.left .ref)) .ref)

theorem params_shifts : Shifts k params (Image (List.map (Node.shift k))) := .bracketed .ref

theorem param_shifts : Shifts k param (Image (Node.shift k)) := .or .ref (.or .ref .ref)

theorem paramDefault_shifts : Shifts k paramDefault (Image (Node.shift k)) :=
  .node (.ap (.map (.left (.left (.left .ref))) fun _ _ => rfl) .ref)

theorem restElement_shifts : Shifts k restElement (Image (Node.shift k)) := .node (.map (.right .ref) fun _ => rfl)

theorem binding_shifts : Shifts k binding (Image (Node.shift k)) :=
  .or (.map .ref Located.identifier_shift) (.or .ref .ref)

theorem arrayPattern_shifts : Shifts k arrayPattern (Image (Node.shift k)) :=
  .node (.map (.bracketed .ref) fun _ => rfl)

theorem objectPattern_shifts : Shifts k objectPattern (Image (Node.shift k)) :=
  .node (.map (.bracketed .ref) fun _ => rfl)

theorem patternProp_shifts : Shifts k patternProp (Image (Node.shift k)) :=
  .or .ref (.or .ref (.or .ref (.map .ref Located.shorthand_shift)))

theorem patternKeyed_shifts : Shifts k patternKeyed (Image (Node.shift k)) :=
  .node (.ap (.map (.left (.left (.left .ref))) fun key _ =>
    congrArg (Form.property · _ _ _ _) (Located.identifier_shift key)) .ref)

theorem patternDefault_shifts : Shifts k patternDefault (Image (Node.shift k)) :=
  .spanned (.ap (.map (.left (.left (.left .ref))) fun name value span => Sketch.defaulted_shift span name value) .ref)

theorem varStatement_shifts : Shifts k varStatement (Image (Node.shift k)) := .left (.left .ref)

theorem varDecl_shifts : Shifts k varDecl (Image (Node.shift k)) :=
  .node (.ap (.ap (.map (.left .ref) fun _ _ _ => rfl) .ref) (.repeated (.right .ref)))

theorem declarator_shifts : Shifts k declarator (Image (Node.shift k)) :=
  .node (.ap (.map .ref fun _ _ => rfl) (.optional (.right .ref)))

/-! ## Expressions -/

theorem expr_shifts : Shifts k expr (Image (Node.shift k)) :=
  .spanned (.ap (.map .ref fun first rest span => Sketch.sequence_shift span first rest) (.repeated (.right .ref)))

theorem assignExpr_shifts : Shifts k assignExpr (Image (Node.shift k)) := .or .ref (.or .ref .ref)

theorem assignment_shifts : Shifts k assignment (Image (Node.shift k)) :=
  .node (.ap (.ap (.map (.left .ref) fun _ _ _ => rfl) (.left .ref)) .ref)

theorem arrowFunction_shifts : Shifts k arrowFunction (Image (Node.shift k)) :=
  .node (.ap (.ap (.map .present fun _ _ _ => rfl) (.left (.left (.left .ref)))) (.or .ref .ref))

theorem arrowParams_shifts : Shifts k arrowParams (Image (List.map (Node.shift k))) :=
  .or .ref (.map .ref fun name => congrArg (fun param => [param]) (Located.identifier_shift name))

theorem conditional_shifts : Shifts k conditional (Image (Node.shift k)) :=
  .spanned (.ap (.map .ref fun test branches span => Sketch.conditional_shift span test branches)
    (.optional (.pair (.right .ref) (.right .ref))))

theorem exponent_shifts : Shifts k exponent (Image (Node.shift k)) :=
  .spanned (.ap (.map .ref fun base exponent span => Sketch.power_shift span base exponent)
    (.optional (.pair (.left (.right .ref)) .ref)))

theorem unary_shifts : Shifts k unary (Image (Node.shift k)) := .or .ref (.or .ref (.or .ref .ref))

theorem awaitExpr_shifts : Shifts k awaitExpr (Image (Node.shift k)) := .node (.map (.right .ref) fun _ => rfl)

theorem prefixUpdate_shifts : Shifts k prefixUpdate (Image (Node.shift k)) :=
  .node (.ap (.map (.left .ref) fun _ _ => rfl) .ref)

theorem prefixUnary_shifts : Shifts k prefixUnary (Image (Node.shift k)) :=
  .node (.ap (.map (.left .ref) fun _ _ => rfl) .ref)

theorem postfixExpr_shifts : Shifts k postfixExpr (Image (Node.shift k)) :=
  .spanned (.ap (.map .ref fun operand operator span => Sketch.postfixUpdate_shift span operand operator)
    (.optional (.right .ref)))

/-! ## Calls and members -/

theorem callMember_shifts : Shifts k callMember (Image (Node.shift k)) :=
  .ap (.map (.or .ref .ref) Sketch.extendAll_shift) (.repeated .ref)

theorem callTail_shifts : Shifts k callTail (Image (Tail.shift k)) :=
  .spanned (.map (f := Prod.map (Link.shift k) id) (.right (.or (.map .ref fun _ => rfl) (.or (.map .ref fun _ => rfl)
    (.or (.map .ref fun _ => rfl) (.map .ref fun _ => rfl))))) fun _ _ => rfl)

theorem arguments_shifts : Shifts k arguments (Image (List.map (Node.shift k))) := .bracketed .ref

theorem argument_shifts : Shifts k argument (Image (Node.shift k)) := .or .ref .ref

theorem spreadElement_shifts : Shifts k spreadElement (Image (Node.shift k)) :=
  .node (.map (.right .ref) fun _ => rfl)

theorem memberDot_shifts : Shifts k memberDot (Image (Located.shift k)) := .right .ref

theorem memberIndex_shifts : Shifts k memberIndex (Image (Node.shift k)) := .left (.left (.right .ref))

theorem optionalChain_shifts : Shifts k optionalChain (Image (Link.shift k)) :=
  .right (.or (.map .ref fun _ => rfl) (.or (.map .ref fun _ => rfl) (.map .ref fun _ => rfl)))

theorem newExpr_shifts : Shifts k newExpr (Image (Node.shift k)) :=
  .node (.ap (.map (.right .ref) fun _ arguments => by cases arguments <;> rfl) (.optional (.right .ref)))

theorem newCallee_shifts : Shifts k newCallee (Image (Node.shift k)) :=
  .ap (.map (.or .ref .ref) Sketch.extendAll_shift)
    (.repeated (.spanned (.map (f := Link.shift k) (.right (.or (.map .ref fun _ => rfl) (.map .ref fun _ => rfl)))
      fun _ _ => rfl)))

/-! ## Primary expressions -/

theorem primary_shifts : Shifts k primary (Image (Node.shift k)) :=
  .or .ref (.or .ref (.or .ref (.or .ref (.or .ref (.or .ref (.or .ref (.map .ref Located.identifier_shift)))))))

theorem parenExpr_shifts : Shifts k parenExpr (Image (Node.shift k)) := .left (.left (.right .ref))

theorem thisExpr_shifts : Shifts k thisExpr (Image (Node.shift k)) := .node (.constant rfl)

theorem functionExpr_shifts : Shifts k functionExpr (Image (Node.shift k)) :=
  .node (.ap (.ap (.ap (.ap (.map .present fun _ _ name params body => by
      cases name with
      | none => rfl
      | some name => exact congrArg (fun id => Form.functionExpression (some id) _ _ _ _) (Located.identifier_shift name))
    (.right .present)) (.left (.optional .ref))) (.left .ref)) .ref)

theorem arrayLiteral_shifts : Shifts k arrayLiteral (Image (Node.shift k)) :=
  .node (.map (.bracketed .ref) fun _ => rfl)

theorem objectLiteral_shifts : Shifts k objectLiteral (Image (Node.shift k)) :=
  .node (.map (.bracketed .ref) fun _ => rfl)

theorem objectMember_shifts : Shifts k objectMember (Image (Node.shift k)) :=
  .or .ref (.or .ref (.or .ref (.map .ref Located.shorthand_shift)))

theorem methodMember_shifts : Shifts k methodMember (Image (Node.shift k)) :=
  .spanned (.ap (.ap (.ap (.ap (.map .present fun isAsync generator key params body span =>
      Sketch.method_shift span isAsync generator key params body)
    .present) (.left .ref)) (.left .ref)) .ref)

theorem keyedMember_shifts : Shifts k keyedMember (Image (Node.shift k)) :=
  .spanned (.ap (.map (.left (.left (.left .ref))) fun key value span => Sketch.keyed_shift span key value) .ref)

theorem propKey_shifts : Shifts k propKey (Image (Key.shift k)) :=
  .or (.map .ref fun _ => rfl)
    (.or (.map .ref fun name => congrArg (Key.mk · false) (Located.identifier_shift name))
      (.or (.map .ref fun text => congrArg (Key.mk · false) (Located.string_shift text))
        (.map .ref fun number => congrArg (Key.mk · false) (Located.number_shift number))))

theorem computedKey_shifts : Shifts k computedKey (Image (Node.shift k)) := .left (.left (.right .ref))

theorem template_shifts : Shifts k template (Image (Node.shift k)) :=
  .node (.map (.left (.right (.repeated .ref))) Sketch.template_shift)

theorem templatePart_shifts : Shifts k templatePart (Image (Piece.shift k)) :=
  .or (.map .ref fun _ => rfl) (.map .ref fun _ => rfl)

theorem templateSubst_shifts : Shifts k templateSubst (Image (Node.shift k)) := .left (.left (.right .ref))

/-! ## Operators, literals and names -/

theorem operator_shifts {op : α} {symbol barred : String} : Shifts k (operator op symbol barred) (Image id) :=
  .constant rfl

theorem wordOperator_shifts {op : α} {symbol : String} : Shifts k (wordOperator op symbol) (Image id) :=
  .constant rfl

theorem assignOp_shifts : Shifts k assignOp (Image id) := by
  repeat' apply Peg.Related.or
  all_goals exact operator_shifts

theorem equalityOp_shifts : Shifts k equalityOp (Image id) := by
  repeat' apply Peg.Related.or
  all_goals exact operator_shifts

theorem relationalOp_shifts : Shifts k relationalOp (Image id) := by
  repeat' apply Peg.Related.or
  all_goals first | exact operator_shifts | exact wordOperator_shifts

theorem unaryOp_shifts : Shifts k unaryOp (Image id) := by
  repeat' apply Peg.Related.or
  all_goals first | exact operator_shifts | exact wordOperator_shifts

theorem literal_shifts : Shifts k literal (Image (Node.shift k)) :=
  .or (.map .ref Located.number_shift) (.or (.map .ref Located.string_shift) (.or .ref .ref))

theorem string_shifts : Shifts k string (Image (Located.shift k)) := .located (.or .text .text)

theorem boolean_shifts : Shifts k boolean (Image (Node.shift k)) :=
  .node (.or (.map .text fun _ => rfl) (.map .text fun _ => rfl))

theorem null_shifts : Shifts k null (Image (Node.shift k)) := .node (.map .text fun _ => rfl)

theorem varKind_shifts : Shifts k varKind (Image id) := .or wordOperator_shifts (.or wordOperator_shifts wordOperator_shifts)

theorem identifier_shifts : Shifts k identifier (Image (Located.shift k)) := .located (.right .text)

/-! ## All rules -/

/-- **Further on in the source, a rule yields what it yields here, further on.** -/
theorem shifts_of_rule (r : Rule) : Shifts k (scriptGrammar r) (Image (Yield.shift k r)) := by
  cases r with
  | program => exact program_shifts
  | statement => exact statement_shifts
  | block => exact block_shifts
  | emptyStmt => exact emptyStmt_shifts
  | semi => exact semi_shifts
  | importDecl => exact importDecl_shifts
  | importFrom => exact importFrom_shifts
  | importBare => exact importBare_shifts
  | importClause => exact importClause_shifts
  | importDefaultNamed => exact importDefaultNamed_shifts
  | importNamed => exact importNamed_shifts
  | importSpec => exact importSpec_shifts
  | importNamespace => exact importNamespace_shifts
  | exportDecl => exact exportDecl_shifts
  | functionDecl => exact functionDecl_shifts
  | params => exact params_shifts
  | param => exact param_shifts
  | paramDefault => exact paramDefault_shifts
  | restElement => exact restElement_shifts
  | binding => exact binding_shifts
  | arrayPattern => exact arrayPattern_shifts
  | objectPattern => exact objectPattern_shifts
  | patternProp => exact patternProp_shifts
  | patternKeyed => exact patternKeyed_shifts
  | patternDefault => exact patternDefault_shifts
  | varStatement => exact varStatement_shifts
  | varDecl => exact varDecl_shifts
  | declarator => exact declarator_shifts
  | ifStmt => exact ifStmt_shifts
  | whileStmt => exact whileStmt_shifts
  | doWhileStmt => exact doWhileStmt_shifts
  | forStmt => exact forStmt_shifts
  | forInit => exact forInit_shifts
  | forInOfStmt => exact forInOfStmt_shifts
  | forLeft => exact forLeft_shifts
  | varHead => exact varHead_shifts
  | tryStmt => exact tryStmt_shifts
  | catchClause => exact catchClause_shifts
  | finallyClause => exact finallyClause_shifts
  | returnStmt => exact returnStmt_shifts
  | breakStmt => exact breakStmt_shifts
  | continueStmt => exact continueStmt_shifts
  | throwStmt => exact throwStmt_shifts
  | exprStmt => exact exprStmt_shifts
  | expr => exact expr_shifts
  | assignExpr => exact assignExpr_shifts
  | assignment => exact assignment_shifts
  | arrowFunction => exact arrowFunction_shifts
  | arrowParams => exact arrowParams_shifts
  | conditional => exact conditional_shifts
  | logicalOr | logicalAnd => exact .chain Sketch.logical_shift .ref .ref
  | bitOr | bitXor | bitAnd | equality | relational | shift | additive | multiplicative =>
    exact .chain Sketch.binary_shift .ref .ref
  | exponent => exact exponent_shifts
  | unary => exact unary_shifts
  | awaitExpr => exact awaitExpr_shifts
  | prefixUpdate => exact prefixUpdate_shifts
  | prefixUnary => exact prefixUnary_shifts
  | postfixExpr => exact postfixExpr_shifts
  | callMember => exact callMember_shifts
  | callTail => exact callTail_shifts
  | arguments => exact arguments_shifts
  | argument => exact argument_shifts
  | spreadElement => exact spreadElement_shifts
  | memberDot => exact memberDot_shifts
  | memberIndex => exact memberIndex_shifts
  | optionalChain => exact optionalChain_shifts
  | newExpr => exact newExpr_shifts
  | newCallee => exact newCallee_shifts
  | primary => exact primary_shifts
  | parenExpr => exact parenExpr_shifts
  | thisExpr => exact thisExpr_shifts
  | functionExpr => exact functionExpr_shifts
  | arrayLiteral => exact arrayLiteral_shifts
  | objectLiteral => exact objectLiteral_shifts
  | objectMember => exact objectMember_shifts
  | methodMember => exact methodMember_shifts
  | keyedMember => exact keyedMember_shifts
  | propKey => exact propKey_shifts
  | computedKey => exact computedKey_shifts
  | template => exact template_shifts
  | templatePart => exact templatePart_shifts
  | templateSubst => exact templateSubst_shifts
  | assignOp => exact assignOp_shifts
  | equalityOp => exact equalityOp_shifts
  | relationalOp => exact relationalOp_shifts
  | unaryOp => exact unaryOp_shifts
  | literal => exact literal_shifts
  | string => exact string_shifts
  | boolean => exact boolean_shifts
  | null => exact null_shifts
  | varKind => exact varKind_shifts
  | identifier => exact identifier_shifts
  | orOp | additiveOp | updateOp => exact .or operator_shifts operator_shifts
  | shiftOp | mulOp => exact .or operator_shifts (.or operator_shifts operator_shifts)
  | andOp | bitOrOp | bitXorOp | bitAndOp | expOp => exact operator_shifts
  | number | propertyName => exact .located .text
  | _ => exact .text

end ScriptAudit
