/-
What the rules make of trees. Nodes that join, operands with an operator or something with a link to it, are made by the
rules for chains, powers and links alone. All other rules keep the nodes that they are given and make nodes of other
kinds. So what holds of all joints in the trees that such a rule is given holds of all joints in the trees that it
yields (`yields_of_rule`).
-/
import ScriptAudit.Grammar.Script
import ScriptAudit.Proofs.Preorder
import ScriptAudit.Proofs.Related

namespace ScriptAudit

open ScriptGrammar

/-! ## Joints -/

/-- Whether nodes of the kind put an operator or a link between their children. -/
def Kind.joins : Kind → Bool
  | .binaryExpression | .logicalExpression | .memberExpression | .callExpression => true
  | _ => false

/-- The joints of the tree have the property. -/
def AllJoints (Q : Sketch → Prop) (n : Sketch) : Prop := n.All fun m => m.kind.joins = true → Q m

/-- So have the joints of all of the trees. -/
abbrev EachJoint (Q : Sketch → Prop) (ns : List Sketch) : Prop := ∀ n ∈ ns, AllJoints Q n

def Link.AllJoints (Q : Sketch → Prop) : Link → Prop
  | .call arguments => EachJoint Q arguments
  | .member _ => True
  | .index expression => ScriptAudit.AllJoints Q expression

def Piece.AllJoints (Q : Sketch → Prop) : Piece → Prop
  | .chunk _ => True
  | .substitution expression => ScriptAudit.AllJoints Q expression

/-- The joints in what a rule yields have the property. -/
def Yield.AllJoints (Q : Sketch → Prop) (r : Rule) : Yield r → Prop :=
  Yield.elim (motive := fun α => α → Prop) (EachJoint Q) (ScriptAudit.AllJoints Q) (fun _ => True)
    (fun tail => tail.link.AllJoints Q) (Link.AllJoints Q) (fun key => ScriptAudit.AllJoints Q key.node)
    (Piece.AllJoints Q) (fun _ _ => True) r

def Slot.AllJoints (Q : Sketch → Prop) : Slot TokenClass Sketch → Prop
  | .node n => ScriptAudit.AllJoints Q n
  | .optional n => ∀ m ∈ n, ScriptAudit.AllJoints Q m
  | .nodes ns => EachJoint Q ns
  | _ => True

/-- The joints below the layer have the property. -/
def Form.AllJoints (Q : Sketch → Prop) (form : Form TokenClass Sketch) : Prop :=
  form.slots.Forall fun slot => slot.2.AllJoints Q

/-- So they have, and the layer is no joint itself. -/
structure Form.Keeps (Q : Sketch → Prop) (form : Form TokenClass Sketch) : Prop where
  joins : form.kind.joins = false
  below : form.AllJoints Q

variable {Q : Sketch → Prop} {source : Text} {α β : Type}

theorem allJoints_iff {n : Sketch} : AllJoints Q n ↔ (n.kind.joins = true → Q n) ∧ EachJoint Q n.children :=
  Node.all_iff

theorem Slot.eachJoint_children {slot : Slot TokenClass Sketch} (h : slot.AllJoints Q) : EachJoint Q slot.children := by
  cases slot with
  | node n => exact List.forall_mem_singleton.mpr h
  | optional n => exact fun m hm => h m (Option.mem_toList.mp hm)
  | nodes ns => exact h
  | _ => exact List.forall_mem_nil _

theorem allJoints_of_form {n : Sketch} (hn : n.kind.joins = true → Q n) (h : n.form.AllJoints Q) : AllJoints Q n := by
  refine allJoints_iff.mpr ⟨hn, fun c hc => ?_⟩
  obtain ⟨slot, hslot, hc⟩ := List.mem_flatMap.mp hc
  exact Slot.eachJoint_children (List.forall_iff_forall_mem.mp h slot hslot) c hc

theorem allJoints_of_keeps {n : Sketch} (h : n.form.Keeps Q) : AllJoints Q n :=
  allJoints_of_form (fun hjoins => absurd (h.joins.symm.trans hjoins) Bool.false_ne_true) h.below

/-! ## Expressions -/

/-- If the joints in what the rules yield have the property, the values of the pattern have theirs. -/
def Yields (Q : Sketch → Prop) (p : Pattern α) (R : α → Prop) : Prop :=
  p.Related 0 (fun r v _ => Yield.AllJoints Q r v) (fun a _ => R a) p

namespace Yields

variable {p : Pattern α} {q : Pattern β} {R : α → Prop} {S : β → Prop}

theorem map {f : α → β} (hp : Yields Q p R) (hf : ∀ a, R a → S (f a)) : Yields Q (f <$> p) S :=
  .build (fun _ a _ => hf a) hp

theorem ap {p : Pattern (α → β)} {q : Pattern α} (hp : Yields Q p fun f => ∀ a, R a → S (f a))
    (hq : Yields Q q R) : Yields Q (p <*> q) S :=
  .seq (fun _ _ a _ hf ha => hf a ha) hp hq

theorem ref {r : Rule} : Yields Q (ref r) (Yield.AllJoints Q r) := .rule r

theorem left (hp : Yields Q p R) : Yields Q (p <* q) R := .seq (fun _ _ _ _ ha _ => ha) hp (.any q)

theorem right (hq : Yields Q q S) : Yields Q (p *> q) S := .seq (fun _ _ _ _ _ hb => hb) (.any p) hq

theorem or {p q : Pattern α} (hp : Yields Q p R) (hq : Yields Q q R) : Yields Q (p <|> q) R := .either hp hq

theorem anything : Yields Q p fun _ => True := .any p

theorem optional (hp : Yields Q p R) : Yields Q (.option p) fun o => ∀ a ∈ o, R a := by
  refine .weaken (fun o o' h => ?_) (.option hp)
  cases h with
  | none => exact fun _ h => absurd h (Option.not_mem_none _)
  | some h =>
    rintro a ⟨⟩
    exact h

theorem repeated (hp : Yields Q p R) : Yields Q (.many p) fun as => ∀ a ∈ as, R a := by
  refine .weaken (fun as as' h => ?_) (.many hp)
  induction h with
  | nil => exact List.forall_mem_nil _
  | cons h _ ih => exact List.forall_mem_cons.mpr ⟨h, ih⟩

theorem pair (hp : Yields Q p R) (hq : Yields Q q S) : Yields Q (Prod.mk <$> p <*> q) fun x => R x.1 ∧ S x.2 :=
  .ap (.map hp fun _ ha _ hb => ⟨ha, hb⟩) hq

theorem node {p : Pattern (Form TokenClass Sketch)} (hp : Yields Q p (Form.Keeps Q)) :
    Yields Q (node p) (AllJoints Q) :=
  .build (fun _ _ _ h => allJoints_of_keeps h) hp

theorem spanned {p : Pattern (Span → α)} (hp : Yields Q p fun f => ∀ span, R (f span)) : Yields Q (spanned p) R :=
  .build (fun span _ _ h => h span) hp

theorem bracketed {opening closing : String} {item : Pattern α} (h : Yields Q item R) :
    Yields Q (bracketed opening closing item) fun as => ∀ a ∈ as, R a :=
  have items : Yields Q ((fun first rest => first :: rest) <$> (item <* gap) <*> .many (mark "," *> gap *> item <* gap))
      fun as => ∀ a ∈ as, R a :=
    .ap (.map (.left h) fun _ ha _ has => List.forall_mem_cons.mpr ⟨ha, has⟩) (.repeated (.left (.right h)))
  .left (.right (.map (.optional (.left items)) fun items hitems => by
    cases items with
    | none => exact List.forall_mem_nil _
    | some items => exact hitems items rfl))

theorem holds {call : (r : Rule) → Cursor source → Option (Reply source (Yield r))} {c next : Cursor source} {a : α}
    (hp : Yields Q p R) (hcall : ∀ r c v next, call r c = some (.found v next) → Yield.AllJoints Q r v)
    (h : p.eval call c = some (.found a next)) : R a := by
  -- the pattern is compared with itself at one place, which leaves only what is said about the values
  have hsame (c : Cursor source) : c.Apart 0 c := ⟨(Nat.zero_add _).symm, rfl⟩
  have hcalls : CallsRelated 0 (fun r v _ => Yield.AllJoints Q r v) call call := by
    intro r c d hcd
    obtain rfl : d = c := Cursor.ext_offset (hcd.offset.trans (Nat.zero_add _))
    cases hreply : call r d with
    | none => exact .none
    | some reply =>
      cases reply with
      | missing => exact .some .missing
      | found v next => exact .some (.found (hcall r d v next hreply) (hsame next))
  have hrel := Peg.Related.eval hcalls hp (hsame c)
  rw [h] at hrel
  cases hrel with
  | some hrel =>
    cases hrel with
    | found value _ => exact value

end Yields

/-! ## What is built of lexemes -/

section

variable (l : Located)

theorem allJoints_identifier : AllJoints Q l.identifier := allJoints_of_keeps ⟨rfl, trivial⟩

theorem allJoints_string : AllJoints Q l.string := allJoints_of_keeps ⟨rfl, trivial, trivial⟩

theorem allJoints_number : AllJoints Q l.number := allJoints_of_keeps ⟨rfl, trivial, trivial⟩

theorem allJoints_defaultImport : AllJoints Q l.defaultImport :=
  allJoints_of_keeps ⟨rfl, trivial, trivial, trivial⟩

theorem allJoints_shorthand : AllJoints Q l.shorthand :=
  allJoints_of_keeps ⟨rfl, allJoints_identifier l, allJoints_identifier l, trivial, trivial, trivial⟩

end

/-! ## Statements -/

theorem condition_yields : Yields Q condition (AllJoints Q) := .left (.left (.left (.right .ref)))

theorem statement_yields : Yields Q statement (AllJoints Q) := by
  repeat' apply Yields.or
  all_goals exact .ref

theorem block_yields : Yields Q block (AllJoints Q) :=
  .node (.map (.left (.left (.right (.repeated .ref)))) fun _ hbody => ⟨rfl, hbody⟩)

theorem ifStmt_yields : Yields Q ifStmt (AllJoints Q) :=
  .node (.ap (.ap (.map (.right condition_yields) fun _ htest _ hconsequent _ halternate =>
    ⟨rfl, htest, hconsequent, halternate⟩) .ref) (.optional (.right .ref)))

theorem whileStmt_yields : Yields Q whileStmt (AllJoints Q) :=
  .node (.ap (.map (.right condition_yields) fun _ htest _ hbody => ⟨rfl, htest, hbody⟩) .ref)

theorem doWhileStmt_yields : Yields Q doWhileStmt (AllJoints Q) :=
  .node (.ap (.map (.right .ref) fun _ hbody _ htest => ⟨rfl, hbody, htest⟩) (.left (.right condition_yields)))

theorem forStmt_yields : Yields Q forStmt (AllJoints Q) :=
  .node (.ap (.ap (.ap (.map (.left (.left (.left (.right (.optional .ref))))) fun _ hinit _ htest _ hupdate _ hbody =>
      ⟨rfl, hinit, htest, hupdate, hbody⟩)
    (.left (.left (.left (.optional .ref))))) (.left (.left (.left (.optional .ref))))) .ref)

theorem forInOfStmt_yields : Yields Q forInOfStmt (AllJoints Q) :=
  .node (.ap (.ap (.ap (.map (.left (.right .ref)) fun _ hleft overValues _ _ hright _ hbody => by
      cases overValues <;> exact ⟨rfl, hleft, hright, hbody⟩)
    .anything) (.left (.left (.left (.right .ref))))) .ref)

theorem varHead_yields : Yields Q varHead (AllJoints Q) :=
  .spanned (.ap (.map .anything fun _ _ binding hbinding _ =>
    have hdeclarator : AllJoints Q ⟨.variableDeclarator binding none, binding.span⟩ :=
      allJoints_of_keeps ⟨rfl, hbinding, fun _ h => absurd h (Option.not_mem_none _)⟩
    allJoints_of_keeps ⟨rfl, trivial, List.forall_mem_singleton.mpr hdeclarator⟩) .ref)

theorem tryStmt_yields : Yields Q tryStmt (AllJoints Q) :=
  .node (.ap (.ap (.map (.right .ref) fun _ hblock _ hhandler _ hfinalizer => ⟨rfl, hblock, hhandler, hfinalizer⟩)
    (.optional .ref)) (.optional .ref))

theorem catchClause_yields : Yields Q catchClause (AllJoints Q) :=
  .node (.ap (.map (.right (.optional (.left (.left (.left (.right .ref)))))) fun _ hparam _ hbody =>
    ⟨rfl, hparam, hbody⟩) .ref)

theorem returnStmt_yields : Yields Q returnStmt (AllJoints Q) :=
  .node (.map (.left (.left (.right (.optional (.right .ref))))) fun _ hargument => ⟨rfl, hargument⟩)

theorem throwStmt_yields : Yields Q throwStmt (AllJoints Q) :=
  .node (.map (.left (.left (.right .ref))) fun _ hargument => ⟨rfl, hargument⟩)

theorem exprStmt_yields : Yields Q exprStmt (AllJoints Q) :=
  .node (.map (.left (.left .ref)) fun _ hexpression => ⟨rfl, hexpression⟩)

/-! ## Modules and declarations -/

theorem importFrom_yields : Yields Q importFrom (AllJoints Q) :=
  .node (.ap (.map (.left (.right .ref)) fun _ hspecifiers _ _ => ⟨rfl, hspecifiers, trivial⟩) .anything)

theorem importNamespaces_yields : Yields Q ((fun specifier => [specifier]) <$> ref .importNamespace) (EachJoint Q) :=
  .map .ref fun _ h => List.forall_mem_singleton.mpr h

theorem importDefaultNamed_yields : Yields Q importDefaultNamed (EachJoint Q) :=
  .ap (.map .anything fun name _ _ h => List.forall_mem_cons.mpr ⟨allJoints_defaultImport name, h⟩)
    (.or .ref importNamespaces_yields)

theorem importClause_yields : Yields Q importClause (EachJoint Q) :=
  .or .ref (.or importNamespaces_yields (.or .ref (.map .anything fun name _ =>
    List.forall_mem_singleton.mpr (allJoints_defaultImport name))))

theorem exportDecl_yields : Yields Q exportDecl (AllJoints Q) :=
  .node (.ap (.map .anything fun _ _ _ hdeclaration => ⟨rfl, hdeclaration, trivial⟩) (.or .ref (.or .ref .ref)))

theorem functionDecl_yields : Yields Q functionDecl (AllJoints Q) :=
  .node (.ap (.ap (.ap (.ap (.map .anything fun _ _ _ _ name _ _ hparams _ hbody =>
      ⟨rfl, allJoints_identifier name, hparams, hbody, trivial, trivial⟩)
    .anything) .anything) (.left .ref)) .ref)

theorem paramDefault_yields : Yields Q paramDefault (AllJoints Q) :=
  .node (.ap (.map (.left (.left (.left .ref))) fun _ hleft _ hright => ⟨rfl, hleft, hright⟩) .ref)

theorem restElement_yields : Yields Q restElement (AllJoints Q) :=
  .node (.map (.right .ref) fun _ hargument => ⟨rfl, hargument⟩)

theorem arrayPattern_yields : Yields Q arrayPattern (AllJoints Q) :=
  .node (.map (.bracketed .ref) fun _ helements => ⟨rfl, helements⟩)

theorem objectPattern_yields : Yields Q objectPattern (AllJoints Q) :=
  .node (.map (.bracketed .ref) fun _ hproperties => ⟨rfl, hproperties⟩)

theorem patternKeyed_yields : Yields Q patternKeyed (AllJoints Q) :=
  .node (.ap (.map .anything fun key _ _ hvalue =>
    ⟨rfl, allJoints_identifier key, hvalue, trivial, trivial, trivial⟩) .ref)

theorem patternDefault_yields : Yields Q patternDefault (AllJoints Q) :=
  .spanned (.ap (.map .anything fun name _ value hvalue span =>
    have hname := allJoints_identifier name
    have hpattern : AllJoints Q ⟨.assignmentPattern name.identifier value, span⟩ :=
      allJoints_of_keeps ⟨rfl, hname, hvalue⟩
    allJoints_of_keeps ⟨rfl, hname, hpattern, trivial, trivial, trivial⟩) .ref)

theorem varDecl_yields : Yields Q varDecl (AllJoints Q) :=
  .node (.ap (.ap (.map .anything fun _ _ _ hfirst _ hrest => ⟨rfl, trivial, List.forall_mem_cons.mpr ⟨hfirst, hrest⟩⟩)
    .ref) (.repeated (.right .ref)))

theorem declarator_yields : Yields Q declarator (AllJoints Q) :=
  .node (.ap (.map .ref fun _ hid _ hinit => ⟨rfl, hid, hinit⟩) (.optional (.right .ref)))

/-! ## Expressions -/

theorem expr_yields : Yields Q expr (AllJoints Q) :=
  .spanned (.ap (.map .ref fun first hfirst rest hrest span => by
    cases rest with
    | nil => exact hfirst
    | cons second rest => exact allJoints_of_keeps ⟨rfl, List.forall_mem_cons.mpr ⟨hfirst, hrest⟩⟩)
    (.repeated (.right .ref)))

theorem assignment_yields : Yields Q assignment (AllJoints Q) :=
  .node (.ap (.ap (.map (.left .ref) fun _ hleft _ _ _ hright => ⟨rfl, hleft, trivial, hright⟩) .anything) .ref)

theorem arrowFunction_yields : Yields Q arrowFunction (AllJoints Q) :=
  .node (.ap (.ap (.map .anything fun _ _ _ hparams _ hbody => ⟨rfl, hparams, hbody, trivial⟩)
    (.left (.left (.left .ref)))) (.or .ref .ref))

theorem arrowParams_yields : Yields Q arrowParams (EachJoint Q) :=
  .or .ref (.map .anything fun name _ => List.forall_mem_singleton.mpr (allJoints_identifier name))

theorem conditional_yields : Yields Q conditional (AllJoints Q) :=
  .spanned (.ap (.map .ref fun test htest branches hbranches span => by
    cases branches with
    | none => exact htest
    | some branches =>
      obtain ⟨hconsequent, halternate⟩ := hbranches branches rfl
      exact allJoints_of_keeps ⟨rfl, htest, hconsequent, halternate⟩)
    (.optional (.pair (.right .ref) (.right .ref))))

theorem awaitExpr_yields : Yields Q awaitExpr (AllJoints Q) :=
  .node (.map (.right .ref) fun _ hargument => ⟨rfl, hargument⟩)

theorem prefixUpdate_yields : Yields Q prefixUpdate (AllJoints Q) :=
  .node (.ap (.map .anything fun _ _ _ hargument => ⟨rfl, trivial, hargument, trivial⟩) .ref)

theorem prefixUnary_yields : Yields Q prefixUnary (AllJoints Q) :=
  .node (.ap (.map .anything fun _ _ _ hargument => ⟨rfl, trivial, hargument⟩) .ref)

theorem postfixExpr_yields : Yields Q postfixExpr (AllJoints Q) :=
  .spanned (.ap (.map .ref fun operand hoperand operator _ span => by
    cases operator with
    | none => exact hoperand
    | some operator => exact allJoints_of_keeps ⟨rfl, trivial, hoperand, trivial⟩) .anything)

/-! ## Calls and members -/

theorem callTail_yields : Yields Q callTail fun tail => tail.link.AllJoints Q :=
  .spanned (.map (R := fun link => link.1.AllJoints Q) (.right (.or (.map .ref fun _ h => h)
    (.or (.map .anything fun _ _ => trivial) (.or (.map .ref fun _ h => h) (.map .ref fun _ h => h))))) fun _ h _ => h)

theorem spreadElement_yields : Yields Q spreadElement (AllJoints Q) :=
  .node (.map (.right .ref) fun _ hargument => ⟨rfl, hargument⟩)

theorem optionalChain_yields : Yields Q optionalChain (Link.AllJoints Q) :=
  .right (.or (.map .ref fun _ h => h) (.or (.map .ref fun _ h => h) (.map .anything fun _ _ => trivial)))

theorem newExpr_yields : Yields Q newExpr (AllJoints Q) :=
  .node (.ap (.map (.right .ref) fun _ hcallee arguments harguments => by
    cases arguments with
    | none => exact ⟨rfl, hcallee, List.forall_mem_nil _⟩
    | some arguments => exact ⟨rfl, hcallee, harguments arguments rfl⟩) (.optional (.right .ref)))

/-! ## Primary expressions -/

theorem primary_yields : Yields Q primary (AllJoints Q) := by
  iterate 7 refine .or .ref ?_
  exact .map .anything fun name _ => allJoints_identifier name

theorem functionExpr_yields : Yields Q functionExpr (AllJoints Q) :=
  .node (.ap (.ap (.ap (.ap (.map .anything fun _ _ _ _ name _ _ hparams _ hbody => by
      refine ⟨rfl, fun id hid => ?_, hparams, hbody, trivial, trivial⟩
      obtain ⟨l, -, rfl⟩ := Option.map_eq_some_iff.mp hid
      exact allJoints_identifier l)
    .anything) .anything) (.left .ref)) .ref)

theorem arrayLiteral_yields : Yields Q arrayLiteral (AllJoints Q) :=
  .node (.map (.bracketed .ref) fun _ helements => ⟨rfl, helements⟩)

theorem objectLiteral_yields : Yields Q objectLiteral (AllJoints Q) :=
  .node (.map (.bracketed .ref) fun _ hproperties => ⟨rfl, hproperties⟩)

theorem shorthand_yields : Yields Q (Located.shorthand <$> ref .identifier) (AllJoints Q) :=
  .map .anything fun name _ => allJoints_shorthand name

theorem methodMember_yields : Yields Q methodMember (AllJoints Q) :=
  .spanned (.ap (.ap (.ap (.ap (.map .anything fun isAsync _ generator _ _ hkey params hparams body hbody span =>
      have hvalue : AllJoints Q ⟨.functionExpression none params body isAsync generator, span⟩ :=
        allJoints_of_keeps ⟨rfl, fun _ h => absurd h (Option.not_mem_none _), hparams, hbody, trivial, trivial⟩
      allJoints_of_keeps ⟨rfl, hkey, hvalue, trivial, trivial, trivial⟩)
    .anything) (.left .ref)) (.left .ref)) .ref)

theorem keyedMember_yields : Yields Q keyedMember (AllJoints Q) :=
  .spanned (.ap (.map (.left (.left (.left .ref))) fun _ hkey _ hvalue _ =>
    allJoints_of_keeps ⟨rfl, hkey, hvalue, trivial, trivial, trivial⟩) .ref)

theorem propKey_yields : Yields Q propKey fun key => AllJoints Q key.node :=
  .or (.map .ref fun _ h => h) (.or (.map .anything fun l _ => allJoints_identifier l)
    (.or (.map .anything fun l _ => allJoints_string l) (.map .anything fun l _ => allJoints_number l)))

theorem eachJoint_template {pieces : List Piece} (h : ∀ piece ∈ pieces, piece.AllJoints Q) :
    EachJoint Q ((Sketch.templateParts pieces).2.map (·.1)) := by
  induction pieces with
  | nil => exact List.forall_mem_nil _
  | cons piece pieces ih =>
    rw [List.forall_mem_cons] at h
    cases piece with
    | chunk text => exact ih h.2
    | substitution expression => exact List.forall_mem_cons.mpr ⟨h.1, ih h.2⟩

theorem template_yields : Yields Q template (AllJoints Q) :=
  .node (.map (.left (.right (.repeated .ref))) fun _ h => ⟨rfl, trivial, eachJoint_template h⟩)

theorem templatePart_yields : Yields Q templatePart (Piece.AllJoints Q) :=
  .or (.map .ref fun _ h => h) (.map .anything fun _ _ => trivial)

theorem literal_yields : Yields Q literal (AllJoints Q) :=
  .or (.map .anything fun l _ => allJoints_number l)
    (.or (.map .anything fun l _ => allJoints_string l) (.or .ref .ref))

/-! ## All rules -/

/-- The rules that make joints. -/
def Rule.joins : Rule → Bool
  | .logicalOr | .logicalAnd | .bitOr | .bitXor | .bitAnd | .equality | .relational | .shift | .additive
  | .multiplicative | .exponent | .callMember | .newCallee => true
  | _ => false

/-- **A rule that makes no joints keeps those that it is given.** -/
theorem yields_of_rule {r : Rule} (hr : r.joins = false) : Yields Q (scriptGrammar r) (Yield.AllJoints Q r) := by
  cases r with
  | program => exact .right (.repeated .ref)
  | statement => exact statement_yields
  | block => exact block_yields
  | ifStmt => exact ifStmt_yields
  | whileStmt => exact whileStmt_yields
  | doWhileStmt => exact doWhileStmt_yields
  | forStmt => exact forStmt_yields
  | forInOfStmt => exact forInOfStmt_yields
  | varHead => exact varHead_yields
  | tryStmt => exact tryStmt_yields
  | catchClause => exact catchClause_yields
  | finallyClause => exact .right .ref
  | returnStmt => exact returnStmt_yields
  | throwStmt => exact throwStmt_yields
  | exprStmt => exact exprStmt_yields
  | importFrom => exact importFrom_yields
  | importBare => exact .node (.map .anything fun _ _ => ⟨rfl, List.forall_mem_nil _, trivial⟩)
  | importSpec => exact .node (.ap (.map .anything fun _ _ _ _ => ⟨rfl, trivial, trivial, trivial⟩) .anything)
  | importNamespace => exact .node (.map .anything fun _ _ => ⟨rfl, trivial, trivial, trivial⟩)
  | importDefaultNamed => exact importDefaultNamed_yields
  | importClause => exact importClause_yields
  | exportDecl => exact exportDecl_yields
  | functionDecl => exact functionDecl_yields
  | paramDefault => exact paramDefault_yields
  | restElement => exact restElement_yields
  | binding => exact .or (.map .anything fun name _ => allJoints_identifier name) (.or .ref .ref)
  | arrayPattern => exact arrayPattern_yields
  | objectPattern => exact objectPattern_yields
  | patternKeyed => exact patternKeyed_yields
  | patternDefault => exact patternDefault_yields
  | varStatement => exact .left (.left .ref)
  | varDecl => exact varDecl_yields
  | declarator => exact declarator_yields
  | expr => exact expr_yields
  | assignment => exact assignment_yields
  | arrowFunction => exact arrowFunction_yields
  | arrowParams => exact arrowParams_yields
  | conditional => exact conditional_yields
  | unary => exact .or .ref (.or .ref (.or .ref .ref))
  | awaitExpr => exact awaitExpr_yields
  | prefixUpdate => exact prefixUpdate_yields
  | prefixUnary => exact prefixUnary_yields
  | postfixExpr => exact postfixExpr_yields
  | callTail => exact callTail_yields
  | spreadElement => exact spreadElement_yields
  | optionalChain => exact optionalChain_yields
  | newExpr => exact newExpr_yields
  | primary => exact primary_yields
  | functionExpr => exact functionExpr_yields
  | arrayLiteral => exact arrayLiteral_yields
  | objectLiteral => exact objectLiteral_yields
  | methodMember => exact methodMember_yields
  | keyedMember => exact keyedMember_yields
  | propKey => exact propKey_yields
  | template => exact template_yields
  | templatePart => exact templatePart_yields
  | literal => exact literal_yields
  | boolean =>
    exact .node (.or (.map .anything fun _ _ => ⟨rfl, trivial, trivial⟩)
      (.map .anything fun _ _ => ⟨rfl, trivial, trivial⟩))
  | null => exact .node (.map .anything fun _ _ => ⟨rfl, trivial, trivial⟩)
  | emptyStmt | breakStmt | continueStmt | thisExpr => exact .node (.map .anything fun _ _ => ⟨rfl, trivial⟩)
  | importNamed | params | arguments => exact .bracketed .ref
  | parenExpr | memberIndex | computedKey | templateSubst => exact .left (.left (.right .ref))
  | patternProp | objectMember => exact .or .ref (.or .ref (.or .ref shorthand_yields))
  | forInit | forLeft | importDecl | argument => exact .or .ref .ref
  | param | assignExpr => exact .or .ref (.or .ref .ref)
  | logicalOr | logicalAnd | bitOr | bitXor | bitAnd | equality | relational | shift | additive | multiplicative
  | exponent | callMember | newCallee => cases hr
  | _ => exact .anything

end ScriptAudit
