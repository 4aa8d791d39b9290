/-
Where the trees of a script lie. The grammar is gone through rule by rule: given that the rules it
refers to yield trees that fit, each rule yields trees that fit, one after the other inside its match.
-/
import ScriptAudit.Proofs.Parts

namespace ScriptAudit

/-! ## What is claimed of the rules -/

namespace Rule

/-- The rule never matches the empty text. -/
def isSolid : Rule → Bool
  | program | semi | trivia => false
  | _ => true

/-- What a rule yields, and the parts it is made of. -/
def Shape (source : Text) : (r : Rule) → (start : Nat) → Yield r → (stop : Nat) → List Part → Prop
  | .program, _, ns, _, ps | .importClause, _, ns, _, ps | .importDefaultNamed, _, ns, _, ps
  | .importNamed, _, ns, _, ps | .params, _, ns, _, ps | .arrowParams, _, ns, _, ps
  | .arguments, _, ns, _, ps => ps = ns.map .free
  | .statement, _, n, _, ps | .block, _, n, _, ps | .emptyStmt, _, n, _, ps | .importDecl, _, n, _, ps
  | .importFrom, _, n, _, ps | .importBare, _, n, _, ps | .importSpec, _, n, _, ps
  | .importNamespace, _, n, _, ps | .exportDecl, _, n, _, ps | .functionDecl, _, n, _, ps
  | .param, _, n, _, ps | .paramDefault, _, n, _, ps | .restElement, _, n, _, ps
  | .binding, _, n, _, ps | .arrayPattern, _, n, _, ps | .objectPattern, _, n, _, ps
  | .patternProp, _, n, _, ps | .patternKeyed, _, n, _, ps | .patternDefault, _, n, _, ps
  | .varStatement, _, n, _, ps | .varDecl, _, n, _, ps | .declarator, _, n, _, ps
  | .ifStmt, _, n, _, ps | .whileStmt, _, n, _, ps | .doWhileStmt, _, n, _, ps | .forStmt, _, n, _, ps
  | .forInit, _, n, _, ps | .forInOfStmt, _, n, _, ps | .forLeft, _, n, _, ps | .varHead, _, n, _, ps
  | .tryStmt, _, n, _, ps | .catchClause, _, n, _, ps | .finallyClause, _, n, _, ps
  | .returnStmt, _, n, _, ps | .breakStmt, _, n, _, ps | .continueStmt, _, n, _, ps
  | .throwStmt, _, n, _, ps | .exprStmt, _, n, _, ps | .expr, _, n, _, ps | .assignExpr, _, n, _, ps
  | .assignment, _, n, _, ps | .arrowFunction, _, n, _, ps | .conditional, _, n, _, ps
  | .logicalOr, _, n, _, ps | .logicalAnd, _, n, _, ps | .bitOr, _, n, _, ps | .bitXor, _, n, _, ps
  | .bitAnd, _, n, _, ps | .equality, _, n, _, ps | .relational, _, n, _, ps | .shift, _, n, _, ps
  | .additive, _, n, _, ps | .multiplicative, _, n, _, ps | .exponent, _, n, _, ps
  | .unary, _, n, _, ps | .awaitExpr, _, n, _, ps | .prefixUpdate, _, n, _, ps
  | .prefixUnary, _, n, _, ps | .postfixExpr, _, n, _, ps | .callMember, _, n, _, ps
  | .argument, _, n, _, ps | .spreadElement, _, n, _, ps | .memberIndex, _, n, _, ps
  | .newExpr, _, n, _, ps | .newCallee, _, n, _, ps | .primary, _, n, _, ps | .parenExpr, _, n, _, ps
  | .thisExpr, _, n, _, ps | .functionExpr, _, n, _, ps | .arrayLiteral, _, n, _, ps
  | .objectLiteral, _, n, _, ps | .objectMember, _, n, _, ps | .methodMember, _, n, _, ps
  | .keyedMember, _, n, _, ps | .template, _, n, _, ps | .templateSubst, _, n, _, ps
  | .literal, _, n, _, ps | .boolean, _, n, _, ps | .null, _, n, _, ps => ps = [.free n]
  | .computedKey, s, n, _, ps => ps = [.free n] ∧ s < n.span.start
  | .identifier, s, l, e, ps => ps = [.free l.identifier] ∧ l.span = ⟨s, e⟩
  | .propertyName, s, l, e, ps => ps = [.label l.identifier] ∧ l.span = ⟨s, e⟩
  | .memberDot, _, l, _, ps => ps = [.label l.identifier]
  | .number, s, l, e, ps => ps = [.free l.number] ∧ l.span = ⟨s, e⟩
  | .string, s, l, e, ps => ps = [.free l.string] ∧ l.span = ⟨s, e⟩
  | .callTail, s, tail, e, _ => tail.Fits source s e
  | .optionalChain, _, link, _, ps => ps = link.parts
  | .propKey, s, key, _, ps =>
    ps = [⟨key.node, key.computed⟩] ∧ (key.node.span.start = s ↔ key.computed = false)
  | .templatePart, _, piece, _, ps => ps = piece.parts
  | .whileWord, s, _, e, _ => Opens source "while" s ∧ e = s + 5
  | .awaitWord, s, _, e, _ => Opens source "await" s ∧ e = s + 5
  | _, _, _, _, _ => True

structure Found (source : Text) (r : Rule) (s : Nat) (v : Yield r) (e : Nat) (ps : List Part) : Prop where
  spanned : Spanned r.isSolid s e
  inside : e ≤ source.length
  laid : Laid source s ps e
  shape : r.Shape source s v e ps

end Rule

/-- The rules yield trees that fit, in order. Where there is no keyword, there is no reserved word. -/
def layout (source : Text) : Account source Yield Part where
  found := Rule.Found source
  inside h := h.inside
  missing
    | .keyword, s => Lexeme.reserved.length? (source.drop s) = none
    | _, _ => True

variable {source : Text} {α β : Type} {s e : Nat} {ps : List Part}

theorem laid_of_lays {p : Peg Yield α} {v : α} (h : (layout source).Lays p s v e ps) :
    Laid source s ps e :=
  h.composes Laid.composes fun _ _ _ _ _ (hr : Rule.Found ..) => hr.laid

theorem lt_of_lays {p : Peg Yield α} {v : α} (h : (layout source).Lays p s v e ps)
    (hp : p.isSolid Rule.isSolid = true) : s < e :=
  (h.spanned fun _ _ _ _ _ (hr : Rule.Found ..) => hr.spanned).lt hp

theorem shape_of_lays {r : Rule} {v : Yield r} (h : (layout source).Lays (.rule r) s v e ps) :
    r.Shape source s v e ps :=
  Rule.Found.shape h

/-! ## Trees from the values of expressions -/

open Account

/-- The parts of a tree that is a part itself, of a variable, and of the name of a member. -/
abbrev Sketch.parts (n : Sketch) : List Part := [.free n]

abbrev Located.parts (l : Located) : List Part := [.free l.identifier]

abbrev Located.labelParts (l : Located) : List Part := [.label l.identifier]

/-- The part of a key, which is a label unless it is computed. -/
abbrev Key.parts (key : Key) : List Part := [⟨key.node, key.computed⟩]

theorem laid_of_keeps {p : Peg Yield α} {f : α → List Part} {v : α}
    (hp : (layout source).Relates p (Keeps f)) (h : (layout source).Lays p s v e ps) :
    Laid source s (f v) e :=
  (laid_of_lays h).sublist (hp _ _ _ _ h)

/-- Parts in order become one tree, once it is known where the match starts and stops. -/
def Builds (source : Text) (f : Span → Sketch) (ps : List Part) : Prop :=
  ∀ s e, s < e → e ≤ source.length → Laid source s ps e → Laid source s [.free (f ⟨s, e⟩)] e

/-- A plain form whose children are among the parts. -/
structure Plain (form : Form TokenClass Sketch) (ps : List Part) : Prop where
  isPlain : form.isPlain = true
  keeps : List.Sublist (form.children.flatMap Sketch.parts) ps

theorem Plain.of {form : Form TokenClass Sketch} {kept : List Part} (h : List.Sublist kept ps)
    (hkept : form.children.flatMap Sketch.parts = kept) (hplain : form.isPlain = true) : Plain form ps :=
  ⟨hplain, hkept ▸ h⟩

theorem Plain.builds {form : Form TokenClass Sketch} (h : Plain form ps) :
    Builds source (fun span => ⟨form, span⟩) ps := by
  intro s e hlt hin hlaid
  refine hlaid.node h.isPlain ?_ hlt hin
  rw [List.map_eq_flatMap]
  exact h.keeps

/-- The expression yields trees that fit. -/
def Grows (source : Text) (p : Peg Yield Sketch) : Prop :=
  ∀ s n e ps, s ≤ source.length → (layout source).Lays p s n e ps → Laid source s [.free n] e

namespace Grows

open ScriptGrammar

theorem keeps {p : Pattern Sketch} (hp : (layout source).Relates p (Keeps Sketch.parts)) :
    Grows source p :=
  fun _ _ _ _ _ h => (laid_of_lays h).sublist (hp _ _ _ _ h)

theorem or {p q : Pattern Sketch} (hp : Grows source p) (hq : Grows source q) :
    Grows source (p <|> q) := by
  rintro s n e ps hs (h | h)
  · exact hp s n e ps hs h
  · exact hq s n e ps hs h

theorem spanned {p : Pattern (Span → Sketch)} (hp : (layout source).Relates p (Builds source))
    (hsolid : p.isSolid Rule.isSolid = true) : Grows source (spanned p) := by
  rintro s n e ps hs ⟨f, h, rfl⟩
  exact hp _ _ _ _ h s e (lt_of_lays h hsolid) (h.inside hs) (laid_of_lays h)

theorem nodeOf {p : Pattern (Form TokenClass Sketch)}
    (hp : (layout source).Relates p fun form => Builds source fun span => ⟨form, span⟩)
    (hsolid : p.isSolid Rule.isSolid = true) : Grows source (ScriptGrammar.node p) := by
  rintro s n e ps hs ⟨form, h, rfl⟩
  exact hp _ _ _ _ h s e (lt_of_lays h hsolid) (h.inside hs) (laid_of_lays h)

theorem node {p : Pattern (Form TokenClass Sketch)} (hp : (layout source).Relates p Plain)
    (hsolid : p.isSolid Rule.isSolid = true) : Grows source (node p) :=
  nodeOf (fun s form e ps h => (hp s form e ps h).builds) hsolid

end Grows

namespace Account.Relates

open ScriptGrammar

theorem exactly {p : Pattern α} {f : α → List Part}
    (h : ∀ {s v e ps}, (layout source).Lays p s v e ps → ps = f v) :
    (layout source).Relates p (Keeps f) := by
  intro s v e ps hp
  obtain rfl := h hp
  exact List.Sublist.refl _

theorem tree {p : Pattern Sketch} (h : ∀ {s n e ps}, (layout source).Lays p s n e ps → ps = [.free n]) :
    (layout source).Relates p (Keeps Sketch.parts) :=
  exactly h

theorem list {p : Pattern (List Sketch)}
    (h : ∀ {s ns e ps}, (layout source).Lays p s ns e ps → ps = ns.map .free) :
    (layout source).Relates p (Keeps fun ns => ns.flatMap Sketch.parts) :=
  exactly fun hp => (h hp).trans List.map_eq_flatMap

theorem name : (layout source).Relates (ref .identifier) (Keeps Located.parts) :=
  exactly fun h => (shape_of_lays h).1

theorem label : (layout source).Relates (ref .propertyName) (Keeps Located.labelParts) :=
  exactly fun h => (shape_of_lays h).1

theorem key : (layout source).Relates (ref .propKey) (Keeps Key.parts) :=
  exactly fun h => (shape_of_lays h).1

theorem string : (layout source).Relates (ref .string) (Keeps fun l => l.string.parts) :=
  exactly fun h => (shape_of_lays h).1

theorem number : (layout source).Relates (ref .number) (Keeps fun l => l.number.parts) :=
  exactly fun h => (shape_of_lays h).1

theorem identifier : (layout source).Relates (Located.identifier <$> ref .identifier) (Keeps Sketch.parts) :=
  .map name id

theorem bracketed {opening closing : String} {item : Pattern α} {f : α → List Part}
    (h : (layout source).Relates item (Keeps f)) :
    (layout source).Relates (bracketed opening closing item) (Keeps fun vs => vs.flatMap f) :=
  have items : (layout source).Relates ((fun first rest => first :: rest) <$> (item <* gap)
      <*> .many (mark "," *> gap *> item <* gap)) (Keeps fun vs => vs.flatMap f) :=
    .ap (.map (.left h) fun ha _ _ hb => ha.append hb) (.many (.left (.right h)))
  .left <| .right <| .map (.option (.left items)) fun {vs _} hvs => by
    cases vs with
    | none => exact List.nil_sublist _
    | some vs => simpa [Keeps] using hvs

end Account.Relates

/-! ## Statements -/

section Statements

open ScriptGrammar

theorem condition_keeps : (layout source).Relates condition (Keeps Sketch.parts) :=
  .left (.left (.left (.right (.tree shape_of_lays))))

theorem statement_grows : Grows source statement := by
  refine .keeps ?_
  repeat' apply Relates.or
  all_goals exact .tree shape_of_lays

theorem block_grows : Grows source block :=
  .node (.map (.left (.left (.right (.many (.tree shape_of_lays))))) fun h =>
    .of h (by simp [Form.children, Form.slots, Slot.children]) rfl) rfl

theorem emptyStmt_grows : Grows source emptyStmt :=
  .node (.map .nothing fun h => .of h rfl rfl) rfl

theorem ifStmt_grows : Grows source ifStmt :=
  .node (.ap (.ap (.map (.right condition_keeps) fun ha _ _ hb _ _ hc =>
      .of ((ha.append hb).append hc) (by simp [Form.children, Form.slots, Slot.children]) rfl)
    (.tree shape_of_lays)) (.option (.right (.tree shape_of_lays)))) rfl

theorem doWhileStmt_grows : Grows source doWhileStmt :=
  .node (.ap (.map (.right (.tree shape_of_lays)) fun ha _ _ hb => .of (ha.append hb) rfl rfl)
    (.left (.right condition_keeps))) rfl

theorem forStmt_grows : Grows source forStmt :=
  .node (.ap (.ap (.ap (.map (.left (.left (.left (.right (.option (.tree shape_of_lays))))))
      fun ha _ _ hb _ _ hc _ _ hd => .of (((ha.append hb).append hc).append hd)
        (by simp [Form.children, Form.slots, Slot.children]) rfl)
    (.left (.left (.left (.option (.tree shape_of_lays))))))
    (.left (.left (.left (.option (.tree shape_of_lays)))))) (.tree shape_of_lays)) rfl

theorem forInit_grows : Grows source forInit :=
  .keeps (.or (.tree shape_of_lays) (.tree shape_of_lays))

theorem forInOfStmt_grows : Grows source forInOfStmt :=
  .node (.ap (.ap (.ap (.map (.left (.right (.tree shape_of_lays)))
      fun ha overValues _ hb _ _ hc _ _ hd => by
        cases overValues <;> exact .of (((ha.append hb).append hc).append hd) rfl rfl)
    .nothing) (.left (.left (.left (.right (.tree shape_of_lays)))))) (.tree shape_of_lays)) rfl

theorem forLeft_grows : Grows source forLeft :=
  .keeps (.or (.tree shape_of_lays) (.tree shape_of_lays))

theorem varHead_grows : Grows source varHead :=
  .spanned (.ap (.map .nothing fun ha _ _ hb s e hlt hin hlaid =>
    ⟨Nat.le_refl s, Part.good_headDeclaration (hlaid.sublist (ha.append hb)) hlt hin, Nat.le_refl e⟩)
    (.tree shape_of_lays)) rfl

theorem tryStmt_grows : Grows source tryStmt :=
  .node (.ap (.ap (.map (.right (.tree shape_of_lays)) fun ha _ _ hb _ _ hc =>
      .of ((ha.append hb).append hc) (by simp [Form.children, Form.slots, Slot.children]) rfl)
    (.option (.tree shape_of_lays))) (.option (.tree shape_of_lays))) rfl

theorem catchClause_grows : Grows source catchClause :=
  .node (.ap (.map (.right (.option (.left (.left (.left (.right (.tree shape_of_lays)))))))
      fun ha _ _ hb => .of (ha.append hb) (by simp [Form.children, Form.slots, Slot.children]) rfl)
    (.tree shape_of_lays)) rfl

theorem finallyClause_grows : Grows source finallyClause := .keeps (.right (.tree shape_of_lays))

theorem returnStmt_grows : Grows source returnStmt :=
  .node (.map (.left (.left (.right (.option (.right (.tree shape_of_lays)))))) fun h =>
    .of h (by simp [Form.children, Form.slots, Slot.children]) rfl) rfl

theorem breakStmt_grows : Grows source breakStmt :=
  .node (.map .nothing fun h => .of h rfl rfl) rfl

theorem continueStmt_grows : Grows source continueStmt :=
  .node (.map .nothing fun h => .of h rfl rfl) rfl

theorem throwStmt_grows : Grows source throwStmt :=
  .node (.map (.left (.left (.right (.tree shape_of_lays)))) fun h => .of h rfl rfl) rfl

theorem exprStmt_grows : Grows source exprStmt :=
  .node (.map (.left (.left (.tree shape_of_lays))) fun h => .of h rfl rfl) rfl

theorem whileStmt_grows : Grows source whileStmt := by
  rintro s n e ps hs ⟨form, h, rfl⟩
  obtain ⟨f, k, body, qs, rs, ⟨test, ⟨u, m, test, us, ts, hword, htest, rfl, rfl⟩, rfl⟩, hbody, rfl, rfl⟩ := id h
  obtain ⟨hopens, rfl⟩ := shape_of_lays hword
  have hlaid : Laid source (s + 5) [.free test, .free body] e :=
    (laid_of_keeps condition_keeps htest).append
      (laid_of_keeps (f := Sketch.parts) (.tree shape_of_lays) hbody)
  have hordered : Node.Ordered source ⟨.whileStatement test body, ⟨s, e⟩⟩ := ⟨hopens, hlaid.sequenced⟩
  exact ⟨Nat.le_refl s, Part.good_node hlaid hordered trivial rfl rfl nofun (lt_of_lays h rfl) (h.inside hs),
    Nat.le_refl e⟩

end Statements

/-! ## Modules -/

section Modules

open ScriptGrammar

theorem importDecl_grows : Grows source importDecl :=
  .keeps (.or (.tree shape_of_lays) (.tree shape_of_lays))

theorem importFrom_grows : Grows source importFrom :=
  .node (.ap (.map (.left (.right (.list shape_of_lays))) fun ha _ _ hb =>
    .of (ha.append hb) (by simp [Form.children, Form.slots, Slot.children]) rfl) .nothing) rfl

theorem importBare_grows : Grows source importBare :=
  .node (.map .nothing fun h => .of h rfl rfl) rfl

theorem importSpec_grows : Grows source importSpec :=
  .node (.ap (.map .nothing fun ha _ _ hb => .of (ha.append hb) rfl rfl) .nothing) rfl

theorem importNamespace_grows : Grows source importNamespace :=
  .node (.map .nothing fun h => .of h rfl rfl) rfl

theorem importNamed_keeps :
    (layout source).Relates importNamed (Keeps fun ns => ns.flatMap Sketch.parts) :=
  .bracketed (.tree shape_of_lays)

theorem importNamespace_keeps : (layout source).Relates
    ((fun specifier => [specifier]) <$> ref .importNamespace) (Keeps fun ns => ns.flatMap Sketch.parts) :=
  .map (.tree shape_of_lays) id

/-- A name that stands for the default of a module. -/
theorem laid_defaultImport {l : Located} (h : Laid source s l.parts e) :
    Laid source s [.free l.defaultImport] e :=
  ⟨h.1, Part.good_defaultImport (Part.good_label h.2.1.fits rfl), h.2.2⟩

theorem importDefaultNamed_laid {ns : List Sketch}
    (h : (layout source).Lays importDefaultNamed s ns e ps) : Laid source s (ns.flatMap Sketch.parts) e := by
  obtain ⟨f, m, ms, qs, rs, ⟨name, hname, rfl⟩, hms, rfl, rfl⟩ := h
  refine (laid_defaultImport (laid_of_keeps (.left (.left (.left .name))) hname)).append ?_
  exact laid_of_keeps (f := fun ns => ns.flatMap Sketch.parts)
    (.or (.list shape_of_lays) importNamespace_keeps) hms

theorem importClause_laid {ns : List Sketch} (h : (layout source).Lays importClause s ns e ps) :
    Laid source s (ns.flatMap Sketch.parts) e := by
  rcases h with h | h | h | ⟨name, h, rfl⟩
  · exact laid_of_keeps (.list shape_of_lays) h
  · exact laid_of_keeps importNamespace_keeps h
  · exact laid_of_keeps (.list shape_of_lays) h
  · exact laid_defaultImport (laid_of_keeps .name h)

theorem exportDecl_grows : Grows source exportDecl :=
  .node (.ap (.map .nothing fun ha _ _ hb => .of (ha.append hb) rfl rfl)
    (.or (.tree shape_of_lays) (.or (.tree shape_of_lays) (.tree shape_of_lays)))) rfl

end Modules

/-! ## Declarations -/

section Declarations

open ScriptGrammar

theorem functionDecl_grows : Grows source functionDecl :=
  .node (.ap (.ap (.ap (.ap (.map .nothing fun ha _ _ hb _ _ hc _ _ hd _ _ he =>
      .of ((((ha.append hb).append hc).append hd).append he)
        (by simp [Form.children, Form.slots, Slot.children]) rfl)
    .nothing) (.left .name)) (.left (.list shape_of_lays))) (.tree shape_of_lays)) rfl

theorem params_keeps : (layout source).Relates params (Keeps fun ns => ns.flatMap Sketch.parts) :=
  .bracketed (.tree shape_of_lays)

theorem param_grows : Grows source param :=
  .keeps (.or (.tree shape_of_lays) (.or (.tree shape_of_lays) (.tree shape_of_lays)))

theorem paramDefault_grows : Grows source paramDefault :=
  .node (.ap (.map (.left (.left (.left (.tree shape_of_lays)))) fun ha _ _ hb =>
    .of (ha.append hb) rfl rfl) (.tree shape_of_lays)) rfl

theorem restElement_grows : Grows source restElement :=
  .node (.map (.right (.tree shape_of_lays)) fun h => .of h rfl rfl) rfl

theorem binding_grows : Grows source binding :=
  .keeps (.or .identifier (.or (.tree shape_of_lays) (.tree shape_of_lays)))

theorem arrayPattern_grows : Grows source arrayPattern :=
  .node (.map (.bracketed (.tree shape_of_lays)) fun h =>
    .of h (by simp [Form.children, Form.slots, Slot.children]) rfl) rfl

theorem objectPattern_grows : Grows source objectPattern :=
  .node (.map (.bracketed (.tree shape_of_lays)) fun h =>
    .of h (by simp [Form.children, Form.slots, Slot.children]) rfl) rfl

theorem shorthand_grows : Grows source (Located.shorthand <$> ref .identifier) := by
  rintro s n e ps hs ⟨l, h, rfl⟩
  obtain ⟨hs, hl, he⟩ := laid_of_keeps .name h
  exact ⟨hs, Part.good_shorthand hl, he⟩

theorem patternProp_grows : Grows source patternProp :=
  .or (.keeps (.tree shape_of_lays)) <| .or (.keeps (.tree shape_of_lays)) <|
    .or (.keeps (.tree shape_of_lays)) shorthand_grows

theorem varStatement_grows : Grows source varStatement := .keeps (.left (.left (.tree shape_of_lays)))

theorem varDecl_grows : Grows source varDecl :=
  .node (.ap (.ap (.map .nothing fun ha _ _ hb _ _ hc =>
      .of ((ha.append hb).append hc) (by simp [Form.children, Form.slots, Slot.children]) rfl)
    (.tree shape_of_lays)) (.many (.right (.tree shape_of_lays)))) rfl

theorem declarator_grows : Grows source declarator :=
  .node (.ap (.map (.tree shape_of_lays) fun ha _ _ hb =>
      .of (ha.append hb) (by simp [Form.children, Form.slots, Slot.children]) rfl)
    (.option (.right (.tree shape_of_lays)))) rfl

theorem patternKeyed_grows : Grows source patternKeyed :=
  .nodeOf (.ap (.map (.left (.left (.left .label))) fun ha _ _ hb s e hlt hin hlaid =>
      ⟨Nat.le_refl s, Part.good_keyed (hlaid.sublist (ha.append hb)) hlt hin, Nat.le_refl e⟩)
    (.tree shape_of_lays)) rfl

theorem patternDefault_grows : Grows source patternDefault := by
  rintro s n e ps hs ⟨f, h, rfl⟩
  obtain ⟨g, m, value, qs, rs, ⟨name, hname, rfl⟩, hvalue, rfl, rfl⟩ := id h
  have hlaid : Laid source s [.free name.identifier, .free value] e :=
    (laid_of_keeps (f := Located.parts) (.left (.left (.left .name))) hname).append
      (laid_of_keeps (f := Sketch.parts) (.tree shape_of_lays) hvalue)
  obtain ⟨_, _, hname⟩ := hname.of_left
  obtain ⟨_, _, hname⟩ := hname.of_left
  obtain ⟨_, _, hname⟩ := hname.of_left
  have hfirst : name.span.start = s := by rw [(shape_of_lays hname).2]
  exact ⟨Nat.le_refl s, Part.good_defaulted hlaid hfirst (lt_of_lays h rfl) (h.inside hs), Nat.le_refl e⟩

end Declarations

/-! ## Expressions -/

section Expressions

open ScriptGrammar

theorem expr_grows : Grows source expr := by
  refine .spanned (.ap (.map (.tree shape_of_lays) ?_) (.many (.right (.tree shape_of_lays)))) rfl
  intro first qs ha rest rs hb s e hlt hin hlaid
  cases rest with
  | nil => exact hlaid.sublist (ha.append hb)
  | cons next rest =>
    refine Plain.builds (.of (ha.append hb) ?_ rfl) s e hlt hin hlaid
    simp [Form.children, Form.slots, Slot.children]

theorem assignExpr_grows : Grows source assignExpr :=
  .keeps (.or (.tree shape_of_lays) (.or (.tree shape_of_lays) (.tree shape_of_lays)))

theorem assignment_grows : Grows source assignment :=
  .node (.ap (.ap (.map (.left (.tree shape_of_lays)) fun ha _ _ hb _ _ hc =>
      .of ((ha.append hb).append hc) rfl rfl) .nothing) (.tree shape_of_lays)) rfl

theorem arrowFunction_grows : Grows source arrowFunction :=
  .node (.ap (.ap (.map .nothing fun ha _ _ hb _ _ hc =>
      .of ((ha.append hb).append hc) (by simp [Form.children, Form.slots, Slot.children]) rfl)
    (.left (.left (.left (.list shape_of_lays))))) (.or (.tree shape_of_lays) (.tree shape_of_lays))) rfl

theorem arrowParams_keeps :
    (layout source).Relates arrowParams (Keeps fun ns => ns.flatMap Sketch.parts) :=
  .or (.list shape_of_lays) (.map .name id)

theorem conditional_grows : Grows source conditional := by
  refine .spanned (.ap (.map (.tree shape_of_lays) ?_)
    (.option (.pair (.right (.tree shape_of_lays)) (.right (.tree shape_of_lays))))) rfl
  intro test qs ha branches rs hb s e hlt hin hlaid
  cases branches with
  | none => exact hlaid.sublist (ha.append hb)
  | some branches => exact Plain.builds (.of (ha.append hb) rfl rfl) s e hlt hin hlaid

theorem chain_grows {op : Type} {join : Sketch → op → Sketch → Sketch} {operand : Pattern Sketch}
    {operator : Pattern op} (hjoin : ∀ a o b, ∃ form, join a o b = ⟨form, ⟨a.span.start, b.span.stop⟩⟩ ∧
      form.isPlain = true ∧ form.children = [a, b])
    (h : (layout source).Relates operand (Keeps Sketch.parts)) :
    Grows source (chain join operand operator) := by
  rintro s n e ps hs ⟨f, m, steps, qs, rs, ⟨first, hfirst, rfl⟩, hsteps, rfl, rfl⟩
  have hrest := laid_of_keeps (.many (.pair .nothing h)) hsteps
  refine Laid.foldl_join hjoin ((laid_of_keeps h hfirst).append ?_)
  rw [List.map_eq_flatMap]
  exact hrest

theorem logical_chain_grows {operand : Pattern Sketch} {operator : Pattern LogicalOp}
    (h : (layout source).Relates operand (Keeps Sketch.parts)) :
    Grows source (chain .logical operand operator) :=
  chain_grows (fun a o b => ⟨.logicalExpression a o b, rfl, rfl, rfl⟩) h

theorem binary_chain_grows {operand : Pattern Sketch} {operator : Pattern BinaryOp}
    (h : (layout source).Relates operand (Keeps Sketch.parts)) :
    Grows source (chain .binary operand operator) :=
  chain_grows (fun a o b => ⟨.binaryExpression a o b, rfl, rfl, rfl⟩) h

theorem exponent_grows : Grows source exponent := by
  refine .spanned (.ap (.map (.tree shape_of_lays) ?_)
    (.option (.pair .nothing (.tree shape_of_lays)))) rfl
  intro base qs ha power rs hb s e hlt hin hlaid
  cases power with
  | none => exact hlaid.sublist (ha.append hb)
  | some power => exact Plain.builds (.of (ha.append hb) rfl rfl) s e hlt hin hlaid

theorem unary_grows : Grows source unary :=
  .keeps (.or (.tree shape_of_lays) (.or (.tree shape_of_lays)
    (.or (.tree shape_of_lays) (.tree shape_of_lays))))

theorem awaitExpr_grows : Grows source awaitExpr := by
  rintro s n e ps hs ⟨form, h, rfl⟩
  obtain ⟨argument, ⟨u, m, argument, qs, rs, ⟨u, k, t, us, ts, hword, hgap, rfl, rfl⟩, harg, rfl, rfl⟩, rfl⟩ :=
    id h
  obtain ⟨hopens, rfl⟩ := shape_of_lays hword
  have hlaid : Laid source (s + 5) [.free argument] e :=
    (laid_of_keeps (f := fun _ => []) .nothing hgap).append
      (laid_of_keeps (f := Sketch.parts) (.tree shape_of_lays) harg)
  have hordered : Node.Ordered source ⟨.awaitExpression argument, ⟨s, e⟩⟩ := ⟨hopens, hlaid.sequenced⟩
  exact ⟨Nat.le_refl s, Part.good_node hlaid hordered trivial rfl rfl nofun (lt_of_lays h rfl) (h.inside hs),
    Nat.le_refl e⟩

theorem prefixUpdate_grows : Grows source prefixUpdate :=
  .node (.ap (.map .nothing fun ha _ _ hb => .of (ha.append hb) rfl rfl) (.tree shape_of_lays)) rfl

theorem prefixUnary_grows : Grows source prefixUnary :=
  .node (.ap (.map .nothing fun ha _ _ hb => .of (ha.append hb) rfl rfl) (.tree shape_of_lays)) rfl

theorem postfixExpr_grows : Grows source postfixExpr := by
  refine .spanned (.ap (.map (.tree shape_of_lays) ?_) .nothing) rfl
  intro operand qs ha operator rs hb s e hlt hin hlaid
  cases operator with
  | none => exact hlaid.sublist (ha.append hb)
  | some operator => exact Plain.builds (.of (ha.append hb) rfl rfl) s e hlt hin hlaid

end Expressions

/-! ## Calls and members -/

section Calls

open ScriptGrammar

theorem callTail_fits {tail : Tail} (hs : s ≤ source.length)
    (h : (layout source).Lays callTail s tail e ps) : tail.Fits source s e := by
  obtain ⟨f, ⟨link, h, rfl⟩, rfl⟩ := h
  refine ⟨laid_of_keeps (f := fun link => link.1.parts) (.right ?_) h, rfl, lt_of_lays h rfl, h.inside hs⟩
  exact .or (.map (.exactly shape_of_lays) id) <| .or (.map (.exactly shape_of_lays) id) <|
    .or (.map (.exactly shape_of_lays) id) (.map (.exactly shape_of_lays) id)

theorem callMember_grows : Grows source callMember := by
  rintro s n e ps hs ⟨f, m, tails, qs, rs, ⟨n, hn, rfl⟩, htails, rfl, rfl⟩
  have hlaid := laid_of_keeps (.or (.tree shape_of_lays) (.tree shape_of_lays)) hn
  refine hlaid.extendAll ?_ (hn.inside hs) htails
  intro _ _ _ _ _ ht
  exact shape_of_lays ht

theorem newCallee_grows : Grows source newCallee := by
  rintro s n e ps hs ⟨f, m, tails, qs, rs, ⟨n, hn, rfl⟩, htails, rfl, rfl⟩
  have hlaid := laid_of_keeps (.or (.tree shape_of_lays) (.tree shape_of_lays)) hn
  refine hlaid.extendAll ?_ (hn.inside hs) htails
  rintro s tail e ps hs ⟨g, ⟨link, h, rfl⟩, rfl⟩
  refine ⟨laid_of_keeps (f := Link.parts) (.right ?_) h, rfl, lt_of_lays h rfl, h.inside hs⟩
  exact .or (.map (.exactly shape_of_lays) id) (.map (.exactly shape_of_lays) id)

theorem newExpr_grows : Grows source newExpr :=
  .node (.ap (.map (.right (.tree shape_of_lays)) fun ha arguments _ hb => by
      refine .of (ha.append hb) ?_ rfl
      cases arguments <;> simp [Form.children, Form.slots, Slot.children])
    (.option (.right (.list shape_of_lays)))) rfl

theorem arguments_keeps :
    (layout source).Relates arguments (Keeps fun ns => ns.flatMap Sketch.parts) :=
  .bracketed (.tree shape_of_lays)

theorem argument_grows : Grows source argument :=
  .keeps (.or (.tree shape_of_lays) (.tree shape_of_lays))

theorem spreadElement_grows : Grows source spreadElement :=
  .node (.map (.right (.tree shape_of_lays)) fun h => .of h rfl rfl) rfl

theorem memberDot_keeps : (layout source).Relates memberDot (Keeps Located.labelParts) := .right .label

theorem memberIndex_grows : Grows source memberIndex :=
  .keeps (.left (.left (.right (.tree shape_of_lays))))

theorem optionalChain_keeps : (layout source).Relates optionalChain (Keeps Link.parts) :=
  .right <| .or (.map (.exactly shape_of_lays) id) <| .or (.map (.exactly shape_of_lays) id) (.map .label id)

end Calls

/-! ## Primary expressions -/

section Primary

open ScriptGrammar

theorem primary_grows : Grows source primary := by
  refine .keeps ?_
  iterate 7 refine .or (.tree shape_of_lays) ?_
  exact .identifier

theorem parenExpr_grows : Grows source parenExpr :=
  .keeps (.left (.left (.right (.tree shape_of_lays))))

theorem thisExpr_grows : Grows source thisExpr :=
  .node (.map .nothing fun h => .of h rfl rfl) rfl

theorem functionExpr_grows : Grows source functionExpr :=
  .node (.ap (.ap (.ap (.ap (.map .nothing fun ha _ _ hb name _ hc _ _ hd _ _ he => by
      refine .of ((((ha.append hb).append hc).append hd).append he) ?_ rfl
      cases name <;> simp [Form.children, Form.slots, Slot.children])
    .nothing) (.left (.option .name))) (.left (.list shape_of_lays))) (.tree shape_of_lays)) rfl

theorem arrayLiteral_grows : Grows source arrayLiteral :=
  .node (.map (.bracketed (.tree shape_of_lays)) fun h =>
    .of h (by simp [Form.children, Form.slots, Slot.children]) rfl) rfl

theorem objectLiteral_grows : Grows source objectLiteral :=
  .node (.map (.bracketed (.tree shape_of_lays)) fun h =>
    .of h (by simp [Form.children, Form.slots, Slot.children]) rfl) rfl

theorem objectMember_grows : Grows source objectMember :=
  .or (.keeps (.tree shape_of_lays)) <| .or (.keeps (.tree shape_of_lays)) <|
    .or (.keeps (.tree shape_of_lays)) shorthand_grows

/-- What may be there takes some of the text exactly if it is there. -/
theorem present_stop {p : Pattern α} {b : Bool} (hp : p.isSolid Rule.isSolid = true)
    (h : (layout source).Lays (present p) s b e ps) : s ≤ e ∧ (e = s ↔ b = false) := by
  obtain ⟨v, ⟨rfl, rfl, -⟩ | ⟨a, h, rfl⟩, rfl⟩ := h
  · exact ⟨Nat.le_refl _, fun _ => rfl, fun _ => rfl⟩
  · have hlt := lt_of_lays h hp
    exact ⟨Nat.le_of_lt hlt, fun he => absurd he (Nat.ne_of_gt hlt), nofun⟩

theorem methodMember_grows : Grows source methodMember := by
  rintro s n e ps hs ⟨f, h, rfl⟩
  obtain ⟨_, m₃, body, _, _, ⟨_, m₂, params, _, _, ⟨_, m₁, key, _, _, ⟨_, m, generator, _, _,
    ⟨isAsync, hasync, rfl⟩, hstar, rfl, rfl⟩, hkey, rfl, rfl⟩, hparams, rfl, rfl⟩, hbody, rfl, rfl⟩ := id h
  obtain ⟨hm, hasync⟩ := present_stop rfl hasync
  obtain ⟨hm₁, hstar⟩ := present_stop rfl hstar
  have hlaid : Laid source m₁ (key.parts ++ (params.flatMap Sketch.parts ++ body.parts)) e :=
    (laid_of_keeps (.left .key) hkey).append ((laid_of_keeps (.left (.list shape_of_lays)) hparams).append
      (laid_of_keeps (.tree shape_of_lays) hbody))
  have hfirst : key.node.span.start = s ↔ key.computed = false ∧ (isAsync || generator) = false := by
    obtain ⟨_, _, hkey⟩ := hkey.of_left
    have hle : m₁ ≤ key.node.span.start := hlaid.1
    rw [Bool.or_eq_false_iff, ← hasync, ← hstar, ← (shape_of_lays hkey).2]
    omega
  rw [← List.map_eq_flatMap] at hlaid
  exact ⟨Nat.le_refl s, Part.good_method (hlaid.mono (Nat.le_trans hm hm₁) (Nat.le_refl e)) hfirst
    (lt_of_lays h rfl) (h.inside hs), Nat.le_refl e⟩

theorem keyedMember_grows : Grows source keyedMember :=
  .spanned (.ap (.map (.left (.left (.left .key)))
      fun ha _ _ hb s e hlt hin hlaid =>
        ⟨Nat.le_refl s, Part.good_keyed (hlaid.sublist (ha.append hb)) hlt hin, Nat.le_refl e⟩)
    (.tree shape_of_lays)) rfl

/-- A computed key begins after its bracket. -/
theorem computedKey_laid {n : Sketch} (h : (layout source).Lays computedKey s n e ps) :
    Laid source s n.parts e ∧ s < n.span.start := by
  refine ⟨laid_of_keeps (.left (.left (.right (.tree shape_of_lays)))) h, ?_⟩
  obtain ⟨_, _, h⟩ := h.of_left
  obtain ⟨_, _, h⟩ := h.of_left
  obtain ⟨_, m, n, _, _, hopening, hn, rfl, rfl⟩ := h
  have hle := (laid_of_keeps (f := Sketch.parts) (.tree shape_of_lays) hn).1
  exact Nat.lt_of_lt_of_le (lt_of_lays hopening rfl) hle

theorem template_children (pieces : List Piece) :
    (Sketch.template pieces).children.flatMap Sketch.parts = pieces.flatMap Piece.parts := by
  suffices h : (Sketch.templateParts pieces).2.flatMap (fun step => [Part.free step.1])
      = pieces.flatMap Piece.parts by
    simpa [Sketch.template, Form.children, Form.slots, Slot.children, List.flatMap_map] using h
  induction pieces with
  | nil => rfl
  | cons piece pieces ih =>
    cases piece with
    | chunk text => exact ih
    | substitution expression => exact congrArg (Part.free expression :: ·) ih

theorem template_grows : Grows source template :=
  .node (.map (.left (.right (.many (.exactly shape_of_lays)))) fun h =>
    .of h (template_children _) rfl) rfl

theorem templatePart_keeps : (layout source).Relates templatePart (Keeps Piece.parts) :=
  .or (.map (.tree shape_of_lays) id) (.map .nothing id)

theorem templateSubst_grows : Grows source templateSubst :=
  .keeps (.left (.left (.right (.tree shape_of_lays))))

end Primary

/-! ## Literals and names -/

section Literals

open ScriptGrammar

/-- A lexeme at the span of its match. -/
structure Marks (source : Text) (l : Lexeme) (span : Span) (text : Text) : Prop where
  nonempty : span.start < span.stop
  inside : span.stop ≤ source.length
  stands : Stands source l span
  text : text = source.slice span

theorem marks_of_length? {l : Lexeme} {n : Nat} (hsolid : l.isSolid = true)
    (hn : l.length? (source.drop s) = some n) (hs : s ≤ source.length) :
    Marks source l ⟨s, s + n⟩ ((source.drop s).take n) := by
  have hpos := Lexeme.length?_pos hsolid hn
  have hle := Lexeme.length?_le hn
  rw [List.length_drop] at hle
  refine ⟨Nat.lt_add_of_pos_right hpos, (by omega : s + n ≤ source.length), ?_, ?_⟩
  · rw [Stands, Nat.add_sub_cancel_left]; exact hn
  · rw [Text.slice, Nat.add_sub_cancel_left]

theorem laid_literal {c : TokenClass} {l : Lexeme} {n : Nat} (hl : l ∈ Literal.lexemes c)
    (hsolid : l.isSolid = true) (hn : l.length? (source.drop s) = some n) (hs : s ≤ source.length) :
    Laid source s [.free ⟨.literal c ((source.drop s).take n), ⟨s, s + n⟩⟩] (s + n) :=
  have h := marks_of_length? hsolid hn hs
  ⟨Nat.le_refl s, Part.good_literal hl h.nonempty h.inside h.stands h.text, Nat.le_refl _⟩

theorem number_laid {l : Located} (hs : s ≤ source.length)
    (h : (layout source).Lays (located (.lexeme .number)) s l e ps) :
    Laid source s l.number.parts e ∧ l.span = ⟨s, e⟩ := by
  obtain ⟨text, ⟨n, hn, rfl, rfl, rfl⟩, rfl⟩ := h
  exact ⟨laid_literal (c := .number) (List.mem_singleton_self _) rfl hn hs, rfl⟩

theorem string_laid {l : Located} (hs : s ≤ source.length)
    (h : (layout source).Lays string s l e ps) : Laid source s l.string.parts e ∧ l.span = ⟨s, e⟩ := by
  obtain ⟨text, ⟨n, hn, rfl, rfl, rfl⟩ | ⟨n, hn, rfl, rfl, rfl⟩, rfl⟩ := h
  · exact ⟨laid_literal (c := .string) List.mem_cons_self rfl hn hs, rfl⟩
  · exact ⟨laid_literal (c := .string) (List.mem_cons_of_mem _ List.mem_cons_self) rfl hn hs, rfl⟩

theorem boolean_grows : Grows source boolean := by
  rintro s n e ps hs ⟨form, ⟨text, ⟨n, hn, rfl, rfl, rfl⟩, rfl⟩ | ⟨text, ⟨n, hn, rfl, rfl, rfl⟩, rfl⟩, rfl⟩
  · exact laid_literal (c := .boolean true) (List.mem_singleton_self _) rfl hn hs
  · exact laid_literal (c := .boolean false) (List.mem_singleton_self _) rfl hn hs

theorem null_grows : Grows source null := by
  rintro s n e ps hs ⟨form, ⟨text, ⟨n, hn, rfl, rfl, rfl⟩, rfl⟩, rfl⟩
  exact laid_literal (c := .null) (List.mem_singleton_self _) rfl hn hs

theorem literal_grows : Grows source literal :=
  .keeps (.or (.map .number id) (.or (.map .string id) (.or (.tree shape_of_lays) (.tree shape_of_lays))))

theorem laid_name {n : Nat} (hn : Lexeme.name.length? (source.drop s) = some n) (hs : s ≤ source.length) :
    Laid source s [.label (Located.identifier ⟨(source.drop s).take n, ⟨s, s + n⟩⟩)] (s + n) :=
  have h := marks_of_length? rfl hn hs
  ⟨Nat.le_refl s, Part.good_name h.nonempty h.inside h.stands h.text, Nat.le_refl _⟩

theorem propertyName_laid {l : Located} (hs : s ≤ source.length)
    (h : (layout source).Lays (located (.lexeme .name)) s l e ps) :
    Laid source s [.label l.identifier] e ∧ l.span = ⟨s, e⟩ := by
  obtain ⟨text, ⟨n, hn, rfl, rfl, rfl⟩, rfl⟩ := h
  exact ⟨laid_name hn hs, rfl⟩

theorem identifier_laid {l : Located} (hs : s ≤ source.length)
    (h : (layout source).Lays identifier s l e ps) :
    Laid source s [.free l.identifier] e ∧ l.span = ⟨s, e⟩ := by
  obtain ⟨text, ⟨u, m, t, qs, rs, ⟨hmiss, rfl, rfl⟩, ⟨n, hn, rfl, rfl, rfl⟩, rfl, rfl⟩, rfl⟩ := h
  obtain ⟨hle, hgood, hle'⟩ := laid_name hn hs
  exact ⟨⟨hle, Part.good_identifier hgood (Lexeme.isReserved_name hn hmiss), hle'⟩, rfl⟩

theorem Laid.toLabel {n : Sketch} (h : Laid source s [.free n] e) (hn : n.children = []) :
    Laid source s [.label n] e :=
  ⟨h.1, Part.good_label h.2.1.fits hn, h.2.2⟩

/-- A key begins where it is matched, unless it is computed. -/
theorem propKey_laid {key : Key} (h : (layout source).Lays propKey s key e ps) :
    Laid source s key.parts e ∧ (key.node.span.start = s ↔ key.computed = false) := by
  rcases h with ⟨n, h, rfl⟩ | ⟨l, h, rfl⟩ | ⟨l, h, rfl⟩ | ⟨l, h, rfl⟩
  · obtain ⟨rfl, hlt⟩ := shape_of_lays h
    exact ⟨laid_of_lays h, fun he => absurd he (Nat.ne_of_gt hlt), nofun⟩
  · exact ⟨laid_of_keeps (f := Located.labelParts) .label h, fun _ => rfl,
      fun _ => congrArg Span.start (shape_of_lays h).2⟩
  · exact ⟨(laid_of_keeps .string h).toLabel rfl, fun _ => rfl, fun _ => congrArg Span.start (shape_of_lays h).2⟩
  · exact ⟨(laid_of_keeps .number h).toLabel rfl, fun _ => rfl, fun _ => congrArg Span.start (shape_of_lays h).2⟩

theorem word_opens {text : String} {v : Text} (h : (layout source).Lays (word text) s v e ps) :
    Opens source text s ∧ e = s + (Text.ofString text).length := by
  obtain ⟨n, hn, rfl, rfl, rfl⟩ := h
  have hlength := Lexeme.length?_exact hn
  subst hlength
  exact ⟨hn, rfl⟩

end Literals

/-! ## All rules -/

theorem Grows.yields {p : Peg Yield Sketch} {n : Sketch} (hp : Grows source p) (hs : s ≤ source.length)
    (h : (layout source).Lays p s n e ps) : ∃ qs, Laid source s qs e ∧ qs = [.free n] :=
  ⟨_, hp s n e ps hs h, rfl⟩

theorem list_yields {ns : List Sketch} (h : Laid source s (ns.flatMap Sketch.parts) e) :
    ∃ qs, Laid source s qs e ∧ qs = ns.map .free :=
  ⟨_, h, List.map_eq_flatMap.symm⟩

theorem shape_of_rule (r : Rule) {v : Yield r} (hs : s ≤ source.length)
    (h : (layout source).Lays (scriptGrammar r) s v e ps) :
    ∃ qs, Laid source s qs e ∧ r.Shape source s v e qs := by
  cases r with
  | statement => exact statement_grows.yields hs h
  | block => exact block_grows.yields hs h
  | emptyStmt => exact emptyStmt_grows.yields hs h
  | importDecl => exact importDecl_grows.yields hs h
  | importFrom => exact importFrom_grows.yields hs h
  | importBare => exact importBare_grows.yields hs h
  | importSpec => exact importSpec_grows.yields hs h
  | importNamespace => exact importNamespace_grows.yields hs h
  | exportDecl => exact exportDecl_grows.yields hs h
  | functionDecl => exact functionDecl_grows.yields hs h
  | param => exact param_grows.yields hs h
  | paramDefault => exact paramDefault_grows.yields hs h
  | restElement => exact restElement_grows.yields hs h
  | binding => exact binding_grows.yields hs h
  | arrayPattern => exact arrayPattern_grows.yields hs h
  | objectPattern => exact objectPattern_grows.yields hs h
  | patternProp => exact patternProp_grows.yields hs h
  | patternKeyed => exact patternKeyed_grows.yields hs h
  | patternDefault => exact patternDefault_grows.yields hs h
  | varStatement => exact varStatement_grows.yields hs h
  | varDecl => exact varDecl_grows.yields hs h
  | declarator => exact declarator_grows.yields hs h
  | ifStmt => exact ifStmt_grows.yields hs h
  | whileStmt => exact whileStmt_grows.yields hs h
  | doWhileStmt => exact doWhileStmt_grows.yields hs h
  | forStmt => exact forStmt_grows.yields hs h
  | forInit => exact forInit_grows.yields hs h
  | forInOfStmt => exact forInOfStmt_grows.yields hs h
  | forLeft => exact forLeft_grows.yields hs h
  | varHead => exact varHead_grows.yields hs h
  | tryStmt => exact tryStmt_grows.yields hs h
  | catchClause => exact catchClause_grows.yields hs h
  | finallyClause => exact finallyClause_grows.yields hs h
  | returnStmt => exact returnStmt_grows.yields hs h
  | breakStmt => exact breakStmt_grows.yields hs h
  | continueStmt => exact continueStmt_grows.yields hs h
  | throwStmt => exact throwStmt_grows.yields hs h
  | exprStmt => exact exprStmt_grows.yields hs h
  | expr => exact expr_grows.yields hs h
  | assignExpr => exact assignExpr_grows.yields hs h
  | assignment => exact assignment_grows.yields hs h
  | arrowFunction => exact arrowFunction_grows.yields hs h
  | conditional => exact conditional_grows.yields hs h
  | exponent => exact exponent_grows.yields hs h
  | unary => exact unary_grows.yields hs h
  | awaitExpr => exact awaitExpr_grows.yields hs h
  | prefixUpdate => exact prefixUpdate_grows.yields hs h
  | prefixUnary => exact prefixUnary_grows.yields hs h
  | postfixExpr => exact postfixExpr_grows.yields hs h
  | callMember => exact callMember_grows.yields hs h
  | argument => exact argument_grows.yields hs h
  | spreadElement => exact spreadElement_grows.yields hs h
  | memberIndex => exact memberIndex_grows.yields hs h
  | newExpr => exact newExpr_grows.yields hs h
  | newCallee => exact newCallee_grows.yields hs h
  | primary => exact primary_grows.yields hs h
  | parenExpr => exact parenExpr_grows.yields hs h
  | thisExpr => exact thisExpr_grows.yields hs h
  | functionExpr => exact functionExpr_grows.yields hs h
  | arrayLiteral => exact arrayLiteral_grows.yields hs h
  | objectLiteral => exact objectLiteral_grows.yields hs h
  | objectMember => exact objectMember_grows.yields hs h
  | methodMember => exact methodMember_grows.yields hs h
  | keyedMember => exact keyedMember_grows.yields hs h
  | template => exact template_grows.yields hs h
  | templateSubst => exact templateSubst_grows.yields hs h
  | literal => exact literal_grows.yields hs h
  | boolean => exact boolean_grows.yields hs h
  | null => exact null_grows.yields hs h
  | logicalOr => exact (logical_chain_grows (.tree shape_of_lays)).yields hs h
  | logicalAnd => exact (logical_chain_grows (.tree shape_of_lays)).yields hs h
  | bitOr => exact (binary_chain_grows (.tree shape_of_lays)).yields hs h
  | bitXor => exact (binary_chain_grows (.tree shape_of_lays)).yields hs h
  | bitAnd => exact (binary_chain_grows (.tree shape_of_lays)).yields hs h
  | equality => exact (binary_chain_grows (.tree shape_of_lays)).yields hs h
  | relational => exact (binary_chain_grows (.tree shape_of_lays)).yields hs h
  | shift => exact (binary_chain_grows (.tree shape_of_lays)).yields hs h
  | additive => exact (binary_chain_grows (.tree shape_of_lays)).yields hs h
  | multiplicative => exact (binary_chain_grows (.tree shape_of_lays)).yields hs h
  | importNamed => exact list_yields (laid_of_keeps importNamed_keeps h)
  | params => exact list_yields (laid_of_keeps params_keeps h)
  | arrowParams => exact list_yields (laid_of_keeps arrowParams_keeps h)
  | arguments => exact list_yields (laid_of_keeps arguments_keeps h)
  | importClause => exact list_yields (importClause_laid h)
  | importDefaultNamed => exact list_yields (importDefaultNamed_laid h)
  | program => exact list_yields (laid_of_keeps (.right (.many (.tree shape_of_lays))) h)
  | callTail => exact ⟨_, (callTail_fits hs h).parts, callTail_fits hs h⟩
  | memberDot => exact ⟨_, laid_of_keeps memberDot_keeps h, rfl⟩
  | optionalChain => exact ⟨_, laid_of_keeps optionalChain_keeps h, rfl⟩
  | computedKey => exact ⟨_, (computedKey_laid h).1, rfl, (computedKey_laid h).2⟩
  | propKey => exact ⟨_, (propKey_laid h).1, rfl, (propKey_laid h).2⟩
  | templatePart => exact ⟨_, laid_of_keeps templatePart_keeps h, rfl⟩
  | number => exact ⟨_, (number_laid hs h).1, rfl, (number_laid hs h).2⟩
  | string => exact ⟨_, (string_laid hs h).1, rfl, (string_laid hs h).2⟩
  | identifier => exact ⟨_, (identifier_laid hs h).1, rfl, (identifier_laid hs h).2⟩
  | propertyName => exact ⟨_, (propertyName_laid hs h).1, rfl, (propertyName_laid hs h).2⟩
  | whileWord => exact ⟨ps, laid_of_lays h, word_opens h⟩
  | awaitWord => exact ⟨ps, laid_of_lays h, word_opens h⟩
  | _ => exact ⟨ps, laid_of_lays h, trivial⟩

theorem solid_of_rule (r : Rule) (h : r.isSolid = true) :
    (scriptGrammar r).isSolid Rule.isSolid = true := by
  cases r <;> first | rfl | cases h

/-- **Every match of every rule lays out its trees as it should.** -/
theorem layout_supports (source : Text) (depth : Nat) : (layout source).Supports (scriptGrammar.eval depth) := by
  refine Account.supports (fun r s v e ps hs h => ?_) (fun r s h => ?_) depth
  · obtain ⟨qs, hlaid, hshape⟩ := shape_of_rule r hs h
    have hspanned := h.spanned fun _ _ _ _ _ (hr : Rule.Found ..) => hr.spanned
    exact ⟨qs, hspanned.weaken (solid_of_rule r), h.inside hs, hlaid, hshape⟩
  · cases r with
    | keyword => exact h
    | _ => trivial

end ScriptAudit
