/-
Folding trees: replacing each node, from the leaves up, by a value made of its layer and its span.
`Node.fold_eq` says so in terms of `Form.map`, which replaces the subtrees of one layer.
-/
import ScriptAudit.Tree.Node

namespace ScriptAudit

/-- Replaces the subtrees of a layer. -/
def Form.map {ℓ α β : Type} (f : α → β) : Form ℓ α → Form ℓ β
  | program body => .program (body.map f)
  | blockStatement body => .blockStatement (body.map f)
  | emptyStatement => .emptyStatement
  | expressionStatement expression => .expressionStatement (f expression)
  | variableDeclarator id init => .variableDeclarator (f id) (init.map f)
  | variableDeclaration kind declarations => .variableDeclaration kind (declarations.map f)
  | functionDeclaration id params body isAsync generator =>
    .functionDeclaration (f id) (params.map f) (f body) isAsync generator
  | returnStatement argument => .returnStatement (argument.map f)
  | ifStatement test consequent alternate => .ifStatement (f test) (f consequent) (alternate.map f)
  | whileStatement test body => .whileStatement (f test) (f body)
  | doWhileStatement body test => .doWhileStatement (f body) (f test)
  | forStatement init test update body =>
    .forStatement (init.map f) (test.map f) (update.map f) (f body)
  | forOfStatement left right body => .forOfStatement (f left) (f right) (f body)
  | forInStatement left right body => .forInStatement (f left) (f right) (f body)
  | breakStatement => .breakStatement
  | continueStatement => .continueStatement
  | throwStatement argument => .throwStatement (f argument)
  | catchClause param body => .catchClause (param.map f) (f body)
  | tryStatement block handler finalizer =>
    .tryStatement (f block) (handler.map f) (finalizer.map f)
  | importSpecifier imported bound kind => .importSpecifier imported bound kind
  | importDeclaration specifiers source => .importDeclaration (specifiers.map f) source
  | exportDeclaration declaration isDefault => .exportDeclaration (f declaration) isDefault
  | identifier name => .identifier name
  | literal value raw => .literal value raw
  | thisExpression => .thisExpression
  | templateLiteral quasis expressions => .templateLiteral quasis (expressions.map f)
  | arrayExpression elements => .arrayExpression (elements.map f)
  | property key value computed shorthand method =>
    .property (f key) (f value) computed shorthand method
  | objectExpression properties => .objectExpression (properties.map f)
  | spreadElement argument => .spreadElement (f argument)
  | functionExpression id params body isAsync generator =>
    .functionExpression (id.map f) (params.map f) (f body) isAsync generator
  | arrowFunctionExpression params body isAsync =>
    .arrowFunctionExpression (params.map f) (f body) isAsync
  | unaryExpression operator argument => .unaryExpression operator (f argument)
  | updateExpression operator argument before => .updateExpression operator (f argument) before
  | binaryExpression left operator right => .binaryExpression (f left) operator (f right)
  | logicalExpression left operator right => .logicalExpression (f left) operator (f right)
  | assignmentExpression left operator right => .assignmentExpression (f left) operator (f right)
  | conditionalExpression test consequent alternate =>
    .conditionalExpression (f test) (f consequent) (f alternate)
  | callExpression callee arguments optional =>
    .callExpression (f callee) (arguments.map f) optional
  | newExpression callee arguments => .newExpression (f callee) (arguments.map f)
  | memberExpression object selected computed optional =>
    .memberExpression (f object) (f selected) computed optional
  | sequenceExpression expressions => .sequenceExpression (expressions.map f)
  | awaitExpression argument => .awaitExpression (f argument)
  | arrayPattern elements => .arrayPattern (elements.map f)
  | objectPattern properties => .objectPattern (properties.map f)
  | restElement argument => .restElement (f argument)
  | assignmentPattern left right => .assignmentPattern (f left) (f right)

theorem Form.children_map {ℓ α β : Type} (f : α → β) (form : Form ℓ α) :
    (form.map f).children = form.children.map f := by
  cases form <;> simp only [Form.map, Form.children, Form.slots, Slot.children, Option.toList_map, List.flatMap_cons,
    List.flatMap_nil, List.map_append, List.map_cons, List.map_nil, List.append_nil]

variable {ℓ β : Type}

mutual

def Node.fold (f : Form ℓ β → Span → β) : Node ℓ → β
  | ⟨form, span⟩ => f (Form.fold f form) span

def Form.fold (f : Form ℓ β → Span → β) : Form ℓ (Node ℓ) → Form ℓ β
  | .program body => .program (Node.foldList f body)
  | .blockStatement body => .blockStatement (Node.foldList f body)
  | .emptyStatement => .emptyStatement
  | .expressionStatement expression => .expressionStatement (expression.fold f)
  | .variableDeclarator id init => .variableDeclarator (id.fold f) (Node.foldOption f init)
  | .variableDeclaration kind declarations => .variableDeclaration kind (Node.foldList f declarations)
  | .functionDeclaration id params body isAsync generator =>
    .functionDeclaration (id.fold f) (Node.foldList f params) (body.fold f) isAsync generator
  | .returnStatement argument => .returnStatement (Node.foldOption f argument)
  | .ifStatement test consequent alternate =>
    .ifStatement (test.fold f) (consequent.fold f) (Node.foldOption f alternate)
  | .whileStatement test body => .whileStatement (test.fold f) (body.fold f)
  | .doWhileStatement body test => .doWhileStatement (body.fold f) (test.fold f)
  | .forStatement init test update body =>
    .forStatement (Node.foldOption f init) (Node.foldOption f test) (Node.foldOption f update) (body.fold f)
  | .forOfStatement left right body => .forOfStatement (left.fold f) (right.fold f) (body.fold f)
  | .forInStatement left right body => .forInStatement (left.fold f) (right.fold f) (body.fold f)
  | .breakStatement => .breakStatement
  | .continueStatement => .continueStatement
  | .throwStatement argument => .throwStatement (argument.fold f)
  | .catchClause param body => .catchClause (Node.foldOption f param) (body.fold f)
  | .tryStatement block handler finalizer =>
    .tryStatement (block.fold f) (Node.foldOption f handler) (Node.foldOption f finalizer)
  | .importSpecifier imported bound kind => .importSpecifier imported bound kind
  | .importDeclaration specifiers source => .importDeclaration (Node.foldList f specifiers) source
  | .exportDeclaration declaration isDefault => .exportDeclaration (declaration.fold f) isDefault
  | .identifier name => .identifier name
  | .literal value raw => .literal value raw
  | .thisExpression => .thisExpression
  | .templateLiteral quasis expressions => .templateLiteral quasis (Node.foldList f expressions)
  | .arrayExpression elements => .arrayExpression (Node.foldList f elements)
  | .property key value computed shorthand method =>
    .property (key.fold f) (value.fold f) computed shorthand method
  | .objectExpression properties => .objectExpression (Node.foldList f properties)
  | .spreadElement argument => .spreadElement (argument.fold f)
  | .functionExpression id params body isAsync generator =>
    .functionExpression (Node.foldOption f id) (Node.foldList f params) (body.fold f) isAsync generator
  | .arrowFunctionExpression params body isAsync =>
    .arrowFunctionExpression (Node.foldList f params) (body.fold f) isAsync
  | .unaryExpression operator argument => .unaryExpression operator (argument.fold f)
  | .updateExpression operator argument before =>
    .updateExpression operator (argument.fold f) before
  | .binaryExpression left operator right => .binaryExpression (left.fold f) operator (right.fold f)
  | .logicalExpression left operator right =>
    .logicalExpression (left.fold f) operator (right.fold f)
  | .assignmentExpression left operator right =>
    .assignmentExpression (left.fold f) operator (right.fold f)
  | .conditionalExpression test consequent alternate =>
    .conditionalExpression (test.fold f) (consequent.fold f) (alternate.fold f)
  | .callExpression callee arguments optional =>
    .callExpression (callee.fold f) (Node.foldList f arguments) optional
  | .newExpression callee arguments => .newExpression (callee.fold f) (Node.foldList f arguments)
  | .memberExpression object selected computed optional =>
    .memberExpression (object.fold f) (selected.fold f) computed optional
  | .sequenceExpression expressions => .sequenceExpression (Node.foldList f expressions)
  | .awaitExpression argument => .awaitExpression (argument.fold f)
  | .arrayPattern elements => .arrayPattern (Node.foldList f elements)
  | .objectPattern properties => .objectPattern (Node.foldList f properties)
  | .restElement argument => .restElement (argument.fold f)
  | .assignmentPattern left right => .assignmentPattern (left.fold f) (right.fold f)

def Node.foldList (f : Form ℓ β → Span → β) : List (Node ℓ) → List β
  | [] => []
  | n :: ns => n.fold f :: Node.foldList f ns

def Node.foldOption (f : Form ℓ β → Span → β) : Option (Node ℓ) → Option β
  | none => none
  | some n => some (n.fold f)

end

theorem Node.foldList_eq (f : Form ℓ β → Span → β) (ns : List (Node ℓ)) :
    foldList f ns = ns.map (fold f) := by
  induction ns with
  | nil => rfl
  | cons n ns ih => rw [foldList, ih, List.map_cons]

theorem Node.foldOption_eq (f : Form ℓ β → Span → β) (n : Option (Node ℓ)) :
    foldOption f n = n.map (fold f) := by
  cases n <;> rfl

theorem Form.fold_eq (f : Form ℓ β → Span → β) (form : Form ℓ (Node ℓ)) :
    form.fold f = form.map (Node.fold f) := by
  cases form <;> simp only [Form.fold, Form.map, Node.foldList_eq, Node.foldOption_eq]

theorem Node.fold_eq (f : Form ℓ β → Span → β) (n : Node ℓ) :
    n.fold f = f (n.form.map (fold f)) n.span := by
  obtain ⟨form, span⟩ := n
  rw [fold, Form.fold_eq]

end ScriptAudit
