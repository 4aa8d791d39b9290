/-
The forms of syntax. `Form ℓ α` is one layer of a script's tree: the node types of the usual
vocabulary for this language (`WhileStatement`, `AwaitExpression`, …), with subtrees of type `α` and
the values of literals of type `ℓ`. `Form.slots` lists the fields of a layer by name in the order of
the source, and everything that treats all forms alike (children, dumps) goes through it.
-/
import ScriptAudit.Tree.Operator

namespace ScriptAudit

/-- How a declaration introduces its variables. -/
inductive VariableKind
  | constant | blockScoped | functionScoped
  deriving DecidableEq

def VariableKind.keyword : VariableKind → String
  | constant => "const"
  | blockScoped => "let"
  | functionScoped => "var"

/-- Whether an import takes one name of a module, its default, or the module as a whole. -/
inductive ImportKind
  | named | byDefault | wholeModule
  deriving DecidableEq

def ImportKind.name : ImportKind → String
  | named => "named"
  | byDefault => "default"
  | wholeModule => "namespace"

inductive Form (ℓ α : Type)
  | program (body : List α)
  | blockStatement (body : List α)
  | emptyStatement
  | expressionStatement (expression : α)
  | variableDeclarator (id : α) (init : Option α)
  | variableDeclaration (kind : VariableKind) (declarations : List α)
  | functionDeclaration (id : α) (params : List α) (body : α) (isAsync generator : Bool)
  | returnStatement (argument : Option α)
  | ifStatement (test consequent : α) (alternate : Option α)
  | whileStatement (test body : α)
  | doWhileStatement (body test : α)
  | forStatement (init test update : Option α) (body : α)
  | forOfStatement (left right body : α)
  | forInStatement (left right body : α)
  | breakStatement
  | continueStatement
  | throwStatement (argument : α)
  | catchClause (param : Option α) (body : α)
  | tryStatement (block : α) (handler finalizer : Option α)
  | importSpecifier (imported bound : Text) (kind : ImportKind)
  | importDeclaration (specifiers : List α) (source : Text)
  | exportDeclaration (declaration : α) (isDefault : Bool)
  | identifier (name : Text)
  | literal (value : ℓ) (raw : Text)
  | thisExpression
  | templateLiteral (quasis : List Text) (expressions : List α)
  | arrayExpression (elements : List α)
  | property (key value : α) (computed shorthand method : Bool)
  | objectExpression (properties : List α)
  | spreadElement (argument : α)
  | functionExpression (id : Option α) (params : List α) (body : α) (isAsync generator : Bool)
  | arrowFunctionExpression (params : List α) (body : α) (isAsync : Bool)
  | unaryExpression (operator : UnaryOp) (argument : α)
  | updateExpression (operator : UpdateOp) (argument : α) (before : Bool)
  | binaryExpression (left : α) (operator : BinaryOp) (right : α)
  | logicalExpression (left : α) (operator : LogicalOp) (right : α)
  | assignmentExpression (left : α) (operator : AssignOp) (right : α)
  | conditionalExpression (test consequent alternate : α)
  | callExpression (callee : α) (arguments : List α) (optional : Bool)
  | newExpression (callee : α) (arguments : List α)
  | memberExpression (object property : α) (computed optional : Bool)
  | sequenceExpression (expressions : List α)
  | awaitExpression (argument : α)
  | arrayPattern (elements : List α)
  | objectPattern (properties : List α)
  | restElement (argument : α)
  | assignmentPattern (left right : α)

/-- The type of a node, without its contents. -/
inductive Kind
  | program | blockStatement | emptyStatement | expressionStatement | variableDeclarator
  | variableDeclaration | functionDeclaration | returnStatement | ifStatement | whileStatement
  | doWhileStatement | forStatement | forOfStatement | forInStatement | breakStatement
  | continueStatement | throwStatement | catchClause | tryStatement | importSpecifier
  | importDeclaration | exportDeclaration | identifier | literal | thisExpression | templateLiteral
  | arrayExpression | property | objectExpression | spreadElement | functionExpression
  | arrowFunctionExpression | unaryExpression | updateExpression | binaryExpression
  | logicalExpression | assignmentExpression | conditionalExpression | callExpression | newExpression
  | memberExpression | sequenceExpression | awaitExpression | arrayPattern | objectPattern
  | restElement | assignmentPattern
  deriving DecidableEq

namespace Kind

def name : Kind → String
  | program => "Program"
  | blockStatement => "BlockStatement"
  | emptyStatement => "EmptyStatement"
  | expressionStatement => "ExpressionStatement"
  | variableDeclarator => "VariableDeclarator"
  | variableDeclaration => "VariableDeclaration"
  | functionDeclaration => "FunctionDeclaration"
  | returnStatement => "ReturnStatement"
  | ifStatement => "IfStatement"
  | whileStatement => "WhileStatement"
  | doWhileStatement => "DoWhileStatement"
  | forStatement => "ForStatement"
  | forOfStatement => "ForOfStatement"
  | forInStatement => "ForInStatement"
  | breakStatement => "BreakStatement"
  | continueStatement => "ContinueStatement"
  | throwStatement => "ThrowStatement"
  | catchClause => "CatchClause"
  | tryStatement => "TryStatement"
  | importSpecifier => "ImportSpecifier"
  | importDeclaration => "ImportDeclaration"
  | exportDeclaration => "ExportDeclaration"
  | identifier => "Identifier"
  | literal => "Literal"
  | thisExpression => "ThisExpression"
  | templateLiteral => "TemplateLiteral"
  | arrayExpression => "ArrayExpression"
  | property => "Property"
  | objectExpression => "ObjectExpression"
  | spreadElement => "SpreadElement"
  | functionExpression => "FunctionExpression"
  | arrowFunctionExpression => "ArrowFunctionExpression"
  | unaryExpression => "UnaryExpression"
  | updateExpression => "UpdateExpression"
  | binaryExpression => "BinaryExpression"
  | logicalExpression => "LogicalExpression"
  | assignmentExpression => "AssignmentExpression"
  | conditionalExpression => "ConditionalExpression"
  | callExpression => "CallExpression"
  | newExpression => "NewExpression"
  | memberExpression => "MemberExpression"
  | sequenceExpression => "SequenceExpression"
  | awaitExpression => "AwaitExpression"
  | arrayPattern => "ArrayPattern"
  | objectPattern => "ObjectPattern"
  | restElement => "RestElement"
  | assignmentPattern => "AssignmentPattern"

def all : List Kind :=
  [program, blockStatement, emptyStatement, expressionStatement, variableDeclarator,
   variableDeclaration, functionDeclaration, returnStatement, ifStatement, whileStatement,
   doWhileStatement, forStatement, forOfStatement, forInStatement, breakStatement,
   continueStatement, throwStatement, catchClause, tryStatement, importSpecifier,
   importDeclaration, exportDeclaration, identifier, literal, thisExpression, templateLiteral,
   arrayExpression, property, objectExpression, spreadElement, functionExpression,
   arrowFunctionExpression, unaryExpression, updateExpression, binaryExpression,
   logicalExpression, assignmentExpression, conditionalExpression, callExpression, newExpression,
   memberExpression, sequenceExpression, awaitExpression, arrayPattern, objectPattern,
   restElement, assignmentPattern]

def ofName? (name : Text) : Option Kind := all.find? fun kind => kind.name == name

end Kind

/-- The contents of one field. -/
inductive Slot (ℓ α : Type)
  | node (child : α)
  | optional (child : Option α)
  | nodes (children : List α)
  | text (content : Text)
  | texts (contents : List Text)
  | flag (isSet : Bool)
  | value (content : ℓ)

/-- The subtrees a field holds, in order. -/
def Slot.children {ℓ α : Type} : Slot ℓ α → List α
  | node child => [child]
  | optional child => child.toList
  | nodes children => children
  | text _ | texts _ | flag _ | value _ => []

namespace Form

variable {ℓ α : Type}

def kind : Form ℓ α → Kind
  | program .. => .program
  | blockStatement .. => .blockStatement
  | emptyStatement => .emptyStatement
  | expressionStatement .. => .expressionStatement
  | variableDeclarator .. => .variableDeclarator
  | variableDeclaration .. => .variableDeclaration
  | functionDeclaration .. => .functionDeclaration
  | returnStatement .. => .returnStatement
  | ifStatement .. => .ifStatement
  | whileStatement .. => .whileStatement
  | doWhileStatement .. => .doWhileStatement
  | forStatement .. => .forStatement
  | forOfStatement .. => .forOfStatement
  | forInStatement .. => .forInStatement
  | breakStatement => .breakStatement
  | continueStatement => .continueStatement
  | throwStatement .. => .throwStatement
  | catchClause .. => .catchClause
  | tryStatement .. => .tryStatement
  | importSpecifier .. => .importSpecifier
  | importDeclaration .. => .importDeclaration
  | exportDeclaration .. => .exportDeclaration
  | identifier .. => .identifier
  | literal .. => .literal
  | thisExpression => .thisExpression
  | templateLiteral .. => .templateLiteral
  | arrayExpression .. => .arrayExpression
  | property .. => .property
  | objectExpression .. => .objectExpression
  | spreadElement .. => .spreadElement
  | functionExpression .. => .functionExpression
  | arrowFunctionExpression .. => .arrowFunctionExpression
  | unaryExpression .. => .unaryExpression
  | updateExpression .. => .updateExpression
  | binaryExpression .. => .binaryExpression
  | logicalExpression .. => .logicalExpression
  | assignmentExpression .. => .assignmentExpression
  | conditionalExpression .. => .conditionalExpression
  | callExpression .. => .callExpression
  | newExpression .. => .newExpression
  | memberExpression .. => .memberExpression
  | sequenceExpression .. => .sequenceExpression
  | awaitExpression .. => .awaitExpression
  | arrayPattern .. => .arrayPattern
  | objectPattern .. => .objectPattern
  | restElement .. => .restElement
  | assignmentPattern .. => .assignmentPattern

/-- The fields with their names, in the order of the source. -/
def slots : Form ℓ α → List (String × Slot ℓ α)
  | program body => [("body", .nodes body)]
  | blockStatement body => [("body", .nodes body)]
  | emptyStatement => []
  | expressionStatement expression => [("expression", .node expression)]
  | variableDeclarator id init => [("id", .node id), ("init", .optional init)]
  | variableDeclaration kind declarations =>
    [("kind", .text kind.keyword), ("declarations", .nodes declarations)]
  | functionDeclaration id params body isAsync generator =>
    [("id", .node id), ("params", .nodes params), ("body", .node body), ("is_async", .flag isAsync),
     ("generator", .flag generator)]
  | returnStatement argument => [("argument", .optional argument)]
  | ifStatement test consequent alternate =>
    [("test", .node test), ("consequent", .node consequent), ("alternate", .optional alternate)]
  | whileStatement test body => [("test", .node test), ("body", .node body)]
  | doWhileStatement body test => [("body", .node body), ("test", .node test)]
  | forStatement init test update body =>
    [("init", .optional init), ("test", .optional test), ("update", .optional update),
     ("body", .node body)]
  | forOfStatement left right body =>
    [("left", .node left), ("right", .node right), ("body", .node body)]
  | forInStatement left right body =>
    [("left", .node left), ("right", .node right), ("body", .node body)]
  | breakStatement => []
  | continueStatement => []
  | throwStatement argument => [("argument", .node argument)]
  | catchClause param body => [("param", .optional param), ("body", .node body)]
  | tryStatement block handler finalizer =>
    [("block", .node block), ("handler", .optional handler), ("finalizer", .optional finalizer)]
  | importSpecifier imported bound kind =>
    [("imported", .text imported), ("local", .text bound), ("kind", .text kind.name)]
  | importDeclaration specifiers source =>
    [("specifiers", .nodes specifiers), ("source", .text source)]
  | exportDeclaration declaration isDefault =>
    [("declaration", .node declaration), ("default", .flag isDefault)]
  | identifier name => [("name", .text name)]
  | literal value raw => [("value", .value value), ("raw", .text raw)]
  | thisExpression => []
  | templateLiteral quasis expressions =>
    [("quasis", .texts quasis), ("expressions", .nodes expressions)]
  | arrayExpression elements => [("elements", .nodes elements)]
  | property key value computed shorthand method =>
    [("key", .node key), ("value", .node value), ("computed", .flag computed),
     ("shorthand", .flag shorthand), ("method", .flag method)]
  | objectExpression properties => [("properties", .nodes properties)]
  | spreadElement argument => [("argument", .node argument)]
  | functionExpression id params body isAsync generator =>
    [("id", .optional id), ("params", .nodes params), ("body", .node body),
     ("is_async", .flag isAsync), ("generator", .flag generator)]
  | arrowFunctionExpression params body isAsync =>
    [("params", .nodes params), ("body", .node body), ("is_async", .flag isAsync)]
  | unaryExpression operator argument =>
    [("operator", .text operator.symbol), ("argument", .node argument)]
  | updateExpression operator argument before =>
    [("operator", .text operator.symbol), ("argument", .node argument), ("prefix", .flag before)]
  | binaryExpression left operator right =>
    [("left", .node left), ("operator", .text operator.symbol), ("right", .node right)]
  | logicalExpression left operator right =>
    [("left", .node left), ("operator", .text operator.symbol), ("right", .node right)]
  | assignmentExpression left operator right =>
    [("left", .node left), ("operator", .text operator.symbol), ("right", .node right)]
  | conditionalExpression test consequent alternate =>
    [("test", .node test), ("consequent", .node consequent), ("alternate", .node alternate)]
  | callExpression callee arguments optional =>
    [("callee", .node callee), ("arguments", .nodes arguments), ("optional", .flag optional)]
  | newExpression callee arguments => [("callee", .node callee), ("arguments", .nodes arguments)]
  | memberExpression object selected computed optional =>
    [("object", .node object), ("property", .node selected), ("computed", .flag computed),
     ("optional", .flag optional)]
  | sequenceExpression expressions => [("expressions", .nodes expressions)]
  | awaitExpression argument => [("argument", .node argument)]
  | arrayPattern elements => [("elements", .nodes elements)]
  | objectPattern properties => [("properties", .nodes properties)]
  | restElement argument => [("argument", .node argument)]
  | assignmentPattern left right => [("left", .node left), ("right", .node right)]

/-- The subtrees of one layer, in the order of the fields. -/
def children (form : Form ℓ α) : List α := form.slots.flatMap fun slot => slot.2.children

end Form

end ScriptAudit
