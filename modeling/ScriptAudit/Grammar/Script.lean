/-
The grammar of game scripts: the part of JavaScript they are written in. It has module imports and
exports, functions with their asynchronous and generator variants, arrow functions, declarations with
destructuring, the usual statements, all levels of operators, templates with substitutions, and
`await`. Regular expressions, classes, `switch` and labels are not part of it.

A statement takes the blanks and comments after it, an expression does not. A keyword is never the
beginning of a longer name.
-/
import ScriptAudit.Grammar.Peg
import ScriptAudit.Grammar.Rule
import ScriptAudit.Tree.Token

namespace ScriptAudit

/-! ## What the rules yield -/

/-- A lexeme and where it stands. -/
structure Located where
  text : Text
  span : Span

/-- One link of a chain of calls and member accesses. -/
inductive Link
  | call (arguments : List Sketch)
  | member (name : Located)
  | index (expression : Sketch)

/-- A link with its end; after `?.` it is optional. -/
structure Tail where
  link : Link
  optional : Bool
  stop : Nat

/-- The key of a property: `[expression]` is computed. -/
structure Key where
  node : Sketch
  computed : Bool

/-- A piece of a template. -/
inductive Piece
  | chunk (text : Text)
  | substitution (expression : Sketch)

namespace Located

def identifier (l : Located) : Sketch := ⟨.identifier l.text, l.span⟩

def string (l : Located) : Sketch := ⟨.literal .string l.text, l.span⟩

def number (l : Located) : Sketch := ⟨.literal .number l.text, l.span⟩

/-- `import name from …` takes the default of a module. -/
def defaultImport (l : Located) : Sketch := ⟨.importSpecifier "default" l.text .byDefault, l.span⟩

/-- A property that is both the name and the variable. -/
def shorthand (l : Located) : Sketch :=
  ⟨.property l.identifier l.identifier false true false, l.span⟩

end Located

namespace Sketch

/-- Adds a link to what it applies to. -/
def extend (e : Sketch) (tail : Tail) : Sketch where
  form := match tail.link with
    | .call arguments => .callExpression e arguments tail.optional
    | .member name => .memberExpression e name.identifier false tail.optional
    | .index expression => .memberExpression e expression true tail.optional
  span := ⟨e.span.start, tail.stop⟩

def extendAll (e : Sketch) (tails : List Tail) : Sketch := tails.foldl extend e

def binary (left : Sketch) (operator : BinaryOp) (right : Sketch) : Sketch :=
  ⟨.binaryExpression left operator right, ⟨left.span.start, right.span.stop⟩⟩

def logical (left : Sketch) (operator : LogicalOp) (right : Sketch) : Sketch :=
  ⟨.logicalExpression left operator right, ⟨left.span.start, right.span.stop⟩⟩

/-- `left operator right`, with the span of the whole match. -/
def power (span : Span) (base : Sketch) : Option (BinaryOp × Sketch) → Sketch
  | none => base
  | some (operator, exponent) => ⟨.binaryExpression base operator exponent, span⟩

/-- One expression stands for itself. -/
def sequence (span : Span) (first : Sketch) : List Sketch → Sketch
  | [] => first
  | rest => ⟨.sequenceExpression (first :: rest), span⟩

def conditional (span : Span) (test : Sketch) : Option (Sketch × Sketch) → Sketch
  | none => test
  | some (consequent, alternate) => ⟨.conditionalExpression test consequent alternate, span⟩

def postfixUpdate (span : Span) (operand : Sketch) : Option UpdateOp → Sketch
  | none => operand
  | some operator => ⟨.updateExpression operator operand false, span⟩

/-- The declaration in the head of a loop: its declarator is the bound name alone. -/
def headDeclaration (span : Span) (kind : VariableKind) (binding : Sketch) : Sketch :=
  ⟨.variableDeclaration kind [⟨.variableDeclarator binding none, binding.span⟩], span⟩

def method (span : Span) (isAsync generator : Bool) (key : Key) (params : List Sketch)
    (body : Sketch) : Sketch :=
  ⟨.property key.node ⟨.functionExpression none params body isAsync generator, span⟩ key.computed
    false true, span⟩

def keyed (span : Span) (key : Key) (value : Sketch) : Sketch :=
  ⟨.property key.node value key.computed false false, span⟩

/-- A shorthand property of a pattern with a default. -/
def defaulted (span : Span) (name : Located) (value : Sketch) : Sketch :=
  ⟨.property name.identifier ⟨.assignmentPattern name.identifier value, span⟩ false true false, span⟩

/-- The chunks and the substitutions of a template. There is a chunk, empty or not, before, between
and after the substitutions. -/
def templateParts : List Piece → Text × List (Sketch × Text)
  | [] => ([], [])
  | .chunk text :: pieces =>
    let (first, rest) := templateParts pieces
    (text ++ first, rest)
  | .substitution expression :: pieces =>
    let (first, rest) := templateParts pieces
    ([], (expression, first) :: rest)

def template (pieces : List Piece) : Form TokenClass Sketch :=
  let (first, rest) := templateParts pieces
  .templateLiteral (first :: rest.map (·.2)) (rest.map (·.1))

end Sketch

/-- The type of value each rule yields. -/
@[reducible] def Yield : Rule → Type
  | .program | .importClause | .importDefaultNamed | .importNamed | .params | .arrowParams
  | .arguments => List Sketch
  | .semi => Unit
  | .callTail => Tail
  | .memberDot | .identifier | .propertyName | .number | .string => Located
  | .optionalChain => Link
  | .propKey => Key
  | .templatePart => Piece
  | .assignOp => AssignOp
  | .orOp | .andOp => LogicalOp
  | .bitOrOp | .bitXorOp | .bitAndOp | .equalityOp | .relationalOp | .shiftOp | .additiveOp
  | .mulOp | .expOp => BinaryOp
  | .updateOp => UpdateOp
  | .unaryOp => UnaryOp
  | .varKind => VariableKind
  | .templateChars | .keyword | .importWord | .exportWord | .defaultWord | .fromWord | .asWord
  | .asyncWord | .awaitWord | .functionWord | .ifWord | .elseWord | .whileWord | .doWord | .forWord
  | .ofWord | .inWord | .tryWord | .catchWord | .finallyWord | .returnWord | .breakWord
  | .continueWord | .throwWord | .newWord | .trivia => Text
  | _ => Sketch

/-- A choice for each type of value that a rule may yield, as a choice for each rule. -/
def Yield.elim {motive : Type → Type} (trees : motive (List Sketch)) (tree : motive Sketch)
    (located : motive Located) (tail : motive Tail) (link : motive Link) (key : motive Key)
    (piece : motive Piece) (other : (α : Type) → motive α) : (r : Rule) → motive (Yield r)
  | .program | .importClause | .importDefaultNamed | .importNamed | .params | .arrowParams
  | .arguments => trees
  | .statement | .block | .emptyStmt | .importDecl | .importFrom | .importBare | .importSpec
  | .importNamespace | .exportDecl | .functionDecl | .param | .paramDefault | .restElement | .binding
  | .arrayPattern | .objectPattern | .patternProp | .patternKeyed | .patternDefault | .varStatement
  | .varDecl | .declarator | .ifStmt | .whileStmt | .doWhileStmt | .forStmt | .forInit | .forInOfStmt
  | .forLeft | .varHead | .tryStmt | .catchClause | .finallyClause | .returnStmt | .breakStmt
  | .continueStmt | .throwStmt | .exprStmt | .expr | .assignExpr | .assignment | .arrowFunction
  | .conditional | .logicalOr | .logicalAnd | .bitOr | .bitXor | .bitAnd | .equality | .relational
  | .shift | .additive | .multiplicative | .exponent | .unary | .awaitExpr | .prefixUpdate
  | .prefixUnary | .postfixExpr | .callMember | .argument | .spreadElement | .memberIndex | .newExpr
  | .newCallee | .primary | .parenExpr | .thisExpr | .functionExpr | .arrayLiteral | .objectLiteral
  | .objectMember | .methodMember | .keyedMember | .computedKey | .template | .templateSubst
  | .literal | .boolean | .null => tree
  | .memberDot | .identifier | .propertyName | .number | .string => located
  | .callTail => tail
  | .optionalChain => link
  | .propKey => key
  | .templatePart => piece
  | .semi => other Unit
  | .assignOp => other AssignOp
  | .orOp | .andOp => other LogicalOp
  | .bitOrOp | .bitXorOp | .bitAndOp | .equalityOp | .relationalOp | .shiftOp | .additiveOp
  | .mulOp | .expOp => other BinaryOp
  | .updateOp => other UpdateOp
  | .unaryOp => other UnaryOp
  | .varKind => other VariableKind
  | .templateChars | .keyword | .importWord | .exportWord | .defaultWord | .fromWord | .asWord
  | .asyncWord | .awaitWord | .functionWord | .ifWord | .elseWord | .whileWord | .doWord | .forWord
  | .ofWord | .inWord | .tryWord | .catchWord | .finallyWord | .returnWord | .breakWord
  | .continueWord | .throwWord | .newWord | .trivia => other Text

namespace ScriptGrammar

abbrev Pattern := Peg Yield

/-! ## Building blocks -/

/-- Punctuation. -/
def mark (text : String) : Pattern Text := .lexeme (.exact text fun _ => false)

/-- A word that no name goes on from. -/
def word (text : String) : Pattern Text := .lexeme (.exact text CodePoint.continuesName)

/-- An operator, unless one of the barred code points follows it. -/
def operator {α : Type} (op : α) (symbol : String) (barred : String) : Pattern α :=
  (fun _ => op) <$> .lexeme (.exact symbol fun c => (Text.ofString barred).contains c)

/-- An operator that is a word. -/
def wordOperator {α : Type} (op : α) (symbol : String) : Pattern α := (fun _ => op) <$> word symbol

/-- What the named rule matches. -/
def ref (r : Rule) : Pattern (Yield r) := .rule r

def gap : Pattern Text := ref .trivia

def present {α : Type} (p : Pattern α) : Pattern Bool := Option.isSome <$> .option p

def located (p : Pattern Text) : Pattern Located := .build (fun span text => ⟨text, span⟩) p

/-- A node at the span of the match. -/
def node (p : Pattern (Form TokenClass Sketch)) : Pattern Sketch :=
  .build (fun span form => ⟨form, span⟩) p

/-- Lets a value depend on the span of the match. -/
def spanned {α : Type} (p : Pattern (Span → α)) : Pattern α := .build (fun span f => f span) p

/-- Items between brackets, with commas between them and perhaps one after the last. -/
def bracketed {α : Type} (opening closing : String) (item : Pattern α) : Pattern (List α) :=
  mark opening *> gap *>
    ((·.getD []) <$> .option
      ((fun first rest => first :: rest) <$> (item <* gap)
        <*> .many (mark "," *> gap *> item <* gap)
        <* .option (mark "," *> gap)))
    <* mark closing

/-- Operands with left-associative operators between them. -/
def chain {op : Type} (join : Sketch → op → Sketch → Sketch) (operand : Pattern Sketch)
    (operator : Pattern op) : Pattern Sketch :=
  (fun first rest => rest.foldl (fun left step => join left step.1 step.2) first) <$> operand
    <*> .many (Prod.mk <$> (gap *> operator <* gap) <*> operand)

/-- The test of an `if` or a loop, with the blanks around it. -/
def condition : Pattern Sketch := gap *> mark "(" *> gap *> ref .expr <* gap <* mark ")" <* gap

/-! ## Statements -/

def program : Pattern (List Sketch) := gap *> .many (ref .statement)

def statement : Pattern Sketch :=
  ref .block <|> ref .importDecl <|> ref .exportDecl <|> ref .functionDecl
    <|> ref .varStatement <|> ref .ifStmt <|> ref .whileStmt <|> ref .doWhileStmt
    <|> ref .forInOfStmt <|> ref .forStmt <|> ref .tryStmt <|> ref .returnStmt
    <|> ref .breakStmt <|> ref .continueStmt <|> ref .throwStmt <|> ref .emptyStmt
    <|> ref .exprStmt

def block : Pattern Sketch :=
  node (Form.blockStatement <$> (mark "\x7b" *> gap *> .many (ref .statement) <* mark "\x7d" <* gap))

def emptyStmt : Pattern Sketch := node ((fun _ => .emptyStatement) <$> (mark ";" <* gap))

def semi : Pattern Unit := (fun _ => ()) <$> (.option (mark ";") <* gap)

def ifStmt : Pattern Sketch :=
  node (Form.ifStatement <$> (ref .ifWord *> condition) <*> ref .statement
    <*> .option (ref .elseWord *> gap *> ref .statement))

def whileStmt : Pattern Sketch :=
  node (Form.whileStatement <$> (ref .whileWord *> condition) <*> ref .statement)

def doWhileStmt : Pattern Sketch :=
  node (Form.doWhileStatement <$> (ref .doWord *> gap *> ref .statement)
    <*> (ref .whileWord *> condition <* ref .semi))

def forStmt : Pattern Sketch :=
  node (Form.forStatement
    <$> (ref .forWord *> gap *> mark "(" *> gap *> .option (ref .forInit) <* gap <* mark ";" <* gap)
    <*> (.option (ref .expr) <* gap <* mark ";" <* gap)
    <*> (.option (ref .expr) <* gap <* mark ")" <* gap)
    <*> ref .statement)

def forInit : Pattern Sketch := ref .varDecl <|> ref .expr

def forInOfStmt : Pattern Sketch :=
  let isOf : Pattern Bool := (fun _ => true) <$> ref .ofWord
  let isIn : Pattern Bool := (fun _ => false) <$> ref .inWord
  let loop (left : Sketch) (overValues : Bool) (right body : Sketch) : Form TokenClass Sketch :=
    if overValues then .forOfStatement left right body else .forInStatement left right body
  node (loop <$> (ref .forWord *> gap *> mark "(" *> gap *> ref .forLeft <* gap)
    <*> (isOf <|> isIn)
    <*> (gap *> ref .expr <* gap <* mark ")" <* gap)
    <*> ref .statement)

def forLeft : Pattern Sketch := ref .varHead <|> ref .callMember

def varHead : Pattern Sketch :=
  spanned ((fun kind binding span => .headDeclaration span kind binding)
    <$> (ref .varKind <* gap) <*> ref .binding)

def tryStmt : Pattern Sketch :=
  node (Form.tryStatement <$> (ref .tryWord *> gap *> ref .block) <*> .option (ref .catchClause)
    <*> .option (ref .finallyClause))

def catchClause : Pattern Sketch :=
  node (Form.catchClause
    <$> (ref .catchWord *> gap *>
      .option (mark "(" *> gap *> ref .binding <* gap <* mark ")" <* gap))
    <*> ref .block)

def finallyClause : Pattern Sketch := ref .finallyWord *> gap *> ref .block

def returnStmt : Pattern Sketch :=
  node (Form.returnStatement
    <$> (ref .returnWord *> .option (gap *> ref .expr) <* gap <* ref .semi))

def breakStmt : Pattern Sketch :=
  node ((fun _ => .breakStatement) <$> (ref .breakWord <* gap <* ref .semi))

def continueStmt : Pattern Sketch :=
  node ((fun _ => .continueStatement) <$> (ref .continueWord <* gap <* ref .semi))

def throwStmt : Pattern Sketch :=
  node (Form.throwStatement <$> (ref .throwWord *> gap *> ref .expr <* gap <* ref .semi))

def exprStmt : Pattern Sketch :=
  node (Form.expressionStatement <$> (ref .expr <* gap <* ref .semi))

/-! ## Modules -/

def importDecl : Pattern Sketch := ref .importFrom <|> ref .importBare

def importFrom : Pattern Sketch :=
  node ((fun specifiers source => .importDeclaration specifiers source.text)
    <$> (ref .importWord *> gap *> ref .importClause <* gap)
    <*> (ref .fromWord *> gap *> ref .string <* gap <* ref .semi))

def importBare : Pattern Sketch :=
  node ((fun source => .importDeclaration [] source.text)
    <$> (ref .importWord *> gap *> ref .string <* gap <* ref .semi))

def importClause : Pattern (List Sketch) :=
  ref .importNamed <|> (fun specifier => [specifier]) <$> ref .importNamespace
    <|> ref .importDefaultNamed <|> (fun name => [name.defaultImport]) <$> ref .identifier

def importDefaultNamed : Pattern (List Sketch) :=
  (fun name specifiers => name.defaultImport :: specifiers)
    <$> (ref .identifier <* gap <* mark "," <* gap)
    <*> (ref .importNamed <|> (fun specifier => [specifier]) <$> ref .importNamespace)

def importNamed : Pattern (List Sketch) := bracketed "\x7b" "\x7d" (ref .importSpec)

def importSpec : Pattern Sketch :=
  node ((fun imported (bound : Option Located) =>
      .importSpecifier imported.text (bound.getD imported).text .named)
    <$> ref .propertyName <*> .option (gap *> ref .asWord *> gap *> ref .identifier))

def importNamespace : Pattern Sketch :=
  node ((fun bound => .importSpecifier "*" bound.text .wholeModule)
    <$> (mark "*" *> gap *> ref .asWord *> gap *> ref .identifier))

def exportDecl : Pattern Sketch :=
  node ((fun isDefault declaration => .exportDeclaration declaration isDefault)
    <$> (ref .exportWord *> gap *> present (ref .defaultWord *> gap))
    <*> (ref .functionDecl <|> ref .varStatement <|> ref .exprStmt))

/-! ## Declarations -/

def functionDecl : Pattern Sketch :=
  node ((fun isAsync generator (name : Located) params body =>
      .functionDeclaration name.identifier params body isAsync generator)
    <$> present (ref .asyncWord *> gap)
    <*> (ref .functionWord *> gap *> present (mark "*" *> gap))
    <*> (ref .identifier <* gap) <*> (ref .params <* gap) <*> ref .block)

def params : Pattern (List Sketch) := bracketed "(" ")" (ref .param)

def param : Pattern Sketch := ref .restElement <|> ref .paramDefault <|> ref .binding

def paramDefault : Pattern Sketch :=
  node (Form.assignmentPattern <$> (ref .binding <* gap <* mark "=" <* gap) <*> ref .assignExpr)

def restElement : Pattern Sketch :=
  node (Form.restElement <$> (mark "..." *> gap *> ref .binding))

def binding : Pattern Sketch :=
  Located.identifier <$> ref .identifier <|> ref .arrayPattern <|> ref .objectPattern

def arrayPattern : Pattern Sketch := node (Form.arrayPattern <$> bracketed "[" "]" (ref .param))

def objectPattern : Pattern Sketch :=
  node (Form.objectPattern <$> bracketed "\x7b" "\x7d" (ref .patternProp))

def patternProp : Pattern Sketch :=
  ref .restElement <|> ref .patternKeyed <|> ref .patternDefault
    <|> Located.shorthand <$> ref .identifier

def patternKeyed : Pattern Sketch :=
  node ((fun (key : Located) value => .property key.identifier value false false false)
    <$> (ref .propertyName <* gap <* mark ":" <* gap) <*> ref .param)

def patternDefault : Pattern Sketch :=
  spanned ((fun name value span => .defaulted span name value)
    <$> (ref .identifier <* gap <* mark "=" <* gap) <*> ref .assignExpr)

def varStatement : Pattern Sketch := ref .varDecl <* gap <* ref .semi

def varDecl : Pattern Sketch :=
  node ((fun kind first rest => .variableDeclaration kind (first :: rest))
    <$> (ref .varKind <* gap) <*> ref .declarator
    <*> .many (gap *> mark "," *> gap *> ref .declarator))

def declarator : Pattern Sketch :=
  node (Form.variableDeclarator <$> ref .binding
    <*> .option (gap *> mark "=" *> gap *> ref .assignExpr))

/-! ## Expressions -/

def expr : Pattern Sketch :=
  spanned ((fun first rest span => .sequence span first rest) <$> ref .assignExpr
    <*> .many (gap *> mark "," *> gap *> ref .assignExpr))

def assignExpr : Pattern Sketch :=
  ref .arrowFunction <|> ref .assignment <|> ref .conditional

def assignment : Pattern Sketch :=
  node (Form.assignmentExpression <$> (ref .callMember <* gap) <*> (ref .assignOp <* gap)
    <*> ref .assignExpr)

def arrowFunction : Pattern Sketch :=
  node ((fun isAsync params body => .arrowFunctionExpression params body isAsync)
    <$> present (ref .asyncWord *> gap) <*> (ref .arrowParams <* gap <* mark "=>" <* gap)
    <*> (ref .block <|> ref .assignExpr))

def arrowParams : Pattern (List Sketch) :=
  ref .params <|> (fun name => [name.identifier]) <$> ref .identifier

def conditional : Pattern Sketch :=
  spanned ((fun test branches span => .conditional span test branches) <$> ref .logicalOr
    <*> .option (Prod.mk <$> (gap *> mark "?" *> gap *> ref .assignExpr)
      <*> (gap *> mark ":" *> gap *> ref .assignExpr)))

def exponent : Pattern Sketch :=
  spanned ((fun base power span => .power span base power) <$> ref .unary
    <*> .option (Prod.mk <$> (gap *> ref .expOp <* gap) <*> ref .exponent))

def unary : Pattern Sketch :=
  ref .awaitExpr <|> ref .prefixUpdate <|> ref .prefixUnary <|> ref .postfixExpr

def awaitExpr : Pattern Sketch :=
  node (Form.awaitExpression <$> (ref .awaitWord *> gap *> ref .unary))

def prefixUpdate : Pattern Sketch :=
  node ((fun operator argument => .updateExpression operator argument true)
    <$> (ref .updateOp <* gap) <*> ref .unary)

def prefixUnary : Pattern Sketch :=
  node (Form.unaryExpression <$> (ref .unaryOp <* gap) <*> ref .unary)

def postfixExpr : Pattern Sketch :=
  spanned ((fun operand operator span => .postfixUpdate span operand operator) <$> ref .callMember
    <*> .option (.lexeme .spaces *> ref .updateOp))

/-! ## Calls and members -/

def callMember : Pattern Sketch :=
  Sketch.extendAll <$> (ref .newExpr <|> ref .primary) <*> .many (ref .callTail)

def callTail : Pattern Tail :=
  spanned ((fun link span => ⟨link.1, link.2, span.stop⟩) <$> (gap *>
    ((fun arguments => (Link.call arguments, false)) <$> ref .arguments
      <|> (fun name => (Link.member name, false)) <$> ref .memberDot
      <|> (fun index => (Link.index index, false)) <$> ref .memberIndex
      <|> (fun link => (link, true)) <$> ref .optionalChain)))

def arguments : Pattern (List Sketch) := bracketed "(" ")" (ref .argument)

def argument : Pattern Sketch := ref .spreadElement <|> ref .assignExpr

def spreadElement : Pattern Sketch :=
  node (Form.spreadElement <$> (mark "..." *> gap *> ref .assignExpr))

def memberDot : Pattern Located := mark "." *> .absent (mark ".") *> gap *> ref .propertyName

def memberIndex : Pattern Sketch := mark "[" *> gap *> ref .expr <* gap <* mark "]"

def optionalChain : Pattern Link :=
  mark "?." *> .absent (.lexeme .digit) *> gap *>
    (Link.call <$> ref .arguments <|> Link.index <$> ref .memberIndex
      <|> Link.member <$> ref .propertyName)

def newExpr : Pattern Sketch :=
  node ((fun callee arguments => .newExpression callee (arguments.getD []))
    <$> (ref .newWord *> gap *> ref .newCallee) <*> .option (gap *> ref .arguments))

def newCallee : Pattern Sketch :=
  Sketch.extendAll <$> (ref .newExpr <|> ref .primary)
    <*> .many (spanned ((fun link span => ⟨link, false, span.stop⟩)
      <$> (gap *> (Link.member <$> ref .memberDot <|> Link.index <$> ref .memberIndex))))

/-! ## Primary expressions -/

def primary : Pattern Sketch :=
  ref .literal <|> ref .template <|> ref .arrayLiteral <|> ref .objectLiteral
    <|> ref .functionExpr <|> ref .parenExpr <|> ref .thisExpr
    <|> Located.identifier <$> ref .identifier

def parenExpr : Pattern Sketch := mark "(" *> gap *> ref .expr <* gap <* mark ")"

def thisExpr : Pattern Sketch := node ((fun _ => .thisExpression) <$> word "this")

def functionExpr : Pattern Sketch :=
  node ((fun isAsync generator (name : Option Located) params body =>
      .functionExpression (name.map Located.identifier) params body isAsync generator)
    <$> present (ref .asyncWord *> gap)
    <*> (ref .functionWord *> gap *> present (mark "*" *> gap))
    <*> (.option (ref .identifier) <* gap) <*> (ref .params <* gap) <*> ref .block)

def arrayLiteral : Pattern Sketch :=
  node (Form.arrayExpression <$> bracketed "[" "]" (ref .argument))

def objectLiteral : Pattern Sketch :=
  node (Form.objectExpression <$> bracketed "\x7b" "\x7d" (ref .objectMember))

def objectMember : Pattern Sketch :=
  ref .spreadElement <|> ref .methodMember <|> ref .keyedMember
    <|> Located.shorthand <$> ref .identifier

def methodMember : Pattern Sketch :=
  spanned ((fun isAsync generator key params body span =>
      .method span isAsync generator key params body)
    <$> present (ref .asyncWord *> gap) <*> present (mark "*" *> gap) <*> (ref .propKey <* gap)
    <*> (ref .params <* gap) <*> ref .block)

def keyedMember : Pattern Sketch :=
  spanned ((fun key value span => .keyed span key value)
    <$> (ref .propKey <* gap <* mark ":" <* gap) <*> ref .assignExpr)

def propKey : Pattern Key :=
  (fun node => ⟨node, true⟩) <$> ref .computedKey
    <|> (fun name => ⟨name.identifier, false⟩) <$> ref .propertyName
    <|> (fun text => ⟨text.string, false⟩) <$> ref .string
    <|> (fun number => ⟨number.number, false⟩) <$> ref .number

def computedKey : Pattern Sketch := mark "[" *> gap *> ref .assignExpr <* gap <* mark "]"

def template : Pattern Sketch :=
  node (Sketch.template <$> (mark "\x60" *> .many (ref .templatePart) <* mark "\x60"))

def templatePart : Pattern Piece :=
  Piece.substitution <$> ref .templateSubst <|> Piece.chunk <$> ref .templateChars

def templateSubst : Pattern Sketch := mark "$\x7b" *> gap *> ref .expr <* gap <* mark "\x7d"

/-! ## Operators -/

def assignOp : Pattern AssignOp :=
  let op (o : AssignOp) := operator o o.symbol "=>"
  op .power <|> op .shiftRightUnsigned <|> op .shiftLeft <|> op .shiftRight <|> op .coalesce
    <|> op .and <|> op .or <|> op .sub <|> op .add <|> op .mul <|> op .div <|> op .rem
    <|> op .bitAnd <|> op .bitOr <|> op .bitXor <|> op .set

def orOp : Pattern LogicalOp :=
  operator LogicalOp.or "||" "=" <|> operator LogicalOp.coalesce "??" "="

def andOp : Pattern LogicalOp := operator LogicalOp.and "&&" "="

def bitOrOp : Pattern BinaryOp := operator BinaryOp.bitOr "|" "|="

def bitXorOp : Pattern BinaryOp := operator BinaryOp.bitXor "^" "="

def bitAndOp : Pattern BinaryOp := operator BinaryOp.bitAnd "&" "&="

def equalityOp : Pattern BinaryOp :=
  operator BinaryOp.strictEq "===" "" <|> operator BinaryOp.strictNe "!==" ""
    <|> operator BinaryOp.looseEq "==" "" <|> operator BinaryOp.looseNe "!=" ""

def relationalOp : Pattern BinaryOp :=
  operator BinaryOp.le "<=" "" <|> operator BinaryOp.ge ">=" ""
    <|> operator BinaryOp.lt "<" "<=" <|> operator BinaryOp.gt ">" ">="
    <|> wordOperator BinaryOp.instanceOf "instanceof" <|> wordOperator BinaryOp.isIn "in"

def shiftOp : Pattern BinaryOp :=
  operator BinaryOp.shiftRightUnsigned ">>>" "=" <|> operator BinaryOp.shiftLeft "<<" "="
    <|> operator BinaryOp.shiftRight ">>" "="

def additiveOp : Pattern BinaryOp :=
  operator BinaryOp.add "+" "+=" <|> operator BinaryOp.sub "-" "-="

def mulOp : Pattern BinaryOp :=
  operator BinaryOp.mul "*" "*=" <|> operator BinaryOp.div "/" "/*="
    <|> operator BinaryOp.rem "%" "="

def expOp : Pattern BinaryOp := operator BinaryOp.power "**" "="

def updateOp : Pattern UpdateOp :=
  operator UpdateOp.increment "++" "" <|> operator UpdateOp.decrement "--" ""

def unaryOp : Pattern UnaryOp :=
  operator UnaryOp.not "!" "" <|> operator UnaryOp.complement "~" ""
    <|> operator UnaryOp.plus "+" "+" <|> operator UnaryOp.minus "-" "-"
    <|> wordOperator UnaryOp.typeOf "typeof" <|> wordOperator UnaryOp.void "void"
    <|> wordOperator UnaryOp.delete "delete"

/-! ## Literals and names -/

def literal : Pattern Sketch :=
  Located.number <$> ref .number <|> Located.string <$> ref .string <|> ref .boolean
    <|> ref .null

def string : Pattern Located :=
  located (.lexeme (.string '"') <|> .lexeme (.string '\''))

def boolean : Pattern Sketch :=
  node (Form.literal (.boolean true) <$> word "true" <|> Form.literal (.boolean false) <$> word "false")

def null : Pattern Sketch := node (Form.literal .null <$> word "null")

def varKind : Pattern VariableKind :=
  wordOperator VariableKind.constant "const" <|> wordOperator VariableKind.blockScoped "let"
    <|> wordOperator VariableKind.functionScoped "var"

/-- A name that is not a reserved word. -/
def identifier : Pattern Located := located (.absent (ref .keyword) *> .lexeme .name)

end ScriptGrammar

open ScriptGrammar in
/-- The grammar of scripts. -/
def scriptGrammar : Grammar Yield
  | .program => program
  | .statement => statement
  | .block => block
  | .emptyStmt => emptyStmt
  | .semi => semi
  | .importDecl => importDecl
  | .importFrom => importFrom
  | .importBare => importBare
  | .importClause => importClause
  | .importDefaultNamed => importDefaultNamed
  | .importNamed => importNamed
  | .importSpec => importSpec
  | .importNamespace => importNamespace
  | .exportDecl => exportDecl
  | .functionDecl => functionDecl
  | .params => params
  | .param => param
  | .paramDefault => paramDefault
  | .restElement => restElement
  | .binding => binding
  | .arrayPattern => arrayPattern
  | .objectPattern => objectPattern
  | .patternProp => patternProp
  | .patternKeyed => patternKeyed
  | .patternDefault => patternDefault
  | .varStatement => varStatement
  | .varDecl => varDecl
  | .declarator => declarator
  | .ifStmt => ifStmt
  | .whileStmt => whileStmt
  | .doWhileStmt => doWhileStmt
  | .forStmt => forStmt
  | .forInit => forInit
  | .forInOfStmt => forInOfStmt
  | .forLeft => forLeft
  | .varHead => varHead
  | .tryStmt => tryStmt
  | .catchClause => catchClause
  | .finallyClause => finallyClause
  | .returnStmt => returnStmt
  | .breakStmt => breakStmt
  | .continueStmt => continueStmt
  | .throwStmt => throwStmt
  | .exprStmt => exprStmt
  | .expr => expr
  | .assignExpr => assignExpr
  | .assignment => assignment
  | .arrowFunction => arrowFunction
  | .arrowParams => arrowParams
  | .conditional => conditional
  | .logicalOr => chain .logical (ref .logicalAnd) (ref .orOp)
  | .logicalAnd => chain .logical (ref .bitOr) (ref .andOp)
  | .bitOr => chain .binary (ref .bitXor) (ref .bitOrOp)
  | .bitXor => chain .binary (ref .bitAnd) (ref .bitXorOp)
  | .bitAnd => chain .binary (ref .equality) (ref .bitAndOp)
  | .equality => chain .binary (ref .relational) (ref .equalityOp)
  | .relational => chain .binary (ref .shift) (ref .relationalOp)
  | .shift => chain .binary (ref .additive) (ref .shiftOp)
  | .additive => chain .binary (ref .multiplicative) (ref .additiveOp)
  | .multiplicative => chain .binary (ref .exponent) (ref .mulOp)
  | .exponent => exponent
  | .unary => unary
  | .awaitExpr => awaitExpr
  | .prefixUpdate => prefixUpdate
  | .prefixUnary => prefixUnary
  | .postfixExpr => postfixExpr
  | .callMember => callMember
  | .callTail => callTail
  | .arguments => arguments
  | .argument => argument
  | .spreadElement => spreadElement
  | .memberDot => memberDot
  | .memberIndex => memberIndex
  | .optionalChain => optionalChain
  | .newExpr => newExpr
  | .newCallee => newCallee
  | .primary => primary
  | .parenExpr => parenExpr
  | .thisExpr => thisExpr
  | .functionExpr => functionExpr
  | .arrayLiteral => arrayLiteral
  | .objectLiteral => objectLiteral
  | .objectMember => objectMember
  | .methodMember => methodMember
  | .keyedMember => keyedMember
  | .propKey => propKey
  | .computedKey => computedKey
  | .template => template
  | .templatePart => templatePart
  | .templateSubst => templateSubst
  | .templateChars => .lexeme .chunk
  | .assignOp => assignOp
  | .orOp => orOp
  | .andOp => andOp
  | .bitOrOp => bitOrOp
  | .bitXorOp => bitXorOp
  | .bitAndOp => bitAndOp
  | .equalityOp => equalityOp
  | .relationalOp => relationalOp
  | .shiftOp => shiftOp
  | .additiveOp => additiveOp
  | .mulOp => mulOp
  | .expOp => expOp
  | .updateOp => updateOp
  | .unaryOp => unaryOp
  | .literal => literal
  | .number => located (.lexeme .number)
  | .string => string
  | .boolean => boolean
  | .null => null
  | .keyword => .lexeme .reserved
  | .importWord => word "import"
  | .exportWord => word "export"
  | .defaultWord => word "default"
  | .fromWord => word "from"
  | .asWord => word "as"
  | .asyncWord => word "async"
  | .awaitWord => word "await"
  | .functionWord => word "function"
  | .varKind => varKind
  | .ifWord => word "if"
  | .elseWord => word "else"
  | .whileWord => word "while"
  | .doWord => word "do"
  | .forWord => word "for"
  | .ofWord => word "of"
  | .inWord => word "in"
  | .tryWord => word "try"
  | .catchWord => word "catch"
  | .finallyWord => word "finally"
  | .returnWord => word "return"
  | .breakWord => word "break"
  | .continueWord => word "continue"
  | .throwWord => word "throw"
  | .newWord => word "new"
  | .identifier => identifier
  | .propertyName => located (.lexeme .name)
  | .trivia => .lexeme .trivia

end ScriptAudit
