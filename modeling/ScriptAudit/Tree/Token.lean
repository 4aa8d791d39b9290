/-
The values of tokens. The grammar only finds a number or a string; what it stands for is worked out
afterwards, and a token that stands for nothing (`0x_`, `010n`, an escape beyond the last code point)
makes its script malformed.
-/
import ScriptAudit.Number.Amount
import ScriptAudit.Tree.Node

namespace ScriptAudit

/-- What a literal is, as far as its first code points tell. -/
inductive TokenClass
  | number
  | string
  | boolean (truth : Bool)
  | null

/-- What a literal stands for. -/
inductive Value
  | null
  | boolean (truth : Bool)
  | number (amount : Amount)
  | text (content : Text)

/-- Why a token stands for nothing. -/
inductive Fault
  /-- A radix prefix without digits, a leading zero or a fraction before the suffix `n`, or more
  decimal digits than are read. -/
  | noNumber
  /-- An escape names a number beyond the last code point. -/
  | noCodePoint
  /-- An escape names a number beyond what a code point is measured with. -/
  | beyondMeasure
  deriving DecidableEq

/-! ## Numbers -/

namespace Token

/-- Decimal digits, as long as there are not too many of them. -/
def wholeValue (digits : Text) : Except Fault Nat :=
  if digits.isEmpty || !digits.all CodePoint.isDigit || Amount.digitLimit < digits.length then
    .error .noNumber
  else .ok digits.readDecimal

/-- The radix that a prefix announces. -/
def radix? (text : Text) : Option Nat :=
  match text with
  | c :: d :: _ =>
    if c = '0' then
      if d = 'x' || d = 'X' then some 16
      else if d = 'b' || d = 'B' then some 2
      else if d = 'o' || d = 'O' then some 8
      else none
    else none
  | _ => none

/-- The number that digits write in a radix up to sixteen. -/
def readRadix (radix : Nat) (digits : Text) : Nat :=
  digits.foldl (fun n c => n * radix + c.hexValue?.getD 0) 0

/-- The digits after a radix prefix, of which there must be one. -/
def radixValue (radix : Nat) (text : Text) : Except Fault Nat :=
  match text.drop 2 with
  | [] => .error .noNumber
  | digits => .ok (readRadix radix digits)

/-- A number before the suffix `n`: it has a radix prefix, or no leading zero unless it is zero. -/
def suffixedValue (text : Text) : Except Fault Nat :=
  match radix? text with
  | some radix => radixValue radix text
  | none => do
    let n ← wholeValue text
    if text.head?.any (·.digitValue? == some 0) && n != 0 then throw .noNumber
    return n

/-- The value of a number token. Underscores only separate. -/
def numberValue (raw : Text) : Except Fault Amount := do
  let text := raw.filter fun (c : CodePoint) => c != '_'
  if text.getLast? = some (CodePoint.ofChar 'n') then
    return .whole (← suffixedValue text.dropLast)
  match radix? text with
  | some radix => return .whole (← radixValue radix text)
  | none =>
    if text.any fun (c : CodePoint) => c == '.' || c == 'e' || c == 'E' then
      return .real (Decimal.ofText text).toFloat
    return .whole (← wholeValue text)

/-! ## Escapes -/

/-- The code point that an escape gives by number. -/
def numbered (n : Nat) : Except Fault Text :=
  match CodePoint.ofNat? n with
  | some c => .ok [c]
  | none => .error (if n < Nat.pow 2 31 then .noCodePoint else .beyondMeasure)

/-- What a backslash with a single code point after it stands for. A line end vanishes. -/
def simpleEscape (c : CodePoint) : Text :=
  if c = 'n' then "\n"
  else if c = 't' then "\t"
  else if c = 'r' then "\r"
  else if c = 'b' then "\x08"
  else if c = 'f' then "\x0c"
  else if c = 'v' then "\x0b"
  else if c = '0' then "\x00"
  else if c = '\n' || c = '\r' then []
  else [c]

/-- Hexadecimal digits between braces, with their count. -/
def braced? : Text → Option (Text × Nat)
  | [] => none
  | c :: rest =>
    let digits := rest.takeWhile CodePoint.isHexDigit
    if c = '\x7b' && !digits.isEmpty
        && (rest.drop digits.length).head? = some (CodePoint.ofChar '\x7d') then
      some (digits, digits.length)
    else none

/-- Exactly `n` hexadecimal digits. -/
def hexDigits? (n : Nat) (t : Text) : Option Text :=
  let digits := t.take n
  if digits.length = n && digits.all CodePoint.isHexDigit then some digits else none

/-- What an escape stands for, and how much of the text after the backslash belongs to it. -/
def escape (c : CodePoint) (rest : Text) : Except Fault Text × Nat :=
  let plain : Except Fault Text × Nat :=
    if c = '\r' && rest.head? = some (CodePoint.ofChar '\n') then (.ok [], 2)
    else (.ok (simpleEscape c), 1)
  if c = 'x' then
    match hexDigits? 2 rest with
    | some digits => (numbered digits.readHex, 3)
    | none => plain
  else if c = 'u' then
    match braced? rest with
    | some (digits, count) => (numbered digits.readHex, count + 3)
    | none =>
      match hexDigits? 4 rest with
      | some digits => (numbered digits.readHex, 5)
      | none => plain
  else plain

/-- Resolves the escapes of a text from left to right, leaving out the first `skip` code points. -/
def unescapeFrom : (skip : Nat) → Text → Except Fault Text
  | _, [] => .ok []
  | skip + 1, _ :: rest => unescapeFrom skip rest
  | 0, c :: rest =>
    if c = '\\' then
      match rest with
      | [] => .ok [c]
      | d :: more => do
        let (meaning, length) := escape d more
        return (← meaning) ++ (← unescapeFrom length (d :: more))
    else do return c :: (← unescapeFrom 0 rest)

def unescape (t : Text) : Except Fault Text := unescapeFrom 0 t

/-- The content of a string token, without its quotes. -/
def stringContent (raw : Text) : Except Fault Text := unescape (raw.drop 1).dropLast

/-- The value of a literal. -/
def value : TokenClass → (raw : Text) → Except Fault Value
  | .number, raw => do return .number (← numberValue raw)
  | .string, raw => do return .text (← stringContent raw)
  | .boolean truth, _ => .ok (.boolean truth)
  | .null, _ => .ok .null

end Token

/-! ## Trees -/

/-- A tree as the grammar finds it: literals are only classified, and the texts of templates and
module paths are as they were written. -/
abbrev Sketch := Node TokenClass

/-- A tree with the values of its tokens. -/
abbrev Tree := Node Value

mutual

/-- Works out the tokens of a tree, those of the children first. -/
def Sketch.read : Node TokenClass → Except Fault Tree
  | ⟨form, span⟩ => do return ⟨← readForm form, span⟩

def Sketch.readForm : Form TokenClass (Node TokenClass) → Except Fault (Form Value Tree)
  | .program body => do return .program (← readList body)
  | .blockStatement body => do return .blockStatement (← readList body)
  | .emptyStatement => return .emptyStatement
  | .expressionStatement expression => do return .expressionStatement (← read expression)
  | .variableDeclarator id init => do return .variableDeclarator (← read id) (← readOption init)
  | .variableDeclaration kind declarations => do
    return .variableDeclaration kind (← readList declarations)
  | .functionDeclaration id params body isAsync generator => do
    return .functionDeclaration (← read id) (← readList params) (← read body) isAsync generator
  | .returnStatement argument => do return .returnStatement (← readOption argument)
  | .ifStatement test consequent alternate => do
    return .ifStatement (← read test) (← read consequent) (← readOption alternate)
  | .whileStatement test body => do return .whileStatement (← read test) (← read body)
  | .doWhileStatement body test => do return .doWhileStatement (← read body) (← read test)
  | .forStatement init test update body => do
    return .forStatement (← readOption init) (← readOption test) (← readOption update) (← read body)
  | .forOfStatement left right body => do
    return .forOfStatement (← read left) (← read right) (← read body)
  | .forInStatement left right body => do
    return .forInStatement (← read left) (← read right) (← read body)
  | .breakStatement => return .breakStatement
  | .continueStatement => return .continueStatement
  | .throwStatement argument => do return .throwStatement (← read argument)
  | .catchClause param body => do return .catchClause (← readOption param) (← read body)
  | .tryStatement block handler finalizer => do
    return .tryStatement (← read block) (← readOption handler) (← readOption finalizer)
  | .importSpecifier imported bound kind => return .importSpecifier imported bound kind
  | .importDeclaration specifiers source => do
    return .importDeclaration (← readList specifiers) (← Token.stringContent source)
  | .exportDeclaration declaration isDefault => do
    return .exportDeclaration (← read declaration) isDefault
  | .identifier name => return .identifier name
  | .literal value raw => do return .literal (← Token.value value raw) raw
  | .thisExpression => return .thisExpression
  | .templateLiteral quasis expressions => do
    let expressions ← readList expressions
    return .templateLiteral (← quasis.mapM Token.unescape) expressions
  | .arrayExpression elements => do return .arrayExpression (← readList elements)
  | .property key value computed shorthand method => do
    return .property (← read key) (← read value) computed shorthand method
  | .objectExpression properties => do return .objectExpression (← readList properties)
  | .spreadElement argument => do return .spreadElement (← read argument)
  | .functionExpression id params body isAsync generator => do
    return .functionExpression (← readOption id) (← readList params) (← read body) isAsync generator
  | .arrowFunctionExpression params body isAsync => do
    return .arrowFunctionExpression (← readList params) (← read body) isAsync
  | .unaryExpression operator argument => do return .unaryExpression operator (← read argument)
  | .updateExpression operator argument before => do
    return .updateExpression operator (← read argument) before
  | .binaryExpression left operator right => do
    return .binaryExpression (← read left) operator (← read right)
  | .logicalExpression left operator right => do
    return .logicalExpression (← read left) operator (← read right)
  | .assignmentExpression left operator right => do
    return .assignmentExpression (← read left) operator (← read right)
  | .conditionalExpression test consequent alternate => do
    return .conditionalExpression (← read test) (← read consequent) (← read alternate)
  | .callExpression callee arguments optional => do
    return .callExpression (← read callee) (← readList arguments) optional
  | .newExpression callee arguments => do
    return .newExpression (← read callee) (← readList arguments)
  | .memberExpression object property computed optional => do
    return .memberExpression (← read object) (← read property) computed optional
  | .sequenceExpression expressions => do return .sequenceExpression (← readList expressions)
  | .awaitExpression argument => do return .awaitExpression (← read argument)
  | .arrayPattern elements => do return .arrayPattern (← readList elements)
  | .objectPattern properties => do return .objectPattern (← readList properties)
  | .restElement argument => do return .restElement (← read argument)
  | .assignmentPattern left right => do return .assignmentPattern (← read left) (← read right)

def Sketch.readList : List (Node TokenClass) → Except Fault (List Tree)
  | [] => return []
  | n :: ns => do return (← read n) :: (← readList ns)

def Sketch.readOption : Option (Node TokenClass) → Except Fault (Option Tree)
  | none => return none
  | some n => do return some (← read n)

end

end ScriptAudit
