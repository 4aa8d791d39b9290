/-
Lexemes: the pieces of text that the grammar treats as units. `Lexeme.length?` says how much of a text
a lexeme takes from its beginning. Each of them takes the most it can, and none looks back.
-/
import ScriptAudit.Text.Blank
import ScriptAudit.Text.Digit

namespace ScriptAudit

namespace CodePoint

/-- What a name may begin with: an ASCII letter, an underscore or a dollar sign. -/
def startsName (c : CodePoint) : Bool :=
  between 'a' 'z' c || between 'A' 'Z' c || c == '_' || c == '$'

/-- What a name may go on with. -/
def continuesName (c : CodePoint) : Bool := c.startsName || between '0' '9' c

end CodePoint

inductive Lexeme
  /-- The given text, unless a barred code point follows it. -/
  | exact (text : Text) (barred : CodePoint → Bool)
  /-- A reserved word as a whole. -/
  | reserved
  /-- A name, reserved or not. -/
  | name
  /-- Blanks and comments, or nothing. -/
  | trivia
  /-- Spaces and tabs, or nothing. -/
  | spaces
  /-- One decimal digit. -/
  | digit
  /-- A number with its radix prefix, fraction, exponent and suffix. -/
  | number
  /-- A string between two of the given quotes, on one line but for escaped line ends. -/
  | string (quote : CodePoint)
  /-- The text of a template up to its end or to a substitution. -/
  | chunk

namespace Lexeme

/-- Words that are not names of variables. -/
def reservedWords : List String :=
  ["await", "break", "case", "catch", "class", "const", "continue", "debugger", "default", "delete",
   "do", "else", "export", "extends", "false", "finally", "for", "function", "if", "import", "in",
   "instanceof", "let", "new", "null", "return", "super", "switch", "this", "throw", "true", "try",
   "typeof", "var", "void", "while", "with", "yield"]

def isReserved (word : Text) : Bool := reservedWords.any fun reserved => Text.ofString reserved == word

/-! ## Blanks and comments -/

/-- The length from inside a block comment to its end, if it is closed. -/
def blockTailLength? : Text → Option Nat
  | [] => none
  | c :: rest =>
    if c = '*' && rest.head? = some (CodePoint.ofChar '/') then some 2
    else (blockTailLength? rest).map (· + 1)

/-- The length of the comment at the beginning, if there is one. The end of its line does not belong to
a line comment, and a block comment that is not closed is no comment. -/
def commentLength? : Text → Option Nat
  | c :: d :: rest =>
    if c = '/' then
      if d = '/' then some (Text.spanLength (· != CodePoint.ofChar '\n') rest + 2)
      else if d = '*' then (blockTailLength? rest).map (· + 2)
      else none
    else none
  | _ => none

/-- The length of the blanks and comments at the beginning, where the first `skip` code points belong to
a comment. -/
def triviaFrom : (skip : Nat) → Text → Nat
  | _, [] => 0
  | skip + 1, _ :: rest => triviaFrom skip rest + 1
  | 0, c :: rest =>
    if c.isBlank then triviaFrom 0 rest + 1
    else
      match commentLength? (c :: rest) with
      | none => 0
      | some n => triviaFrom (n - 1) rest + 1

/-- The length of the blanks and comments at the beginning. -/
def triviaLength (t : Text) : Nat := triviaFrom 0 t

/-! ## Numbers -/

def continuesNumber (c : CodePoint) : Bool := c.isDigit || c == '_'

/-- A trailing `n` marks a whole number of any size. -/
def suffixLength (t : Text) : Nat := if t.head? = some (CodePoint.ofChar 'n') then 1 else 0

/-- `0`, a letter in either case, and at least one digit of that radix or underscore. -/
def radixLength? (lower upper : Char) (isDigit : CodePoint → Bool) : Text → Option Nat
  | c :: d :: rest =>
    if c = '0' && (d = lower || d = upper) then
      match Text.spanLength (fun e => isDigit e || e == '_') rest with
      | 0 => none
      | n + 1 => some (n + 3 + suffixLength (rest.drop (n + 1)))
    else none
  | _ => none

/-- Digits with an optional point among or after them, or a point with a digit after it. -/
def mantissaLength? : Text → Option Nat
  | [] => none
  | c :: rest =>
    if c.isDigit then
      let whole := Text.spanLength continuesNumber rest + 1
      match (c :: rest).drop whole with
      | d :: fraction => some (if d = '.' then whole + 1 + Text.spanLength continuesNumber fraction else whole)
      | [] => some whole
    else if c = '.' && rest.head?.any CodePoint.isDigit then
      some (Text.spanLength continuesNumber rest + 1)
    else none

/-- An exponent mark, a sign or none, and at least one digit; or nothing. -/
def exponentLength : Text → Nat
  | [] => 0
  | c :: rest =>
    if c = 'e' || c = 'E' then
      let sign := if rest.head?.any fun (d : CodePoint) => d == '+' || d == '-' then 1 else 0
      match Text.spanLength CodePoint.isDigit (rest.drop sign) with
      | 0 => 0
      | n + 1 => n + 2 + sign
    else 0

def decimalLength? (t : Text) : Option Nat :=
  (mantissaLength? t).map fun mantissa =>
    let unsuffixed := mantissa + exponentLength (t.drop mantissa)
    unsuffixed + suffixLength (t.drop unsuffixed)

def numberLength? (t : Text) : Option Nat :=
  radixLength? 'x' 'X' CodePoint.isHexDigit t
    <|> radixLength? 'b' 'B' (CodePoint.between '0' '1') t
    <|> radixLength? 'o' 'O' (CodePoint.between '0' '7') t
    <|> decimalLength? t

/-! ## Strings and templates -/

/-- The length from inside a string to its closing quote. A backslash takes the next code point with
it, whatever that is. -/
def stringTailLength? (quote : CodePoint) : Text → Option Nat
  | [] => none
  | c :: rest =>
    if c = quote then some 1
    else if c = '\n' then none
    else if c = '\\' then
      match rest with
      | [] => none
      | _ :: rest => (stringTailLength? quote rest).map (· + 2)
    else (stringTailLength? quote rest).map (· + 1)

def chunkLength : Text → Nat
  | [] => 0
  | c :: rest =>
    if c = '\x60' then 0
    else if c = '\\' then
      match rest with
      | [] => 0
      | _ :: rest => chunkLength rest + 2
    else if c = '$' && rest.head? = some (CodePoint.ofChar '\x7b') then 0
    else chunkLength rest + 1

/-! ## All lexemes -/

/-- How many code points the lexeme takes from the beginning of the text, if it is there. -/
def length? : Lexeme → Text → Option Nat
  | exact text barred, t =>
    if text.isPrefixOf t && !(t.drop text.length).head?.any barred then some text.length else none
  | reserved, t =>
    let word := t.takeWhile CodePoint.continuesName
    if isReserved word then some word.length else none
  | name, t =>
    if t.head?.any CodePoint.startsName then some (Text.spanLength CodePoint.continuesName t) else none
  | trivia, t => some (triviaLength t)
  | spaces, t => some (Text.spanLength (fun c => c == ' ' || c == '\t') t)
  | digit, t => if t.head?.any CodePoint.isDigit then some 1 else none
  | number, t => numberLength? t
  | string quote, t =>
    match t with
    | [] => none
    | c :: rest => if c = quote then (stringTailLength? quote rest).map (· + 1) else none
  | chunk, t =>
    match chunkLength t with
    | 0 => none
    | n + 1 => some (n + 1)

end Lexeme

end ScriptAudit
