/-
The operators of the script language and their spellings.
-/
import ScriptAudit.Text.Basic

namespace ScriptAudit

/-- Operators that evaluate their right side only if the left side asks for it. -/
inductive LogicalOp
  | or | coalesce | and
  deriving DecidableEq

inductive BinaryOp
  | bitOr | bitXor | bitAnd
  | strictEq | strictNe | looseEq | looseNe
  | le | ge | lt | gt | instanceOf | isIn
  | shiftRightUnsigned | shiftLeft | shiftRight
  | add | sub
  | mul | div | rem
  | power
  deriving DecidableEq

inductive AssignOp
  | set
  | power | shiftRightUnsigned | shiftLeft | shiftRight | coalesce | and | or
  | sub | add | mul | div | rem | bitAnd | bitOr | bitXor
  deriving DecidableEq

inductive UnaryOp
  | not | complement | plus | minus | typeOf | void | delete
  deriving DecidableEq

inductive UpdateOp
  | increment | decrement
  deriving DecidableEq

namespace LogicalOp

def symbol : LogicalOp → String
  | or => "||"
  | coalesce => "??"
  | and => "&&"

end LogicalOp

namespace BinaryOp

def symbol : BinaryOp → String
  | bitOr => "|"
  | bitXor => "^"
  | bitAnd => "&"
  | strictEq => "==="
  | strictNe => "!=="
  | looseEq => "=="
  | looseNe => "!="
  | le => "<="
  | ge => ">="
  | lt => "<"
  | gt => ">"
  | instanceOf => "instanceof"
  | isIn => "in"
  | shiftRightUnsigned => ">>>"
  | shiftLeft => "<<"
  | shiftRight => ">>"
  | add => "+"
  | sub => "-"
  | mul => "*"
  | div => "/"
  | rem => "%"
  | power => "**"

end BinaryOp

namespace AssignOp

def symbol : AssignOp → String
  | set => "="
  | power => "**="
  | shiftRightUnsigned => ">>>="
  | shiftLeft => "<<="
  | shiftRight => ">>="
  | coalesce => "??="
  | and => "&&="
  | or => "||="
  | sub => "-="
  | add => "+="
  | mul => "*="
  | div => "/="
  | rem => "%="
  | bitAnd => "&="
  | bitOr => "|="
  | bitXor => "^="

end AssignOp

namespace UnaryOp

def symbol : UnaryOp → String
  | not => "!"
  | complement => "~"
  | plus => "+"
  | minus => "-"
  | typeOf => "typeof"
  | void => "void"
  | delete => "delete"

end UnaryOp

namespace UpdateOp

def symbol : UpdateOp → String
  | increment => "++"
  | decrement => "--"

end UpdateOp

end ScriptAudit
