import TypedScript.Token
import TypedScript.Ty.Basic

namespace TypedScript

inductive UnaryOp
  | not
  | negate
  deriving DecidableEq

inductive BinaryOp
  | plus
  | minus
  | multiply
  | divide
  | less
  | greater
  | lessEquals
  | greaterEquals
  | equals
  | notEquals
  | and
  | or
  deriving DecidableEq

inductive StepOp
  | increment
  | decrement
  deriving DecidableEq

namespace UnaryOp

def ofKind? : Token.Kind → Option UnaryOp
  | .not => some not
  | .dash => some negate
  | _ => none

def symbol : UnaryOp → String
  | not => "!"
  | negate => "-"

end UnaryOp

namespace BinaryOp

def ofKind? : Token.Kind → Option BinaryOp
  | .plus => some plus
  | .dash => some minus
  | .star => some multiply
  | .slash => some divide
  | .less => some less
  | .greater => some greater
  | .lessEquals => some lessEquals
  | .greaterEquals => some greaterEquals
  | .equals => some equals
  | .notEquals => some notEquals
  | .and => some and
  | .or => some or
  | _ => none

def symbol : BinaryOp → String
  | plus => "+"
  | minus => "-"
  | multiply => "*"
  | divide => "/"
  | less => "<"
  | greater => ">"
  | lessEquals => "<="
  | greaterEquals => ">="
  | equals => "=="
  | notEquals => "!="
  | and => "&&"
  | or => "||"

def isArithmetic : BinaryOp → Bool
  | plus | minus | multiply | divide => true
  | _ => false

def isComparison : BinaryOp → Bool
  | less | greater | lessEquals | greaterEquals => true
  | _ => false

def isLogical : BinaryOp → Bool
  | and | or => true
  | _ => false

def isUniversal : BinaryOp → Bool
  | equals | notEquals | and | or => true
  | _ => false

def resultTy? (op : BinaryOp) (left right : Ty) : Option Ty :=
  if op.isUniversal then some .bool
  else if left.isNever || right.isNever then some .never
  else if op = plus ∧ (left = .string ∨ right = .string) then some .string
  else if !(left.isNumeric && right.isNumeric) then none
  else if op.isComparison then some .bool
  else if left = .int ∧ right = .int then some .int
  else some .float

end BinaryOp

namespace StepOp

def ofKind? : Token.Kind → Option StepOp
  | .plusPlus => some increment
  | .minusMinus => some decrement
  | _ => none

def symbol : StepOp → String
  | increment => "++"
  | decrement => "--"

end StepOp

end TypedScript
