import TypedScript.Text.Quoted
import TypedScript.Value.Basic

namespace TypedScript

open Text (quoted)

inductive EvalError
  | variableNotDeclared (name : String)
  | divisionByZero
  | notCallable (type : Ty)
  | arityMismatch (expected received : Nat)
  | unknownMember (type : Ty) (member : String)
  | notIncrementable (name : String) (type : Ty)
  | operatorMismatch (op : BinaryOp) (left right : Ty)
  | unaryOperatorMismatch (op : UnaryOp) (operand : Ty)
  deriving DecidableEq

def EvalError.message : EvalError → String
  | variableNotDeclared name => "cannot resolve " ++ quoted name
  | divisionByZero => "division by zero"
  | notCallable type => "cannot call non-function of type '" ++ type.text ++ "'"
  | arityMismatch expected received =>
    "expected " ++ toString expected ++ " arguments, received " ++ toString received
  | unknownMember type member => "type '" ++ type.text ++ "' has no member " ++ quoted member
  | notIncrementable name type =>
    "cannot increment or decrement " ++ quoted name ++ " of type '" ++ type.text ++ "'"
  | operatorMismatch op left right =>
    "operator " ++ op.symbol ++ " is not defined for '" ++ left.text ++ "' and '"
      ++ right.text ++ "'"
  | unaryOperatorMismatch op operand =>
    "operator " ++ op.symbol ++ " is not defined for '" ++ operand.text ++ "'"

inductive Scalar
  | string (text : String)
  | integer (value : Int64)
  | float (value : Float)
  | boolean (value : Bool)

namespace Scalar

def ofIntegers (op : BinaryOp) (a b : Int64) : Except EvalError (Option Scalar) :=
  match op with
  | .plus => .ok (some (integer (a + b)))
  | .minus => .ok (some (integer (a - b)))
  | .multiply => .ok (some (integer (a * b)))
  | .divide => if b = 0 then .error .divisionByZero else .ok (some (integer (a / b)))
  | .less => .ok (some (boolean (a < b)))
  | .greater => .ok (some (boolean (b < a)))
  | .lessEquals => .ok (some (boolean (a ≤ b)))
  | .greaterEquals => .ok (some (boolean (b ≤ a)))
  | .equals | .notEquals | .and | .or => .ok none

def ofFloats (op : BinaryOp) (a b : Float) : Except EvalError (Option Scalar) :=
  match op with
  | .plus => .ok (some (float (a + b)))
  | .minus => .ok (some (float (a - b)))
  | .multiply => .ok (some (float (a * b)))
  | .divide => if b == 0 then .error .divisionByZero else .ok (some (float (a / b)))
  | .less => .ok (some (boolean (a < b)))
  | .greater => .ok (some (boolean (b < a)))
  | .lessEquals => .ok (some (boolean (a ≤ b)))
  | .greaterEquals => .ok (some (boolean (b ≤ a)))
  | .equals | .notEquals | .and | .or => .ok none

end Scalar

namespace Value

def isString : Value → Bool
  | string _ => true
  | _ => false

/-- An operator on two numbers. A whole number beside a float counts as the float nearest to
it. -/
def arithmetic (cells : Cells) (op : BinaryOp) : Value → Value →
    Except EvalError (Option Scalar)
  | integer a, integer b => Scalar.ofIntegers op (cells.integer a) (cells.integer b)
  | integer a, float b => Scalar.ofFloats op (Decimal.ofInteger (cells.integer a)) (cells.float b)
  | float a, integer b => Scalar.ofFloats op (cells.float a) (Decimal.ofInteger (cells.integer b))
  | float a, float b => Scalar.ofFloats op (cells.float a) (cells.float b)
  | _, _ => .ok none

def binary (cells : Cells) (op : BinaryOp) (left right : Value) : Except EvalError Scalar :=
  if op = .equals then .ok (.boolean (left.equal cells right))
  else if op = .notEquals then .ok (.boolean (!left.equal cells right))
  else if op = .plus ∧ (left.isString ∨ right.isString) then
    .ok (.string (left.text cells ++ right.text cells))
  else match arithmetic cells op left right with
    | .ok (some result) => .ok result
    | .ok none => .error (.operatorMismatch op left.ty right.ty)
    | .error e => .error e

def unary (cells : Cells) (op : UnaryOp) (operand : Value) : Except EvalError Scalar :=
  match op, operand with
  | .not, v => .ok (.boolean (!v.truthy cells))
  | .negate, integer c => .ok (.integer (-cells.integer c))
  | .negate, float c => .ok (.float (-cells.float c))
  | .negate, v => .error (.unaryOperatorMismatch op v.ty)

end Value

namespace StepOp

def onInteger : StepOp → Int64 → Int64
  | increment, i => i + 1
  | decrement, i => i - 1

def onFloat : StepOp → Float → Float
  | increment, x => x + 1
  | decrement, x => x - 1

end StepOp

namespace Cells

def alloc (cells : Cells) : Scalar → Value × Cells
  | .string s => (.string s, cells)
  | .boolean b => (.boolean b, cells)
  | .integer i => let (cell, cells) := cells.newInteger i; (.integer cell, cells)
  | .float x => let (cell, cells) := cells.newFloat x; (.float cell, cells)

def literal (cells : Cells) : Literal → Value × Cells
  | .string s => (.string s, cells)
  | .integer i => cells.alloc (.integer i)
  | .float x => cells.alloc (.float x)
  | .boolean b => (.boolean b, cells)
  | .null => (.null, cells)
  | .void => (.void, cells)

/-- Steps the cell of a whole number. Before the name the operator gives the value itself,
behind it a copy of what it was. -/
def stepInteger (cells : Cells) (op : StepOp) (before : Bool) (cell : Nat) : Value × Cells :=
  let old := cells.integer cell
  let cells := cells.setInteger cell (op.onInteger old)
  if before then (.integer cell, cells) else cells.alloc (.integer old)

def stepFloat (cells : Cells) (op : StepOp) (before : Bool) (cell : Nat) : Value × Cells :=
  let old := cells.float cell
  let cells := cells.setFloat cell (op.onFloat old)
  if before then (.float cell, cells) else cells.alloc (.float old)

end Cells

end TypedScript
