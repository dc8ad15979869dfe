import TypedScript.Expr.Operator

namespace TypedScript

structure Ann where
  ty : Ty
  span : Span
  deriving DecidableEq

inductive Literal
  | string (text : String)
  | integer (value : Int64)
  | float (value : Float)
  | boolean (value : Bool)
  | null
  | void

inductive Expr
  | name (ann : Ann) (name : String)
  | literal (ann : Ann) (value : Literal)
  | unary (ann : Ann) (op : UnaryOp) (operand : Expr)
  | binary (ann : Ann) (op : BinaryOp) (left right : Expr)
  | call (ann : Ann) (callee : Expr) (arguments : List Expr)
  | assign (ann : Ann) (target : String) (value : Expr)
  | step (ann : Ann) (op : StepOp) (before : Bool) (target : String)
  | member (ann : Ann) (object : Expr) (member : String)

namespace Literal

/-- Literals agree as values do, so a float literal that is not a number differs from itself. -/
def beq : Literal → Literal → Bool
  | string s, string t => s == t
  | integer i, integer j => i == j
  | float x, float y => x == y
  | boolean a, boolean b => a == b
  | null, null => true
  | void, void => true
  | _, _ => false

end Literal

namespace Expr

def ann : Expr → Ann
  | name a _ | literal a _ | unary a _ _ | binary a _ _ _ | call a _ _ | assign a _ _
  | step a _ _ _ | member a _ _ => a

def ty (e : Expr) : Ty := e.ann.ty

def span (e : Expr) : Span := e.ann.span

def withSpan (span : Span) : Expr → Expr
  | name a x => name { a with span } x
  | literal a v => literal { a with span } v
  | unary a op e => unary { a with span } op e
  | binary a op l r => binary { a with span } op l r
  | call a f args => call { a with span } f args
  | assign a x e => assign { a with span } x e
  | step a op before x => step { a with span } op before x
  | member a e m => member { a with span } e m

def isNull : Expr → Bool
  | literal _ .null => true
  | _ => false

def tyName (e : Expr) : String := if e.isNull then "null" else e.ty.text

/-- Typing the expression failed, and a diagnostic already says so. -/
def isFaulty (e : Expr) : Bool := e.ty.isNever && !e.isNull

mutual
def beq : Expr → Expr → Bool
  | name a x, name b y => a == b && x == y
  | literal a v, literal b w => a == b && v.beq w
  | unary a op e, unary b op' e' => a == b && op == op' && beq e e'
  | binary a op l r, binary b op' l' r' => a == b && op == op' && beq l l' && beq r r'
  | call a f args, call b f' args' => a == b && beq f f' && beqList args args'
  | assign a x e, assign b y e' => a == b && x == y && beq e e'
  | step a op before x, step b op' before' y => a == b && op == op' && before == before' && x == y
  | member a e m, member b e' m' => a == b && beq e e' && m == m'
  | _, _ => false

def beqList : List Expr → List Expr → Bool
  | [], [] => true
  | e :: es, f :: fs => beq e f && beqList es fs
  | _, _ => false
end

end Expr

end TypedScript
