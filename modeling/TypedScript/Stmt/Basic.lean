import TypedScript.Expr.Basic

namespace TypedScript

structure Parameter where
  name : String
  ty : Ty
  deriving DecidableEq

structure Heading where
  name : String
  receiver : Option Ty
  parameters : List Parameter
  signature : Signature
  deriving DecidableEq

/-- What is bound when the body runs, with its types: a method takes its receiver first, as
`this`. -/
def Heading.bindings (h : Heading) : List (String × Ty) :=
  match h.receiver with
  | some r => ("this", r) :: h.parameters.map fun p => (p.name, p.ty)
  | none => h.parameters.map fun p => (p.name, p.ty)

def Heading.boundNames (h : Heading) : List String := h.bindings.map Prod.fst

mutual
inductive Stmt
  | define (name : String) (ty : Ty) (value : Expr) (receiver : Option Ty) (span : Span)
  | ret (value : Expr) (span : Span)
  | func (heading : Heading) (body : Block) (span : Span)
  | block (body : Block)
  | cond (condition : Expr) (yes : Stmt) (no : Option Stmt) (span : Span)
  | loop (condition : Expr) (body : Stmt) (span : Span)
  | expr (value : Expr) (span : Span)
  | typeDecl (name : String) (span : Span)

inductive Block
  | mk (statements : List Stmt) (span : Span)
end

namespace Block

def statements : Block → List Stmt
  | mk ss _ => ss

def span : Block → Span
  | mk _ span => span

end Block

def Stmt.span : Stmt → Span
  | .define _ _ _ _ span | .ret _ span | .func _ _ span | .cond _ _ _ span | .loop _ _ span
  | .expr _ span | .typeDecl _ span => span
  | .block b => b.span

mutual
/-- Whether every path through the statement reaches a `return`. The body of a loop may run
not at all, so a loop never counts. -/
def Stmt.alwaysReturns : Stmt → Bool
  | .ret _ _ => true
  | .block b => b.alwaysReturns
  | .cond _ yes (some no) _ => yes.alwaysReturns && no.alwaysReturns
  | _ => false

def Block.alwaysReturns : Block → Bool
  | .mk ss _ => Stmt.someReturns ss

def Stmt.someReturns : List Stmt → Bool
  | [] => false
  | s :: ss => s.alwaysReturns || Stmt.someReturns ss
end

mutual
def Stmt.beq : Stmt → Stmt → Bool
  | .define x t e r p, .define x' t' e' r' p' =>
    x == x' && t == t' && e.beq e' && r == r' && p == p'
  | .ret e p, .ret e' p' => e.beq e' && p == p'
  | .func h b p, .func h' b' p' => h == h' && b.beq b' && p == p'
  | .block b, .block b' => b.beq b'
  | .cond c y n p, .cond c' y' n' p' => c.beq c' && y.beq y' && Stmt.beqOption n n' && p == p'
  | .loop c b p, .loop c' b' p' => c.beq c' && b.beq b' && p == p'
  | .expr e p, .expr e' p' => e.beq e' && p == p'
  | .typeDecl x p, .typeDecl x' p' => x == x' && p == p'
  | _, _ => false

def Stmt.beqOption : Option Stmt → Option Stmt → Bool
  | none, none => true
  | some s, some t => s.beq t
  | _, _ => false

def Block.beq : Block → Block → Bool
  | .mk ss p, .mk ts q => Stmt.beqList ss ts && p == q

def Stmt.beqList : List Stmt → List Stmt → Bool
  | [], [] => true
  | s :: ss, t :: ts => s.beq t && Stmt.beqList ss ts
  | _, _ => false
end

end TypedScript
