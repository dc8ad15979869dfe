import TypedScript.Eval.Basic

namespace TypedScript.Eval

def ofScalar : Except EvalError Scalar → Eval Value
  | .ok result => updateCells (·.alloc result)
  | .error e => fail e

def literal (v : Literal) : Eval Value := updateCells (·.literal v)

def unary (op : UnaryOp) (operand : Value) : Eval Value := do
  let result ← gets fun σ => operand.unary σ.cells op
  ofScalar result

def binary (op : BinaryOp) (left right : Value) : Eval Value := do
  let result ← gets fun σ => Value.binary σ.cells op left right
  ofScalar result

def truthy (v : Value) : Eval Bool := gets fun σ => v.truthy σ.cells

def lookup (scope : Slot) (name : String) : Eval Value := do
  match ← gets (·.lookup? scope name) with
  | some v => return v
  | none => fail (.variableNotDeclared name)

def assign (scope : Slot) (name : String) (v : Value) : Eval Value := do
  match ← gets (·.binder? scope name) with
  | some found =>
    modify (·.bind found name v)
    return v
  | none => fail (.variableNotDeclared name)

def step (op : StepOp) (before : Bool) (name : String) : Value → Eval Value
  | .integer cell => updateCells (·.stepInteger op before cell)
  | .float cell => updateCells (·.stepFloat op before cell)
  | v => fail (.notIncrementable name v.ty)

def memberTy (static : Ty) (object : Value) : Ty := if static.isNever then object.ty else static

def member (object : Value) (ty : Ty) (name : String) : Eval Value := fun σ =>
  match σ.member? object ty name with
  | some (v, σ') => (.ok v, σ')
  | none => (.error (.failed (.unknownMember ty name)), σ)

def defineFunction (scope : Slot) (heading : Heading) (body : Block) : Eval Unit := do
  let f ← update (·.newClosure heading.boundNames body heading.signature scope)
  match heading.receiver with
  | some ty => modify (·.setMethod ty heading.name f none)
  | none => modify (·.bind scope heading.name (.function f))

def defineValue (scope : Slot) (receiver : Option Ty) (name : String) (v : Value) : Eval Unit :=
  match receiver with
  | some ty => modify (·.setField ty name v)
  | none => modify (·.bind scope name v)

def defineAll (scope : Slot) : List (String × Value) → Eval Unit
  | [] => pure ()
  | (name, v) :: rest => do
    modify (·.bind scope name v)
    defineAll scope rest

/-- Runs a computation in a scope of its own, which is closed however the computation ends. -/
@[inline] def inScope (reclaimer : Reclaimer) (roots : Roots) (parent : Slot)
    (run : Slot → Eval Value) : Eval Value := do
  let scope ← update (·.openScope parent)
  let result ← attempt (run scope)
  modify (reclaimer.close · (roots.holdResult result) scope)
  resume result

def ofBody : Except Exit Value → Eval Value
  | .ok _ => pure .void
  | .error (.returned v) => pure v
  | .error s => exit s

end TypedScript.Eval
