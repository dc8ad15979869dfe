import TypedScript.Eval.Operation

/-! Evaluation of expressions and statements. `fuel` bounds the depth of the walk and the rounds
of loops; `roots` are the values that the computation around this one holds on to. -/

namespace TypedScript.Eval

variable (reclaimer : Reclaimer)

mutual
def expr : Nat → Roots → Slot → Expr → Eval Value
  | 0, _, _, _ => exit .outOfFuel
  | n + 1, roots, scope, e =>
    match e with
    | .name _ x => lookup scope x
    | .literal _ v => literal v
    | .unary _ op operand => do
      let v ← expr n roots scope operand
      unary op v
    | .binary _ op l r =>
      if op.isLogical then logical n roots scope op l r
      else do
        let left ← expr n roots scope l
        let right ← expr n (roots.hold left) scope r
        binary op left right
    | .call _ f args => do
      let callee ← expr n roots scope f
      match callee.asFunction? with
      | none => fail (.notCallable callee.ty)
      | some (closure, receiver) =>
        let values ← arguments n (roots.hold callee) scope args
        call n (roots.hold callee) closure (receiver.toList ++ values)
    | .assign _ x value => do
      let v ← expr n roots scope value
      assign scope x v
    | .step _ op before x => do
      let target ← lookup scope x
      step op before x target
    | .member _ object m => do
      let v ← expr n roots scope object
      member v (memberTy object.ty v) m

def logical : Nat → Roots → Slot → BinaryOp → Expr → Expr → Eval Value
  | 0, _, _, _, _, _ => exit .outOfFuel
  | n + 1, roots, scope, op, l, r => do
    let left ← expr n roots scope l
    let decided ← truthy left
    if decided = (op == .or) then return .boolean decided
    else
      let right ← expr n roots scope r
      let result ← truthy right
      return .boolean result

def arguments : Nat → Roots → Slot → List Expr → Eval (List Value)
  | 0, _, _, _ => exit .outOfFuel
  | _ + 1, _, _, [] => pure []
  | n + 1, roots, scope, e :: es => do
    let v ← expr n roots scope e
    let vs ← arguments n (roots.hold v) scope es
    return v :: vs

def call : Nat → Roots → Closure → List Value → Eval Value
  | 0, _, _, _ => exit .outOfFuel
  | n + 1, roots, f, values =>
    if values.length = f.parameters.length then do
      let result ← attempt (inScope reclaimer roots f.home.slot fun scope => do
        defineAll scope (f.parameters.zip values)
        block n roots scope f.body)
      ofBody result
    else fail (.arityMismatch f.parameters.length values.length)

def stmt : Nat → Roots → Slot → Stmt → Eval Value
  | 0, _, _, _ => exit .outOfFuel
  | n + 1, roots, scope, s =>
    match s with
    | .define x _ value receiver _ => do
      let v ← expr n roots scope value
      defineValue scope receiver x v
      return .void
    | .ret value _ => do
      let v ← expr n roots scope value
      exit (.returned v)
    | .func heading body _ => do
      defineFunction scope heading body
      return .void
    | .block b => block n roots scope b
    | .cond condition yes no _ => do
      let v ← expr n roots scope condition
      let holds ← truthy v
      if holds then branch n roots scope yes
      else match no with
        | some no => branch n roots scope no
        | none => return .void
    | .loop condition body _ => loop n roots scope condition body
    | .expr value _ => expr n roots scope value
    | .typeDecl _ _ => return .void

def loop : Nat → Roots → Slot → Expr → Stmt → Eval Value
  | 0, _, _, _, _ => exit .outOfFuel
  | n + 1, roots, scope, condition, body => do
    let v ← expr n roots scope condition
    let holds ← truthy v
    if holds then
      let _ ← branch n roots scope body
      loop n roots scope condition body
    else return .void

def statements : Nat → Roots → Slot → List Stmt → Eval Value
  | 0, _, _, _ => exit .outOfFuel
  | _ + 1, _, _, [] => return .void
  | n + 1, roots, scope, s :: ss => do
    let _ ← stmt n roots scope s
    statements n roots scope ss

def block : Nat → Roots → Slot → Block → Eval Value
  | 0, _, _, _ => exit .outOfFuel
  | n + 1, roots, parent, b =>
    inScope reclaimer roots parent fun scope => statements n roots scope b.statements

def branch : Nat → Roots → Slot → Stmt → Eval Value
  | 0, _, _, _ => exit .outOfFuel
  | n + 1, roots, parent, s => do
    let _ ← inScope reclaimer roots parent fun scope => stmt n roots scope s
    return .void
end

end TypedScript.Eval
