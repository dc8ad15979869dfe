import TypedScript.Program.Run
import TypedScript.Proofs.Store.Keep

/-! Evaluation as an observer sees it. Who looks at a run for the sake of some property decides
what is noted down of it, and whether it goes on; the walk over the program is the same for all. -/

namespace TypedScript

/-- What evaluation does at once, when the parts of an expression or a statement have been
evaluated. `pass` binds a parameter of a function that is called. -/
inductive Action
  | lookup (scope : Slot) (name : String)
  | literal (value : Literal)
  | unary (op : UnaryOp) (operand : Value)
  | binary (op : BinaryOp) (left right : Value)
  | assign (scope : Slot) (name : String) (value : Value)
  | step (scope : Slot) (op : StepOp) (before : Bool) (name : String)
  | member (object : Value) (ty : Ty) (name : String)
  | define (scope : Slot) (receiver : Option Ty) (name : String) (value : Value)
  | func (scope : Slot) (heading : Heading) (body : Block)
  | pass (scope : Slot) (name : String) (value : Value)
  | openScope (parent : Slot)
  | close (scope : Slot)

namespace Action

def run (R : Reclaimer) (roots : Roots) : Action → Eval Value
  | lookup scope name => Eval.lookup scope name
  | literal v => Eval.literal v
  | unary op operand => Eval.unary op operand
  | binary op left right => Eval.binary op left right
  | assign scope name v => Eval.assign scope name v
  | step scope op before name => do
    let target ← Eval.lookup scope name
    Eval.step op before name target
  | member object ty name => Eval.member object ty name
  | define scope receiver name v => do
    Eval.defineValue scope receiver name v
    return .void
  | func scope heading body => do
    Eval.defineFunction scope heading body
    return .void
  | pass scope name v => do
    Eval.modify (·.bind scope name v)
    return .void
  | openScope parent => do
    Eval.modify fun σ => (σ.openScope parent).2
    return .void
  | close scope => do
    Eval.modify (R.close · roots scope)
    return .void

def operands : Action → List Value
  | unary _ operand => [operand]
  | binary _ left right => [left, right]
  | assign _ _ v | define _ _ _ v | pass _ _ v => [v]
  | member object _ _ => [object]
  | lookup _ _ | literal _ | step _ _ _ _ | func _ _ _ | openScope _ | close _ => []

end Action

/-- What a walk over a program is made of: the actions, what is only read in the store, a
computation that does not cut the walk short where it is cut short itself, and what surrounds each
expression and each statement. -/
structure Observer (M : Type → Type) where
  act : Roots → Action → M Value
  read {α : Type} : (Store → Except Exit α) → M α
  attempt {α : Type} : M α → M (Except Exit α)
  onExpr : Roots → Expr → M Value → M Value
  onStmt : Roots → Stmt → M Value → M Value

namespace Observer

variable {M : Type → Type} [Monad M] (o : Observer M) {α β : Type}

def exit (x : Exit) : M α := o.read fun _ => .error x

def fail (e : EvalError) : M α := o.exit (.failed e)

def truthy (v : Value) : M Bool := o.read fun σ => .ok (v.truthy σ.cells)

def inScope (roots during : Roots) (parent : Slot) (run : Slot → M Value) : M Value := do
  let scope ← o.read fun σ => .ok (σ.openScope parent).1
  let _ ← o.act during (.openScope parent)
  let result ← o.attempt (run scope)
  let _ ← o.act (roots.holdResult result) (.close scope)
  o.read fun _ => result

def defineAll (roots : Roots) (scope : Slot) : List (String × Value) → M Unit
  | [] => pure ()
  | (name, v) :: rest => do
    let _ ← o.act roots (.pass scope name v)
    defineAll roots scope rest

def ofBody : Except Exit Value → M Value
  | .ok _ => pure .void
  | .error (.returned v) => pure v
  | .error x => o.exit x

mutual
def expr : Nat → Roots → Slot → Expr → M Value
  | 0, _, _, _ => o.exit .outOfFuel
  | n + 1, roots, scope, e => o.onExpr roots e <|
    match e with
    | .name _ x => o.act roots (.lookup scope x)
    | .literal _ v => o.act roots (.literal v)
    | .unary _ op operand => do
      let v ← expr n roots scope operand
      o.act roots (.unary op v)
    | .binary _ op l r =>
      if op.isLogical then logical n roots scope op l r
      else do
        let left ← expr n roots scope l
        let right ← expr n (roots.hold left) scope r
        o.act roots (.binary op left right)
    | .call _ f args => do
      let callee ← expr n roots scope f
      match callee.asFunction? with
      | none => o.fail (.notCallable callee.ty)
      | some (closure, receiver) =>
        let values ← arguments n (roots.hold callee) scope args
        call n (roots.hold callee) closure (receiver.toList ++ values)
    | .assign _ x value => do
      let v ← expr n roots scope value
      o.act roots (.assign scope x v)
    | .step _ op before x => o.act roots (.step scope op before x)
    | .member _ object m => do
      let v ← expr n roots scope object
      o.act roots (.member v (Eval.memberTy object.ty v) m)

def logical : Nat → Roots → Slot → BinaryOp → Expr → Expr → M Value
  | 0, _, _, _, _, _ => o.exit .outOfFuel
  | n + 1, roots, scope, op, l, r => do
    let left ← expr n roots scope l
    let decided ← o.truthy left
    if decided = (op == .or) then return .boolean decided
    else
      let right ← expr n roots scope r
      let result ← o.truthy right
      return .boolean result

def arguments : Nat → Roots → Slot → List Expr → M (List Value)
  | 0, _, _, _ => o.exit .outOfFuel
  | _ + 1, _, _, [] => pure []
  | n + 1, roots, scope, e :: es => do
    let v ← expr n roots scope e
    let vs ← arguments n (roots.hold v) scope es
    return v :: vs

def call : Nat → Roots → Closure → List Value → M Value
  | 0, _, _, _ => o.exit .outOfFuel
  | n + 1, roots, f, values =>
    if values.length = f.parameters.length then do
      let result ← o.attempt (o.inScope roots (roots.plus values) f.home.slot fun scope => do
        o.defineAll (roots.plus values) scope (f.parameters.zip values)
        block n roots scope f.body)
      o.ofBody result
    else o.fail (.arityMismatch f.parameters.length values.length)

def stmt : Nat → Roots → Slot → Stmt → M Value
  | 0, _, _, _ => o.exit .outOfFuel
  | n + 1, roots, scope, s => o.onStmt roots s <|
    match s with
    | .define x _ value receiver _ => do
      let v ← expr n roots scope value
      o.act roots (.define scope receiver x v)
    | .ret value _ => do
      let v ← expr n roots scope value
      o.exit (.returned v)
    | .func heading body _ => o.act roots (.func scope heading body)
    | .block b => block n roots scope b
    | .cond condition yes no _ => do
      let v ← expr n roots scope condition
      let holds ← o.truthy v
      if holds then branch n roots scope yes
      else match no with
        | some no => branch n roots scope no
        | none => return .void
    | .loop condition body _ => loop n roots scope condition body
    | .expr value _ => expr n roots scope value
    | .typeDecl _ _ => return .void

def loop : Nat → Roots → Slot → Expr → Stmt → M Value
  | 0, _, _, _, _ => o.exit .outOfFuel
  | n + 1, roots, scope, condition, body => do
    let v ← expr n roots scope condition
    let holds ← o.truthy v
    if holds then
      let _ ← branch n roots scope body
      loop n roots scope condition body
    else return .void

def statements : Nat → Roots → Slot → List Stmt → M Value
  | 0, _, _, _ => o.exit .outOfFuel
  | _ + 1, _, _, [] => return .void
  | n + 1, roots, scope, s :: ss => do
    let _ ← stmt n roots scope s
    statements n roots scope ss

def block : Nat → Roots → Slot → Block → M Value
  | 0, _, _, _ => o.exit .outOfFuel
  | n + 1, roots, parent, b =>
    o.inScope roots roots parent fun scope => statements n roots scope b.statements

def branch : Nat → Roots → Slot → Stmt → M Value
  | 0, _, _, _ => o.exit .outOfFuel
  | n + 1, roots, parent, s => do
    let _ ← o.inScope roots roots parent fun scope => stmt n roots scope s
    return .void
end

def evaluateFrom (fuel : Nat) (roots : Roots) : Value → List Stmt → M Value
  | last, [] => pure last
  | last, s :: ss => do
    match ← o.attempt (o.stmt fuel (roots.hold last) Store.global s) with
    | .ok v => evaluateFrom fuel roots v ss
    | .error (.returned v) => return v
    | .error other => o.exit other

variable {o}

/-- Evaluation is what is left of the walk when all that the observer adds is erased. -/
structure ErasedBy (o : Observer M) (R : Reclaimer) (erase : {α : Type} → M α → Eval α) :
    Prop where
  pure {α : Type} (a : α) : erase (pure a : M α) = pure a
  bind {α β : Type} (m : M α) (f : α → M β) : erase (m >>= f) = erase m >>= fun a => erase (f a)
  act (roots : Roots) (a : Action) : erase (o.act roots a) = a.run R roots
  read {α : Type} (f : Store → Except Exit α) : erase (o.read f) = fun σ => (f σ, σ)
  attempt {α : Type} (m : M α) : erase (o.attempt m) = Eval.attempt (erase m)
  onExpr (roots : Roots) (e : Expr) (m : M Value) : erase (o.onExpr roots e m) = erase m
  onStmt (roots : Roots) (s : Stmt) (m : M Value) : erase (o.onStmt roots s m) = erase m

namespace ErasedBy

variable {R : Reclaimer} {erase : {α : Type} → M α → Eval α} (h : o.ErasedBy R erase)
include h

theorem exit (x : Exit) : erase (o.exit x : M α) = Eval.exit x := h.read _

theorem fail (e : EvalError) : erase (o.fail e : M α) = Eval.fail e := h.read _

theorem truthy (v : Value) : erase (o.truthy v) = Eval.truthy v := h.read _

theorem ofBody (x : Except Exit Value) : erase (o.ofBody x) = Eval.ofBody x := by
  rcases x with (v | e | _) | v
  · exact h.pure v
  · exact h.exit _
  · exact h.exit _
  · exact h.pure Value.void

theorem inScope (roots during : Roots) (parent : Slot) (run : Slot → M Value) :
    erase (o.inScope roots during parent run) =
      Eval.inScope R roots parent fun scope => erase (run scope) := by
  simp only [Observer.inScope, h.bind, h.read, h.act, h.attempt]
  rfl

theorem defineAll (roots : Roots) (scope : Slot) (bs : List (String × Value)) :
    erase (o.defineAll roots scope bs) = Eval.defineAll scope bs := by
  induction bs with
  | nil => exact h.pure ()
  | cons b bs ih =>
    rw [Observer.defineAll, h.bind, h.act, ih]
    rfl

end ErasedBy

structure Erases (o : Observer M) (R : Reclaimer) (erase : {α : Type} → M α → Eval α) (n : Nat) :
    Prop where
  expr : ∀ r s e, erase (o.expr n r s e) = Eval.expr R n r s e
  logical : ∀ r s op a b, erase (o.logical n r s op a b) = Eval.logical R n r s op a b
  arguments : ∀ r s es, erase (o.arguments n r s es) = Eval.arguments R n r s es
  call : ∀ r f vs, erase (o.call n r f vs) = Eval.call R n r f vs
  stmt : ∀ r s c, erase (o.stmt n r s c) = Eval.stmt R n r s c
  loop : ∀ r s e c, erase (o.loop n r s e c) = Eval.loop R n r s e c
  statements : ∀ r s cs, erase (o.statements n r s cs) = Eval.statements R n r s cs
  block : ∀ r s b, erase (o.block n r s b) = Eval.block R n r s b
  branch : ∀ r s c, erase (o.branch n r s c) = Eval.branch R n r s c

namespace Erases

variable {R : Reclaimer} {erase : {α : Type} → M α → Eval α} {n : Nat}

theorem zero (h : o.ErasedBy R erase) : o.Erases R erase 0 := by
  constructor <;> intros <;> exact h.exit _

theorem succ (h : o.ErasedBy R erase) (ih : o.Erases R erase n) : o.Erases R erase (n + 1) where
  expr r s e := by
    cases e with
    | binary _ op a b =>
      simp only [Observer.expr, Eval.expr, h.onExpr]
      split
      · exact ih.logical r s op a b
      · simp only [h.bind, h.act, ih.expr, Action.run]
    | call _ f args =>
      simp only [Observer.expr, Eval.expr, h.onExpr, h.bind, ih.expr]
      congr 1
      funext v
      cases v.asFunction? with
      | none => exact h.fail _
      | some c => simp only [h.bind, ih.arguments, ih.call]
    | _ => simp only [Observer.expr, Eval.expr, h.onExpr, h.bind, h.act, ih.expr, Action.run]
  logical r s op a b := by
    simp only [Observer.logical, Eval.logical, h.bind, ih.expr, h.truthy]
    congr 1
    funext v
    congr 1
    funext decided
    split
    · exact h.pure _
    · simp only [h.bind, ih.expr, h.truthy, h.pure]
  arguments r s es := by
    cases es with
    | nil => simp only [Observer.arguments, Eval.arguments, h.pure]
    | cons e es =>
      simp only [Observer.arguments, Eval.arguments, h.bind, h.pure, ih.expr, ih.arguments]
  call r f vs := by
    rw [Observer.call, Eval.call]
    split
    · simp only [h.bind, h.attempt, h.inScope, h.defineAll, h.ofBody, ih.block]
    · exact h.fail _
  stmt r s c := by
    cases c with
    | cond c yes no span =>
      simp only [Observer.stmt, Eval.stmt, h.onStmt, h.bind, ih.expr, h.truthy]
      congr 1
      funext v
      congr 1
      funext holds
      split
      · exact ih.branch r s yes
      · cases no with
        | none => exact h.pure _
        | some no => exact ih.branch r s no
    | _ =>
      simp only [Observer.stmt, Eval.stmt, h.onStmt, h.bind, h.act, h.exit, h.pure, ih.expr,
        ih.block, ih.loop, Action.run]
  loop r s e c := by
    simp only [Observer.loop, Eval.loop, h.bind, ih.expr, h.truthy]
    congr 1
    funext v
    congr 1
    funext holds
    split
    · simp only [h.bind, ih.branch, ih.loop]
    · exact h.pure _
  statements r s cs := by
    cases cs with
    | nil => simp only [Observer.statements, Eval.statements, h.pure]
    | cons c cs =>
      simp only [Observer.statements, Eval.statements, h.bind, ih.stmt, ih.statements]
  block r s b := by simp only [Observer.block, Eval.block, h.inScope, ih.statements]
  branch r s c := by
    simp only [Observer.branch, Eval.branch, h.bind, h.inScope, h.pure, ih.stmt]

theorem all (h : o.ErasedBy R erase) (n : Nat) : o.Erases R erase n := by
  induction n with
  | zero => exact zero h
  | succ n ih => exact ih.succ h

end Erases

theorem erase_evaluateFrom {R : Reclaimer} {erase : {α : Type} → M α → Eval α}
    (h : o.ErasedBy R erase) (fuel : Nat) (roots : Roots) (last : Value) (ss : List Stmt) :
    erase (o.evaluateFrom fuel roots last ss) = Program.evaluateFrom R fuel roots last ss := by
  induction ss generalizing last with
  | nil => exact h.pure last
  | cons s ss ih =>
    simp only [evaluateFrom, Program.evaluateFrom, h.bind, h.attempt, (Erases.all h fuel).stmt]
    congr 1
    funext r
    rcases r with (v | e | _) | v
    · exact h.pure v
    · exact h.exit _
    · exact h.exit _
    · exact ih v

end Observer

end TypedScript
