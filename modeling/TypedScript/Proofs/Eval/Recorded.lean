import TypedScript.Proofs.Eval.Observer

namespace TypedScript

/-- A computation on a store with a record of what it comes by. -/
def Recorded (ω α : Type) : Type := Store → (Except Exit α × Store) × List ω

namespace Recorded

variable {ω α β : Type}

protected def pure (a : α) : Recorded ω α := fun σ => ((.ok a, σ), [])

protected def bind (m : Recorded ω α) (f : α → Recorded ω β) : Recorded ω β := fun σ =>
  match m σ with
  | ((.ok a, τ), ws) =>
    match f a τ with
    | (r, us) => (r, ws ++ us)
  | ((.error x, τ), ws) => ((.error x, τ), ws)

instance : Monad (Recorded ω) where
  pure := Recorded.pure
  bind := Recorded.bind

def lift (m : Eval α) : Recorded ω α := fun σ => (m σ, [])

def attempt (m : Recorded ω α) : Recorded ω (Except Exit α) := fun σ =>
  match m σ with
  | ((r, τ), ws) => ((.ok r, τ), ws)

def note (entries : Except Exit α × Store → List ω) (m : Recorded ω α) : Recorded ω α := fun σ =>
  match m σ with
  | (x, ws) => (x, ws ++ entries x)

theorem note_nil (m : Recorded ω α) : note (fun _ => []) m = m := by
  funext σ
  simp [note]

def erase (m : Recorded ω α) : Eval α := fun σ => (m σ).1

@[simp] theorem erase_lift (m : Eval α) : (lift m : Recorded ω α).erase = m := rfl

@[simp] theorem erase_bind (m : Recorded ω α) (f : α → Recorded ω β) :
    (m >>= f).erase = m.erase >>= fun a => (f a).erase := by
  funext σ
  change (Recorded.bind m f σ).1 = Eval.bind m.erase (fun a => (f a).erase) σ
  rw [Recorded.bind, Eval.bind, erase]
  rcases m σ with ⟨⟨_ | a, τ⟩, ws⟩ <;> rfl

theorem bind_apply (m : Recorded ω α) (f : α → Recorded ω β) (σ : Store) :
    (m >>= f) σ = match m σ with
      | ((.ok a, τ), ws) => ((f a τ).1, ws ++ (f a τ).2)
      | ((.error x, τ), ws) => ((.error x, τ), ws) := rfl

theorem lift_bind (m : Eval α) (f : α → Eval β) :
    (lift (m >>= f) : Recorded ω β) = lift m >>= fun a => lift (f a) := by
  funext σ
  change (Eval.bind m f σ, []) = Recorded.bind (lift m) (fun a => lift (f a)) σ
  rw [Eval.bind, Recorded.bind, lift]
  rcases m σ with ⟨_ | a, τ⟩ <;> rfl

section actions

variable (R : Reclaimer) (roots : Roots) (scope : Slot)

theorem lift_step (op : StepOp) (before : Bool) (name : String) :
    (lift ((Action.step scope op before name).run R roots) : Recorded ω Value) = (do
      let target ← lift (Eval.lookup scope name)
      lift (Eval.step op before name target)) := lift_bind _ _

theorem lift_define (receiver : Option Ty) (name : String) (v : Value) :
    (lift ((Action.define scope receiver name v).run R roots) : Recorded ω Value) = (do
      lift (Eval.defineValue scope receiver name v)
      return .void) := lift_bind _ _

theorem lift_func (heading : Heading) (body : Block) :
    (lift ((Action.func scope heading body).run R roots) : Recorded ω Value) = (do
      lift (Eval.defineFunction scope heading body)
      return .void) := lift_bind _ _

end actions

end Recorded

/-- What is recorded of a run: of an action, given the stores before and after it, and of how an
expression or a statement ends. -/
structure Recorder (ω : Type) where
  action : Roots → Action → Store → Store → List ω := fun _ _ _ _ => []
  expr : Roots → Expr → Except Exit Value × Store → List ω := fun _ _ _ => []
  stmt : Roots → Stmt → Except Exit Value × Store → List ω := fun _ _ _ => []

namespace Recorder

variable {ω : Type} (w : Recorder ω) (R : Reclaimer)

def observer : Observer (Recorded ω) where
  act roots a σ := (a.run R roots σ, w.action roots a σ (a.run R roots σ).2)
  read f := .lift fun σ => (f σ, σ)
  attempt := .attempt
  onExpr roots e := .note (w.expr roots e)
  onStmt roots s := .note (w.stmt roots s)

theorem erasedBy : (w.observer R).ErasedBy R Recorded.erase where
  pure _ := rfl
  bind := Recorded.erase_bind
  act _ _ := rfl
  read _ := rfl
  attempt _ := rfl
  onExpr _ _ _ := rfl
  onStmt _ _ _ := rfl

theorem erases (n : Nat) : (w.observer R).Erases R Recorded.erase n :=
  .all (w.erasedBy R) n

theorem attempt_eq {α : Type} (m : Recorded ω α) : (w.observer R).attempt m = m.attempt := rfl

theorem inScope_apply (roots during : Roots) (parent : Slot) (run : Slot → Recorded ω Value)
    (σ : Store) : (w.observer R).inScope roots during parent run σ =
      let scope := (σ.openScope parent).1
      let x := run scope (σ.openScope parent).2
      let τ := R.close x.1.2 (roots.holdResult x.1.1) scope
      ((x.1.1, τ), w.action during (.openScope parent) σ (σ.openScope parent).2 ++ x.2 ++
        w.action (roots.holdResult x.1.1) (.close scope) x.1.2 τ) := by
  simp only [Observer.inScope, Recorded.bind_apply]
  simp only [observer, Recorded.lift, Recorded.attempt, Action.run, Eval.bind_apply,
    Eval.modify_apply, Eval.pure_apply]
  rcases run (σ.openScope parent).1 (σ.openScope parent).2 with ⟨⟨r, τ⟩, ws⟩
  simp

end Recorder

end TypedScript
