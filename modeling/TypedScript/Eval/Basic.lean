import TypedScript.Store.Reclaim

namespace TypedScript

/-- What cuts an evaluation short: a `return` on its way to the call it ends, an error, or the
end of the fuel. -/
inductive Exit
  | returned (value : Value)
  | failed (error : EvalError)
  | outOfFuel

/-- A computation on a store. The store is kept when it is cut short. -/
def Eval (α : Type) : Type := Store → Except Exit α × Store

namespace Eval

variable {α β : Type}

@[inline] protected def pure (a : α) : Eval α := fun σ => (.ok a, σ)

@[inline] protected def bind (m : Eval α) (f : α → Eval β) : Eval β := fun σ =>
  match m σ with
  | (.ok a, σ') => f a σ'
  | (.error s, σ') => (.error s, σ')

instance : Monad Eval where
  pure := Eval.pure
  bind := Eval.bind

def exit (s : Exit) : Eval α := fun σ => (.error s, σ)

def fail (e : EvalError) : Eval α := exit (.failed e)

@[inline] def attempt (m : Eval α) : Eval (Except Exit α) := fun σ =>
  match m σ with
  | (r, σ') => (.ok r, σ')

@[inline] def resume (r : Except Exit α) : Eval α := fun σ => (r, σ)

@[inline] def gets (f : Store → α) : Eval α := fun σ => (.ok (f σ), σ)

@[inline] def modify (f : Store → Store) : Eval Unit := fun σ => (.ok (), f σ)

@[inline] def update (f : Store → α × Store) : Eval α := fun σ =>
  match f σ with
  | (a, σ') => (.ok a, σ')

@[inline] def updateCells (f : Cells → α × Cells) : Eval α := fun σ =>
  match f σ.cells with
  | (a, cells) => (.ok a, { σ with cells })

@[simp] theorem pure_apply (a : α) (σ : Store) : (pure a : Eval α) σ = (.ok a, σ) := rfl

@[simp] theorem bind_apply (m : Eval α) (f : α → Eval β) (σ : Store) :
    (m >>= f) σ = match m σ with
      | (.ok a, σ') => f a σ'
      | (.error s, σ') => (.error s, σ') := rfl

@[simp] theorem exit_apply (s : Exit) (σ : Store) : (exit s : Eval α) σ = (.error s, σ) := rfl

@[simp] theorem attempt_apply (m : Eval α) (σ : Store) :
    attempt m σ = (.ok (m σ).1, (m σ).2) := rfl

@[simp] theorem resume_apply (r : Except Exit α) (σ : Store) : resume r σ = (r, σ) := rfl

@[simp] theorem gets_apply (f : Store → α) (σ : Store) : gets f σ = (.ok (f σ), σ) := rfl

@[simp] theorem modify_apply (f : Store → Store) (σ : Store) : modify f σ = (.ok (), f σ) := rfl

@[simp] theorem update_apply (f : Store → α × Store) (σ : Store) :
    update f σ = (.ok (f σ).1, (f σ).2) := rfl

end Eval

def Roots.holdResult (r : Roots) : Except Exit Value → Roots
  | .ok v => r.hold v
  | .error (.returned v) => r.hold v
  | .error _ => r

end TypedScript
