import TypedScript.Proofs.Eval.Observer

namespace TypedScript

/-- The action binds the name in the scope, and is not made to change what it is bound to. -/
def Action.definition? : Action → Option (Slot × String)
  | define scope none name _ => some (scope, name)
  | func scope heading _ => if heading.receiver.isNone then some (scope, heading.name) else none
  | pass scope name _ => some (scope, name)
  | lookup _ _ | literal _ | unary _ _ | binary _ _ _ | assign _ _ _ | step _ _ _ _ | member _ _ _
  | define _ (some _) _ _ | openScope _ | close _ => none

def Store.lacks (σ : Store) (scope : Slot) (name : String) : Bool :=
  match σ.scope? scope with
  | none => false
  | some s => !s.bindings.contains name

/-- A computation on a store that may be given up. -/
def Guarded (α : Type) : Type := Store → Option (Except Exit α × Store)

namespace Guarded

variable {α β : Type}

protected def pure (a : α) : Guarded α := fun σ => some (.ok a, σ)

protected def bind (m : Guarded α) (f : α → Guarded β) : Guarded β := fun σ =>
  match m σ with
  | none => none
  | some (.ok a, τ) => f a τ
  | some (.error x, τ) => some (.error x, τ)

instance : Monad Guarded where
  pure := Guarded.pure
  bind := Guarded.bind

def lift (m : Eval α) : Guarded α := fun σ => some (m σ)

def attempt (m : Guarded α) : Guarded (Except Exit α) := fun σ =>
  (m σ).map fun x => (.ok x.1, x.2)

def act (R : Reclaimer) (roots : Roots) (a : Action) : Guarded Value := fun σ =>
  if a.definition?.all fun d => σ.lacks d.1 d.2 then some (a.run R roots σ) else none

example : (do
    let _ ← act .standard .none (.pass Store.global "x" .null)
    act .standard .none (.pass Store.global "x" .void)) Store.initial = none := rfl

def observer (R : Reclaimer) : Observer Guarded where
  act := act R
  read f := .lift fun σ => (f σ, σ)
  attempt := .attempt
  onExpr _ _ m := m
  onStmt _ _ m := m

theorem bind_apply (m : Guarded α) (f : α → Guarded β) (σ : Store) :
    (m >>= f) σ = match m σ with
      | none => none
      | some (.ok a, τ) => f a τ
      | some (.error x, τ) => some (.error x, τ) := rfl

theorem lift_bind (m : Eval α) (f : α → Eval β) :
    lift (m >>= f) = lift m >>= fun a => lift (f a) := by
  funext σ
  rw [bind_apply, lift, lift, Eval.bind_apply]
  rcases m σ with ⟨_ | a, τ⟩ <;> rfl

theorem attempt_apply (R : Reclaimer) (m : Guarded α) (σ : Store) :
    (observer R).attempt m σ = (m σ).map fun x => (.ok x.1, x.2) := rfl

theorem act_of_none {a : Action} (h : a.definition? = none) (R : Reclaimer) (roots : Roots) :
    act R roots a = lift (a.run R roots) := by
  funext σ
  rw [act, h]
  rfl

theorem act_of_lacks {a : Action} {scope : Slot} {name : String} {σ : Store}
    (h : a.definition? = some (scope, name)) (hlacks : σ.lacks scope name = true) (R : Reclaimer)
    (roots : Roots) : act R roots a σ = some (a.run R roots σ) := by
  rw [act, h, Option.all_some, if_pos hlacks]

theorem inScope_apply (R : Reclaimer) (roots during : Roots) (parent : Slot)
    (run : Slot → Guarded Value) (σ : Store) : (observer R).inScope roots during parent run σ =
      (run (σ.openScope parent).1 (σ.openScope parent).2).map fun x =>
        (x.1, R.close x.2 (roots.holdResult x.1) (σ.openScope parent).1) := by
  have hopen : act R during (.openScope parent) = lift _ := act_of_none rfl R during
  have hclose (x : Except Exit Value) :
      act R (roots.holdResult x) (.close (σ.openScope parent).1) = lift _ := act_of_none rfl R _
  simp only [Observer.inScope, bind_apply]
  simp only [observer, hopen, hclose, lift, attempt, Action.run, Eval.bind_apply,
    Eval.modify_apply, Eval.pure_apply]
  cases run (σ.openScope parent).1 (σ.openScope parent).2 with
  | none => rfl
  | some x => rfl

end Guarded

theorem Eval.inScope_apply (R : Reclaimer) (roots : Roots) (parent : Slot)
    (run : Slot → Eval Value) (σ : Store) : inScope R roots parent run σ =
      let x := run (σ.openScope parent).1 (σ.openScope parent).2
      (x.1, R.close x.2 (roots.holdResult x.1) (σ.openScope parent).1) := by
  simp [inScope]

def Program.guarded (fuel : Nat) (p : Program) : Option (Except Exit Value × Store) :=
  (Guarded.observer .standard).evaluateFrom fuel .none .void p.statements .initial

end TypedScript
