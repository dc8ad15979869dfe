import TypedScript.Proofs.Eval.Recorded

namespace TypedScript

instance (v : Value) : Decidable (v = .null) :=
  match v with
  | .null => isTrue rfl
  | .integer _ | .float _ | .string _ | .boolean _ | .void | .function _ | .bound _ _ =>
    isFalse nofun

structure Visit where
  node : Expr
  value : Value

def Visit.Fits (w : Visit) : Prop := w.value = .null ∨ w.value.ty = w.node.ty

namespace Traced

def visits (e : Expr) : Except Exit Value × Store → List Visit
  | (.ok v, _) => [⟨e, v⟩]
  | (.error _, _) => []

def recorder : Recorder Visit where
  expr _ := visits

abbrev observer (R : Reclaimer) : Observer (Recorded Visit) := recorder.observer R

variable (R : Reclaimer)

theorem act_eq (roots : Roots) (a : Action) :
    (observer R).act roots a = .lift (a.run R roots) := rfl

theorem onExpr_apply (roots : Roots) (e : Expr) (m : Recorded Visit Value) (σ : Store) :
    (observer R).onExpr roots e m σ = match m σ with
      | ((.ok v, τ), vs) => ((.ok v, τ), vs ++ [⟨e, v⟩])
      | ((.error x, τ), vs) => ((.error x, τ), vs) := by
  change Recorded.note (visits e) m σ = _
  rw [Recorded.note]
  rcases m σ with ⟨⟨_ | v, τ⟩, vs⟩ <;> simp [visits]

theorem onStmt_eq (roots : Roots) (s : Stmt) (m : Recorded Visit Value) :
    (observer R).onStmt roots s m = m := Recorded.note_nil m

theorem defineAll_eq (roots : Roots) (scope : Slot) (bs : List (String × Value)) :
    (observer R).defineAll roots scope bs = .lift (Eval.defineAll scope bs) := by
  induction bs with
  | nil => rfl
  | cons b bs ih =>
    rw [Observer.defineAll, ih, Eval.defineAll, Recorded.lift_bind]
    rfl

theorem inScope_apply (roots during : Roots) (parent : Slot) (run : Slot → Recorded Visit Value)
    (σ : Store) : (observer R).inScope roots during parent run σ =
      let x := run (σ.openScope parent).1 (σ.openScope parent).2
      ((x.1.1, R.close x.1.2 (roots.holdResult x.1.1) (σ.openScope parent).1), x.2) :=
  (recorder.inScope_apply R roots during parent run σ).trans (by simp [recorder])

theorem erase_inScope (roots during : Roots) (parent : Slot) (run : Slot → Recorded Visit Value) :
    ((observer R).inScope roots during parent run).erase =
      Eval.inScope R roots parent fun scope => (run scope).erase :=
  (recorder.erasedBy R).inScope roots during parent run

end Traced

namespace Program

/-- A run of the program in a new store, with every expression that it gives a value. -/
def traced (fuel : Nat) (p : Program) : (Except Exit Value × Store) × List Visit :=
  (Traced.observer .standard).evaluateFrom fuel .none .void p.statements .initial

theorem traced_fst (fuel : Nat) (p : Program) :
    (p.traced fuel).1 = p.evaluate .standard fuel .none .initial :=
  congrFun (Observer.erase_evaluateFrom (Traced.recorder.erasedBy .standard) fuel .none .void
    p.statements) .initial

end Program

end TypedScript
