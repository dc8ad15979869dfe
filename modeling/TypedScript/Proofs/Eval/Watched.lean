import TypedScript.Proofs.Eval.Recorded
import TypedScript.Proofs.Store.History

namespace TypedScript

namespace Watched

/-- The state behind an action that opens or closes a scope or binds a parameter. The expressions
and statements around the other actions are recorded when they end. -/
def moved (roots : Roots) : Action → Store → Store → List Session
  | .openScope _, _, τ | .pass _ _ _, _, τ | .close _, _, τ => [⟨τ, roots⟩]
  | .lookup _ _, _, _ | .literal _, _, _ | .unary _ _, _, _ | .binary _ _ _, _, _
  | .assign _ _ _, _, _ | .step _ _ _ _, _, _ | .member _ _ _, _, _ | .define _ _ _ _, _, _
  | .func _ _ _, _, _ => []

def ended (roots : Roots) (x : Except Exit Value × Store) : List Session :=
  [⟨x.2, roots.holdResult x.1⟩]

def recorder : Recorder Session where
  action := moved
  expr roots _ := ended roots
  stmt roots _ := ended roots

abbrev observer (R : Reclaimer) : Observer (Recorded Session) := recorder.observer R

theorem act_of_still {roots : Roots} {a : Action} (h : ∀ σ τ, moved roots a σ τ = [])
    (R : Reclaimer) : (observer R).act roots a = .lift (a.run R roots) :=
  funext fun σ => congrArg (Prod.mk _) (h σ _)

theorem inScope_apply (R : Reclaimer) (roots during : Roots) (parent : Slot)
    (run : Slot → Recorded Session Value) (σ : Store) :
    (observer R).inScope roots during parent run σ =
      let x := run (σ.openScope parent).1 (σ.openScope parent).2
      let τ := R.close x.1.2 (roots.holdResult x.1.1) (σ.openScope parent).1
      ((x.1.1, τ), ⟨(σ.openScope parent).2, during⟩ :: x.2 ++ [⟨τ, roots.holdResult x.1.1⟩]) :=
  recorder.inScope_apply R roots during parent run σ

end Watched

namespace Program

/-- A run of the program in a session, with the states that it goes through, the first one
included. -/
def watched (fuel : Nat) (w : Session) (p : Program) :
    (Except Exit Value × Store) × List Session :=
  let x := (Watched.observer .standard).evaluateFrom fuel w.roots .void p.statements w.store
  (x.1, w :: x.2)

theorem watched_fst (fuel : Nat) (w : Session) (p : Program) :
    (p.watched fuel w).1 = p.evaluate .standard fuel w.roots w.store :=
  congrFun (Observer.erase_evaluateFrom (Watched.recorder.erasedBy .standard) fuel w.roots .void
    p.statements) w.store

/-- The states of programs that are run one after the other in one store. What is given with each
tells whether its answer is held while the later ones run. -/
def watchedAll (fuel : Nat) : Session → List (Program × Bool) → List Session
  | w, [] => [w]
  | w, (p, keep) :: rest =>
    let x := p.watched fuel w
    x.2 ++ watchedAll fuel ⟨x.1.2, if keep then w.roots.holdResult x.1.1 else w.roots⟩ rest

end Program

end TypedScript
