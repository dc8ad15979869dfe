import TypedScript.Proofs.Eval.Recorded
import TypedScript.Proofs.Store.History

namespace TypedScript

structure Event where
  action : Action
  store : Store
  roots : Roots

namespace Event

def outcome (e : Event) : Except Exit Value × Store := e.action.run .standard e.roots e.store

def before (e : Event) : Session := ⟨e.store, e.roots.plus e.action.operands⟩

def after (e : Event) : Session := ⟨e.outcome.2, e.roots.plus e.action.operands⟩

end Event

namespace Logged

def recorder : Recorder Event where
  action roots a σ _ := [⟨a, σ, roots⟩]

abbrev observer : Observer (Recorded Event) := recorder.observer .standard

theorem onExpr_eq {roots : Roots} (e : Expr) (m : Recorded Event Value) :
    observer.onExpr roots e m = m := Recorded.note_nil m

theorem onStmt_eq {roots : Roots} (s : Stmt) (m : Recorded Event Value) :
    observer.onStmt roots s m = m := Recorded.note_nil m

end Logged

namespace Program

end Program

end TypedScript
