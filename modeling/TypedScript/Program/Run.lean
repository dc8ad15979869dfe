import TypedScript.Eval.Walk
import TypedScript.Program.Basic

namespace TypedScript

inductive NoAnswer
  | diagnosed (diagnostics : List Diagnostic)
  | failed (error : EvalError)
  | outOfFuel

def NoAnswer.message : NoAnswer → String
  | diagnosed ds => toString ds.length ++ " error(s) while parsing"
  | failed e => "runtime error: " ++ e.message
  | outOfFuel => "out of fuel"

namespace Program

/-- A depth of evaluation that no run reaches. -/
def ampleFuel : Nat := Nat.pow 2 62

/-- Runs statements in the global scope. The value of each is held until the next has run; the
last one is the answer. A `return` ends the run with its value. -/
def evaluateFrom (reclaimer : Reclaimer) (fuel : Nat) (roots : Roots) :
    Value → List Stmt → Eval Value
  | last, [] => pure last
  | last, s :: ss => do
    match ← Eval.attempt (Eval.stmt reclaimer fuel (roots.hold last) Store.global s) with
    | .ok v => evaluateFrom reclaimer fuel roots v ss
    | .error (.returned v) => return v
    | .error other => Eval.exit other

def evaluate (reclaimer : Reclaimer) (fuel : Nat) (roots : Roots) (p : Program) : Eval Value :=
  evaluateFrom reclaimer fuel roots .void p.statements

structure Answer where
  value : Value
  store : Store

def Answer.text (a : Answer) : String := a.value.text a.store.cells

def start (fuel : Nat) (p : Program) : Except NoAnswer Answer :=
  match p.evaluate .standard fuel .none .initial with
  | (.ok v, σ) => .ok ⟨v, σ⟩
  | (.error (.returned v), σ) => .ok ⟨v, σ⟩
  | (.error (.failed e), _) => .error (.failed e)
  | (.error .outOfFuel, _) => .error .outOfFuel

def run (fuel : Nat) (source : String) (file : Option String) : Except NoAnswer Answer :=
  match parse source file with
  | (p, []) => start fuel p
  | (_, ds) => .error (.diagnosed ds)

end Program

end TypedScript
