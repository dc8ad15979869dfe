import TypedScript.Store.Basic

/-! Who refers to what. References are not stored: they are counted when the answer is needed,
from the bindings, the members, and what is held outside the store. -/

namespace TypedScript

/-- What is held outside the store: values on the evaluator's stack or with its caller, and
holds on scopes that belong to no function. -/
structure Roots where
  values : List Value
  handles : List Handle

namespace Roots

def none : Roots := ⟨[], []⟩

def hold (r : Roots) (v : Value) : Roots := { r with values := v :: r.values }

end Roots

/-- The function that a value is and those it is bound to, one inside the other. -/
def Value.closures : Value → List Closure
  | .function f => [f]
  | .bound f receiver => f :: receiver.closures
  | _ => []

def Member.value : Member → Value
  | .field v => v
  | .method f receiver => .ofFunction f receiver

structure Sighting where
  closure : Closure
  value : Value
  count : Nat

abbrev Census := Dict Nat Sighting

namespace Census

def countOf (c : Census) (id : Nat) : Nat :=
  match c.get? id with
  | some s => s.count
  | none => 0

def sight (c : Census) (f : Closure) (v : Value) : Census :=
  c.insert f.id ⟨f, v, c.countOf f.id + 1⟩

def note (c : Census) : Value → Census
  | .function f => c.sight f (.function f)
  | .bound f receiver =>
    if c.contains f.id then c.sight f (.bound f receiver)
    else (c.sight f (.bound f receiver)).note receiver
  | _ => c

def ofValues (vs : List Value) : Census := vs.foldl note .empty

end Census

namespace Store

def referenced (σ : Store) (roots : Roots) : List Value :=
  σ.allocated.flatMap (·.2.bindings.values) ++ σ.members.values.map Member.value ++ roots.values

def isHeld (σ : Store) (roots : Roots) (stamp : Nat) : Bool :=
  roots.handles.any (·.stamp == stamp) ||
    (σ.referenced roots).any fun v => v.closures.any (·.home.stamp == stamp)

/-- How many holds on the scope with this stamp are alive. -/
def holds (roots : Roots) (everything : Census) (stamp : Nat) : Nat :=
  (everything.values.filter (·.closure.home.stamp == stamp)).length
    + (roots.handles.filter (·.stamp == stamp)).length

def idleValues (σ : Store) : List Value :=
  (σ.allocated.filter (!·.2.active)).flatMap (·.2.bindings.values)

end Store

end TypedScript
