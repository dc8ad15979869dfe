import TypedScript.Dict
import TypedScript.Value.Operation

namespace TypedScript

/-- A runtime scope. It is active from `openScope` to `close`. `children` counts the openings
inside it less those that ended; it goes below zero only if a scope was opened in an empty slot
and this one has come to stand there. -/
structure Scope where
  bindings : Dict String Value
  parent : Option Slot
  active : Bool
  children : Int
  stamp : Nat

inductive Member
  | field (value : Value)
  | method (f : Closure) (receiver : Option Value)

/-- All that a running program can reach. An empty slot stands in `free`, the latest freed
first; `collectAt` is the number of live scopes at which the next collection is due; `fresh` is
above every stamp and every closure's id. -/
structure Store where
  slots : Array (Option Scope)
  free : List Nat
  live : Nat
  collectAt : Nat
  members : Dict (Ty × String) Member
  cells : Cells
  fresh : Nat

namespace Store

def threshold : Nat := 64

def global : Slot := ⟨0⟩

def initial : Store where
  slots := #[some ⟨.empty, none, true, 0, 0⟩]
  free := []
  live := 1
  collectAt := threshold
  members := .empty
  cells := .empty
  fresh := 1

def scope? (σ : Store) (id : Slot) : Option Scope := σ.slots[id.index]?.join

def modifyScope (σ : Store) (id : Slot) (f : Scope → Scope) : Store :=
  { σ with slots := σ.slots.modify id.index (Option.map f) }

theorem scope?_modifyScope (σ : Store) (id other : Slot) (f : Scope → Scope) :
    (σ.modifyScope id f).scope? other =
      if id = other then (σ.scope? id).map f else σ.scope? other := by
  by_cases h : id = other
  · subst h
    simp only [scope?, modifyScope, if_true, Array.getElem?_modify]
    cases σ.slots[id.index]? with
    | none => rfl
    | some slot => cases slot <;> rfl
  · have hi : id.index ≠ other.index := fun hi => h (by cases id; cases other; cases hi; rfl)
    simp [scope?, modifyScope, h, Array.getElem?_modify, hi]

def openScope (σ : Store) (parent : Slot) : Slot × Store :=
  let σ := σ.modifyScope parent fun s => { s with children := s.children + 1 }
  let scope : Option Scope := some ⟨.empty, some parent, true, 0, σ.fresh⟩
  match σ.free with
  | index :: free =>
    (⟨index⟩, { σ with
      slots := σ.slots.setIfInBounds index scope, free
      live := σ.live + 1, fresh := σ.fresh + 1 })
  | [] =>
    (⟨σ.slots.size⟩, { σ with
      slots := σ.slots.push scope, live := σ.live + 1, fresh := σ.fresh + 1 })

/-- A hold on a scope. On an empty slot there is nothing to hold, and the stamp is one that no
scope has. -/
def handleFor (σ : Store) (id : Slot) : Handle × Store :=
  match σ.scope? id with
  | some s => (⟨id, s.stamp⟩, σ)
  | none => (⟨id, σ.fresh⟩, { σ with fresh := σ.fresh + 1 })

def newClosure (σ : Store) (parameters : List String) (body : Block) (signature : Signature)
    (id : Slot) : Closure × Store :=
  let (home, σ) := σ.handleFor id
  (⟨σ.fresh, parameters, body, home, signature⟩, { σ with fresh := σ.fresh + 1 })

def bind (σ : Store) (id : Slot) (name : String) (v : Value) : Store :=
  σ.modifyScope id fun s => { s with bindings := s.bindings.insert name v }

theorem scope?_bind (σ : Store) (id other : Slot) (name : String) (v : Value) :
    (σ.bind id name v).scope? other =
      if id = other then
        (σ.scope? id).map fun s => { s with bindings := s.bindings.insert name v }
      else σ.scope? other :=
  scope?_modifyScope σ id other _

/-- The nearest scope, from the given one outwards, that binds a name. No chain of parents is
longer than there are slots. -/
def binderFrom (σ : Store) (name : String) : Nat → Slot → Option Slot
  | 0, _ => none
  | n + 1, id =>
    match σ.scope? id with
    | none => none
    | some s =>
      if s.bindings.contains name then some id
      else match s.parent with
        | none => none
        | some parent => binderFrom σ name n parent

def binder? (σ : Store) (id : Slot) (name : String) : Option Slot :=
  σ.binderFrom name σ.slots.size id

def lookup? (σ : Store) (id : Slot) (name : String) : Option Value :=
  match σ.binder? id name with
  | none => none
  | some found => (σ.scope? found).bind (·.bindings.get? name)

def rebind? (σ : Store) (id : Slot) (name : String) (v : Value) : Option Store :=
  (σ.binder? id name).map (σ.bind · name v)

def setField (σ : Store) (ty : Ty) (name : String) (v : Value) : Store :=
  { σ with members := σ.members.insert (ty, name) (.field v) }

def setMethod (σ : Store) (ty : Ty) (name : String) (f : Closure) (receiver : Option Value) :
    Store :=
  { σ with members := σ.members.insert (ty, name) (.method f receiver) }

def member? (σ : Store) (receiver : Value) (ty : Ty) (name : String) : Option (Value × Store) :=
  match σ.members.get? (ty, name) with
  | none => none
  | some (.field v) => some (v, σ)
  | some (.method f _) =>
    some (.bound { f with id := σ.fresh } receiver, { σ with fresh := σ.fresh + 1 })

def allocated (σ : Store) : List (Nat × Scope) :=
  (List.range σ.slots.size).filterMap fun i => (σ.scope? ⟨i⟩).map (i, ·)

def vacate (σ : Store) (id : Slot) : Store :=
  match σ.scope? id with
  | none => σ
  | some _ => { σ with
      slots := σ.slots.setIfInBounds id.index none
      free := id.index :: σ.free
      live := σ.live - 1 }

theorem scope?_vacate (σ : Store) (id other : Slot) :
    (σ.vacate id).scope? other = if id = other then none else σ.scope? other := by
  cases hs : σ.scope? id with
  | none =>
    by_cases h : id = other
    · subst h
      simp [vacate, hs]
    · simp [vacate, hs, h]
  | some s =>
    have hv : (σ.vacate id).slots = σ.slots.setIfInBounds id.index none := by simp [vacate, hs]
    by_cases h : id = other
    · subst h
      simp only [scope?, hv, if_true, Array.getElem?_setIfInBounds]
      split <;> rfl
    · have hi : id.index ≠ other.index := fun hi => h (by cases id; cases other; cases hi; rfl)
      simp [scope?, hv, h, hi]

def dropChild (σ : Store) (parent : Option Slot) : Store :=
  match parent with
  | none => σ
  | some p => σ.modifyScope p fun s => { s with children := s.children - 1 }

end Store

end TypedScript
