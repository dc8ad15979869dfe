import TypedScript.Diagnostic

/-! Parsers as functions on a state. A parser that fails keeps the state it has reached, so
that the reader can go on from there. Loops run on fuel, and running out of it is told apart
from a fault of the input. -/

namespace TypedScript

inductive Reply (σ α : Type)
  | ok (value : α) (state : σ)
  | error (diagnostic : Diagnostic) (state : σ)
  | exhausted

def Parse (σ α : Type) : Type := σ → Reply σ α

namespace Parse

variable {σ α β : Type}

@[inline] protected def pure (a : α) : Parse σ α := fun s => .ok a s

@[inline] protected def bind (p : Parse σ α) (f : α → Parse σ β) : Parse σ β := fun s =>
  match p s with
  | .ok a t => f a t
  | .error d t => .error d t
  | .exhausted => .exhausted

instance : Monad (Parse σ) where
  pure := Parse.pure
  bind := Parse.bind

def fail (d : Diagnostic) : Parse σ α := fun s => .error d s

def exhausted : Parse σ α := fun _ => .exhausted

def get : Parse σ σ := fun s => .ok s s

def modify (f : σ → σ) : Parse σ Unit := fun s => .ok () (f s)

@[simp] theorem pure_apply (a : α) (s : σ) : (pure a : Parse σ α) s = .ok a s := rfl

@[simp] theorem bind_apply (p : Parse σ α) (f : α → Parse σ β) (s : σ) :
    (p >>= f) s = match p s with
      | .ok a t => f a t
      | .error d t => .error d t
      | .exhausted => .exhausted := rfl

@[simp] theorem fail_apply (d : Diagnostic) (s : σ) : (fail d : Parse σ α) s = .error d s := rfl

@[simp] theorem exhausted_apply (s : σ) : (exhausted : Parse σ α) s = .exhausted := rfl

@[simp] theorem get_apply (s : σ) : (get : Parse σ σ) s = .ok s s := rfl

@[simp] theorem modify_apply (f : σ → σ) (s : σ) : modify f s = .ok () (f s) := rfl

theorem bind_eq_ok {p : Parse σ α} {f : α → Parse σ β} {s u : σ} {b : β} :
    (p >>= f) s = .ok b u ↔ ∃ a t, p s = .ok a t ∧ f a t = .ok b u := by
  rw [bind_apply]
  cases h : p s <;> simp [and_assoc]

end Parse

end TypedScript
