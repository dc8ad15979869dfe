import TypedScript.Value.Operation

namespace TypedScript

inductive Ref
  | integer (cell : Nat)
  | float (cell : Nat)
  deriving DecidableEq

def Ref.read (cells : Cells) : Ref → Option Scalar
  | integer c => cells.integers[c]?.map .integer
  | float c => cells.floats[c]?.map .float

namespace Value

def ref? : Value → Option Ref
  | integer c => some (.integer c)
  | float c => some (.float c)
  | _ => none

/-- The cells that a value names, itself or by a receiver. -/
def refs : Value → List Ref
  | bound _ receiver => receiver.refs
  | v => v.ref?.toList

theorem refs_of_ref? {v : Value} {r : Ref} (h : v.ref? = some r) : v.refs = [r] := by
  cases v <;> cases h <;> rfl

theorem refs_of_asFunction? {v : Value} {f : Closure} {receiver : Option Value}
    (h : v.asFunction? = some (f, receiver)) : v.refs = receiver.toList.flatMap refs := by
  cases v with
  | function g =>
    cases h
    rfl
  | bound g u =>
    cases h
    simp [refs]
  | _ => cases h

end Value

def StepOp.onScalar (op : StepOp) : Scalar → Scalar
  | .integer i => .integer (op.onInteger i)
  | .float x => .float (op.onFloat x)
  | x => x

namespace Cells

def Keeps (c d : Cells) : Prop := ∀ ⦃r x⦄, Ref.read c r = some x → r.read d = some x

theorem Keeps.refl (c : Cells) : c.Keeps c := fun _ _ h => h

theorem Keeps.trans {c d e : Cells} (h : c.Keeps d) (h' : d.Keeps e) : c.Keeps e :=
  fun _ _ hr => h' (h hr)

section alloc

variable (c : Cells) (x : Scalar)

theorem keeps_alloc : c.Keeps (c.alloc x).2 := by
  intro r y hr
  cases x with
  | string s => exact hr
  | boolean b => exact hr
  | integer i =>
    cases r with
    | float cell => exact hr
    | integer cell =>
      obtain ⟨j, hj, rfl⟩ := Option.map_eq_some_iff.1 hr
      have hlt := (Array.getElem?_eq_some_iff.1 hj).1
      simp [Ref.read, alloc, newInteger, Array.getElem?_push, Nat.ne_of_lt hlt, hj]
  | float f =>
    cases r with
    | integer cell => exact hr
    | float cell =>
      obtain ⟨j, hj, rfl⟩ := Option.map_eq_some_iff.1 hr
      have hlt := (Array.getElem?_eq_some_iff.1 hj).1
      simp [Ref.read, alloc, newFloat, Array.getElem?_push, Nat.ne_of_lt hlt, hj]

theorem read_alloc {r : Ref} (hr : r ∈ (c.alloc x).1.refs) :
    r.read c = none ∧ r.read (c.alloc x).2 = some x := by
  cases x with
  | string s => cases hr
  | boolean b => cases hr
  | integer i =>
    cases List.mem_singleton.1 hr
    simp [Ref.read, alloc, newInteger]
  | float f =>
    cases List.mem_singleton.1 hr
    simp [Ref.read, alloc, newFloat]

end alloc

theorem literal_cases (c : Cells) (v : Literal) :
    (∃ x, c.literal v = c.alloc x) ∨ (c.literal v).1.refs = [] ∧ (c.literal v).2 = c := by
  cases v with
  | integer i => exact .inl ⟨.integer i, rfl⟩
  | float x => exact .inl ⟨.float x, rfl⟩
  | _ => exact .inr ⟨rfl, rfl⟩

theorem read_setInteger (c : Cells) (cell : Nat) (i : Int64) (r : Ref) :
    r.read (c.setInteger cell i) =
      if r = .integer cell then (r.read c).map fun _ => .integer i else r.read c := by
  cases r with
  | float other => simp [Ref.read, setInteger]
  | integer other =>
    by_cases h : other = cell
    · subst h
      by_cases hlt : other < c.integers.size
      · simp [Ref.read, setInteger, hlt]
      · simp [Ref.read, setInteger, hlt]
    · simp [Ref.read, setInteger, h, Array.getElem?_setIfInBounds_ne (Ne.symm h)]

theorem read_setFloat (c : Cells) (cell : Nat) (x : Float) (r : Ref) :
    r.read (c.setFloat cell x) =
      if r = .float cell then (r.read c).map fun _ => .float x else r.read c := by
  cases r with
  | integer other => simp [Ref.read, setFloat]
  | float other =>
    by_cases h : other = cell
    · subst h
      by_cases hlt : other < c.floats.size
      · simp [Ref.read, setFloat, hlt]
      · simp [Ref.read, setFloat, hlt]
    · simp [Ref.read, setFloat, h, Array.getElem?_setIfInBounds_ne (Ne.symm h)]

section step

variable (c : Cells) (op : StepOp) (before : Bool) (cell : Nat) {r : Ref} {x : Scalar}

theorem read_stepInteger (hr : r.read c = some x) :
    r.read (c.stepInteger op before cell).2 =
      some (if r = .integer cell then op.onScalar x else x) := by
  have hset : r.read (c.setInteger cell (op.onInteger (c.integer cell))) =
      some (if r = .integer cell then op.onScalar x else x) := by
    rw [read_setInteger, hr]
    split
    · rename_i he
      subst he
      obtain ⟨i, hi, rfl⟩ := Option.map_eq_some_iff.1 hr
      simp [integer, Array.getD_eq_getD_getElem?, hi, StepOp.onScalar]
    · rfl
  cases before with
  | true => exact hset
  | false => exact keeps_alloc _ (.integer (c.integer cell)) hset

theorem read_stepFloat (hr : r.read c = some x) :
    r.read (c.stepFloat op before cell).2 =
      some (if r = .float cell then op.onScalar x else x) := by
  have hset : r.read (c.setFloat cell (op.onFloat (c.float cell))) =
      some (if r = .float cell then op.onScalar x else x) := by
    rw [read_setFloat, hr]
    split
    · rename_i he
      subst he
      obtain ⟨y, hy, rfl⟩ := Option.map_eq_some_iff.1 hr
      simp [float, Array.getD_eq_getD_getElem?, hy, StepOp.onScalar]
    · rfl
  cases before with
  | true => exact hset
  | false => exact keeps_alloc _ (.float (c.float cell)) hset

theorem read_of_stepInteger (hr : r ∈ (c.stepInteger op false cell).1.refs) :
    r.read c = none ∧ ∃ x, r.read (c.stepInteger op false cell).2 = some x := by
  obtain ⟨hnew, hread⟩ := read_alloc (c.setInteger cell _) (.integer (c.integer cell)) hr
  refine ⟨?_, _, hread⟩
  rw [read_setInteger] at hnew
  split at hnew
  · exact Option.map_eq_none_iff.1 hnew
  · exact hnew

theorem read_of_stepFloat (hr : r ∈ (c.stepFloat op false cell).1.refs) :
    r.read c = none ∧ ∃ x, r.read (c.stepFloat op false cell).2 = some x := by
  obtain ⟨hnew, hread⟩ := read_alloc (c.setFloat cell _) (.float (c.float cell)) hr
  refine ⟨?_, _, hread⟩
  rw [read_setFloat] at hnew
  split at hnew
  · exact Option.map_eq_none_iff.1 hnew
  · exact hnew

end step

end Cells

end TypedScript
