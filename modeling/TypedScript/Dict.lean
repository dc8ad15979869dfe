namespace TypedScript

/-- A finite map. A key keeps the place at which it was first entered. -/
structure Dict (κ ν : Type) where
  entries : List (κ × ν)

namespace Dict

variable {κ ν : Type} [DecidableEq κ]

def empty : Dict κ ν := ⟨[]⟩

def find : List (κ × ν) → κ → Option ν
  | [], _ => none
  | (k, v) :: rest, key => if k = key then some v else find rest key

def put : List (κ × ν) → κ → ν → List (κ × ν)
  | [], key, value => [(key, value)]
  | (k, v) :: rest, key, value =>
    if k = key then (k, value) :: rest else (k, v) :: put rest key value

def get? (d : Dict κ ν) (key : κ) : Option ν := find d.entries key

def contains (d : Dict κ ν) (key : κ) : Bool := (d.get? key).isSome

def insert (d : Dict κ ν) (key : κ) (value : ν) : Dict κ ν := ⟨put d.entries key value⟩

def keys (d : Dict κ ν) : List κ := d.entries.map Prod.fst

def values (d : Dict κ ν) : List ν := d.entries.map Prod.snd

omit [DecidableEq κ] in
@[ext] theorem ext {d e : Dict κ ν} (h : d.entries = e.entries) : d = e := by
  cases d; cases e; cases h; rfl

@[simp] theorem get?_empty (key : κ) : (empty : Dict κ ν).get? key = none := rfl

theorem find_put_self (l : List (κ × ν)) (key : κ) (value : ν) :
    find (put l key value) key = some value := by
  induction l with
  | nil => simp [put, find]
  | cons e rest ih =>
    obtain ⟨k, v⟩ := e
    by_cases h : k = key
    · simp [put, find, h]
    · simp [put, find, h, ih]

theorem find_put_of_ne (l : List (κ × ν)) {key other : κ} (value : ν) (h : key ≠ other) :
    find (put l key value) other = find l other := by
  induction l with
  | nil => simp [put, find, h]
  | cons e rest ih =>
    obtain ⟨k, v⟩ := e
    by_cases hk : k = key
    · subst hk
      simp [put, find, h]
    · by_cases ho : k = other
      · subst ho
        simp [put, find, hk]
      · simp [put, find, hk, ho, ih]

@[simp] theorem get?_insert_self (d : Dict κ ν) (key : κ) (value : ν) :
    (d.insert key value).get? key = some value :=
  find_put_self d.entries key value

theorem get?_insert_of_ne (d : Dict κ ν) {key other : κ} (value : ν) (h : key ≠ other) :
    (d.insert key value).get? other = d.get? other :=
  find_put_of_ne d.entries value h

theorem get?_insert (d : Dict κ ν) (key other : κ) (value : ν) :
    (d.insert key value).get? other = if key = other then some value else d.get? other := by
  by_cases h : key = other
  · subst h; simp
  · simp [h, get?_insert_of_ne d value h]

end Dict

end TypedScript
