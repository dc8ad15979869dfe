import TypedScript.Decimal.Text
import TypedScript.Stmt.Basic

/-! Runtime values. Numbers live in cells, so that a step of `++` or `--` is seen through every
name that shares the cell. -/

namespace TypedScript

structure Slot where
  index : Nat
  deriving DecidableEq, Inhabited

/-- A hold on a scope. The stamp tells the scope from those that had its slot at other times. -/
structure Handle where
  slot : Slot
  stamp : Nat
  deriving DecidableEq, Inhabited

/-- A function with the scope it was defined in. No two functions that are made have the same
`id`. -/
structure Closure where
  id : Nat
  parameters : List String
  body : Block
  home : Handle
  signature : Signature

/-- A runtime value. `integer` and `float` name a cell. A bound function passes its receiver
ahead of the arguments. -/
inductive Value
  | integer (cell : Nat)
  | float (cell : Nat)
  | string (text : String)
  | boolean (value : Bool)
  | null
  | void
  | function (f : Closure)
  | bound (f : Closure) (receiver : Value)

structure Cells where
  integers : Array Int64
  floats : Array Float

namespace Cells

def empty : Cells := ⟨#[], #[]⟩

def integer (c : Cells) (cell : Nat) : Int64 := c.integers.getD cell 0

def float (c : Cells) (cell : Nat) : Float := c.floats.getD cell 0

def setInteger (c : Cells) (cell : Nat) (i : Int64) : Cells :=
  { c with integers := c.integers.setIfInBounds cell i }

def setFloat (c : Cells) (cell : Nat) (x : Float) : Cells :=
  { c with floats := c.floats.setIfInBounds cell x }

def newInteger (c : Cells) (i : Int64) : Nat × Cells :=
  (c.integers.size, { c with integers := c.integers.push i })

def newFloat (c : Cells) (x : Float) : Nat × Cells :=
  (c.floats.size, { c with floats := c.floats.push x })

theorem integer_setInteger_of_ne (c : Cells) {cell other : Nat} (i : Int64) (h : cell ≠ other) :
    (c.setInteger cell i).integer other = c.integer other := by
  simp [setInteger, integer, Array.getD_eq_getD_getElem?, h]

theorem float_setFloat_of_ne (c : Cells) {cell other : Nat} (x : Float) (h : cell ≠ other) :
    (c.setFloat cell x).float other = c.float other := by
  simp [setFloat, float, Array.getD_eq_getD_getElem?, h]

end Cells

namespace Value

def ofFunction (f : Closure) : Option Value → Value
  | none => .function f
  | some receiver => .bound f receiver

def asFunction? : Value → Option (Closure × Option Value)
  | .function f => some (f, none)
  | .bound f receiver => some (f, some receiver)
  | _ => none

def ty : Value → Ty
  | integer _ => .int
  | float _ => .float
  | string _ => .string
  | boolean _ => .bool
  | null | void => .void
  | function f | bound f _ => f.signature.toTy

def truthy (cells : Cells) : Value → Bool
  | boolean b => b
  | integer c => cells.integer c != 0
  | float c => cells.float c != 0
  | string s => s != ""
  | null | void | function _ | bound _ _ => true

def text (cells : Cells) : Value → String
  | integer c => Decimal.integerText (cells.integer c)
  | float c => Decimal.floatText (cells.float c)
  | string s => s
  | boolean b => if b then "true" else "false"
  | null => "null"
  | void => "void"
  | function f | bound f _ => f.signature.toTy.text

end Value

/-- Two functions agree if they have the same text, places included, and their scopes the same
slot. -/
def Closure.agrees (f g : Closure) : Bool :=
  f.parameters == g.parameters && f.body.beq g.body && f.signature == g.signature
    && f.home.slot == g.home.slot

def Value.equal (cells : Cells) : Value → Value → Bool
  | integer c, integer d => cells.integer c == cells.integer d
  | float c, float d => cells.float c == cells.float d
  | string s, string t => s == t
  | boolean a, boolean b => a == b
  | null, null => true
  | void, void => true
  | function f, function g => f.agrees g
  | bound f r, bound g s => f.agrees g && r.equal cells s
  | _, _ => false

end TypedScript
