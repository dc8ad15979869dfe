namespace TypedScript

structure Position where
  offset : Nat
  file : String
  deriving DecidableEq, Inhabited

def Position.nowhere : Position := ⟨0, "<null>"⟩

structure Span where
  start : Position
  stop : Position
  deriving DecidableEq, Inhabited

namespace Source

def byteLength : List Char → Nat
  | [] => 0
  | c :: cs => c.utf8Size + byteLength cs

@[simp] theorem byteLength_nil : byteLength [] = 0 := rfl

@[simp] theorem byteLength_cons (c : Char) (cs : List Char) :
    byteLength (c :: cs) = c.utf8Size + byteLength cs := rfl

@[simp] theorem byteLength_append (cs ds : List Char) :
    byteLength (cs ++ ds) = byteLength cs + byteLength ds := by
  induction cs with
  | nil => simp
  | cons c cs ih => simp [ih, Nat.add_assoc]

def defaultFile : String := "shell"

def offsetBound : Nat := Nat.pow 2 32

def positionAt (file : String) (offset : Nat) : Position := ⟨offset % offsetBound, file⟩

def spanAt (file : String) (offset length : Nat) : Span :=
  ⟨positionAt file offset, positionAt file (offset + length)⟩

end Source

end TypedScript
