import TypedScript.Source.Position

namespace TypedScript.Source

structure Line where
  number : Nat
  text : List Char
  column : Nat
  deriving DecidableEq

def pieces : List Char → List (List Char)
  | [] => []
  | c :: cs =>
    if c = '\n' then [c] :: pieces cs
    else match pieces cs with
      | [] => [[c]]
      | p :: ps => (c :: p) :: ps

theorem flatten_pieces (cs : List Char) : (pieces cs).flatten = cs := by
  induction cs with
  | nil => rfl
  | cons c cs ih =>
    simp only [pieces]
    split
    · simp [ih]
    · split
      · next h => simp [h] at ih; simp [← ih]
      · next h => simp [h] at ih; simp [← ih]

def locate : List (List Char) → Nat → Nat → Option Line
  | [], _, _ => none
  | p :: ps, number, offset =>
    if offset < byteLength p then some ⟨number, p, offset⟩
    else locate ps (number + 1) (offset - byteLength p)

def lastLine (cs : List Char) : List Char :=
  (cs.reverse.takeWhile (· ≠ '\n')).reverse

/-- The line of a byte. The place just behind the text belongs to its last piece, of which
only what follows the last newline is shown. -/
def lineAt? (source : String) (offset : Nat) : Option Line :=
  let cs := source.toList
  match locate (pieces cs) 1 offset with
  | some line => some line
  | none =>
    if offset = byteLength cs then
      let text := lastLine cs
      some ⟨max (pieces cs).length 1, text, byteLength text⟩
    else none

end TypedScript.Source
