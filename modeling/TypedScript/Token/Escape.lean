namespace TypedScript.Escape

def named? : Char → Option Char
  | 'n' => some '\n'
  | 't' => some '\t'
  | 'r' => some '\r'
  | '\\' => some '\\'
  | '"' => some '"'
  | '0' => some '\x00'
  | _ => none

def hexValue? (c : Char) : Option Nat :=
  if '0' ≤ c ∧ c ≤ '9' then some (c.toNat - '0'.toNat)
  else if 'a' ≤ c ∧ c ≤ 'f' then some (c.toNat - 'a'.toNat + 10)
  else if 'A' ≤ c ∧ c ≤ 'F' then some (c.toNat - 'A'.toNat + 10)
  else none

/-- The text that a literal's inside stands for. An escape that is none stays as it is. -/
def decode : List Char → List Char
  | [] => []
  | '\\' :: 'x' :: a :: b :: cs =>
    match hexValue? a, hexValue? b with
    | some m, some n => Char.ofNat (16 * m + n) :: decode cs
    | some m, none => Char.ofNat m :: decode (b :: cs)
    | none, _ => '\\' :: 'x' :: decode (a :: b :: cs)
  | ['\\', 'x', a] =>
    match hexValue? a with
    | some m => [Char.ofNat m]
    | none => ['\\', 'x', a]
  | '\\' :: c :: cs =>
    match named? c with
    | some d => d :: decode cs
    | none => '\\' :: decode (c :: cs)
  | c :: cs => c :: decode cs

end TypedScript.Escape
