import TypedScript.Decimal.Shortest

namespace TypedScript.Decimal

def digitChars (n : Nat) : List Char := Nat.toDigits 10 n

def positional (digits : List Char) (place : Int) : List Char :=
  let behind := (-place).toNat
  if behind = 0 then digits ++ List.replicate place.toNat '0'
  else if behind < digits.length then
    digits.take (digits.length - behind) ++ '.' :: digits.drop (digits.length - behind)
  else '0' :: '.' :: (List.replicate (behind - digits.length) '0' ++ digits)

def signed (negative : Bool) (text : List Char) : String :=
  String.ofList (if negative then '-' :: text else text)

/-- Floats are written with the fewest digits that read back, never with an exponent. -/
def floatText (x : Float) : String :=
  match Reading.ofFloat x with
  | .nan => "NaN"
  | .infinite negative => signed negative ['i', 'n', 'f']
  | .finite negative 0 _ => signed negative ['0']
  | .finite negative mantissa exponent =>
    let (digits, place) := shortest mantissa exponent
    signed negative (positional (digitChars digits) place)

def integerText (i : Int64) : String := toString i.toInt

def digitsValue (cs : List Char) : Nat :=
  cs.foldl (fun n c => 10 * n + (c.toNat - '0'.toNat)) 0

def isDigit (c : Char) : Bool := '0' ≤ c && c ≤ '9'

def splitSign : List Char → Bool × List Char
  | '-' :: rest => (true, rest)
  | '+' :: rest => (false, rest)
  | cs => (false, cs)

def readInteger? (s : String) : Option Int64 :=
  let (negative, digits) := splitSign s.toList
  if digits.isEmpty || !digits.all isDigit then none
  else
    let n := digitsValue digits
    if negative then (if n ≤ Nat.pow 2 63 then some (Int64.ofInt (-(n : Int))) else none)
    else (if n < Nat.pow 2 63 then some (Int64.ofInt n) else none)

def readExponent? : List Char → Option Int
  | [] => some 0
  | c :: rest =>
    let (negative, digits) := splitSign rest
    if (c = 'e' ∨ c = 'E') ∧ digits.isEmpty = false ∧ digits.all isDigit then
      some (if negative then -(digitsValue digits : Int) else digitsValue digits)
    else none

/-- The float nearest to `± n * 10 ^ place`. Beyond the magnitudes a float has, the power is
not worked out: the answer is infinite or zero. -/
def scientific (negative : Bool) (n : Nat) (place : Int) : Float :=
  let top := ((digitChars n).length : Int) + place
  if n = 0 ∨ top < -400 then nearest negative 0 1
  else if 400 < top then nearest negative (Nat.pow 10 400) 1
  else nearest negative (n * Nat.pow 10 place.toNat) (Nat.pow 10 (-place).toNat)

def readFloat? (s : String) : Option Float :=
  let (negative, body) := splitSign s.toList
  let word := String.ofList (body.map Char.toLower)
  if word = "inf" ∨ word = "infinity" then
    some (Float.ofBits
      ((2047 * Nat.pow 2 52 + if negative then Nat.pow 2 63 else 0 : Nat).toUInt64))
  else if word = "nan" then some (0.0 / 0.0)
  else
    let whole := body.takeWhile isDigit
    let afterWhole := body.dropWhile isDigit
    let afterPoint := match afterWhole with
      | '.' :: rest => rest
      | _ => []
    let pointed := afterWhole.head? == some '.'
    let fraction := if pointed then afterPoint.takeWhile isDigit else []
    let rest := if pointed then afterPoint.dropWhile isDigit else afterWhole
    if whole.isEmpty && fraction.isEmpty then none
    else (readExponent? rest).map fun exponent =>
      scientific negative (digitsValue (whole ++ fraction)) (exponent - fraction.length)

end TypedScript.Decimal
