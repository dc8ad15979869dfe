namespace TypedScript.Decimal

inductive Reading
  | nan
  | infinite (negative : Bool)
  | finite (negative : Bool) (mantissa : Nat) (exponent : Int)
  deriving DecidableEq

def Reading.ofBits (bits : Nat) : Reading :=
  let negative := bits / Nat.pow 2 63 % 2 == 1
  let biased : Nat := bits / Nat.pow 2 52 % Nat.pow 2 11
  let fraction : Nat := bits % Nat.pow 2 52
  if biased = 2047 then
    if fraction = 0 then .infinite negative else .nan
  else if biased = 0 then .finite negative fraction (-1074)
  else .finite negative (fraction + Nat.pow 2 52) ((biased : Int) - 1075)

def Reading.ofFloat (x : Float) : Reading := .ofBits x.toBits.toNat

def roundDiv (num den : Nat) : Nat :=
  let down := num / den
  let twice := 2 * (num % den)
  if twice < den then down
  else if den < twice then down + 1
  else down + down % 2

def leadingBit (num den : Nat) : Int :=
  let guess := (num.log2 : Int) - den.log2
  if den * Nat.pow 2 guess.toNat ≤ num * Nat.pow 2 (-guess).toNat then guess else guess - 1

/-- The bits of the number nearest to `num / den`, sign apart. The mantissa is added onto the
exponent field, so a carry out of the mantissa moves to the next exponent by itself, and what
passes the last exponent is infinite. -/
def nearestBits (num den : Nat) : Nat :=
  if num = 0 then 0
  else
    let exponent := max (leadingBit num den - 52) (-1074)
    let mantissa := roundDiv (num * Nat.pow 2 (-exponent).toNat) (den * Nat.pow 2 exponent.toNat)
    min ((exponent + 1074).toNat * Nat.pow 2 52 + mantissa) (2047 * Nat.pow 2 52)

def nearest (negative : Bool) (num den : Nat) : Float :=
  Float.ofBits ((nearestBits num den + if negative then Nat.pow 2 63 else 0).toUInt64)

def ofInteger (i : Int64) : Float := nearest (i < 0) i.toInt.natAbs 1

end TypedScript.Decimal
