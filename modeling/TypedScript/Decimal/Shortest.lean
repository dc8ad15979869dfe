import TypedScript.Decimal.Binary64

namespace TypedScript.Decimal

/-- The numbers that round to `mantissa * 2 ^ exponent`, as `low / den` to `high / den` with
`value / den` the number itself. The ends belong to it when the mantissa is even. -/
structure Interval where
  low : Nat
  value : Nat
  high : Nat
  den : Nat
  closed : Bool

def Interval.around (mantissa : Nat) (exponent : Int) : Interval :=
  let below := if mantissa = Nat.pow 2 52 ∧ -1074 < exponent then 1 else 2
  let scale := Nat.pow 2 (exponent - 2).toNat
  { low := (4 * mantissa - below) * scale
    value := 4 * mantissa * scale
    high := (4 * mantissa + 2) * scale
    den := Nat.pow 2 (2 - exponent).toNat
    closed := mantissa % 2 == 0 }

def Interval.holds (i : Interval) (digits : Nat) (place : Int) : Bool :=
  let point := digits * Nat.pow 10 place.toNat * i.den
  let low := i.low * Nat.pow 10 (-place).toNat
  let high := i.high * Nat.pow 10 (-place).toNat
  if i.closed then low ≤ point && point ≤ high else low < point && point < high

def zerosBehindPoint (den : Nat) : Nat → Nat → Nat
  | 0, _ => 0
  | fuel + 1, num =>
    if den ≤ num * 10 then 0 else zerosBehindPoint den fuel (num * 10) + 1

/-- The position of the leading decimal digit: the least `k` with `value / den < 10 ^ k`. No
float has 400 zeros behind its point. -/
def Interval.magnitude (i : Interval) : Int :=
  if i.den ≤ i.value then (Nat.toDigits 10 (i.value / i.den)).length
  else -(zerosBehindPoint i.den 400 i.value : Int)

def Interval.onGrid (i : Interval) (place : Int) : Option Nat :=
  let num := i.value * Nat.pow 10 (-place).toNat
  let den := i.den * Nat.pow 10 place.toNat
  let down := num / den
  let twice := 2 * (num % den)
  match i.holds down place, i.holds (down + 1) place with
  | true, true => some (if twice < den then down else down + 1)
  | true, false => some down
  | false, true => some (down + 1)
  | false, false => none

def strip : Nat → Nat → Int → Nat × Int
  | 0, digits, place => (digits, place)
  | fuel + 1, digits, place =>
    if digits % 10 = 0 then strip fuel (digits / 10) (place + 1) else (digits, place)

def Interval.search (i : Interval) (top : Int) : Nat → Nat → Option (Nat × Int)
  | 0, _ => none
  | fuel + 1, count =>
    match i.onGrid (top - count) with
    | some digits => some (digits, top - count)
    | none => i.search top fuel (count + 1)

/-- The shortest decimal `digits * 10 ^ place` that reads back as `mantissa * 2 ^ exponent`.
Seventeen digits always do. -/
def shortest (mantissa : Nat) (exponent : Int) : Nat × Int :=
  let i := Interval.around mantissa exponent
  match i.search i.magnitude 17 1 with
  | some (digits, place) => strip 20 digits place
  | none => (0, 0)

end TypedScript.Decimal
