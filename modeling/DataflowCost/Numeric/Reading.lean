import DataflowCost.Numeric.Numeral

/-! The binary64 values of numerals. One reading rounds the exact decimal to nearest; the other keeps a
64-bit significand and scales it by powers of ten, and refuses what is out of range. -/
namespace DataflowCost.Numeral

/-- Beyond this many decimal places in either direction every value is infinite or zero. -/
def placesBound : Int := 400

/-- The value nearest to `digits · 10 ^ exponent`. -/
def roundDecimal (digits : Nat) (exponent : Int) : Float :=
  let places : Int := (Nat.toDigits 10 digits).length + exponent
  if digits = 0 ∨ places < -placesBound then 0.0
  else if placesBound < places then Float.ofScientific 1 false placesBound.toNat
  else Float.ofScientific digits (exponent < 0) exponent.natAbs

def signed (negative : Bool) (x : Float) : Float := if negative then -x else x

/-- The exponent as an integer. -/
def shift (n : Numeral) : Int :=
  match n.exponent with
  | none => 0
  | some (.minus, digits) => -(Nat.ofDigitChars 10 digits 0 : Int)
  | some (_, digits) => Nat.ofDigitChars 10 digits 0

/-- The value nearest to the numeral. -/
def nearest (n : Numeral) : Float :=
  let fraction := n.fraction.getD []
  signed n.negative
    (roundDecimal (Nat.ofDigitChars 10 (n.whole ++ fraction) 0) (n.shift - fraction.length))

/-- Appends digits to a significand while it stays below a bound; also the digits left over. -/
def appendDigits (bound : Nat) : Nat → List Char → Nat × List Char
  | m, [] => (m, [])
  | m, c :: rest =>
    let next := 10 * m + (c.toNat - '0'.toNat)
    if next < bound then appendDigits bound next rest else (m, c :: rest)

def powerOfTen (n : Nat) : Float := Float.ofScientific 1 false n

/-- The greatest power of ten that is finite. -/
def greatestPower : Nat := 308

/-- Divides by a power of ten, in steps while the power is beyond the greatest. -/
def shrink (x : Float) (power : Nat) : Float :=
  if power ≤ greatestPower then x / powerOfTen power
  else if x == 0.0 then x
  else shrink (x / powerOfTen greatestPower) (power - greatestPower)
termination_by power
decreasing_by simp only [greatestPower] at *; omega

/-- Multiplies by a power of ten; a product that is not finite has no value. -/
def grow? (x : Float) (power : Nat) : Option Float :=
  if power ≤ greatestPower then
    let y := x * powerOfTen power
    if y.isInf then none else some y
  else if x == 0.0 then some x
  else none

def scale? (x : Float) (exponent : Int) : Option Float :=
  if 0 ≤ exponent then grow? x exponent.toNat else some (shrink x exponent.natAbs)

/-- Exponents of a greater magnitude are not computed with. -/
def exponentBound : Nat := Nat.pow 2 31 - 1

/-- Scales a significand of at most 64 bits. Digits of the whole part that do not fit count as zeros,
those of the fraction are dropped. -/
def scaled? (n : Numeral) : Option Float :=
  let fraction := n.fraction.getD []
  let (head, left) := appendDigits (Nat.pow 2 64) 0 n.whole
  let (significand, dropped) := appendDigits (Nat.pow 2 64) head fraction
  let places : Int := left.length - (fraction.length - dropped.length : Nat)
  let magnitude :=
    if exponentBound < n.shift.natAbs then
      if significand ≠ 0 ∧ 0 < n.shift then none else some 0.0
    else scale? (Float.ofNat significand) (places + n.shift)
  magnitude.map (signed n.negative)

end DataflowCost.Numeral
