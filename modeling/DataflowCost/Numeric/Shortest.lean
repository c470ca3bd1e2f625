import DataflowCost.Numeric.Binary

/-! The shortest decimal that reads back as a given binary value: of all decimals with the fewest
digits inside the interval that rounds to the value, the one nearest to it. -/
namespace DataflowCost

/-- The value `digits · 10 ^ exponent`. -/
structure Decimal where
  digits : Nat
  exponent : Int
deriving DecidableEq, Repr

/-- Which of two equally near decimals is taken. -/
inductive TieRule where
  | up
  | even
deriving DecidableEq, Repr

namespace Binary

def digitCount (n : Nat) : Nat := (Nat.toDigits 10 n).length

/-- The number of decimal places before the point, negative for leading zeros after it. -/
def magnitude (b : Binary) : Int :=
  let num := b.significand * Nat.pow 2 b.exponent.toNat
  let den := Nat.pow 2 (-b.exponent).toNat
  if den ≤ num then digitCount (num / den) else 1 - (digitCount (den / num) : Int)

/-- The decimal on the grid of multiples of `10 ^ unit` that rounds to the value, if there is one.
The candidates are the two neighbours of the value on the grid; the ends of the interval round to
an even significand only. -/
def onGrid? (tie : TieRule) (b : Binary) (unit : Int) : Option Decimal :=
  let up := Nat.pow 2 b.exponent.toNat * Nat.pow 10 (-unit).toNat
  let down := 4 * (Nat.pow 2 (-b.exponent).toNat * Nat.pow 10 unit.toNat)
  let value := 4 * b.significand * up
  let low := value - (if b.narrowBelow then 1 else 2) * up
  let high := value + 2 * up
  let inside (c : Nat) : Bool :=
    if b.significand % 2 = 0 then low ≤ c * down && c * down ≤ high
    else low < c * down && c * down < high
  let below := value / down
  let above := below + 1
  let nearer : Nat :=
    let rest := value % down
    if 2 * rest < down then below
    else if down < 2 * rest then above
    else match tie with
      | .up => above
      | .even => if below % 2 = 0 then below else above
  match inside below, inside above with
  | true, true => some ⟨nearer, unit⟩
  | true, false => some ⟨below, unit⟩
  | false, true => some ⟨above, unit⟩
  | false, false => none

/-- Seventeen digits always suffice for the formats in use. -/
def shortest (tie : TieRule) (b : Binary) : Decimal :=
  ((List.range 17).findSome? fun n => b.onGrid? tie (b.magnitude - (n + 1 : Nat))).getD
    ⟨b.significand, b.exponent⟩

end Binary

end DataflowCost
