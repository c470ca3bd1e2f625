/-! Numerals: decimal numbers as they are written, sign, digits, point and exponent apart. -/
namespace DataflowCost

/-- The sign in front of an exponent. -/
inductive Sign where
  | absent | plus | minus
deriving DecidableEq, Repr

def Sign.chars : Sign → List Char
  | absent => []
  | plus => ['+']
  | minus => ['-']

structure Numeral where
  negative : Bool
  whole : List Char
  /-- The digits behind the point, if there is one. -/
  fraction : Option (List Char)
  exponent : Option (Sign × List Char)
deriving DecidableEq, Repr

namespace Numeral

def fractionChars : Option (List Char) → List Char
  | none => []
  | some digits => '.' :: digits

def exponentChars : Option (Sign × List Char) → List Char
  | none => []
  | some (sign, digits) => 'e' :: (sign.chars ++ digits)

def chars (n : Numeral) : List Char :=
  (if n.negative then ['-'] else []) ++ n.whole ++ fractionChars n.fraction ++
    exponentChars n.exponent

def ofNat (n : Nat) : Numeral := ⟨false, Nat.toDigits 10 n, none, none⟩

/-- The count that a numeral of digits alone stands for. -/
def toNat? (n : Numeral) : Option Nat :=
  if n.negative then none
  else match n.fraction, n.exponent with
    | none, none => some (Nat.ofDigitChars 10 n.whole 0)
    | _, _ => none

theorem toNat?_ofNat (n : Nat) : (ofNat n).toNat? = some n := by
  simp [toNat?, ofNat, Nat.ofDigitChars_toDigits]

end Numeral

end DataflowCost
