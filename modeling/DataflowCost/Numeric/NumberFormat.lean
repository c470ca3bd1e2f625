import DataflowCost.Numeric.Numeral
import DataflowCost.Numeric.Shortest

/-! Written forms of floating-point values. All of them show the shortest decimal that reads back;
they differ in where positional notation ends and in whether whole numbers keep a point. -/
namespace DataflowCost

/-- The decisions of one number format. Decimal exponents from `positionalFrom` up to but not
including `positionalBelow` are written without an exponent. -/
structure NumberFormat where
  positionalFrom : Option Int
  positionalBelow : Option Int
  keepPoint : Bool
  plusSign : Bool
  tie : TieRule
deriving DecidableEq, Repr

namespace NumberFormat

/-- The form used in attribute texts and messages: never an exponent, no point in whole numbers. -/
def plain : NumberFormat := ⟨none, none, false, false, .up⟩

/-- The form used when a whole list is quoted in a message. -/
def quoted : NumberFormat := ⟨some (-4), some 16, true, false, .up⟩

/-- The form used in JSON documents. -/
def json : NumberFormat := ⟨some (-5), some 16, true, true, .even⟩

def isPositional (n : NumberFormat) (exponent : Int) : Bool :=
  (n.positionalFrom.all fun least => least ≤ exponent) &&
    (n.positionalBelow.all fun bound => exponent < bound)

def zeros (count : Nat) : List Char := List.replicate count '0'

/-- Digits with the point behind the first `whole` of them; a count that is not positive puts zeros
in front, one beyond the digits puts zeros behind. -/
def positional (n : NumberFormat) (negative : Bool) (digits : List Char) (whole : Int) :
    Numeral :=
  if whole ≤ 0 then ⟨negative, ['0'], some (zeros (-whole).toNat ++ digits), none⟩
  else if digits.length ≤ whole.toNat then
    ⟨negative, digits ++ zeros (whole.toNat - digits.length),
      if n.keepPoint then some ['0'] else none, none⟩
  else ⟨negative, digits.take whole.toNat, some (digits.drop whole.toNat), none⟩

def exponentSign (n : NumberFormat) (exponent : Int) : Sign :=
  if exponent < 0 then .minus else if n.plusSign then .plus else .absent

/-- One digit before the point, and an exponent. -/
def scientific (n : NumberFormat) (negative : Bool) (digits : List Char) (exponent : Int) :
    Numeral :=
  let fraction := digits.drop 1
  ⟨negative, digits.take 1, if fraction.isEmpty then none else some fraction,
    some (n.exponentSign exponent, Nat.toDigits 10 exponent.natAbs)⟩

/-- The digits of a number without trailing zeros, and how many zeros were dropped. -/
def significant (digits : List Char) : List Char × Nat :=
  let kept := (digits.reverse.dropWhile (· == '0')).reverse
  (kept, digits.length - kept.length)

def numeral (n : NumberFormat) (negative : Bool) (b : Binary) : Numeral :=
  if b.significand = 0 then
    ⟨negative, ['0'], if n.keepPoint then some ['0'] else none, none⟩
  else
    let d := b.shortest n.tie
    let (digits, dropped) := significant (Nat.toDigits 10 d.digits)
    let whole : Int := digits.length + dropped + d.exponent
    if n.isPositional (whole - 1) then n.positional negative digits whole
    else n.scientific negative digits (whole - 1)

/-- Finite values have a numeral. -/
def numeral? (n : NumberFormat) : Decoded → Option Numeral
  | .nan | .infinite _ => none
  | .finite negative b => some (n.numeral negative b)

def text (n : NumberFormat) : Decoded → String
  | .nan => "NaN"
  | .infinite negative => if negative then "-inf" else "inf"
  | .finite negative b => String.ofList (n.numeral negative b).chars

def float (n : NumberFormat) (x : Float) : String := n.text (.ofFloat x)

def float32 (n : NumberFormat) (x : Float32) : String := n.text (.ofFloat32 x)

end NumberFormat

end DataflowCost
