/-! Binary floating-point values as integers: a finite value is a significand times a power of two,
read off its bit pattern. -/
namespace DataflowCost

/-- Widths of a binary interchange format. -/
structure BinaryFormat where
  fractionBits : Nat
  exponentBits : Nat
deriving DecidableEq, Repr

namespace BinaryFormat

def binary64 : BinaryFormat := ⟨52, 11⟩

def binary32 : BinaryFormat := ⟨23, 8⟩

/-- The exponent of the unit in the last place of subnormal values. -/
def leastExponent (f : BinaryFormat) : Int :=
  2 - Nat.pow 2 (f.exponentBits - 1) - f.fractionBits

end BinaryFormat

/-- The value `significand · 2 ^ exponent`. Where the significand is the least of its binade the
neighbour below is half as far away as the one above. -/
structure Binary where
  significand : Nat
  exponent : Int
  narrowBelow : Bool
deriving DecidableEq, Repr

/-- What a bit pattern stands for. -/
inductive Decoded where
  | nan
  | infinite (negative : Bool)
  | finite (negative : Bool) (value : Binary)
deriving DecidableEq, Repr

namespace Decoded

def ofBits (f : BinaryFormat) (bits : Nat) : Decoded :=
  let fraction := bits % Nat.pow 2 f.fractionBits
  let biased := bits / Nat.pow 2 f.fractionBits % Nat.pow 2 f.exponentBits
  let negative := bits / Nat.pow 2 (f.fractionBits + f.exponentBits) % 2 == 1
  if biased = Nat.pow 2 f.exponentBits - 1 then
    if fraction = 0 then infinite negative else nan
  else if biased = 0 then
    finite negative ⟨fraction, f.leastExponent, false⟩
  else
    finite negative
      ⟨Nat.pow 2 f.fractionBits + fraction, f.leastExponent + biased - 1, fraction = 0 && biased != 1⟩

def ofFloat (x : Float) : Decoded := ofBits .binary64 x.toBits.toNat

def ofFloat32 (x : Float32) : Decoded := ofBits .binary32 x.toBits.toNat

end Decoded

end DataflowCost
