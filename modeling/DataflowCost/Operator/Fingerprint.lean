import DataflowCost.Operator.Kind

/-! Key vectors and their fingerprint. A key vector is a list of signed 64-bit words; its fingerprint is the
64-bit FNV-1a hash of their little-endian bytes. -/
namespace DataflowCost

abbrev KeyVector := List Int

/-- A natural number as a signed 64-bit word. -/
def word (n : Nat) : Int := Int.bmod n (Nat.pow 2 64)

def words (ns : List Nat) : KeyVector := ns.map word

namespace Fingerprint

def offset : UInt64 := 0xcbf29ce484222325

def prime : UInt64 := 0x100000001b3

def step (hash : UInt64) (byte : UInt8) : UInt64 := (hash ^^^ byte.toUInt64) * prime

def bytes (hash : UInt64) (data : List UInt8) : UInt64 := data.foldl step hash

/-- The eight bytes of a word, least significant first. -/
def littleEndian (w : Int) : List UInt8 :=
  (List.range 8).map fun i => UInt8.ofNat ((w % Nat.pow 2 64).toNat / Nat.pow 256 i)

def absorb (hash : UInt64) (key : KeyVector) : UInt64 :=
  key.foldl (fun h w => bytes h (littleEndian w)) hash

def ofKey (key : KeyVector) : UInt64 := absorb offset key

/-- Sixteen lower-case hexadecimal digits. -/
def hex (hash : UInt64) : String :=
  let digits := Nat.toDigits 16 hash.toNat
  String.ofList (List.replicate (16 - digits.length) '0' ++ digits)

end Fingerprint

/-- Identifies operators whose measurements can be shared. -/
structure PerfKey where
  hash : UInt64
  attributes : KeyVector
deriving DecidableEq, Repr

namespace PerfKey

def ofVectors (workload attributes : KeyVector) : PerfKey :=
  ⟨Fingerprint.absorb (Fingerprint.ofKey workload) attributes, attributes⟩

def text (k : PerfKey) : String := Fingerprint.hex k.hash

/-- The kind that the attribute vector starts with. -/
def kind? (k : PerfKey) : Option Kind := k.attributes.head?.bind Kind.ofTag?

end PerfKey

end DataflowCost
