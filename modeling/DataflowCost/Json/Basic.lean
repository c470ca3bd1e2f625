import DataflowCost.Numeric.Numeral

/-! JSON values. Numbers stay as they are written, and a string may name half of a surrogate pair by an
escape, so every document has a value. -/
namespace DataflowCost

/-- A character, or half of a surrogate pair that stands alone. -/
inductive Letter where
  | char (c : Char)
  | half (unit : Nat)
deriving DecidableEq, Repr

namespace Letter

def highFirst : Nat := 0xD800

def lowFirst : Nat := 0xDC00

def lowLast : Nat := 0xDFFF

/-- The character of a surrogate pair. -/
def pair? (high low : Nat) : Option Char :=
  if highFirst ≤ high ∧ high < lowFirst ∧ lowFirst ≤ low ∧ low ≤ lowLast then
    some (Char.ofNat (0x10000 + (high - highFirst) * 0x400 + (low - lowFirst)))
  else none

/-- The characters of a string, if each half has its partner right behind it. -/
def chars? : List Letter → Option (List Char)
  | [] => some []
  | .char c :: rest => (chars? rest).map (c :: ·)
  | .half high :: .half low :: rest => do
    let c ← pair? high low
    return c :: (← chars? rest)
  | .half _ :: _ => none

theorem chars?_map_char (cs : List Char) : chars? (cs.map char) = some cs := by
  induction cs with
  | nil => rfl
  | cons c cs ih => simp [chars?, ih]

end Letter

inductive Json where
  | null
  | bool (value : Bool)
  | number (numeral : Numeral)
  | string (letters : List Letter)
  | array (items : List Json)
  | object (members : List (List Letter × Json))

namespace Json

def text (s : String) : Json := string (s.toList.map Letter.char)

/-- An object with plain names. -/
def record (members : List (String × Json)) : Json :=
  object (members.map fun (name, value) => (name.toList.map Letter.char, value))

end Json

end DataflowCost
