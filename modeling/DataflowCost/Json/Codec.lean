import DataflowCost.Json.Reader
import DataflowCost.Json.Writer
import DataflowCost.Numeric.NumberFormat
import DataflowCost.Numeric.Reading

/-! Records as JSON documents. A codec reads and writes them; what the fields are called, and what a record is
before a document has its say, is known to those who use it. -/
namespace DataflowCost

/-- A field of a record: its name in documents, and how a value is put into the record. -/
structure Slot (σ : Type) where
  name : String
  put : Json → σ → Option σ

/-- A codec for records and for the types of their fields. -/
structure Codec where
  count? : Json → Option Nat
  real? : Json → Option Float
  flag? : Json → Option Bool
  /-- The word that picks one of several alternatives. -/
  word? : Json → Option String
  /-- The value that is written for a floating-point number. -/
  real : Float → Json
  /-- What a document makes of a record. -/
  decode? : {σ : Type} → List (Slot σ) → σ → String → Option σ
  encode : Json → String

namespace Json

variable {σ : Type}

def real (x : Float) : Json :=
  match NumberFormat.json.numeral? (.ofFloat x) with
  | some n => number n
  | none => null

def count (n : Nat) : Json := number (.ofNat n)

/-- A count below the bound of 64-bit words. -/
def toCount? : Json → Option Nat
  | number n => do
    let value ← n.toNat?
    if value < Nat.pow 2 64 then some value else none
  | _ => none

def toReal? : Json → Option Float
  | number n => n.scaled?
  | _ => none

def toBool? : Json → Option Bool
  | bool value => some value
  | _ => none

def plainText? (letters : List Letter) : Option String :=
  (Letter.chars? letters).map String.ofList

/-- A word, alone or as the name of a null. -/
def toWord? : Json → Option String
  | string letters => plainText? letters
  | object [(name, null)] => plainText? name
  | _ => none

/-- Puts members into a record, each field at most once. Members of other names are passed over. -/
def fill? (slots : List (Slot σ)) : List (List Letter × Json) → σ → Option σ
  | [], record => some record
  | (letters, value) :: members, record => do
    let name ← plainText? letters
    match slots.find? (·.name == name) with
    | none => fill? slots members record
    | some slot =>
      if members.any fun member => plainText? member.1 == some name then none
      else fill? slots members (← slot.put value record)

/-- Puts a document into a record: an object by names, an array by positions from the first on. -/
def put? (slots : List (Slot σ)) (record : σ) : Json → Option σ
  | object members => fill? slots members record
  | array items =>
    if items.length ≤ slots.length then
      (slots.zip items).foldlM (fun record (slot, value) => slot.put value record) record
    else none
  | _ => none

end Json

/-- The codec that runs where no other is given. -/
def Codec.standard : Codec where
  count? := Json.toCount?
  real? := Json.toReal?
  flag? := Json.toBool?
  word? := Json.toWord?
  real := Json.real
  decode? slots record text := (Json.read? text.toList).bind (Json.put? slots record)
  encode := Json.indented

end DataflowCost
