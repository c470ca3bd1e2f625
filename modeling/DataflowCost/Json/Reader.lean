import DataflowCost.Json.Basic

/-! The strict reader of JSON documents: one value with blanks around it, and nothing else. Trailing
commas, leading zeros, bare control characters and comments are refused. -/
namespace DataflowCost.Json

def isBlank (c : Char) : Bool := c == ' ' || c == '\t' || c == '\n' || c == '\r'

def skipBlanks (s : List Char) : List Char := s.dropWhile isBlank

/-! ### Numbers -/

/-- A run of digits, at least one. -/
def digits? (s : List Char) : Option (List Char × List Char) :=
  let run := s.takeWhile Char.isDigit
  if run.isEmpty then none else some (run, s.dropWhile Char.isDigit)

/-- A zero, or digits that start with another one. -/
def whole? : List Char → Option (List Char × List Char)
  | '0' :: rest => if rest.head?.any Char.isDigit then none else some (['0'], rest)
  | s => digits? s

def fraction? : List Char → Option (Option (List Char) × List Char)
  | '.' :: rest => (digits? rest).map fun (run, rest) => (some run, rest)
  | s => some (none, s)

def sign : List Char → Sign × List Char
  | '+' :: rest => (.plus, rest)
  | '-' :: rest => (.minus, rest)
  | s => (.absent, s)

def isExponentMark (c : Char) : Bool := c == 'e' || c == 'E'

def exponent? : List Char → Option (Option (Sign × List Char) × List Char)
  | [] => some (none, [])
  | c :: rest =>
    if isExponentMark c then
      let (sign, rest) := sign rest
      (digits? rest).map fun (run, rest) => (some (sign, run), rest)
    else some (none, c :: rest)

def magnitude? (negative : Bool) (s : List Char) : Option (Numeral × List Char) := do
  let (whole, s) ← whole? s
  let (fraction, s) ← fraction? s
  let (exponent, s) ← exponent? s
  return (⟨negative, whole, fraction, exponent⟩, s)

def numeral? : List Char → Option (Numeral × List Char)
  | '-' :: rest => magnitude? true rest
  | s => magnitude? false s

/-! ### Strings -/

def hexDigit? (c : Char) : Option Nat :=
  if c.isDigit then some (c.toNat - '0'.toNat)
  else if 'a' ≤ c ∧ c ≤ 'f' then some (c.toNat - 'a'.toNat + 10)
  else if 'A' ≤ c ∧ c ≤ 'F' then some (c.toNat - 'A'.toNat + 10)
  else none

/-- The letter of a four-digit escape. -/
def unit? (a b c d : Char) : Option Letter := do
  let unit := 0x1000 * (← hexDigit? a) + 0x100 * (← hexDigit? b) + 0x10 * (← hexDigit? c) +
    (← hexDigit? d)
  return if Letter.highFirst ≤ unit ∧ unit ≤ Letter.lowLast then .half unit
    else .char (Char.ofNat unit)

/-- The character of a one-letter escape. -/
def escaped? : Char → Option Char
  | '"' => some '"'
  | '\\' => some '\\'
  | '/' => some '/'
  | 'b' => some '\x08'
  | 'f' => some '\x0c'
  | 'n' => some '\n'
  | 'r' => some '\r'
  | 't' => some '\t'
  | _ => none

/-- The letters up to the closing quote. -/
def letters? : List Char → Option (List Letter × List Char)
  | '"' :: rest => some ([], rest)
  | '\\' :: 'u' :: a :: b :: c :: d :: rest => do
    let letter ← unit? a b c d
    let (letters, rest) ← letters? rest
    return (letter :: letters, rest)
  | '\\' :: c :: rest => do
    let c ← escaped? c
    let (letters, rest) ← letters? rest
    return (.char c :: letters, rest)
  | c :: rest => do
    if c < ' ' then none
    let (letters, rest) ← letters? rest
    return (.char c :: letters, rest)
  | [] => none

/-! ### Values -/

/-- A literal, once its text is at the front. -/
def literal? (word : List Char) (value : Json) (s : List Char) : Option (Json × List Char) :=
  if word.isPrefixOf s then some (value, s.drop word.length) else none

mutual

/-- A value, at most `fuel` deep in the grammar. -/
def value? : Nat → List Char → Option (Json × List Char)
  | 0, _ => none
  | fuel + 1, s =>
    match skipBlanks s with
    | '"' :: rest => (letters? rest).map fun (letters, rest) => (string letters, rest)
    | '[' :: rest =>
      match skipBlanks rest with
      | ']' :: rest => some (array [], rest)
      | rest => (items? fuel rest).map fun (items, rest) => (array items, rest)
    | '{' :: rest =>
      match skipBlanks rest with
      | '}' :: rest => some (object [], rest)
      | rest => (members? fuel rest).map fun (members, rest) => (object members, rest)
    | 'n' :: rest => literal? ['u', 'l', 'l'] null rest
    | 't' :: rest => literal? ['r', 'u', 'e'] (bool true) rest
    | 'f' :: rest => literal? ['a', 'l', 's', 'e'] (bool false) rest
    | rest => (numeral? rest).map fun (numeral, rest) => (number numeral, rest)

/-- Items up to the closing bracket, at least one. -/
def items? : Nat → List Char → Option (List Json × List Char)
  | 0, _ => none
  | fuel + 1, s => do
    let (item, s) ← value? fuel s
    match skipBlanks s with
    | ',' :: rest =>
      let (items, rest) ← items? fuel rest
      return (item :: items, rest)
    | ']' :: rest => return ([item], rest)
    | _ => none

/-- Members up to the closing brace, at least one. -/
def members? : Nat → List Char → Option (List (List Letter × Json) × List Char)
  | 0, _ => none
  | fuel + 1, s =>
    match skipBlanks s with
    | '"' :: rest => do
      let (name, rest) ← letters? rest
      match skipBlanks rest with
      | ':' :: rest =>
        let (value, rest) ← value? fuel rest
        match skipBlanks rest with
        | ',' :: rest =>
          let (members, rest) ← members? fuel rest
          return ((name, value) :: members, rest)
        | '}' :: rest => return ([(name, value)], rest)
        | _ => none
      | _ => none
    | _ => none

end

/-- The value of a document. Each level of the grammar takes at least one of two steps per
character, which bounds the depth. -/
def read? (s : List Char) : Option Json :=
  match value? (2 * s.length + 2) s with
  | some (value, rest) => if (skipBlanks rest).isEmpty then some value else none
  | none => none

end DataflowCost.Json
