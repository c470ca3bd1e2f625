import DataflowCost.Json.Basic

/-! The indented form of JSON documents: two blanks a level, one item or member a line, and empty
arrays and objects closed at once. -/
namespace DataflowCost.Json

def hexDigits (width n : Nat) : List Char :=
  let digits := Nat.toDigits 16 n
  List.replicate (width - digits.length) '0' ++ digits

def unitEscape (unit : Nat) : List Char := ['\\', 'u'] ++ hexDigits 4 unit

/-- Quotes, backslashes and control characters are escaped, by one letter where there is one. -/
def charEscape (c : Char) : List Char :=
  if c = '"' then ['\\', '"']
  else if c = '\\' then ['\\', '\\']
  else if c = '\x08' then ['\\', 'b']
  else if c = '\x0c' then ['\\', 'f']
  else if c = '\n' then ['\\', 'n']
  else if c = '\r' then ['\\', 'r']
  else if c = '\t' then ['\\', 't']
  else if c < ' ' then unitEscape c.toNat
  else [c]

def letterChars : Letter → List Char
  | .char c => charEscape c
  | .half unit => unitEscape unit

def quoted (letters : List Letter) : List Char :=
  '"' :: (letters.flatMap letterChars ++ ['"'])

def newLine (depth : Nat) : List Char := '\n' :: List.replicate (2 * depth) ' '

mutual

def chars (depth : Nat) : Json → List Char
  | null => ['n', 'u', 'l', 'l']
  | bool true => ['t', 'r', 'u', 'e']
  | bool false => ['f', 'a', 'l', 's', 'e']
  | number numeral => numeral.chars
  | string letters => quoted letters
  | array [] => ['[', ']']
  | array (item :: items) =>
    ['['] ++ newLine (depth + 1) ++ chars (depth + 1) item ++ itemChars (depth + 1) items ++
      newLine depth ++ [']']
  | object [] => ['{', '}']
  | object ((name, value) :: members) =>
    ['{'] ++ newLine (depth + 1) ++ quoted name ++ [':', ' '] ++ chars (depth + 1) value ++
      memberChars (depth + 1) members ++ newLine depth ++ ['}']

/-- The items behind the first. -/
def itemChars (depth : Nat) : List Json → List Char
  | [] => []
  | item :: items => [','] ++ newLine depth ++ chars depth item ++ itemChars depth items

/-- The members behind the first. -/
def memberChars (depth : Nat) : List (List Letter × Json) → List Char
  | [] => []
  | (name, value) :: members =>
    [','] ++ newLine depth ++ quoted name ++ [':', ' '] ++ chars depth value ++
      memberChars depth members

end

def indented (value : Json) : String := String.ofList (value.chars 0)

end DataflowCost.Json
