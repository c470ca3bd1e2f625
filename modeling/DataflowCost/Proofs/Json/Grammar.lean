import DataflowCost.Json.Basic

/-! The grammar of JSON documents as a relation between values and texts. A value has many texts: blanks
may stand between tokens, a character may be escaped or not, and hexadecimal digits and exponent marks
come in two cases. -/
namespace DataflowCost

/-- A digit sequence, of at least one digit. -/
def Numeral.Run (s : List Char) : Prop := s ≠ [] ∧ ∀ c ∈ s, c.isDigit

/-- The numerals of the grammar: no zero leads further digits, and every part that is there has
digits. -/
structure Numeral.WellFormed (n : Numeral) : Prop where
  whole : Run n.whole
  leading : ∀ rest, n.whole = '0' :: rest → rest = []
  fraction : ∀ digits ∈ n.fraction, Run digits
  exponent : ∀ p ∈ n.exponent, Run p.2

namespace Json

/-- A text of an exponent, which is marked in either case. -/
inductive ExponentText : Option (Sign × List Char) → List Char → Prop where
  | absent : ExponentText none []
  | marked {mark : Char} {sign : Sign} {digits : List Char} (h : mark = 'e' ∨ mark = 'E') :
      ExponentText (some (sign, digits)) (mark :: (sign.chars ++ digits))

/-- A text of a numeral. -/
inductive NumeralText (n : Numeral) : List Char → Prop where
  | intro {s : List Char} (h : n.WellFormed) (hexponent : ExponentText n.exponent s) :
      NumeralText n ((if n.negative then ['-'] else []) ++ n.whole ++
        Numeral.fractionChars n.fraction ++ s)

/-- A hexadecimal digit, in either case. -/
def IsHexDigit (c : Char) (value : Nat) : Prop :=
  value < 16 ∧ (c = value.digitChar ∨ c = value.digitChar.toUpper)

/-- The one-letter escapes. -/
def shortEscapes : List (Char × Char) :=
  [('"', '"'), ('\\', '\\'), ('/', '/'), ('b', '\x08'), ('f', '\x0c'), ('n', '\n'), ('r', '\r'),
    ('t', '\t')]

/-- The letter of a code unit: units of surrogate pairs are halves. -/
def unitLetter (unit : Nat) : Letter :=
  if Letter.highFirst ≤ unit ∧ unit ≤ Letter.lowLast then .half unit else .char (Char.ofNat unit)

/-- A text of a letter. -/
inductive LetterText : Letter → List Char → Prop where
  | plain {c : Char} (hquote : c ≠ '"') (hbackslash : c ≠ '\\') (hcontrol : ' ' ≤ c) :
      LetterText (.char c) [c]
  | short {e c : Char} (h : (e, c) ∈ shortEscapes) : LetterText (.char c) ['\\', e]
  | unit {a b c d : Char} {i j k l : Nat} (ha : IsHexDigit a i) (hb : IsHexDigit b j)
      (hc : IsHexDigit c k) (hd : IsHexDigit d l) :
      LetterText (unitLetter (0x1000 * i + 0x100 * j + 0x10 * k + l)) ['\\', 'u', a, b, c, d]

/-- A text of letters, without the quotes. -/
inductive LettersText : List Letter → List Char → Prop where
  | nil : LettersText [] []
  | cons {letter : Letter} {letters : List Letter} {s t : List Char} (h : LetterText letter s)
      (hrest : LettersText letters t) : LettersText (letter :: letters) (s ++ t)

/-- The characters that may stand between tokens. -/
def blanks : List Char := [' ', '\t', '\n', '\r']

def Blank (s : List Char) : Prop := ∀ c ∈ s, c ∈ blanks

/-- A text of a name in quotes, with blanks around it. -/
inductive NameText : List Letter → List Char → Prop where
  | intro {name : List Letter} {a s b : List Char} (ha : Blank a) (h : LettersText name s)
      (hb : Blank b) : NameText name (a ++ '"' :: (s ++ '"' :: b))

mutual

/-- A text of a value. -/
inductive Written : Json → List Char → Prop where
  | null : Written .null ['n', 'u', 'l', 'l']
  | boolTrue : Written (.bool true) ['t', 'r', 'u', 'e']
  | boolFalse : Written (.bool false) ['f', 'a', 'l', 's', 'e']
  | number {n : Numeral} {s : List Char} (h : NumeralText n s) : Written (.number n) s
  | string {letters : List Letter} {s : List Char} (h : LettersText letters s) :
      Written (.string letters) ('"' :: (s ++ ['"']))
  | emptyArray {s : List Char} (h : Blank s) : Written (.array []) ('[' :: (s ++ [']']))
  | array {items : List Json} {s : List Char} (h : ItemsText items s) :
      Written (.array items) ('[' :: (s ++ [']']))
  | emptyObject {s : List Char} (h : Blank s) : Written (.object []) ('{' :: (s ++ ['}']))
  | object {members : List (List Letter × Json)} {s : List Char} (h : MembersText members s) :
      Written (.object members) ('{' :: (s ++ ['}']))

/-- A text of a value with blanks around it. -/
inductive SpacedText : Json → List Char → Prop where
  | intro {value : Json} {a s b : List Char} (ha : Blank a) (h : Written value s) (hb : Blank b) :
      SpacedText value (a ++ (s ++ b))

/-- A text of items, at least one. -/
inductive ItemsText : List Json → List Char → Prop where
  | last {item : Json} {s : List Char} (h : SpacedText item s) : ItemsText [item] s
  | more {item : Json} {items : List Json} {s t : List Char} (h : SpacedText item s)
      (hrest : ItemsText items t) : ItemsText (item :: items) (s ++ ',' :: t)

/-- A text of members, at least one. -/
inductive MembersText : List (List Letter × Json) → List Char → Prop where
  | last {name : List Letter} {value : Json} {s t : List Char} (hname : NameText name s)
      (h : SpacedText value t) : MembersText [(name, value)] (s ++ ':' :: t)
  | more {name : List Letter} {value : Json} {members : List (List Letter × Json)}
      {s t u : List Char} (hname : NameText name s) (h : SpacedText value t)
      (hrest : MembersText members u) :
      MembersText ((name, value) :: members) (s ++ ':' :: (t ++ ',' :: u))

end

end Json

end DataflowCost
