import DataflowCost.Config.Setting
import DataflowCost.Numeric.Reading
import DataflowCost.Text.Blank

/-! Configurations from environment variables. Values lose the blanks at their ends, and a variable
without any other character counts as absent. -/
namespace DataflowCost

/-- The variables of an environment. -/
abbrev Environment := String → Option String

namespace Environment

def value? (env : Environment) (s : Setting) : Option String := do
  let kept := Text.trim (← env s.environmentKey).toList
  if kept.isEmpty then none else some (String.ofList kept)

/-- A setting read by `read`, or its standard value; a text that does not read is an error. -/
def setting {β : Type} (env : Environment) (s : Setting) (read : String → Option β)
    (standard : β) : Except ConfigError β :=
  match env.value? s with
  | none => .ok standard
  | some text =>
    match read text with
    | some b => .ok b
    | none => .error (.invalidValue s.environmentKey text)

def digits? (s : List Char) : Option Nat :=
  if !s.isEmpty && s.all Char.isDigit then some (Nat.ofDigitChars 10 s 0) else none

/-- Digits after at most a plus sign, below the bound of 64-bit words. -/
def toCount? (text : String) : Option Nat := do
  let value ← digits? (match text.toList with
    | '+' :: rest => rest
    | s => s)
  if value < Nat.pow 2 64 then some value else none

def toMemoryUnit? (text : String) : Option MemoryUnit :=
  match text.toLower with
  | "elements" | "element" => some .elements
  | "bytes" | "byte" => some .bytes
  | _ => none

def toReducer? (text : String) : Option Reducer := Reducer.ofName? text.toLower

/-- The exponent behind a mark: at least one digit after at most a sign. -/
def exponent? (s : List Char) : Option (Sign × List Char) :=
  let (sign, digits) : Sign × List Char := match s with
    | '+' :: rest => (.plus, rest)
    | '-' :: rest => (.minus, rest)
    | s => (.absent, s)
  (digits? digits).map fun _ => (sign, digits)

/-- Digits with at most one point, at least one digit, and at most one exponent. -/
def magnitude? (negative : Bool) (s : List Char) : Option Numeral := do
  let whole := s.takeWhile Char.isDigit
  let rest := s.dropWhile Char.isDigit
  let (fraction, rest) : Option (List Char) × List Char := match rest with
    | '.' :: rest => (some (rest.takeWhile Char.isDigit), rest.dropWhile Char.isDigit)
    | rest => (none, rest)
  if whole.isEmpty && (fraction.getD []).isEmpty then none
  match rest with
  | [] => return ⟨negative, whole, fraction, none⟩
  | mark :: rest =>
    if mark == 'e' || mark == 'E' then
      return ⟨negative, whole, fraction, some (← exponent? rest)⟩
    else none

def numeral? (text : String) : Option Numeral :=
  match text.toList with
  | '-' :: rest => magnitude? true rest
  | '+' :: rest => magnitude? false rest
  | s => magnitude? false s

/-- A finite number that is not negative. -/
def toWindow? (text : String) : Option Float := do
  let value := (← numeral? text).nearest
  if value.isFinite && 0.0 ≤ value then some value else none

/-- The words that switch a setting on; every other word leaves it off. -/
def isOn (text : String) : Bool := ["1", "true", "yes", "on"].contains text.toLower

end Environment

/-- The standard settings, overridden by the variables that are there; the first variable that does not
read decides. -/
def Config.ofEnvironment (env : Environment) : Except ConfigError (Config Float) := do
  let standard : Config Float := .standard
  let worldSize ← env.setting .worldSize Environment.toCount? standard.worldSize
  let memoryUnit ← env.setting .memoryUnit Environment.toMemoryUnit? standard.memoryUnit
  let parallelism ← env.setting .parallelism Environment.toReducer? standard.parallelism
  let fuseEpsilon ← env.setting .fuseEpsilon Environment.toWindow? standard.fuseEpsilon
  let profile := (env.value? .profile).any Environment.isOn
  Config.validate { worldSize, memoryUnit, parallelism, fuseEpsilon, profile }

end DataflowCost
