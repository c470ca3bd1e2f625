import DataflowCost.Inference.Word
import DataflowCost.Operator.Fingerprint

/-! Windows that slide over spatial axes. On each axis a window of `kernel` taps, `dilation` apart, moves by
`stride` over the input extent with `pad` added at both ends. -/
namespace DataflowCost

open Inference

inductive Padding where
  | explicit (pads : List Nat)
  | same
  | valid
deriving DecidableEq, Repr

def Padding.tag : Padding → Int
  | explicit _ => 0
  | same => 1
  | valid => 2

namespace Window

def rowAxis : Fin 2 := 0

def columnAxis : Fin 2 := 1

/-- The distance from the first tap of a window to its last, both counted. -/
def span (kernel dilation : Nat) : Nat := (kernel - 1) * dilation + 1

/-- The number of positions of a window on one axis. Window and padded extent are checked to be words,
once the padding of both ends has been added up. -/
def positions [Build] (input kernel stride dilation pad : Nat) : Inference Nat := do
  require (0 < kernel) .emptyKernel
  let window := span kernel dilation
  require (window < Word.limit) .windowOverflow
  let padded := input + (← Word.mul 2 pad)
  require (padded < Word.limit) .paddedOverflow
  require (window ≤ padded) (.windowTooLarge window padded)
  return (← quotient (padded - window) stride) + 1

/-- Half of the padding, rounded down, that gives one position per `stride` input elements. -/
def samePad [Build] (input kernel stride dilation : Nat) : Inference Nat := do
  let out ← quotientUp input stride
  let steps ← Word.mul (out - 1) stride
  let reach ← Word.mul dilation (kernel - 1)
  let needed ← Word.add (← Word.add steps reach) 1
  return (needed - input) / 2

end Window

/-- The window attributes of `n` spatial axes, outermost first; `pads` holds once they are resolved. -/
structure Sliding (n : Nat) where
  padding : Padding
  strides : Vector Nat n
  dilations : Vector Nat n
  pads : Vector Nat n
deriving DecidableEq, Repr

namespace Sliding

variable {n : Nat}

def standard (n : Nat) : Sliding n :=
  ⟨.valid, .replicate n 1, .replicate n 1, .replicate n 0⟩

def checkSteps (w : Sliding n) : Inference Unit := do
  require (w.strides.toList.all (0 < ·)) (.zeroStride w.strides.toList)
  require (w.dilations.toList.all (0 < ·)) (.zeroDilation w.dilations.toList)

/-- One value for each axis, taken from a list of that length. -/
def perAxis? (n : Nat) (values : List Nat) : Option (Vector Nat n) :=
  if h : values.length = n then some ⟨values.toArray, h⟩ else none

def explicitPads (n : Nat) (pads : List Nat) : Inference (Vector Nat n) :=
  match perAxis? n pads with
  | some v => .ok v
  | none => invalid (.paddingCount n pads)

/-- Computes one value for each axis; the outermost axis that is refused decides. -/
def eachAxis (n : Nat) (f : Fin n → Inference Nat) : Inference (Vector Nat n) := do
  let values ← (List.finRange n).mapM f
  present (perAxis? n values)

def resolve [Build] (w : Sliding n) (spatial kernel : List Nat) : Inference (Sliding n) := do
  w.checkSteps
  let pads ← match w.padding with
    | .explicit pads => explicitPads n pads
    | .valid => .ok (.replicate n 0)
    | .same => eachAxis n fun i => do
      Window.samePad (← present spatial[i.val]?) (← present kernel[i.val]?)
        w.strides[i] w.dilations[i]
  return { w with pads }

/-- The number of window positions on each axis. -/
def outExtents [Build] (w : Sliding n) (spatial kernel : List Nat) : Inference (List Nat) :=
  (List.finRange n).mapM fun i => do
    let extent ← present spatial[i.val]?
    match w.padding with
    | .same => quotientUp extent w.strides[i]
    | _ =>
      Window.positions extent (← present kernel[i.val]?) w.strides[i] w.dilations[i] w.pads[i]

def key (w : Sliding n) : KeyVector :=
  w.padding.tag :: words (w.pads.toList ++ w.strides.toList ++ w.dilations.toList)

def describe (w : Sliding n) : String :=
  Text.named "pads" (w.pads.toList.map toString) ++
    Text.named "strides" (w.strides.toList.map toString) ++
    Text.named "dilations" (w.dilations.toList.map toString)

end Sliding

end DataflowCost
