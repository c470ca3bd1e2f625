import DataflowCost.Operator.Activation
import DataflowCost.Operator.Family
import DataflowCost.Tensor.Broadcast

/-! Matrix products: the batched product of two operands, and the two banded products, where one side is
a band of a fixed width around the diagonal. -/
namespace DataflowCost

open Scalar Inference Family

inductive Precision where
  | half | single | double
deriving DecidableEq, Repr

namespace Precision

def all : List Precision := [half, single, double]

def throughput {α : Type} [Scalar α] : Precision → α
  | half => 0.5
  | single => 1.0
  | double => 2.0

def tag : Precision → Int
  | half => 0
  | single => 1
  | double => 2

def name : Precision → String
  | half => "Half"
  | single => "Single"
  | double => "Double"

end Precision

/-- A product of stacked matrices, of either operand transposed if a flag says so, with an optional
bias as third input. -/
structure MatMul where
  transA : Bool := false
  transB : Bool := false
  act : Activation := .none
  precision : Precision := .single
deriving DecidableEq, Repr

namespace MatMul

/-- The sizes of a product: `batch` products of an `m` by `k` with a `k` by `n` matrix. -/
structure Problem where
  batch : Shape
  m : Nat
  n : Nat
  k : Nat
deriving DecidableEq, Repr

/-- A shape as leading axes and a matrix. -/
def matrix? (s : Shape) : Option (Shape × Nat × Nat) :=
  match s.reverse with
  | column :: row :: rest => some (rest.reverse, row, column)
  | _ => none

def problem (d : MatMul) (a b : Shape) : Inference Problem :=
  match matrix? a, matrix? b with
  | some (batchA, rowA, columnA), some (batchB, rowB, columnB) => do
    let batch ← batchA.broadcast batchB
    let (m, kA) := if d.transA then (columnA, rowA) else (rowA, columnA)
    let (kB, n) := if d.transB then (columnB, rowB) else (rowB, columnB)
    require (kA = kB) (.contractionDiffers kA a kB b)
    return ⟨batch, m, n, kA⟩
  | _, _ => invalid (.operandRank a b)

/-- The number of products, at least one. -/
def Problem.count (p : Problem) : Nat := max p.batch.size 1

/-- The problem of two operands, empty where they do not fit together. -/
def estimated (d : MatMul) (a b : Shape) : Problem :=
  match d.problem a b with
  | .ok p => p
  | .error _ => ⟨[], 0, 0, 0⟩

def anyTransposed (d : MatMul) : Bool := d.transA || d.transB

def outShape (d : MatMul) (a b : Shape) (bias : Option Shape) : Inference Shape := do
  let p ← d.problem a b
  let out := p.batch ++ [p.m, p.n]
  match bias with
  | some bias => require (out.broadcastsInto bias) (.biasShape bias out)
  | none => .ok ()
  return out

section Cost

variable {α : Type} [Scalar α]

def operations (d : MatMul) (p : Problem) (biased : Bool) : α :=
  let results : α := ofNat p.count * ofNat p.m * ofNat p.n
  let products := 2.0 * results * ofNat p.k
  let transposed := if d.anyTransposed then products * 1.05 else products
  let activated := if d.act.isSome then transposed + 0.1 * results else transposed
  if biased then activated + results else activated

def computeTime (d : MatMul) (p : Problem) (biased : Bool) : α :=
  d.operations p biased / d.precision.throughput / 5e9

def parallelism (d : MatMul) (p : Problem) : α :=
  let inner : α := minimum (sqrt (ofNat p.k)) 8.0
  let access : α := match d.transA, d.transB with
    | true, true => 0.9
    | false, false => 1.0
    | _, _ => 0.95
  capped (ofNat p.count * ofNat p.m * ofNat p.n * inner * access) 4096.0

end Cost

def settings (d : MatMul) : KeyVector :=
  [word d.transA.toNat, word d.transB.toNat, d.act.tag, d.precision.tag]

instance : Family MatMul where
  kind _ := .matMul
  arity _ := .between 2 3 1
  outShapes d inputs := do
    let a ← operand inputs 0
    let b ← operand inputs 1
    return [← d.outShape a.shape b.shape (inputs[2]?.map (·.shape))]
  outTypes _ inputs := do
    let a ← operand inputs 0
    let b ← operand inputs 1
    require (a.dtype = b.dtype) (.operandTypesDiffer a.dtype b.dtype)
    return [a.dtype]
  metrics {α} _ d io cx := do
    let a ← io.input? 0
    let b ← io.input? 1
    let p := d.estimated a.shape b.shape
    let cache : α := if d.anyTransposed then 0.2 * 1.5 else 0.2
    let bias : α := match io.input? 2 with
      | some t => cx.traffic t
      | none => 0.0
    return {
      computeTime := d.computeTime p (2 < io.inputs.length)
      memoryCost := (cx.traffic a + cx.traffic b) * cache + bias + io.outTraffic cx
      parallelism := d.parallelism p }
  workload d io := do
    let p := d.estimated (← io.input? 0).shape (← io.input? 1).shape
    return Kind.tag .matMul :: words [p.count, p.m, p.n, p.k] ++ d.settings
  attributes d := Kind.tag .matMul :: d.settings
  describe d :=
    "transA=" ++ toString d.transA ++ ",transB=" ++ toString d.transB ++
      ",act=" ++ d.act.name ++ ",precision=" ++ d.precision.name ++ ","

end MatMul

namespace Banded

/-- An operand of a banded product: batch, rows, and a third extent. -/
def operand? (name : String) (s : Shape) : Inference (Nat × Nat × Nat) :=
  match s with
  | [b, m, x] => .ok (b, m, x)
  | _ => invalid (.notBatched name s)

/-- The logarithmic penalty of a dilation above one. -/
def dilationLog {α : Type} [Scalar α] (dilation : Nat) : α :=
  if 1 < dilation then log2 (ofNat dilation) else 0.0

end Banded

/-- A product whose first operand is a band of odd width. -/
structure Gbmm where
  dilation : Nat := 1
  act : Activation := .none
deriving DecidableEq, Repr

namespace Gbmm

def outShape (d : Gbmm) (a b : Shape) : Inference Shape := do
  require (0 < d.dilation) .bandDilation
  let (batch, rows, band) ← Banded.operand? "A" a
  let (batch', rows', n) ← Banded.operand? "B" b
  require (band % 2 = 1) (.evenBand band)
  require (batch = batch' ∧ rows = rows') (.batchDiffers a b)
  return [batch, rows, n]

instance : Family Gbmm where
  kind _ := .gbmm
  arity _ := .exact 2 1
  outShapes d inputs := do
    let a ← operand inputs 0
    let b ← operand inputs 1
    return [← d.outShape a.shape b.shape]
  metrics {α} _ d io cx := do
    let band ← (← io.input? 0).shape[2]?
    let out := (← io.output? 0).shape
    let batch ← out[0]?
    let rows ← out[1]?
    let columns ← out[2]?
    let results : α := volume out
    let products := results * ofNat band * (1.0 + Banded.dilationLog d.dilation * 0.15)
    let operations := if d.act.isSome then products + 0.1 * results else products
    let factor : α := if 1 < d.dilation then 1.0 + 0.05 * ofNat d.dilation else 1.0
    let efficiency : α := maximum (1.0 - Banded.dilationLog d.dilation * 0.05) 0.1
    return {
      computeTime := operations / 2e9
      memoryCost := io.inTraffic cx * factor + io.outTraffic cx
      parallelism :=
        capped (ofNat batch * ofNat rows * minimum (ofNat columns) 16.0 * efficiency) 2048.0 }
  workload d io := do
    let band ← (← io.input? 0).shape[2]?
    let out := (← io.output? 0).shape
    return Kind.tag .gbmm ::
      words [← out[0]?, ← out[1]?, ← out[2]?, band, d.dilation] ++ [d.act.tag]
  attributes d := [Kind.tag .gbmm, word d.dilation, d.act.tag]
  describe d := "dilation=" ++ toString d.dilation ++ ",act=" ++ d.act.name ++ ","

end Gbmm

/-- A product of which only a band of `2 · width + 1` diagonals is wanted. -/
structure G2bmm where
  width : Nat
  dilation : Nat := 1
  act : Activation := .none
deriving DecidableEq, Repr

namespace G2bmm

def band (d : G2bmm) : Nat := 2 * d.width + 1

def outShape [Build] (d : G2bmm) (a b : Shape) : Inference Shape := do
  require (0 < d.dilation) .bandDilation
  let (batch, rows, _) ← Banded.operand? "A" a
  let _ ← Banded.operand? "B" b
  require (a = b) (.operandShapesDiffer a b)
  return [batch, rows, ← Word.add (← Word.mul 2 d.width) 1]

def settings (d : G2bmm) : KeyVector := [word d.width, word d.dilation, d.act.tag]

instance : Family G2bmm where
  kind _ := .g2bmm
  arity _ := .exact 2 1
  outShapes d inputs := do
    let a ← operand inputs 0
    let b ← operand inputs 1
    return [← d.outShape a.shape b.shape]
  metrics {α} _ d io cx := do
    let a := (← io.input? 0).shape
    let batch ← a[0]?
    let rows ← a[1]?
    let inner ← a[2]?
    let results : α := ofNat batch * ofNat rows * ofNat d.band
    let products :=
      results * ofNat inner * (1.0 + 0.1 * binaryLog (ofNat d.dilation + 1.0))
    let operations := if d.act.isSome then products + 0.1 * results else products
    return {
      computeTime := operations / 2e9
      memoryCost := io.inTraffic cx * (1.0 + 0.05 * ofNat d.dilation) + io.outTraffic cx
      parallelism := capped (ofNat batch * ofNat rows * minimum (ofNat d.band) 8.0) 2048.0 }
  workload d io := do
    let a := (← io.input? 0).shape
    return Kind.tag .g2bmm :: words [← a[0]?, ← a[1]?, ← a[2]?] ++ d.settings
  attributes d := Kind.tag .g2bmm :: d.settings
  describe d :=
    "width=" ++ toString d.width ++ ",dilation=" ++ toString d.dilation ++
      ",act=" ++ d.act.name ++ ","

end G2bmm

end DataflowCost
