import DataflowCost.Config.Document
import DataflowCost.Estimate.Totals

/-! Profiles: one row for each operator in the order of evaluation, and the totals of the graph. -/
namespace DataflowCost

structure ProfileRow (α : Type) where
  op : OpId
  guid : Nat
  kind : Kind
  text : String
  perfKey : PerfKey
  metrics : Metrics α

structure Profile (α : Type) where
  config : Config α
  rows : List (ProfileRow α)
  total : Metrics α

namespace Config

variable {α : Type} [Scalar α]

def profileRow (c : Config α) (v : OpView) : Except Failure (ProfileRow α) := do
  let metrics ← v.metrics c.context
  return ⟨v.id, v.node.guid, v.kind, v.text, ← v.perfKey, metrics⟩

def profileOf (c : Config α) (g : Graph) : Except Failure (Profile α) := do
  let rows ← (← evaluationOrder g).mapM c.profileRow
  return ⟨c, rows, ← c.graphMetrics g⟩

end Config

/-- The rank of a value in the total order of binary64, in which negative zero is below zero and NaN
is beyond the infinities. -/
def totalRank (x : Float) : Int :=
  let bits := x.toBits.toNat
  if bits < Nat.pow 2 63 then bits else -((bits - Nat.pow 2 63 : Nat) : Int) - 1

namespace Profile

/-- The row of the greatest compute time, the last one of several. -/
def slowest (p : Profile Float) : Option (ProfileRow Float) :=
  p.rows.foldl (fun best row =>
    match best with
    | some b =>
      if totalRank row.metrics.computeTime < totalRank b.metrics.computeTime then some b
      else some row
    | none => some row) none

def metricsDocument (codec : Codec) (m : Metrics Float) : Json :=
  .record [
    ("compute_time", codec.real m.computeTime),
    ("memory_cost", codec.real m.memoryCost),
    ("parallelism", codec.real m.parallelism)]

def rowDocument (codec : Codec) (row : ProfileRow Float) : Json :=
  .record [
    ("op", .count row.op.index),
    ("guid", .count row.guid),
    ("kind", .text row.kind.name),
    ("description", .text row.text),
    ("perf_key", .text row.perfKey.text),
    ("metrics", metricsDocument codec row.metrics)]

def document (codec : Codec) (p : Profile Float) : Json :=
  .record [
    ("config", p.config.document codec),
    ("ops", .array (p.rows.map (rowDocument codec))),
    ("total", metricsDocument codec p.total)]

def text (p : Profile Float) (codec : Codec := .standard) : String := codec.encode (p.document codec)

end Profile

end DataflowCost
