import DataflowCost.Estimate.Fusion
import DataflowCost.Journal.Event
import DataflowCost.Release

/-! What calls report: registrations, estimates of operators and graphs, and fusion decisions. -/
namespace DataflowCost

def Metrics.fields (m : Metrics Float) : List (String × FieldValue) :=
  [("compute_time", .real m.computeTime), ("memory_cost", .real m.memoryCost),
    ("parallelism", .real m.parallelism)]

/-- Reported by the call that registered an operator. -/
def OpView.registration (v : OpView) : Event where
  level := .debug
  message := "registered operator"
  fields := [
    ("op", .text v.id.text),
    ("kind", .text v.kind.name),
    ("guid", .count v.node.guid),
    ("outputs", .text (Text.spaced (v.outputs.map fun t => "\"" ++ t.type.shape.text ++ "\"")))]

def Graph.registration (g : Graph) (id : OpId) : List Event :=
  match g.view id with
  | .ok v => [v.registration]
  | .error _ => []

namespace Config

/-- A gathering operator whose width is not the configured one is reported whenever it is
estimated. -/
def widthEvents (c : Config Float) (v : OpView) : List Event :=
  match v.op with
  | .allGather d =>
    if d.worldSize = c.worldSize then []
    else [{
      level := .warn
      message := "all-gather width differs from the configured communicator"
      fields := [
        ("op", .text v.id.text),
        ("gather_world_size", .count d.worldSize),
        ("configured_world_size", .count c.worldSize)] }]
  | _ => []

/-- The estimate of one operator, in full when profiling. -/
def operatorEvent (profiling : Bool) (v : OpView) (m : Metrics Float) : Event where
  level := if profiling then .info else .trace
  message := "operator estimate"
  fields :=
    (if profiling then [("op", .text v.text)]
      else [("op", .text v.id.text), ("kind", .text v.kind.name)]) ++ m.fields

def graphEvent (ops : Nat) (total : Metrics Float) : Event where
  level := .info
  message := "graph estimate"
  fields := ("ops", .count ops) :: total.fields

/-- Reported by the estimate of one operator of a graph. -/
def opEvents (c : Config Float) (g : Graph) (id : OpId) : List Event :=
  match g.view id with
  | .ok v => c.widthEvents v
  | .error _ => []

/-- Reported by the estimate of a graph. The configuration can ask for profiling, and so can the
call. -/
def graphEvents (c : Config Float) (profiling : Bool) (g : Graph) : List Event :=
  let profiling := profiling || c.profile
  match evaluationOrder g with
  | .error _ => []
  | .ok views =>
    match c.rowMetrics views with
    | .error _ => []
    | .ok rows =>
      ((views.zip rows).flatMap fun (v, m) => c.widthEvents v ++ [operatorEvent profiling v m]) ++
        if profiling then [graphEvent g.nodes.length (.total c.parallelism rows)] else []

/-- Reported by a profile, which estimates each row and then the graph. -/
def profileEvents (c : Config Float) (g : Graph) : List Event :=
  match evaluationOrder g with
  | .error _ => []
  | .ok views => views.flatMap c.widthEvents ++ c.graphEvents false g

/-- Reported by a fusion decision: the estimates of both graphs, and the verdict. -/
def fusionEvents (c : Config Float) (plain fused : Graph) : List Event :=
  c.graphEvents false plain ++ c.graphEvents false fused ++
    match c.fusionDecision plain fused with
    | .error _ => []
    | .ok d => [{
        level := .debug
        message := "fusion decision"
        fields := [
          ("fuse", .flag d.fuse),
          ("criterion", .text d.criterion.name),
          ("original_time", .real d.plain.computeTime),
          ("fused_time", .real d.fused.computeTime)] }]

end Config

end DataflowCost
