import DataflowCost.Graph.Basic

/-! The order of evaluation and the search for cycles. Both follow the dependency of operators: one reads
what another writes. -/
namespace DataflowCost.Graph

def producer? (g : Graph) (id : TensorId) : Option OpId := (g.tensor? id).bind Tensor.producer

/-- The operators whose results an operator reads, one entry for each reading input. -/
def dependencies (g : Graph) (n : Node) : List OpId := n.inputs.filterMap g.producer?

/-- The operators that read results of an operator, one entry for each reading input. -/
def dependents (g : Graph) (id : OpId) : List Nat :=
  g.nodes.zipIdx.flatMap fun (n, i) => List.replicate ((g.dependencies n).count id) i

/-- Counts down what an operator still waits for, and releases it at zero. Counting below zero is a
fault. -/
def release (waiting : List Nat) (ready : List Nat) (i : Nat) :
    Except Failure (List Nat × List Nat) :=
  match waiting[i]? with
  | some (count + 1) => .ok (waiting.set i count, if count = 0 then i :: ready else ready)
  | _ => .error .fault

/-- Takes the smallest ready operator and releases what waits for it, at most `fuel` times. -/
def emit (g : Graph) : Nat → List Nat → List Nat → Except Failure (List OpId)
  | 0, _, _ => .ok []
  | fuel + 1, waiting, ready =>
    match ready.min? with
    | none => .ok []
    | some i => do
      let (waiting, ready) ← (g.dependents ⟨i⟩).foldlM
        (fun (waiting, ready) next => release waiting ready next) (waiting, ready.erase i)
      return ⟨i⟩ :: (← emit g fuel waiting ready)

/-- Every operator after the producers of its inputs; of several ready operators the one that was
registered first is next. -/
def topologicalOrder (g : Graph) : Except Failure (List OpId) := do
  let waiting := g.nodes.map fun n => (g.dependencies n).length
  let ready := (List.range g.nodes.length).filter fun i => waiting[i]? == some 0
  let order ← g.emit g.nodes.length waiting ready
  if order.length = g.nodes.length then return order
  else .error (.error (.cycle (g.nodes.length - order.length)))

/-- The operators that read one of the tensors. -/
def readersOf (g : Graph) (ids : List TensorId) : List OpId :=
  ids.flatMap fun id => ((g.tensor? id).map Tensor.consumers).getD []

/-- The tensors that the operators write. -/
def writtenBy (g : Graph) (ids : List OpId) : List TensorId :=
  ids.flatMap fun id => ((g.node? id).map Node.outputs).getD []

/-- The operators that are listed, and those that are not. -/
def divide (listed rest : List OpId) : List OpId × List OpId :=
  rest.partition (listed.contains ·)

theorem length_divide (listed rest : List OpId) :
    (divide listed rest).1.length + (divide listed rest).2.length = rest.length := by
  simp only [divide, List.partition_eq_filter_filter]
  have := rest.length_eq_countP_add_countP (listed.contains ·)
  simp only [List.countP_eq_length_filter, Bool.not_eq_true, Bool.decide_eq_false] at this
  simpa [Function.comp_def] using this.symm

/-- The operators in `rest` that are reached from the tensors in `frontier`, one layer after the
other. -/
def downstream (g : Graph) (rest : List OpId) (frontier : List TensorId) : List OpId :=
  let layers := divide (g.readersOf frontier) rest
  if layers.1.isEmpty then []
  else layers.1 ++ downstream g layers.2 (g.writtenBy layers.1)
termination_by rest.length
decreasing_by
  rename_i h
  have hpos : 0 < layers.1.length := List.length_pos_iff.mpr (by simpa using h)
  have := length_divide (g.readersOf frontier) rest
  simp only [layers] at hpos ⊢
  omega

/-- The number of operators that would never be ready if an operator that reads `inputs` began to
write `outputs`, itself included; `none` if no cycle arises. -/
def closesCycle (g : Graph) (inputs outputs : List TensorId) : Option Nat :=
  let reached := g.downstream g.opIds outputs
  let written := outputs ++ g.writtenBy reached
  if written.any (inputs.contains ·) then some (reached.length + 1) else none

end DataflowCost.Graph
