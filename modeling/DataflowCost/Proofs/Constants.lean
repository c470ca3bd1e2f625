import DataflowCost.Proofs.Growth

/-! Tensors with values that an operator writes. A graph has such a tensor as soon as a call declares
a constant as an output, which no check on declared outputs turns down; nothing else leads to one. -/
namespace DataflowCost

open scoped ExactArithmetic

namespace Graph

variable {g g' : Graph} {guid : Nat} {op : Operator} {inputs outputs : List TensorId}

/-- No operator writes a tensor with values, so what the resident host knows is never out of date. -/
def ConstantsUnwritten (g : Graph) : Prop :=
  ∀ o t x, g.Writes o t → g.tensor? t = some x → x.payload = none

theorem constantsUnwritten_empty : empty.ConstantsUnwritten := by
  rintro o t x ⟨n, hn, _⟩
  cases hn

/-- What is written stays written, and what has values keeps them. -/
theorem Extends.constantsUnwritten (h : g.Extends g') (hg' : g'.ConstantsUnwritten) :
    g.ConstantsUnwritten := by
  rintro o t x ⟨n, hn, ht⟩ hx
  obtain ⟨x', hx', hgrows⟩ := h.tensor_kept hx
  rw [← hgrows.payload_eq]
  exact hg' o t x' ⟨n, h.node_kept hn, ht⟩ hx'

theorem ConstantsUnwritten.addTensor (h : g.ConstantsUnwritten) (hg : g.Linked) (guid : Nat)
    (type : TensorType) (payload : Option Payload) :
    (g.addTensor guid type payload).graph.ConstantsUnwritten := by
  intro o t x hwrites hx
  have hwrites : g.Writes o t := hwrites
  rcases tensor?_addTensor_of_some hx with hold | ⟨rfl, _⟩
  · exact h o t x hwrites hold
  · -- The new tensor is nobody's output yet.
    have hlt : g.tensors.length < g.tensors.length := hg.writes_lt hwrites
    exact absurd hlt (Nat.lt_irrefl _)

theorem ConstantsUnwritten.addTensors (h : g.ConstantsUnwritten) (hg : g.Linked) (guid : Nat)
    (types : List TensorType) : (g.addTensors guid types).graph.ConstantsUnwritten := by
  induction types generalizing g guid with
  | nil => exact h
  | cons type types ih =>
    exact ih (h.addTensor hg guid type none) (hg.addTensor guid type none (by simp)) (guid + 1)

theorem ConstantsUnwritten.register_iff (h : g.ConstantsUnwritten) :
    (g.register guid op inputs outputs).graph.ConstantsUnwritten ↔
      ∀ t ∈ outputs, ∀ x, g.tensor? t = some x → x.payload = none := by
  constructor
  · intro hregistered t ht x hx
    have hlinked : (g.register guid op inputs outputs).graph.tensor? t =
        some (link ⟨g.nodes.length⟩ inputs outputs x) := by
      rw [tensor?_register, hx, Option.map_some]
    exact hregistered ⟨g.nodes.length⟩ t (link _ _ _ x) (writes_register.mpr (.inr ⟨rfl, ht⟩)) hlinked
  · intro hfree o t x hwrites hx
    rw [tensor?_register] at hx
    obtain ⟨y, hy, rfl⟩ := Option.map_eq_some_iff.mp hx
    change y.payload = none
    rcases writes_register.mp hwrites with hold | ⟨_, ht⟩
    · exact h o t y hold hy
    · exact hfree t ht y hy

end Graph

namespace Call

open DataflowCost.Graph

/-- The call declares no constant as an output, unless it is turned down anyway. -/
def Spares [Build] (g : Graph) (guid : Nat) : Call → Prop
  | .opInto definition inputs outputs =>
    (∃ e, g.addOpInto guid definition inputs outputs = .ok e) →
      ∀ t ∈ outputs, ∀ x, g.tensor? t = some x → x.payload = none
  | _ => True

end Call

namespace Graph

variable {g : Graph} {guid : Nat}

/-- One after the other, the calls declare no constant as an output. -/
def SparesAll [Build] (g : Graph) : List (Nat × Call) → Prop
  | [] => True
  | c :: calls => c.2.Spares g c.1 ∧ (g.after c.1 c.2).1.SparesAll calls

theorem ConstantsUnwritten.after_iff [Build] (h : g.ConstantsUnwritten) (hg : g.Linked) (call : Call) :
    (g.after guid call).1.ConstantsUnwritten ↔ call.Spares g guid := by
  cases call with
  | tensor type => exact iff_of_true (h.addTensor hg guid type none) trivial
  | constant type payload =>
    refine iff_of_true ?_ trivial
    rw [after]
    cases hadd : g.addConstant guid type payload with
    | error e => exact h
    | ok e =>
      obtain ⟨_, rfl⟩ := addConstant_eq_ok_iff.mp hadd
      exact h.addTensor hg guid type (some payload)
  | op definition inputs =>
    refine iff_of_true ?_ trivial
    rw [after]
    cases hadd : g.addOp guid definition inputs with
    | error e => exact h
    | ok e =>
      obtain ⟨inferred, _, rfl⟩ := addOp_eq_ok_iff.mp hadd
      refine (h.addTensors hg guid inferred.outputs).register_iff.mpr ?_
      intro t ht x hx
      -- Outputs that are made have no values.
      obtain ⟨i, hi, rfl⟩ := mem_addTensors_id.mp ht
      rw [tensor?_addTensors_made guid _ hi] at hx
      rw [← Option.some.inj hx]
  | opInto definition inputs outputs =>
    rw [after]
    cases hadd : g.addOpInto guid definition inputs outputs with
    | error e =>
      refine iff_of_true h ?_
      rintro ⟨e', he'⟩
      rw [hadd] at he'
      cases he'
    | ok e =>
      obtain ⟨inferred, _, _, rfl⟩ := addOpInto_eq_ok_iff.mp hadd
      exact h.register_iff.trans ⟨fun hfree _ => hfree, fun hspares => hspares ⟨_, hadd⟩⟩
  | host host => exact iff_of_true h trivial

/-- Calls keep constants apart from what operators write exactly as long as none of them declares a
constant as an output. -/
theorem Reachable.constantsUnwritten_afterAll_iff [Build] (hg : g.Reachable) (h : g.ConstantsUnwritten)
    (calls : List (Nat × Call)) :
    (g.afterAll calls).ConstantsUnwritten ↔ g.SparesAll calls := by
  induction calls generalizing g with
  | nil => exact iff_of_true h trivial
  | cons c calls ih =>
    have hnext : (g.after c.1 c.2).1.Reachable := .call c.1 c.2 hg
    have hstep : (g.after c.1 c.2).1.ConstantsUnwritten ↔ c.2.Spares g c.1 :=
      h.after_iff hg.linked c.2
    constructor
    · intro hall
      -- A constant that is written stays so, so that the first call spares constants too.
      have hkept : (g.after c.1 c.2).1.ConstantsUnwritten :=
        (hnext.extends_afterAll calls).constantsUnwritten hall
      exact ⟨hstep.mp hkept, (ih hnext hkept).mp hall⟩
    · rintro ⟨hfirst, hrest⟩
      exact (ih hnext (hstep.mpr hfirst)).mpr hrest

/-- The negation of a constant is written into a plain tensor. -/
def constantRead : List (Nat × Call) :=
  [(1, .constant ⟨[2], .int64⟩ (.ints64 [0, 7])), (2, .tensor ⟨[2], .int64⟩),
    (3, .opInto (.unary ⟨.neg⟩) [⟨0⟩] [⟨1⟩])]

theorem constantsUnwritten_afterAll_constantRead :
    empty.SparesAll constantRead ∧ (empty.afterAll constantRead).ConstantsUnwritten := by
  have hspares : empty.SparesAll constantRead := by
    refine ⟨trivial, trivial, ?_, trivial⟩
    intro _ t ht x hx
    obtain rfl := List.mem_singleton.mp ht
    have hplain : (empty.afterAll (constantRead.take 2)).tensor? ⟨1⟩ =
        some ⟨⟨1⟩, 2, ⟨[2], .int64⟩, none, none, []⟩ := rfl
    rw [← Option.some.inj (hplain.symm.trans hx)]
  exact ⟨hspares, (Reachable.empty.constantsUnwritten_afterAll_iff constantsUnwritten_empty
    constantRead).mpr hspares⟩

/-- A constant that is declared as the output of an operator, and a tensor of three elements. -/
def overwritten : Graph :=
  (ofCalls [
    .constant ⟨[2], .int64⟩ (.ints64 [0, 7]),
    .tensor ⟨[2], .int64⟩,
    .opInto (.unary ⟨.neg⟩) [⟨1⟩] [⟨0⟩],
    .tensor ⟨[3], .float32⟩]).1

/-- The operator is registered, and a gather by its output is judged by the values of the constant. -/
theorem constants_overwritten :
    (¬ ∀ g : Graph, g.Reachable → g.ConstantsUnwritten) ∧
      overwritten.Reachable ∧ overwritten.Writes ⟨0⟩ ⟨0⟩ ∧
      overwritten.infer (.gather { axis := 0 }) [⟨2⟩, ⟨0⟩] =
        .error (.error (.invalidOperator .gather [⟨[3], .float32⟩, ⟨[2], .int64⟩]
          (.indexOutOfRange 7 0 3))) := by
  have hg : overwritten.Reachable := reachable_ofCalls _
  -- The constant is written, and keeps its payload.
  have hgraph : overwritten = {
      tensors := [
        ⟨⟨0⟩, 1, ⟨[2], .int64⟩, some (.ints64 [0, 7]), some ⟨0⟩, []⟩,
        ⟨⟨1⟩, 2, ⟨[2], .int64⟩, none, none, [⟨0⟩]⟩,
        ⟨⟨2⟩, 4, ⟨[3], .float32⟩, none, none, []⟩]
      nodes := [⟨3, .unary ⟨.neg⟩, [⟨1⟩], [⟨0⟩]⟩]
      host := .resident } := by cbv
  have htensor : overwritten.tensor? ⟨0⟩ =
      some ⟨⟨0⟩, 1, ⟨[2], .int64⟩, some (.ints64 [0, 7]), some ⟨0⟩, []⟩ := by rw [hgraph]; rfl
  have hwrites : overwritten.Writes ⟨0⟩ ⟨0⟩ := by
    rw [hgraph]
    exact ⟨_, rfl, List.mem_singleton.mpr rfl⟩
  refine ⟨?_, hg, hwrites, by rw [hgraph]; rfl⟩
  intro hall
  have hnone := hall overwritten hg ⟨0⟩ ⟨0⟩ _ hwrites htensor
  cases hnone

end Graph

end DataflowCost
