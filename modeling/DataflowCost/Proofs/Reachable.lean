import DataflowCost.Proofs.Links
import DataflowCost.Proofs.Outcome
import Mathlib.Data.List.Permutation

/-! The graphs that calls build. A call that is turned down leaves the graph as it was; one that
succeeds adds tensors, or registers an operator on tensors that nobody writes. -/
namespace DataflowCost

open scoped ExactArithmetic

/-- The calls that can change a graph. -/
inductive Call where
  | tensor (type : TensorType)
  | constant (type : TensorType) (payload : Payload)
  | op (definition : Operator) (inputs : List TensorId)
  | opInto (definition : Operator) (inputs outputs : List TensorId)
  | host (host : Host)

namespace Graph

/-- The graph and the next free guid after a call. -/
def settle {ι : Type} (g : Graph) (guid : Nat) : Except Failure (Extended ι) → Graph × Nat
  | .ok e => (e.graph, e.nextGuid)
  | .error _ => (g, guid)

def after [Build] (g : Graph) (guid : Nat) : Call → Graph × Nat
  | .tensor type => g.settle guid (.ok (g.addTensor guid type))
  | .constant type payload => g.settle guid (g.addConstant guid type payload)
  | .op definition inputs => g.settle guid (g.addOp guid definition inputs)
  | .opInto definition inputs outputs => g.settle guid (g.addOpInto guid definition inputs outputs)
  | .host host => (g.withHost host, guid)

/-- The graph and the next free guid after calls, one by one from the empty graph. -/
def ofCalls [Build] (calls : List Call) : Graph × Nat :=
  calls.foldl (fun s call => s.1.after s.2 call) (empty, 1)

/-- The graphs that calls build from the empty graph, whether each call succeeds or not. Between two
calls other graphs may take guids, so any guid can be the next. -/
inductive Reachable [Build] : Graph → Prop
  | empty : Reachable .empty
  | call {g : Graph} (guid : Nat) (call : Call) : Reachable g → Reachable (g.after guid call).1

variable {g g' : Graph}

theorem reachable_ofCalls [Build] (calls : List Call) : (ofCalls calls).1.Reachable := by
  unfold ofCalls
  have hfold (s : Graph × Nat) (hs : s.1.Reachable) :
      (calls.foldl (fun s call => s.1.after s.2 call) s).1.Reachable := by
    induction calls generalizing s with
    | nil => exact hs
    | cons call calls ih => exact ih _ (.call s.2 call hs)
  exact hfold _ .empty

/-- An operator definition and tensors that pass every check on declared outputs, up to the search
for cycles. -/
structure Admits [Build] (g : Graph) (op : Operator) (inputs outputs : List TensorId) (inferred : Inferred) :
    Prop where
  infer : g.infer op inputs = .ok inferred
  length : outputs.length = inferred.outputs.length
  declared : g.checkOutputs inferred.op.kind [] (outputs.zip inferred.outputs) = .ok ()

/-- What a call does to a graph. -/
inductive Step [Build] (g : Graph) : Graph → Prop
  | refused : Step g g
  | hosted (host) : Step g (g.withHost host)
  | grown (guid type payload) (hfits : ∀ p ∈ payload, p.length = type.size ∧ p.dtype = type.dtype) :
      Step g (g.addTensor guid type payload).graph
  | made (guid op inputs inferred) (hinfer : g.infer op inputs = .ok inferred) :
      Step g ((g.addTensors guid inferred.outputs).graph.register
        (g.addTensors guid inferred.outputs).nextGuid inferred.op inputs
        (g.addTensors guid inferred.outputs).id).graph
  | declared (guid op inputs outputs inferred) (hadmits : g.Admits op inputs outputs inferred)
      (hcycle : g.closesCycle inputs outputs = none) :
      Step g (g.register guid inferred.op inputs outputs).graph

theorem tensor_eq_ok_iff {t : TensorId} {x : Tensor} : g.tensor t = .ok x ↔ g.tensor? t = some x := by
  unfold tensor
  cases g.tensor? t with
  | none => simp
  | some y => simp

/-- Inference succeeds on tensors of the graph only. -/
theorem lt_of_infer [Build] {op : Operator} {inputs : List TensorId} {inferred : Inferred}
    (h : g.infer op inputs = .ok inferred) : ∀ t ∈ inputs, t.index < g.tensors.length := by
  obtain ⟨xs, hoperands, _⟩ := bind_eq_ok_iff.mp h
  obtain ⟨ys, hlookup, _⟩ := bind_eq_ok_iff.mp hoperands
  intro t ht
  obtain ⟨x, hx⟩ := exists_ok_of_mapM hlookup t ht
  exact tensor?_lt (tensor_eq_ok_iff.mp hx)

theorem checkOutputs_cons {kind : Kind} {seen : List TensorId} {id : TensorId}
    {expected : TensorType} {rest : List (TensorId × TensorType)} :
    g.checkOutputs kind seen ((id, expected) :: rest) = .ok () ↔
      (id ∉ seen ∧ ∃ x, g.tensor? id = some x ∧ x.producer = none ∧ x.type = expected) ∧
        g.checkOutputs kind (id :: seen) rest = .ok () := by
  cases hx : g.tensor? id with
  | none =>
    have herror : g.tensor id = .error (.error (.unknownTensor id)) := by simp only [tensor, hx]
    rw [checkOutputs, herror]
    constructor
    · intro h
      cases h
    · rintro ⟨⟨_, x, hsome, _⟩, _⟩
      cases hsome
  | some x =>
    have hok : g.tensor id = .ok x := tensor_eq_ok_iff.mpr hx
    rw [checkOutputs, hok]
    simp only [bind, Except.bind]
    cases hp : x.producer with
    | some o => simp [hp]
    | none =>
      by_cases hseen : id ∈ seen
      · simp [hseen]
      · by_cases htype : x.type = expected
        · simp [hseen, htype, hp]
        · simp [hseen, htype]

/-- Declared outputs are accepted when each of them is free to be written and of the inferred type.
-/
theorem checkOutputs_eq_ok_iff {kind : Kind} {seen : List TensorId}
    {pairs : List (TensorId × TensorType)} :
    g.checkOutputs kind seen pairs = .ok () ↔
      (pairs.map Prod.fst).Nodup ∧ ∀ p ∈ pairs, p.1 ∉ seen ∧
        ∃ x, g.tensor? p.1 = some x ∧ x.producer = none ∧ x.type = p.2 := by
  induction pairs generalizing seen with
  | nil => simp [checkOutputs]
  | cons p rest ih =>
    obtain ⟨id, expected⟩ := p
    rw [checkOutputs_cons, ih, List.map_cons, List.nodup_cons, List.forall_mem_cons]
    constructor
    · rintro ⟨hid, hnodup, hrest⟩
      refine ⟨⟨?_, hnodup⟩, hid, ?_⟩
      · -- An id that comes twice has been seen when it comes again.
        intro hm
        obtain ⟨p, hp, hpid⟩ := List.mem_map.mp hm
        exact (hrest p hp).1 (hpid ▸ List.mem_cons_self)
      · intro p hp
        exact ⟨fun hm => (hrest p hp).1 (List.mem_cons_of_mem _ hm), (hrest p hp).2⟩
    · rintro ⟨⟨hfresh, hnodup⟩, hid, hrest⟩
      refine ⟨hid, hnodup, ?_⟩
      intro p hp
      refine ⟨?_, (hrest p hp).2⟩
      intro hm
      rcases List.mem_cons.mp hm with hpid | hm
      · exact hfresh (List.mem_map.mpr ⟨p, hp, hpid⟩)
      · exact (hrest p hp).1 hm

theorem Admits.writable [Build] {op : Operator} {inputs outputs : List TensorId} {inferred : Inferred}
    (h : g.Admits op inputs outputs inferred) : g.Writable outputs := by
  obtain ⟨hnodup, hall⟩ := checkOutputs_eq_ok_iff.mp h.declared
  have hfst : (outputs.zip inferred.outputs).map Prod.fst = outputs :=
    List.map_fst_zip (Nat.le_of_eq h.length)
  rw [hfst] at hnodup
  refine ⟨hnodup, ?_⟩
  intro t ht
  rw [← hfst] at ht
  obtain ⟨p, hp, rfl⟩ := List.mem_map.mp ht
  obtain ⟨_, x, hx, hnone, _⟩ := hall p hp
  exact ⟨x, hx, hnone⟩

theorem Admits.addOpInto [Build] {op : Operator} {inputs outputs : List TensorId} {inferred : Inferred}
    (h : g.Admits op inputs outputs inferred) (guid : Nat) :
    g.addOpInto guid op inputs outputs =
      match g.closesCycle inputs outputs with
      | some remaining => .error (.error (.cycle remaining))
      | none => .ok (g.register guid inferred.op inputs outputs) := by
  unfold Graph.addOpInto
  rw [h.infer]
  change (if outputs.length ≠ inferred.outputs.length then _ else _) = _
  rw [if_neg (not_not.mpr h.length), h.declared]
  rfl

theorem exists_admits_of_addOpInto [Build] {guid : Nat} {op : Operator} {inputs outputs : List TensorId}
    {e : Extended OpId} (h : g.addOpInto guid op inputs outputs = .ok e) :
    ∃ inferred, g.Admits op inputs outputs inferred := by
  obtain ⟨inferred, hinfer, h⟩ := bind_eq_ok_iff.mp h
  change (if outputs.length ≠ inferred.outputs.length then _ else _) = _ at h
  by_cases hlen : outputs.length = inferred.outputs.length
  · rw [if_neg (not_not.mpr hlen)] at h
    obtain ⟨_, hdeclared, _⟩ := bind_eq_ok_iff.mp h
    exact ⟨inferred, hinfer, hlen, hdeclared⟩
  · rw [if_pos hlen] at h
    cases h

/-- What an operator with declared outputs has passed once it is there. -/
theorem addOpInto_eq_ok_iff [Build] {guid : Nat} {op : Operator} {inputs outputs : List TensorId}
    {e : Extended OpId} :
    g.addOpInto guid op inputs outputs = .ok e ↔
      ∃ inferred, g.Admits op inputs outputs inferred ∧ g.closesCycle inputs outputs = none ∧
        e = g.register guid inferred.op inputs outputs := by
  constructor
  · intro hadd
    obtain ⟨inferred, hadmits⟩ := exists_admits_of_addOpInto hadd
    rw [hadmits.addOpInto guid] at hadd
    cases hcycle : g.closesCycle inputs outputs with
    | some remaining =>
      rw [hcycle] at hadd
      cases hadd
    | none =>
      rw [hcycle] at hadd
      exact ⟨inferred, hadmits, rfl, (Except.ok.inj hadd).symm⟩
  · rintro ⟨inferred, hadmits, hcycle, rfl⟩
    rw [hadmits.addOpInto guid, hcycle]

theorem addConstant_eq_ok_iff {guid : Nat} {type : TensorType} {payload : Payload}
    {e : Extended TensorId} :
    g.addConstant guid type payload = .ok e ↔
      (payload.length = type.size ∧ payload.dtype = type.dtype) ∧
        e = g.addTensor guid type (some payload) := by
  unfold addConstant
  by_cases hfits : payload.length = type.size ∧ payload.dtype = type.dtype
  · simp [hfits, eq_comm]
  · simp [hfits]

theorem addOp_eq_ok_iff [Build] {guid : Nat} {op : Operator} {inputs : List TensorId}
    {e : Extended OpId} :
    g.addOp guid op inputs = .ok e ↔
      ∃ inferred, g.infer op inputs = .ok inferred ∧
        e = (g.addTensors guid inferred.outputs).graph.register
          (g.addTensors guid inferred.outputs).nextGuid inferred.op inputs
          (g.addTensors guid inferred.outputs).id := by
  unfold addOp
  rw [bind_eq_ok_iff]
  constructor
  · rintro ⟨inferred, hinfer, hregister⟩
    exact ⟨inferred, hinfer, (Except.ok.inj hregister).symm⟩
  · rintro ⟨inferred, hinfer, rfl⟩
    exact ⟨inferred, hinfer, rfl⟩

theorem step_addOpInto [Build] (guid : Nat) (op : Operator) (inputs outputs : List TensorId) :
    g.Step (g.settle guid (g.addOpInto guid op inputs outputs)).1 := by
  cases hadd : g.addOpInto guid op inputs outputs with
  | error e => exact .refused
  | ok e =>
    obtain ⟨inferred, hadmits, hcycle, rfl⟩ := addOpInto_eq_ok_iff.mp hadd
    exact .declared guid op inputs outputs inferred hadmits hcycle

theorem step_addConstant [Build] (guid : Nat) (type : TensorType) (payload : Payload) :
    g.Step (g.settle guid (g.addConstant guid type payload)).1 := by
  cases hadd : g.addConstant guid type payload with
  | error e => exact .refused
  | ok e =>
    obtain ⟨hfits, rfl⟩ := addConstant_eq_ok_iff.mp hadd
    exact .grown guid type (some payload) (by simpa using hfits)

theorem step_addOp [Build] (guid : Nat) (op : Operator) (inputs : List TensorId) :
    g.Step (g.settle guid (g.addOp guid op inputs)).1 := by
  cases hadd : g.addOp guid op inputs with
  | error e => exact .refused
  | ok e =>
    obtain ⟨inferred, hinfer, rfl⟩ := addOp_eq_ok_iff.mp hadd
    exact .made guid op inputs inferred hinfer

/-- What the five calls have in common, so that an invariant is proved of a step and not of each. -/
theorem step_after [Build] (guid : Nat) (call : Call) : g.Step (g.after guid call).1 := by
  cases call with
  | tensor type => exact .grown guid type none (by simp)
  | constant type payload => exact step_addConstant guid type payload
  | op definition inputs => exact step_addOp guid definition inputs
  | opInto definition inputs outputs => exact step_addOpInto guid definition inputs outputs
  | host host => exact .hosted host

/-- A property of the empty graph that every step keeps holds of every reachable graph. -/
theorem Reachable.invariant [Build] {p : Graph → Prop} (hempty : p .empty)
    (hstep : ∀ {g g' : Graph}, p g → g.Step g' → p g') (hg : g.Reachable) : p g := by
  induction hg with
  | empty => exact hempty
  | call guid call _ ih => exact hstep ih (step_after guid call)

theorem Linked.step [Build] (hg : g.Linked) (h : g.Step g') : g'.Linked := by
  cases h with
  | refused => exact hg
  | hosted host => exact hg.withHost host
  | grown guid type payload hfits => exact hg.addTensor guid type payload hfits
  | made guid op inputs inferred hinfer =>
    refine (hg.addTensors guid inferred.outputs).register ?_ (writable_addTensors g guid _)
    intro t ht
    -- Inference saw the graph before its outputs were made.
    have hlt := lt_of_infer hinfer t ht
    rw [addTensors_eq]
    simp only [List.length_append]
    omega
  | declared guid op inputs outputs inferred hadmits _ =>
    exact hg.register (lt_of_infer hadmits.infer) hadmits.writable

theorem Reachable.linked [Build] (hg : g.Reachable) : g.Linked :=
  hg.invariant linked_empty Linked.step

/-- A graph whose first operator reads what the second one writes. A last call fails. -/
def lateProducer : Graph :=
  (ofCalls [
    .tensor ⟨[4], .float32⟩,
    .tensor ⟨[4], .float32⟩,
    .op (.unary ⟨.relu⟩) [⟨1⟩],
    .opInto (.elementwise ⟨.add, .none⟩) [⟨0⟩, ⟨0⟩] [⟨1⟩],
    .op (.unary ⟨.relu⟩) [⟨9⟩]]).1

/-- The three places that hold an edge agree in every reachable graph. -/
theorem Reachable.links_agree [Build] (hg : g.Reachable) :
    (∀ (i : Nat) (x : Tensor), g.tensors[i]? = some x → x.id = ⟨i⟩) ∧
    (∀ o n, g.node? o = some n →
      (∀ t ∈ n.inputs, t.index < g.tensors.length) ∧
      (∀ t ∈ n.outputs, t.index < g.tensors.length) ∧ n.outputs.Nodup) ∧
    (∀ t x, g.tensor? t = some x → ∀ o, x.producer = some o ↔ g.Writes o t) ∧
    (∀ a b t, g.Writes a t → g.Writes b t → a = b) ∧
    (∀ t x, g.tensor? t = some x → x.consumers.Nodup ∧
      x.consumers.Pairwise (fun a b => a.index < b.index) ∧
      ∀ o, o ∈ x.consumers ↔ g.Reads o t) ∧
    (∀ t x p, g.tensor? t = some x → x.payload = some p →
      p.length = x.type.size ∧ p.dtype = x.type.dtype) := by
  have hlinked : g.Linked := hg.linked
  refine ⟨?_, ?_, ?_, ?_, ?_, ?_⟩
  · intro i x hx
    exact hlinked.id_eq (t := ⟨i⟩) hx
  · intro o n hn
    refine ⟨fun t ht => hlinked.reads_lt ⟨n, hn, ht⟩, ?_, hlinked.outputs_nodup hn⟩
    intro t ht
    exact hlinked.writes_lt ⟨n, hn, ht⟩
  · intro t x hx o
    rw [← hlinked.producer_iff, producer?, hx, Option.bind_some]
  · intro a b t ha hb
    exact hlinked.writer_unique ha hb
  · intro t x hx
    have hsorted := hlinked.consumers_sorted hx
    refine ⟨hsorted.imp ?_, hsorted, fun o => hlinked.mem_consumers hx⟩
    rintro a b hab rfl
    exact Nat.lt_irrefl _ hab
  · intro t x p hx hp
    exact hlinked.payload_fits hx hp

/-- An operator that reads a tensor twice is one of its consumers once. -/
theorem links_agree_lateProducer :
    lateProducer.Reachable ∧
      (∃ x, lateProducer.tensor? ⟨0⟩ = some x ∧ x.consumers = [⟨1⟩] ∧
        ∀ o, o ∈ x.consumers ↔ lateProducer.Reads o ⟨0⟩) ∧
      ∃ x, lateProducer.tensor? ⟨1⟩ = some x ∧ x.producer = some ⟨1⟩ ∧ x.consumers = [⟨0⟩] ∧
        ∀ o, x.producer = some o ↔ lateProducer.Writes o ⟨1⟩ := by
  have hg : lateProducer.Reachable := reachable_ofCalls _
  obtain ⟨_, _, hproducer, _, hconsumers, _⟩ := hg.links_agree
  have h0 : lateProducer.tensor? ⟨0⟩ =
      some ⟨⟨0⟩, 1, ⟨[4], .float32⟩, none, none, [⟨1⟩]⟩ := by cbv
  have h1 : lateProducer.tensor? ⟨1⟩ =
      some ⟨⟨1⟩, 2, ⟨[4], .float32⟩, none, some ⟨1⟩, [⟨0⟩]⟩ := by cbv
  refine ⟨hg, ⟨_, h0, rfl, (hconsumers _ _ h0).2.2⟩, ⟨_, h1, rfl, rfl, hproducer _ _ h1⟩⟩

end Graph

end DataflowCost
