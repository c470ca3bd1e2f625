import DataflowCost.Graph.Inquiry
import DataflowCost.Proofs.Inferred

/-! What calls make of the host. A resolution may ask for any inputs one after the other, but none of those that
families make asks more than once, or for any but the second input; hosts that agree on that tensor lead to the
same graph or to the same failure. -/
namespace DataflowCost

open scoped ExactArithmetic

namespace Inquiry

variable {ε ε' α β : Type} {i : Inquiry ε α} {r : Except ε α} {asked : List Tensor}

/-- A computation has an outcome and asks for some tensors, whatever it has asked for before. -/
def Asks (i : Inquiry ε α) (r : Except ε α) (asked : List Tensor) : Prop :=
  ∀ before, i.run before = match r with
    | .ok a => .ok a (before ++ asked)
    | .error e => .error e (before ++ asked)

theorem asks_settled (r : Except ε α) : (settled r).Asks r [] := by
  intro before
  rw [List.append_nil]
  cases r with
  | ok a => rfl
  | error e => rfl

theorem asks_ask (host : Host) (t : Tensor) :
    (ask host t : Inquiry ε (Except String (Option Payload))).Asks (.ok (host t)) [t] := by
  intro before
  rfl

/-- The questions of a step that succeeds come before those of the steps behind it. -/
theorem Asks.append {f : α → Inquiry ε β} {r : Except ε β} {a : α} {asked' : List Tensor}
    (hi : i.Asks (.ok a) asked) (hf : (f a).Asks r asked') : (i >>= f).Asks r (asked ++ asked') := by
  intro before
  have hrun := hi before
  rw [EStateM.run_bind, hrun, ← List.append_assoc]
  exact hf (before ++ asked)

/-- A step that succeeds without asking leaves all questions to the steps behind it. -/
theorem Asks.of_ok {f : α → Inquiry ε β} {r : Except ε β} {a : α} (hi : i.Asks (.ok a) [])
    (hf : (f a).Asks r asked) : (i >>= f).Asks r asked :=
  hi.append hf

/-- A step that fails has asked all there is to ask. -/
theorem Asks.of_error {f : α → Inquiry ε β} {e : ε} (hi : i.Asks (.error e) asked) :
    (i >>= f).Asks (.error e) asked := by
  intro before
  have hrun := hi before
  rw [EStateM.run_bind, hrun]

/-- A step that has asked for something is followed by steps that ask for nothing. -/
theorem Asks.bind {f : α → Inquiry ε β} {k : α → Except ε β} (hi : i.Asks r asked)
    (hf : ∀ a, r = .ok a → (f a).Asks (k a) []) : (i >>= f).Asks (r >>= k) asked := by
  cases r with
  | ok a => exact List.append_nil asked ▸ hi.append (hf a rfl)
  | error e => exact hi.of_error

theorem Asks.adaptExcept (hi : i.Asks r asked) (f : ε → ε') :
    Asks (EStateM.adaptExcept f i) (r.mapError f) asked := by
  intro before
  have hrun : i before = _ := hi before
  simp only [EStateM.run, EStateM.adaptExcept, hrun]
  cases r with
  | ok a => rfl
  | error e => rfl

end Inquiry

open Inquiry

theorem Host.ints_congr {host host' : Host} {t : Tensor} (h : host t = host' t) :
    host.ints t = host'.ints t := by
  unfold Host.ints
  rw [h]

theorem Host.reals_congr {host host' : Host} {t : Tensor} (h : host t = host' t) :
    host.reals t = host'.reals t := by
  unfold Host.reals
  rw [h]

namespace Preparation

variable {ρ δ ε : Type} {inputs : List Tensor}

/-- The tensors that a resolution asks a host for, first to last: questions end with the first input that is
not there or whose values the host does not give. -/
def asked (host : Host) (inputs : List Tensor) : Preparation Float32 δ → List Tensor
  | done _ => []
  | askInts i next => match inputs[i]? with
    | none => []
    | some t => t :: match host.ints t with
      | .ok values => (next t.guid values).asked host inputs
      | .error _ => []
  | askReals i next => match inputs[i]? with
    | none => []
    | some t => t :: match host.reals t with
      | .ok values => (next t.guid values).asked host inputs
      | .error _ => []

/-- A resolution depends on the host by the tensors it asks for. -/
theorem run_congr {p : Preparation Float32 δ} {host host' : Host}
    (h : ∀ t ∈ p.asked host inputs, host t = host' t) :
    p.run host inputs = p.run host' inputs := by
  induction p with
  | done outcome => rfl
  | askInts i next ih =>
    cases ht : inputs[i]? with
    | none => simp only [run, ht]; rfl
    | some t =>
      simp only [asked, ht, List.forall_mem_cons] at h
      simp only [run, ht]
      change (do (next t.guid (← host.ints t)).run host inputs) =
        do (next t.guid (← host'.ints t)).run host' inputs
      rw [← Host.ints_congr h.1]
      cases hvalues : host.ints t with
      | error refusal => rfl
      | ok values => exact ih t.guid values (by simpa only [hvalues] using h.2)
  | askReals i next ih =>
    cases ht : inputs[i]? with
    | none => simp only [run, ht]; rfl
    | some t =>
      simp only [asked, ht, List.forall_mem_cons] at h
      simp only [run, ht]
      change (do (next t.guid (← host.reals t)).run host inputs) =
        do (next t.guid (← host'.reals t)).run host' inputs
      rw [← Host.reals_congr h.1]
      cases hvalues : host.reals t with
      | error refusal => rfl
      | ok values => exact ih t.guid values (by simpa only [hvalues] using h.2)

/-- To run a resolution is to ask for those tensors and for no others. -/
theorem inquire_asks (p : Preparation Float32 δ) (inputs : List Tensor) (host : Host) :
    (p.inquire host inputs).Asks (p.run host inputs) (p.asked host inputs) := by
  induction p with
  | done outcome => exact asks_settled outcome
  | askInts i next ih =>
    cases ht : inputs[i]? with
    | none =>
      simp only [inquire, run, asked, ht]
      exact (asks_settled (.error Refusal.fault)).of_error
    | some t =>
      simp only [inquire, run, asked, ht]
      refine (asks_settled (.ok t)).of_ok ?_
      change Asks _ _ ([t] ++ _)
      refine (asks_ask host t).append ?_
      change Asks (do let values ← settled (host.ints t); _) (do let values ← host.ints t; _) _
      cases host.ints t with
      | error refusal => exact (asks_settled (.error refusal)).of_error
      | ok values => exact (asks_settled (.ok values)).of_ok (ih t.guid values)
  | askReals i next ih =>
    cases ht : inputs[i]? with
    | none =>
      simp only [inquire, run, asked, ht]
      exact (asks_settled (.error Refusal.fault)).of_error
    | some t =>
      simp only [inquire, run, asked, ht]
      refine (asks_settled (.ok t)).of_ok ?_
      change Asks _ _ ([t] ++ _)
      refine (asks_ask host t).append ?_
      change Asks (do let values ← settled (host.reals t); _) (do let values ← host.reals t; _) _
      cases host.reals t with
      | error refusal => exact (asks_settled (.error refusal)).of_error
      | ok values => exact (asks_settled (.ok values)).of_ok (ih t.guid values)

/-- The inputs that a resolution asks for, whatever it is told: none, or one and no other behind it. -/
inductive Reads : Preparation ρ δ → Option Nat → Prop
  | done (outcome : Inference δ) : Reads (.done outcome) none
  | ints {i : Nat} {next : Nat → Option (List Int) → Preparation ρ δ}
      (h : ∀ guid values, Reads (next guid values) none) : Reads (.askInts i next) (some i)
  | reals {i : Nat} {next : Nat → Option (List ρ) → Preparation ρ δ}
      (h : ∀ guid values, Reads (next guid values) none) : Reads (.askReals i next) (some i)

namespace Reads

variable {p : Preparation ρ δ} {read : Option Nat}

theorem awaitInts {i : Nat} (resume : Nat → Option (List Int) → Inference δ) :
    (Preparation.awaitInts i resume : Preparation ρ δ).Reads (some i) :=
  .ints fun _ _ => .done _

theorem awaitReals {i : Nat} (resume : Nat → Option (List ρ) → Inference δ) :
    (Preparation.awaitReals i resume).Reads (some i) :=
  .reals fun _ _ => .done _

theorem map (h : p.Reads read) (f : δ → ε) : (p.map f).Reads read := by
  induction h with
  | done outcome => exact .done _
  | ints _ ih => exact .ints ih
  | reals _ ih => exact .reals ih

theorem awaited_eq (h : p.Reads read) : p.awaited = read := by
  cases h <;> rfl

/-- What is asked for does not depend on the host. -/
theorem asked_eq {p : Preparation Float32 δ} (h : p.Reads read) (host : Host) :
    p.asked host inputs = (read.bind fun i => inputs[i]?).toList := by
  have hnone {p : Preparation Float32 δ} (h : p.Reads none) : p.asked host inputs = [] := by
    cases h
    rfl
  cases h with
  | done outcome => rfl
  | @ints i next h =>
    simp only [asked, Option.bind_some]
    cases inputs[i]? with
    | none => rfl
    | some t =>
      refine congrArg (t :: ·) ?_
      cases host.ints t with
      | error refusal => rfl
      | ok values => exact hnone (h t.guid values)
  | @reals i next h =>
    simp only [asked, Option.bind_some]
    cases inputs[i]? with
    | none => rfl
    | some t =>
      refine congrArg (t :: ·) ?_
      cases host.reals t with
      | error refusal => rfl
      | ok values => exact hnone (h t.guid values)

end Reads

/-- A check that fails spares the question. -/
theorem reads_after {σ : Type} {check : Inference σ} {next : σ → Preparation ρ δ} {i : Nat}
    (h : ∀ s, (next s).Reads (some i)) :
    (after check next).Reads none ∨ (after check next).Reads (some i) := by
  cases check with
  | ok s => exact .inr (h s)
  | error refusal => exact .inl (.done _)

end Preparation

open Preparation

theorem Gather.reads_prepare [Build] (d : Gather) (inputs : List TensorType) :
    (d.prepare inputs).Reads none ∨ (d.prepare inputs).Reads (some 1) :=
  reads_after fun _ => .awaitInts _

theorem Resize.reads_prepare {ρ : Type} [ScaleFactor ρ] (d : Resize ρ) (inputs : List TensorType) :
    (d.prepare inputs).Reads none ∨ (d.prepare inputs).Reads (some 1) := by
  refine reads_after fun (s, axes) => ?_
  cases d.target with
  | sizes => exact .awaitInts _
  | scales => exact .awaitReals _

/-- Only two families ask for values, once, and both for those of the second input. -/
theorem Operator.reads_prepare [Build] (op : Operator) (inputs : List TensorType) :
    (op.prepare inputs).Reads none ∨
      (op.prepare inputs).Reads (some 1) ∧ ((∃ d, op = .gather d) ∨ ∃ d, op = .resize d) := by
  cases op with
  | gather d =>
    exact (d.reads_prepare inputs).imp (·.map _) fun h => ⟨h.map _, .inl ⟨d, rfl⟩⟩
  | resize d =>
    exact (d.reads_prepare inputs).imp (·.map _) fun h => ⟨h.map _, .inr ⟨d, rfl⟩⟩
  | _ => exact .inl (.done _)

/-- The same with another host in the graph. -/
def Extended.withHost {ι : Type} (e : Extended ι) (host : Host) : Extended ι :=
  { e with graph := e.graph.withHost host }

namespace Graph

variable (g : Graph) (guid : Nat) (op : Operator) (inputs outputs : List TensorId)
  {host host' : Host}

/-- The tensors that the host is asked for when an operator is inferred. -/
def asked [Build] : List Tensor :=
  match g.operands op inputs with
  | .ok tensors => (op.prepare (tensors.map Tensor.type)).asked g.host tensors
  | .error _ => []

theorem inferAsking_asks [Build] :
    (g.inferAsking op inputs).Asks (g.infer op inputs) (g.asked op inputs) := by
  unfold inferAsking infer asked
  cases g.operands op inputs with
  | error e => exact (asks_settled (.error e)).bind fun _ h => by cases h
  | ok tensors =>
    apply (asks_settled (.ok tensors)).of_ok
    apply ((Preparation.inquire_asks _ tensors g.host).adaptExcept _).bind
    intro prepared _
    apply (asks_settled _).bind
    intro shapes _
    apply (asks_settled _).bind
    intro dtypes _
    dsimp only
    split
    · exact asks_settled (.ok _)
    · exact asks_settled (.error _)

theorem addOpAsking_asks [Build] :
    (g.addOpAsking guid op inputs).Asks (g.addOp guid op inputs) (g.asked op inputs) :=
  (g.inferAsking_asks op inputs).bind fun _ _ => asks_settled (.ok _)

theorem addOpIntoAsking_asks [Build] : (g.addOpIntoAsking guid op inputs outputs).Asks
    (g.addOpInto guid op inputs outputs) (g.asked op inputs) := by
  apply (g.inferAsking_asks op inputs).bind
  intro inferred _
  dsimp only
  split
  · exact asks_settled (.error _)
  · apply (asks_settled _).bind
    intro _ _
    cases g.closesCycle inputs outputs with
    | some remaining => exact asks_settled (.error _)
    | none => exact asks_settled (.ok _)

variable {g op inputs}

/-- The host has no say in what it is asked for. -/
theorem asked_withHost [Build] (host : Host) : (g.withHost host).asked op inputs = g.asked op inputs := by
  have hoperands : (g.withHost host).operands op inputs = g.operands op inputs := rfl
  unfold asked
  rw [hoperands]
  cases g.operands op inputs with
  | error e => rfl
  | ok tensors =>
    obtain hreads | ⟨hreads, _⟩ := op.reads_prepare (tensors.map Tensor.type)
    · exact (hreads.asked_eq _).trans (hreads.asked_eq _).symm
    · exact (hreads.asked_eq _).trans (hreads.asked_eq _).symm

theorem infer_eq_of_asked [Build] (h : ∀ t ∈ g.asked op inputs, host t = host' t) :
    (g.withHost host).infer op inputs = (g.withHost host').infer op inputs := by
  have hoperands (known : Host) : (g.withHost known).operands op inputs = g.operands op inputs := rfl
  rw [← asked_withHost host] at h
  unfold infer
  unfold asked at h
  rw [hoperands] at h
  rw [hoperands, hoperands]
  cases hg : g.operands op inputs with
  | error e => rfl
  | ok tensors =>
    rw [hg] at h
    have hrun : (op.prepare (tensors.map Tensor.type)).run host tensors = _ := Preparation.run_congr h
    dsimp only [bind, Except.bind]
    change (do let prepared ← Inference.within _ _ (Preparation.run _ host tensors); _) = _
    rw [hrun]
    rfl

theorem downstream_withHost (host : Host) (rest : List OpId) (frontier : List TensorId) :
    (g.withHost host).downstream rest frontier = g.downstream rest frontier := by
  induction rest, frontier using downstream.induct g with
  | case1 rest frontier layers hempty =>
    rw [downstream.eq_def (g.withHost host), downstream.eq_def g]
    exact (if_pos hempty).trans (if_pos hempty).symm
  | case2 rest frontier layers hempty ih =>
    rw [downstream.eq_def (g.withHost host), downstream.eq_def g]
    exact (if_neg hempty).trans ((congrArg (layers.1 ++ ·) ih).trans (if_neg hempty).symm)

theorem checkOutputs_withHost (host : Host) (kind : Kind) (seen : List TensorId)
    (declared : List (TensorId × TensorType)) :
    (g.withHost host).checkOutputs kind seen declared = g.checkOutputs kind seen declared := by
  induction declared generalizing seen with
  | nil => rfl
  | cons p declared ih => simp only [checkOutputs, ih]; rfl

theorem closesCycle_withHost (host : Host) :
    (g.withHost host).closesCycle inputs outputs = g.closesCycle inputs outputs := by
  unfold closesCycle
  rw [downstream_withHost]
  rfl

/-- Where inference has one result, so has the call, up to the host that the graph holds. -/
theorem addOp_withHost [Build] (hinfer : (g.withHost host').infer op inputs =
    (g.withHost host).infer op inputs) :
    (g.withHost host').addOp guid op inputs =
      (·.withHost host') <$> (g.withHost host).addOp guid op inputs := by
  unfold addOp
  rw [hinfer]
  cases (g.withHost host).infer op inputs with
  | error e => rfl
  | ok inferred =>
    have hmade (known : Host) : (g.withHost known).addTensors guid inferred.outputs =
        (g.addTensors guid inferred.outputs).withHost known := by
      rw [addTensors_eq, addTensors_eq]
      rfl
    change Except.ok _ = Except.ok _
    rw [hmade, hmade]
    rfl

theorem addOpInto_withHost [Build] (hinfer : (g.withHost host').infer op inputs =
    (g.withHost host).infer op inputs) :
    (g.withHost host').addOpInto guid op inputs outputs =
      (·.withHost host') <$> (g.withHost host).addOpInto guid op inputs outputs := by
  unfold addOpInto
  rw [hinfer]
  simp only [checkOutputs_withHost, closesCycle_withHost]
  cases (g.withHost host).infer op inputs with
  | error e => rfl
  | ok inferred =>
    dsimp only [bind, Except.bind]
    split
    · rfl
    · cases g.checkOutputs inferred.op.kind [] (outputs.zip inferred.outputs) with
      | error e => rfl
      | ok _ =>
        cases g.closesCycle inputs outputs with
        | some remaining => rfl
        | none => rfl

theorem exists_id_of_getElem? {tensors : List Tensor} (h : inputs.mapM g.tensor? = some tensors)
    {i : Nat} {t : Tensor} (ht : tensors[i]? = some t) :
    ∃ id, inputs[i]? = some id ∧ g.tensor? id = some t := by
  induction inputs generalizing tensors i with
  | nil =>
    obtain rfl : [] = tensors := Option.some.inj h
    cases ht
  | cons id inputs ih =>
    obtain ⟨x, rest, hx, hrest, rfl⟩ := mapM_eq_some_cons h
    cases i with
    | zero => exact ⟨id, rfl, hx.trans ht⟩
    | succ i => exact ih hrest ht

/-- A call asks for its second input, if it asks at all, and that is the tensor it consults. -/
theorem of_mem_asked [Build] {t : Tensor} (ht : t ∈ g.asked op inputs) :
    ∃ id, g.consulted op inputs = some id ∧ inputs[1]? = some id ∧ g.tensor id = .ok t ∧
      ((∃ d, op = .gather d) ∨ ∃ d, op = .resize d) := by
  unfold asked at ht
  cases hg : g.operands op inputs with
  | error e =>
    rw [hg] at ht
    cases ht
  | ok tensors =>
    rw [hg] at ht
    obtain hreads | ⟨hreads, hop⟩ := op.reads_prepare (tensors.map Tensor.type)
    · dsimp only at ht
      rw [hreads.asked_eq] at ht
      cases ht
    · dsimp only at ht
      rw [hreads.asked_eq, Option.mem_toList, Option.bind_some] at ht
      obtain ⟨id, hid, htensor⟩ := exists_id_of_getElem? (operands_eq_ok hg).1 ht
      refine ⟨id, ?_, hid, tensor_eq_ok_iff.mpr htensor, hop⟩
      unfold consulted
      rw [hg]
      exact (congrArg (Option.bind · _) hreads.awaited_eq).trans hid

theorem length_asked_le [Build] : (g.asked op inputs).length ≤ 1 := by
  unfold asked
  cases g.operands op inputs with
  | error e => exact Nat.zero_le 1
  | ok tensors =>
    obtain hreads | ⟨hreads, _⟩ := op.reads_prepare (tensors.map Tensor.type)
    · exact (congrArg List.length (hreads.asked_eq g.host)).trans_le Option.length_toList_le
    · exact (congrArg List.length (hreads.asked_eq g.host)).trans_le Option.length_toList_le

/-- What a call makes of the host. Hosts that agree on the second input lead to the same failure, or to
the same graph apart from the host. Whatever the host, the call asks for the same tensors: for the second
input at most, and at most once. Operators of families other than two ask for nothing, and any hosts
lead to the same. -/
theorem host_independent [Build] (g : Graph) (guid : Nat) (op : Operator)
    (inputs outputs : List TensorId) :
    (∀ host host' : Host,
      (∀ id t, inputs[1]? = some id → g.tensor id = .ok t → host t = host' t) →
      (g.withHost host').addOp guid op inputs =
          (·.withHost host') <$> (g.withHost host).addOp guid op inputs ∧
        (g.withHost host').addOpInto guid op inputs outputs =
          (·.withHost host') <$> (g.withHost host).addOpInto guid op inputs outputs) ∧
    (∃ asked : List Tensor, asked.length ≤ 1 ∧
      (∀ t ∈ asked, ∃ id, g.consulted op inputs = some id ∧ inputs[1]? = some id ∧
        g.tensor id = .ok t) ∧
      (∀ host : Host,
        ((g.withHost host).addOpAsking guid op inputs).Asks
            ((g.withHost host).addOp guid op inputs) asked ∧
          ((g.withHost host).addOpIntoAsking guid op inputs outputs).Asks
            ((g.withHost host).addOpInto guid op inputs outputs) asked) ∧
      ((∀ d, op ≠ .gather d) → (∀ d, op ≠ .resize d) → asked = [])) ∧
    ((∀ d, op ≠ .gather d) → (∀ d, op ≠ .resize d) → ∀ host host' : Host,
      (g.withHost host').addOp guid op inputs =
          (·.withHost host') <$> (g.withHost host).addOp guid op inputs ∧
        (g.withHost host').addOpInto guid op inputs outputs =
          (·.withHost host') <$> (g.withHost host).addOpInto guid op inputs outputs) := by
  have hsame (host host' : Host) (h : ∀ t ∈ g.asked op inputs, host' t = host t) :=
    And.intro (addOp_withHost guid (infer_eq_of_asked h))
      (addOpInto_withHost guid outputs (infer_eq_of_asked h))
  have hnone (hgather : ∀ d, op ≠ .gather d) (hresize : ∀ d, op ≠ .resize d) :
      g.asked op inputs = [] := by
    apply List.eq_nil_iff_forall_not_mem.mpr
    intro t ht
    obtain ⟨_, _, _, _, ⟨d, hd⟩ | ⟨d, hd⟩⟩ := of_mem_asked ht
    · exact hgather d hd
    · exact hresize d hd
  refine ⟨fun host host' hagree => hsame host host' fun t ht => ?_, ⟨g.asked op inputs,
    length_asked_le, fun t ht => ?_, fun host => ⟨?_, ?_⟩, hnone⟩, ?_⟩
  · obtain ⟨id, _, hid, htensor, _⟩ := of_mem_asked ht
    exact (hagree id t hid htensor).symm
  · obtain ⟨id, hconsulted, hid, htensor, _⟩ := of_mem_asked ht
    exact ⟨id, hconsulted, hid, htensor⟩
  · exact asked_withHost host ▸ (g.withHost host).addOpAsking_asks guid op inputs
  · exact asked_withHost host ▸ (g.withHost host).addOpIntoAsking_asks guid op inputs outputs
  · intro hgather hresize host host'
    apply hsame
    rw [hnone hgather hresize]
    exact fun t ht => absurd ht List.not_mem_nil

/-- Rows to select from, and the indices that select three of them. -/
def selectable : Graph := (ofCalls [.tensor ⟨[4, 2], .float32⟩, .tensor ⟨[3], .int64⟩]).1

/-- A host that knows indices, and says the same of every other tensor. -/
def knowing (indices : List Int) (others : Except String (Option Payload)) : Host := fun t =>
  if t.guid = 2 then .ok (some (.ints64 indices)) else others

/-- Two hosts that know the indices are asked for them once, and what else they say is not heard. A row
beyond the last is turned down under both. -/
theorem host_independent_selectable :
    (∀ id t, ([⟨0⟩, ⟨1⟩] : List TensorId)[1]? = some id → selectable.tensor id = .ok t →
      knowing [0, 1, 3] (.ok none) t = knowing [0, 1, 3] (.error "unknown") t) ∧
    (∃ e, (selectable.withHost (knowing [0, 1, 3] (.ok none))).addOp 3 (.gather ⟨0, 0⟩)
        [⟨0⟩, ⟨1⟩] = .ok e ∧
      (selectable.withHost (knowing [0, 1, 3] (.error "unknown"))).addOp 3 (.gather ⟨0, 0⟩)
        [⟨0⟩, ⟨1⟩] = .ok (e.withHost (knowing [0, 1, 3] (.error "unknown")))) ∧
    (∃ asked : List Tensor, asked.length ≤ 1 ∧ asked.map Tensor.guid = [2] ∧
      ((selectable.withHost (knowing [0, 4] (.ok none))).addOpAsking 3 (.gather ⟨0, 0⟩)
        [⟨0⟩, ⟨1⟩]).run [] = .error (.error (.invalidOperator .gather
          [⟨[4, 2], .float32⟩, ⟨[3], .int64⟩] (.indexOutOfRange 4 0 4))) asked) ∧
    (selectable.withHost .resident).addOp 3 (.unary ⟨.relu⟩) [⟨0⟩] =
      (·.withHost .resident) <$>
        (selectable.withHost (knowing [] (.error "unknown"))).addOp 3 (.unary ⟨.relu⟩) [⟨0⟩] := by
  have hagree : ∀ id t, ([⟨0⟩, ⟨1⟩] : List TensorId)[1]? = some id →
      selectable.tensor id = .ok t →
      knowing [0, 1, 3] (.ok none) t = knowing [0, 1, 3] (.error "unknown") t := by
    intro id t hid ht
    obtain rfl := Option.some.inj hid
    obtain rfl := Except.ok.inj ht
    rfl
  obtain ⟨hsame, ⟨asked, hlength, _, hasks, _⟩, _⟩ :=
    selectable.host_independent 3 (.gather ⟨0, 0⟩) [⟨0⟩, ⟨1⟩] []
  obtain ⟨_, _, hany⟩ := selectable.host_independent 3 (.unary ⟨.relu⟩) [⟨0⟩] []
  obtain ⟨e, he⟩ : ∃ e, (selectable.withHost (knowing [0, 1, 3] (.ok none))).addOp 3
    (.gather ⟨0, 0⟩) [⟨0⟩, ⟨1⟩] = .ok e := ⟨_, rfl⟩
  have hother := (hsame _ _ hagree).1
  rw [he] at hother
  have hrun := (hasks (knowing [0, 4] (.ok none))).1 []
  -- The record of the run is what the theorem says of it.
  have hasked : asked.map Tensor.guid = [2] := by
    obtain ⟨_, rfl⟩ := EStateM.Result.error.inj hrun
    rfl
  exact ⟨hagree, ⟨e, he, hother⟩, ⟨asked, hlength, hasked, hrun⟩, (hany nofun nofun _ _).1⟩

end Graph

end DataflowCost
