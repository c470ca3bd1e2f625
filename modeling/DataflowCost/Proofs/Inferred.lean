import DataflowCost.Proofs.Growth
import DataflowCost.Proofs.Operators

/-! What registration leaves behind: the operator that a node stores infers, from the types of its
inputs, exactly the types of its outputs. No later step breaks this, so every query of a registered
operator has an answer. -/
namespace DataflowCost

open Inference
open scoped ExactArithmetic

/-- An operator that has been resolved against its inputs and infers its outputs. -/
structure Operator.Conforms [Build] (op : Operator) (inputs outputs : List TensorType) : Prop where
  accepts : op.arity.accepts inputs.length
  prepared : ∃ hole, op.Prepared inputs hole
  outShapes_eq : op.outShapes inputs = .ok (outputs.map TensorType.shape)
  outTypes_eq : op.outTypes inputs = .ok (outputs.map TensorType.dtype)

namespace Operator.Conforms

variable {op : Operator} {inputs outputs : List TensorType}

theorem length_outputs [Build] (h : op.Conforms inputs outputs) : outputs.length = op.arity.outputs := by
  obtain ⟨hole, hprepared⟩ := h.prepared
  rw [← (hprepared.outShapes_meets.answer h.outShapes_eq).1, List.length_map]

theorem estimable [Build] (h : op.Conforms inputs outputs) : op.Estimable ⟨inputs, outputs⟩ := by
  obtain ⟨hole, hprepared⟩ := h.prepared
  exact (hprepared.outShapes_meets.answer h.outShapes_eq).2 outputs rfl

end Operator.Conforms

/-- An operator as registration leaves it: it conforms, and it is what a definition resolves to. -/
structure Operator.Registered [Build] (op : Operator) (inputs outputs : List TensorType) : Prop
    extends op.Conforms inputs outputs where
  resolved : ∃ given : Operator, given.arity.accepts inputs.length ∧
    (given.prepare inputs).Yields op

theorem within_eq_ok_iff {α : Type} {kind : Kind} {inputs : List TensorType} {r : Inference α}
    {a : α} : r.within kind inputs = .ok a ↔ r = .ok a := by
  cases r with
  | ok b => simp only [Inference.within, Except.mapError, Except.ok.injEq]
  | error e => simp only [Inference.within, Except.mapError, reduceCtorEq]

theorem within_eq_error {α : Type} {kind : Kind} {inputs : List TensorType} {r : Inference α}
    {e : Failure} (h : r.within kind inputs = .error e) :
    ∃ refusal, r = .error refusal ∧ e = .ofRefusal kind inputs refusal := by
  cases r with
  | ok a => cases h
  | error refusal => exact ⟨refusal, rfl, (Except.error.inj h).symm⟩

theorem map_shape_zipWith {shapes : List Shape} {dtypes : List DType}
    (h : shapes.length = dtypes.length) :
    (shapes.zipWith TensorType.mk dtypes).map TensorType.shape = shapes := by
  apply List.ext_getElem
  · simp [h]
  · intro i _ _
    simp

theorem map_dtype_zipWith {shapes : List Shape} {dtypes : List DType}
    (h : shapes.length = dtypes.length) :
    (shapes.zipWith TensorType.mk dtypes).map TensorType.dtype = dtypes := by
  apply List.ext_getElem
  · simp [h]
  · intro i _ _
    simp

/-- Resolution and inference that succeed on an accepted number of inputs give one shape and one
element type for each output. -/
theorem Operator.conforms_of_infers [Build] {op op' : Operator} {host : Host} {tensors : List Tensor}
    {shapes : List Shape} {dtypes : List DType} (haccepts : op.arity.accepts tensors.length)
    (hprepare : (op.prepare (tensors.map Tensor.type)).run host tensors = .ok op')
    (hshapes : op'.outShapes (tensors.map Tensor.type) = .ok shapes)
    (hdtypes : op'.outTypes (tensors.map Tensor.type) = .ok dtypes) :
    shapes.length = op.arity.outputs ∧ dtypes.length = op.arity.outputs ∧
      op'.Conforms (tensors.map Tensor.type) (shapes.zipWith TensorType.mk dtypes) := by
  rw [← List.length_map Tensor.type] at haccepts
  obtain ⟨harity, hprepared⟩ := ((op.prepare_meets haccepts).run host).answer hprepare
  have hshapesLen := (hprepared.outShapes_meets.answer hshapes).1
  have hdtypesLen := hprepared.outTypes_meets.answer hdtypes
  have hlen : shapes.length = dtypes.length := hshapesLen.trans hdtypesLen.symm
  rw [harity] at hshapesLen hdtypesLen
  refine ⟨hshapesLen, hdtypesLen, harity ▸ haccepts, ⟨_, hprepared⟩, ?_, ?_⟩
  · rw [hshapes, map_shape_zipWith hlen]
  · rw [hdtypes, map_dtype_zipWith hlen]

namespace Graph

variable {g g' : Graph}

/-- The types of tensors, if all of them are there. -/
def typesOf? (g : Graph) (ids : List TensorId) : Option (List TensorType) :=
  ids.mapM fun t => (g.tensor? t).map Tensor.type

theorem typesOf?_cons {t : TensorId} {ids : List TensorId} {x : Tensor} {types : List TensorType}
    (hx : g.tensor? t = some x) (hrest : g.typesOf? ids = some types) :
    g.typesOf? (t :: ids) = some (x.type :: types) := by
  rw [typesOf?] at hrest ⊢
  rw [List.mapM_cons, hx, hrest]
  rfl

theorem exists_of_typesOf?_cons {t : TensorId} {ids : List TensorId} {types : List TensorType}
    (h : g.typesOf? (t :: ids) = some types) :
    ∃ x rest, g.tensor? t = some x ∧ g.typesOf? ids = some rest ∧ types = x.type :: rest := by
  obtain ⟨type, rest, htype, hrest, rfl⟩ := mapM_eq_some_cons h
  obtain ⟨x, hx, rfl⟩ := Option.map_eq_some_iff.mp htype
  exact ⟨x, rest, hx, hrest, rfl⟩

theorem exists_singleton_of_typesOf? {ids : List TensorId} {x : TensorType}
    (h : g.typesOf? ids = some [x]) : ∃ t y, ids = [t] ∧ g.tensor? t = some y ∧ y.type = x := by
  match ids, h with
  | [], h => cases h
  | t :: rest, h =>
    obtain ⟨y, types, hy, hrest, htypes⟩ := exists_of_typesOf?_cons h
    have hnil : types = [] := (List.cons.inj htypes).2.symm
    cases rest with
    | nil => exact ⟨t, y, rfl, hy, (List.cons.inj htypes).1.symm⟩
    | cons t' rest =>
      obtain ⟨_, _, _, _, hcons⟩ := exists_of_typesOf?_cons hrest
      rw [hnil] at hcons
      cases hcons

theorem typesOf?_of_mapM {ids : List TensorId} {tensors : List Tensor}
    (h : ids.mapM g.tensor? = some tensors) : g.typesOf? ids = some (tensors.map Tensor.type) := by
  induction ids generalizing tensors with
  | nil =>
    obtain rfl : [] = tensors := Option.some.inj h
    rfl
  | cons t ids ih =>
    obtain ⟨x, rest, hx, hrest, rfl⟩ := mapM_eq_some_cons h
    exact typesOf?_cons hx (ih hrest)

theorem typesOf?_of_zip {ids : List TensorId} {types : List TensorType}
    (hlen : ids.length = types.length)
    (h : ∀ p ∈ ids.zip types, ∃ x, g.tensor? p.1 = some x ∧ x.type = p.2) :
    g.typesOf? ids = some types := by
  induction ids generalizing types with
  | nil =>
    obtain rfl := List.length_eq_zero_iff.mp hlen.symm
    rfl
  | cons t ids ih =>
    obtain ⟨type, rest, rfl⟩ := List.exists_cons_of_length_eq_add_one hlen.symm
    obtain ⟨x, hx, rfl⟩ := h (t, type) List.mem_cons_self
    exact typesOf?_cons hx (ih (Nat.succ.inj hlen) fun p hp => h p (List.mem_cons_of_mem _ hp))

theorem Extends.typesOf? (h : g.Extends g') {ids : List TensorId} {types : List TensorType}
    (htypes : g.typesOf? ids = some types) : g'.typesOf? ids = some types := by
  induction ids generalizing types with
  | nil => exact htypes
  | cons t ids ih =>
    obtain ⟨x, rest, hx, hrest, rfl⟩ := exists_of_typesOf?_cons htypes
    obtain ⟨x', hx', hgrows⟩ := h.tensor_kept hx
    rw [← hgrows.type_eq]
    exact typesOf?_cons hx' (ih hrest)

theorem mapM_tensor?_of_mapM_tensor {ids : List TensorId} {tensors : List Tensor}
    (h : ids.mapM g.tensor = .ok tensors) : ids.mapM g.tensor? = some tensors := by
  induction ids generalizing tensors with
  | nil =>
    obtain rfl : [] = tensors := Except.ok.inj h
    rfl
  | cons t ids ih =>
    rw [List.mapM_cons] at h
    obtain ⟨x, hx, h⟩ := bind_eq_ok_iff.mp h
    obtain ⟨rest, hrest, h⟩ := bind_eq_ok_iff.mp h
    obtain rfl := Except.ok.inj h
    rw [List.mapM_cons, tensor_eq_ok_iff.mp hx, ih hrest]
    rfl

theorem operands_eq_ok {op : Operator} {inputs : List TensorId} {tensors : List Tensor}
    (h : g.operands op inputs = .ok tensors) :
    inputs.mapM g.tensor? = some tensors ∧ op.arity.accepts tensors.length := by
  obtain ⟨found, hfound, h⟩ := bind_eq_ok_iff.mp h
  by_cases haccepts : op.arity.accepts found.length = true
  · rw [if_pos haccepts] at h
    obtain rfl := Except.ok.inj h
    exact ⟨mapM_tensor?_of_mapM_tensor hfound, haccepts⟩
  · rw [if_neg haccepts] at h
    cases h

/-- The inputs of an operator are those of any other that takes as many. -/
theorem operands_congr {op op' : Operator} (harity : op.arity = op'.arity) {inputs : List TensorId}
    {tensors : List Tensor} (h : g.operands op inputs = .ok tensors) :
    g.operands op' inputs = .ok tensors := by
  obtain ⟨found, hfound, h⟩ := bind_eq_ok_iff.mp h
  apply bind_eq_ok_iff.mpr
  refine ⟨found, hfound, ?_⟩
  rw [← harity]
  split at h
  next haccepts => rw [if_pos haccepts, ← h]
  next => cases h

/-- Inputs are turned down because one is not there, or for their number. -/
theorem operands_eq_error {op : Operator} {inputs : List TensorId} {e : Failure}
    (h : g.operands op inputs = .error e) :
    (∃ t, e = .error (.unknownTensor t)) ∨
      ∃ expected found, e = .error (.arity op.kind .inputs expected found) := by
  rcases bind_eq_error_iff.mp h with h | ⟨tensors, _, h⟩
  · obtain ⟨t, _, ht⟩ := exists_error_of_mapM h
    unfold Graph.tensor at ht
    cases hx : g.tensor? t with
    | none =>
      rw [hx] at ht
      exact .inl ⟨t, (Except.error.inj ht).symm⟩
    | some x =>
      rw [hx] at ht
      cases ht
  · by_cases haccepts : op.arity.accepts tensors.length = true
    · rw [if_pos haccepts] at h
      cases h
    · rw [if_neg haccepts] at h
      exact .inr ⟨_, _, (Except.error.inj h).symm⟩

/-- Inference that succeeds, in its parts. -/
theorem infer_eq_ok_iff [Build] {op : Operator} {inputs : List TensorId} {inferred : Inferred} :
    g.infer op inputs = .ok inferred ↔ ∃ tensors prepared shapes dtypes,
      g.operands op inputs = .ok tensors ∧
      (op.prepare (tensors.map Tensor.type)).run g.host tensors = .ok prepared ∧
      prepared.outShapes (tensors.map Tensor.type) = .ok shapes ∧
      prepared.outTypes (tensors.map Tensor.type) = .ok dtypes ∧
      inferred = ⟨prepared, shapes.zipWith TensorType.mk dtypes⟩ := by
  unfold infer
  simp only [bind_eq_ok_iff, within_eq_ok_iff]
  constructor
  · rintro ⟨tensors, hoperands, prepared, hprepare, shapes, hshapes, dtypes, hdtypes, h⟩
    refine ⟨tensors, prepared, shapes, dtypes, hoperands, hprepare, hshapes, hdtypes, ?_⟩
    split at h
    · exact (Except.ok.inj h).symm
    · cases h
  · rintro ⟨tensors, prepared, shapes, dtypes, hoperands, hprepare, hshapes, hdtypes, rfl⟩
    refine ⟨tensors, hoperands, prepared, hprepare, shapes, hshapes, dtypes, hdtypes, ?_⟩
    -- The numbers of what is inferred are those that the arity says.
    obtain ⟨hshapesLen, hdtypesLen, _⟩ := Operator.conforms_of_infers
      (operands_eq_ok hoperands).2 hprepare hshapes hdtypes
    rw [if_pos ⟨hshapesLen, hdtypesLen⟩]
    rfl

/-- The stored operator infers the types of the outputs that are made or checked. -/
theorem registered_of_infer [Build] {op : Operator} {inputs : List TensorId} {inferred : Inferred}
    (h : g.infer op inputs = .ok inferred) :
    ∃ types, g.typesOf? inputs = some types ∧ inferred.op.Registered types inferred.outputs := by
  obtain ⟨tensors, prepared, shapes, dtypes, hoperands, hprepare, hshapes, hdtypes, rfl⟩ :=
    infer_eq_ok_iff.mp h
  obtain ⟨hfound, haccepts⟩ := operands_eq_ok hoperands
  obtain ⟨_, _, hconforms⟩ := Operator.conforms_of_infers haccepts hprepare hshapes hdtypes
  rw [← List.length_map Tensor.type] at haccepts
  exact ⟨_, typesOf?_of_mapM hfound, hconforms, op, haccepts, Preparation.yields_of_run hprepare⟩

/-- Inference fails on its inputs, or one of its parts is refused; the numbers of what it infers are
never to blame. -/
theorem infer_eq_error [Build] {op : Operator} {inputs : List TensorId} {e : Failure}
    (h : g.infer op inputs = .error e) :
    g.operands op inputs = .error e ∨ ∃ tensors refusal, g.operands op inputs = .ok tensors ∧
      e = .ofRefusal op.kind (tensors.map Tensor.type) refusal ∧
      ((op.prepare (tensors.map Tensor.type)).run g.host tensors = .error refusal ∨
        ∃ op', (op.prepare (tensors.map Tensor.type)).run g.host tensors = .ok op' ∧
          (op'.outShapes (tensors.map Tensor.type) = .error refusal ∨
            op'.outTypes (tensors.map Tensor.type) = .error refusal)) := by
  rcases bind_eq_error_iff.mp h with h | ⟨tensors, hoperands, h⟩
  · exact .inl h
  right
  obtain ⟨_, haccepts⟩ := operands_eq_ok hoperands
  rcases bind_eq_error_iff.mp h with h | ⟨prepared, hprepare, h⟩
  · obtain ⟨refusal, hr, he⟩ := within_eq_error h
    exact ⟨tensors, refusal, hoperands, he, .inl hr⟩
  have hprepare := within_eq_ok_iff.mp hprepare
  rcases bind_eq_error_iff.mp h with h | ⟨shapes, hshapes, h⟩
  · obtain ⟨refusal, hr, he⟩ := within_eq_error h
    exact ⟨tensors, refusal, hoperands, he, .inr ⟨prepared, hprepare, .inl hr⟩⟩
  rcases bind_eq_error_iff.mp h with h | ⟨dtypes, hdtypes, h⟩
  · obtain ⟨refusal, hr, he⟩ := within_eq_error h
    exact ⟨tensors, refusal, hoperands, he, .inr ⟨prepared, hprepare, .inr hr⟩⟩
  · obtain ⟨hshapesLen, hdtypesLen, _⟩ := Operator.conforms_of_infers haccepts hprepare
      (within_eq_ok_iff.mp hshapes) (within_eq_ok_iff.mp hdtypes)
    change (if shapes.length = op.arity.outputs ∧ dtypes.length = op.arity.outputs
      then _ else _) = _ at h
    rw [if_pos ⟨hshapesLen, hdtypesLen⟩] at h
    cases h

/-- No operator is turned down for the number of outputs that it infers. -/
theorem infer_ne_inferredOutputs [Build] (op : Operator) (inputs : List TensorId) (kind : Kind)
    (expected : String) (found : Nat) :
    g.infer op inputs ≠ .error (.error (.arity kind .inferredOutputs expected found)) := by
  intro h
  rcases infer_eq_error h with h | ⟨_, refusal, _, he, _⟩
  · rcases operands_eq_error h with ⟨t, ht⟩ | ⟨_, _, hinputs⟩
    · cases ht
    · cases hinputs
  · cases refusal <;> cases he

/-- Every operator of the graph is in a relation to the types of its inputs and of its outputs. -/
def Records (p : Operator → List TensorType → List TensorType → Prop) (g : Graph) : Prop :=
  ∀ o n, g.node? o = some n → ∃ inputs outputs, g.typesOf? n.inputs = some inputs ∧
    g.typesOf? n.outputs = some outputs ∧ p n.op inputs outputs

theorem typesOf?_addTensors (g : Graph) (guid : Nat) (types : List TensorType) :
    (g.addTensors guid types).graph.typesOf? (g.addTensors guid types).id = some types := by
  induction types generalizing g guid with
  | nil => rfl
  | cons type types ih =>
    have hfirst : (g.addTensor guid type).graph.tensor? ⟨g.tensors.length⟩ =
        some ⟨⟨g.tensors.length⟩, guid, type, none, none, []⟩ := List.getElem?_concat_length
    -- The tensors that are made behind the first one keep it.
    obtain ⟨x, hx, hgrows⟩ :=
      (extends_addTensors (g.addTensor guid type).graph (guid + 1) types).tensor_kept hfirst
    have htype : x.type = type := hgrows.type_eq
    rw [← htype]
    rw [← htype] at hx
    exact typesOf?_cons hx (ih _ _)

theorem Admits.typesOf?_outputs [Build] {op : Operator} {inputs outputs : List TensorId}
    {inferred : Inferred} (h : g.Admits op inputs outputs inferred) :
    g.typesOf? outputs = some inferred.outputs := by
  obtain ⟨_, hall⟩ := checkOutputs_eq_ok_iff.mp h.declared
  refine typesOf?_of_zip h.length ?_
  intro p hp
  obtain ⟨_, x, hx, _, htype⟩ := hall p hp
  exact ⟨x, hx, htype⟩

section Records

variable {p : Operator → List TensorType → List TensorType → Prop}

theorem records_empty : empty.Records p := by
  intro o n hn
  have hnone : empty.node? o = none := rfl
  rw [hnone] at hn
  cases hn

theorem Records.register (hg : g.Records p) {guid : Nat} {op : Operator}
    {inputs outputs : List TensorId} {ins outs : List TensorType}
    (hextends : g.Extends (g.register guid op inputs outputs).graph)
    (hins : g.typesOf? inputs = some ins) (houts : g.typesOf? outputs = some outs)
    (hop : p op ins outs) : (g.register guid op inputs outputs).graph.Records p := by
  intro o n hn
  rcases node?_register_of_some.mp hn with hn | ⟨_, rfl⟩
  · obtain ⟨ins, outs, hins, houts, hop⟩ := hg o n hn
    exact ⟨ins, outs, hextends.typesOf? hins, hextends.typesOf? houts, hop⟩
  · exact ⟨ins, outs, hextends.typesOf? hins, hextends.typesOf? houts, hop⟩

theorem Records.of_extends (hg : g.Records p) (h : g.Extends g') (hnodes : g'.nodes = g.nodes) :
    g'.Records p := by
  intro o n hn
  rw [node?, hnodes] at hn
  obtain ⟨ins, outs, hins, houts, hop⟩ := hg o n hn
  exact ⟨ins, outs, h.typesOf? hins, h.typesOf? houts, hop⟩

/-- What inference says of an operator and its types holds of all that is registered. -/
theorem Records.step [Build]
    (hinfers : ∀ {g : Graph} {op : Operator} {inputs : List TensorId} {inferred : Inferred},
      g.infer op inputs = .ok inferred →
        ∃ types, g.typesOf? inputs = some types ∧ p inferred.op types inferred.outputs)
    (hg : g.Records p) (hlinked : g.Linked) (h : g.Step g') : g'.Records p := by
  cases h with
  | refused => exact hg
  | hosted host => exact hg.of_extends (extends_withHost g host) rfl
  | grown guid type payload _ => exact hg.of_extends (extends_addTensor g guid type payload) rfl
  | made guid op inputs inferred hinfer =>
    have hmade := extends_addTensors g guid inferred.outputs
    have hnodes : (g.addTensors guid inferred.outputs).graph.nodes = g.nodes := by
      rw [addTensors_eq]
    obtain ⟨types, htypes, hop⟩ := hinfers hinfer
    -- First the outputs are made, which leaves the inputs their types; then they are linked.
    exact (hg.of_extends hmade hnodes).register
      ((hlinked.addTensors guid _).extends_register (writable_addTensors g guid _))
      (hmade.typesOf? htypes) (typesOf?_addTensors g guid _) hop
  | declared guid op inputs outputs inferred hadmits _ =>
    obtain ⟨types, htypes, hop⟩ := hinfers hadmits.infer
    exact hg.register (hlinked.extends_register hadmits.writable) htypes
      hadmits.typesOf?_outputs hop

end Records

theorem Reachable.registered [Build] (hg : g.Reachable) : g.Records Operator.Registered := by
  -- Links are part of the invariant: they say that nobody wrote the declared outputs.
  have hboth : g.Linked ∧ g.Records Operator.Registered := by
    refine hg.invariant (p := fun g => g.Linked ∧ g.Records Operator.Registered)
      ⟨linked_empty, records_empty⟩ ?_
    rintro g g' ⟨hlinked, hrecords⟩ hstep
    exact ⟨hlinked.step hstep, hrecords.step registered_of_infer hlinked hstep⟩
  exact hboth.2

theorem Reachable.exists_registered_view [Build] (hg : g.Reachable) {id : OpId} {n : Node}
    (hn : g.node? id = some n) : ∃ v, g.view id = .ok v ∧ v.id = id ∧ v.node = n ∧
      v.op.Registered v.inputTypes (v.outputs.map Tensor.type) := by
  obtain ⟨inputs, outputs, hinputs, houtputs, hview⟩ := hg.linked.exists_view hn
  obtain ⟨ins, outs, hins, houts, hop⟩ := hg.registered id n hn
  obtain rfl := Option.some.inj (hins.symm.trans (typesOf?_of_mapM hinputs))
  obtain rfl := Option.some.inj (houts.symm.trans (typesOf?_of_mapM houtputs))
  exact ⟨_, hview, rfl, rfl, hop⟩

theorem Reachable.exists_conforming_view [Build] (hg : g.Reachable) {id : OpId} {n : Node}
    (hn : g.node? id = some n) : ∃ v, g.view id = .ok v ∧ v.id = id ∧ v.node = n ∧
      v.op.Conforms v.inputTypes (v.outputs.map Tensor.type) := by
  obtain ⟨v, hview, hid, hnode, hop⟩ := hg.exists_registered_view hn
  exact ⟨v, hview, hid, hnode, hop.toConforms⟩

/-- A product by a matrix that is written into a declared tensor, and clipped at zero. -/
def projected : Graph :=
  (ofCalls [
    .tensor ⟨[2, 3], .float32⟩,
    .tensor ⟨[3, 4], .float32⟩,
    .tensor ⟨[2, 4], .float32⟩,
    .opInto (.matMul {}) [⟨0⟩, ⟨1⟩] [⟨2⟩],
    .op (.unary ⟨.relu⟩) [⟨2⟩]]).1

/-- Inference that is run again finds the outputs as they are registered, and it never disagrees
with the arity. -/
theorem Reachable.inference_agrees [Build] (hg : g.Reachable) :
    (∀ id n, g.node? id = some n → ∃ v, g.view id = .ok v ∧ v.id = id ∧ v.node = n ∧
      v.inferShapes = .ok (v.outputs.map fun t => t.type.shape) ∧
      v.inferTypes = .ok (v.outputs.map fun t => t.type.dtype) ∧
      v.outputs.length = v.op.arity.outputs ∧ v.op.arity.accepts v.inputs.length) ∧
    (∀ op inputs kind expected found,
      g.infer op inputs ≠ .error (.error (.arity kind .inferredOutputs expected found))) ∧
    ∀ (op op' : Operator) (host : Host) (tensors : List Tensor) (shapes : List Shape)
      (dtypes : List DType), op.arity.accepts tensors.length →
      (op.prepare (tensors.map Tensor.type)).run host tensors = .ok op' →
      op'.outShapes (tensors.map Tensor.type) = .ok shapes →
      op'.outTypes (tensors.map Tensor.type) = .ok dtypes →
      shapes.length = op.arity.outputs ∧ dtypes.length = op.arity.outputs := by
  refine ⟨?_, infer_ne_inferredOutputs, ?_⟩
  · intro id n hn
    obtain ⟨v, hview, hid, hnode, hop⟩ := hg.exists_conforming_view hn
    have hshapes := hop.outShapes_eq
    have htypes := hop.outTypes_eq
    have hlen := hop.length_outputs
    have haccepts := hop.accepts
    rw [List.map_map] at hshapes htypes
    rw [List.length_map] at hlen
    rw [OpView.inputTypes, List.length_map] at haccepts
    exact ⟨v, hview, hid, hnode, hshapes, htypes, hlen, haccepts⟩
  · intro op op' host tensors shapes dtypes haccepts hprepare hshapes hdtypes
    obtain ⟨hshapesLen, hdtypesLen, _⟩ :=
      Operator.conforms_of_infers haccepts hprepare hshapes hdtypes
    exact ⟨hshapesLen, hdtypesLen⟩

theorem inference_agrees_projected :
    projected.Reachable ∧ ∃ v, projected.view ⟨0⟩ = .ok v ∧ v.op = .matMul {} ∧
      v.inferShapes = .ok (v.outputs.map fun t => t.type.shape) ∧
      v.outputs.length = v.op.arity.outputs := by
  have hg : projected.Reachable := reachable_ofCalls _
  have hnode : projected.node? ⟨0⟩ = some ⟨4, .matMul {}, [⟨0⟩, ⟨1⟩], [⟨2⟩]⟩ := by cbv
  obtain ⟨v, hview, _, hop, hshapes, _, hlen, _⟩ := hg.inference_agrees.1 ⟨0⟩ _ hnode
  exact ⟨hg, v, hview, congrArg Node.op hop, hshapes, hlen⟩

/-- Every query of a registered operator has an answer, and the operands of a product fit together.
-/
theorem Reachable.queries_answer [Build] (hg : g.Reachable) {id : OpId} {n : Node}
    (hn : g.node? id = some n) :
    ∃ v, g.view id = .ok v ∧ v.id = id ∧ v.node = n ∧
      (∀ {α : Type} [Scalar α] (cx : CostContext), ∃ m : Metrics α, v.metrics cx = .ok m) ∧
      (∃ key, v.workload = .ok key) ∧ (∃ key, v.perfKey = .ok key) ∧
      (∃ shapes, v.inferShapes = .ok shapes) ∧ (∃ types, v.inferTypes = .ok types) ∧
      ∀ d : MatMul, v.op = .matMul d → ∃ a b p, v.inputTypes[0]? = some a ∧
        v.inputTypes[1]? = some b ∧ d.problem a.shape b.shape = .ok p ∧
        d.estimated a.shape b.shape = p := by
  obtain ⟨v, hview, hid, hnode, hop⟩ := hg.exists_conforming_view hn
  have hestimable : v.op.Estimable v.io := hop.estimable
  obtain ⟨key, hkey⟩ := hestimable.workload
  refine ⟨v, hview, hid, hnode, ?_, ⟨key, ?_⟩, ⟨.ofVectors key v.op.attributes, ?_⟩,
    ⟨_, hop.outShapes_eq⟩, ⟨_, hop.outTypes_eq⟩, ?_⟩
  · intro α _ cx
    obtain ⟨m, hm⟩ := hestimable.metrics (α := α) cx
    exact ⟨m, by rw [OpView.metrics, hm]; rfl⟩
  · rw [OpView.workload, hkey]
    rfl
  · rw [OpView.perfKey, Operator.perfKey, hkey]
    rfl
  · intro d hd
    have hshapes := hop.outShapes_eq
    rw [hd] at hshapes
    obtain ⟨a, b, rest, p, hinputs, hp⟩ := Operator.exists_problem_of_outShapes hshapes
    refine ⟨a, b, p, by rw [hinputs]; rfl, by rw [hinputs]; rfl, hp, ?_⟩
    simp only [MatMul.estimated, hp]

theorem queries_answer_projected :
    projected.Reachable ∧
      projected.node? ⟨0⟩ = some ⟨4, .matMul {}, [⟨0⟩, ⟨1⟩], [⟨2⟩]⟩ ∧
      ∃ v, projected.view ⟨0⟩ = .ok v ∧ (∃ m : Metrics Float, v.metrics ⟨1, .bytes⟩ = .ok m) ∧
        ∃ a b p, v.inputTypes[0]? = some a ∧ v.inputTypes[1]? = some b ∧
          MatMul.problem {} a.shape b.shape = .ok p := by
  have hg : projected.Reachable := reachable_ofCalls _
  have hnode : projected.node? ⟨0⟩ = some ⟨4, .matMul {}, [⟨0⟩, ⟨1⟩], [⟨2⟩]⟩ := by cbv
  obtain ⟨v, hview, _, hop, hmetrics, _, _, _, _, hproblem⟩ := hg.queries_answer hnode
  obtain ⟨a, b, p, ha, hb, hp, _⟩ := hproblem {} (congrArg Node.op hop)
  exact ⟨hg, hnode, v, hview, hmetrics _, a, b, p, ha, hb, hp⟩

end Graph

end DataflowCost
