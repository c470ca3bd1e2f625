import DataflowCost.Proofs.Inferred
import DataflowCost.Proofs.Keys.Basic

/-! Inference from types. Operators that never wait for the values of a host are accepted and inferred
by the types of their inputs alone, in whatever graph these stand. -/
namespace DataflowCost

open Inference

/-- Inference that does not fault answers or reports an error. -/
theorem Inference.Meets.within_ok_or_error {α : Type} {r : Inference α}
    (h : r.Meets False fun _ => True) (kind : Kind) (inputs : List TensorType) :
    (∃ a, r.within kind inputs = .ok a) ∨ ∃ e, r.within kind inputs = .error (.error e) := by
  cases r with
  | ok a => exact .inl ⟨a, rfl⟩
  | error refusal =>
    cases refusal with
    | invalid reason => exact .inr ⟨_, rfl⟩
    | unsupported feature => exact .inr ⟨_, rfl⟩
    | fault => exact (h.fault rfl).elim

/-- A definition that cannot be resolved is turned down. -/
theorem Inference.Meets.within_bind_error {α β : Type} {r : Inference α} {P : α → Prop}
    (h : r.Meets False P) (hne : ∀ a, r ≠ .ok a) (f : α → Inference β) (kind : Kind)
    (inputs : List TensorType) : ∃ e, (r >>= f).within kind inputs = .error (.error e) := by
  have hmeets : (r >>= f).Meets False fun _ => True := h.self.bind fun a ha => absurd ha (hne a)
  refine (hmeets.within_ok_or_error kind inputs).resolve_left ?_
  rintro ⟨b, hb⟩
  obtain ⟨a, ha, _⟩ := bind_eq_ok_iff.mp (within_eq_ok_iff.mp hb)
  exact hne a ha

/-- A definition that is accepted on inputs of the given types: what it resolves to, and the types of
its outputs. -/
structure Family.Infers [Build] {δ : Type} [Family δ] (d : δ) (inputs : List TensorType) (d' : δ)
    (outputs : List TensorType) : Prop where
  accepts : (arity d).accepts inputs.length
  prepare_eq : prepare d inputs = .done (.ok d')
  outShapes_eq : outShapes d' inputs = .ok (outputs.map TensorType.shape)
  outTypes_eq : outTypes d' inputs = .ok (outputs.map TensorType.dtype)

/-- The output of an operator that has one, of the type of its first input. -/
theorem Family.Infers.exists_output [Build] {δ : Type} [Family δ] {d d' : δ} {x : TensorType}
    {rest outputs : List TensorType} (h : Infers d (x :: rest) d' outputs) {r : Inference Shape}
    (hshapes : outShapes d' (x :: rest) = do return [← r])
    (htypes : outTypes d' (x :: rest) = .ok [x.dtype]) :
    ∃ s, r = .ok s ∧ outputs = [⟨s, x.dtype⟩] := by
  obtain ⟨out, rfl, hr⟩ := exists_single (hshapes.symm.trans h.outShapes_eq)
  have hdtypes := Except.ok.inj (htypes.symm.trans h.outTypes_eq)
  rw [List.map_singleton, List.singleton_inj] at hdtypes
  rw [hdtypes]
  exact ⟨out.shape, hr, rfl⟩

namespace Graph

variable {g : Graph}

theorem exists_tensors_of_typesOf? {ids : List TensorId} {types : List TensorType}
    (h : g.typesOf? ids = some types) :
    ∃ tensors, ids.mapM g.tensor = .ok tensors ∧ tensors.map Tensor.type = types := by
  induction ids generalizing types with
  | nil =>
    obtain rfl : [] = types := Option.some.inj h
    exact ⟨[], rfl, rfl⟩
  | cons t ids ih =>
    obtain ⟨x, rest, hx, hrest, rfl⟩ := exists_of_typesOf?_cons h
    obtain ⟨tensors, htensors, rfl⟩ := ih hrest
    refine ⟨x :: tensors, ?_, rfl⟩
    rw [List.mapM_cons, tensor_eq_ok_iff.mpr hx, htensors]
    rfl

theorem operands_eq_ok_iff [Build] {op : Operator} {ids : List TensorId} {tensors : List Tensor} :
    g.operands op ids = .ok tensors ↔
      ids.mapM g.tensor = .ok tensors ∧ op.arity.accepts tensors.length := by
  unfold operands
  rw [bind_eq_ok_iff]
  constructor
  · rintro ⟨found, hfound, h⟩
    split at h
    next haccepts =>
      obtain rfl := Except.ok.inj h
      exact ⟨hfound, haccepts⟩
    next => cases h
  · rintro ⟨hfound, haccepts⟩
    refine ⟨tensors, hfound, ?_⟩
    rw [if_pos haccepts]
    rfl

section Family

variable [Build] {δ : Type} [Family δ] [LawfulFamily δ] {wrap : δ → Operator}

theorem run_of_prepare (hwrap : Operator.Wraps wrap) {d : δ} {types : List TensorType}
    {resolved : Inference δ} (h : Family.prepare d types = .done resolved) (tensors : List Tensor) :
    ((wrap d).prepare types).run g.host tensors = wrap <$> resolved := by
  have heq : (wrap d).prepare types = (Family.prepare d types).map wrap := hwrap.withFamily_eq _ d
  rw [heq, h]
  rfl

/-- Whether an operator is accepted and what is inferred of it is a matter of types. -/
theorem infer_eq_ok_iff_infers (hwrap : Operator.Wraps wrap)
    (hdone : ∀ (d : δ) types, ∃ outcome, Family.prepare d types = .done outcome) {d : δ}
    {ids : List TensorId} {inferred : Inferred} :
    g.infer (wrap d) ids = .ok inferred ↔ ∃ types d', g.typesOf? ids = some types ∧
      Family.Infers d types d' inferred.outputs ∧ inferred.op = wrap d' := by
  rw [infer_eq_ok_iff]
  have hshapes (d' : δ) (types : List TensorType) :
      (wrap d').outShapes types = Family.outShapes d' types := hwrap.withFamily_eq _ d'
  have hdtypes (d' : δ) (types : List TensorType) :
      (wrap d').outTypes types = Family.outTypes d' types := hwrap.withFamily_eq _ d'
  constructor
  · rintro ⟨tensors, prepared, shapes, dtypes, hoperands, hrun, hs, ht, rfl⟩
    obtain ⟨hfound, haccepts⟩ := operands_eq_ok hoperands
    obtain ⟨hshapesLen, hdtypesLen, _⟩ := Operator.conforms_of_infers haccepts hrun hs ht
    obtain ⟨outcome, houtcome⟩ := hdone d (tensors.map Tensor.type)
    rw [run_of_prepare hwrap houtcome] at hrun
    cases outcome with
    | error refusal => cases hrun
    | ok d' =>
      obtain rfl : wrap d' = prepared := Except.ok.inj hrun
      have hlen : shapes.length = dtypes.length := hshapesLen.trans hdtypesLen.symm
      rw [hwrap.arity_eq, ← List.length_map (f := Tensor.type)] at haccepts
      refine ⟨_, d', typesOf?_of_mapM hfound, ⟨haccepts, houtcome, ?_, ?_⟩, rfl⟩
      · rw [map_shape_zipWith hlen, ← hshapes, hs]
      · rw [map_dtype_zipWith hlen, ← hdtypes, ht]
  · rintro ⟨types, d', htypes, hinfers, hop⟩
    obtain ⟨tensors, hfound, rfl⟩ := exists_tensors_of_typesOf? htypes
    have haccepts := hinfers.accepts
    rw [List.length_map, ← hwrap.arity_eq] at haccepts
    refine ⟨tensors, wrap d', _, _, operands_eq_ok_iff.mpr ⟨hfound, haccepts⟩, ?_,
      (hshapes _ _).trans hinfers.outShapes_eq, (hdtypes _ _).trans hinfers.outTypes_eq, ?_⟩
    · rw [run_of_prepare hwrap hinfers.prepare_eq]
      rfl
    · -- A type is its shape and its element type.
      have hzip : (inferred.outputs.map TensorType.shape).zipWith TensorType.mk
          (inferred.outputs.map TensorType.dtype) = inferred.outputs := by
        rw [List.zipWith_map, List.zipWith_self, List.map_id'' fun _ => rfl]
      rw [hzip, ← hop]

/-- What an operator of one output answers on inputs that its arity accepts, once it is known what its
attributes resolve to. -/
theorem infer_eq_of_run (hwrap : Operator.Wraps wrap) {d : δ} {ids : List TensorId}
    {tensors : List Tensor} (hfound : ids.mapM g.tensor = .ok tensors)
    (haccepts : (Family.arity d).accepts tensors.length) (hone : (Family.arity d).outputs = 1)
    {resolved : Inference δ}
    (hrun : ((wrap d).prepare (tensors.map Tensor.type)).run g.host tensors = wrap <$> resolved)
    {outShape : δ → Inference Shape} {outType : δ → Inference DType}
    (hshapes : ∀ d', Family.outShapes d' (tensors.map Tensor.type) = do return [← outShape d'])
    (hdtypes : ∀ d', Family.outTypes d' (tensors.map Tensor.type) = do return [← outType d']) :
    g.infer (wrap d) ids = Inference.within (wrap d).kind (tensors.map Tensor.type) (do
      let d' ← resolved
      return ⟨wrap d', [⟨← outShape d', ← outType d'⟩]⟩) := by
  rw [← hwrap.arity_eq] at haccepts
  have houtputs : (wrap d).arity.outputs = 1 := by rw [hwrap.arity_eq, hone]
  unfold infer
  rw [operands_eq_ok_iff.mpr ⟨hfound, haccepts⟩]
  simp only [bind, Except.bind, hrun]
  cases resolved with
  | error refusal => rfl
  | ok d' =>
    have hs : (wrap d').outShapes (tensors.map Tensor.type) = do return [← outShape d'] :=
      (hwrap.withFamily_eq _ d').trans (hshapes d')
    have ht : (wrap d').outTypes (tensors.map Tensor.type) = do return [← outType d'] :=
      (hwrap.withFamily_eq _ d').trans (hdtypes d')
    simp only [Functor.map, Except.map, within, Except.mapError, hs, ht]
    cases outShape d' with
    | error refusal => rfl
    | ok s =>
      cases outType d' with
      | error refusal => rfl
      | ok dtype =>
        change (if 1 = (wrap d).arity.outputs ∧ 1 = (wrap d).arity.outputs then _ else _) = _
        rw [houtputs]
        rfl

/-- What an operator of one output answers on types that its arity accepts. -/
theorem infer_eq_of_outShape (hwrap : Operator.Wraps wrap) {d : δ} {ids : List TensorId}
    {types : List TensorType} (htypes : g.typesOf? ids = some types)
    (haccepts : (Family.arity d).accepts types.length) (hone : (Family.arity d).outputs = 1)
    {resolved : Inference δ} (hprepare : Family.prepare d types = .done resolved)
    {outShape : δ → Inference Shape} {dtype : DType}
    (hshapes : ∀ d', Family.outShapes d' types = do return [← outShape d'])
    (hdtypes : ∀ d' : δ, Family.outTypes d' types = .ok [dtype]) :
    g.infer (wrap d) ids = Inference.within (wrap d).kind types (do
      let d' ← resolved
      return ⟨wrap d', [⟨← outShape d', dtype⟩]⟩) := by
  obtain ⟨tensors, hfound, rfl⟩ := exists_tensors_of_typesOf? htypes
  rw [List.length_map] at haccepts
  have hdtypes' (d' : δ) : Family.outTypes d' (tensors.map Tensor.type) =
      do return [← (.ok dtype : Inference DType)] := hdtypes d'
  exact infer_eq_of_run hwrap hfound haccepts hone (run_of_prepare hwrap hprepare tensors) hshapes
    hdtypes'

/-- What an operator of one input and one output answers whose attributes are resolved against the input,
first to be stored and then again for the output: the second resolution is the first one. -/
theorem infer_eq_of_resolved_again {β : Type} (hwrap : Operator.Wraps wrap) {d : δ}
    {ids : List TensorId} {x : TensorType} (htypes : g.typesOf? ids = some [x])
    (harity : Family.arity d = .exact 1 1) {f : δ → Inference β} {s : δ → β → δ}
    {k : δ → β → Inference Shape}
    (hprepare : Family.prepare d [x] = .done (f d >>= fun b => .ok (s d b)))
    (hagain : ∀ b, f (s d b) = f d)
    (hshapes : ∀ d', Family.outShapes d' [x] = do return [← f d' >>= k d'])
    (hdtypes : ∀ d' : δ, Family.outTypes d' [x] = .ok [x.dtype]) :
    g.infer (wrap d) ids = Inference.within (wrap d).kind [x] (do
      let b ← f d
      return ⟨wrap (s d b), [⟨← k (s d b) b, x.dtype⟩]⟩) := by
  have haccepts : (Family.arity d).accepts [x].length := by
    rw [harity]
    rfl
  have hone : (Family.arity d).outputs = 1 := by
    rw [harity]
    rfl
  rw [infer_eq_of_outShape hwrap htypes haccepts hone hprepare hshapes hdtypes]
  cases hresolve : f d with
  | error refusal => rfl
  | ok b =>
    change Inference.within _ _ (do
      let out ← f (s d b) >>= k (s d b)
      return Inferred.mk (wrap (s d b)) [⟨out, x.dtype⟩]) = _
    rw [hagain, hresolve]
    rfl

end Family

end Graph

/-- The operator is accepted on any tensor of the first type, in whatever graph it stands, and its output is of
the second type. -/
def Operator.Maps [Build] (op : Operator) (x y : TensorType) : Prop :=
  ∀ (g : Graph) (ids : List TensorId), g.typesOf? ids = some [x] →
    ∃ resolved, g.infer op ids = .ok ⟨resolved, [y]⟩

theorem Operator.Maps.unique [Build] {op : Operator} {x y z : TensorType} {g : Graph} {ids : List TensorId}
    {resolved : Operator} (h : op.Maps x y) (htypes : g.typesOf? ids = some [x])
    (hinfer : g.infer op ids = .ok ⟨resolved, [z]⟩) : y = z := by
  obtain ⟨_, hinfer'⟩ := h g ids htypes
  obtain ⟨⟩ := hinfer.symm.trans hinfer'
  rfl

end DataflowCost
