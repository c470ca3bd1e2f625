import DataflowCost.Proofs.Extents
import DataflowCost.Proofs.Infers
import DataflowCost.Proofs.Reachable
import DataflowCost.Proofs.Resolution.Operators
import Mathlib.Algebra.BigOperators.Group.List.Lemmas

/-! Element counts of regroupings. Whichever way the extents are arranged over axes and outputs, their product
stays, also where it is zero. Products of words are as much as words tell of it. -/
namespace DataflowCost

open Inference

section Families

variable {s out : Shape}

/-- The two products are those of all extents. -/
theorem Flatten.modEq_of_outShape [Build] {d : Flatten} (h : d.outShape s = .ok out) :
    out.size ≡ s.size [MOD Word.modulus] := by
  obtain ⟨axis, haxis, h⟩ := bind_eq_ok_iff.mp h
  have hle : axis ≤ s.length := (meets_resolveAxis d.axis s.length).of_ok haxis
  rw [Shape.before?_of_le hle, Shape.from?_of_le hle] at h
  obtain ⟨_, hbefore, h⟩ := bind_eq_ok_iff.mp h
  obtain ⟨_, hbehind, h⟩ := bind_eq_ok_iff.mp h
  obtain rfl := Except.ok.inj hbefore
  obtain rfl := Except.ok.inj hbehind
  obtain ⟨outer, houter, h⟩ := bind_eq_ok_iff.mp h
  obtain ⟨inner, hinner, h⟩ := bind_eq_ok_iff.mp h
  obtain rfl := Except.ok.inj h
  calc Shape.size [outer, inner]
      = outer * inner := by simp [Shape.size]
    _ ≡ Shape.size (s.take axis) * Shape.size (s.drop axis) [MOD Word.modulus] :=
      (Word.modEq_of_product houter).mul (Word.modEq_of_product hinner)
    _ = s.size := by
      rw [Shape.size_eq_prod, Shape.size_eq_prod, Shape.size_eq_prod, List.prod_take_mul_prod_drop]

theorem Squeeze.size_without {axes : List Int} {resolved : List Nat}
    (h : resolveAxes axes s = .ok resolved) : Shape.size (without resolved s) = s.size := by
  rw [without, Shape.filter_zipIdx_eq_dropping, Shape.size_dropping (unit_of_resolveAxes h).2]

theorem Unsqueeze.size_of_outShape {d : Unsqueeze} (h : d.outShape s = .ok out) :
    out.size = s.size := by
  obtain ⟨axes, haxes, h⟩ := bind_eq_ok_iff.mp h
  obtain rfl := Except.ok.inj h
  obtain ⟨hascending, hlt⟩ := Axis.ascending_of_resolveSet haxes
  have hnodup : axes.Nodup := hascending.imp Nat.ne_of_lt
  have hrank : s.length + d.axes.length = s.length + axes.length :=
    congrArg (s.length + ·) (Axis.length_resolveSet haxes).symm
  rw [interleave_eq_tabulate hrank hnodup hlt, Shape.size_inserted hnodup hlt hrank]

namespace Split

/-- Multiplying all parts by a unit is multiplying their sum by it. -/
theorem modEq_of_mapM_mul [Build] {unit : Nat} {parts pieces : List Nat}
    (h : parts.mapM (fun part => Word.mul part unit) = .ok pieces) :
    pieces.sum ≡ parts.sum * unit [MOD Word.modulus] := by
  induction parts generalizing pieces with
  | nil =>
    obtain rfl : [] = pieces := Except.ok.inj h
    rw [List.sum_nil, Nat.zero_mul]
  | cons part parts ih =>
    rw [List.mapM_cons] at h
    obtain ⟨piece, hpiece, h⟩ := bind_eq_ok_iff.mp h
    obtain ⟨rest, hrest, h⟩ := bind_eq_ok_iff.mp h
    obtain rfl := Except.ok.inj h
    rw [List.sum_cons, List.sum_cons, Nat.add_mul]
    exact (Word.modEq_of_mul hpiece).add (ih hrest)

theorem modEq_of_extents [Build] {pieces : Pieces} {extent : Nat} {es : List Nat}
    (h : extents pieces extent = .ok es) : es.sum ≡ extent [MOD Word.modulus] := by
  cases pieces with
  | equal count =>
    obtain ⟨rfl, hsum⟩ := cuts_of_extents_equal h
    rw [hsum]
  | ratio parts =>
    obtain ⟨sum, hsum, h⟩ := bind_eq_ok_iff.mp h
    obtain ⟨_, hdivides, h⟩ := bind_eq_ok_iff.mp h
    obtain ⟨unit, hunit, h⟩ := bind_eq_ok_iff.mp h
    obtain rfl := (meets_quotient fun _ => trivial).of_ok hunit
    have hdvd : sum ∣ extent := Nat.dvd_of_mod_eq_zero (of_require hdivides).2
    have hparts := Word.modEq_of_sum hsum
    rw [← List.sum_eq_foldr] at hparts
    calc es.sum
        ≡ parts.sum * (extent / sum) [MOD Word.modulus] := modEq_of_mapM_mul h
      _ ≡ sum * (extent / sum) [MOD Word.modulus] := hparts.symm.mul_right _
      _ = extent := Nat.mul_div_cancel' hdvd

/-- What is divided is one factor of the element count. -/
theorem exists_extents [Build] {d : Split} {shapes : List Shape} (h : d.outShapes s = .ok shapes) :
    ∃ es extent others, extents d.pieces extent = .ok es ∧
      (shapes.map Shape.size).sum = es.sum * others ∧ s.size = extent * others := by
  obtain ⟨axis, haxis, h⟩ := bind_eq_ok_iff.mp h
  have hlt : axis < s.length := Axis.lt_of_resolve haxis
  obtain ⟨extent, hextent, h⟩ := bind_eq_ok_iff.mp h
  obtain rfl : s.extentAt axis = extent :=
    Option.some.inj ((Shape.getElem?_eq_extentAt hlt).symm.trans (present_eq_ok hextent))
  obtain ⟨es, hes, h⟩ := bind_eq_ok_iff.mp h
  obtain rfl := Except.ok.inj h
  refine ⟨es, s.extentAt axis, Shape.size (s.set axis 1), hes, ?_, ?_⟩
  · calc ((es.map fun extent => s.set axis extent).map Shape.size).sum
        = (es.map fun extent => Shape.size (s.set axis extent)).sum := by
          rw [List.map_map]
          rfl
      _ = es.sum * Shape.size (s.set axis 1) := by
          rw [Shape.sum_size_set hlt, Shape.size_set hlt]
  · rw [← Shape.size_set hlt, Shape.set_extentAt hlt]

end Split

end Families

namespace Operator

variable {op op' : Operator} {inputs outputs : List TensorType}

/-- Resolution leaves an operator in its family. -/
theorem sameFamily_of_yields [Build] (h : (op.prepare inputs).Yields op') : op.SameFamily op' := by
  induction op using of_family with
  | @h δ _ _ wrap hwrap d =>
    have hprepare : (wrap d).prepare inputs = (Family.prepare d inputs).map wrap :=
      hwrap.withFamily_eq _ d
    rw [hprepare] at h
    obtain ⟨d', _, rfl⟩ := h.of_map
    rw [SameFamily, hwrap.withFamily_eq]
    exact ⟨d', rfl⟩

/-- The operators that arrange the elements of their input anew, in one output. -/
def Rearranges : Operator → Prop
  | reshape _ | flatten _ | identity _ | squeeze _ | unsqueeze _ | transpose _ | depthToSpace _ => True
  | _ => False

theorem SameFamily.rearranges (h : op.SameFamily op') (hop : op.Rearranges) : op'.Rearranges := by
  cases op with
  | reshape d | flatten d | identity d | squeeze d | unsqueeze d | transpose d | depthToSpace d =>
    obtain ⟨_, rfl⟩ := h
    exact hop
  | _ => exact hop.elim

/-- The operators whose extents, or the counts that are compared, are products or sums of words. -/
def Multiplies : Operator → Prop
  | reshape _ | flatten _ | depthToSpace _ => True
  | split d => ∃ parts, d.pieces = .ratio parts
  | _ => False

theorem SameFamily.multiplies (h : op.SameFamily op') (hop : op.Rearranges) (h' : op'.Multiplies) :
    op.Multiplies := by
  cases op with
  | reshape d | flatten d | depthToSpace d => trivial
  | identity d | squeeze d | unsqueeze d | transpose d =>
    obtain ⟨_, rfl⟩ := h
    exact h'
  | _ => exact hop.elim

/-- Counts that are the same to words. They are the same if words hold both, and if there is nothing to
multiply. -/
structure Keeps [Build] (op : Operator) (found count : Nat) : Prop where
  modEq : found ≡ count [MOD Word.modulus]
  eq : (op.Multiplies → Build.Bounded → found < Word.limit ∧ count < Word.limit) → found = count

theorem Keeps.of_modEq [Build] {found count : Nat} (hop : op.Multiplies)
    (h : found ≡ count [MOD Word.modulus]) : op.Keeps found count :=
  ⟨h, fun hfits => Word.eq_of_modEq h (hfits hop)⟩

theorem Keeps.of_eq [Build] {found count : Nat} (h : found = count) : op.Keeps found count :=
  ⟨h ▸ rfl, fun _ => h⟩

theorem Registered.exists_keeps [Build] (h : op.Registered inputs outputs) (hop : op.Rearranges) :
    ∃ x y, inputs = [x] ∧ outputs = [y] ∧ op.Keeps y.size x.size := by
  cases op with
  | reshape d =>
    obtain ⟨x, rfl⟩ := Arity.eq_singleton_of_accepts h.accepts
    obtain ⟨y, rfl, hshape⟩ :=
      Family.exists_single (r := Reshape.resolveTarget d.target x.shape) h.outShapes_eq
    exact ⟨x, y, rfl, rfl, .of_modEq trivial (Reshape.modEq_of_resolveTarget hshape)⟩
  | flatten d =>
    obtain ⟨x, rfl⟩ := Arity.eq_singleton_of_accepts h.accepts
    obtain ⟨y, rfl, hshape⟩ := Family.exists_single (r := d.outShape x.shape) h.outShapes_eq
    exact ⟨x, y, rfl, rfl, .of_modEq trivial (Flatten.modEq_of_outShape hshape)⟩
  | depthToSpace d =>
    obtain ⟨x, rfl⟩ := Arity.eq_singleton_of_accepts h.accepts
    obtain ⟨y, rfl, hshape⟩ := Family.exists_single (r := d.outShape x.shape) h.outShapes_eq
    exact ⟨x, y, rfl, rfl, .of_modEq trivial (DepthToSpace.modEq_of_outShape hshape)⟩
  | identity d =>
    obtain ⟨x, rfl⟩ := Arity.eq_singleton_of_accepts h.accepts
    obtain ⟨y, rfl, hshape⟩ := Family.exists_output h.outShapes_eq
    exact ⟨x, y, rfl, rfl, .of_eq (congrArg Shape.size hshape)⟩
  | squeeze d =>
    obtain ⟨x, rfl⟩ := Arity.eq_singleton_of_accepts h.accepts
    have hshapes : (do return [Squeeze.without (← Squeeze.resolveAxes d.axes x.shape) x.shape]) =
        .ok (outputs.map TensorType.shape) := h.outShapes_eq
    obtain ⟨axes, haxes, hshapes⟩ := bind_eq_ok_iff.mp hshapes
    obtain ⟨y, rfl, hshape⟩ := Family.exists_output hshapes
    refine ⟨x, y, rfl, rfl, .of_eq ?_⟩
    rw [TensorType.size, hshape, Squeeze.size_without haxes, TensorType.size]
  | unsqueeze d =>
    obtain ⟨x, rfl⟩ := Arity.eq_singleton_of_accepts h.accepts
    obtain ⟨y, rfl, hshape⟩ := Family.exists_single (r := d.outShape x.shape) h.outShapes_eq
    exact ⟨x, y, rfl, rfl, .of_eq (Unsqueeze.size_of_outShape hshape)⟩
  | transpose d =>
    obtain ⟨x, rfl⟩ := Arity.eq_singleton_of_accepts h.accepts
    obtain ⟨y, rfl, hshape⟩ := Family.exists_single (r := d.outShape x.shape) h.outShapes_eq
    exact ⟨x, y, rfl, rfl, .of_eq (Transpose.size_of_outShape hshape)⟩
  | _ => exact hop.elim

/-- The pieces together keep what there is to divide. -/
theorem keeps_of_outShapes [Build] {d : Split} {x : TensorType}
    (h : d.outShapes x.shape = .ok (outputs.map TensorType.shape)) :
    (split d).Keeps (outputs.map TensorType.size).sum x.size := by
  obtain ⟨es, extent, others, hes, hsum, hsize⟩ := Split.exists_extents h
  rw [List.map_map] at hsum
  change (outputs.map TensorType.size).sum = _ at hsum
  rw [hsum, TensorType.size, hsize]
  cases hpieces : d.pieces with
  | equal count =>
    rw [hpieces] at hes
    obtain ⟨rfl, htotal⟩ := Split.cuts_of_extents_equal hes
    exact .of_eq (congrArg (· * others) htotal)
  | ratio parts => exact .of_modEq ⟨parts, hpieces⟩ ((Split.modEq_of_extents hes).mul_right others)

end Operator

namespace Graph

variable {g : Graph}

section Counts

variable [Build]

theorem sameFamily_of_infer {op : Operator} {ids : List TensorId} {inferred : Inferred}
    (h : g.infer op ids = .ok inferred) : op.SameFamily inferred.op := by
  obtain ⟨_, _, _, _, _, hrun, _, _, rfl⟩ := infer_eq_ok_iff.mp h
  exact Operator.sameFamily_of_yields (Preparation.yields_of_run hrun)

end Counts

section

open scoped WrappingArithmetic

/-- Channels for one block, rows without elements, and an axis that three pieces do not divide evenly. -/
def blocks : Graph := (ofCalls [.tensor ⟨[1, 4, 2, 3], .float32⟩, .tensor ⟨[7, 0], .float32⟩,
  .tensor ⟨[7], .float32⟩]).1

/-- One element. -/
def oneElement : Graph := (ofCalls [.tensor ⟨[1], .float32⟩]).1

end

end Graph

end DataflowCost
