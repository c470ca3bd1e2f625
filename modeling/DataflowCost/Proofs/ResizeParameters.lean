import DataflowCost.Proofs.InPlace
import DataflowCost.Proofs.Reachable
import DataflowCost.Proofs.Resizing

/-! Payloads of the wrong length. The shape of a parameter promises a value for each axis, but a host may tell
fewer or more, and what becomes of the operator is told apart by the values alone. -/
namespace DataflowCost

open Inference
open scoped ExactArithmetic

/-- The leading values. -/
def Payload.take (n : Nat) : Payload → Payload
  | reals values => reals (values.take n)
  | ints32 values => ints32 (values.take n)
  | ints64 values => ints64 (values.take n)

namespace Resize

variable {d : Resize Float32} {s : Shape} {axes : List Nat} {p : Payload}

theorem zip_take_length {α β : Type} (xs : List α) (ys : List β) :
    xs.zip (ys.take xs.length) = xs.zip ys := by
  have h : (xs.zip ys).take xs.length = (xs.take xs.length).zip (ys.take xs.length) :=
    List.take_zipWith
  rw [List.take_of_length_le (by rw [List.length_zip]; omega), List.take_length] at h
  exact h.symm

/-- Values that are left over when every axis has one are of no account. -/
theorem resolvedBy_take : d.resolvedBy s axes (p.take axes.length) = d.resolvedBy s axes p := by
  have hints : ownRatios (ρ := Float32) s axes ((p.take axes.length).ints?.getD []) =
      ownRatios s axes (p.ints?.getD []) := by
    cases p with
    | reals _ => rfl
    | ints32 values | ints64 values =>
      change (axes.zip (values.take axes.length)).map _ = (axes.zip values).map _
      rw [zip_take_length]
  have hreals : axes.zip ((p.take axes.length).reals?.getD []) = axes.zip (p.reals?.getD []) := by
    cases p with
    | reals values => exact zip_take_length axes values
    | ints32 _ | ints64 _ => rfl
  unfold resolvedBy factors placed
  cases d.target with
  | sizes => simp only [hints]
  | scales => simp only [hreals]

theorem length_factors_le (d : Resize Float32) (s : Shape) (axes : List Nat) (p : Payload) :
    (d.factors s axes p).length ≤ p.length := by
  unfold factors
  cases d.target with
  | sizes =>
    simp only [underPolicy, List.length_map, length_ownRatios]
    cases p with
    | reals _ => exact Nat.min_le_right _ _ |>.trans (Nat.zero_le _)
    | ints32 _ | ints64 _ => exact Nat.min_le_right _ _
  | scales =>
    cases p with
    | reals _ => exact Nat.le_refl _
    | ints32 _ | ints64 _ => exact Nat.zero_le _

/-- An axis that the values do not reach keeps the scale one. -/
theorem resolvedBy_unreached {axis : Nat} (hlt : axis < s.length) (h : axis ∉ axes.take p.length) :
    (d.resolvedBy s axes p).scales[axis]? = some ScaleFactor.one := by
  change ((List.range s.length).map (factorAt (axes.zip (d.factors s axes p))))[axis]? = _
  rw [List.getElem?_map, List.getElem?_range hlt, Option.map_some, factorAt_of_not_mem]
  intro factor hmem
  obtain ⟨i, hi⟩ := List.getElem?_of_mem hmem
  obtain ⟨haxis, hfactor⟩ := List.getElem?_zip_eq_some.mp hi
  have hi : i < p.length := Nat.lt_of_lt_of_le (List.getElem?_eq_some_iff.mp hfactor).1
    (length_factors_le d s axes p)
  exact h (List.mem_of_getElem? ((List.getElem?_take_of_lt hi).trans haxis))

theorem meets_outType {types : List TensorType} (haccepts : (Family.arity d).accepts types.length) :
    (d.outType types).Meets False fun _ => True where
  answer _ := trivial
  fault h := by
    -- Element types are inferred alike in every build.
    have hmeets := @LawfulFamily.outTypes_meets ExactArithmetic.instBuild _ _ _ d types haccepts
    refine hmeets.fault ?_
    rw [d.outTypes_eq, h]
    rfl

end Resize

namespace Graph

variable {g : Graph}

theorem addOp_of_infer_error [Build] {op : Operator} {ids : List TensorId} {e : Failure} (guid : Nat)
    (h : g.infer op ids = .error e) : g.addOp guid op ids = .error e := by
  unfold addOp
  rw [h]
  rfl

/-- How many values a host tells is not checked. Values that cannot be what they are to be are turned down,
and so are element types that do not fit; sizes for some of the axes only are a fault; anything else is
accepted, with the scale one on axes that the values do not reach and without the values left over. -/
theorem Reachable.resize_on_payload [Build] (hg : g.Reachable) (guid : Nat) {d : Resize Float32}
    {ids : List TensorId} {types : List TensorType} {s : Shape} {axes : List Nat} {p : Payload}
    (h : g.Tells ids types p) (haccepts : (Family.arity d).accepts types.length)
    (hcheck : d.checkShapes types = .ok (s, axes)) :
    let outcome := (Update.addOp (.resize d) ids).run (g, guid)
    ((∃ e, outcome = .error (.error e) (g, guid)) ↔ ¬ d.Usable s axes p ∨
      ¬ d.RunsShort axes p ∧ ∀ dtype, d.outType types ≠ .ok dtype) ∧
    (outcome = .error .fault (g, guid) ↔ d.Usable s axes p ∧ d.RunsShort axes p) ∧
    ∀ dtype, d.Usable s axes p → ¬ d.RunsShort axes p → d.outType types = .ok dtype →
      (∃ o after, outcome = .ok o after) ∧
      g.infer (.resize d) ids = .ok ⟨.resize (d.resolvedBy s axes p),
        [⟨Resize.resized s (d.resolvedBy s axes p).scales, dtype⟩]⟩ ∧
      (∀ axis < s.length, axis ∉ axes.take p.length →
        (d.resolvedBy s axes p).scales[axis]? = some ScaleFactor.one) ∧
      d.resolvedBy s axes (p.take axes.length) = d.resolvedBy s axes p := by
  intro outcome
  have hrun : outcome = g.outcome guid (g.addOp guid (.resize d) ids) :=
    Update.addOp_run hg.linked guid _ ids
  have herror {e : Failure} (hinfer : g.infer (.resize d) ids = .error e) :
      outcome = .error e (g, guid) := by
    rw [hrun, addOp_of_infer_error guid hinfer]
    rfl
  by_cases husable : d.Usable s axes p
  · by_cases hshort : d.RunsShort axes p
    · have hfault := herror (h.infer_resize_fault haccepts hcheck husable hshort)
      simp [hfault, husable, hshort]
    · have hinfer := h.infer_resize_resolved haccepts hcheck husable hshort
      cases htype : d.outType types with
      | error refusal =>
        obtain ⟨e, he⟩ := (Resize.meets_outType haccepts).within_bind_error
          (fun dtype => by rw [htype]; exact nofun) _ .resize types
        have hfailed := herror (hinfer.trans he)
        simp [hfailed, husable, hshort]
      | ok dtype =>
        rw [htype] at hinfer
        have hadded : ∃ o after, outcome = .ok o after := by
          rw [hrun]
          unfold addOp
          rw [hinfer]
          exact ⟨_, _, rfl⟩
        obtain ⟨o, after, hok⟩ := hadded
        refine ⟨by simp [hok, husable], by simp [hok, hshort], ?_⟩
        intro _ _ _ hdtype
        obtain rfl := Except.ok.inj hdtype
        exact ⟨⟨o, after, hok⟩, hinfer, fun _ => Resize.resolvedBy_unreached, Resize.resolvedBy_take⟩
  · obtain ⟨e, he⟩ := h.exists_error_of_unusable haccepts hcheck husable
    have hfailed := herror he
    simp [hfailed, husable]

/-- A square, and parameters for both of its axes of which the host tells one value each. -/
def starved : Graph := (ofCalls [
  .tensor ⟨[2, 2], .float32⟩,
  .tensor ⟨[2], .float32⟩,
  .tensor ⟨[2], .int64⟩,
  .host fun t => .ok (some (if t.id = ⟨1⟩ then .reals [2.0] else .ints64 [4]))]).1

def bothAxes (target : ResizeTarget) : Resize Float32 := { target, axes := some [0, 1] }

theorem starved_tells_scale :
    starved.Tells [⟨0⟩, ⟨1⟩] [⟨[2, 2], .float32⟩, ⟨[2], .float32⟩] (.reals [2.0]) :=
  ⟨rfl, ⟨1⟩, _, rfl, rfl, rfl⟩

theorem usable_scale : (bothAxes .scales).Usable [2, 2] [0, 1] (.reals [2.0]) :=
  (Resize.usable_scales_iff rfl).mpr ⟨_, rfl, by decide⟩

/-- The rows are doubled and the columns keep the scale one; sizes are looked up beyond the first. -/
theorem resize_on_payload_starved :
    starved.Reachable ∧
      starved.Tells [⟨0⟩, ⟨1⟩] [⟨[2, 2], .float32⟩, ⟨[2], .float32⟩] (.reals [2.0]) ∧
      starved.Tells [⟨0⟩, ⟨2⟩] [⟨[2, 2], .float32⟩, ⟨[2], .int64⟩] (.ints64 [4]) ∧
      (∃ o after, (Update.addOp (.resize (bothAxes .scales)) [⟨0⟩, ⟨1⟩]).run (starved, 4) =
        .ok o after) ∧
      ((bothAxes .scales).resolvedBy [2, 2] [0, 1] (.reals [2.0])).scales[1]? =
        some ScaleFactor.one ∧
      (Update.addOp (.resize (bothAxes .sizes)) [⟨0⟩, ⟨2⟩]).run (starved, 4) =
        .error .fault (starved, 4) := by
  have hg : starved.Reachable := reachable_ofCalls _
  have htells : starved.Tells [⟨0⟩, ⟨2⟩] [⟨[2, 2], .float32⟩, ⟨[2], .int64⟩] (.ints64 [4]) :=
    ⟨rfl, ⟨2⟩, _, rfl, rfl, rfl⟩
  have husable : (bothAxes .sizes).Usable [2, 2] [0, 1] (.ints64 [4]) :=
    (Resize.usable_sizes_iff rfl).mpr ⟨_, rfl, by decide⟩
  obtain ⟨_, _, hresolved⟩ :=
    hg.resize_on_payload 4 (d := bothAxes .scales) starved_tells_scale rfl rfl
  obtain ⟨haccepted, _, hunreached, _⟩ :=
    hresolved .float32 usable_scale (fun h => nomatch h.1) rfl
  obtain ⟨_, hfault, _⟩ := hg.resize_on_payload 4 (d := bothAxes .sizes) htells rfl rfl
  exact ⟨hg, starved_tells_scale, htells, haccepted, hunreached 1 (by decide) (by decide),
    hfault.mpr ⟨husable, rfl, by decide⟩⟩

/-- Values in another number than the axes are not always turned down with an error that leaves the graph as
it is: a scale factor for one of two axes is accepted. -/
theorem resize_accepts_too_few_scales : ¬ ∀ (g : Graph) (guid : Nat) (d : Resize Float32)
    (ids : List TensorId) (types : List TensorType) (s : Shape) (axes : List Nat) (p : Payload),
    g.Reachable → g.Tells ids types p → d.checkShapes types = .ok (s, axes) →
    p.length ≠ axes.length →
    ∃ e, (Update.addOp (.resize d) ids).run (g, guid) = .error (.error e) (g, guid) := by
  intro h
  have hg : starved.Reachable := reachable_ofCalls _
  have hinfer := starved_tells_scale.infer_resize_resolved (d := bothAxes .scales) rfl rfl usable_scale
    fun h => nomatch h.1
  obtain ⟨e, he⟩ := h starved 4 (bothAxes .scales) _ _ _ _ _ hg starved_tells_scale rfl (by decide)
  rw [Update.addOp_run hg.linked, addOp, hinfer] at he
  cases he

end Graph

end DataflowCost
