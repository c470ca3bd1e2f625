import DataflowCost.Proofs.Accounts
import DataflowCost.Proofs.Resolution.Operators
import DataflowCost.Proofs.Valued

/-! Layout changes that change nothing. Whether one is charged as a copy is told from its attributes and not
from the two shapes, and what changes nothing is free unless it is flattened behind its second axis. -/
namespace DataflowCost

open Scalar
open scoped ExactArithmetic

/-- What is charged for work that touches no element. -/
def Metrics.free {α : Type} [Scalar α] : Metrics α := ⟨negligibleTime, 0.0, 1.0⟩

/-- What is charged for a copy at a given rate. -/
def Metrics.copied {α : Type} [Scalar α] (rate : α) (x y : TensorType) (cx : CostContext) :
    Metrics α where
  computeTime := x.elements / rate
  memoryCost := Io.inTraffic ⟨[x], [y]⟩ cx + Io.outTraffic ⟨[x], [y]⟩ cx
  parallelism := capped (x.elements / 128.0) 512.0

theorem Metrics.relayout_eq_free {α : Type} [Scalar α] {copies : Bool} (h : copies = false) (rate : α)
    (io : Io) (cx : CostContext) : Metrics.relayout copies rate io cx = some .free := by
  rw [h]
  rfl

theorem Reshape.copies_self (s : Shape) : copies s s = false := by
  simp [copies]

namespace Shape

variable {s : Shape} {axes : List Nat}

/-- A shape that has all of its axes left has had none taken out. -/
theorem eq_nil_of_dropping_eq (hascending : axes.Pairwise (· < ·))
    (hunit : ∀ axis ∈ axes, s[axis]? = some 1) (h : s.dropping axes = s) : axes = [] := by
  have hlt (axis : Nat) (hmem : axis ∈ axes) : axis < s.length :=
    (List.getElem?_eq_some_iff.mp (hunit axis hmem)).1
  -- What is left and what is taken out add up to the rank, and what is left is all of it.
  have hall := keptBefore_add_length (hascending.imp Nat.ne_of_lt) hlt
  have hlen : keptBefore axes s.length = s.length := by
    have hlen := congrArg List.length h
    rwa [dropping, List.length_map, ← List.countP_eq_length_filter] at hlen
  apply List.length_eq_zero_iff.mp
  omega

/-- A shape that is cut into two extents and stays the same has two axes, of which the cut is in front or
between or the second one has one position. -/
theorem cut_eq_self {axis : Nat} (hle : axis ≤ s.length)
    (h : [Shape.size (s.take axis), Shape.size (s.drop axis)] = s) :
    axis ≤ 1 ∨ axis = 2 ∧ ∃ n, s = [n, 1] := by
  have hlen : s.length = 2 := by rw [← h]; rfl
  by_cases hcut : axis ≤ 1
  · exact .inl hcut
  · obtain rfl : axis = 2 := by omega
    -- Nothing is behind the cut, and an empty product is one.
    have hnone : s.drop 2 = [] := List.drop_eq_nil_of_le hlen.le
    rw [hnone] at h
    exact .inr ⟨rfl, _, h.symm⟩

end Shape

section Exact

variable {α K : Type} [Scalar α] [Field K] [LinearOrder K] [IsStrictOrderedRing K] [Valued α K]

theorem value_negligibleTime : value (negligibleTime : α) = 1e-6 :=
  Valued.value_literal _ _ _

theorem Metrics.value_free : value (free : Metrics α).computeTime = 1e-6 ∧
    value (free : Metrics α).memoryCost = 0 := by
  refine ⟨value_negligibleTime, ?_⟩
  rw [free, Valued.value_literal]
  norm_num

/-- A copy that takes as much time as work that touches no element takes memory. -/
theorem Metrics.not_free_of_copied (x y : TensorType) (cx : CostContext) :
    ¬(value (copied (α := α) 8e9 x y cx).computeTime = 1e-6 ∧
      value (copied (α := α) 8e9 x y cx).memoryCost = 0) := by
  rintro ⟨htime, hmemory⟩
  -- Only eight thousand elements are copied in that time, and their traffic is not nothing.
  have hsize : (x.size : K) = 8000 := by
    rw [copied, Valued.value_div, Valued.value_literal, value_elements,
      div_eq_iff (by norm_num)] at htime
    rw [htime]
    norm_num
  have hweight : (0 : K) < cx.weight x.dtype := Nat.cast_pos.mpr (cx.weight_pos x.dtype)
  have hout : (0 : K) ≤ y.size * cx.weight y.dtype := by positivity
  rw [copied, Valued.value_add, Io.value_inTraffic, Io.value_outTraffic] at hmemory
  simp only [List.map_cons, List.map_nil, List.sum_cons, List.sum_nil, add_zero, hsize] at hmemory
  linarith

end Exact

namespace Operator

/-- The layout change leaves the shape as it was, or puts all axes where they were. -/
def ChangesNothing (s t : Shape) : Operator → Prop
  | reshape _ | flatten _ | squeeze _ | unsqueeze _ => t = s
  | transpose d => d.resolved = List.range s.length
  | _ => False

/-- A flattening that cuts behind the second axis. -/
def CutsSecond : Operator → Prop
  | flatten d => d.resolved = 2
  | _ => False

variable {op : Operator} {x y : TensorType} {cx : CostContext} {α : Type} [Scalar α]

/-- An output that a resolution describes. -/
theorem Registered.shape_eq {r : Resolution} {s : Shape} (h : op.Registered [x] [y])
    (hr : op.resolution? = some r) (hs : r.shapes x.shape = [s]) : r.Fits x.shape ∧ y.shape = s := by
  obtain ⟨_, ⟨⟩, hdescribes⟩ := h.exists_describes hr
  have hshapes : [y.shape] = [s] := hdescribes.shapes_eq.trans hs
  exact ⟨hdescribes.fits, List.singleton_inj.mp hshapes⟩

/-- What changes nothing is free, unless it cuts behind the second axis. -/
theorem Registered.metrics_free (h : op.Registered [x] [y])
    (hnothing : op.ChangesNothing x.shape y.shape) (hcut : ¬ op.CutsSecond) :
    op.metrics (α := α) ⟨[x], [y]⟩ cx = some .free := by
  cases op with
  | reshape d =>
    have hshape : y.shape = x.shape := hnothing
    have hcopies : Reshape.copies x.shape y.shape = false := by rw [hshape, Reshape.copies_self]
    exact Metrics.relayout_eq_free hcopies _ _ _
  | flatten d =>
    obtain ⟨hle, hshape⟩ := h.shape_eq rfl rfl
    rw [hnothing] at hshape
    -- A cut in front of or behind the first axis is free. One behind the second is told apart by `hcut` alone.
    have hcopies : decide (1 < d.resolved) = false := by
      obtain hfirst | ⟨hsecond, _⟩ := Shape.cut_eq_self hle hshape.symm
      · exact decide_eq_false hfirst.not_gt
      · exact absurd hsecond hcut
    exact Metrics.relayout_eq_free hcopies _ _ _
  | squeeze d =>
    obtain ⟨⟨_, hascending, hunit⟩, hshape⟩ := h.shape_eq rfl rfl
    rw [hnothing] at hshape
    -- Only an axis that is taken out can be an inner one, and none is.
    have hnone : d.resolved = [] := Shape.eq_nil_of_dropping_eq hascending hunit hshape.symm
    have hcopies : touchesInner d.resolved d.rank = false := by rw [hnone]; rfl
    exact Metrics.relayout_eq_free hcopies _ _ _
  | unsqueeze d =>
    obtain ⟨⟨hrank, _⟩, hshape⟩ := h.shape_eq rfl rfl
    rw [hnothing] at hshape
    -- Every axis that is put in would add to the rank.
    have hnone : d.resolved = [] := by
      have hlen := congrArg List.length hshape
      rw [Shape.length_tabulate, hrank] at hlen
      exact List.length_eq_zero_iff.mp (Nat.add_eq_left.mp hlen.symm)
    have hcopies : touchesInner d.resolved d.outRank = false := by rw [hnone]; rfl
    exact Metrics.relayout_eq_free hcopies _ _ _
  | transpose d =>
    -- Each of the three figures looks at the axes for itself.
    have hidentity : Transpose.isIdentity d.resolved = true := by
      rw [show d.resolved = _ from hnothing, Transpose.isIdentity, List.length_range]
      exact beq_self_eq_true _
    have htime : Transpose.computeTime d.resolved (x.elements : α) = negligibleTime := if_pos hidentity
    have hmemory (traffic : α) : Transpose.memoryCost d.resolved traffic = 0.0 := if_pos hidentity
    have hparallelism : Transpose.parallelism d.resolved (x.elements : α) = 1.0 := if_pos hidentity
    have hmetrics : (transpose d).metrics (α := α) ⟨[x], [y]⟩ cx =
        some ⟨Transpose.computeTime d.resolved x.elements, Transpose.memoryCost d.resolved
          (Io.inTraffic ⟨[x], [y]⟩ cx + Io.outTraffic ⟨[x], [y]⟩ cx),
          Transpose.parallelism d.resolved x.elements⟩ := rfl
    rw [hmetrics, htime, hmemory, hparallelism]
    rfl
  | _ => exact hnothing.elim

/-- A cut behind the second axis changes nothing of a single column, and of nothing else. -/
theorem Registered.exists_column (h : op.Registered [x] [y])
    (hnothing : op.ChangesNothing x.shape y.shape) (hcut : op.CutsSecond) : ∃ n, x.shape = [n, 1] := by
  cases op with
  | flatten d =>
    have hsecond : d.resolved = 2 := hcut
    obtain ⟨hle, hshape⟩ := h.shape_eq rfl rfl
    rw [hnothing] at hshape
    obtain hfirst | ⟨_, hcolumn⟩ := Shape.cut_eq_self hle hshape.symm
    · omega
    · exact hcolumn
  | _ => exact hcut.elim

theorem metrics_copied (hcut : op.CutsSecond) :
    op.metrics (α := α) ⟨[x], [y]⟩ cx = some (.copied 8e9 x y cx) := by
  cases op with
  | flatten d =>
    have hsecond : d.resolved = 2 := hcut
    have hmetrics : (flatten d).metrics (α := α) ⟨[x], [y]⟩ cx =
        Metrics.relayout (1 < d.resolved) 8e9 ⟨[x], [y]⟩ cx := rfl
    rw [hmetrics, hsecond]
    rfl
  | _ => exact hcut.elim

end Operator

namespace Graph

variable {g : Graph} {o : OpId} {v : OpView} {x y : TensorType}

theorem opMetrics_eq_of_metrics {α : Type} [Scalar α] {c : Config α} {m : Metrics α}
    (hv : g.view o = .ok v) (hin : v.inputTypes = [x]) (hout : v.outputs.map Tensor.type = [y])
    (h : v.op.metrics ⟨[x], [y]⟩ c.context = some m) : c.opMetrics g o = .ok m := by
  refine Config.opMetrics_eq_ok_iff.mpr ⟨v, hv, OpView.orFault_eq_ok_iff.mpr ?_⟩
  rwa [OpView.io, hin, hout]

/-- Layout changes that change nothing are free. The exception is to flatten a single column behind its second
axis, which is charged as a copy and never comes to the figures of what is free. -/
theorem Reachable.layout_noops_are_free (hg : g.Reachable) (hv : g.view o = .ok v)
    (hin : v.inputTypes = [x]) (hout : v.outputs.map Tensor.type = [y])
    (hnothing : v.op.ChangesNothing x.shape y.shape) :
    (¬ v.op.CutsSecond →
      ∀ {α : Type} [Scalar α] (c : Config α), c.opMetrics g o = .ok .free) ∧
    (v.op.CutsSecond → (∃ n, x.shape = [n, 1]) ∧
      ∀ {α : Type} [Scalar α] (c : Config α), c.opMetrics g o = .ok (.copied 8e9 x y c.context)) ∧
    ∀ {α K : Type} [Scalar α] [Field K] [LinearOrder K] [IsStrictOrderedRing K] [Valued α K]
      (c : Config α) {m : Metrics α}, c.opMetrics g o = .ok m →
        ((value m.computeTime = 1e-6 ∧ value m.memoryCost = 0) ↔ ¬ v.op.CutsSecond) := by
  have hop : v.op.Registered [x] [y] := by
    rw [← hin, ← hout]
    exact hg.registered_view hv
  have hfree (hcut : ¬ v.op.CutsSecond) {α : Type} [Scalar α] (c : Config α) :
      c.opMetrics g o = .ok .free :=
    opMetrics_eq_of_metrics hv hin hout (hop.metrics_free hnothing hcut)
  have hcopied (hcut : v.op.CutsSecond) {α : Type} [Scalar α] (c : Config α) :
      c.opMetrics g o = .ok (.copied 8e9 x y c.context) :=
    opMetrics_eq_of_metrics hv hin hout (Operator.metrics_copied hcut)
  refine ⟨hfree, fun hcut => ⟨hop.exists_column hnothing hcut, hcopied hcut⟩, ?_⟩
  intro α K _ _ _ _ _ c m hm
  by_cases hcut : v.op.CutsSecond
  · obtain rfl := Except.ok.inj ((hcopied hcut c).symm.trans hm)
    exact iff_of_false (Metrics.not_free_of_copied x y _) (not_not.mpr hcut)
  · obtain rfl := Except.ok.inj ((hfree hcut c).symm.trans hm)
    exact iff_of_true Metrics.value_free hcut

/-- One column, regrouped into itself in two ways. -/
def column : Graph :=
  (ofCalls [
    .tensor ⟨[6, 1], .float32⟩,
    .op (.reshape { target := [0, -1] }) [⟨0⟩],
    .op (.flatten { axis := 2 }) [⟨0⟩]]).1

theorem exists_views_column : ∃ v w, column.view ⟨0⟩ = .ok v ∧
    v.op = .reshape { target := [0, -1], resolved := [6, 1] } ∧
    v.inputTypes = [⟨[6, 1], .float32⟩] ∧ v.outputs.map Tensor.type = [⟨[6, 1], .float32⟩] ∧
    column.view ⟨1⟩ = .ok w ∧ w.op = .flatten { axis := 2, resolved := 2 } ∧
    w.inputTypes = [⟨[6, 1], .float32⟩] ∧ w.outputs.map Tensor.type = [⟨[6, 1], .float32⟩] :=
  ⟨_, _, rfl, rfl, rfl, rfl, rfl, rfl, rfl, rfl⟩

/-- The target leaves the shape alone for nothing, and the cut does so at the price of a copy. -/
theorem layout_noops_are_free_column : ∃ v w, column.view ⟨0⟩ = .ok v ∧ column.view ⟨1⟩ = .ok w ∧
    v.op.ChangesNothing [6, 1] [6, 1] ∧ ¬ v.op.CutsSecond ∧
    w.op.ChangesNothing [6, 1] [6, 1] ∧ w.op.CutsSecond ∧
    ∀ c : Config ℝ, c.opMetrics column ⟨0⟩ = .ok .free ∧
      ∃ m, c.opMetrics column ⟨1⟩ = .ok m ∧ ¬(m.computeTime = negligibleTime ∧ m.memoryCost = 0) := by
  have hg : column.Reachable := reachable_ofCalls _
  obtain ⟨v, w, hv, hop, hin, hout, hw, hop', hin', hout'⟩ := exists_views_column
  have hnothing : v.op.ChangesNothing [6, 1] [6, 1] := by rw [hop]; rfl
  have hkept : ¬ v.op.CutsSecond := by rw [hop]; exact id
  have hnothing' : w.op.ChangesNothing [6, 1] [6, 1] := by rw [hop']; rfl
  have hcut : w.op.CutsSecond := by rw [hop']; rfl
  obtain ⟨hfree, _⟩ := hg.layout_noops_are_free hv hin hout hnothing
  obtain ⟨_, hcopied, hiff⟩ := hg.layout_noops_are_free hw hin' hout' hnothing'
  refine ⟨v, w, hv, hw, hnothing, hkept, hnothing', hcut, fun c => ⟨hfree hkept c, _,
    (hcopied hcut).2 c, ?_⟩⟩
  rintro ⟨htime, hmemory⟩
  have htime := (congrArg value htime).trans value_negligibleTime
  exact (hiff c ((hcopied hcut).2 c)).mp ⟨htime, hmemory⟩ hcut

/-- Not every layout change that changes nothing is free: a column is flattened into itself at the price of a
copy. -/
theorem flattened_column_is_charged : ¬ ∀ (g : Graph) (o : OpId) (v : OpView) (x y : TensorType)
    (c : Config ℝ), g.Reachable → g.view o = .ok v → v.inputTypes = [x] →
    v.outputs.map Tensor.type = [y] → v.op.ChangesNothing x.shape y.shape →
    ∃ m, c.opMetrics g o = .ok m ∧ m.computeTime = negligibleTime ∧ m.memoryCost = 0 := by
  intro h
  have hg : column.Reachable := reachable_ofCalls _
  obtain ⟨_, w, _, _, _, _, hw, hop, hin, hout⟩ := exists_views_column
  have hnothing : w.op.ChangesNothing [6, 1] [6, 1] := by rw [hop]; rfl
  have hcut : w.op.CutsSecond := by rw [hop]; rfl
  obtain ⟨m, hm, htime, hmemory⟩ := h column ⟨1⟩ w _ _ .standard hg hw hin hout hnothing
  have hcopied := opMetrics_eq_of_metrics (c := .standard) hw hin hout
    (Operator.metrics_copied (α := ℝ) hcut)
  obtain rfl := Except.ok.inj (hcopied.symm.trans hm)
  have htime := (congrArg value htime).trans value_negligibleTime
  exact Metrics.not_free_of_copied (α := ℝ) _ _ _ ⟨htime, hmemory⟩

end Graph

end DataflowCost
