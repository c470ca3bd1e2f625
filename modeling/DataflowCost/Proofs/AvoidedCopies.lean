import DataflowCost.Proofs.FreeLayouts
import DataflowCost.Proofs.Preference

/-! Layout changes that touch no element beside those that copy. The first kind is charged a fixed time and the
second one by the element, so that a copy of few elements is the faster of the two. -/
namespace DataflowCost

open Scalar
open scoped ExactArithmetic

namespace Transpose

variable {α K : Type} [Scalar α] [Field K] [LinearOrder K] [IsStrictOrderedRing K] [Valued α K]

theorem isIdentity_iff {axes : List Nat} :
    isIdentity axes = true ↔ axes = List.range axes.length :=
  beq_iff_eq

/-- How many steps a transposition takes for an element. Axes that move far and inner axes that move at all add
to the work and slow it down. -/
def work (K : Type) [Field K] (axes : List Nat) : K :=
  (1 + 0.2 * ((farMoves axes).sum : K) + 0.5 * (innerMoves axes : K)) *
    (if (farMoves axes).isEmpty then 1 else 2 : Nat) * if 0 < innerMoves axes then 1.5 else 1

theorem one_le_work (axes : List Nat) : 1 ≤ work K axes := by
  -- None of the three factors speeds the copy up.
  have hcomplexity : (1 : K) ≤ 1 + 0.2 * ((farMoves axes).sum : K) + 0.5 * (innerMoves axes : K) := by
    have hfar : (0 : K) ≤ 0.2 * ((farMoves axes).sum : K) := by positivity
    have hinner : (0 : K) ≤ 0.5 * (innerMoves axes : K) := by positivity
    linarith
  have hfar : (1 : K) ≤ (if (farMoves axes).isEmpty then 1 else 2 : Nat) := by
    split <;> norm_num
  have hinner : (1 : K) ≤ if 0 < innerMoves axes then 1.5 else 1 := by
    split <;> norm_num
  exact one_le_mul_of_one_le_of_one_le (one_le_mul_of_one_le_of_one_le hcomplexity hfar) hinner

/-- Two thousand steps take as long as what touches no element, and every element takes a step. -/
theorem negligible_le_iff (axes : List Nat) (size : Nat) :
    ((1e-6 : K) ≤ size * work K axes / 2e9 ↔ 2000 ≤ size * work K axes) ∧
      (2000 ≤ size → (2000 : K) ≤ size * work K axes) := by
  constructor
  · rw [le_div_iff₀ (by norm_num)]
    norm_num
  · intro hsize
    calc (2000 : K) ≤ size := by exact_mod_cast hsize
      _ ≤ size * work K axes := le_mul_of_one_le_right (Nat.cast_nonneg _) (one_le_work axes)

/-- Two billion steps are taken in a second. -/
theorem value_computeTime (axes : List Nat) (size : α) : value (computeTime axes size) =
    if axes = List.range axes.length then 1e-6 else value size * work K axes / 2e9 := by
  -- The weight is applied to each distance before they are added.
  have hfar : (((farMoves axes).map fun move => (0.2 * ofNat move : α)).map value).sum =
      0.2 * ((farMoves axes).sum : K) := by
    rw [List.map_map, Nat.cast_list_sum, ← List.sum_map_mul_left]
    simp [Function.comp_def]
  by_cases hidentity : axes = List.range axes.length
  · rw [computeTime, if_pos (isIdentity_iff.mpr hidentity), if_pos hidentity]
    exact Valued.value_literal _ _ _
  · rw [computeTime, if_neg (isIdentity_iff.not.mpr hidentity), if_neg hidentity]
    -- What slows the rate down is counted as work instead.
    have hspeed : value (if 0 < innerMoves axes then
        (if (farMoves axes).isEmpty then 2e9 else 2e9 / 2.0 : α) / 1.5
        else if (farMoves axes).isEmpty then 2e9 else 2e9 / 2.0) =
        2e9 / ((if (farMoves axes).isEmpty then 1 else 2 : Nat) *
          if 0 < innerMoves axes then 1.5 else 1) := by
      split <;> split <;> simp <;> norm_num
    have hone : value (1.0 : α) = 1 := by norm_num
    simp only [Valued.value_div, Valued.value_mul, Valued.value_add, Valued.value_literal 5,
      Valued.value_ofNat, value_sum, hone, hfar, hspeed, work]
    rw [div_div_eq_mul_div, mul_assoc, mul_assoc]

end Transpose

namespace Metrics

variable {α K : Type} [Scalar α] [Field K] [LinearOrder K] [IsStrictOrderedRing K] [Valued α K]

/-- Compute time speaks against nothing that takes no longer. -/
theorem decide_ne_of_computeTime_le {epsilon : α} {plain fused : Metrics α}
    (hepsilon : 0 ≤ value epsilon) (h : value fused.computeTime ≤ value plain.computeTime) :
    decide epsilon plain fused ≠ (false, .computeTime) := by
  by_cases htied : tied epsilon plain.computeTime fused.computeTime = true
  · -- What ties in time is decided by another figure, or by none.
    unfold decide
    rw [htied]
    split
    next hnot => cases hnot
    next =>
      split
      · exact fun heq => nomatch congrArg Prod.snd heq
      · split <;> exact fun heq => nomatch congrArg Prod.snd heq
  · have hne : value fused.computeTime ≠ value plain.computeTime := by
      intro heq
      rw [tied_iff, heq, sub_self, abs_zero] at htied
      exact htied (by positivity)
    have hlt : lt fused.computeTime plain.computeTime = true :=
      (Valued.lt_iff _ _).mpr (lt_of_le_of_ne h hne)
    unfold decide
    rw [Bool.eq_false_iff.mpr htied, hlt]
    exact fun heq => nomatch congrArg Prod.fst heq

/-- Time speaks against what takes longer by more than the window. -/
theorem decide_eq_of_window_lt {epsilon : α} {plain fused : Metrics α}
    (hlt : value plain.computeTime < value fused.computeTime)
    (h : value epsilon * max |value plain.computeTime| |value fused.computeTime| <
      value fused.computeTime - value plain.computeTime) :
    decide epsilon plain fused = (false, .computeTime) := by
  have huntied : tied epsilon plain.computeTime fused.computeTime = false := by
    rw [Bool.eq_false_iff, Ne, tied_iff, abs_sub_comm, abs_of_pos (sub_pos.mpr hlt)]
    exact not_le.mpr h
  have hnot : lt fused.computeTime plain.computeTime = false := by
    rw [Bool.eq_false_iff, Ne, Valued.lt_iff]
    exact hlt.not_gt
  unfold decide
  rw [huntied, hnot]
  rfl

end Metrics

namespace Graph

/-- A graph in which another operator stands for one. Every other operator has a counterpart with the same
definition and tensors of the same types. -/
structure Replacement (g g' : Graph) (o o' : OpId) where
  ops : OpId ≃ OpId
  perm : (g.opIds.map ops).Perm g'.opIds
  replaced : ops o = o'
  kept : ∀ p ∈ g.opIds, p ≠ o → ∃ v v', g.view p = .ok v ∧ g'.view (ops p) = .ok v' ∧
    v'.op = v.op ∧ v'.io = v.io

variable {α K : Type} [Scalar α] [Field K] [LinearOrder K] [IsStrictOrderedRing K] [Valued α K]
  {g g' : Graph} {o o' : OpId} {v v' : OpView} {x : TensorType} {c : Config α}

omit [Field K] [LinearOrder K] [IsStrictOrderedRing K] [Valued α K] in
theorem Reachable.exists_outputs_of_opMetrics (hg : g.Reachable) (hv : g.view o = .ok v)
    (hin : v.inputTypes = [x]) {op : Operator} (hop : v.op = op) {m : Metrics α}
    (hm : c.opMetrics g o = .ok m) : ∃ outputs, op.Registered [x] outputs ∧
      op.metrics ⟨[x], outputs⟩ c.context = some m := by
  obtain ⟨_, hw, hm⟩ := Config.opMetrics_eq_ok_iff.mp hm
  obtain rfl := Except.ok.inj (hv.symm.trans hw)
  rw [← hop, ← hin]
  exact ⟨_, hg.registered_view hv, OpView.orFault_eq_ok_iff.mp hm⟩

theorem Reachable.value_time_transpose (hg : g.Reachable) (hv : g.view o = .ok v)
    (hin : v.inputTypes = [x]) {d : Transpose} (hop : v.op = .transpose d) {m : Metrics α}
    (hrow : c.opMetrics g o = .ok m) : value m.computeTime =
      if d.resolved = List.range x.rank then 1e-6
      else (x.size : K) * Transpose.work K d.resolved / 2e9 := by
  obtain ⟨outputs, hregistered, hm⟩ := hg.exists_outputs_of_opMetrics hv hin hop hrow
  obtain ⟨_, ⟨⟩, hdescribes⟩ := hregistered.exists_describes rfl
  have hperm : d.resolved.Perm (List.range x.rank) := hdescribes.fits
  -- The axes are compared with as many as are listed. They are a permutation, so that is the rank.
  have hlen : d.resolved.length = x.rank := by rw [hperm.length_eq, List.length_range]
  have htime := Transpose.value_computeTime d.resolved (x.elements : α)
  rw [hlen, value_elements] at htime
  obtain rfl := Option.some.inj hm
  exact htime

theorem Reachable.exists_time_transpose (hg : g.Reachable) (c : Config α) (hv : g.view o = .ok v)
    (hin : v.inputTypes = [x]) {d : Transpose} (hop : v.op = .transpose d) :
    ∃ m, c.opMetrics g o = .ok m ∧ value m.computeTime =
      if d.resolved = List.range x.rank then 1e-6
      else (x.size : K) * Transpose.work K d.resolved / 2e9 := by
  obtain ⟨_, m, _, hm, _⟩ := hg.exists_row c (mem_opIds_of_view hv)
  exact ⟨m, hm, hg.value_time_transpose hv hin hop hm⟩

theorem Reachable.value_time_reshape (hg : g.Reachable) (hv : g.view o = .ok v)
    (hin : v.inputTypes = [x]) {d : Reshape} (hop : v.op = .reshape d) {m : Metrics α}
    (hrow : c.opMetrics g o = .ok m) : value m.computeTime =
      if Reshape.copies x.shape d.resolved then (x.size : K) / 8e9 else 1e-6 := by
  obtain ⟨outputs, hregistered, hm⟩ := hg.exists_outputs_of_opMetrics hv hin hop hrow
  obtain ⟨_, ⟨⟩, hdescribes⟩ := hregistered.exists_describes rfl
  obtain ⟨y, rfl, hy⟩ := List.map_eq_singleton_iff.mp hdescribes.shapes_eq
  have hmetrics : (Operator.reshape d).metrics ⟨[x], [y]⟩ c.context =
      Metrics.relayout (Reshape.copies x.shape y.shape) (8e9 : α) ⟨[x], [y]⟩ c.context := rfl
  rw [hmetrics, hy] at hm
  by_cases hcopies : Reshape.copies x.shape d.resolved = true
  · rw [hcopies] at hm
    obtain rfl : Metrics.copied 8e9 x y c.context = m := Option.some.inj hm
    rw [if_pos hcopies, Metrics.copied, Valued.value_div, value_elements, Valued.value_literal]
  · rw [Metrics.relayout_eq_free (Bool.eq_false_iff.mpr hcopies)] at hm
    obtain rfl := Option.some.inj hm
    rw [if_neg hcopies]
    exact Metrics.value_free.1

include K in
theorem Reachable.graphMetrics_eq_of_perm (hg : g.Reachable) {order : List OpId}
    {rows : List (Metrics α)} (hperm : order.Perm g.opIds)
    (hrows : order.mapM (c.opMetrics g) = .ok rows) :
    c.graphMetrics g = .ok (.total c.parallelism rows) := by
  obtain ⟨registered, hregistered, hsame⟩ := exists_mapM_of_perm hperm.symm hrows
  rw [Config.graphMetrics_eq_of_mapM hg hregistered, Metrics.total_eq_of_perm _ hsame]

theorem Replacement.opMetrics_eq (ρ : g.Replacement g' o o') {p : OpId} (hp : p ∈ g.opIds)
    (hne : p ≠ o) : c.opMetrics g' (ρ.ops p) = c.opMetrics g p := by
  obtain ⟨v, v', hv, hv', hop, hio⟩ := ρ.kept p hp hne
  rw [Config.opMetrics, Config.opMetrics, hv, hv']
  show v'.metrics c.context = v.metrics c.context
  rw [OpView.metrics, OpView.metrics, hop, hio]

include K in
/-- The estimates of the two operators stand among the same others. -/
theorem Replacement.exists_totals (ρ : g.Replacement g' o o') (hg : g.Reachable)
    (hg' : g'.Reachable) {m m' : Metrics α} (hm : c.opMetrics g o = .ok m)
    (hm' : c.opMetrics g' o' = .ok m') : ∃ rest,
      c.graphMetrics g = .ok (.total c.parallelism (m :: rest)) ∧
      c.graphMetrics g' = .ok (.total c.parallelism (m' :: rest)) := by
  -- Totals do not depend on the order, so the operator that is replaced is put first in both graphs.
  have hfirst : (o :: g.opIds.erase o).Perm g.opIds :=
    (List.perm_cons_erase (Config.mem_opIds_of_opMetrics hm)).symm
  obtain ⟨registered, hregistered, _⟩ := c.exists_total hg
  obtain ⟨rows, hrows, _⟩ := exists_mapM_of_perm hfirst hregistered
  obtain ⟨first, rest, ho, hrest, rfl⟩ := List.forall₂_cons_left_iff.mp (mapM_eq_ok_iff.mp hrows)
  obtain rfl := Except.ok.inj (hm.symm.trans ho)
  have hothers (p : OpId) (hp : p ∈ g.opIds.erase o) : c.opMetrics g' (ρ.ops p) = c.opMetrics g p := by
    obtain ⟨hne, hp⟩ := nodup_opIds.mem_erase_iff.mp hp
    exact ρ.opMetrics_eq hp hne
  have hkept : List.Forall₂ (fun p n => c.opMetrics g' (ρ.ops p) = .ok n) (g.opIds.erase o) rest := by
    apply ((List.forall₂_and_left _ _).mpr ⟨hothers, hrest⟩).imp
    intro p n ⟨hsame, hn⟩
    exact hsame.trans hn
  have hrows' : ((o :: g.opIds.erase o).map ρ.ops).mapM (c.opMetrics g') = .ok (m' :: rest) := by
    rw [mapM_eq_ok_iff, List.forall₂_map_left_iff]
    exact .cons (by rw [ρ.replaced, hm']) hkept
  exact ⟨rest, hg.graphMetrics_eq_of_perm hfirst hrows,
    hg'.graphMetrics_eq_of_perm ((hfirst.map ρ.ops).trans ρ.perm) hrows'⟩

/-- Time never speaks against a replacement that takes no longer. -/
theorem Replacement.exists_decision (ρ : g.Replacement g' o o') (hg : g.Reachable)
    (hg' : g'.Reachable) {m m' : Metrics α} (hm : c.opMetrics g o = .ok m)
    (hm' : c.opMetrics g' o' = .ok m') (hepsilon : 0 ≤ value c.fuseEpsilon)
    (htime : value m'.computeTime ≤ value m.computeTime) :
    ∃ decision, c.fusionDecision g g' = .ok decision ∧
      ¬(decision.fuse = false ∧ decision.criterion = .computeTime) := by
  obtain ⟨rest, htotal, htotal'⟩ := ρ.exists_totals hg hg' hm hm'
  refine ⟨_, Config.fusionDecision_eq htotal htotal', fun ⟨hfuse, hcriterion⟩ => ?_⟩
  refine Metrics.decide_ne_of_computeTime_le hepsilon ?_ (Prod.ext hfuse hcriterion)
  rw [Metrics.value_total_computeTime, Metrics.value_total_computeTime]
  simpa using htime

/-- Where it pays to avoid a copy. To leave a tensor alone takes no longer than to transpose it in two thousand
steps or more, and so from two thousand elements on. To regroup it in place takes no longer than to copy it
from eight thousand elements on. Time never speaks against what takes no longer. -/
theorem Reachable.avoided_copies (hg : g.Reachable) (hg' : g'.Reachable) (c : Config α)
    (hv : g.view o = .ok v) (hv' : g'.view o' = .ok v') (hin : v.inputTypes = [x])
    (hin' : v'.inputTypes = [x]) :
    ∃ m m', c.opMetrics g o = .ok m ∧ c.opMetrics g' o' = .ok m' ∧
      (∀ {d d' : Transpose}, v.op = .transpose d → v'.op = .transpose d' →
        d'.resolved = List.range x.rank →
          (value m'.computeTime ≤ value m.computeTime ↔ d.resolved = List.range x.rank ∨
            2000 ≤ (x.size : K) * Transpose.work K d.resolved) ∧
          (2000 ≤ x.size → value m'.computeTime ≤ value m.computeTime)) ∧
      (∀ {d d' : Reshape}, v.op = .reshape d → v'.op = .reshape d' →
        Reshape.copies x.shape d.resolved = true → Reshape.copies x.shape d'.resolved = false →
          (value m'.computeTime ≤ value m.computeTime ↔ 8000 ≤ x.size)) ∧
      (g.Replacement g' o o' → 0 ≤ value c.fuseEpsilon →
        value m'.computeTime ≤ value m.computeTime → ∃ decision,
          c.fusionDecision g g' = .ok decision ∧
            ¬(decision.fuse = false ∧ decision.criterion = .computeTime)) := by
  obtain ⟨_, m, _, hm, _⟩ := hg.exists_row c (mem_opIds_of_view hv)
  obtain ⟨_, m', _, hm', _⟩ := hg'.exists_row c (mem_opIds_of_view hv')
  refine ⟨m, m', hm, hm', fun {d d'} hd hd' hidentity => ?_, fun {d d'} hd hd' hcopies hview => ?_,
    fun ρ hepsilon htime => ρ.exists_decision hg hg' hm hm' hepsilon htime⟩
  · obtain ⟨hiff, henough⟩ := Transpose.negligible_le_iff (K := K) d.resolved x.size
    rw [hg.value_time_transpose hv hin hd hm, hg'.value_time_transpose hv' hin' hd' hm',
      if_pos hidentity]
    by_cases hsame : d.resolved = List.range x.rank
    · rw [if_pos hsame]
      exact ⟨iff_of_true le_rfl (.inl hsame), fun _ => le_rfl⟩
    · rw [if_neg hsame, or_iff_right hsame]
      exact ⟨hiff, fun hsize => hiff.mpr (henough hsize)⟩
  · rw [hg.value_time_reshape hv hin hd hm, hg'.value_time_reshape hv' hin' hd' hm', if_pos hcopies,
      hview, if_neg Bool.false_ne_true, le_div_iff₀ (by norm_num)]
    have hrate : (1e-6 : K) * 8e9 = (8000 : Nat) := by norm_num
    rw [hrate, Nat.cast_le]

/-- One layout change of a single tensor. -/
def relaid (s : Shape) (op : Operator) : Graph := (ofCalls [.tensor ⟨s, .float32⟩, .op op [⟨0⟩]]).1

/-- Rows and columns change places. -/
def turned (s : Shape) : Graph := relaid s (.transpose { permutation := [1, 0] })

/-- Rows and columns stay in their places. -/
def unturned (s : Shape) : Graph := relaid s (.transpose {})

theorem exists_view_turned (rows columns : Nat) : ∃ v, (turned [rows, columns]).view ⟨0⟩ = .ok v ∧
    v.op = .transpose ⟨[1, 0], [1, 0]⟩ ∧ v.inputTypes = [⟨[rows, columns], .float32⟩] :=
  ⟨_, rfl, rfl, rfl⟩

theorem exists_view_unturned (rows columns : Nat) :
    ∃ v, (unturned [rows, columns]).view ⟨0⟩ = .ok v ∧
      v.op = .transpose ⟨[], [0, 1]⟩ ∧ v.inputTypes = [⟨[rows, columns], .float32⟩] :=
  ⟨_, rfl, rfl, rfl⟩

/-- Two and a half thousand elements are enough, and the one graph may replace the other. -/
theorem avoided_copies_turned : (turned [50, 50]).Reachable ∧ (unturned [50, 50]).Reachable ∧
    ∃ m m' : Metrics ℝ, Config.standard.opMetrics (turned [50, 50]) ⟨0⟩ = .ok m ∧
      Config.standard.opMetrics (unturned [50, 50]) ⟨0⟩ = .ok m' ∧
      m'.computeTime ≤ m.computeTime ∧ ∃ decision,
        (Config.standard (α := ℝ)).fusionDecision (turned [50, 50]) (unturned [50, 50]) =
          .ok decision ∧ ¬(decision.fuse = false ∧ decision.criterion = .computeTime) := by
  have hg : (turned [50, 50]).Reachable := reachable_ofCalls _
  have hg' : (unturned [50, 50]).Reachable := reachable_ofCalls _
  obtain ⟨v, hv, hop, hin⟩ := exists_view_turned 50 50
  obtain ⟨v', hv', hop', hin'⟩ := exists_view_unturned 50 50
  obtain ⟨m, m', hm, hm', htranspose, _, hdecision⟩ :=
    hg.avoided_copies hg' (Config.standard (α := ℝ)) hv hv' hin hin'
  have htime : m'.computeTime ≤ m.computeTime := (htranspose hop hop' rfl).2 (by decide)
  have ρ : (turned [50, 50]).Replacement (unturned [50, 50]) ⟨0⟩ ⟨0⟩ :=
    ⟨Equiv.refl _, by decide, rfl, fun p hp hne => absurd (List.mem_singleton.mp hp) hne⟩
  have hepsilon : (0 : ℝ) ≤ 1e-9 := by norm_num
  exact ⟨hg, hg', m, m', hm, hm', htime, hdecision ρ hepsilon htime⟩

/-- Six nanoseconds for the turned square. -/
theorem exists_time_turned : ∃ m : Metrics α,
    Config.standard.opMetrics (turned [2, 2]) ⟨0⟩ = .ok m ∧ value m.computeTime = 6e-9 := by
  have hg : (turned [2, 2]).Reachable := reachable_ofCalls _
  obtain ⟨v, hv, hop, hin⟩ := exists_view_turned 2 2
  obtain ⟨m, hm, htime⟩ := hg.exists_time_transpose (Config.standard (α := α)) hv hin hop
  have hfar : Transpose.farMoves [1, 0] = [] := rfl
  have hinner : Transpose.innerMoves [1, 0] = 2 := rfl
  have hsize : TensorType.size ⟨[2, 2], .float32⟩ = 4 := rfl
  refine ⟨m, hm, htime.trans ?_⟩
  rw [if_neg (by decide), Transpose.work, hfar, hinner, hsize]
  norm_num

theorem exists_time_unturned : ∃ m : Metrics α,
    Config.standard.opMetrics (unturned [2, 2]) ⟨0⟩ = .ok m ∧ value m.computeTime = 1e-6 := by
  have hg : (unturned [2, 2]).Reachable := reachable_ofCalls _
  obtain ⟨v, hv, hop, hin⟩ := exists_view_unturned 2 2
  obtain ⟨m, hm, htime⟩ := hg.exists_time_transpose (Config.standard (α := α)) hv hin hop
  exact ⟨m, hm, htime.trans (if_pos rfl)⟩

/-- A copy of four elements takes less time than none, and the decision between two graphs holds that against
the graph without the copy. -/
theorem few_elements_are_copied_faster :
    (turned [2, 2]).Reachable ∧ (unturned [2, 2]).Reachable ∧ ∃ m m' : Metrics ℝ,
      Config.standard.opMetrics (turned [2, 2]) ⟨0⟩ = .ok m ∧
      Config.standard.opMetrics (unturned [2, 2]) ⟨0⟩ = .ok m' ∧
      m.computeTime < m'.computeTime ∧ ∃ decision,
        (Config.standard (α := ℝ)).fusionDecision (turned [2, 2]) (unturned [2, 2]) = .ok decision ∧
          decision.fuse = false ∧ decision.criterion = .computeTime := by
  have hg : (turned [2, 2]).Reachable := reachable_ofCalls _
  have hg' : (unturned [2, 2]).Reachable := reachable_ofCalls _
  obtain ⟨m, hm, htime⟩ := exists_time_turned (α := ℝ)
  obtain ⟨m', hm', htime'⟩ := exists_time_unturned (α := ℝ)
  have hrows : (turned [2, 2]).opIds.mapM (Config.standard.opMetrics (turned [2, 2])) = .ok [m] :=
    mapM_eq_ok_iff.mpr (.cons hm .nil)
  have hrows' : (unturned [2, 2]).opIds.mapM (Config.standard.opMetrics (unturned [2, 2])) =
      .ok [m'] := mapM_eq_ok_iff.mpr (.cons hm' .nil)
  have htotal : value (Metrics.total .min [m]).computeTime = 6e-9 := by
    rw [Metrics.value_total_computeTime, List.map_singleton, List.sum_singleton]
    exact htime
  have htotal' : value (Metrics.total .min [m']).computeTime = 1e-6 := by
    rw [Metrics.value_total_computeTime, List.map_singleton, List.sum_singleton]
    exact htime'
  -- The window is a billionth of a microsecond.
  have hdecide : Metrics.decide (1e-9 : ℝ) (Metrics.total .min [m]) (Metrics.total .min [m']) =
      (false, .computeTime) := by
    have hwindow : value (1e-9 : ℝ) = 1e-9 := rfl
    apply Metrics.decide_eq_of_window_lt (α := ℝ)
    · rw [htotal, htotal']
      norm_num
    · rw [htotal, htotal', hwindow, abs_of_pos (by norm_num), abs_of_pos (by norm_num),
        max_eq_right (by norm_num)]
      norm_num
  have hfaster : value m.computeTime < value m'.computeTime := by
    rw [htime, htime']
    norm_num
  exact ⟨hg, hg', m, m', hm, hm', hfaster, _,
    Config.fusionDecision_eq (Config.graphMetrics_eq_of_mapM hg hrows)
      (Config.graphMetrics_eq_of_mapM hg' hrows'),
    congrArg Prod.fst hdecide, congrArg Prod.snd hdecide⟩

end Graph

end DataflowCost
