import DataflowCost.Proofs.AxisLists

/-! Sets of axes as ascending lists. Which lists of axes resolve, what they resolve to, and the binary search
that tells from it whether an axis is listed. -/
namespace DataflowCost

open Inference

namespace Axis

variable {rank : Nat} {axes : List Int} {out : List Nat}

theorem wrap_mem_range_iff {a : Int} :
    (0 ≤ wrap a rank ∧ wrap a rank < rank) ↔ -(rank : Int) ≤ a ∧ a < rank := by
  unfold wrap
  split <;> omega

/-- Entries resolve one by one if they are in range and name different positions. -/
theorem exists_resolveEach_iff : (∃ named, resolveEach rank axes = .ok named) ↔
    (∀ a ∈ axes, -(rank : Int) ≤ a ∧ a < rank) ∧ (axes.map (wrap · rank)).Nodup := by
  simp only [resolveEach_eq_ok_iff]
  constructor
  · rintro ⟨named, hmap, hlt, hnodup⟩
    refine ⟨fun a ha => wrap_mem_range_iff.mp ?_, ?_⟩
    · obtain ⟨p, hp, hwrap⟩ := List.mem_map.mp (hmap ▸ List.mem_map_of_mem ha)
      have hp := hlt p hp
      omega
    · rw [hmap]
      exact hnodup.map Nat.cast_injective
  · rintro ⟨hrange, hnodup⟩
    have hnonneg : ∀ p ∈ axes.map (wrap · rank), 0 ≤ p := by
      intro p hp
      obtain ⟨a, ha, rfl⟩ := List.mem_map.mp hp
      exact (wrap_mem_range_iff.mpr (hrange a ha)).1
    obtain ⟨named, hnamed⟩ : ∃ named : List Nat, named.map Nat.cast = axes.map (wrap · rank) :=
      CanLift.prf _ hnonneg
    refine ⟨named, hnamed.symm, fun p hp => ?_, .of_map Nat.cast (hnamed ▸ hnodup)⟩
    obtain ⟨a, ha, hwrap⟩ := List.mem_map.mp (hnamed ▸ List.mem_map_of_mem hp)
    have hlt := (wrap_mem_range_iff.mpr (hrange a ha)).2
    omega

/-- A list of axes resolves exactly if its entries are in range and no two of them name one axis. It then
resolves to the positions that they name in ascending order, where a binary search tells them from others. -/
theorem valid_lists_resolve (rank : Nat) (axes : List Int) :
    ((∃ out, resolveSet rank axes = .ok out) ↔
      (∀ a ∈ axes, -(rank : Int) ≤ a ∧ a < rank) ∧ (axes.map (wrap · rank)).Nodup) ∧
    ∀ out, resolveSet rank axes = .ok out →
      out.Pairwise (· < ·) ∧ (∀ p ∈ out, p < rank) ∧
      (∀ p : Nat, p ∈ out ↔ ∃ a ∈ axes, wrap a rank = p) ∧
      ∀ p : Nat, out.toArray.binSearchContains p (· < ·) = true ↔ p ∈ out := by
  constructor
  · rw [← exists_resolveEach_iff]
    constructor
    · rintro ⟨out, h⟩
      obtain ⟨named, hnamed, _⟩ := bind_eq_ok_iff.mp h
      exact ⟨named, hnamed⟩
    · rintro ⟨named, hnamed⟩
      exact ⟨_, bind_eq_ok_iff.mpr ⟨named, hnamed, rfl⟩⟩
  · intro out h
    obtain ⟨hascends, hlt⟩ := ascending_of_resolveSet h
    refine ⟨hascends, hlt, mem_resolveSet_iff h, fun p => ?_⟩
    rw [binSearchContains_iff_mem hascends, List.mem_toArray]

/-- The last axis of four and the first one, named from either end, and a list that names the last one twice. -/
theorem valid_lists_resolve_bothEnds :
    resolveSet 4 [-1, 0] = .ok [0, 3] ∧ [0, 3].Pairwise (· < ·) ∧
      (∀ p : Nat, p ∈ [0, 3] ↔ ∃ a ∈ [-1, 0], wrap a 4 = p) ∧
      #[0, 3].binSearchContains 3 (· < ·) = true ∧ #[0, 3].binSearchContains 1 (· < ·) ≠ true ∧
      ¬ ∃ out, resolveSet 4 [3, -1] = .ok out := by
  have hresolve : resolveSet 4 [-1, 0] = .ok [0, 3] :=
    resolveSet_eq_ok_iff.mpr ⟨[3, 0], rfl, .swap 3 0 [], by decide⟩
  obtain ⟨_, hresolved⟩ := valid_lists_resolve 4 [-1, 0]
  obtain ⟨hascends, _, hmem, hsearch⟩ := hresolved [0, 3] hresolve
  obtain ⟨hvalid, _⟩ := valid_lists_resolve 4 [3, -1]
  refine ⟨hresolve, hascends, hmem, (hsearch 3).mpr (by decide), (hsearch 1).not.mpr (by decide), ?_⟩
  exact hvalid.not.mpr (by decide)

end Axis

end DataflowCost
