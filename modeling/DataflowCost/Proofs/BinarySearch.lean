import Mathlib.Data.List.Pairwise

/-! Ascending arrays of numbers. A search by halving finds a value exactly if it is an entry. -/
namespace DataflowCost

variable {as : Array Nat} {k : Nat}

/-- In an ascending array a value is compared with an entry as their positions are. -/
theorem compare_getElem (has : as.toList.Pairwise (· < ·)) {i m : Nat} (hi : as[i]? = some k)
    (hm : m < as.size) : (as[m] < k ↔ m < i) ∧ (k < as[m] ↔ i < m) := by
  obtain ⟨hlt, rfl⟩ := Array.getElem?_eq_some_iff.mp hi
  have hascends {i j : Nat} (hj : j < as.size) (hij : i < j) : as[i] < as[j] :=
    List.pairwise_iff_getElem.mp has i j (Nat.lt_trans hij hj) hj hij
  rcases Nat.lt_trichotomy m i with hmi | rfl | him
  · have := hascends hlt hmi
    omega
  · omega
  · have := hascends hm him
    omega

/-- The search finds a value exactly if it has a position between the bounds. -/
theorem binSearchAux_iff (has : as.toList.Pairwise (· < ·)) (lo : Fin (as.size + 1)) (hi : Fin as.size)
    (hle : lo.val ≤ hi.val) :
    Array.binSearchAux (fun a b => decide (a < b)) Option.isSome as k lo hi hle = true ↔
      ∃ i, lo.val ≤ i ∧ i ≤ hi.val ∧ as[i]? = some k := by
  fun_induction Array.binSearchAux (fun a b => decide (a < b)) Option.isSome as k lo hi hle with
  | case1 lo hi hle m a hbelow hnext _ ih =>
    have hbehind {i : Nat} (hi : as[i]? = some k) : m < i :=
      (compare_getElem has hi (by omega)).1.mp (of_decide_eq_true hbelow)
    refine ih.trans (exists_congr fun i => ⟨fun ⟨hlo, hhi, hk⟩ => ?_, fun ⟨_, hhi, hk⟩ => ?_⟩)
    · have hlo : m + 1 ≤ i := hlo
      exact ⟨by omega, hhi, hk⟩
    · exact ⟨hbehind hk, hhi, hk⟩
  | case2 lo hi hle m a hbelow hlast =>
    have hbehind {i : Nat} (hi : as[i]? = some k) : m < i :=
      (compare_getElem has hi (by omega)).1.mp (of_decide_eq_true hbelow)
    refine ⟨nofun, fun ⟨i, _, hhi, hk⟩ => ?_⟩
    have := hbehind hk
    omega
  | case3 lo hi hle m a _ habove hfirst =>
    have hbefore {i : Nat} (hi : as[i]? = some k) : i < m :=
      (compare_getElem has hi (by omega)).2.mp (of_decide_eq_true habove)
    refine ⟨nofun, fun ⟨i, hlo, _, hk⟩ => ?_⟩
    have := hbefore hk
    omega
  | case4 lo hi hle m a _ habove hmore _ ih =>
    have hbefore {i : Nat} (hi : as[i]? = some k) : i < m :=
      (compare_getElem has hi (by omega)).2.mp (of_decide_eq_true habove)
    refine ih.trans (exists_congr fun i => ⟨fun ⟨hlo, hhi, hk⟩ => ?_, fun ⟨hlo, _, hk⟩ => ?_⟩)
    · have hhi : i ≤ m - 1 := hhi
      exact ⟨hlo, by omega, hk⟩
    · exact ⟨hlo, Nat.le_sub_one_of_lt (hbefore hk), hk⟩
  | case5 lo hi hle m a hbelow habove =>
    have ha : a = k := by
      rw [decide_eq_true_iff] at hbelow habove
      omega
    exact ⟨fun _ => ⟨m, by omega, by omega, ha ▸ Array.getElem?_eq_getElem (by omega)⟩, fun _ => rfl⟩

/-- A binary search in an ascending array decides membership. -/
theorem binSearchContains_iff_mem (has : as.toList.Pairwise (· < ·)) :
    as.binSearchContains k (· < ·) = true ↔ k ∈ as := by
  rw [Array.mem_iff_getElem?]
  by_cases hsize : 0 < as.size
  · have hwhole : as.binSearchContains k (· < ·) = Array.binSearchAux (fun a b => decide (a < b))
        Option.isSome as k ⟨0, Nat.succ_pos _⟩ ⟨as.size - 1, by omega⟩ (Nat.zero_le _) := by
      simp [Array.binSearchContains, hsize]
    rw [hwhole, binSearchAux_iff has]
    refine exists_congr fun i => ⟨fun ⟨_, _, hk⟩ => hk, fun hk => ⟨Nat.zero_le i, ?_, hk⟩⟩
    exact Nat.le_sub_one_of_lt (Array.getElem?_eq_some_iff.mp hk).1
  · have hnone : as.binSearchContains k (· < ·) = false := by
      simp [Array.binSearchContains, hsize]
    rw [hnone]
    refine ⟨nofun, fun ⟨i, hk⟩ => ?_⟩
    have := (Array.getElem?_eq_some_iff.mp hk).1
    omega

end DataflowCost
