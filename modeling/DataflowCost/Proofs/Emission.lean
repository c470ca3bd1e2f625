import DataflowCost.Proofs.Schedule

/-! The loop behind the order of evaluation. It keeps, for each operator, the number of inputs whose
producer has not been emitted, and emits the greedy schedule. -/
namespace DataflowCost.Graph

variable {g : Graph} {done rest : List OpId} {waiting ready : List Nat}

/-- The inputs of an operator that wait for an operator outside `done`. -/
def awaits (g : Graph) (done : List OpId) (n : Node) : Nat :=
  (g.dependencies n).countP fun a => decide (a ∉ done)

/-- The counters while the operators in `pending` are still to be released by those in `done`. An
operator that was emitted is not released again. -/
structure Counting (g : Graph) (done : List OpId) (pending waiting ready : List Nat) : Prop where
  pending_lt : ∀ j ∈ pending, j < g.nodes.length
  waiting_eq : ∀ {j n}, g.node? ⟨j⟩ = some n →
    waiting[j]? = some (g.awaits done n + pending.count j)
  ready_iff : ∀ {j n}, g.node? ⟨j⟩ = some n →
    (j ∈ ready ↔ ⟨j⟩ ∉ done ∧ g.awaits done n + pending.count j = 0)
  ready_lt : ∀ j ∈ ready, j < g.nodes.length
  settled : ∀ {j n}, g.node? ⟨j⟩ = some n → ⟨j⟩ ∈ done → g.awaits done n + pending.count j = 0
  nodup : ready.Nodup

theorem count_zipIdx_replicate (f : Node → Nat) (nodes : List Node) (k j : Nat) :
    ((nodes.zipIdx k).flatMap fun p => List.replicate (f p.1) p.2).count (k + j) =
      (nodes[j]?.map f).getD 0 := by
  induction nodes generalizing k j with
  | nil => simp
  | cons n nodes ih =>
    rw [List.zipIdx_cons, List.flatMap_cons, List.count_append, List.count_replicate]
    cases j with
    | zero =>
      -- What follows is at greater positions.
      have hlater : (((nodes.zipIdx (k + 1)).flatMap fun p => List.replicate (f p.1) p.2)).count
          (k + 0) = 0 := by
        apply List.count_eq_zero_of_not_mem
        intro hm
        obtain ⟨p, hp, hk⟩ := List.mem_flatMap.mp hm
        have hge := List.le_snd_of_mem_zipIdx hp
        rw [List.mem_replicate] at hk
        omega
      rw [hlater]
      simp
    | succ j =>
      have hne : ¬ k = k + (j + 1) := by omega
      have hshift : k + (j + 1) = k + 1 + j := by omega
      rw [hshift] at hne ⊢
      rw [ih]
      simp [hne]

/-- An operator is released once for each of its inputs that the emitted operator writes. -/
theorem count_dependents {i j : Nat} {n : Node} (hn : g.node? ⟨j⟩ = some n) :
    (g.dependents ⟨i⟩).count j = (g.dependencies n).count ⟨i⟩ := by
  have h := count_zipIdx_replicate (fun n => (g.dependencies n).count ⟨i⟩) g.nodes 0 j
  have hj : g.nodes[j]? = some n := hn
  rw [Nat.zero_add, hj] at h
  exact h

theorem lt_of_mem_dependents {o : OpId} {j : Nat} (h : j ∈ g.dependents o) :
    j < g.nodes.length := by
  obtain ⟨p, hp, hj⟩ := List.mem_flatMap.mp h
  have hlt := List.snd_lt_of_mem_zipIdx hp
  rw [List.mem_replicate] at hj
  omega

theorem awaits_cons {o : OpId} (ho : o ∉ done) (n : Node) :
    g.awaits (o :: done) n + (g.dependencies n).count o = g.awaits done n := by
  unfold awaits
  induction g.dependencies n with
  | nil => rfl
  | cons a l ih =>
    rw [List.countP_cons, List.countP_cons, List.count_cons, ← ih]
    by_cases hao : a = o
    · subst hao
      simp [ho]
      omega
    · by_cases ha : a ∈ done
      · simp [hao, ha]
      · simp [hao, ha]
        omega

theorem Arena.awaits_eq_zero_iff (hg : g.Arena) {b : OpId} {n : Node} (hn : g.node? b = some n) :
    g.awaits done n = 0 ↔ ∀ a, g.Feeds a b → a ∈ done := by
  simp only [awaits, List.countP_eq_zero, decide_eq_true_eq, not_not, hg.mem_dependencies hn]

theorem Counting.mem_ready_iff (h : g.Counting done [] waiting ready) (hg : g.Arena) {j : Nat} :
    j ∈ ready ↔ g.Ready done ⟨j⟩ := by
  constructor
  · intro hj
    obtain ⟨n, hn⟩ := exists_node?_of_lt (o := ⟨j⟩) (h.ready_lt j hj)
    obtain ⟨hfresh, hzero⟩ := (h.ready_iff hn).mp hj
    exact ⟨h.ready_lt j hj, hfresh, (hg.awaits_eq_zero_iff hn).mp hzero⟩
  · rintro ⟨hlt, hfresh, hfed⟩
    obtain ⟨n, hn⟩ := exists_node?_of_lt hlt
    exact (h.ready_iff hn).mpr ⟨hfresh, (hg.awaits_eq_zero_iff hn).mpr hfed⟩

/-- Emitting an operator leaves its dependents to be released. -/
theorem Counting.pop (h : g.Counting done [] waiting ready) {i : Nat} (hi : i ∈ ready) :
    g.Counting (⟨i⟩ :: done) (g.dependents ⟨i⟩) waiting (ready.erase i) := by
  obtain ⟨m, hm⟩ := exists_node?_of_lt (o := ⟨i⟩) (h.ready_lt i hi)
  obtain ⟨hfresh, hzero⟩ := (h.ready_iff hm).mp hi
  have hsum {j : Nat} {n : Node} (hn : g.node? ⟨j⟩ = some n) :
      g.awaits (⟨i⟩ :: done) n + (g.dependents ⟨i⟩).count j = g.awaits done n := by
    rw [count_dependents hn, awaits_cons hfresh]
  refine ⟨fun j hj => lt_of_mem_dependents hj, ?_, ?_, ?_, ?_, h.nodup.erase i⟩
  · intro j n hn
    rw [hsum hn]
    exact h.waiting_eq hn
  · intro j n hn
    rw [hsum hn, h.nodup.mem_erase_iff, h.ready_iff hn]
    simp [not_or, and_assoc]
  · intro j hj
    exact h.ready_lt j (List.mem_of_mem_erase hj)
  · intro j n hn hj
    rw [hsum hn]
    rcases List.mem_cons.mp hj with hji | hj
    · -- The emitted operator was ready, so nothing is counted for it.
      rw [hji, hm] at hn
      obtain rfl := Option.some.inj hn
      exact hzero
    · exact h.settled hn hj

/-- No counter is at zero when it is counted down. -/
theorem Counting.release {j : Nat} {pending : List Nat}
    (h : g.Counting done (j :: pending) waiting ready) :
    ∃ waiting' ready', release waiting ready j = .ok (waiting', ready') ∧
      g.Counting done pending waiting' ready' := by
  have hlt : j < g.nodes.length := h.pending_lt j List.mem_cons_self
  obtain ⟨m, hm⟩ := exists_node?_of_lt (o := ⟨j⟩) hlt
  let c := g.awaits done m + pending.count j
  have hcount : (j :: pending).count j = pending.count j + 1 := List.count_cons_self
  have hj : waiting[j]? = some (c + 1) := by
    rw [h.waiting_eq hm, hcount]
    rfl
  -- Something is counted for `j`, so it is neither ready nor done.
  have hready : j ∉ ready := by
    rw [h.ready_iff hm, hcount]
    omega
  have hfresh : ⟨j⟩ ∉ done := by
    intro hd
    have hzero := h.settled hm hd
    omega
  have hother {k : Nat} (hk : k ≠ j) : (j :: pending).count k = pending.count k :=
    List.count_cons_of_ne (Ne.symm hk)
  have hself {k : Nat} {n : Node} (hk : k = j) (hn : g.node? ⟨k⟩ = some n) :
      g.awaits done n + pending.count k = c := by
    subst hk
    rw [hm] at hn
    rw [← Option.some.inj hn]
  refine ⟨waiting.set j c, if c = 0 then j :: ready else ready, ?_, ?_⟩
  · simp only [Graph.release, hj]
  · refine ⟨fun k hk => h.pending_lt k (List.mem_cons_of_mem _ hk), ?_, ?_, ?_, ?_, ?_⟩
    · intro k n hn
      by_cases hk : k = j
      · rw [hself hk hn, hk, List.getElem?_set_self (List.getElem?_eq_some_iff.mp hj).1]
      · rw [List.getElem?_set_ne (Ne.symm hk), h.waiting_eq hn, hother hk]
    · intro k n hn
      by_cases hk : k = j
      · rw [hself hk hn]
        subst hk
        by_cases hc : c = 0 <;> simp [hc, hfresh, hready]
      · have hmem : k ∈ (if c = 0 then j :: ready else ready) ↔ k ∈ ready := by
          by_cases hc : c = 0 <;> simp [hc, hk]
        rw [hmem, h.ready_iff hn, hother hk]
    · intro k hk
      by_cases hc : c = 0
      · rw [if_pos hc] at hk
        rcases List.mem_cons.mp hk with rfl | hk
        · exact hlt
        · exact h.ready_lt k hk
      · rw [if_neg hc] at hk
        exact h.ready_lt k hk
    · intro k n hn hd
      have hk : k ≠ j := fun hk => hfresh (hk ▸ hd)
      rw [← hother hk]
      exact h.settled hn hd
    · by_cases hc : c = 0
      · rw [if_pos hc]
        exact List.nodup_cons.mpr ⟨hready, h.nodup⟩
      · rw [if_neg hc]
        exact h.nodup

theorem Counting.releaseAll {pending : List Nat} (h : g.Counting done pending waiting ready) :
    ∃ waiting' ready',
      pending.foldlM (fun (waiting, ready) next => Graph.release waiting ready next)
        (waiting, ready) = .ok (waiting', ready') ∧
      g.Counting done [] waiting' ready' := by
  induction pending generalizing waiting ready with
  | nil => exact ⟨waiting, ready, rfl, h⟩
  | cons j pending ih =>
    obtain ⟨waiting1, ready1, hstep, h1⟩ := h.release
    obtain ⟨waiting2, ready2, hfold, h2⟩ := ih h1
    refine ⟨waiting2, ready2, ?_, h2⟩
    simp only [List.foldlM_cons, hstep]
    exact hfold

/-- The counters before the first emission: how many inputs have a producer at all. -/
def firstWaiting (g : Graph) : List Nat := g.nodes.map fun n => (g.dependencies n).length

def firstReady (g : Graph) : List Nat :=
  (List.range g.nodes.length).filter fun i => g.firstWaiting[i]? == some 0

theorem counting_first : g.Counting [] [] g.firstWaiting g.firstReady := by
  have hwaiting {j : Nat} {n : Node} (hn : g.node? ⟨j⟩ = some n) :
      g.firstWaiting[j]? = some (g.awaits [] n) := by
    have hj : g.nodes[j]? = some n := hn
    simp only [firstWaiting, List.getElem?_map, hj, Option.map_some, awaits, List.not_mem_nil,
      not_false_eq_true, decide_true, List.countP_true]
  refine ⟨fun _ hj => absurd hj List.not_mem_nil, ?_, ?_, ?_, ?_, List.nodup_range.filter _⟩
  · intro j n hn
    exact hwaiting hn
  · intro j n hn
    have hj : j < g.nodes.length := node?_lt hn
    simp [firstReady, hwaiting hn, hj]
  · intro j hj
    exact List.mem_range.mp (List.mem_filter.mp hj).1
  · intro _ _ _ hd
    exact absurd hd List.not_mem_nil

/-- With all operators emitted none is ready. -/
theorem Runs.not_ready_of_length_le (h : g.Runs [] done.reverse)
    (hlen : g.nodes.length ≤ done.length) (o : OpId) : ¬ g.Ready done o := by
  intro ho
  have hsub : done ⊆ g.opIds := by
    intro a ha
    exact mem_opIds.mpr (h.lt (List.mem_reverse.mpr ha))
  have hperm := List.subperm_of_subset (List.nodup_reverse.mp h.nodup) hsub
  have hall : o ∈ done := by
    rw [(hperm.perm_of_length_le (by rw [length_opIds]; exact hlen)).mem_iff]
    exact mem_opIds.mpr ho.lt
  exact ho.fresh hall

/-- The loop never counts below zero, and with fuel for every operator it ends on its own. -/
theorem emit_greedy (hg : g.Arena) (fuel : Nat) (h : g.Counting done [] waiting ready)
    (hdone : g.Runs [] done.reverse) (hfuel : g.nodes.length ≤ done.length + fuel) :
    ∃ order, g.emit fuel waiting ready = .ok order ∧ g.Greedy done order := by
  induction fuel generalizing done waiting ready with
  | zero => exact ⟨[], rfl, .stop (hdone.not_ready_of_length_le (by omega))⟩
  | succ fuel ih =>
    cases hmin : ready.min? with
    | none =>
      -- The loop stops early on a cyclic graph only, but always with nothing ready.
      have hnil : ready = [] := List.min?_eq_none_iff.mp hmin
      refine ⟨[], by simp only [emit, hmin], .stop ?_⟩
      intro o ho
      have ho := (h.mem_ready_iff hg (j := o.index)).mpr ho
      rw [hnil] at ho
      exact List.not_mem_nil ho
    | some i =>
      obtain ⟨hi, hleast⟩ := List.min?_eq_some_iff.mp hmin
      have hready : g.Ready done ⟨i⟩ := (h.mem_ready_iff hg).mp hi
      -- One turn of the loop: the least ready operator is emitted and its dependents are released.
      obtain ⟨waiting1, ready1, hfold, h1⟩ := (h.pop hi).releaseAll
      have hdone1 : g.Runs [] (OpId.mk i :: done).reverse := by
        rw [List.reverse_cons, runs_append]
        refine ⟨hdone, .cons ?_ .nil⟩
        simpa only [List.reverse_reverse, List.append_nil] using hready
      obtain ⟨order, horder, hgreedy⟩ := ih h1 hdone1 (by simp only [List.length_cons]; omega)
      refine ⟨⟨i⟩ :: order, ?_, .next hready ?_ hgreedy⟩
      · simp only [emit, hmin, hfold]
        change (g.emit fuel waiting1 ready1 >>= fun rest => pure (OpId.mk i :: rest)) = _
        rw [horder]
        rfl
      · intro p hp
        exact hleast p.index ((h.mem_ready_iff hg).mpr hp)

theorem exists_greedy (hg : g.Arena) :
    ∃ order, g.Greedy [] order ∧
      ∀ fuel, g.nodes.length ≤ fuel → g.emit fuel g.firstWaiting g.firstReady = .ok order := by
  obtain ⟨order, _, hgreedy⟩ := emit_greedy hg g.nodes.length counting_first .nil (by simp)
  refine ⟨order, hgreedy, ?_⟩
  intro fuel hfuel
  obtain ⟨other, hemit, hother⟩ := emit_greedy hg fuel counting_first .nil (by simpa using hfuel)
  rw [hemit, hgreedy.unique hother]

/-- Either the greedy order is complete, or the operators it misses are counted. -/
theorem topologicalOrder_eq {order : List OpId} (hg : g.Arena) (h : g.Greedy [] order) :
    g.topologicalOrder =
      if order.length = g.nodes.length then .ok order
      else .error (.error (.cycle g.stranded.ncard)) := by
  obtain ⟨emitted, hemitted, hfuel⟩ := exists_greedy hg
  obtain rfl := hemitted.unique h
  have hcount : g.nodes.length - emitted.length = g.stranded.ncard := by
    have hsum := h.length_add_ncard
    omega
  rw [← hcount]
  change (g.emit g.nodes.length g.firstWaiting g.firstReady >>= _) = _
  rw [hfuel _ le_rfl]
  rfl

/-- The order of evaluation of an arena, or how many operators have none. -/
theorem Arena.topologicalOrder_cases (hg : g.Arena) :
    (g.Acyclic ∧ ∃ order, g.topologicalOrder = .ok order) ∨
      ¬ g.Acyclic ∧ g.topologicalOrder = .error (.error (.cycle g.stranded.ncard)) := by
  obtain ⟨order, hgreedy, _⟩ := exists_greedy hg
  rw [topologicalOrder_eq hg hgreedy, ← hgreedy.length_eq_iff]
  by_cases hall : order.length = g.nodes.length
  · exact .inl ⟨hall, order, if_pos hall⟩
  · exact .inr ⟨hall, if_neg hall⟩

end DataflowCost.Graph
