import DataflowCost.Proofs.Links

/-! The search for the operators downstream of declared outputs. It finds each of them once, and so
decides whether a new operator would feed itself. -/
namespace DataflowCost.Graph

open Relation

variable {g : Graph}

theorem Linked.mem_readersOf (hg : g.Linked) {ids : List TensorId} {o : OpId} :
    o ∈ g.readersOf ids ↔ ∃ t ∈ ids, g.Reads o t := by
  unfold readersOf
  rw [List.mem_flatMap]
  constructor
  · rintro ⟨t, ht, ho⟩
    cases hx : g.tensor? t with
    | none => simp [hx] at ho
    | some x =>
      rw [hx] at ho
      exact ⟨t, ht, (hg.mem_consumers hx).mp ho⟩
  · rintro ⟨t, ht, hr⟩
    obtain ⟨x, hx⟩ := exists_tensor?_of_lt (hg.reads_lt hr)
    refine ⟨t, ht, ?_⟩
    rw [hx]
    exact (hg.mem_consumers hx).mpr hr

theorem mem_writtenBy {ids : List OpId} {t : TensorId} :
    t ∈ g.writtenBy ids ↔ ∃ o ∈ ids, g.Writes o t := by
  unfold writtenBy
  rw [List.mem_flatMap]
  constructor
  · rintro ⟨o, ho, ht⟩
    cases hn : g.node? o with
    | none => simp [hn] at ht
    | some n =>
      rw [hn] at ht
      exact ⟨o, ho, n, hn, ht⟩
  · rintro ⟨o, ho, n, hn, ht⟩
    refine ⟨o, ho, ?_⟩
    rw [hn]
    exact ht

theorem mem_divide_fst {listed rest : List OpId} {o : OpId} :
    o ∈ (divide listed rest).1 ↔ o ∈ rest ∧ o ∈ listed := by
  simp [divide, List.partition_eq_filter_filter]

theorem mem_divide_snd {listed rest : List OpId} {o : OpId} :
    o ∈ (divide listed rest).2 ↔ o ∈ rest ∧ o ∉ listed := by
  simp [divide, List.partition_eq_filter_filter]

theorem nodup_divide {listed rest : List OpId} (h : rest.Nodup) :
    (divide listed rest).1.Nodup ∧ (divide listed rest).2.Nodup := by
  rw [divide, List.partition_eq_filter_filter]
  exact ⟨h.filter _, h.filter _⟩

/-- The operators in `rest` that tensors in `frontier` reach through operators in `rest`, each once.
-/
structure Found (g : Graph) (rest : List OpId) (frontier : List TensorId) (found : List OpId) :
    Prop where
  nodup : found.Nodup
  subset : ∀ o ∈ found, o ∈ rest
  sound : ∀ o ∈ found, ∃ t ∈ frontier, ∃ p, g.Reads p t ∧ ReflTransGen g.Feeds p o
  readers : ∀ o ∈ rest, ∀ t ∈ frontier, g.Reads o t → o ∈ found
  closed : ∀ a ∈ found, ∀ b ∈ rest, g.Feeds a b → b ∈ found

/-- One layer of the search before those that follow it. -/
theorem Linked.found_append (hg : g.Linked) {rest : List OpId} {frontier : List TensorId}
    {later : List OpId} (hrest : rest.Nodup)
    (h : g.Found (divide (g.readersOf frontier) rest).2
      (g.writtenBy (divide (g.readersOf frontier) rest).1) later) :
    g.Found rest frontier ((divide (g.readersOf frontier) rest).1 ++ later) := by
  have hlayer : (divide (g.readersOf frontier) rest).1.Nodup := (nodup_divide hrest).1
  -- What the layer feeds is read from the next frontier.
  have hnext {a b : OpId} (ha : a ∈ (divide (g.readersOf frontier) rest).1) (hab : g.Feeds a b) :
      ∃ t ∈ g.writtenBy (divide (g.readersOf frontier) rest).1, g.Reads b t := by
    obtain ⟨t, hw, hr⟩ := hab
    exact ⟨t, mem_writtenBy.mpr ⟨a, ha, hw⟩, hr⟩
  refine ⟨?_, ?_, ?_, ?_, ?_⟩
  · rw [List.nodup_append]
    refine ⟨hlayer, h.nodup, ?_⟩
    -- A later layer is searched for among operators that this one leaves.
    rintro a ha b hb rfl
    exact (mem_divide_snd.mp (h.subset a hb)).2 (mem_divide_fst.mp ha).2
  · intro o ho
    rcases List.mem_append.mp ho with ho | ho
    · exact (mem_divide_fst.mp ho).1
    · exact (mem_divide_snd.mp (h.subset o ho)).1
  · intro o ho
    rcases List.mem_append.mp ho with ho | ho
    · obtain ⟨t, ht, hr⟩ := hg.mem_readersOf.mp (mem_divide_fst.mp ho).2
      exact ⟨t, ht, o, hr, .refl⟩
    · obtain ⟨s, hs, p, hp, hpo⟩ := h.sound o ho
      obtain ⟨a, ha, hw⟩ := mem_writtenBy.mp hs
      obtain ⟨t, ht, hr⟩ := hg.mem_readersOf.mp (mem_divide_fst.mp ha).2
      exact ⟨t, ht, a, hr, .head ⟨s, hw, hp⟩ hpo⟩
  · intro o ho t ht hr
    exact List.mem_append_left _ (mem_divide_fst.mpr ⟨ho, hg.mem_readersOf.mpr ⟨t, ht, hr⟩⟩)
  · intro a ha b hb hab
    by_cases hlisted : b ∈ g.readersOf frontier
    · exact List.mem_append_left _ (mem_divide_fst.mpr ⟨hb, hlisted⟩)
    · have hlater : b ∈ (divide (g.readersOf frontier) rest).2 := mem_divide_snd.mpr ⟨hb, hlisted⟩
      apply List.mem_append_right
      rcases List.mem_append.mp ha with ha | ha
      · obtain ⟨t, ht, hr⟩ := hnext ha hab
        exact h.readers b hlater t ht hr
      · exact h.closed a ha b hlater hab

theorem Linked.found_nil (hg : g.Linked) {rest : List OpId} {frontier : List TensorId}
    (h : (divide (g.readersOf frontier) rest).1 = []) : g.Found rest frontier [] := by
  refine ⟨List.nodup_nil, nofun, nofun, ?_, nofun⟩
  intro o ho t ht hr
  rw [← h]
  exact mem_divide_fst.mpr ⟨ho, hg.mem_readersOf.mpr ⟨t, ht, hr⟩⟩

/-- The search is sound and complete. -/
theorem Linked.found_downstream (hg : g.Linked) (rest : List OpId) (frontier : List TensorId)
    (hrest : rest.Nodup) : g.Found rest frontier (g.downstream rest frontier) := by
  fun_induction downstream g rest frontier with
  | case1 rest frontier layers hempty =>
    exact hg.found_nil (List.isEmpty_iff.mp hempty)
  | case2 rest frontier layers _ ih =>
    exact hg.found_append hrest (ih (nodup_divide hrest).2)

end DataflowCost.Graph
