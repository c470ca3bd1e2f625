import DataflowCost.Proofs.Emission
import DataflowCost.Proofs.Links

/-! What the order of evaluation is, for graphs that calls build and for others: the least schedule,
which is the order of registration where that is a schedule, or the number of operators that a cycle
strands. -/
namespace DataflowCost.Graph

variable {g : Graph} {done order : List OpId}

/-- With every operator fed by earlier ones only, the next operator is always ready. -/
theorem greedy_range' (hearlier : ∀ a b, g.Feeds a b → a.index < b.index) {k m : Nat}
    (hlen : k + m = g.nodes.length) (hdone : ∀ o, o ∈ done ↔ o.index < k) :
    g.Greedy done ((List.range' k m).map OpId.mk) := by
  -- The operators below `k` are done, and `m` are left.
  induction m generalizing k done with
  | zero =>
    refine .stop ?_
    intro o ho
    have hlt : o.index < k := by
      rw [← Nat.add_zero k, hlen]
      exact ho.lt
    exact ho.fresh ((hdone o).mpr hlt)
  | succ m ih =>
    rw [List.range'_succ, List.map_cons]
    refine .next ⟨?_, ?_, ?_⟩ ?_ (ih (by omega) ?_)
    · change k < g.nodes.length
      omega
    · rw [hdone]
      exact Nat.lt_irrefl k
    · intro a ha
      rw [hdone]
      exact hearlier a _ ha
    · intro p hp
      have hnot := hp.fresh
      rw [hdone] at hnot
      exact Nat.le_of_not_lt hnot
    · intro o
      rw [List.mem_cons, hdone]
      constructor
      · rintro (rfl | ho)
        · exact Nat.lt_succ_self k
        · omega
      · intro ho
        rcases Nat.lt_or_eq_of_le (Nat.le_of_lt_succ ho) with hlt | heq
        · exact .inr hlt
        · exact .inl (congrArg OpId.mk heq)

theorem greedy_opIds (hearlier : ∀ a b, g.Feeds a b → a.index < b.index) :
    g.Greedy [] g.opIds := by
  rw [opIds, List.range_eq_range']
  apply greedy_range' hearlier (Nat.zero_add _)
  intro o
  constructor
  · intro ho
    exact absurd ho List.not_mem_nil
  · intro ho
    exact absurd ho (Nat.not_lt_zero _)

/-- A greedy order of full length is a schedule, and no schedule is below it. -/
theorem Greedy.least (h : g.Greedy [] order) (hlen : order.length = g.nodes.length) :
    g.Schedule order ∧ ∀ other, g.Schedule other → order = other ∨ LexLt order other := by
  have hfree : g.stranded = ∅ := stranded_eq_empty_iff.mpr (h.length_eq_iff.mp hlen)
  constructor
  · apply h.runs.schedule
    intro o ho
    apply h.mem_iff.mpr
    refine ⟨ho, ?_⟩
    rw [hfree]
    exact id
  · intro other hother
    apply h.eq_or_lexLt hother.runs
    -- A schedule has every operator, so nothing is left to be ready.
    intro o ho
    apply ho.fresh
    rw [List.append_nil, List.mem_reverse, hother.perm.mem_iff]
    exact mem_opIds.mpr ho.lt

/-- The loop ends without counting below zero. Its order is the least schedule of an acyclic graph,
and its error counts the operators on a cycle or downstream of one. -/
theorem Arena.topologicalOrder_least_or_stranded (hg : g.Arena) :
    ((∃ order, g.topologicalOrder = .ok order) ↔ g.Acyclic) ∧
    (∀ order, g.topologicalOrder = .ok order → g.Schedule order ∧
      ∀ other, g.Schedule other → order = other ∨ LexLt order other) ∧
    ((∀ a b, g.Feeds a b → a.index < b.index) → g.topologicalOrder = .ok g.opIds) ∧
    (∀ e, g.topologicalOrder = .error e → e = .error (.cycle g.stranded.ncard)) ∧
    ∃ order, ∀ fuel, g.nodes.length ≤ fuel →
      g.emit fuel g.firstWaiting g.firstReady = .ok order := by
  obtain ⟨order, hgreedy, hemit⟩ := exists_greedy hg
  have heq := topologicalOrder_eq hg hgreedy
  refine ⟨?_, ?_, ?_, ?_, order, hemit⟩
  · rcases hg.topologicalOrder_cases with ⟨hfree, hok⟩ | ⟨hcyclic, herror⟩
    · exact iff_of_true hok hfree
    · rw [herror]
      exact iff_of_false nofun hcyclic
  · intro found hfound
    rw [heq] at hfound
    rcases ite_eq_iff.mp hfound with ⟨hlen, hok⟩ | ⟨_, herror⟩
    · rw [← Except.ok.inj hok]
      exact hgreedy.least hlen
    · cases herror
  · intro hearlier
    rw [topologicalOrder_eq hg (greedy_opIds hearlier), if_pos length_opIds]
  · intro e he
    rw [heq] at he
    rcases ite_eq_iff.mp he with ⟨_, hok⟩ | ⟨_, herror⟩
    · cases hok
    · exact (Except.error.inj herror).symm

/-- Two operators feed each other, one of them through a repeated input; the third is downstream of
them and the fourth is free. -/
def looped : Graph :=
  let base := (empty.addTensors 1 (List.replicate 6 ⟨[4], .float32⟩)).graph
  let first := (base.register 7 (.elementwise ⟨.add, .none⟩) [⟨2⟩, ⟨2⟩] [⟨3⟩]).graph
  let second := (first.register 8 (.unary ⟨.relu⟩) [⟨3⟩] [⟨2⟩, ⟨1⟩]).graph
  let third := (second.register 9 (.unary ⟨.relu⟩) [⟨1⟩] [⟨4⟩]).graph
  (third.register 10 (.unary ⟨.relu⟩) [⟨0⟩] [⟨5⟩]).graph

theorem least_or_stranded_looped :
    looped.Arena ∧ looped.topologicalOrder = .error (.error (.cycle 3)) ∧ ¬ looped.Acyclic ∧
      looped.stranded.ncard = 3 := by
  have hlinked : looped.Linked := by
    refine ((((linked_empty.addTensors 1 _).register ?_ ?_).register ?_ ?_).register ?_ ?_).register
      ?_ ?_ <;> decide
  have herror : looped.topologicalOrder = .error (.error (.cycle 3)) := rfl
  obtain ⟨hok, _, _, hcount, _⟩ := hlinked.toArena.topologicalOrder_least_or_stranded
  refine ⟨hlinked.toArena, herror, ?_, ?_⟩
  · rw [← hok, herror]
    exact nofun
  · have h := hcount _ herror
    injection h with h
    injection h with h
    exact h.symm

end DataflowCost.Graph
