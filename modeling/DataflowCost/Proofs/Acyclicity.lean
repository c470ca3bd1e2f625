import DataflowCost.Proofs.CycleSearch
import DataflowCost.Proofs.Emission
import DataflowCost.Proofs.Reachable

/-! No reachable graph has a cycle. A new operator can only close a cycle through itself, and what
its outputs reach in the graph so far says whether it does. -/
namespace DataflowCost.Graph

open Relation
open scoped ExactArithmetic

variable {g g' : Graph} {v : OpId}

/-- The second graph has the dependencies of the first, and besides these only some of one operator.
-/
structure Joins (g g' : Graph) (v : OpId) : Prop where
  kept : ∀ {a b}, g.Feeds a b → g'.Feeds a b
  new : ∀ {a b}, g'.Feeds a b → g.Feeds a b ∨ a = v ∨ b = v

/-- A path of the second graph is one of the first or passes through the operator that joined. -/
theorem Joins.transGen (h : g.Joins g' v) {a b : OpId} (hab : TransGen g'.Feeds a b) :
    TransGen g.Feeds a b ∨ ReflTransGen g'.Feeds a v ∧ ReflTransGen g'.Feeds v b := by
  induction hab with
  | @single b hab =>
    rcases h.new hab with hold | rfl | rfl
    · exact .inl (.single hold)
    · exact .inr ⟨.refl, .single hab⟩
    · exact .inr ⟨.single hab, .refl⟩
  | @tail c b hac hcb ih =>
    rcases ih with hold | ⟨hav, hvc⟩
    · rcases h.new hcb with hlast | rfl | rfl
      · exact .inl (.tail hold hlast)
      · exact .inr ⟨hac.to_reflTransGen, .single hcb⟩
      · exact .inr ⟨hac.to_reflTransGen.tail hcb, .refl⟩
    · exact .inr ⟨hav, hvc.tail hcb⟩

/-- A cycle that was not there before passes through the operator that joined. -/
theorem Joins.acyclic_iff (h : g.Joins g' v) (hg : g.Acyclic) :
    g'.Acyclic ↔ ¬ TransGen g'.Feeds v v := by
  constructor
  · intro hfree
    exact hfree v
  · intro hv a ha
    obtain ⟨c, hac, hca⟩ := TransGen.head'_iff.mp ha
    rcases h.transGen ha with hold | ⟨hav, hva⟩
    · exact hg a hold
    · -- Going round the cycle once leads from `v` back to `v`.
      exact hv (((TransGen.head' hac hca).trans_left hav).trans_right hva)

theorem Joins.stranded_eq (h : g.Joins g' v) (hg : g.Acyclic) (hv : TransGen g'.Feeds v v) :
    g'.stranded = {b | ReflTransGen g'.Feeds v b} := by
  ext b
  constructor
  · rintro ⟨a, haa, hab⟩
    rcases h.transGen haa with hold | ⟨_, hva⟩
    · exact absurd hold (hg a)
    · exact hva.trans hab
  · intro hvb
    exact ⟨v, hv, hvb⟩

section Register

variable {guid : Nat} {op : Operator} {inputs outputs : List TensorId} {a b : OpId}

theorem joins_register :
    g.Joins (g.register guid op inputs outputs).graph ⟨g.nodes.length⟩ := by
  constructor
  · rintro a b ⟨t, hw, hr⟩
    exact ⟨t, writes_register.mpr (.inl hw), reads_register.mpr (.inl hr)⟩
  · rintro a b ⟨t, hw, hr⟩
    rcases writes_register.mp hw with hw | ⟨ha, _⟩
    · rcases reads_register.mp hr with hr | ⟨hb, _⟩
      · exact .inl ⟨t, hw, hr⟩
      · exact .inr (.inr hb)
    · exact .inr (.inl ha)

/-- What the new operator feeds. -/
theorem feeds_register_left :
    (g.register guid op inputs outputs).graph.Feeds ⟨g.nodes.length⟩ b ↔
      ∃ t ∈ outputs, g.Reads b t ∨ b = ⟨g.nodes.length⟩ ∧ t ∈ inputs := by
  have hnew {t : TensorId} : ¬ g.Writes ⟨g.nodes.length⟩ t := fun h => Nat.lt_irrefl _ h.op_lt
  simp only [Feeds, writes_register, reads_register, hnew, false_or, true_and]

/-- What feeds the new operator. -/
theorem feeds_register_right :
    (g.register guid op inputs outputs).graph.Feeds a ⟨g.nodes.length⟩ ↔
      ∃ t, (g.Writes a t ∨ a = ⟨g.nodes.length⟩ ∧ t ∈ outputs) ∧ t ∈ inputs := by
  have hnew {t : TensorId} : ¬ g.Reads ⟨g.nodes.length⟩ t := fun h => Nat.lt_irrefl _ h.op_lt
  simp only [Feeds, writes_register, reads_register, hnew, false_or, true_and]

/-- What the search finds is what the new operator feeds, however indirectly. -/
theorem Found.reflTransGen_iff {found : List OpId} (h : g.Found g.opIds outputs found) :
    ReflTransGen (g.register guid op inputs outputs).graph.Feeds ⟨g.nodes.length⟩ b ↔
      b = ⟨g.nodes.length⟩ ∨ b ∈ found := by
  constructor
  · intro hb
    induction hb with
    | refl => exact .inl rfl
    | @tail c b _ hcb ih =>
      rcases ih with rfl | hc
      · -- A path may return to the new operator and leave it again.
        obtain ⟨t, ht, hr | ⟨hb, _⟩⟩ := feeds_register_left.mp hcb
        · exact .inr (h.readers b (mem_opIds.mpr hr.op_lt) t ht hr)
        · exact .inl hb
      · rcases joins_register.new hcb with hold | rfl | hb
        · exact .inr (h.closed c hc b (mem_opIds.mpr hold.right_lt) hold)
        · -- The new operator was not there to be found.
          exact absurd (mem_opIds.mp (h.subset _ hc)) (Nat.lt_irrefl _)
        · exact .inl hb
  · rintro (rfl | hb)
    · exact .refl
    · obtain ⟨t, ht, p, hp, hpb⟩ := h.sound b hb
      apply ReflTransGen.head (feeds_register_left.mpr ⟨t, ht, .inl hp⟩)
      exact ReflTransGen.mono (fun _ _ hcd => joins_register.kept hcd) _ _ hpb

theorem Found.ncard_eq {found : List OpId} (h : g.Found g.opIds outputs found) :
    {b | ReflTransGen (g.register guid op inputs outputs).graph.Feeds ⟨g.nodes.length⟩ b}.ncard =
      found.length + 1 := by
  have hnew : (⟨g.nodes.length⟩ : OpId) ∉ found := by
    intro hm
    exact Nat.lt_irrefl _ (mem_opIds.mp (h.subset _ hm))
  have hset : {b | ReflTransGen (g.register guid op inputs outputs).graph.Feeds
      ⟨g.nodes.length⟩ b} = ↑(⟨g.nodes.length⟩ :: found : List OpId).toFinset := by
    ext b
    rw [Finset.mem_coe, List.mem_toFinset, List.mem_cons]
    exact h.reflTransGen_iff
  rw [hset, Set.ncard_coe_finset,
    List.toFinset_card_of_nodup (List.nodup_cons.mpr ⟨hnew, h.nodup⟩), List.length_cons]

/-- The new operator feeds itself when it reads what it or an operator that was found writes. -/
theorem Found.transGen_iff {found : List OpId} (h : g.Found g.opIds outputs found) :
    TransGen (g.register guid op inputs outputs).graph.Feeds ⟨g.nodes.length⟩ ⟨g.nodes.length⟩ ↔
      ∃ t ∈ outputs ++ g.writtenBy found, t ∈ inputs := by
  rw [TransGen.tail'_iff]
  constructor
  · rintro ⟨a, hva, hav⟩
    obtain ⟨t, hw, ht⟩ := feeds_register_right.mp hav
    refine ⟨t, ?_, ht⟩
    rw [List.mem_append, mem_writtenBy]
    rcases hw with hw | ⟨_, hout⟩
    · rcases h.reflTransGen_iff.mp hva with rfl | ha
      · exact absurd hw.op_lt (Nat.lt_irrefl _)
      · exact .inr ⟨a, ha, hw⟩
    · exact .inl hout
  · rintro ⟨t, hw, ht⟩
    rw [List.mem_append, mem_writtenBy] at hw
    rcases hw with hout | ⟨a, ha, hw⟩
    · exact ⟨⟨g.nodes.length⟩, .refl, feeds_register_right.mpr ⟨t, .inr ⟨rfl, hout⟩, ht⟩⟩
    · exact ⟨a, h.reflTransGen_iff.mpr (.inr ha), feeds_register_right.mpr ⟨t, .inl hw, ht⟩⟩

theorem Linked.closesCycle_eq_none_iff (hg : g.Linked) (hfree : g.Acyclic) :
    g.closesCycle inputs outputs = none ↔
      (g.register guid op inputs outputs).graph.Acyclic := by
  have hfound := hg.found_downstream g.opIds outputs nodup_opIds
  rw [joins_register.acyclic_iff hfree, hfound.transGen_iff, closesCycle]
  simp only [List.any_eq_true, List.contains_iff_mem, ite_eq_right_iff, reduceCtorEq, imp_false]

theorem Linked.closesCycle_eq_some (hg : g.Linked) (hfree : g.Acyclic) {remaining : Nat}
    (h : g.closesCycle inputs outputs = some remaining) :
    remaining = (g.register guid op inputs outputs).graph.stranded.ncard := by
  have hfound := hg.found_downstream g.opIds outputs nodup_opIds
  have hself : TransGen (g.register guid op inputs outputs).graph.Feeds ⟨g.nodes.length⟩
      ⟨g.nodes.length⟩ := by
    by_contra hself
    rw [← joins_register.acyclic_iff hfree, ← hg.closesCycle_eq_none_iff hfree, h] at hself
    cases hself
  rw [joins_register.stranded_eq hfree hself, hfound.ncard_eq]
  unfold closesCycle at h
  rcases ite_eq_iff.mp h with ⟨_, hsome⟩ | ⟨_, hnone⟩
  · exact (Option.some.inj hsome).symm
  · cases hnone

end Register

theorem Acyclic.addTensors (hfree : g.Acyclic) (guid : Nat) (types : List TensorType) :
    (g.addTensors guid types).graph.Acyclic := by
  rw [addTensors_eq]
  exact hfree

/-- Outputs that are made for an operator are read by nobody, the operator included. -/
theorem Linked.acyclic_made (hg : g.Linked) (hfree : g.Acyclic) {guid : Nat} {op : Operator}
    {inputs : List TensorId} {types : List TensorType}
    (hin : ∀ t ∈ inputs, t.index < g.tensors.length) :
    ((g.addTensors guid types).graph.register (g.addTensors guid types).nextGuid op inputs
      (g.addTensors guid types).id).graph.Acyclic := by
  rw [joins_register.acyclic_iff (hfree.addTensors guid types)]
  intro hself
  -- The first edge of such a cycle leads to a reader of a tensor that was just made.
  obtain ⟨b, hb, _⟩ := TransGen.head'_iff.mp hself
  obtain ⟨t, ht, hread⟩ := feeds_register_left.mp hb
  obtain ⟨i, _, rfl⟩ := mem_addTensors_id.mp ht
  have hlt : g.tensors.length + i < g.tensors.length := by
    rw [addTensors_eq] at hread
    rcases hread with hr | ⟨_, hm⟩
    · exact hg.reads_lt (o := b) hr
    · exact hin _ hm
  omega

theorem Acyclic.step [Build] (hfree : g.Acyclic) (hg : g.Linked) (h : g.Step g') : g'.Acyclic := by
  cases h with
  | refused => exact hfree
  | hosted host => exact hfree
  | grown guid type payload _ => exact hfree
  | made guid op inputs inferred hinfer => exact hg.acyclic_made hfree (lt_of_infer hinfer)
  | declared guid op inputs outputs inferred _ hcycle =>
    exact (hg.closesCycle_eq_none_iff hfree).mp hcycle

theorem Reachable.acyclic [Build] (hg : g.Reachable) : g.Acyclic := by
  have h : g.Linked ∧ g.Acyclic := by
    apply hg.invariant (p := fun g => g.Linked ∧ g.Acyclic)
    · exact ⟨linked_empty, stranded_eq_empty_iff.mp (Set.eq_empty_of_forall_notMem
        fun b hb => Nat.not_lt_zero _ (lt_of_mem_stranded hb))⟩
    · rintro g g' ⟨hlinked, hfree⟩ h
      exact ⟨hlinked.step h, hfree.step hlinked h⟩
  exact h.2

/-- An operator with declared outputs is added if the graph with the operator has an order of
evaluation. If not, the error is the one that ordering that graph would give. -/
theorem addOpInto_agrees_with_topologicalOrder [Build] (hg : g.Reachable) {op : Operator}
    {inputs outputs : List TensorId} {inferred : Inferred}
    (hadmits : g.Admits op inputs outputs inferred) (guid : Nat) :
    let extended := (g.register guid inferred.op inputs outputs).graph
    ((∃ e, g.addOpInto guid op inputs outputs = .ok e) ↔ extended.Acyclic) ∧
    ((∃ order, extended.topologicalOrder = .ok order) ↔ extended.Acyclic) ∧
    (¬ extended.Acyclic → ∃ remaining,
      g.addOpInto guid op inputs outputs = .error (.error (.cycle remaining)) ∧
      extended.topologicalOrder = .error (.error (.cycle remaining))) := by
  intro extended
  have hlinked : extended.Linked :=
    hg.linked.register (lt_of_infer hadmits.infer) hadmits.writable
  have hnone : g.closesCycle inputs outputs = none ↔ extended.Acyclic :=
    hg.linked.closesCycle_eq_none_iff hg.acyclic
  rw [hadmits.addOpInto guid, ← hnone]
  cases hcycle : g.closesCycle inputs outputs with
  | none =>
    rcases hlinked.topologicalOrder_cases with ⟨_, horder⟩ | ⟨hcyclic, _⟩
    · simp [horder]
    · exact absurd (hnone.mp hcycle) hcyclic
  | some remaining =>
    have hcount : remaining = extended.stranded.ncard :=
      hg.linked.closesCycle_eq_some hg.acyclic hcycle
    rcases hlinked.topologicalOrder_cases with ⟨hfree, _⟩ | ⟨_, horder⟩
    · rw [hnone.mpr hfree] at hcycle
      cases hcycle
    · simp [horder, hcount]

/-- The cycle runs through all three operators. -/
theorem addOpInto_agrees_lateProducer :
    lateProducer.Reachable ∧
      lateProducer.Admits (.unary ⟨.relu⟩) [⟨2⟩] [⟨0⟩] ⟨.unary ⟨.relu⟩, [⟨[4], .float32⟩]⟩ ∧
      lateProducer.addOpInto 6 (.unary ⟨.relu⟩) [⟨2⟩] [⟨0⟩] = .error (.error (.cycle 3)) ∧
      (lateProducer.register 6 (.unary ⟨.relu⟩) [⟨2⟩] [⟨0⟩]).graph.topologicalOrder =
        .error (.error (.cycle 3)) := by
  have hg : lateProducer.Reachable := reachable_ofCalls _
  have hadmits : lateProducer.Admits (.unary ⟨.relu⟩) [⟨2⟩] [⟨0⟩]
      ⟨.unary ⟨.relu⟩, [⟨[4], .float32⟩]⟩ := ⟨by cbv, by cbv, by cbv⟩
  have hadd : lateProducer.addOpInto 6 (.unary ⟨.relu⟩) [⟨2⟩] [⟨0⟩] =
      .error (.error (.cycle 3)) := by cbv
  obtain ⟨hok, _, hagree⟩ := addOpInto_agrees_with_topologicalOrder hg hadmits 6
  rw [hadd] at hok hagree
  have hcyclic : ¬ (lateProducer.register 6 (.unary ⟨.relu⟩) [⟨2⟩] [⟨0⟩]).graph.Acyclic := by
    intro hfree
    obtain ⟨e, he⟩ := hok.mpr hfree
    cases he
  obtain ⟨remaining, hcycle, horder⟩ := hagree hcyclic
  obtain rfl : 3 = remaining := by simpa using hcycle
  exact ⟨hg, hadmits, hadd, horder⟩

end DataflowCost.Graph
