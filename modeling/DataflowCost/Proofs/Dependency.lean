import DataflowCost.Graph.Build
import Mathlib.Data.Set.Card
import Mathlib.Logic.Relation

/-! The dependency of operators as a relation: one feeds another that reads what it writes. Cycles
of the relation strand every operator that lies on them or downstream of them. -/
namespace DataflowCost.Graph

open Relation

variable {g : Graph}

def Reads (g : Graph) (o : OpId) (t : TensorId) : Prop :=
  ∃ n, g.node? o = some n ∧ t ∈ n.inputs

def Writes (g : Graph) (o : OpId) (t : TensorId) : Prop :=
  ∃ n, g.node? o = some n ∧ t ∈ n.outputs

/-- An output of the first operator is an input of the second. -/
def Feeds (g : Graph) (a b : OpId) : Prop := ∃ t, g.Writes a t ∧ g.Reads b t

def Acyclic (g : Graph) : Prop := ∀ a, ¬ TransGen g.Feeds a a

/-- The operators on a cycle or downstream of one. -/
def stranded (g : Graph) : Set OpId :=
  {b | ∃ a, TransGen g.Feeds a a ∧ ReflTransGen g.Feeds a b}

/-- Operators read tensors of the graph only, and the producer of a tensor is the operator that
writes it. Nothing is said of the order of operators, and cycles are not excluded. -/
structure Arena (g : Graph) : Prop where
  reads_lt : ∀ {o t}, g.Reads o t → t.index < g.tensors.length
  producer_iff : ∀ {o t}, g.producer? t = some o ↔ g.Writes o t

theorem node?_eq_none_iff {o : OpId} : g.node? o = none ↔ g.nodes.length ≤ o.index :=
  List.getElem?_eq_none_iff

theorem node?_lt {o : OpId} {n : Node} (h : g.node? o = some n) : o.index < g.nodes.length :=
  (List.getElem?_eq_some_iff.mp h).1

theorem tensor?_lt {t : TensorId} {x : Tensor} (h : g.tensor? t = some x) :
    t.index < g.tensors.length :=
  (List.getElem?_eq_some_iff.mp h).1

theorem exists_tensor?_of_lt {t : TensorId} (h : t.index < g.tensors.length) :
    ∃ x, g.tensor? t = some x :=
  ⟨g.tensors[t.index], List.getElem?_eq_getElem h⟩

theorem exists_node?_of_lt {o : OpId} (h : o.index < g.nodes.length) :
    ∃ n, g.node? o = some n :=
  ⟨g.nodes[o.index], List.getElem?_eq_getElem h⟩

theorem Reads.op_lt {o : OpId} {t : TensorId} (h : g.Reads o t) : o.index < g.nodes.length := by
  obtain ⟨n, hn, _⟩ := h
  exact node?_lt hn

theorem Writes.op_lt {o : OpId} {t : TensorId} (h : g.Writes o t) : o.index < g.nodes.length := by
  obtain ⟨n, hn, _⟩ := h
  exact node?_lt hn

theorem Feeds.left_lt {a b : OpId} (h : g.Feeds a b) : a.index < g.nodes.length := by
  obtain ⟨t, hw, _⟩ := h
  exact hw.op_lt

theorem Feeds.right_lt {a b : OpId} (h : g.Feeds a b) : b.index < g.nodes.length := by
  obtain ⟨t, _, hr⟩ := h
  exact hr.op_lt

theorem feeds_left_lt_of_reflTransGen {a b : OpId} (h : ReflTransGen g.Feeds a b)
    (hb : b.index < g.nodes.length) : a.index < g.nodes.length := by
  rcases h.cases_head with rfl | ⟨c, hac, _⟩
  · exact hb
  · exact hac.left_lt

theorem mem_opIds {o : OpId} : o ∈ g.opIds ↔ o.index < g.nodes.length := by
  simp only [opIds, List.mem_map, List.mem_range]
  constructor
  · rintro ⟨i, hi, rfl⟩
    exact hi
  · intro h
    exact ⟨o.index, h, rfl⟩

theorem opId_mk_injective : Function.Injective OpId.mk := fun _ _ h => congrArg OpId.index h

theorem nodup_opIds : g.opIds.Nodup := List.nodup_range.map opId_mk_injective

theorem length_opIds : g.opIds.length = g.nodes.length := by
  simp only [opIds, List.length_map, List.length_range]

theorem Arena.writes_lt (hg : g.Arena) {o : OpId} {t : TensorId} (h : g.Writes o t) :
    t.index < g.tensors.length := by
  obtain ⟨x, hx, _⟩ := Option.bind_eq_some_iff.mp (hg.producer_iff.mpr h)
  exact tensor?_lt hx

/-- A tensor has one producer at most, so no two operators write it. -/
theorem Arena.writer_unique (hg : g.Arena) {a b : OpId} {t : TensorId}
    (ha : g.Writes a t) (hb : g.Writes b t) : a = b := by
  have h := (hg.producer_iff.mpr ha).symm.trans (hg.producer_iff.mpr hb)
  exact Option.some.inj h

theorem Arena.mem_dependencies (hg : g.Arena) {a b : OpId} {n : Node} (hn : g.node? b = some n) :
    a ∈ g.dependencies n ↔ g.Feeds a b := by
  simp only [dependencies, List.mem_filterMap, hg.producer_iff]
  constructor
  · rintro ⟨t, ht, hw⟩
    exact ⟨t, hw, n, hn, ht⟩
  · rintro ⟨t, hw, m, hm, ht⟩
    rw [hn] at hm
    obtain rfl := Option.some.inj hm
    exact ⟨t, ht, hw⟩

theorem lt_of_mem_stranded {b : OpId} (h : b ∈ g.stranded) : b.index < g.nodes.length := by
  obtain ⟨a, haa, hab⟩ := h
  rcases hab.cases_tail with rfl | ⟨c, _, hcb⟩
  · -- An operator on a cycle feeds some other.
    obtain ⟨c, hac, _⟩ := TransGen.head'_iff.mp haa
    exact hac.left_lt
  · exact hcb.right_lt

theorem stranded_finite : g.stranded.Finite := by
  apply g.opIds.toFinset.finite_toSet.subset
  intro b hb
  exact List.mem_toFinset.mpr (mem_opIds.mpr (lt_of_mem_stranded hb))

theorem stranded_eq_empty_iff : g.stranded = ∅ ↔ g.Acyclic := by
  constructor
  · intro h a ha
    have hm : a ∈ g.stranded := ⟨a, ha, .refl⟩
    rw [h] at hm
    exact hm
  · intro h
    apply Set.eq_empty_of_forall_notMem
    rintro b ⟨a, ha, _⟩
    exact h a ha

end DataflowCost.Graph
