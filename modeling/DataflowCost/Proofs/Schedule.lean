import DataflowCost.Proofs.Dependency
import Mathlib.Data.Fintype.Card

/-! Orders of evaluation, apart from how one is found. Taking the smallest ready operator until none
is ready gives the least schedule of an acyclic graph, and leaves out the stranded operators of any
other. -/
namespace DataflowCost.Graph

open Relation

variable {g : Graph}

/-- Every operator once, each after all that feed it. -/
structure Schedule (g : Graph) (order : List OpId) : Prop where
  perm : order.Perm g.opIds
  fed : ∀ l b r, order = l ++ b :: r → ∀ a, g.Feeds a b → a ∈ l

/-- One list is below another where they first differ. -/
abbrev LexLt (l r : List OpId) : Prop := List.Lex (fun a b => a.index < b.index) l r

/-- An operator that is not yet evaluated and waits for no other. -/
structure Ready (g : Graph) (done : List OpId) (o : OpId) : Prop where
  lt : o.index < g.nodes.length
  fresh : o ∉ done
  fed : ∀ a, g.Feeds a o → a ∈ done

/-- Each operator of a list is ready when its turn comes. -/
inductive Runs (g : Graph) : List OpId → List OpId → Prop
  | nil {done} : Runs g done []
  | cons {done o rest} : g.Ready done o → Runs g (o :: done) rest → Runs g done (o :: rest)

/-- The smallest ready operator is next, until none is ready. -/
inductive Greedy (g : Graph) : List OpId → List OpId → Prop
  | stop {done} : (∀ o, ¬ g.Ready done o) → Greedy g done []
  | next {done o rest} : g.Ready done o → (∀ p, g.Ready done p → o.index ≤ p.index) →
      Greedy g (o :: done) rest → Greedy g done (o :: rest)

variable {done order : List OpId}

theorem runs_append {l r : List OpId} :
    g.Runs done (l ++ r) ↔ g.Runs done l ∧ g.Runs (l.reverse ++ done) r := by
  -- The induction moves the operators of `l` to `done`, the last one in front.
  induction l generalizing done with
  | nil =>
    constructor
    · intro h
      exact ⟨.nil, h⟩
    · intro h
      exact h.2
  | cons o l ih =>
    have hrev : (o :: l).reverse ++ done = l.reverse ++ o :: done := by
      simp only [List.reverse_cons, List.append_assoc, List.cons_append, List.nil_append]
    rw [hrev]
    constructor
    · intro h
      cases h with
      | cons ho hl =>
        obtain ⟨h1, h2⟩ := ih.mp hl
        exact ⟨.cons ho h1, h2⟩
    · rintro ⟨h1, h2⟩
      cases h1 with
      | cons ho hl => exact .cons ho (ih.mpr ⟨hl, h2⟩)

theorem Runs.ready_at {l r : List OpId} {b : OpId} (h : g.Runs done (l ++ b :: r)) :
    g.Ready (l.reverse ++ done) b := by
  cases (runs_append.mp h).2 with
  | cons hb _ => exact hb

theorem Runs.ready_of_mem (h : g.Runs done order) {b : OpId} (hb : b ∈ order) :
    ∃ l r, order = l ++ b :: r ∧ g.Ready (l.reverse ++ done) b := by
  obtain ⟨l, r, rfl⟩ := List.append_of_mem hb
  exact ⟨l, r, rfl, h.ready_at⟩

theorem Runs.lt (h : g.Runs done order) {b : OpId} (hb : b ∈ order) :
    b.index < g.nodes.length := by
  obtain ⟨l, r, _, hr⟩ := h.ready_of_mem hb
  exact hr.lt

theorem Runs.disjoint (h : g.Runs done order) : order.Disjoint done := by
  intro b hb hd
  obtain ⟨l, r, _, hr⟩ := h.ready_of_mem hb
  exact hr.fresh (List.mem_append_right _ hd)

theorem Runs.nodup (h : g.Runs done order) : order.Nodup := by
  induction h with
  | nil => exact List.nodup_nil
  | cons _ hrest ih =>
    have hd := hrest.disjoint
    exact List.nodup_cons.mpr ⟨fun hm => hd hm List.mem_cons_self, ih⟩

/-- Whatever an operator of a run depends on, however indirectly, has been evaluated before it. -/
theorem Runs.mem_of_transGen {a b : OpId} (hab : TransGen g.Feeds a b) :
    ∀ {l r : List OpId}, g.Runs [] (l ++ b :: r) → a ∈ l := by
  have hfed {c d : OpId} {l r : List OpId} (hcd : g.Feeds c d) (h : g.Runs [] (l ++ d :: r)) :
      c ∈ l := by
    have hm := h.ready_at.fed c hcd
    rwa [List.append_nil, List.mem_reverse] at hm
  induction hab with
  | single hcd =>
    intro l r h
    exact hfed hcd h
  | tail _ hcd ih =>
    intro l r h
    obtain ⟨l1, l2, rfl⟩ := List.append_of_mem (hfed hcd h)
    -- The intermediate operator splits the run further to the left.
    have hl : a ∈ l1 := ih (by simpa only [List.append_assoc, List.cons_append] using h)
    exact List.mem_append_left _ hl

theorem Runs.not_stranded (h : g.Runs [] order) {b : OpId} (hb : b ∈ order) :
    b ∉ g.stranded := by
  rintro ⟨a, haa, hab⟩
  -- The operator on the cycle has been evaluated too, and before itself.
  have ha : a ∈ order := by
    rcases hab.cases_head with rfl | ⟨c, hac, hcb⟩
    · exact hb
    · obtain ⟨l, r, rfl⟩ := List.append_of_mem hb
      exact List.mem_append_left _ (mem_of_transGen (TransGen.head' hac hcb) h)
  obtain ⟨l, r, rfl⟩ := List.append_of_mem ha
  have hl : a ∈ l := mem_of_transGen haa h
  exact (h.ready_at).fresh (List.mem_append_left _ (List.mem_reverse.mpr hl))

theorem Schedule.runs (h : g.Schedule order) : g.Runs [] order := by
  have hnodup : order.Nodup := h.perm.nodup_iff.mpr nodup_opIds
  -- The induction is on what is left of the order; `l` is the part before it.
  have hsuffix (r : List OpId) : ∀ l, order = l ++ r → g.Runs l.reverse r := by
    induction r with
    | nil =>
      intro l _
      exact .nil
    | cons b r ih =>
      intro l hl
      have hb : b ∈ order := by simp [hl]
      have hfresh : b ∉ l := by
        rw [hl] at hnodup
        exact fun hm => (List.disjoint_of_nodup_append hnodup) hm List.mem_cons_self
      refine .cons ⟨mem_opIds.mp (h.perm.mem_iff.mp hb), ?_, ?_⟩ ?_
      · simpa only [List.mem_reverse] using hfresh
      · intro a ha
        exact List.mem_reverse.mpr (h.fed l b r hl a ha)
      · have hr := ih (l ++ [b]) (by simpa using hl)
        simpa using hr
  exact hsuffix order [] rfl

theorem Runs.schedule (h : g.Runs [] order) (hall : ∀ o ∈ g.opIds, o ∈ order) :
    g.Schedule order where
  perm := by
    rw [List.perm_ext_iff_of_nodup h.nodup nodup_opIds]
    intro o
    exact ⟨fun ho => mem_opIds.mpr (h.lt ho), hall o⟩
  fed := by
    rintro l b r rfl a ha
    exact h.mem_of_transGen (.single ha)

theorem Greedy.runs (h : g.Greedy done order) : g.Runs done order := by
  induction h with
  | stop _ => exact .nil
  | next ho _ _ ih => exact .cons ho ih

theorem Greedy.stuck (h : g.Greedy done order) : ∀ o, ¬ g.Ready (order.reverse ++ done) o := by
  induction h with
  | stop hstop => simpa using hstop
  | next _ _ _ ih =>
    simpa only [List.reverse_cons, List.append_assoc, List.cons_append, List.nil_append] using ih

/-- The greedy order is below every other run that cannot be continued. -/
theorem Greedy.eq_or_lexLt (h : g.Greedy done order) {other : List OpId}
    (hother : g.Runs done other) (hstuck : ∀ o, ¬ g.Ready (other.reverse ++ done) o) :
    order = other ∨ LexLt order other := by
  induction h generalizing other with
  | @stop done hstop =>
    cases hother with
    | nil => exact .inl rfl
    | cons hp _ => exact absurd hp (hstop _)
  | @next done o rest ho hleast _ ih =>
    cases hother with
    | nil => exact absurd ho (hstuck o)
    | @cons _ p others hp hothers =>
      rcases Nat.lt_or_eq_of_le (hleast p hp) with hlt | heq
      · exact .inr (.rel hlt)
      · -- Both begin alike, so the rest decides.
        obtain rfl : o = p := congrArg OpId.mk heq
        have hrest := ih hothers (by
          simpa only [List.reverse_cons, List.append_assoc, List.cons_append, List.nil_append]
            using hstuck)
        rcases hrest with rfl | hlex
        · exact .inl rfl
        · exact .inr (.cons hlex)

theorem Greedy.unique (h : g.Greedy done order) {other : List OpId} (hother : g.Greedy done other) :
    order = other := by
  induction h generalizing other with
  | stop hstop =>
    cases hother with
    | stop _ => rfl
    | next hp _ _ => exact absurd hp (hstop _)
  | @next done o rest ho hleast _ ih =>
    cases hother with
    | stop hstop => exact absurd ho (hstop o)
    | @next _ p others hp hleast' hothers =>
      obtain rfl : o = p := congrArg OpId.mk (Nat.le_antisymm (hleast p hp) (hleast' o ho))
      rw [ih hothers]

/-- Where every member of a set is fed by another, following the feeders back runs into a cycle. -/
theorem mem_stranded_of_fed {s : Set OpId} (hs : ∀ b ∈ s, ∃ a ∈ s, g.Feeds a b) {b : OpId}
    (hb : b ∈ s) : b ∈ g.stranded := by
  by_contra hfree
  have hlt (a : {a // a ∈ s ∧ ReflTransGen g.Feeds a b}) : a.1.index < g.nodes.length := by
    obtain ⟨c, _, hc⟩ := hs b hb
    exact feeds_left_lt_of_reflTransGen a.2.2 hc.right_lt
  have : Finite {a // a ∈ s ∧ ReflTransGen g.Feeds a b} := by
    apply Finite.of_injective (fun a => (⟨a.1.index, hlt a⟩ : Fin g.nodes.length))
    intro a c hac
    exact Subtype.ext (congrArg OpId.mk (congrArg Fin.val hac))
  -- Without a cycle above `b`, its ancestors in the set are well-founded, and a minimal one is fed.
  let above (a c : {a // a ∈ s ∧ ReflTransGen g.Feeds a b}) : Prop := TransGen g.Feeds a.1 c.1
  have : IsTrans _ above := ⟨fun _ _ _ h1 h2 => TransGen.trans h1 h2⟩
  have : Std.Irrefl above := ⟨fun a ha => hfree ⟨a.1, ha, a.2.2⟩⟩
  have hwf : WellFounded above := Finite.wellFounded_of_trans_of_irrefl above
  obtain ⟨m, _, hmin⟩ := hwf.has_min Set.univ ⟨⟨b, hb, .refl⟩, trivial⟩
  obtain ⟨a, ha, ham⟩ := hs m.1 m.2.1
  exact hmin ⟨a, ha, .head ham m.2.2⟩ trivial (.single ham)

theorem Greedy.mem_iff (h : g.Greedy [] order) {o : OpId} :
    o ∈ order ↔ o ∈ g.opIds ∧ o ∉ g.stranded := by
  constructor
  · intro ho
    exact ⟨mem_opIds.mpr (h.runs.lt ho), h.runs.not_stranded ho⟩
  · rintro ⟨ho, hfree⟩
    by_contra hmiss
    apply hfree
    apply mem_stranded_of_fed (s := {b | b ∈ g.opIds ∧ b ∉ order}) ?_ ⟨ho, hmiss⟩
    rintro b ⟨hb, hbo⟩
    -- What the loop left over waits for something else that it left over.
    by_contra hnone
    apply h.stuck b
    refine ⟨mem_opIds.mp hb, by simpa using hbo, ?_⟩
    intro a hab
    by_contra ha
    exact hnone ⟨a, ⟨mem_opIds.mpr hab.left_lt, by simpa using ha⟩, hab⟩

/-- The operators that the greedy order leaves out are counted by its length. -/
theorem Greedy.length_add_ncard (h : g.Greedy [] order) :
    order.length + g.stranded.ncard = g.nodes.length := by
  have hsplit : g.stranded = ↑(g.opIds.toFinset \ order.toFinset) := by
    ext b
    rw [Finset.mem_coe, Finset.mem_sdiff, List.mem_toFinset, List.mem_toFinset, h.mem_iff]
    constructor
    · intro hb
      exact ⟨mem_opIds.mpr (lt_of_mem_stranded hb), fun hm => hm.2 hb⟩
    · rintro ⟨hb, hout⟩
      by_contra hfree
      exact hout ⟨hb, hfree⟩
  have hsub : order.toFinset ⊆ g.opIds.toFinset := by
    intro o ho
    rw [List.mem_toFinset] at ho ⊢
    exact (h.mem_iff.mp ho).1
  have hcard := Finset.card_sdiff_add_card_eq_card hsub
  rw [List.toFinset_card_of_nodup nodup_opIds, List.toFinset_card_of_nodup h.runs.nodup,
    length_opIds] at hcard
  rw [hsplit, Set.ncard_coe_finset]
  omega

theorem Greedy.length_eq_iff (h : g.Greedy [] order) :
    order.length = g.nodes.length ↔ g.Acyclic := by
  have hcount := h.length_add_ncard
  rw [← stranded_eq_empty_iff, ← Set.ncard_eq_zero stranded_finite]
  omega

end DataflowCost.Graph
