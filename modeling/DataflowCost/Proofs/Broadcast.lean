import DataflowCost.Proofs.Outcome
import DataflowCost.Tensor.Broadcast

/-! Stretching as an order. A shape stretches to another one if the broadcast of the two is the
other; then the broadcast of any two shapes is their join, and there is none exactly where the
shapes have no common bound. Grouping and order of a list of shapes do not matter to its join. -/
namespace DataflowCost

/-- An extent stretches to itself, and an extent of one to every other. -/
def Stretches (a b : Nat) : Prop := a = b ∨ a = 1

namespace Stretches

variable {a b c : Nat}

theorem refl (a : Nat) : Stretches a a := .inl rfl

theorem trans (hab : Stretches a b) (hbc : Stretches b c) : Stretches a c := by
  rcases hab with rfl | rfl
  · exact hbc
  · exact .inr rfl

theorem antisymm (hab : Stretches a b) (hba : Stretches b a) : a = b := by
  rcases hab with rfl | rfl
  · rfl
  · rcases hba with hba | hba
    · exact hba.symm
    · exact hba.symm

end Stretches

namespace Shape

section Extents

variable {a b c d : Nat}

/-- Two extents join to one of them, to which both stretch. -/
theorem joinExtent_eq_some_iff :
    joinExtent a b = some c ↔ Stretches a c ∧ Stretches b c ∧ (c = a ∨ c = b) := by
  unfold joinExtent Stretches
  by_cases hab : a = b
  · rw [if_pos hab, Option.some.injEq]
    omega
  · rw [if_neg hab]
    by_cases ha : a = 1
    · rw [if_pos ha, Option.some.injEq]
      omega
    · rw [if_neg ha]
      by_cases hb : b = 1
      · rw [if_pos hb, Option.some.injEq]
        omega
      · rw [if_neg hb]
        simp only [reduceCtorEq, false_iff]
        omega

/-- Extents that stretch to a common one have a join. -/
theorem exists_joinExtent (ha : Stretches a d) (hb : Stretches b d) :
    ∃ c, joinExtent a b = some c := by
  rcases ha with rfl | rfl
  · exact ⟨a, joinExtent_eq_some_iff.mpr ⟨.refl a, hb, .inl rfl⟩⟩
  · exact ⟨b, joinExtent_eq_some_iff.mpr ⟨.inr rfl, .refl b, .inr rfl⟩⟩

/-- The join is below every extent to which both operands stretch. -/
theorem stretches_of_joinExtent (h : joinExtent a b = some c) (ha : Stretches a d)
    (hb : Stretches b d) : Stretches c d := by
  obtain ⟨_, _, rfl | rfl⟩ := joinExtent_eq_some_iff.mp h
  · exact ha
  · exact hb

end Extents

/-- The extent a number of axes before the last one. A missing axis counts as one. -/
def fromBack (s : Shape) (i : Nat) : Nat := s.reverse.getD i 1

section FromBack

variable {s t : Shape}

theorem fromBack_of_le {i : Nat} (h : s.length ≤ i) : s.fromBack i = 1 := by
  rw [fromBack, List.getD_eq_getElem?_getD, List.getElem?_eq_none (by rwa [List.length_reverse]),
    Option.getD_none]

theorem fromBack_cons_length (extent : Nat) (s : Shape) :
    fromBack (extent :: s) s.length = extent := by
  simp [fromBack]

theorem fromBack_cons_of_ne {extent i : Nat} (h : i ≠ s.length) :
    fromBack (extent :: s) i = fromBack s i := by
  rcases Nat.lt_or_gt_of_ne h with hlt | hgt
  · have hlen : i < s.reverse.length := by rwa [List.length_reverse]
    simp only [fromBack, List.reverse_cons, List.getD_eq_getElem?_getD,
      List.getElem?_append_left hlen]
  · rw [fromBack_of_le (by rw [List.length_cons]; omega), fromBack_of_le (by omega)]

/-- Unit axes in front are not there when axes are counted from the last one. -/
theorem fromBack_alignTo (rank : Nat) (s : Shape) (i : Nat) :
    fromBack (alignTo rank s) i = fromBack s i := by
  unfold alignTo
  induction rank - s.length with
  | zero => rfl
  | succ n ih =>
    rw [List.replicate_succ, List.cons_append]
    by_cases hi : i = (List.replicate n 1 ++ s).length
    · rw [hi, fromBack_cons_length, fromBack_of_le]
      simp
    · rw [fromBack_cons_of_ne hi, ih]

theorem length_alignTo {rank : Nat} (h : s.length ≤ rank) : (alignTo rank s).length = rank := by
  rw [alignTo, List.length_append, List.length_replicate]
  omega

/-- What holds of single axes, missing ones included, holds of all axes of lists of one length. -/
theorem forall_fromBack_cons_iff {P : Nat → Nat → Nat → Prop} (hunit : P 1 1 1) {a b c : Nat}
    {s t u : Shape} (hst : s.length = t.length) (hsu : s.length = u.length) :
    (∀ i, P (fromBack (a :: s) i) (fromBack (b :: t) i) (fromBack (c :: u) i)) ↔
      P a b c ∧ ∀ i, P (s.fromBack i) (t.fromBack i) (u.fromBack i) := by
  have hfirst (extent : Nat) {s' : Shape} (hlen : s.length = s'.length) :
      fromBack (extent :: s') s.length = extent := by rw [hlen, fromBack_cons_length]
  constructor
  · intro h
    refine ⟨?_, fun i => ?_⟩
    · have hP := h s.length
      rwa [hfirst a rfl, hfirst b hst, hfirst c hsu] at hP
    · by_cases hi : i = s.length
      · rwa [fromBack_of_le (by omega), fromBack_of_le (by omega), fromBack_of_le (by omega)]
      · have hP := h i
        rwa [fromBack_cons_of_ne hi, fromBack_cons_of_ne (hst ▸ hi),
          fromBack_cons_of_ne (hsu ▸ hi)] at hP
  · rintro ⟨hP, hall⟩ i
    by_cases hi : i = s.length
    · rwa [hi, hfirst a rfl, hfirst b hst, hfirst c hsu]
    · rw [fromBack_cons_of_ne hi, fromBack_cons_of_ne (hst ▸ hi), fromBack_cons_of_ne (hsu ▸ hi)]
      exact hall i

theorem ext_fromBack (hlen : s.length = t.length) (h : ∀ i, s.fromBack i = t.fromBack i) :
    s = t := by
  induction s generalizing t with
  | nil => exact (List.length_eq_zero_iff.mp hlen.symm).symm
  | cons a s ih =>
    obtain ⟨b, t, rfl⟩ := List.exists_cons_of_length_eq_add_one hlen.symm
    have hrest : s.length = t.length := Nat.succ.inj hlen
    obtain ⟨hab, hothers⟩ :=
      (forall_fromBack_cons_iff (P := fun x y _ => x = y) (c := 1) rfl hrest rfl).mp h
    rw [hab, ih hrest hothers]

end FromBack

/-- Lists of one length join axis by axis, or not at all. -/
theorem joinAligned_eq_ok_iff {s t u : Shape} (hlen : s.length = t.length) :
    joinAligned s t = .ok u ↔ s.length = u.length ∧
      ∀ i, joinExtent (s.fromBack i) (t.fromBack i) = some (u.fromBack i) := by
  induction s generalizing t u with
  | nil =>
    obtain rfl := List.length_eq_zero_iff.mp hlen.symm
    constructor
    · intro h
      obtain rfl := Except.ok.inj h
      exact ⟨rfl, fun _ => rfl⟩
    · rintro ⟨hu, _⟩
      obtain rfl := List.length_eq_zero_iff.mp hu.symm
      rfl
  | cons a s ih =>
    obtain ⟨b, t, rfl⟩ := List.exists_cons_of_length_eq_add_one hlen.symm
    have hst : s.length = t.length := Nat.succ.inj hlen
    have hcons {b c : Nat} {u : Shape} (hsu : s.length = u.length) :=
      forall_fromBack_cons_iff (P := fun x y z => joinExtent x y = some z) (a := a) (b := b)
        (c := c) rfl hst hsu
    unfold joinAligned
    constructor
    · intro h
      cases hjoin : joinExtent a b with
      | none =>
        rw [hjoin] at h
        cases h
      | some c =>
        rw [hjoin] at h
        cases hu : joinAligned s t with
        | error e =>
          rw [hu] at h
          cases h
        | ok u =>
          rw [hu] at h
          obtain rfl := Except.ok.inj h
          obtain ⟨hsu, hall⟩ := (ih hst).mp hu
          exact ⟨congrArg Nat.succ hsu, (hcons hsu).mpr ⟨hjoin, hall⟩⟩
    · rintro ⟨hulen, hall⟩
      obtain ⟨c, u, rfl⟩ := List.exists_cons_of_length_eq_add_one hulen.symm
      have hsu : s.length = u.length := Nat.succ.inj hulen
      obtain ⟨hjoin, hothers⟩ := (hcons hsu).mp hall
      have hu : joinAligned s t = .ok u := (ih hst).mpr ⟨hsu, hothers⟩
      simp only [hjoin, hu]
      rfl

theorem exists_joinAligned {s t : Shape} (hlen : s.length = t.length)
    (h : ∀ i, ∃ c, joinExtent (s.fromBack i) (t.fromBack i) = some c) :
    ∃ u, joinAligned s t = .ok u := by
  induction s generalizing t with
  | nil =>
    obtain rfl := List.length_eq_zero_iff.mp hlen.symm
    exact ⟨[], rfl⟩
  | cons a s ih =>
    obtain ⟨b, t, rfl⟩ := List.exists_cons_of_length_eq_add_one hlen.symm
    have hst : s.length = t.length := Nat.succ.inj hlen
    obtain ⟨⟨c, hc⟩, hothers⟩ := (forall_fromBack_cons_iff
      (P := fun x y _ => ∃ c, joinExtent x y = some c) (c := 1) ⟨1, rfl⟩ hst rfl).mp h
    obtain ⟨u, hu⟩ := ih hst hothers
    exact ⟨c :: u, by simp only [joinAligned, hc, hu]; rfl⟩

section Broadcast

variable {a b c d : Shape}

/-- The broadcast of two shapes, read axis by axis. -/
theorem broadcast_eq_ok_iff : a.broadcast b = .ok c ↔ c.length = max a.length b.length ∧
    ∀ i, joinExtent (a.fromBack i) (b.fromBack i) = some (c.fromBack i) := by
  have ha := length_alignTo (Nat.le_max_left a.length b.length)
  have hb := length_alignTo (Nat.le_max_right a.length b.length)
  have haligned := joinAligned_eq_ok_iff (u := c) (ha.trans hb.symm)
  simp only [fromBack_alignTo, ha] at haligned
  rw [eq_comm (a := c.length), ← haligned]
  -- A failure is only given another cause.
  simp only [broadcast]
  cases joinAligned (alignTo (max a.length b.length) a) (alignTo (max a.length b.length) b) with
  | ok s => simp only [Except.ok.injEq]
  | error e => simp only [Inference.invalid, reduceCtorEq]

theorem exists_broadcast
    (h : ∀ i, ∃ c, joinExtent (a.fromBack i) (b.fromBack i) = some c) :
    ∃ c, a.broadcast b = .ok c := by
  have ha := length_alignTo (Nat.le_max_left a.length b.length)
  have hb := length_alignTo (Nat.le_max_right a.length b.length)
  obtain ⟨c, hc⟩ := exists_joinAligned (ha.trans hb.symm) (by simpa only [fromBack_alignTo] using h)
  exact ⟨c, by simp only [broadcast, hc]⟩

/-- A shape stretches to another one that has its axes, counted from the last one, stretched. -/
theorem broadcastsInto_iff : d.broadcastsInto a = true ↔
    a.length ≤ d.length ∧ ∀ i, Stretches (a.fromBack i) (d.fromBack i) := by
  have hbroadcast : d.broadcastsInto a = true ↔ d.broadcast a = .ok d := by
    unfold broadcastsInto
    cases d.broadcast a with
    | ok s => rw [beq_iff_eq, Except.ok.injEq]
    | error e => exact ⟨nofun, nofun⟩
  rw [hbroadcast, broadcast_eq_ok_iff]
  constructor
  · rintro ⟨hlen, hall⟩
    exact ⟨by omega, fun i => (joinExtent_eq_some_iff.mp (hall i)).2.1⟩
  · rintro ⟨hlen, hall⟩
    exact ⟨by omega, fun i => joinExtent_eq_some_iff.mpr ⟨.refl _, hall i, .inl rfl⟩⟩

theorem broadcastsInto_refl (s : Shape) : s.broadcastsInto s = true :=
  broadcastsInto_iff.mpr ⟨Nat.le_refl _, fun _ => .refl _⟩

theorem broadcastsInto_trans (hab : b.broadcastsInto a = true) (hbc : c.broadcastsInto b = true) :
    c.broadcastsInto a = true := by
  obtain ⟨hlen, hall⟩ := broadcastsInto_iff.mp hab
  obtain ⟨hlen', hall'⟩ := broadcastsInto_iff.mp hbc
  exact broadcastsInto_iff.mpr ⟨Nat.le_trans hlen hlen', fun i => (hall i).trans (hall' i)⟩

theorem broadcastsInto_antisymm (hab : b.broadcastsInto a = true)
    (hba : a.broadcastsInto b = true) : a = b := by
  obtain ⟨hlen, hall⟩ := broadcastsInto_iff.mp hab
  obtain ⟨hlen', hall'⟩ := broadcastsInto_iff.mp hba
  exact ext_fromBack (Nat.le_antisymm hlen hlen') fun i => (hall i).antisymm (hall' i)

theorem broadcastsInto_nil (s : Shape) : s.broadcastsInto [] = true :=
  broadcastsInto_iff.mpr ⟨Nat.zero_le _, fun _ => .inr rfl⟩

end Broadcast

/-- The least shape to which all the given ones stretch. -/
structure IsJoin (shapes : List Shape) (c : Shape) : Prop where
  above : ∀ s ∈ shapes, c.broadcastsInto s = true
  least : ∀ d : Shape, (∀ s ∈ shapes, d.broadcastsInto s = true) → d.broadcastsInto c = true

namespace IsJoin

variable {shapes shapes' : List Shape} {a b c c' : Shape}

theorem unique (h : IsJoin shapes c) (h' : IsJoin shapes c') : c = c' :=
  broadcastsInto_antisymm (h.least c' h'.above) (h'.least c h.above)

/-- Only the members of the list matter. -/
theorem congr (hmem : ∀ s, s ∈ shapes ↔ s ∈ shapes') (h : IsJoin shapes c) : IsJoin shapes' c where
  above s hs := h.above s ((hmem s).mpr hs)
  least d hd := h.least d fun s hs => hd s ((hmem s).mp hs)

end IsJoin

section Join

variable {shapes : List Shape} {a b c : Shape}

theorem isJoin_singleton_iff : IsJoin [a] c ↔ c = a := by
  have hself : IsJoin [a] a :=
    { above := fun s hs => List.mem_singleton.mp hs ▸ broadcastsInto_refl a
      least := fun d hd => hd a List.mem_cons_self }
  constructor
  · exact fun h => h.unique hself
  · rintro rfl
    exact hself

theorem isJoin_perm {shapes' : List Shape} (hperm : shapes.Perm shapes') :
    IsJoin shapes c ↔ IsJoin shapes' c :=
  ⟨.congr fun _ => hperm.mem_iff, .congr fun _ => hperm.mem_iff.symm⟩

theorem isJoin_cons_self_iff : IsJoin (a :: a :: shapes) c ↔ IsJoin (a :: shapes) c :=
  ⟨.congr fun _ => by simp, .congr fun _ => by simp⟩

/-- A shape without axes is below all others. -/
theorem isJoin_nil_cons_iff : IsJoin ([] :: shapes) c ↔ IsJoin shapes c := by
  constructor
  · intro h
    exact
      { above := fun s hs => h.above s (List.mem_cons_of_mem _ hs)
        least := fun d hd => h.least d (List.forall_mem_cons.mpr ⟨broadcastsInto_nil d, hd⟩) }
  · intro h
    exact
      { above := List.forall_mem_cons.mpr ⟨broadcastsInto_nil c, h.above⟩
        least := fun d hd => h.least d (List.forall_mem_cons.mp hd).2 }

theorem isJoin_of_broadcast (h : a.broadcast b = .ok c) : IsJoin [a, b] c := by
  obtain ⟨hlen, hall⟩ := broadcast_eq_ok_iff.mp h
  have hboth (i : Nat) := joinExtent_eq_some_iff.mp (hall i)
  have ha : c.broadcastsInto a = true :=
    broadcastsInto_iff.mpr ⟨by omega, fun i => (hboth i).1⟩
  have hb : c.broadcastsInto b = true :=
    broadcastsInto_iff.mpr ⟨by omega, fun i => (hboth i).2.1⟩
  refine ⟨?_, fun d hd => ?_⟩
  · simp only [List.mem_cons, List.not_mem_nil, or_false, forall_eq_or_imp, forall_eq]
    exact ⟨ha, hb⟩
  · obtain ⟨hlena, hda⟩ := broadcastsInto_iff.mp (hd a (by simp))
    obtain ⟨hlenb, hdb⟩ := broadcastsInto_iff.mp (hd b (by simp))
    exact broadcastsInto_iff.mpr
      ⟨by omega, fun i => stretches_of_joinExtent (hall i) (hda i) (hdb i)⟩

/-- Shapes with a common bound have a broadcast. -/
theorem exists_broadcast_of_bound {d : Shape} (ha : d.broadcastsInto a = true)
    (hb : d.broadcastsInto b = true) : ∃ c, a.broadcast b = .ok c := by
  obtain ⟨_, ha⟩ := broadcastsInto_iff.mp ha
  obtain ⟨_, hb⟩ := broadcastsInto_iff.mp hb
  exact exists_broadcast fun i => exists_joinExtent (ha i) (hb i)

theorem broadcast_eq_ok_iff_isJoin : a.broadcast b = .ok c ↔ IsJoin [a, b] c := by
  refine ⟨isJoin_of_broadcast, fun h => ?_⟩
  obtain ⟨c', hc'⟩ := exists_broadcast_of_bound (h.above a (by simp)) (h.above b (by simp))
  rw [hc', h.unique (isJoin_of_broadcast hc')]

/-- Two shapes of a list can be joined first. -/
theorem isJoin_cons_cons_iff :
    IsJoin (a :: b :: shapes) c ↔ ∃ ab, IsJoin [a, b] ab ∧ IsJoin (ab :: shapes) c := by
  constructor
  · intro h
    obtain ⟨ab, hab⟩ := exists_broadcast_of_bound (h.above a (by simp)) (h.above b (by simp))
    have hjoin := isJoin_of_broadcast hab
    -- The whole list is below `c`, hence so is the join of its first two shapes.
    have hfirst : c.broadcastsInto ab = true :=
      hjoin.least c fun s hs => h.above s (List.mem_of_mem_take (i := 2) hs)
    refine ⟨ab, hjoin, ?_, ?_⟩
    · exact List.forall_mem_cons.mpr ⟨hfirst, fun s hs => h.above s (by simp [hs])⟩
    · intro d hd
      obtain ⟨hdab, hrest⟩ := List.forall_mem_cons.mp hd
      apply h.least d
      refine List.forall_mem_cons.mpr ⟨?_, List.forall_mem_cons.mpr ⟨?_, hrest⟩⟩
      · exact broadcastsInto_trans (hjoin.above a (by simp)) hdab
      · exact broadcastsInto_trans (hjoin.above b (by simp)) hdab
  · rintro ⟨ab, hjoin, h⟩
    obtain ⟨hcab, hrest⟩ := List.forall_mem_cons.mp h.above
    constructor
    · refine List.forall_mem_cons.mpr ⟨?_, List.forall_mem_cons.mpr ⟨?_, hrest⟩⟩
      · exact broadcastsInto_trans (hjoin.above a (by simp)) hcab
      · exact broadcastsInto_trans (hjoin.above b (by simp)) hcab
    · intro d hd
      have hfirst : d.broadcastsInto ab = true :=
        hjoin.least d fun s hs => hd s (List.mem_of_mem_take (i := 2) hs)
      exact h.least d (List.forall_mem_cons.mpr ⟨hfirst, fun s hs => hd s (by simp [hs])⟩)

theorem foldlM_broadcast_eq_ok_iff :
    shapes.foldlM broadcast a = .ok c ↔ IsJoin (a :: shapes) c := by
  induction shapes generalizing a with
  | nil =>
    rw [isJoin_singleton_iff]
    exact ok_eq_ok_iff
  | cons s shapes ih =>
    rw [List.foldlM_cons, bind_eq_ok_iff, isJoin_cons_cons_iff]
    simp only [ih, broadcast_eq_ok_iff_isJoin]

/-- The broadcast of a list is its join. -/
theorem broadcastAll_eq_ok_iff : broadcastAll shapes = .ok c ↔ IsJoin shapes c := by
  rw [broadcastAll, foldlM_broadcast_eq_ok_iff, isJoin_nil_cons_iff]

/-- Which two of three shapes are joined first does not matter. -/
theorem broadcast_assoc (a b c d : Shape) :
    (a.broadcast b >>= fun ab => ab.broadcast c) = .ok d ↔
      (b.broadcast c >>= fun bc => a.broadcast bc) = .ok d := by
  have hleft : (a.broadcast b >>= fun ab => ab.broadcast c) = .ok d ↔ IsJoin [a, b, c] d := by
    rw [bind_eq_ok_iff, isJoin_cons_cons_iff]
    simp only [broadcast_eq_ok_iff_isJoin]
  have hright : (b.broadcast c >>= fun bc => a.broadcast bc) = .ok d ↔ IsJoin [b, c, a] d := by
    rw [bind_eq_ok_iff, isJoin_cons_cons_iff]
    simp only [broadcast_eq_ok_iff_isJoin, isJoin_perm (List.Perm.swap _ a [])]
  rw [hleft, hright]
  exact isJoin_perm (List.perm_append_singleton a [b, c]).symm

end Join

/-- Stretching is an order in which the broadcast of shapes is their join, of the greater rank, and
which fails exactly where there is no bound. So neither the grouping of shapes nor their order
changes whether they have a broadcast, or which. -/
theorem broadcast_isJoin :
    (∀ a : Shape, a.broadcastsInto a = true) ∧
    (∀ a b c : Shape, b.broadcastsInto a = true → c.broadcastsInto b = true →
      c.broadcastsInto a = true) ∧
    (∀ a b : Shape, b.broadcastsInto a = true → a.broadcastsInto b = true → a = b) ∧
    (∀ a b c : Shape, a.broadcast b = .ok c ↔ IsJoin [a, b] c) ∧
    (∀ a b c : Shape, a.broadcast b = .ok c → c.length = max a.length b.length) ∧
    (∀ a b : Shape, (∃ c, a.broadcast b = .ok c) ↔
      ∃ d : Shape, d.broadcastsInto a = true ∧ d.broadcastsInto b = true) ∧
    (∀ a b : Shape, (∃ e, a.broadcast b = .error e) ↔
      ¬ ∃ d : Shape, d.broadcastsInto a = true ∧ d.broadcastsInto b = true) ∧
    (∀ a b : Shape, (a.broadcast b).toOption = (b.broadcast a).toOption) ∧
    (∀ a b c : Shape, (a.broadcast b >>= fun ab => ab.broadcast c).toOption =
      (b.broadcast c >>= fun bc => a.broadcast bc).toOption) ∧
    (∀ a : Shape, a.broadcast a = .ok a ∧ a.broadcast [] = .ok a ∧ Shape.broadcast [] a = .ok a) ∧
    (∀ shapes shapes' : List Shape, shapes.Perm shapes' →
      (broadcastAll shapes).toOption = (broadcastAll shapes').toOption) := by
  have hbound (a b : Shape) : (∃ c, a.broadcast b = .ok c) ↔
      ∃ d : Shape, d.broadcastsInto a = true ∧ d.broadcastsInto b = true := by
    constructor
    · rintro ⟨c, hc⟩
      have hjoin := isJoin_of_broadcast hc
      exact ⟨c, hjoin.above a (by simp), hjoin.above b (by simp)⟩
    · rintro ⟨d, ha, hb⟩
      exact exists_broadcast_of_bound ha hb
  refine ⟨broadcastsInto_refl, fun _ _ _ => broadcastsInto_trans,
    fun _ _ => broadcastsInto_antisymm, fun _ _ _ => broadcast_eq_ok_iff_isJoin,
    fun _ _ _ h => (broadcast_eq_ok_iff.mp h).1, hbound, ?_, ?_, ?_, ?_, ?_⟩
  · intro a b
    rw [exists_error_iff, hbound]
  · intro a b
    apply toOption_eq_of_forall_ok
    intro c
    rw [broadcast_eq_ok_iff_isJoin, broadcast_eq_ok_iff_isJoin]
    exact isJoin_perm (List.Perm.swap b a [])
  · exact fun a b c => toOption_eq_of_forall_ok (broadcast_assoc a b c)
  · intro a
    have hnil : Shape.broadcast [] a = .ok a := by
      rw [broadcast_eq_ok_iff_isJoin, isJoin_nil_cons_iff, isJoin_singleton_iff]
    refine ⟨?_, ?_, hnil⟩
    · rw [broadcast_eq_ok_iff_isJoin, isJoin_cons_self_iff, isJoin_singleton_iff]
    · rw [broadcast_eq_ok_iff_isJoin, isJoin_perm (List.Perm.swap [] a []),
        ← broadcast_eq_ok_iff_isJoin, hnil]
  · intro shapes shapes' hperm
    apply toOption_eq_of_forall_ok
    intro c
    rw [broadcastAll_eq_ok_iff, broadcastAll_eq_ok_iff, isJoin_perm hperm]

/-- A column, a row and a shape without elements, broadcast in either order. -/
theorem broadcast_isJoin_emptyRow :
    broadcastAll [[2, 1], [1, 1, 3], [0, 1, 1]] = .ok [0, 2, 3] ∧
      List.Perm [[2, 1], [1, 1, 3], [0, 1, 1]] [[0, 1, 1], [2, 1], [1, 1, 3]] ∧
      (broadcastAll [[2, 1], [1, 1, 3], [0, 1, 1]]).toOption =
        (broadcastAll [[0, 1, 1], [2, 1], [1, 1, 3]]).toOption ∧
      (∃ e, broadcast [0] [2] = .error e) ∧
      ¬ ∃ d : Shape, d.broadcastsInto [0] = true ∧ d.broadcastsInto [2] = true := by
  obtain ⟨_, _, _, _, _, _, hfails, _, _, _, hperm⟩ := broadcast_isJoin
  have hshapes : List.Perm [[2, 1], [1, 1, 3], [0, 1, 1]] [[0, 1, 1], [2, 1], [1, 1, 3]] := by
    decide
  exact ⟨rfl, hshapes, hperm _ _ hshapes, ⟨_, rfl⟩, (hfails [0] [2]).mp ⟨_, rfl⟩⟩

end Shape

end DataflowCost
