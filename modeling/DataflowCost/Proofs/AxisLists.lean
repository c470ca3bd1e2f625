import DataflowCost.Proofs.Slicing
import DataflowCost.Proofs.UnitAxes

/-! Lists of axes taken as sets. An axis may be named from either end, and the entries of a list may come in
any order as long as the values that belong to them move along. -/
namespace DataflowCost

open Inference

/-- The entries of one list, moved by a permutation of positions, make up another list. -/
def Carries {α : Type} (σ : Equiv.Perm Nat) (xs ys : List α) : Prop :=
  ∀ i, ys[σ i]? = xs[i]?

namespace Carries

variable {α β : Type} {σ : Equiv.Perm Nat} {xs ys : List α}

/-- Two entries change places. -/
theorem exchange {i j : Nat} (hi : ys[i]? = xs[j]?) (hj : ys[j]? = xs[i]?)
    (hothers : ∀ k, k ≠ i → k ≠ j → ys[k]? = xs[k]?) : Carries (Equiv.swap i j) xs ys := by
  intro k
  by_cases hki : k = i
  · rw [hki, Equiv.swap_apply_left, hj]
  · by_cases hkj : k = j
    · rw [hkj, Equiv.swap_apply_right, hi]
    · rw [Equiv.swap_apply_of_ne_of_ne hki hkj, hothers k hki hkj]

theorem swap (a b : α) : Carries (Equiv.swap 0 1) [a, b] [b, a] := by
  refine exchange rfl rfl fun k h0 h1 => ?_
  match k with
  | k + 2 => rfl

theorem symm (h : Carries σ xs ys) : Carries σ.symm ys xs := by
  intro i
  rw [← h, Equiv.apply_symm_apply]

theorem map (f : α → β) (h : Carries σ xs ys) : Carries σ (xs.map f) (ys.map f) := by
  intro i
  rw [List.getElem?_map, List.getElem?_map, h]

theorem of_map {f : α → β} (hf : Function.Injective f) (h : Carries σ (xs.map f) (ys.map f)) :
    Carries σ xs ys := by
  intro i
  have hi := h i
  rw [List.getElem?_map, List.getElem?_map] at hi
  exact Option.map_injective hf hi

theorem lt_length_iff (h : Carries σ xs ys) (i : Nat) : σ i < ys.length ↔ i < xs.length := by
  rw [← not_le, ← not_le, ← List.getElem?_eq_none_iff, ← List.getElem?_eq_none_iff, h]

theorem length_eq (h : Carries σ xs ys) : ys.length = xs.length := by
  have hmoved : (Finset.range xs.length).map σ.toEmbedding = Finset.range ys.length := by
    ext j
    obtain ⟨i, rfl⟩ := σ.surjective j
    simp [h.lt_length_iff]
  simpa using (congrArg Finset.card hmoved).symm

theorem mem_iff (h : Carries σ xs ys) {a : α} : a ∈ ys ↔ a ∈ xs := by
  simp only [List.mem_iff_getElem?]
  constructor
  · rintro ⟨j, hj⟩
    exact ⟨σ.symm j, (h.symm j).trans hj⟩
  · rintro ⟨i, hi⟩
    exact ⟨σ i, (h i).trans hi⟩

theorem nodup (h : Carries σ xs ys) (hxs : xs.Nodup) : ys.Nodup := by
  rw [List.nodup_iff_getElem?_ne_getElem?]
  intro i j hij hj heq
  have hlt : σ.symm i < xs.length := (h.symm.lt_length_iff i).mpr (Nat.lt_trans hij hj)
  have hback : xs[σ.symm i]? = xs[σ.symm j]? := by rw [h.symm i, h.symm j, heq]
  exact Nat.ne_of_lt hij (σ.symm.injective ((List.getElem?_inj hlt hxs).mp hback))

/-- A value that every entry has moves along with any list. -/
theorem replicate (h : Carries σ xs ys) (b : β) :
    Carries σ (List.replicate xs.length b) (List.replicate ys.length b) := by
  have hmap := h.map (Function.const α b)
  rwa [List.map_const, List.map_const] at hmap

theorem zip {zs ws : List β} (h : Carries σ xs ys) (h' : Carries σ zs ws) :
    Carries σ (xs.zip zs) (ys.zip ws) := by
  intro i
  simp only [List.zip, List.getElem?_zipWith, h i, h' i]

/-- What positions are moved to are positions. -/
theorem exists_positions {named : List Nat} {positions : List Int}
    (h : Carries σ (named.map Nat.cast) positions) :
    ∃ named' : List Nat, positions = named'.map Nat.cast ∧ Carries σ named named' := by
  have hnonneg : ∀ p ∈ positions, 0 ≤ p := by
    intro p hp
    obtain ⟨q, _, rfl⟩ := List.mem_map.mp (h.mem_iff.mp hp)
    exact Int.natCast_nonneg q
  obtain ⟨named', rfl⟩ : ∃ named' : List Nat, named'.map Nat.cast = positions :=
    CanLift.prf positions hnonneg
  exact ⟨named', rfl, h.of_map Nat.cast_injective⟩

end Carries

theorem optionRel_carries_symm {α : Type} {σ : Equiv.Perm Nat} {xs? ys? : Option (List α)}
    (h : Option.Rel (Carries σ) xs? ys?) : Option.Rel (Carries σ.symm) ys? xs? := by
  cases h with
  | none => exact .none
  | some h => exact .some h.symm

/-- A fold whose steps all answer answers. -/
theorem exists_foldlM {σ α : Type} {I : σ → Prop} {f : σ → α → Inference σ} {xs : List α} {s : σ}
    (hs : I s) (h : ∀ s, I s → ∀ x ∈ xs, ∃ s', f s x = .ok s' ∧ I s') :
    ∃ s', xs.foldlM f s = .ok s' := by
  induction xs generalizing s with
  | nil => exact ⟨s, rfl⟩
  | cons x xs ih =>
    obtain ⟨s', hs', hI⟩ := h s hs x List.mem_cons_self
    obtain ⟨t, ht⟩ := ih hI fun s hs y hy => h s hs y (List.mem_cons_of_mem _ hy)
    exact ⟨t, bind_eq_ok_iff.mpr ⟨s', hs', ht⟩⟩

namespace Axis

variable {rank : Nat} {σ : Equiv.Perm Nat} {axes axes' : List Int} {named : List Nat}

/-- Two references to one axis, of which one may count from the first axis and the other from behind the
last. -/
def Alias (rank : Nat) (a b : Int) : Prop :=
  a = b ∨ (0 ≤ a ∧ a < rank ∧ b = a - rank) ∨ (0 ≤ b ∧ b < rank ∧ a = b - rank)
deriving Decidable

theorem alias_iff_wrap_eq {a b : Int} : Alias rank a b ↔ wrap a rank = wrap b rank := by
  unfold Alias wrap
  split <;> split <;> omega

/-- A permutation puts each axis of one list into the other, under the same name or the other one. -/
def Respells (rank : Nat) (σ : Equiv.Perm Nat) (axes axes' : List Int) : Prop :=
  ∀ i, Option.Rel (Alias rank) axes[i]? axes'[σ i]?

theorem respells_iff_carries : Respells rank σ axes axes' ↔
    Carries σ (axes.map (wrap · rank)) (axes'.map (wrap · rank)) := by
  refine forall_congr' fun i => ?_
  rw [List.getElem?_map, List.getElem?_map]
  constructor
  · intro h
    generalize axes[i]? = a?, axes'[σ i]? = b? at h
    cases h with
    | none => rfl
    | some h => exact congrArg some (alias_iff_wrap_eq.mp h).symm
  · intro h
    cases ha : axes[i]? with
    | none =>
      rw [ha, Option.map_none, Option.map_eq_none_iff] at h
      rw [h]
      exact .none
    | some a =>
      rw [ha, Option.map_some, Option.map_eq_some_iff] at h
      obtain ⟨b, hb, hwrap⟩ := h
      rw [hb]
      exact .some (alias_iff_wrap_eq.mpr hwrap.symm)

theorem Respells.symm (h : Respells rank σ axes axes') : Respells rank σ.symm axes' axes :=
  respells_iff_carries.mpr (respells_iff_carries.mp h).symm

theorem Respells.length_eq (h : Respells rank σ axes axes') : axes'.length = axes.length := by
  simpa using (respells_iff_carries.mp h).length_eq

theorem resolve_eq_ok_iff {axis : Int} {position : Nat} :
    resolve axis rank = .ok position ↔ wrap axis rank = position ∧ position < rank := by
  unfold resolve
  by_cases h : 0 ≤ wrap axis rank ∧ wrap axis rank < rank
  · rw [if_pos h, Except.ok.injEq]
    omega
  · rw [if_neg h]
    constructor
    · exact nofun
    · rintro ⟨hwrap, hlt⟩
      omega

/-- Axes that are listed name positions of the rank, and no position twice. -/
theorem resolveEach_eq_ok_iff : resolveEach rank axes = .ok named ↔
    axes.map (wrap · rank) = named.map Nat.cast ∧ (∀ p ∈ named, p < rank) ∧ named.Nodup := by
  have hgo (rest : List Int) (seen named : List Nat) :
      resolveEach.go rank axes rest seen = .ok named ↔ rest.map (wrap · rank) = named.map Nat.cast ∧
        (∀ p ∈ named, p < rank ∧ p ∉ seen) ∧ named.Nodup := by
    induction rest generalizing seen named with
    | nil =>
      constructor
      · intro h
        obtain rfl := Except.ok.inj h
        exact ⟨rfl, nofun, List.nodup_nil⟩
      · rintro ⟨hmap, _, _⟩
        rw [List.map_eq_nil_iff.mp hmap.symm]
        rfl
    | cons axis rest ih =>
      constructor
      · intro h
        obtain ⟨position, hposition, h⟩ := bind_eq_ok_iff.mp h
        obtain ⟨hwrap, hlt⟩ := resolve_eq_ok_iff.mp hposition
        by_cases hseen : position ∈ seen
        · rw [if_pos hseen] at h
          cases h
        · rw [if_neg hseen] at h
          obtain ⟨others, hothers, h⟩ := bind_eq_ok_iff.mp h
          obtain rfl := Except.ok.inj h
          obtain ⟨hmap, hall, hnodup⟩ := (ih _ _).mp hothers
          refine ⟨?_, List.forall_mem_cons.mpr ⟨⟨hlt, hseen⟩, fun p hp => ?_⟩, ?_⟩
          · rw [List.map_cons, List.map_cons, hmap, hwrap]
          · exact ⟨(hall p hp).1, fun hps => (hall p hp).2 (List.mem_cons_of_mem _ hps)⟩
          · exact List.nodup_cons.mpr ⟨fun hmem => (hall _ hmem).2 List.mem_cons_self, hnodup⟩
      · rintro ⟨hmap, hall, hnodup⟩
        obtain ⟨position, others, rfl, hwrap, hmap⟩ := List.map_eq_cons_iff.mp hmap.symm
        obtain ⟨⟨hlt, hseen⟩, hall⟩ := List.forall_mem_cons.mp hall
        obtain ⟨hfresh, hnodup⟩ := List.nodup_cons.mp hnodup
        have hothers : resolveEach.go rank axes rest (position :: seen) = .ok others := by
          refine (ih _ _).mpr ⟨hmap.symm, fun p hp => ⟨(hall p hp).1, ?_⟩, hnodup⟩
          rw [List.mem_cons, not_or]
          exact ⟨fun heq => hfresh (heq ▸ hp), (hall p hp).2⟩
        refine bind_eq_ok_iff.mpr ⟨position, resolve_eq_ok_iff.mpr ⟨hwrap.symm, hlt⟩, ?_⟩
        rw [if_neg hseen, hothers]
        rfl
  rw [resolveEach, hgo]
  simp

/-- The resolved axes are the positions that the entries name. -/
theorem mem_resolveSet_iff {resolved : List Nat} (h : resolveSet rank axes = .ok resolved) (p : Nat) :
    p ∈ resolved ↔ ∃ a ∈ axes, wrap a rank = p := by
  obtain ⟨named, hnamed, hperm⟩ := perm_of_resolveSet h
  obtain ⟨hmap, _, _⟩ := resolveEach_eq_ok_iff.mp hnamed
  rw [hperm.mem_iff, ← List.mem_map_of_injective (Nat.cast_injective (R := Int)), ← hmap, List.mem_map]

/-- Axes that are listed otherwise name the same positions, moved like the axes. -/
theorem Respells.resolveEach (h : Respells rank σ axes axes')
    (hnamed : Axis.resolveEach rank axes = .ok named) :
    ∃ named', Axis.resolveEach rank axes' = .ok named' ∧ Carries σ named named' := by
  have hcarries := respells_iff_carries.mp h
  obtain ⟨hmap, hlt, hnodup⟩ := resolveEach_eq_ok_iff.mp hnamed
  rw [hmap] at hcarries
  obtain ⟨named', hmap', hmoved⟩ := hcarries.exists_positions
  refine ⟨named', resolveEach_eq_ok_iff.mpr ⟨hmap', fun p hp => ?_, hmoved.nodup hnodup⟩, hmoved⟩
  exact hlt p (hmoved.mem_iff.mp hp)

/-- The order of a list and the names in it are lost in the set of positions. -/
theorem Respells.resolveSet {resolved : List Nat} (h : Respells rank σ axes axes')
    (hresolved : Axis.resolveSet rank axes = .ok resolved) :
    Axis.resolveSet rank axes' = .ok resolved := by
  obtain ⟨named, hnamed, hperm, hascends⟩ := resolveSet_eq_ok_iff.mp hresolved
  obtain ⟨named', hnamed', hmoved⟩ := h.resolveEach hnamed
  have hsame : named.Perm named' :=
    (List.perm_ext_iff_of_nodup (nodup_resolveEach hnamed) (nodup_resolveEach hnamed')).mpr fun _ =>
      hmoved.mem_iff.symm
  exact resolveSet_eq_ok_iff.mpr ⟨named', hnamed', hperm.trans hsame, hascends⟩

/-- Positions are not moved. -/
theorem map_wrap_natCast (rank : Nat) (positions : List Nat) :
    (positions.map Nat.cast).map (wrap · rank) = positions.map Nat.cast := by
  rw [List.map_map]
  refine List.map_congr_left fun p _ => ?_
  show wrap p rank = p
  exact if_neg (Int.not_lt.mpr (Int.natCast_nonneg p))

/-- Leading positions listed in order are those positions, as far as there are so many. -/
theorem resolveEach_range_iff {count : Nat} :
    resolveEach rank ((List.range count).map Nat.cast) = .ok named ↔
      count ≤ rank ∧ named = List.range count := by
  rw [resolveEach_eq_ok_iff, map_wrap_natCast]
  constructor
  · rintro ⟨hmap, hlt, _⟩
    obtain rfl := List.map_injective_iff.mpr Nat.cast_injective hmap
    refine ⟨?_, rfl⟩
    cases count with
    | zero => exact Nat.zero_le rank
    | succ last => exact hlt last (List.mem_range.mpr (Nat.lt_succ_self last))
  · rintro ⟨hle, rfl⟩
    exact ⟨rfl, fun p hp => Nat.lt_of_lt_of_le (List.mem_range.mp hp) hle, List.nodup_range⟩

theorem resolveSet_range :
    resolveSet rank ((List.range rank).map Nat.cast) = .ok (List.range rank) := by
  exact resolveSet_eq_ok_iff.mpr
    ⟨_, resolveEach_range_iff.mpr ⟨Nat.le_refl rank, rfl⟩, .refl _, List.pairwise_lt_range⟩

/-- A list has two entries for one axis. -/
def NamesTwice (rank : Nat) (axes : List Int) : Prop :=
  ∃ (i j : Nat) (a b : Int), i ≠ j ∧ axes[i]? = some a ∧ axes[j]? = some b ∧ Alias rank a b

theorem NamesTwice.resolveEach_ne_ok (h : NamesTwice rank axes) :
    resolveEach rank axes ≠ .ok named := by
  obtain ⟨i, j, a, b, hij, ha, hb, halias⟩ := h
  intro hnamed
  obtain ⟨hmap, _, hnodup⟩ := resolveEach_eq_ok_iff.mp hnamed
  have hat (k : Nat) : (named.map Nat.cast)[k]? = (axes[k]?.map (wrap · rank)) := by
    rw [← hmap, List.getElem?_map]
  have heq : (named.map (Nat.cast : Nat → Int))[i]? = (named.map Nat.cast)[j]? := by
    rw [hat, hat, ha, hb, Option.map_some, Option.map_some, alias_iff_wrap_eq.mp halias]
  have hlt : i < (named.map (Nat.cast : Nat → Int)).length := by
    rw [← hmap, List.length_map]
    exact (List.getElem?_eq_some_iff.mp ha).1
  exact hij ((List.getElem?_inj hlt (hnodup.map Nat.cast_injective)).mp heq)

theorem NamesTwice.resolveSet_ne_ok (h : NamesTwice rank axes) {resolved : List Nat} :
    resolveSet rank axes ≠ .ok resolved := by
  intro hresolved
  obtain ⟨_, hnamed, _⟩ := bind_eq_ok_iff.mp hresolved
  exact h.resolveEach_ne_ok hnamed

theorem NamesTwice.ne_nil (h : NamesTwice rank axes) : axes ≠ [] := by
  rintro rfl
  obtain ⟨_, _, _, _, _, ha, _⟩ := h
  cases ha

end Axis

theorem Squeeze.resolveAxes_of_respells {σ : Equiv.Perm Nat} {axes axes' : List Int} {s : Shape}
    {resolved : List Nat} (h : Axis.Respells s.length σ axes axes')
    (hresolved : resolveAxes axes s = .ok resolved) : resolveAxes axes' s = .ok resolved := by
  by_cases hempty : axes = []
  · subst hempty
    obtain rfl := List.length_eq_zero_iff.mp h.length_eq
    exact hresolved
  · have hempty' : axes' ≠ [] := by
      rintro rfl
      exact hempty (List.length_eq_zero_iff.mp h.length_eq.symm)
    obtain ⟨hset, hunit⟩ := (resolveAxes_eq_ok_iff hempty).mp hresolved
    exact (resolveAxes_eq_ok_iff hempty').mpr ⟨h.resolveSet hset, hunit⟩

namespace Reduce

/-- The axes that are reduced, of an input with so many. -/
def axesOn (d : Reduce) (rank : Nat) : Inference (List Nat) := do
  require (isReduction d.kind) (.wrongFamily d.kind "a reduction")
  match d.axes with
  | some axes => Axis.resolveSet rank axes
  | none => .ok (List.range rank)

theorem resolve_eq (d : Reduce) (rank : Nat) :
    d.resolve rank = do return { d with resolved := ← d.axesOn rank } := by
  rw [resolve, axesOn, bind_assoc]
  cases d.axes <;> rfl

theorem axesOn_of_resolveSet {d d' : Reduce} {rank : Nat} {axes axes' : List Int} {resolved : List Nat}
    (haxes : d.axes = some axes) (haxes' : d'.axes = some axes') (hkind : d'.kind = d.kind)
    (hset : Axis.resolveSet rank axes = .ok resolved → Axis.resolveSet rank axes' = .ok resolved)
    (h : d.axesOn rank = .ok resolved) : d'.axesOn rank = .ok resolved := by
  unfold axesOn at h ⊢
  rw [haxes, require_bind_eq_ok_iff] at h
  rw [haxes', hkind, require_bind_eq_ok_iff]
  exact ⟨h.1, hset h.2⟩

end Reduce

end DataflowCost
