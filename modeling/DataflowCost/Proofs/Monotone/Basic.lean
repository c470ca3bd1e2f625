import DataflowCost.Proofs.Broadcast
import DataflowCost.Proofs.Keys.Basic
import DataflowCost.Proofs.Valued
import Mathlib.Tactic.GCongr

/-! Shapes of one rank, compared extent by extent. Broadcasts grow with their operands, and what is
counted in elements grows with the shapes. A family is monotone if the cost of a definition does so
too. -/
namespace DataflowCost

open Scalar Inference Family
open scoped ExactArithmetic

namespace Shape

/-- No extent of the first shape exceeds that of the second one, which is of the same rank. -/
def Within (s t : Shape) : Prop := List.Forall₂ (· ≤ ·) s t

variable {s t s' t' : Shape}

theorem Within.refl (s : Shape) : Within s s := List.forall₂_refl s

theorem Within.rank_eq (h : Within s t) : s.length = t.length := List.Forall₂.length_eq h

theorem Within.size_le (h : Within s t) : s.size ≤ t.size := by
  unfold Within at h
  induction h with
  | nil => exact Nat.le_refl 1
  | cons hextent _ ih => exact Nat.mul_le_mul hextent ih

theorem Within.append (h : Within s t) (h' : Within s' t') : Within (s ++ s') (t ++ t') :=
  List.rel_append h h'

theorem Within.take (h : Within s t) (i : Nat) : Within (s.take i) (t.take i) :=
  List.forall₂_take i h

theorem Within.drop (h : Within s t) (i : Nat) : Within (s.drop i) (t.drop i) :=
  List.forall₂_drop i h

theorem eq_drop_of_from? {i : Nat} (h : s.from? i = some t) : t = s.drop i := by
  unfold from? at h
  split at h
  next => exact (Option.some.inj h).symm
  next => cases h

theorem Within.entry_le (h : Within s t) {i a b : Nat} (ha : s[i]? = some a) (hb : t[i]? = some b) :
    a ≤ b := by
  obtain ⟨hs, rfl⟩ := List.getElem?_eq_some_iff.mp ha
  obtain ⟨ht, rfl⟩ := List.getElem?_eq_some_iff.mp hb
  exact h.get hs ht

/-- Lists of one length are related entry by entry if they are so counted from the last entry. -/
theorem forall₂_iff_fromBack {P : Nat → Nat → Prop} (hunit : P 1 1) : List.Forall₂ P s t ↔
    s.length = t.length ∧ ∀ i, P (s.fromBack i) (t.fromBack i) := by
  induction s generalizing t with
  | nil =>
    rw [List.forall₂_nil_left_iff]
    constructor
    · rintro rfl
      exact ⟨rfl, fun _ => hunit⟩
    · exact fun h => List.length_eq_zero_iff.mp h.1.symm
  | cons a s ih =>
    cases t with
    | nil => simp
    | cons b t =>
      rw [List.forall₂_cons, ih, List.length_cons, List.length_cons]
      by_cases hlen : s.length = t.length
      · have hcons := forall_fromBack_cons_iff (P := fun x y _ => P x y) (a := a) (b := b) (c := 1)
          hunit hlen (rfl : s.length = s.length)
        rw [hcons]
        simp only [hlen, true_and]
      · have hne : ¬ s.length + 1 = t.length + 1 := by omega
        simp only [hlen, hne, false_and, and_false]

theorem within_iff_fromBack : Within s t ↔
    s.length = t.length ∧ ∀ i, s.fromBack i ≤ t.fromBack i :=
  forall₂_iff_fromBack (Nat.le_refl 1)

/-- An extent may stretch where it has not before, or no longer stretch: the join grows in any case.
-/
theorem joinExtent_le {a b c a' b' c' : Nat} (ha : a ≤ a') (hb : b ≤ b')
    (hc : joinExtent a b = some c) (hc' : joinExtent a' b' = some c') : c ≤ c' := by
  have hjoin := joinExtent_eq_some_iff.mp hc
  have hjoin' := joinExtent_eq_some_iff.mp hc'
  unfold Stretches at hjoin hjoin'
  omega

theorem Within.broadcast {a b c a' b' c' : Shape} (ha : Within a a') (hb : Within b b')
    (hc : a.broadcast b = .ok c) (hc' : a'.broadcast b' = .ok c') : Within c c' := by
  have ha := within_iff_fromBack.mp ha
  have hb := within_iff_fromBack.mp hb
  have hc := broadcast_eq_ok_iff.mp hc
  have hc' := broadcast_eq_ok_iff.mp hc'
  apply within_iff_fromBack.mpr
  constructor
  · omega
  · intro i
    exact joinExtent_le (ha.2 i) (hb.2 i) (hc.2 i) (hc'.2 i)

theorem Within.foldlM_broadcast {shapes shapes' : List Shape}
    (h : List.Forall₂ Within shapes shapes') {a a' c c' : Shape} (ha : Within a a')
    (hc : shapes.foldlM Shape.broadcast a = .ok c)
    (hc' : shapes'.foldlM Shape.broadcast a' = .ok c') : Within c c' := by
  induction h generalizing a a' with
  | nil =>
    obtain rfl := Except.ok.inj hc
    obtain rfl := Except.ok.inj hc'
    exact ha
  | cons hs _ ih =>
    obtain ⟨b, hb, hc⟩ := bind_eq_ok_iff.mp hc
    obtain ⟨b', hb', hc'⟩ := bind_eq_ok_iff.mp hc'
    exact ih (ha.broadcast hs hb hb') hc hc'

/-- Stretching loses no elements, unless it loses all of them. -/
theorem size_le_of_stretches (h : List.Forall₂ Stretches s t) : t.size = 0 ∨ s.size ≤ t.size := by
  unfold size
  induction h with
  | nil => exact .inr (Nat.le_refl 1)
  | @cons a b s t hab _ ih =>
    rw [List.foldr_cons, List.foldr_cons]
    rcases ih with hzero | hle
    · exact .inl (by rw [hzero, Nat.mul_zero])
    · rcases hab with rfl | rfl
      · exact .inr (Nat.mul_le_mul_left a hle)
      · rcases Nat.eq_zero_or_pos b with hempty | hpos
        · exact .inl (by rw [hempty, Nat.zero_mul])
        · exact .inr (Nat.mul_le_mul hpos hle)

theorem eq_or_two_mul_size_le (h : List.Forall₂ Stretches s t) :
    s = t ∨ t.size = 0 ∨ 2 * s.size ≤ t.size := by
  induction h with
  | nil => exact .inl rfl
  | @cons a b s t hab hrest ih =>
    have hs : size (a :: s) = a * size s := rfl
    have ht : size (b :: t) = b * size t := rfl
    rw [hs, ht]
    by_cases hsame : a = b
    · rcases ih with rfl | hzero | hle
      · exact .inl (by rw [hsame])
      · exact .inr (.inl (by rw [hzero, Nat.mul_zero]))
      · refine .inr (.inr ?_)
        calc 2 * (a * size s) = a * (2 * size s) := by ring
          _ ≤ b * size t := Nat.mul_le_mul (Nat.le_of_eq hsame) hle
    · -- The extent itself doubles at least, or there is nothing left.
      have hone : a = 1 := hab.resolve_left hsame
      rcases size_le_of_stretches hrest with hzero | hle
      · exact .inr (.inl (by rw [hzero, Nat.mul_zero]))
      · rcases Nat.eq_zero_or_pos b with hempty | hpos
        · exact .inr (.inl (by rw [hempty, Nat.zero_mul]))
        · refine .inr (.inr ?_)
          calc 2 * (a * size s) = 2 * size s := by rw [hone, Nat.one_mul]
            _ ≤ b * size t := Nat.mul_le_mul (by omega) hle

/-- A shape that is stretched without gaining an axis at least doubles, unless it loses all
elements. -/
theorem two_mul_size_le (h : t.broadcastsInto s = true) (hrank : s.length = t.length)
    (hne : s ≠ t) : t.size = 0 ∨ 2 * s.size ≤ t.size := by
  have hstretches : List.Forall₂ Stretches s t :=
    (forall₂_iff_fromBack (Stretches.refl 1)).mpr ⟨hrank, (broadcastsInto_iff.mp h).2⟩
  exact (eq_or_two_mul_size_le hstretches).resolve_left hne

end Shape

/-- As many inputs of the same ranks, of which no extent is smaller. -/
def Grown (inputs inputs' : List TensorType) : Prop :=
  List.Forall₂ (fun t t' => Shape.Within t.shape t'.shape) inputs inputs'

/-- No more time, and no more memory. -/
structure Metrics.Below {α K : Type} [Scalar α] [Field K] [LinearOrder K] [IsStrictOrderedRing K]
    [Valued α K] (m m' : Metrics α) : Prop where
  computeTime_le : value m.computeTime ≤ value m'.computeTime
  memoryCost_le : value m.memoryCost ≤ value m'.memoryCost

/-- A definition that is given is resolved against inputs, of which it infers outputs. -/
structure Family.Settles {δ : Type} [Family δ] (given : δ) (inputs : List TensorType) (d : δ)
    (outputs : List TensorType) : Prop extends Registered d inputs outputs where
  yields : (prepare given inputs).Yields d

/-- A resolution that only checks leaves the definition as it is given. -/
theorem Family.Settles.eq_of_meets {δ : Type} [Family δ] {given d : δ}
    {inputs outputs : List TensorType} (h : Settles given inputs d outputs)
    (hmeets : (prepare given inputs).Meets inputs False fun d' => d' = given) : d = given :=
  hmeets.yields h.yields

/-- A family in which a definition costs no less if its inputs grow. -/
class Monotone (δ : Type) [Family δ] where
  /-- What two lists of inputs have to agree in besides. -/
  Comparable : List TensorType → List TensorType → Prop := fun _ _ => True
  below : ∀ {α K : Type} [Scalar α] [Field K] [LinearOrder K] [IsStrictOrderedRing K] [Valued α K]
    {given d d' : δ} {inputs inputs' outputs outputs' : List TensorType} {cx : CostContext}
    {m m' : Metrics α}, (∀ n : Nat, 0 ≤ value (log2 (ofNat n) : α)) → cx.memoryUnit = .elements →
    Settles given inputs d outputs → Settles given inputs' d' outputs' → Grown inputs inputs' →
    Comparable inputs inputs' → metrics d ⟨inputs, outputs⟩ cx = some m →
    metrics d' ⟨inputs', outputs'⟩ cx = some m' → m.Below m'

namespace Grown

variable {inputs inputs' : List TensorType} {x x' : TensorType}

theorem head (h : Grown (x :: inputs) (x' :: inputs')) : Shape.Within x.shape x'.shape :=
  (List.forall₂_cons.mp h).1

theorem tail (h : Grown (x :: inputs) (x' :: inputs')) : Grown inputs inputs' :=
  (List.forall₂_cons.mp h).2

theorem shapes (h : Grown inputs inputs') :
    List.Forall₂ Shape.Within (inputs.map TensorType.shape) (inputs'.map TensorType.shape) := by
  rw [List.forall₂_map_left_iff, List.forall₂_map_right_iff]
  exact h

/-- Outputs of the shape of the first input grow with it. -/
theorem sameShape {out out' : TensorType} (h : Grown (x :: inputs) (x' :: inputs'))
    (hout : out.shape = x.shape) (hout' : out'.shape = x'.shape) : Grown [out] [out'] := by
  refine .cons ?_ .nil
  rw [hout, hout']
  exact h.head

end Grown

section Elements

variable {α K : Type} [Scalar α] [Field K] [LinearOrder K] [IsStrictOrderedRing K] [Valued α K]
  {cx : CostContext}

theorem CostContext.weight_eq_one (hcx : cx.memoryUnit = .elements) (dtype : DType) :
    cx.weight dtype = 1 := by
  unfold weight
  rw [hcx]

theorem CostContext.value_traffic_eq (hcx : cx.memoryUnit = .elements) (t : TensorType) :
    value (cx.traffic t : α) = (t.size : K) := by
  rw [value_traffic, weight_eq_one hcx, Nat.cast_one, mul_one]

theorem CostContext.scaled_eq (hcx : cx.memoryUnit = .elements) (elements : α) (dtype : DType) :
    cx.scaled elements dtype = elements := by
  unfold scaled
  rw [hcx]

theorem Shape.Within.cast_size_le {x x' : TensorType} (h : Within x.shape x'.shape) :
    (x.size : K) ≤ x'.size :=
  Nat.cast_le.mpr h.size_le

/-- A choice that does not depend on the inputs. -/
theorem value_ite_le (b : Bool) {x y x' y' : α} (hx : value x ≤ value x')
    (hy : value y ≤ value y') : value (if b then x else y) ≤ value (if b then x' else y') := by
  cases b with
  | false => exact hy
  | true => exact hx

/-- Traffic grows with the tensors that are read, or written. -/
theorem value_sum_traffic_le (hcx : cx.memoryUnit = .elements) {ts ts' : List TensorType}
    (h : Grown ts ts') :
    value (sum (ts.map cx.traffic) : α) ≤ value (sum (ts'.map cx.traffic) : α) := by
  unfold Grown at h
  rw [value_sum, value_sum]
  induction h with
  | nil => exact le_refl _
  | @cons t t' ts ts' ht _ ih =>
    have hsize : value (cx.traffic t : α) ≤ value (cx.traffic t' : α) := by
      rw [CostContext.value_traffic_eq hcx, CostContext.value_traffic_eq hcx]
      exact ht.cast_size_le
    exact add_le_add hsize ih

end Elements

end DataflowCost
