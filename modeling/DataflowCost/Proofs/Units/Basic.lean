import DataflowCost.Proofs.Keys.Basic
import DataflowCost.Proofs.Valued

/-! Memory figures in elements and in bytes. A figure is put together from counts of elements, which
are as many bytes as their type is wide, and from counts of bytes. Where all types have one width it
therefore scales as a whole; each rule of that kind is tagged for grind. -/
namespace DataflowCost

open Inference Family

theorem DType.bytes_pos (dtype : DType) : 0 < dtype.bytes := by
  cases dtype <;> decide

/-- All tensors have elements of so many bytes. -/
structure Io.HasWidth (s : Nat) (io : Io) : Prop where
  inputs : ∀ t ∈ io.inputs, t.dtype.bytes = s
  outputs : ∀ t ∈ io.outputs, t.dtype.bytes = s

namespace Io.HasWidth

variable {s i : Nat} {io : Io} {t : TensorType}

@[grind →] theorem input (h : io.HasWidth s) (ht : io.input? i = some t) : t.dtype.bytes = s :=
  h.inputs t (List.mem_of_getElem? ht)

@[grind →] theorem output (h : io.HasWidth s) (ht : io.output? i = some t) : t.dtype.bytes = s :=
  h.outputs t (List.mem_of_getElem? ht)

/-- Scratch space is charged in the type of some tensor. -/
@[grind →] theorem dtype (h : io.HasWidth s) (ht : io.input? i = some t) :
    io.dtype.bytes = s := by
  obtain ⟨_ | ⟨x, rest⟩, outputs⟩ := io
  · cases ht
  · exact h.inputs x List.mem_cons_self

end Io.HasWidth

namespace Scalar

variable {α K : Type} [Scalar α] [Field K] [LinearOrder K] [IsStrictOrderedRing K] [Valued α K]

/-- A figure in bytes beside the same in elements of so many bytes. -/
def Scales (s : Nat) (elements bytes : α) : Prop := value bytes = s * value elements

namespace Scales

variable {s w : Nat} {a b a' b' : α}

@[grind ←] theorem zero : Scales s (0.0 : α) 0.0 := by
  norm_num [Scales]

@[grind ←] theorem add (ha : Scales s a a') (hb : Scales s b b') : Scales s (a + b) (a' + b') := by
  rw [Scales, Valued.value_add, Valued.value_add, ha, hb, mul_add]

@[grind ←] theorem mul_right (ha : Scales s a a') (c : α) : Scales s (a * c) (a' * c) := by
  rw [Scales, Valued.value_mul, Valued.value_mul, ha, mul_assoc]

@[grind ←] theorem mul_left (c : α) (ha : Scales s a a') : Scales s (c * a) (c * a') := by
  rw [Scales, Valued.value_mul, Valued.value_mul, ha, mul_left_comm]

@[grind ←] theorem div_right (ha : Scales s a a') (c : α) : Scales s (a / c) (a' / c) := by
  rw [Scales, Valued.value_div, Valued.value_div, ha, mul_div_assoc]

@[grind ←] theorem minimum (ha : Scales s a a') (hb : Scales s b b') :
    Scales s (minimum a b) (minimum a' b') := by
  rw [Scales, Valued.value_minimum, Valued.value_minimum, ha, hb,
    mul_min_of_nonneg _ _ (Nat.cast_nonneg s)]

@[grind ←] theorem sum {ι : Type} {xs : List ι} {f f' : ι → α}
    (h : ∀ x ∈ xs, Scales s (f x) (f' x)) :
    Scales s (Scalar.sum (xs.map f)) (Scalar.sum (xs.map f')) := by
  rw [Scales, value_sum, value_sum, List.map_map, List.map_map, ← List.sum_map_mul_left]
  exact congrArg List.sum (List.map_congr_left h)

@[grind ←] theorem scaled {dtype : DType} (h : dtype.bytes = s) (a : α) :
    Scales s (CostContext.scaled ⟨w, .elements⟩ a dtype)
      (CostContext.scaled ⟨w, .bytes⟩ a dtype) := by
  subst h
  have hbytes : value (a * ofNat dtype.bytes) = dtype.bytes * value a := by
    rw [Valued.value_mul, Valued.value_ofNat, mul_comm]
  exact hbytes

/-- What is counted in bytes is divided by the width where it is counted in elements. -/
@[grind ←] theorem fromBytes {dtype : DType} (h : dtype.bytes = s) (a : α) :
    Scales s (CostContext.fromBytes ⟨w, .elements⟩ a dtype)
      (CostContext.fromBytes ⟨w, .bytes⟩ a dtype) := by
  subst h
  have hwidth : (dtype.bytes : K) ≠ 0 := Nat.cast_ne_zero.mpr dtype.bytes_pos.ne'
  have helements : value (a / ofNat dtype.bytes) = value a / dtype.bytes := by
    rw [Valued.value_div, Valued.value_ofNat]
  exact (mul_div_cancel₀ (value a) hwidth).symm.trans (congrArg _ helements.symm)

@[grind ←] theorem traffic {t : TensorType} (h : t.dtype.bytes = s) :
    Scales s (CostContext.traffic ⟨w, .elements⟩ t : α) (CostContext.traffic ⟨w, .bytes⟩ t) :=
  scaled h _

@[grind ←] theorem inTraffic {io : Io} (h : io.HasWidth s) :
    Scales s (io.inTraffic ⟨w, .elements⟩ : α) (io.inTraffic ⟨w, .bytes⟩) :=
  sum fun t ht => traffic (h.inputs t ht)

@[grind ←] theorem outTraffic {io : Io} (h : io.HasWidth s) :
    Scales s (io.outTraffic ⟨w, .elements⟩ : α) (io.outTraffic ⟨w, .bytes⟩) :=
  sum fun t ht => traffic (h.outputs t ht)

end Scales

end Scalar

open Scalar

/-- Estimates of one operator or graph, with memory in elements of so many bytes and in bytes. -/
structure Metrics.Rescaled {α K : Type} [Scalar α] [Field K] [LinearOrder K]
    [IsStrictOrderedRing K] [Valued α K] (s : Nat) (m m' : Metrics α) : Prop where
  computeTime_eq : m'.computeTime = m.computeTime
  memoryCost : Scales s m.memoryCost m'.memoryCost
  parallelism_eq : m'.parallelism = m.parallelism

/-- A value that two computations share may be there or not. -/
theorem rel_bind {β γ : Type} {R : γ → γ → Prop} {x : Option β} {f f' : β → Option γ}
    (h : ∀ b, x = some b → Option.Rel R (f b) (f' b)) : Option.Rel R (x >>= f) (x >>= f') := by
  cases x with
  | none => exact .none
  | some b => exact h b rfl

/-- A family that charges memory in one unit throughout. -/
class Rescales [Build] (δ : Type) [Family δ] : Prop where
  rescales : ∀ {α K : Type} [Scalar α] [Field K] [LinearOrder K] [IsStrictOrderedRing K]
    [Valued α K] {d : δ} {inputs outputs : List TensorType} {s w : Nat},
    Registered d inputs outputs → Io.HasWidth s ⟨inputs, outputs⟩ →
    Option.Rel (Metrics.Rescaled s)
      (metrics d ⟨inputs, outputs⟩ ⟨w, .elements⟩ : Option (Metrics α))
      (metrics d ⟨inputs, outputs⟩ ⟨w, .bytes⟩)

end DataflowCost
