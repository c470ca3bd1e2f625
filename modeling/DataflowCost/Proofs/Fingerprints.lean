import DataflowCost.Operator.Fingerprint
import Mathlib.Algebra.Order.Ring.Int
import Mathlib.Data.List.Nodup
import Mathlib.Tactic.NormNum

/-! Fingerprints of keys that differ in one place. Every step of the hash is a bijection of its state, so that
two states which part at one byte never meet again while the bytes that follow are the same. -/
namespace DataflowCost

open Function

/-- Lists as long as each other that differ in one entry only, where the one is related to the other. -/
inductive DiffersOnce {α : Type} (R : α → α → Prop) : List α → List α → Prop
  | here {a b : α} {xs : List α} : R a b → DiffersOnce R (a :: xs) (b :: xs)
  | there {a : α} {xs ys : List α} : DiffersOnce R xs ys → DiffersOnce R (a :: xs) (a :: ys)

/-- A fold whose steps are injective in the state is injective in the state that it starts from. -/
theorem foldl_injective {α σ : Type} {f : σ → α → σ} (hf : ∀ a, Injective (f · a)) (xs : List α) :
    Injective (xs.foldl f ·) := by
  induction xs with
  | nil => exact injective_id
  | cons a xs ih => exact ih.comp (hf a)

namespace DiffersOnce

variable {α ι σ : Type} {R : α → α → Prop}

/-- Two functions that part at one entry of a list without repeats. -/
theorem map {f g : ι → α} {xs : List ι} (hxs : xs.Nodup) {i : ι} (hi : i ∈ xs) (hparts : R (f i) (g i))
    (hothers : ∀ j ∈ xs, j ≠ i → f j = g j) : DiffersOnce R (xs.map f) (xs.map g) := by
  induction xs with
  | nil => cases hi
  | cons j xs ih =>
    obtain ⟨hfresh, hxs⟩ := List.nodup_cons.mp hxs
    rw [List.map_cons, List.map_cons]
    by_cases hj : j = i
    · subst hj
      have hrest : xs.map f = xs.map g := by
        refine List.map_congr_left fun k hk => hothers k (List.mem_cons_of_mem _ hk) ?_
        rintro rfl
        exact hfresh hk
      rw [hrest]
      exact .here hparts
    · rw [hothers j List.mem_cons_self hj]
      have hrest : i ∈ xs := (List.mem_cons.mp hi).resolve_left (Ne.symm hj)
      exact .there (ih hxs hrest fun k hk => hothers k (List.mem_cons_of_mem _ hk))

/-- A fold that no step of which merges two states tells such lists apart, if it tells related entries
apart. -/
theorem foldl_ne {f : σ → α → σ} {xs ys : List α} (h : DiffersOnce R xs ys)
    (hf : ∀ a, Injective (f · a)) (hR : ∀ s a b, R a b → f s a ≠ f s b) (s : σ) :
    xs.foldl f s ≠ ys.foldl f s := by
  induction h generalizing s with
  | @here a b xs hab => exact (foldl_injective hf xs).ne (hR s a b hab)
  | @there a xs ys _ ih => exact ih (f s a)

end DiffersOnce

theorem word_eq {n : Nat} (h : n < 2 ^ 63) : word n = n := by
  have hbmod : (n : Int).bmod (2 ^ 64) = n :=
    Int.bmod_eq_of_le (by norm_num) (by norm_num; omega)
  exact hbmod

namespace Fingerprint

/-- The prime is odd, so that the words have an inverse of it. -/
def primeInverse : UInt64 := 0xce965057aff6957b

theorem mul_prime_injective : Injective (· * prime) := by
  have hinverse : prime * primeInverse = 1 := by decide
  have hleft : LeftInverse (· * primeInverse) (· * prime) := by
    intro hash
    show hash * prime * primeInverse = hash
    rw [UInt64.mul_assoc, hinverse, UInt64.mul_one]
  exact hleft.injective

theorem step_injective (byte : UInt8) : Injective (step · byte) := by
  intro hash hash' h
  exact (UInt64.xor_left_inj _).mp (mul_prime_injective h)

theorem step_injective_byte (hash : UInt64) : Injective (step hash) := by
  intro byte byte' h
  exact UInt8.toUInt64_inj.mp ((UInt64.xor_right_inj _).mp (mul_prime_injective h))

theorem bytes_injective (data : List UInt8) : Injective (bytes · data) :=
  foldl_injective step_injective data

theorem bytes_ne {data data' : List UInt8} (h : DiffersOnce (· ≠ ·) data data') (hash : UInt64) :
    bytes hash data ≠ bytes hash data' :=
  h.foldl_ne step_injective (fun hash _ _ hne => (step_injective_byte hash).ne hne) hash

section Words

/-- A byte of a word in two's complement, counted from the least significant one. -/
def byteAt (w : Int) (i : Nat) : Int := w / 256 ^ i % 256

/-- Exactly one of the eight bytes differs. -/
def OneByteApart (w w' : Int) : Prop := ∃! i, i < 8 ∧ byteAt w i ≠ byteAt w' i

variable {w w' : Int} {i : Nat}

/-- What is beyond the eighth byte of a number does not show in its bytes. -/
theorem byteAt_emod (w : Int) (hi : i < 8) : byteAt (w % 2 ^ 64) i = byteAt w i := by
  have hwords : (2 : Int) ^ 64 = 256 ^ i * (256 * 256 ^ (7 - i)) := by
    rw [← pow_succ', ← pow_add, show i + (7 - i + 1) = 8 by omega]
    rfl
  have hw : w = w % 2 ^ 64 + 256 ^ i * (256 * (256 ^ (7 - i) * (w / 2 ^ 64))) := by
    rw [← mul_assoc 256, ← mul_assoc, ← hwords, Int.emod_add_mul_ediv]
  have hpow : (256 : Int) ^ i ≠ 0 := pow_ne_zero i (by decide)
  unfold byteAt
  conv_rhs => rw [hw, Int.add_mul_ediv_left _ _ hpow, Int.add_mul_emod_self_left]

theorem natCast_byte (w : Int) (hi : i < 8) :
    (((w % Nat.pow 2 64).toNat / Nat.pow 256 i % 2 ^ 8 : Nat) : Int) = byteAt w i := by
  have hnonneg : 0 ≤ w % 2 ^ 64 := Int.emod_nonneg w (by decide)
  have hlimit : ((Nat.pow 2 64 : Nat) : Int) = 2 ^ 64 := rfl
  have hpow : ((Nat.pow 256 i : Nat) : Int) = 256 ^ i := Int.natCast_pow 256 i
  rw [Int.natCast_emod, Int.natCast_ediv, hlimit, hpow, Int.toNat_of_nonneg hnonneg,
    ← byteAt_emod w hi, byteAt]
  rfl

theorem differsOnce_littleEndian (h : OneByteApart w w') :
    DiffersOnce (· ≠ ·) (littleEndian w) (littleEndian w') := by
  have hbyte {j : Nat} (hj : j < 8) : UInt8.ofNat ((w % Nat.pow 2 64).toNat / Nat.pow 256 j) =
      UInt8.ofNat ((w' % Nat.pow 2 64).toNat / Nat.pow 256 j) ↔ byteAt w j = byteAt w' j := by
    rw [← UInt8.toNat_inj, UInt8.toNat_ofNat', UInt8.toNat_ofNat', ← natCast_byte w hj,
      ← natCast_byte w' hj, Nat.cast_inj]
  obtain ⟨i, ⟨hi, hne⟩, honly⟩ := h
  refine .map List.nodup_range (List.mem_range.mpr hi) ((hbyte hi).not.mpr hne) fun j hj hji => ?_
  have hj := List.mem_range.mp hj
  refine (hbyte hj).mpr ?_
  by_contra hne
  exact hji (honly j ⟨hj, hne⟩)

/-- Numbers of one byte each. -/
theorem oneByteApart_word {m n : Nat} (hm : m < 256) (hn : n < 256) (h : m ≠ n) :
    OneByteApart (word m) (word n) := by
  rw [word_eq (by omega), word_eq (by omega)]
  refine ⟨0, ⟨by decide, ?_⟩, ?_⟩
  · rw [byteAt, byteAt, pow_zero]
    omega
  · rintro i ⟨_, hne⟩
    by_contra hi
    have hpow : (256 : Int) ≤ 256 ^ i := le_self_pow₀ (by decide) hi
    have hzero {k : Nat} (hk : k < 256) : byteAt k i = 0 := by
      rw [byteAt, Int.ediv_eq_zero_of_lt (by omega) (by omega)]
      rfl
    exact hne ((hzero hm).trans (hzero hn).symm)

end Words

section Keys

variable {key key' : KeyVector}

theorem absorb_append (hash : UInt64) (key key' : KeyVector) :
    absorb hash (key ++ key') = absorb (absorb hash key) key' :=
  List.foldl_append

theorem absorb_injective (key : KeyVector) : Injective (absorb · key) :=
  foldl_injective (fun w => bytes_injective (littleEndian w)) key

theorem absorb_ne (h : DiffersOnce OneByteApart key key') (hash : UInt64) :
    absorb hash key ≠ absorb hash key' :=
  h.foldl_ne (fun w => bytes_injective (littleEndian w))
    (fun hash _ _ hword => bytes_ne (differsOnce_littleEndian hword) hash) hash

/-- Keys that differ in one byte of one word have different fingerprints, and so have workloads under the
same attributes. The hash of both vectors is the fingerprint of the one followed by the other. -/
theorem one_byte_never_collides :
    (∀ {key key' : KeyVector}, DiffersOnce OneByteApart key key' → ofKey key ≠ ofKey key') ∧
    (∀ {workload workload' : KeyVector} (attributes : KeyVector),
      DiffersOnce OneByteApart workload workload' →
      (PerfKey.ofVectors workload attributes).hash ≠ (PerfKey.ofVectors workload' attributes).hash) ∧
    ∀ workload attributes : KeyVector,
      (PerfKey.ofVectors workload attributes).hash = ofKey (workload ++ attributes) := by
  refine ⟨fun h => absorb_ne h offset, fun attributes h => ?_, fun workload attributes => ?_⟩
  · exact (absorb_injective attributes).ne (absorb_ne h offset)
  · exact (absorb_append offset workload attributes).symm

/-- The columns of the product of two matrices are doubled. -/
theorem one_byte_never_collides_columns :
    let workload := Kind.tag .matMul :: words [1, 64, 64, 128]
    let workload' := Kind.tag .matMul :: words [1, 64, 128, 128]
    let attributes := [Kind.tag .matMul, 0, 0, 0]
    DiffersOnce OneByteApart workload workload' ∧ ofKey workload ≠ ofKey workload' ∧
      (PerfKey.ofVectors workload attributes).hash ≠ (PerfKey.ofVectors workload' attributes).hash := by
  intro workload workload' attributes
  have hapart : DiffersOnce OneByteApart workload workload' :=
    .there (.there (.there (.here (oneByteApart_word (by decide) (by decide) (by decide)))))
  obtain ⟨hkeys, hworkloads, _⟩ := one_byte_never_collides
  exact ⟨hapart, hkeys hapart, hworkloads attributes hapart⟩

end Keys

end Fingerprint

end DataflowCost
