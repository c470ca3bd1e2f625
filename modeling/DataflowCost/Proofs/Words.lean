import DataflowCost.Inference.Word
import DataflowCost.Proofs.Contract
import DataflowCost.Tensor.Shape
import Mathlib.Data.Nat.ModEq

/-! Word arithmetic against exact arithmetic. An operation has the exact result where integers have no
bound and where a word holds it; anywhere else its result is congruent to the exact one, or it is a fault. -/
namespace DataflowCost

open Inference

/-- There are integers that no word holds. -/
def Build.Bounded [Build] : Prop := Build.overflow ≠ .exact

/-- What is asked of words is asked of no integers without a bound. -/
theorem ExactArithmetic.elim {p : Prop} (h : @Build.Bounded instBuild) : p := absurd rfl h

/-- The elements of the shape can be counted. Words that wrap have to hold their number, and words that trap
every product of leading extents on the way to it. -/
def Shape.Fits [Build] (s : Shape) : Prop :=
  match Build.overflow with
  | .exact => True
  | .wraps => size s < Word.limit
  | .traps => ∀ k, size (s.take k) < Word.limit

theorem Shape.Fits.size_lt [Build] {s : Shape} (h : s.Fits) (hbounded : Build.Bounded) :
    s.size < Word.limit := by
  unfold Fits at h
  cases hbuild : Build.overflow with
  | exact => exact absurd hbuild hbounded
  | wraps =>
    rw [hbuild] at h
    exact h
  | traps =>
    rw [hbuild] at h
    exact List.take_length (l := s) ▸ h s.length

namespace Word

theorem meets_clamp {hole : Prop} {least greatest z : Int} (h : greatest < least → hole) :
    Meets (clamp least greatest z) hole fun _ => True := by
  unfold clamp
  by_cases hle : least ≤ greatest
  · rw [if_pos hle]
    exact meets_ok trivial
  · rw [if_neg hle]
    exact meets_fault (h (by omega))

section Contract

variable [Build] {hole : Prop}

theorem meets_unsigned (h : Build.Bounded → hole) (n : Nat) :
    Meets (unsigned n) hole fun _ => True := by
  refine ⟨fun _ => trivial, ?_⟩
  unfold unsigned
  cases hbuild : Build.overflow with
  | exact | wraps => exact nofun
  | traps => exact fun _ => h (ne_of_eq_of_ne hbuild nofun)

theorem meets_signed (h : Build.Bounded → hole) (z : Int) :
    Meets (signed z) hole fun _ => True := by
  refine ⟨fun _ => trivial, ?_⟩
  unfold signed
  cases hbuild : Build.overflow with
  | exact | wraps => exact nofun
  | traps => exact fun _ => h (ne_of_eq_of_ne hbuild nofun)

/-- An unsigned word is negative only where it is read as a signed one. -/
theorem bounded_of_toSigned_lt {n : Nat} (h : toSigned n < 0) : Build.Bounded := by
  intro hexact
  rw [toSigned, hexact] at h
  exact absurd h (by simp)

theorem meets_add (h : Build.Bounded → hole) (a b : Nat) : Meets (add a b) hole fun _ => True :=
  meets_unsigned h (a + b)

theorem meets_mul (h : Build.Bounded → hole) (a b : Nat) : Meets (mul a b) hole fun _ => True :=
  meets_unsigned h (a * b)

/-- A product of positive numbers is zero only where it is reduced to a word. -/
theorem meets_mul_pos {a b : Nat} (h : Build.Bounded → hole) (ha : 0 < a) (hb : 0 < b) :
    Meets (mul a b) hole fun n => n = 0 → hole := by
  refine ⟨?_, (meets_mul h a b).fault⟩
  intro n hn hzero
  refine h ?_
  intro hexact
  rw [mul, unsigned, hexact] at hn
  exact Nat.ne_of_gt (Nat.mul_pos ha hb) ((Except.ok.inj hn).trans hzero)

theorem meets_product (h : Build.Bounded → hole) (factors : List Nat) :
    Meets (product factors) hole fun _ => True :=
  meets_foldlM trivial fun a _ b _ => meets_mul h a b

theorem meets_sum (h : Build.Bounded → hole) (terms : List Nat) :
    Meets (sum terms) hole fun _ => True :=
  meets_foldlM trivial fun a _ b _ => meets_add h a b

end Contract

section Results

variable [Build] {a b n r : Nat} {factors terms : List Nat}

/-- What results are congruent by. Where nothing is reduced it is zero, so that congruent numbers are
equal there. -/
def modulus : Nat :=
  match Build.overflow with
  | .exact | .traps => 0
  | .wraps => limit

theorem modEq_of_unsigned (h : unsigned n = .ok r) : r ≡ n [MOD modulus] := by
  unfold unsigned at h
  unfold modulus
  cases hbuild : Build.overflow with
  | exact =>
    rw [hbuild] at h
    rw [← Except.ok.inj h]
  | wraps =>
    rw [hbuild] at h
    rw [← Except.ok.inj h]
    exact Nat.mod_modEq n limit
  | traps =>
    simp only [hbuild] at h
    split at h
    next => rw [← Except.ok.inj h]
    next => cases h

theorem modEq_of_product (h : product factors = .ok r) : r ≡ Shape.size factors [MOD modulus] := by
  have hfrom (factors : List Nat) (a : Nat) (h : factors.foldlM mul a = .ok r) :
      r ≡ a * Shape.size factors [MOD modulus] := by
    induction factors generalizing a with
    | nil =>
      rw [← Except.ok.inj h, Shape.size, List.foldr_nil, Nat.mul_one]
    | cons b rest ih =>
      obtain ⟨c, hc, h⟩ := bind_eq_ok_iff.mp h
      refine (ih c h).trans ?_
      change c * _ ≡ a * (b * Shape.size rest) [MOD modulus]
      rw [← Nat.mul_assoc]
      exact (modEq_of_unsigned hc).mul_right _
  exact Nat.one_mul (Shape.size factors) ▸ hfrom factors 1 h

theorem modEq_of_sum (h : sum terms = .ok r) : r ≡ terms.foldr (· + ·) 0 [MOD modulus] := by
  have hfrom (terms : List Nat) (a : Nat) (h : terms.foldlM add a = .ok r) :
      r ≡ a + terms.foldr (· + ·) 0 [MOD modulus] := by
    induction terms generalizing a with
    | nil => rw [← Except.ok.inj h, List.foldr_nil, Nat.add_zero]
    | cons b rest ih =>
      obtain ⟨c, hc, h⟩ := bind_eq_ok_iff.mp h
      refine (ih c h).trans ?_
      rw [List.foldr_cons, ← Nat.add_assoc]
      exact (modEq_of_unsigned hc).add_right _
  exact Nat.zero_add (terms.foldr (· + ·) 0) ▸ hfrom terms 0 h

theorem modEq_of_mul (h : mul a b = .ok r) : r ≡ a * b [MOD modulus] := modEq_of_unsigned h

/-- Numbers that fit are congruent only if they are equal. -/
theorem eq_of_modEq (h : a ≡ b [MOD modulus]) (hfits : Build.Bounded → a < limit ∧ b < limit) :
    a = b := by
  unfold modulus at h
  cases hbuild : Build.overflow with
  | exact | traps =>
    rw [hbuild] at h
    exact Nat.modEq_zero_iff.mp h
  | wraps =>
    rw [hbuild] at h
    obtain ⟨ha, hb⟩ := hfits (ne_of_eq_of_ne hbuild nofun)
    exact Nat.ModEq.eq_of_lt_of_lt h ha hb

theorem unsigned_eq (h : Build.Bounded → n < limit) : unsigned n = .ok n := by
  unfold unsigned
  cases hbuild : Build.overflow with
  | exact => rfl
  | wraps => exact congrArg Except.ok (Nat.mod_eq_of_lt (h (ne_of_eq_of_ne hbuild nofun)))
  | traps => exact if_pos (h (ne_of_eq_of_ne hbuild nofun))

theorem add_eq (h : Build.Bounded → a + b < limit) : add a b = .ok (a + b) := unsigned_eq h

theorem mul_eq (h : Build.Bounded → a * b < limit) : mul a b = .ok (a * b) := unsigned_eq h

theorem signed_eq {z : Int} (h : Build.Bounded → -2 ^ 63 ≤ z ∧ z < 2 ^ 63) : signed z = .ok z := by
  have hbmod (hbounded : Build.Bounded) : z.bmod limit = z := by
    obtain ⟨hleast, hgreatest⟩ := h hbounded
    have hlimit : limit = 2 ^ 64 := rfl
    exact Int.bmod_eq_of_le (by omega) (by omega)
  unfold signed
  cases hbuild : Build.overflow with
  | exact => rfl
  | wraps => exact congrArg Except.ok (hbmod (ne_of_eq_of_ne hbuild nofun))
  | traps => exact if_pos (hbmod (ne_of_eq_of_ne hbuild nofun))

theorem toSigned_eq (h : Build.Bounded → n < 2 ^ 63) : toSigned n = n := by
  unfold toSigned
  cases hbuild : Build.overflow with
  | exact => rfl
  | wraps | traps =>
    have hlt := h (ne_of_eq_of_ne hbuild nofun)
    have hlimit : limit = 2 ^ 64 := rfl
    exact Int.bmod_eq_of_le (by omega) (by omega)

/-- A product of words that wrap is a word again. -/
theorem exists_product_lt (h : Build.overflow = .wraps) (factors : List Nat) :
    ∃ r < limit, product factors = .ok r := by
  have hfrom (factors : List Nat) (a : Nat) (ha : a < limit) :
      ∃ r < limit, factors.foldlM mul a = .ok r := by
    induction factors generalizing a with
    | nil => exact ⟨a, ha, rfl⟩
    | cons b rest ih =>
      have hstep : mul a b = .ok (a * b % limit) := by rw [mul, unsigned, h]
      rw [List.foldlM_cons, hstep]
      exact ih _ (Nat.mod_lt _ (by decide))
  exact hfrom factors 1 (by decide)

/-- A product of which no word on the way to it is beyond a word. -/
theorem product_eq_of_take (h : Build.Bounded → ∀ k, Shape.size (factors.take k) < limit) :
    product factors = .ok (Shape.size factors) := by
  have hfrom (factors : List Nat) (a : Nat)
      (h : Build.Bounded → ∀ k, a * Shape.size (factors.take k) < limit) :
      factors.foldlM mul a = .ok (a * Shape.size factors) := by
    induction factors generalizing a with
    | nil => exact congrArg Except.ok (Nat.mul_one a).symm
    | cons b rest ih =>
      have hstep : mul a b = .ok (a * b) := mul_eq fun hbounded => by
        simpa [Shape.size] using h hbounded 1
      have hrest := ih (a * b) fun hbounded k => by
        simpa [Shape.size, Nat.mul_assoc] using h hbounded (k + 1)
      rw [List.foldlM_cons, hstep]
      refine hrest.trans ?_
      rw [Nat.mul_assoc]
      rfl
  refine (hfrom factors 1 fun hbounded k => ?_).trans (by rw [Nat.one_mul])
  rw [Nat.one_mul]
  exact h hbounded k

theorem product_eq (h : Build.Bounded → Shape.Fits factors) :
    product factors = .ok (Shape.size factors) := by
  unfold Shape.Fits at h
  cases hbuild : Build.overflow with
  | exact => exact product_eq_of_take fun hbounded => absurd hbuild hbounded
  | traps =>
    rw [hbuild] at h
    exact product_eq_of_take h
  | wraps =>
    -- The factors may be beyond a word before there is a zero among them.
    rw [hbuild] at h
    obtain ⟨r, hr, hproduct⟩ := exists_product_lt hbuild factors
    have hsize : r = Shape.size factors := eq_of_modEq (modEq_of_product hproduct) fun hbounded =>
      ⟨hr, h hbounded⟩
    rw [hproduct, hsize]

theorem sum_eq (h : Build.Bounded → terms.foldr (· + ·) 0 < limit) :
    sum terms = .ok (terms.foldr (· + ·) 0) := by
  have hfrom (terms : List Nat) (a : Nat)
      (h : Build.Bounded → a + terms.foldr (· + ·) 0 < limit) :
      terms.foldlM add a = .ok (a + terms.foldr (· + ·) 0) := by
    induction terms generalizing a with
    | nil => rfl
    | cons b rest ih =>
      rw [List.foldr_cons, ← Nat.add_assoc] at h
      have hstep : add a b = .ok (a + b) := add_eq fun hbounded =>
        Nat.lt_of_le_of_lt (Nat.le_add_right _ _) (h hbounded)
      rw [List.foldlM_cons, hstep]
      refine (ih (a + b) h).trans ?_
      rw [List.foldr_cons, Nat.add_assoc]
  refine (hfrom terms 0 fun hbounded => ?_).trans (by rw [Nat.zero_add])
  rw [Nat.zero_add]
  exact h hbounded

end Results

section Exact

open scoped ExactArithmetic

theorem product_exact (factors : List Nat) : product factors = .ok (Shape.size factors) :=
  product_eq ExactArithmetic.elim

end Exact

end Word

end DataflowCost
