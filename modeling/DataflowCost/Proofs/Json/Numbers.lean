import DataflowCost.Numeric.NumberFormat
import DataflowCost.Proofs.Json.Grammar
import Mathlib.Algebra.Group.Nat.Defs
import Mathlib.Data.List.TakeWhile

/-! Written numbers are numerals of the grammar: no format leads with a superfluous zero, and no part
that it shows is without digits. -/
namespace DataflowCost

namespace Numeral

theorem run_toDigits (n : Nat) : Run (Nat.toDigits 10 n) :=
  ⟨Nat.toDigits_ne_nil, fun _ hc => Nat.isDigit_of_mem_toDigits (by decide) (by decide) hc⟩

/-- A digit sequence that no zero leads. -/
structure Leads (s : List Char) : Prop where
  run : Run s
  head_ne : ∀ rest, s ≠ '0' :: rest

theorem leads_toDigits {n : Nat} (h : 0 < n) : Leads (Nat.toDigits 10 n) := by
  refine ⟨run_toDigits n, ?_⟩
  induction n using Nat.strongRecOn with
  | ind n ih =>
    rw [Nat.toDigits_eq_if (by decide)]
    by_cases hlt : n < 10
    · rw [if_pos hlt]
      intro rest heq
      have hzero : n.digitChar = '0' := (List.cons.inj heq).1
      rw [Nat.digitChar_eq_zero] at hzero
      omega
    · -- The digits in front of the last one are those of a tenth.
      rw [if_neg hlt]
      intro rest heq
      obtain ⟨c, digits, hdigits⟩ := List.exists_cons_of_ne_nil (Nat.toDigits_ne_nil (n := n / 10))
      rw [hdigits, List.cons_append] at heq
      rw [(List.cons.inj heq).1] at hdigits
      exact ih (n / 10) (by omega) (by omega) _ hdigits

theorem Leads.of_prefix {s t : List Char} (ht : Leads t) (h : s <+: t) (hne : s ≠ []) :
    Leads s where
  run := ⟨hne, fun c hc => ht.run.2 c (h.subset hc)⟩
  head_ne := by
    rintro rest rfl
    obtain ⟨more, rfl⟩ := h
    exact ht.head_ne _ rfl

theorem Leads.append {s t : List Char} (hs : Leads s) (ht : ∀ c ∈ t, c.isDigit = true) :
    Leads (s ++ t) where
  run := by
    refine ⟨List.append_ne_nil_of_left_ne_nil hs.run.1 t, ?_⟩
    exact List.forall_mem_append.mpr ⟨hs.run.2, ht⟩
  head_ne := by
    obtain ⟨c, digits, rfl⟩ := List.exists_cons_of_ne_nil hs.run.1
    intro rest heq
    rw [List.cons_append] at heq
    exact hs.head_ne digits (by rw [(List.cons.inj heq).1])

theorem Leads.leading {s rest : List Char} (h : Leads s) (hs : s = '0' :: rest) : rest = [] :=
  absurd hs (h.head_ne rest)

theorem run_singleton {c : Char} (h : c.isDigit = true) : Run [c] :=
  ⟨List.cons_ne_nil c [], List.forall_mem_singleton.mpr h⟩

theorem wellFormed_ofNat (n : Nat) : (ofNat n).WellFormed where
  whole := run_toDigits n
  leading := by
    intro rest h
    rcases Nat.eq_zero_or_pos n with rfl | hpos
    · exact (List.cons.inj h).2.symm
    · exact (leads_toDigits hpos).leading h
  fraction := nofun
  exponent := nofun

end Numeral

namespace Binary

theorem lt_pow_digitCount (n : Nat) : n < 10 ^ digitCount n :=
  (Nat.length_toDigits_le_iff (by decide) Nat.length_toDigits_pos).mp (Nat.le_refl _)

theorem pow_le_of_lt_digitCount {n k : Nat} (hn : 0 < n) (h : k < digitCount n) : 10 ^ k ≤ n := by
  cases k with
  | zero => exact hn
  | succ k =>
    -- What is below a power of ten has no more digits than its exponent says.
    by_contra hlt
    have hle := (Nat.length_toDigits_le_iff (b := 10) (by decide) (Nat.succ_pos k)).mpr
      (Nat.lt_of_not_le hlt)
    exact absurd hle (Nat.not_le_of_lt h)

/-- A unit below the magnitude of a value is not beyond the value. -/
theorem unit_le {b : Binary} (h : 0 < b.significand) {unit : Int} (hunit : unit < b.magnitude) :
    2 ^ (-b.exponent).toNat * 10 ^ unit.toNat ≤
      b.significand * (2 ^ b.exponent.toNat * 10 ^ (-unit).toNat) := by
  rw [← Nat.mul_assoc]
  change unit < (if 2 ^ (-b.exponent).toNat ≤ b.significand * 2 ^ b.exponent.toNat then
    (digitCount (b.significand * 2 ^ b.exponent.toNat / 2 ^ (-b.exponent).toNat) : Int) else
    1 - (digitCount (2 ^ (-b.exponent).toNat / (b.significand * 2 ^ b.exponent.toNat)) : Int))
    at hunit
  have hnum : 0 < b.significand * 2 ^ b.exponent.toNat := Nat.mul_pos h (Nat.two_pow_pos _)
  have hden : 0 < 2 ^ (-b.exponent).toNat := Nat.two_pow_pos _
  generalize b.significand * 2 ^ b.exponent.toNat = num at *
  generalize 2 ^ (-b.exponent).toNat = den at *
  split at hunit
  next hle =>
    -- From one on, the magnitude counts the digits of the whole part.
    have hdigits : 10 ^ unit.toNat ≤ num / den := by
      have hquotient := Nat.div_pos hle hden
      have hcount := lt_pow_digitCount (num / den)
      apply pow_le_of_lt_digitCount hquotient
      have : 0 < digitCount (num / den) := Nat.length_toDigits_pos
      omega
    calc den * 10 ^ unit.toNat ≤ den * (num / den) := Nat.mul_le_mul_left _ hdigits
      _ ≤ num := Nat.mul_div_le num den
      _ ≤ num * 10 ^ (-unit).toNat := Nat.le_mul_of_pos_right _ (Nat.pow_pos (by decide))
  next hlt =>
    -- Below one, it counts those of the reciprocal, so the unit is a negative power.
    have hunit0 : unit.toNat = 0 := by
      have : 0 < digitCount (den / num) := Nat.length_toDigits_pos
      omega
    have hdigits : den < num * 10 ^ digitCount (den / num) := by
      rw [Nat.mul_comm]
      exact (Nat.div_lt_iff_lt_mul hnum).mp (lt_pow_digitCount _)
    calc den * 10 ^ unit.toNat = den := by rw [hunit0, Nat.pow_zero, Nat.mul_one]
      _ ≤ num * 10 ^ digitCount (den / num) := Nat.le_of_lt hdigits
      _ ≤ num * 10 ^ (-unit).toNat := by
        apply Nat.mul_le_mul_left
        exact Nat.pow_le_pow_right (by decide) (by omega)

theorem digits_pos_of_onGrid? {tie : TieRule} {b : Binary} (h : 0 < b.significand) {unit : Int}
    (hunit : unit < b.magnitude) {d : Decimal} (hd : b.onGrid? tie unit = some d) :
    0 < d.digits := by
  have hle := unit_le h hunit
  have hbelow : 0 < 4 * b.significand * (Nat.pow 2 b.exponent.toNat * Nat.pow 10 (-unit).toNat) /
      (4 * (Nat.pow 2 (-b.exponent).toNat * Nat.pow 10 unit.toNat)) := by
    apply Nat.div_pos
    · rw [Nat.mul_assoc]
      exact Nat.mul_le_mul_left 4 hle
    · exact Nat.mul_pos (by decide) (Nat.mul_pos (Nat.two_pow_pos _) (Nat.pow_pos (by decide)))
  unfold onGrid? at hd
  simp only at hd
  -- Of the two candidates the lower is positive, and so is the one above it.
  generalize 4 * b.significand * (Nat.pow 2 b.exponent.toNat * Nat.pow 10 (-unit).toNat) /
    (4 * (Nat.pow 2 (-b.exponent).toNat * Nat.pow 10 unit.toNat)) = below at hd hbelow
  split at hd
  · obtain rfl := Option.some.inj hd
    simp only
    repeat' split
    all_goals omega
  · obtain rfl := Option.some.inj hd
    exact hbelow
  · obtain rfl := Option.some.inj hd
    exact Nat.succ_pos below
  · cases hd

theorem digits_shortest_pos {b : Binary} (h : 0 < b.significand) (tie : TieRule) :
    0 < (b.shortest tie).digits := by
  unfold shortest
  cases hfound : (List.range 17).findSome? fun n =>
      b.onGrid? tie (b.magnitude - (n + 1 : Nat)) with
  | none => exact h
  | some d =>
    obtain ⟨n, _, hd⟩ := List.exists_of_findSome?_eq_some hfound
    exact digits_pos_of_onGrid? h (by omega) hd

end Binary

open Numeral

namespace NumberFormat

theorem isDigit_of_mem_zeros (count : Nat) : ∀ c ∈ zeros count, c.isDigit = true := by
  intro c hc
  rw [List.eq_of_mem_replicate hc]
  rfl

theorem leads_significant {digits : List Char} (h : Leads digits) :
    Leads (significant digits).1 := by
  have hsuffix : digits.reverse.dropWhile (· == '0') <:+ digits.reverse :=
    List.dropWhile_suffix _
  refine h.of_prefix ?_ ?_
  · rw [← List.reverse_suffix]
    simpa [significant] using hsuffix
  · -- The digit in front is no zero.
    obtain ⟨c, rest, rfl⟩ := List.exists_cons_of_ne_nil h.run.1
    intro hnil
    have hall := List.dropWhile_eq_nil_iff.mp (List.reverse_eq_nil_iff.mp hnil)
    have hc := hall c (by simp)
    exact h.head_ne rest (by rw [eq_of_beq hc])

theorem wellFormed_positional (f : NumberFormat) (negative : Bool) {digits : List Char}
    (h : Leads digits) (whole : Int) : (f.positional negative digits whole).WellFormed := by
  unfold positional
  split
  next =>
    -- The value is below one: zeros stand between the point and the digits.
    refine ⟨run_singleton rfl, fun _ heq => (List.cons.inj heq).2.symm, ?_, nofun⟩
    rintro _ ⟨⟩
    refine ⟨List.append_ne_nil_of_right_ne_nil _ h.run.1, ?_⟩
    exact List.forall_mem_append.mpr ⟨isDigit_of_mem_zeros _, h.run.2⟩
  next hpos =>
    split
    next =>
      -- All digits stand in front of the point, and zeros fill the rest.
      have hwhole := h.append (isDigit_of_mem_zeros (whole.toNat - digits.length))
      refine ⟨hwhole.run, fun _ => hwhole.leading, ?_, nofun⟩
      intro shown hshown
      split at hshown
      · obtain rfl := Option.some.inj hshown
        exact run_singleton rfl
      · cases hshown
    next hlen =>
      -- The point is among the digits.
      have htake : digits.take whole.toNat ≠ [] := by
        rw [Ne, List.take_eq_nil_iff, not_or]
        exact ⟨by omega, h.run.1⟩
      have hwhole := h.of_prefix (List.take_prefix _ _) htake
      refine ⟨hwhole.run, fun _ => hwhole.leading, ?_, nofun⟩
      rintro _ ⟨⟩
      refine ⟨?_, fun c hc => h.run.2 c (List.mem_of_mem_drop hc)⟩
      rw [Ne, List.drop_eq_nil_iff]
      exact hlen

theorem wellFormed_scientific (f : NumberFormat) (negative : Bool) {digits : List Char}
    (h : Leads digits) (exponent : Int) :
    (f.scientific negative digits exponent).WellFormed := by
  have htake : digits.take 1 ≠ [] := by
    rw [Ne, List.take_eq_nil_iff, not_or]
    exact ⟨by omega, h.run.1⟩
  have hwhole := h.of_prefix (List.take_prefix _ _) htake
  refine ⟨hwhole.run, fun _ => hwhole.leading, ?_, ?_⟩
  · intro shown hshown
    change (if (digits.drop 1).isEmpty then none else some (digits.drop 1)) = some shown at hshown
    split at hshown
    next => cases hshown
    next hne =>
      obtain rfl := Option.some.inj hshown
      exact ⟨by simpa using hne, fun c hc => h.run.2 c (List.mem_of_mem_drop hc)⟩
  · rintro _ ⟨⟩
    exact run_toDigits _

theorem wellFormed_numeral (f : NumberFormat) (negative : Bool) (b : Binary) :
    (f.numeral negative b).WellFormed := by
  unfold numeral
  split
  next =>
    refine ⟨run_singleton rfl, fun _ heq => (List.cons.inj heq).2.symm, ?_, nofun⟩
    intro shown hshown
    change (if f.keepPoint then some ['0'] else none) = some shown at hshown
    split at hshown
    · obtain rfl := Option.some.inj hshown
      exact run_singleton rfl
    · cases hshown
  next hne =>
    have hdigits := leads_significant
      (leads_toDigits (Binary.digits_shortest_pos (Nat.pos_of_ne_zero hne) f.tie))
    simp only
    split
    · exact f.wellFormed_positional negative hdigits _
    · exact f.wellFormed_scientific negative hdigits _

theorem wellFormed_of_numeral? {f : NumberFormat} {x : Decoded} {n : Numeral}
    (h : f.numeral? x = some n) : n.WellFormed := by
  cases x with
  | nan | infinite negative => cases h
  | finite negative b =>
    obtain rfl := Option.some.inj h
    exact f.wellFormed_numeral negative b

end NumberFormat

end DataflowCost
