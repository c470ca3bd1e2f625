import DataflowCost.Proofs.ResizedAxes
import Mathlib.Algebra.Order.Round
import Mathlib.Data.Rat.Floor

/-! Resizing to requested sizes, without rounding errors in the scale factors. An axis that keeps its own ratio
gets what is asked for; a shared ratio is the least or the greatest of all, and rounding what it gives for an
axis does not take it beyond the size asked for, which is a whole number. -/
namespace DataflowCost

open Inference

/-- Factors as fractions. A half is rounded up; a number beyond the machine word becomes the greatest word. -/
instance : ScaleFactor ℚ where
  one := 1
  ofInt n := n
  mul := (· * ·)
  div := (· / ·)
  minimum := min
  maximum := max
  isPositive a := decide (0 < a)
  roundToNat a := min (round a).toNat (Word.limit - 1)
  quoted := toString

namespace ScaleFactor

theorem roundToNat_natCast {n : Nat} (h : n < Word.limit) : roundToNat (n : ℚ) = n := by
  have hround : (round (n : ℚ)).toNat = n := by rw [round_natCast, Int.toNat_natCast]
  show min (round (n : ℚ)).toNat (Word.limit - 1) = n
  rw [hround]
  exact Nat.min_eq_left (Nat.le_sub_one_of_lt h)

theorem roundToNat_mono {a b : ℚ} (hab : a ≤ b) : roundToNat a ≤ roundToNat b := by
  have hround : round a ≤ round b := by
    rw [round_eq, round_eq]
    exact Int.floor_le_floor (by linarith)
  exact min_le_min_right _ (Int.toNat_le_toNat hround)

end ScaleFactor

/-- What a policy promises of the extents that axes get, each beside the size that is asked for. -/
def RatioPolicy.Honoured (entries : List (Nat × Int)) : RatioPolicy → Prop
  | stretch => ∀ e ∈ entries, (e.1 : Int) = e.2
  | notLarger => (∀ e ∈ entries, (e.1 : Int) ≤ e.2) ∧ (entries ≠ [] → ∃ e ∈ entries, (e.1 : Int) = e.2)
  | notSmaller => (∀ e ∈ entries, e.2 ≤ (e.1 : Int)) ∧ (entries ≠ [] → ∃ e ∈ entries, (e.1 : Int) = e.2)

namespace Resize

theorem Agree.of_nodup {ρ : Type} {entries : List (Nat × ρ)} (h : (entries.map Prod.fst).Nodup) :
    Agree entries := by
  intro axis factor other hfactor hother
  exact congrArg Prod.snd (List.inj_on_of_nodup_map h hfactor hother rfl)

section Factors

variable {ρ : Type} [ScaleFactor ρ] {s : Shape} {axes : List Nat} {sizes : List Int}

/-- The ratio of a size to the extent of the axis that it is asked for. -/
def ratioOf (s : Shape) (request : Nat × Int) : ρ :=
  ScaleFactor.div (ScaleFactor.ofInt request.2) (ScaleFactor.ofInt (s.extentAt request.1))

/-- The factor that a request comes to among others. -/
def factorOf (policy : RatioPolicy) (s : Shape) (requests : List (Nat × Int)) (request : Nat × Int) : ρ :=
  (sharedRatio policy (requests.map (ratioOf s))).getD (ratioOf s request)

/-- Where no axis is listed twice each has the factor of its own request. -/
theorem factorAt_request (policy : RatioPolicy) (hdistinct : axes.Nodup)
    (henough : axes.length ≤ sizes.length) {request : Nat × Int} (h : request ∈ axes.zip sizes) :
    factorAt (axes.zip (underPolicy policy (ownRatios (ρ := ρ) s axes sizes))) request.1 =
      factorOf policy s (axes.zip sizes) request := by
  have haxes : (axes.zip sizes).map Prod.fst = axes := List.map_fst_zip henough
  have hfactors : underPolicy policy (ownRatios (ρ := ρ) s axes sizes) =
      (axes.zip sizes).map (factorOf policy s (axes.zip sizes)) := List.map_map
  have hentries : axes.zip (underPolicy policy (ownRatios (ρ := ρ) s axes sizes)) =
      (axes.zip sizes).map fun request => (request.1, factorOf policy s (axes.zip sizes) request) := by
    rw [hfactors, ← List.zip_map', haxes]
  rw [hentries]
  refine Agree.factorAt_eq (.of_nodup ?_) (List.mem_map_of_mem h)
  rw [List.map_map]
  exact haxes.symm ▸ hdistinct

/-- Each extent is multiplied by the factor of its axis, and rounded. -/
theorem outShape_eq_tabulate {d : Resize ρ} {factor : Nat → ρ}
    (h : d.scales = (List.range s.length).map factor) :
    d.outShape s = .ok (Shape.tabulate s.length fun axis => ScaleFactor.roundToNat
      (ScaleFactor.mul (factor axis) (ScaleFactor.ofInt (s.extentAt axis)))) := by
  have hlen : d.scales.length = s.length := by rw [h, List.length_map, List.length_range]
  unfold outShape
  rw [require_bind hlen, h]
  refine congrArg Except.ok (List.ext_getElem (by simp [Shape.tabulate]) fun axis hleft _ => ?_)
  have haxis : axis < s.length := by simpa using hleft
  simp [Shape.tabulate, Shape.extentAt, haxis]

end Factors

section Rounding

variable {s : Shape} {requests : List (Nat × Int)} {request : Nat × Int} {policy : RatioPolicy}

theorem sharedRatio_notLarger (own : List ℚ) : sharedRatio .notLarger own = own.min? := by
  cases own <;> rfl

theorem sharedRatio_notSmaller (own : List ℚ) : sharedRatio .notSmaller own = own.max? := by
  cases own <;> rfl

theorem factorOf_notLarger_le (h : request ∈ requests) :
    factorOf .notLarger s requests request ≤ (ratioOf s request : ℚ) := by
  rw [factorOf, sharedRatio_notLarger]
  cases hleast : (requests.map (ratioOf (ρ := ℚ) s)).min? with
  | none => exact le_rfl
  | some least => exact (List.min?_eq_some_iff.mp hleast).2 _ (List.mem_map_of_mem h)

theorem le_factorOf_notSmaller (h : request ∈ requests) :
    (ratioOf s request : ℚ) ≤ factorOf .notSmaller s requests request := by
  rw [factorOf, sharedRatio_notSmaller]
  cases hgreatest : (requests.map (ratioOf (ρ := ℚ) s)).max? with
  | none => exact le_rfl
  | some greatest => exact (List.max?_eq_some_iff.mp hgreatest).2 _ (List.mem_map_of_mem h)

/-- A ratio that is shared is the own one of some axis. -/
theorem mem_of_sharedRatio {own : List ℚ} {ratio : ℚ} (h : sharedRatio policy own = some ratio) :
    ratio ∈ own := by
  cases policy with
  | stretch => cases own <;> cases h
  | notLarger => exact (List.min?_eq_some_iff.mp (sharedRatio_notLarger own ▸ h)).1
  | notSmaller => exact (List.max?_eq_some_iff.mp (sharedRatio_notSmaller own ▸ h)).1

theorem exists_factorOf_eq (policy : RatioPolicy) (s : Shape) (h : requests ≠ []) :
    ∃ request ∈ requests, factorOf policy s requests request = (ratioOf s request : ℚ) := by
  unfold factorOf
  cases hshared : sharedRatio policy (requests.map (ratioOf (ρ := ℚ) s)) with
  | none =>
    obtain ⟨request, hrequest⟩ := List.exists_mem_of_ne_nil requests h
    exact ⟨request, hrequest, rfl⟩
  | some ratio =>
    obtain ⟨request, hrequest, heq⟩ := List.mem_map.mp (mem_of_sharedRatio hshared)
    exact ⟨request, hrequest, heq.symm⟩

theorem ratioOf_mul (hextent : 0 < s.extentAt request.1) :
    ratioOf s request * (s.extentAt request.1 : ℚ) = request.2 := by
  have hne : ((s.extentAt request.1 : Int) : ℚ) ≠ 0 := by
    rw [Int.cast_natCast, Nat.cast_ne_zero]
    omega
  exact div_mul_cancel₀ (request.2 : ℚ) hne

/-- The own ratio of an axis gives the size asked for. -/
theorem roundToNat_ratioOf (hextent : 0 < s.extentAt request.1)
    (hsize : 0 < request.2 ∧ request.2 < Word.limit) :
    (ScaleFactor.roundToNat (ratioOf s request * (s.extentAt request.1 : ℚ)) : Int) = request.2 := by
  obtain ⟨size, hsize'⟩ := Int.eq_ofNat_of_zero_le hsize.1.le
  rw [ratioOf_mul hextent, hsize']
  have hlt : size < Word.limit := by omega
  exact congrArg Nat.cast (ScaleFactor.roundToNat_natCast hlt)

/-- Rounding keeps what a policy promises. -/
theorem honoured {got : Nat → Nat} (hextents : ∀ r ∈ requests, 0 < s.extentAt r.1)
    (hsizes : ∀ r ∈ requests, 0 < r.2 ∧ r.2 < Word.limit)
    (hgot : ∀ r ∈ requests, got r.1 =
      ScaleFactor.roundToNat (factorOf policy s requests r * (s.extentAt r.1 : ℚ))) :
    policy.Honoured (requests.map fun r => (got r.1, r.2)) := by
  have hexact : ∀ r ∈ requests, factorOf policy s requests r = (ratioOf s r : ℚ) →
      (got r.1 : Int) = r.2 := by
    intro r hr heq
    rw [hgot r hr, heq]
    exact roundToNat_ratioOf (hextents r hr) (hsizes r hr)
  have hattained (hne : (requests.map fun r => (got r.1, r.2)) ≠ []) :
      ∃ e ∈ requests.map fun r => (got r.1, r.2), (e.1 : Int) = e.2 := by
    obtain ⟨r, hr, heq⟩ := exists_factorOf_eq policy s (List.map_eq_nil_iff.not.mp hne)
    exact ⟨_, List.mem_map_of_mem hr, hexact r hr heq⟩
  cases policy with
  | stretch => exact List.forall_mem_map.mpr fun r hr => hexact r hr rfl
  | notLarger =>
    refine ⟨List.forall_mem_map.mpr fun r hr => ?_, hattained⟩
    show (got r.1 : Int) ≤ r.2
    rw [hgot r hr, ← roundToNat_ratioOf (hextents r hr) (hsizes r hr), Nat.cast_le]
    exact ScaleFactor.roundToNat_mono
      (mul_le_mul_of_nonneg_right (factorOf_notLarger_le hr) (Nat.cast_nonneg _))
  | notSmaller =>
    refine ⟨List.forall_mem_map.mpr fun r hr => ?_, hattained⟩
    show r.2 ≤ (got r.1 : Int)
    rw [hgot r hr, ← roundToNat_ratioOf (hextents r hr) (hsizes r hr), Nat.cast_le]
    exact ScaleFactor.roundToNat_mono
      (mul_le_mul_of_nonneg_right (le_factorOf_notSmaller hr) (Nat.cast_nonneg _))

end Rounding

/-- Sizes for axes that are all different are accepted exactly if they are positive, no listed axis is empty and
each of them has a size. The extents then keep what the policy promises, and axes that are not listed keep
theirs. Extents and sizes are machine words. -/
theorem honours_ratio_policy {d : Resize ℚ} {types : List TensorType} {s : Shape} {axes : List Nat}
    {sizes : List Int} (guid : Nat) (htarget : d.target = .sizes)
    (hcheck : d.checkShapes types = .ok (s, axes)) (hdistinct : axes.Nodup) (hextents : AreWords s)
    (hsizes : ∀ size ∈ sizes, size < Word.limit) :
    d.prepare types = .awaitInts 1 (d.resolveSizes s axes) ∧
    ((∃ d', d.resolveSizes s axes guid (some sizes) = .ok d') ↔ (∀ size ∈ sizes, 0 < size) ∧
      (∀ axis ∈ axes, 0 < s.extentAt axis) ∧ axes.length ≤ sizes.length) ∧
    ∀ d', d.resolveSizes s axes guid (some sizes) = .ok d' → ∃ out, d'.outShape s = .ok out ∧
      out.length = s.length ∧
      (∀ axis < s.length, axis ∉ axes → out.extentAt axis = s.extentAt axis) ∧
      d.ratio.Honoured ((axes.map out.extentAt).zip sizes) := by
  obtain ⟨x, _, count, _, _, _, haxes, _, rfl⟩ := checkShapes_eq_ok_iff.mp hcheck
  have hlt : ∀ axis ∈ axes, axis < x.shape.length :=
    ((meets_resolveAxes d.axes x.rank count).of_ok haxes).2
  refine ⟨?_, ?_, fun d' hd' => ?_⟩
  · rw [prepare, hcheck]
    simp only [Preparation.after, htarget]
  · simp only [resolveSizes_eq_ok_iff hlt, exists_and_left, exists_eq, and_true]
  · obtain ⟨⟨hpositive, hfull, henough⟩, rfl⟩ := (resolveSizes_eq_ok_iff hlt).mp hd'
    refine ⟨_, outShape_eq_tabulate rfl, Shape.length_tabulate _ _, fun axis haxis hother => ?_, ?_⟩
    · -- The factor one leaves the extent as it is.
      have hnone : ∀ factor : ℚ, (axis, factor) ∉
          axes.zip (underPolicy d.ratio (ownRatios x.shape axes sizes)) :=
        fun _ hmem => hother (List.of_mem_zip hmem).1
      have hword := hextents _ (List.mem_of_getElem? (Shape.getElem?_eq_extentAt haxis))
      rw [Shape.extentAt_tabulate haxis, factorAt_of_not_mem hnone]
      show ScaleFactor.roundToNat (1 * (x.shape.extentAt axis : ℚ)) = _
      rw [one_mul, ScaleFactor.roundToNat_natCast hword]
    · rw [List.zip_map_left]
      refine honoured (s := x.shape) (fun r hr => ?_) (fun r hr => ?_) fun r hr => ?_
      · exact hfull _ (List.of_mem_zip hr).1
      · have hsize := (List.of_mem_zip hr).2
        exact ⟨hpositive _ hsize, hsizes _ hsize⟩
      · rw [Shape.extentAt_tabulate (hlt _ (List.of_mem_zip hr).1), factorAt_request _ hdistinct henough hr]
        rfl

/-- Columns get what is asked for, and rows the half more that the same ratio gives them, rounded up. -/
theorem honours_ratio_policy_columns :
    let d : Resize ℚ := { target := .sizes, ratio := .notLarger, axes := some [1, 0] }
    let types : List TensorType := [⟨[3, 4, 5], .float32⟩, ⟨[2], .int64⟩]
    d.checkShapes types = .ok ([3, 4, 5], [1, 0]) ∧ AreWords [3, 4, 5] ∧
      d.prepare types = .awaitInts 1 (d.resolveSizes [3, 4, 5] [1, 0]) ∧
      ∃ d', d.resolveSizes [3, 4, 5] [1, 0] 2 (some [6, 8]) = .ok d' ∧
        d'.outShape [3, 4, 5] = .ok [5, 6, 5] ∧ RatioPolicy.notLarger.Honoured [(6, 6), (5, 8)] := by
  intro d types
  have hcheck : d.checkShapes types = .ok ([3, 4, 5], [1, 0]) := rfl
  have hwords : AreWords [3, 4, 5] := by decide
  have hsizes : ∀ size ∈ ([6, 8] : List Int), size < Word.limit := by decide
  obtain ⟨hprepare, haccepted, hkeeps⟩ :=
    honours_ratio_policy 2 rfl hcheck (by decide) hwords hsizes
  obtain ⟨d', hresolve⟩ := haccepted.mpr (by decide)
  obtain ⟨out, hout, _, _, hhonoured⟩ := hkeeps d' hresolve
  obtain ⟨_, rfl⟩ := (resolveSizes_eq_ok_iff (by decide)).mp hresolve
  have hshape : out = [5, 6, 5] := (Except.ok.inj hout).symm.trans (by decide +kernel)
  subst hshape
  exact ⟨hcheck, hwords, hprepare, _, hresolve, hout, hhonoured⟩

end Resize

end DataflowCost
