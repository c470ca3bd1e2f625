import DataflowCost.Proofs.Extents
import DataflowCost.Proofs.Infers
import DataflowCost.Proofs.Resolution.Layout
import DataflowCost.Proofs.Windows
import Mathlib.Data.List.NodupEquivFin

/-! Reshaping as a problem with one unknown. A target describes the shapes that it stands for, and is
resolved exactly if there is one of them. -/
namespace DataflowCost

open Inference

namespace Reshape

variable {input s out : Shape} {target rest : List Int} {entry : Int} {position : Nat}

/-- The shapes that a target stands for. The extent at a minus one is open. -/
structure Solves (target : List Int) (input s : Shape) : Prop where
  length_eq : s.length = target.length
  given : ∀ {i : Nat} {entry : Int}, target[i]? = some entry → 0 < entry → s[i]? = some entry.toNat
  copied : ∀ {i : Nat}, target[i]? = some 0 → s[i]? = input[i]?
  size_eq : s.size = input.size

/-- The entries of a target mean something, and there is one shape that it stands for. -/
structure Determines (target : List Int) (input out : Shape) : Prop where
  entries : ∀ entry ∈ target, entry ≠ -1 → 0 ≤ entry
  sources : ∀ {i : Nat}, target[i]? = some 0 → i < input.length
  unique : ∀ s, Solves target input s ↔ s = out

/-- Entries that mean something, from a position on: there are no negative ones but minus one, and there
is an extent to be copied at each zero. -/
structure Admissible (input : Shape) (position : Nat) (target : List Int) : Prop where
  entries : ∀ entry ∈ target, entry ≠ -1 → 0 ≤ entry
  sources : ∀ {i : Nat}, target[i]? = some 0 → position + i < input.length

theorem admissible_nil : Admissible input position [] :=
  ⟨nofun, nofun⟩

theorem admissible_cons : Admissible input position (entry :: rest) ↔
    (entry ≠ -1 → 0 ≤ entry) ∧ (entry = 0 → position < input.length) ∧
      Admissible input (position + 1) rest := by
  constructor
  · intro h
    obtain ⟨hentry, hrest⟩ := List.forall_mem_cons.mp h.entries
    refine ⟨hentry, ?_, hrest, ?_⟩
    · rintro rfl
      exact h.sources (i := 0) rfl
    · intro i hi
      have hsource := h.sources (i := i + 1) hi
      omega
  · rintro ⟨hentry, hsource, hrest⟩
    refine ⟨List.forall_mem_cons.mpr ⟨hentry, hrest.entries⟩, ?_⟩
    intro i hi
    cases i with
    | zero => exact hsource (Option.some.inj hi)
    | succ i =>
      have hrest := hrest.sources hi
      omega

/-- The extent of an entry, with one put in for a minus one. -/
def entryExtent (input : Shape) (unknown position : Nat) (entry : Int) : Nat :=
  if entry = -1 then unknown else if entry = 0 then input.extentAt position else entry.toNat

/-- A target from a position on, with an extent put in for each minus one. -/
def filled (input : Shape) (position : Nat) (target : List Int) (unknown : Nat) : Shape :=
  target.mapIdx fun i entry => entryExtent input unknown (position + i) entry

theorem filled_cons (unknown : Nat) : filled input position (entry :: rest) unknown =
    entryExtent input unknown position entry :: filled input (position + 1) rest unknown := by
  simp only [filled, List.mapIdx_cons, Nat.add_zero, Nat.add_right_comm position 1, Nat.add_assoc]

theorem length_filled (unknown : Nat) :
    (filled input position target unknown).length = target.length :=
  List.length_mapIdx

theorem getElem?_filled (unknown i : Nat) : (filled input position target unknown)[i]? =
    target[i]?.map (entryExtent input unknown (position + i)) :=
  List.getElem?_mapIdx

/-! ### What the pattern is read as -/

theorem go_cons (hne : entry ≠ -1) (hentry : 0 ≤ entry) (hsource : entry = 0 → position < input.length)
    (open? : Option Nat) : pattern.go input (entry :: rest) position open? = (do
      let (known, found) ← pattern.go input rest (position + 1) open?
      return (entryExtent input 1 position entry :: known, found)) := by
  rw [pattern.go, if_neg hne, entryExtent, if_neg hne]
  by_cases hzero : entry = 0
  · rw [if_pos hzero, if_pos hzero, Shape.getElem?_eq_extentAt (hsource hzero)]
  · rw [if_neg hzero, if_neg hzero, if_pos (by omega)]

theorem go_of_not_mem (h : Admissible input position target) (hclosed : -1 ∉ target)
    (open? : Option Nat) :
    pattern.go input target position open? = .ok (filled input position target 1, open?) := by
  -- The position moves along with the entries.
  induction target generalizing position with
  | nil => rfl
  | cons entry rest ih =>
    obtain ⟨hentry, hsource, hrest⟩ := admissible_cons.mp h
    have hne : entry ≠ -1 := (List.ne_of_not_mem_cons hclosed).symm
    rw [go_cons hne (hentry hne) hsource, ih hrest (List.not_mem_of_not_mem_cons hclosed),
      filled_cons]
    rfl

/-- The only minus one is found, wherever it stands. -/
theorem go_of_getElem? (h : Admissible input position target) (hone : target.count (-1) ≤ 1) {i : Nat}
    (hi : target[i]? = some (-1)) : pattern.go input target position none =
      .ok (filled input position target 1, some (position + i)) := by
  induction target generalizing position i with
  | nil => cases hi
  | cons entry rest ih =>
    obtain ⟨hentry, hsource, hrest⟩ := admissible_cons.mp h
    cases i with
    | zero =>
      -- This is the one, and what follows is read with its position at hand.
      obtain rfl : entry = -1 := Option.some.inj hi
      have hclosed : -1 ∉ rest := by
        rw [List.count_cons_self] at hone
        exact List.count_eq_zero.mp (by omega)
      rw [filled_cons]
      change (do
        let (known, found) ← pattern.go input rest (position + 1) (some position)
        return (1 :: known, found)) = _
      rw [go_of_not_mem hrest hclosed]
      rfl
    | succ i =>
      -- A minus one behind this entry is the only one.
      have hmem : -1 ∈ rest := List.mem_of_getElem? hi
      have hpos : 0 < rest.count (-1) := List.count_pos_iff.mpr hmem
      have hne : entry ≠ -1 := by
        rintro rfl
        rw [List.count_cons_self] at hone
        omega
      rw [List.count_cons_of_ne hne] at hone
      rw [go_cons hne (hentry hne) hsource, ih hrest hone hi, filled_cons, Nat.add_right_comm]
      rfl

/-- Whatever is read is admissible. -/
theorem admissible_of_go {open? found : Option Nat} {known : Shape}
    (h : pattern.go input target position open? = .ok (known, found)) :
    Admissible input position target := by
  induction target generalizing position open? known found with
  | nil => exact admissible_nil
  | cons entry rest ih =>
    have hrest {known' : Nat} {open' : Option Nat} (hgo : (do
        let r ← pattern.go input rest (position + 1) open'
        return (known' :: r.1, r.2)) = Except.ok (known, found)) :
        Admissible input (position + 1) rest := by
      obtain ⟨⟨_, _⟩, hgo, _⟩ := bind_eq_ok_iff.mp hgo
      exact ih hgo
    apply admissible_cons.mpr
    unfold pattern.go at h
    by_cases hopen : entry = -1
    · rw [if_pos hopen] at h
      obtain ⟨_, hgo⟩ := require_bind_eq_ok_iff.mp h
      exact ⟨fun hne => absurd hopen hne, by omega, hrest hgo⟩
    · rw [if_neg hopen] at h
      by_cases hzero : entry = 0
      · rw [if_pos hzero] at h
        cases hsource : input[position]? with
        | none =>
          rw [hsource] at h
          cases h
        | some source =>
          rw [hsource] at h
          obtain ⟨hlt, _⟩ := List.getElem?_eq_some_iff.mp hsource
          exact ⟨fun _ => Int.le_of_eq hzero.symm, fun _ => hlt, hrest h⟩
      · rw [if_neg hzero] at h
        by_cases hpos : 0 < entry
        · rw [if_pos hpos] at h
          exact ⟨fun _ => Int.le_of_lt hpos, fun heq => absurd heq hzero, hrest h⟩
        · rw [if_neg hpos] at h
          cases h

/-! ### What the pattern stands for -/

/-- A minus one stands at one place at most. -/
theorem eq_of_getElem? (hone : target.count (-1) ≤ 1) {i j : Nat} (hi : target[i]? = some (-1))
    (hj : target[j]? = some (-1)) : i = j := by
  by_contra hne
  wlog hlt : i < j generalizing i j
  · exact this hj hi (Ne.symm hne) (by omega)
  obtain ⟨hi, higet⟩ := List.getElem?_eq_some_iff.mp hi
  obtain ⟨hj, hjget⟩ := List.getElem?_eq_some_iff.mp hj
  have hdup : List.Duplicate (-1) target :=
    List.duplicate_iff_exists_distinct_get.mpr ⟨⟨i, hi⟩, ⟨j, hj⟩, hlt, higet.symm, hjget.symm⟩
  have htwo := List.duplicate_iff_two_le_count.mp hdup
  omega

theorem filled_of_not_mem (hclosed : -1 ∉ target) (unknown unknown' : Nat) :
    filled input position target unknown = filled input position target unknown' := by
  apply List.ext_getElem?
  intro i
  rw [getElem?_filled, getElem?_filled]
  apply Option.map_congr
  intro entry hentry
  have hne : entry ≠ -1 := by
    rintro rfl
    exact hclosed (List.mem_of_getElem? hentry)
  rw [entryExtent, entryExtent, if_neg hne, if_neg hne]

theorem filled_eq_set (hone : target.count (-1) ≤ 1) {i : Nat} (hi : target[i]? = some (-1))
    (unknown : Nat) : filled input 0 target unknown = (filled input 0 target 1).set i unknown := by
  have hlt : i < target.length := (List.getElem?_eq_some_iff.mp hi).1
  apply List.ext_getElem?
  intro j
  by_cases hj : j = i
  · obtain rfl := hj
    rw [getElem?_filled, hi, List.getElem?_set_self ((length_filled 1).symm ▸ hlt)]
    rfl
  · rw [List.getElem?_set_ne (Ne.symm hj), getElem?_filled, getElem?_filled]
    apply Option.map_congr
    intro entry hentry
    have hne : entry ≠ -1 := by
      rintro rfl
      exact hj (eq_of_getElem? hone hentry hi)
    rw [entryExtent, entryExtent, if_neg hne, if_neg hne]

/-- The open extent is a factor of the element count. -/
theorem size_filled (hone : target.count (-1) ≤ 1) {i : Nat} (hi : target[i]? = some (-1))
    (unknown : Nat) :
    (filled input 0 target unknown).size = unknown * (filled input 0 target 1).size := by
  have hlt : i < (filled input 0 target 1).length := by
    rw [length_filled]
    exact (List.getElem?_eq_some_iff.mp hi).1
  rw [filled_eq_set hone hi, Shape.size_set hlt, ← filled_eq_set hone hi 1]

theorem solves_filled_iff (h : Admissible input 0 target) {unknown : Nat} :
    Solves target input (filled input 0 target unknown) ↔
      (filled input 0 target unknown).size = input.size := by
  refine ⟨Solves.size_eq, fun hsize => ⟨length_filled unknown, ?_, ?_, hsize⟩⟩
  · intro i entry hi hpos
    rw [getElem?_filled, hi, Option.map_some, entryExtent, if_neg (by omega), if_neg (by omega)]
  · intro i hi
    have hlt : i < input.length := Nat.zero_add i ▸ h.sources hi
    rw [getElem?_filled, hi, Shape.getElem?_eq_extentAt hlt, Nat.zero_add]
    rfl

/-- A solution is the pattern with some extent put in. -/
theorem Solves.exists_filled (hs : Solves target input s) (h : Admissible input 0 target)
    (hone : target.count (-1) ≤ 1) : ∃ unknown, s = filled input 0 target unknown := by
  -- Without a minus one it does not matter what is put in.
  refine ⟨s.extentAt (target.idxOf (-1)), ?_⟩
  apply List.ext_getElem?
  intro i
  rw [getElem?_filled]
  cases hi : target[i]? with
  | none =>
    have hge : target.length ≤ i := List.getElem?_eq_none_iff.mp hi
    exact List.getElem?_eq_none (hs.length_eq ▸ hge)
  | some entry =>
    have hlt : i < s.length := hs.length_eq ▸ (List.getElem?_eq_some_iff.mp hi).1
    rw [Option.map_some, entryExtent, Nat.zero_add]
    by_cases hopen : entry = -1
    · obtain rfl := hopen
      have hfound : target[target.idxOf (-1)]? = some (-1) :=
        List.getElem?_idxOf (List.mem_of_getElem? hi)
      rw [if_pos rfl, eq_of_getElem? hone hfound hi, Shape.getElem?_eq_extentAt hlt]
    · rw [if_neg hopen]
      by_cases hzero : entry = 0
      · obtain rfl := hzero
        have hsource : i < input.length := Nat.zero_add i ▸ h.sources hi
        rw [if_pos rfl, hs.copied hi, Shape.getElem?_eq_extentAt hsource]
      · have hnonneg := h.entries entry (List.mem_of_getElem? hi) hopen
        rw [if_neg hzero, hs.given hi (by omega)]

/-! ### Resolution -/

/-- The elements of the input can be counted, and so can those of the target, where a one stands for the
open extent. -/
structure Fits [Build] (target : List Int) (input : Shape) : Prop where
  input_fits : input.Fits
  known_fits : Shape.Fits (filled input 0 target 1)

/-- An extent in place of a one that makes no more elements than there are words. -/
theorem fits_set [Build] (hs : s.Fits) (hpos : 0 < s.size) {i : Nat} (hi : s[i]? = some 1)
    {unknown : Nat} (hlt : unknown * s.size < Word.limit) : Shape.Fits (s.set i unknown) := by
  obtain ⟨hlen, hget⟩ := List.getElem?_eq_some_iff.mp hi
  have hone : s.set i 1 = s := by rw [← hget, List.set_getElem_self]
  unfold Shape.Fits at hs ⊢
  cases hbuild : Build.overflow with
  | exact => trivial
  | wraps =>
    change Shape.size (s.set i unknown) < Word.limit
    rw [Shape.size_set hlen, hone]
    exact hlt
  | traps =>
    rw [hbuild] at hs
    intro k
    rw [List.take_set]
    by_cases hk : i < (s.take k).length
    · have hle := Nat.mul_le_mul_left unknown (Shape.size_take_le hpos k)
      rw [Shape.size_set hk, ← List.take_set, hone]
      exact Nat.lt_of_le_of_lt hle hlt
    · rw [List.set_eq_of_length_le (by omega)]
      exact hs k

/-- Where the elements can be counted, a target is resolved as if integers had no bound. -/
theorem resolveTarget_eq_exact [Build] (hone : target.count (-1) ≤ 1)
    (hfits : Build.Bounded → Fits target input) :
    resolveTarget target input = @resolveTarget ExactArithmetic.instBuild target input := by
  have hinput : Word.product input = .ok input.size :=
    Word.product_eq fun hbounded => (hfits hbounded).input_fits
  have hknown : Word.product (filled input 0 target 1) = .ok (filled input 0 target 1).size :=
    Word.product_eq fun hbounded => (hfits hbounded).known_fits
  rw [resolveTarget_exact]
  unfold resolveTarget
  cases hpattern : pattern input target with
  | error refusal => rfl
  | ok found =>
    have h : Admissible input 0 target := admissible_of_go hpattern
    by_cases hopen : -1 ∈ target
    · obtain ⟨i, hi⟩ := List.getElem?_of_mem hopen
      have hfound : found = (filled input 0 target 1, some i) := by
        rw [pattern, go_of_getElem? h hone hi, Nat.zero_add] at hpattern
        exact (Except.ok.inj hpattern).symm
      have hlt : i < (filled input 0 target 1).length := by
        rw [length_filled]
        exact (List.getElem?_eq_some_iff.mp hi).1
      subst hfound
      simp only [bind, Except.bind, hinput, hknown]
      by_cases hdivides : 0 < (filled input 0 target 1).size ∧
          input.size % (filled input 0 target 1).size = 0
      · have hdvd := Nat.dvd_of_mod_eq_zero hdivides.2
        have hout : Word.product ((filled input 0 target 1).set i
            (input.size / (filled input 0 target 1).size)) = .ok (Shape.size
              ((filled input 0 target 1).set i (input.size / (filled input 0 target 1).size))) := by
          refine Word.product_eq fun hbounded => ?_
          refine fits_set (hfits hbounded).known_fits hdivides.1 ?_ ?_
          · rw [getElem?_filled, hi]
            rfl
          · rw [Nat.div_mul_cancel hdvd]
            exact (hfits hbounded).input_fits.size_lt hbounded
        simp only [require, if_pos hdivides, quotient_eq hdivides.1, overwrite, if_pos hlt, hout]
      · simp only [require, if_neg hdivides]
        rfl
    · have hfound : found = (filled input 0 target 1, none) := by
        rw [pattern, go_of_not_mem h hopen] at hpattern
        exact (Except.ok.inj hpattern).symm
      subst hfound
      simp only [bind, Except.bind, hinput, hknown]

section Exact

open scoped ExactArithmetic

theorem resolveTarget_of_not_mem (h : Admissible input 0 target) (hclosed : -1 ∉ target) :
    resolveTarget target input = .ok out ↔
      (filled input 0 target 1).size = input.size ∧ out = filled input 0 target 1 := by
  have hpattern : pattern input target = .ok (filled input 0 target 1, none) :=
    go_of_not_mem h hclosed none
  rw [resolveTarget_exact, hpattern]
  change (do
    require (Shape.size (filled input 0 target 1) = input.size) _
    return filled input 0 target 1) = _ ↔ _
  rw [require_bind_eq_ok_iff]
  exact and_congr_right fun _ => ok_eq_ok_iff

theorem resolveTarget_of_getElem? (h : Admissible input 0 target) (hone : target.count (-1) ≤ 1)
    {i : Nat} (hi : target[i]? = some (-1)) :
    let known := (filled input 0 target 1).size
    resolveTarget target input = .ok out ↔
      0 < known ∧ known ∣ input.size ∧ out = filled input 0 target (input.size / known) := by
  intro known
  have hpattern : pattern input target = .ok (filled input 0 target 1, some i) := by
    rw [pattern, go_of_getElem? h hone hi, Nat.zero_add]
  have hlt : i < (filled input 0 target 1).length := by
    rw [length_filled]
    exact (List.getElem?_eq_some_iff.mp hi).1
  rw [resolveTarget_exact, hpattern]
  have hoverwrite (unknown : Nat) : overwrite (filled input 0 target 1) i unknown =
      .ok (filled input 0 target unknown) := by
    rw [overwrite, if_pos hlt, ← filled_eq_set hone hi]
  change (do
    require (0 < known ∧ input.size % known = 0) (.cannotInfer input.size target)
    let s ← overwrite (filled input 0 target 1) i (← quotient input.size known)
    require (Shape.size s = input.size) (.targetSize target (Shape.size s) input.size)
    return s) = _ ↔ _
  rw [require_bind_eq_ok_iff, and_assoc, ← Nat.dvd_iff_mod_eq_zero]
  refine and_congr_right fun hpos => and_congr_right fun hdvd => ?_
  rw [quotient_eq hpos]
  change (do
    let s ← overwrite (filled input 0 target 1) i (input.size / known)
    require (Shape.size s = input.size) _
    return s) = _ ↔ _
  rw [hoverwrite]
  change (do
    require (Shape.size (filled input 0 target (input.size / known)) = input.size) _
    return filled input 0 target (input.size / known)) = _ ↔ _
  -- The extent has been chosen for the sizes to agree.
  have hsize : (filled input 0 target (input.size / known)).size = input.size := by
    rw [size_filled hone hi, Nat.div_mul_cancel hdvd]
  rw [require_bind hsize]
  exact ok_eq_ok_iff

/-! ### Uniqueness -/

theorem solves_unique_of_not_mem (h : Admissible input 0 target) (hclosed : -1 ∉ target) :
    (∀ s, Solves target input s ↔ s = out) ↔
      (filled input 0 target 1).size = input.size ∧ out = filled input 0 target 1 := by
  have hone : target.count (-1) ≤ 1 := by
    rw [List.count_eq_zero.mpr hclosed]
    exact Nat.zero_le 1
  have hfilled {s : Shape} (hs : Solves target input s) : s = filled input 0 target 1 := by
    obtain ⟨unknown, rfl⟩ := hs.exists_filled h hone
    exact filled_of_not_mem hclosed unknown 1
  constructor
  · intro hunique
    have hout : Solves target input out := (hunique out).mpr rfl
    obtain rfl := hfilled hout
    exact ⟨hout.size_eq, rfl⟩
  · rintro ⟨hsize, rfl⟩ s
    refine ⟨hfilled, ?_⟩
    rintro rfl
    exact (solves_filled_iff h).mpr hsize

/-- With an open extent there is one solution if the known ones have elements and divide the input.
Without elements there are none, or one for every extent. -/
theorem solves_unique_of_getElem? (h : Admissible input 0 target) (hone : target.count (-1) ≤ 1)
    {i : Nat} (hi : target[i]? = some (-1)) :
    let known := (filled input 0 target 1).size
    (∀ s, Solves target input s ↔ s = out) ↔
      0 < known ∧ known ∣ input.size ∧ out = filled input 0 target (input.size / known) := by
  intro known
  have hsolves (unknown : Nat) : Solves target input (filled input 0 target unknown) ↔
      unknown * known = input.size := by
    rw [solves_filled_iff h, size_filled hone hi]
  constructor
  · intro hunique
    have hout : Solves target input out := (hunique out).mpr rfl
    obtain ⟨unknown, rfl⟩ := hout.exists_filled h hone
    have hsize : unknown * known = input.size := (hsolves unknown).mp hout
    have hpos : 0 < known := by
      apply Nat.pos_of_ne_zero
      intro hzero
      -- The next extent would do as well.
      have hnext : (unknown + 1) * known = input.size := by
        rw [← hsize, hzero, Nat.mul_zero, Nat.mul_zero]
      have heq := (hunique _).mp ((hsolves (unknown + 1)).mpr hnext)
      have hentry := congrArg (fun s : Shape => s[i]?) heq
      rw [getElem?_filled, getElem?_filled, hi] at hentry
      exact Nat.succ_ne_self unknown (Option.some.inj hentry)
    refine ⟨hpos, Dvd.intro_left unknown hsize, ?_⟩
    rw [← hsize, Nat.mul_div_cancel unknown hpos]
  · rintro ⟨hpos, hdvd, rfl⟩ s
    constructor
    · intro hs
      obtain ⟨unknown, rfl⟩ := hs.exists_filled h hone
      rw [← (hsolves unknown).mp hs, Nat.mul_div_cancel unknown hpos]
    · rintro rfl
      exact (hsolves _).mpr (Nat.div_mul_cancel hdvd)

theorem determines_iff : Determines target input out ↔
    Admissible input 0 target ∧ ∀ s, Solves target input s ↔ s = out := by
  constructor
  · rintro ⟨hentries, hsources, hunique⟩
    exact ⟨⟨hentries, fun hi => by simpa using hsources hi⟩, hunique⟩
  · rintro ⟨⟨hentries, hsources⟩, hunique⟩
    exact ⟨hentries, fun hi => by simpa using hsources hi, hunique⟩

/-- A target is resolved exactly to the shape that it determines. -/
theorem resolveTarget_eq_ok_iff (hone : target.count (-1) ≤ 1) :
    resolveTarget target input = .ok out ↔ Determines target input out := by
  rw [determines_iff]
  by_cases h : Admissible input 0 target
  · rw [and_iff_right h]
    by_cases hopen : -1 ∈ target
    · obtain ⟨i, hi⟩ := List.getElem?_of_mem hopen
      exact (resolveTarget_of_getElem? h hone hi).trans (solves_unique_of_getElem? h hone hi).symm
    · exact (resolveTarget_of_not_mem h hopen).trans (solves_unique_of_not_mem h hopen).symm
  · refine iff_of_false ?_ fun hadmissible => h hadmissible.1
    intro hok
    obtain ⟨⟨known, open?⟩, hpattern, _⟩ := bind_eq_ok_iff.mp hok
    exact h (admissible_of_go hpattern)

end Exact

end Reshape

namespace Graph

variable {g : Graph} {ids : List TensorId} {d : Reshape} {x : TensorType}

section Solutions

variable [Build]

theorem infer_reshape (htypes : g.typesOf? ids = some [x]) :
    g.infer (.reshape d) ids = Inference.within .reshape [x] (do
      let out ← Reshape.resolveTarget d.target x.shape
      return ⟨.reshape { d with resolved := out }, [⟨out, x.dtype⟩]⟩) := by
  have hwrap : Operator.Wraps Operator.reshape := ⟨fun _ _ => rfl, fun _ _ hole => hole⟩
  have hshapes (d' : Reshape) : Family.outShapes d' [x] =
      (do return [← Reshape.resolveTarget d'.target x.shape >>= pure]) := by
    rw [bind_pure]
    rfl
  exact infer_eq_of_resolved_again hwrap htypes rfl
    (f := fun given : Reshape => Reshape.resolveTarget given.target x.shape)
    (s := fun given resolved => { given with resolved }) rfl (fun _ => rfl) hshapes fun _ => rfl

end Solutions

section

open scoped WrappingArithmetic

/-- A matrix, and one without columns. -/
def withoutColumns : Graph := (ofCalls [.tensor ⟨[3, 4], .float32⟩, .tensor ⟨[3, 0], .float32⟩]).1

/-- A row without elements. -/
def hollowRow : Graph := (ofCalls [.tensor ⟨[0], .float32⟩]).1

end

end Graph

end DataflowCost
