import DataflowCost.Families.Concat
import DataflowCost.Families.Slice
import DataflowCost.Proofs.Families.Basic

/-! Families that join, cut, repeat and pad along axes. What they read at an axis is there because
each axis is resolved against the shape that is read. -/
namespace DataflowCost

open Inference Family

variable {hole : Prop}

/-- An entry of a list that is numbered from zero, and its number. -/
theorem mem_and_lt_of_mem_zipIdx {α : Type} {xs : List α} {a : α} {i : Nat}
    (h : (a, i) ∈ xs.zipIdx) : a ∈ xs ∧ i < xs.length := by
  have hget : xs[i]? = some a := List.mk_mem_zipIdx_iff_getElem?.mp h
  exact ⟨List.mem_of_getElem? hget, (List.getElem?_eq_some_iff.mp hget).1⟩

namespace Concat

theorem meets_matchExtents (axis : Nat) (found first : Shape) :
    Meets (matchExtents axis found first) hole fun _ => True := by
  refine meets_forM ?_
  intro p _
  exact (meets_require _ _).imp fun _ _ => trivial

theorem meets_joined [Build] (hbound : Build.Bounded → hole) {axis : Nat} {first : Shape}
    (haxis : axis < first.length) (extent : Nat) (shapes : List Shape) :
    Meets (joined axis first extent shapes) hole fun _ => True := by
  induction shapes generalizing extent with
  | nil => exact meets_ok trivial
  | cons s rest ih =>
    -- A shape of the same rank as the first has the axis too.
    refine (meets_require _ _).bind ?_
    intro _ hlen
    refine (meets_matchExtents axis s first).bind ?_
    intro _ _
    refine (meets_entry (hlen ▸ haxis)).bind ?_
    intro more _
    refine (Word.meets_add hbound extent more).bind ?_
    intro extent _
    exact ih extent

theorem meets_general [Build] (hbound : Build.Bounded → hole) (d : Concat) (first : Shape)
    (rest : List Shape) :
    Meets (outShape.general d (first :: rest)) hole fun _ => True := by
  refine (Axis.meets_resolve d.axis first.length).bind ?_
  intro axis haxis
  refine (meets_entry haxis).bind ?_
  intro extent _
  refine (meets_joined hbound haxis extent rest).bind ?_
  intro extent _
  exact meets_ok trivial

theorem meets_outShape [Build] (hbound : Build.Bounded → hole) (d : Concat) (first : Shape)
    (rest : List Shape) : Meets (d.outShape (first :: rest)) hole fun _ => True := by
  unfold outShape
  split
  next a b _ =>
    refine (Word.meets_product hbound a).bind ?_
    intro size _
    by_cases ha : size = 0
    · rw [if_pos ha]
      exact meets_ok trivial
    · rw [if_neg ha]
      refine (Word.meets_product hbound b).bind ?_
      intro size _
      by_cases hb : size = 0
      · rw [if_pos hb]
        exact meets_ok trivial
      · rw [if_neg hb]
        exact meets_general hbound d first rest
  next => exact meets_general hbound d first rest

end Concat

instance [Build] : LawfulFamily Concat where
  prepare_meets d inputs h := by
    obtain ⟨x, rest, rfl⟩ := Arity.exists_cons_of_accepts h (Nat.le_refl 1)
    exact (Axis.meets_resolve d.axis x.rank).bind fun _ _ => meets_ok ⟨rfl, trivial⟩
  outShapes_meets d inputs h _ := by
    obtain ⟨x, rest, rfl⟩ := Arity.exists_cons_of_accepts h (Nat.le_refl 1)
    exact meets_single rfl (Concat.meets_outShape .inr d x.shape (rest.map TensorType.shape))
      fun _ _ _ => ⟨fun _ => ⟨_, rfl⟩, ⟨_, rfl⟩⟩

namespace Split

/-- The axis falls into as many pieces as are asked for, and into one at least. -/
theorem meets_extents [Build] (hbound : Build.Bounded → hole) (pieces : Pieces) (extent : Nat) :
    Meets (extents pieces extent) hole fun es => es.length = pieces.count ∧ es ≠ [] := by
  cases pieces with
  | equal count =>
    refine (meets_require _ _).bind ?_
    intro _ hpos
    refine (meets_quotient fun hz => absurd hz (Nat.ne_of_gt hpos)).bind ?_
    intro piece _
    refine meets_ok ⟨?_, by simp⟩
    simp only [List.length_append, List.length_replicate, List.length_singleton, Pieces.count]
    omega
  | ratio parts =>
    refine (Word.meets_sum hbound parts).self.bind ?_
    intro sum hsum
    refine (meets_require _ _).bind ?_
    rintro _ ⟨hpos, _⟩
    refine (meets_quotient fun hz => absurd hz (Nat.ne_of_gt hpos)).bind ?_
    intro unit _
    refine (meets_mapM (P := fun _ _ => True) fun part _ => Word.meets_mul hbound part unit).imp ?_
    intro es hes
    refine ⟨hes.length_eq.symm, ?_⟩
    rintro rfl
    obtain rfl := List.forall₂_nil_right_iff.mp hes
    exact Nat.ne_of_gt hpos (Except.ok.inj hsum).symm

theorem meets_outShapes [Build] (hbound : Build.Bounded → hole) (d : Split) (s : Shape) :
    Meets (d.outShapes s) hole fun shapes =>
      shapes.length = d.pieces.count ∧ shapes ≠ [] := by
  refine (Axis.meets_resolve d.axis s.length).bind ?_
  intro axis haxis
  refine (meets_entry haxis).bind ?_
  intro extent _
  refine (meets_extents hbound d.pieces extent).bind ?_
  rintro es ⟨hlen, hne⟩
  exact meets_ok ⟨by rw [List.length_map, hlen], by rwa [Ne, List.map_eq_nil_iff]⟩

end Split

instance [Build] : LawfulFamily Split where
  prepare_meets d inputs h := by
    obtain ⟨x, rest, rfl⟩ := Arity.exists_cons_of_accepts h (Nat.le_refl 1)
    exact (Axis.meets_resolve d.axis x.rank).bind fun _ _ => meets_ok ⟨rfl, trivial⟩
  outShapes_meets d inputs h _ := by
    obtain ⟨x, rest, rfl⟩ := Arity.exists_cons_of_accepts h (Nat.le_refl 1)
    refine (Split.meets_outShapes .inr d x.shape).imp ?_
    rintro shapes ⟨hlen, hne⟩
    obtain ⟨s, others, rfl⟩ := List.exists_cons_of_ne_nil hne
    exact describes_cons hlen fun _ _ _ => ⟨fun _ => ⟨_, rfl⟩, ⟨_, rfl⟩⟩

theorem Extend.meets_outShape [Build] (hbound : Build.Bounded → hole) (d : Extend) (s : Shape) :
    Meets (d.outShape s) hole fun _ => True := by
  refine (Axis.meets_resolve d.axis s.length).bind ?_
  intro axis haxis
  refine (Word.meets_add hbound d.num 1).bind ?_
  intro copies _
  refine (meets_entry haxis).bind ?_
  intro extent _
  exact (Word.meets_mul hbound extent copies).bind fun _ _ => meets_ok trivial

instance [Build] : LawfulFamily Extend where
  Resolved d inputs := ∀ x ∈ inputs.head?, d.resolved < x.rank
  prepare_meets d inputs h := by
    obtain ⟨x, rest, rfl⟩ := Arity.exists_cons_of_accepts h (Nat.le_refl 1)
    refine (Axis.meets_resolve d.axis x.rank).bind ?_
    intro position hposition
    exact meets_ok ⟨rfl, by simpa using hposition⟩
  outShapes_meets d inputs h hd := by
    obtain ⟨x, rest, rfl⟩ := Arity.exists_cons_of_accepts h (Nat.le_refl 1)
    obtain ⟨extent, hextent⟩ := exists_entry (hd x rfl)
    exact meets_single rfl (Extend.meets_outShape .inr d x.shape) fun _ _ _ =>
      ⟨fun _ => exists_bind rfl (exists_bind rfl (exists_bind hextent ⟨_, rfl⟩)), ⟨_, rfl⟩⟩

namespace Slice

theorem meets_resolveAxes (axes : Option (List Int)) (count rank : Nat) :
    Meets (resolveAxes axes count rank) hole fun named =>
      named.length = count ∧ ∀ axis ∈ named, axis < rank := by
  cases axes with
  | none =>
    refine (meets_require _ _).bind ?_
    intro _ hle
    refine meets_ok ⟨List.length_range, ?_⟩
    intro axis haxis
    exact Nat.lt_of_lt_of_le (List.mem_range.mp haxis) hle
  | some axes =>
    refine (meets_require _ _).bind ?_
    rintro _ rfl
    exact Axis.meets_resolveEach rank axes

theorem meets_resolveSteps (steps : Option (List Int)) (count : Nat) :
    Meets (resolveSteps steps count) hole fun resolved =>
      resolved.length = count ∧ ∀ step ∈ resolved, step ≠ 0 := by
  cases steps with
  | none =>
    refine meets_ok ⟨List.length_replicate, ?_⟩
    intro step hstep
    rw [List.eq_of_mem_replicate hstep]
    decide
  | some steps =>
    refine (meets_require _ _).bind ?_
    intro _ hlen
    refine (meets_require _ _).bind ?_
    intro _ hall
    refine meets_ok ⟨hlen, ?_⟩
    intro step hstep
    simpa using List.all_eq_true.mp hall step hstep

/-- One range for each axis, and none that stands still. -/
structure Advances (s : Shape) (ranges : List AxisRange) : Prop where
  length : ranges.length = s.length
  step_ne : ∀ r ∈ ranges, r.step ≠ 0

theorem meets_clampBound [Build] (hbound : Build.Bounded → hole) (bound : Int) (extent : Nat)
    (step : Int) : Meets (AxisRange.clampBound bound extent step) hole fun _ => True := by
  -- Only an extent that is negative as a word puts the limits out of order.
  have hmoved (bound : Int) : Meets (if 0 < step then Word.clamp 0 (Word.toSigned extent) bound
      else do Word.clamp (-1) (← Word.signed (Word.toSigned extent - 1)) bound)
      hole fun _ => True := by
    by_cases hstep : 0 < step
    · rw [if_pos hstep]
      exact Word.meets_clamp fun hlt => hbound (Word.bounded_of_toSigned_lt hlt)
    · rw [if_neg hstep]
      refine (Word.meets_signed hbound _).self.bind ?_
      intro last hlast
      refine Word.meets_clamp fun hlt => hbound ?_
      intro hexact
      rw [Word.signed, hexact] at hlast
      obtain rfl := Except.ok.inj hlast
      have hneg : Word.toSigned extent < 0 := by omega
      exact Word.bounded_of_toSigned_lt hneg hexact
  unfold AxisRange.clampBound
  by_cases hneg : bound < 0
  · rw [if_pos hneg]
    exact (Word.meets_signed hbound _).bind fun bound _ => hmoved bound
  · rw [if_neg hneg]
    exact hmoved bound

theorem meets_clamped [Build] (hbound : Build.Bounded → hole) (start stop step : Int)
    (extent : Nat) : Meets (AxisRange.clamped start stop step extent) hole fun r => r.step = step := by
  refine (meets_clampBound hbound start extent step).bind ?_
  intro start _
  refine (meets_clampBound hbound stop extent step).bind ?_
  intro stop _
  exact meets_ok rfl

/-- The length of a step that is not zero is not zero as a word either. -/
theorem meets_count [Build] (hbound : Build.Bounded → hole) {r : AxisRange} (h : r.step ≠ 0) :
    Meets r.count hole fun _ => True := by
  refine (Word.meets_signed hbound _).bind ?_
  intro span _
  refine (Word.meets_signed hbound r.step.natAbs).self.bind ?_
  intro step hstep
  refine (Word.meets_signed hbound (span + step)).bind ?_
  intro reach _
  refine (Word.meets_signed hbound (reach - 1)).bind ?_
  intro reach _
  by_cases hzero : step = 0
  · rw [if_pos hzero]
    refine meets_fault (hbound ?_)
    intro hexact
    rw [Word.signed, hexact] at hstep
    obtain rfl := Except.ok.inj hstep
    omega
  · rw [if_neg hzero]
    exact meets_ok trivial

theorem advances_full [Build] (s : Shape) : Advances s (s.map AxisRange.full) where
  length := List.length_map ..
  step_ne r hr := by
    obtain ⟨extent, _, rfl⟩ := List.mem_map.mp hr
    exact Int.one_ne_zero

theorem Advances.meets_placeAt [Build] (hbound : Build.Bounded → hole) {s : Shape}
    {starts ends steps : List Int} {ranges : List AxisRange} {axis i : Nat} (h : Advances s ranges)
    (haxis : axis < s.length) (hstart : i < starts.length) (hend : i < ends.length)
    (hstep : i < steps.length) (hsteps : ∀ step ∈ steps, step ≠ 0) :
    Meets (placeAt s starts ends steps ranges axis i) hole (Advances s) := by
  refine (meets_entry haxis).bind ?_
  intro extent _
  refine (meets_entry hstart).bind ?_
  intro start _
  refine (meets_entry hend).bind ?_
  intro stop _
  refine (meets_entry hstep).bind ?_
  intro step hget
  refine (meets_clamped hbound start stop step extent).bind ?_
  intro range hrange
  refine (meets_overwrite (h.length ▸ haxis)).imp ?_
  rintro _ rfl
  refine ⟨by rw [List.length_set, h.length], ?_⟩
  -- A range is an old one or the one put in, whose step is one of those checked.
  intro r hr
  rcases List.mem_or_eq_of_mem_set hr with hr | rfl
  · exact h.step_ne r hr
  · exact hrange ▸ hsteps step (List.mem_of_getElem? hget)

theorem meets_resolveRanges [Build] (hbound : Build.Bounded → hole) (d : Slice) (s : Shape) :
    Meets (d.resolveRanges s) hole (Advances s) := by
  refine (meets_require _ _).bind ?_
  intro _ hends
  refine (meets_resolveAxes d.axes d.starts.length s.length).bind ?_
  rintro axes ⟨haxes, hlt⟩
  refine (meets_resolveSteps d.steps d.starts.length).bind ?_
  rintro steps ⟨hsteps, hne⟩
  refine meets_foldlM (advances_full s) ?_
  rintro ranges hranges ⟨axis, i⟩ hmem
  obtain ⟨haxis, hi⟩ := mem_and_lt_of_mem_zipIdx hmem
  exact hranges.meets_placeAt hbound (hlt axis haxis) (by omega) (by omega) (by omega) hne

theorem meets_outShape [Build] (hbound : Build.Bounded → hole) (d : Slice) (s : Shape) :
    Meets (d.outShape s) hole fun _ => True := by
  refine (meets_resolveRanges hbound d s).bind ?_
  intro ranges hranges
  refine (meets_mapM (P := fun _ _ => True) ?_).imp fun _ _ => trivial
  intro r hr
  exact meets_count hbound (hranges.step_ne r hr)

end Slice

instance [Build] : LawfulFamily Slice where
  prepare_meets d inputs h := by
    obtain ⟨x, rest, rfl⟩ := Arity.exists_cons_of_accepts h (Nat.le_refl 1)
    exact (Slice.meets_resolveRanges id d x.shape).bind fun _ _ => meets_ok ⟨rfl, trivial⟩
  outShapes_meets d inputs h _ := by
    obtain ⟨x, rest, rfl⟩ := Arity.exists_cons_of_accepts h (Nat.le_refl 1)
    exact meets_single rfl (Slice.meets_outShape .inr d x.shape)
      fun _ _ _ => ⟨fun _ => ⟨_, rfl⟩, ⟨_, rfl⟩⟩

namespace Pad

theorem meets_placeAt {rank count : Nat} {pads out : List Nat} {axis i : Nat}
    (hpads : pads.length = 2 * count) (hout : out.length = 2 * rank) (haxis : axis < rank)
    (hi : i < count) :
    Meets (placeAt rank count pads out axis i) hole fun out => out.length = 2 * rank := by
  refine (meets_entry (by omega)).bind ?_
  intro before _
  refine (meets_overwrite (by omega)).bind ?_
  rintro _ rfl
  refine (meets_entry (by omega)).bind ?_
  intro behind _
  refine (meets_overwrite (by rw [List.length_set]; omega)).imp ?_
  rintro _ rfl
  rw [List.length_set, List.length_set, hout]

theorem meets_resolvePads (d : Pad) (rank : Nat) :
    Meets (d.resolvePads rank) hole fun pads => pads.length = 2 * rank := by
  refine (meets_require _ _).bind ?_
  intro _ _
  cases d.axes with
  | none =>
    refine (meets_require _ _).bind ?_
    intro _ hlen
    exact meets_ok hlen
  | some axes =>
    refine (meets_require _ _).bind ?_
    intro _ hlen
    refine (Axis.meets_resolveEach rank axes).bind ?_
    rintro named ⟨hnamed, hlt⟩
    refine meets_foldlM List.length_replicate ?_
    rintro out hout ⟨axis, i⟩ hmem
    obtain ⟨haxis, hi⟩ := mem_and_lt_of_mem_zipIdx hmem
    exact meets_placeAt hlen hout (hlt axis haxis) (hnamed ▸ hi)

theorem meets_outShape [Build] (hbound : Build.Bounded → hole) (d : Pad) (s : Shape) :
    Meets (d.outShape s) hole fun _ => True := by
  refine (d.meets_resolvePads s.length).bind ?_
  intro pads hpads
  refine (meets_mapM (P := fun _ _ => True) ?_).imp fun _ _ => trivial
  rintro ⟨extent, axis⟩ hmem
  obtain ⟨_, haxis⟩ := mem_and_lt_of_mem_zipIdx hmem
  refine (meets_entry (by omega)).bind ?_
  intro before _
  refine (Word.meets_add hbound extent before).bind ?_
  intro begun _
  refine (meets_entry (by omega)).bind ?_
  intro behind _
  exact Word.meets_add hbound begun behind

end Pad

/-- The two ends of an axis lie in the two halves of the pads. -/
theorem Pad.exists_totals (resolved : List Nat) : ∃ totals, Pad.totals? resolved = some totals := by
  refine mapM_eq_some_of_forall ?_
  intro axis haxis
  have hlt := List.mem_range.mp haxis
  obtain ⟨before, hbefore⟩ : ∃ before, resolved[axis]? = some before := exists_entry (by omega)
  obtain ⟨behind, hbehind⟩ : ∃ behind, resolved[axis + resolved.length / 2]? = some behind :=
    exists_entry (by omega)
  exact exists_bind hbefore (exists_bind hbehind ⟨_, rfl⟩)

instance [Build] : LawfulFamily Pad where
  prepare_meets d inputs h := by
    obtain ⟨x, rest, rfl⟩ := Arity.exists_cons_of_accepts h (Nat.le_refl 1)
    exact (d.meets_resolvePads x.rank).bind fun _ _ => meets_ok ⟨rfl, trivial⟩
  outShapes_meets d inputs h _ := by
    obtain ⟨x, rest, rfl⟩ := Arity.exists_cons_of_accepts h (Nat.le_refl 1)
    obtain ⟨totals, htotals⟩ := Pad.exists_totals d.resolved
    exact meets_single rfl (Pad.meets_outShape .inr d x.shape) fun _ _ _ =>
      ⟨fun _ => exists_bind rfl (exists_bind rfl (exists_bind htotals ⟨_, rfl⟩)), ⟨_, rfl⟩⟩

end DataflowCost
