import DataflowCost.Proofs.AxisLists
import DataflowCost.Proofs.Reachable
import DataflowCost.Proofs.Resizing

/-! The order in which a resize lists its axes. No axis is turned down for having been listed before; the
entries are written one after the other, so that the order counts as soon as two entries for one axis differ. -/
namespace DataflowCost

open Inference
open scoped ExactArithmetic

namespace Resize

/-- Entries for one axis have the same factor. -/
def Agree {ρ : Type} (entries : List (Nat × ρ)) : Prop :=
  ∀ ⦃axis factor other⦄, (axis, factor) ∈ entries → (axis, other) ∈ entries → factor = other

theorem Agree.of_carries {ρ : Type} {entries entries' : List (Nat × ρ)} {σ : Equiv.Perm Nat}
    (h : Agree entries) (hmoved : Carries σ entries entries') : Agree entries' := by
  intro axis factor other hfactor hother
  exact h (hmoved.mem_iff.mp hfactor) (hmoved.mem_iff.mp hother)

/-- Entries agree if positions that list one axis hold one factor. -/
theorem agree_zip_iff {ρ : Type} {named : List Nat} {factors : List ρ} :
    Agree (named.zip factors) ↔ ∀ {i j : Nat} {axis : Int} {v w : ρ},
      (named.map Nat.cast)[i]? = some axis → (named.map Nat.cast)[j]? = some axis →
      factors[i]? = some v → factors[j]? = some w → v = w := by
  constructor
  · intro h i j axis v w hi hj hv hw
    rw [List.getElem?_map, Option.map_eq_some_iff] at hi hj
    obtain ⟨a, ha, rfl⟩ := hi
    obtain ⟨b, hb, heq⟩ := hj
    obtain rfl : b = a := Int.ofNat.inj heq
    exact h (List.mem_of_getElem? (List.getElem?_zip_eq_some.mpr ⟨ha, hv⟩))
      (List.mem_of_getElem? (List.getElem?_zip_eq_some.mpr ⟨hb, hw⟩))
  · intro h axis v w hmem hmem'
    obtain ⟨i, hi⟩ := List.getElem?_of_mem hmem
    obtain ⟨j, hj⟩ := List.getElem?_of_mem hmem'
    obtain ⟨haxis, hv⟩ := List.getElem?_zip_eq_some.mp hi
    obtain ⟨haxis', hw⟩ := List.getElem?_zip_eq_some.mp hj
    have hat : (named.map Nat.cast)[i]? = some (axis : Int) := by
      rw [List.getElem?_map, haxis, Option.map_some]
    have hat' : (named.map Nat.cast)[j]? = some (axis : Int) := by
      rw [List.getElem?_map, haxis', Option.map_some]
    exact h hat hat' hv hw

section Entries

variable {ρ : Type} [ScaleFactor ρ] {entries entries' : List (Nat × ρ)} {axis : Nat} {factor : ρ}

theorem factorAt_concat (entries : List (Nat × ρ)) (a : Nat) (factor : ρ) (axis : Nat) :
    factorAt (entries ++ [(a, factor)]) axis = if axis = a then factor else factorAt entries axis := by
  rw [factorAt, List.reverse_append, List.reverse_singleton, List.singleton_append, List.lookup_cons]
  by_cases h : axis = a
  · rw [if_pos h, beq_iff_eq.mpr h]
    rfl
  · rw [if_neg h, beq_eq_false_iff_ne.mpr h]
    rfl

/-- The factor at an axis is that of the last entry for it. -/
theorem exists_last (h : (axis, factor) ∈ entries) :
    ∃ k : Nat, entries[k]? = some (axis, factorAt entries axis) ∧
      ∀ (j : Nat) (other : ρ), k < j → entries[j]? ≠ some (axis, other) := by
  induction entries using List.reverseRecOn with
  | nil => cases h
  | append_singleton entries e ih =>
    obtain ⟨a, f⟩ := e
    rw [factorAt_concat]
    by_cases heq : axis = a
    · subst heq
      refine ⟨entries.length, by rw [if_pos rfl, List.getElem?_concat_length], fun j other hj => ?_⟩
      rw [List.getElem?_eq_none (by rw [List.length_append, List.length_singleton]; omega)]
      exact nofun
    · have hmem : (axis, factor) ∈ entries := by
        refine (List.mem_append.mp h).resolve_right fun hlast => heq ?_
        exact congrArg Prod.fst (List.mem_singleton.mp hlast)
      obtain ⟨k, hk, hlast⟩ := ih hmem
      have hlt : k < entries.length := (List.getElem?_eq_some_iff.mp hk).1
      refine ⟨k, by rw [if_neg heq, List.getElem?_append_left hlt, hk], fun j other hj hother => ?_⟩
      by_cases hjlt : j < entries.length
      · rw [List.getElem?_append_left hjlt] at hother
        exact hlast j other hj hother
      · rw [List.getElem?_append_right (Nat.not_lt.mp hjlt)] at hother
        exact heq (congrArg Prod.fst (List.mem_singleton.mp (List.mem_of_getElem? hother)))

theorem factorAt_eq_of_last {k : Nat} (hk : entries[k]? = some (axis, factor))
    (hlast : ∀ (j : Nat) (other : ρ), k < j → entries[j]? ≠ some (axis, other)) :
    factorAt entries axis = factor := by
  obtain ⟨k', hk', hlast'⟩ := exists_last (List.mem_of_getElem? hk)
  obtain rfl : k = k' := by
    rcases Nat.lt_trichotomy k k' with hlt | heq | hlt
    · exact absurd hk' (hlast k' _ hlt)
    · exact heq
    · exact absurd hk (hlast' k _ hlt)
  exact (congrArg Prod.snd (Option.some.inj (hk.symm.trans hk'))).symm

theorem Agree.factorAt_eq (h : Agree entries) (hmem : (axis, factor) ∈ entries) :
    factorAt entries axis = factor := by
  obtain ⟨k, hk, _⟩ := exists_last hmem
  exact h (List.mem_of_getElem? hk) hmem

/-- Entries that agree leave the same factors in any order. -/
theorem Agree.factorAt_carries {σ : Equiv.Perm Nat} (h : Agree entries)
    (hmoved : Carries σ entries entries') (axis : Nat) :
    factorAt entries' axis = factorAt entries axis := by
  by_cases hmem : ∃ factor, (axis, factor) ∈ entries
  · obtain ⟨factor, hfactor⟩ := hmem
    rw [h.factorAt_eq hfactor, (h.of_carries hmoved).factorAt_eq (hmoved.mem_iff.mpr hfactor)]
  · rw [factorAt_of_not_mem fun factor hfactor => hmem ⟨factor, hfactor⟩,
      factorAt_of_not_mem fun factor hfactor => hmem ⟨factor, hmoved.mem_iff.mp hfactor⟩]

/-- Where two entries for one axis differ, one of them can change places with the last one and leave another
factor there. The list of axes remains the same. -/
theorem exists_reordered {axes : List Nat} {factors : List ρ} (h : ¬ Agree (axes.zip factors)) :
    ∃ σ factors' axis, Carries σ axes axes ∧ Carries σ factors factors' ∧ axis ∈ axes ∧
      factorAt (axes.zip factors') axis ≠ factorAt (axes.zip factors) axis := by
  simp only [Agree, not_forall] at h
  obtain ⟨axis, first, second, hfirst, hsecond, hne⟩ := h
  obtain ⟨k, hk, hlast⟩ := exists_last hfirst
  obtain ⟨f, hmem, hf⟩ : ∃ f, (axis, f) ∈ axes.zip factors ∧
      f ≠ factorAt (axes.zip factors) axis := by
    by_cases heq : first = factorAt (axes.zip factors) axis
    · exact ⟨second, hsecond, fun heq' => hne (heq.trans heq'.symm)⟩
    · exact ⟨first, hfirst, heq⟩
  obtain ⟨i, hi⟩ := List.getElem?_of_mem hmem
  have hik : i ≠ k := by
    rintro rfl
    exact hf (congrArg Prod.snd (Option.some.inj (hi.symm.trans hk)))
  generalize hkeeps : factorAt (axes.zip factors) axis = kept at hk hf
  obtain ⟨haxis, hfactor⟩ := List.getElem?_zip_eq_some.mp hi
  obtain ⟨haxis', hkept⟩ := List.getElem?_zip_eq_some.mp hk
  have hilt : i < factors.length := (List.getElem?_eq_some_iff.mp hfactor).1
  have hklt : k < factors.length := (List.getElem?_eq_some_iff.mp hkept).1
  have haxes : Carries (Equiv.swap i k) axes axes :=
    Carries.exchange (haxis.trans haxis'.symm) (haxis'.trans haxis.symm) fun _ _ _ => rfl
  have hfactors : Carries (Equiv.swap i k) factors ((factors.set i kept).set k f) := by
    refine Carries.exchange ?_ ?_ fun j hji hjk => ?_
    · rw [List.getElem?_set_ne (Ne.symm hik), List.getElem?_set_self hilt, hkept]
    · rw [List.getElem?_set_self (by rwa [List.length_set]), hfactor]
    · rw [List.getElem?_set_ne (Ne.symm hjk), List.getElem?_set_ne (Ne.symm hji)]
  refine ⟨_, _, axis, haxes, hfactors, List.mem_of_getElem? haxis, ?_⟩
  have hentries := haxes.zip hfactors
  have hnew : factorAt (axes.zip ((factors.set i kept).set k f)) axis = f := by
    refine factorAt_eq_of_last (k := k) ?_ fun j other hj => ?_
    · have hat := hentries i
      rw [Equiv.swap_apply_left] at hat
      exact hat.trans hi
    · -- No entry for the axis stands behind the last one, neither before nor after.
      have hji : j ≠ i := by
        rintro rfl
        exact hlast j f hj hi
      have hat := hentries j
      rw [Equiv.swap_apply_of_ne_of_ne hji (Nat.ne_of_gt hj)] at hat
      rw [hat]
      exact hlast j other hj
  rwa [hnew, hkeeps]

end Entries

section Axes

variable {d : Resize Float32} {rank count : Nat} {axes : List Int} {named named' : List Nat}
  {s : Shape} {types : List TensorType} {σ : Equiv.Perm Nat}

/-- Listed axes are positions as they stand. -/
theorem resolveAxes_some_eq_ok_iff : resolveAxes (some axes) rank count = .ok named ↔
    count = axes.length ∧ axes = named.map Nat.cast ∧ ∀ axis ∈ named, axis < rank := by
  have hentry (axis : Int) (position : Nat) : (if axis < 0 then unsupported .negativeResizeAxes
      else if axis < rank then .ok axis.toNat
      else invalid (.axisOutOfRange axis rank) : Inference Nat) = .ok position ↔
        position < rank ∧ axis = position := by
    by_cases hneg : axis < 0
    · rw [if_pos hneg]
      exact ⟨nofun, fun h => by omega⟩
    · rw [if_neg hneg]
      by_cases hlt : axis < rank
      · rw [if_pos hlt, Except.ok.injEq]
        omega
      · rw [if_neg hlt]
        exact ⟨nofun, fun h => by omega⟩
  unfold resolveAxes
  rw [require_bind_eq_ok_iff, mapM_eq_ok_iff]
  refine and_congr_right fun _ => ?_
  simp only [hentry]
  constructor
  · intro h
    obtain ⟨hlt, hsame⟩ := (List.forall₂_and_left _ _).mp
      (show List.Forall₂ (fun (p : Nat) (a : Int) => p < rank ∧ a = p) named axes from h.flip)
    have heq : List.Forall₂ (· = ·) (named.map Nat.cast) axes :=
      List.forall₂_map_left_iff.mpr (hsame.imp fun _ _ => Eq.symm)
    rw [List.forall₂_eq_eq_eq] at heq
    exact ⟨heq.symm, hlt⟩
  · rintro ⟨rfl, hlt⟩
    exact List.forall₂_map_left_iff.mpr (List.forall₂_same.mpr fun p hp => ⟨hlt p hp, rfl⟩)

theorem axes_eq_of_checkShapes (haxes : d.axes = some axes)
    (h : d.checkShapes types = .ok (s, named)) : axes = named.map Nat.cast := by
  obtain ⟨_, _, _, _, _, _, hnamed, _⟩ := checkShapes_eq_ok_iff.mp h
  rw [haxes] at hnamed
  exact (resolveAxes_some_eq_ok_iff.mp hnamed).2.1

/-- Shapes pass with the axes in any order. -/
theorem checkShapes_of_carries (haxes : d.axes = some axes)
    (h : d.checkShapes types = .ok (s, named)) (hmoved : Carries σ named named') :
    checkShapes { d with axes := some (named'.map Nat.cast) } types = .ok (s, named') := by
  obtain ⟨x, parameter, count, hx, hparameter, hshape, hnamed, hregion, rfl⟩ :=
    checkShapes_eq_ok_iff.mp h
  rw [haxes] at hnamed
  obtain ⟨hcount, rfl, hlt⟩ := resolveAxes_some_eq_ok_iff.mp hnamed
  rw [List.length_map] at hcount
  refine checkShapes_eq_ok_iff.mpr ⟨x, parameter, count, hx, hparameter, hshape, ?_, ?_, rfl⟩
  · refine resolveAxes_some_eq_ok_iff.mpr ⟨?_, rfl, fun p hp => hlt p (hmoved.mem_iff.mp hp)⟩
    rw [List.length_map, hcount, hmoved.length_eq]
  · rw [hmoved.length_eq]
    exact hregion

/-- Factors that the host tells are put on their axes as they are. -/
theorem scales_resolvedBy (d : Resize Float32) (s : Shape) (named : List Nat)
    (htarget : d.target = .scales) (values : List Float32) :
    (d.resolvedBy s named (.reals values)).scales = placed s.length named values := by
  rw [resolvedBy, factors, htarget]
  rfl

end Axes

end Resize

/-- The scale factors that a resize resolved to, one for each axis. -/
def Operator.scales? : Operator → Option (List Float32)
  | resize d => some d.scales
  | _ => none

namespace Graph

variable {g : Graph} {ids : List TensorId} {types : List TensorType} {d : Resize Float32}
  {axes : List Int} {values : List Float32} {inferred : Inferred}

/-- The axes are listed in another order, and the host tells the scale factors in that order too. -/
def Reorders (g : Graph) (ids : List TensorId) (types : List TensorType) (axes : List Int)
    (values : List Float32) (axes' : List Int) : Prop :=
  ∃ σ values', Carries σ axes axes' ∧ Carries σ values values' ∧ g.Tells ids types (.reals values')

/-- What is inferred of a resize whose axes and scale factors are moved. -/
theorem Tells.infer_reordered [Build] {s : Shape} {named named' : List Nat} {values' : List Float32}
    {dtype : DType} {σ : Equiv.Perm Nat} (htells : g.Tells ids types (.reals values'))
    (htarget : d.target = .scales) (haxes : d.axes = some axes)
    (haccepts : (Family.arity d).accepts types.length) (hcheck : d.checkShapes types = .ok (s, named))
    (husable : d.Usable s named (.reals values)) (hdtype : d.outType types = .ok dtype)
    (hnamed : Carries σ named named') (hvalues : Carries σ values values') :
    ∃ op, g.infer (.resize { d with axes := some (named'.map Nat.cast) }) ids =
        .ok ⟨op, [⟨Resize.resized s (Resize.placed s.length named' values'), dtype⟩]⟩ ∧
      op.scales? = some (Resize.placed s.length named' values') := by
  let d' : Resize Float32 := { d with axes := some (named'.map Nat.cast) }
  have husable' : d'.Usable s named' (.reals values') := by
    obtain ⟨scales, hscales, hpositive⟩ := (Resize.usable_scales_iff htarget).mp husable
    obtain rfl := Option.some.inj hscales
    exact (Resize.usable_scales_iff htarget).mpr
      ⟨values', rfl, fun scale hscale => hpositive scale (hvalues.mem_iff.mp hscale)⟩
  have hshort : ¬ d'.RunsShort named' (.reals values') := by
    rintro ⟨hsizes, _⟩
    cases hsizes.symm.trans htarget
  have hscales := d'.scales_resolvedBy s named' htarget values'
  refine ⟨.resize (d'.resolvedBy s named' (.reals values')), htells.infer_resize_eq_ok_iff.mpr
    ⟨haccepts, s, named', dtype, Resize.checkShapes_of_carries haxes hcheck hnamed, husable', hshort,
      hdtype, ?_⟩, congrArg some hscales⟩
  rw [hscales]

/-- A resize by scale factors is accepted with its axes in any order. Every order resolves to the same scale
factors exactly when the entries for one axis have the same one. -/
theorem resize_order_iff [Build] (htarget : d.target = .scales) (haxes : d.axes = some axes)
    (htells : g.Tells ids types (.reals values))
    (h : g.infer (.resize d) ids = .ok inferred) :
    (∀ {g' : Graph} {ids' : List TensorId} {axes' : List Int},
      g'.Reorders ids' types axes values axes' →
      ∃ inferred', g'.infer (.resize { d with axes := some axes' }) ids' = .ok inferred') ∧
    ((∀ {g' : Graph} {ids' : List TensorId} {axes' : List Int} {inferred' : Inferred},
      g'.Reorders ids' types axes values axes' →
      g'.infer (.resize { d with axes := some axes' }) ids' = .ok inferred' →
        inferred'.op.scales? = inferred.op.scales? ∧ inferred'.outputs = inferred.outputs) ↔
      ∀ {i j : Nat} {axis : Int} {v w : Float32}, axes[i]? = some axis → axes[j]? = some axis →
        values[i]? = some v → values[j]? = some w → v = w) := by
  obtain ⟨haccepts, s, named, dtype, hcheck, husable, _, hdtype, rfl⟩ :=
    htells.infer_resize_eq_ok_iff.mp h
  obtain rfl := Resize.axes_eq_of_checkShapes haxes hcheck
  have hscales := d.scales_resolvedBy s named htarget values
  have hreordered {g' : Graph} {ids' : List TensorId} {σ : Equiv.Perm Nat} {named' : List Nat}
      {values' : List Float32} (htells' : g'.Tells ids' types (.reals values'))
      (hnamed : Carries σ named named') (hvalues : Carries σ values values') :=
    htells'.infer_reordered htarget haxes haccepts hcheck husable hdtype hnamed hvalues
  refine ⟨?_, ?_, ?_⟩
  · rintro g' ids' axes' ⟨σ, values', hmoved, hvalues, htells'⟩
    obtain ⟨named', rfl, hnamed⟩ := hmoved.exists_positions
    obtain ⟨op, hinfer, _⟩ := hreordered htells' hnamed hvalues
    exact ⟨_, hinfer⟩
  · intro hsame
    -- Two entries that differ could be moved so that another factor remains.
    refine Resize.agree_zip_iff.mp ?_
    by_contra hdiffer
    obtain ⟨σ, values', axis, hnamed, hvalues, haxis, hne⟩ := Resize.exists_reordered hdiffer
    have htells' := htells.withHost (.reals values')
    obtain ⟨op, hinfer, hop⟩ := hreordered htells' hnamed hvalues
    obtain ⟨heq, _⟩ := hsame ⟨σ, values', hnamed.map Nat.cast, hvalues, htells'⟩ hinfer
    have hplaced : Resize.placed s.length named values' = Resize.placed s.length named values := by
      rw [← hscales]
      exact Option.some.inj (hop.symm.trans heq)
    have hlt := checkShapes_lt haccepts hcheck axis haxis
    exact hne (List.map_inj_left.mp hplaced axis (List.mem_range.mpr hlt))
  · rintro hagree g' ids' axes' inferred' ⟨σ, values', hmoved, hvalues, htells'⟩ hinfer'
    obtain ⟨named', rfl, hnamed⟩ := hmoved.exists_positions
    obtain ⟨op, hinfer, hop⟩ := hreordered htells' hnamed hvalues
    obtain rfl := Except.ok.inj (hinfer.symm.trans hinfer')
    have hentries : Resize.Agree (named.zip values) := Resize.agree_zip_iff.mpr hagree
    have hplaced : Resize.placed s.length named' values' = Resize.placed s.length named values :=
      List.map_congr_left fun axis _ => hentries.factorAt_carries (hnamed.zip hvalues) axis
    rw [hplaced] at hop ⊢
    rw [hscales]
    exact ⟨hop.trans (congrArg some hscales.symm), rfl⟩

/-- Factors for two axes of a matrix, and the same ones the other way round. -/
def widened : Graph := (ofCalls [.tensor ⟨[2, 3], .float32⟩,
  .constant ⟨[2], .float32⟩ (.reals [2.0, 3.0]), .constant ⟨[2], .float32⟩ (.reals [3.0, 2.0])]).1

/-- Rows are doubled and columns are tripled, whichever axis is listed first. -/
theorem resize_order_iff_widened :
    let d : Resize Float32 := { target := .scales, axes := some [0, 1] }
    let types : List TensorType := [⟨[2, 3], .float32⟩, ⟨[2], .float32⟩]
    widened.Tells [⟨0⟩, ⟨1⟩] types (.reals [2.0, 3.0]) ∧
      widened.Reorders [⟨0⟩, ⟨2⟩] types [0, 1] [2.0, 3.0] [1, 0] ∧
      ∃ inferred inferred', widened.infer (.resize d) [⟨0⟩, ⟨1⟩] = .ok inferred ∧
        widened.infer (.resize { d with axes := some [1, 0] }) [⟨0⟩, ⟨2⟩] = .ok inferred' ∧
        inferred'.op.scales? = inferred.op.scales? ∧ inferred'.outputs = inferred.outputs := by
  intro d types
  have htells : widened.Tells [⟨0⟩, ⟨1⟩] types (.reals [2.0, 3.0]) := ⟨rfl, ⟨1⟩, _, rfl, rfl, rfl⟩
  have hreorders : widened.Reorders [⟨0⟩, ⟨2⟩] types [0, 1] [2.0, 3.0] [1, 0] :=
    ⟨_, _, .swap 0 1, .swap 2.0 3.0, rfl, ⟨2⟩, _, rfl, rfl, rfl⟩
  have husable : d.Usable [2, 3] [0, 1] (.reals [2.0, 3.0]) :=
    (Resize.usable_scales_iff rfl).mpr ⟨_, rfl, by decide⟩
  have hinfer := htells.infer_resize_resolved (d := d) rfl rfl husable fun h => nomatch h.1
  obtain ⟨haccepted, horder⟩ := resize_order_iff rfl rfl htells hinfer
  obtain ⟨inferred', hinfer'⟩ := haccepted hreorders
  refine ⟨htells, hreorders, _, inferred', hinfer, hinfer', horder.mpr ?_ hreorders hinfer'⟩
  intro i j axis v w hi hj hv hw
  obtain rfl : i = j := (List.getElem?_inj (List.getElem?_eq_some_iff.mp hi).1
    (by decide : [(0 : Int), 1].Nodup)).mp (hi.trans hj.symm)
  exact Option.some.inj (hv.symm.trans hw)

/-- Two factors for the one axis of a row, and the same ones the other way round. -/
def twiceScaled : Graph := (ofCalls [.tensor ⟨[4], .float32⟩,
  .constant ⟨[2], .float32⟩ (.reals [2.0, 3.0]), .constant ⟨[2], .float32⟩ (.reals [3.0, 2.0])]).1

/-- An axis that is listed twice has the factor listed last. -/
theorem resize_order_matters : ¬ ∀ (g : Graph) (d : Resize Float32) (ids ids' : List TensorId)
    (types : List TensorType) (axes axes' : List Int) (values : List Float32)
    (inferred inferred' : Inferred), d.target = .scales → d.axes = some axes →
    g.Tells ids types (.reals values) → g.Reorders ids' types axes values axes' →
    g.infer (.resize d) ids = .ok inferred →
    g.infer (.resize { d with axes := some axes' }) ids' = .ok inferred' →
    inferred'.op.scales? = inferred.op.scales? := by
  intro h
  let d : Resize Float32 := { target := .scales, axes := some [0, 0] }
  let types : List TensorType := [⟨[4], .float32⟩, ⟨[2], .float32⟩]
  have htells : twiceScaled.Tells [⟨0⟩, ⟨1⟩] types (.reals [2.0, 3.0]) := ⟨rfl, ⟨1⟩, _, rfl, rfl, rfl⟩
  have htells' : twiceScaled.Tells [⟨0⟩, ⟨2⟩] types (.reals [3.0, 2.0]) :=
    ⟨rfl, ⟨2⟩, _, rfl, rfl, rfl⟩
  have husable : d.Usable [4] [0, 0] (.reals [2.0, 3.0]) :=
    (Resize.usable_scales_iff rfl).mpr ⟨_, rfl, by decide⟩
  have husable' : d.Usable [4] [0, 0] (.reals [3.0, 2.0]) :=
    (Resize.usable_scales_iff rfl).mpr ⟨_, rfl, by decide⟩
  have hinfer := htells.infer_resize_resolved (d := d) rfl rfl husable fun h => nomatch h.1
  have hinfer' := htells'.infer_resize_resolved (d := d) rfl rfl husable' fun h => nomatch h.1
  have hsame := h twiceScaled d _ _ types _ _ _ _ _ rfl rfl htells
    ⟨_, _, .swap 0 0, .swap 2.0 3.0, htells'⟩ hinfer hinfer'
  exact absurd hsame (by decide)

end Graph

end DataflowCost
