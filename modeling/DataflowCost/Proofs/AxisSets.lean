import DataflowCost.Proofs.AxisEntries
import DataflowCost.Proofs.Resolution.Operators

/-! Operators that list axes. How the axes are ordered and named is lost when the list is resolved: what is
accepted, inferred and stored follows from the set of axes and the values that belong to them. -/
namespace DataflowCost

open Inference
open scoped ExactArithmetic

theorem Reduce.meets_axesOn {hole : Prop} (d : Reduce) (rank : Nat) :
    Meets (d.axesOn rank) hole fun _ => True := by
  refine (meets_require _ _).bind fun _ _ => ?_
  cases d.axes with
  | none => exact meets_ok trivial
  | some axes => exact (Axis.meets_resolveSet rank axes).imp fun _ _ => trivial

namespace Operator

/-- The second operator is the first one with its axes in another order and under other names. The values
that belong to an axis move with it. -/
inductive Relists (rank : Nat) (σ : Equiv.Perm Nat) : Operator → Operator → Prop
  | reduce {d : Reduce} {axes axes' : List Int} : d.axes = some axes →
      Axis.Respells rank σ axes axes' →
      Relists rank σ (.reduce d) (.reduce { d with axes := some axes' })
  | squeeze {d : Squeeze} {axes' : List Int} : Axis.Respells rank σ d.axes axes' →
      Relists rank σ (.squeeze d) (.squeeze { d with axes := axes' })
  /-- The axes are those of the output. -/
  | unsqueeze {d : Unsqueeze} {axes' : List Int} :
      Axis.Respells (rank + d.axes.length) σ d.axes axes' →
      Relists rank σ (.unsqueeze d) (.unsqueeze { d with axes := axes' })
  | slice {d : Slice} {axes axes' starts' ends' : List Int} {steps' : Option (List Int)} :
      d.axes = some axes → Axis.Respells rank σ axes axes' → Carries σ d.starts starts' →
      Carries σ d.ends ends' → Option.Rel (Carries σ) d.steps steps' →
      Relists rank σ (.slice d) (.slice { d with
        axes := some axes', starts := starts', ends := ends', steps := steps' })
  /-- Begin pads come before end pads, one of each for every axis. -/
  | pad {d : Pad} {axes axes' pads' : List Int} : d.axes = some axes →
      Axis.Respells rank σ axes axes' →
      Carries σ (d.pads.take axes.length) (pads'.take axes.length) →
      Carries σ (d.pads.drop axes.length) (pads'.drop axes.length) →
      Relists rank σ (.pad d) (.pad { d with axes := some axes', pads := pads' })

/-- The axes that an operator lists. -/
def axisList? : Operator → Option (List Int)
  | reduce d => d.axes
  | squeeze d => some d.axes
  | unsqueeze d => some d.axes
  | slice d => d.axes
  | pad d => d.axes
  | _ => none

/-- How many axes a list refers to: those of the input or, if axes are put in, those of the output. -/
def listedRank (rank : Nat) : Operator → Nat
  | unsqueeze d => rank + d.axes.length
  | _ => rank

/-- The first operator leaves out the axes that the second one lists in order. -/
inductive ListsLeading (rank : Nat) : Operator → Operator → Prop
  | reduce {d : Reduce} : d.axes = none →
      ListsLeading rank (.reduce d)
        (.reduce { d with axes := some ((List.range rank).map Nat.cast) })
  | slice {d : Slice} : d.axes = none →
      ListsLeading rank (.slice d)
        (.slice { d with axes := some ((List.range d.starts.length).map Nat.cast) })
  | pad {d : Pad} : d.axes = none →
      ListsLeading rank (.pad d) (.pad { d with axes := some ((List.range rank).map Nat.cast) })

end Operator

namespace Graph

variable {g : Graph} {ids : List TensorId} {x : TensorType}

/-- Both operators are accepted or neither is, and then their outputs are the same, their attributes resolve
to the same and nothing tells apart what is stored of them. -/
structure SameOutcome [Build] (g : Graph) (ids : List TensorId) (op op' : Operator) : Prop where
  accepted_iff : (∃ inferred, g.infer op ids = .ok inferred) ↔
    ∃ inferred, g.infer op' ids = .ok inferred
  agree : ∀ {inferred inferred' : Inferred}, g.infer op ids = .ok inferred →
    g.infer op' ids = .ok inferred' → inferred.outputs = inferred'.outputs ∧
      (∃ r, inferred.op.resolution? = some r ∧ inferred'.op.resolution? = some r) ∧
      inferred.op.Indistinguishable inferred'.op

/-- Definitions that resolve to the same have the same outcome. -/
theorem sameOutcome_of_resolved [Build] {β : Type} {op op' : Operator} {kind kind' : Kind}
    {types types' : List TensorType} {f f' : Inference β} {out out' : β → Inferred}
    {r : β → Resolution}
    (h : g.infer op ids = Inference.within kind types (do return out (← f)))
    (h' : g.infer op' ids = Inference.within kind' types' (do return out' (← f')))
    (hf : ∀ b, f = .ok b ↔ f' = .ok b) (hout : ∀ b, (out b).outputs = (out' b).outputs)
    (hr : ∀ b, (out b).op.resolution? = some (r b))
    (hr' : ∀ b, (out' b).op.resolution? = some (r b)) : g.SameOutcome ids op op' := by
  have hiff {inferred : Inferred} : g.infer op ids = .ok inferred ↔
      ∃ b, f = .ok b ∧ inferred = out b := by
    rw [h, within_eq_ok_iff, bind_eq_ok_iff]
    exact exists_congr fun b => and_congr_right fun _ => ok_eq_ok_iff
  have hiff' {inferred : Inferred} : g.infer op' ids = .ok inferred ↔
      ∃ b, f = .ok b ∧ inferred = out' b := by
    rw [h', within_eq_ok_iff, bind_eq_ok_iff]
    exact exists_congr fun b => and_congr (hf b).symm ok_eq_ok_iff
  refine ⟨⟨?_, ?_⟩, ?_⟩
  · rintro ⟨_, hinfer⟩
    obtain ⟨b, hb, _⟩ := hiff.mp hinfer
    exact ⟨_, hiff'.mpr ⟨b, hb, rfl⟩⟩
  · rintro ⟨_, hinfer⟩
    obtain ⟨b, hb, _⟩ := hiff'.mp hinfer
    exact ⟨_, hiff.mpr ⟨b, hb, rfl⟩⟩
  · intro inferred inferred' hinfer hinfer'
    obtain ⟨b, hb, rfl⟩ := hiff.mp hinfer
    obtain ⟨b', hb', rfl⟩ := hiff'.mp hinfer'
    obtain rfl := Except.ok.inj (hb.symm.trans hb')
    exact ⟨hout b, ⟨r b, hr b, hr' b⟩, Operator.indistinguishable_of_resolution (hr b) (hr' b)⟩

/-- The same where the shape of the output is computed from what the definitions resolve to. -/
theorem sameOutcome_of_shaped [Build] {β : Type} {op op' : Operator} {kind kind' : Kind}
    {types types' : List TensorType} {f f' : Inference β} {k : β → Inference Shape}
    {out out' : β → Shape → Inferred} {r : β → Resolution}
    (h : g.infer op ids = Inference.within kind types (do
      let b ← f
      return out b (← k b)))
    (h' : g.infer op' ids = Inference.within kind' types' (do
      let b ← f'
      return out' b (← k b)))
    (hf : ∀ b, f = .ok b ↔ f' = .ok b) (hout : ∀ b s, (out b s).outputs = (out' b s).outputs)
    (hr : ∀ b s, (out b s).op.resolution? = some (r b))
    (hr' : ∀ b s, (out' b s).op.resolution? = some (r b)) : g.SameOutcome ids op op' := by
  have hpair (f : Inference β) (out : β → Shape → Inferred) :
      (do
        let b ← f
        return out b (← k b)) = do
        let p ← (do
          let b ← f
          return (b, ← k b))
        return out p.1 p.2 := by
    simp only [bind_assoc, pure_bind]
  rw [hpair] at h h'
  refine sameOutcome_of_resolved (r := fun p => r p.1) h h' ?_ (fun p => hout p.1 p.2)
    (fun p => hr p.1 p.2) fun p => hr' p.1 p.2
  intro p
  rw [bind_eq_ok_iff, bind_eq_ok_iff]
  exact exists_congr fun b => and_congr_left fun _ => hf b

theorem infer_reduce_eq [Build] (d : Reduce) (htypes : g.typesOf? ids = some [x]) :
    g.infer (.reduce d) ids = Inference.within d.kind [x] (do
      let axes ← d.axesOn x.rank
      return ⟨.reduce { d with resolved := axes },
        [⟨Reduce.outShape { d with resolved := axes } x.shape, x.dtype⟩]⟩) := by
  have hwrap : Operator.Wraps Operator.reduce := ⟨fun _ _ => rfl, fun _ _ hole => hole⟩
  have hshapes (d : Reduce) : Family.outShapes d [x] =
      do return [← (.ok (d.outShape x.shape) : Inference Shape)] := rfl
  rw [infer_eq_of_outShape hwrap htypes rfl rfl rfl hshapes fun _ => rfl]
  change Inference.within d.kind [x] (d.resolve x.rank >>= fun d' =>
    .ok (Inferred.mk (.reduce d') [⟨d'.outShape x.shape, x.dtype⟩])) = _
  rw [d.resolve_eq, bind_assoc]
  rfl

theorem infer_slice_eq [Build] (d : Slice) (htypes : g.typesOf? ids = some [x]) :
    g.infer (.slice d) ids = Inference.within .slice [x] (do
      let ranges ← d.resolveRanges x.shape
      return ⟨.slice { d with ranges }, [⟨← ranges.mapM AxisRange.count, x.dtype⟩]⟩) := by
  have hwrap : Operator.Wraps Operator.slice := ⟨fun _ _ => rfl, fun _ _ hole => hole⟩
  exact infer_eq_of_resolved_again hwrap htypes rfl
    (f := fun given : Slice => given.resolveRanges x.shape)
    (s := fun given ranges => { given with ranges })
    (k := fun _ ranges => ranges.mapM AxisRange.count) rfl (fun _ => rfl) (fun _ => rfl) fun _ => rfl

theorem infer_pad_eq [Build] (d : Pad) (htypes : g.typesOf? ids = some [x]) :
    g.infer (.pad d) ids = Inference.within .pad [x] (do
      let pads ← d.resolvePads x.rank
      return ⟨.pad { d with resolved := pads }, [⟨← Pad.padded pads x.shape, x.dtype⟩]⟩) := by
  have hwrap : Operator.Wraps Operator.pad := ⟨fun _ _ => rfl, fun _ _ hole => hole⟩
  exact infer_eq_of_resolved_again hwrap htypes rfl
    (f := fun given : Pad => given.resolvePads x.rank)
    (s := fun given resolved => { given with resolved })
    (k := fun _ pads => Pad.padded pads x.shape) rfl (fun _ => rfl) (fun _ => rfl) fun _ => rfl

/-- Another order and other names of the axes change nothing. -/
theorem sameOutcome_of_relists [Build] (htypes : g.typesOf? ids = some [x]) {σ : Equiv.Perm Nat}
    {op op' : Operator} (h : op.Relists x.rank σ op') : g.SameOutcome ids op op' := by
  cases h with
  | @reduce d axes axes' haxes h =>
    refine sameOutcome_of_resolved (r := fun axes => .reduced d.kind axes d.keepDims)
      (infer_reduce_eq d htypes) (infer_reduce_eq _ htypes) (fun axes => ⟨?_, ?_⟩) (fun _ => rfl)
      (fun _ => rfl) fun _ => rfl
    · exact Reduce.axesOn_of_resolveSet haxes rfl rfl h.resolveSet
    · exact Reduce.axesOn_of_resolveSet rfl haxes rfl h.symm.resolveSet
  | @squeeze d axes' h =>
    refine sameOutcome_of_resolved (r := fun axes => .removed axes x.rank) (infer_squeeze_eq d htypes)
      (infer_squeeze_eq _ htypes) (fun axes => ⟨?_, ?_⟩) (fun _ => rfl) (fun _ => rfl) fun _ => rfl
    · exact Squeeze.resolveAxes_of_respells h
    · exact Squeeze.resolveAxes_of_respells h.symm
  | @unsqueeze d axes' h =>
    have hlen := h.length_eq
    refine sameOutcome_of_resolved
      (r := fun axes => .inserted axes (x.rank + d.axes.length)) (infer_unsqueeze_eq d htypes)
      (infer_unsqueeze_eq _ htypes) (fun axes => ?_) (fun _ => by rw [hlen]) (fun _ => rfl)
      fun _ => by rw [← hlen]; rfl
    rw [hlen]
    exact ⟨h.resolveSet, h.symm.resolveSet⟩
  | @slice d axes axes' starts' ends' steps' haxes h hstarts hends hsteps =>
    refine sameOutcome_of_shaped (r := Resolution.ranges) (infer_slice_eq d htypes)
      (infer_slice_eq _ htypes) (fun ranges => ⟨?_, ?_⟩) (fun _ _ => rfl) (fun _ _ => rfl)
      fun _ _ => rfl
    · refine Slice.resolveRanges_of_carries ?_ hstarts hends hsteps
      rw [haxes]
      exact Slice.resolveAxes_of_respells hstarts h
    · refine Slice.resolveRanges_of_carries ?_ hstarts.symm hends.symm (optionRel_carries_symm hsteps)
      rw [haxes]
      exact Slice.resolveAxes_of_respells hstarts.symm h.symm
  | @pad d axes axes' pads' haxes h hbegin hend =>
    refine sameOutcome_of_shaped (r := Resolution.padded) (infer_pad_eq d htypes)
      (infer_pad_eq _ htypes) (fun pads => ⟨?_, ?_⟩) (fun _ _ => rfl) (fun _ _ => rfl) fun _ _ => rfl
    · exact Pad.resolvePads_of_respells haxes rfl h hbegin hend
    · have hbegin' := hbegin.symm
      have hend' := hend.symm
      rw [← h.length_eq] at hbegin' hend'
      exact Pad.resolvePads_of_respells rfl haxes h.symm hbegin' hend'

/-- An axis is not to be listed twice. -/
theorem exists_error_of_namesTwice [Build] (htypes : g.typesOf? ids = some [x]) {op : Operator}
    {axes : List Int} (haxes : op.axisList? = some axes)
    (h : Axis.NamesTwice (op.listedRank x.rank) axes) : ∃ e, g.infer op ids = .error (.error e) := by
  cases op with
  | reduce d =>
    rw [infer_reduce_eq d htypes]
    refine (d.meets_axesOn x.rank).within_bind_error (fun resolved hresolved => ?_) _ _ _
    obtain ⟨_, hresolved⟩ := require_bind_eq_ok_iff.mp hresolved
    rw [show d.axes = some axes from haxes] at hresolved
    exact h.resolveSet_ne_ok hresolved
  | squeeze d =>
    obtain rfl := Option.some.inj haxes
    rw [infer_squeeze_eq d htypes]
    refine (Squeeze.meets_resolveAxes d.axes x.shape).within_bind_error (fun resolved hresolved => ?_)
      _ _ _
    exact h.resolveSet_ne_ok ((Squeeze.resolveAxes_eq_ok_iff h.ne_nil).mp hresolved).1
  | unsqueeze d =>
    obtain rfl := Option.some.inj haxes
    rw [infer_unsqueeze_eq d htypes]
    exact (Axis.meets_resolveSet _ _).within_bind_error (fun _ => h.resolveSet_ne_ok) _ _ _
  | slice d =>
    rw [infer_slice_eq d htypes]
    -- The axes are looked at before any range is computed.
    have hprefix : Meets (do
        require (d.ends.length = d.starts.length) (.rangeEnds d.starts.length d.ends.length)
        Slice.resolveAxes d.axes d.starts.length x.shape.length) False fun _ => True :=
      (meets_require _ _).bind fun _ _ => (Slice.meets_resolveAxes _ _ _).imp fun _ _ => trivial
    unfold Slice.resolveRanges
    rw [← bind_assoc, bind_assoc]
    refine hprefix.within_bind_error (fun named hnamed => ?_) _ _ _
    obtain ⟨_, hnamed⟩ := require_bind_eq_ok_iff.mp hnamed
    rw [show d.axes = some axes from haxes] at hnamed
    exact h.resolveEach_ne_ok (require_bind_eq_ok_iff.mp hnamed).2
  | pad d =>
    rw [infer_pad_eq d htypes]
    refine (d.meets_resolvePads x.rank).within_bind_error (fun pads hpads => ?_) _ _ _
    obtain ⟨_, _, named, hnamed, _⟩ := (Pad.resolvePads_eq_ok_iff haxes).mp hpads
    exact h.resolveEach_ne_ok hnamed
  | _ => cases haxes

/-- To leave out the axes is to list the leading ones. -/
theorem sameOutcome_of_listsLeading [Build] (htypes : g.typesOf? ids = some [x]) {op op' : Operator}
    (h : op.ListsLeading x.rank op') : g.SameOutcome ids op op' := by
  cases h with
  | @reduce d haxes =>
    refine sameOutcome_of_resolved (r := fun axes => .reduced d.kind axes d.keepDims)
      (infer_reduce_eq d htypes) (infer_reduce_eq _ htypes) (fun axes => ?_) (fun _ => rfl)
      (fun _ => rfl) fun _ => rfl
    simp only [Reduce.axesOn, haxes, Axis.resolveSet_range]
  | @slice d haxes =>
    exact sameOutcome_of_shaped (r := Resolution.ranges) (infer_slice_eq d htypes)
      (infer_slice_eq _ htypes) (fun _ => (Slice.resolveRanges_range_iff haxes).symm)
      (fun _ _ => rfl) (fun _ _ => rfl) fun _ _ => rfl
  | @pad d haxes =>
    exact sameOutcome_of_shaped (r := Resolution.padded) (infer_pad_eq d htypes)
      (infer_pad_eq _ htypes) (fun _ => (Pad.resolvePads_range_iff haxes).symm) (fun _ _ => rfl)
      (fun _ _ => rfl) fun _ _ => rfl

/-- Lists of axes are sets. An axis may be named from either end and the entries may come in any order, no
axis can be listed twice, and axes that are left out are the leading ones. -/
theorem axis_lists_are_sets [Build] (htypes : g.typesOf? ids = some [x]) :
    (∀ {σ : Equiv.Perm Nat} {op op' : Operator}, op.Relists x.rank σ op' →
      g.SameOutcome ids op op') ∧
    (∀ {op : Operator} {axes : List Int}, op.axisList? = some axes →
      Axis.NamesTwice (op.listedRank x.rank) axes → ∃ e, g.infer op ids = .error (.error e)) ∧
    ∀ {op op' : Operator}, op.ListsLeading x.rank op' → g.SameOutcome ids op op' :=
  ⟨sameOutcome_of_relists htypes, exists_error_of_namesTwice htypes, sameOutcome_of_listsLeading htypes⟩

/-- Four rows of six columns. -/
def sheet : Graph := (ofCalls [.tensor ⟨[4, 6], .float32⟩]).1

/-- Rows backwards and inner columns, listed columns first under another name; a list with the last axis
under both names; and pads for both axes, which are not listed. -/
theorem axis_lists_are_sets_sheet :
    let d : Slice :=
      { starts := [3, 1], ends := [-5, 5], axes := some [0, 1], steps := some [-2, 1] }
    let d' : Slice :=
      { starts := [1, 3], ends := [5, -5], axes := some [-1, 0], steps := some [1, -2] }
    let twice : Operator := .reduce { kind := .reduceSum, axes := some [1, -1] }
    let p : Pad := { pads := [1, 0, 0, 2] }
    sheet.typesOf? [⟨0⟩] = some [⟨[4, 6], .float32⟩] ∧
      Operator.Relists 2 (Equiv.swap 0 1) (.slice d) (.slice d') ∧
      sheet.infer (.slice d) [⟨0⟩] = .ok ⟨.slice { d with ranges := [⟨3, -1, -2⟩, ⟨1, 5, 1⟩] },
        [⟨[2, 4], .float32⟩]⟩ ∧
      (∃ op, sheet.infer (.slice d') [⟨0⟩] = .ok ⟨op, [⟨[2, 4], .float32⟩]⟩) ∧
      (∃ e, sheet.infer twice [⟨0⟩] = .error (.error e)) ∧
      ∃ inferred, sheet.infer (.pad { p with axes := some [0, 1] }) [⟨0⟩] = .ok inferred := by
  intro d d' twice p
  have htypes : sheet.typesOf? [⟨0⟩] = some [⟨[4, 6], .float32⟩] := by rfl
  have hrelists : Operator.Relists 2 (Equiv.swap 0 1) (.slice d) (.slice d') :=
    .slice rfl (Axis.respells_iff_carries.mpr (.swap 0 1)) (.swap 3 1) (.swap (-5) 5)
      (.some (.swap (-2) 1))
  have hinfer : sheet.infer (.slice d) [⟨0⟩] = .ok ⟨.slice { d with
      ranges := [⟨3, -1, -2⟩, ⟨1, 5, 1⟩] }, [⟨[2, 4], .float32⟩]⟩ := by cbv
  have hpad : ∃ inferred, sheet.infer (.pad p) [⟨0⟩] = .ok inferred := ⟨_, by cbv⟩
  obtain ⟨hrelist, htwice, hleading⟩ := axis_lists_are_sets htypes
  have hsame := hrelist hrelists
  obtain ⟨⟨op, outputs⟩, hinfer'⟩ := hsame.accepted_iff.mp ⟨_, hinfer⟩
  obtain rfl := (hsame.agree hinfer hinfer').1
  have hnames : Axis.NamesTwice (twice.listedRank 2) [1, -1] :=
    ⟨0, 1, 1, -1, by decide, rfl, rfl, by decide⟩
  exact ⟨htypes, hrelists, hinfer, ⟨op, hinfer'⟩, htwice rfl hnames,
    (hleading (.pad rfl)).accepted_iff.mp hpad⟩

end Graph

end DataflowCost
