import DataflowCost.Proofs.AxisLists

/-! Values that belong to the axes of a list. A slice puts the range of each entry on its axis and padding
puts two pads there, so that what is put does not depend on the order of the entries. -/
namespace DataflowCost

open Inference

namespace Slice

variable {s : Shape} {named named' : List Nat} {starts ends steps starts' ends' steps' : List Int}
  {ranges : List AxisRange} {σ : Equiv.Perm Nat}

/-- Each named axis has the range of its entries, and any other axis has all of its positions. -/
structure Places [Build] (s : Shape) (named : List Nat) (starts ends steps : List Int)
    (ranges : List AxisRange) : Prop where
  length_eq : ranges.length = s.length
  others : ∀ axis ∉ named, ranges[axis]? = s[axis]?.map AxisRange.full
  named : ∀ {k axis}, named[k]? = some axis →
    ∃ r, ranges[axis]? = some r ∧ Puts s starts ends steps k axis r

theorem Puts.unique [Build] {k axis : Nat} {r r' : AxisRange} (h : Puts s starts ends steps k axis r)
    (h' : Puts s starts ends steps k axis r') : r = r' := by
  obtain ⟨extent, start, stop, step, hextent, hstart, hstop, hstep, hr⟩ := h
  obtain ⟨extent', start', stop', step', hextent', hstart', hstop', hstep', hr'⟩ := h'
  obtain rfl := Option.some.inj (hextent.symm.trans hextent')
  obtain rfl := Option.some.inj (hstart.symm.trans hstart')
  obtain rfl := Option.some.inj (hstop.symm.trans hstop')
  obtain rfl := Option.some.inj (hstep.symm.trans hstep')
  exact Except.ok.inj (hr.symm.trans hr')

theorem placeAt_of_puts [Build] {i axis : Nat} {r : AxisRange}
    (h : Puts s starts ends steps i axis r) (taken : List AxisRange) :
    placeAt s starts ends steps taken axis i = overwrite taken axis r := by
  obtain ⟨extent, start, stop, step, hextent, hstart, hstop, hstep, hr⟩ := h
  unfold placeAt
  rw [hextent, hstart, hstop, hstep]
  change (do overwrite taken axis (← AxisRange.clamped start stop step extent)) = _
  rw [hr]
  rfl

theorem Places.unique [Build] {ranges' : List AxisRange} (h : Places s named starts ends steps ranges)
    (h' : Places s named starts ends steps ranges') : ranges = ranges' := by
  refine List.ext_getElem? fun axis => ?_
  by_cases hmem : axis ∈ named
  · obtain ⟨k, hk⟩ := List.getElem?_of_mem hmem
    obtain ⟨r, hr, hputs⟩ := h.named hk
    obtain ⟨r', hr', hputs'⟩ := h'.named hk
    rw [hr, hr', hputs.unique hputs']
  · rw [h.others axis hmem, h'.others axis hmem]

/-- Entries for axes that are all different can be put in place. -/
theorem place_eq_ok_iff [Build] (hnodup : named.Nodup) (hlt : ∀ axis ∈ named, axis < s.length) :
    place s named starts ends steps = .ok ranges ↔ Places s named starts ends steps ranges := by
  have hplaces {ranges : List AxisRange} (h : place s named starts ends steps = .ok ranges) :
      Places s named starts ends steps ranges := by
    obtain ⟨hothers, hnamed⟩ := getElem?_of_foldlM hnodup
      (fun axis haxis => by rw [List.length_map]; exact hlt axis haxis) h
    refine ⟨?_, fun axis hmem => ?_, fun {k axis} hk => ?_⟩
    · refine ((meets_foldlM (I := fun out => out.length = s.length) (by rw [List.length_map])
        fun out hout p _ => ⟨fun {out'} h => ?_, fun _ => trivial⟩).of_ok h)
      obtain ⟨r, _, rfl⟩ := eq_set_of_placeAt h
      rw [List.length_set, hout]
    · rw [hothers axis hmem, List.getElem?_map]
    · obtain ⟨r, hr, hputs⟩ := hnamed hk
      rw [Nat.zero_add] at hputs
      exact ⟨r, hr, hputs⟩
  refine ⟨hplaces, fun h => ?_⟩
  obtain ⟨ranges', hranges'⟩ : ∃ ranges', place s named starts ends steps = .ok ranges' := by
    refine exists_foldlM (I := fun out : List AxisRange => out.length = s.length)
      (by rw [List.length_map]) ?_
    rintro out hout ⟨axis, i⟩ hmem
    obtain ⟨haxis, hi⟩ := mem_and_lt_of_mem_zipIdx hmem
    have hlt := hlt axis haxis
    obtain ⟨r, _, hputs⟩ := h.named (List.mk_mem_zipIdx_iff_getElem?.mp hmem)
    refine ⟨out.set axis r, ?_, by rw [List.length_set, hout]⟩
    exact (placeAt_of_puts hputs out).trans (if_pos (hout ▸ hlt))
  rw [hranges', (hplaces hranges').unique h]

theorem Places.of_carries [Build] (hnamed : Carries σ named named') (hstarts : Carries σ starts starts')
    (hends : Carries σ ends ends') (hsteps : Carries σ steps steps')
    (h : Places s named starts ends steps ranges) : Places s named' starts' ends' steps' ranges where
  length_eq := h.length_eq
  others axis hmem := h.others axis fun hmem' => hmem (hnamed.mem_iff.mpr hmem')
  named {k axis} hk := by
    obtain ⟨r, hr, extent, start, stop, step, hextent, hstart, hstop, hstep, hclamped⟩ :=
      h.named ((hnamed.symm k).trans hk)
    exact ⟨r, hr, extent, start, stop, step, hextent, (hstarts.symm k).symm.trans hstart,
      (hends.symm k).symm.trans hstop, (hsteps.symm k).symm.trans hstep, hclamped⟩

theorem resolveSteps_of_carries {steps? steps?' : Option (List Int)}
    (hstarts : Carries σ starts starts') (h : Option.Rel (Carries σ) steps? steps?')
    (hsteps : resolveSteps steps? starts.length = .ok steps) :
    ∃ steps', resolveSteps steps?' starts'.length = .ok steps' ∧ Carries σ steps steps' := by
  cases h with
  | none =>
    obtain rfl := Except.ok.inj hsteps
    exact ⟨_, rfl, hstarts.replicate 1⟩
  | @some given given' h =>
    obtain ⟨hcount, hsteps⟩ := require_bind_eq_ok_iff.mp hsteps
    obtain ⟨hne, hsteps⟩ := require_bind_eq_ok_iff.mp hsteps
    obtain rfl := Except.ok.inj hsteps
    refine ⟨given', require_bind_eq_ok_iff.mpr ⟨?_, require_bind_eq_ok_iff.mpr ⟨?_, rfl⟩⟩, h⟩
    · rw [h.length_eq, hcount, hstarts.length_eq]
    · rw [List.all_eq_true] at hne ⊢
      exact fun step hstep => hne step (h.mem_iff.mp hstep)

/-- Ranges stay where they are if entries and the axes that they are about move together. -/
theorem resolveRanges_of_carries [Build] {d d' : Slice}
    (hnamed : ∀ {named}, resolveAxes d.axes d.starts.length s.length = .ok named →
      ∃ named', resolveAxes d'.axes d'.starts.length s.length = .ok named' ∧ Carries σ named named')
    (hstarts : Carries σ d.starts d'.starts) (hends : Carries σ d.ends d'.ends)
    (hsteps : Option.Rel (Carries σ) d.steps d'.steps) (h : d.resolveRanges s = .ok ranges) :
    d'.resolveRanges s = .ok ranges := by
  obtain ⟨hcount, h⟩ := require_bind_eq_ok_iff.mp h
  obtain ⟨named, haxes, h⟩ := bind_eq_ok_iff.mp h
  obtain ⟨steps, hresolve, h⟩ := bind_eq_ok_iff.mp h
  obtain ⟨hlen, hlt⟩ := (meets_resolveAxes _ _ _).of_ok haxes
  have hplaces := (place_eq_ok_iff (nodup_of_resolveAxes haxes) hlt).mp h
  obtain ⟨named', haxes', hmoved⟩ := hnamed haxes
  obtain ⟨steps', hresolve', hmovedSteps⟩ := resolveSteps_of_carries hstarts hsteps hresolve
  obtain ⟨hlen', hlt'⟩ := (meets_resolveAxes _ _ _).of_ok haxes'
  have hcount' : d'.ends.length = d'.starts.length := by
    rw [hends.length_eq, hcount, hstarts.length_eq]
  refine require_bind_eq_ok_iff.mpr ⟨hcount', bind_eq_ok_iff.mpr ⟨named', haxes',
    bind_eq_ok_iff.mpr ⟨steps', hresolve', ?_⟩⟩⟩
  exact (place_eq_ok_iff (nodup_of_resolveAxes haxes') hlt').mpr
    (hplaces.of_carries hmoved hstarts hends hmovedSteps)

theorem resolveAxes_of_respells {axes axes' : List Int} {rank : Nat}
    (hstarts : Carries σ starts starts') (h : Axis.Respells rank σ axes axes')
    (hnamed : resolveAxes (some axes) starts.length rank = .ok named) :
    ∃ named', resolveAxes (some axes') starts'.length rank = .ok named' ∧
      Carries σ named named' := by
  obtain ⟨hcount, hnamed⟩ := require_bind_eq_ok_iff.mp hnamed
  obtain ⟨named', hnamed', hmoved⟩ := h.resolveEach hnamed
  refine ⟨named', require_bind_eq_ok_iff.mpr ⟨?_, hnamed'⟩, hmoved⟩
  rw [h.length_eq, hcount, hstarts.length_eq]

/-- Leaving out the axes is the same as listing the leading ones. -/
theorem resolveAxes_range_iff {count rank : Nat} :
    resolveAxes (some ((List.range count).map Nat.cast)) count rank = .ok named ↔
      resolveAxes none count rank = .ok named := by
  unfold resolveAxes
  rw [require_bind_eq_ok_iff, require_bind_eq_ok_iff, Axis.resolveEach_range_iff, List.length_map,
    List.length_range]
  exact ⟨fun h => ⟨h.2.1, congrArg Except.ok h.2.2.symm⟩,
    fun h => ⟨rfl, h.1, (Except.ok.inj h.2).symm⟩⟩

theorem resolveRanges_range_iff [Build] {d : Slice} (h : d.axes = none) :
    resolveRanges { d with axes := some ((List.range d.starts.length).map Nat.cast) } s =
      .ok ranges ↔ d.resolveRanges s = .ok ranges := by
  unfold resolveRanges
  rw [require_bind_eq_ok_iff, require_bind_eq_ok_iff, h]
  refine and_congr_right fun _ => ?_
  rw [bind_eq_ok_iff, bind_eq_ok_iff]
  exact exists_congr fun named => and_congr_left fun _ => resolveAxes_range_iff

end Slice

namespace Pad

variable {rank count : Nat} {named named' pads pads' out : List Nat} {σ : Equiv.Perm Nat}

/-- Each named axis has its own pads, and any other axis has none. Begin pads come before end pads, where they
are given and where they are put. -/
structure Places (rank : Nat) (named pads out : List Nat) : Prop where
  length_eq : out.length = 2 * rank
  others : ∀ axis < rank, axis ∉ named → out[axis]? = some 0 ∧ out[axis + rank]? = some 0
  named : ∀ {k axis}, named[k]? = some axis →
    out[axis]? = pads[k]? ∧ out[axis + rank]? = pads[k + named.length]?

theorem Places.unique {out' : List Nat} (h : Places rank named pads out)
    (h' : Places rank named pads out') : out = out' := by
  have hboth (axis : Nat) (hlt : axis < rank) :
      out[axis]? = out'[axis]? ∧ out[axis + rank]? = out'[axis + rank]? := by
    by_cases hmem : axis ∈ named
    · obtain ⟨k, hk⟩ := List.getElem?_of_mem hmem
      rw [(h.named hk).1, (h.named hk).2, (h'.named hk).1, (h'.named hk).2]
      exact ⟨rfl, rfl⟩
    · rw [(h.others axis hlt hmem).1, (h.others axis hlt hmem).2, (h'.others axis hlt hmem).1,
        (h'.others axis hlt hmem).2]
      exact ⟨rfl, rfl⟩
  refine List.ext_getElem? fun position => ?_
  by_cases hbegin : position < rank
  · exact (hboth position hbegin).1
  · by_cases hend : position - rank < rank
    · have hback : position - rank + rank = position := by omega
      rw [← hback]
      exact (hboth _ hend).2
    · rw [List.getElem?_eq_none (by rw [h.length_eq]; omega),
        List.getElem?_eq_none (by rw [h'.length_eq]; omega)]

theorem eq_set_of_placeAt {placed : List Nat} {axis i : Nat}
    (h : placeAt rank count pads out axis i = .ok placed) : ∃ before behind,
      pads[i]? = some before ∧ pads[i + count]? = some behind ∧
      placed = (out.set axis before).set (axis + rank) behind := by
  obtain ⟨before, hbefore, h⟩ := bind_eq_ok_iff.mp h
  obtain ⟨begun, hbegun, h⟩ := bind_eq_ok_iff.mp h
  obtain rfl := eq_set_of_overwrite hbegun
  obtain ⟨behind, hbehind, h⟩ := bind_eq_ok_iff.mp h
  exact ⟨before, behind, present_eq_ok hbefore, present_eq_ok hbehind, eq_set_of_overwrite h⟩

/-- Pads are put on the named axes and on no others. -/
theorem getElem?_of_foldlM {first : Nat} {placed : List Nat} (hnodup : named.Nodup)
    (hlt : ∀ axis ∈ named, axis < rank) (hout : out.length = 2 * rank)
    (h : (named.zipIdx first).foldlM (fun out (axis, i) => placeAt rank count pads out axis i) out =
      .ok placed) :
    placed.length = 2 * rank ∧
    (∀ axis < rank, axis ∉ named →
      placed[axis]? = out[axis]? ∧ placed[axis + rank]? = out[axis + rank]?) ∧
    ∀ {k axis}, named[k]? = some axis → placed[axis]? = pads[first + k]? ∧
      placed[axis + rank]? = pads[first + k + count]? := by
  induction named generalizing first out with
  | nil =>
    obtain rfl := Except.ok.inj h
    exact ⟨hout, fun _ _ _ => ⟨rfl, rfl⟩, nofun⟩
  | cons axis named ih =>
    rw [List.zipIdx_cons, List.foldlM_cons] at h
    obtain ⟨out', hput, h⟩ := bind_eq_ok_iff.mp h
    obtain ⟨before, behind, hbefore, hbehind, rfl⟩ := eq_set_of_placeAt hput
    obtain ⟨hfresh, hnodup⟩ := List.nodup_cons.mp hnodup
    obtain ⟨haxis, hlt⟩ := List.forall_mem_cons.mp hlt
    obtain ⟨hlen, hothers, hnamed⟩ := ih hnodup hlt (by rw [List.length_set, List.length_set, hout]) h
    refine ⟨hlen, ?_, ?_⟩
    · intro a ha hmem
      rw [List.mem_cons, not_or] at hmem
      obtain ⟨hne, hmem⟩ := hmem
      obtain ⟨hbegin, hend⟩ := hothers a ha hmem
      rw [hbegin, hend, List.getElem?_set_ne (by omega), List.getElem?_set_ne (by omega),
        List.getElem?_set_ne (by omega), List.getElem?_set_ne (by omega)]
      exact ⟨rfl, rfl⟩
    · intro k a hk
      cases k with
      | zero =>
        -- What is put first stays, as the axis is not named again.
        obtain rfl := Option.some.inj hk
        obtain ⟨hbegin, hend⟩ := hothers _ haxis hfresh
        rw [hbegin, hend, List.getElem?_set_ne (by omega), List.getElem?_set_self (by omega),
          List.getElem?_set_self (by rw [List.length_set]; omega)]
        exact ⟨hbefore.symm, hbehind.symm⟩
      | succ k =>
        obtain ⟨hbegin, hend⟩ := hnamed (k := k) hk
        rw [hbegin, hend, Nat.add_right_comm first 1 k]
        exact ⟨rfl, rfl⟩

/-- The pads of axes that are all different can be put in place. -/
theorem foldlM_eq_ok_iff (hnodup : named.Nodup) (hlt : ∀ axis ∈ named, axis < rank)
    (hpads : pads.length = 2 * named.length) :
    named.zipIdx.foldlM (fun out (axis, i) => placeAt rank named.length pads out axis i)
      (List.replicate (2 * rank) 0) = .ok out ↔ Places rank named pads out := by
  have hplaces {out : List Nat} (h : named.zipIdx.foldlM (fun out (axis, i) =>
      placeAt rank named.length pads out axis i) (List.replicate (2 * rank) 0) = .ok out) :
      Places rank named pads out := by
    obtain ⟨hlen, hothers, hnamed⟩ := getElem?_of_foldlM hnodup hlt List.length_replicate h
    refine ⟨hlen, fun axis haxis hmem => ?_, fun {k axis} hk => ?_⟩
    · rw [(hothers axis haxis hmem).1, (hothers axis haxis hmem).2,
        List.getElem?_replicate_of_lt (by omega), List.getElem?_replicate_of_lt (by omega)]
      exact ⟨rfl, rfl⟩
    · have hat := hnamed hk
      rwa [Nat.zero_add] at hat
  refine ⟨hplaces, fun h => ?_⟩
  obtain ⟨out', hout'⟩ : ∃ out', named.zipIdx.foldlM (fun out (axis, i) =>
      placeAt rank named.length pads out axis i) (List.replicate (2 * rank) 0) = .ok out' := by
    refine exists_foldlM (I := fun out : List Nat => out.length = 2 * rank) List.length_replicate ?_
    rintro out hout ⟨axis, i⟩ hmem
    obtain ⟨haxis, hi⟩ := mem_and_lt_of_mem_zipIdx hmem
    have haxis := hlt axis haxis
    have hset : (out.set axis pads[i]).length = 2 * rank := by rw [List.length_set, hout]
    refine ⟨(out.set axis pads[i]).set (axis + rank) pads[i + named.length], ?_, by
      rw [List.length_set, hset]⟩
    refine bind_eq_ok_iff.mpr ⟨pads[i], by rw [List.getElem?_eq_getElem]; rfl, ?_⟩
    refine bind_eq_ok_iff.mpr ⟨_, if_pos (by omega), ?_⟩
    refine bind_eq_ok_iff.mpr ⟨pads[i + named.length], by rw [List.getElem?_eq_getElem]; rfl, ?_⟩
    exact if_pos (by omega)
  rw [hout', (hplaces hout').unique h]

theorem Places.of_carries (hnamed : Carries σ named named')
    (hbegin : Carries σ (pads.take named.length) (pads'.take named'.length))
    (hend : Carries σ (pads.drop named.length) (pads'.drop named'.length))
    (h : Places rank named pads out) : Places rank named' pads' out where
  length_eq := h.length_eq
  others axis hlt hmem := h.others axis hlt fun hmem' => hmem (hnamed.mem_iff.mpr hmem')
  named {k axis} hk := by
    have hk' := (hnamed.symm k).trans hk
    have hlt : k < named'.length := (List.getElem?_eq_some_iff.mp hk).1
    have hlt' : σ.symm k < named.length := (List.getElem?_eq_some_iff.mp hk').1
    have hbefore := hbegin.symm k
    have hbehind := hend.symm k
    rw [List.getElem?_take_of_lt hlt', List.getElem?_take_of_lt hlt] at hbefore
    rw [List.getElem?_drop, List.getElem?_drop, Nat.add_comm, Nat.add_comm _ k] at hbehind
    rw [(h.named hk').1, (h.named hk').2, hbefore, hbehind]
    exact ⟨rfl, rfl⟩

theorem places_range (h : pads.length = 2 * rank) : Places rank (List.range rank) pads pads where
  length_eq := h
  others axis hlt hmem := absurd (List.mem_range.mpr hlt) hmem
  named {k axis} hk := by
    obtain ⟨_, rfl⟩ := List.getElem?_eq_some_iff.mp hk
    rw [List.getElem_range, List.length_range]
    exact ⟨rfl, rfl⟩

/-- What pads for listed axes resolve to. -/
theorem resolvePads_eq_ok_iff {d : Pad} {axes : List Int} (haxes : d.axes = some axes) :
    d.resolvePads rank = .ok out ↔ (∀ pad ∈ d.pads, 0 ≤ pad) ∧ d.pads.length = 2 * axes.length ∧
      ∃ named, Axis.resolveEach rank axes = .ok named ∧
        Places rank named (d.pads.map Int.toNat) out := by
  have hput {named : List Nat} (hlen : (d.pads.map Int.toNat).length = 2 * axes.length)
      (hnamed : Axis.resolveEach rank axes = .ok named) :
      named.zipIdx.foldlM (fun out (axis, i) =>
        placeAt rank axes.length (d.pads.map Int.toNat) out axis i) (List.replicate (2 * rank) 0) =
        .ok out ↔ Places rank named (d.pads.map Int.toNat) out := by
    obtain ⟨hcount, hlt⟩ := (Axis.meets_resolveEach rank axes).of_ok hnamed
    rw [← hcount] at hlen ⊢
    exact foldlM_eq_ok_iff (Axis.nodup_resolveEach hnamed) hlt hlen
  unfold resolvePads
  rw [haxes, require_bind_eq_ok_iff]
  simp only [List.all_eq_true, decide_eq_true_eq]
  refine and_congr_right fun _ => ?_
  rw [require_bind_eq_ok_iff, List.length_map, bind_eq_ok_iff]
  refine and_congr_right fun hlen => exists_congr fun named => and_congr_right fun hnamed => ?_
  exact hput (by rw [List.length_map, hlen]) hnamed

/-- Pads stay where they are if they and the axes that they are about move together. -/
theorem resolvePads_of_respells {d d' : Pad} {axes axes' : List Int} (haxes : d.axes = some axes)
    (haxes' : d'.axes = some axes') (h : Axis.Respells rank σ axes axes')
    (hbegin : Carries σ (d.pads.take axes.length) (d'.pads.take axes.length))
    (hend : Carries σ (d.pads.drop axes.length) (d'.pads.drop axes.length))
    (hout : d.resolvePads rank = .ok out) : d'.resolvePads rank = .ok out := by
  obtain ⟨hpos, hlen, named, hnamed, hplaces⟩ := (resolvePads_eq_ok_iff haxes).mp hout
  obtain ⟨named', hnamed', hmoved⟩ := h.resolveEach hnamed
  have hcount := ((Axis.meets_resolveEach rank axes).of_ok hnamed).1
  have hcount' : named'.length = axes.length := by rw [hmoved.length_eq, hcount]
  refine (resolvePads_eq_ok_iff haxes').mpr ⟨fun pad hpad => ?_, ?_, named', hnamed', ?_⟩
  · rw [← List.take_append_drop axes.length d'.pads, List.mem_append, hbegin.mem_iff,
      hend.mem_iff, ← List.mem_append, List.take_append_drop] at hpad
    exact hpos pad hpad
  · have hlens := hend.length_eq
    have hlens' := hbegin.length_eq
    rw [List.length_drop, List.length_drop] at hlens
    rw [List.length_take, List.length_take] at hlens'
    rw [h.length_eq]
    omega
  · refine hplaces.of_carries hmoved ?_ ?_
    · rw [hcount, hcount', ← List.map_take, ← List.map_take]
      exact hbegin.map Int.toNat
    · rw [hcount, hcount', ← List.map_drop, ← List.map_drop]
      exact hend.map Int.toNat

/-- Leaving out the axes is the same as listing all of them. -/
theorem resolvePads_range_iff {d : Pad} (h : d.axes = none) :
    resolvePads { d with axes := some ((List.range rank).map Nat.cast) } rank = .ok out ↔
      d.resolvePads rank = .ok out := by
  have hnone : d.resolvePads rank = .ok out ↔ (∀ pad ∈ d.pads, 0 ≤ pad) ∧
      d.pads.length = 2 * rank ∧ out = d.pads.map Int.toNat := by
    unfold resolvePads
    rw [h, require_bind_eq_ok_iff]
    simp only [List.all_eq_true, decide_eq_true_eq]
    rw [require_bind_eq_ok_iff, List.length_map]
    exact and_congr_right fun _ => and_congr_right fun _ => ok_eq_ok_iff
  rw [hnone, resolvePads_eq_ok_iff rfl]
  simp only [List.length_map, List.length_range, Axis.resolveEach_range_iff]
  refine and_congr_right fun _ => and_congr_right fun hlen => ?_
  have hplaces : Places rank (List.range rank) (d.pads.map Int.toNat) (d.pads.map Int.toNat) :=
    places_range (by rw [List.length_map, hlen])
  constructor
  · rintro ⟨_, ⟨_, rfl⟩, hout⟩
    exact hout.unique hplaces
  · rintro rfl
    exact ⟨_, ⟨Nat.le_refl rank, rfl⟩, hplaces⟩

end Pad

end DataflowCost
