import DataflowCost.Proofs.ExactForms
import DataflowCost.Proofs.Families.Layout
import DataflowCost.Proofs.Keys.Basic
import Mathlib.Data.List.Perm.Basic

/-! The keys of families that regroup or permute axes. What the keys hold is what attributes resolve
to, and input, output and rank follow from that. -/
namespace DataflowCost

open Inference Family
open scoped ExactArithmetic

/-- Regroupings of one shape take the same time if both of them copy or none does. -/
theorem Metrics.map_relayout_congr {α : Type} [Scalar α] {copies copies' : Bool} {rate : α}
    {s : Shape} {t t' : DType} {rest rest' outputs outputs' : List TensorType} {cx : CostContext}
    (h : copies = copies') :
    (Metrics.relayout copies rate ⟨⟨s, t⟩ :: rest, outputs⟩ cx).map Metrics.computeTime =
      (Metrics.relayout copies' rate ⟨⟨s, t'⟩ :: rest', outputs'⟩ cx).map Metrics.computeTime := by
  subst h
  cases copies <;> rfl

/-- The output of a registered reshape is what its target resolves to. -/
theorem Reshape.exists_operands {d : Reshape} {inputs outputs : List TensorType}
    (h : Registered d inputs outputs) : ∃ x rest t,
      inputs = x :: rest ∧ outputs = [⟨d.resolved, t⟩] := by
  obtain ⟨x, rest, rfl⟩ := Arity.exists_cons_of_accepts h.accepts (Nat.le_refl 1)
  obtain ⟨⟨out, t⟩, rfl, hout⟩ := exists_single (r := resolveTarget d.target x.shape) h.outShapes_eq
  obtain ⟨given, resolved, hresolved, rfl⟩ := h.exists_resolved
    (f := fun given : Reshape => resolveTarget given.target x.shape)
    (s := fun given resolved => { given with resolved }) fun _ => rfl
  obtain rfl : out = resolved := Except.ok.inj (hout.symm.trans hresolved)
  exact ⟨x, rest, t, rfl, rfl⟩

instance : Keyed Operator.reshape where
  sameTime {d d' _ _ _ _} h h' keys := by
    obtain ⟨⟨x, _⟩, rest, t, rfl, rfl⟩ := Reshape.exists_operands h
    obtain ⟨⟨x', _⟩, rest', t', rfl, rfl⟩ := Reshape.exists_operands h'
    have hattributes := keys.settings_eq rfl rfl
    have hout : d.resolved = d'.resolved := keys.output_eq hattributes
    obtain rfl : x = x' := keys.input_eq_of_append (keys.tail_eq rfl rfl) hattributes
    refine sameTime_of_eq fun cx => Metrics.map_relayout_congr ?_
    exact congrArg (Reshape.copies x) hout

theorem Reshape.decodes : Decodes Operator.reshape fun d d' => d.resolved = d'.resolved := by
  refine .of_single (fun _ => rfl) ?_
  intro d d' x x' outputs outputs' h h' keys
  obtain ⟨_, _, t, hinputs, rfl⟩ := exists_operands h
  obtain ⟨_, _, t', hinputs', rfl⟩ := exists_operands h'
  have hattributes := keys.settings_eq rfl rfl
  exact ⟨keys.input_eq_of_append (keys.tail_eq rfl rfl) hattributes, keys.output_eq hattributes⟩

instance : Keyed Operator.flatten := by
  refine .of_input (fun _ => Nat.le_refl 1) (fun _ _ keys => ?_) ?_
  · exact keys.input_eq (List.cons.inj (keys.tail_eq rfl rfl)).2
  · rintro ⟨axis, resolved⟩ ⟨axis', resolved'⟩ _ _ _ _ _ _ _ _ _ keys
    obtain rfl : resolved = resolved' := keys.number_eq rfl rfl rfl rfl
    exact sameTime_of_eq fun cx => Metrics.map_relayout_congr rfl

instance : Keyed Operator.identity :=
  .of_inputKey (fun _ => Nat.le_refl 1) (fun _ _ => rfl)
    fun _ _ _ => sameTime_of_eq fun _ => rfl

theorem Squeeze.rank_eq {d : Squeeze} {x : TensorType} {rest outputs : List TensorType}
    (h : Registered d (x :: rest) outputs) : d.rank = x.rank := by
  obtain ⟨given, resolved, _, rfl⟩ := h.exists_resolved
    (f := fun given : Squeeze => Squeeze.resolveAxes given.axes x.shape)
    (s := fun given resolved => { given with resolved, rank := x.rank }) fun _ => rfl
  rfl

instance : Keyed Operator.squeeze := by
  refine .of_input (fun _ => Nat.le_refl 1) (fun _ _ keys => ?_) ?_
  · exact keys.input_eq_of_append (keys.tail_eq rfl rfl) (keys.settings_eq rfl rfl)
  · intro d d' s t t' rest rest' _ _ h h' keys
    have hresolved : d.resolved = d'.resolved :=
      words_inj keys.fits.numbers keys.fits'.numbers (keys.settings_eq rfl rfl)
    have hrank : d.rank = d'.rank := (Squeeze.rank_eq h).trans (Squeeze.rank_eq h').symm
    refine sameTime_of_eq fun cx => Metrics.map_relayout_congr ?_
    rw [hresolved, hrank]

theorem Squeeze.decodes : Decodes Operator.squeeze fun d d' => d.resolved = d'.resolved := by
  refine .of_settings (fun d => words d.resolved) (fun _ => rfl) (fun _ _ _ => rfl)
    (fun _ => rfl) ?_
  intro d d' io io' keys _ hsettings
  exact words_inj keys.fits.numbers keys.fits'.numbers hsettings

namespace Axis

theorem nodup_resolveEach {rank : Nat} {axes : List Int} {named : List Nat}
    (h : resolveEach rank axes = .ok named) : named.Nodup := by
  -- No position that is found later has been seen before.
  have hgo (rest : List Int) (seen : List Nat) (named : List Nat)
      (h : resolveEach.go rank axes rest seen = .ok named) :
      named.Nodup ∧ ∀ position ∈ named, position ∉ seen := by
    induction rest generalizing seen named with
    | nil =>
      obtain rfl := Except.ok.inj h
      exact ⟨List.nodup_nil, nofun⟩
    | cons axis rest ih =>
      obtain ⟨position, _, h⟩ := bind_eq_ok_iff.mp h
      by_cases hseen : position ∈ seen
      · rw [if_pos hseen] at h
        cases h
      · rw [if_neg hseen] at h
        obtain ⟨others, hothers, h⟩ := bind_eq_ok_iff.mp h
        obtain rfl := Except.ok.inj h
        obtain ⟨hnodup, hfresh⟩ := ih (position :: seen) others hothers
        refine ⟨List.nodup_cons.mpr ⟨fun hmem => hfresh position hmem List.mem_cons_self, hnodup⟩,
          List.forall_mem_cons.mpr ⟨hseen, fun p hp hps => ?_⟩⟩
        exact hfresh p hp (List.mem_cons_of_mem _ hps)
  exact (hgo axes [] named h).1

/-- Sorting is what any rearrangement in ascending order does, since no position is named twice. -/
theorem resolveSet_eq_ok_iff {rank : Nat} {axes : List Int} {resolved : List Nat} :
    resolveSet rank axes = .ok resolved ↔ ∃ named, resolveEach rank axes = .ok named ∧
      resolved.Perm named ∧ resolved.Pairwise (· < ·) := by
  have hsorted (named : List Nat) : named.mergeSort.Pairwise (· ≤ ·) := by
    have h : named.mergeSort.Pairwise fun a b => decide (a ≤ b) = true :=
      List.pairwise_mergeSort (fun a b c => by simpa using Nat.le_trans)
        (fun a b => by simpa using Nat.le_total a b) named
    simpa only [decide_eq_true_eq] using h
  constructor
  · intro h
    obtain ⟨named, hnamed, h⟩ := bind_eq_ok_iff.mp h
    obtain rfl := Except.ok.inj h
    have hperm := List.mergeSort_perm named fun a b => decide (a ≤ b)
    have hnodup : named.mergeSort.Nodup := hperm.nodup_iff.mpr (nodup_resolveEach hnamed)
    exact ⟨named, hnamed, hperm, ((hsorted named).and hnodup).imp fun h => Nat.lt_of_le_of_ne h.1 h.2⟩
  · rintro ⟨named, hnamed, hperm, hascends⟩
    refine bind_eq_ok_iff.mpr ⟨named, hnamed, congrArg Except.ok ?_⟩
    exact ((List.mergeSort_perm named _).trans hperm.symm).eq_of_pairwise
      (fun _ _ _ _ => Nat.le_antisymm) (hsorted named) (hascends.imp Nat.le_of_lt)

/-- The positions in ascending order are the named ones. -/
theorem perm_of_resolveSet {rank : Nat} {axes : List Int} {resolved : List Nat}
    (h : resolveSet rank axes = .ok resolved) :
    ∃ named, resolveEach rank axes = .ok named ∧ resolved.Perm named := by
  obtain ⟨named, hnamed, hperm, _⟩ := resolveSet_eq_ok_iff.mp h
  exact ⟨named, hnamed, hperm⟩

theorem length_resolveSet {rank : Nat} {axes : List Int} {resolved : List Nat}
    (h : resolveSet rank axes = .ok resolved) : resolved.length = axes.length := by
  obtain ⟨named, hnamed, hperm⟩ := perm_of_resolveSet h
  rw [hperm.length_eq, ((meets_resolveEach rank axes).of_ok hnamed).1]

end Axis

theorem Unsqueeze.outRank_eq {d : Unsqueeze} {x : TensorType} {rest outputs : List TensorType}
    (h : Registered d (x :: rest) outputs) : d.outRank = x.rank + d.resolved.length := by
  obtain ⟨given, resolved, hresolved, rfl⟩ := h.exists_resolved
    (f := fun given : Unsqueeze => Axis.resolveSet (x.rank + given.axes.length) given.axes)
    (s := fun given resolved => { given with resolved, outRank := x.rank + given.axes.length })
    fun _ => rfl
  exact congrArg (x.rank + ·) (Axis.length_resolveSet hresolved).symm

instance : Keyed Operator.unsqueeze := by
  refine .of_input (fun _ => Nat.le_refl 1) (fun _ _ keys => ?_) ?_
  · exact keys.input_eq_of_append (keys.tail_eq rfl rfl) (keys.settings_eq rfl rfl)
  · intro d d' s t t' rest rest' _ _ h h' keys
    have hresolved : d.resolved = d'.resolved :=
      words_inj keys.fits.numbers keys.fits'.numbers (keys.settings_eq rfl rfl)
    -- The axes are resolved against the rank of the output, which no key holds.
    have hrank : d.outRank = d'.outRank := by
      rw [Unsqueeze.outRank_eq h, Unsqueeze.outRank_eq h', hresolved]
      rfl
    refine sameTime_of_eq fun cx => Metrics.map_relayout_congr ?_
    rw [hresolved, hrank]

theorem Unsqueeze.decodes : Decodes Operator.unsqueeze fun d d' => d.resolved = d'.resolved := by
  refine .of_settings (fun d => words d.resolved) (fun _ => rfl) (fun _ _ _ => rfl)
    (fun _ => rfl) ?_
  intro d d' io io' keys _ hsettings
  exact words_inj keys.fits.numbers keys.fits'.numbers hsettings

/-- The element count does not depend on the order of the axes. -/
theorem Shape.size_eq_of_perm {s t : Shape} (h : s.Perm t) : s.size = t.size := by
  induction h with
  | nil => rfl
  | cons extent _ ih => exact congrArg (extent * ·) ih
  | swap a b s => exact Nat.mul_left_comm b a (Shape.size s)
  | trans _ _ ih ih' => exact ih.trans ih'

namespace Transpose

theorem perm_of_resolveAxes {permutation axes : List Nat} {rank : Nat}
    (h : resolveAxes permutation rank = .ok axes) : axes.Perm (List.range rank) := by
  unfold resolveAxes at h
  by_cases hall : permutation.isEmpty = true
  · rw [if_pos hall] at h
    rw [Except.ok.inj h]
  · rw [if_neg hall] at h
    obtain ⟨_, hlen, h⟩ := bind_eq_ok_iff.mp h
    obtain ⟨_, hvalid, h⟩ := bind_eq_ok_iff.mp h
    obtain rfl := Except.ok.inj h
    obtain ⟨hnodup, hlt⟩ := of_require hvalid
    -- As many different axes as there are below the rank are all of them.
    refine List.Subperm.perm_of_length_le ?_ ?_
    · exact hnodup.subperm fun axis haxis => List.mem_range.mpr (hlt axis haxis)
    · rw [List.length_range, of_require hlen]

theorem eq_map_of_mapM {s out : Shape} {axes : List Nat}
    (h : axes.mapM (fun axis => present s[axis]?) = .ok out) :
    out = axes.map fun axis => s.getD axis 0 := by
  induction axes generalizing out with
  | nil => exact (Except.ok.inj h).symm
  | cons axis axes ih =>
    rw [List.mapM_cons] at h
    obtain ⟨extent, hextent, h⟩ := bind_eq_ok_iff.mp h
    obtain ⟨rest, hrest, h⟩ := bind_eq_ok_iff.mp h
    obtain rfl := Except.ok.inj h
    have hget : s.getD axis 0 = extent := by
      rw [List.getD_eq_getElem?_getD, present_eq_ok hextent, Option.getD_some]
    rw [List.map_cons, hget, ← ih hrest]

/-- A shape can be read back from what its axes, each of them taken once, are permuted to. -/
theorem eq_of_map_eq {s t : Shape} {axes : List Nat} (hs : axes.Perm (List.range s.length))
    (ht : axes.Perm (List.range t.length))
    (h : (axes.map fun axis => s.getD axis 0) = axes.map fun axis => t.getD axis 0) : s = t := by
  have hlen : s.length = t.length := by
    have hlength : axes.length = s.length := by rw [hs.length_eq, List.length_range]
    rw [← hlength, ht.length_eq, List.length_range]
  have hread : ∀ axis ∈ axes, s.getD axis 0 = t.getD axis 0 := List.map_inj_left.mp h
  apply List.ext_getElem hlen
  intro i hi hi'
  have hmem : i ∈ axes := hs.mem_iff.mpr (List.mem_range.mpr hi)
  calc s[i] = s.getD i 0 := List.getElem_eq_getD 0
    _ = t.getD i 0 := hread i hmem
    _ = t[i] := (List.getElem_eq_getD 0).symm

theorem size_of_outShape {d : Transpose} {s out : Shape} (h : d.outShape s = .ok out) :
    out.size = s.size := by
  obtain ⟨axes, haxes, h⟩ := bind_eq_ok_iff.mp h
  have hread : (List.range s.length).map (fun axis => s.getD axis 0) = s := by
    apply List.ext_getElem
    · simp
    · intro i _ hi
      simp [hi]
  have hperm := (perm_of_resolveAxes haxes).map fun axis => s.getD axis 0
  rw [hread, ← eq_map_of_mapM h] at hperm
  exact Shape.size_eq_of_perm hperm

end Transpose

instance : Keyed Operator.transpose where
  sameTime {d d' _ _ _ _} h h' keys := by
    obtain ⟨x, rest, rfl⟩ := Arity.exists_cons_of_accepts h.accepts (Nat.le_refl 1)
    obtain ⟨x', rest', rfl⟩ := Arity.exists_cons_of_accepts h'.accepts (Nat.le_refl 1)
    obtain ⟨out, rfl, hout⟩ := exists_single (r := d.outShape x.shape) h.outShapes_eq
    obtain ⟨out', rfl, hout'⟩ := exists_single (r := d'.outShape x'.shape) h'.outShapes_eq
    have hattributes := keys.settings_eq rfl rfl
    have hresolved : d.resolved = d'.resolved :=
      words_inj keys.fits.numbers keys.fits'.numbers hattributes
    have hkey : words (d.resolved ++ out.shape) = words (d'.resolved ++ out'.shape) :=
      keys.tail_eq rfl rfl
    rw [words_append, words_append, hresolved] at hkey
    have hshape : out.shape = out'.shape := keys.output_eq (List.append_cancel_left hkey)
    -- The workload holds the output, whose elements are those of the input.
    have hsize : x.size = x'.size := by
      rw [TensorType.size, ← Transpose.size_of_outShape hout, hshape,
        Transpose.size_of_outShape hout', TensorType.size]
    refine sameTime_of_eq fun cx => ?_
    change some (Transpose.computeTime d.resolved (Scalar.ofNat x.size)) =
      some (Transpose.computeTime d'.resolved (Scalar.ofNat x'.size))
    rw [hresolved, hsize]

/-- The output of a registered transposition lists the extents in the resolved order. -/
theorem Transpose.exists_output {d : Transpose} {x : TensorType}
    {rest outputs : List TensorType} (h : Registered d (x :: rest) outputs) :
    d.resolved.Perm (List.range x.shape.length) ∧
      ∃ t, outputs = [⟨d.resolved.map fun axis => x.shape.getD axis 0, t⟩] := by
  obtain ⟨⟨out, t⟩, rfl, hout⟩ := exists_single (r := d.outShape x.shape) h.outShapes_eq
  obtain ⟨given, resolved, hresolved, rfl⟩ := h.exists_resolved
    (f := fun given : Transpose => resolveAxes given.permutation x.rank)
    (s := fun given resolved => { given with resolved }) fun _ => rfl
  obtain ⟨axes, haxes, hout⟩ := bind_eq_ok_iff.mp hout
  obtain rfl : resolved = axes := Except.ok.inj (hresolved.symm.trans haxes)
  obtain rfl : out = _ := eq_map_of_mapM hout
  exact ⟨perm_of_resolveAxes haxes, t, rfl⟩

theorem Transpose.decodes : Decodes Operator.transpose fun d d' => d.resolved = d'.resolved := by
  refine .of_single (fun _ => rfl) ?_
  intro d d' x x' outputs outputs' h h' keys
  obtain ⟨hperm, t, rfl⟩ := exists_output h
  obtain ⟨hperm', t', rfl⟩ := exists_output h'
  have hresolved : d.resolved = d'.resolved :=
    words_inj keys.fits.numbers keys.fits'.numbers (keys.settings_eq rfl rfl)
  have hkey : words (d.resolved ++ d.resolved.map fun axis => x.shape.getD axis 0) =
      words (d'.resolved ++ d'.resolved.map fun axis => x'.shape.getD axis 0) :=
    keys.tail_eq rfl rfl
  rw [words_append, words_append] at hkey
  have hout : words (d.resolved.map fun axis => x.shape.getD axis 0) =
      words (d'.resolved.map fun axis => x'.shape.getD axis 0) :=
    (List.append_inj hkey (by rw [hresolved])).2
  have hmap := keys.output_eq hout
  rw [← hresolved] at hmap hperm'
  exact ⟨eq_of_map_eq hperm hperm' hmap, hresolved⟩

theorem BlockOrder.tag_injective {a b : BlockOrder} (h : a.tag = b.tag) : a = b := by
  cases a <;> cases b <;> first | rfl | cases h

namespace DepthToSpace

theorem modEq_of_outShape [Build] {d : DepthToSpace} {s out : Shape} (h : d.outShape s = .ok out) :
    out.size ≡ s.size [MOD Word.modulus] := by
  unfold outShape at h
  split at h
  next batch channels rows columns =>
    obtain ⟨_, _, h⟩ := bind_eq_ok_iff.mp h
    obtain ⟨area, harea, h⟩ := bind_eq_ok_iff.mp h
    obtain ⟨r, hremainder, h⟩ := bind_eq_ok_iff.mp h
    obtain ⟨_, hzero, h⟩ := bind_eq_ok_iff.mp h
    obtain ⟨depth, hdepth, h⟩ := bind_eq_ok_iff.mp h
    obtain ⟨rows', hrows, h⟩ := bind_eq_ok_iff.mp h
    obtain ⟨columns', hcolumns, h⟩ := bind_eq_ok_iff.mp h
    obtain rfl := Except.ok.inj h
    obtain rfl := (meets_remainder fun _ => trivial).of_ok hremainder
    obtain rfl := (meets_quotient fun _ => trivial).of_ok hdepth
    have hwhole : channels / area * area = channels :=
      Nat.div_mul_cancel (Nat.dvd_of_mod_eq_zero (of_require hzero))
    have hspatial := (Word.modEq_of_mul hrows).mul (Word.modEq_of_mul hcolumns)
    calc Shape.size [batch, channels / area, rows', columns']
        = batch * (channels / area) * (rows' * columns') := by
          simp only [Shape.size, List.foldr_cons, List.foldr_nil]
          ring
      _ ≡ batch * (channels / area) * (rows * d.block * (columns * d.block)) [MOD Word.modulus] :=
          hspatial.mul_left _
      _ = batch * (channels / area) * (rows * columns) * (d.block * d.block) := by ring
      _ ≡ batch * (channels / area) * (rows * columns) * area [MOD Word.modulus] :=
          (Word.modEq_of_mul harea).symm.mul_left _
      _ = batch * (channels / area * area) * (rows * columns) := by ring
      _ = Shape.size [batch, channels, rows, columns] := by
          rw [hwhole]
          simp only [Shape.size, List.foldr_cons, List.foldr_nil]
          ring
  next => cases h

theorem size_of_outShape {d : DepthToSpace} {s out : Shape} (h : d.outShape s = .ok out) :
    out.size = s.size := Word.eq_of_modEq (modEq_of_outShape h) ExactArithmetic.elim

/-- The time of an element count. -/
def time {α : Type} [Scalar α] (d : DepthToSpace) (size : α) : α :=
  let plain := size * d.blockFactor 0.1
  let shuffle := if d.mode = .depthFirst then plain * 1.2 else plain
  (size * 0.02 + shuffle) / 2e9

theorem eq_of_attributes {d d' : DepthToSpace} (hd : AreWords [d.block]) (hd' : AreWords [d'.block])
    (h : attributes d = attributes d') : d = d' := by
  simp only [attributes, List.cons.injEq, and_true, true_and] at h
  rw [mk.injEq]
  exact ⟨word_inj (hd _ List.mem_cons_self) (hd' _ List.mem_cons_self) h.1,
    BlockOrder.tag_injective h.2⟩

end DepthToSpace

instance : Keyed Operator.depthToSpace where
  sameTime {d d' _ _ _ _} h h' keys := by
    obtain ⟨x, rest, rfl⟩ := Arity.exists_cons_of_accepts h.accepts (Nat.le_refl 1)
    obtain ⟨x', rest', rfl⟩ := Arity.exists_cons_of_accepts h'.accepts (Nat.le_refl 1)
    obtain ⟨out, rfl, hout⟩ := exists_single (r := d.outShape x.shape) h.outShapes_eq
    obtain ⟨out', rfl, hout'⟩ := exists_single (r := d'.outShape x'.shape) h'.outShapes_eq
    obtain rfl : d = d' :=
      DepthToSpace.eq_of_attributes keys.fits.numbers keys.fits'.numbers keys.attributes_eq
    have hkey := (List.cons.inj (List.cons.inj (keys.tail_eq rfl rfl)).2).2
    have hshape : out.shape = out'.shape := keys.output_eq hkey
    have hsize : x.size = x'.size := by
      rw [TensorType.size, ← DepthToSpace.size_of_outShape hout, hshape,
        DepthToSpace.size_of_outShape hout', TensorType.size]
    refine sameTime_of_eq fun cx => ?_
    change some (d.time (Scalar.ofNat x.size)) = some (d.time (Scalar.ofNat x'.size))
    rw [hsize]

instance : Keyed Operator.expand where
  sameTime {d d' _ _ _ _} h h' keys := by
    obtain ⟨⟨x, t⟩, rest, rfl⟩ := Arity.exists_cons_of_accepts h.accepts (Nat.le_refl 1)
    obtain ⟨⟨x', t'⟩, rest', rfl⟩ := Arity.exists_cons_of_accepts h'.accepts (Nat.le_refl 1)
    obtain ⟨⟨out, u⟩, rfl, hout⟩ := exists_single (r := x.broadcast d.shape) h.outShapes_eq
    obtain ⟨⟨out', u'⟩, rfl, hout'⟩ := exists_single (r := x'.broadcast d'.shape) h'.outShapes_eq
    have hattributes := keys.settings_eq rfl rfl
    have hshape : d.shape = d'.shape := words_inj keys.fits.numbers keys.fits'.numbers hattributes
    obtain rfl : x = x' := keys.input_eq_of_append (keys.tail_eq rfl rfl) hattributes
    obtain rfl : out = out' := by
      rw [hshape, hout'] at hout
      exact (Except.ok.inj hout).symm
    exact sameTime_of_eq fun _ => rfl

theorem Expand.decodes : Decodes Operator.expand Eq := by
  refine .of_settings (fun d => words d.shape) (fun _ => rfl) (fun _ _ _ => rfl) (fun _ => rfl) ?_
  intro d d' io io' keys _ hsettings
  have hshape : d.shape = d'.shape := words_inj keys.fits.numbers keys.fits'.numbers hsettings
  exact congrArg mk hshape

end DataflowCost
