import DataflowCost.Proofs.ExactForms
import DataflowCost.Proofs.Families.Range
import DataflowCost.Proofs.Keys.Basic

/-! The keys of families that join, cut, repeat and pad. A join takes time for the elements of all
its inputs, which the output has together; the other families are keyed by input and attributes. -/
namespace DataflowCost

open Inference Family
open scoped ExactArithmetic

/-- The element count grows with one extent in proportion. -/
theorem Shape.size_set_add {s : Shape} {axis : Nat} (h : axis < s.length) (a b : Nat) :
    Shape.size (s.set axis (a + b)) = Shape.size (s.set axis a) + Shape.size (s.set axis b) := by
  induction s generalizing axis with
  | nil => cases h
  | cons extent s ih =>
    cases axis with
    | zero => exact Nat.add_mul a b (Shape.size s)
    | succ axis =>
      have hrest := ih (Nat.lt_of_succ_lt_succ h)
      have hcons (t : Shape) : Shape.size (extent :: t) = extent * Shape.size t := rfl
      rw [List.set_cons_succ, List.set_cons_succ, List.set_cons_succ, hcons, hcons, hcons, hrest,
        Nat.mul_add]

namespace Concat

theorem eq_set_of_matchExtents {axis extent : Nat} {s first : Shape} {u : Unit}
    (hlen : s.length = first.length) (hextent : s[axis]? = some extent)
    (h : matchExtents axis s first = .ok u) : s = first.set axis extent := by
  refine List.ext_getElem (by rw [List.length_set, hlen]) ?_
  intro i hi hset
  have hfirst : i < first.length := hlen ▸ hi
  have hmem : ((s[i], first[i]), i) ∈ (s.zip first).zipIdx := by
    rw [List.mk_mem_zipIdx_iff_getElem?]
    simp [hi, hfirst]
  by_cases hposition : axis = i
  · obtain rfl := hposition
    rw [List.getElem_set_self]
    exact Option.some.inj ((List.getElem?_eq_getElem hi).symm.trans hextent)
  · rw [List.getElem_set_ne hposition]
    exact (of_require (ok_of_forM h _ hmem)).resolve_left (Ne.symm hposition)

/-- The elements of what has been joined, and of the shapes that follow, are those of the whole. -/
theorem size_of_joined {axis extent total : Nat} {first : Shape} {shapes : List Shape}
    (haxis : axis < first.length) (h : joined axis first extent shapes = .ok total) :
    Shape.size (first.set axis extent) + (shapes.map Shape.size).sum =
      Shape.size (first.set axis total) := by
  induction shapes generalizing extent with
  | nil =>
    obtain rfl := Except.ok.inj h
    rfl
  | cons s rest ih =>
    rw [joined_cons_exact] at h
    obtain ⟨_, hlen, h⟩ := bind_eq_ok_iff.mp h
    obtain ⟨_, hmatch, h⟩ := bind_eq_ok_iff.mp h
    obtain ⟨more, hmore, h⟩ := bind_eq_ok_iff.mp h
    have hs : s = first.set axis more :=
      eq_set_of_matchExtents (of_require hlen) (present_eq_ok hmore) hmatch
    rw [List.map_cons, List.sum_cons, ← ih h, Shape.size_set_add haxis, ← hs, Nat.add_assoc]

theorem size_of_general {d : Concat} {shapes : List Shape} {out : Shape}
    (h : outShape.general d shapes = .ok out) : (shapes.map Shape.size).sum = out.size := by
  obtain ⟨first, hfirst, h⟩ := bind_eq_ok_iff.mp h
  obtain ⟨axis, haxis, h⟩ := bind_eq_ok_iff.mp h
  obtain ⟨extent, hextent, h⟩ := bind_eq_ok_iff.mp h
  obtain ⟨total, htotal, h⟩ := bind_eq_ok_iff.mp h
  obtain rfl := Except.ok.inj h
  obtain ⟨rest, rfl⟩ := List.head?_eq_some_iff.mp (present_eq_ok hfirst)
  have hlt : axis < first.length := Axis.lt_of_resolve haxis
  have hself : first.set axis extent = first := by
    obtain ⟨_, rfl⟩ := List.getElem?_eq_some_iff.mp (present_eq_ok hextent)
    exact List.set_getElem_self hlt
  rw [← size_of_joined hlt htotal, hself]
  rfl

theorem size_of_outShape {d : Concat} {shapes : List Shape} {out : Shape}
    (h : d.outShape shapes = .ok out) : (shapes.map Shape.size).sum = out.size := by
  unfold outShape at h
  split at h
  next a b =>
    change d.outShape [a, b] = .ok out at h
    rw [outShape_pair_exact] at h
    have hsum : (List.map Shape.size [a, b]).sum = a.size + b.size := rfl
    by_cases ha : a.size = 0
    · rw [if_pos ha] at h
      rw [hsum, ha, Nat.zero_add, Except.ok.inj h]
    · rw [if_neg ha] at h
      by_cases hb : b.size = 0
      · rw [if_pos hb] at h
        rw [hsum, hb, Nat.add_zero, Except.ok.inj h]
      · rw [if_neg hb] at h
        exact size_of_general h
  next => exact size_of_general h

/-- The time of a join in exact arithmetic is that of its output. -/
theorem map_metrics {α : Type} [Scalar α] [Scalar.Exact α] {d : Concat}
    {inputs outputs : List TensorType} {out : TensorType} {cx : CostContext}
    (h : d.outShape (inputs.map TensorType.shape) = .ok out.shape) :
    (metrics (α := α) d ⟨inputs, out :: outputs⟩ cx).map Metrics.computeTime =
      some (Scalar.ofNat out.size / 1e9) := by
  have hsizes : (inputs.map TensorType.size).sum = out.size := by
    rw [TensorType.size, ← size_of_outShape h, List.map_map]
    rfl
  have helements : inputs.map (TensorType.elements (α := α)) =
      (inputs.map TensorType.size).map Scalar.ofNat := by
    rw [List.map_map]
    rfl
  -- The formula adds up the inputs one by one.
  change some (Scalar.sum (inputs.map TensorType.elements) / 1e9) = _
  rw [helements, Scalar.sum_ofNat, hsizes]

end Concat

instance : Keyed Operator.concat where
  sameTime {d d' _ _ _ _} h h' keys := by
    obtain ⟨out, rfl, hout⟩ := exists_single h.outShapes_eq
    obtain ⟨out', rfl, hout'⟩ := exists_single h'.outShapes_eq
    have hkey := (List.cons.inj (List.cons.inj (keys.tail_eq rfl rfl)).2).2
    have hshape : out.shape = out'.shape := keys.output_eq hkey
    refine sameTime_of_eq fun cx => ?_
    rw [Concat.map_metrics hout, Concat.map_metrics hout', TensorType.size, hshape]
    rfl

theorem Split.computeTime_eq {α : Type} [Scalar α] {d : Split} {x : TensorType}
    {rest outputs : List TensorType} {cx : CostContext} {m : Metrics α}
    (h : metrics d ⟨x :: rest, outputs⟩ cx = some m) : m.computeTime = d.computeTime x := by
  obtain ⟨_, hx, h⟩ := Option.bind_eq_some_iff.mp h
  obtain rfl := Option.some.inj hx
  obtain ⟨out, _, h⟩ := Option.bind_eq_some_iff.mp h
  obtain rfl := Option.some.inj h
  rfl

/-- The pieces matter to the time by their number only. -/
instance : Keyed Operator.split := by
  refine .of_input (fun _ => Nat.le_refl 1) (fun _ _ keys => ?_) ?_
  · exact keys.input_eq_of_append (keys.tail_eq rfl rfl) (keys.settings_eq rfl rfl)
  · intro d d' s t t' rest rest' outputs outputs' h h' keys
    have hnumbers : [d.resolved, d.pieces.count] = [d'.resolved, d'.pieces.count] :=
      words_inj keys.fits.numbers keys.fits'.numbers (keys.settings_eq rfl rfl)
    simp only [List.cons.injEq, and_true] at hnumbers
    obtain ⟨hresolved, hcount⟩ := hnumbers
    constructor
    intro α _ _ cx m m' hm hm'
    rw [Split.computeTime_eq hm, Split.computeTime_eq hm']
    simp only [Split.computeTime, hresolved, hcount]
    rfl

namespace Extend

/-- The resolved axis is repeated, and no other. -/
theorem exists_output {d : Extend} {x : TensorType} {rest outputs : List TensorType}
    (h : Registered d (x :: rest) outputs) : ∃ extent t, x.shape[d.resolved]? = some extent ∧
      outputs = [⟨x.shape.set d.resolved (extent * (d.num + 1)), t⟩] := by
  obtain ⟨⟨out, t⟩, rfl, hout⟩ := exists_single (r := d.outShape x.shape) h.outShapes_eq
  obtain ⟨given, resolved, hresolved, rfl⟩ := h.exists_resolved
    (f := fun given : Extend => Axis.resolve given.axis x.rank)
    (s := fun given resolved => { given with resolved }) fun _ => rfl
  rw [outShape_exact] at hout
  obtain ⟨axis, haxis, hout⟩ := bind_eq_ok_iff.mp hout
  obtain ⟨extent, hextent, hout⟩ := bind_eq_ok_iff.mp hout
  obtain rfl : resolved = axis := Except.ok.inj (hresolved.symm.trans haxis)
  obtain rfl := Except.ok.inj hout
  exact ⟨extent, t, present_eq_ok hextent, rfl⟩

theorem computeTime_eq {α : Type} [Scalar α] {d : Extend} {x out : TensorType}
    {rest outputs : List TensorType} {cx : CostContext} {m : Metrics α}
    (h : metrics d ⟨x :: rest, out :: outputs⟩ cx = some m) : m.computeTime =
      out.elements * (1.0 + Scalar.log2 (Scalar.ofNat (d.num + 1)) * 0.1) / 1e9 := by
  obtain ⟨_, hx, h⟩ := Option.bind_eq_some_iff.mp h
  obtain rfl := Option.some.inj hx
  obtain ⟨_, hout, h⟩ := Option.bind_eq_some_iff.mp h
  obtain rfl := Option.some.inj hout
  obtain ⟨extent, _, h⟩ := Option.bind_eq_some_iff.mp h
  obtain rfl := Option.some.inj h
  rfl

end Extend

instance : Keyed Operator.extend := by
  refine .of_input (fun _ => Nat.le_refl 1) (fun _ _ keys => ?_) ?_
  · exact keys.input_eq_of_append (keys.tail_eq rfl rfl) (keys.settings_eq rfl rfl)
  · intro d d' s t t' rest rest' outputs outputs' h h' keys
    have hnumbers : [d.resolved, d.num] = [d'.resolved, d'.num] :=
      words_inj keys.fits.numbers keys.fits'.numbers (keys.settings_eq rfl rfl)
    simp only [List.cons.injEq, and_true] at hnumbers
    obtain ⟨hresolved, hnum⟩ := hnumbers
    obtain ⟨extent, u, hextent, rfl⟩ := Extend.exists_output h
    obtain ⟨extent', u', hextent', rfl⟩ := Extend.exists_output h'
    rw [hresolved] at hextent
    obtain rfl := Option.some.inj (hextent.symm.trans hextent')
    constructor
    intro α _ _ cx m m' hm hm'
    rw [Extend.computeTime_eq hm, Extend.computeTime_eq hm', hresolved, hnum]
    rfl

namespace Slice

theorem key_injective {ranges ranges' : List AxisRange} (h : key ranges = key ranges') :
    ranges = ranges' := by
  induction ranges generalizing ranges' with
  | nil =>
    cases ranges' with
    | nil => rfl
    | cons r' ranges' => cases h
  | cons r ranges ih =>
    cases ranges' with
    | nil => cases h
    | cons r' ranges' =>
      -- Each range gives three entries.
      have hcons (r : AxisRange) (rs : List AxisRange) :
          key (r :: rs) = r.start :: r.stop :: r.step :: key rs := rfl
      rw [hcons, hcons] at h
      simp only [List.cons.injEq] at h
      obtain ⟨hstart, hstop, hstep, hrest⟩ := h
      have hr : r = r' := by rw [AxisRange.mk.injEq]; exact ⟨hstart, hstop, hstep⟩
      rw [hr, ih hrest]

/-- There is a range for each axis of the input. -/
theorem length_ranges {d : Slice} {x : TensorType} {rest outputs : List TensorType}
    (h : Registered d (x :: rest) outputs) : d.ranges.length = x.shape.length := by
  obtain ⟨given, ranges, hranges, rfl⟩ := h.exists_resolved
    (f := fun given : Slice => given.resolveRanges x.shape)
    (s := fun given ranges => { given with ranges }) fun _ => rfl
  exact ((Slice.meets_resolveRanges (fun _ => trivial) given x.shape).of_ok hranges).length

/-- The ranges in front tell the rank, and so where the input ends and the output begins. -/
theorem shapes_eq_of_keys {d d' : Slice} {x x' out out' : TensorType}
    {rest rest' : List TensorType} (h : Registered d (x :: rest) [out])
    (h' : Registered d' (x' :: rest') [out'])
    (keys : (Operator.slice d).SameKeys (.slice d') ⟨x :: rest, [out]⟩ ⟨x' :: rest', [out']⟩) :
    d.ranges = d'.ranges ∧ x.shape = x'.shape ∧ out.shape = out'.shape := by
  have hranges : d.ranges = d'.ranges := key_injective (keys.settings_eq rfl rfl)
  have hkey : key d.ranges ++ words (x.shape ++ out.shape) =
      key d'.ranges ++ words (x'.shape ++ out'.shape) := keys.tail_eq rfl rfl
  have hlen : x.shape.length = x'.shape.length := by
    rw [← length_ranges h, ← length_ranges h', hranges]
  rw [hranges] at hkey
  have hshapes : x.shape ++ out.shape = x'.shape ++ out'.shape :=
    words_inj ((keys.fits.inputs _ List.mem_cons_self).append
      (keys.fits.outputs _ List.mem_cons_self))
      ((keys.fits'.inputs _ List.mem_cons_self).append
        (keys.fits'.outputs _ List.mem_cons_self)) (List.append_cancel_left hkey)
  exact ⟨hranges, List.append_inj hshapes hlen⟩

theorem decodes : Decodes Operator.slice fun d d' => d.ranges = d'.ranges := by
  refine .of_single (fun _ => rfl) ?_
  intro d d' x x' outputs outputs' h h' keys
  obtain ⟨out, rfl, _⟩ := exists_single (r := d.outShape x.shape) h.outShapes_eq
  obtain ⟨out', rfl, _⟩ := exists_single (r := d'.outShape x'.shape) h'.outShapes_eq
  obtain ⟨hranges, hshape, _⟩ := shapes_eq_of_keys h h' keys
  exact ⟨hshape, hranges⟩

end Slice

instance : Keyed Operator.slice where
  sameTime {d d' _ _ _ _} h h' keys := by
    obtain ⟨x, rest, rfl⟩ := Arity.exists_cons_of_accepts h.accepts (Nat.le_refl 1)
    obtain ⟨x', rest', rfl⟩ := Arity.exists_cons_of_accepts h'.accepts (Nat.le_refl 1)
    obtain ⟨⟨out, u⟩, rfl, _⟩ := exists_single (r := d.outShape x.shape) h.outShapes_eq
    obtain ⟨⟨out', u'⟩, rfl, _⟩ := exists_single (r := d'.outShape x'.shape) h'.outShapes_eq
    obtain ⟨hranges, _, hout⟩ := Slice.shapes_eq_of_keys h h' keys
    obtain rfl : out = out' := hout
    refine sameTime_of_eq fun cx => ?_
    change some (_ * 2.0 * Slice.discontinuity d.ranges / 5e9) =
      some (_ * 2.0 * Slice.discontinuity d'.ranges / 5e9)
    rw [hranges]
    rfl

namespace Pad

/-- Each axis with the pads at both of its ends. -/
def padded [Build] (resolved : List Nat) (s : Shape) : Inference Shape :=
  s.zipIdx.mapM fun (extent, axis) => do
    let begun ← Word.add extent (← present resolved[axis]?)
    Word.add begun (← present resolved[axis + s.length]?)

/-- The output of a registered padding follows from what the pads resolve to. -/
theorem padded_eq {d : Pad} {x out : TensorType} {rest : List TensorType}
    (h : Registered d (x :: rest) [out]) : padded d.resolved x.shape = .ok out.shape := by
  obtain ⟨_, ⟨⟩, hout⟩ := exists_single (r := d.outShape x.shape) h.outShapes_eq
  obtain ⟨given, resolved, hresolved, rfl⟩ := h.exists_resolved
    (f := fun given : Pad => given.resolvePads x.rank)
    (s := fun given resolved => { given with resolved }) fun _ => rfl
  obtain ⟨pads, hpads, hout⟩ := bind_eq_ok_iff.mp hout
  obtain rfl : resolved = pads := Except.ok.inj (hresolved.symm.trans hpads)
  exact hout

theorem computeTime_eq {α : Type} [Scalar α] {d : Pad} {x out : TensorType}
    {rest outputs : List TensorType} {cx : CostContext} {m : Metrics α}
    (h : metrics d ⟨x :: rest, out :: outputs⟩ cx = some m) : m.computeTime =
      (2.0 * x.elements + (out.elements - x.elements) + 0.1 * out.elements) / 1e9 := by
  obtain ⟨_, hx, h⟩ := Option.bind_eq_some_iff.mp h
  obtain rfl := Option.some.inj hx
  obtain ⟨_, hout, h⟩ := Option.bind_eq_some_iff.mp h
  obtain rfl := Option.some.inj hout
  obtain ⟨totals, _, h⟩ := Option.bind_eq_some_iff.mp h
  obtain rfl := Option.some.inj h
  rfl

theorem decodes : Decodes Operator.pad fun d d' => d.resolved = d'.resolved := by
  refine .of_settings (fun d => words d.resolved) (fun _ => rfl) (fun _ _ _ => rfl)
    (fun _ => rfl) ?_
  intro d d' io io' keys _ hsettings
  exact words_inj keys.fits.numbers keys.fits'.numbers hsettings

end Pad

instance : Keyed Operator.pad where
  sameTime {d d' _ _ _ _} h h' keys := by
    obtain ⟨⟨x, t⟩, rest, rfl⟩ := Arity.exists_cons_of_accepts h.accepts (Nat.le_refl 1)
    obtain ⟨⟨x', t'⟩, rest', rfl⟩ := Arity.exists_cons_of_accepts h'.accepts (Nat.le_refl 1)
    obtain ⟨⟨out, u⟩, rfl, _⟩ := exists_single (r := d.outShape x) h.outShapes_eq
    obtain ⟨⟨out', u'⟩, rfl, _⟩ := exists_single (r := d'.outShape x') h'.outShapes_eq
    have hattributes := keys.settings_eq rfl rfl
    have hresolved : d.resolved = d'.resolved :=
      words_inj keys.fits.numbers keys.fits'.numbers hattributes
    obtain rfl : x = x' := keys.input_eq_of_append (keys.tail_eq rfl rfl) hattributes
    have hout := Pad.padded_eq h
    rw [hresolved] at hout
    obtain rfl : out = out' := Except.ok.inj (hout.symm.trans (Pad.padded_eq h'))
    constructor
    intro α _ _ cx m m' hm hm'
    rw [Pad.computeTime_eq hm, Pad.computeTime_eq hm']
    rfl

end DataflowCost
