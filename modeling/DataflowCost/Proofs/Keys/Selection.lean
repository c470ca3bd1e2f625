import DataflowCost.Proofs.Families.Selection
import DataflowCost.Proofs.Keys.Basic

/-! The keys of families that select by an input. The extents of data and indices stand in one list,
which is only read back where their ranks are known. -/
namespace DataflowCost

open Inference Family
open scoped ExactArithmetic

namespace Gather

/-- The axes of the indices stand in place of the resolved axis. -/
theorem out_eq {d : Gather} {data indices : TensorType} {rest outputs : List TensorType}
    (h : Registered d (data :: indices :: rest) outputs) : d.resolved < data.shape.length ∧
      ∃ t, outputs = [⟨data.shape.take d.resolved ++ indices.shape ++
        data.shape.drop (d.resolved + 1), t⟩] := by
  obtain ⟨⟨out, t⟩, rfl, hout⟩ :=
    exists_single (r := d.outShape data.shape indices.shape) h.outShapes_eq
  have hresolve : Axis.resolve d.axis data.shape.length = .ok d.resolved := h.lawful data rfl
  have hlt : d.resolved < data.shape.length := Axis.lt_of_resolve hresolve
  obtain ⟨axis, haxis, hout⟩ := bind_eq_ok_iff.mp hout
  obtain rfl : d.resolved = axis := Except.ok.inj (hresolve.symm.trans haxis)
  obtain ⟨outer, houter, hout⟩ := bind_eq_ok_iff.mp hout
  obtain ⟨inner, hinner, hout⟩ := bind_eq_ok_iff.mp hout
  obtain rfl := (Shape.meets_before (Nat.le_of_lt hlt)).of_ok houter
  obtain rfl := (Shape.meets_from hlt).of_ok hinner
  obtain rfl := Except.ok.inj hout
  exact ⟨hlt, t, rfl⟩

/-- The time of `size` elements that are gathered from `inner` neighbours in each of `outer` places.
-/
def time {α : Type} [Scalar α] (resolved : Nat) (size outer inner : α) : α :=
  let discontinuity := if 0 < resolved then 1.0 + Scalar.log2 outer * 0.1 else 1.0
  size / Scalar.maximum inner 1.0 * 2.0 * discontinuity / 8e8

theorem computeTime_eq {α : Type} [Scalar α] {d : Gather} {data indices out : TensorType}
    {rest outputs : List TensorType} {cx : CostContext} {m : Metrics α}
    (hlt : d.resolved < data.shape.length)
    (h : metrics d ⟨data :: indices :: rest, out :: outputs⟩ cx = some m) :
    m.computeTime = time d.resolved out.elements (Scalar.volume (data.shape.take d.resolved))
      (Scalar.volume (data.shape.drop (d.resolved + 1))) := by
  obtain ⟨_, hdata, h⟩ := Option.bind_eq_some_iff.mp h
  obtain rfl := Option.some.inj hdata
  obtain ⟨_, _, h⟩ := Option.bind_eq_some_iff.mp h
  obtain ⟨_, hout, h⟩ := Option.bind_eq_some_iff.mp h
  obtain rfl := Option.some.inj hout
  obtain ⟨inner, hinner, h⟩ := Option.bind_eq_some_iff.mp h
  obtain ⟨outer, houter, h⟩ := Option.bind_eq_some_iff.mp h
  obtain rfl := Option.some.inj ((Shape.from?_of_le hlt).symm.trans hinner)
  obtain rfl := Option.some.inj ((Shape.before?_of_le (Nat.le_of_lt hlt)).symm.trans houter)
  obtain rfl := Option.some.inj h
  rfl

end Gather

instance : Keyed Operator.gather where
  sameTime {d d' _ _ _ _} h h' keys := by
    obtain ⟨⟨data, t⟩, ⟨indices, u⟩, rest, rfl⟩ :=
      Arity.exists_cons₂_of_accepts h.accepts (Nat.le_refl 2)
    obtain ⟨⟨data', t'⟩, ⟨indices', u'⟩, rest', rfl⟩ :=
      Arity.exists_cons₂_of_accepts h'.accepts (Nat.le_refl 2)
    obtain ⟨hlt, v, rfl⟩ := Gather.out_eq h
    obtain ⟨hlt', v', rfl⟩ := Gather.out_eq h'
    have hattributes := keys.settings_eq rfl rfl
    have hresolved : d.resolved = d'.resolved := keys.number_eq rfl rfl rfl rfl
    have hkey : words (data ++ indices) ++ [word d.resolved] =
        words (data' ++ indices') ++ [word d'.resolved] := keys.tail_eq rfl rfl
    rw [words_append, words_append] at hkey
    -- The key itself does not say where the data end and the indices begin.
    have hrank : data.length = data'.length := Option.some.inj keys.agrees
    obtain ⟨rfl, rfl⟩ : data = data' ∧ indices = indices' :=
      keys.inputs_eq_of_append hrank hattributes hkey
    constructor
    intro α _ _ cx m m' hm hm'
    rw [Gather.computeTime_eq hlt hm, Gather.computeTime_eq hlt' hm', hresolved]
    rfl

namespace GatherElements

/-- Data and indices have the same rank. -/
theorem rank_eq {d : GatherElements} {data indices : TensorType} {rest outputs : List TensorType}
    (h : Registered d (data :: indices :: rest) outputs) :
    data.shape.length = indices.shape.length := by
  obtain ⟨_, _, hout⟩ := exists_single (r := d.outShape data.shape indices.shape) h.outShapes_eq
  obtain ⟨_, _, hout⟩ := bind_eq_ok_iff.mp hout
  obtain ⟨_, hrank, _⟩ := bind_eq_ok_iff.mp hout
  exact of_require hrank

theorem computeTime_eq {α : Type} [Scalar α] {d : GatherElements} {data indices : TensorType}
    {rest outputs : List TensorType} {cx : CostContext} {m : Metrics α}
    (h : metrics d ⟨data :: indices :: rest, outputs⟩ cx = some m) :
    ∃ slowdown : α, d.discontinuity? data.shape = some slowdown ∧
      m.computeTime = indices.elements * 3.0 * slowdown / 5e8 := by
  obtain ⟨_, hdata, h⟩ := Option.bind_eq_some_iff.mp h
  obtain rfl := Option.some.inj hdata
  obtain ⟨_, hindices, h⟩ := Option.bind_eq_some_iff.mp h
  obtain rfl := Option.some.inj hindices
  obtain ⟨out, _, h⟩ := Option.bind_eq_some_iff.mp h
  obtain ⟨slowdown, hslowdown, h⟩ := Option.bind_eq_some_iff.mp h
  obtain rfl := Option.some.inj h
  exact ⟨slowdown, hslowdown, rfl⟩

/-- The list of both shapes is twice as long as the rank of either. -/
theorem operands_eq_of_keys {d d' : GatherElements} {data data' indices indices' : TensorType}
    {rest rest' outputs outputs' : List TensorType}
    (h : Registered d (data :: indices :: rest) outputs)
    (h' : Registered d' (data' :: indices' :: rest') outputs')
    (keys : (Operator.gatherElements d).SameKeys (.gatherElements d')
      ⟨data :: indices :: rest, outputs⟩ ⟨data' :: indices' :: rest', outputs'⟩) :
    data.shape = data'.shape ∧ indices.shape = indices'.shape := by
  have hkey : words (data.shape ++ indices.shape) ++ [word d.resolved] =
      words (data'.shape ++ indices'.shape) ++ [word d'.resolved] := keys.tail_eq rfl rfl
  have hrank : data.shape.length = data'.shape.length := by
    have hdata : data.shape.length = indices.shape.length := rank_eq h
    have hdata' : data'.shape.length = indices'.shape.length := rank_eq h'
    have hlen := congrArg List.length hkey
    simp only [words, List.length_append, List.length_map, List.length_singleton] at hlen
    omega
  rw [words_append, words_append] at hkey
  exact keys.inputs_eq_of_append hrank (keys.settings_eq rfl rfl) hkey

theorem decodes : Decodes Operator.gatherElements fun d d' => d.resolved = d'.resolved where
  decode h h' keys := by
    obtain ⟨data, indices, rfl⟩ := Arity.eq_pair_of_accepts h.accepts
    obtain ⟨data', indices', rfl⟩ := Arity.eq_pair_of_accepts h'.accepts
    obtain ⟨hdata, hindices⟩ := operands_eq_of_keys h h' keys
    have hresolved := keys.number_eq rfl rfl rfl rfl
    refine ⟨?_, hresolved⟩
    simp only [List.map_cons, List.map_nil, hdata, hindices]

end GatherElements

instance : Keyed Operator.gatherElements where
  sameTime {d d' _ _ _ _} h h' keys := by
    obtain ⟨⟨data, t⟩, ⟨indices, u⟩, rest, rfl⟩ :=
      Arity.exists_cons₂_of_accepts h.accepts (Nat.le_refl 2)
    obtain ⟨⟨data', t'⟩, ⟨indices', u'⟩, rest', rfl⟩ :=
      Arity.exists_cons₂_of_accepts h'.accepts (Nat.le_refl 2)
    have hresolved : d.resolved = d'.resolved := keys.number_eq rfl rfl rfl rfl
    obtain ⟨rfl, rfl⟩ : data = data' ∧ indices = indices' :=
      GatherElements.operands_eq_of_keys h h' keys
    constructor
    intro α _ _ cx m m' hm hm'
    obtain ⟨slowdown, hslowdown, hm⟩ := GatherElements.computeTime_eq hm
    obtain ⟨slowdown', hslowdown', hm'⟩ := GatherElements.computeTime_eq hm'
    have hsame : d.discontinuity? (α := α) data = d'.discontinuity? data := by
      simp only [GatherElements.discontinuity?, hresolved]
    obtain rfl := Option.some.inj (hslowdown.symm.trans (hsame.trans hslowdown'))
    rw [hm, hm']
    rfl

theorem CoordinateRule.tag_injective {a b : CoordinateRule} (h : a.tag = b.tag) : a = b := by
  cases a <;> cases b <;> first | rfl | cases h

namespace Resize

/-- A resized tensor keeps its rank. -/
theorem exists_operands {d : Resize Float32} {inputs outputs : List TensorType}
    (h : Registered d inputs outputs) : ∃ x rest out, inputs = x :: rest ∧ outputs = [out] ∧
      x.shape.length = out.shape.length := by
  obtain ⟨x, rest, rfl⟩ := Arity.exists_cons_of_accepts h.accepts (Nat.le_succ 1)
  obtain ⟨out, rfl, hout⟩ := exists_single (r := d.outShape x.shape) h.outShapes_eq
  obtain ⟨_, hscales, hout⟩ := bind_eq_ok_iff.mp hout
  refine ⟨x, rest, out, rfl, rfl, ?_⟩
  rw [← Except.ok.inj hout, List.length_zipWith, of_require hscales, Nat.min_self]

/-- The coordinate rule and the number of resized axes stand in the attributes. -/
theorem work_congr {α : Type} [Scalar α] {d d' : Resize Float32} (hmode : d.mode = d'.mode)
    (h : attributes d = attributes d') (size : α) : d.work size = d'.work size := by
  have hattributes : words d.resolvedAxes ++ [d.coordinates.tag, d.nearest.tag, d.ratio.tag] =
      words d'.resolvedAxes ++ [d'.coordinates.tag, d'.nearest.tag, d'.ratio.tag] :=
    (List.cons.inj h).2
  obtain ⟨haxes, hrules⟩ := List.append_inj' hattributes rfl
  have hlen : d.resolvedAxes.length = d'.resolvedAxes.length := by
    simpa [words] using congrArg List.length haxes
  have hcoordinates : d.coordinates = d'.coordinates :=
    CoordinateRule.tag_injective (List.cons.inj hrules).1
  simp only [work, hmode, hcoordinates, hlen]

end Resize

instance : Keyed Operator.resize where
  sameTime {d d' _ _ _ _} h h' keys := by
    obtain ⟨x, rest, out, rfl, rfl, hlen⟩ := Resize.exists_operands h
    obtain ⟨x', rest', out', rfl, rfl, hlen'⟩ := Resize.exists_operands h'
    have hkey : words (x.shape ++ out.shape) ++ [d.coordinates.tag, d.nearest.tag] =
        words (x'.shape ++ out'.shape) ++ [d'.coordinates.tag, d'.nearest.tag] :=
      keys.tail_eq rfl rfl
    obtain ⟨hshapes, _⟩ := List.append_inj' hkey rfl
    -- Input and output have one rank, so half of the list is the input.
    have hrank : x.shape.length = x'.shape.length := by
      have hlength := congrArg List.length hshapes
      simp only [words, List.length_append, List.length_map] at hlength
      omega
    rw [words_append, words_append] at hshapes
    have hout : out.shape = out'.shape :=
      keys.output_eq (List.append_inj hshapes (by simp [words, hrank])).2
    refine sameTime_of_eq fun cx => ?_
    change some (d.work (Scalar.ofNat out.shape.size) / 1e9) =
      some (d'.work (Scalar.ofNat out'.shape.size) / 1e9)
    rw [Resize.work_congr keys.agrees keys.attributes_eq, hout]

end DataflowCost
