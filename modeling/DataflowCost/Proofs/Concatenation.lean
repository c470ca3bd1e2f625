import DataflowCost.Proofs.Appended
import DataflowCost.Proofs.Extents
import DataflowCost.Proofs.Infers
import DataflowCost.Proofs.Monotone.Basic
import DataflowCost.Proofs.Resolution.Range
import DataflowCost.Proofs.Windows

/-! Concatenation along one axis, and division, which it undoes. Extents on the axis add up for any number of
inputs but two. Of two inputs an empty one is passed over, and where another axis has no extent both are. -/
namespace DataflowCost

open Inference

namespace Shape

/-- The first shape, with the extents of all shapes on the axis in one. -/
def stack (axis : Nat) (first : Shape) (rest : List Shape) : Shape :=
  first.set axis ((first :: rest).map fun s => s.extentAt axis).sum

variable {axis : Nat} {a b first : Shape} {rest : List Shape}

theorem stack_nil (h : axis < first.length) : stack axis first [] = first := by
  simpa [stack] using set_extentAt h

theorem stack_pair (axis : Nat) (a b : Shape) :
    stack axis a [b] = a.set axis (a.extentAt axis + b.extentAt axis) := by
  rw [stack, List.map_cons, List.map_singleton, List.sum_cons, List.sum_singleton]

/-- Shapes may be stacked one after the other. -/
theorem stack_cons (h : axis < a.length) :
    stack axis a (b :: rest) = stack axis (stack axis a [b]) rest := by
  simp [stack, extentAt_set h, List.set_set, Nat.add_assoc]

theorem agreeOff_stack (axis : Nat) (first : Shape) (rest : List Shape) :
    AgreeOff axis first (stack axis first rest) :=
  .set axis first _

/-- The pieces of an axis stack up to the axis in one piece. -/
theorem stack_pieces {s : Shape} (h : axis < s.length) (extent : Nat) (extents : List Nat) :
    stack axis (s.set axis extent) (extents.map fun extent => s.set axis extent) =
      s.set axis (extent :: extents).sum := by
  have hat : (fun extent => extentAt (s.set axis extent) axis) = id := funext (extentAt_set h)
  rw [stack, List.set_set, ← List.map_cons, List.map_map]
  change s.set axis (List.map (fun extent => extentAt (s.set axis extent) axis) _).sum = _
  rw [hat, List.map_id]

theorem stack_eq_set_iff (h : axis < first.length) {extent : Nat} :
    stack axis first rest = first.set axis extent ↔
      ((first :: rest).map fun s => s.extentAt axis).sum = extent := by
  constructor
  · intro heq
    rw [← extentAt_set h extent, ← heq, stack, extentAt_set h]
  · intro hsum
    rw [stack, hsum]

/-- The last shape is the whole stack if no other one has an extent on the axis. -/
theorem getLast_eq_stack_iff (h : axis < first.length) (hagree : ∀ s ∈ rest, AgreeOff axis first s)
    {last : Shape} (hlast : (first :: rest).getLast? = some last) :
    last = stack axis first rest ↔ ∀ s ∈ (first :: rest).dropLast, s.extentAt axis = 0 := by
  rcases List.eq_nil_or_concat rest with rfl | ⟨init, s, rfl⟩
  · obtain rfl : first = last := Option.some.inj hlast
    simp [stack_nil h]
  · -- The last shape stands behind the others, whose extents have to add up to nothing.
    rw [List.concat_eq_append] at hagree hlast ⊢
    obtain rfl : s = last := by simpa [List.getLast?_cons] using hlast
    have hs : AgreeOff axis first s := hagree s (by simp)
    have hsum : ((first :: (init ++ [s])).map fun t => t.extentAt axis).sum =
        ((first :: init).map fun t => t.extentAt axis).sum + s.extentAt axis := by
      rw [← List.cons_append, List.map_append, List.sum_append, List.map_singleton,
        List.sum_singleton]
    have hdrop : (first :: (init ++ [s])).dropLast = first :: init := by
      rw [← List.cons_append, List.dropLast_concat]
    have hstack : stack axis first (init ++ [s]) = first.set axis (s.extentAt axis) ↔ _ :=
      stack_eq_set_iff h
    rw [eq_comm, hdrop]
    rw [← hs.eq_set h, hsum, Nat.add_eq_right, List.sum_eq_zero_iff] at hstack
    rw [hstack, List.forall_mem_map]

theorem AgreeOff.within (h : AgreeOff axis a b) (hle : a.extentAt axis ≤ b.extentAt axis) :
    Within a b := by
  refine List.forall₂_iff_get.mpr ⟨h.length_eq.symm, fun i hi hi' => ?_⟩
  simp only [List.get_eq_getElem]
  by_cases haxis : i = axis
  · obtain rfl := haxis
    simpa [extentAt, hi, hi'] using hle
  · have heq : b[i]? = a[i]? := h.getElem?_eq haxis
    rw [List.getElem?_eq_getElem hi, List.getElem?_eq_getElem hi'] at heq
    exact (Option.some.inj heq).ge

theorem Fits.of_within [Build] (h : Within a b) (hb : b.Fits) : a.Fits := by
  unfold Fits at hb ⊢
  cases hbuild : Build.overflow with
  | exact => trivial
  | wraps =>
    rw [hbuild] at hb
    exact Nat.lt_of_le_of_lt h.size_le hb
  | traps =>
    rw [hbuild] at hb
    exact fun k => Nat.lt_of_le_of_lt (h.take k).size_le (hb k)

theorem extentAt_le_size (h : axis < a.length) (hpos : 0 < a.size) : a.extentAt axis ≤ a.size := by
  refine Nat.le_of_dvd hpos ?_
  rw [← set_extentAt h, size_set h, extentAt_set h]
  exact Dvd.intro _ rfl

end Shape

/-- The tensor with another extent on one axis. -/
def TensorType.withExtent (x : TensorType) (axis extent : Nat) : TensorType :=
  { x with shape := x.shape.set axis extent }

theorem TensorType.eq_map_of_dtype {types : List TensorType} {t : DType}
    (h : ∀ x ∈ types, x.dtype = t) : types = (types.map shape).map fun s => ⟨s, t⟩ := by
  rw [List.map_map]
  apply (List.map_id types).symm.trans
  apply List.map_congr_left
  intro x hx
  rw [id, Function.comp_apply, ← h x hx]

theorem Pieces.length_cuts (pieces : Pieces) (extent : Nat) :
    (pieces.cuts extent).length = pieces.count := by
  cases pieces with
  | equal count => exact List.length_map _ |>.trans List.length_range
  | ratio parts => exact List.length_map _

/-- A division makes the pieces that are asked for, which differ from the input on one axis only. -/
theorem Split.eq_cuts_of_outShapes [Build] {d : Split} {s : Shape} {axis : Nat} {shapes : List Shape}
    (haxis : Axis.resolve d.axis s.length = .ok axis)
    (hfits : Build.Bounded → s.extentAt axis < Word.limit ∧ d.pieces.parts.sum < Word.limit)
    (h : d.outShapes s = .ok shapes) :
    shapes = (d.pieces.cuts (s.extentAt axis)).map (fun extent => s.set axis extent) ∧
      (d.pieces.cuts (s.extentAt axis)).sum = s.extentAt axis := by
  have hlt : axis < s.length := Axis.lt_of_resolve haxis
  obtain ⟨axis', haxis', h⟩ := bind_eq_ok_iff.mp h
  obtain rfl : axis = axis' := Except.ok.inj (haxis.symm.trans haxis')
  obtain ⟨extent, hextent, h⟩ := bind_eq_ok_iff.mp h
  obtain rfl : s.extentAt axis = extent :=
    Option.some.inj ((Shape.getElem?_eq_extentAt hlt).symm.trans (present_eq_ok hextent))
  obtain ⟨cuts, hcuts, h⟩ := bind_eq_ok_iff.mp h
  obtain ⟨rfl, hsum⟩ := cuts_of_extents hfits hcuts
  exact ⟨(Except.ok.inj h).symm, hsum⟩

namespace Concat

open Shape

variable {c : Concat} {axis : Nat} {first : Shape} {rest : List Shape}

theorem matchExtents_of_agreeOff {s : Shape} (h : AgreeOff axis first s) :
    matchExtents axis s first = .ok () := by
  apply forM_eq_ok
  rintro ⟨⟨extent, wanted⟩, position⟩ hmem
  have hpair := List.mk_mem_zipIdx_iff_getElem?.mp hmem
  obtain ⟨hextent, hwanted⟩ := List.getElem?_zip_eq_some.mp hpair
  apply if_pos
  by_cases hposition : position = axis
  · exact .inl hposition
  · right
    exact Option.some.inj (hextent.symm.trans ((h.getElem?_eq hposition).trans hwanted))

/-- The extents on the axis add up to a word, and the elements can be counted once they are in one. -/
structure Fits [Build] (axis : Nat) (first : Shape) (rest : List Shape) : Prop where
  sum_lt : ((first :: rest).map fun s => s.extentAt axis).sum < Word.limit
  stack_fits : (stack axis first rest).Fits

theorem Fits.of_mem [Build] (h : Fits axis first rest) (haxis : axis < first.length)
    (hagree : ∀ s ∈ rest, AgreeOff axis first s) {s : Shape} (hs : s ∈ first :: rest) : s.Fits := by
  have hoff : AgreeOff axis first s := by
    rcases List.mem_cons.mp hs with rfl | hs
    · exact ⟨rfl, fun _ => rfl⟩
    · exact hagree s hs
  refine Shape.Fits.of_within ?_ h.stack_fits
  apply (hoff.symm.trans (agreeOff_stack axis first rest)).within
  rw [stack, extentAt_set haxis]
  exact List.single_le_sum (fun _ _ => Nat.zero_le _) _ (List.mem_map_of_mem hs)

/-- What fits together fits with less behind it. -/
theorem Fits.pair [Build] (haxis : axis < first.length) {s : Shape} (h : Fits axis first (s :: rest)) :
    Fits axis first [s] := by
  have hsum : ((first :: [s]).map fun s => s.extentAt axis).sum ≤
      ((first :: s :: rest).map fun s => s.extentAt axis).sum := by
    simp only [List.map_cons, List.sum_cons, List.map_nil, List.sum_nil]
    omega
  refine ⟨Nat.lt_of_le_of_lt hsum h.sum_lt, Shape.Fits.of_within ?_ h.stack_fits⟩
  refine ((agreeOff_stack axis first [s]).symm.trans
    (agreeOff_stack axis first (s :: rest))).within ?_
  rw [stack, stack, extentAt_set haxis, extentAt_set haxis]
  exact hsum

section Joins

variable [Build]

theorem joined_of_agreeOff (haxis : axis < first.length) (h : ∀ s ∈ rest, AgreeOff axis first s)
    (extent : Nat)
    (hfits : Build.Bounded → extent + (rest.map fun s => s.extentAt axis).sum < Word.limit) :
    joined axis first extent rest = .ok (extent + (rest.map fun s => s.extentAt axis).sum) := by
  induction rest generalizing extent with
  | nil => rfl
  | cons s rest ih =>
    obtain ⟨hs, hrest⟩ := List.forall_mem_cons.mp h
    rw [List.map_cons, List.sum_cons, ← Nat.add_assoc] at hfits ⊢
    have hat : present s[axis]? = .ok (s.extentAt axis) := by
      rw [getElem?_eq_extentAt (hs.length_eq ▸ haxis)]
      rfl
    have hadd : Word.add extent (s.extentAt axis) = .ok (extent + s.extentAt axis) :=
      Word.add_eq fun hbounded => Nat.lt_of_le_of_lt (Nat.le_add_right _ _) (hfits hbounded)
    unfold joined
    rw [require_bind hs.length_eq, matchExtents_of_agreeOff hs, hat]
    change (do joined axis first (← Word.add extent (s.extentAt axis)) rest) = _
    rw [hadd]
    exact ih hrest _ hfits

theorem general_of_agreeOff (haxis : Axis.resolve c.axis first.length = .ok axis)
    (h : ∀ s ∈ rest, AgreeOff axis first s) (hfits : Build.Bounded → Fits axis first rest) :
    outShape.general c (first :: rest) = .ok (stack axis first rest) := by
  have hlt : axis < first.length := Axis.lt_of_resolve haxis
  have hat : present first[axis]? = .ok (first.extentAt axis) := by
    rw [getElem?_eq_extentAt hlt]
    rfl
  unfold outShape.general
  apply bind_eq_ok_iff.mpr
  refine ⟨first, rfl, ?_⟩
  apply bind_eq_ok_iff.mpr
  refine ⟨axis, haxis, ?_⟩
  apply bind_eq_ok_iff.mpr
  refine ⟨first.extentAt axis, hat, ?_⟩
  apply bind_eq_ok_iff.mpr
  exact ⟨_, joined_of_agreeOff hlt h _ fun hbounded => (hfits hbounded).sum_lt, rfl⟩

theorem outShape_of_length_ne (c : Concat) (h : rest.length ≠ 1) :
    c.outShape (first :: rest) = outShape.general c (first :: rest) := by
  match rest, h with
  | [], _ => rfl
  | _ :: _ :: _, _ => rfl

/-- Where another axis has no extent, two inputs make the second one. -/
theorem outShape_of_hollowOff (h : HollowOff axis first) {s : Shape}
    (hfits : Build.Bounded → ∀ t ∈ [first, s], t.Fits) : c.outShape [first, s] = .ok s := by
  rw [c.outShape_pair_eq (fun hbounded => hfits hbounded first (by simp))
    fun hbounded => hfits hbounded s (by simp)]
  exact if_pos (size_eq_zero_of_hollowOff h)

/-- Anywhere else an input that is passed over would have added nothing. -/
theorem outShape_of_agreeOff (haxis : Axis.resolve c.axis first.length = .ok axis)
    (h : ∀ s ∈ rest, AgreeOff axis first s) (hfull : rest.length = 1 → ¬ HollowOff axis first)
    (hfits : Build.Bounded → Fits axis first rest) :
    c.outShape (first :: rest) = .ok (stack axis first rest) := by
  have hlt : axis < first.length := Axis.lt_of_resolve haxis
  have hgeneral := general_of_agreeOff haxis h hfits
  by_cases hlen : rest.length = 1
  · obtain ⟨s, rfl⟩ := List.length_eq_one_iff.mp hlen
    have hs : AgreeOff axis first s := h s List.mem_cons_self
    rw [c.outShape_pair_eq (fun hbounded => (hfits hbounded).of_mem hlt h (by simp))
      fun hbounded => (hfits hbounded).of_mem hlt h (by simp)]
    -- Without a hollow axis elsewhere, an empty shape is one without extent on this axis.
    split
    next hempty =>
      have hzero : first.extentAt axis = 0 := extentAt_eq_zero_of_size hempty (hfull hlen)
      rw [stack_pair, hzero, Nat.zero_add, ← hs.eq_set hlt]
    next =>
      split
      next hempty =>
        have hzero : s.extentAt axis = 0 :=
          extentAt_eq_zero_of_size hempty (mt hs.hollowOff_iff.mp (hfull hlen))
        rw [stack_pair, hzero, Nat.add_zero, set_extentAt hlt]
      next => exact hgeneral
  · rw [outShape_of_length_ne c hlen, hgeneral]

theorem outShape_pieces {s : Shape} (haxis : Axis.resolve c.axis s.length = .ok axis)
    (hfull : ¬ HollowOff axis s) (extent : Nat) (extents : List Nat)
    (hfits : Build.Bounded → (extent :: extents).sum < Word.limit ∧
      Shape.Fits (s.set axis (extent :: extents).sum)) :
    c.outShape ((extent :: extents).map fun extent => s.set axis extent) =
      .ok (s.set axis (extent :: extents).sum) := by
  have hfirst : AgreeOff axis s (s.set axis extent) := .set axis s extent
  have hlt : axis < s.length := Axis.lt_of_resolve haxis
  rw [← stack_pieces hlt]
  apply outShape_of_agreeOff
  · rw [List.length_set]
    exact haxis
  · intro t ht
    obtain ⟨extent', _, rfl⟩ := List.mem_map.mp ht
    exact hfirst.symm.trans (.set axis s extent')
  · exact fun _ => mt hfirst.hollowOff_iff.mp hfull
  · intro hbounded
    obtain ⟨hsum, hstack⟩ := hfits hbounded
    refine ⟨?_, (stack_pieces hlt extent extents).symm ▸ hstack⟩
    have hat : (fun extent => extentAt (s.set axis extent) axis) = id := funext (extentAt_set hlt)
    rw [← List.map_cons, List.map_map, Function.comp_def, hat, List.map_id]
    exact hsum

end Joins

/-- Shapes that lose extent when they are joined two at a time: another axis has none, and some shape in
front of the last one has some on this axis. -/
def Loses (axis : Nat) (first : Shape) (rest : List Shape) : Prop :=
  HollowOff axis first ∧ ∃ s ∈ (first :: rest).dropLast, 0 < s.extentAt axis

/-- What joining from the left comes to, two at a time: the last shape where another axis has no extent,
and the stack anywhere else. -/
structure Chained (axis : Nat) (first : Shape) (rest : List Shape) (out : Shape) : Prop where
  agrees : AgreeOff axis first out
  hollow : HollowOff axis first → (first :: rest).getLast? = some out
  full : ¬ HollowOff axis first → out = stack axis first rest

theorem chained_nil (h : axis < first.length) : Chained axis first [] first where
  agrees := ⟨rfl, fun _ => rfl⟩
  hollow _ := rfl
  full _ := (stack_nil h).symm

theorem exists_chained_pair [Build] (haxis : Axis.resolve c.axis first.length = .ok axis) {s : Shape}
    (h : AgreeOff axis first s) (hfits : Build.Bounded → Fits axis first [s]) :
    ∃ out, c.outShape [first, s] = .ok out ∧ Chained axis first [s] out := by
  have hagree : ∀ t ∈ [s], AgreeOff axis first t := List.forall_mem_singleton.mpr h
  by_cases hhollow : HollowOff axis first
  · refine ⟨s, outShape_of_hollowOff hhollow fun hbounded t ht => ?_, h, fun _ => rfl,
      fun hfull => absurd hhollow hfull⟩
    exact (hfits hbounded).of_mem (Axis.lt_of_resolve haxis) hagree ht
  · refine ⟨stack axis first [s], ?_, agreeOff_stack axis first [s], ?_, fun _ => rfl⟩
    · exact outShape_of_agreeOff haxis hagree (fun _ => hhollow) hfits
    · exact fun hhollow' => absurd hhollow' hhollow

namespace Chained

variable {s out : Shape}

theorem cons (haxis : axis < first.length) {t : Shape} (h : Chained axis first [t] s)
    (hrest : Chained axis s rest out) : Chained axis first (t :: rest) out where
  agrees := h.agrees.trans hrest.agrees
  hollow hhollow := by
    obtain rfl : t = s := Option.some.inj (h.hollow hhollow)
    rw [List.getLast?_cons_cons]
    exact hrest.hollow (h.agrees.hollowOff hhollow)
  full hfull := by
    rw [stack_cons haxis, ← h.full hfull]
    exact hrest.full (mt h.agrees.hollowOff_iff.mp hfull)

theorem eq_stack_iff (haxis : axis < first.length) (hagree : ∀ s ∈ rest, AgreeOff axis first s)
    (h : Chained axis first rest out) : out = stack axis first rest ↔ ¬ Loses axis first rest := by
  by_cases hhollow : HollowOff axis first
  · rw [getLast_eq_stack_iff haxis hagree (h.hollow hhollow)]
    simp [Loses, hhollow]
  · simp [Loses, hhollow, h.full hhollow]

/-- What a pair makes fits with the shapes behind it as well as the pair does. -/
theorem fits [Build] (haxis : axis < first.length) {t : Shape} (h : Chained axis first [t] s)
    (hfits : Fits axis first (t :: rest)) : Fits axis s rest := by
  have hslen : axis < s.length := h.agrees.length_eq ▸ haxis
  -- The pair has no more extent on the axis than both of its members.
  have hle : s.extentAt axis ≤ first.extentAt axis + t.extentAt axis := by
    by_cases hhollow : HollowOff axis first
    · obtain rfl : t = s := Option.some.inj (h.hollow hhollow)
      exact Nat.le_add_left _ _
    · rw [h.full hhollow, stack_pair, extentAt_set haxis]
  have hsum : ((s :: rest).map fun s => s.extentAt axis).sum ≤
      ((first :: t :: rest).map fun s => s.extentAt axis).sum := by
    simp only [List.map_cons, List.sum_cons]
    omega
  refine ⟨Nat.lt_of_le_of_lt hsum hfits.sum_lt, Shape.Fits.of_within ?_ hfits.stack_fits⟩
  refine ((agreeOff_stack axis s rest).symm.trans
    (h.agrees.symm.trans (agreeOff_stack axis first (t :: rest)))).within ?_
  rw [stack, stack, extentAt_set hslen, extentAt_set haxis]
  exact hsum

theorem unique (h : Chained axis first rest out) (h' : Chained axis first rest s) : out = s := by
  by_cases hhollow : HollowOff axis first
  · exact Option.some.inj ((h.hollow hhollow).symm.trans (h'.hollow hhollow))
  · rw [h.full hhollow, h'.full hhollow]

end Chained

end Concat

namespace Graph

open Shape

variable {g : Graph} {c : Concat} {axis : Nat} {x : TensorType} {rest : List TensorType}

theorem node_of_view {o : OpId} {v : OpView} (h : g.view o = .ok v) : g.node o = .ok v.node := by
  obtain ⟨n, hn, h⟩ := bind_eq_ok_iff.mp h
  split at h
  next =>
    obtain rfl := Except.ok.inj h
    exact hn
  next => cases h

section Joins

variable [Build]

theorem infer_concat {ids : List TensorId} (htypes : g.typesOf? ids = some (x :: rest))
    (haxis : Axis.resolve c.axis x.rank = .ok axis) {s : Shape}
    (hs : c.outShape ((x :: rest).map TensorType.shape) = .ok s) :
    g.infer (.concat c) ids = .ok ⟨.concat { c with resolved := axis }, [⟨s, x.dtype⟩]⟩ := by
  have hwrap : Operator.Wraps Operator.concat := ⟨fun _ _ => rfl, fun _ _ hole => hole⟩
  apply (infer_eq_ok_iff_infers hwrap fun _ _ => ⟨_, rfl⟩).mpr
  refine ⟨x :: rest, { c with resolved := axis }, htypes, ⟨?_, ?_, ?_, rfl⟩, rfl⟩
  · simp [Family.arity, Arity.accepts, Arity.atLeast]
  · change Preparation.done (do return { c with resolved := ← Axis.resolve c.axis x.rank }) = _
    rw [haxis]
    rfl
  · change (do return [← c.outShape ((x :: rest).map TensorType.shape)]) = _
    rw [hs]
    rfl

/-- An operator with one output can be added, and its output has the type that is inferred. -/
theorem Reachable.exists_output_of_infer (hg : g.Reachable) {op op' : Operator} {ids : List TensorId}
    {y : TensorType} (h : g.infer op ids = .ok ⟨op', [y]⟩) (guid : Nat) :
    ∃ e t, g.addOp guid op ids = .ok e ∧ e.graph.output e.id = .ok t ∧
      e.graph.typesOf? [t] = some [y] := by
  obtain ⟨e, he⟩ : ∃ e, g.addOp guid op ids = .ok e := ⟨_, addOp_eq_ok_iff.mpr ⟨_, h, rfl⟩⟩
  obtain ⟨inferred, _, v, hinfer, _, hv, _, _, _, houts⟩ := hg.view_of_addOp he
  obtain rfl := Except.ok.inj (h.symm.trans hinfer)
  obtain ⟨t, _, hids, _⟩ := exists_singleton_of_typesOf? houts
  have houtputs : e.graph.outputs e.id = .ok [t] := by
    rw [outputs, node_of_view hv, ← hids]
    rfl
  rw [hids] at houts
  refine ⟨e, t, he, ?_, houts⟩
  rw [output, houtputs]
  rfl

/-- Tensors are joined from the left, two at a time. -/
def concatPairwise (c : Concat) (g : Graph) (guid : Nat) (first : TensorId) :
    List TensorId → Except Failure (Extended TensorId)
  | [] => .ok ⟨g, guid, first⟩
  | id :: ids => do
    let e ← g.addOp guid (.concat c) [first, id]
    concatPairwise c e.graph e.nextGuid (← e.graph.output e.id) ids

/-- Joining from the left is accepted throughout. -/
theorem Reachable.exists_concatPairwise (hg : g.Reachable) {id : TensorId} {ids : List TensorId}
    (htypes : g.typesOf? (id :: ids) = some (x :: rest))
    (haxis : Axis.resolve c.axis x.rank = .ok axis)
    (hagree : ∀ y ∈ rest, AgreeOff axis x.shape y.shape)
    (hfits : Build.Bounded → Concat.Fits axis x.shape (rest.map TensorType.shape)) (guid : Nat) :
    ∃ e out, concatPairwise c g guid id ids = .ok e ∧
      e.graph.typesOf? [e.id] = some [⟨out, x.dtype⟩] ∧
      Concat.Chained axis x.shape (rest.map TensorType.shape) out := by
  have hlt : axis < x.shape.length := Axis.lt_of_resolve haxis
  -- The graph, the tensor at hand and its type change with every step.
  induction ids generalizing g guid id x rest with
  | nil =>
    obtain ⟨t, _, _, hnil, heq⟩ := exists_of_typesOf?_cons htypes
    obtain rfl := Option.some.inj hnil
    obtain ⟨rfl, rfl⟩ := List.cons.inj heq
    exact ⟨⟨g, guid, id⟩, t.type.shape, rfl, htypes, Concat.chained_nil hlt⟩
  | cons id' ids ih =>
    obtain ⟨t, _, ht, htail, heq⟩ := exists_of_typesOf?_cons htypes
    obtain ⟨t', rest, ht', hrest, rfl⟩ := exists_of_typesOf?_cons htail
    obtain ⟨rfl, rfl⟩ := List.cons.inj heq
    obtain ⟨hhead, hagree⟩ := List.forall_mem_cons.mp hagree
    obtain ⟨s, hs, hchained⟩ := Concat.exists_chained_pair haxis hhead
      fun hbounded => (hfits hbounded).pair hlt
    have hpair : g.typesOf? [id, id'] = some [t.type, t'.type] :=
      typesOf?_cons ht (typesOf?_cons ht' rfl)
    obtain ⟨e, o, hadd, hout, htype⟩ :=
      hg.exists_output_of_infer (infer_concat hpair haxis hs) guid
    -- The joined tensor agrees with what is left as its first part did.
    have hlength : s.length = t.type.shape.length := hchained.agrees.length_eq
    have hnext : e.graph.typesOf? (o :: ids) = some (⟨s, t.type.dtype⟩ :: rest) := by
      obtain ⟨_, y, ho, hy, hytype⟩ := exists_singleton_of_typesOf? htype
      obtain rfl := List.singleton_inj.mp ho
      rw [← hytype]
      exact typesOf?_cons hy ((hg.extends_addOp hadd).typesOf? hrest)
    obtain ⟨last, out, hlast, hlasttype, hrestchained⟩ := ih (hg.addOp hadd) hnext
      (by rw [TensorType.rank, hlength]; exact haxis)
      (fun y hy => hchained.agrees.symm.trans (hagree y hy))
      (fun hbounded => hchained.fits hlt (hfits hbounded)) e.nextGuid (hlength ▸ hlt)
    refine ⟨last, out, ?_, hlasttype, hchained.cons hlt hrestchained⟩
    -- One step of the chain, and then the rest of it.
    rw [concatPairwise, hadd]
    change (do concatPairwise c e.graph e.nextGuid (← e.graph.output e.id) ids) = _
    rw [hout]
    exact hlast

/-- Extents add up in whatever way tensors are joined, unless a pair loses some: where another axis has no
extent, two tensors make the second one, so a list that is joined two at a time makes the last one. What a
build with words adds up and multiplies on the way has to be within them. -/
theorem Reachable.concat_stacks_iff (hg : g.Reachable) {id : TensorId} {ids : List TensorId}
    (htypes : g.typesOf? (id :: ids) = some (x :: rest))
    (haxis : Axis.resolve c.axis x.rank = .ok axis)
    (hagree : ∀ y ∈ rest, AgreeOff axis x.shape y.shape)
    (hfits : Build.Bounded → Concat.Fits axis x.shape (rest.map TensorType.shape)) (guid : Nat) :
    let shapes := rest.map TensorType.shape
    ∃ c' s e out, g.infer (.concat c) (id :: ids) = .ok ⟨.concat c', [⟨s, x.dtype⟩]⟩ ∧
      concatPairwise c g guid id ids = .ok e ∧ e.graph.typesOf? [e.id] = some [⟨out, x.dtype⟩] ∧
      (s = stack axis x.shape shapes ↔ ¬ (shapes.length = 1 ∧ Concat.Loses axis x.shape shapes)) ∧
      (out = s ↔ ¬ (shapes.length ≠ 1 ∧ Concat.Loses axis x.shape shapes)) ∧
      (Concat.Loses axis x.shape shapes → (x.shape :: shapes).getLast? = some out) := by
  intro shapes
  have hlt : axis < x.shape.length := Axis.lt_of_resolve haxis
  have hshapes : ∀ s ∈ shapes, AgreeOff axis x.shape s := List.forall_mem_map.mpr hagree
  obtain ⟨e, out, he, hout, hchained⟩ := hg.exists_concatPairwise htypes haxis hagree hfits guid
  have hstack := hchained.eq_stack_iff hlt hshapes
  by_cases hone : shapes.length = 1
  · -- A pair is joined at once and from the left by the same step.
    obtain ⟨b, hb⟩ := List.length_eq_one_iff.mp hone
    obtain ⟨s, hs, hpair⟩ := Concat.exists_chained_pair haxis (hshapes b (by simp [hb]))
      fun hbounded => hb ▸ hfits hbounded
    rw [← hb] at hs hpair
    obtain rfl : out = s := hchained.unique hpair
    refine ⟨_, out, e, out, infer_concat htypes haxis hs, he, hout, ?_, ?_, fun h => hpair.hollow h.1⟩
    · rw [hstack]
      simp [hone]
    · simp [hone]
  · have hs := Concat.outShape_of_agreeOff haxis hshapes (fun h => absurd h hone) hfits
    refine ⟨_, _, e, out, infer_concat htypes haxis hs, he, hout, ?_, ?_,
      fun h => hchained.hollow h.1⟩
    · simp [hone]
    · rw [hstack]
      simp [hone]

end Joins

section

open scoped WrappingArithmetic

/-- Rows without elements, of different widths. -/
def hollowRows : Graph := (ofCalls [.tensor ⟨[0, 2], .float32⟩, .tensor ⟨[0, 3], .float32⟩,
  .tensor ⟨[0, 1], .float32⟩]).1

/-- Three widths add up when they are joined at once, and the last one is left two at a time. -/
theorem concat_stacks_iff_hollowRows :
    let c : Concat := { axis := -1 }
    hollowRows.Reachable ∧ hollowRows.typesOf? [⟨0⟩, ⟨1⟩, ⟨2⟩] =
        some [⟨[0, 2], .float32⟩, ⟨[0, 3], .float32⟩, ⟨[0, 1], .float32⟩] ∧
      Axis.resolve c.axis 2 = .ok 1 ∧ AgreeOff 1 [0, 2] [0, 3] ∧ AgreeOff 1 [0, 2] [0, 1] ∧
      (Build.Bounded → Concat.Fits 1 [0, 2] [[0, 3], [0, 1]]) ∧
      (∃ c', hollowRows.infer (.concat c) [⟨0⟩, ⟨1⟩, ⟨2⟩] =
        .ok ⟨.concat c', [⟨[0, 6], .float32⟩]⟩) ∧
      ∃ e, concatPairwise c hollowRows 4 ⟨0⟩ [⟨1⟩, ⟨2⟩] = .ok e ∧
        e.graph.typesOf? [e.id] = some [⟨[0, 1], .float32⟩] := by
  intro c
  have hg : hollowRows.Reachable := reachable_ofCalls _
  have htypes : hollowRows.typesOf? [⟨0⟩, ⟨1⟩, ⟨2⟩] =
      some [⟨[0, 2], .float32⟩, ⟨[0, 3], .float32⟩, ⟨[0, 1], .float32⟩] := by rfl
  have haxis : Axis.resolve c.axis 2 = .ok 1 := by rfl
  have hthree : AgreeOff 1 [0, 2] [0, 3] := .set 1 [0, 2] 3
  have hone : AgreeOff 1 [0, 2] [0, 1] := .set 1 [0, 2] 1
  have hnone : Shape.size (stack 1 [0, 2] [[0, 3], [0, 1]]) < Word.limit := by decide
  have hfits (_ : Build.Bounded) : Concat.Fits 1 [0, 2] [[0, 3], [0, 1]] := ⟨by decide, hnone⟩
  obtain ⟨c', s, e, out, hinfer, he, hout, hs, _, hlast⟩ :=
    hg.concat_stacks_iff htypes haxis (by simp [hthree, hone]) hfits 4
  have hloses : Concat.Loses 1 [0, 2] [[0, 3], [0, 1]] :=
    ⟨⟨0, by decide, rfl⟩, [0, 2], by decide, by decide⟩
  obtain rfl : s = [0, 6] := hs.mpr fun h => absurd h.1 (by decide)
  obtain rfl : [0, 1] = out := Option.some.inj (hlast hloses)
  exact ⟨hg, htypes, haxis, hthree, hone, hfits, ⟨c', hinfer⟩, e, he, hout⟩

/-- The same two widths without the third one do not add up. -/
theorem concat_drops_extent :
    AgreeOff 1 [0, 2] [0, 3] ∧
      (∃ c', hollowRows.infer (.concat { axis := 1 }) [⟨0⟩, ⟨1⟩] =
        .ok ⟨.concat c', [⟨[0, 3], .float32⟩]⟩) ∧
      stack 1 [0, 2] [[0, 3]] = [0, 5] ∧ [0, 3] ≠ [0, 5] :=
  ⟨.set 1 [0, 2] 3, ⟨{ axis := 1, resolved := 1 }, by rfl⟩, by rfl, by decide⟩

end

section Pieces

variable [Build]

theorem exists_cuts_of_infer {ids : List TensorId} {d : Split} {inferred : Inferred}
    (htypes : g.typesOf? ids = some [x])
    (hfits : Build.Bounded → (∀ axis < x.rank, x.shape.extentAt axis < Word.limit) ∧
      d.pieces.parts.sum < Word.limit) (h : g.infer (.split d) ids = .ok inferred) :
    ∃ axis, Axis.resolve d.axis x.rank = .ok axis ∧
      inferred.outputs = (d.pieces.cuts (x.shape.extentAt axis)).map (x.withExtent axis) ∧
      (d.pieces.cuts (x.shape.extentAt axis)).sum = x.shape.extentAt axis := by
  have hwrap : Operator.Wraps Operator.split := ⟨fun _ _ => rfl, fun _ _ hole => hole⟩
  obtain ⟨types, d', htypes', hinfers, _⟩ := (infer_eq_ok_iff_infers hwrap fun _ _ => ⟨_, rfl⟩).mp h
  obtain rfl : [x] = types := Option.some.inj (htypes.symm.trans htypes')
  have hprepare : (do return { d with resolved := ← Axis.resolve d.axis x.rank }) = .ok d' :=
    Preparation.done.inj hinfers.prepare_eq
  obtain ⟨axis, haxis, hd'⟩ := bind_eq_ok_iff.mp hprepare
  obtain rfl := Except.ok.inj hd'
  have hout : d.outShapes x.shape = .ok (inferred.outputs.map TensorType.shape) :=
    hinfers.outShapes_eq
  have hlt : axis < x.shape.length := Axis.lt_of_resolve haxis
  obtain ⟨hshapes, hsum⟩ := Split.eq_cuts_of_outShapes haxis
    (fun hbounded => ⟨(hfits hbounded).1 axis hlt, (hfits hbounded).2⟩) hout
  -- All outputs have the element type of the input.
  have hdtypes : List.replicate d.pieces.count x.dtype = inferred.outputs.map TensorType.dtype :=
    Except.ok.inj hinfers.outTypes_eq
  have hdtype : ∀ y ∈ inferred.outputs, y.dtype = x.dtype := by
    intro y hy
    have hmem : y.dtype ∈ List.replicate d.pieces.count x.dtype :=
      hdtypes ▸ List.mem_map_of_mem hy
    exact List.eq_of_mem_replicate hmem
  refine ⟨axis, haxis, ?_, hsum⟩
  rw [TensorType.eq_map_of_dtype hdtype, hshapes, List.map_map]
  rfl

theorem exists_infer_concat_pieces {ids : List TensorId} {extents : List Nat}
    (haxis : Axis.resolve c.axis x.rank = .ok axis) (hsize : 0 < x.size)
    (hfits : Build.Bounded → x.size < Word.limit) (hsum : extents.sum = x.shape.extentAt axis)
    (htypes : g.typesOf? ids = some (extents.map (x.withExtent axis))) :
    ∃ c', g.infer (.concat c) ids = .ok ⟨.concat c', [x]⟩ := by
  have hlt : axis < x.shape.length := Axis.lt_of_resolve haxis
  have hfull : ¬ HollowOff axis x.shape := fun hhollow =>
    Nat.ne_of_gt hsize (size_eq_zero_of_hollowOff hhollow)
  cases extents with
  | nil =>
    -- The extents add up to a positive one, so there is a first piece.
    have hpos : 0 < x.shape.extentAt axis := extentAt_pos hlt hsize
    exact absurd hsum (Nat.ne_of_lt hpos)
  | cons extent extents =>
    have hpieces := Concat.outShape_pieces haxis hfull extent extents
    rw [hsum, set_extentAt hlt] at hpieces
    have hpieces := hpieces fun hbounded =>
      ⟨Nat.lt_of_le_of_lt (extentAt_le_size hlt hsize) (hfits hbounded),
        fits_of_size_lt hsize (hfits hbounded)⟩
    have haxis' : Axis.resolve c.axis (x.withExtent axis extent).rank = .ok axis := by
      rw [TensorType.rank, TensorType.withExtent, List.length_set]
      exact haxis
    refine ⟨_, infer_concat htypes haxis' ?_⟩
    rw [← List.map_cons, List.map_map]
    exact hpieces

end Pieces

section

open scoped WrappingArithmetic

/-- A column that is cut in two is cut into nothing and itself. -/
def columnCut : Graph := (ofCalls [.tensor ⟨[3, 1], .float32⟩,
  .op (.split { axis := -1, pieces := .equal 2 }) [⟨0⟩]]).1

/-- Half as many rows as there are words, with two of their three columns cut off. -/
def overfull : Graph := (ofCalls [.tensor ⟨[2 ^ 63, 3], .float32⟩,
  .op (.split { axis := 1, pieces := .ratio [2, 1] }) [⟨0⟩]]).1

end

end Graph

end DataflowCost
