import DataflowCost.Proofs.AxisSets

/-! Padding undone. The slice that skips the begin pad of every axis and takes as many positions as the axis
had gives back the shape that was padded. -/
namespace DataflowCost

open Inference

namespace AxisRange

/-- Positions that follow one another. -/
def block (first count : Nat) : AxisRange := ⟨first, (first + count : Nat), 1⟩

/-- Bounds within an axis are not moved. -/
theorem clamped_block [Build] {first count extent : Nat} (h : first + count ≤ extent)
    (hfits : Build.Bounded → extent < 2 ^ 63) :
    clamped first (first + count : Nat) 1 extent = .ok (block first count) := by
  have hbound {bound : Nat} (hle : bound ≤ extent) : clampBound bound extent 1 = .ok (bound : Int) := by
    have hclamp : clampBound bound extent 1 = Word.clamp 0 (Word.toSigned extent) bound := by
      unfold clampBound
      rw [if_neg (by omega)]
      rfl
    rw [hclamp, Word.toSigned_eq hfits, Word.clamp, if_pos (by omega), min_eq_left (by omega),
      max_eq_right (by omega)]
  unfold clamped
  rw [hbound (by omega), hbound h]
  rfl

/-- The positions of a block are counted by way of one more than there are. -/
theorem count_block [Build] (first : Nat) {count : Nat} (hfits : Build.Bounded → count + 1 < 2 ^ 63) :
    (block first count).count = .ok count := by
  have hsigned {z : Int} (hnonneg : 0 ≤ z) (hle : z ≤ count + 1) : Word.signed z = .ok z :=
    Word.signed_eq fun hbounded => by have := hfits hbounded; omega
  have hspan : ((first + count : Nat) : Int) - first = count := by omega
  unfold AxisRange.count
  simp only [block, if_pos Int.one_pos, hspan, Int.natAbs_one, Nat.cast_one]
  refine bind_eq_ok_iff.mpr ⟨count, hsigned (by omega) (by omega), ?_⟩
  refine bind_eq_ok_iff.mpr ⟨1, hsigned (by omega) (by omega), ?_⟩
  refine bind_eq_ok_iff.mpr ⟨count + 1, hsigned (by omega) (by omega), ?_⟩
  refine bind_eq_ok_iff.mpr ⟨count, ?_, ?_⟩
  · rw [Int.add_sub_cancel]
    exact hsigned (by omega) (by omega)
  · rw [if_neg Int.one_ne_zero, Int.tdiv_one, Int.toNat_natCast]
    rfl

end AxisRange

namespace Slice

/-- The slice of all axes from behind their begin pads over as many positions as the shape has. -/
def unpadding (pads : List Nat) (s : Shape) : Slice where
  starts := (List.range s.length).map fun axis => (pads.getD axis 0 : Nat)
  ends := (List.range s.length).map fun axis => (pads.getD axis 0 + s.extentAt axis : Nat)

variable {pads : List Nat} {s t : Shape}

@[simp] theorem length_starts_unpadding (pads : List Nat) (s : Shape) :
    (unpadding pads s).starts.length = s.length := by
  simp [unpadding]

@[simp] theorem length_ends_unpadding (pads : List Nat) (s : Shape) :
    (unpadding pads s).ends.length = s.length := by
  simp [unpadding]

/-- The block that the slice takes on each axis. -/
def blocks (pads : List Nat) (s : Shape) : List AxisRange :=
  (List.range s.length).map fun axis => .block (pads.getD axis 0) (s.extentAt axis)

/-- The blocks are taken from any shape with room for them. -/
theorem resolveRanges_unpadding [Build] (hlen : t.length = s.length)
    (hroom : ∀ axis < s.length, pads.getD axis 0 + s.extentAt axis ≤ t.extentAt axis)
    (hfits : Build.Bounded → ∀ axis < s.length, t.extentAt axis < 2 ^ 63) :
    (unpadding pads s).resolveRanges t = .ok (blocks pads s) := by
  have haxes : resolveAxes none s.length t.length = .ok (List.range s.length) :=
    require_bind_eq_ok_iff.mpr ⟨hlen.ge, rfl⟩
  have hplaces : Places t (List.range s.length) (unpadding pads s).starts (unpadding pads s).ends
      (List.replicate s.length 1) (blocks pads s) := by
    refine ⟨by simp [blocks, hlen], fun axis hmem => ?_, fun {k axis} hk => ?_⟩
    · -- All axes are listed, and what is not is behind the last of both lists.
      have hout : s.length ≤ axis := by simpa using hmem
      rw [List.getElem?_eq_none (by simpa [blocks] using hout), List.getElem?_eq_none (hlen ▸ hout)]
      rfl
    · obtain ⟨hlt, rfl⟩ := List.getElem?_eq_some_iff.mp hk
      rw [List.length_range] at hlt
      rw [List.getElem_range]
      refine ⟨.block (pads.getD k 0) (s.extentAt k), by simp [blocks, hlt], t.extentAt k,
        (pads.getD k 0 : Nat), (pads.getD k 0 + s.extentAt k : Nat), 1,
        Shape.getElem?_eq_extentAt (hlen ▸ hlt), by simp [unpadding, hlt], by simp [unpadding, hlt],
        by simp [hlt], ?_⟩
      exact AxisRange.clamped_block (hroom k hlt) fun hbounded => hfits hbounded k hlt
  refine require_bind_eq_ok_iff.mpr ⟨by simp, ?_⟩
  rw [length_starts_unpadding]
  refine bind_eq_ok_iff.mpr ⟨_, haxes, bind_eq_ok_iff.mpr ⟨_, rfl, ?_⟩⟩
  exact (place_eq_ok_iff List.nodup_range (by simp [hlen])).mpr hplaces

theorem mapM_count_blocks [Build] (pads : List Nat)
    (hfits : Build.Bounded → ∀ axis < s.length, s.extentAt axis + 1 < 2 ^ 63) :
    (blocks pads s).mapM AxisRange.count = .ok s := by
  have hmap := Shape.map_extentAt_append s []
  rw [List.append_nil] at hmap
  have hcount : (List.range s.length).mapM (fun axis =>
      (AxisRange.block (pads.getD axis 0) (s.extentAt axis)).count) =
      .ok ((List.range s.length).map s.extentAt) :=
    mapM_eq_ok fun axis haxis =>
      AxisRange.count_block _ fun hbounded => hfits hbounded axis (List.mem_range.mp haxis)
  rw [blocks, List.mapM_map]
  exact hcount.trans (congrArg Except.ok hmap)

end Slice

/-- Axes that are left out of a padding count as listed in order. -/
theorem Pad.exists_places {p : Pad} {rank : Nat} {pads : List Nat}
    (h : p.resolvePads rank = .ok pads) :
    ∃ named, Axis.resolveEach rank (p.axes.getD ((List.range rank).map Nat.cast)) = .ok named ∧
      Pad.Places rank named (p.pads.map Int.toNat) pads := by
  cases haxes : p.axes with
  | none =>
    obtain ⟨_, _, hplaces⟩ := (resolvePads_eq_ok_iff rfl).mp ((resolvePads_range_iff haxes).mpr h)
    exact hplaces
  | some axes =>
    obtain ⟨_, _, hplaces⟩ := (resolvePads_eq_ok_iff haxes).mp h
    exact hplaces

/-- No axis has the greatest signed extent, and none is padded beyond it. -/
def Pad.Roomy (pads : List Nat) (s : Shape) : Prop :=
  ∀ axis < s.length, s.extentAt axis + 1 < 2 ^ 63 ∧
    s.extentAt axis + pads.getD axis 0 + pads.getD (axis + s.length) 0 < 2 ^ 63

/-- A slice of all axes from behind their begin pads. The axes are left out, or they are listed in any order
and under any of their names. -/
inductive Operator.Unpads (pads : List Nat) (s : Shape) : Operator → Prop
  | leading : Unpads pads s (.slice (.unpadding pads s))
  | listed {σ : Equiv.Perm Nat} {op : Operator} :
      Relists s.length σ (.slice { Slice.unpadding pads s with
        axes := some ((List.range s.length).map Nat.cast) }) op → Unpads pads s op

namespace Graph

variable [Build] {g : Graph} {ids : List TensorId} {x : TensorType}

theorem SameOutcome.exists_infer {op op' : Operator} {inferred : Inferred}
    (h : g.SameOutcome ids op op') (hinfer : g.infer op ids = .ok inferred) :
    ∃ resolved, g.infer op' ids = .ok ⟨resolved, inferred.outputs⟩ := by
  obtain ⟨⟨resolved, outputs⟩, hinfer'⟩ := h.accepted_iff.mp ⟨_, hinfer⟩
  obtain rfl := (h.agree hinfer hinfer').1
  exact ⟨resolved, hinfer'⟩

/-- A shape is sliced out of any shape with room for it behind the pads. -/
theorem maps_of_unpads {y : TensorType} {pads : List Nat} {op : Operator}
    (hdtype : y.dtype = x.dtype) (hrank : y.rank = x.rank)
    (hroom : ∀ axis < x.rank, pads.getD axis 0 + x.shape.extentAt axis ≤ y.shape.extentAt axis)
    (hfits : Build.Bounded → ∀ axis < x.rank,
      x.shape.extentAt axis + 1 < 2 ^ 63 ∧ y.shape.extentAt axis < 2 ^ 63)
    (h : op.Unpads pads x.shape) : op.Maps y x := by
  intro g ids htypes
  have hranges : (Slice.unpadding pads x.shape).resolveRanges y.shape =
      .ok (Slice.blocks pads x.shape) :=
    Slice.resolveRanges_unpadding hrank hroom fun hbounded axis hlt => (hfits hbounded axis hlt).2
  have hcount : (Slice.blocks pads x.shape).mapM AxisRange.count = .ok x.shape :=
    Slice.mapM_count_blocks pads fun hbounded axis hlt => (hfits hbounded axis hlt).1
  have hinfer : g.infer (.slice (.unpadding pads x.shape)) ids = .ok ⟨.slice
      { Slice.unpadding pads x.shape with ranges := Slice.blocks pads x.shape }, [x]⟩ := by
    rw [infer_slice_eq _ htypes, within_eq_ok_iff]
    refine bind_eq_ok_iff.mpr ⟨_, hranges, bind_eq_ok_iff.mpr ⟨_, hcount, ?_⟩⟩
    rw [hdtype]
    rfl
  cases h with
  | leading => exact ⟨_, hinfer⟩
  | listed hrelists =>
    -- To list all axes in order is to leave them out, and any other list is moved to that one.
    have hleading : Operator.ListsLeading y.rank (.slice (.unpadding pads x.shape)) _ := .slice rfl
    rw [Slice.length_starts_unpadding] at hleading
    obtain ⟨_, hlisted⟩ := (sameOutcome_of_listsLeading htypes hleading).exists_infer hinfer
    rw [← TensorType.rank, ← hrank] at hrelists hlisted
    exact (sameOutcome_of_relists htypes hrelists).exists_infer hlisted

/-- What a padding adds can be sliced away. The resolved pads are the given ones, each put at its axis, and
from behind the begin pads a slice of all axes takes the shape that was padded. Words have to have room for
the padded extents as bounds, and for one more than each extent that is taken. -/
theorem slice_inverts_pad {p : Pad} {inferred : Inferred} (htypes : g.typesOf? ids = some [x])
    (h : g.infer (.pad p) ids = .ok inferred) :
    ∃ (named pads : List Nat) (y : TensorType),
      inferred = ⟨.pad { p with resolved := pads }, [y]⟩ ∧
      Axis.resolveEach x.rank (p.axes.getD ((List.range x.rank).map Nat.cast)) = .ok named ∧
      Pad.Places x.rank named (p.pads.map Int.toNat) pads ∧
      ((Build.Bounded → Pad.Roomy pads x.shape) →
        ∀ {op : Operator}, op.Unpads pads x.shape → op.Maps y x) := by
  rw [infer_pad_eq p htypes, within_eq_ok_iff] at h
  obtain ⟨pads, hpads, h⟩ := bind_eq_ok_iff.mp h
  obtain ⟨t, ht, h⟩ := bind_eq_ok_iff.mp h
  obtain rfl := Except.ok.inj h
  obtain ⟨named, hnamed, hplaces⟩ := Pad.exists_places hpads
  refine ⟨named, pads, _, rfl, hnamed, hplaces, fun hroomy op hunpads => ?_⟩
  have hlen : pads.length = 2 * x.shape.length := (p.meets_resolvePads x.rank).of_ok hpads
  have hlimit : Word.limit = 2 ^ 64 := rfl
  rw [Pad.padded_eq_tabulate hlen fun hbounded axis hlt => by
    have := (hroomy hbounded axis hlt).2
    omega] at ht
  obtain rfl := Except.ok.inj ht
  refine maps_of_unpads ?_ ?_ (fun axis hlt => ?_) (fun hbounded axis hlt => ?_) hunpads
  · rfl
  · exact Shape.length_tabulate _ _
  · -- The end pad is what there is beyond the block.
    simp only [Shape.extentAt_tabulate (show axis < x.shape.length from hlt)]
    omega
  · simp only [Shape.extentAt_tabulate (show axis < x.shape.length from hlt)]
    exact hroomy hbounded axis hlt

end Graph

namespace Graph

open scoped WrappingArithmetic

/-- No rows of three columns. -/
def header : Graph := (ofCalls [.tensor ⟨[0, 3], .float32⟩]).1

/-- The header within a margin. -/
def bordered : Graph := (ofCalls [.tensor ⟨[5, 6], .float32⟩]).1

/-- Columns are padded before rows, and the slice that takes the rows away again lists the rows last. -/
theorem slice_inverts_pad_header :
    let p : Pad := { pads := [1, 0, 2, 5], axes := some [-1, 0] }
    let d : Slice := { starts := [1, 0], ends := [4, 0], axes := some [-1, 0] }
    header.typesOf? [⟨0⟩] = some [⟨[0, 3], .float32⟩] ∧
      header.infer (.pad p) [⟨0⟩] =
        .ok ⟨.pad { p with resolved := [0, 1, 5, 2] }, [⟨[5, 6], .float32⟩]⟩ ∧
      (Build.Bounded → Pad.Roomy [0, 1, 5, 2] [0, 3]) ∧
      bordered.typesOf? [⟨0⟩] = some [⟨[5, 6], .float32⟩] ∧
      Operator.Unpads [0, 1, 5, 2] [0, 3] (.slice d) ∧
      ∃ resolved, bordered.infer (.slice d) [⟨0⟩] = .ok ⟨resolved, [⟨[0, 3], .float32⟩]⟩ := by
  intro p d
  have htypes : header.typesOf? [⟨0⟩] = some [⟨[0, 3], .float32⟩] := by rfl
  have htypes' : bordered.typesOf? [⟨0⟩] = some [⟨[5, 6], .float32⟩] := by rfl
  have hinfer : header.infer (.pad p) [⟨0⟩] =
      .ok ⟨.pad { p with resolved := [0, 1, 5, 2] }, [⟨[5, 6], .float32⟩]⟩ := by rfl
  have hroomy (_ : Build.Bounded) : Pad.Roomy [0, 1, 5, 2] [0, 3] := by
    intro axis hlt
    match axis, hlt with
    | 0, _ | 1, _ => exact ⟨by decide, by decide⟩
  have hunpads : Operator.Unpads [0, 1, 5, 2] [0, 3] (.slice d) :=
    .listed (.slice rfl (Axis.respells_iff_carries.mpr (.swap 0 1)) (.swap 0 1) (.swap 0 4) .none)
  obtain ⟨_, _, _, hpadded, _, _, hslice⟩ := slice_inverts_pad htypes hinfer
  obtain ⟨⟨⟩, ⟨⟩⟩ := hpadded
  exact ⟨htypes, hinfer, hroomy, htypes', hunpads, hslice hroomy hunpads _ _ htypes'⟩

/-- A row of one element. -/
def single : Graph := (ofCalls [.tensor ⟨[1], .float32⟩]).1

/-- The row with the greatest pad behind it. -/
def overlong : Graph := (ofCalls [.tensor ⟨[2 ^ 63], .float32⟩]).1

/-- The padded extent is beyond all bounds with a sign, and there is no slice of it. -/
theorem slice_faults_overlong :
    let p : Pad := { pads := [0, 2 ^ 63 - 1] }
    single.typesOf? [⟨0⟩] = some [⟨[1], .float32⟩] ∧
      single.infer (.pad p) [⟨0⟩] =
        .ok ⟨.pad { p with resolved := [0, 2 ^ 63 - 1] }, [⟨[2 ^ 63], .float32⟩]⟩ ∧
      overlong.typesOf? [⟨0⟩] = some [⟨[2 ^ 63], .float32⟩] ∧
      Slice.unpadding [0, 2 ^ 63 - 1] [1] = { starts := [0], ends := [1] } ∧
      overlong.infer (.slice { starts := [0], ends := [1] }) [⟨0⟩] = .error .fault :=
  ⟨by rfl, by rfl, by rfl, by rfl, by rfl⟩

end Graph

end DataflowCost
