import DataflowCost.Proofs.Families.Collective
import DataflowCost.Proofs.Keys.Basic

/-! The keys of families that communicate. A message is keyed by its extents; its element type, which
decides how many bytes it has, is in the key of the receiver only. -/
namespace DataflowCost

open Inference Family
open scoped ExactArithmetic

theorem ReduceRule.kind_injective {r r' : ReduceRule} (h : r.kind = r'.kind) : r = r' := by
  cases r <;> cases r' <;> first | rfl | cases h

instance : Keyed Operator.allReduce := by
  refine .of_outputKey id (fun _ _ => rfl) ?_
  rintro ⟨rule⟩ ⟨rule'⟩ _ _ _ _ _ _ _ _ _ keys
  obtain rfl : rule = rule' :=
    ReduceRule.kind_injective (Kind.tag_injective (keys.head_eq rfl rfl))
  exact sameTime_of_eq fun _ => rfl

instance : Keyed Operator.allGather := by
  refine .of_input (fun _ => Nat.le_refl 1) (fun _ _ keys => ?_) ?_
  · exact keys.input_eq_of_append (keys.tail_eq rfl rfl) (keys.settings_eq rfl rfl)
  · rintro ⟨width⟩ ⟨width'⟩ _ _ _ _ _ _ _ _ _ keys
    obtain rfl : width = width' := keys.number_eq rfl rfl rfl rfl
    exact sameTime_of_eq fun _ => rfl

instance : Keyed Operator.broadcast :=
  .of_inputKey (fun _ => Nat.le_refl 1) (fun _ _ => rfl)
    fun _ _ _ => sameTime_of_eq fun _ => rfl

instance : Keyed Operator.send := by
  refine .of_input (fun _ => Nat.le_refl 1) (fun _ _ keys => ?_) ?_
  · exact keys.input_eq_of_append (keys.tail_eq rfl rfl) (keys.settings_eq rfl rfl)
  · rintro ⟨source, destination⟩ ⟨source', destination'⟩ s t t' _ _ _ _ _ _ keys
    have hnumbers : [source, destination] = [source', destination'] :=
      words_inj keys.fits.numbers keys.fits'.numbers (keys.settings_eq rfl rfl)
    simp only [List.cons.injEq, and_true] at hnumbers
    obtain ⟨rfl, rfl⟩ := hnumbers
    have hbytes : t.bytes = t'.bytes := Option.some.inj keys.agrees
    refine sameTime_of_eq fun _ => ?_
    exact congrArg (fun bytes =>
      some (Link.time (Scalar.ofNat (s.size * bytes)) source destination)) hbytes

namespace Recv

/-- What is received is what the definition says. -/
theorem outputs_eq {d : Recv} {inputs outputs : List TensorType}
    (h : Registered d inputs outputs) : outputs = [d.received] := by
  obtain ⟨⟨s, t⟩, rfl, hshape⟩ := exists_output h.outShapes_eq
  have htype : [d.received.dtype] = [t] := Except.ok.inj h.outTypes_eq
  have hs : s = d.received.shape := hshape
  rw [hs, ← (List.cons.inj htype).1]

theorem tag_injective {t t' : DType} (h : word t.tag = word t'.tag) : t = t' := by
  cases t <;> cases t' <;> first | rfl | cases h

/-- Shape and ranks stand in the attributes, the element type behind them in the workload. -/
theorem eq_of_keys {d d' : Recv} {inputs inputs' : List TensorType}
    (keys : (Operator.recv d).SameKeys (.recv d') ⟨inputs, [d.received]⟩ ⟨inputs', [d'.received]⟩) :
    d = d' := by
  have hnumbers : AreWords [d.source, d.destination] := keys.fits.numbers
  have hnumbers' : AreWords [d'.source, d'.destination] := keys.fits'.numbers
  have hsettings : d.settings = d'.settings := keys.settings_eq rfl rfl
  have hwords := words_inj ((keys.fits.outputs _ List.mem_cons_self).append hnumbers)
    ((keys.fits'.outputs _ List.mem_cons_self).append hnumbers') hsettings
  obtain ⟨hshape, hends⟩ := List.append_inj' hwords rfl
  have hkey : d.settings ++ [word d.received.dtype.tag] =
      d'.settings ++ [word d'.received.dtype.tag] := keys.tail_eq rfl rfl
  have htag := (List.append_inj' hkey (by simp)).2
  simp only [List.cons.injEq, and_true] at hends htag
  rw [mk.injEq, TensorType.mk.injEq]
  exact ⟨hends.1, hends.2, hshape, tag_injective htag⟩

end Recv

instance : Keyed Operator.recv where
  sameTime {d d' _ _ _ _} h h' keys := by
    obtain rfl := Recv.outputs_eq h
    obtain rfl := Recv.outputs_eq h'
    obtain rfl : d = d' := Recv.eq_of_keys keys
    exact sameTime_of_eq fun _ => rfl

end DataflowCost
