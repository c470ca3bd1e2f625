import DataflowCost.Proofs.Keys.Basic

/-! The keys of element-by-element families. Most hold the extents of the output, which are those of
the input; the kind stands in front of them. -/
namespace DataflowCost

open Inference Family
open scoped ExactArithmetic

instance : Keyed Operator.unary := by
  refine .of_outputKey id (fun _ _ => rfl) ?_
  rintro ⟨kind⟩ ⟨kind'⟩ _ _ _ _ _ _ _ _ _ keys
  obtain rfl : kind = kind' := Kind.tag_injective (keys.head_eq rfl rfl)
  exact sameTime_of_eq fun _ => rfl

instance : Keyed Operator.clip :=
  .of_outputKey sameShape_of_check (fun _ _ => rfl)
    fun _ _ _ => sameTime_of_eq fun _ => rfl

instance : Keyed Operator.hardtanh :=
  .of_outputKey sameShape_of_check (fun _ _ => rfl)
    fun _ _ _ => sameTime_of_eq fun _ => rfl

instance : Keyed Operator.leakyRelu :=
  .of_outputKey id (fun _ _ => rfl)
    fun _ _ _ => sameTime_of_eq fun _ => rfl

instance : Keyed Operator.elu :=
  .of_outputKey id (fun _ _ => rfl)
    fun _ _ _ => sameTime_of_eq fun _ => rfl

/-- The base stands behind the extents, and in the attributes. -/
instance : Keyed Operator.log := by
  refine .of_sameShape id (fun keys => ?_) fun _ _ _ => sameTime_of_eq fun _ => rfl
  exact keys.output_eq_of_append (keys.tail_eq rfl rfl) (keys.settings_eq rfl rfl)

instance : Keyed Operator.cast := by
  refine .of_sameShape id (fun keys => ?_) fun _ _ _ => sameTime_of_eq fun _ => rfl
  exact keys.output_eq_of_append (keys.tail_eq rfl rfl) (keys.settings_eq rfl rfl)

instance : Keyed Operator.fill :=
  .of_outputKey id (fun _ _ => rfl)
    fun _ _ _ => sameTime_of_eq fun _ => rfl

instance : Keyed Operator.l2Loss :=
  .of_inputKey (fun _ => Nat.le_refl 1) (fun _ _ => rfl)
    fun _ _ _ => sameTime_of_eq fun _ => rfl

instance : Keyed Operator.dropout :=
  .of_inputKey (fun _ => Nat.le_refl 1) (fun _ _ => rfl)
    fun _ _ _ => sameTime_of_eq fun _ => rfl

instance : Keyed Operator.shapeOf :=
  .of_inputKey (fun _ => Nat.le_refl 1) (fun _ _ => rfl)
    fun _ _ _ => sameTime_of_eq fun _ => rfl

theorem PRelu.sameShape_of_outShapes {d : PRelu} {inputs : List TensorType} {shapes : List Shape}
    (h : outShapes d inputs = .ok shapes) : sameShape inputs = .ok shapes := by
  obtain ⟨x, hx, h⟩ := bind_eq_ok_iff.mp h
  obtain ⟨slope, _, h⟩ := bind_eq_ok_iff.mp h
  obtain ⟨_, _, h⟩ := bind_eq_ok_iff.mp h
  exact bind_eq_ok_iff.mpr ⟨x, hx, h⟩

instance : Keyed Operator.prelu :=
  .of_outputKey PRelu.sameShape_of_outShapes (fun _ _ => rfl)
    fun h h' _ => by
      obtain ⟨_, slope, rest, hinputs⟩ := Arity.exists_cons₂_of_accepts h.accepts (Nat.le_refl 2)
      obtain ⟨_, slope', rest', hinputs'⟩ :=
        Arity.exists_cons₂_of_accepts h'.accepts (Nat.le_refl 2)
      obtain rfl := (List.cons.inj hinputs).2
      obtain rfl := (List.cons.inj hinputs').2
      exact sameTime_of_eq fun _ => rfl

theorem ActivationBackward.sameShape_of_outShapes {d : ActivationBackward}
    {inputs : List TensorType} {shapes : List Shape} (h : outShapes d inputs = .ok shapes) :
    sameShape inputs = .ok shapes := by
  obtain ⟨output, houtput, h⟩ := bind_eq_ok_iff.mp h
  obtain ⟨gradient, _, h⟩ := bind_eq_ok_iff.mp h
  obtain ⟨_, _, h⟩ := bind_eq_ok_iff.mp h
  exact bind_eq_ok_iff.mpr ⟨output, houtput, h⟩

instance : Keyed Operator.activationBackward := by
  refine .of_outputKey ActivationBackward.sameShape_of_outShapes (fun _ _ => rfl) ?_
  rintro ⟨kind⟩ ⟨kind'⟩ _ _ _ _ _ _ _ _ _ keys
  obtain rfl : kind = kind' := Kind.tag_injective (keys.head_eq rfl rfl)
  exact sameTime_of_eq fun _ => rfl

/-- The two operands of a broadcasting operator and its output. -/
theorem Elementwise.exists_operands {d : Elementwise} {inputs outputs : List TensorType}
    (h : outShapes d inputs = .ok (outputs.map TensorType.shape)) :
    ∃ a b rest out, inputs = a :: b :: rest ∧ outputs = [out] := by
  match inputs, h with
  | a :: b :: rest, h =>
    obtain ⟨out, hout, _⟩ := exists_single (r := a.shape.broadcast b.shape) h
    exact ⟨a, b, rest, out, rfl, hout⟩
  | [_], h => cases h
  | [], h => cases h

instance : Keyed Operator.elementwise where
  sameTime {d d' _ _ _ _} h h' keys := by
    obtain ⟨a, b, rest, ⟨s, _⟩, rfl, rfl⟩ := Elementwise.exists_operands h.outShapes_eq
    obtain ⟨a', b', rest', ⟨s', _⟩, rfl, rfl⟩ := Elementwise.exists_operands h'.outShapes_eq
    have hsettings := keys.settings_eq rfl rfl
    obtain rfl : s = s' := keys.output_eq_of_append (keys.tail_eq rfl rfl) hsettings
    have hkind : d.kind = d'.kind := Kind.tag_injective (keys.head_eq rfl rfl)
    have hact : d.act = d'.act := Activation.tag_injective (List.cons.inj hsettings).1
    obtain rfl : d = d' := by rw [Elementwise.mk.injEq]; exact ⟨hkind, hact⟩
    exact sameTime_of_eq fun _ => rfl

theorem LossReduction.tag_injective {r r' : LossReduction} (h : r.tag = r'.tag) : r = r' := by
  cases r <;> cases r' <;> first | rfl | cases h

instance : Keyed Operator.mseLoss := by
  refine .of_input (fun _ => Nat.le_succ 1) (fun _ _ keys => ?_) ?_
  · exact keys.input_eq_of_append (keys.tail_eq rfl rfl) (keys.settings_eq rfl rfl)
  · rintro ⟨r⟩ ⟨r'⟩ _ _ _ _ _ _ _ _ _ keys
    have hsettings := keys.settings_eq rfl rfl
    obtain rfl : r = r' := LossReduction.tag_injective (List.cons.inj hsettings).1
    exact sameTime_of_eq fun _ => rfl

/-- A selection takes time for its output and for each of its inputs. -/
theorem Select.computeTime_eq {α : Type} [Scalar α] (d : Select) (x y c out : TensorType)
    (rest outputs : List TensorType) (cx : CostContext) :
    (metrics d ⟨x :: y :: c :: rest, out :: outputs⟩ cx).map Metrics.computeTime =
      some ((Scalar.ofNat out.shape.size * 2.0 + (0.1 * Scalar.ofNat x.size +
        0.1 * Scalar.ofNat y.size + 0.2 * Scalar.ofNat c.size)) / 3e9 : α) :=
  rfl

instance : Keyed Operator.select where
  sameTime h h' keys := by
    obtain ⟨x, y, c, rest, rfl⟩ := Arity.exists_cons₃_of_accepts h.accepts (Nat.le_refl 3)
    obtain ⟨x', y', c', rest', rfl⟩ := Arity.exists_cons₃_of_accepts h'.accepts (Nat.le_refl 3)
    obtain ⟨out, rfl, _⟩ := exists_single h.outShapes_eq
    obtain ⟨out', rfl, _⟩ := exists_single h'.outShapes_eq
    have hout : out.shape = out'.shape := keys.output_eq (keys.tail_eq rfl rfl)
    have hsizes : x.size :: y.size :: c.size :: rest.map TensorType.size =
        x'.size :: y'.size :: c'.size :: rest'.map TensorType.size := keys.agrees
    simp only [List.cons.injEq] at hsizes
    obtain ⟨hx, hy, hc, _⟩ := hsizes
    refine sameTime_of_eq fun _ => ?_
    rw [Select.computeTime_eq, Select.computeTime_eq, hout, hx, hy, hc]

end DataflowCost
