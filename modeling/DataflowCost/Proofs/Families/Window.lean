import DataflowCost.Families.Convolution
import DataflowCost.Families.Pool
import DataflowCost.Proofs.Families.Basic

/-! Families that slide windows over spatial axes. Steps are checked when they are resolved, so the
only divisor that can be zero is the number of groups of a convolution without input channels. -/
namespace DataflowCost

open Inference Family

variable {hole : Prop} {n : Nat}

namespace Window

theorem meets_positions [Build] (hbound : Build.Bounded → hole)
    {input kernel stride dilation pad : Nat} (h : 0 < stride) :
    Meets (positions input kernel stride dilation pad) hole fun _ => True := by
  refine (meets_require _ _).bind ?_
  intro _ _
  refine (meets_require _ _).bind ?_
  intro _ _
  refine (Word.meets_mul hbound 2 pad).bind ?_
  intro _ _
  refine (meets_require _ _).bind ?_
  intro _ _
  refine (meets_require _ _).bind ?_
  intro _ _
  refine (meets_quotient (fun hz => absurd hz (Nat.ne_of_gt h))).bind ?_
  intro _ _
  exact meets_ok trivial

theorem meets_samePad [Build] (hbound : Build.Bounded → hole)
    {input kernel stride dilation : Nat} (h : 0 < stride) :
    Meets (samePad input kernel stride dilation) hole fun _ => True := by
  refine (meets_quotientUp (fun hz => absurd hz (Nat.ne_of_gt h))).bind ?_
  intro out _
  refine (Word.meets_mul hbound (out - 1) stride).bind ?_
  intro steps _
  refine (Word.meets_mul hbound dilation (kernel - 1)).bind ?_
  intro reach _
  refine (Word.meets_add hbound steps reach).bind ?_
  intro _ _
  exact (Word.meets_add hbound _ 1).bind fun _ _ => meets_ok trivial

end Window

namespace Sliding

/-- Windows that move on every axis. -/
def Moves (w : Sliding n) : Prop := ∀ stride ∈ w.strides, 0 < stride

theorem meets_checkSteps (w : Sliding n) : Meets w.checkSteps hole fun _ => w.Moves := by
  refine (meets_require _ _).bind ?_
  intro _ hstrides
  refine (meets_require _ _).imp ?_
  intro _ _ stride hmem
  exact of_decide_eq_true (List.all_eq_true.mp hstrides stride (Vector.mem_toList_iff.mpr hmem))

theorem meets_explicitPads (pads : List Nat) : Meets (explicitPads n pads) hole fun _ => True := by
  unfold explicitPads
  cases perAxis? n pads with
  | none => exact meets_invalid _
  | some v => exact meets_ok trivial

theorem meets_eachAxis {f : Fin n → Inference Nat} (h : ∀ i, Meets (f i) hole fun _ => True) :
    Meets (eachAxis n f) hole fun _ => True := by
  refine (meets_mapM (P := fun _ _ => True) fun i _ => h i).bind ?_
  intro values hvalues
  have hlen : values.length = n := by rw [← hvalues.length_eq, List.length_finRange]
  refine (meets_present ?_).imp fun _ _ => trivial
  rw [perAxis?, dif_pos hlen]
  exact nofun

theorem meets_resolve [Build] (hbound : Build.Bounded → hole) {w : Sliding n}
    {spatial kernel : List Nat} (hspatial : spatial.length = n) (hkernel : kernel.length = n) :
    Meets (w.resolve spatial kernel) hole Moves := by
  refine w.meets_checkSteps.bind ?_
  intro _ hmoves
  cases w.padding with
  | explicit pads => exact (meets_explicitPads pads).bind fun _ _ => meets_ok hmoves
  | valid => exact meets_ok hmoves
  | same =>
    refine (meets_eachAxis ?_).bind fun _ _ => meets_ok hmoves
    intro i
    refine (meets_entry (by omega)).bind ?_
    intro _ _
    refine (meets_entry (by omega)).bind ?_
    intro _ _
    exact Window.meets_samePad hbound (hmoves _ (Vector.getElem_mem i.isLt))

theorem meets_outExtents [Build] (hbound : Build.Bounded → hole) {w : Sliding n}
    {spatial kernel : List Nat} (hmoves : w.Moves) (hspatial : spatial.length = n)
    (hkernel : kernel.length = n) :
    Meets (w.outExtents spatial kernel) hole fun extents => extents.length = n := by
  refine (meets_mapM (P := fun _ _ => True) ?_).imp ?_
  · intro i _
    refine (meets_entry (by omega)).bind ?_
    intro extent _
    have hstride := hmoves _ (Vector.getElem_mem i.isLt)
    -- Explicit pads and none at all count positions in the same way.
    have hpositions : Meets (do
        Window.positions extent (← present kernel[i.val]?) w.strides[i] w.dilations[i] w.pads[i])
        hole fun _ => True := by
      refine (meets_entry (by omega)).bind ?_
      intro _ _
      exact Window.meets_positions hbound hstride
    cases w.padding with
    | same => exact meets_quotientUp fun hz => absurd hz (Nat.ne_of_gt hstride)
    | explicit pads => exact hpositions
    | valid => exact hpositions
  · intro extents hextents
    rw [← hextents.length_eq, List.length_finRange]

end Sliding

namespace Convolution

theorem meets_requireRank (what : String) (rank : Nat) (t : TensorType) :
    Meets (requireRank what rank t) hole fun _ => t.shape.length = rank :=
  meets_require _ _

theorem meets_rejectBias (inputs : List TensorType) :
    Meets (rejectBias inputs) hole fun _ => True := by
  unfold rejectBias
  by_cases h : 2 < inputs.length
  · rw [if_pos h]
    exact meets_unsupported _
  · rw [if_neg h]
    exact meets_ok trivial

/-- An input without channels and a weight that reads some: no channels make no groups. -/
def EmptyGroups (inputs : List TensorType) : Prop :=
  ∃ x w rest, inputs = x :: w :: rest ∧ x.shape[1]? = some 0 ∧ ∃ p, 0 < p ∧ w.shape[1]? = some p

theorem meets_outChannels {channels : Nat} {weight : Shape} (hrank : 2 ≤ weight.length) :
    Meets (outChannels channels weight) (channels = 0 ∧ ∃ p, 0 < p ∧ weight[1]? = some p)
      fun _ => True := by
  refine (meets_entry (by omega)).bind ?_
  intro out _
  refine (meets_entry (by omega)).bind ?_
  intro perGroup hperGroup
  refine (meets_require _ _).bind ?_
  rintro _ ⟨hpos, hmod⟩
  refine (meets_quotient fun hz => absurd hz (Nat.ne_of_gt hpos)).bind ?_
  rintro group rfl
  -- The channels are whole groups, so without a group there is no channel.
  have hempty : channels / perGroup = 0 → channels = 0 := by
    intro hz
    have := Nat.div_add_mod channels perGroup
    rw [hz, hmod] at this
    simpa using this.symm
  refine (meets_remainder fun hz => ⟨hempty hz, perGroup, hpos, hperGroup⟩).bind ?_
  intro _ _
  refine (meets_require _ _).bind ?_
  intro _ _
  exact meets_ok trivial

theorem outChannels_fault {weight : Shape} {p : Nat} (hp : 0 < p) (hweight : weight[1]? = some p) :
    outChannels 0 weight = .error .fault := by
  have hlt : 1 < weight.length := (List.getElem?_eq_some_iff.mp hweight).1
  obtain ⟨out, hout⟩ : ∃ out, weight[0]? = some out := exists_entry (by omega)
  have hrequire (reason : Reason) : require (0 < p ∧ 0 % p = 0) reason = .ok () :=
    if_pos ⟨hp, Nat.zero_mod p⟩
  have hquotient : quotient 0 p = .ok 0 := by
    rw [quotient, if_neg (Nat.ne_of_gt hp), Nat.zero_div]
  simp only [outChannels, hout, hweight, present, hrequire, hquotient, remainder, bind, Except.bind,
    if_pos]

theorem exists_operations {α : Type} [Scalar α] {io : Io} {w out : TensorType}
    (hw : io.input? 1 = some w) (hout : io.output? 0 = some out) (hrank : 1 ≤ w.shape.length) :
    ∃ o : α, operations? io = some o :=
  exists_bind hw (exists_bind hout (exists_bind (Shape.from?_of_le hrank) ⟨_, rfl⟩))

end Convolution

open DataflowCost.Convolution

/-- Both operands of a convolution over `n` spatial axes have a batch and a channel axis too. -/
def Convolution.Ranked (n : Nat) (inputs : List TensorType) : Prop :=
  ∀ t ∈ inputs.take 2, t.shape.length = n + 2

namespace Conv

theorem meets_resolve [Build] (hbound : Build.Bounded → hole) {d : Conv n}
    {inputs : List TensorType} (h : 2 ≤ inputs.length) :
    Meets (d.resolve inputs) hole fun d' => d'.window.Moves ∧ Ranked n inputs := by
  match inputs, h with
  | x :: w :: rest, _ =>
    refine (meets_rejectBias _).bind ?_
    intro _ _
    refine (meets_requireRank "input" (n + 2) x).bind ?_
    intro _ hx
    refine (meets_requireRank "weight" (n + 2) w).bind ?_
    intro _ hw
    refine (Shape.meets_from (by omega)).bind ?_
    rintro _ rfl
    refine (Shape.meets_from (by omega)).bind ?_
    rintro _ rfl
    refine (Sliding.meets_resolve hbound (by simp [hx]) (by simp [hw])).bind ?_
    intro window hwindow
    exact meets_ok ⟨hwindow, by simp [Ranked, hx, hw]⟩

theorem meets_outShape [Build] (hbound : Build.Bounded → hole) {window : Sliding n} {x w : Shape}
    (hmoves : window.Moves) (hx : x.length = n + 2) (hw : w.length = n + 2)
    (hempty : x[1]? = some 0 → (∃ p, 0 < p ∧ w[1]? = some p) → hole) :
    Meets (outShape window x w) hole fun _ => True := by
  refine (meets_entry (by omega)).bind ?_
  intro channels hchannels
  refine ((meets_outChannels (by omega)).mono ?_ fun _ => id).bind ?_
  · rintro ⟨rfl, hp⟩
    exact hempty hchannels hp
  intro out _
  refine (Shape.meets_from (by omega)).bind ?_
  rintro _ rfl
  refine (Shape.meets_from (by omega)).bind ?_
  rintro _ rfl
  refine (Sliding.meets_outExtents hbound hmoves (by simp [hx]) (by simp [hw])).bind ?_
  intro extents _
  refine (meets_entry (by omega)).bind ?_
  intro batch _
  exact meets_ok trivial

theorem meets_outShapes [Build] {window : Sliding n} {x w : TensorType} {rest : List TensorType}
    (hmoves : window.Moves) (hranked : Ranked n (x :: w :: rest)) :
    Meets (outShape window x.shape w.shape) (EmptyGroups (x :: w :: rest) ∨ Build.Bounded)
      fun _ => True :=
  meets_outShape .inr hmoves (hranked x (by simp)) (hranked w (by simp))
    fun hx hw => .inl ⟨x, w, rest, rfl, hx, hw⟩

theorem exists_metrics {α : Type} [Scalar α] (d : Conv n) (memoryFactor : α → α)
    {x w out : TensorType} {rest outputs : List TensorType} (hranked : Ranked n (x :: w :: rest))
    (cx : CostContext) :
    ∃ m, d.metrics? memoryFactor ⟨x :: w :: rest, out :: outputs⟩ cx = some m := by
  have hw : w.shape.length = n + 2 := hranked w (by simp)
  obtain ⟨o, ho⟩ : ∃ o : α, operations? ⟨x :: w :: rest, out :: outputs⟩ = some o :=
    exists_operations rfl rfl (by omega)
  exact exists_bind rfl (exists_bind ho ⟨_, rfl⟩)

end Conv

instance [Build] : LawfulFamily (Conv 2) where
  Resolved d inputs := d.window.Moves ∧ Ranked 2 inputs
  Hole := EmptyGroups
  prepare_meets _ _ h :=
    (Conv.meets_resolve id (Arity.least_le_of_accepts h)).imp fun _ hd => ⟨rfl, hd⟩
  outShapes_meets d inputs h hd := by
    obtain ⟨x, w, rest, rfl⟩ := Arity.exists_cons₂_of_accepts h (Nat.le_refl 2)
    exact meets_single rfl (Conv.meets_outShapes hd.1 hd.2)
      fun _ _ _ => ⟨d.exists_metrics id hd.2, ⟨_, rfl⟩⟩

instance [Build] : LawfulFamily (Conv 3) where
  Resolved d inputs := d.window.Moves ∧ Ranked 3 inputs
  Hole := EmptyGroups
  prepare_meets _ _ h :=
    (Conv.meets_resolve id (Arity.least_le_of_accepts h)).imp fun _ hd => ⟨rfl, hd⟩
  outShapes_meets d inputs h hd := by
    obtain ⟨x, w, rest, rfl⟩ := Arity.exists_cons₂_of_accepts h (Nat.le_refl 2)
    exact meets_single rfl (Conv.meets_outShapes hd.1 hd.2)
      fun _ _ _ => ⟨d.exists_metrics _ hd.2, ⟨_, rfl⟩⟩

theorem ConvBackwardFilter.meets_resolve [Build] (hbound : Build.Bounded → hole)
    {d : ConvBackwardFilter} {inputs : List TensorType} (h : 2 ≤ inputs.length) :
    Meets (d.resolve inputs) hole fun d' => d'.window.Moves ∧ Ranked 2 inputs := by
  match inputs, h with
  | x :: gradient :: rest, _ =>
    refine (meets_rejectBias _).bind ?_
    intro _ _
    refine (meets_requireRank "input" 4 x).bind ?_
    intro _ hx
    refine (meets_requireRank "output gradient" 4 gradient).bind ?_
    intro _ hgradient
    refine (Shape.meets_from (by omega)).bind ?_
    rintro _ rfl
    refine (Shape.meets_from (by omega)).bind ?_
    rintro _ rfl
    refine (Sliding.meets_resolve hbound (by simp [hx]) (by simp [hgradient])).bind ?_
    intro window hwindow
    exact meets_ok ⟨hwindow, by simp [Ranked, hx, hgradient]⟩

instance [Build] : LawfulFamily ConvBackwardFilter where
  Resolved d inputs := d.window.Moves ∧ Ranked 2 inputs
  Hole := EmptyGroups
  prepare_meets _ _ h :=
    (ConvBackwardFilter.meets_resolve id (Arity.least_le_of_accepts h)).imp fun _ hd => ⟨rfl, hd⟩
  outShapes_meets d inputs h hd := by
    obtain ⟨x, gradient, rest, rfl⟩ := Arity.exists_cons₂_of_accepts h (Nat.le_refl 2)
    refine meets_single rfl (Conv.meets_outShapes hd.1 hd.2) ?_
    intro out outputs _
    have hgradient : gradient.shape.length = 4 := hd.2 gradient (by simp)
    refine ⟨?_, ⟨_, rfl⟩⟩
    intro α _ cx
    obtain ⟨o, ho⟩ : ∃ o : α, operations? ⟨x :: gradient :: rest, out :: outputs⟩ = some o :=
      exists_operations rfl rfl (by omega)
    exact exists_bind ho ⟨_, rfl⟩

namespace ConvTranspose

theorem exists_extents (layout : ChannelLayout) {x w : Shape} (hx : x.length = 4)
    (hw : w.length = 4) : ∃ e, extents? layout x w = some e := by
  match x, hx, w, hw with
  | [_, _, _, _], _, [_, _, _, _], _ => cases layout <;> exact ⟨_, rfl⟩

theorem meets_extents (layout : ChannelLayout) {x w : Shape} (hx : x.length = 4)
    (hw : w.length = 4) : Meets (present (extents? layout x w)) hole fun _ => True := by
  obtain ⟨e, he⟩ := exists_extents layout hx hw
  rw [he]
  exact meets_ok trivial

theorem meets_samePad [Build] (hbound : Build.Bounded → hole)
    (kernel stride dilation outputPad : Nat) :
    Meets (samePad kernel stride dilation outputPad) hole fun _ => True := by
  refine (Word.meets_mul hbound dilation (kernel - 1)).bind ?_
  intro reach _
  refine (Word.meets_add hbound reach 1).bind ?_
  intro _ _
  exact (Word.meets_add hbound _ outputPad).bind fun _ _ => meets_ok trivial

theorem meets_resolvePads [Build] (hbound : Build.Bounded → hole) (d : ConvTranspose) (e : Extents) :
    Meets (d.resolvePads e) hole fun _ => True := by
  unfold resolvePads
  cases d.window.padding with
  | explicit pads => exact Sliding.meets_explicitPads pads
  | valid => exact meets_ok trivial
  | same => exact Sliding.meets_eachAxis fun i => meets_samePad hbound _ _ _ _

theorem meets_resolve [Build] (hbound : Build.Bounded → hole) {d : ConvTranspose}
    {inputs : List TensorType} (h : 2 ≤ inputs.length) :
    Meets (d.resolve inputs) hole fun d' => 0 < d'.group ∧ Ranked 2 inputs := by
  match inputs, h with
  | x :: w :: rest, _ =>
    refine (meets_rejectBias _).bind ?_
    intro _ _
    refine (meets_requireRank "input" 4 x).bind ?_
    intro _ hx
    refine (meets_requireRank "weight" 4 w).bind ?_
    intro _ hw
    refine (meets_require _ _).bind ?_
    intro _ hgroup
    refine d.window.meets_checkSteps.bind ?_
    intro _ _
    refine (meets_extents d.layout hx hw).bind ?_
    intro e _
    refine (meets_resolvePads hbound d e).bind ?_
    intro pads _
    exact meets_ok ⟨hgroup, by simp [Ranked, hx, hw]⟩

theorem meets_outExtent [Build] (hbound : Build.Bounded → hole)
    (input kernel stride dilation pad outputPad : Nat) :
    Meets (outExtent input kernel stride dilation pad outputPad) hole fun _ => True := by
  refine (Word.meets_mul hbound (input - 1) stride).bind ?_
  intro steps _
  refine (Word.meets_mul hbound dilation (kernel - 1)).bind ?_
  intro reach _
  refine (Word.meets_add hbound steps reach).bind ?_
  intro _ _
  refine (Word.meets_add hbound _ outputPad).bind ?_
  intro _ _
  refine (Word.meets_add hbound _ 1).bind ?_
  intro full _
  refine (Word.meets_mul hbound 2 pad).bind ?_
  intro trim _
  refine (meets_require _ _).bind ?_
  intro _ _
  exact meets_ok trivial

theorem meets_outShape [Build] (hbound : Build.Bounded → hole) {d : ConvTranspose} {x w : Shape}
    (hgroup : 0 < d.group) (hx : x.length = 4) (hw : w.length = 4) :
    Meets (d.outShape x w) hole fun _ => True := by
  refine (meets_extents d.layout hx hw).bind ?_
  intro e _
  refine (meets_entry (by omega)).bind ?_
  intro weightChannels _
  refine (meets_require _ _).bind ?_
  intro _ _
  refine (meets_remainder fun hz => absurd hz (Nat.ne_of_gt hgroup)).bind ?_
  intro _ _
  refine (meets_require _ _).bind ?_
  intro _ _
  refine (Word.meets_mul hbound e.outPerGroup d.group).bind ?_
  intro out _
  refine (meets_outExtent hbound _ _ _ _ _ _).bind ?_
  intro rows _
  refine (meets_outExtent hbound _ _ _ _ _ _).bind ?_
  intro columns _
  exact meets_ok trivial

theorem exists_operations {α : Type} [Scalar α] (d : ConvTranspose) {io : Io}
    {x w out : TensorType} (hx : io.input? 0 = some x) (hw : io.input? 1 = some w)
    (hout : io.output? 0 = some out) (hxrank : x.shape.length = 4) (hwrank : w.shape.length = 4) :
    ∃ o : α, d.operations? io = some o := by
  obtain ⟨e, he⟩ := exists_extents d.layout hxrank hwrank
  exact exists_bind hx (exists_bind hw (exists_bind he (exists_bind hout ⟨_, rfl⟩)))

end ConvTranspose

instance [Build] : LawfulFamily ConvTranspose where
  Resolved d inputs := 0 < d.group ∧ Ranked 2 inputs
  prepare_meets _ _ h :=
    (ConvTranspose.meets_resolve id (Arity.least_le_of_accepts h)).imp fun _ hd => ⟨rfl, hd⟩
  outShapes_meets d inputs h hd := by
    obtain ⟨x, w, rest, rfl⟩ := Arity.exists_cons₂_of_accepts h (Nat.le_refl 2)
    have hx : x.shape.length = 4 := hd.2 x (by simp)
    have hw : w.shape.length = 4 := hd.2 w (by simp)
    refine meets_single rfl (ConvTranspose.meets_outShape .inr hd.1 hx hw) ?_
    intro out outputs _
    refine ⟨?_, ⟨_, rfl⟩⟩
    intro α _ cx
    obtain ⟨o, ho⟩ : ∃ o : α, d.operations? ⟨x :: w :: rest, out :: outputs⟩ = some o :=
      d.exists_operations rfl rfl rfl hx hw
    exact exists_bind rfl (exists_bind ho ⟨_, rfl⟩)

namespace Pool

/-- A window that moves, over an input with one or two spatial axes. -/
structure Fits (d : Pool) (x : Shape) : Prop where
  strides_pos : ∀ i : Fin 2, 0 < d.strides.get i
  rank : x.length = 3 ∨ x.length = 4

theorem meets_check (d : Pool) (x : TensorType) :
    Meets (d.check x) hole fun d' => d' = d ∧ d.Fits x.shape := by
  refine (meets_require _ _).bind ?_
  intro _ _
  refine (meets_require _ _).bind ?_
  intro _ hpositive
  refine (meets_require _ _).bind ?_
  intro _ hrank
  refine (meets_require _ _).bind ?_
  intro _ _
  refine meets_ok ⟨rfl, ?_, hrank⟩
  intro i
  have hstrides := List.all_eq_true.mp hpositive d.strides (by simp)
  have hmem : d.strides.get i ∈ d.strides.toList := by simp [Vector.get]
  exact of_decide_eq_true (List.all_eq_true.mp hstrides _ hmem)

theorem meets_pooled [Build] (hbound : Build.Bounded → hole) {d : Pool} {axis : Fin 2} {input : Nat}
    (h : 0 < d.strides.get axis) : Meets (d.pooled axis input) hole fun _ => True := by
  refine (Word.meets_mul hbound _ _).bind ?_
  intro _ _
  refine (Word.meets_add hbound _ 1).bind ?_
  intro window _
  refine (Word.meets_mul hbound 2 _).bind ?_
  intro _ _
  refine (Word.meets_add hbound input _).bind ?_
  intro padded _
  refine (meets_require _ _).bind ?_
  intro _ _
  have hne : d.strides.get axis = 0 → hole := fun hz => absurd hz (Nat.ne_of_gt h)
  cases d.ceilMode with
  | true => exact (meets_quotientUp hne).bind fun steps _ => Word.meets_add hbound steps 1
  | false => exact (meets_quotient hne).bind fun steps _ => Word.meets_add hbound steps 1

theorem meets_outShape [Build] (hbound : Build.Bounded → hole) {d : Pool} {x : Shape} (h : d.Fits x) :
    Meets (d.outShape x) hole fun out => 2 ≤ out.length := by
  obtain ⟨hstrides, hrank⟩ := h
  -- Three or four axes have a last one.
  have hlast : x.getLast? = none → hole := by
    intro hnone
    rw [List.getLast?_eq_none_iff.mp hnone] at hrank
    simp at hrank
  refine (meets_present hlast).bind ?_
  intro columns _
  split
  next batch channels rows _ =>
    refine (meets_pooled hbound (hstrides _)).bind ?_
    intro rows _
    refine (meets_pooled hbound (hstrides _)).bind ?_
    intro columns _
    exact meets_ok (by simp)
  next =>
    refine (meets_pooled hbound (hstrides _)).bind ?_
    intro columns _
    refine meets_ok ?_
    simp only [List.length_append, List.length_dropLast, List.length_singleton]
    omega

end Pool

instance [Build] : LawfulFamily Pool where
  Resolved d inputs := ∀ x ∈ inputs.head?, d.Fits x.shape
  prepare_meets d inputs h := by
    obtain ⟨x, rest, rfl⟩ := Arity.exists_cons_of_accepts h (Nat.le_refl 1)
    refine (d.meets_check x).imp ?_
    rintro _ ⟨rfl, hfits⟩
    exact ⟨rfl, by simpa using hfits⟩
  outShapes_meets d inputs h hd := by
    obtain ⟨x, rest, rfl⟩ := Arity.exists_cons_of_accepts h (Nat.le_refl 1)
    refine meets_single rfl (Pool.meets_outShape .inr (hd x rfl)) ?_
    intro out outputs hout
    obtain ⟨batch, channels, hbatch, hchannels⟩ := exists_outer hout
    refine ⟨?_, ⟨_, rfl⟩⟩
    intro α _ cx
    exact exists_bind rfl (exists_bind hbatch (exists_bind hchannels
      (exists_bind (Shape.from?_of_le hout) ⟨_, rfl⟩)))

end DataflowCost
