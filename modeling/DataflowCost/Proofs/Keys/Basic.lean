import DataflowCost.Operator.Basic
import DataflowCost.Proofs.Exact
import DataflowCost.Proofs.Families.Basic

/-! What key vectors tell of an operator. A key vector is read from its front: the kind, then extents
and attributes as words. Of two definitions of one family with equal keys, only what the keys leave
out can make the compute times differ. -/
namespace DataflowCost

open Inference

/-- Numbers that a word holds without loss. -/
def AreWords (ns : List Nat) : Prop := ∀ n ∈ ns, n < Word.limit

instance (ns : List Nat) : Decidable (AreWords ns) :=
  inferInstanceAs (Decidable (∀ n ∈ ns, n < Word.limit))

theorem AreWords.of_append {ns ms : List Nat} (h : AreWords (ns ++ ms)) :
    AreWords ns ∧ AreWords ms :=
  ⟨fun n hn => h n (List.mem_append_left _ hn), fun n hn => h n (List.mem_append_right _ hn)⟩

theorem AreWords.append {ns ms : List Nat} (hns : AreWords ns) (hms : AreWords ms) :
    AreWords (ns ++ ms) := by
  intro n hn
  rcases List.mem_append.mp hn with hn | hn
  · exact hns n hn
  · exact hms n hn

theorem word_inj {m n : Nat} (hm : m < Word.limit) (hn : n < Word.limit)
    (h : word m = word n) : m = n := by
  have hbmod : (m : Int).bmod Word.limit = (n : Int).bmod Word.limit := h
  -- A word is its number up to a multiple of the limit.
  have hmod : (m : Int) % Word.limit = n % Word.limit := by
    rw [← Int.bmod_emod, hbmod, Int.bmod_emod]
  rw [Int.emod_eq_of_lt (by omega) (Int.ofNat_lt.mpr hm),
    Int.emod_eq_of_lt (by omega) (Int.ofNat_lt.mpr hn)] at hmod
  exact Int.ofNat.inj hmod

theorem words_inj {ns ms : List Nat} (hns : AreWords ns) (hms : AreWords ms)
    (h : words ns = words ms) : ns = ms := by
  induction ns generalizing ms with
  | nil => exact (List.map_eq_nil_iff.mp h.symm).symm
  | cons n ns ih =>
    obtain ⟨m, ms', rfl, hword, hrest⟩ := List.map_eq_cons_iff.mp h.symm
    have hn : n = m := word_inj (hns n List.mem_cons_self) (hms m List.mem_cons_self) hword.symm
    have hns' : ns = ms' := ih (fun k hk => hns k (List.mem_cons_of_mem _ hk))
      (fun k hk => hms k (List.mem_cons_of_mem _ hk)) hrest.symm
    rw [hn, hns']

/-- A key that ends alike begins alike. -/
theorem words_append_inj {ns ms : List Nat} {k l : KeyVector} (hns : AreWords ns)
    (hms : AreWords ms) (hkl : k = l) (h : words ns ++ k = words ms ++ l) : ns = ms := by
  subst hkl
  exact words_inj hns hms (List.append_cancel_right h)

theorem words_append (ns ms : List Nat) : words (ns ++ ms) = words ns ++ words ms :=
  List.map_append

/-- Two lists of numbers are told apart in a key if the length of the first one is known. -/
theorem words_append₂_inj {ns ms ns' ms' : List Nat} {k l : KeyVector} (hns : AreWords ns)
    (hms : AreWords ms) (hns' : AreWords ns') (hms' : AreWords ms')
    (hlen : ns.length = ns'.length) (hkl : k = l)
    (h : words ns ++ words ms ++ k = words ns' ++ words ms' ++ l) : ns = ns' ∧ ms = ms' := by
  rw [← words_append, ← words_append] at h
  have happend := words_append_inj (hns.append hms) (hns'.append hms') hkl h
  exact List.append_inj happend hlen

theorem word_toNat_injective {a b : Bool} (h : word a.toNat = word b.toNat) : a = b := by
  cases a <;> cases b <;> first | rfl | cases h

theorem Kind.ofTag?_tag (k : Kind) : ofTag? k.tag = some k := by
  have hall : ∀ k ∈ all, ofTag? k.tag = some k := by decide +kernel
  exact hall k (mem_all k)

theorem Kind.tag_injective {k l : Kind} (h : k.tag = l.tag) : k = l := by
  have hsome : some k = some l := by rw [← ofTag?_tag k, h, ofTag?_tag]
  exact Option.some.inj hsome

theorem Activation.tag_injective {a b : Activation} (h : a.tag = b.tag) : a = b := by
  cases a <;> cases b <;> first | rfl | cases h

namespace Family

variable {δ : Type} [Family δ] {d d' : δ} {inputs outputs : List TensorType} {io io' : Io}

/-- A definition that is resolved against inputs of which it infers the outputs. -/
structure Registered [Build] (d : δ) (inputs outputs : List TensorType) : Prop where
  accepts : (arity d).accepts inputs.length
  resolved : ∃ given : δ, (arity given).accepts inputs.length ∧ (prepare given inputs).Yields d
  outShapes_eq : outShapes d inputs = .ok (outputs.map TensorType.shape)
  outTypes_eq : outTypes d inputs = .ok (outputs.map TensorType.dtype)

/-- A definition that is resolved against its first input is what the resolution makes of the one that
was given. -/
theorem Registered.exists_resolved [Build] {β : Type} {x : TensorType} {f : δ → Inference β}
    {s : δ → β → δ} (h : Registered d (x :: inputs) outputs)
    (hprepare : ∀ given : δ, prepare given (x :: inputs) =
      .done (f given >>= fun b => .ok (s given b))) :
    ∃ given b, f given = .ok b ∧ d = s given b := by
  obtain ⟨given, _, hyields⟩ := h.resolved
  rw [hprepare] at hyields
  obtain ⟨b, hb, hd⟩ := bind_eq_ok_iff.mp hyields
  exact ⟨given, b, hb, (Except.ok.inj hd).symm⟩

theorem Registered.lawful [Build] [LawfulFamily δ] (h : Registered d inputs outputs) :
    LawfulFamily.Resolved d inputs := by
  obtain ⟨given, haccepts, hyields⟩ := h.resolved
  exact ((LawfulFamily.prepare_meets given inputs haccepts).yields hyields).2

/-- The same compute time in every context, before rounding. -/
structure SameTime (d d' : δ) (io io' : Io) : Prop where
  computeTime_eq : ∀ {α : Type} [Scalar α] [Scalar.Exact α] (cx : CostContext) {m m' : Metrics α},
    metrics d io cx = some m → metrics d' io' cx = some m' → m.computeTime = m'.computeTime

theorem sameTime_of_eq
    (h : ∀ {α : Type} [Scalar α] [Scalar.Exact α] (cx : CostContext),
      (metrics (α := α) d io cx).map Metrics.computeTime =
        (metrics d' io' cx).map Metrics.computeTime) :
    SameTime d d' io io' where
  computeTime_eq {α} _ _ cx m m' hm hm' := by
    have hsame := h (α := α) cx
    rw [hm, hm'] at hsame
    exact Option.some.inj hsame

theorem exists_output {s : Shape}
    (h : (.ok [s] : Inference (List Shape)) = .ok (outputs.map TensorType.shape)) :
    ∃ out, outputs = [out] ∧ out.shape = s := by
  obtain ⟨out, rest, rfl, hout, hrest⟩ := List.map_eq_cons_iff.mp (Except.ok.inj h).symm
  rw [List.map_eq_nil_iff.mp hrest]
  exact ⟨out, rfl, hout⟩

theorem exists_sameShape (h : sameShape inputs = .ok (outputs.map TensorType.shape)) :
    ∃ x rest out, inputs = x :: rest ∧ outputs = [out] ∧ out.shape = x.shape := by
  cases inputs with
  | nil => cases h
  | cons x rest =>
    obtain ⟨out, hout, hshape⟩ := exists_output h
    exact ⟨x, rest, out, rfl, hout, hshape⟩

/-- A check in front changes no answer. -/
theorem sameShape_of_check {check : Inference Unit} {shapes : List Shape}
    (h : (check >>= fun _ => sameShape inputs) = .ok shapes) : sameShape inputs = .ok shapes := by
  obtain ⟨_, _, h⟩ := bind_eq_ok_iff.mp h
  exact h

theorem exists_single {r : Inference Shape}
    (h : (do return [← r] : Inference (List Shape)) = .ok (outputs.map TensorType.shape)) :
    ∃ out, outputs = [out] ∧ r = .ok out.shape := by
  obtain ⟨s, hs, h⟩ := bind_eq_ok_iff.mp h
  obtain ⟨out, rfl, rfl⟩ := exists_output h
  exact ⟨out, rfl, hs⟩

end Family

namespace Operator

/-- The numbers besides extents that key vectors hold. -/
def numbers : Operator → Io → List Nat
  | .matMul d, ⟨a :: b :: _, _⟩ =>
    let p := d.estimated a.shape b.shape
    [p.count, p.m, p.n, p.k]
  | .gbmm d, _ => [d.dilation]
  | .g2bmm d, _ => [d.width, d.dilation]
  | .conv2d d, _ => d.window.pads.toList ++ d.window.strides.toList ++ d.window.dilations.toList
  | .conv3d d, _ => d.window.pads.toList ++ d.window.strides.toList ++ d.window.dilations.toList
  | .convTranspose d, _ =>
    d.window.pads.toList ++ d.window.strides.toList ++ d.window.dilations.toList ++
      d.outputPadding.toList ++ [d.group]
  | .convBackwardFilter d, _ =>
    d.window.pads.toList ++ d.window.strides.toList ++ d.window.dilations.toList
  | .pool d, _ => d.kernel.toList ++ d.pads.toList ++ d.strides.toList ++ d.dilations.toList
  | .reduce d, _ => d.resolved
  | .softmax d, _ => [d.resolved]
  | .layerNorm d, _ => [d.resolved]
  | .flatten d, _ => [d.resolved]
  | .squeeze d, _ => d.resolved
  | .unsqueeze d, _ => d.resolved
  | .transpose d, _ => d.resolved
  | .depthToSpace d, _ => [d.block]
  | .expand d, _ => d.shape
  | .split d, _ => [d.resolved, d.pieces.count]
  | .extend d, _ => [d.resolved, d.num]
  | .pad d, _ => d.resolved
  | .gather d, _ => [d.resolved]
  | .gatherElements d, _ => [d.resolved]
  | .allGather d, _ => [d.worldSize]
  | .send d, _ => [d.source, d.destination]
  | .recv d, _ => [d.source, d.destination]
  | _, _ => []

/-- Everything that key vectors hold of an operator fits into words. -/
structure Fits (op : Operator) (io : Io) : Prop where
  numbers : AreWords (op.numbers io)
  inputs : ∀ t ∈ io.inputs, AreWords t.shape
  outputs : ∀ t ∈ io.outputs, AreWords t.shape

/-- Two operators agree in what compute time depends on and key vectors leave out. Of the other
families nothing is left out. -/
def AgreesUnkeyed : Operator → Operator → Io → Io → Prop
  | .select _, .select _, io, io' =>
    io.inputs.map TensorType.size = io'.inputs.map TensorType.size
  | .matMul _, .matMul _, io, io' => io.inputs.length = io'.inputs.length
  | .layerNorm _, .layerNorm _, io, io' => io.inputs.length = io'.inputs.length
  | .localResponseNorm d, .localResponseNorm d', _, _ => d.size = d'.size
  | .gather _, .gather _, io, io' =>
    (io.input? 0).map TensorType.rank = (io'.input? 0).map TensorType.rank
  | .resize d, .resize d', _, _ => d.mode = d'.mode
  | .attentionKvCache _, .attentionKvCache _, io, io' =>
    (io.input? 0).map (·.shape[AttentionKvCache.sequenceAxis]?) =
      (io'.input? 0).map (·.shape[AttentionKvCache.sequenceAxis]?)
  | .det d, .det d', io, io' =>
    d.mode = d'.mode ∧ (io.input? 0).map (·.shape.getLast?) = (io'.input? 0).map (·.shape.getLast?)
  | .send _, .send _, io, io' =>
    (io.input? 0).map (·.dtype.bytes) = (io'.input? 0).map (·.dtype.bytes)
  | _, _, _, _ => True

/-- Two operators with equal key vectors that agree in what these leave out. -/
structure SameKeys (op op' : Operator) (io io' : Io) : Prop where
  fits : op.Fits io
  fits' : op'.Fits io'
  workload_eq : op.workload io = op'.workload io'
  attributes_eq : op.attributes = op'.attributes
  agrees : op.AgreesUnkeyed op' io io'

namespace SameKeys

variable {op op' : Operator} {io io' : Io} {x x' out out' : TensorType}
  {inputs inputs' outputs outputs' : List TensorType}

/-- Behind their heads, which name the kind, the workloads agree. -/
theorem tail_eq (h : op.SameKeys op' io io') {a b : Int} {k l : KeyVector}
    (hop : op.workload io = some (a :: k)) (hop' : op'.workload io' = some (b :: l)) : k = l := by
  have hkeys : some (a :: k) = some (b :: l) := by rw [← hop, ← hop', h.workload_eq]
  exact (List.cons.inj (Option.some.inj hkeys)).2

theorem input_eq (h : op.SameKeys op' ⟨x :: inputs, outputs⟩ ⟨x' :: inputs', outputs'⟩)
    (hkey : words x.shape = words x'.shape) : x.shape = x'.shape :=
  words_inj (h.fits.inputs x List.mem_cons_self) (h.fits'.inputs x' List.mem_cons_self) hkey

theorem output_eq (h : op.SameKeys op' ⟨inputs, out :: outputs⟩ ⟨inputs', out' :: outputs'⟩)
    (hkey : words out.shape = words out'.shape) : out.shape = out'.shape :=
  words_inj (h.fits.outputs out List.mem_cons_self) (h.fits'.outputs out' List.mem_cons_self) hkey

theorem input_eq_of_append (h : op.SameKeys op' ⟨x :: inputs, outputs⟩ ⟨x' :: inputs', outputs'⟩)
    {k l : KeyVector} (hkey : words x.shape ++ k = words x'.shape ++ l) (hkl : k = l) :
    x.shape = x'.shape := by
  subst hkl
  exact h.input_eq (List.append_cancel_right hkey)

theorem output_eq_of_append
    (h : op.SameKeys op' ⟨inputs, out :: outputs⟩ ⟨inputs', out' :: outputs'⟩) {k l : KeyVector}
    (hkey : words out.shape ++ k = words out'.shape ++ l) (hkl : k = l) :
    out.shape = out'.shape := by
  subst hkl
  exact h.output_eq (List.append_cancel_right hkey)

theorem inputs_eq_of_append {y y' : TensorType}
    (h : op.SameKeys op' ⟨x :: y :: inputs, outputs⟩ ⟨x' :: y' :: inputs', outputs'⟩)
    (hrank : x.shape.length = x'.shape.length) {k l : KeyVector} (hkl : k = l)
    (hkey : words x.shape ++ words y.shape ++ k = words x'.shape ++ words y'.shape ++ l) :
    x.shape = x'.shape ∧ y.shape = y'.shape := by
  have hy : AreWords y.shape := h.fits.inputs y (List.mem_cons_of_mem x List.mem_cons_self)
  have hy' : AreWords y'.shape := h.fits'.inputs y' (List.mem_cons_of_mem x' List.mem_cons_self)
  exact words_append₂_inj (h.fits.inputs x List.mem_cons_self) hy
    (h.fits'.inputs x' List.mem_cons_self) hy' hrank hkl hkey

theorem head_eq (h : op.SameKeys op' io io') {a b : Int} {k l : KeyVector}
    (hop : op.attributes = a :: k) (hop' : op'.attributes = b :: l) : a = b :=
  (List.cons.inj (hop.symm.trans (h.attributes_eq.trans hop'))).1

/-- Behind their heads, which name the kind, the attributes agree. -/
theorem settings_eq (h : op.SameKeys op' io io') {a b : Int} {k l : KeyVector}
    (hop : op.attributes = a :: k) (hop' : op'.attributes = b :: l) : k = l :=
  (List.cons.inj (hop.symm.trans (h.attributes_eq.trans hop'))).2

/-- The first of the numbers is the same if the attributes begin with it. -/
theorem number_eq (h : op.SameKeys op' io io') {m n : Nat} {ms ns : List Nat} {a b : Int}
    {k l : KeyVector} (hnumbers : op.numbers io = m :: ms) (hnumbers' : op'.numbers io' = n :: ns)
    (hop : op.attributes = a :: word m :: k) (hop' : op'.attributes = b :: word n :: l) :
    m = n := by
  have hm : m < Word.limit := h.fits.numbers m (hnumbers ▸ List.mem_cons_self)
  have hn : n < Word.limit := h.fits'.numbers n (hnumbers' ▸ List.mem_cons_self)
  have hword : word m = word n := (List.cons.inj (h.settings_eq hop hop')).1
  exact word_inj hm hn hword

end SameKeys

end Operator

/-- A family whose keys, with what they leave out, determine the compute time. -/
class Keyed [Build] {δ : Type} [Family δ] (wrap : δ → Operator) : Prop where
  sameTime : ∀ {d d' : δ} {inputs inputs' outputs outputs' : List TensorType},
    Family.Registered d inputs outputs → Family.Registered d' inputs' outputs' →
    (wrap d).SameKeys (wrap d') ⟨inputs, outputs⟩ ⟨inputs', outputs'⟩ →
    Family.SameTime d d' ⟨inputs, outputs⟩ ⟨inputs', outputs'⟩

namespace Keyed

open Family

variable {δ : Type} [Family δ] {wrap : δ → Operator}

/-- Families whose keys hold the extents of the first input. -/
theorem of_input [Build] (hleast : ∀ d : δ, 1 ≤ (arity d).least)
    (hkeys : ∀ {d d' : δ} {x x' : TensorType} {inputs inputs' outputs outputs' : List TensorType},
      Registered d (x :: inputs) outputs → Registered d' (x' :: inputs') outputs' →
      (wrap d).SameKeys (wrap d') ⟨x :: inputs, outputs⟩ ⟨x' :: inputs', outputs'⟩ →
      x.shape = x'.shape)
    (htime : ∀ {d d' : δ} {s : Shape} {t t' : DType}
      {inputs inputs' outputs outputs' : List TensorType},
      Registered d (⟨s, t⟩ :: inputs) outputs → Registered d' (⟨s, t'⟩ :: inputs') outputs' →
      (wrap d).SameKeys (wrap d') ⟨⟨s, t⟩ :: inputs, outputs⟩ ⟨⟨s, t'⟩ :: inputs', outputs'⟩ →
      SameTime d d' ⟨⟨s, t⟩ :: inputs, outputs⟩ ⟨⟨s, t'⟩ :: inputs', outputs'⟩) : Keyed wrap where
  sameTime h h' keys := by
    obtain ⟨⟨s, t⟩, inputs, rfl⟩ := Arity.exists_cons_of_accepts h.accepts (hleast _)
    obtain ⟨⟨s', t'⟩, inputs', rfl⟩ := Arity.exists_cons_of_accepts h'.accepts (hleast _)
    obtain rfl : s = s' := hkeys h h' keys
    exact htime h h' keys

/-- Families whose keys hold the extents of the output, where it has the shape of the input. -/
theorem of_sameShape [Build]
    (hshape : ∀ {d : δ} {inputs : List TensorType} {shapes : List Shape},
      outShapes d inputs = .ok shapes → sameShape inputs = .ok shapes)
    (hkeys : ∀ {d d' : δ} {x x' out out' : TensorType} {inputs inputs' : List TensorType},
      (wrap d).SameKeys (wrap d') ⟨x :: inputs, [out]⟩ ⟨x' :: inputs', [out']⟩ →
      out.shape = out'.shape)
    (htime : ∀ {d d' : δ} {s : Shape} {t t' u u' : DType} {inputs inputs' : List TensorType},
      Registered d (⟨s, t⟩ :: inputs) [⟨s, u⟩] → Registered d' (⟨s, t'⟩ :: inputs') [⟨s, u'⟩] →
      (wrap d).SameKeys (wrap d') ⟨⟨s, t⟩ :: inputs, [⟨s, u⟩]⟩ ⟨⟨s, t'⟩ :: inputs', [⟨s, u'⟩]⟩ →
      SameTime d d' ⟨⟨s, t⟩ :: inputs, [⟨s, u⟩]⟩ ⟨⟨s, t'⟩ :: inputs', [⟨s, u'⟩]⟩) :
    Keyed wrap where
  sameTime h h' keys := by
    obtain ⟨⟨_, t⟩, inputs, ⟨s, u⟩, rfl, rfl, rfl⟩ := exists_sameShape (hshape h.outShapes_eq)
    obtain ⟨⟨_, t'⟩, inputs', ⟨s', u'⟩, rfl, rfl, rfl⟩ :=
      exists_sameShape (hshape h'.outShapes_eq)
    obtain rfl : s = s' := hkeys keys
    exact htime h h' keys

/-- Families whose workload is the key of the first input. -/
theorem of_inputKey [Build] (hleast : ∀ d : δ, 1 ≤ (arity d).least)
    (hworkload : ∀ (d : δ) (io : Io), (wrap d).workload io = inputKey (kind d) io)
    (htime : ∀ {d d' : δ} {s : Shape} {t t' : DType}
      {inputs inputs' outputs outputs' : List TensorType},
      Registered d (⟨s, t⟩ :: inputs) outputs → Registered d' (⟨s, t'⟩ :: inputs') outputs' →
      (wrap d).SameKeys (wrap d') ⟨⟨s, t⟩ :: inputs, outputs⟩ ⟨⟨s, t'⟩ :: inputs', outputs'⟩ →
      SameTime d d' ⟨⟨s, t⟩ :: inputs, outputs⟩ ⟨⟨s, t'⟩ :: inputs', outputs'⟩) : Keyed wrap := by
  refine .of_input hleast ?_ htime
  intro d d' x x' inputs inputs' outputs outputs' _ _ keys
  have hkey : words x.shape = words x'.shape :=
    keys.tail_eq (hworkload d ⟨x :: inputs, outputs⟩) (hworkload d' ⟨x' :: inputs', outputs'⟩)
  exact keys.input_eq hkey

/-- Families whose workload is the key of the output, where it has the shape of the input. -/
theorem of_outputKey [Build]
    (hshape : ∀ {d : δ} {inputs : List TensorType} {shapes : List Shape},
      outShapes d inputs = .ok shapes → sameShape inputs = .ok shapes)
    (hworkload : ∀ (d : δ) (io : Io), (wrap d).workload io = outputKey (kind d) io)
    (htime : ∀ {d d' : δ} {s : Shape} {t t' u u' : DType} {inputs inputs' : List TensorType},
      Registered d (⟨s, t⟩ :: inputs) [⟨s, u⟩] → Registered d' (⟨s, t'⟩ :: inputs') [⟨s, u'⟩] →
      (wrap d).SameKeys (wrap d') ⟨⟨s, t⟩ :: inputs, [⟨s, u⟩]⟩ ⟨⟨s, t'⟩ :: inputs', [⟨s, u'⟩]⟩ →
      SameTime d d' ⟨⟨s, t⟩ :: inputs, [⟨s, u⟩]⟩ ⟨⟨s, t'⟩ :: inputs', [⟨s, u'⟩]⟩) :
    Keyed wrap := by
  refine .of_sameShape hshape ?_ htime
  intro d d' x x' out out' inputs inputs' keys
  have hkey : words out.shape = words out'.shape :=
    keys.tail_eq (hworkload d ⟨x :: inputs, [out]⟩) (hworkload d' ⟨x' :: inputs', [out']⟩)
  exact keys.output_eq hkey

end Keyed

/-- The keys of a family give back the extents of all inputs, and the resolved attributes as far as
`Same` tells them apart. -/
structure Decodes [Build] {δ : Type} [Family δ] (wrap : δ → Operator) (Same : δ → δ → Prop) : Prop where
  decode : ∀ {d d' : δ} {inputs inputs' outputs outputs' : List TensorType},
    Family.Registered d inputs outputs → Family.Registered d' inputs' outputs' →
    (wrap d).SameKeys (wrap d') ⟨inputs, outputs⟩ ⟨inputs', outputs'⟩ →
    inputs.map TensorType.shape = inputs'.map TensorType.shape ∧ Same d d'

namespace Decodes

open Family

variable {δ : Type} [Family δ] {wrap : δ → Operator} {Same : δ → δ → Prop}

/-- Families of one input. -/
theorem of_single [Build] (hone : ∀ d : δ, arity d = .exact 1 1)
    (hdecode : ∀ {d d' : δ} {x x' : TensorType} {outputs outputs' : List TensorType},
      Registered d [x] outputs → Registered d' [x'] outputs' →
      (wrap d).SameKeys (wrap d') ⟨[x], outputs⟩ ⟨[x'], outputs'⟩ →
      x.shape = x'.shape ∧ Same d d') : Decodes wrap Same where
  decode {d d' _ _ _ _} h h' keys := by
    have haccepts := h.accepts
    have haccepts' := h'.accepts
    rw [hone] at haccepts haccepts'
    obtain ⟨x, rfl⟩ := Arity.eq_singleton_of_accepts haccepts
    obtain ⟨x', rfl⟩ := Arity.eq_singleton_of_accepts haccepts'
    obtain ⟨hshape, hsame⟩ := hdecode h h' keys
    exact ⟨congrArg (fun s => [s]) hshape, hsame⟩

/-- Families of one input whose attributes, as they stand in the attribute vector, follow the extents
of the input in the workload: they say where the extents end. -/
theorem of_settings [Build] (settings : δ → KeyVector) (hone : ∀ d : δ, arity d = .exact 1 1)
    (hworkload : ∀ (d : δ) (x : TensorType) (outputs : List TensorType),
      (wrap d).workload ⟨[x], outputs⟩ =
        some (Kind.tag (kind d) :: (words x.shape ++ settings d)))
    (hattributes : ∀ d : δ, (wrap d).attributes = Kind.tag (kind d) :: settings d)
    (hsame : ∀ {d d' : δ} {io io' : Io}, (wrap d).SameKeys (wrap d') io io' → kind d = kind d' →
      settings d = settings d' → Same d d') : Decodes wrap Same := by
  refine of_single hone ?_
  intro d d' x x' outputs outputs' _ _ keys
  have hkind : kind d = kind d' :=
    Kind.tag_injective (keys.head_eq (hattributes d) (hattributes d'))
  have hsettings : settings d = settings d' := keys.settings_eq (hattributes d) (hattributes d')
  have hkey : words x.shape ++ settings d = words x'.shape ++ settings d' :=
    keys.tail_eq (hworkload d x outputs) (hworkload d' x' outputs')
  exact ⟨keys.input_eq_of_append hkey hsettings, hsame keys hkind hsettings⟩

end Decodes

end DataflowCost
