import DataflowCost.Proofs.ExactForms
import DataflowCost.Proofs.Families.Product
import DataflowCost.Proofs.Keys.Basic

/-! The keys of families that multiply matrices. A product is keyed by its problem sizes, which say
nothing of a bias; the other families are keyed by extents of one tensor. -/
namespace DataflowCost

open Inference Family
open scoped ExactArithmetic

theorem Precision.tag_injective {a b : Precision} (h : a.tag = b.tag) : a = b := by
  cases a <;> cases b <;> first | rfl | cases h

namespace MatMul

theorem settings_injective {d d' : MatMul} (h : d.settings = d'.settings) : d = d' := by
  simp only [settings, List.cons.injEq, and_true] at h
  obtain ⟨htransA, htransB, hact, hprecision⟩ := h
  rw [mk.injEq]
  exact ⟨word_toNat_injective htransA, word_toNat_injective htransB,
    Activation.tag_injective hact, Precision.tag_injective hprecision⟩

/-- The output is the stack of the products of the first two inputs. -/
theorem exists_operands {d : MatMul} {inputs outputs : List TensorType}
    (h : Registered d inputs outputs) : ∃ a b rest p t, inputs = a :: b :: rest ∧
      d.problem a.shape b.shape = .ok p ∧ outputs = [⟨p.batch ++ [p.m, p.n], t⟩] := by
  obtain ⟨a, b, rest, rfl⟩ := Arity.exists_cons₂_of_accepts h.accepts (Nat.le_refl 2)
  have hshapes : (do return [← d.outShape a.shape b.shape (rest[0]?.map TensorType.shape)]) =
      Except.ok (outputs.map TensorType.shape) := h.outShapes_eq
  obtain ⟨⟨out, t⟩, rfl, houtShape⟩ := exists_single hshapes
  have hmeets : Meets (d.outShape a.shape b.shape (rest[0]?.map TensorType.shape)) True _ :=
    d.meets_outShape _ _ _
  obtain ⟨p, hp, rfl⟩ := hmeets.answer houtShape
  exact ⟨a, b, rest, p, t, rfl, hp, rfl⟩

/-- Two problems of one size take the same time, however their batches are laid out. -/
theorem computeTime_congr {α : Type} [Scalar α] (d : MatMul) {p q : Problem} (biased : Bool)
    (h : [p.count, p.m, p.n, p.k] = [q.count, q.m, q.n, q.k]) :
    d.computeTime p biased = (d.computeTime q biased : α) := by
  simp only [List.cons.injEq, and_true] at h
  obtain ⟨hcount, hm, hn, hk⟩ := h
  simp only [computeTime, operations, hcount, hm, hn, hk]

end MatMul

instance : Keyed Operator.matMul where
  sameTime {d d' _ _ _ _} h h' keys := by
    obtain ⟨a, b, rest, rfl⟩ := Arity.exists_cons₂_of_accepts h.accepts (Nat.le_refl 2)
    obtain ⟨a', b', rest', rfl⟩ := Arity.exists_cons₂_of_accepts h'.accepts (Nat.le_refl 2)
    obtain rfl : d = d' := MatMul.settings_injective (keys.settings_eq rfl rfl)
    let p := d.estimated a.shape b.shape
    let p' := d.estimated a'.shape b'.shape
    have hsizes : [p.count, p.m, p.n, p.k] = [p'.count, p'.m, p'.n, p'.k] :=
      words_append_inj keys.fits.numbers keys.fits'.numbers rfl (keys.tail_eq rfl rfl)
    -- Sizes say nothing of a third input, which is added to each result.
    have hlen : (a :: b :: rest).length = (a' :: b' :: rest').length := keys.agrees
    refine sameTime_of_eq fun _ => ?_
    change some (d.computeTime p (2 < (a :: b :: rest).length)) =
      some (d.computeTime p' (2 < (a' :: b' :: rest').length))
    rw [hlen, d.computeTime_congr _ hsizes]

namespace Gbmm

theorem settings_injective {d d' : Gbmm} (hd : AreWords [d.dilation]) (hd' : AreWords [d'.dilation])
    (h : attributes d = attributes d') : d = d' := by
  simp only [attributes, List.cons.injEq, and_true, true_and] at h
  obtain ⟨hdilation, hact⟩ := h
  rw [mk.injEq]
  exact ⟨word_inj (hd _ List.mem_cons_self) (hd' _ List.mem_cons_self) hdilation,
    Activation.tag_injective hact⟩

/-- The first operand and the output have three axes each. -/
theorem exists_extents {d : Gbmm} {inputs outputs : List TensorType}
    (h : Registered d inputs outputs) : ∃ batch rows band b r c t u rest,
      inputs = ⟨[batch, rows, band], t⟩ :: rest ∧ outputs = [⟨[b, r, c], u⟩] := by
  obtain ⟨⟨x, t⟩, y, rest, rfl⟩ := Arity.exists_cons₂_of_accepts h.accepts (Nat.le_refl 2)
  obtain ⟨⟨out, u⟩, rfl, houtShape⟩ := exists_single (r := d.outShape x y.shape) h.outShapes_eq
  have hmeets : Meets (d.outShape x y.shape) True _ := d.meets_outShape x y.shape
  obtain ⟨hx, hout⟩ := hmeets.answer houtShape
  obtain ⟨batch, rows, band, rfl⟩ := List.length_eq_three.mp hx
  obtain ⟨b, r, c, rfl⟩ := List.length_eq_three.mp hout
  exact ⟨batch, rows, band, b, r, c, t, u, y :: rest, rfl, rfl⟩

/-- The workload lists the output, the width of the band and the dilation. -/
theorem areWords_workload {d : Gbmm} {batch rows band b r c : Nat} {t u : DType}
    {rest : List TensorType}
    (h : (Operator.gbmm d).Fits ⟨⟨[batch, rows, band], t⟩ :: rest, [⟨[b, r, c], u⟩]⟩) :
    AreWords [b, r, c, band, d.dilation] := by
  have hout : AreWords [b, r, c] := h.outputs _ List.mem_cons_self
  have hin : AreWords ([batch, rows] ++ [band]) := h.inputs _ List.mem_cons_self
  exact (hout.append hin.of_append.2).append h.numbers

end Gbmm

instance : Keyed Operator.gbmm where
  sameTime {d d' _ _ _ _} h h' keys := by
    obtain ⟨batch, rows, band, b, r, c, t, u, rest, rfl, rfl⟩ := Gbmm.exists_extents h
    obtain ⟨batch', rows', band', b', r', c', t', u', rest', rfl, rfl⟩ := Gbmm.exists_extents h'
    obtain rfl : d = d' :=
      Gbmm.settings_injective keys.fits.numbers keys.fits'.numbers keys.attributes_eq
    have hextents := words_append_inj (Gbmm.areWords_workload keys.fits)
      (Gbmm.areWords_workload keys.fits') rfl (keys.tail_eq rfl rfl)
    simp only [List.cons.injEq, and_true] at hextents
    obtain ⟨rfl, rfl, rfl, rfl⟩ := hextents
    exact sameTime_of_eq fun _ => rfl

namespace G2bmm

theorem settings_injective {d d' : G2bmm} (hd : AreWords [d.width, d.dilation])
    (hd' : AreWords [d'.width, d'.dilation]) (h : d.settings = d'.settings) : d = d' := by
  obtain ⟨hact, hnumbers⟩ : d.act.tag = d'.act.tag ∧
      words [d.width, d.dilation] = words [d'.width, d'.dilation] := by
    simp only [settings, List.cons.injEq, and_true] at h
    simp only [words, List.map_cons, List.map_nil, h, and_self]
  have heq := words_inj hd hd' hnumbers
  simp only [List.cons.injEq, and_true] at heq
  rw [mk.injEq]
  exact ⟨heq.1, heq.2, Activation.tag_injective hact⟩

theorem exists_extents {d : G2bmm} {inputs outputs : List TensorType}
    (h : Registered d inputs outputs) : ∃ batch rows inner t u rest,
      inputs = ⟨[batch, rows, inner], t⟩ :: rest ∧ outputs = [⟨[batch, rows, d.band], u⟩] := by
  obtain ⟨⟨x, t⟩, y, rest, rfl⟩ := Arity.exists_cons₂_of_accepts h.accepts (Nat.le_refl 2)
  obtain ⟨⟨out, u⟩, rfl, houtShape⟩ := exists_single (r := d.outShape x y.shape) h.outShapes_eq
  rw [outShape_exact] at houtShape
  obtain ⟨_, _, houtShape⟩ := bind_eq_ok_iff.mp houtShape
  obtain ⟨⟨batch, rows, inner⟩, hx, houtShape⟩ := bind_eq_ok_iff.mp houtShape
  obtain ⟨_, _, houtShape⟩ := bind_eq_ok_iff.mp houtShape
  obtain ⟨_, _, houtShape⟩ := bind_eq_ok_iff.mp houtShape
  obtain rfl := Except.ok.inj houtShape
  obtain rfl := (Banded.meets_operand "A" x).of_ok hx
  exact ⟨batch, rows, inner, t, u, y :: rest, rfl, rfl⟩

end G2bmm

instance : Keyed Operator.g2bmm where
  sameTime {d d' _ _ _ _} h h' keys := by
    obtain ⟨batch, rows, inner, t, u, rest, rfl, rfl⟩ := G2bmm.exists_extents h
    obtain ⟨batch', rows', inner', t', u', rest', rfl, rfl⟩ := G2bmm.exists_extents h'
    obtain rfl : d = d' := G2bmm.settings_injective keys.fits.numbers keys.fits'.numbers
      (keys.settings_eq rfl rfl)
    have hextents : [batch, rows, inner] = [batch', rows', inner'] :=
      keys.input_eq_of_append (keys.tail_eq rfl rfl) rfl
    simp only [List.cons.injEq, and_true] at hextents
    obtain ⟨rfl, rfl, rfl⟩ := hextents
    exact sameTime_of_eq fun _ => rfl

namespace Det

/-- A square matrix, or a stack of them of which there are as many as figures in the output. -/
theorem outShape_eq_ok {s out : Shape} (h : outShape s = .ok out) :
    ∃ stack n, s = stack ++ [n, n] ∧ out.size = Shape.size stack := by
  unfold outShape at h
  split at h
  next columns rows rest hs =>
    obtain ⟨_, hsquare, hout⟩ := bind_eq_ok_iff.mp h
    obtain rfl : columns = rows := of_require hsquare
    obtain rfl := Except.ok.inj hout
    refine ⟨rest.reverse, columns, ?_, ?_⟩
    · rw [← List.reverse_reverse s, hs, List.reverse_cons, List.reverse_cons, List.append_assoc]
      rfl
    · cases rest with
      | nil => rfl
      | cons extent rest => rfl
  next => cases h

theorem computeTime_eq {α : Type} [Scalar α] [Scalar.Exact α] {d : Det} {stack : Shape} {n : Nat}
    {t : DType} {rest outputs : List TensorType} {cx : CostContext} {m : Metrics α}
    (h : metrics d ⟨⟨stack ++ [n, n], t⟩ :: rest, outputs⟩ cx = some m) :
    m.computeTime = Scalar.ofNat n * Scalar.ofNat n * Scalar.ofNat n *
      (match d.mode with | .normal => 1.0 | .logarithm => 2.0) *
        Scalar.ofNat stack.size / 1e9 := by
  obtain ⟨_, hx, h⟩ := Option.bind_eq_some_iff.mp h
  obtain rfl := Option.some.inj hx
  obtain ⟨k, hk, h⟩ := Option.bind_eq_some_iff.mp h
  obtain rfl := Option.some.inj h
  have hlast : n = k := by simpa using hk
  have hstack : Det.stack (stack ++ [n, n]) = stack := by simp [Det.stack]
  have hvolume : (Scalar.volume (Det.stack (stack ++ [n, n])) : α) =
      Scalar.ofNat (Shape.size stack) := by
    rw [hstack, Scalar.volume_eq]
  subst hlast
  exact congrArg (fun v => Scalar.ofNat n * Scalar.ofNat n * Scalar.ofNat n * _ * v / 1e9) hvolume

end Det

instance : Keyed Operator.det where
  sameTime {d d' _ _ _ _} h h' keys := by
    obtain ⟨⟨s, t⟩, rest, rfl⟩ := Arity.exists_cons_of_accepts h.accepts (Nat.le_refl 1)
    obtain ⟨⟨s', t'⟩, rest', rfl⟩ := Arity.exists_cons_of_accepts h'.accepts (Nat.le_refl 1)
    obtain ⟨out, rfl, hout⟩ := exists_single (r := Det.outShape s) h.outShapes_eq
    obtain ⟨out', rfl, hout'⟩ := exists_single (r := Det.outShape s') h'.outShapes_eq
    obtain ⟨stack, n, rfl, hsize⟩ := Det.outShape_eq_ok hout
    obtain ⟨stack', n', rfl, hsize'⟩ := Det.outShape_eq_ok hout'
    have hkey : out.shape = out'.shape := keys.output_eq (keys.tail_eq rfl rfl)
    -- The output tells how many matrices there are, but not how large they are.
    have hstack : stack.size = stack'.size := by rw [← hsize, ← hsize', hkey]
    obtain ⟨hmode, hlast⟩ : d.mode = d'.mode ∧
        some (stack ++ [n, n]).getLast? = some (stack' ++ [n', n']).getLast? := keys.agrees
    obtain rfl : n = n' := by simpa using hlast
    constructor
    intro α _ _ cx m m' hm hm'
    rw [Det.computeTime_eq hm, Det.computeTime_eq hm', hmode, hstack]

/-- The time of an attention step is that of its problem. -/
theorem AttentionKvCache.map_metrics {α : Type} [Scalar α] (d : AttentionKvCache) (io : Io)
    (cx : CostContext) : (metrics (α := α) d io cx).map Metrics.computeTime =
      (problem? io).map fun p => operations p / 1e9 := by
  change ((problem? io).bind _).map _ = _
  cases problem? io with
  | none => rfl
  | some p => rfl

/-- The output of an attention step has the shape of its query. -/
theorem AttentionKvCache.exists_query {d : AttentionKvCache} {inputs outputs : List TensorType}
    (h : Registered d inputs outputs) : ∃ keys values query rest t,
      inputs = keys :: values :: query :: rest ∧ outputs = [⟨query.shape, t⟩] := by
  obtain ⟨keys, values, query, rest, rfl⟩ :=
    Arity.exists_cons₃_of_accepts h.accepts (show 3 ≤ 6 by decide)
  have hshapes : (do
      require (keys.rank = 4) (.cacheRank keys.shape)
      require (keys.shape = values.shape) (.cachesDiffer keys.shape values.shape)
      require (1 ≤ query.rank) (.rankZero "q")
      return [query.shape]) = Except.ok (outputs.map TensorType.shape) := h.outShapes_eq
  obtain ⟨_, _, hshapes⟩ := bind_eq_ok_iff.mp hshapes
  obtain ⟨_, _, hshapes⟩ := bind_eq_ok_iff.mp hshapes
  obtain ⟨_, _, hshapes⟩ := bind_eq_ok_iff.mp hshapes
  obtain ⟨⟨_, t⟩, rfl, rfl⟩ := exists_output hshapes
  exact ⟨keys, values, query, rest, t, rfl, rfl⟩

instance : Keyed Operator.attentionKvCache where
  sameTime h h' keys := by
    obtain ⟨x, values, ⟨s, _⟩, rest, t, rfl, rfl⟩ := AttentionKvCache.exists_query h
    obtain ⟨x', values', ⟨s', _⟩, rest', t', rfl, rfl⟩ := AttentionKvCache.exists_query h'
    obtain rfl : s = s' :=
      keys.output_eq (List.cons.inj (List.cons.inj (keys.tail_eq rfl rfl)).2).2
    have hcached : x.shape[AttentionKvCache.sequenceAxis]? =
        x'.shape[AttentionKvCache.sequenceAxis]? := Option.some.inj keys.agrees
    refine sameTime_of_eq fun _ => ?_
    rw [AttentionKvCache.map_metrics, AttentionKvCache.map_metrics]
    exact congrArg (fun cached : Option Nat => (cached.bind _).map _) hcached

/-- The output has the shape of the embedded input. -/
theorem Rope.exists_embedded {d : Rope} {inputs outputs : List TensorType}
    (h : Registered d inputs outputs) : ∃ positions x rest t,
      inputs = positions :: x :: rest ∧ outputs = [⟨x.shape, t⟩] := by
  obtain ⟨positions, x, rest, rfl⟩ := Arity.exists_cons₂_of_accepts h.accepts (Nat.le_refl 2)
  have hshapes : (do
      require (1 ≤ x.rank) (.rankZero "embedded input")
      return [x.shape]) = Except.ok (outputs.map TensorType.shape) := h.outShapes_eq
  obtain ⟨_, _, hshapes⟩ := bind_eq_ok_iff.mp hshapes
  obtain ⟨⟨_, t⟩, rfl, rfl⟩ := exists_output hshapes
  exact ⟨positions, x, rest, t, rfl, rfl⟩

instance : Keyed Operator.rope where
  sameTime h h' keys := by
    obtain ⟨positions, ⟨s, _⟩, rest, t, rfl, rfl⟩ := Rope.exists_embedded h
    obtain ⟨positions', ⟨s', _⟩, rest', t', rfl, rfl⟩ := Rope.exists_embedded h'
    obtain rfl : s = s' := keys.output_eq (keys.tail_eq rfl rfl)
    exact sameTime_of_eq fun _ => rfl

end DataflowCost
