import DataflowCost.Proofs.Broadcast
import DataflowCost.Proofs.Permutations

/-! Products of transposed matrices. A flag on an operand stands for a transposition of its last two axes, and
the product of two matrices is the transposed product of the two in the other order, each transposed. -/
namespace DataflowCost

open Inference

namespace Shape

variable {s : Shape}

/-- A shape whose last two axes change places if a flag says so. -/
def turned (s : Shape) (flag : Bool) : Shape :=
  if flag then s.take (s.length - 2) ++ (s.drop (s.length - 2)).reverse else s

theorem exists_eq_append_pair (h : 2 ≤ s.length) :
    ∃ batch : Shape, ∃ row column, s = batch ++ [row, column] := by
  have hlen : (s.drop (s.length - 2)).length = 2 := by
    rw [List.length_drop]
    omega
  obtain ⟨row, column, hmatrix⟩ := List.length_eq_two.mp hlen
  refine ⟨s.take (s.length - 2), row, column, ?_⟩
  rw [← hmatrix, List.take_append_drop]

theorem turned_append (batch : Shape) (row column : Nat) :
    turned (batch ++ [row, column]) true = batch ++ [column, row] := by
  have hlen : (batch ++ [row, column]).length - 2 = batch.length := by simp
  rw [turned, if_pos rfl, hlen, List.take_left, List.drop_left]
  rfl

end Shape

namespace Transpose

/-- The axes of a rank in order, except that the last two change places. -/
def lastTwo (rank : Nat) : List Nat := List.range (rank - 2) ++ [rank - 1, rank - 2]

theorem lastTwo_perm {rank : Nat} (h : 2 ≤ rank) : (lastTwo rank).Perm (List.range rank) := by
  obtain ⟨k, rfl⟩ := Nat.exists_eq_add_of_le' h
  rw [lastTwo, List.range_succ, List.range_succ, List.append_assoc]
  exact (List.Perm.swap _ _ _).append_left _

/-- To exchange the last two axes is a permutation of all. -/
theorem exists_gives_lastTwo {s : Shape} (h : 2 ≤ s.length) : ∃ σ : Equiv.Perm (Fin s.length),
    Gives (lastTwo s.length) σ ∧ reorder σ s = s.turned true := by
  obtain ⟨σ, hσ⟩ := exists_eq_axisList (lastTwo_perm h)
  refine ⟨σ, hσ ▸ .listed σ, ?_⟩
  rw [← map_extentAt_axisList, ← hσ]
  obtain ⟨batch, row, column, rfl⟩ := Shape.exists_eq_append_pair h
  rw [Shape.turned_append, lastTwo, List.length_append, List.length_cons, List.length_singleton,
    Nat.add_sub_cancel, List.map_append, Shape.map_extentAt_append]
  simp [Shape.extentAt]

end Transpose

namespace MatMul

/-- The rows and columns of an operand, which change places if its flag is set. -/
def oriented (flag : Bool) (matrix : Nat × Nat) : Nat × Nat := if flag then matrix.swap else matrix

theorem oriented_not (flag : Bool) (matrix : Nat × Nat) :
    oriented (!flag) matrix = (oriented flag matrix).swap := by
  cases flag <;> rfl

theorem matrix?_append (batch : Shape) (row column : Nat) :
    matrix? (batch ++ [row, column]) = some (batch, row, column) := by
  unfold matrix?
  rw [List.reverse_append]
  simp

theorem turned_append (flag : Bool) (batch : Shape) (row column : Nat) :
    Shape.turned (batch ++ [row, column]) flag =
      batch ++ [(oriented flag (row, column)).1, (oriented flag (row, column)).2] := by
  cases flag with
  | false => rfl
  | true => exact Shape.turned_append batch row column

theorem problem_append (d : MatMul) (batchA batchB : Shape) (rowA columnA rowB columnB : Nat) :
    d.problem (batchA ++ [rowA, columnA]) (batchB ++ [rowB, columnB]) = (do
      let batch ← batchA.broadcast batchB
      let (m, kA) := oriented d.transA (rowA, columnA)
      let (kB, n) := oriented d.transB (rowB, columnB)
      require (kA = kB)
        (.contractionDiffers kA (batchA ++ [rowA, columnA]) kB (batchB ++ [rowB, columnB]))
      return ⟨batch, m, n, kA⟩) := by
  unfold problem oriented
  rw [matrix?_append, matrix?_append]
  cases d.transA <;> cases d.transB <;> rfl

theorem problem_eq_ok_iff {d : MatMul} {batchA batchB : Shape} {rowA columnA rowB columnB : Nat}
    {p : Problem} : d.problem (batchA ++ [rowA, columnA]) (batchB ++ [rowB, columnB]) = .ok p ↔
      batchA.broadcast batchB = .ok p.batch ∧ oriented d.transA (rowA, columnA) = (p.m, p.k) ∧
        oriented d.transB (rowB, columnB) = (p.k, p.n) := by
  rw [problem_append, bind_eq_ok_iff]
  simp only [require_bind_eq_ok_iff]
  constructor
  · rintro ⟨batch, hbatch, hk, h⟩
    obtain rfl := Except.ok.inj h
    exact ⟨hbatch, rfl, Prod.ext hk.symm rfl⟩
  · rintro ⟨hbatch, hA, hB⟩
    refine ⟨p.batch, hbatch, ?_, ?_⟩
    · rw [hA, hB]
    · rw [hA, hB]
      rfl

/-- The extents of the products of a problem. -/
def Problem.outShape (p : Problem) : Shape := p.batch ++ [p.m, p.n]

/-- The problem of the exchanged operands. -/
def Problem.exchanged (p : Problem) : Problem := { p with m := p.n, n := p.m }

theorem outShape_eq_ok_iff {d : MatMul} {a b : Shape} {bias : Option Shape} {out : Shape} :
    d.outShape a b bias = .ok out ↔ ∃ p, d.problem a b = .ok p ∧
      (∀ s ∈ bias, p.outShape.broadcastsInto s = true) ∧ out = p.outShape := by
  rw [outShape, bind_eq_ok_iff]
  refine exists_congr fun p => and_congr_right fun _ => ?_
  cases bias with
  | none =>
    constructor
    · intro h
      exact ⟨fun _ hs => (Option.not_mem_none _ hs).elim, (Except.ok.inj h).symm⟩
    · rintro ⟨_, rfl⟩
      rfl
  | some s =>
    change (do require (p.outShape.broadcastsInto s) _; return p.outShape) = .ok out ↔ _
    rw [require_bind_eq_ok_iff]
    constructor
    · rintro ⟨hinto, h⟩
      exact ⟨fun _ hs => Option.some.inj hs ▸ hinto, (Except.ok.inj h).symm⟩
    · rintro ⟨hinto, rfl⟩
      exact ⟨hinto s rfl, rfl⟩

/-- A flag does to an operand what exchanging its last two axes does. -/
theorem problem_turned (d : MatMul) {a b : Shape} (ha : 2 ≤ a.length) (hb : 2 ≤ b.length)
    {p : Problem} : d.problem a b = .ok p ↔
      { d with transA := false, transB := false }.problem (a.turned d.transA) (b.turned d.transB) =
        .ok p := by
  obtain ⟨batchA, rowA, columnA, rfl⟩ := Shape.exists_eq_append_pair ha
  obtain ⟨batchB, rowB, columnB, rfl⟩ := Shape.exists_eq_append_pair hb
  rw [turned_append, turned_append, problem_eq_ok_iff, problem_eq_ok_iff]
  rfl

theorem outShape_exchanged (p : Problem) : p.exchanged.outShape = p.outShape.turned true :=
  (Shape.turned_append p.batch p.m p.n).symm

/-- Operands change places if the one that was to be transposed is not, and the other way round. -/
theorem problem_exchanged (d : MatMul) {a b : Shape} (ha : 2 ≤ a.length) (hb : 2 ≤ b.length)
    {p : Problem} : d.problem a b = .ok p ↔
      { d with transA := !d.transB, transB := !d.transA }.problem b a = .ok p.exchanged := by
  obtain ⟨batchA, rowA, columnA, rfl⟩ := Shape.exists_eq_append_pair ha
  obtain ⟨batchB, rowB, columnB, rfl⟩ := Shape.exists_eq_append_pair hb
  have hbatch : batchA.broadcast batchB = .ok p.batch ↔ batchB.broadcast batchA = .ok p.batch := by
    rw [Shape.broadcast_eq_ok_iff_isJoin, Shape.broadcast_eq_ok_iff_isJoin]
    exact Shape.isJoin_perm (.swap batchB batchA [])
  have hA : oriented d.transA (rowA, columnA) = (p.m, p.k) ↔
      oriented (!d.transA) (rowA, columnA) = (p.k, p.m) := by
    rw [oriented_not]
    exact Prod.swap_inj.symm
  have hB : oriented d.transB (rowB, columnB) = (p.k, p.n) ↔
      oriented (!d.transB) (rowB, columnB) = (p.n, p.k) := by
    rw [oriented_not]
    exact Prod.swap_inj.symm
  -- The contracted extent stays in the middle, and the outer ones change places.
  rw [problem_eq_ok_iff, problem_eq_ok_iff, hbatch, hA, hB, and_comm (a := oriented _ _ = _)]
  rfl

end MatMul

/-- The type of a tensor whose last two axes change places if a flag says so. -/
def TensorType.turned (x : TensorType) (flag : Bool) : TensorType :=
  ⟨x.shape.turned flag, x.dtype⟩

namespace Graph

variable {g : Graph} {ids : List TensorId} {a b x : TensorType}

theorem infer_matMul_eq_ok_iff [Build] {d : MatMul} {inferred : Inferred} (bias : Option TensorType)
    (htypes : g.typesOf? ids = some (a :: b :: bias.toList)) :
    g.infer (.matMul d) ids = .ok inferred ↔ a.dtype = b.dtype ∧
      ∃ p, d.problem a.shape b.shape = .ok p ∧
        (∀ s ∈ bias.map TensorType.shape, p.outShape.broadcastsInto s = true) ∧
        inferred = ⟨.matMul d, [⟨p.outShape, a.dtype⟩]⟩ := by
  have hwrap : Operator.Wraps Operator.matMul := ⟨fun _ _ => rfl, fun _ _ hole => hole⟩
  have hshapes : Family.outShapes d (a :: b :: bias.toList) = do
      return [← d.outShape a.shape b.shape (bias.map TensorType.shape)] := by
    cases bias <;> rfl
  obtain ⟨op, outputs⟩ := inferred
  rw [infer_eq_ok_iff_infers hwrap fun _ _ => ⟨_, rfl⟩]
  constructor
  · rintro ⟨types, d', htypes', hinfers, rfl⟩
    obtain rfl := Option.some.inj (htypes.symm.trans htypes')
    obtain rfl : d = d' := Except.ok.inj (Preparation.done.inj hinfers.prepare_eq)
    obtain ⟨out, rfl, hout⟩ := Family.exists_single (hshapes ▸ hinfers.outShapes_eq)
    obtain ⟨p, hp, hbias, hshape⟩ := MatMul.outShape_eq_ok_iff.mp hout
    obtain ⟨hdtype, h⟩ := require_bind_eq_ok_iff.mp hinfers.outTypes_eq
    have houtType : a.dtype = out.dtype := List.singleton_inj.mp (Except.ok.inj h)
    refine ⟨hdtype, p, hp, hbias, ?_⟩
    rw [← hshape, houtType]
  · rintro ⟨hdtype, p, hp, hbias, h⟩
    obtain ⟨rfl, rfl⟩ := Inferred.mk.inj h
    refine ⟨_, d, htypes, ⟨?_, rfl, ?_, ?_⟩, rfl⟩
    · cases bias <;> rfl
    · rw [hshapes, MatMul.outShape_eq_ok_iff.mpr ⟨p, hp, hbias, rfl⟩]
      rfl
    · exact require_bind_eq_ok_iff.mpr ⟨hdtype, rfl⟩

/-- To list the axes with the last two exchanged is to turn the input. -/
theorem exists_infer_lastTwo [Build] (hx : 2 ≤ x.rank) (htypes : g.typesOf? ids = some [x]) :
    ∃ op, g.infer (.transpose { permutation := Transpose.lastTwo x.rank }) ids =
      .ok ⟨op, [x.turned true]⟩ := by
  obtain ⟨σ, hgives, hσ⟩ := Transpose.exists_gives_lastTwo hx
  have hturned : x.reordered σ = x.turned true := congrArg (TensorType.mk · x.dtype) hσ
  rw [← hturned]
  exact exists_infer_transpose rfl htypes hgives

/-- A flag of a product means what a transposition of the last two axes of the operand means, and the
product of exchanged operands is the transposed product. Either way the same operands are accepted. -/
theorem matMul_flags [Build] (ha : 2 ≤ a.rank) (hb : 2 ≤ b.rank) {d : MatMul} :
    (∀ {x : TensorType}, 2 ≤ x.rank → ∀ {g : Graph} {ids : List TensorId},
      g.typesOf? ids = some [x] →
      ∃ op, g.infer (.transpose { permutation := Transpose.lastTwo x.rank }) ids =
        .ok ⟨op, [x.turned true]⟩) ∧
    (∀ (bias : Option TensorType) {g g' : Graph} {ids ids' : List TensorId},
      g.typesOf? ids = some (a :: b :: bias.toList) →
      g'.typesOf? ids' = some (a.turned d.transA :: b.turned d.transB :: bias.toList) →
      let plain : MatMul := { d with transA := false, transB := false }
      (∀ outputs, (∃ op, g.infer (.matMul d) ids = .ok ⟨op, outputs⟩) ↔
        ∃ op, g'.infer (.matMul plain) ids' = .ok ⟨op, outputs⟩) ∧
      ∀ p, d.problem a.shape b.shape = .ok p ↔
        plain.problem (a.turned d.transA).shape (b.turned d.transB).shape = .ok p) ∧
    ∀ {g g' : Graph} {ids ids' : List TensorId},
      g.typesOf? ids = some [a, b] → g'.typesOf? ids' = some [b, a] →
      let exchanged : MatMul := { d with transA := !d.transB, transB := !d.transA }
      ((∃ inferred, g.infer (.matMul d) ids = .ok inferred) ↔
        ∃ inferred, g'.infer (.matMul exchanged) ids' = .ok inferred) ∧
      ∀ {inferred}, g.infer (.matMul d) ids = .ok inferred → ∃ y, inferred.outputs = [y] ∧
        ∃ op, g'.infer (.matMul exchanged) ids' = .ok ⟨op, [y.turned true]⟩ := by
  refine ⟨fun hx => exists_infer_lastTwo hx, ?_, ?_⟩
  · intro bias g g' ids ids' htypes htypes' plain
    have hproblem (p : MatMul.Problem) := d.problem_turned ha hb (p := p)
    refine ⟨fun outputs => ?_, hproblem⟩
    constructor
    · rintro ⟨op, h⟩
      obtain ⟨hdtype, p, hp, hbias, heq⟩ := (infer_matMul_eq_ok_iff bias htypes).mp h
      obtain ⟨rfl, rfl⟩ := Inferred.mk.inj heq
      exact ⟨.matMul plain, (infer_matMul_eq_ok_iff bias htypes').mpr
        ⟨hdtype, p, (hproblem p).mp hp, hbias, rfl⟩⟩
    · rintro ⟨op, h⟩
      obtain ⟨hdtype, p, hp, hbias, heq⟩ := (infer_matMul_eq_ok_iff bias htypes').mp h
      obtain ⟨rfl, rfl⟩ := Inferred.mk.inj heq
      exact ⟨.matMul d, (infer_matMul_eq_ok_iff bias htypes).mpr
        ⟨hdtype, p, (hproblem p).mpr hp, hbias, rfl⟩⟩
  · intro g g' ids ids' htypes htypes' exchanged
    have hproblem (p : MatMul.Problem) := d.problem_exchanged ha hb (p := p)
    have hforward {inferred : Inferred} (h : g.infer (.matMul d) ids = .ok inferred) :
        ∃ y, inferred.outputs = [y] ∧
          ∃ op, g'.infer (.matMul exchanged) ids' = .ok ⟨op, [y.turned true]⟩ := by
      obtain ⟨hdtype, p, hp, _, rfl⟩ := (infer_matMul_eq_ok_iff none htypes).mp h
      refine ⟨⟨p.outShape, a.dtype⟩, rfl, .matMul exchanged, ?_⟩
      refine (infer_matMul_eq_ok_iff none htypes').mpr
        ⟨hdtype.symm, p.exchanged, (hproblem p).mp hp, nofun, ?_⟩
      rw [MatMul.outShape_exchanged, ← hdtype]
      rfl
    refine ⟨⟨?_, ?_⟩, hforward⟩
    · rintro ⟨_, h⟩
      obtain ⟨_, _, _, h'⟩ := hforward h
      exact ⟨_, h'⟩
    · -- To exchange the operands twice changes nothing.
      rintro ⟨_, h⟩
      obtain ⟨hdtype, p, hp, _, _⟩ := (infer_matMul_eq_ok_iff none htypes').mp h
      exact ⟨_, (infer_matMul_eq_ok_iff none htypes).mpr
        ⟨hdtype.symm, p.exchanged, (hproblem p.exchanged).mpr hp, nofun, rfl⟩⟩

section

open scoped WrappingArithmetic

/-- A stack of two matrices, a matrix, a bias, and the matrices again, transposed. -/
def batched : Graph := (ofCalls [.tensor ⟨[2, 4, 3], .float32⟩, .tensor ⟨[5, 4], .float32⟩,
  .tensor ⟨[5], .float32⟩, .tensor ⟨[2, 3, 4], .float32⟩, .tensor ⟨[4, 5], .float32⟩]).1

/-- Both operands are transposed by their flags, with a bias. Without one, their product is the transpose of
the product the other way round. -/
theorem matMul_flags_batched :
    let d : MatMul := { transA := true, transB := true }
    let y : TensorType := ⟨[2, 3, 5], .float32⟩
    batched.typesOf? [⟨0⟩, ⟨1⟩] = some [⟨[2, 4, 3], .float32⟩, ⟨[5, 4], .float32⟩] ∧
      batched.infer (.matMul d) [⟨0⟩, ⟨1⟩] = .ok ⟨.matMul d, [y]⟩ ∧
      (∃ op, batched.infer (.transpose { permutation := [0, 2, 1] }) [⟨0⟩] =
        .ok ⟨op, [⟨[2, 3, 4], .float32⟩]⟩) ∧
      (∃ op, batched.infer (.matMul {}) [⟨3⟩, ⟨4⟩, ⟨2⟩] = .ok ⟨op, [y]⟩) ∧
      ∃ op, batched.infer (.matMul {}) [⟨1⟩, ⟨0⟩] = .ok ⟨op, [⟨[2, 5, 3], .float32⟩]⟩ := by
  intro d y
  have htypes : batched.typesOf? [⟨0⟩, ⟨1⟩] = some [⟨[2, 4, 3], .float32⟩, ⟨[5, 4], .float32⟩] := by
    rfl
  have hswapped : batched.typesOf? [⟨1⟩, ⟨0⟩] = some [⟨[5, 4], .float32⟩, ⟨[2, 4, 3], .float32⟩] := by
    rfl
  have hgiven : batched.typesOf? [⟨0⟩, ⟨1⟩, ⟨2⟩] =
      some [⟨[2, 4, 3], .float32⟩, ⟨[5, 4], .float32⟩, ⟨[5], .float32⟩] := by
    rfl
  have hturned : batched.typesOf? [⟨3⟩, ⟨4⟩, ⟨2⟩] =
      some [⟨[2, 3, 4], .float32⟩, ⟨[4, 5], .float32⟩, ⟨[5], .float32⟩] := by
    rfl
  have hinfer : batched.infer (.matMul d) [⟨0⟩, ⟨1⟩] = .ok ⟨.matMul d, [y]⟩ := by
    cbv
  have hbiased : batched.infer (.matMul d) [⟨0⟩, ⟨1⟩, ⟨2⟩] = .ok ⟨.matMul d, [y]⟩ := by
    cbv
  obtain ⟨hturn, hplain, hexchange⟩ := matMul_flags (a := ⟨[2, 4, 3], .float32⟩)
    (b := ⟨[5, 4], .float32⟩) (by decide) (by decide) (d := d)
  refine ⟨htypes, hinfer, ?_, ?_, ?_⟩
  · exact hturn (x := ⟨[2, 4, 3], .float32⟩) (by decide) rfl
  · exact ((hplain (some ⟨[5], .float32⟩) hgiven hturned).1 [y]).mp ⟨_, hbiased⟩
  · obtain ⟨z, hz, h⟩ := (hexchange htypes hswapped).2 hinfer
    obtain rfl := List.singleton_inj.mp hz
    exact h

end

end Graph

end DataflowCost
