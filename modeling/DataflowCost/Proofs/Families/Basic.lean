import DataflowCost.Operator.Family
import DataflowCost.Proofs.Words
import DataflowCost.Tensor.Axis
import DataflowCost.Tensor.Broadcast

/-! The laws of operator families. What a definition resolves and infers on inputs that its arity
accepts is enough for every query that is made of the operator later. -/
namespace DataflowCost

open Inference

namespace Arity

variable {α : Type} {a : Arity} {xs : List α}

theorem least_le_of_accepts {n : Nat} (h : a.accepts n) : a.least ≤ n := by
  simp only [accepts, Bool.and_eq_true, decide_eq_true_eq] at h
  exact h.1

theorem length_eq_of_accepts {n outputs : Nat} (h : (exact n outputs).accepts xs.length) :
    xs.length = n := by
  have hge : n ≤ xs.length := least_le_of_accepts h
  have hle : xs.length ≤ n := by
    simp only [accepts, exact, Option.all_some, Bool.and_eq_true, decide_eq_true_eq] at h
    exact h.2
  exact Nat.le_antisymm hle hge

theorem eq_singleton_of_accepts {outputs : Nat} (h : (exact 1 outputs).accepts xs.length) :
    ∃ x, xs = [x] :=
  List.length_eq_one_iff.mp (length_eq_of_accepts h)

theorem eq_pair_of_accepts {outputs : Nat} (h : (exact 2 outputs).accepts xs.length) :
    ∃ x y, xs = [x, y] :=
  List.length_eq_two.mp (length_eq_of_accepts h)

theorem exists_cons_of_accepts (h : a.accepts xs.length) (hleast : 1 ≤ a.least) :
    ∃ x rest, xs = x :: rest := by
  have hlen := Nat.le_trans hleast (least_le_of_accepts h)
  match xs, hlen with
  | x :: rest, _ => exact ⟨x, rest, rfl⟩

theorem exists_cons₂_of_accepts (h : a.accepts xs.length) (hleast : 2 ≤ a.least) :
    ∃ x y rest, xs = x :: y :: rest := by
  have hlen := Nat.le_trans hleast (least_le_of_accepts h)
  match xs, hlen with
  | x :: y :: rest, _ => exact ⟨x, y, rest, rfl⟩

theorem exists_cons₃_of_accepts (h : a.accepts xs.length) (hleast : 3 ≤ a.least) :
    ∃ x y z rest, xs = x :: y :: z :: rest := by
  have hlen := Nat.le_trans hleast (least_le_of_accepts h)
  match xs, hlen with
  | x :: y :: z :: rest, _ => exact ⟨x, y, z, rest, rfl⟩

end Arity

namespace Axis

variable {hole : Prop}

theorem meets_resolve (axis : Int) (rank : Nat) :
    Meets (resolve axis rank) hole fun position => position < rank := by
  unfold resolve
  by_cases h : 0 ≤ wrap axis rank ∧ wrap axis rank < rank
  · rw [if_pos h]
    refine meets_ok ?_
    omega
  · rw [if_neg h]
    exact meets_invalid _

theorem lt_of_resolve {axis : Int} {rank position : Nat} (h : resolve axis rank = .ok position) :
    position < rank :=
  (meets_resolve axis rank).of_ok h

theorem meets_resolveEach (rank : Nat) (axes : List Int) :
    Meets (resolveEach rank axes) hole fun named =>
      named.length = axes.length ∧ ∀ position ∈ named, position < rank := by
  -- What has been seen only ever turns an axis down.
  have hgo (rest : List Int) (seen : List Nat) :
      Meets (resolveEach.go rank axes rest seen) hole fun named =>
        named.length = rest.length ∧ ∀ position ∈ named, position < rank := by
    induction rest generalizing seen with
    | nil => exact meets_ok ⟨rfl, nofun⟩
    | cons axis rest ih =>
      refine (meets_resolve axis rank).bind ?_
      intro position hposition
      by_cases hseen : position ∈ seen
      · rw [if_pos hseen]
        exact meets_invalid _
      · rw [if_neg hseen]
        refine (ih (position :: seen)).bind ?_
        rintro named ⟨hlen, hlt⟩
        exact meets_ok ⟨congrArg Nat.succ hlen, List.forall_mem_cons.mpr ⟨hposition, hlt⟩⟩
  exact hgo axes []

theorem meets_resolveSet (rank : Nat) (axes : List Int) :
    Meets (resolveSet rank axes) hole fun named => ∀ position ∈ named, position < rank := by
  refine (meets_resolveEach rank axes).bind ?_
  rintro named ⟨_, hlt⟩
  refine meets_ok ?_
  intro position hposition
  exact hlt position (List.mem_mergeSort.mp hposition)

end Axis

namespace Shape

variable {hole : Prop}

theorem before?_of_le {s : Shape} {i : Nat} (h : i ≤ s.length) : s.before? i = some (s.take i) :=
  if_pos h

theorem from?_of_le {s : Shape} {i : Nat} (h : i ≤ s.length) : s.from? i = some (s.drop i) :=
  if_pos h

theorem meets_before {s : Shape} {i : Nat} (h : i ≤ s.length) :
    Meets (present (s.before? i)) hole fun t => t = s.take i := by
  rw [before?_of_le h]
  exact meets_ok rfl

theorem meets_from {s : Shape} {i : Nat} (h : i ≤ s.length) :
    Meets (present (s.from? i)) hole fun t => t = s.drop i := by
  rw [from?_of_le h]
  exact meets_ok rfl

theorem meets_broadcast (a b : Shape) : Meets (a.broadcast b) hole fun _ => True := by
  simp only [broadcast]
  cases joinAligned (alignTo (max a.length b.length) a) (alignTo (max a.length b.length) b) with
  | ok s => exact meets_ok trivial
  | error e => exact meets_invalid _

theorem meets_broadcastAll (shapes : List Shape) :
    Meets (broadcastAll shapes) hole fun _ => True := by
  refine meets_foldlM (I := fun _ => True) trivial ?_
  intro s _ shape _
  exact meets_broadcast s shape

end Shape

/-- A formula has a value if each of its reads has one. -/
theorem exists_bind {β γ : Type} {o : Option β} {f : β → Option γ} {b : β} (ho : o = some b)
    (h : ∃ c, f b = some c) : ∃ c, o >>= f = some c := by
  rw [ho]
  exact h

theorem exists_entry {β : Type} {xs : List β} {i : Nat} (h : i < xs.length) :
    ∃ x, xs[i]? = some x :=
  ⟨xs[i], List.getElem?_eq_getElem h⟩

/-- The two outermost extents of a shape that has them. -/
theorem exists_outer {s : Shape} (h : 2 ≤ s.length) :
    ∃ batch channels, s[0]? = some batch ∧ s[1]? = some channels := by
  match s, h with
  | batch :: channels :: _, _ => exact ⟨batch, channels, rfl, rfl⟩

namespace Family

variable {δ : Type} [Family δ]

/-- Every estimate has a value, and so has the workload. -/
structure Estimable (d : δ) (io : Io) : Prop where
  metrics : ∀ {α : Type} [Scalar α] (cx : CostContext),
    ∃ m : Metrics α, Family.metrics d io cx = some m
  workload : ∃ key, Family.workload d io = some key

/-- Shapes of as many outputs as the arity says, of which the operator can be estimated whatever
their element types. -/
structure Describes (d : δ) (inputs : List TensorType) (shapes : List Shape) : Prop where
  length : shapes.length = (arity d).outputs
  estimable : ∀ outputs : List TensorType, outputs.map TensorType.shape = shapes →
    Estimable d ⟨inputs, outputs⟩

variable {d : δ} {inputs : List TensorType} {hole : Prop}

theorem describes_cons {s : Shape} {shapes : List Shape}
    (hlen : (s :: shapes).length = (arity d).outputs)
    (h : ∀ out outputs, out.shape = s → Estimable d ⟨inputs, out :: outputs⟩) :
    Describes d inputs (s :: shapes) where
  length := hlen
  estimable outputs houtputs := by
    obtain ⟨out, rest, rfl, hout, _⟩ := List.map_eq_cons_iff.mp houtputs
    exact h out rest hout

/-- The contract of families with one output. -/
theorem meets_single {r : Inference Shape} {P : Shape → Prop} (hone : (arity d).outputs = 1)
    (hr : Meets r hole P)
    (h : ∀ out outputs, P out.shape → Estimable d ⟨inputs, out :: outputs⟩) :
    Meets (do return [← r]) hole (Describes d inputs) := by
  refine hr.bind ?_
  intro s hs
  refine meets_ok (describes_cons hone.symm ?_)
  rintro out outputs rfl
  exact h out outputs hs

theorem meets_sameShape (h : (arity d).accepts inputs.length) (hleast : 1 ≤ (arity d).least)
    (hone : (arity d).outputs = 1)
    (hest : ∀ x rest out outputs, out.shape = x.shape → Estimable d ⟨x :: rest, out :: outputs⟩) :
    Meets (sameShape inputs) hole (Describes d inputs) := by
  obtain ⟨x, rest, rfl⟩ := Arity.exists_cons_of_accepts h hleast
  exact meets_ok (describes_cons hone.symm (hest x rest))

end Family

/-- A family whose preparation and inference guard all that its formulas read. Besides the holes that are
named there is a fault only where a bound on integers is. The laws that are left out hold of a family
that leaves out what they are about. -/
class LawfulFamily [Build] (δ : Type) [Family δ] where
  /-- What holds of attributes once they are resolved against inputs. -/
  Resolved : δ → List TensorType → Prop := fun _ _ => True
  /-- The inputs on which inference divides by zero. -/
  Hole : List TensorType → Prop := fun _ => False
  prepare_meets : ∀ (d : δ) (inputs : List TensorType),
    (Family.arity d).accepts inputs.length →
    (Family.prepare d inputs).Meets inputs Build.Bounded fun d' =>
      Family.arity d' = Family.arity d ∧ Resolved d' inputs := by
    exact fun _ _ _ => Inference.meets_ok ⟨rfl, trivial⟩
  outShapes_meets : ∀ (d : δ) (inputs : List TensorType),
    (Family.arity d).accepts inputs.length → Resolved d inputs →
    Meets (Family.outShapes d inputs) (Hole inputs ∨ Build.Bounded) (Family.Describes d inputs)
  outTypes_meets : ∀ (d : δ) (inputs : List TensorType),
    (Family.arity d).accepts inputs.length →
    Meets (Family.outTypes d inputs) False fun types =>
      types.length = (Family.arity d).outputs := by
    exact fun _ _ _ => Inference.meets_ok List.length_replicate

end DataflowCost
