import DataflowCost.Graph.Tensor
import DataflowCost.Proofs.Outcome
import Mathlib.Data.List.Forall2

/-! Contracts of inference: what holds of an answer, and which condition a fault betrays. A refusal
for a stated reason meets every contract. -/
namespace DataflowCost

namespace Inference

/-- Every answer satisfies `post`, and there is a fault only under the condition `hole`. -/
structure Meets {α : Type} (r : Inference α) (hole : Prop) (post : α → Prop) : Prop where
  answer : ∀ {a}, r = .ok a → post a
  fault : r = .error .fault → hole

variable {α β σ : Type} {hole : Prop}

theorem meets_ok {post : α → Prop} {a : α} (h : post a) : Meets (.ok a) hole post where
  answer ha := Except.ok.inj ha ▸ h
  fault := nofun

theorem meets_invalid {post : α → Prop} (reason : Reason) : Meets (invalid reason) hole post :=
  ⟨nofun, nofun⟩

theorem meets_unsupported {post : α → Prop} (feature : Feature) :
    Meets (unsupported feature) hole post :=
  ⟨nofun, nofun⟩

theorem meets_fault {post : α → Prop} (h : hole) : Meets (.error .fault) hole post :=
  ⟨nofun, fun _ => h⟩

theorem Meets.mono {hole' : Prop} {post post' : α → Prop} {r : Inference α}
    (h : Meets r hole post) (hhole : hole → hole') (hpost : ∀ a, post a → post' a) :
    Meets r hole' post' where
  answer ha := hpost _ (h.answer ha)
  fault hf := hhole (h.fault hf)

theorem Meets.imp {post post' : α → Prop} {r : Inference α} (h : Meets r hole post)
    (hpost : ∀ a, post a → post' a) : Meets r hole post' :=
  h.mono id hpost

/-- What the answers satisfy, whatever is known of faults. -/
theorem Meets.of_ok {post : α → Prop} {r : Inference α} {a : α} (h : Meets r True post)
    (ha : r = .ok a) : post a :=
  h.answer ha

/-- An answer is known to be the answer. -/
theorem Meets.self {post : α → Prop} {r : Inference α} (h : Meets r hole post) :
    Meets r hole fun a => r = .ok a :=
  ⟨id, h.fault⟩

theorem Meets.bind {P : α → Prop} {post : β → Prop} {x : Inference α} {f : α → Inference β}
    (hx : Meets x hole P) (hf : ∀ a, P a → Meets (f a) hole post) :
    Meets (x >>= f) hole post where
  answer hb := by
    obtain ⟨a, ha, hfa⟩ := bind_eq_ok_iff.mp hb
    exact (hf a (hx.answer ha)).answer hfa
  fault he := by
    -- Either the first part faults, or it answers and the second part does.
    rcases bind_eq_error_iff.mp he with he | ⟨a, ha, he⟩
    · exact hx.fault he
    · exact (hf a (hx.answer ha)).fault he

theorem Meets.map {post : β → Prop} {x : Inference α} {f : α → β}
    (hx : Meets x hole fun a => post (f a)) : Meets (f <$> x) hole post := by
  cases x with
  | ok a => exact meets_ok (hx.answer rfl)
  | error e => exact ⟨nofun, fun he => hx.fault (congrArg Except.error (Except.error.inj he))⟩

theorem meets_require (p : Prop) [Decidable p] (reason : Reason) :
    Meets (require p reason) hole fun _ => p := by
  unfold require
  by_cases h : p
  · rw [if_pos h]
    exact meets_ok h
  · rw [if_neg h]
    exact meets_invalid reason

theorem of_require {p : Prop} [Decidable p] {reason : Reason} {u : Unit}
    (h : require p reason = .ok u) : p :=
  (meets_require p reason).of_ok h

theorem require_bind {p : Prop} [Decidable p] (h : p) (reason : Reason) (f : Unit → Inference β) :
    require p reason >>= f = f () := by
  rw [require, if_pos h]
  rfl

theorem require_bind_eq_ok_iff {p : Prop} [Decidable p] {reason : Reason} {f : Unit → Inference β}
    {b : β} : require p reason >>= f = .ok b ↔ p ∧ f () = .ok b := by
  rw [bind_eq_ok_iff]
  constructor
  · rintro ⟨_, hp, h⟩
    exact ⟨of_require hp, h⟩
  · rintro ⟨hp, h⟩
    exact ⟨(), if_pos hp, h⟩

theorem meets_present {x : Option α} (h : x = none → hole) :
    Meets (present x) hole fun a => x = some a := by
  cases x with
  | none => exact meets_fault (h rfl)
  | some a => exact meets_ok rfl

theorem present_eq_ok {x : Option α} {a : α} (h : present x = .ok a) : x = some a :=
  (meets_present fun _ => trivial).answer h

theorem meets_entry {xs : List α} {i : Nat} (h : i < xs.length) :
    Meets (present xs[i]?) hole fun a => xs[i]? = some a := by
  refine meets_present ?_
  rw [List.getElem?_eq_getElem h]
  exact nofun

theorem meets_overwrite {xs : List α} {i : Nat} {a : α} (h : i < xs.length) :
    Meets (overwrite xs i a) hole fun ys => ys = xs.set i a := by
  unfold overwrite
  rw [if_pos h]
  exact meets_ok rfl

theorem meets_quotient {a b : Nat} (h : b = 0 → hole) :
    Meets (quotient a b) hole fun q => q = a / b := by
  unfold quotient
  by_cases hb : b = 0
  · rw [if_pos hb]
    exact meets_fault (h hb)
  · rw [if_neg hb]
    exact meets_ok rfl

theorem meets_quotientUp {a b : Nat} (h : b = 0 → hole) :
    Meets (quotientUp a b) hole fun _ => True := by
  unfold quotientUp
  by_cases hb : b = 0
  · rw [if_pos hb]
    exact meets_fault (h hb)
  · rw [if_neg hb]
    exact meets_ok trivial

theorem meets_remainder {a b : Nat} (h : b = 0 → hole) :
    Meets (remainder a b) hole fun r => r = a % b := by
  unfold remainder
  by_cases hb : b = 0
  · rw [if_pos hb]
    exact meets_fault (h hb)
  · rw [if_neg hb]
    exact meets_ok rfl

theorem meets_mapM {P : α → β → Prop} {f : α → Inference β} {xs : List α}
    (h : ∀ x ∈ xs, Meets (f x) hole (P x)) :
    Meets (xs.mapM f) hole fun ys => List.Forall₂ P xs ys := by
  induction xs with
  | nil => exact meets_ok .nil
  | cons x xs ih =>
    rw [List.mapM_cons]
    refine (h x List.mem_cons_self).bind ?_
    intro y hy
    refine (ih fun z hz => h z (List.mem_cons_of_mem _ hz)).bind ?_
    intro ys hys
    exact meets_ok (.cons hy hys)

theorem meets_forM {f : α → Inference PUnit} {xs : List α}
    (h : ∀ x ∈ xs, Meets (f x) hole fun _ => True) : Meets (xs.forM f) hole fun _ => True := by
  induction xs with
  | nil => exact meets_ok trivial
  | cons x xs ih =>
    refine (h x List.mem_cons_self).bind ?_
    intro _ _
    exact ih fun z hz => h z (List.mem_cons_of_mem _ hz)

theorem ok_of_forM {f : α → Inference Unit} {xs : List α} {u : Unit}
    (h : xs.forM f = .ok u) : ∀ x ∈ xs, f x = .ok () := by
  induction xs with
  | nil => exact nofun
  | cons x xs ih =>
    obtain ⟨⟨⟩, hx, hxs⟩ := bind_eq_ok_iff.mp h
    exact List.forall_mem_cons.mpr ⟨hx, ih hxs⟩

theorem forM_eq_ok {f : α → Inference Unit} {xs : List α} (h : ∀ x ∈ xs, f x = .ok ()) :
    xs.forM f = .ok () := by
  induction xs with
  | nil => rfl
  | cons x xs ih =>
    obtain ⟨hx, hxs⟩ := List.forall_mem_cons.mp h
    exact bind_eq_ok_iff.mpr ⟨(), hx, ih hxs⟩

/-- What every step keeps holds at the end. -/
theorem meets_foldlM {I : σ → Prop} {f : σ → α → Inference σ} {xs : List α} {s : σ} (hs : I s)
    (h : ∀ s, I s → ∀ x ∈ xs, Meets (f s x) hole I) : Meets (xs.foldlM f s) hole I := by
  induction xs generalizing s with
  | nil => exact meets_ok hs
  | cons x xs ih =>
    rw [List.foldlM_cons]
    refine (h s hs x List.mem_cons_self).bind ?_
    intro s' hs'
    exact ih hs' fun s hs z hz => h s hs z (List.mem_cons_of_mem _ hz)

end Inference

/-- What a host tells of the tensors has one value for each element. -/
def Host.Fits (host : Host) (tensors : List Tensor) : Prop :=
  ∀ t ∈ tensors, ∀ p, host t = .ok (some p) → p.length = t.type.size

/-- Values whose number is not the element count of the tensor. -/
def Misfit {β : Type} (values : Option (List β)) (x : TensorType) : Prop :=
  ∃ vs ∈ values, vs.length ≠ x.size

theorem not_misfit_none {β : Type} {x : TensorType} : ¬ Misfit (none : Option (List β)) x := by
  rintro ⟨vs, hvs, _⟩
  cases hvs

theorem Host.not_fits_of_misfit {β : Type} {host : Host} {tensors : List Tensor} {t : Tensor}
    {p : Payload} {values : List β} (ht : t ∈ tensors) (hp : host t = .ok (some p))
    (hlen : p.length = values.length) (h : Misfit (some values) t.type) : ¬ host.Fits tensors := by
  obtain ⟨vs, hvs, hne⟩ := h
  obtain rfl := Option.some.inj hvs
  intro hfits
  exact hne (hlen.symm.trans (hfits t ht p hp))

theorem Host.meets_ints {host : Host} {tensors : List Tensor} {t : Tensor} (ht : t ∈ tensors) :
    Inference.Meets (host.ints t) False fun values =>
      Misfit values t.type → ¬ host.Fits tensors := by
  unfold Host.ints
  cases hp : host t with
  | error text => exact Inference.meets_invalid _
  | ok payload =>
    cases payload with
    | none => exact Inference.meets_ok fun h => absurd h not_misfit_none
    | some payload =>
      cases payload with
      | reals values => exact Inference.meets_invalid _
      | ints32 values | ints64 values => exact Inference.meets_ok (not_fits_of_misfit ht hp rfl)

theorem Host.meets_reals {host : Host} {tensors : List Tensor} {t : Tensor} (ht : t ∈ tensors) :
    Inference.Meets (host.reals t) False fun values =>
      Misfit values t.type → ¬ host.Fits tensors := by
  unfold Host.reals
  cases hp : host t with
  | error text => exact Inference.meets_invalid _
  | ok payload =>
    cases payload with
    | none => exact Inference.meets_ok fun h => absurd h not_misfit_none
    | some payload =>
      cases payload with
      | ints32 values | ints64 values => exact Inference.meets_invalid _
      | reals values => exact Inference.meets_ok (not_fits_of_misfit ht hp rfl)

namespace Preparation

open Inference

variable {ρ δ ε σ : Type} {inputs : List TensorType}

/-- Whatever is resolved satisfies `post`. The inputs asked for exist, and there is a fault only on a hole
or on values that do not fit the input they are of. -/
def Meets (inputs : List TensorType) (hole : Prop) (post : δ → Prop) : Preparation ρ δ → Prop
  | done outcome => Inference.Meets outcome hole post
  | askInts i next => ∃ x, inputs[i]? = some x ∧
      ∀ guid values, (next guid values).Meets inputs (hole ∨ Misfit values x) post
  | askReals i next => ∃ x, inputs[i]? = some x ∧
      ∀ guid values, (next guid values).Meets inputs (hole ∨ Misfit values x) post

theorem Meets.map {f : δ → ε} {hole : Prop} {post : ε → Prop} {p : Preparation ρ δ}
    (h : p.Meets inputs hole fun d => post (f d)) : (p.map f).Meets inputs hole post := by
  induction p generalizing hole with
  | done outcome => exact Inference.Meets.map h
  | askInts i next ih | askReals i next ih =>
    obtain ⟨x, hx, hnext⟩ := h
    exact ⟨x, hx, fun guid values => ih guid values (hnext guid values)⟩

theorem Meets.imp {hole : Prop} {post post' : δ → Prop} {p : Preparation ρ δ}
    (h : p.Meets inputs hole post) (hpost : ∀ d, post d → post' d) : p.Meets inputs hole post' := by
  induction p generalizing hole with
  | done outcome => exact Inference.Meets.imp h hpost
  | askInts i next ih | askReals i next ih =>
    obtain ⟨x, hx, hnext⟩ := h
    exact ⟨x, hx, fun guid values => ih guid values (hnext guid values)⟩

theorem meets_after {P : σ → Prop} {hole : Prop} {post : δ → Prop} {check : Inference σ}
    {next : σ → Preparation ρ δ} (hcheck : Inference.Meets check hole P)
    (hnext : ∀ s, P s → (next s).Meets inputs hole post) :
    (after check next).Meets inputs hole post := by
  cases check with
  | ok s => exact hnext s (hcheck.answer rfl)
  | error e => exact ⟨nofun, fun he => hcheck.fault (congrArg Except.error (Except.error.inj he))⟩

/-- A host whose values fit the inputs brings a resolution to its end without a fault, save on a hole. -/
theorem Meets.run {hole : Prop} {post : δ → Prop} {p : Preparation Float32 δ}
    {tensors : List Tensor} (h : p.Meets (tensors.map Tensor.type) hole post) (host : Host) :
    Inference.Meets (p.run host tensors) (hole ∨ ¬ host.Fits tensors) post := by
  induction p generalizing hole with
  | done outcome => exact Inference.Meets.mono h .inl fun _ => id
  | askInts i next ih =>
    -- The type asked for is that of a tensor at hand, and a host that fits gives it no misfit.
    obtain ⟨x, hx, hnext⟩ := h
    rw [List.getElem?_map] at hx
    obtain ⟨t, ht, rfl⟩ := Option.map_eq_some_iff.mp hx
    simp only [Preparation.run, ht]
    refine (meets_ok rfl).bind ?_
    rintro _ rfl
    refine ((Host.meets_ints (List.mem_of_getElem? ht)).mono False.elim fun _ => id).bind ?_
    intro values hvalues
    refine (ih t.guid values (hnext t.guid values)).mono ?_ fun _ => id
    rintro ((hhole | hmisfit) | hfits)
    exacts [.inl hhole, .inr (hvalues hmisfit), .inr hfits]
  | askReals i next ih =>
    obtain ⟨x, hx, hnext⟩ := h
    rw [List.getElem?_map] at hx
    obtain ⟨t, ht, rfl⟩ := Option.map_eq_some_iff.mp hx
    simp only [Preparation.run, ht]
    refine (meets_ok rfl).bind ?_
    rintro _ rfl
    refine ((Host.meets_reals (List.mem_of_getElem? ht)).mono False.elim fun _ => id).bind ?_
    intro values hvalues
    refine (ih t.guid values (hnext t.guid values)).mono ?_ fun _ => id
    rintro ((hhole | hmisfit) | hfits)
    exacts [.inl hhole, .inr (hvalues hmisfit), .inr hfits]

/-- The resolution can end in a definition, depending on what a host knows. -/
def Yields (d : δ) : Preparation ρ δ → Prop
  | done outcome => outcome = .ok d
  | askInts _ next => ∃ guid values, (next guid values).Yields d
  | askReals _ next => ∃ guid values, (next guid values).Yields d

theorem yields_of_run {p : Preparation Float32 δ} {host : Host} {tensors : List Tensor} {d : δ}
    (h : p.run host tensors = .ok d) : p.Yields d := by
  induction p with
  | done outcome => exact h
  | askInts i next ih | askReals i next ih =>
    obtain ⟨t, _, h⟩ := bind_eq_ok_iff.mp h
    obtain ⟨values, _, h⟩ := bind_eq_ok_iff.mp h
    exact ⟨t.guid, values, ih t.guid values h⟩

theorem run_awaitInts (i : Nat) (resume : Nat → Option (List Int) → Inference δ) (host : Host)
    (tensors : List Tensor) : (awaitInts i resume).run host tensors = (do
      let t ← present tensors[i]?
      resume t.guid (← host.ints t)) := rfl

theorem run_awaitReals (i : Nat) (resume : Nat → Option (List Float32) → Inference δ) (host : Host)
    (tensors : List Tensor) : (awaitReals i resume).run host tensors = (do
      let t ← present tensors[i]?
      resume t.guid (← host.reals t)) := rfl

theorem run_map (p : Preparation Float32 δ) (f : δ → ε) (host : Host) (tensors : List Tensor) :
    (p.map f).run host tensors = f <$> p.run host tensors := by
  induction p with
  | done outcome => rfl
  | askInts i next ih | askReals i next ih => simp only [Preparation.map, Preparation.run, ih, map_bind]

theorem Yields.of_map {f : δ → ε} {p : Preparation ρ δ} {e : ε} (h : (p.map f).Yields e) :
    ∃ d, p.Yields d ∧ f d = e := by
  induction p with
  | done outcome =>
    cases outcome with
    | ok d => exact ⟨d, rfl, Except.ok.inj h⟩
    | error refusal => cases h
  | askInts i next ih | askReals i next ih =>
    obtain ⟨guid, values, h⟩ := h
    obtain ⟨d, hd, he⟩ := ih guid values h
    exact ⟨d, ⟨guid, values, hd⟩, he⟩

/-- What a contract says of every answer holds of the one at hand. -/
theorem Meets.yields {hole : Prop} {post : δ → Prop} {p : Preparation ρ δ} {d : δ}
    (h : p.Meets inputs hole post) (hd : p.Yields d) : post d := by
  induction p generalizing hole with
  | done outcome => exact Inference.Meets.answer h hd
  | askInts i next ih | askReals i next ih =>
    obtain ⟨x, _, hnext⟩ := h
    obtain ⟨guid, values, hd⟩ := hd
    exact ih guid values (hnext guid values) hd

end Preparation

end DataflowCost
