import DataflowCost.Json.Codec
import DataflowCost.Proofs.Json.Reading
import DataflowCost.Proofs.Json.Writing
import Mathlib.Data.List.Nodup

/-! What is asked of a codec. It says of single values and of single members what becomes of them; the
order of members, the blanks between tokens and what a member of another name holds are left to the
grammar. -/
namespace DataflowCost

open Json

/-- The documented behaviour of a codec. -/
structure Codec.Lawful (codec : Codec) : Prop where
  /-- Digits alone are read as the count they write, below the bound of 64-bit words. -/
  count : ∀ n < 2 ^ 64, codec.count? (.count n) = some n
  flag : ∀ b, codec.flag? (.bool b) = some b
  /-- A string picks the alternative of its name. -/
  word : ∀ s, codec.word? (.text s) = some s
  real : ∀ x, (codec.real x).WellFormed
  /-- A value is written as a text of the grammar. -/
  encode : ∀ v : Json, v.WellFormed → SpacedText v (codec.encode v).toList
  /-- A field without a member stays as it is. -/
  empty : ∀ {σ : Type} (slots : List (Slot σ)) (record : σ) {s : String},
    SpacedText (.object []) s.toList → codec.decode? slots record s = some record
  /-- A member that names no field might as well not be there. -/
  unknown : ∀ {σ : Type} {slots : List (Slot σ)} {record : σ} {letters : List Letter} {value : Json}
    {members : List (List Letter × Json)} {name : String} {s t : String},
    SpacedText (.object ((letters, value) :: members)) s.toList →
    SpacedText (.object members) t.toList →
    plainText? letters = some name → (∀ slot ∈ slots, slot.name ≠ name) →
    codec.decode? slots record s = codec.decode? slots record t
  /-- The only member of its name is put into its field. -/
  known : ∀ {σ : Type} {slots : List (Slot σ)} {record record' : σ} {letters : List Letter}
    {value : Json} {members : List (List Letter × Json)} {slot : Slot σ} {s t : String},
    SpacedText (.object ((letters, value) :: members)) s.toList →
    SpacedText (.object members) t.toList →
    (slots.map Slot.name).Nodup → slot ∈ slots → plainText? letters = some slot.name →
    (∀ member ∈ members, plainText? member.1 ≠ some slot.name) →
    slot.put value record = some record' →
    codec.decode? slots record s = codec.decode? slots record' t

namespace Json

theorem toCount?_count {n : Nat} (h : n < 2 ^ 64) : (count n).toCount? = some n := by
  show (do
    let value ← (Numeral.ofNat n).toNat?
    if value < Nat.pow 2 64 then some value else none) = some n
  rw [Numeral.toNat?_ofNat]
  exact if_pos h

theorem plainText?_chars (s : String) : plainText? (s.toList.map Letter.char) = some s := by
  rw [plainText?, Letter.chars?_map_char, Option.map_some, String.ofList_toList]

theorem wellFormed_text (s : String) : (text s).WellFormed := by
  intro letter hletter
  obtain ⟨c, _, rfl⟩ := List.mem_map.mp hletter
  trivial

theorem wellFormed_real (x : Float) : (real x).WellFormed := by
  unfold real
  split
  next n hn => exact NumberFormat.wellFormed_of_numeral? hn
  next => trivial

/-- What is left of an object without its first member has a text. -/
theorem exists_text_tail {member : List Letter × Json} {members : List (List Letter × Json)}
    {s : List Char} (h : SpacedText (.object (member :: members)) s) :
    ∃ t : String, SpacedText (.object members) t.toList := by
  have hwritten : ∃ t, Written (.object members) t := by
    obtain ⟨_, h, _⟩ := h
    cases h with
    | object hmembers =>
      cases hmembers with
      | last _ _ => exact ⟨_, .emptyObject blank_nil⟩
      | more _ _ hrest => exact ⟨_, .object hrest⟩
  obtain ⟨t, ht⟩ := hwritten
  refine ⟨String.ofList t, ?_⟩
  rw [String.toList_ofList]
  exact spacedText_of_written ht

end Json

namespace Codec

theorem standard_decode? {σ : Type} (slots : List (Slot σ)) (record : σ)
    {members : List (List Letter × Json)} {s : String} (h : SpacedText (.object members) s.toList) :
    standard.decode? slots record s = fill? slots members record := by
  show (read? s.toList).bind (put? slots record) = _
  rw [read?_of_spacedText h]
  rfl

theorem lawful_standard : standard.Lawful where
  count _ h := toCount?_count h
  flag _ := rfl
  word s := plainText?_chars s
  real := wellFormed_real
  encode _ h := spacedText_indented h
  empty slots record _ h := standard_decode? slots record h
  unknown {σ slots record letters value members name s t} hs ht hname hother := by
    have hfind : slots.find? (·.name == name) = none := by
      rw [List.find?_eq_none]
      intro slot hslot
      rw [beq_iff_eq]
      exact hother slot hslot
    rw [standard_decode? slots record hs, standard_decode? slots record ht, fill?, hname]
    simp only [Option.bind_eq_bind, Option.bind_some, hfind]
  known {σ slots record record' letters value members slot s t} hs ht hnodup hslot hname hfresh hput := by
    have hfind : slots.find? (·.name == slot.name) = some slot := by
      obtain ⟨found, hfound⟩ : ∃ found, slots.find? (·.name == slot.name) = some found :=
        Option.isSome_iff_exists.mp (List.find?_isSome.mpr ⟨slot, hslot, beq_self_eq_true _⟩)
      have hsame : found.name = slot.name := by simpa using List.find?_some hfound
      rw [hfound, List.inj_on_of_nodup_map hnodup (List.mem_of_find?_eq_some hfound) hslot hsame]
    have hlone : (members.any fun member => plainText? member.1 == some slot.name) = false := by
      rw [List.any_eq_false]
      intro member hmember
      rw [beq_iff_eq]
      exact hfresh member hmember
    rw [standard_decode? slots record hs, standard_decode? slots record' ht, fill?, hname]
    simp only [Option.bind_eq_bind, Option.bind_some, hfind, hlone, hput, Bool.false_eq_true, if_false]

end Codec

end DataflowCost
