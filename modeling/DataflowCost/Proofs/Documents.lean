import DataflowCost.Config.Document
import DataflowCost.Proofs.Codecs
import DataflowCost.Proofs.Outcome

/-! Configurations as documents, under any codec. A document gives some of the settings, each once and in any
order, and whatever else it names is passed over; the other settings keep their standard values. -/
namespace DataflowCost

open Json

namespace Config

/-- A width of at least one, and a finite window that is not negative. -/
structure Valid (c : Config Float) : Prop where
  worldSize_pos : 0 < c.worldSize
  finite : c.fuseEpsilon.isFinite = true
  nonneg : 0.0 ≤ c.fuseEpsilon

theorem validate_eq_ok_iff {c d : Config Float} : c.validate = .ok d ↔ c.Valid ∧ c = d := by
  unfold validate
  constructor
  · intro h
    split at h
    next => cases h
    next hwidth =>
      split at h
      next hwindow =>
        obtain ⟨hfinite, hnonneg⟩ := Bool.and_eq_true_iff.mp hwindow
        exact ⟨⟨Nat.pos_of_ne_zero hwidth, hfinite, of_decide_eq_true hnonneg⟩, Except.ok.inj h⟩
      next => cases h
  · rintro ⟨⟨hwidth, hfinite, hnonneg⟩, rfl⟩
    rw [if_neg (Nat.ne_of_gt hwidth), if_pos]
    exact Bool.and_eq_true_iff.mpr ⟨hfinite, decide_eq_true hnonneg⟩

theorem valid_standard : (Config.standard : Config Float).Valid :=
  ⟨by decide, by decide +kernel, by decide +kernel⟩

/-- A configuration with the listed settings taken from another. -/
def updated (base c : Config Float) (given : List Setting) : Config Float where
  worldSize := if .worldSize ∈ given then c.worldSize else base.worldSize
  memoryUnit := if .memoryUnit ∈ given then c.memoryUnit else base.memoryUnit
  parallelism := if .parallelism ∈ given then c.parallelism else base.parallelism
  fuseEpsilon := if .fuseEpsilon ∈ given then c.fuseEpsilon else base.fuseEpsilon
  profile := if .profile ∈ given then c.profile else base.profile

section Updated

variable {base c : Config Float}

theorem updated_all (base c : Config Float) : base.updated c Setting.all = c := by
  simp [updated, Setting.all]

theorem updated_cons (s : Setting) (given : List Setting) :
    (base.updated c [s]).updated c given = base.updated c (s :: given) := by
  have hentry {α : Type} (t : Setting) (a b : α) :
      (if t ∈ given then a else if t ∈ [s] then a else b) = if t ∈ s :: given then a else b := by
    by_cases hgiven : t ∈ given <;> by_cases hs : t = s <;> simp [hgiven, hs]
  simp only [updated, hentry]

theorem Valid.updated (hbase : base.Valid) (h : c.Valid) (given : List Setting) :
    (base.updated c given).Valid := by
  have hwidth : (base.updated c given).worldSize =
      if .worldSize ∈ given then c.worldSize else base.worldSize := rfl
  have hwindow : (base.updated c given).fuseEpsilon =
      if .fuseEpsilon ∈ given then c.fuseEpsilon else base.fuseEpsilon := rfl
  constructor
  · rw [hwidth]
    split
    · exact h.worldSize_pos
    · exact hbase.worldSize_pos
  · rw [hwindow]
    split
    · exact h.finite
    · exact hbase.finite
  · rw [hwindow]
    split
    · exact h.nonneg
    · exact hbase.nonneg

end Updated

/-! ### Members -/

/-- A value of a document that is the value of a setting. A floating-point value may be written in any way
that the codec reads back. -/
def Holds (codec : Codec) (c : Config Float) : Setting → Json → Prop
  | .worldSize, v => v = .count c.worldSize
  | .memoryUnit, v => v = .text c.memoryUnit.name
  | .parallelism, v => v = .text c.parallelism.name
  | .fuseEpsilon, v => codec.real? v = some c.fuseEpsilon
  | .profile, v => v = .bool c.profile

/-- Members that give the listed settings their values, each once and in the order of the list, among
members of other names. -/
inductive Gives (codec : Codec) (c : Config Float) :
    List Setting → List (List Letter × Json) → Prop where
  | nil : Gives codec c [] []
  | other {given : List Setting} {members : List (List Letter × Json)} {letters : List Letter}
      {name : String} (value : Json) (hname : plainText? letters = some name)
      (hne : ∀ s : Setting, s.name ≠ name) (h : Gives codec c given members) :
      Gives codec c given ((letters, value) :: members)
  | own {given : List Setting} {members : List (List Letter × Json)} {letters : List Letter}
      {value : Json} {s : Setting} (hs : s ∉ given) (hname : plainText? letters = some s.name)
      (hvalue : c.Holds codec s value) (h : Gives codec c given members) :
      Gives codec c (s :: given) ((letters, value) :: members)

theorem name_injective : Function.Injective Setting.name := by
  intro s t h
  cases s <;> cases t <;> first | rfl | exact absurd h (by decide)

section Decoding

variable {codec : Codec} {c : Config Float} {given : List Setting}
  {members : List (List Letter × Json)}

/-- No member names a setting that is not listed. -/
theorem Gives.plainText?_ne (h : c.Gives codec given members) {s : Setting} (hs : s ∉ given) :
    ∀ member ∈ members, plainText? member.1 ≠ some s.name := by
  induction h with
  | nil => exact fun _ hmember => absurd hmember List.not_mem_nil
  | other _ hname hne _ ih =>
    refine List.forall_mem_cons.mpr ⟨?_, ih hs⟩
    rw [hname, Ne, Option.some.injEq]
    exact (hne s).symm
  | own _ hname _ _ ih =>
    obtain ⟨hne, hs⟩ := not_or.mp (mt List.mem_cons.mpr hs)
    refine List.forall_mem_cons.mpr ⟨?_, ih hs⟩
    rw [hname, Ne, Option.some.injEq, name_injective.eq_iff]
    exact hne ∘ Eq.symm

theorem put_eq (hcodec : codec.Lawful) (hword : c.worldSize < 2 ^ 64) {s : Setting} {value : Json}
    (h : c.Holds codec s value) (base : Config Float) :
    s.put codec value base = some (base.updated c [s]) := by
  cases s with
  | worldSize =>
    obtain rfl : value = .count c.worldSize := h
    simp [Setting.put, hcodec.count _ hword, updated]
  | memoryUnit =>
    obtain rfl : value = .text c.memoryUnit.name := h
    simp [Setting.put, hcodec.word, MemoryUnit.ofName?_name, updated]
  | parallelism =>
    obtain rfl : value = .text c.parallelism.name := h
    simp [Setting.put, hcodec.word, Reducer.ofName?_name, updated]
  | fuseEpsilon =>
    have hreal : codec.real? value = some c.fuseEpsilon := h
    simp [Setting.put, hreal, updated]
  | profile =>
    obtain rfl : value = .bool c.profile := h
    simp [Setting.put, hcodec.flag, updated]

/-- Member by member, a document overrides the settings that it gives. -/
theorem decode?_of_gives (hcodec : codec.Lawful) (hword : c.worldSize < 2 ^ 64)
    (h : c.Gives codec given members) {s : String} (hs : SpacedText (.object members) s.toList)
    (base : Config Float) :
    codec.decode? (Setting.all.map (Setting.slot codec)) base s = some (base.updated c given) := by
  induction h generalizing s base with
  | nil => exact hcodec.empty _ base hs
  | other value hname hne _ ih =>
    obtain ⟨t, ht⟩ := exists_text_tail hs
    rw [hcodec.unknown hs ht hname (List.forall_mem_map.mpr fun s _ => hne s)]
    exact ih ht base
  | @own _ _ _ _ setting hfresh hname hvalue h ih =>
    obtain ⟨t, ht⟩ := exists_text_tail hs
    have hslot : setting.slot codec ∈ Setting.all.map (Setting.slot codec) :=
      List.mem_map_of_mem (by cases setting <;> decide)
    have hnames : ((Setting.all.map (Setting.slot codec)).map Slot.name).Nodup := by
      rw [List.map_map]
      exact List.Nodup.map name_injective (by decide)
    rw [hcodec.known hs ht hnames hslot hname (h.plainText?_ne hfresh) (put_eq hcodec hword hvalue base),
      ih ht, updated_cons]

/-- A text of an object that gives some settings of a valid configuration. -/
theorem ofText_of_gives (hcodec : codec.Lawful) (hc : c.Valid) (hword : c.worldSize < 2 ^ 64)
    (h : c.Gives codec given members) {s : String} (hs : SpacedText (.object members) s.toList) :
    ofText s codec = .ok (standard.updated c given) := by
  rw [ofText, decode?_of_gives hcodec hword h hs]
  exact validate_eq_ok_iff.mpr ⟨valid_standard.updated hc given, rfl⟩

theorem wellFormed_document (hcodec : codec.Lawful) (c : Config Float) :
    (c.document codec).WellFormed := by
  have hname (s : Setting) : ∀ letter ∈ s.name.toList.map Letter.char, LetterWellFormed letter :=
    wellFormed_text s.name
  exact ⟨hname .worldSize, Numeral.wellFormed_ofNat _, hname .memoryUnit, wellFormed_text _,
    hname .parallelism, wellFormed_text _, hname .fuseEpsilon, hcodec.real _,
    hname .profile, trivial, trivial⟩

/-- The document of a configuration gives all its settings. -/
theorem exists_gives_document (hback : codec.real? (codec.real c.fuseEpsilon) = some c.fuseEpsilon) :
    ∃ members, c.document codec = .object members ∧ c.Gives codec Setting.all members := by
  have hname (s : Setting) : plainText? (s.name.toList.map Letter.char) = some s.name :=
    plainText?_chars s.name
  refine ⟨_, rfl, .own ?_ (hname _) rfl (.own ?_ (hname _) rfl (.own ?_ (hname _) rfl
    (.own ?_ (hname _) hback (.own ?_ (hname _) rfl .nil))))⟩
  all_goals decide

end Decoding

/-- Under a codec that is as documented, a document reads back as far as its one real number does; a
document that gives some of the settings overrides the standard ones; and whatever is read is valid. -/
theorem ofText_text {codec : Codec} (hcodec : codec.Lawful) (c : Config Float) (hc : c.Valid)
    (hword : c.worldSize < 2 ^ 64) :
    (codec.real? (codec.real c.fuseEpsilon) = some c.fuseEpsilon →
        ofText (c.text codec) codec = .ok c) ∧
      (∀ {given : List Setting} {members : List (List Letter × Json)} {s : String},
        c.Gives codec given members → SpacedText (.object members) s.toList →
          ofText s codec = .ok (standard.updated c given)) ∧
      ∀ {s : String} {d : Config Float}, ofText s codec = .ok d → d.Valid := by
  refine ⟨fun hback => ?_, fun h hs => ofText_of_gives hcodec hc hword h hs, fun {s d} h => ?_⟩
  · obtain ⟨members, hmembers, hgives⟩ := exists_gives_document hback
    have htext := hcodec.encode _ (wellFormed_document hcodec c)
    rw [hmembers] at htext
    have hread := ofText_of_gives hcodec hc hword hgives htext
    rwa [updated_all, ← hmembers] at hread
  · unfold ofText at h
    split at h
    next read _ =>
      obtain ⟨hvalid, rfl⟩ := validate_eq_ok_iff.mp h
      exact hvalid
    next => cases h

/-- Two settings between blanks, behind a nested value under a name of its own. -/
def sparse : String :=
  "\x7b \"note\":[\x7b\"x\":null\x7d ],\n\"fuse_epsilon\" : 2.5E-1, \"profile\":true\x7d\t"

def quarter : Numeral := ⟨false, ['2'], some ['5'], some (.minus, ['1'])⟩

/-- The members of that text. -/
def sparseMembers : List (List Letter × Json) :=
  [("note".toList.map Letter.char, .array [.record [("x", .null)]]),
    (Setting.fuseEpsilon.name.toList.map Letter.char, .number quarter),
    (Setting.profile.name.toList.map Letter.char, .bool true)]

theorem spacedText_sparse : SpacedText (.object sparseMembers) sparse.toList := by
  have hname (s : String) {a b : List Char} (ha : Blank a) (hb : Blank b) :=
    NameText.intro ha (lettersText_flatMap (wellFormed_text s)) hb
  have hspace := blank_space
  have hline : Blank ['\n'] := blank_singleton (by decide)
  have htab : Blank ['\t'] := blank_singleton (by decide)
  have hnil := blank_nil
  have hitem : ItemsText [.record [("x", .null)]] _ :=
    .last (.intro hnil (.object (.last (hname "x" hnil hnil) (.intro hnil .null hnil))) hspace)
  have hquarter : quarter.WellFormed := by
    refine ⟨Numeral.run_singleton rfl, fun _ h => absurd h (by simp [quarter]), ?_, ?_⟩
    · rintro _ ⟨⟩
      exact Numeral.run_singleton rfl
    · rintro _ ⟨⟩
      exact Numeral.run_singleton rfl
  have hexponent : ExponentText quarter.exponent ['E', '-', '1'] := .marked (.inr rfl)
  have htext : SpacedText (.object sparseMembers) _ :=
    .intro hnil (.object (.more (hname "note" hspace hnil) (.intro hnil (.array hitem) hnil)
      (.more (hname "fuse_epsilon" hline hspace) (.intro hspace (.number ⟨hquarter, hexponent⟩) hnil)
        (.last (hname "profile" hspace hnil) (.intro hnil .boolTrue hnil))))) htab
  convert htext using 1
  decide +kernel

/-- Read by the codec at hand: all that is written, and two settings in front of the standard ones. -/
theorem ofText_text_sparse :
    let c : Config Float := ⟨16, .bytes, .sum, 0.25, true⟩
    Codec.standard.Lawful ∧ c.Valid ∧ c.worldSize < 2 ^ 64 ∧
      Codec.standard.real? (Codec.standard.real c.fuseEpsilon) = some c.fuseEpsilon ∧
      ofText c.text = .ok c ∧ c.Gives .standard [.fuseEpsilon, .profile] sparseMembers ∧
      ofText sparse = .ok ⟨8, .elements, .min, 0.25, true⟩ := by
  intro c
  have hcodec := Codec.lawful_standard
  have hc : c.Valid := ⟨by decide, by decide +kernel, by decide +kernel⟩
  have hback : Codec.standard.real? (Codec.standard.real c.fuseEpsilon) = some c.fuseEpsilon := by
    decide +kernel
  have hquarter : c.Holds .standard .fuseEpsilon (.number quarter) := by
    show Codec.standard.real? (.number quarter) = some c.fuseEpsilon
    decide +kernel
  have hgives : c.Gives .standard [.fuseEpsilon, .profile] sparseMembers := by
    refine .other _ (plainText?_chars "note") (fun s => by cases s <;> decide) ?_
    refine .own (by decide) (plainText?_chars _) hquarter ?_
    exact .own (by decide) (plainText?_chars _) rfl .nil
  obtain ⟨hread, hgiven, _⟩ := ofText_text hcodec c hc (by decide)
  exact ⟨hcodec, hc, by decide, hback, hread hback, hgives, hgiven hgives spacedText_sparse⟩

end Config

end DataflowCost
