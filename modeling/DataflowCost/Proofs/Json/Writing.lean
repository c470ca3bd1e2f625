import DataflowCost.Json.Writer
import DataflowCost.Proofs.Json.Numbers

/-! The writer writes texts of the grammar. -/
namespace DataflowCost.Json

/-- Letters that a string of the grammar can have: halves are units of surrogate pairs. -/
def LetterWellFormed : Letter → Prop
  | .char _ => True
  | .half unit => Letter.highFirst ≤ unit ∧ unit ≤ Letter.lowLast

mutual

/-- The values whose numerals and letters the grammar has. -/
def WellFormed : Json → Prop
  | null | bool _ => True
  | number n => n.WellFormed
  | string letters => ∀ letter ∈ letters, LetterWellFormed letter
  | array items => ItemsWellFormed items
  | object members => MembersWellFormed members

def ItemsWellFormed : List Json → Prop
  | [] => True
  | item :: items => WellFormed item ∧ ItemsWellFormed items

def MembersWellFormed : List (List Letter × Json) → Prop
  | [] => True
  | (name, value) :: members =>
    (∀ letter ∈ name, LetterWellFormed letter) ∧ WellFormed value ∧ MembersWellFormed members

end

/-! ### Strings -/

theorem hexDigits_succ {width : Nat} (h : 0 < width) (n : Nat) :
    hexDigits (width + 1) n = hexDigits width (n / 16) ++ [(n % 16).digitChar] := by
  unfold hexDigits
  simp only
  by_cases hlt : n < 16
  · -- A single digit, behind one zero more.
    obtain ⟨width, rfl⟩ := Nat.exists_eq_add_one_of_ne_zero (Nat.ne_of_gt h)
    rw [Nat.toDigits_of_lt_base hlt, Nat.div_eq_of_lt hlt, Nat.mod_eq_of_lt hlt, Nat.toDigits_zero]
    simp [List.replicate_succ']
  · rw [Nat.toDigits_of_base_le (by decide) (Nat.le_of_not_lt hlt), ← List.append_assoc,
      List.length_append, List.length_singleton, Nat.add_sub_add_right]

theorem hexDigits_four {unit : Nat} (h : unit < 0x10000) :
    hexDigits 4 unit = [(unit / 16 / 16 / 16).digitChar, (unit / 16 / 16 % 16).digitChar,
      (unit / 16 % 16).digitChar, (unit % 16).digitChar] := by
  have hone (n : Nat) (hn : n < 16) : hexDigits 1 n = [n.digitChar] := by
    rw [hexDigits, Nat.toDigits_of_lt_base hn]
    rfl
  rw [hexDigits_succ (by decide), hexDigits_succ (by decide), hexDigits_succ (by decide),
    hone _ (by omega)]
  rfl

theorem isHexDigit_digitChar (value : Nat) (h : value < 16) : IsHexDigit value.digitChar value :=
  ⟨h, .inl rfl⟩

theorem letterText_unitEscape {unit : Nat} (h : unit < 0x10000) :
    LetterText (unitLetter unit) (unitEscape unit) := by
  have htext := LetterText.unit (isHexDigit_digitChar (unit / 16 / 16 / 16) (by omega))
    (isHexDigit_digitChar (unit / 16 / 16 % 16) (by omega))
    (isHexDigit_digitChar (unit / 16 % 16) (by omega))
    (isHexDigit_digitChar (unit % 16) (by omega))
  have hvalue : 0x1000 * (unit / 16 / 16 / 16) + 0x100 * (unit / 16 / 16 % 16) +
      0x10 * (unit / 16 % 16) + unit % 16 = unit := by omega
  rw [hvalue] at htext
  rw [unitEscape, hexDigits_four h]
  exact htext

theorem letterText_letterChars {letter : Letter} (h : LetterWellFormed letter) :
    LetterText letter (letterChars letter) := by
  cases letter with
  | half unit =>
    have hunit : unitLetter unit = .half unit := if_pos h
    have htext := letterText_unitEscape (Nat.lt_of_le_of_lt h.2 (by decide))
    rwa [hunit] at htext
  | char c =>
    show LetterText (.char c) (charEscape c)
    unfold charEscape
    -- The characters that have an escape of one letter come first.
    iterate 7
      split
      next heq =>
        subst heq
        exact .short (by decide)
    split
    next hcontrol =>
      -- Any other control character is written as a code unit, and is no half of a pair.
      have hlt : c.toNat < 32 := hcontrol
      have hunit : unitLetter c.toNat = .char c := by
        rw [unitLetter, if_neg, Char.ofNat_toNat]
        intro hhalf
        exact absurd hhalf.1 (by simp only [Letter.highFirst]; omega)
      have htext := letterText_unitEscape (Nat.lt_trans hlt (by decide))
      rwa [hunit] at htext
    next hquote hbackslash _ _ _ _ _ hcontrol =>
      exact .plain hquote hbackslash (Char.not_lt.mp hcontrol)

theorem lettersText_flatMap {letters : List Letter}
    (h : ∀ letter ∈ letters, LetterWellFormed letter) :
    LettersText letters (letters.flatMap letterChars) := by
  induction letters with
  | nil => exact .nil
  | cons letter letters ih =>
    obtain ⟨hletter, hletters⟩ := List.forall_mem_cons.mp h
    exact .cons (letterText_letterChars hletter) (ih hletters)

/-! ### Values -/

theorem blank_newLine (depth : Nat) : Blank (newLine depth) := by
  intro c hc
  rcases List.mem_cons.mp hc with rfl | hc
  · decide
  · rw [List.eq_of_mem_replicate hc]
    decide

theorem blank_nil : Blank [] := nofun

theorem blank_singleton {c : Char} (h : c ∈ blanks) : Blank [c] := List.forall_mem_singleton.mpr h

theorem blank_space : Blank [' '] := blank_singleton (by decide)

theorem nameText_quoted {name : List Letter} (h : ∀ letter ∈ name, LetterWellFormed letter)
    {a : List Char} (ha : Blank a) : NameText name (a ++ quoted name) :=
  .intro ha (lettersText_flatMap h) blank_nil

mutual

theorem written_chars : ∀ (v : Json) (depth : Nat), v.WellFormed → Written v (v.chars depth)
  | null, _, _ => .null
  | bool true, _, _ => .boolTrue
  | bool false, _, _ => .boolFalse
  | number n, _, h => by
    refine .number ⟨h, ?_⟩
    cases n.exponent with
    | none => exact .absent
    | some p => exact .marked (.inl rfl)
  | string letters, _, h => .string (lettersText_flatMap h)
  | array [], _, _ => .emptyArray blank_nil
  | array (item :: items), depth, h => by
    obtain ⟨hitem, hitems⟩ := h
    have htext := itemsText_itemChars items (written_chars item (depth + 1) hitem) hitems
      (blank_newLine depth)
    have harray := Written.array htext
    rw [chars]
    simpa only [List.append_assoc, List.cons_append, List.nil_append] using harray
  | object [], _, _ => .emptyObject blank_nil
  | object ((name, value) :: members), depth, h => by
    obtain ⟨hname, hvalue, hmembers⟩ := h
    have htext := membersText_memberChars members hname (written_chars value (depth + 1) hvalue)
      hmembers (blank_newLine depth)
    have hobject := Written.object htext
    rw [chars]
    simpa only [List.append_assoc, List.cons_append, List.nil_append] using hobject

/-- The tail is what stands between the last item and the closing bracket. -/
theorem itemsText_itemChars : ∀ (items : List Json) {item : Json} {depth : Nat} {tail : List Char},
    Written item (item.chars depth) → ItemsWellFormed items → Blank tail →
    ItemsText (item :: items)
      (newLine depth ++ (item.chars depth ++ (itemChars depth items ++ tail)))
  | [], _, depth, _, h, _, htail => .last (.intro (blank_newLine depth) h htail)
  | next :: items, item, depth, tail, h, hitems, htail => by
    obtain ⟨hnext, hitems⟩ := hitems
    have htext := itemsText_itemChars items (written_chars next depth hnext) hitems htail
    have hspaced : SpacedText item (newLine depth ++ (item.chars depth ++ [])) :=
      .intro (blank_newLine depth) h blank_nil
    have hmore := ItemsText.more hspaced htext
    rw [itemChars]
    simpa only [List.append_assoc, List.cons_append, List.nil_append] using hmore

theorem membersText_memberChars : ∀ (members : List (List Letter × Json)) {name : List Letter}
    {value : Json} {depth : Nat} {tail : List Char}, (∀ letter ∈ name, LetterWellFormed letter) →
    Written value (value.chars depth) → MembersWellFormed members → Blank tail →
    MembersText ((name, value) :: members)
      (newLine depth ++ (quoted name ++ ':' :: ' ' ::
        (value.chars depth ++ (memberChars depth members ++ tail))))
  | [], name, value, depth, tail, hname, h, _, htail => by
    have hlast := MembersText.last (nameText_quoted hname (blank_newLine depth))
      (.intro blank_space h htail)
    simpa only [memberChars, List.append_assoc, List.cons_append, List.nil_append] using hlast
  | (next, nextValue) :: members, name, value, depth, tail, hname, h, hmembers, htail => by
    obtain ⟨hnext, hnextValue, hmembers⟩ := hmembers
    have htext := membersText_memberChars members hnext (written_chars nextValue depth hnextValue)
      hmembers htail
    have hmore := MembersText.more (nameText_quoted hname (blank_newLine depth))
      (.intro blank_space h blank_nil) htext
    simpa only [memberChars, List.append_assoc, List.cons_append, List.nil_append] using hmore

end

/-- A written value is a document. -/
theorem spacedText_of_written {v : Json} {s : List Char} (h : Written v s) : SpacedText v s := by
  have htext : SpacedText v ([] ++ (s ++ [])) := .intro blank_nil h blank_nil
  rwa [List.nil_append, List.append_nil] at htext

theorem spacedText_indented {v : Json} (h : v.WellFormed) : SpacedText v v.indented.toList := by
  rw [indented, String.toList_ofList]
  exact spacedText_of_written (written_chars v 0 h)

end DataflowCost.Json
