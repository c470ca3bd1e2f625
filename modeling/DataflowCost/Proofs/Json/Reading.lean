import DataflowCost.Json.Reader
import DataflowCost.Proofs.Json.Grammar
import Mathlib.Data.Bool.AllAny
import Mathlib.Data.List.TakeWhile

/-! The reader accepts every text of the grammar and finds the value that it is a text of. -/
namespace DataflowCost.Json

/-- What may stand behind a value: no character of it extends a number. -/
def Ends (rest : List Char) : Prop := ∀ c ∈ rest.head?, c ∈ blanks ++ [',', ']', '}']

theorem ends_nil : Ends [] := nofun

theorem ends_cons {c : Char} (h : c ∈ blanks ++ [',', ']', '}']) (rest : List Char) :
    Ends (c :: rest) := by
  rintro _ ⟨⟩
  exact h

theorem Ends.head_ne {rest : List Char} (h : Ends rest) {c : Char} (hc : c ∈ rest.head?) :
    c.isDigit = false ∧ c ≠ '.' ∧ isExponentMark c = false := by
  have hall : ∀ c ∈ blanks ++ [',', ']', '}'],
      c.isDigit = false ∧ c ≠ '.' ∧ isExponentMark c = false :=
    List.all_iff_forall_prop.mp (by decide)
  exact hall c (h c hc)

/-! ### Blanks -/

theorem isBlank_iff {c : Char} : isBlank c = true ↔ c ∈ blanks := by
  simp [isBlank, blanks, or_assoc]

theorem skipBlanks_append {s : List Char} (h : Blank s) (rest : List Char) :
    skipBlanks (s ++ rest) = skipBlanks rest :=
  List.dropWhile_append_of_pos fun c hc => isBlank_iff.mpr (h c hc)

theorem skipBlanks_cons {c : Char} (h : c ∉ blanks) (rest : List Char) :
    skipBlanks (c :: rest) = c :: rest :=
  List.dropWhile_cons_of_neg fun hc => h (isBlank_iff.mp hc)

theorem skipBlanks_skipBlanks (s : List Char) : skipBlanks (skipBlanks s) = skipBlanks s :=
  List.dropWhile_eq_self_iff.mpr fun hl => List.dropWhile_get_zero_not _ s hl

theorem Blank.ends_append {s : List Char} (h : Blank s) {rest : List Char} (hrest : Ends rest) :
    Ends (s ++ rest) := by
  cases s with
  | nil => exact hrest
  | cons c s => exact ends_cons (List.mem_append_left _ (h c List.mem_cons_self)) _

/-! ### Numbers -/

theorem digits?_append {s rest : List Char} (h : Numeral.Run s)
    (hrest : ∀ c ∈ rest.head?, c.isDigit = false) : digits? (s ++ rest) = some (s, rest) := by
  have htake : rest.takeWhile Char.isDigit = [] ∧ rest.dropWhile Char.isDigit = rest := by
    cases rest with
    | nil => exact ⟨rfl, rfl⟩
    | cons c rest =>
      have hc : c.isDigit = false := hrest c rfl
      simp [hc]
  unfold digits?
  rw [List.takeWhile_append_of_pos h.2, List.dropWhile_append_of_pos h.2, htake.1, htake.2,
    List.append_nil]
  exact if_neg (by simpa using h.1)

theorem whole?_append {n : Numeral} (h : n.WellFormed) {rest : List Char}
    (hrest : ∀ c ∈ rest.head?, c.isDigit = false) :
    whole? (n.whole ++ rest) = some (n.whole, rest) := by
  cases hwhole : n.whole with
  | nil => exact absurd hwhole h.whole.1
  | cons c digits =>
    by_cases hc : c = '0'
    · -- A zero in front is the whole part, and no digit may follow it.
      subst hc
      obtain rfl := h.leading digits hwhole
      have hnone : rest.head?.any Char.isDigit = false := by
        cases rest with
        | nil => rfl
        | cons c rest => exact hrest c rfl
      simp [whole?, hnone]
    · rw [List.cons_append, whole?]
      · rw [← List.cons_append, ← hwhole]
        exact digits?_append h.whole hrest
      · exact fun _ heq => hc (List.cons.inj heq).1

theorem fraction?_append {fraction : Option (List Char)} (h : ∀ digits ∈ fraction, Numeral.Run digits)
    {rest : List Char} (hrest : ∀ c ∈ rest.head?, c.isDigit = false ∧ c ≠ '.') :
    fraction? (Numeral.fractionChars fraction ++ rest) = some (fraction, rest) := by
  cases fraction with
  | none =>
    cases rest with
    | nil => rfl
    | cons c rest =>
      have hc : c ≠ '.' := (hrest c rfl).2
      show fraction? (c :: rest) = _
      rw [fraction?]
      exact fun _ heq => hc (List.cons.inj heq).1
  | some digits =>
    show (digits? (digits ++ rest)).map _ = _
    rw [digits?_append (h digits rfl) fun c hc => (hrest c hc).1]
    rfl

theorem sign_append (s : Sign) {digits : List Char} (h : Numeral.Run digits) (rest : List Char) :
    sign (s.chars ++ (digits ++ rest)) = (s, digits ++ rest) := by
  cases s with
  | plus | minus => rfl
  | absent =>
    obtain ⟨hne, hdigits⟩ := h
    cases digits with
    | nil => exact absurd rfl hne
    | cons c digits =>
      -- A digit is not taken for a sign.
      have hc := hdigits c List.mem_cons_self
      show sign (c :: (digits ++ rest)) = _
      rw [sign]
      · rfl
      all_goals
        rintro _ heq
        rw [(List.cons.inj heq).1] at hc
        cases hc

theorem exponent?_append {exponent : Option (Sign × List Char)}
    (h : ∀ p ∈ exponent, Numeral.Run p.2) {s rest : List Char} (hs : ExponentText exponent s)
    (hrest : Ends rest) : exponent? (s ++ rest) = some (exponent, rest) := by
  cases hs with
  | absent =>
    cases rest with
    | nil => rfl
    | cons c rest =>
      have hc : isExponentMark c = false := (hrest.head_ne rfl).2.2
      simp [exponent?, hc]
  | @marked mark sign digits hmark =>
    have hrun : Numeral.Run digits := h _ rfl
    have hmark : isExponentMark mark = true := by
      rcases hmark with rfl | rfl <;> rfl
    rw [List.cons_append, List.append_assoc, exponent?, if_pos hmark, sign_append sign hrun]
    show (digits? (digits ++ rest)).map _ = _
    rw [digits?_append hrun fun c hc => (hrest.head_ne hc).1]
    rfl

theorem ExponentText.head_ne {exponent : Option (Sign × List Char)} {s rest : List Char}
    (h : ExponentText exponent s) (hrest : Ends rest) {c : Char} (hc : c ∈ (s ++ rest).head?) :
    c.isDigit = false ∧ c ≠ '.' := by
  cases h with
  | absent =>
    obtain ⟨hdigit, hpoint, _⟩ := hrest.head_ne hc
    exact ⟨hdigit, hpoint⟩
  | marked hmark =>
    obtain rfl := Option.some.inj hc
    rcases hmark with rfl | rfl <;> exact ⟨rfl, by decide⟩

theorem magnitude?_append {n : Numeral} (h : n.WellFormed) {s rest : List Char}
    (hs : ExponentText n.exponent s) (hrest : Ends rest) :
    magnitude? n.negative (n.whole ++ (Numeral.fractionChars n.fraction ++ (s ++ rest))) =
      some (n, rest) := by
  have htail : ∀ c ∈ (s ++ rest).head?, c.isDigit = false ∧ c ≠ '.' := fun c => hs.head_ne hrest
  have hfraction : ∀ c ∈ (Numeral.fractionChars n.fraction ++ (s ++ rest)).head?,
      c.isDigit = false := by
    cases n.fraction with
    | none => exact fun c hc => (htail c hc).1
    | some digits =>
      rintro _ ⟨⟩
      rfl
  simp only [magnitude?, whole?_append h hfraction, fraction?_append h.fraction htail,
    exponent?_append h.exponent hs hrest, Option.bind_eq_bind, Option.bind_some]
  rfl

theorem NumeralText.exists_cons {n : Numeral} {s : List Char} (h : NumeralText n s) :
    ∃ c t, s = c :: t ∧ (c = '-' ∨ c.isDigit = true) := by
  obtain ⟨h, _⟩ := h
  obtain ⟨hne, hdigits⟩ := h.whole
  obtain ⟨c, digits, hwhole⟩ := List.exists_cons_of_ne_nil hne
  have hc : c.isDigit = true := hdigits c (hwhole ▸ List.mem_cons_self)
  cases n.negative with
  | true => exact ⟨'-', _, rfl, .inl rfl⟩
  | false => exact ⟨c, _, by rw [hwhole]; rfl, .inr hc⟩

theorem numeral?_append {n : Numeral} {s rest : List Char} (h : NumeralText n s)
    (hrest : Ends rest) : numeral? (s ++ rest) = some (n, rest) := by
  obtain ⟨h, hs⟩ := h
  have hmagnitude := magnitude?_append h hs hrest
  simp only [List.append_assoc]
  cases hnegative : n.negative with
  | true =>
    rw [hnegative] at hmagnitude
    exact hmagnitude
  | false =>
    rw [hnegative] at hmagnitude
    -- The whole part starts with a digit, which is no minus.
    obtain ⟨hne, hdigits⟩ := h.whole
    obtain ⟨c, digits, hwhole⟩ := List.exists_cons_of_ne_nil hne
    have hc : c.isDigit = true := hdigits c (hwhole ▸ List.mem_cons_self)
    show numeral? (n.whole ++ _) = _
    rw [hwhole] at hmagnitude ⊢
    rw [List.cons_append, numeral?]
    · exact hmagnitude
    · rintro _ heq
      rw [(List.cons.inj heq).1] at hc
      cases hc

/-! ### Strings -/

theorem hexDigit?_eq {c : Char} {value : Nat} (h : IsHexDigit c value) :
    hexDigit? c = some value := by
  have hall : ∀ value < 16, hexDigit? value.digitChar = some value ∧
      hexDigit? value.digitChar.toUpper = some value := by decide
  obtain ⟨hlt, rfl | rfl⟩ := h
  · exact (hall value hlt).1
  · exact (hall value hlt).2

theorem escaped?_eq {e c : Char} (h : (e, c) ∈ shortEscapes) : escaped? e = some c ∧ e ≠ 'u' := by
  have hall : ∀ p ∈ shortEscapes, escaped? p.1 = some p.2 ∧ p.1 ≠ 'u' := by decide
  exact hall (e, c) h

theorem letters?_append_of_letter {letter : Letter} {letters : List Letter} {s t rest : List Char}
    (h : LetterText letter s) (ht : letters? t = some (letters, rest)) :
    letters? (s ++ t) = some (letter :: letters, rest) := by
  cases h with
  | @plain c hquote hbackslash hcontrol =>
    have hcontrol : ¬ c < ' ' := Char.not_lt.mpr hcontrol
    rw [List.singleton_append, letters?, if_neg hcontrol, ht]
    · rfl
    · exact hquote
    · rintro _ _ _ _ _ heq
      exact absurd heq hbackslash
    · rintro _ _ heq
      exact absurd heq hbackslash
  | @short e c h =>
    obtain ⟨hescaped, hne⟩ := escaped?_eq h
    rw [List.cons_append, List.singleton_append, letters?, hescaped, ht]
    · rfl
    · rintro _ _ _ _ _ heq
      exact absurd heq hne
  | unit ha hb hc hd =>
    simp only [List.cons_append, List.nil_append, letters?, unit?, hexDigit?_eq ha, hexDigit?_eq hb,
      hexDigit?_eq hc, hexDigit?_eq hd, ht, Option.bind_eq_bind, Option.bind_some]
    rfl

theorem letters?_append {letters : List Letter} {s : List Char} (h : LettersText letters s)
    (rest : List Char) : letters? (s ++ '"' :: rest) = some (letters, rest) := by
  induction h with
  | nil => rfl
  | cons h _ ih =>
    rw [List.append_assoc]
    exact letters?_append_of_letter h ih

/-! ### Values -/

theorem value?_skipBlanks (fuel : Nat) (s : List Char) :
    value? fuel (skipBlanks s) = value? fuel s := by
  cases fuel with
  | zero => rfl
  | succ fuel => rw [value?, value?, skipBlanks_skipBlanks]

theorem items?_skipBlanks (fuel : Nat) (s : List Char) :
    items? fuel (skipBlanks s) = items? fuel s := by
  cases fuel with
  | zero => rfl
  | succ fuel => rw [items?, items?, value?_skipBlanks]

theorem members?_skipBlanks (fuel : Nat) (s : List Char) :
    members? fuel (skipBlanks s) = members? fuel s := by
  cases fuel with
  | zero => rfl
  | succ fuel => rw [members?, members?, skipBlanks_skipBlanks]

theorem not_mem_blanks_of_number {c : Char} (h : c = '-' ∨ c.isDigit = true) : c ∉ blanks := by
  have hall : ∀ c ∈ blanks, ¬ (c = '-' ∨ c.isDigit = true) :=
    List.all_iff_forall_prop.mp (by decide)
  exact fun hc => hall c hc h

theorem Written.exists_cons {v : Json} {s : List Char} (h : Written v s) :
    ∃ c t, s = c :: t ∧ c ∉ blanks ∧ c ≠ ']' := by
  cases h with
  | number h =>
    obtain ⟨c, t, rfl, hc⟩ := h.exists_cons
    refine ⟨c, t, rfl, not_mem_blanks_of_number hc, ?_⟩
    rintro rfl
    exact absurd hc (by decide)
  | _ => exact ⟨_, _, rfl, by decide, by decide⟩

theorem ItemsText.skipBlanks_append {items : List Json} {s : List Char} (h : ItemsText items s)
    (rest : List Char) : ∃ c t, skipBlanks (s ++ rest) = c :: t ∧ c ≠ ']' := by
  have hspaced {v : Json} {s : List Char} (h : SpacedText v s) (rest : List Char) :
      ∃ c t, skipBlanks (s ++ rest) = c :: t ∧ c ≠ ']' := by
    obtain ⟨ha, h, hb⟩ := h
    obtain ⟨c, t, rfl, hblank, hc⟩ := h.exists_cons
    rw [List.append_assoc, Json.skipBlanks_append ha]
    exact ⟨c, _, skipBlanks_cons hblank _, hc⟩
  cases h with
  | last h => exact hspaced h rest
  | more h _ =>
    rw [List.append_assoc]
    exact hspaced h _

theorem NameText.skipBlanks_append {name : List Letter} {s : List Char} (h : NameText name s)
    (rest : List Char) : ∃ t b, skipBlanks (s ++ rest) = '"' :: (t ++ '"' :: (b ++ rest)) ∧
      LettersText name t ∧ Blank b := by
  obtain ⟨ha, h, hb⟩ := h
  refine ⟨_, _, ?_, h, hb⟩
  rw [List.append_assoc, Json.skipBlanks_append ha, List.cons_append, skipBlanks_cons (by decide),
    List.append_assoc]
  rfl

theorem MembersText.skipBlanks_append {members : List (List Letter × Json)} {s : List Char}
    (h : MembersText members s) (rest : List Char) : ∃ t, skipBlanks (s ++ rest) = '"' :: t := by
  cases h with
  | last hname _ =>
    rw [List.append_assoc]
    obtain ⟨_, _, hskip, _⟩ := hname.skipBlanks_append _
    exact ⟨_, hskip⟩
  | more hname _ _ =>
    rw [List.append_assoc]
    obtain ⟨_, _, hskip, _⟩ := hname.skipBlanks_append _
    exact ⟨_, hskip⟩

/-- What the reader does with enough fuel for texts up to a length. -/
structure Reads (fuel : Nat) : Prop where
  value : ∀ {v : Json} {s rest : List Char}, Written v s → Ends rest → 2 * s.length ≤ fuel →
    value? fuel (s ++ rest) = some (v, rest)
  items : ∀ {items : List Json} {s : List Char}, ItemsText items s → 2 * s.length + 1 ≤ fuel →
    ∀ rest, items? fuel (s ++ ']' :: rest) = some (items, rest)
  members : ∀ {members : List (List Letter × Json)} {s : List Char}, MembersText members s →
    2 * s.length + 1 ≤ fuel → ∀ rest, members? fuel (s ++ '}' :: rest) = some (members, rest)

variable {fuel : Nat}

/-- Blanks behind a value are left over. -/
theorem Reads.spaced (hreads : Reads fuel) {v : Json} {s : List Char} (h : SpacedText v s)
    (hfuel : 2 * s.length ≤ fuel) {rest : List Char} (hrest : Ends rest) :
    ∃ left, value? fuel (s ++ rest) = some (v, left) ∧ skipBlanks left = skipBlanks rest := by
  obtain ⟨ha, h, hb⟩ := h
  rename_i a t b
  simp only [List.length_append] at hfuel
  refine ⟨b ++ rest, ?_, skipBlanks_append hb rest⟩
  rw [List.append_assoc, ← value?_skipBlanks, skipBlanks_append ha, value?_skipBlanks,
    List.append_assoc]
  exact hreads.value h (hb.ends_append hrest) (by omega)

theorem value?_number {n : Numeral} {s rest : List Char} (h : NumeralText n s) (hrest : Ends rest) :
    value? (fuel + 1) (s ++ rest) = some (.number n, rest) := by
  have hread := numeral?_append h hrest
  obtain ⟨c, t, rfl, hc⟩ := h.exists_cons
  have hne {e : Char} {t t' : List Char} (he : ¬ (e = '-' ∨ e.isDigit = true))
      (heq : c :: t = e :: t') : False := by
    rw [(List.cons.inj heq).1] at hc
    exact he hc
  rw [List.cons_append] at hread ⊢
  rw [value?, skipBlanks_cons (not_mem_blanks_of_number hc)]
  split
  -- None of the other values starts with a digit or with a minus.
  case h_7 => rw [hread]; rfl
  all_goals
    rename_i heq
    exact (hne (by decide) heq).elim

theorem Written.length_pos {v : Json} {s : List Char} (h : Written v s) : 0 < s.length := by
  obtain ⟨c, t, rfl, _⟩ := h.exists_cons
  exact Nat.succ_pos _

theorem reads_zero : Reads 0 where
  value h _ hfuel := absurd h.length_pos (by omega)
  items _ hfuel := absurd hfuel (by omega)
  members _ hfuel := absurd hfuel (by omega)

theorem Reads.value_succ (hreads : Reads fuel) {v : Json} {s rest : List Char} (h : Written v s)
    (hrest : Ends rest) (hfuel : 2 * s.length ≤ fuel + 1) :
    value? (fuel + 1) (s ++ rest) = some (v, rest) := by
  cases h with
  | null | boolTrue | boolFalse => rfl
  | number h => exact value?_number h hrest
  | string h =>
    simp only [List.cons_append, List.append_assoc, List.nil_append]
    rw [value?, skipBlanks_cons (by decide)]
    simp only [letters?_append h, Option.map_some]
  | emptyArray h =>
    simp only [List.cons_append, List.append_assoc, List.nil_append]
    rw [value?, skipBlanks_cons (by decide)]
    simp only [skipBlanks_append h, skipBlanks_cons (c := ']') (by decide)]
  | array h =>
    simp only [List.length_cons, List.length_append] at hfuel
    have hitems := hreads.items h (by omega) rest
    -- Behind the blanks the reader looks for a bracket that closes, and no item starts with one.
    obtain ⟨c, t, hskip, hne⟩ := h.skipBlanks_append (']' :: rest)
    rw [← items?_skipBlanks, hskip] at hitems
    simp only [List.cons_append, List.append_assoc, List.nil_append]
    rw [value?, skipBlanks_cons (by decide)]
    simp only [hskip]
    split
    next heq => exact absurd (List.cons.inj heq).1 hne
    next => rw [hitems, Option.map_some]
  | emptyObject h =>
    simp only [List.cons_append, List.append_assoc, List.nil_append]
    rw [value?, skipBlanks_cons (by decide)]
    simp only [skipBlanks_append h, skipBlanks_cons (c := '}') (by decide)]
  | object h =>
    simp only [List.length_cons, List.length_append] at hfuel
    have hmembers := hreads.members h (by omega) rest
    obtain ⟨t, hskip⟩ := h.skipBlanks_append ('}' :: rest)
    rw [← members?_skipBlanks, hskip] at hmembers
    simp only [List.cons_append, List.append_assoc, List.nil_append]
    rw [value?, skipBlanks_cons (by decide)]
    simp only [hskip]
    split
    next heq => exact absurd (List.cons.inj heq).1 (by decide)
    next => rw [hmembers, Option.map_some]

theorem Reads.items_succ (hreads : Reads fuel) {items : List Json} {s : List Char}
    (h : ItemsText items s) (hfuel : 2 * s.length + 1 ≤ fuel + 1) (rest : List Char) :
    items? (fuel + 1) (s ++ ']' :: rest) = some (items, rest) := by
  cases h with
  | last h =>
    obtain ⟨left, hvalue, hleft⟩ :=
      hreads.spaced h (by omega) (ends_cons (c := ']') (by decide) rest)
    rw [items?, hvalue]
    simp only [Option.bind_eq_bind, Option.bind_some, hleft, skipBlanks_cons (c := ']') (by decide)]
    rfl
  | more h hrest =>
    simp only [List.length_append, List.length_cons] at hfuel
    obtain ⟨left, hvalue, hleft⟩ :=
      hreads.spaced h (by omega) (ends_cons (c := ',') (by decide) _)
    have hitems := hreads.items hrest (by omega) rest
    rw [List.append_assoc, List.cons_append, items?, hvalue]
    simp only [Option.bind_eq_bind, Option.bind_some, hleft, skipBlanks_cons (c := ',') (by decide),
      hitems]
    rfl

theorem Reads.members_succ (hreads : Reads fuel) {members : List (List Letter × Json)}
    {s : List Char} (h : MembersText members s) (hfuel : 2 * s.length + 1 ≤ fuel + 1)
    (rest : List Char) :
    members? (fuel + 1) (s ++ '}' :: rest) = some (members, rest) := by
  cases h with
  | last hname h =>
    simp only [List.length_append, List.length_cons] at hfuel
    obtain ⟨_, b, hskip, hletters, hb⟩ := hname.skipBlanks_append _
    obtain ⟨left, hvalue, hleft⟩ :=
      hreads.spaced h (by omega) (ends_cons (c := '}') (by decide) rest)
    rw [List.append_assoc, List.cons_append, members?, hskip]
    simp only [letters?_append hletters, Option.bind_eq_bind, Option.bind_some, skipBlanks_append hb,
      skipBlanks_cons (c := ':') (by decide), hvalue, hleft, skipBlanks_cons (c := '}') (by decide)]
    rfl
  | @more name value members s t u hname h hrest =>
    simp only [List.length_append, List.length_cons] at hfuel
    obtain ⟨_, b, hskip, hletters, hb⟩ := hname.skipBlanks_append _
    obtain ⟨left, hvalue, hleft⟩ :=
      hreads.spaced h (by omega) (ends_cons (c := ',') (by decide) (u ++ '}' :: rest))
    have hmembers := hreads.members hrest (by omega) rest
    simp only [List.append_assoc, List.cons_append]
    rw [members?, hskip]
    simp only [letters?_append hletters, Option.bind_eq_bind, Option.bind_some, skipBlanks_append hb,
      skipBlanks_cons (c := ':') (by decide), hvalue, hleft, skipBlanks_cons (c := ',') (by decide),
      hmembers]
    rfl

/-- Fuel of two steps for each character suffices, one more for items and for members. -/
theorem reads (fuel : Nat) : Reads fuel := by
  induction fuel with
  | zero => exact reads_zero
  | succ fuel ih => exact ⟨ih.value_succ, ih.items_succ, ih.members_succ⟩

/-- A text of a value, with blanks around it, is a document of that value. -/
theorem read?_of_spacedText {v : Json} {s : List Char} (h : SpacedText v s) : read? s = some v := by
  obtain ⟨left, hvalue, hleft⟩ :=
    (reads (2 * s.length + 2)).spaced h (Nat.le_add_right _ 2) ends_nil
  rw [List.append_nil] at hvalue
  have hnone : skipBlanks left = [] := hleft
  simp [read?, hvalue, hnone]

end DataflowCost.Json
