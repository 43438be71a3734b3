import UtilitySheet.Proofs.ClassName

/-!
# The grammar of class names

What a class name of a family looks like: the value languages as rules (`ValueLanguage.Accepts`), and
the ways to write the parts of a name one after the other (`Pattern.Spells`). Main statement
(`Pattern.mem_readings_iff`): where keys hold no blanks, the readings of a name are its spellings.
-/

namespace UtilitySheet

/-! ## Texts without blanks -/

namespace Text

theorem mem_of_inRanges {n : Nat} : ∀ {ranges : List CodeRange}, inRanges ranges n = true →
    n ∈ ranges.flatMap fun r => List.range' r.1 (r.2 + 1 - r.1)
  | [], h => by cases h
  | (first, last) :: ranges, h => by
    by_cases hfirst : n < first
    · rw [inRanges_cons_of_lt hfirst] at h
      cases h
    · rw [inRanges_cons_of_le (Nat.le_of_not_lt hfirst), Bool.or_eq_true, decide_eq_true_eq] at h
      rw [List.flatMap_cons, List.mem_append, List.mem_range'_1]
      rcases h with h | h
      · left
        omega
      · exact .inr (mem_of_inRanges h)

/-- The blanks one by one. -/
def blankCharacters : List Char :=
  (blanks.flatMap fun r => List.range' r.1 (r.2 + 1 - r.1)).map Char.ofNat

theorem mem_blankCharacters {c : Char} (h : isBlank c = true) : c ∈ blankCharacters :=
  List.mem_map.2 ⟨c.toNat, mem_of_inRanges h, Char.ofNat_toNat c⟩

/-- What is checked of the blanks one by one holds of all. -/
theorem not_of_isBlank {p : Char → Bool} (hp : blankCharacters.all (fun c => !p c) = true)
    {c : Char} (h : isBlank c = true) : p c = false := by
  simpa using List.all_eq_true.1 hp c (mem_blankCharacters h)

theorem not_isIdentifier_of_isBlank {c : Char} :
    isBlank c = true → (isWord c || c == '-') = false :=
  not_of_isBlank (p := fun c => isWord c || c == '-') (by decide +kernel)

theorem not_isDigit_of_isBlank {c : Char} : isBlank c = true → isDigit c = false :=
  not_of_isBlank (by decide)

theorem not_isLower_of_isBlank {c : Char} : isBlank c = true → c.isLower = false :=
  not_of_isBlank (by decide)

theorem not_isHexDigit_of_isBlank {c : Char} : isBlank c = true → isHexDigit c = false :=
  not_of_isBlank (by decide)

/-- Whether no blank stands in a text. -/
def isUnbroken (s : Text) : Bool := s.all (!isBlank ·)

theorem isUnbroken_iff {s : Text} : isUnbroken s = true ↔ ∀ c ∈ s, isBlank c = false := by
  simp [isUnbroken]

theorem isUnbroken_append {s t : Text} :
    isUnbroken (s ++ t) = true ↔ isUnbroken s = true ∧ isUnbroken t = true := by
  simp [isUnbroken]

theorem isUnbroken_cons {c : Char} {s : Text} :
    isUnbroken (c :: s) = true ↔ isBlank c = false ∧ isUnbroken s = true := by
  simp [isUnbroken]

/-- Characters that are no blanks by a test make a text without blanks. -/
theorem isUnbroken_of_forall {p : Char → Bool} (hp : ∀ {c}, isBlank c = true → p c = false)
    {s : Text} (h : ∀ c ∈ s, p c = true) : isUnbroken s = true := by
  refine isUnbroken_iff.2 fun c hc => Bool.eq_false_iff.2 fun hblank => ?_
  have hnot := hp hblank
  rw [h c hc] at hnot
  cases hnot

theorem isUnbroken_getD {texts : List Text} (htexts : ∀ t ∈ texts, isUnbroken t = true)
    {o : Option Text} (ho : ∀ t ∈ o, t ∈ texts) : isUnbroken (o.getD []) = true := by
  cases o with
  | none => rfl
  | some t => exact htexts t (ho t rfl)

theorem trim_of_isUnbroken {s : Text} (h : isUnbroken s = true) : trim s = s := by
  have hdrop : ∀ {s : Text}, isUnbroken s = true → s.dropWhile isBlank = s := by
    intro s hs
    cases s with
    | nil => rfl
    | cons c s => exact List.dropWhile_cons_of_neg (by simp [(isUnbroken_cons.1 hs).1])
  have hreverse : isUnbroken s.reverse = true := by simpa [isUnbroken] using h
  rw [trim, hdrop h, trimEnd, hdrop hreverse, List.reverse_reverse]

/-- A stretch of characters and what stops it are found again by the character test. -/
theorem takeWhile_append_stop {p : Char → Bool} {s t : Text} (hs : ∀ c ∈ s, p c = true)
    (ht : ∀ c ∈ t.head?, p c = false) :
    (s ++ t).takeWhile p = s ∧ (s ++ t).dropWhile p = t := by
  have hstop : t.takeWhile p = [] ∧ t.dropWhile p = t := by
    cases t with
    | nil => exact ⟨rfl, rfl⟩
    | cons c t =>
      have hc : p c = false := ht c rfl
      exact ⟨List.takeWhile_cons_of_neg (by simp [hc]), List.dropWhile_cons_of_neg (by simp [hc])⟩
  rw [List.takeWhile_append_of_pos hs, List.dropWhile_append_of_pos hs, hstop.1, hstop.2,
    List.append_nil]
  exact ⟨rfl, rfl⟩

/-- The first character that fails a test splits a text in one way. -/
theorem append_inj_stop {p : Char → Bool} {s t s' t' : Text} (hs : ∀ c ∈ s, p c = true)
    (hs' : ∀ c ∈ s', p c = true) (ht : ∀ c ∈ t.head?, p c = false)
    (ht' : ∀ c ∈ t'.head?, p c = false) (h : s ++ t = s' ++ t') : s = s' ∧ t = t' := by
  obtain ⟨htake, hdrop⟩ := takeWhile_append_stop hs ht
  obtain ⟨htake', hdrop'⟩ := takeWhile_append_stop hs' ht'
  rw [← h] at htake' hdrop'
  exact ⟨htake.symm.trans htake', hdrop.symm.trans hdrop'⟩

/-- The first blank of a text splits it in one way. -/
theorem append_blank_inj {s t s' t' : Text} {b b' : Char} (hs : isUnbroken s = true)
    (ht : isUnbroken t = true) (hb : isBlank b = true) (hb' : isBlank b' = true)
    (h : s ++ b :: s' = t ++ b' :: t') : s = t ∧ s' = t' := by
  obtain ⟨hst, htail⟩ := append_inj_stop (List.all_eq_true.1 hs) (List.all_eq_true.1 ht)
    (by simpa using hb) (by simpa using hb') h
  exact ⟨hst, (List.cons.inj htail).2⟩

end Text

open Text

/-! ## Values -/

/-- One digit or more. -/
structure IsDigits (s : Text) : Prop where
  ne_nil : s ≠ []
  digit : ∀ c ∈ s, isDigit c = true

/-- Digits, and behind a low line perhaps decimals. -/
inductive IsUnsigned : Text → Prop
  | whole {digits : Text} : IsDigits digits → IsUnsigned digits
  | decimal {digits decimals : Text} : IsDigits digits → IsDigits decimals →
      IsUnsigned (digits ++ '_' :: decimals)

/-- The values of a language. -/
inductive ValueLanguage.Accepts : ValueLanguage → Text → Prop
  | keyword {ws : List Keyword} {w : Keyword} : w ∈ ws → Accepts (.keywords ws) w.literal
  | identifier {v : Text} : v ≠ [] → (∀ c ∈ v, (isWord c || c == '-') = true) →
      Accepts .identifier v
  | unsigned {signed : Bool} {v : Text} : IsUnsigned v → Accepts (.numeric signed) v
  | negative {v : Text} : IsUnsigned v → Accepts (.numeric true) ('-' :: v)
  | reserved {signed : Bool} {v : Text} : v ∈ reservedValues → Accepts (.numeric signed) v
  | hexadecimal {v : Text} : isHexColor v = true → Accepts .color v
  | colorName {v : Text} : v ≠ [] → (∀ c ∈ v, c.isLower = true) → Accepts .color v

theorem Reader.mem_maybe_oneOf {texts : List Text} {s rest : Text} {a : Option Text} :
    (a, rest) ∈ maybe (oneOf texts) s ↔ (∀ t ∈ a, t ∈ texts) ∧ s = a.getD [] ++ rest := by
  rw [mem_maybe]
  cases a with
  | none => simp [eq_comm]
  | some t => simp [mem_oneOf]

theorem Reader.mem_blank {s rest : Text} {a : Unit} :
    (a, rest) ∈ blank s ↔ ∃ b, isBlank b = true ∧ s = b :: rest := by
  cases s with
  | nil => simp [blank]
  | cons c s =>
    constructor
    · intro h
      rw [blank] at h
      split at h
      · rename_i hc
        obtain ⟨-, rfl⟩ := Prod.mk.inj (List.mem_singleton.1 h)
        exact ⟨c, hc, rfl⟩
      · cases h
    · rintro ⟨b, hb, h⟩
      obtain ⟨rfl, rfl⟩ := List.cons.inj h
      rw [blank, if_pos hb]
      exact List.mem_singleton_self _

theorem Reader.mem_run_append {p : Char → Bool} {v rest : Text} (hv : v ≠ [])
    (hp : ∀ c ∈ v, p c = true) (hrest : ∀ c ∈ rest.head?, p c = false) :
    (v, rest) ∈ Reader.run p (v ++ rest) := by
  obtain ⟨htake, hdrop⟩ := takeWhile_append_stop hp hrest
  exact Reader.mem_run.2 ⟨hv, htake.symm, hdrop.symm⟩

/-- The reader of numbers takes off a number. -/
theorem isUnsigned_of_mem {s v rest : Text} (h : (v, rest) ∈ unsignedNumber s) : IsUnsigned v := by
  unfold unsignedNumber at h
  obtain ⟨⟨digits, t⟩, hdigits, h⟩ := List.mem_flatMap.1 h
  have hwhole : IsDigits digits := ⟨(Reader.mem_run.1 hdigits).1, Reader.of_mem_run hdigits⟩
  simp only at h
  split at h
  · rcases List.mem_append.1 h with h | h
    · obtain ⟨⟨decimals, left⟩, hdecimals, h⟩ := List.mem_map.1 h
      obtain ⟨rfl, rfl⟩ := Prod.mk.inj h
      exact .decimal hwhole ⟨(Reader.mem_run.1 hdecimals).1, Reader.of_mem_run hdecimals⟩
    · obtain ⟨rfl, rfl⟩ := Prod.mk.inj (List.mem_singleton.1 h)
      exact .whole hwhole
  · obtain ⟨rfl, rfl⟩ := Prod.mk.inj (List.mem_singleton.1 h)
    exact .whole hwhole

/-- A number that no digit follows is taken off. -/
theorem mem_unsignedNumber_append {v rest : Text} (hv : IsUnsigned v)
    (hrest : ∀ c ∈ rest.head?, isDigit c = false) : (v, rest) ∈ unsignedNumber (v ++ rest) := by
  have hline : isDigit '_' = false := by decide
  cases hv with
  | whole hdigits =>
    refine List.mem_flatMap.2
      ⟨(v, rest), Reader.mem_run_append hdigits.ne_nil hdigits.digit hrest, ?_⟩
    simp only
    split
    · exact List.mem_append_right _ (List.mem_singleton_self _)
    · exact List.mem_singleton_self _
  | @decimal digits decimals hdigits hdecimals =>
    refine List.mem_flatMap.2 ⟨(digits, '_' :: (decimals ++ rest)), ?_, ?_⟩
    · rw [List.append_assoc]
      exact Reader.mem_run_append hdigits.ne_nil hdigits.digit (by simp [hline])
    · refine List.mem_append_left _ (List.mem_map.2 ⟨(decimals, rest), ?_, rfl⟩)
      exact Reader.mem_run_append hdecimals.ne_nil hdecimals.digit hrest

/-- A number without sign starts with a digit. -/
theorem IsUnsigned.exists_digit {v : Text} (hv : IsUnsigned v) :
    ∃ d t, v = d :: t ∧ isDigit d = true := by
  have hdigits : ∀ {digits : Text}, IsDigits digits → ∃ d t, digits = d :: t ∧ isDigit d = true := by
    intro digits h
    obtain ⟨d, t, rfl⟩ := List.exists_cons_of_ne_nil h.ne_nil
    exact ⟨d, t, rfl, h.digit d List.mem_cons_self⟩
  cases hv with
  | whole h => exact hdigits h
  | @decimal _ decimals h _ =>
    obtain ⟨d, t, rfl, hd⟩ := hdigits h
    exact ⟨d, t ++ '_' :: decimals, rfl, hd⟩

theorem IsUnsigned.ne_nil {v : Text} (hv : IsUnsigned v) : v ≠ [] := by
  obtain ⟨d, t, rfl, -⟩ := hv.exists_digit
  exact List.cons_ne_nil d t

/-- A number without sign holds digits and the low line only. -/
theorem IsUnsigned.forall_mem {P : Char → Prop} {v : Text} (hdigit : ∀ c, isDigit c = true → P c)
    (hline : P '_') (hv : IsUnsigned v) : ∀ c ∈ v, P c := by
  cases hv with
  | whole h => exact fun c hc => hdigit c (h.digit c hc)
  | decimal h h' =>
    intro c hc
    rcases List.mem_append.1 hc with hc | hc
    · exact hdigit c (h.digit c hc)
    · rcases List.mem_cons.1 hc with rfl | hc
      · exact hline
      · exact hdigit c (h'.digit c hc)

theorem signedNumber_of_ne {s : Text} (h : s.head? ≠ some '-') :
    signedNumber s = unsignedNumber s := by
  unfold signedNumber
  split
  · exact absurd rfl h
  · rfl

namespace ValueLanguage

/-- What is read as a value is one. -/
theorem accepts_of_mem_value {l : ValueLanguage} {s v rest : Text} (h : (v, rest) ∈ l.value s) :
    l.Accepts v := by
  cases l with
  | keywords ws =>
    obtain ⟨w, hw, rfl⟩ := List.mem_map.1 (Reader.mem_oneOf.1 h).1
    exact .keyword hw
  | identifier => exact .identifier (Reader.mem_run.1 h).1 (Reader.of_mem_run h)
  | numeric signed =>
    rcases List.mem_append.1 h with h | h
    · cases signed with
      | false => exact .unsigned (isUnsigned_of_mem h)
      | true =>
        rw [if_pos rfl] at h
        unfold signedNumber at h
        split at h
        · obtain ⟨⟨number, t⟩, hnumber, h⟩ := List.mem_map.1 h
          obtain ⟨rfl, rfl⟩ := Prod.mk.inj h
          exact .negative (isUnsigned_of_mem hnumber)
        · exact .unsigned (isUnsigned_of_mem h)
    · exact .reserved (Reader.mem_oneOf.1 h).1
  | color =>
    rcases List.mem_append.1 h with h | h
    · exact .hexadecimal (List.mem_filter.1 h).2
    · exact .colorName (Reader.mem_run.1 h).1 (Reader.of_mem_run h)

/-- The words that a language lists. -/
def words : ValueLanguage → List Text
  | keywords ws => ws.map Keyword.literal
  | numeric _ => reservedValues
  | _ => []

/-- No blank stands in a value. -/
theorem Accepts.isUnbroken {f : Family} {v : Text} (h : f.language.Accepts v) :
    isUnbroken v = true := by
  have hwords : ∀ f ∈ Family.all, ∀ w ∈ f.language.words, Text.isUnbroken w = true := by
    decide
  have hword := hwords f (Family.mem_all f) v
  have hnumber : ∀ {s : Text}, IsUnsigned s → Text.isUnbroken s = true := fun h =>
    isUnbroken_iff.2 (h.forall_mem
      (fun c hc => Bool.eq_false_iff.2 fun hb => by simp [not_isDigit_of_isBlank hb] at hc)
      (by decide))
  revert hword
  generalize f.language = l at h
  intro hword
  cases h with
  | keyword hw => exact hword (List.mem_map_of_mem hw)
  | identifier _ hall => exact isUnbroken_of_forall not_isIdentifier_of_isBlank hall
  | unsigned h => exact hnumber h
  | negative h => exact isUnbroken_cons.2 ⟨by decide, hnumber h⟩
  | reserved h => exact hword h
  | hexadecimal h =>
    simp only [isHexColor, Bool.and_eq_true] at h
    exact isUnbroken_of_forall not_isHexDigit_of_isBlank (List.all_eq_true.1 h.2)
  | colorName _ hall => exact isUnbroken_of_forall not_isLower_of_isBlank hall

/-- What may follow a value: a blank, or where units are taken anything but a digit. -/
def Stops (l : ValueLanguage) (rest : Text) : Prop :=
  ∀ c ∈ rest.head?, isBlank c = true ∨ l.takesUnit = true ∧ isDigit c = false

/-- A unit may follow a number. -/
theorem stops_unit {l : ValueLanguage} {u : Text} (hl : l.takesUnit = true)
    (hu : u ∈ NumericUnit.suffixes.map NumericUnit.key) (rest : Text) : l.Stops (u ++ rest) := by
  have hletter : ∀ u ∈ NumericUnit.suffixes.map NumericUnit.key,
      u.head?.map isDigit = some false := by decide
  obtain ⟨c, hhead, hc⟩ := Option.map_eq_some_iff.1 (hletter u hu)
  obtain ⟨t, rfl⟩ := List.head?_eq_some_iff.1 hhead
  intro d hd
  obtain rfl := Option.some.inj hd
  exact .inr ⟨hl, hc⟩

/-- A value is read where something follows that may follow. -/
theorem Accepts.mem_value {l : ValueLanguage} {v rest : Text} (hv : l.Accepts v)
    (hrest : l.Stops rest) : (v, rest) ∈ l.value (v ++ rest) := by
  have hblank : l.takesUnit = false → ∀ c ∈ rest.head?, isBlank c = true := by
    intro hl c hc
    rcases hrest c hc with h | ⟨h, -⟩
    · exact h
    · rw [hl] at h
      cases h
  have hdigit : ∀ c ∈ rest.head?, isDigit c = false := by
    intro c hc
    rcases hrest c hc with h | ⟨-, h⟩
    · exact not_isDigit_of_isBlank h
    · exact h
  cases hv with
  | keyword hw => exact Reader.mem_oneOf.2 ⟨List.mem_map_of_mem hw, rfl⟩
  | identifier hne hall =>
    exact Reader.mem_run_append hne hall fun c hc => not_isIdentifier_of_isBlank (hblank rfl c hc)
  | @unsigned signed _ hnumber =>
    refine List.mem_append_left _ ?_
    have hread := mem_unsignedNumber_append hnumber hdigit
    cases signed with
    | false => exact hread
    | true =>
      have hne : (v ++ rest).head? ≠ some '-' := by
        obtain ⟨d, t, rfl, hd⟩ := hnumber.exists_digit
        intro hhyphen
        obtain rfl := Option.some.inj hhyphen
        exact absurd hd (by decide)
      rw [if_pos rfl, signedNumber_of_ne hne]
      exact hread
  | @negative v hnumber =>
    refine List.mem_append_left _ ?_
    rw [if_pos rfl, List.cons_append, signedNumber]
    exact List.mem_map.2 ⟨(v, rest), mem_unsignedNumber_append hnumber hdigit, rfl⟩
  | reserved hword => exact List.mem_append_right _ (Reader.mem_oneOf.2 ⟨hword, rfl⟩)
  | hexadecimal hhex =>
    refine List.mem_append_left _ (List.mem_filter.2 ⟨?_, hhex⟩)
    simp only [isHexColor, Bool.and_eq_true, decide_eq_true_eq] at hhex
    refine Reader.mem_run_append ?_ (List.all_eq_true.1 hhex.2) fun c hc => ?_
    · rintro rfl
      exact absurd hhex.1.1 (by decide)
    · exact not_isHexDigit_of_isBlank (hblank rfl c hc)
  | colorName hne hall =>
    refine List.mem_append_right _ (Reader.mem_run_append hne hall fun c hc => ?_)
    exact not_isLower_of_isBlank (hblank rfl c hc)

theorem mem_unit {l : ValueLanguage} {s rest : Text} {unit : Option Text} :
    (unit, rest) ∈ l.unit s ↔
      (∀ u ∈ unit, l.takesUnit = true ∧ u ∈ NumericUnit.suffixes.map NumericUnit.key) ∧
        s = unit.getD [] ++ rest := by
  unfold ValueLanguage.unit
  cases hl : l.takesUnit with
  | true => simp [Reader.mem_maybe_oneOf]
  | false =>
    cases unit with
    | none => simp [eq_comm]
    | some u => simp

end ValueLanguage

/-! ## Names -/

namespace ClassName

/-- What stands behind the key of a name, with `joint` before the pseudo-class. -/
def tail (name : ClassName) (joint : Text) : Text :=
  (if name.important then ['-', 'i'] else []) ++ (name.pseudo.elim [] (joint ++ ·) ++
    '-' :: (name.value ++ name.unit.getD []))

/-- The parts of a name one after the other, with `hyphen` before the key. -/
def written (name : ClassName) (hyphen joint : Text) : Text :=
  name.breakpoint.getD [] ++ (hyphen ++ (name.key ++ name.tail joint))

end ClassName

namespace Pattern

/-- The parts of a name of the pattern: each is in its table, and the value in the language of the
family. -/
structure HasParts (p : Pattern) (name : ClassName) : Prop where
  breakpoint : ∀ b ∈ name.breakpoint, b ∈ Breakpoint.all.map Breakpoint.key
  key : name.key ∈ p.keys
  pseudo : ∀ k ∈ name.pseudo, k ∈ PseudoClass.all.map PseudoClass.key
  value : p.family.language.Accepts name.value
  unit : ∀ u ∈ name.unit, p.family.language.takesUnit = true ∧
    u ∈ NumericUnit.suffixes.map NumericUnit.key

/-- Whether a text is a spelling of a name of the pattern: its parts one after the other, with or
without a hyphen before the key, and with one or two low lines before the pseudo-class. -/
structure Spells (p : Pattern) (name : ClassName) (t : Text) : Prop extends p.HasParts name where
  text : name.text = t
  written : ∃ hyphen ∈ [[], ['-']], ∃ joint ∈ [['_', '_'], ['_']], t = name.written hyphen joint

theorem mem_lead {s rest : Text} {breakpoint : Option Text} :
    (breakpoint, rest) ∈ lead s ↔
      (∀ b ∈ breakpoint, b ∈ Breakpoint.all.map Breakpoint.key) ∧
        ∃ hyphen ∈ [[], ['-']], s = breakpoint.getD [] ++ (hyphen ++ rest) := by
  simp only [lead, List.mem_flatMap, List.mem_map, Prod.exists, Prod.mk.injEq,
    Reader.mem_maybe_oneOf]
  constructor
  · rintro ⟨b, t, ⟨hb, rfl⟩, hyphen, r, ⟨hhyphen, rfl⟩, rfl, rfl⟩
    refine ⟨hb, hyphen.getD [], ?_, rfl⟩
    cases hyphen with
    | none => exact List.mem_cons_self
    | some h =>
      obtain rfl := List.mem_singleton.1 (hhyphen h rfl)
      exact List.mem_cons_of_mem _ List.mem_cons_self
  · rintro ⟨hb, hyphen, hhyphen, rfl⟩
    refine ⟨breakpoint, hyphen ++ rest, ⟨hb, rfl⟩, ?_⟩
    rw [List.mem_cons, List.mem_singleton] at hhyphen
    rcases hhyphen with rfl | rfl
    · exact ⟨none, rest, ⟨by simp, rfl⟩, rfl, rfl⟩
    · exact ⟨some ['-'], rest, ⟨by simp, rfl⟩, rfl, rfl⟩

theorem mem_importance {s rest : Text} {important : Bool} :
    (important, rest) ∈ importance s ↔ s = (if important then ['-', 'i'] else []) ++ rest := by
  simp only [importance, List.mem_map, Prod.exists, Prod.mk.injEq, Reader.mem_maybe_oneOf]
  constructor
  · rintro ⟨mark, t, ⟨hmark, rfl⟩, rfl, rfl⟩
    cases mark with
    | none => rfl
    | some m =>
      obtain rfl := List.mem_singleton.1 (hmark m rfl)
      rfl
  · rintro rfl
    cases important with
    | false => exact ⟨none, rest, ⟨by simp, rfl⟩, rfl, rfl⟩
    | true => exact ⟨some "-i", rest, ⟨by simp, rfl⟩, rfl, rfl⟩

theorem mem_pseudoClass {s rest : Text} {pseudo : Option Text} :
    (pseudo, rest) ∈ pseudoClass s ↔
      (∀ k ∈ pseudo, k ∈ PseudoClass.all.map PseudoClass.key) ∧
        ∃ joint ∈ [['_', '_'], ['_']], s = pseudo.elim [] (joint ++ ·) ++ rest := by
  simp only [pseudoClass, Reader.mem_maybe, List.mem_flatMap, Prod.exists, Reader.mem_oneOf]
  constructor
  · rintro (⟨k, rfl, joint, t, ⟨hjoint, rfl⟩, hk, rfl⟩ | ⟨rfl, rfl⟩)
    · exact ⟨by simpa using hk, joint, hjoint, by simp⟩
    · exact ⟨by simp, _, List.mem_cons_self, rfl⟩
  · rintro ⟨hk, joint, hjoint, rfl⟩
    cases pseudo with
    | none => exact .inr ⟨rfl, rfl⟩
    | some k => exact .inl ⟨k, rfl, joint, k ++ rest, ⟨hjoint, by simp⟩, hk k rfl, rfl⟩

/-- The parts of a name in front of its end are all of what was read. -/
theorem take_written {t s : Text} {b : Char} {rest : Text} (h : s = t ++ b :: rest) :
    s.take (s.length - (b :: rest).length) = t := by
  subst h
  rw [List.length_append, Nat.add_sub_cancel, List.take_left]

/-- The readings of a text are the names that are written at its front, up to a blank. -/
theorem mem_readings_iff_written {p : Pattern} {s rest : Text} {name : ClassName} :
    (name, rest) ∈ p.readings s ↔ p.HasParts name ∧
      ∃ hyphen ∈ [[], ['-']], ∃ joint ∈ [['_', '_'], ['_']], ∃ b, isBlank b = true ∧
        s = name.written hyphen joint ++ b :: rest ∧
        name.text = trim (name.written hyphen joint) := by
  simp only [readings, List.mem_flatMap, List.mem_map, Prod.exists]
  constructor
  · rintro ⟨breakpoint, s₁, h₁, key, s₂, h₂, important, s₃, h₃, pseudo, s₄, h₄, mark, s₅, h₅,
      value, s₆, h₆, unit, s₇, h₇, stop, left, h₈, h⟩
    obtain ⟨rfl, rfl⟩ := Prod.mk.inj h
    obtain ⟨hbreakpoint, hyphen, hhyphen, hs⟩ := mem_lead.1 h₁
    obtain ⟨hkey, hs₁⟩ := Reader.mem_oneOf.1 h₂
    have hs₂ := mem_importance.1 h₃
    obtain ⟨hpseudo, joint, hjoint, hs₃⟩ := mem_pseudoClass.1 h₄
    obtain ⟨hmark, hs₄⟩ := Reader.mem_oneOf.1 h₅
    have hs₅ := ValueLanguage.eq_append_of_mem_value h₆
    obtain ⟨hunit, hs₆⟩ := ValueLanguage.mem_unit.1 h₇
    obtain ⟨b, hb, hs₇⟩ := Reader.mem_blank.1 h₈
    obtain rfl := List.mem_singleton.1 hmark
    have hwritten : s = ClassName.written ⟨trim (s.take (s.length - s₇.length)), breakpoint, key,
        important, pseudo, value, unit⟩ hyphen joint ++ b :: left := by
      simp [ClassName.written, ClassName.tail, hs, hs₁, hs₂, hs₃, hs₄, hs₅, hs₆, hs₇]
    refine ⟨⟨hbreakpoint, hkey, hpseudo, ValueLanguage.accepts_of_mem_value h₆, hunit⟩, hyphen,
      hhyphen, joint, hjoint, b, hb, hwritten, ?_⟩
    simp only [hs₇]
    rw [take_written hwritten]
    rfl
  · rintro ⟨hparts, hyphen, hhyphen, joint, hjoint, b, hb, hs, htext⟩
    obtain ⟨text, breakpoint, key, important, pseudo, value, unit⟩ := name
    have hstop : p.family.language.Stops (unit.getD [] ++ b :: rest) := by
      cases unit with
      | none => exact fun c hc => .inl (Option.some.inj hc ▸ hb)
      | some u =>
        obtain ⟨hl, hu⟩ := hparts.unit u rfl
        exact ValueLanguage.stops_unit hl hu _
    refine ⟨breakpoint, _, mem_lead.2 ⟨hparts.breakpoint, hyphen, hhyphen, ?_⟩, key, _,
      Reader.mem_oneOf.2 ⟨hparts.key, rfl⟩, important, _, mem_importance.2 rfl, pseudo, _,
      mem_pseudoClass.2 ⟨hparts.pseudo, joint, hjoint, rfl⟩, ['-'], _,
      Reader.mem_oneOf.2 ⟨List.mem_singleton_self _, rfl⟩, value, _, hparts.value.mem_value hstop,
      unit, _, ValueLanguage.mem_unit.2 ⟨hparts.unit, rfl⟩, (), rest,
      Reader.mem_blank.2 ⟨b, hb, rfl⟩, ?_⟩
    · simp [hs, ClassName.written, ClassName.tail]
    · rw [take_written hs, ← htext]

/-- No blank stands in a name of the pattern if none stands in the keys. -/
theorem HasParts.isUnbroken_written {p : Pattern} {name : ClassName} (h : p.HasParts name)
    (hkeys : ∀ k ∈ p.keys, isUnbroken k = true) {hyphen joint : Text}
    (hhyphen : hyphen ∈ [[], ['-']]) (hjoint : joint ∈ [['_', '_'], ['_']]) :
    isUnbroken (name.written hyphen joint) = true := by
  have hbreakpoint : isUnbroken (name.breakpoint.getD []) = true :=
    isUnbroken_getD (by decide) h.breakpoint
  have hpseudo : isUnbroken (name.pseudo.elim [] (joint ++ ·)) = true := by
    cases hp : name.pseudo with
    | none => rfl
    | some k =>
      refine isUnbroken_append.2 ⟨?_, ?_⟩
      · exact (by decide : ∀ j ∈ [['_', '_'], ['_']], isUnbroken j = true) joint hjoint
      · exact (by decide : ∀ k ∈ PseudoClass.all.map PseudoClass.key, isUnbroken k = true) k
          (h.pseudo k hp)
  have hunit : isUnbroken (name.unit.getD []) = true :=
    isUnbroken_getD (by decide) fun u hu => (h.unit u hu).2
  have hmark : isUnbroken (if name.important then ['-', 'i'] else []) = true := by
    split <;> decide
  have hyphenated : isUnbroken hyphen = true :=
    (by decide : ∀ j ∈ [[], ['-']], isUnbroken j = true) hyphen hhyphen
  simp only [ClassName.written, ClassName.tail, isUnbroken_append, isUnbroken_cons]
  exact ⟨hbreakpoint, hyphenated, hkeys _ h.key, hmark, hpseudo, by decide, h.value.isUnbroken,
    hunit⟩

/-- The readings of a name are its spellings. -/
theorem mem_readings_iff {p : Pattern} (hkeys : ∀ k ∈ p.keys, isUnbroken k = true) {t u rest : Text}
    (ht : isUnbroken t = true) {b : Char} (hb : isBlank b = true) {name : ClassName} :
    (name, rest) ∈ p.readings (t ++ b :: u) ↔ rest = u ∧ p.Spells name t := by
  rw [mem_readings_iff_written]
  constructor
  · rintro ⟨hparts, hyphen, hhyphen, joint, hjoint, b', hb', hs, htext⟩
    have hunbroken := hparts.isUnbroken_written hkeys hhyphen hjoint
    obtain ⟨rfl, rfl⟩ := append_blank_inj ht hunbroken hb hb' hs
    rw [trim_of_isUnbroken hunbroken] at htext
    exact ⟨rfl, hparts, htext, hyphen, hhyphen, joint, hjoint, rfl⟩
  · rintro ⟨rfl, hparts, htext, hyphen, hhyphen, joint, hjoint, rfl⟩
    refine ⟨hparts, hyphen, hhyphen, joint, hjoint, b, hb, rfl, ?_⟩
    rw [trim_of_isUnbroken ht, htext]

/-- A name is no empty text. -/
theorem written_ne_nil (name : ClassName) (hyphen joint : Text) : name.written hyphen joint ≠ [] := by
  simp [ClassName.written, ClassName.tail]

end Pattern

end UtilitySheet
