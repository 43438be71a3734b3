import Mathlib.Data.List.TakeWhile
import UtilitySheet.ClassName

/-!
# What the readers of class names read

A reader takes something off the front of a text and leaves an end of it. Main statement
(`Pattern.mem_scan`): a name that a pattern finds in a text has one of the keys of the pattern and a
value of its language, and the value is a stretch of the text.
-/

namespace UtilitySheet

/-! ## Matches -/

/-- Every match was read at some place of the text. -/
theorem Text.exists_suffix_of_mem_matchesFrom {α : Type} {read : Text → Option (α × Nat)} {a : α} :
    ∀ {s : Text} {skip : Nat}, a ∈ matchesFrom read skip s →
      ∃ t n, t <:+ s ∧ read t = some (a, n)
  | [], _, h => by simp [matchesFrom] at h
  | c :: s, skip + 1, h => by
    rw [matchesFrom] at h
    obtain ⟨t, n, ht, hread⟩ := exists_suffix_of_mem_matchesFrom h
    exact ⟨t, n, ht.trans (List.suffix_cons c s), hread⟩
  | c :: s, 0, h => by
    simp only [matchesFrom] at h
    split at h
    · rename_i b n hread
      rcases List.mem_cons.1 h with rfl | h
      · exact ⟨c :: s, n, List.suffix_rfl, hread⟩
      · obtain ⟨t, m, ht, hread⟩ := exists_suffix_of_mem_matchesFrom h
        exact ⟨t, m, ht.trans (List.suffix_cons c s), hread⟩
    · obtain ⟨t, n, ht, hread⟩ := exists_suffix_of_mem_matchesFrom h
      exact ⟨t, n, ht.trans (List.suffix_cons c s), hread⟩

/-! ## Readers -/

namespace Reader

variable {α β : Type}

theorem mem_oneOf {texts : List Text} {s a rest : Text} :
    (a, rest) ∈ oneOf texts s ↔ a ∈ texts ∧ s = a ++ rest := by
  simp only [oneOf, List.mem_filterMap, Option.map_eq_some_iff, Text.after?_eq_some_iff,
    Prod.mk.injEq]
  constructor
  · rintro ⟨t, ht, r, rfl, rfl, rfl⟩
    exact ⟨ht, rfl⟩
  · rintro ⟨ha, rfl⟩
    exact ⟨a, ha, rest, rfl, rfl, rfl⟩

theorem mem_maybe {r : Reader α} {s rest : Text} {a : Option α} :
    (a, rest) ∈ maybe r s ↔ (∃ b, a = some b ∧ (b, rest) ∈ r s) ∨ a = none ∧ rest = s := by
  simp only [maybe, List.mem_append, List.mem_map, List.mem_singleton, Prod.mk.injEq]
  constructor
  · rintro (⟨⟨b, t⟩, hb, rfl, rfl⟩ | h)
    · exact .inl ⟨b, rfl, hb⟩
    · exact .inr h
  · rintro (⟨b, rfl, hb⟩ | h)
    · exact .inl ⟨(b, rest), hb, rfl, rfl⟩
    · exact .inr h

theorem mem_run {p : Char → Bool} {s a rest : Text} :
    (a, rest) ∈ run p s ↔ a ≠ [] ∧ a = s.takeWhile p ∧ rest = s.dropWhile p := by
  unfold run
  split
  · rename_i h
    rw [List.isEmpty_iff] at h
    simp only [List.not_mem_nil, false_iff, not_and]
    rintro ha rfl
    exact absurd h ha
  · rename_i h
    rw [List.isEmpty_iff] at h
    simp only [List.mem_singleton, Prod.mk.injEq]
    exact ⟨fun ⟨ha, hr⟩ => ⟨ha ▸ h, ha, hr⟩, fun ⟨_, ha, hr⟩ => ⟨ha, hr⟩⟩

/-- What is read stands in front of what is left. -/
theorem eq_append_of_mem_run {p : Char → Bool} {s a rest : Text} (h : (a, rest) ∈ run p s) :
    s = a ++ rest := by
  obtain ⟨-, rfl, rfl⟩ := mem_run.1 h
  exact List.takeWhile_append_dropWhile.symm

theorem of_mem_run {p : Char → Bool} {s a rest : Text} (h : (a, rest) ∈ run p s) :
    ∀ c ∈ a, p c = true := by
  obtain ⟨-, rfl, -⟩ := mem_run.1 h
  exact fun c hc => List.mem_takeWhile_imp hc

/-- A reader leaves an end of its text. -/
def Shrinks (r : Reader α) : Prop := ∀ s a rest, (a, rest) ∈ r s → rest <:+ s

theorem shrinks_oneOf (texts : List Text) : Shrinks (oneOf texts) := fun s a rest h => by
  obtain ⟨-, rfl⟩ := mem_oneOf.1 h
  exact List.suffix_append a rest

theorem Shrinks.maybe {r : Reader α} (h : Shrinks r) : Shrinks (maybe r) := fun s a rest ha => by
  rcases mem_maybe.1 ha with ⟨b, -, hb⟩ | ⟨-, rfl⟩
  · exact h s b rest hb
  · exact List.suffix_rfl

theorem Shrinks.flatMap {r : Reader α} {f : α → Reader β} (hr : Shrinks r)
    (hf : ∀ a, Shrinks (f a)) : Shrinks fun s => (r s).flatMap fun (a, t) => f a t :=
  fun s b rest hb => by
    obtain ⟨⟨a, t⟩, ha, hb⟩ := List.mem_flatMap.1 hb
    exact (hf a t b rest hb).trans (hr s a t ha)

theorem Shrinks.map {r : Reader α} (f : α → β) (hr : Shrinks r) :
    Shrinks fun s => (r s).map fun (a, t) => (f a, t) := fun s b rest hb => by
  obtain ⟨⟨a, t⟩, ha, hb⟩ := List.mem_map.1 hb
  obtain ⟨-, rfl⟩ := Prod.mk.inj hb
  exact hr s a t ha

end Reader

/-! ## Values -/

/-- A character that a number in a class name can hold. -/
def IsNumberChar (c : Char) : Prop := c = '-' ∨ c = '_' ∨ Text.isDigit c = true

theorem mem_unsignedNumber {s v rest : Text} (h : (v, rest) ∈ unsignedNumber s) :
    s = v ++ rest ∧ ∀ c ∈ v, IsNumberChar c := by
  unfold unsignedNumber at h
  obtain ⟨⟨digits, t⟩, hdigits, h⟩ := List.mem_flatMap.1 h
  have hs := Reader.eq_append_of_mem_run hdigits
  have hall := Reader.of_mem_run hdigits
  have hwhole : (v, rest) = (digits, t) → s = v ++ rest ∧ ∀ c ∈ v, IsNumberChar c := by
    intro heq
    obtain ⟨rfl, rfl⟩ := Prod.mk.inj heq
    exact ⟨hs, fun c hc => .inr (.inr (hall c hc))⟩
  simp only at h
  split at h
  · rename_i t' hne
    rcases List.mem_append.1 h with h | h
    · obtain ⟨⟨decimals, left⟩, hdecimals, h⟩ := List.mem_map.1 h
      obtain ⟨rfl, rfl⟩ := Prod.mk.inj h
      have ht := Reader.eq_append_of_mem_run hdecimals
      have hall' := Reader.of_mem_run hdecimals
      refine ⟨by simp [hs, ht], fun c hc => ?_⟩
      simp only [List.mem_append, List.mem_cons] at hc
      rcases hc with hc | rfl | hc
      · exact .inr (.inr (hall c hc))
      · exact .inr (.inl rfl)
      · exact .inr (.inr (hall' c hc))
    · exact hwhole (List.mem_singleton.1 h)
  · exact hwhole (List.mem_singleton.1 h)

theorem mem_signedNumber {s v rest : Text} (h : (v, rest) ∈ signedNumber s) :
    s = v ++ rest ∧ ∀ c ∈ v, IsNumberChar c := by
  unfold signedNumber at h
  split at h
  · obtain ⟨⟨number, t⟩, hnumber, h⟩ := List.mem_map.1 h
    obtain ⟨rfl, rfl⟩ := Prod.mk.inj h
    obtain ⟨rfl, hall⟩ := mem_unsignedNumber hnumber
    refine ⟨rfl, fun c hc => ?_⟩
    rcases List.mem_cons.1 hc with rfl | hc
    · exact .inl rfl
    · exact hall c hc
  · exact mem_unsignedNumber h

namespace ValueLanguage

/-- A value stands in front of what it leaves. -/
theorem eq_append_of_mem_value {l : ValueLanguage} {s v rest : Text} (h : (v, rest) ∈ l.value s) :
    s = v ++ rest := by
  cases l with
  | keywords ws => exact (Reader.mem_oneOf.1 h).2
  | identifier => exact Reader.eq_append_of_mem_run h
  | numeric signed =>
    rcases List.mem_append.1 h with h | h
    · cases signed with
      | false => exact (mem_unsignedNumber h).1
      | true => exact (mem_signedNumber h).1
    · exact (Reader.mem_oneOf.1 h).2
  | color =>
    rcases List.mem_append.1 h with h | h
    · exact Reader.eq_append_of_mem_run (List.mem_filter.1 h).1
    · exact Reader.eq_append_of_mem_run h

/-- A value of a language of numbers is a reserved word or a number. -/
theorem reserved_or_number {l : ValueLanguage} {s v rest : Text} (hl : l.takesUnit = true)
    (h : (v, rest) ∈ l.value s) : v ∈ reservedValues ∨ ∀ c ∈ v, IsNumberChar c := by
  cases l with
  | numeric signed =>
    rcases List.mem_append.1 h with h | h
    · cases signed with
      | false => exact .inr (mem_unsignedNumber h).2
      | true => exact .inr (mem_signedNumber h).2
    · exact .inl (Reader.mem_oneOf.1 h).1
  | keywords ws => cases hl
  | identifier => cases hl
  | color => cases hl

end ValueLanguage

/-! ## Names -/

namespace Pattern

theorem shrinks_lead : Reader.Shrinks lead :=
  (Reader.shrinks_oneOf (Breakpoint.all.map Breakpoint.key)).maybe.flatMap fun breakpoint =>
    (Reader.shrinks_oneOf ["-"]).maybe.map fun _ => breakpoint

theorem shrinks_importance : Reader.Shrinks importance :=
  (Reader.shrinks_oneOf ["-i"]).maybe.map Option.isSome

theorem shrinks_pseudoClass : Reader.Shrinks pseudoClass :=
  ((Reader.shrinks_oneOf _).flatMap fun _ => Reader.shrinks_oneOf _).maybe

/-- A reading has a key of the pattern and a value that the text holds. -/
theorem mem_readings {p : Pattern} {s rest : Text} {name : ClassName}
    (h : (name, rest) ∈ p.readings s) :
    name.key ∈ p.keys ∧ ∃ t left, t <:+ s ∧ (name.value, left) ∈ p.family.language.value t := by
  simp only [readings, List.mem_flatMap, List.mem_map, Prod.exists] at h
  obtain ⟨breakpoint, s₁, h₁, key, s₂, h₂, important, s₃, h₃, pseudo, s₄, h₄, hyphen, s₅, h₅,
    value, s₆, h₆, unit, s₇, h₇, -, left, h₈, h⟩ := h
  obtain ⟨rfl, rfl⟩ := Prod.mk.inj h
  refine ⟨(Reader.mem_oneOf.1 h₂).1, s₅, s₆, ?_, h₆⟩
  have h₃₅ : s₅ <:+ s₃ :=
    (Reader.shrinks_oneOf ["-"] s₄ _ s₅ h₅).trans (shrinks_pseudoClass s₃ _ s₄ h₄)
  have h₁₃ : s₃ <:+ s₁ :=
    (shrinks_importance s₂ _ s₃ h₃).trans (Reader.shrinks_oneOf p.keys s₁ _ s₂ h₂)
  exact (h₃₅.trans h₁₃).trans (shrinks_lead s _ s₁ h₁)

/-- A name that is found in a text is the reading of a part of it. -/
theorem exists_reading_of_mem_scan {p : Pattern} {s : Text} {name : ClassName}
    (h : name ∈ p.scan s) : ∃ t rest, t <:+ s ∧ (name, rest) ∈ p.readings t := by
  obtain ⟨t, n, ht, hread⟩ := Text.exists_suffix_of_mem_matchesFrom h
  unfold read at hread
  split at hread
  · cases hread
  · rename_i c t
    split at hread
    · obtain ⟨⟨name', rest⟩, hhead, heq⟩ := Option.map_eq_some_iff.1 hread
      obtain ⟨rfl, -⟩ := Prod.mk.inj heq
      exact ⟨t, rest, (List.suffix_cons c t).trans ht, List.mem_of_mem_head? hhead⟩
    · cases hread

/-- A name that is found in a text has a key of the pattern and a value that the text holds. -/
theorem mem_scan {p : Pattern} {s : Text} {name : ClassName} (h : name ∈ p.scan s) :
    name.key ∈ p.keys ∧ ∃ t left, t <:+ s ∧ (name.value, left) ∈ p.family.language.value t := by
  obtain ⟨t, rest, ht, hreading⟩ := exists_reading_of_mem_scan h
  obtain ⟨hkey, u, left, hu, hvalue⟩ := mem_readings hreading
  exact ⟨hkey, u, left, hu.trans ht, hvalue⟩

end Pattern

/-- The names with blanks around them are made of their own characters and of spaces. -/
theorem mem_spaced {names : List Text} {c : Char} (h : c ∈ spaced names) :
    c = ' ' ∨ ∃ name ∈ names, c ∈ name := by
  have hspace : c ∈ (" " : Text) → c = ' ' := by simp
  have hjoin : ∀ {names : List Text}, c ∈ [' ', ' '].intercalate names →
      c = ' ' ∨ ∃ name ∈ names, c ∈ name := by
    intro names
    induction names with
    | nil => simp [List.intercalate]
    | cons name names ih =>
      cases names with
      | nil => exact fun h => .inr ⟨name, by simp, by simpa [List.intercalate] using h⟩
      | cons next names =>
        intro h
        rw [List.intercalate_cons_cons] at h
        simp only [List.mem_append, List.mem_cons, List.not_mem_nil, or_false, or_self] at h
        rcases h with (h | h) | h
        · exact .inr ⟨name, by simp, h⟩
        · exact .inl h
        · rcases ih h with h | ⟨n, hn, h⟩
          · exact .inl h
          · exact .inr ⟨n, by simp [hn], h⟩
  simp only [spaced, List.mem_append] at h
  rcases h with (h | h) | h
  · exact .inl (hspace h)
  · exact hjoin h
  · exact .inl (hspace h)

end UtilitySheet
