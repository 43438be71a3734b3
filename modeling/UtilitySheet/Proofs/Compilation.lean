import Mathlib.Data.List.TakeDrop
import UtilitySheet.Proofs.ClassTable
import UtilitySheet.Proofs.DecimalPoint
import UtilitySheet.Proofs.Markup

/-!
# When a compilation goes through

The only step that can end a compilation is placing a decimal point. Main statement
(`compile_collectAll_iff`): the class names of documents compile exactly if in each reading that
asks for a point the point fits, and it fits everywhere if the documents hold no digits outside
ASCII and no precision is set beyond the widest number.
-/

namespace UtilitySheet

namespace Resolution

variable {α β : Type}

theorem exists_collect_iff {rs : List (Resolution α)} :
    (∃ as, collect rs = .ok as) ↔ ∀ r ∈ rs, ∀ e, r ≠ .failed e := by
  induction rs with
  | nil => simp [collect]
  | cons r rs ih =>
    cases r with
    | emitted a =>
      simp only [collect, List.forall_mem_cons, reduceCtorEq, ne_eq, not_false_eq_true,
        implies_true, true_and, ← ih]
      cases collect rs <;> simp [Except.map]
    | skipped reason => simpa [collect] using ih
    | failed e => simp [collect]

theorem bind_eq_failed {r : Resolution α} {f : α → Resolution β} {e : PointError} :
    r.bind f = .failed e ↔ r = .failed e ∨ ∃ a, r = .emitted a ∧ f a = .failed e := by
  cases r <;> simp [bind]

end Resolution

namespace Matcher

/-- Whether a class name asks for no point, or for one that fits: a name of a class in a numeric
unit whose value is neither a reserved word nor spelled with a low line gets its point from the
precision of the class, or else of the unit. -/
def PointFits (m : Matcher) (name : ClassName) : Prop :=
  ∀ d default unit, m.classes.find? name.key = some d → d.unit = .numeric default →
    effectiveUnit d default name = .emitted unit → name.value ∉ reservedValues →
    '_' ∉ name.value →
    Numeral.PointFits name.value (d.precision.getD (m.precisions.of unit))

theorem effectiveUnit_ne_failed (d : ClassDef) (default : NumericUnit) (name : ClassName)
    (e : PointError) : effectiveUnit d default name ≠ .failed e := by
  unfold effectiveUnit
  grind

/-- A text is split at its first low line, if there is one. -/
theorem span_low_line (s : Text) :
    '_' ∉ s ∧ s.span (· != '_') = (s, []) ∨
      '_' ∈ s ∧ ∃ whole decimals, s.span (· != '_') = (whole, '_' :: decimals) := by
  rw [List.span_eq_takeWhile_dropWhile]
  by_cases h : '_' ∈ s
  · refine .inr ⟨h, s.takeWhile (· != '_'), (s.dropWhile (· != '_')).tail, ?_⟩
    have hne : s.dropWhile (· != '_') ≠ [] := by
      simpa [List.dropWhile_eq_nil_iff] using h
    have hhead := List.head_dropWhile_not (· != '_') hne
    rw [← List.cons_head_tail hne]
    simp_all
  · refine .inl ⟨h, ?_⟩
    have hall : ∀ c ∈ s, (c != '_') = true := by
      intro c hc
      rw [bne_iff_ne]
      rintro rfl
      exact h hc
    rw [List.takeWhile_eq_self_iff.2 hall, List.dropWhile_eq_nil_iff.2 hall]

/-- A number fails exactly where its point does not fit. -/
theorem numericValue_fails_iff {precision : Nat} {unit : NumericUnit} {payload : Text} :
    (∃ e, numericValue precision unit payload = .failed e) ↔
      payload ∉ reservedValues ∧ '_' ∉ payload ∧ ¬ Numeral.PointFits payload precision := by
  rw [← Numeral.exists_place_iff]
  unfold numericValue
  by_cases hr : payload ∈ reservedValues
  · simp [hr]
  simp only [List.contains_eq_mem, hr, decide_false, Bool.false_eq_true, if_false]
  rcases span_low_line payload with ⟨hlow, hspan⟩ | ⟨hlow, whole, decimals, hspan⟩
  · simp only [hspan]
    cases Numeral.place payload precision <;> simp [hlow]
  · simp only [hspan, hlow]
    simp

/-- A reading fails exactly if it asks for a point that does not fit. -/
theorem resolve_fails_iff {m : Matcher} {name : ClassName} {f : Family} :
    (∃ e, m.resolve name f = .failed e) ↔ ¬ m.PointFits name := by
  have hclass : (∃ e, m.resolve name f = .failed e) ↔
      ∃ d, m.classes.find? name.key = some d ∧ ∃ e, m.value d name f = .failed e := by
    unfold resolve
    cases m.classes.find? name.key <;> simp [Resolution.bind_eq_failed]
  have hvalue : ∀ d, (∃ e, m.value d name f = .failed e) ↔
      ∃ default unit, d.unit = .numeric default ∧ effectiveUnit d default name = .emitted unit ∧
        ∃ e, numericValue (d.precision.getD (m.precisions.of unit)) unit name.value =
          .failed e := by
    intro d
    unfold value
    cases d.unit <;> simp [Resolution.bind_eq_failed, effectiveUnit_ne_failed]
    grind
  simp only [hclass, hvalue, numericValue_fails_iff, PointFits, not_forall]
  grind

/-- Class names compile exactly if the point fits in every reading. -/
theorem exists_compile_iff {m : Matcher} {names : List Text} :
    (∃ g, m.compile names = .ok g) ↔ ∀ reading ∈ m.tokenize names, m.PointFits reading.1 := by
  have hcompile : (∃ g, m.compile names = .ok g) ↔
      ∃ rules, Resolution.collect (m.resolutions names) = .ok rules := by
    unfold compile
    cases Resolution.collect (m.resolutions names) <;> simp [Except.map]
  rw [hcompile, Resolution.exists_collect_iff, resolutions, List.forall_mem_map]
  refine forall₂_congr fun reading _ => ?_
  rw [← not_iff_not, ← resolve_fails_iff (f := reading.2)]
  simp

/-- A number in a class name of which every decimal digit is in ASCII takes one byte a digit. -/
theorem utf8Size_of_number {c : Char} (hc : IsNumberChar c)
    (hascii : Text.isDigit c = true → c.isDigit = true) : c.utf8Size = 1 := by
  rcases hc with rfl | rfl | hc
  · rfl
  · rfl
  · exact Numeral.utf8Size_of_isDigit (hascii hc)

theorem mem_of_mem_splitSign {payload : Text} {c : Char} (h : c ∈ (Numeral.splitSign payload).2) :
    c ∈ payload := by
  unfold Numeral.splitSign at h
  split at h
  · exact List.mem_cons_of_mem _ h
  · exact h

end Matcher

namespace Compiler

/-- A reading is one of a class of its own key, and its value is a stretch of the names. -/
theorem mem_tokenize {s : Settings} {names : List Text} {name : ClassName} {f : Family}
    (h : (name, f) ∈ (ofSettings s).tokenize names) :
    ∃ d ∈ (ofSettings s).classes.classes, d.key = name.key ∧ d.family = f ∧
      ∃ t left, t <:+ spaced names ∧ (name.value, left) ∈ f.language.value t := by
  obtain ⟨p, hp, hname⟩ := List.mem_flatMap.1 h
  obtain ⟨name', hname', heq⟩ := List.mem_map.1 hname
  obtain ⟨rfl, rfl⟩ := Prod.mk.inj heq
  have hp : p ∈ (ofSettings s).classes.patterns := hp
  obtain ⟨f, -, rfl⟩ := List.mem_map.1 (List.mem_of_mem_filter hp)
  obtain ⟨hkey, hvalue⟩ := Pattern.mem_scan hname'
  obtain ⟨d, hd, hdkey⟩ := List.mem_map.1 hkey
  obtain ⟨hd, hfamily⟩ := List.mem_filter.1 hd
  exact ⟨d, hd, hdkey, by simpa using hfamily, hvalue⟩

/-- Every precision of a compiler is small if all that are set are. -/
theorem precision_lt {s : Settings} {limit : Nat} (hlimit : 1 < limit)
    (hclasses : ∀ setting ∈ s.classes, ∀ n, setting.2.precision = some n → n < limit)
    (hunits : ∀ setting ∈ s.precisions, setting.2 < limit) {d : ClassDef}
    (hd : d ∈ (ofSettings s).classes.classes) (u : NumericUnit) :
    d.precision.getD ((ofSettings s).precisions.of u) < limit := by
  have hunit : ∀ u, (ofSettings s).precisions.of u < limit := by
    refine precisions_induction (P := fun t => ∀ u, t.of u < limit) (fun u => ?_)
      fun t unit setting hmem ht u => ?_
    · have : NumericUnit.defaultPrecision u ≤ 1 := by cases u <;> decide
      exact Nat.lt_of_le_of_lt this hlimit
    · by_cases hu : u = unit
      · subst hu
        rw [PrecisionTable.of_set_self]
        exact hunits setting hmem
      · rw [PrecisionTable.of_set_of_ne t _ hu]
        exact ht u
  have hclass : ∀ d ∈ (ofSettings s).classes.classes, ∀ n, d.precision = some n → n < limit := by
    refine classes_induction
      (P := fun t => ∀ d ∈ t.classes, ∀ n, d.precision = some n → n < limit) ?_ ?_
    · intro d hd n hn
      have hseeds : ∀ seed ∈ ClassTable.seeds, seed.precision = none ∨ seed.precision = some 0 := by
        decide
      obtain ⟨i, hi, rfl⟩ := List.mem_mapIdx.1 hd
      rcases hseeds _ (List.getElem_mem hi) with h | h
      · cases h.symm.trans hn
      · obtain rfl := Option.some.inj (h.symm.trans hn)
        omega
    · intro t t' b setting hmem ht happly d hd n hn
      obtain ⟨-, unit, -, -, -, rfl, -⟩ := ClassTable.apply_eq_ok.1 happly
      obtain ⟨e, he, rfl⟩ := List.mem_map.1 hd
      split at hn
      · simp only [ClassDef.revised] at hn
        split at hn
        · rcases Option.or_eq_some_iff.1 hn with h | ⟨-, h⟩
          · exact hclasses setting hmem n h
          · exact ht e he n h
        · exact ht e he n hn
      · exact ht e he n hn
  cases hp : d.precision with
  | none => exact hunit u
  | some n => exact hclass d hd n hp

/-- **The class names of documents compile exactly if the point fits in every reading that asks
for one.** It fits in all of them if every decimal digit of the documents is in ASCII and no
precision is set beyond the widest number. -/
theorem compile_collectAll_iff (s : Settings) (documents : List Text) :
    ((∃ g, (ofSettings s).compile (Markup.collectAll documents) = .ok g) ↔
      ∀ reading ∈ (ofSettings s).tokenize (Markup.collectAll documents),
        (ofSettings s).PointFits reading.1) ∧
    ((∀ d ∈ documents, ∀ c ∈ d, Text.isDigit c = true → c.isDigit = true) →
      (∀ setting ∈ s.classes, ∀ n, setting.2.precision = some n → n < Numeral.widest) →
      (∀ setting ∈ s.precisions, setting.2 < Numeral.widest) →
      ∃ g, (ofSettings s).compile (Markup.collectAll documents) = .ok g) := by
  refine ⟨Matcher.exists_compile_iff, fun hascii hclasses hunits => ?_⟩
  refine Matcher.exists_compile_iff.2 fun ⟨name, f⟩ hreading => ?_
  intro d default unit hfind hnumeric _ hreserved _
  obtain ⟨e, he, hkey, hfamily, t, left, ht, hvalue⟩ := mem_tokenize hreading
  -- The class that the key was read for is the one that it is resolved against.
  have hsound := sound_classes s
  obtain rfl : e = d := by
    have := hsound.find?_key he
    rw [hkey, hfind] at this
    exact (Option.some.inj this).symm
  have hlanguage := hsound.takesUnit he hnumeric
  rw [hfamily] at hlanguage
  have hnumber : ∀ c ∈ name.value, IsNumberChar c :=
    (ValueLanguage.reserved_or_number hlanguage hvalue).resolve_left hreserved
  refine Numeral.pointFits_of_narrow (precision_lt (by decide) hclasses hunits he unit)
    fun c hc => ?_
  have hc := Matcher.mem_of_mem_splitSign hc
  refine Matcher.utf8Size_of_number (hnumber c hc) fun hdigit => ?_
  have hspaced : c ∈ spaced (Markup.collectAll documents) := by
    refine ht.subset ?_
    rw [ValueLanguage.eq_append_of_mem_value hvalue]
    exact List.mem_append_left _ hc
  rcases mem_spaced hspaced with rfl | ⟨token, htoken, hmem⟩
  · exact absurd hdigit (by decide)
  · obtain ⟨document, hdocument, hsub⟩ := Markup.exists_document htoken
    exact hascii document hdocument c (hsub c hmem) hdigit

/-- Markup outside ASCII compiles if its digits are in ASCII, with a precision of its own. -/
theorem compile_collectAll_ascii_digits :
    ∃ g, (ofSettings { precisions := [("rem", 3)] }).compile
      (Markup.collectAll ["<p class='m-5 ff-ö'>"]) = .ok g := by
  have hascii : ("<p class='m-5 ff-ö'>" : Text).all (fun c => !Text.isDigit c || c.isDigit) := by
    decide
  refine (compile_collectAll_iff _ _).2 (fun d hd c hc hdigit => ?_) (by simp) (by decide)
  obtain rfl := List.mem_singleton.1 hd
  simpa [hdigit] using List.all_eq_true.1 hascii c hc

/-- A digit of two bytes in a unit of one decimal place, and a precision wider than any number: the
point can be placed in neither. -/
theorem compile_collectAll_fails :
    (∀ g, (ofSettings {}).compile (Markup.collectAll ["class='m-٣'"]) ≠ .ok g) ∧
    (∀ g, (ofSettings { precisions := [("rem", 65535)] }).compile
      (Markup.collectAll ["class='m-5'"]) ≠ .ok g) := by
  have hdigit : ((ofSettings {}).compile (Markup.collectAll ["class='m-٣'"])).toOption.isNone := by
    decide
  have hwide : ((ofSettings { precisions := [("rem", 65535)] }).compile
      (Markup.collectAll ["class='m-5'"])).toOption.isNone := by
    decide
  refine ⟨fun g hg => ?_, fun g hg => ?_⟩
  · rw [hg] at hdigit
    cases hdigit
  · rw [hg] at hwide
    cases hwide

end Compiler

end UtilitySheet
