import UtilitySheet.Proofs.Decimal
import UtilitySheet.Proofs.Emission

/-!
# Values that are numbers

A class name that holds a number gives a numeric class a decimal numeral and a unit symbol. Main
statements: a whole number is divided by the power of ten that the precision says
(`Matcher.resolve_whole`); the number that a name of a numeric family spells is shown with its unit
by every class that counts in a unit, while a class of keywords or colours takes it as a word, and
passes over a unit that is written (`Matcher.resolve_number`).
-/

namespace UtilitySheet

/-! ## The characters of a numeral -/

namespace Decimal

theorem mem_write {n : Decimal} {point c : Char} (h : c ∈ n.write point) :
    c = '-' ∨ c.isDigit = true ∨ n.decimals ≠ [] ∧ c = point := by
  simp only [write, List.mem_append] at h
  rcases h with h | h | h
  · split at h
    · exact .inl (List.mem_singleton.1 h)
    · cases h
  · exact .inr (.inl (n.isDigit_whole c h))
  · split at h
    · cases h
    · rename_i hdecimals
      rcases List.mem_cons.1 h with rfl | h
      · exact .inr (.inr ⟨hdecimals, rfl⟩)
      · exact .inr (.inl (n.isDigit_decimals c h))

theorem low_line_mem_write {n : Decimal} : '_' ∈ n.write '_' ↔ n.decimals ≠ [] := by
  constructor
  · intro h
    rcases mem_write h with h | h | ⟨h, -⟩
    · cases h
    · cases h
    · exact h
  · intro h
    simp [write, h]

/-- Every numeral holds a digit, and no reserved word does. -/
theorem write_notMem_reservedValues (n : Decimal) (point : Char) :
    n.write point ∉ reservedValues := by
  intro h
  obtain ⟨c, hc⟩ := List.exists_mem_of_ne_nil _ n.whole_ne_nil
  have hwords : reservedValues.all (fun word => word.all (!Char.isDigit ·)) = true := by decide
  have hletter := List.all_eq_true.1 (List.all_eq_true.1 hwords _ h) c (by simp [write, hc])
  rw [n.isDigit_whole c hc] at hletter
  cases hletter

/-- A numeral ends in a digit. -/
theorem exists_getLast?_write (n : Decimal) (point : Char) :
    ∃ c, (n.write point).getLast? = some c ∧ c.isDigit = true := by
  by_cases hn : n.decimals = []
  · refine ⟨n.whole.getLast n.whole_ne_nil, ?_, n.isDigit_whole _ (List.getLast_mem _)⟩
    simp [write, hn, List.getLast?_append, List.getLast?_eq_some_getLast n.whole_ne_nil]
  · refine ⟨n.decimals.getLast hn, ?_, n.isDigit_decimals _ (List.getLast_mem _)⟩
    have hwrite : n.write point =
        ((if n.negative then ['-'] else []) ++ n.whole ++ [point]) ++ n.decimals := by
      simp [write, hn]
    rw [hwrite, List.getLast?_append, List.getLast?_eq_some_getLast hn, Option.some_or]

/-- A numeral with decimals is cut at its first low line. -/
theorem span_write {n : Decimal} (hn : n.decimals ≠ []) :
    ∃ whole, (n.write '_').span (· != '_') = (whole, '_' :: n.decimals) ∧
      n.write '.' = whole ++ '.' :: n.decimals := by
  refine ⟨(if n.negative then ['-'] else []) ++ n.whole, ?_, by simp [write, hn]⟩
  have hfront : ∀ c ∈ (if n.negative then ['-'] else []) ++ n.whole, (c != '_') = true := by
    intro c hc
    rw [bne_iff_ne]
    rintro rfl
    rcases List.mem_append.1 hc with hc | hc
    · split at hc <;> simp at hc
    · exact absurd (n.isDigit_whole '_' hc) (by decide)
  have hwrite : n.write '_' =
      ((if n.negative then ['-'] else []) ++ n.whole) ++ '_' :: n.decimals := by
    simp [write, hn]
  obtain ⟨htake, hdrop⟩ := Text.takeWhile_append_stop hfront (t := '_' :: n.decimals) (by simp)
  rw [hwrite, List.span_eq_takeWhile_dropWhile, htake, hdrop]

end Decimal

namespace Matcher

/-! ## Numbers with units -/

theorem numericValue_of_decimals {n : Decimal} (hn : n.decimals ≠ []) (precision : Nat)
    (unit : NumericUnit) :
    numericValue precision unit (n.write '_') = .emitted (n.write '.' ++ unit.symbol) := by
  obtain ⟨whole, hspan, hwrite⟩ := Decimal.span_write hn
  have hreserved := n.write_notMem_reservedValues '_'
  simp only [numericValue, List.contains_eq_mem, hreserved, decide_false, Bool.false_eq_true,
    if_false, hspan]
  simp [hwrite]

theorem numericValue_of_place {n : Decimal} (hn : n.decimals = []) {precision : Nat}
    (unit : NumericUnit) {number : Text}
    (h : Numeral.place (n.write '_') precision = .ok number) :
    numericValue precision unit (n.write '_') = .emitted (number ++ unit.symbol) := by
  have hreserved := n.write_notMem_reservedValues '_'
  rcases span_low_line (n.write '_') with ⟨-, hspan⟩ | ⟨hlow, -⟩
  · simp only [numericValue, List.contains_eq_mem, hreserved, decide_false, Bool.false_eq_true,
      if_false, hspan, h]
  · exact absurd hn (Decimal.low_line_mem_write.1 hlow)

/-- What is emitted for a numeral is a numeral with the same digits and the symbol of the unit;
decimals that are written stay. -/
theorem exists_shown_of_numericValue {n : Decimal} {precision : Nat} {unit : NumericUnit}
    {value : Text} (h : numericValue precision unit (n.write '_') = .emitted value) :
    ∃ shown : Decimal, value = shown.write '.' ++ unit.symbol ∧ shown.unscaled = n.unscaled ∧
      (n.decimals = [] → shown.decimals.length = precision) ∧ (n.decimals ≠ [] → shown = n) := by
  by_cases hn : n.decimals = []
  · have hfits : ¬ ∃ e, numericValue precision unit (n.write '_') = .failed e := by
      rintro ⟨e, he⟩
      cases h.symm.trans he
    have hreserved := n.write_notMem_reservedValues '_'
    have hlow : '_' ∉ n.write '_' := fun hlow => Decimal.low_line_mem_write.1 hlow hn
    rw [numericValue_fails_iff, not_and, not_and, not_not] at hfits
    have hprecision : precision < Numeral.widest := by
      rcases hfits hreserved hlow with rfl | ⟨hplaces, -⟩
      · decide
      · exact hplaces
    obtain ⟨shown, hplace, hlength, hdigits⟩ := Decimal.exists_place hn '_' hprecision
    rw [numericValue_of_place hn unit hplace] at h
    exact ⟨shown, (Resolution.emitted.inj h).symm, hdigits, fun _ => hlength,
      fun hne => absurd hn hne⟩
  · rw [numericValue_of_decimals hn] at h
    exact ⟨n, (Resolution.emitted.inj h).symm, rfl, fun h => absurd h hn, fun _ => rfl⟩

/-! ## The unit of a name -/

/-- A name of a numeric class counts in the unit of the class, or in the one that it names if the
class lets its unit be chosen. -/
inductive CountsIn (d : ClassDef) (name : ClassName) : NumericUnit → Prop
  | own {unit : NumericUnit} (hclass : d.unit = .numeric unit) (hname : name.unit = none) :
    CountsIn d name unit
  | given {default unit : NumericUnit} {key : Text} (hclass : d.unit = .numeric default)
    (hname : name.unit = some key) (hkey : NumericUnit.named? key = some unit)
    (hshown : unit.symbol ≠ []) (haccepted : d.configurable = true) : CountsIn d name unit

theorem effectiveUnit_eq_emitted {d : ClassDef} {name : ClassName} {default unit : NumericUnit}
    (hclass : d.unit = .numeric default) :
    effectiveUnit d default name = .emitted unit ↔ CountsIn d name unit := by
  unfold effectiveUnit
  constructor
  · intro h
    split at h
    · rename_i hname
      obtain rfl := Resolution.emitted.inj h
      exact .own hclass hname
    · rename_i key hname
      split at h
      · rename_i given hkey
        split at h
        · cases h
        · split at h
          · rename_i hshown haccepted
            obtain rfl := Resolution.emitted.inj h
            exact .given hclass hname hkey (by simpa [NumericUnit.isSuffix] using hshown) haccepted
          · cases h
      · cases h
  · rintro (⟨hown, hname⟩ | ⟨-, hname, hkey, hshown, haccepted⟩)
    · obtain rfl := ValueUnit.numeric.inj (hclass.symm.trans hown)
      simp [hname]
    · simp [hname, hkey, NumericUnit.isSuffix, hshown, haccepted]

theorem value_eq_emitted_iff {m : Matcher} {d : ClassDef} {name : ClassName} {f : Family}
    {default : NumericUnit} (hclass : d.unit = .numeric default) {value : Text} :
    m.value d name f = .emitted value ↔ ∃ unit, CountsIn d name unit ∧
      numericValue (d.precision.getD (m.precisions.of unit)) unit name.value = .emitted value := by
  simp only [Matcher.value, hclass, Resolution.bind_eq_emitted, effectiveUnit_eq_emitted hclass]

/-! ## Whole numbers -/

/-- A name asks a class for a whole number, in the unit in which it counts. -/
structure AsksWhole (m : Matcher) (name : ClassName) (d : ClassDef) (unit : NumericUnit)
    (n : Decimal) : Prop where
  found : m.classes.find? name.key = some d
  countsIn : CountsIn d name unit
  spelled : name.value = n.write '_'
  whole : n.decimals = []

theorem CountsIn.exists_numeric {d : ClassDef} {name : ClassName} {unit : NumericUnit}
    (h : CountsIn d name unit) : ∃ default, d.unit = .numeric default := by
  cases h with
  | own hclass _ => exact ⟨_, hclass⟩
  | given hclass _ _ _ _ => exact ⟨_, hclass⟩

variable {m : Matcher} {name : ClassName} {d : ClassDef} {unit : NumericUnit} {n : Decimal}

theorem AsksWhole.exists_value (h : m.AsksWhole name d unit n) (f : Family)
    (hplaces : d.precision.getD (m.precisions.of unit) < Numeral.widest) :
    ∃ shown : Decimal, m.value d name f = .emitted (shown.write '.' ++ unit.symbol) ∧
      shown.decimals.length = d.precision.getD (m.precisions.of unit) ∧
      shown.unscaled = n.unscaled := by
  obtain ⟨default, hclass⟩ := h.countsIn.exists_numeric
  obtain ⟨shown, hplace, hlength, hdigits⟩ := Decimal.exists_place h.whole '_' hplaces
  refine ⟨shown, (value_eq_emitted_iff hclass).2 ⟨unit, h.countsIn, ?_⟩, hlength, hdigits⟩
  rw [h.spelled, numericValue_of_place h.whole unit hplace]

/-- **A whole number is divided by the power of ten that the precision says.** The precision is
that of the class, or else of the unit in which the name counts. The value is a numeral with so
many decimals and the symbol of the unit; for two names with as many decimals each, the numerals
are the same number exactly if the whole numbers are. -/
theorem resolve_whole (h : m.AsksWhole name d unit n) (f : Family) {places : Nat}
    (hprecision : d.precision.getD (m.precisions.of unit) = places) (hplaces : places ≤ 65534) :
    ∃ (shown : Decimal) (rule : Rule),
      m.value d name f = .emitted (shown.write '.' ++ unit.symbol) ∧
      m.resolve name f = .emitted rule ∧
      rule.declarations = (d.properties.map fun property =>
        ⟨property, shown.write '.' ++ unit.symbol, name.important⟩) ∧
      shown.decimals.length = places ∧ shown.value = n.unscaled / 10 ^ places ∧
      ∀ (name' : ClassName) (d' : ClassDef) (unit' : NumericUnit) (n' : Decimal) (f' : Family)
        (shown' : Decimal), m.AsksWhole name' d' unit' n' →
        d'.precision.getD (m.precisions.of unit') = places →
        m.value d' name' f' = .emitted (shown'.write '.' ++ unit'.symbol) →
        (shown'.value = shown.value ↔ n'.unscaled = n.unscaled) := by
  have hwidest : places < Numeral.widest := Nat.lt_succ_of_le hplaces
  subst hprecision
  obtain ⟨shown, hvalue, hlength, hdigits⟩ := h.exists_value f hwidest
  have hrule := resolve_eq_emitted.2 ⟨d, _, h.found, hvalue, rfl⟩
  refine ⟨shown, _, hvalue, hrule, rfl, hlength, ?_, ?_⟩
  · rw [Decimal.value, hdigits, hlength]
  · intro name' d' unit' n' f' shown' h' hprecision' hvalue'
    obtain ⟨shown'', hvalue'', hlength', hdigits'⟩ :=
      h'.exists_value f' (by rw [hprecision']; exact hwidest)
    -- A text is a numeral in one way, so the number that it shows is the one that was asked for.
    have htext := Resolution.emitted.inj (hvalue'.symm.trans hvalue'')
    obtain rfl : shown' = shown'' := Decimal.write_injective rfl (List.append_cancel_right htext)
    rw [Decimal.value_eq_iff (hlength'.trans (hprecision'.trans hlength.symm)), hdigits', hdigits]

/-- A margin of a whole number below zero, in a unit of three decimal places. -/
theorem resolve_whole_thousandths :
    ∃ d, (Compiler.ofSettings { precisions := [("rem", 3)] }).AsksWhole
        ⟨"m--15", none, "m", false, none, "-15", none⟩ d .rem
        ⟨true, "15", [], by decide, by decide⟩ ∧
      d.precision.getD
        ((Compiler.ofSettings { precisions := [("rem", 3)] }).precisions.of .rem) = 3 ∧
      ∃ shown : Decimal,
        (Compiler.ofSettings { precisions := [("rem", 3)] }).value d
          ⟨"m--15", none, "m", false, none, "-15", none⟩ .offset =
            .emitted (shown.write '.' ++ "rem") ∧
        shown.decimals.length = 3 ∧ shown.value = -15 / 1000 := by
  have hclass : ((Compiler.ofSettings { precisions := [("rem", 3)] }).classes.find? "m").map
      (fun d => (d.unit, d.precision)) = some (.numeric .rem, none) := by
    decide +kernel
  obtain ⟨d, hfind, hd⟩ := Option.map_eq_some_iff.1 hclass
  obtain ⟨hunit, hprecision⟩ := Prod.mk.inj hd
  have hasks : (Compiler.ofSettings { precisions := [("rem", 3)] }).AsksWhole
      ⟨"m--15", none, "m", false, none, "-15", none⟩ d .rem
      ⟨true, "15", [], by decide, by decide⟩ :=
    ⟨hfind, .own hunit rfl, rfl, rfl⟩
  have hplaces : d.precision.getD
      ((Compiler.ofSettings { precisions := [("rem", 3)] }).precisions.of .rem) = 3 := by
    rw [hprecision]
    rfl
  obtain ⟨shown, rule, hemitted, -, -, hlength, hvalue, -⟩ :=
    resolve_whole hasks .offset hplaces (by decide)
  refine ⟨d, hasks, hplaces, shown, hemitted, hlength, ?_⟩
  rw [hvalue]
  have hdigits : Decimal.unscaled ⟨true, "15", [], by decide, by decide⟩ = -15 := by decide
  rw [hdigits]
  norm_num

/-! ## Numbers as they are written -/

/-- What has to stand behind a number: the symbol of the unit that the name ends in, else of the
unit of the class, and nothing if that has none. -/
inductive SymbolFor (d : ClassDef) (name : ClassName) : Text → Prop
  | named {unit : NumericUnit} (hname : name.unit = some unit.key) : SymbolFor d name unit.symbol
  | own {unit : NumericUnit} (hname : name.unit = none) (hclass : d.unit = .numeric unit) :
    SymbolFor d name unit.symbol
  | bare (hname : name.unit = none) (hclass : ∀ unit, d.unit ≠ .numeric unit) :
    SymbolFor d name []

/-- A value shows the number that the name spells: a numeral with the same digits and the symbol
behind it. Decimals that are written stay where they are. -/
def ShowsNumber (d : ClassDef) (name : ClassName) (n : Decimal) (value : Text) : Prop :=
  ∃ (shown : Decimal) (symbol : Text), SymbolFor d name symbol ∧
    value = shown.write '.' ++ symbol ∧ shown.unscaled = n.unscaled ∧
    (n.decimals ≠ [] → shown = n)

/-- What a class without a unit makes of a word of a numeric family. -/
def wordValue (d : ClassDef) (word : Text) : Text :=
  if d.unit = .color ∧ isHexColor word = true then '#' :: word else word

theorem CountsIn.symbolFor (h : CountsIn d name unit)
    (hname : ∀ key ∈ name.unit, key ∈ NumericUnit.suffixes.map NumericUnit.key) :
    SymbolFor d name unit.symbol := by
  cases h with
  | own hclass hnone => exact .own hnone hclass
  | given _ hsome hkey _ _ =>
    have hkeys : ∀ key ∈ NumericUnit.suffixes.map NumericUnit.key,
        (NumericUnit.named? key).map NumericUnit.key = some key := by
      decide
    have hnamed := hkeys _ (hname _ hsome)
    rw [hkey] at hnamed
    exact .named (hsome.trans hnamed.symm)

/-- The symbol of a unit that a name may end in does not end in a digit. -/
theorem symbol_of_mem_suffixes (hkey : unit.key ∈ NumericUnit.suffixes.map NumericUnit.key) :
    ∃ c, unit.symbol.getLast? = some c ∧ c.isDigit = false := by
  have hlast : ∀ u ∈ NumericUnit.all, u.key ∈ NumericUnit.suffixes.map NumericUnit.key →
      u.symbol.getLast?.any (!Char.isDigit ·) = true := by
    decide
  have hall : unit ∈ NumericUnit.all := by cases unit <;> decide
  obtain ⟨c, hc, hdigit⟩ := (Option.any_eq_true _ _).1 (hlast unit hall hkey)
  exact ⟨c, hc, by simpa using hdigit⟩

/-- A word that spells a number ends in a digit, whatever a class makes of it. -/
theorem exists_getLast?_wordValue (d : ClassDef) (n : Decimal) :
    ∃ c, (wordValue d (n.write '_')).getLast? = some c ∧ c.isDigit = true := by
  obtain ⟨c, hc, hdigit⟩ := n.exists_getLast?_write '_'
  refine ⟨c, ?_, hdigit⟩
  unfold wordValue
  split
  · rw [List.getLast?_cons, hc, Option.getD_some]
  · exact hc

/-- A class without a unit shows a number exactly if none is written, the number has no decimals and
it is not taken for a colour. -/
theorem showsNumber_wordValue (hclass : ∀ unit, d.unit ≠ .numeric unit)
    (hsuffix : ∀ key ∈ name.unit, key ∈ NumericUnit.suffixes.map NumericUnit.key) :
    ShowsNumber d name n (wordValue d (n.write '_')) ↔
      name.unit = none ∧ n.decimals = [] ∧
        ¬ (d.unit = .color ∧ isHexColor (n.write '_') = true) := by
  constructor
  · rintro ⟨shown, symbol, hsymbol, hvalue, -, -⟩
    have hbare : name.unit = none ∧ symbol = [] := by
      cases hsymbol with
      | named hsome =>
        -- The value ends in a digit, the symbol does not.
        obtain ⟨c, hc, hletter⟩ := symbol_of_mem_suffixes (hsuffix _ hsome)
        obtain ⟨c', hc', hdigit⟩ := exists_getLast?_wordValue d n
        rw [hvalue, List.getLast?_append, hc, Option.some_or] at hc'
        obtain rfl := Option.some.inj hc'
        cases hletter.symm.trans hdigit
      | own _ hnumeric => exact absurd hnumeric (hclass _)
      | bare hname _ => exact ⟨hname, rfl⟩
    obtain ⟨hname, rfl⟩ := hbare
    rw [List.append_nil] at hvalue
    have hcolor : ¬ (d.unit = .color ∧ isHexColor (n.write '_') = true) := by
      intro hcolor
      rw [wordValue, if_pos hcolor] at hvalue
      have hsign : '#' ∈ shown.write '.' := by simp [← hvalue]
      rcases Decimal.mem_write hsign with h | h | ⟨-, h⟩ <;> cases h
    refine ⟨hname, ?_, hcolor⟩
    rw [wordValue, if_neg hcolor] at hvalue
    by_contra hdecimals
    have hlow : '_' ∈ shown.write '.' := by
      rw [← hvalue]
      exact Decimal.low_line_mem_write.2 hdecimals
    rcases Decimal.mem_write hlow with h | h | ⟨-, h⟩ <;> cases h
  · rintro ⟨hname, hdecimals, hcolor⟩
    refine ⟨n, [], .bare hname hclass, ?_, rfl, fun _ => rfl⟩
    rw [wordValue, if_neg hcolor]
    simp [Decimal.write, hdecimals]

/-- The unit of a reading is one that class names may end in. -/
theorem unit_of_mem_tokenize {names : List Text} {f : Family} (h : (name, f) ∈ m.tokenize names) :
    ∀ key ∈ name.unit, key ∈ NumericUnit.suffixes.map NumericUnit.key := by
  obtain ⟨p, -, hscan⟩ := List.mem_flatMap.1 h
  obtain ⟨name', hname', heq⟩ := List.mem_map.1 hscan
  obtain ⟨rfl, -⟩ := Prod.mk.inj heq
  obtain ⟨t, rest, -, hreading⟩ := Pattern.exists_reading_of_mem_scan hname'
  exact fun key hkey => ((Pattern.mem_readings_iff_written.1 hreading).1.unit key hkey).2

/-- **The number in a name is shown by every class that counts in a unit,** with the low line as
the point, and the symbol of the unit that is written or else of the class. A class of keywords or
colours takes the number as a word, and passes over a unit behind it: the word is shown as it is
spelled, a colour in hexadecimal digits behind a number sign. That is the number exactly if no unit
is written, and it has no decimals and is no such colour. -/
theorem resolve_number {names : List Text} {f : Family} {rule : Rule}
    (hreading : (name, f) ∈ m.tokenize names) (hfamily : f = .dimension ∨ f = .offset)
    (hspelled : name.value = n.write '_') (hrule : m.resolve name f = .emitted rule) :
    ∃ d value, m.classes.find? name.key = some d ∧
      rule.declarations =
        (d.properties.map fun property => ⟨property, value, name.important⟩) ∧
      ((∀ unit, d.unit ≠ .numeric unit) → value = wordValue d name.value) ∧
      (ShowsNumber d name n value ↔
        (∃ unit, d.unit = .numeric unit) ∨
          name.unit = none ∧ n.decimals = [] ∧
            ¬ (d.unit = .color ∧ isHexColor name.value = true)) := by
  obtain ⟨d, value, hfind, hvalue, rfl⟩ := resolve_eq_emitted.1 hrule
  have hsuffix := unit_of_mem_tokenize hreading
  have hword : (∀ unit, d.unit ≠ .numeric unit) → value = wordValue d name.value := by
    intro hclass
    have hmeaning : f.meaning? name.value = none := by
      rcases hfamily with rfl | rfl <;> rfl
    unfold Matcher.value at hvalue
    cases hunit : d.unit with
    | numeric unit => exact absurd hunit (hclass unit)
    | keyword =>
      simp only [hunit, hmeaning] at hvalue
      simp [wordValue, hunit, ← Resolution.emitted.inj hvalue]
    | color =>
      simp only [hunit] at hvalue
      simp [wordValue, hunit, ← Resolution.emitted.inj hvalue]
  refine ⟨d, value, hfind, rfl, hword, ?_⟩
  by_cases hnumeric : ∃ unit, d.unit = .numeric unit
  · refine iff_of_true ?_ (.inl hnumeric)
    obtain ⟨default, hclass⟩ := hnumeric
    obtain ⟨unit, hcounts, hnumber⟩ := (value_eq_emitted_iff hclass).1 hvalue
    rw [hspelled] at hnumber
    obtain ⟨shown, rfl, hdigits, -, hdecimals⟩ := exists_shown_of_numericValue hnumber
    exact ⟨shown, _, hcounts.symbolFor hsuffix, rfl, hdigits, hdecimals⟩
  · have hclass : ∀ unit, d.unit ≠ .numeric unit := fun unit hunit => hnumeric ⟨unit, hunit⟩
    rw [hword hclass, hspelled, showsNumber_wordValue hclass hsuffix, or_iff_right hnumeric]

/-- A margin with decimals and a unit of its own. -/
theorem resolve_number_percent :
    ∃ rule d value, ((⟨"m-1_5pr", none, "m", false, none, "1_5", some "pr"⟩, .offset) ∈
        (Compiler.ofSettings {}).tokenize ["m-1_5pr"]) ∧
      (Compiler.ofSettings {}).resolve ⟨"m-1_5pr", none, "m", false, none, "1_5", some "pr"⟩
        .offset = .emitted rule ∧
      rule.declarations = (d.properties.map fun property => ⟨property, value, false⟩) ∧
      ShowsNumber d ⟨"m-1_5pr", none, "m", false, none, "1_5", some "pr"⟩
        ⟨false, "1", "5", by decide, by decide⟩ value := by
  have hreading : ((⟨"m-1_5pr", none, "m", false, none, "1_5", some "pr"⟩, .offset) ∈
      (Compiler.ofSettings {}).tokenize ["m-1_5pr"]) := by
    decide +kernel
  have hemitted : ((Compiler.ofSettings {}).resolve
      ⟨"m-1_5pr", none, "m", false, none, "1_5", some "pr"⟩ .offset).emitted?.isSome = true := by
    decide +kernel
  obtain ⟨rule, hrule⟩ := Option.isSome_iff_exists.1 hemitted
  have hrule := Resolution.emitted?_eq_some.1 hrule
  have hclass : ((Compiler.ofSettings {}).classes.find? "m").map ClassDef.unit =
      some (.numeric .rem) := by
    decide +kernel
  obtain ⟨d, value, hfind, hdeclarations, -, hshows⟩ := resolve_number hreading (.inr rfl)
    (n := ⟨false, "1", "5", by decide, by decide⟩) rfl hrule
  rw [hfind] at hclass
  exact ⟨rule, d, value, hreading, hrule, hdeclarations,
    hshows.2 (.inl ⟨.rem, Option.some.inj hclass⟩)⟩

/-- The order and the flexible length are keywords: both pass over the unit that is written, though
the one takes no unit and the other does. A number that takes no unit is left out where one is
written. -/
theorem not_showsNumber_of_suffix :
    (∃ rule d, (⟨"order-2px", none, "order", false, none, "2", some "px"⟩, .offset) ∈
        (Compiler.ofSettings {}).tokenize ["order-2px"] ∧
      (Compiler.ofSettings {}).resolve ⟨"order-2px", none, "order", false, none, "2", some "px"⟩
        .offset = .emitted rule ∧
      (Compiler.ofSettings {}).classes.find? "order" = some d ∧ d.configurable = false ∧
      rule.declarations = [⟨"order", "2", false⟩] ∧
      ¬ ShowsNumber d ⟨"order-2px", none, "order", false, none, "2", some "px"⟩
        ⟨false, "2", [], by decide, by decide⟩ "2") ∧
    (∃ rule d, (⟨"flex-2px", none, "flex", false, none, "2", some "px"⟩, .dimension) ∈
        (Compiler.ofSettings {}).tokenize ["flex-2px"] ∧
      (Compiler.ofSettings {}).resolve ⟨"flex-2px", none, "flex", false, none, "2", some "px"⟩
        .dimension = .emitted rule ∧
      (Compiler.ofSettings {}).classes.find? "flex" = some d ∧ d.configurable = true ∧
      rule.declarations = [⟨"flex", "2", false⟩] ∧
      ¬ ShowsNumber d ⟨"flex-2px", none, "flex", false, none, "2", some "px"⟩
        ⟨false, "2", [], by decide, by decide⟩ "2") ∧
    (Compiler.ofSettings {}).resolve ⟨"z-10px", none, "z", false, none, "10", some "px"⟩ .offset =
      .skipped (.unitRefused "z" "px" "z-10px") := by
  -- A class of keywords shows the word alone, which does not show the number.
  have hpasses : ∀ (name : ClassName) (f : Family) (configurable : Bool) (property : Text),
      name.unit = some ("px" : Text) →
      ((Compiler.ofSettings {}).classes.find? name.key).map (fun d => (d.unit, d.configurable)) =
        some (.keyword, configurable) →
      ((Compiler.ofSettings {}).resolve name f).emitted?.map Rule.declarations =
        some [⟨property, "2", false⟩] →
      ∃ rule d, (Compiler.ofSettings {}).resolve name f = .emitted rule ∧
        (Compiler.ofSettings {}).classes.find? name.key = some d ∧
        d.configurable = configurable ∧ rule.declarations = [⟨property, "2", false⟩] ∧
        ¬ ShowsNumber d name ⟨false, "2", [], by decide, by decide⟩ "2" := by
    intro name f configurable property hname hclass hemitted
    obtain ⟨d, hfind, hd⟩ := Option.map_eq_some_iff.1 hclass
    obtain ⟨hunit, hconfigurable⟩ := Prod.mk.inj hd
    obtain ⟨rule, hrule, hdeclarations⟩ := Option.map_eq_some_iff.1 hemitted
    refine ⟨rule, d, Resolution.emitted?_eq_some.1 hrule, hfind, hconfigurable, hdeclarations, ?_⟩
    have hword : wordValue d "2" = "2" := by
      rw [wordValue, hunit]
      exact if_neg fun h => nomatch h.1
    have hshows := showsNumber_wordValue (d := d)
      (n := ⟨false, "2", [], by decide, by decide⟩) (by simp [hunit]) (by rw [hname]; decide)
    change ShowsNumber d name _ (wordValue d "2") ↔ _ at hshows
    rw [hword, hname] at hshows
    exact fun h => nomatch (hshows.1 h).1
  refine ⟨?_, ?_, by rfl⟩
  · obtain ⟨rule, d, hshown⟩ := hpasses ⟨"order-2px", none, "order", false, none, "2", some "px"⟩
      .offset false "order" rfl (by decide +kernel) (by decide +kernel)
    exact ⟨rule, d, by decide +kernel, hshown⟩
  · obtain ⟨rule, d, hshown⟩ := hpasses ⟨"flex-2px", none, "flex", false, none, "2", some "px"⟩
      .dimension true "flex" rfl (by decide +kernel) (by decide +kernel)
    exact ⟨rule, d, by decide +kernel, hshown⟩

end Matcher

end UtilitySheet
