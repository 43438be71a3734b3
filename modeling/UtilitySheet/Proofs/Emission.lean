import Mathlib.Data.List.Perm.Basic
import UtilitySheet.Proofs.Compilation
import UtilitySheet.Proofs.Scanning
import UtilitySheet.Proofs.Sorting

/-!
# The order of rules

A compilation lists the rules of each group by weight, and those of one weight family by family.
Only within a family the order of the class names shows (`Matcher.compile_perm`). Nothing that is
read is lost on the way but the names whose unit the class refuses.
-/

namespace UtilitySheet

open Text

namespace Resolution

variable {α : Type}

/-- The result, if there is one. -/
def emitted? : Resolution α → Option α
  | emitted a => some a
  | skipped _ => none
  | failed _ => none

theorem emitted?_eq_some {r : Resolution α} {a : α} : r.emitted? = some a ↔ r = .emitted a := by
  cases r <;> simp [emitted?]

theorem collect_eq_ok {rs : List (Resolution α)} {as : List α} (h : collect rs = .ok as) :
    as = rs.filterMap emitted? := by
  induction rs generalizing as with
  | nil => exact (Except.ok.inj h).symm
  | cons r rs ih =>
    cases r with
    | emitted a =>
      rw [collect] at h
      cases hrs : collect rs with
      | error e => simp [hrs, Except.map] at h
      | ok bs =>
        rw [hrs] at h
        have hcons : (emitted a :: rs).filterMap emitted? = a :: rs.filterMap emitted? := rfl
        rw [hcons, ← ih hrs]
        exact (Except.ok.inj h).symm
    | skipped reason => exact ih h
    | failed e => cases h

theorem bind_eq_emitted {β : Type} {r : Resolution α} {f : α → Resolution β} {b : β} :
    r.bind f = .emitted b ↔ ∃ a, r = .emitted a ∧ f a = .emitted b := by
  cases r <;> simp [bind]

end Resolution

namespace Matcher

variable {m : Matcher} {names names' : List Text} {f : Family} {name : ClassName} {g : RuleGroups}

/-! ## What is read -/

/-- The readings come family by family. -/
theorem tokenize_eq_flatMap (hm : m.IsAssembled) (names : List Text) :
    m.tokenize names = Family.all.flatMap fun f => (m.tokenize names).filter (·.2 == f) := by
  have hpatterns : m.patterns =
      Family.all.flatMap fun f => m.patterns.filter (·.family == f) := by
    rw [hm]
    simp only [ClassTable.filter_patterns]
    change (Family.all.map m.classes.pattern).filter (!·.keys.isEmpty) = _
    induction Family.all with
    | nil => rfl
    | cons f fs ih =>
      rw [List.map_cons, List.flatMap_cons, ← List.singleton_append, List.filter_append, ih]
  simp only [filter_tokenize_eq]
  rw [← List.flatMap_assoc, ← hpatterns, tokenize]

/-- In another order of the names, a family reads the same. -/
theorem perm_filter_tokenize (hm : m.IsAssembled)
    (hkeys : ∀ d ∈ m.classes.classes, isUnbroken d.key = true)
    (hnames : ∀ t ∈ names, isUnbroken t = true) (hperm : names.Perm names') (f : Family) :
    ((m.tokenize names).filter (·.2 == f)).Perm ((m.tokenize names').filter (·.2 == f)) := by
  have hnames' : ∀ t ∈ names', isUnbroken t = true := fun t ht => hnames t (hperm.mem_iff.2 ht)
  rw [filter_tokenize hm hkeys hnames, filter_tokenize hm hkeys hnames']
  exact (hperm.filterMap _).map _

theorem perm_tokenize (hm : m.IsAssembled)
    (hkeys : ∀ d ∈ m.classes.classes, isUnbroken d.key = true)
    (hnames : ∀ t ∈ names, isUnbroken t = true) (hperm : names.Perm names') :
    (m.tokenize names).Perm (m.tokenize names') := by
  rw [tokenize_eq_flatMap hm, tokenize_eq_flatMap hm names']
  exact List.Perm.flatMap_left _ fun f _ => perm_filter_tokenize hm hkeys hnames hperm f

/-- What a family reads has the parts of one of its names. -/
theorem hasParts_of_mem_tokenize (hm : m.IsAssembled)
    (hkeys : ∀ d ∈ m.classes.classes, isUnbroken d.key = true)
    (hnames : ∀ t ∈ names, isUnbroken t = true) (h : (name, f) ∈ m.tokenize names) :
    (m.classes.pattern f).HasParts name := by
  have hmem : (name, f) ∈ (m.tokenize names).filter (·.2 == f) := List.mem_filter.2 ⟨h, by simp⟩
  rw [filter_tokenize hm hkeys hnames] at hmem
  obtain ⟨name', hname', heq⟩ := List.mem_map.1 hmem
  obtain ⟨rfl, -⟩ := Prod.mk.inj heq
  obtain ⟨t, ht, hsplit⟩ := List.mem_filterMap.1 hname'
  exact ((Pattern.mem_splits (ClassTable.isUnbroken_keys hkeys f) (hnames t ht)).1
    (List.mem_of_mem_head? hsplit)).toHasParts

/-! ## What is emitted -/

/-- The rules that the readings of a family give, in the order of the readings. -/
def rulesOf (m : Matcher) (names : List Text) (f : Family) : List Rule :=
  ((m.tokenize names).filter (·.2 == f)).filterMap fun reading =>
    (m.resolve reading.1 reading.2).emitted?

/-- Whether a name asks for a unit that its class refuses. -/
def RefusesUnit (m : Matcher) (name : ClassName) : Prop :=
  ∃ d default unit, m.classes.find? name.key = some d ∧ d.unit = .numeric default ∧
    d.configurable = false ∧ name.unit = some unit

theorem compile_eq_ok (hm : m.IsAssembled) (h : m.compile names = .ok g) :
    g = RuleGroups.ofRules (Family.all.flatMap (m.rulesOf names)) := by
  have hrules : Family.all.flatMap (m.rulesOf names) =
      (m.resolutions names).filterMap Resolution.emitted? := by
    rw [resolutions, List.filterMap_map, tokenize_eq_flatMap hm names, List.filterMap_flatMap]
    rfl
  rw [compile] at h
  cases hcollect : Resolution.collect (m.resolutions names) with
  | error e => simp [hcollect, Except.map] at h
  | ok rules =>
    rw [hcollect] at h
    rw [hrules, ← Resolution.collect_eq_ok hcollect]
    exact (Except.ok.inj h).symm

/-- The unit of a numeric class is at hand unless the class refuses the one that the name asks
for. -/
theorem exists_effectiveUnit_iff (d : ClassDef) (default : NumericUnit)
    (hunit : ∀ u ∈ name.unit, u ∈ NumericUnit.suffixes.map NumericUnit.key) :
    (∃ unit, effectiveUnit d default name = .emitted unit) ↔
      (name.unit.isSome = true → d.configurable = true) := by
  unfold effectiveUnit
  cases hname : name.unit with
  | none => simp
  | some key =>
    have hnamed : ∀ u ∈ NumericUnit.suffixes.map NumericUnit.key,
        ∃ unit, NumericUnit.named? u = some unit ∧ unit.isSuffix = true := by
      decide
    obtain ⟨unit, hunit, hsuffix⟩ := hnamed key (hunit key hname)
    simp only [hunit, hsuffix]
    cases d.configurable <;> simp

/-- A numeric value is never passed over. -/
theorem numericValue_cases (precision : Nat) (unit : NumericUnit) (payload : Text) :
    (∃ value, numericValue precision unit payload = .emitted value) ∨
      ∃ e, numericValue precision unit payload = .failed e := by
  unfold numericValue
  split
  · exact .inl ⟨_, rfl⟩
  · split
    · exact .inl ⟨_, rfl⟩
    · split
      · exact .inl ⟨_, rfl⟩
      · exact .inr ⟨_, rfl⟩

/-- A name has a value unless the class refuses its unit. -/
theorem exists_value_iff {d : ClassDef}
    (hunit : ∀ u ∈ name.unit, u ∈ NumericUnit.suffixes.map NumericUnit.key)
    (hplaced : ∀ e, m.value d name f ≠ .failed e) :
    (∃ value, m.value d name f = .emitted value) ↔
      ∀ default, d.unit = .numeric default → name.unit.isSome = true → d.configurable = true := by
  unfold value at hplaced ⊢
  cases hd : d.unit with
  | color => simp
  | keyword => simp
  | numeric default =>
    simp only [hd] at hplaced ⊢
    have hiff := exists_effectiveUnit_iff d default hunit
    simp only [ValueUnit.numeric.injEq, forall_eq']
    rw [← hiff]
    cases heffective : effectiveUnit d default name with
    | skipped reason => simp [Resolution.bind]
    | failed e => exact absurd heffective (effectiveUnit_ne_failed d default name e)
    | emitted unit =>
      rw [heffective] at hplaced
      rcases numericValue_cases (d.precision.getD (m.precisions.of unit)) unit name.value with
        hvalue | ⟨e, he⟩
      · exact iff_of_true hvalue ⟨unit, rfl⟩
      · exact absurd he (hplaced e)

/-- **A reading gives a rule unless its class refuses its unit,** or its point cannot be placed. -/
theorem exists_resolve_iff (hparts : (m.classes.pattern f).HasParts name)
    (hplaced : ∀ e, m.resolve name f ≠ .failed e) :
    (∃ r, m.resolve name f = .emitted r) ↔ ¬ m.RefusesUnit name := by
  have hknown : ∃ d, m.classes.find? name.key = some d := by
    rw [← Option.ne_none_iff_exists', ne_eq, ClassTable.find?_eq_none, not_not]
    obtain ⟨d, hd, hkey⟩ := List.mem_map.1 hparts.key
    exact List.mem_map.2 ⟨d, (List.mem_filter.1 hd).1, hkey⟩
  obtain ⟨d, hd⟩ := hknown
  have hresolve : (∃ r, m.resolve name f = .emitted r) ↔
      ∃ value, m.value d name f = .emitted value := by
    simp only [resolve, hd]
    cases m.value d name f <;> simp [Resolution.bind]
  have hfailed : ∀ e, m.value d name f ≠ .failed e := by
    intro e he
    apply hplaced e
    simp [resolve, hd, he, Resolution.bind]
  rw [hresolve, exists_value_iff (fun u hu => (hparts.unit u hu).2) hfailed, RefusesUnit, hd]
  constructor
  · rintro h ⟨d', default, unit, heq, hnumeric, hrefuses, hunit⟩
    obtain rfl := Option.some.inj heq
    have hconfigurable := h default hnumeric (by rw [hunit]; rfl)
    rw [hrefuses] at hconfigurable
    cases hconfigurable
  · intro h default hnumeric hunit
    obtain ⟨unit, hunit⟩ := Option.isSome_iff_exists.1 hunit
    by_contra hrefuses
    exact h ⟨d, default, unit, rfl, hnumeric, by simpa using hrefuses, hunit⟩

/-- The rule of a reading: the declarations of its class with the value of the name. -/
theorem resolve_eq_emitted {r : Rule} : m.resolve name f = .emitted r ↔
    ∃ d value, m.classes.find? name.key = some d ∧ m.value d name f = .emitted value ∧
      r = { selector := name.text ++ (name.pseudo.bind PseudoClass.selector?).getD []
            declarations := d.properties.map fun property => ⟨property, value, name.important⟩
            breakpoint := name.breakpoint.bind Breakpoint.named?
            weight := name.weight d.priority } := by
  rw [resolve]
  cases m.classes.find? name.key with
  | none => simp
  | some d =>
    simp only [Resolution.bind_eq_emitted, Option.some.injEq, Resolution.emitted.injEq]
    constructor
    · rintro ⟨value, hvalue, rfl⟩
      exact ⟨d, value, rfl, hvalue, rfl⟩
    · rintro ⟨d', value, rfl, hvalue, rfl⟩
      exact ⟨value, hvalue, rfl⟩

/-- A rule has the breakpoint that is written in its name. -/
theorem breakpoint_of_resolve {r : Rule} (hparts : (m.classes.pattern f).HasParts name)
    (h : m.resolve name f = .emitted r) : r.breakpoint.map Breakpoint.key = name.breakpoint := by
  obtain ⟨d, value, -, -, rfl⟩ := resolve_eq_emitted.1 h
  cases hname : name.breakpoint with
  | none => simp
  | some key =>
    have hnamed : ∀ b ∈ Breakpoint.all.map Breakpoint.key,
        (Breakpoint.named? b).map Breakpoint.key = some b := by
      decide
    simpa [hname] using hnamed key (hparts.breakpoint key hname)

/-! ## Groups -/

/-- How the rules of names are listed: in each group by weight, and the rules of one weight family
by family. Every reading has its rule, unless the class refuses the unit, and every rule is in the
group of the breakpoint in its name, and in no other. -/
structure Lists (m : Matcher) (names : List Text) (g : RuleGroups) : Prop where
  sorted : ∀ kind, (g.group kind).Pairwise fun a b => weightLe a.weight b.weight = true
  families : ∀ kind key, (g.group kind).filter (weightKey ·.weight == key) =
    Family.all.flatMap fun f => (m.rulesOf names f).filter fun r =>
      weightKey r.weight == key && r.breakpoint == kind
  complete : ∀ reading ∈ m.tokenize names,
    (∃ r, m.resolve reading.1 reading.2 = .emitted r) ↔ ¬ m.RefusesUnit reading.1
  placed : ∀ reading ∈ m.tokenize names, ∀ r, m.resolve reading.1 reading.2 = .emitted r →
    r.breakpoint.map Breakpoint.key = reading.1.breakpoint ∧
      ∀ kind, r ∈ g.group kind ↔ r.breakpoint = kind

theorem lists_of_compile (hm : m.IsAssembled)
    (hkeys : ∀ d ∈ m.classes.classes, isUnbroken d.key = true)
    (hnames : ∀ t ∈ names, isUnbroken t = true) (hg : m.compile names = .ok g) :
    m.Lists names g := by
  have hrules := compile_eq_ok hm hg
  refine ⟨fun kind => ?_, fun kind key => ?_, fun ⟨name, f⟩ hreading => ?_,
    fun ⟨name, f⟩ hreading r hr => ⟨?_, fun kind => ?_⟩⟩
  · rw [hrules]
    exact (RuleGroups.pairwise_ofRules _).filter _
  · have hsame : ∀ r : Rule, (weightKey r.weight == key && r.breakpoint == kind) = true →
        weightKey r.weight = key := by
      intro r hr
      exact beq_iff_eq.1 (Bool.and_eq_true_iff.1 hr).1
    rw [RuleGroups.group, List.filter_filter, hrules, RuleGroups.filter_ofRules hsame,
      List.filter_flatMap]
  · refine exists_resolve_iff (hasParts_of_mem_tokenize hm hkeys hnames hreading) fun e he => ?_
    exact resolve_fails_iff.1 ⟨e, he⟩ (exists_compile_iff.1 ⟨g, hg⟩ _ hreading)
  · exact breakpoint_of_resolve (hasParts_of_mem_tokenize hm hkeys hnames hreading) hr
  · have hmem : r ∈ g.rules := by
      rw [hrules, (RuleGroups.perm_ofRules _).mem_iff, List.mem_flatMap]
      refine ⟨f, Family.mem_all f, List.mem_filterMap.2 ⟨(name, f), ?_, ?_⟩⟩
      · exact List.mem_filter.2 ⟨hreading, by simp⟩
      · simp only [hr]
        rfl
    simp [RuleGroups.group, List.mem_filter, hmem]

/-- **The order of rules does not depend on the order of names, but within a family.** Where one
order of the names compiles, every order does. Both lists of rules are in order, and what a family
gives is the same rules in both. -/
theorem compile_perm (hm : m.IsAssembled)
    (hkeys : ∀ d ∈ m.classes.classes, isUnbroken d.key = true)
    (hnames : ∀ t ∈ names, isUnbroken t = true) (hperm : names.Perm names')
    (hg : m.compile names = .ok g) :
    ∃ g', m.compile names' = .ok g' ∧ m.Lists names g ∧ m.Lists names' g' ∧
      (∀ f, (m.rulesOf names f).Perm (m.rulesOf names' f)) ∧
      ∀ kind, (g.group kind).Perm (g'.group kind) := by
  have hnames' : ∀ t ∈ names', isUnbroken t = true := fun t ht => hnames t (hperm.mem_iff.2 ht)
  have hreadings := perm_tokenize hm hkeys hnames hperm
  obtain ⟨g', hg'⟩ := exists_compile_iff.2 fun reading (hreading : reading ∈ m.tokenize names') =>
    exists_compile_iff.1 ⟨g, hg⟩ reading (hreadings.mem_iff.2 hreading)
  have hfamilies : ∀ f, (m.rulesOf names f).Perm (m.rulesOf names' f) := fun f =>
    (perm_filter_tokenize hm hkeys hnames hperm f).filterMap _
  refine ⟨g', hg', lists_of_compile hm hkeys hnames hg, lists_of_compile hm hkeys hnames' hg',
    hfamilies, fun kind => ?_⟩
  have hrules : g.rules.Perm g'.rules := by
    rw [compile_eq_ok hm hg, compile_eq_ok hm hg']
    exact (RuleGroups.perm_ofRules _).trans
      ((List.Perm.flatMap_left _ fun f _ => hfamilies f).trans (RuleGroups.perm_ofRules _).symm)
  exact hrules.filter _

/-- Settings in which the zeros of both signs are priorities, of which the negative one counts as
less, and padding has another key. -/
def tiedSettings : Settings where
  classes := [("m", { priority := some 0.0 }),
    ("p", { priority := some (-0.0), rename := some "pad" }), ("d", { priority := some 0.0 })]

/-- Two margins and a display of one weight, and a padding before them, in two orders. -/
theorem compile_perm_tied :
    (Compiler.ofSettings tiedSettings).IsAssembled ∧
    (∀ d ∈ (Compiler.ofSettings tiedSettings).classes.classes, isUnbroken d.key = true) ∧
    (∀ t ∈ (["m-1", "pad-1", "md-m-2", "m-3", "d-none"] : List Text), isUnbroken t = true) ∧
    ∃ g g', (Compiler.ofSettings tiedSettings).compile
        ["m-1", "pad-1", "md-m-2", "m-3", "d-none"] = .ok g ∧
      (Compiler.ofSettings tiedSettings).compile
        ["d-none", "m-3", "md-m-2", "pad-1", "m-1"] = .ok g' ∧
      (Compiler.ofSettings tiedSettings).Lists ["m-1", "pad-1", "md-m-2", "m-3", "d-none"] g ∧
      (Compiler.ofSettings tiedSettings).Lists ["d-none", "m-3", "md-m-2", "pad-1", "m-1"] g' ∧
      ∀ kind, (g.group kind).Perm (g'.group kind) := by
  have hm := isAssembled_ofSettings tiedSettings
  have hkeys : ∀ d ∈ (Compiler.ofSettings tiedSettings).classes.classes,
      isUnbroken d.key = true := by
    decide +kernel
  have hnames : ∀ t ∈ (["m-1", "pad-1", "md-m-2", "m-3", "d-none"] : List Text),
      isUnbroken t = true := by
    decide
  have hperm : (["m-1", "pad-1", "md-m-2", "m-3", "d-none"] : List Text).Perm
      ["d-none", "m-3", "md-m-2", "pad-1", "m-1"] := by
    decide
  have hcollect : (Resolution.collect ((Compiler.ofSettings tiedSettings).resolutions
      ["m-1", "pad-1", "md-m-2", "m-3", "d-none"])).toOption.isSome = true := by
    decide +kernel
  obtain ⟨g, hg⟩ : ∃ g, (Compiler.ofSettings tiedSettings).compile
      ["m-1", "pad-1", "md-m-2", "m-3", "d-none"] = .ok g := by
    rw [compile]
    cases hrules : Resolution.collect ((Compiler.ofSettings tiedSettings).resolutions
        ["m-1", "pad-1", "md-m-2", "m-3", "d-none"]) with
    | error e =>
      rw [hrules] at hcollect
      cases hcollect
    | ok rules => exact ⟨_, rfl⟩
  obtain ⟨g', hg', hlists, hlists', -, hgroups⟩ := compile_perm hm hkeys hnames hperm hg
  exact ⟨hm, hkeys, hnames, g, g', hg, hg', hlists, hlists', hgroups⟩

end Matcher

end UtilitySheet
