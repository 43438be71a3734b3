import Mathlib.Data.List.Induction
import UtilitySheet.Proofs.ClassTable
import UtilitySheet.Proofs.Passes
import UtilitySheet.Proofs.Weight

/-!
# Using a compiler again

A builder keeps its compiler while the settings count as the same. They can do so and still differ
in the sign of a zero priority, which the order of rules tells apart. Apart from that, using the
compiler again is invisible (`Builder.build_after`): a pass of a builder that has run before has the
outcome of a pass of a new builder, and it leaves the same files unless a zero has changed its sign.

What does not depend on priorities is followed through all steps by dropping them: a table, a change
and a rule without priorities are `unweighted`.
-/

namespace UtilitySheet

/-! ## Settings that count as the same -/

namespace ClassChange

/-- The change with zero for any priority. -/
def unweighted (c : ClassChange) : ClassChange := { c with priority := c.priority.map fun _ => 0 }

/-- Whether the changes set zeros of different signs. -/
def FlipsZero (c c' : ClassChange) : Prop :=
  ∃ x y, c.priority = some x ∧ c'.priority = some y ∧ Weight.OppositeZeros x y

theorem eq_or_flipsZero_of_beq {c c' : ClassChange} (h : (c == c') = true) :
    c.unweighted = c'.unweighted ∧ (c = c' ∨ c.FlipsZero c') := by
  obtain ⟨rename, unit, priority, precision⟩ := c
  obtain ⟨rename', unit', priority', precision'⟩ := c'
  change (rename == rename' && (unit == unit' && (priority == priority' &&
    precision == precision'))) = true at h
  simp only [Bool.and_eq_true] at h
  obtain ⟨hrename, hunit, hpriority, hprecision⟩ := h
  obtain rfl : rename = rename' := beq_iff_eq.1 hrename
  obtain rfl : unit = unit' := beq_iff_eq.1 hunit
  obtain rfl : precision = precision' := beq_iff_eq.1 hprecision
  cases priority with
  | none =>
    cases priority' with
    | none => exact ⟨rfl, .inl rfl⟩
    | some y => cases hpriority
  | some x =>
    cases priority' with
    | none => cases hpriority
    | some y =>
      refine ⟨rfl, ?_⟩
      rcases Weight.eq_or_oppositeZeros_of_beq (x := x) (y := y) hpriority with rfl | hzeros
      · exact .inl rfl
      · exact .inr ⟨x, y, rfl, rfl, hzeros⟩

end ClassChange

namespace Settings

/-- The settings with zero for any priority. -/
def unweighted (s : Settings) : Settings :=
  { s with classes := s.classes.map fun setting => (setting.1, setting.2.unweighted) }

/-- Whether somewhere the settings set zeros of different signs. -/
def FlipsZero (s s' : Settings) : Prop :=
  ∃ settings ∈ s.classes.zip s'.classes, settings.1.2.FlipsZero settings.2.2

theorem not_flipsZero_self (s : Settings) : ¬ s.FlipsZero s := by
  rintro ⟨settings, hmem, x, y, hx, hy, hzeros⟩
  rw [List.zip, List.zipWith_self] at hmem
  obtain ⟨setting, -, rfl⟩ := List.mem_map.1 hmem
  obtain rfl := Option.some.inj (hx.symm.trans hy)
  exact Weight.not_oppositeZeros_self x hzeros

theorem classes_of_beq {classes classes' : List (Text × ClassChange)}
    (h : (classes == classes') = true) :
    classes.map (fun setting => (setting.1, setting.2.unweighted)) =
        classes'.map (fun setting => (setting.1, setting.2.unweighted)) ∧
      (classes = classes' ∨
        ∃ settings ∈ classes.zip classes', settings.1.2.FlipsZero settings.2.2) := by
  induction classes generalizing classes' with
  | nil =>
    cases classes' with
    | nil => exact ⟨rfl, .inl rfl⟩
    | cons _ _ => simp at h
  | cons setting classes ih =>
    cases classes' with
    | nil => simp at h
    | cons setting' classes' =>
      obtain ⟨key, c⟩ := setting
      obtain ⟨key', c'⟩ := setting'
      change ((key == key' && c == c') && classes == classes') = true at h
      simp only [Bool.and_eq_true, beq_iff_eq] at h
      obtain ⟨⟨rfl, hc⟩, hclasses⟩ := h
      obtain ⟨hsame, hor⟩ := ih hclasses
      obtain ⟨hsame', hor'⟩ := ClassChange.eq_or_flipsZero_of_beq hc
      refine ⟨by simp [hsame, hsame'], ?_⟩
      rcases hor' with rfl | hflip
      · rcases hor with rfl | ⟨settings, hmem, hflip⟩
        · exact .inl rfl
        · exact .inr ⟨settings, List.mem_cons_of_mem _ hmem, hflip⟩
      · exact .inr ⟨_, List.mem_cons_self, hflip⟩

/-- Settings that count as the same are the same but for priorities, and these but for the sign of
zeros. -/
theorem eq_or_flipsZero_of_beq {s s' : Settings} (h : (s == s') = true) :
    s.unweighted = s'.unweighted ∧ (s = s' ∨ s.FlipsZero s') := by
  obtain ⟨classes, precisions⟩ := s
  obtain ⟨classes', precisions'⟩ := s'
  change (classes == classes' && precisions == precisions') = true at h
  obtain ⟨hclasses, hprecisions⟩ := Bool.and_eq_true_iff.1 h
  obtain rfl : precisions = precisions' := beq_iff_eq.1 hprecisions
  obtain ⟨hsame, rfl | hflip⟩ := classes_of_beq hclasses
  · exact ⟨rfl, .inl rfl⟩
  · exact ⟨congrArg (Settings.mk · precisions) hsame, .inr hflip⟩

end Settings

/-! ## Tables without priorities -/

/-- The class with priority zero. -/
def ClassDef.unweighted (d : ClassDef) : ClassDef := { d with priority := 0 }

namespace ClassTable

/-- The table with priority zero throughout. -/
def unweighted (t : ClassTable) : ClassTable := ⟨t.classes.map ClassDef.unweighted⟩

theorem find?_unweighted (t : ClassTable) (key : Text) :
    t.unweighted.find? key = (t.find? key).map ClassDef.unweighted := by
  simp only [find?, unweighted, List.find?_map]
  rfl

theorem patterns_unweighted (t : ClassTable) : t.unweighted.patterns = t.patterns := by
  have hkeys : t.unweighted.familyKeys = t.familyKeys := by
    funext f
    simp only [familyKeys, unweighted, List.filter_map, List.map_map]
    rfl
  rw [patterns, hkeys, patterns]

theorem revised_unweighted (d : ClassDef) (unit : Option ValueUnit) (change : ClassChange) :
    d.unweighted.revised unit change.unweighted = (d.revised unit change).unweighted := by
  simp only [ClassDef.revised, ClassDef.unweighted, ClassChange.unweighted]
  cases change.priority <;> rfl

/-- Whether a change succeeds, and what it does but for priorities, does not depend on
priorities. -/
theorem apply_unweighted (t : ClassTable) (key : Text) (change : ClassChange) :
    t.unweighted.apply key change.unweighted =
      (t.apply key change).map fun result => (result.1.unweighted, result.2) := by
  have hcollides : t.unweighted.collides key = t.collides key := by
    funext target
    simp [collides, find?_unweighted]
  have hread : readUnit change.unweighted = readUnit change := rfl
  have hrename : change.unweighted.rename = change.rename := rfl
  have hchanged : ∀ d : ClassDef, d.unweighted.isChangedBy change.unweighted =
      d.isChangedBy change := by
    intro d
    simp [ClassDef.isChangedBy, ClassDef.unweighted, ClassChange.unweighted]
  have hrevise : ∀ unit, t.unweighted.classes.map
      (fun e => if e.key == key then e.revised unit change.unweighted else e) =
      (t.classes.map fun e => if e.key == key then e.revised unit change else e).map
        ClassDef.unweighted := by
    intro unit
    simp only [unweighted, List.map_map]
    refine List.map_congr_left fun e _ => ?_
    have hkey : e.unweighted.key = e.key := rfl
    simp only [Function.comp_apply, hkey, apply_ite ClassDef.unweighted, revised_unweighted]
  unfold apply
  rw [find?_unweighted, hread, hrename]
  cases t.find? key with
  | none => rfl
  | some d =>
    cases readUnit change with
    | error e => rfl
    | ok unit =>
      have hresult : (⟨t.unweighted.classes.map fun e =>
          if e.key == key then e.revised unit change.unweighted else e⟩,
          d.unweighted.isChangedBy change.unweighted) =
          ((⟨t.classes.map fun e => if e.key == key then e.revised unit change else e⟩ :
            ClassTable).unweighted, d.isChangedBy change) := by
        rw [hrevise, hchanged]
        rfl
      cases change.rename with
      | none => exact congrArg Except.ok hresult
      | some target =>
        simp only [Option.map_some, hcollides, bind, Except.bind, pure, Except.pure]
        cases t.collides key target with
        | true => rfl
        | false => exact congrArg Except.ok hresult

end ClassTable

/-! ## Compilers without priorities -/

namespace CompilerDraft

/-- Settings that differ in priorities only do the same to tables that differ in priorities
only. -/
theorem tryClass_unweighted {d d' : CompilerDraft} {setting setting' : Text × ClassChange}
    (hd : d.classes.unweighted = d'.classes.unweighted)
    (hsetting : (setting.1, setting.2.unweighted) = (setting'.1, setting'.2.unweighted)) :
    (d.tryClass setting).classes.unweighted = (d'.tryClass setting').classes.unweighted := by
  obtain ⟨key, c⟩ := setting
  obtain ⟨key', c'⟩ := setting'
  obtain ⟨rfl, hc⟩ := Prod.mk.inj hsetting
  have happly : (d.classes.apply key c).map (fun result => (result.1.unweighted, result.2)) =
      (d'.classes.apply key c').map fun result => (result.1.unweighted, result.2) := by
    rw [← ClassTable.apply_unweighted, ← ClassTable.apply_unweighted, hd, hc]
  unfold tryClass changeClass
  cases h : d.classes.apply key c with
  | error e =>
    cases h' : d'.classes.apply key c' with
    | error e' => simpa [h, h', Except.map] using hd
    | ok result' => simp [h, h', Except.map] at happly
  | ok result =>
    cases h' : d'.classes.apply key c' with
    | error e' => simp [h, h', Except.map] at happly
    | ok result' =>
      rw [h, h'] at happly
      exact (Prod.mk.inj (Except.ok.inj happly)).1

theorem foldl_tryClass_unweighted {d d' : CompilerDraft}
    {classes classes' : List (Text × ClassChange)}
    (hd : d.classes.unweighted = d'.classes.unweighted)
    (hclasses : classes.map (fun setting => (setting.1, setting.2.unweighted)) =
      classes'.map fun setting => (setting.1, setting.2.unweighted)) :
    (classes.foldl tryClass d).classes.unweighted =
      (classes'.foldl tryClass d').classes.unweighted := by
  induction classes generalizing classes' d d' with
  | nil =>
    obtain rfl := List.map_eq_nil_iff.1 hclasses.symm
    exact hd
  | cons setting classes ih =>
    obtain ⟨setting', classes', rfl, hsetting, hclasses⟩ := List.map_eq_cons_iff.1 hclasses.symm
    simp only [List.foldl_cons]
    exact ih (tryClass_unweighted hd hsetting.symm) hclasses.symm

theorem foldl_tryClass_precisions (d : CompilerDraft) (classes : List (Text × ClassChange)) :
    (classes.foldl tryClass d).precisions = d.precisions := by
  induction classes generalizing d with
  | nil => rfl
  | cons setting classes ih => exact (ih _).trans (d.tryClass_precisions setting)

theorem foldl_tryPrecision_classes (d : CompilerDraft) (precisions : List (Text × Nat)) :
    (precisions.foldl tryPrecision d).classes = d.classes := by
  induction precisions generalizing d with
  | nil => rfl
  | cons setting precisions ih => exact (ih _).trans (d.tryPrecision_classes setting)

theorem foldl_tryPrecision_precisions {d d' : CompilerDraft} (precisions : List (Text × Nat))
    (hd : d.precisions = d'.precisions) :
    (precisions.foldl tryPrecision d).precisions =
      (precisions.foldl tryPrecision d').precisions := by
  induction precisions generalizing d d' with
  | nil => exact hd
  | cons setting precisions ih =>
    refine ih ?_
    unfold tryPrecision setPrecision
    cases NumericUnit.named? setting.1 with
    | none => exact hd
    | some unit => simp [hd]

end CompilerDraft

/-- The matcher with priority zero throughout. -/
def Matcher.unweighted (m : Matcher) : Matcher := { m with classes := m.classes.unweighted }

/-- The compilers of settings that differ in priorities only differ in priorities only. -/
theorem Compiler.ofSettings_unweighted {s s' : Settings} (h : s.unweighted = s'.unweighted) :
    (ofSettings s).toMatcher.unweighted = (ofSettings s').toMatcher.unweighted := by
  obtain ⟨classes, precisions⟩ := s
  obtain ⟨classes', precisions'⟩ := s'
  obtain ⟨hclasses, rfl⟩ := Settings.mk.inj h
  have htable : (draft ⟨classes, precisions⟩).classes.unweighted =
      (draft ⟨classes', precisions⟩).classes.unweighted := by
    simp only [draft, classDraft, CompilerDraft.foldl_tryPrecision_classes]
    exact CompilerDraft.foldl_tryClass_unweighted rfl hclasses
  have hprecisions : (draft ⟨classes, precisions⟩).precisions =
      (draft ⟨classes', precisions⟩).precisions := by
    refine CompilerDraft.foldl_tryPrecision_precisions _ ?_
    simp only [classDraft, CompilerDraft.foldl_tryClass_precisions]
  have hpatterns : (draft ⟨classes, precisions⟩).classes.patterns =
      (draft ⟨classes', precisions⟩).classes.patterns := by
    rw [← ClassTable.patterns_unweighted, htable, ClassTable.patterns_unweighted]
  simp only [Matcher.unweighted, ofSettings, CompilerDraft.finish]
  rw [htable, hprecisions, hpatterns]

/-! ## Rules without weights -/

/-- The rule with weight zero. -/
def Rule.unweighted (r : Rule) : Rule := { r with weight := 0 }

namespace Resolution

variable {α β : Type}

/-- The resolution with its result changed. -/
def map (f : α → β) (r : Resolution α) : Resolution β := r.bind (emitted ∘ f)

theorem collect_map (f : α → β) (rs : List (Resolution α)) :
    collect (rs.map (map f)) = (collect rs).map (List.map f) := by
  induction rs with
  | nil => rfl
  | cons r rs ih =>
    cases r with
    | emitted a =>
      simp only [List.map_cons, map, bind, Function.comp_apply, collect, ih]
      cases collect rs <;> rfl
    | skipped reason => exact ih
    | failed e => rfl

end Resolution

namespace Matcher

theorem resolve_unweighted (m : Matcher) (name : ClassName) (f : Family) :
    (m.unweighted.resolve name f).map Rule.unweighted = (m.resolve name f).map Rule.unweighted := by
  have hvalue : ∀ d : ClassDef, m.unweighted.value d.unweighted name f = m.value d name f :=
    fun _ => rfl
  have hclasses : m.unweighted.classes = m.classes.unweighted := rfl
  unfold resolve
  rw [hclasses, ClassTable.find?_unweighted]
  cases m.classes.find? name.key with
  | none => rfl
  | some d =>
    simp only [Option.map_some, hvalue]
    cases m.value d name f <;> rfl

/-- Matchers that differ in priorities only fail together, and else give the same rules but for
weights and order. -/
theorem compile_of_unweighted_eq {m m' : Matcher} (h : m.unweighted = m'.unweighted)
    (names : List Text) :
    (∃ e, m.compile names = .error e ∧ m'.compile names = .error e) ∨
      ∃ g g', m.compile names = .ok g ∧ m'.compile names = .ok g' ∧
        (g.rules.map Rule.unweighted).Perm (g'.rules.map Rule.unweighted) := by
  have htokens : m.tokenize names = m'.tokenize names := by
    change m.unweighted.tokenize names = m'.unweighted.tokenize names
    rw [h]
  have hresolutions : (m.resolutions names).map (Resolution.map Rule.unweighted) =
      (m'.resolutions names).map (Resolution.map Rule.unweighted) := by
    simp only [resolutions, htokens, List.map_map]
    refine List.map_congr_left fun reading _ => ?_
    simp only [Function.comp_apply]
    rw [← resolve_unweighted m, ← resolve_unweighted m', h]
  have hcollect := congrArg Resolution.collect hresolutions
  rw [Resolution.collect_map, Resolution.collect_map] at hcollect
  unfold compile
  cases hc : Resolution.collect (m.resolutions names) with
  | error e =>
    cases hc' : Resolution.collect (m'.resolutions names) with
    | error e' =>
      rw [hc, hc'] at hcollect
      obtain rfl := Except.error.inj hcollect
      exact .inl ⟨e, rfl, rfl⟩
    | ok rules' => simp [hc, hc', Except.map] at hcollect
  | ok rules =>
    cases hc' : Resolution.collect (m'.resolutions names) with
    | error e' => simp [hc, hc', Except.map] at hcollect
    | ok rules' =>
      rw [hc, hc'] at hcollect
      refine .inr ⟨_, _, rfl, rfl, ?_⟩
      calc ((RuleGroups.ofRules rules).rules.map Rule.unweighted).Perm
            (rules.map Rule.unweighted) := (List.mergeSort_perm _ _).map _
        _ = rules'.map Rule.unweighted := Except.ok.inj hcollect
        List.Perm _ ((RuleGroups.ofRules rules').rules.map Rule.unweighted) :=
          ((List.mergeSort_perm _ _).map _).symm

end Matcher

/-! ## Passes -/

namespace Entry

/-- Whether a file can be written does not depend on its text. -/
theorem write_outcome (e : Entry) (p : Path) (text text' : Option Text) (time : Int) :
    (e.write p text time).map (fun _ => ()) = (e.write p text' time).map fun _ => () := by
  unfold write
  cases e.locate p with
  | error stopped => rfl
  | ok names =>
    simp only [bind, Except.bind]
    cases e.get? names with
    | none => rfl
    | some found => cases found <;> rfl

end Entry

namespace Project

theorem author_of_no_places {tree : Entry} {root : Path} {c : Config} (h : c.stylePaths = []) :
    (inputs tree root c).author = none := by
  have hfiles : styleFiles tree root c = [] := by
    simp only [styleFiles, collect, Config.styleRoots, h, List.mergeSort_nil, List.map_nil,
      List.flatMap_nil]
  simp only [inputs, author, hfiles, List.isEmpty_nil, if_true]

theorem writeOutput_outcome (tree : Entry) (p : Path) (css css' : Text) (now : Int) :
    (writeOutput tree p css now).2 = (writeOutput tree p css' now).2 := by
  unfold writeOutput
  simp only
  generalize tree.makeFolder now p.parent = made
  cases made.error with
  | some e => rfl
  | none =>
    have hwrite := made.tree.write_outcome p (some css) (some css') now
    simp only
    cases h : made.tree.write p (some css) now <;>
      cases h' : made.tree.write p (some css') now <;>
      simp_all [Except.map]

/-- Compilers that differ in priorities only fail together, and else make as many rules. -/
theorem produce_of_unweighted_eq {k k' : Compiler}
    (h : k.toMatcher.unweighted = k'.toMatcher.unweighted) (i : Inputs) :
    (∃ e, produce k i = .error e ∧ produce k' i = .error e) ∨
      ∃ css css' rules, produce k i = .ok (css, rules) ∧ produce k' i = .ok (css', rules) := by
  rcases Matcher.compile_of_unweighted_eq h i.classes with
    ⟨e, he, he'⟩ | ⟨g, g', hg, hg', hperm⟩
  · exact .inl ⟨e, by rw [produce, he]; rfl, by rw [produce, he']; rfl⟩
  · have hsize : g.size = g'.size := by simpa [RuleGroups.size] using hperm.length_eq
    exact .inr ⟨_, _, g.size, produce_of_compile hg, hsize ▸ produce_of_compile hg'⟩

end Project

namespace Builder

/-- The builder after passes over a project in several states, one after the other. -/
def after (b : Builder) (engine : PatternEngine) (states : List (Entry × Int)) : Builder :=
  states.foldl (fun b state => (b.build engine state.1 state.2).builder) b

theorem compilerFor_new (root : Path) (engine : PatternEngine) (s : Settings) :
    compilerFor { root } engine s = Compiler.build engine s := rfl

theorem compilerFor_of_beq {b : Builder} {k : Compiler} {s : Settings} (engine : PatternEngine)
    (hk : b.compiler = some k) (hs : (k.settings == s) = true) :
    b.compilerFor engine s = .ok k := by
  simp only [compilerFor, hk]
  exact if_pos hs

theorem compilerFor_cases (b : Builder) (engine : PatternEngine) (s : Settings) :
    b.compilerFor engine s = Compiler.build engine s ∨
      ∃ k, b.compiler = some k ∧ (k.settings == s) = true ∧ b.compilerFor engine s = .ok k := by
  unfold compilerFor
  cases b.compiler with
  | none => exact .inl rfl
  | some k =>
    by_cases h : (k.settings == s) = true
    · exact .inr ⟨k, rfl, h, if_pos h⟩
    · exact .inl (if_neg h)

/-- A pass that has its compiler keeps it. -/
theorem build_builder_of_files {b : Builder} {engine : PatternEngine} {tree : Entry} {c : Config}
    {k : Compiler} (now : Int) (hc : Project.loadConfig tree b.root = .ok c)
    (hfiles : (Project.markupFiles tree b.root c).isEmpty = false)
    (hk : b.compilerFor engine c.settings = .ok k) :
    (b.build engine tree now).builder = { b with compiler := some k } := by
  cases hp : Project.produce k (Project.inputs tree b.root c) with
  | error e => exact (build_of_point now hc hfiles hk hp).builder
  | ok made => exact (build_of_produce now hc hfiles hk hp).builder

/-- A pass keeps the builder as it was, or leaves it with the compiler for the settings it has
read, or with none if there is no such compiler. -/
theorem build_builder (b : Builder) (engine : PatternEngine) (tree : Entry) (now : Int) :
    (b.build engine tree now).builder = b ∨
      (b.build engine tree now).builder = { root := b.root } ∨
      ∃ c k, Project.loadConfig tree b.root = .ok c ∧ b.compilerFor engine c.settings = .ok k ∧
        (b.build engine tree now).builder = { b with compiler := some k } := by
  cases hc : Project.loadConfig tree b.root with
  | error e => exact .inl (build_of_no_settings engine now hc).builder
  | ok c =>
    cases hfiles : (Project.markupFiles tree b.root c).isEmpty with
    | true => exact .inl (build_of_no_markup engine now hc hfiles).builder
    | false =>
      right
      cases hk : b.compilerFor engine c.settings with
      | error e => exact .inl (build_of_refused now hc hfiles hk).builder
      | ok k => exact .inr ⟨c, k, rfl, hk, build_builder_of_files now hc hfiles hk⟩

/-- Whether builders have compilers for some settings that differ in priorities only, or fail to
have one for the same reason. -/
def SameUnweighted (engine : PatternEngine) (b b' : Builder) (s : Settings) : Prop :=
  (∃ e, b.compilerFor engine s = .error e ∧ b'.compilerFor engine s = .error e) ∨
    ∃ k k', b.compilerFor engine s = .ok k ∧ b'.compilerFor engine s = .ok k' ∧
      k.toMatcher.unweighted = k'.toMatcher.unweighted

/-- The outcome of a pass does not depend on the priorities in its compiler. -/
theorem build_outcome_congr {b b' : Builder} {engine : PatternEngine} (hroot : b.root = b'.root)
    {tree : Entry} (now : Int)
    (h : ∀ c, Project.loadConfig tree b.root = .ok c → SameUnweighted engine b b' c.settings) :
    (b.build engine tree now).outcome = (b'.build engine tree now).outcome := by
  obtain ⟨root, kept⟩ := b'
  obtain rfl : b.root = root := hroot
  cases hc : Project.loadConfig tree b.root with
  | error e =>
    exact (build_of_no_settings engine now hc).outcome.trans
      (build_of_no_settings (b := ⟨b.root, kept⟩) engine now hc).outcome.symm
  | ok c =>
    cases hfiles : (Project.markupFiles tree b.root c).isEmpty with
    | true =>
      exact (build_of_no_markup engine now hc hfiles).outcome.trans
        (build_of_no_markup (b := ⟨b.root, kept⟩) engine now hc hfiles).outcome.symm
    | false =>
      rcases h c hc with ⟨e, hk, hk'⟩ | ⟨k, k', hk, hk', hsame⟩
      · exact (build_of_refused now hc hfiles hk).outcome.trans
          (build_of_refused (b := ⟨b.root, kept⟩) now hc hfiles hk').outcome.symm
      rcases Project.produce_of_unweighted_eq hsame (Project.inputs tree b.root c) with
        ⟨e, hp, hp'⟩ | ⟨css, css', rules, hp, hp'⟩
      · exact (build_of_point now hc hfiles hk hp).outcome.trans
          (build_of_point (b := ⟨b.root, kept⟩) now hc hfiles hk' hp').outcome.symm
      · rw [(build_of_produce now hc hfiles hk hp).outcome,
          (build_of_produce (b := ⟨b.root, kept⟩) now hc hfiles hk' hp').outcome,
          Project.writeOutput_outcome tree (c.output b.root) css css' now]

/-- Passes with the same compiler leave the same tree. -/
theorem build_tree_congr {b b' : Builder} {engine : PatternEngine} (hroot : b.root = b'.root)
    {tree : Entry} (now : Int)
    (h : ∀ c, Project.loadConfig tree b.root = .ok c →
      b.compilerFor engine c.settings = b'.compilerFor engine c.settings) :
    (b.build engine tree now).tree = (b'.build engine tree now).tree := by
  unfold build
  rw [← hroot]
  cases hc : Project.loadConfig tree b.root with
  | error e => rfl
  | ok c =>
    simp only [h c hc]
    split
    · rfl
    · split
      · rfl
      · split
        · rfl
        · split <;> rfl

/-- A builder that has run holds a compiler for settings that it has read, if any. -/
theorem compiler_after (engine : PatternEngine) (root : Path) (earlier : List (Entry × Int)) :
    (after { root } engine earlier).root = root ∧
      ∀ k, (after { root } engine earlier).compiler = some k →
        ∃ state ∈ earlier, ∃ c, Project.loadConfig state.1 root = .ok c ∧
          Compiler.build engine c.settings = .ok k := by
  induction earlier using List.reverseRecOn with
  | nil => exact ⟨rfl, fun k hk => nomatch hk⟩
  | append_singleton earlier state ih =>
    obtain ⟨hroot, hcompiler⟩ := ih
    simp only [after, List.foldl_append, List.foldl_cons, List.foldl_nil]
    change ((after { root } engine earlier).build engine state.1 state.2).builder.root = root ∧
      ∀ k, ((after { root } engine earlier).build engine state.1 state.2).builder.compiler =
        some k → _
    generalize after { root } engine earlier = b at hroot hcompiler
    subst hroot
    have hold : ∀ k, b.compiler = some k → ∃ s ∈ earlier ++ [state], ∃ c,
        Project.loadConfig s.1 b.root = .ok c ∧ Compiler.build engine c.settings = .ok k := by
      intro k hk
      obtain ⟨s, hs, rest⟩ := hcompiler k hk
      exact ⟨s, List.mem_append_left _ hs, rest⟩
    rcases b.build_builder engine state.1 state.2 with hb | hb | ⟨c, used, hc, hused, hb⟩
    · rw [hb]
      exact ⟨rfl, hold⟩
    · rw [hb]
      exact ⟨rfl, fun k hk => nomatch hk⟩
    · rw [hb]
      refine ⟨rfl, fun k hk => ?_⟩
      obtain rfl := Option.some.inj hk
      rcases b.compilerFor_cases engine c.settings with hnew | ⟨k, hk, -, hkept⟩
      · exact ⟨state, by simp, c, hc, hnew ▸ hused⟩
      · obtain rfl := Except.ok.inj (hused.symm.trans hkept)
        exact hold _ hk

/-- Whether the compiler of a builder, if it has one, was built for some settings. -/
def IsBuilt (engine : PatternEngine) (b : Builder) : Prop :=
  ∀ k, b.compiler = some k → ∃ s, Compiler.build engine s = .ok k

/-- A compiler that was built for settings that count as the same differs in priorities only from
the one that is built now, and there is one. -/
theorem IsBuilt.sameUnweighted {b : Builder} {engine : PatternEngine} (hb : b.IsBuilt engine)
    (s : Settings) : SameUnweighted engine b { root := b.root } s := by
  rcases b.compilerFor_cases engine s with hnew | ⟨k, hk, hs, hkept⟩
  · rw [SameUnweighted, hnew, compilerFor_new]
    cases Compiler.build engine s with
    | error e => exact .inl ⟨e, rfl, rfl⟩
    | ok k => exact .inr ⟨k, k, rfl, rfl, rfl⟩
  · obtain ⟨old, hold⟩ := hb k hk
    obtain ⟨htaken, rfl⟩ := Compiler.build_eq_ok.1 hold
    have hsame := Compiler.ofSettings_unweighted (Settings.eq_or_flipsZero_of_beq hs).1
    have hpatterns : (Compiler.ofSettings s).patterns = (Compiler.ofSettings old).patterns :=
      (congrArg Matcher.patterns hsame).symm
    exact .inr ⟨_, _, hkept, Compiler.build_eq_ok.2 ⟨hpatterns ▸ htaken, rfl⟩, hsame⟩

/-- **A builder that has run before works like a new one, but for the order of rules where a zero
priority has changed its sign.** After any passes over any states of the project, the next pass has
the outcome that it has in a new builder, it compiles the same rules up to their order, and it
leaves the same files if the settings it reads differ from those read before, where they count as
the same, in the sign of no zero. -/
theorem build_after (engine : PatternEngine) (root : Path) (earlier : List (Entry × Int))
    (tree : Entry) (now : Int) :
    ((after { root } engine earlier).build engine tree now).outcome =
        (build { root } engine tree now).outcome ∧
      (∀ s names k g, Compiler.build engine s = .ok k → k.compile names = .ok g →
        ∃ k' g', (after { root } engine earlier).compilerFor engine s = .ok k' ∧
          k'.compile names = .ok g' ∧
          (g'.rules.map Rule.unweighted).Perm (g.rules.map Rule.unweighted)) ∧
      ((∀ state ∈ earlier, ∀ c c', Project.loadConfig state.1 root = .ok c →
          Project.loadConfig tree root = .ok c' → (c.settings == c'.settings) = true →
          ¬ c.settings.FlipsZero c'.settings) →
        ((after { root } engine earlier).build engine tree now).tree =
          (build { root } engine tree now).tree) := by
  obtain ⟨hroot, hcompiler⟩ := compiler_after engine root earlier
  generalize after { root } engine earlier = b at hroot hcompiler
  subst hroot
  have hroot : b.root = ({ root := b.root } : Builder).root := rfl
  have hbuilt : b.IsBuilt engine := by
    intro k hk
    obtain ⟨-, -, c, -, hk⟩ := hcompiler k hk
    exact ⟨c.settings, hk⟩
  have hused := hbuilt.sameUnweighted
  refine ⟨build_outcome_congr hroot now fun c _ => hused c.settings, ?_, ?_⟩
  · intro s names k g hk hg
    rcases hused s with ⟨e, -, he⟩ | ⟨k', k₁, hk', hk₁, hsame⟩
    · rw [compilerFor_new, hk] at he
      cases he
    · rw [compilerFor_new, hk] at hk₁
      obtain rfl := Except.ok.inj hk₁
      rcases Matcher.compile_of_unweighted_eq hsame names with
        ⟨e, -, he⟩ | ⟨g', g₁, hg', hg₁, hperm⟩
      · rw [hg] at he
        cases he
      · rw [hg] at hg₁
        obtain rfl := Except.ok.inj hg₁
        exact ⟨k', g', hk', hg', hperm⟩
  · intro hflips
    refine build_tree_congr hroot now fun c hc => ?_
    rw [compilerFor_new]
    rcases b.compilerFor_cases engine c.settings with h | ⟨k, hk, hs, h⟩
    · exact h
    · obtain ⟨state, hstate, c', hc', hbuilt⟩ := hcompiler k hk
      obtain ⟨-, rfl⟩ := Compiler.build_eq_ok.1 hbuilt
      rw [h, ← hbuilt]
      rcases (Settings.eq_or_flipsZero_of_beq hs).2 with heq | hflip
      · exact congrArg (Compiler.build engine) heq
      · exact absurd hflip (hflips state hstate c' c hc' hc hs)

/-! ### One page with two classes -/

deriving instance DecidableEq for ClassChange, Settings, StyleRoot, Config, Rule

/-- Settings that give the margin priority zero and the padding the priority `x`. -/
def pairConfig (x : Float) : Config where
  settings.classes := [("m", { priority := some 0.0 }), ("p", { priority := some x })]
  templatePath := some "template"

/-- A project of one page with a margin and a padding, whose priority is spelled by `number`. -/
def pairProject (number : Text) : Entry :=
  .folder
    [(Config.fileName, .file (some ("\x7b\"TEMPLATE_PATH\": \"template\", "
      ++ "\"SET_CLASSES\": \x7b\"m\": \x7b\"priority\": 0\x7d, "
      ++ "\"p\": \x7b\"priority\": " ++ number ++ "\x7d\x7d\x7d")) 0),
     ("index.html", .file (some "<p class='m-1 p-1'>") 0),
     ("template", .file (some "---standard---") 0)] 0

/-- The root of a file tree. -/
def pairRoot : Path := { rooted := true, steps := [] }

/-- A number that is spelled differently is the same priority. -/
theorem build_after_pair :
    ((after { root := pairRoot } .unlimited [(pairProject "-1", 0), (.emptyFolder 0, 1)]).build
      .unlimited (pairProject "-10e-1") 2).tree =
        (build { root := pairRoot } .unlimited (pairProject "-10e-1") 2).tree := by
  refine (build_after .unlimited pairRoot [(pairProject "-1", 0), (.emptyFolder 0, 1)]
    (pairProject "-10e-1") 2).2.2 fun state hstate c c' hc hc' _ => ?_
  have hsecond : Project.loadConfig (pairProject "-10e-1") pairRoot =
      .ok (pairConfig (-1.0)) := by
    decide +kernel
  have hfirst : Project.loadConfig (pairProject "-1") pairRoot =
      .ok (pairConfig (-1.0)) := by
    decide +kernel
  obtain rfl := Except.ok.inj (hc'.symm.trans hsecond)
  simp only [List.mem_cons, List.not_mem_nil, or_false] at hstate
  rcases hstate with rfl | rfl
  · obtain rfl := Except.ok.inj (hc.symm.trans hfirst)
    exact Settings.not_flipsZero_self _
  · cases hc

/-- What a pass leaves when nothing goes wrong before the file is written. -/
theorem build_tree_of_compile {b : Builder} {engine : PatternEngine} {tree : Entry} {c : Config}
    {k : Compiler} {g : RuleGroups} (now : Int) (hc : Project.loadConfig tree b.root = .ok c)
    (hfiles : (Project.markupFiles tree b.root c).isEmpty = false)
    (hk : b.compilerFor engine c.settings = .ok k)
    (hg : k.compile (Project.inputs tree b.root c).classes = .ok g) :
    (b.build engine tree now).tree = (Project.writeOutput tree (c.output b.root)
      (Assembly.assemble (Project.inputs tree b.root c).template g
        (Project.inputs tree b.root c).author (Project.inputs tree b.root c).mode) now).1 :=
  (build_of_produce now hc hfiles hk (Project.produce_of_compile hg)).tree

/-- The two rules of the page. -/
def marginRule : Rule where
  selector := "m-1"
  declarations := [⟨"margin", "0.1rem", false⟩]
  breakpoint := none
  weight := 0.0

/-- The rule of the padding, of priority `x`. -/
def paddingRule (x : Float) : Rule where
  selector := "p-1"
  declarations := [⟨"padding", "0.1rem", false⟩]
  breakpoint := none
  weight := x

theorem ofRules_pair (a b : Rule) :
    RuleGroups.ofRules [a, b] = ⟨if weightLe a.weight b.weight then [a, b] else [b, a]⟩ := by
  simp only [RuleGroups.ofRules, List.mergeSort, List.MergeSort.Internal.splitInTwo]
  simp [List.merge]

/-- With zero for both priorities the margin comes first. If the second zero then changes its sign,
a new builder puts the padding first, and a builder that has run before does not. -/
theorem build_after_fails :
    ((after { root := pairRoot } .unlimited [(pairProject "0.0", 0)]).build .unlimited
        (pairProject "-0.0") 1).tree ≠
      (build { root := pairRoot } .unlimited (pairProject "-0.0") 1).tree := by
  have hplain : Project.loadConfig (pairProject "0.0") pairRoot =
      .ok (pairConfig 0.0) := by
    decide +kernel
  have hsigned : Project.loadConfig (pairProject "-0.0") pairRoot =
      .ok (pairConfig (-0.0)) := by
    decide +kernel
  have hrules : ∀ x ∈ [0.0, -0.0],
      Resolution.collect ((Compiler.ofSettings (pairConfig x).settings).resolutions
        (Project.inputs (pairProject "-0.0") pairRoot
          (pairConfig (-0.0))).classes) = .ok [marginRule, paddingRule x] := by
    decide +kernel
  have hcompile : ∀ x ∈ [0.0, -0.0], (Compiler.ofSettings (pairConfig x).settings).compile
      (Project.inputs (pairProject "-0.0") pairRoot (pairConfig (-0.0))).classes =
      .ok (RuleGroups.ofRules [marginRule, paddingRule x]) := by
    intro x hx
    rw [Matcher.compile, hrules x hx]
    rfl
  have hbuilder : after { root := pairRoot } .unlimited [(pairProject "0.0", 0)] =
      { root := pairRoot, compiler := some (.ofSettings (pairConfig 0.0).settings) } := by
    have hfiles : (Project.markupFiles (pairProject "0.0") pairRoot
        (pairConfig 0.0)).isEmpty = false := by
      decide +kernel
    have hkept := build_builder_of_files (b := { root := pairRoot }) 0 hplain hfiles
      (Compiler.build_unlimited _)
    rw [after, List.foldl_cons, List.foldl_nil, hkept]
  have hsame : ((Compiler.ofSettings (pairConfig 0.0).settings).settings ==
      (pairConfig (-0.0)).settings) = true := by
    decide +kernel
  have hfiles : (Project.markupFiles (pairProject "-0.0") pairRoot
      (pairConfig (-0.0))).isEmpty = false := by
    decide +kernel
  have hkept : compilerFor
      { root := pairRoot, compiler := some (.ofSettings (pairConfig 0.0).settings) } .unlimited
      (pairConfig (-0.0)).settings = .ok (.ofSettings (pairConfig 0.0).settings) :=
    compilerFor_of_beq .unlimited rfl hsame
  have hnewTree := build_tree_of_compile (b := { root := pairRoot }) 1 hsigned hfiles
    (Compiler.build_unlimited _) (hcompile (-0.0) (List.mem_cons_of_mem _ List.mem_cons_self))
  have hkeptTree := build_tree_of_compile
    (b := { root := pairRoot, compiler := some (.ofSettings (pairConfig 0.0).settings) })
    1 hsigned hfiles hkept (hcompile 0.0 List.mem_cons_self)
  rw [ofRules_pair, Project.author_of_no_places rfl] at hnewTree hkeptTree
  rw [hbuilder, hnewTree, hkeptTree]
  intro h
  have hread := congrArg (fun tree : Entry =>
    (tree.read ((pairRoot.child "build").child Config.defaultOutput)).toOption) h
  revert hread
  decide +kernel

end Builder

end UtilitySheet
