import Mathlib.Data.List.Forall2
import Mathlib.Data.List.Nodup
import UtilitySheet.Compiler

/-!
# What settings keep of the class table

`ClassTable.apply_eq_ok` says all that a successful change does. What holds of the built-in table
and is kept by each change that succeeds holds of the table of every compiler
(`Compiler.classes_induction`); the first such property is `ClassTable.Sound`: keys stay distinct,
and what a class fixes stays as it was built in.
-/

namespace UtilitySheet

namespace ClassTable

/-! ## One change -/

/-- A change succeeds exactly if it finds its class, can read its unit and takes the key of no
other class; then it revises that class and nothing else. -/
theorem apply_eq_ok {t t' : ClassTable} {key : Text} {change : ClassChange} {b : Bool} :
    t.apply key change = .ok (t', b) ↔
      ∃ d unit, t.find? key = some d ∧ readUnit change = .ok unit ∧
        (∀ target, change.rename = some target → t.collides key target = false) ∧
        t' = ⟨t.classes.map fun e => if e.key == key then e.revised unit change else e⟩ ∧
        b = d.isChangedBy change := by
  unfold apply
  cases hd : t.find? key with
  | none => simp [throw, throwThe, MonadExceptOf.throw]
  | some d =>
    cases hu : readUnit change with
    | error e => simp [bind, Except.bind]
    | ok unit =>
      cases hr : change.rename with
      | none =>
        simp only [bind, Except.bind, pure, Except.pure]
        grind
      | some target =>
        cases hc : t.collides key target with
        | true => simp [bind, Except.bind, throw, throwThe, MonadExceptOf.throw, hc]
        | false =>
          simp only [bind, Except.bind, pure, Except.pure, hc]
          grind

theorem find?_eq_some {t : ClassTable} {key : Text} {d : ClassDef} (h : t.find? key = some d) :
    d ∈ t.classes ∧ d.key = key :=
  ⟨List.mem_of_find?_eq_some h, by simpa using List.find?_some h⟩

theorem find?_eq_none {t : ClassTable} {key : Text} :
    t.find? key = none ↔ key ∉ t.classes.map ClassDef.key := by
  simp [find?, List.mem_map]

/-! ## Sound tables -/

/-- What a class keeps of the class that was built in at its place. -/
structure Keeps (s : ClassSeed) (d : ClassDef) : Prop where
  properties : d.properties = s.properties
  family : d.family = s.family
  configurable : d.configurable = s.configurable
  unit : s.configurable = false → d.unit = s.unit
  precision : s.configurable = false → d.precision = s.precision

/-- A table of distinct keys in which each place keeps what is fixed there. -/
structure Sound (t : ClassTable) : Prop where
  nodup : (t.classes.map ClassDef.key).Nodup
  keeps : List.Forall₂ Keeps seeds t.classes

theorem sound_builtin : Sound builtin where
  nodup := by decide
  keeps := by
    refine List.forall₂_iff_get.2 ⟨by simp [builtin], fun i hs hd => ?_⟩
    simp only [builtin, List.get_eq_getElem, List.getElem_mapIdx]
    exact ⟨rfl, rfl, rfl, fun _ => rfl, fun _ => rfl⟩

theorem Keeps.revised {s : ClassSeed} {d : ClassDef} (h : Keeps s d) (unit : Option ValueUnit)
    (change : ClassChange) : Keeps s (d.revised unit change) where
  properties := h.properties
  family := h.family
  configurable := h.configurable
  unit hs := by simp [ClassDef.revised, h.configurable, hs, h.unit hs]
  precision hs := by simp [ClassDef.revised, h.configurable, hs, h.precision hs]

/-- Keys stay distinct if the class `key` takes a key that is new, or its own. -/
theorem nodup_revised {classes : List ClassDef} {key : Text} {unit : Option ValueUnit}
    {change : ClassChange} (hnodup : (classes.map ClassDef.key).Nodup)
    (hnew : ∀ target, change.rename = some target →
      target = key ∨ target ∉ classes.map ClassDef.key) :
    ((classes.map fun e => if e.key == key then e.revised unit change else e).map
      ClassDef.key).Nodup := by
  let rekey (k : Text) : Text := if k = key then change.rename.getD k else k
  have hmap : (classes.map fun e => if e.key == key then e.revised unit change else e).map
      ClassDef.key = (classes.map ClassDef.key).map rekey := by
    simp only [List.map_map]
    refine List.map_congr_left fun e _ => ?_
    by_cases he : e.key = key <;> simp [rekey, ClassDef.revised, he]
  rw [hmap]
  refine hnodup.map_on fun a ha c hc hac => ?_
  cases hr : change.rename with
  | none => simpa [rekey, hr] using hac
  | some target =>
    have htarget := hnew target hr
    simp only [rekey, hr, Option.getD_some] at hac
    split at hac <;> split at hac
    · simp_all
    · subst hac; rcases htarget with h | h
      · simp_all
      · exact absurd hc h
    · subst hac; rcases htarget with h | h
      · simp_all
      · exact absurd ha h
    · exact hac

theorem Sound.apply {t t' : ClassTable} {key : Text} {change : ClassChange} {b : Bool}
    (h : Sound t) (happly : t.apply key change = .ok (t', b)) : Sound t' := by
  obtain ⟨d, unit, -, -, hfree, rfl, -⟩ := apply_eq_ok.1 happly
  refine ⟨nodup_revised h.nodup fun target htarget => ?_, ?_⟩
  · have hc := hfree target htarget
    by_cases heq : target = key
    · exact .inl heq
    · refine .inr (find?_eq_none.1 ?_)
      simpa [collides, heq] using hc
  · rw [List.forall₂_map_right_iff]
    refine h.keeps.imp fun s d hd => ?_
    split
    · exact hd.revised unit change
    · exact hd

/-- In a sound table a class is found by its own key. -/
theorem Sound.find?_key {t : ClassTable} (h : Sound t) {d : ClassDef} (hd : d ∈ t.classes) :
    t.find? d.key = some d := by
  cases hf : t.find? d.key with
  | none => exact absurd (List.mem_map_of_mem hd) (find?_eq_none.1 hf)
  | some e =>
    obtain ⟨he, hkey⟩ := find?_eq_some hf
    rw [List.inj_on_of_nodup_map h.nodup he hd hkey]

/-- Every class stands in the place of a class that was built in. -/
theorem Sound.exists_seed {t : ClassTable} (h : Sound t) {d : ClassDef} (hd : d ∈ t.classes) :
    ∃ s ∈ seeds, Keeps s d := by
  obtain ⟨hlength, hget⟩ := List.forall₂_iff_get.1 h.keeps
  obtain ⟨i, hi, rfl⟩ := List.mem_iff_getElem.1 hd
  exact ⟨_, List.getElem_mem (hlength ▸ hi), hget i (hlength ▸ hi) hi⟩

/-- Only classes of a family of numbers count in a unit. -/
theorem Sound.takesUnit {t : ClassTable} (h : Sound t) {d : ClassDef} (hd : d ∈ t.classes)
    {u : NumericUnit} (hu : d.unit = .numeric u) : d.family.language.takesUnit = true := by
  have hseeds : ∀ s ∈ seeds, s.family.language.takesUnit = true ∨
      s.configurable = false ∧ ∀ u ∈ NumericUnit.all, s.unit ≠ .numeric u := by decide
  obtain ⟨s, hs, hk⟩ := h.exists_seed hd
  rcases hseeds s hs with hf | ⟨hfixed, hunit⟩
  · rw [hk.family]; exact hf
  · exact absurd ((hk.unit hfixed).symm.trans hu) (hunit u (NumericUnit.mem_all u))

end ClassTable

/-! ## Tables of compilers -/

namespace CompilerDraft

theorem tryClass_classes (d : CompilerDraft) (setting : Text × ClassChange) :
    (d.tryClass setting).classes = d.classes ∨
      ∃ b, d.classes.apply setting.1 setting.2 = .ok ((d.tryClass setting).classes, b) := by
  unfold tryClass changeClass
  cases h : d.classes.apply setting.1 setting.2 with
  | error e => exact .inl rfl
  | ok r => exact .inr ⟨r.2, rfl⟩

theorem tryPrecision_classes (d : CompilerDraft) (setting : Text × Nat) :
    (d.tryPrecision setting).classes = d.classes := by
  unfold tryPrecision setPrecision
  cases NumericUnit.named? setting.1 <;> rfl

theorem tryClass_precisions (d : CompilerDraft) (setting : Text × ClassChange) :
    (d.tryClass setting).precisions = d.precisions := by
  unfold tryClass changeClass
  cases d.classes.apply setting.1 setting.2 <;> rfl

theorem tryPrecision_precisions (d : CompilerDraft) (setting : Text × Nat) :
    (d.tryPrecision setting).precisions = d.precisions ∨
      ∃ unit, (d.tryPrecision setting).precisions = d.precisions.set unit setting.2 := by
  unfold tryPrecision setPrecision
  cases NumericUnit.named? setting.1 with
  | none => exact .inl rfl
  | some unit => exact .inr ⟨unit, rfl⟩

end CompilerDraft

namespace Compiler

/-- What holds of the built-in table and is kept by every change that succeeds holds of the table
of a compiler. -/
theorem classes_induction {P : ClassTable → Prop} {s : Settings} (hbuiltin : P .builtin)
    (happly : ∀ t t' b, ∀ setting ∈ s.classes, P t →
      t.apply setting.1 setting.2 = .ok (t', b) → P t') : P (ofSettings s).classes := by
  have hdraft : P (classDraft s).classes := by
    refine List.foldlRecOn (motive := fun d : CompilerDraft => P d.classes) s.classes _ hbuiltin
      fun d hd setting hmem => ?_
    rcases d.tryClass_classes setting with h | ⟨b, h⟩
    · rw [h]; exact hd
    · exact happly _ _ b setting hmem hd h
  exact List.foldlRecOn (motive := fun d : CompilerDraft => P d.classes) s.precisions _ hdraft
    fun d hd setting _ => by rw [d.tryPrecision_classes setting]; exact hd

/-- The table of a compiler is sound. -/
theorem sound_classes (s : Settings) : (ofSettings s).classes.Sound :=
  classes_induction ClassTable.sound_builtin fun _ _ _ _ _ h happly => h.apply happly

/-- What holds of the standard precisions and is kept by every precision that is set holds of the
precisions of a compiler. -/
theorem precisions_induction {P : PrecisionTable → Prop} {s : Settings} (hstandard : P .standard)
    (hset : ∀ t unit, ∀ setting ∈ s.precisions, P t → P (t.set unit setting.2)) :
    P (ofSettings s).precisions := by
  have hdraft : P (classDraft s).precisions :=
    List.foldlRecOn (motive := fun d : CompilerDraft => P d.precisions) s.classes _ hstandard
      fun d hd setting _ => by rw [d.tryClass_precisions setting]; exact hd
  refine List.foldlRecOn (motive := fun d : CompilerDraft => P d.precisions) s.precisions _ hdraft
    fun d hd setting hmem => ?_
  rcases d.tryPrecision_precisions setting with h | ⟨unit, h⟩
  · rw [h]; exact hd
  · rw [h]; exact hset _ unit setting hmem hd

end Compiler

end UtilitySheet
