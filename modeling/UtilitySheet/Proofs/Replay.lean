import UtilitySheet.Proofs.ClassTable

/-!
# Replaying recorded settings

A draft records the settings that it takes, and a setting that fails leaves it as it was. Settings
for classes and for units do not meet, so it does not matter in which order the two kinds are made;
a compiler of the recorded settings is therefore the compiler that was configured
(`ofSettings_replay`). What fails in a list of settings may as well be left out.
-/

namespace UtilitySheet

/-- One setting: a change to a class, or the precision of a unit. -/
inductive Setting where
  | changeClass (key : Text) (change : ClassChange)
  | setPrecision (name : Text) (places : Nat)

namespace CompilerDraft

/-- The draft with one more setting, if it can be applied. -/
def take (d : CompilerDraft) : Setting → CompilerDraft
  | .changeClass key change => d.tryClass (key, change)
  | .setPrecision name places => d.tryPrecision (name, places)

/-- The draft after settings of either kind, in any order. -/
def takeAll (d : CompilerDraft) (settings : List Setting) : CompilerDraft := settings.foldl take d

/-- The settings for classes that do not fail, one after the other. -/
def acceptedClasses (d : CompilerDraft) :
    List (Text × ClassChange) → List (Text × ClassChange)
  | [] => []
  | setting :: settings =>
    match d.changeClass setting.1 setting.2 with
    | .ok (d', _) => setting :: d'.acceptedClasses settings
    | .error _ => d.acceptedClasses settings

/-- The settings for units that do not fail, one after the other. -/
def acceptedPrecisions (d : CompilerDraft) : List (Text × Nat) → List (Text × Nat)
  | [] => []
  | setting :: settings =>
    match d.setPrecision setting.1 setting.2 with
    | .ok d' => setting :: d'.acceptedPrecisions settings
    | .error _ => d.acceptedPrecisions settings

end CompilerDraft

/-- The settings without those that fail when they are applied in order. -/
def Settings.accepted (s : Settings) : Settings where
  classes := CompilerDraft.acceptedClasses {} s.classes
  precisions := (Compiler.classDraft s).acceptedPrecisions s.precisions

namespace CompilerDraft

/-! ## One setting -/

theorem tryClass_of_error {d : CompilerDraft} {setting : Text × ClassChange} {e : SettingError}
    (h : d.classes.apply setting.1 setting.2 = .error e) : d.tryClass setting = d := by
  rw [tryClass, changeClass, h]
  rfl

theorem tryClass_of_ok {d : CompilerDraft} {setting : Text × ClassChange} {t : ClassTable}
    {b : Bool} (h : d.classes.apply setting.1 setting.2 = .ok (t, b)) :
    d.tryClass setting =
      { d with classes := t, settings.classes := d.settings.classes ++ [setting] } := by
  rw [tryClass, changeClass, h]
  rfl

theorem tryPrecision_of_none {d : CompilerDraft} {setting : Text × Nat}
    (h : NumericUnit.named? setting.1 = none) : d.tryPrecision setting = d := by
  rw [tryPrecision, setPrecision, h]

theorem tryPrecision_of_some {d : CompilerDraft} {setting : Text × Nat} {unit : NumericUnit}
    (h : NumericUnit.named? setting.1 = some unit) :
    d.tryPrecision setting =
      { d with
        precisions := d.precisions.set unit setting.2
        settings.precisions := d.settings.precisions ++ [setting] } := by
  rw [tryPrecision, setPrecision, h]

/-- Settings of the two kinds do not meet. -/
theorem tryPrecision_tryClass (d : CompilerDraft) (change : Text × ClassChange)
    (setting : Text × Nat) :
    (d.tryClass change).tryPrecision setting = (d.tryPrecision setting).tryClass change := by
  cases hunit : NumericUnit.named? setting.1 with
  | none => rw [tryPrecision_of_none hunit, tryPrecision_of_none hunit]
  | some unit =>
    have hclasses := d.tryPrecision_classes setting
    cases happly : d.classes.apply change.1 change.2 with
    | error e =>
      rw [tryClass_of_error happly, tryClass_of_error (hclasses ▸ happly)]
    | ok r =>
      rw [tryClass_of_ok happly, tryClass_of_ok (hclasses ▸ happly), tryPrecision_of_some hunit,
        tryPrecision_of_some hunit]

theorem foldl_tryPrecision_tryClass (d : CompilerDraft) (change : Text × ClassChange)
    (settings : List (Text × Nat)) :
    settings.foldl tryPrecision (d.tryClass change) =
      (settings.foldl tryPrecision d).tryClass change := by
  induction settings generalizing d with
  | nil => rfl
  | cons setting settings ih =>
    rw [List.foldl_cons, tryPrecision_tryClass, ih]
    rfl

/-! ## What is recorded -/

theorem settings_foldl_tryClass (d : CompilerDraft) (settings : List (Text × ClassChange)) :
    (settings.foldl tryClass d).settings =
      { d.settings with classes := d.settings.classes ++ d.acceptedClasses settings } := by
  induction settings generalizing d with
  | nil => rw [acceptedClasses, List.append_nil]; rfl
  | cons setting settings ih =>
    rw [List.foldl_cons, ih, acceptedClasses, changeClass]
    cases happly : d.classes.apply setting.1 setting.2 with
    | error e => rw [tryClass_of_error happly]; rfl
    | ok r => simp [tryClass_of_ok happly, Except.map]

theorem settings_foldl_tryPrecision (d : CompilerDraft) (settings : List (Text × Nat)) :
    (settings.foldl tryPrecision d).settings =
      { d.settings with precisions := d.settings.precisions ++ d.acceptedPrecisions settings } := by
  induction settings generalizing d with
  | nil => rw [acceptedPrecisions, List.append_nil]; rfl
  | cons setting settings ih =>
    rw [List.foldl_cons, ih, acceptedPrecisions, setPrecision]
    cases hunit : NumericUnit.named? setting.1 with
    | none => rw [tryPrecision_of_none hunit]
    | some unit => simp [tryPrecision_of_some hunit]

end CompilerDraft

namespace Compiler

open CompilerDraft

/-- The settings that a draft has taken make the same draft again. -/
def Replays (d : CompilerDraft) : Prop := draft d.settings = d

/-- One more setting for a class is the last one of its kind, and it could as well be the last of
all. -/
theorem Replays.tryClass {d : CompilerDraft} (h : Replays d) (setting : Text × ClassChange) :
    Replays (d.tryClass setting) := by
  cases happly : d.classes.apply setting.1 setting.2 with
  | error e => rwa [tryClass_of_error happly]
  | ok r =>
    have hsettings : (d.tryClass setting).settings =
        { d.settings with classes := d.settings.classes ++ [setting] } := by
      rw [tryClass_of_ok happly]
    rw [Replays, draft, classDraft, hsettings, List.foldl_append, List.foldl_cons, List.foldl_nil,
      foldl_tryPrecision_tryClass]
    exact congrArg (CompilerDraft.tryClass · setting) h

theorem Replays.tryPrecision {d : CompilerDraft} (h : Replays d) (setting : Text × Nat) :
    Replays (d.tryPrecision setting) := by
  cases hunit : NumericUnit.named? setting.1 with
  | none => rwa [tryPrecision_of_none hunit]
  | some unit =>
    have hsettings : (d.tryPrecision setting).settings =
        { d.settings with precisions := d.settings.precisions ++ [setting] } := by
      rw [tryPrecision_of_some hunit]
    rw [Replays, draft, classDraft, hsettings, List.foldl_append, List.foldl_cons, List.foldl_nil]
    exact congrArg (CompilerDraft.tryPrecision · setting) h

/-- **Whatever settings a draft is given, those it has taken make it again.** -/
theorem replays_takeAll (settings : List Setting) : Replays (takeAll {} settings) := by
  refine List.foldlRecOn (motive := Replays) settings _ rfl fun d hd setting _ => ?_
  cases setting with
  | changeClass key change => exact hd.tryClass (key, change)
  | setPrecision name places => exact hd.tryPrecision (name, places)

/-- A compiler that is configured setting by setting is the compiler of the settings it has
taken. -/
theorem Replays.ofSettings_eq {d : CompilerDraft} (h : Replays d) :
    ofSettings d.finish.settings = d.finish := by
  have hdraft : draft d.finish.settings = d := h
  rw [ofSettings, hdraft]

/-- The draft of settings is one that was given settings, first those for classes. -/
theorem draft_eq_takeAll (s : Settings) :
    draft s = takeAll {} (s.classes.map (fun c => .changeClass c.1 c.2) ++
      s.precisions.map fun p => .setPrecision p.1 p.2) := by
  rw [takeAll, List.foldl_append, List.foldl_map, List.foldl_map]
  rfl

/-- The draft of settings has taken those that do not fail. -/
theorem settings_draft (s : Settings) : (draft s).settings = s.accepted := by
  rw [draft, settings_foldl_tryPrecision, classDraft, settings_foldl_tryClass]
  rfl

/-- **A compiler that was configured by settings of either kind, in any order and with any of them
failing, is the compiler of the settings that it has recorded. A compiler of settings has the tables
and patterns of the compiler of those that do not fail, and of these none fails.** -/
theorem ofSettings_replay :
    (∀ settings : List Setting,
      ofSettings (takeAll {} settings).finish.settings = (takeAll {} settings).finish) ∧
    ∀ s : Settings, (ofSettings s).toMatcher = (ofSettings s.accepted).toMatcher ∧
      s.accepted.accepted = s.accepted := by
  refine ⟨fun settings => (replays_takeAll settings).ofSettings_eq, fun s => ?_⟩
  have hreplays : Replays (draft s) := draft_eq_takeAll s ▸ replays_takeAll _
  have hagain : draft s.accepted = draft s := settings_draft s ▸ hreplays
  constructor
  · rw [ofSettings, ofSettings, hagain]
  · rw [← settings_draft s.accepted, hagain, settings_draft]

end Compiler

end UtilitySheet
