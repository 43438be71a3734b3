import UtilitySheet.ClassName
import UtilitySheet.Numeral
import UtilitySheet.Rule

/-!
# The compiler

A compiler holds the class table, the precision of each unit and the patterns that read class
names. It turns class names into rules: every pattern reads all names, each reading is resolved
against the tables, and the rules are sorted by weight. A reading may be skipped, which is said in
a notice; a number whose point cannot be placed ends the compilation.
-/

namespace UtilitySheet

/-! ## Notices -/

namespace Notice

/-- A reading whose key is not in the class table. -/
def unknownClass (key : Text) : Notice :=
  ⟨.debug, "unknown utility class `" ++ key ++ "`, skipping"⟩

/-- A unit on a class that takes none. -/
def unitRefused (key unit name : Text) : Notice :=
  ⟨.debug, "class `" ++ key ++ "` does not accept unit `" ++ unit ++ "`, skipping `" ++ name
    ++ "`"⟩

/-- A compiler was put together. -/
def compilerReady (families classes : Nat) : Notice :=
  ⟨.debug, "compiled " ++ Text.ofNat families ++ " pattern families over " ++ Text.ofNat classes
    ++ " classes"⟩

/-- A setting for a class could not be applied. -/
def classSkipped (key : Text) (e : SettingError) : Notice :=
  ⟨.error, "class override `" ++ key ++ "` skipped: " ++ e.message⟩

/-- A setting for a unit could not be applied. -/
def precisionSkipped (name : Text) (e : SettingError) : Notice :=
  ⟨.error, "unit precision `" ++ name ++ "` skipped: " ++ e.message⟩

end Notice

/-! ## Resolving one reading -/

/-- Why a reading gives no rule. -/
inductive SkipReason where
  | unknownClass (key : Text)
  /-- The unit is no unit, or one that does not show. -/
  | unknownUnit (unit : Text)
  | unitRefused (key unit name : Text)
  deriving DecidableEq, Repr

namespace SkipReason

/-- What is said about a skipped reading; an unknown unit is skipped in silence. -/
def notices : SkipReason → List Notice
  | unknownClass key => [.unknownClass key]
  | unknownUnit _ => []
  | unitRefused key unit name => [.unitRefused key unit name]

end SkipReason

/-- What becomes of a reading. -/
inductive Resolution (α : Type) where
  | emitted (result : α)
  | skipped (reason : SkipReason)
  | failed (error : PointError)

namespace Resolution

variable {α β : Type}

/-- Goes on with what was emitted. -/
def bind (r : Resolution α) (f : α → Resolution β) : Resolution β :=
  match r with
  | emitted a => f a
  | skipped reason => skipped reason
  | failed e => failed e

/-- The results up to the first failure, which ends them. -/
def collect : List (Resolution α) → Except PointError (List α)
  | [] => .ok []
  | emitted a :: rs => (collect rs).map (a :: ·)
  | skipped _ :: rs => collect rs
  | failed e :: _ => .error e

/-- The notices up to the first failure. -/
def notices : List (Resolution α) → List Notice
  | [] => []
  | emitted _ :: rs => notices rs
  | skipped reason :: rs => reason.notices ++ notices rs
  | failed _ :: _ => []

end Resolution

namespace ClassName

/-- The weight of the name's rule: the class priority, one half more if it is important, and one
quarter more if it names its unit. -/
def weight (name : ClassName) (priority : Float) : Float :=
  let weight := if name.important then priority + 0.5 else priority
  if name.unit.isSome then weight + 0.25 else weight

end ClassName

/-- What a matcher needs: the tables to resolve against and the patterns to read with. -/
structure Matcher where
  classes : ClassTable
  precisions : PrecisionTable
  patterns : List Pattern

namespace Matcher

/-- The class names that the patterns read, pattern by pattern. -/
def tokenize (m : Matcher) (names : List Text) : List (ClassName × Family) :=
  m.patterns.flatMap fun p => (p.scan (spaced names)).map (·, p.family)

/-- The unit of a name of a numeric class: the one it names, if the class takes it, else the one
of the class. -/
def effectiveUnit (d : ClassDef) (default : NumericUnit) (name : ClassName) :
    Resolution NumericUnit :=
  match name.unit with
  | none => .emitted default
  | some key =>
    match NumericUnit.named? key with
    | some unit =>
      if !unit.isSuffix then .skipped (.unknownUnit key)
      else if d.configurable then .emitted unit
      else .skipped (.unitRefused d.key key name.text)
    | none => .skipped (.unknownUnit key)

/-- A numeric value with its unit: reserved words stay as they are, a low line is the decimal
point, and any other number gets its point from the precision. -/
def numericValue (precision : Nat) (unit : NumericUnit) (payload : Text) : Resolution Text :=
  if reservedValues.contains payload then .emitted payload
  else
    match payload.span (· != '_') with
    | (whole, '_' :: decimals) => .emitted (whole ++ "." ++ decimals ++ unit.symbol)
    | _ =>
      match Numeral.place payload precision with
      | .ok number => .emitted (number ++ unit.symbol)
      | .error e => .failed e

/-- The value that a name gives its properties. -/
def value (m : Matcher) (d : ClassDef) (name : ClassName) (f : Family) : Resolution Text :=
  match d.unit with
  | .color => .emitted (if isHexColor name.value then '#' :: name.value else name.value)
  | .keyword => .emitted ((f.meaning? name.value).getD name.value)
  | .numeric default =>
    (effectiveUnit d default name).bind fun unit =>
      numericValue (d.precision.getD (m.precisions.of unit)) unit name.value

/-- The rule of a class name that was read for a family. -/
def resolve (m : Matcher) (name : ClassName) (f : Family) : Resolution Rule :=
  match m.classes.find? name.key with
  | none => .skipped (.unknownClass name.key)
  | some d =>
    (m.value d name f).bind fun value => .emitted
      { selector := name.text ++ (name.pseudo.bind PseudoClass.selector?).getD []
        declarations := d.properties.map fun property =>
          { property, value, important := name.important }
        breakpoint := name.breakpoint.bind Breakpoint.named?
        weight := name.weight d.priority }

/-- What becomes of each reading of the class names. -/
def resolutions (m : Matcher) (names : List Text) : List (Resolution Rule) :=
  (m.tokenize names).map fun (name, f) => m.resolve name f

/-- The rules of the class names. -/
def compile (m : Matcher) (names : List Text) : Except PointError RuleGroups :=
  (Resolution.collect (m.resolutions names)).map RuleGroups.ofRules

/-- The notices of a compilation. -/
def notices (m : Matcher) (names : List Text) : List Notice :=
  Resolution.notices (m.resolutions names)

end Matcher

/-! ## Patterns that are refused -/

/-- The engine that patterns are compiled for. -/
structure PatternEngine where
  /-- The reason for which a pattern is refused, if it is. -/
  refusal? : Pattern → Option Text

/-- A pattern that the engine refused. -/
structure PatternError where
  family : Family
  reason : Text
  deriving DecidableEq, Repr

/-- The error in words. -/
def PatternError.message (e : PatternError) : Text :=
  "invalid pattern for family " ++ e.family.name ++ ": " ++ e.reason

namespace PatternEngine

/-- The engine that takes every pattern. -/
def unlimited : PatternEngine where
  refusal? _ := none

/-- The first of the patterns that is refused. -/
def refused? (engine : PatternEngine) (patterns : List Pattern) : Option PatternError :=
  patterns.findSome? fun p => (engine.refusal? p).map (PatternError.mk p.family)

@[simp] theorem refused?_unlimited (patterns : List Pattern) :
    unlimited.refused? patterns = none := by
  simp [refused?, unlimited]

end PatternEngine

/-! ## Settings -/

/-- Changes to classes and to the precision of units, in the order in which they are applied. -/
structure Settings where
  classes : List (Text × ClassChange) := []
  precisions : List (Text × Nat) := []
  deriving BEq

namespace Settings

/-- Whether nothing is changed. -/
def isEmpty (s : Settings) : Bool := s.classes.isEmpty && s.precisions.isEmpty

end Settings

/-- A compiler that is still being configured, and the settings it has taken so far. -/
structure CompilerDraft where
  classes : ClassTable := .builtin
  precisions : PrecisionTable := .standard
  settings : Settings := {}

/-- A configured compiler. -/
structure Compiler extends Matcher where
  settings : Settings

namespace CompilerDraft

/-- Changes a class, and says whether anything was set. -/
def changeClass (d : CompilerDraft) (key : Text) (change : ClassChange) :
    Except SettingError (CompilerDraft × Bool) :=
  (d.classes.apply key change).map fun (classes, changed) =>
    ({ d with classes, settings.classes := d.settings.classes ++ [(key, change)] }, changed)

/-- Sets the precision of the unit with this name. -/
def setPrecision (d : CompilerDraft) (name : Text) (places : Nat) :
    Except SettingError CompilerDraft :=
  match NumericUnit.named? name with
  | none => .error (.unknownUnit name)
  | some unit => .ok
    { d with
      precisions := d.precisions.set unit places
      settings.precisions := d.settings.precisions ++ [(name, places)] }

/-- The compiler with the settings taken so far. -/
def finish (d : CompilerDraft) : Compiler :=
  { classes := d.classes, precisions := d.precisions, patterns := d.classes.patterns,
    settings := d.settings }

/-- The notices of `finish`. -/
def finishNotices (d : CompilerDraft) : List Notice :=
  [.compilerReady d.classes.patterns.length d.classes.classes.length]

/-- Finishes the compiler if the engine takes its patterns. -/
def build (d : CompilerDraft) (engine : PatternEngine) : Except PatternError Compiler :=
  match engine.refused? d.classes.patterns with
  | some e => .error e
  | none => .ok d.finish

/-- The notices of `build`. -/
def buildNotices (d : CompilerDraft) (engine : PatternEngine) : List Notice :=
  match engine.refused? d.classes.patterns with
  | some _ => []
  | none => d.finishNotices

/-- Changes a class if the change can be applied. -/
def tryClass (d : CompilerDraft) (setting : Text × ClassChange) : CompilerDraft :=
  match d.changeClass setting.1 setting.2 with
  | .ok (d', _) => d'
  | .error _ => d

/-- Sets a precision if the unit is known. -/
def tryPrecision (d : CompilerDraft) (setting : Text × Nat) : CompilerDraft :=
  match d.setPrecision setting.1 setting.2 with
  | .ok d' => d'
  | .error _ => d

/-- The notices of `tryClass` for each setting in turn. -/
def classNotices : CompilerDraft → List (Text × ClassChange) → List Notice
  | _, [] => []
  | d, (key, change) :: settings =>
    (match d.changeClass key change with
      | .ok _ => d.classes.notices key change
      | .error e => [.classSkipped key e])
      ++ classNotices (d.tryClass (key, change)) settings

/-- The notices of `tryPrecision` for each setting in turn. -/
def precisionNotices : CompilerDraft → List (Text × Nat) → List Notice
  | _, [] => []
  | d, (name, places) :: settings =>
    (match d.setPrecision name places with
      | .ok _ => []
      | .error e => [.precisionSkipped name e])
      ++ precisionNotices (d.tryPrecision (name, places)) settings

end CompilerDraft

namespace Compiler

/-- The draft after all class settings. -/
def classDraft (s : Settings) : CompilerDraft := s.classes.foldl CompilerDraft.tryClass {}

/-- The draft after all settings. -/
def draft (s : Settings) : CompilerDraft :=
  s.precisions.foldl CompilerDraft.tryPrecision (classDraft s)

/-- The compiler with every setting that can be applied; the others are passed over. -/
def ofSettings (s : Settings) : Compiler := { (draft s).finish with settings := s }

/-- The notices of applying the settings. -/
def draftNotices (s : Settings) : List Notice :=
  CompilerDraft.classNotices {} s.classes
    ++ CompilerDraft.precisionNotices (classDraft s) s.precisions

/-- The notices of `ofSettings`. -/
def settingNotices (s : Settings) : List Notice := draftNotices s ++ (draft s).finishNotices

/-- The compiler for some settings, if the engine takes its patterns. -/
def build (engine : PatternEngine) (s : Settings) : Except PatternError Compiler :=
  ((draft s).build engine).map fun compiler => { compiler with settings := s }

/-- Whether there is a compiler depends on its patterns alone. -/
theorem build_eq (engine : PatternEngine) (s : Settings) :
    build engine s = match engine.refused? (ofSettings s).patterns with
      | some e => .error e
      | none => .ok (ofSettings s) := by
  unfold build CompilerDraft.build
  change (match engine.refused? (ofSettings s).patterns with
    | some e => Except.error e
    | none => Except.ok (draft s).finish).map _ = _
  cases engine.refused? (ofSettings s).patterns <;> rfl

theorem build_eq_ok {engine : PatternEngine} {s : Settings} {k : Compiler} :
    build engine s = .ok k ↔
      engine.refused? (ofSettings s).patterns = none ∧ k = ofSettings s := by
  rw [build_eq]
  cases engine.refused? (ofSettings s).patterns <;> simp [eq_comm]

theorem build_unlimited (s : Settings) : build .unlimited s = .ok (ofSettings s) :=
  build_eq_ok.2 ⟨PatternEngine.refused?_unlimited _, rfl⟩

/-- The notices of `build`. -/
def buildNotices (engine : PatternEngine) (s : Settings) : List Notice :=
  draftNotices s ++ (draft s).buildNotices engine

end Compiler

end UtilitySheet
