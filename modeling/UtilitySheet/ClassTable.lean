import UtilitySheet.Family
import UtilitySheet.Log

/-!
# The class table

Each class has a short key and sets one or more properties. The table starts from the built-in
classes, whose priority is their place in it, and settings may rename a class or change its unit,
priority and precision. A change is applied as a whole or not at all: an unknown class or unit, or
a new key that another class has, refuses it and leaves the table alone.
-/

namespace UtilitySheet

/-- A class as it stands in the table. -/
structure ClassDef where
  key : Text
  properties : List Text
  unit : ValueUnit
  priority : Float
  /-- Whether settings may change unit and precision, and whether a class name may end in a
  unit. -/
  configurable : Bool
  /-- Decimal places of a plain number, if not those of its unit. -/
  precision : Option Nat
  family : Family

/-- A built-in class: all but the priority, which is its place. -/
structure ClassSeed where
  key : Text
  properties : List Text
  unit : ValueUnit
  configurable : Bool
  precision : Option Nat
  family : Family
  deriving DecidableEq, Repr

/-- A change to one class; what it leaves out stays as it is. -/
structure ClassChange where
  rename : Option Text := none
  unit : Option Text := none
  priority : Option Float := none
  precision : Option Nat := none
  deriving BEq

/-- Why a setting cannot be applied. -/
inductive SettingError where
  | unknownClass (key : Text)
  | unknownUnit (name : Text)
  | renameCollision (key target : Text)
  deriving DecidableEq, Repr

/-- The error in words. -/
def SettingError.message : SettingError → Text
  | unknownClass key => "unknown class: " ++ key
  | unknownUnit name => "unknown unit: " ++ name
  | renameCollision key target =>
    "cannot rename " ++ key ++ " to " ++ target ++ ": class already exists"

/-! ## Notices -/

namespace Notice

/-- A unit was set for a class that has a fixed one. -/
def unitFixed (key : Text) : Notice :=
  ⟨.warn, "unit of class `" ++ key ++ "` is fixed, ignoring unit override"⟩

/-- A precision was set for a class that has a fixed one. -/
def precisionFixed (key : Text) : Notice :=
  ⟨.warn, "precision of class `" ++ key ++ "` is fixed, ignoring precision override"⟩

end Notice

/-! ## Changing one class -/

namespace ClassDef

/-- The class after a change, whose unit has been read as `unit`. -/
def revised (d : ClassDef) (unit : Option ValueUnit) (change : ClassChange) : ClassDef :=
  { d with
    key := change.rename.getD d.key
    unit := if d.configurable then unit.getD d.unit else d.unit
    priority := change.priority.getD d.priority
    precision := if d.configurable then change.precision.or d.precision else d.precision }

/-- Whether the change sets anything that the class lets be set. -/
def isChangedBy (d : ClassDef) (change : ClassChange) : Bool :=
  change.rename.isSome || change.priority.isSome
    || d.configurable && (change.unit.isSome || change.precision.isSome)

end ClassDef

/-! ## The table -/

/-- The classes in table order. -/
structure ClassTable where
  classes : List ClassDef

namespace ClassTable

/-- Boxes and how they are laid out. -/
def layoutSeeds : List ClassSeed :=
  [⟨"d", ["display"], .keyword, false, none, .display⟩,
   ⟨"fxw", ["flex-wrap"], .keyword, false, none, .flexWrap⟩,
   ⟨"fd", ["flex-direction"], .keyword, false, none, .flexDirection⟩,
   ⟨"ai", ["align-items"], .keyword, false, none, .align⟩,
   ⟨"as", ["align-self"], .keyword, false, none, .align⟩,
   ⟨"jc", ["justify-content"], .keyword, false, none, .justify⟩,
   ⟨"ajc", ["align-items", "justify-content"], .keyword, false, none, .align⟩,
   ⟨"basis", ["flex-basis"], .numeric .percent, true, none, .dimension⟩,
   ⟨"grow", ["flex-grow"], .numeric .percent, true, none, .dimension⟩,
   ⟨"shrink", ["flex-shrink"], .numeric .percent, true, none, .dimension⟩,
   ⟨"flex", ["flex"], .keyword, true, none, .dimension⟩,
   ⟨"order", ["order"], .keyword, false, none, .offset⟩,
   ⟨"pos", ["position"], .keyword, false, none, .position⟩,
   ⟨"ov", ["overflow"], .keyword, false, none, .overflow⟩,
   ⟨"ovx", ["overflow-x"], .keyword, false, none, .overflow⟩,
   ⟨"ovy", ["overflow-y"], .keyword, false, none, .overflow⟩]

/-- Borders: style, width, colour, radius. -/
def borderSeeds : List ClassSeed :=
  [⟨"bst", ["border-top-style"], .keyword, false, none, .borderStyle⟩,
   ⟨"bsr", ["border-right-style"], .keyword, false, none, .borderStyle⟩,
   ⟨"bsb", ["border-bottom-style"], .keyword, false, none, .borderStyle⟩,
   ⟨"bsl", ["border-left-style"], .keyword, false, none, .borderStyle⟩,
   ⟨"bsh", ["border-left-style", "border-right-style"], .keyword, false, none, .borderStyle⟩,
   ⟨"bsv", ["border-top-style", "border-bottom-style"], .keyword, false, none, .borderStyle⟩,
   ⟨"bs", ["border-style"], .keyword, false, none, .borderStyle⟩,
   ⟨"bwt", ["border-top-width"], .numeric .px, true, none, .dimension⟩,
   ⟨"bwr", ["border-right-width"], .numeric .px, true, none, .dimension⟩,
   ⟨"bwb", ["border-bottom-width"], .numeric .px, true, none, .dimension⟩,
   ⟨"bwl", ["border-left-width"], .numeric .px, true, none, .dimension⟩,
   ⟨"bwh", ["border-left-width", "border-right-width"], .numeric .px, true, none, .dimension⟩,
   ⟨"bwv", ["border-top-width", "border-bottom-width"], .numeric .px, true, none, .dimension⟩,
   ⟨"bw", ["border-width"], .numeric .px, true, none, .dimension⟩,
   ⟨"bct", ["border-top-color"], .color, false, none, .color⟩,
   ⟨"bcr", ["border-right-color"], .color, false, none, .color⟩,
   ⟨"bcb", ["border-bottom-color"], .color, false, none, .color⟩,
   ⟨"bcl", ["border-left-color"], .color, false, none, .color⟩,
   ⟨"bch", ["border-left-color", "border-right-color"], .color, false, none, .color⟩,
   ⟨"bcv", ["border-top-color", "border-bottom-color"], .color, false, none, .color⟩,
   ⟨"bc", ["border-color"], .color, false, none, .color⟩,
   ⟨"brad", ["border-radius"], .numeric .rem, true, none, .dimension⟩,
   ⟨"bradtl", ["border-top-left-radius"], .numeric .rem, true, none, .dimension⟩,
   ⟨"bradtr", ["border-top-right-radius"], .numeric .rem, true, none, .dimension⟩,
   ⟨"bradbr", ["border-bottom-right-radius"], .numeric .rem, true, none, .dimension⟩,
   ⟨"bradbl", ["border-bottom-left-radius"], .numeric .rem, true, none, .dimension⟩]

/-- Sizes and opacity. -/
def sizeSeeds : List ClassSeed :=
  [⟨"h", ["height"], .numeric .percent, true, none, .dimension⟩,
   ⟨"minh", ["min-height"], .numeric .percent, true, none, .dimension⟩,
   ⟨"maxh", ["max-height"], .numeric .percent, true, none, .dimension⟩,
   ⟨"w", ["width"], .numeric .percent, true, none, .dimension⟩,
   ⟨"minw", ["min-width"], .numeric .percent, true, none, .dimension⟩,
   ⟨"maxw", ["max-width"], .numeric .percent, true, none, .dimension⟩,
   ⟨"op", ["opacity"], .numeric .unitless, false, none, .dimension⟩]

/-- Text. -/
def textSeeds : List ClassSeed :=
  [⟨"ff", ["font-family"], .keyword, false, none, .fontFamily⟩,
   ⟨"fsz", ["font-size"], .numeric .rem, true, none, .dimension⟩,
   ⟨"fw", ["font-weight"], .keyword, false, none, .fontWeight⟩,
   ⟨"ta", ["text-align"], .keyword, false, none, .textAlign⟩,
   ⟨"tt", ["text-transform"], .keyword, false, none, .textTransform⟩,
   ⟨"tdl", ["text-decoration-line"], .keyword, false, none, .textDecorationLine⟩,
   ⟨"tds", ["text-decoration-style"], .keyword, false, none, .textDecorationStyle⟩,
   ⟨"ws", ["white-space"], .keyword, false, none, .whiteSpace⟩,
   ⟨"wb", ["word-break"], .keyword, false, none, .wordBreak⟩,
   ⟨"lh", ["line-height"], .numeric .unitless, true, some 0, .dimension⟩]

/-- Margins and paddings. -/
def spacingSeeds : List ClassSeed :=
  [⟨"m", ["margin"], .numeric .rem, true, none, .offset⟩,
   ⟨"mh", ["margin-left", "margin-right"], .numeric .rem, true, none, .offset⟩,
   ⟨"mv", ["margin-top", "margin-bottom"], .numeric .rem, true, none, .offset⟩,
   ⟨"mt", ["margin-top"], .numeric .rem, true, none, .offset⟩,
   ⟨"ml", ["margin-left"], .numeric .rem, true, none, .offset⟩,
   ⟨"mb", ["margin-bottom"], .numeric .rem, true, none, .offset⟩,
   ⟨"mr", ["margin-right"], .numeric .rem, true, none, .offset⟩,
   ⟨"p", ["padding"], .numeric .rem, true, none, .offset⟩,
   ⟨"ph", ["padding-left", "padding-right"], .numeric .rem, true, none, .offset⟩,
   ⟨"pv", ["padding-top", "padding-bottom"], .numeric .rem, true, none, .offset⟩,
   ⟨"pt", ["padding-top"], .numeric .rem, true, none, .offset⟩,
   ⟨"pl", ["padding-left"], .numeric .rem, true, none, .offset⟩,
   ⟨"pb", ["padding-bottom"], .numeric .rem, true, none, .offset⟩,
   ⟨"pr", ["padding-right"], .numeric .rem, true, none, .offset⟩]

/-- Offsets and stacking order. -/
def placementSeeds : List ClassSeed :=
  [⟨"t", ["top"], .numeric .rem, true, none, .offset⟩,
   ⟨"l", ["left"], .numeric .rem, true, none, .offset⟩,
   ⟨"b", ["bottom"], .numeric .rem, true, none, .offset⟩,
   ⟨"r", ["right"], .numeric .rem, true, none, .offset⟩,
   ⟨"z", ["z-index"], .numeric .unitless, false, some 0, .offset⟩]

/-- Colours. -/
def colorSeeds : List ClassSeed :=
  [⟨"c", ["color"], .color, false, none, .color⟩,
   ⟨"bgc", ["background-color"], .color, false, none, .color⟩]

/-- All built-in classes, in priority order. -/
def seeds : List ClassSeed :=
  layoutSeeds ++ borderSeeds ++ sizeSeeds ++ textSeeds ++ spacingSeeds ++ placementSeeds
    ++ colorSeeds

/-- The table of the built-in classes; the first has priority 1, the next 2, and so on. -/
def builtin : ClassTable :=
  ⟨seeds.mapIdx fun i s =>
    { key := s.key, properties := s.properties, unit := s.unit, priority := Float.ofNat (i + 1),
      configurable := s.configurable, precision := s.precision, family := s.family }⟩

/-- The class with this key. -/
def find? (t : ClassTable) (key : Text) : Option ClassDef :=
  t.classes.find? (·.key == key)

/-- The keys of a family, in table order. -/
def familyKeys (t : ClassTable) (f : Family) : List Text :=
  (t.classes.filter (·.family == f)).map ClassDef.key

/-- Whether giving the class `key` the key `target` would take the key of another class. -/
def collides (t : ClassTable) (key target : Text) : Bool :=
  target != key && (t.find? target).isSome

/-- The unit that a change names, if it names one. -/
def readUnit (change : ClassChange) : Except SettingError (Option ValueUnit) :=
  match change.unit with
  | none => .ok none
  | some name =>
    match ValueUnit.named? name with
    | some unit => .ok (some unit)
    | none => .error (.unknownUnit name)

/-- The table after a change to the class `key`, and whether anything was set. -/
def apply (t : ClassTable) (key : Text) (change : ClassChange) :
    Except SettingError (ClassTable × Bool) := do
  let some d := t.find? key | throw (.unknownClass key)
  let unit ← readUnit change
  if let some target := change.rename then
    if t.collides key target then throw (.renameCollision key target)
  let revise (e : ClassDef) := if e.key == key then e.revised unit change else e
  return (⟨t.classes.map revise⟩, d.isChangedBy change)

/-- What there is to say about a change that is applied: a fixed unit or precision stays. -/
def notices (t : ClassTable) (key : Text) (change : ClassChange) : List Notice :=
  match t.find? key, t.apply key change with
  | some d, .ok _ =>
    if d.configurable then []
    else
      (if change.unit.isSome then [Notice.unitFixed key] else [])
        ++ (if change.precision.isSome then [Notice.precisionFixed key] else [])
  | _, _ => []

end ClassTable

end UtilitySheet
