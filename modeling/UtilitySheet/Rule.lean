import UtilitySheet.Variant

/-!
# Style rules of classes

What a class name compiles to: one rule, in one group. Rules without a breakpoint form the
standard group, the others the group of their breakpoint. Rules are emitted by increasing weight.
-/

namespace UtilitySheet

/-- A property and its value. -/
structure Declaration where
  property : Text
  value : Text
  important : Bool
  deriving DecidableEq, Repr

/-- A rule for one class. -/
structure Rule where
  /-- The class name and perhaps a pseudo-class, without the leading dot. -/
  selector : Text
  declarations : List Declaration
  breakpoint : Option Breakpoint
  weight : Float

namespace Declaration

/-- The declaration on a line of its own. -/
def line (d : Declaration) : Text :=
  "\t" ++ d.property ++ ":" ++ d.value ++ (if d.important then " !important" else "") ++ ";\n"

end Declaration

namespace Rule

/-- The rule as it is written. -/
def css (r : Rule) : Text :=
  "." ++ r.selector ++ "\x7b\n" ++ r.declarations.flatMap Declaration.line ++ "\x7d\n"

end Rule

/-! ## Weights -/

/-- A key that orders floating-point numbers from the least negative pattern to the greatest: by
sign, then by magnitude, with `-0.0` before `0.0`. -/
def weightKey (x : Float) : UInt64 :=
  if x.toBits ≥ 0x8000000000000000 then ~~~x.toBits else x.toBits ||| 0x8000000000000000

/-- The total order of weights. -/
def weightLe (x y : Float) : Bool := weightKey x ≤ weightKey y

/-! ## Groups -/

/-- The rules of a compilation, by increasing weight. -/
structure RuleGroups where
  rules : List Rule

namespace RuleGroups

/-- The rules sorted by weight; equal weights keep their order. -/
def ofRules (rules : List Rule) : RuleGroups :=
  ⟨rules.mergeSort fun a b => weightLe a.weight b.weight⟩

/-- The groups in the order in which they are written: standard, then the breakpoints. -/
def kinds : List (Option Breakpoint) := none :: Breakpoint.all.map some

/-- The name of a group. -/
def kindName : Option Breakpoint → Text
  | none => "standard"
  | some b => b.key

/-- The rules of one group. -/
def group (g : RuleGroups) (kind : Option Breakpoint) : List Rule :=
  g.rules.filter (·.breakpoint == kind)

/-- The text of one group. -/
def groupText (g : RuleGroups) (kind : Option Breakpoint) : Text :=
  (g.group kind).flatMap Rule.css

/-- The groups by name, as text. -/
def rendered (g : RuleGroups) : List (Text × Text) :=
  kinds.map fun kind => (kindName kind, g.groupText kind)

/-- How many rules there are in all groups. -/
def size (g : RuleGroups) : Nat := g.rules.length

/-- Whether no group has a rule. -/
def isEmpty (g : RuleGroups) : Bool := g.rules.isEmpty

end RuleGroups

end UtilitySheet
