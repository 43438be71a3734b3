import UtilitySheet.Text.Basic

/-!
# Units of values

A numeric unit has a key, by which class names and settings call it, and a symbol, which is
written after the number. How many decimal places a plain number has in a unit is the unit's
precision; it can be changed per unit, and every class that counts in the unit sees the change.
-/

namespace UtilitySheet

/-- A unit that a number can carry. -/
inductive NumericUnit where
  | px | pt | pc | cm | mm | quarter | inch | em | ex | rem | ch | lh | rlh
  | vw | vh | vmin | vmax | vi | vb | svw | svh | lvw | lvh | dvw | dvh
  | percent
  /-- A bare number: opacity, line height, stacking order. -/
  | unitless
  deriving DecidableEq, Repr

namespace NumericUnit

/-- All units, in the order in which a class name is tried against their keys. -/
def all : List NumericUnit :=
  [px, pt, pc, cm, mm, quarter, inch, em, ex, rem, ch, lh, rlh, vw, vh, vmin, vmax, vi, vb,
   svw, svh, lvw, lvh, dvw, dvh, percent, unitless]

theorem mem_all (u : NumericUnit) : u ∈ all := by cases u <;> decide

/-- What class names and settings call the unit. -/
def key : NumericUnit → Text
  | px => "px"
  | pt => "pt"
  | pc => "pc"
  | cm => "cm"
  | mm => "mm"
  | quarter => "q"
  | inch => "in"
  | em => "em"
  | ex => "ex"
  | rem => "rem"
  | ch => "ch"
  | lh => "lh"
  | rlh => "rlh"
  | vw => "vw"
  | vh => "vh"
  | vmin => "vmn"
  | vmax => "vmx"
  | vi => "vi"
  | vb => "vb"
  | svw => "svw"
  | svh => "svh"
  | lvw => "lvw"
  | lvh => "lvh"
  | dvw => "dvw"
  | dvh => "dvh"
  | percent => "pr"
  | unitless => "none"

/-- What is written after the number. -/
def symbol : NumericUnit → Text
  | quarter => "Q"
  | vmin => "vmin"
  | vmax => "vmax"
  | percent => "%"
  | unitless => ""
  | u => u.key

/-- The precision of a unit that no setting changes. -/
def defaultPrecision : NumericUnit → Nat
  | cm | em | ex | rem | unitless => 1
  | _ => 0

/-- Whether a class name may end in the unit's key: any unit that shows in the value. -/
def isSuffix (u : NumericUnit) : Bool := !u.symbol.isEmpty

/-- The units that a class name may end in. -/
def suffixes : List NumericUnit := all.filter isSuffix

/-- The unit with this key, in letters of either case, or else with exactly this symbol. -/
def named? (name : Text) : Option NumericUnit :=
  match all.find? (·.key == Text.lower name) with
  | some u => some u
  | none => all.find? (·.symbol == name)

end NumericUnit

/-- How the values of a class are written. -/
inductive ValueUnit where
  | numeric (unit : NumericUnit)
  /-- A word, or what the class family writes for it. -/
  | keyword
  /-- A number sign before hexadecimal digits; any other word is a colour name. -/
  | color
  deriving DecidableEq, Repr

namespace ValueUnit

/-- The unit that a setting names: `null` or `keyword`, `color`, or a numeric unit. -/
def named? (name : Text) : Option ValueUnit :=
  let small := Text.lower name
  if small = "null".toList ∨ small = "keyword".toList then some keyword
  else if small = "color".toList then some color
  else (NumericUnit.named? name).map numeric

end ValueUnit

/-- The precision of each unit. -/
structure PrecisionTable where
  of : NumericUnit → Nat

namespace PrecisionTable

/-- Every unit at its default. -/
def standard : PrecisionTable := ⟨NumericUnit.defaultPrecision⟩

/-- The table with another precision for one unit. -/
def set (t : PrecisionTable) (u : NumericUnit) (places : Nat) : PrecisionTable :=
  ⟨fun v => if v = u then places else t.of v⟩

@[simp]
theorem of_set_self (t : PrecisionTable) (u : NumericUnit) (places : Nat) :
    (t.set u places).of u = places := by simp [set]

theorem of_set_of_ne (t : PrecisionTable) {u v : NumericUnit} (places : Nat) (h : v ≠ u) :
    (t.set u places).of v = t.of v := by simp [set, h]

end PrecisionTable

end UtilitySheet
