import UtilitySheet.Json.Number

/-!
# JSON values

A value keeps what a text says about it: the spelling of numbers, the order of members and a
member given twice. A string with half a surrogate pair is a string without characters; where the
characters matter it is refused.
-/

namespace UtilitySheet

/-- A JSON value. -/
inductive Json where
  | null
  | bool (b : Bool)
  | number (n : Json.Number)
  | string (s : Option Text)
  | array (items : List Json)
  | object (members : List (Option Text × Json))

namespace Json

/-- The truth value. -/
def bool? : Json → Option Bool
  | bool b => some b
  | _ => none

/-- The characters of a string. -/
def string? : Json → Option Text
  | string s => s
  | _ => none

/-- The items of an array. -/
def array? : Json → Option (List Json)
  | array items => some items
  | _ => none

/-- The floating-point value of a number. -/
def float? : Json → Option Float
  | number n => n.toFloat?
  | _ => none

/-- The value of a natural number. -/
def natural? : Json → Option Nat
  | number n => n.natural?
  | _ => none

mutual

/-- How deep arrays and objects are nested. -/
def depth : Json → Nat
  | array items => depthOfItems items + 1
  | object members => depthOfMembers members + 1
  | _ => 0

/-- The greatest depth of the items. -/
def depthOfItems : List Json → Nat
  | [] => 0
  | v :: items => max (depth v) (depthOfItems items)

/-- The greatest depth of the members. -/
def depthOfMembers : List (Option Text × Json) → Nat
  | [] => 0
  | (_, v) :: members => max (depth v) (depthOfMembers members)

end

mutual

/-- Whether every string has its characters and every number is in range. -/
def isExact : Json → Bool
  | number n => n.toFloat?.isSome
  | string s => s.isSome
  | array items => allExact items
  | object members => membersExact members
  | _ => true

/-- Whether all items are exact. -/
def allExact : List Json → Bool
  | [] => true
  | v :: items => isExact v && allExact items

/-- Whether all names and members are exact. -/
def membersExact : List (Option Text × Json) → Bool
  | [] => true
  | (name, v) :: members => name.isSome && isExact v && membersExact members

end

end Json

end UtilitySheet
