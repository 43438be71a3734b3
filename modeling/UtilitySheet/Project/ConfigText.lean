import UtilitySheet.Project.Config

/-!
# Reading project settings

The settings are an object of known members, or an array of their values in the order of the
members. Members that are not known are passed over, whatever they hold; a known member may stand
only once, under either of its names. In a table of classes or units a key that is given again
keeps its place and takes the later value.
-/

namespace UtilitySheet

namespace Config

/-! ## Objects with known members -/

/-- The known members of an object by their place in `names`, where each member has one or two
names. None if a name is no text, or if a member is given twice. -/
def knownMembers (names : List (List Text)) :
    (members : List (Option Text × Json)) → Option (List (Nat × Json))
  | [] => some []
  | (none, _) :: _ => none
  | (some name, v) :: members =>
    match knownMembers names members, names.findIdx? (·.contains name) with
    | none, _ => none
    | some known, none => some known
    | some known, some i => if known.any (·.1 == i) then none else some ((i, v) :: known)

/-- The values of the known members by their place, from an object or from an array. -/
def fields? (names : List (List Text)) : Json → Option (List (Nat × Json))
  | .object members => knownMembers names members
  | .array items =>
    if items.length ≤ names.length then some (items.mapIdx fun i v => (i, v)) else none
  | _ => none

/-- Reads one field: its default if it is missing, none if it is there and wrong. -/
def field {α : Type} (fields : List (Nat × Json)) (i : Nat) (read : Json → Option α)
    (default : α) : Option α :=
  match fields.find? (·.1 == i) with
  | none => some default
  | some (_, v) => read v

/-- A value that may be null. -/
def nullable {α : Type} (read : Json → Option α) : Json → Option (Option α)
  | .null => some none
  | v => (read v).map some

/-- A list of values. -/
def listOf {α : Type} (read : Json → Option α) (v : Json) : Option (List α) :=
  v.array?.bind (List.mapM read)

/-- A number of at most 32 bits. -/
def count? (v : Json) : Option Nat := v.natural?.filter (· ≤ 0xffffffff)

/-- A table with a new value for a key: in the place of the key, or at the end. -/
def putKey {α : Type} (key : Text) (value : α) : List (Text × α) → List (Text × α)
  | [] => [(key, value)]
  | (k, v) :: table => if k = key then (k, value) :: table else (k, v) :: putKey key value table

/-- Adds the members of an object to a table. -/
def addMembers {α : Type} (read : Json → Option α) (table : List (Text × α)) :
    (members : List (Option Text × Json)) → Option (List (Text × α))
  | [] => some table
  | (some key, v) :: members =>
    match read v with
    | some a => addMembers read (putKey key a table) members
    | none => none
  | (none, _) :: _ => none

/-- A table of values by keys. -/
def tableOf {α : Type} (read : Json → Option α) : Json → Option (List (Text × α))
  | .object members => addMembers read [] members
  | _ => none

/-! ## The parts of the settings -/

/-- A change to a class. -/
def classChange? (v : Json) : Option ClassChange := do
  let fields ← fields? [["rename"], ["unit"], ["priority"], ["precision"]] v
  return {
    rename := ← field fields 0 (nullable Json.string?) none
    unit := ← field fields 1 (nullable Json.string?) none
    priority := ← field fields 2 (nullable Json.float?) none
    precision := ← field fields 3 (nullable count?) none }

/-- How deep a place of author styles may be nested; the settings around it are two levels. -/
def deepest : Nat := 125

/-- A place of author styles: a path, or an object with a path and perhaps a priority. All of the
object must be readable, also the members that are not known. -/
def styleRoot? : Json → Option StyleRoot
  | .string path => path.map fun path => { path }
  | .object members => do
    let v := Json.object members
    if !v.isExact || v.depth > deepest then none
    else
      let fields ← knownMembers [["path"], ["priority"]] members
      let (_, path) ← fields.find? (·.1 == 0)
      let path ← path.string?
      let priority ← field fields 1 Json.float? 0
      return { path, priority := some priority }
  | _ => none

/-- The names of the members, in order. -/
def memberNames : List (List Text) :=
  [["BUILD_PATH"], ["HTML_PATHS", "HTML_PATHES"], ["CSS_PATHS", "CSS_PATHES"],
   ["IGNORE_PATHS", "IGNORE_PATHES"], ["SET_CLASSES"], ["SET_UNITS_PRECISION"],
   ["MERGE_SAME_SELECTORS"], ["TEMPLATE_PATH"]]

/-- The settings that a value spells. -/
def ofJson? (v : Json) : Option Config := do
  let fields ← fields? memberNames v
  return {
    buildPath := ← field fields 0 Json.string? "build/"
    markupPaths := ← field fields 1 (listOf Json.string?) [['.']]
    stylePaths := ← field fields 2 (listOf styleRoot?) []
    ignoredPaths := ← field fields 3 (listOf Json.string?) []
    settings := {
      classes := ← field fields 4 (tableOf classChange?) []
      precisions := ← field fields 5 (tableOf count?) [] }
    merge := ← field fields 6 Json.bool? false
    templatePath := ← field fields 7 (nullable Json.string?) none }

/-- The settings that a text spells. -/
def ofText? (s : Text) : Option Config := (Json.read? s).bind ofJson?

end Config

end UtilitySheet
