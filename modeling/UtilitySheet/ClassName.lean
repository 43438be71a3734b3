import UtilitySheet.ClassTable
import UtilitySheet.Variant

/-!
# Class names

A class name is read as

    breakpoint? `-`? key `-i`? (`_` or `__` pseudo-class)? `-` value unit?

between two blanks. The parts overlap, so a text may split in several ways; `Pattern.readings`
lists the splits in the order of preference, each optional part present before absent, longer
before shorter where a part can be cut short, and alternatives in table order. The first one
counts. Each family of classes reads all names on its own.
-/

namespace UtilitySheet

/-- A class name and the parts it was split into. -/
structure ClassName where
  /-- The name as it stands in the markup. -/
  text : Text
  breakpoint : Option Text
  key : Text
  important : Bool
  pseudo : Option Text
  value : Text
  unit : Option Text
  deriving DecidableEq, Repr

/-! ## Readers

A reader takes something off the front of a text and lists the results with what is left, the
preferred one first. -/

/-- A reader. -/
abbrev Reader (α : Type) := Text → List (α × Text)

namespace Reader

variable {α : Type}

/-- One of the given texts, tried in order. -/
def oneOf (texts : List Text) : Reader Text := fun s =>
  texts.filterMap fun t => (Text.after? t s).map (t, ·)

/-- Something or, as the last resort, nothing. -/
def maybe (r : Reader α) : Reader (Option α) := fun s =>
  (r s).map (fun (a, rest) => (some a, rest)) ++ [(none, s)]

/-- The longest stretch of characters that satisfy `p`, at least one. -/
def run (p : Char → Bool) : Reader Text := fun s =>
  if (s.takeWhile p).isEmpty then [] else [(s.takeWhile p, s.dropWhile p)]

/-- A blank. -/
def blank : Reader Unit
  | c :: s => if Text.isBlank c then [((), s)] else []
  | [] => []

end Reader

/-! ## Values -/

/-- A hexadecimal digit as colours write it. -/
def isHexDigit (c : Char) : Bool := c.isDigit || 'a' ≤ c && c ≤ 'f'

/-- Three to eight hexadecimal digits. -/
def isHexColor (s : Text) : Bool := 3 ≤ s.length && s.length ≤ 8 && s.all isHexDigit

/-- Digits, and after a low line perhaps decimals. -/
def unsignedNumber : Reader Text := fun s =>
  (Reader.run Text.isDigit s).flatMap fun (digits, rest) =>
    match rest with
    | '_' :: rest' =>
      (Reader.run Text.isDigit rest').map (fun (decimals, left) =>
        (digits ++ '_' :: decimals, left)) ++ [(digits, rest)]
    | _ => [(digits, rest)]

/-- A number that may have a minus sign. -/
def signedNumber : Reader Text
  | '-' :: s => (unsignedNumber s).map fun (number, rest) => ('-' :: number, rest)
  | s => unsignedNumber s

namespace ValueLanguage

/-- Reads a value. Only a whole stretch of digits or letters is a candidate, since neither a unit
nor the blank that ends a name goes on with one. -/
def value : ValueLanguage → Reader Text
  | keywords ws => Reader.oneOf (ws.map Keyword.literal)
  | identifier => Reader.run fun c => Text.isWord c || c == '-'
  | numeric signed => fun s =>
    (if signed then signedNumber s else unsignedNumber s) ++ Reader.oneOf reservedValues s
  | color => fun s =>
    (Reader.run isHexDigit s).filter (fun (v, _) => isHexColor v)
      ++ Reader.run Char.isLower s

/-- Whether a unit may follow the value. -/
def takesUnit : ValueLanguage → Bool
  | numeric _ => true
  | _ => false

/-- Reads the unit after a value. -/
def unit (l : ValueLanguage) : Reader (Option Text) :=
  if l.takesUnit then Reader.maybe (Reader.oneOf (NumericUnit.suffixes.map NumericUnit.key))
  else fun s => [(none, s)]

end ValueLanguage

/-! ## Names of one family -/

/-- A family and the keys that its classes have at present. -/
structure Pattern where
  family : Family
  keys : List Text
  deriving DecidableEq, Repr

namespace Pattern

/-- Reads what stands before the key: the breakpoint and the hyphen after it, each optional. -/
def lead : Reader (Option Text) := fun s =>
  (Reader.maybe (Reader.oneOf (Breakpoint.all.map Breakpoint.key)) s).flatMap
    fun (breakpoint, s) => (Reader.maybe (Reader.oneOf ["-"]) s).map
      fun (_, s) => (breakpoint, s)

/-- Reads the mark of importance. -/
def importance : Reader Bool := fun s =>
  (Reader.maybe (Reader.oneOf ["-i"]) s).map fun (mark, s) => (mark.isSome, s)

/-- Reads a pseudo-class after one or two low lines, two being tried first. -/
def pseudoClass : Reader (Option Text) :=
  Reader.maybe fun s => (Reader.oneOf ["__", "_"] s).flatMap
    fun (_, s) => Reader.oneOf (PseudoClass.all.map PseudoClass.key) s

/-- All ways to read a class name up to the blank that ends it, in order of preference. The text
of the name is what was read. -/
def readings (p : Pattern) : Reader ClassName := fun s =>
  (lead s).flatMap fun (breakpoint, s₁) =>
  (Reader.oneOf p.keys s₁).flatMap fun (key, s₂) =>
  (importance s₂).flatMap fun (important, s₃) =>
  (pseudoClass s₃).flatMap fun (pseudo, s₄) =>
  (Reader.oneOf ["-"] s₄).flatMap fun (_, s₅) =>
  (p.family.language.value s₅).flatMap fun (value, s₆) =>
  (p.family.language.unit s₆).flatMap fun (unit, s₇) =>
  (Reader.blank s₇).map fun (_, rest) =>
    ({ text := Text.trim (s.take (s.length - s₇.length)), breakpoint, key, important, pseudo,
       value, unit }, rest)

/-- The preferred reading of a name that starts behind a blank, and the number of characters it
takes with its two blanks. -/
def read (p : Pattern) : Text → Option (ClassName × Nat)
  | [] => none
  | c :: s =>
    if Text.isBlank c then
      ((p.readings s).head?).map fun (name, rest) => (name, 1 + s.length - rest.length)
    else none

/-- The names that the family reads in a text, from left to right. -/
def scan (p : Pattern) (s : Text) : List ClassName := Text.allMatches p.read s

end Pattern

/-- The class names as one text: two blanks between neighbours and one at either end, so that
every name has blanks of its own. -/
def spaced (names : List Text) : Text := " " ++ [' ', ' '].intercalate names ++ " "

/-- The patterns of a class table, in family order. A family without classes has none. -/
def ClassTable.patterns (t : ClassTable) : List Pattern :=
  (Family.all.map fun f => ⟨f, t.familyKeys f⟩).filter (!·.keys.isEmpty)

end UtilitySheet
