import UtilitySheet.Text.Basic

/-!
# At-rules

An at-rule is known by its name. Its policy says where it stands among its siblings, what makes two
of them the same, and whether the bodies of the same at-rule add up or the last one counts. Plain
rules and unknown at-rules have priority zero, are the same by their heads, and add up.
-/

namespace UtilitySheet.Sheet

/-- What makes two at-rules of one name the same. -/
inductive Identity where
  /-- The head. -/
  | head
  /-- The whole text without white space. -/
  | wholeText
  /-- The head and the value of the `src` descriptor, without white space. -/
  | source
  deriving DecidableEq, Repr

/-- How an at-rule is treated. -/
structure Policy where
  name : Text
  priority : Int
  identity : Identity := .head
  /-- Whether the last body of the same at-rule replaces the earlier ones. -/
  replaces : Bool := false
  deriving DecidableEq, Repr

namespace Policy

/-- The at-rules with a policy of their own. -/
def all : List Policy :=
  [{ name := "@namespace", priority := -11, identity := .wholeText },
   { name := "@import", priority := -10, identity := .wholeText },
   { name := "@charset", priority := -9, identity := .wholeText },
   { name := "@font-face", priority := -8, identity := .source, replaces := true },
   { name := "@font-feature-values", priority := -7 },
   { name := "@character-variant", priority := -7 },
   { name := "@styleset", priority := -7 },
   { name := "@stylistic", priority := -7 },
   { name := "@ornaments", priority := -7 },
   { name := "@annotation", priority := -7 },
   { name := "@swash", priority := -7 },
   { name := "@font-palette-values", priority := -6 },
   { name := "@page", priority := -5 },
   { name := "@color-profile", priority := -4 },
   { name := "@container", priority := -3 },
   { name := "@property", priority := -2 },
   { name := "@starting-style", priority := -1 },
   { name := "@keyframes", priority := 1, replaces := true },
   { name := "@counter-style", priority := 2 },
   { name := "@supports", priority := 3 },
   { name := "@scope", priority := 4 },
   { name := "@layer", priority := 5 },
   { name := "@media", priority := 6 }]

/-- The name of an at-rule with this head. -/
def atRuleName? : (head : Text) → Option Text
  | '@' :: s => some ('@' :: s.takeWhile Text.isNameChar)
  | _ => none

/-- The policy of a rule with this head. -/
def find? (head : Text) : Option Policy :=
  match atRuleName? head with
  | some name => all.find? (·.name == name)
  | none => none

/-- Where a rule stands among its siblings: lower first. -/
def priorityOf (head : Text) : Int := ((find? head).map priority).getD 0

/-- Whether the last body of the rule replaces the earlier ones. -/
def replacesOf (head : Text) : Bool := ((find? head).map replaces).getD false

/-- What makes a rule the same as another one. -/
def identityOf (head : Text) : Identity := ((find? head).map identity).getD .head

end Policy

/-! ## The source of a font -/

/-- The value of a `src` descriptor at the front of a text, without white space: everything behind
the colon up to a semicolon or a closing brace, if there is anything. -/
def sourceAt? (s : Text) : Option Text :=
  match Text.after? "src" s with
  | none => none
  | some s =>
    match s.dropWhile Text.isBlank with
    | ':' :: s =>
      let value := s.takeWhile fun c => c != ';' && c != '\x7d'
      if value.isEmpty then none else some (Text.withoutBlanks value)
    | _ => none

/-- The first `src` descriptor behind an opening brace, a semicolon or a blank. -/
def sourceFrom? : Text → Option Text
  | [] => none
  | c :: s =>
    if c = '\x7b' ∨ c = ';' ∨ Text.isBlank c then (sourceAt? s).or (sourceFrom? s)
    else sourceFrom? s

/-- The first `src` descriptor of a text; it may also start the text. -/
def source? (s : Text) : Option Text := (sourceAt? s).or (sourceFrom? s)

/-- The text with each semicolon before a closing brace dropped. -/
def dropBeforeBrace : Text → Text
  | ';' :: '\x7d' :: s => '\x7d' :: dropBeforeBrace s
  | c :: s => c :: dropBeforeBrace s
  | [] => []

/-- The text without white space and without semicolons before closing braces. -/
def bareText (s : Text) : Text := dropBeforeBrace (Text.withoutBlanks s)

end UtilitySheet.Sheet
