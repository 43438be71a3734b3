import UtilitySheet.Text.Basic

/-!
# Templates

A template is a stylesheet with placeholders `---name---`. Each group of rules takes the place of
the first placeholder of its name; placeholders that are left go, and so do blank lines.
-/

namespace UtilitySheet

/-- A template stylesheet. -/
structure Template where
  source : Text
  deriving DecidableEq, Repr

namespace Template

/-- What stands on either side of a name. -/
def mark : Text := "---"

/-- The lines of the built-in template. -/
def builtinLines : List Text :=
  ["---standard---",
   "",
   "@media(max-width:1023px) and (max-height:1023px)\x7b",
   "---md---",
   "\x7d",
   "",
   "@media(max-width:1023px) and (max-height:1023px) and (orientation:landscape)\x7b",
   "---mdl---",
   "\x7d",
   "",
   "@media(max-width:1023px) and (max-height:1023px) and (orientation:portrait)\x7b",
   "---mdp---",
   "\x7d"]

/-- The template that is used if there is no other: the standard rules, and a media block for each
breakpoint. -/
def builtin : Template := ⟨builtinLines.flatMap (· ++ "\n")⟩

/-- The placeholder with a name. -/
def placeholder (name : Text) : Text := mark ++ name ++ mark

/-- The name of a placeholder at the front of a text, and the number of characters it takes. -/
def placeholderAt? (s : Text) : Option (Text × Nat) :=
  match Text.after? mark s with
  | none => none
  | some s =>
    let name := s.takeWhile Text.isWord
    if name.isEmpty then none
    else (Text.after? mark (s.dropWhile Text.isWord)).map fun _ => (name, name.length + 6)

/-- The names of the placeholders, in order. -/
def placeholders (t : Template) : List Text := Text.allMatches placeholderAt? t.source

/-- The text without placeholders behind the reversed text `acc`; the first `skip` characters
belong to the placeholder before. -/
def clearFrom (acc : Text) : (skip : Nat) → Text → Text
  | _, [] => acc.reverse
  | skip + 1, _ :: s => clearFrom acc skip s
  | 0, c :: s =>
    match placeholderAt? (c :: s) with
    | some (_, n) => clearFrom acc (n - 1) s
    | none => clearFrom (c :: acc) 0 s

/-- The text without its placeholders. -/
def clear (s : Text) : Text := clearFrom [] 0 s

/-- The text without its blank lines; what is left ends with a line feed. -/
def dropBlankLines (s : Text) : Text :=
  ((Text.lines s).filter (!Text.isBlankText ·)).flatMap (· ++ "\n")

/-- The text with the first placeholder of a group's name replaced by the group's text. -/
def fill (s : Text) (group : Text × Text) : Text :=
  Text.replaceFirst (placeholder group.1) group.2 s

/-- The template with its groups, filled in one after the other. -/
def render (t : Template) (groups : List (Text × Text)) : Text :=
  dropBlankLines (clear (groups.foldl fill t.source))

end Template

end UtilitySheet
