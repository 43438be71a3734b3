import UtilitySheet.Text.Basic

/-!
# Class names in markup

Class names stand in attributes `class="…"` or `class='…'`. Only an attribute whose value is made
of word characters, hyphens and blanks counts; a value with anything else in it, or without its
closing quote, is passed over, and the search goes on behind the `class=`.
-/

namespace UtilitySheet

namespace Markup

/-- What an attribute starts with. -/
def attributeStart : Text := "class="

/-- A character that the value of an attribute may hold. -/
def isClassChar (c : Char) : Bool :=
  Text.isAlphanumeric c || c == '_' || c == '-' || Text.isBlank c

/-- The value in quotes at the front of `s`. -/
def quotedValue : (s : Text) → Option Text
  | [] => none
  | quote :: s =>
    if quote == '"' || quote == '\'' then
      match s.dropWhile isClassChar with
      | c :: _ => if c == quote then some (s.takeWhile isClassChar) else none
      | [] => none
    else none

/-- The class names of an attribute at the front of `s`, and the number of characters taken. If
the attribute does not count there are none, and only its name is taken. -/
def attributeNames (s : Text) : Option (List Text × Nat) :=
  (Text.after? attributeStart s).map fun rest =>
    match quotedValue rest with
    | some value => (Text.words value, attributeStart.length + value.length + 2)
    | none => ([], attributeStart.length)

/-- The class names of a document, in order. -/
def classNames (markup : Text) : List Text := (Text.allMatches attributeNames markup).flatten

/-- `seen` with the names that are new at its end, each once. -/
def addNew (seen : List Text) : List Text → List Text
  | [] => seen
  | name :: names => addNew (if seen.contains name then seen else seen ++ [name]) names

/-- The names seen so far with those of one more document. -/
def collect (seen : List Text) (markup : Text) : List Text := addNew seen (classNames markup)

/-- The distinct class names of several documents, in the order in which they first occur. -/
def collectAll (documents : List Text) : List Text := documents.foldl collect []

end Markup

end UtilitySheet
