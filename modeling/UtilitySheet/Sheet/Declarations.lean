import UtilitySheet.Log

/-!
# Declarations of a rule body

A body is cut at the semicolons outside of parentheses. A part `property: value` declares; its
value has single spaces. Parts of another shape are passed over. A property that is declared again
keeps its place and takes the new value.
-/

namespace UtilitySheet

/-! ## Notices -/

namespace Notice

/-- A property without a value. -/
def emptyDeclaration (property : Text) : Notice :=
  ⟨.debug, "skipping empty declaration `" ++ property ++ "`"⟩

/-- A part that is no declaration. -/
def malformedDeclaration (part : Text) : Notice :=
  ⟨.debug, "skipping malformed declaration `" ++ part ++ "`"⟩

end Notice

/-- Properties with their values, each property once. -/
abbrev Declarations := List (Text × Text)

namespace Declarations

/-! ## Parts of a body -/

/-- The parts of a body, the first of which continues the reversed text `cur` with `depth` open
parentheses. -/
def partsFrom (cur : Text) (depth : Nat) : Text → List Text
  | [] => [cur.reverse]
  | c :: s =>
    if c = '(' then partsFrom (c :: cur) (depth + 1) s
    else if c = ')' then partsFrom (c :: cur) (depth - 1) s
    else if c = ';' ∧ depth = 0 then cur.reverse :: partsFrom [] 0 s
    else partsFrom (c :: cur) depth s

/-- The parts between the semicolons that stand outside of parentheses. -/
def parts (body : Text) : List Text := partsFrom [] 0 body

/-- What a part of a body is. -/
inductive Part where
  | blank
  | valueless (property : Text)
  | malformed (text : Text)
  | declared (property value : Text)
  deriving DecidableEq, Repr

/-- The property and the value of a part as they are written. Around the colon only layout may
stand. -/
def shape? (part : Text) : Option (Text × Text) :=
  let s := part.dropWhile Text.isLayout
  let property := s.takeWhile Text.isNameChar
  if property.isEmpty then none
  else
    match (s.dropWhile Text.isNameChar).dropWhile Text.isLayout with
    | ':' :: value => some (property, value.dropWhile Text.isLayout)
    | _ => none

/-- Reads a part. -/
def readPart (part : Text) : Part :=
  if Text.isBlankText part then .blank
  else
    match shape? part with
    | none => .malformed (Text.trim part)
    | some (property, value) =>
      if (Text.collapse value).isEmpty then .valueless property
      else .declared property (Text.collapse value)

/-! ## The last value counts -/

/-- The declarations with a value for a property: in place of the value it had, or at the end. -/
def insert (property value : Text) : Declarations → Declarations
  | [] => [(property, value)]
  | (p, v) :: ds => if p = property then (p, value) :: ds else (p, v) :: insert property value ds

/-- The declarations with those of one more part. -/
def addPart (ds : Declarations) (part : Text) : Declarations :=
  match readPart part with
  | .declared property value => ds.insert property value
  | _ => ds

/-- The declarations with those of one more body. -/
def addBody (ds : Declarations) (body : Text) : Declarations := (parts body).foldl addPart ds

/-- The declarations of several bodies, the later ones over the earlier ones. -/
def ofBodies (bodies : List Text) : Declarations := bodies.foldl addBody []

/-- The declarations of a body. -/
def ofBody (body : Text) : Declarations := addBody [] body

/-- What there is to say about a part. -/
def partNotices (part : Text) : List Notice :=
  match readPart part with
  | .valueless property => [.emptyDeclaration property]
  | .malformed text => [.malformedDeclaration text]
  | _ => []

/-- The notices of reading a body. -/
def notices (body : Text) : List Notice := (parts body).flatMap partNotices

end Declarations

end UtilitySheet
