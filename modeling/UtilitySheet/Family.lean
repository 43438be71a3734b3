import UtilitySheet.Unit

/-!
# Class families

Classes that take the same values form a family. A family says which words may stand in the place
of the value: a list of keywords, any identifier, a number, or a colour. Keywords are short; some
stand for a longer word of the stylesheet.
-/

namespace UtilitySheet

/-- A family of classes. -/
inductive Family where
  | display | flexWrap | flexDirection | align | justify | position | overflow | borderStyle
  | fontWeight | textAlign | fontFamily | textTransform | textDecorationLine
  | textDecorationStyle | whiteSpace | wordBreak | dimension | offset | color
  deriving DecidableEq, Repr

/-- A keyword of a family, and the word it stands for if that is another one. -/
structure Keyword where
  literal : Text
  meaning : Option Text
  deriving DecidableEq, Repr

/-- The values that a family takes. -/
inductive ValueLanguage where
  | keywords (words : List Keyword)
  /-- Word characters and hyphens. -/
  | identifier
  /-- A number, with a sign where `signed`, or a reserved value. -/
  | numeric (signed : Bool)
  /-- Three to eight hexadecimal digits, or small letters. -/
  | color
  deriving DecidableEq, Repr

/-- Values of a numeric class that are written as they are, without a unit. -/
def reservedValues : List Text := ["auto", "inherit", "initial", "unset", "none"]

/-- The keywords `inherit` and `initial`, which most families end with. -/
def inheritance : List Keyword := [⟨"inherit", none⟩, ⟨"initial", none⟩]

namespace Family

/-- All families, in the order in which their matches are collected. -/
def all : List Family :=
  [display, flexWrap, flexDirection, align, justify, position, overflow, borderStyle, fontWeight,
   textAlign, fontFamily, textTransform, textDecorationLine, textDecorationStyle, whiteSpace,
   wordBreak, dimension, offset, color]

theorem mem_all (f : Family) : f ∈ all := by cases f <;> decide

/-- The family's name. -/
def name : Family → Text
  | display => "display"
  | flexWrap => "flex-wrap"
  | flexDirection => "flex-direction"
  | align => "align"
  | justify => "justify"
  | position => "position"
  | overflow => "overflow"
  | borderStyle => "border-style"
  | fontWeight => "font-weight"
  | textAlign => "text-align"
  | fontFamily => "font-family"
  | textTransform => "text-transform"
  | textDecorationLine => "text-decoration-line"
  | textDecorationStyle => "text-decoration-style"
  | whiteSpace => "white-space"
  | wordBreak => "word-break"
  | dimension => "dimension"
  | offset => "offset"
  | color => "color"

/-- The family with this name. -/
def named? (name : Text) : Option Family := all.find? (·.name == name)

/-- The values that the family takes. -/
def language : Family → ValueLanguage
  | display => .keywords
      ([⟨"flex", none⟩, ⟨"inflex", some "inline-flex"⟩, ⟨"block", none⟩,
        ⟨"inblock", some "inline-block"⟩, ⟨"grid", none⟩, ⟨"ingrid", some "inline-grid"⟩,
        ⟨"table", none⟩, ⟨"rtable", some "table-row"⟩, ⟨"inline", none⟩, ⟨"none", none⟩]
        ++ inheritance)
  | flexWrap => .keywords [⟨"wrap", none⟩, ⟨"nowrap", none⟩]
  | flexDirection => .keywords
      ([⟨"row", none⟩, ⟨"row-rs", some "row-reverse"⟩, ⟨"col", some "column"⟩,
        ⟨"col-rs", some "column-reverse"⟩] ++ inheritance)
  | align => .keywords
      ([⟨"start", some "flex-start"⟩, ⟨"center", none⟩, ⟨"end", some "flex-end"⟩,
        ⟨"stretch", none⟩] ++ inheritance)
  | justify => .keywords
      ([⟨"start", some "flex-start"⟩, ⟨"center", none⟩, ⟨"end", some "flex-end"⟩,
        ⟨"stretch", none⟩, ⟨"bspace", some "space-between"⟩, ⟨"aspace", some "space-around"⟩,
        ⟨"espace", some "space-evenly"⟩] ++ inheritance)
  | position => .keywords
      ([⟨"static", none⟩, ⟨"absolute", none⟩, ⟨"relative", none⟩, ⟨"fixed", none⟩,
        ⟨"sticky", none⟩] ++ inheritance)
  | overflow => .keywords
      ([⟨"visible", none⟩, ⟨"hidden", none⟩, ⟨"clip", none⟩, ⟨"scroll", none⟩, ⟨"auto", none⟩]
        ++ inheritance)
  | borderStyle => .keywords
      [⟨"solid", none⟩, ⟨"dotted", none⟩, ⟨"dashed", none⟩, ⟨"none", none⟩]
  | fontWeight => .keywords
      [⟨"100", none⟩, ⟨"200", none⟩, ⟨"300", none⟩, ⟨"400", none⟩, ⟨"500", none⟩, ⟨"600", none⟩,
       ⟨"700", none⟩, ⟨"800", none⟩, ⟨"900", none⟩]
  | textAlign => .keywords
      [⟨"left", none⟩, ⟨"center", none⟩, ⟨"right", none⟩, ⟨"justify", none⟩]
  | fontFamily => .identifier
  | textTransform => .keywords
      [⟨"upper", some "uppercase"⟩, ⟨"lower", some "lowercase"⟩, ⟨"cap", some "capitalize"⟩,
       ⟨"none", none⟩]
  | textDecorationLine => .keywords
      [⟨"under", some "underline"⟩, ⟨"over", some "overline"⟩, ⟨"linet", some "line-through"⟩,
       ⟨"none", none⟩]
  | textDecorationStyle => .keywords
      [⟨"solid", none⟩, ⟨"double", none⟩, ⟨"dotted", none⟩, ⟨"dashed", none⟩, ⟨"wavy", none⟩]
  | whiteSpace => .keywords
      ([⟨"normal", none⟩, ⟨"pre", none⟩, ⟨"pwrap", some "pre-wrap"⟩,
        ⟨"bspace", some "break-spaces"⟩, ⟨"nowrap", none⟩] ++ inheritance)
  | wordBreak => .keywords
      ([⟨"normal", none⟩, ⟨"abreak", some "break-all"⟩, ⟨"keep", some "keep-all"⟩,
        ⟨"wbreak", some "break-word"⟩] ++ inheritance)
  | dimension => .numeric false
  | offset => .numeric true
  | color => .color

/-- The word that a keyword of the family stands for, if that is another one. -/
def meaning? (f : Family) (word : Text) : Option Text :=
  match f.language with
  | .keywords ws => (ws.find? (·.literal == word)).bind Keyword.meaning
  | _ => none

end Family

end UtilitySheet
