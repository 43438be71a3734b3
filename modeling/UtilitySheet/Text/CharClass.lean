import UtilitySheet.Text.Alphabet

/-!
# Character classes

Which characters separate, which make up a name, which count as digits. All classes but
`isLayout` follow the Unicode properties, so a no-break space separates class names and a letter
of any script may stand in one. Digits and words, of which class names and placeholders are made,
keep to the sixteenth edition of the standard; the names in a stylesheet follow the seventeenth.
-/

namespace UtilitySheet.Text

/-- The property White_Space. -/
def blanks : List CodeRange :=
  [(0x9, 0xD), (0x20, 0x20), (0x85, 0x85), (0xA0, 0xA0), (0x1680, 0x1680), (0x2000, 0x200A),
   (0x2028, 0x2029), (0x202F, 0x202F), (0x205F, 0x205F), (0x3000, 0x3000)]

/-- White space of any script: what separates class names and words of a rule head. -/
def isBlank (c : Char) : Bool := inRanges blanks c.toNat

/-- The white space that may stand around the colon of a declaration: space, tab and the two
line ends. -/
def isLayout (c : Char) : Bool := c == ' ' || c == '\t' || c == '\r' || c == '\n'

/-- Whether the character came into the standard with its seventeenth edition. -/
def isLatest (c : Char) : Bool := inRanges latest c.toNat

/-- A decimal digit of any script, as the sixteenth edition has them. -/
def isDigit (c : Char) : Bool := inRanges decimalDigits c.toNat && !isLatest c

/-- A letter or a number of any script, as the seventeenth edition has them. -/
def isAlphanumeric (c : Char) : Bool :=
  inRanges alphabetic c.toNat || inRanges decimalDigits c.toNat || inRanges otherNumbers c.toNat

/-- A character of a word, as the sixteenth edition has them: letters, digits, marks, connectors and
the two joiners. -/
def isWord (c : Char) : Bool :=
  (inRanges alphabetic c.toNat || inRanges decimalDigits c.toNat || inRanges plainMarks c.toNat
    || inRanges connectors c.toNat || c == '\u200c' || c == '\u200d') && !isLatest c

/-- A character of a property or at-rule name. -/
def isNameChar (c : Char) : Bool := isAlphanumeric c || c == '-' || c == '_'

/-- Layout is blank, but not the other way round: a no-break space is no layout. -/
theorem isBlank_of_isLayout {c : Char} (h : isLayout c = true) : isBlank c = true := by
  simp only [isLayout, Bool.or_eq_true, beq_iff_eq] at h
  rcases h with ((h | h) | h) | h <;> subst h <;> decide

end UtilitySheet.Text
