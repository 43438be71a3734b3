import UtilitySheet.Text.Basic
import UtilitySheet.Text.Unprintable

/-!
# Quoted text

A text between double quotes, for a message: double quotes, backslashes and the usual controls are
written with a backslash, every other character that does not show by itself is written by its
number.
-/

namespace UtilitySheet.Text

/-- The number of a character between braces, in hexadecimal digits. -/
def spelledByNumber (c : Char) : Text := "\\u\x7b" ++ Nat.toDigits 16 c.toNat ++ "\x7d"

/-- A character between quotes. -/
def quotedChar (c : Char) : Text :=
  if c = '\x00' then "\\0"
  else if c = '\t' then "\\t"
  else if c = '\r' then "\\r"
  else if c = '\n' then "\\n"
  else if c = '"' ∨ c = '\\' then ['\\', c]
  else if inRanges unprintable c.toNat then spelledByNumber c
  else [c]

/-- The text between double quotes. -/
def quoted (s : Text) : Text := '"' :: s.flatMap quotedChar ++ ['"']

/-- Quoted texts in brackets. -/
def quotedList (ss : List Text) : Text := "[" ++ [',', ' '].intercalate (ss.map quoted) ++ "]"

end UtilitySheet.Text
