import Mathlib.Data.List.Lex
import UtilitySheet.Text.Basic

/-!
# The order of bytes

Names are compared byte by byte where they are sorted on disk, and character by character here. The
bytes of a character begin with those of its highest bits, and the first byte tells how many there
are, so both orders are one (`Text.bytes_lt`).
-/

namespace UtilitySheet.Text

/-- The bytes of a text in UTF-8. -/
def bytes (s : Text) : List UInt8 := s.flatMap String.utf8EncodeChar

/-- Of two numbers the smaller one is smaller in the first digit to the base 64 that differs. -/
theorem digits_lt {m n : Nat} (h : m < n) :
    m / 262144 < n / 262144 ∨ m / 262144 = n / 262144 ∧
      (m / 4096 % 64 < n / 4096 % 64 ∨ m / 4096 % 64 = n / 4096 % 64 ∧
        (m / 64 % 64 < n / 64 % 64 ∨ m / 64 % 64 = n / 64 % 64 ∧ m % 64 < n % 64)) := by
  omega

/-- The bytes of a character come before those of a greater one, whatever follows them. -/
theorem utf8EncodeChar_append_lt {c d : Char} (h : c < d) (s t : List UInt8) :
    String.utf8EncodeChar c ++ s < String.utf8EncodeChar d ++ t := by
  have hlt : c.val.toNat < d.val.toNat := h
  have hbound : d.val.toNat < 1114112 := by
    rcases d.valid with hvalid | hvalid <;> omega
  have hdigits := digits_lt hlt
  unfold String.utf8EncodeChar
  generalize c.val.toNat = m at *
  generalize d.val.toNat = n at *
  simp only
  -- One case for each pair of lengths: either the first bytes differ or the lengths are the same.
  repeat' split
  all_goals
    simp (disch := omega) only [List.cons_append, List.nil_append, List.cons_lt_cons_iff,
      UInt8.lt_iff_toNat_lt, ← UInt8.toNat_inj, UInt8.toNat_ofNat', Nat.mod_eq_of_lt,
      Nat.reducePow]
    omega

/-- **Texts are in the order of their bytes.** -/
theorem bytes_lt {s t : Text} (h : s < t) : bytes s < bytes t := by
  induction h with
  | @nil c t =>
    obtain ⟨b, bs, hb⟩ := List.exists_cons_of_ne_nil (String.utf8EncodeChar_ne_nil (c := c))
    rw [bytes, bytes, List.flatMap_cons, hb]
    exact List.Lex.nil
  | @rel c s d t h => exact utf8EncodeChar_append_lt h (bytes s) (bytes t)
  | @cons c s t _ ih => exact List.append_left_lt ih

theorem map_bytes_lt {names names' : List Text} (h : names < names') :
    names.map bytes < names'.map bytes := by
  induction h with
  | nil => exact List.Lex.nil
  | rel h => exact List.Lex.rel (bytes_lt h)
  | cons _ ih => exact List.Lex.cons ih

end UtilitySheet.Text
