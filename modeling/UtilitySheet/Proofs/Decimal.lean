import Mathlib.Algebra.Field.Rat
import Mathlib.Tactic.FieldSimp
import Mathlib.Tactic.NormNum
import UtilitySheet.Json.Number
import UtilitySheet.Proofs.DecimalPoint
import UtilitySheet.Proofs.Grammar

/-!
# Decimal numerals

A decimal numeral is a sign, the digits before a point and those behind it; as a text it can be read
in one way only (`write_injective`). A class name spells a numeral with a low line for the point.
Main statement (`exists_place`): with the point placed among the digits of a whole number, the
numeral spells that number divided by a power of ten.
-/

namespace UtilitySheet

open Json.Number (digitValue digitsValue)

/-- A decimal numeral in ASCII digits, of which at least one stands before the point. -/
@[ext]
structure Decimal where
  negative : Bool
  whole : Text
  decimals : Text
  whole_ne_nil : whole ≠ []
  isDigit : (whole ++ decimals).all Char.isDigit = true

namespace Decimal

/-- The numeral as a text. Without decimals there is no point. -/
def write (n : Decimal) (point : Char) : Text :=
  (if n.negative then ['-'] else []) ++
    (n.whole ++ if n.decimals = [] then [] else point :: n.decimals)

/-- The integer that all digits spell together. -/
def unscaled (n : Decimal) : ℤ :=
  (if n.negative then -1 else 1) * digitsValue (n.whole ++ n.decimals)

/-- The number that the numeral spells. -/
def value (n : Decimal) : ℚ := n.unscaled / 10 ^ n.decimals.length

/-- Numerals with as many decimals each spell the same number if their digits do. -/
theorem value_eq_iff {n n' : Decimal} (h : n.decimals.length = n'.decimals.length) :
    n.value = n'.value ↔ n.unscaled = n'.unscaled := by
  have hpower : (10 : ℚ) ^ n'.decimals.length ≠ 0 := by positivity
  rw [value, value, h, div_left_inj' hpower, Int.cast_inj]

/-! ## Reading a numeral -/

theorem isDigit_whole (n : Decimal) : ∀ c ∈ n.whole, c.isDigit = true :=
  fun c hc => List.all_eq_true.1 n.isDigit c (List.mem_append_left _ hc)

theorem isDigit_decimals (n : Decimal) : ∀ c ∈ n.decimals, c.isDigit = true :=
  fun c hc => List.all_eq_true.1 n.isDigit c (List.mem_append_right _ hc)

/-- A numeral begins with its sign or with a digit. -/
theorem splitSign_write (n : Decimal) (point : Char) :
    Numeral.splitSign (n.write point) = (if n.negative then ['-'] else [],
      n.whole ++ if n.decimals = [] then [] else point :: n.decimals) := by
  obtain ⟨c, whole, hwhole⟩ := List.exists_cons_of_ne_nil n.whole_ne_nil
  have hc : c ≠ '-' := by
    rintro rfl
    exact absurd (n.isDigit_whole '-' (by simp [hwhole])) (by decide)
  cases hsign : n.negative with
  | true => simp [write, hsign, Numeral.splitSign]
  | false =>
    simp only [write, hsign, hwhole, Bool.false_eq_true, if_false, List.nil_append,
      List.cons_append]
    unfold Numeral.splitSign
    split
    · rename_i heq
      exact absurd (List.cons.inj heq).1 hc
    · rfl

/-- A text is a numeral in one way only. -/
theorem write_injective {point : Char} (hpoint : point.isDigit = false) {n n' : Decimal}
    (h : n.write point = n'.write point) : n = n' := by
  have hsplit := congrArg Numeral.splitSign h
  rw [splitSign_write, splitSign_write] at hsplit
  obtain ⟨hsign, hdigits⟩ := Prod.mk.inj hsplit
  have hnegative : n.negative = n'.negative := by
    revert hsign
    cases n.negative <;> cases n'.negative <;> simp
  have hstop : ∀ n : Decimal, ∀ c ∈ (if n.decimals = [] then [] else point :: n.decimals).head?,
      c.isDigit = false := by
    intro n c hc
    split at hc
    · cases hc
    · obtain rfl := Option.some.inj hc
      exact hpoint
  obtain ⟨hwhole, hrest⟩ :=
    Text.append_inj_stop n.isDigit_whole n'.isDigit_whole (hstop n) (hstop n') hdigits
  have hdecimals : n.decimals = n'.decimals := by
    split at hrest <;> split at hrest
    · simp_all
    · cases hrest
    · cases hrest
    · exact (List.cons.inj hrest).2
  exact Decimal.ext hnegative hwhole hdecimals

/-! ## Placing the point -/

/-- Zeros in front do not count. -/
theorem digitsValue_padded (width : Nat) (digits : Text) :
    digitsValue (Numeral.padded width digits) = digitsValue digits := by
  have hzeros : ∀ k, digitsValue (List.replicate k '0') = 0 := by
    intro k
    induction k with
    | zero => rfl
    | succ k ih =>
      rw [List.replicate_succ', digitsValue, List.foldl_append, ← digitsValue, ih]
      rfl
  rw [Numeral.padded, digitsValue, List.foldl_append, ← digitsValue, hzeros]
  rfl

/-- **The point divides a whole number by a power of ten.** Placed so many digits from the end, it
gives the numeral with so many decimals and the same digits, but for zeros in front. -/
theorem exists_place {n : Decimal} (hn : n.decimals = []) (point : Char) {places : Nat}
    (hplaces : places < Numeral.widest) :
    ∃ shown : Decimal, Numeral.place (n.write point) places = .ok (shown.write '.') ∧
      shown.decimals.length = places ∧ shown.unscaled = n.unscaled := by
  by_cases hzero : places = 0
  · subst hzero
    exact ⟨n, by simp [write, hn], by simp [hn], rfl⟩
  have hpayload : Numeral.splitSign (n.write point) =
      (if n.negative then ['-'] else [], n.whole) := by
    simp [splitSign_write, hn]
  -- The digits are cut where the decimals begin; the padding leaves one digit in front of them.
  generalize hdigits : Numeral.padded (places + 1) n.whole = digits
  have hlength : places < digits.length := by
    rw [← hdigits, Numeral.length_padded]
    omega
  have hall : ∀ c ∈ digits, c.isDigit = true := by
    intro c hc
    rw [← hdigits, Numeral.padded, List.mem_append] at hc
    rcases hc with hc | hc
    · rw [List.eq_of_mem_replicate hc]
      rfl
    · exact n.isDigit_whole c hc
  obtain ⟨whole, decimals, hcut, hlast⟩ : ∃ whole decimals, digits = whole ++ decimals ∧
      decimals.length = places :=
    ⟨digits.take (digits.length - places), digits.drop (digits.length - places),
      (List.take_append_drop ..).symm, by rw [List.length_drop]; omega⟩
  subst hcut
  have hbytes : Numeral.bytes decimals = places := by
    rw [Numeral.bytes_of_narrow fun c hc =>
      Numeral.utf8Size_of_isDigit (hall c (by simp [hc])), hlast]
  have hwhole : whole ≠ [] := by
    rw [← List.length_pos_iff]
    rw [List.length_append] at hlength
    omega
  have hdecimals : decimals ≠ [] := by
    rw [← List.length_pos_iff]
    omega
  refine ⟨⟨n.negative, whole, decimals, hwhole, List.all_eq_true.2 hall⟩, ?_, hlast, ?_⟩
  · rw [Numeral.place_eq_ok hpayload hdigits hbytes hzero hplaces]
    simp [write, hdecimals]
  · have hvalue := digitsValue_padded (places + 1) n.whole
    rw [hdigits] at hvalue
    simp only [unscaled, hvalue, hn, List.append_nil]

end Decimal

end UtilitySheet
