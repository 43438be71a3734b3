/-!
# Sets of code points as ranges

A character property is data of a standard: a list of inclusive ranges of code points in
increasing order. Membership stops at the first range that starts beyond the code point.
-/

namespace UtilitySheet.Text

/-- The first and the last code point of a range. -/
abbrev CodeRange := Nat × Nat

/-- Whether the code point lies in one of the increasing ranges. -/
def inRanges : List CodeRange → Nat → Bool
  | [], _ => false
  | (first, last) :: ranges, n =>
    if n < first then false else n ≤ last || inRanges ranges n

theorem inRanges_cons_of_lt {first last n : Nat} {ranges : List CodeRange} (h : n < first) :
    inRanges ((first, last) :: ranges) n = false := by
  simp [inRanges, h]

theorem inRanges_cons_of_le {first last n : Nat} {ranges : List CodeRange} (h : first ≤ n) :
    inRanges ((first, last) :: ranges) n = (decide (n ≤ last) || inRanges ranges n) := by
  simp [inRanges, Nat.not_lt.mpr h]

end UtilitySheet.Text
