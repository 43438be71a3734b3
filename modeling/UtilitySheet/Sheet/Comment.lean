import UtilitySheet.Text.Basic

/-!
# Comments of a stylesheet

A comment runs from `/*` to the next `*/`, or to the end of the text if there is none. Removing it
joins the text on its two sides.
-/

namespace UtilitySheet.Sheet

/-- The text without its comments behind the reversed text `acc`; `inside` says whether the text
starts within a comment. -/
def stripFrom (acc : Text) : (inside : Bool) → Text → Text
  | _, [] => acc.reverse
  | false, '/' :: '*' :: s => stripFrom acc true s
  | false, c :: s => stripFrom (c :: acc) false s
  | true, '*' :: '/' :: s => stripFrom acc false s
  | true, _ :: s => stripFrom acc true s

/-- The text without its comments. -/
def stripComments (s : Text) : Text := stripFrom [] false s

/-- What was kept before stands in front of what is kept. -/
theorem stripFrom_append_reverse (acc pre : Text) (inside : Bool) (s : Text) :
    stripFrom (acc ++ pre) inside s = pre.reverse ++ stripFrom acc inside s := by
  fun_induction stripFrom acc inside s with
  | case1 acc inside => simp [stripFrom]
  | case2 acc s ih | case4 acc s ih => exact ih
  | case3 acc c s hopen ih => rw [stripFrom.eq_3 _ c s hopen, ← ih, List.cons_append]
  | case5 acc c s hclose ih => rw [stripFrom.eq_5 _ c s hclose, ih]

end UtilitySheet.Sheet
