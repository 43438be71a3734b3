import UtilitySheet.Text.CharClass

/-!
# Text

Text is a list of characters: stylesheets, markup, class names and keys are read and written
character by character. Here are the operations that every later module shares: trimming, words,
the rest after a leading text, lines, and the search for the non-overlapping matches of a reader.
-/

namespace UtilitySheet

/-- Text, character by character. -/
abbrev Text := List Char

/-- A literal stands for its characters. -/
instance : Coe String Text := ⟨String.toList⟩

namespace Text

/-! ## Blanks -/

/-- Whether the text is empty or holds blanks only. -/
def isBlankText (s : Text) : Bool := s.all isBlank

/-- The text without the blanks at its end. -/
def trimEnd (s : Text) : Text := (s.reverse.dropWhile isBlank).reverse

/-- The text without the blanks at either end. -/
def trim (s : Text) : Text := trimEnd (s.dropWhile isBlank)

/-- The text without any blank. -/
def withoutBlanks (s : Text) : Text := s.filter (!isBlank ·)

/-! ## Words -/

/-- The words of `s`, the first of which continues the reversed letters `cur`. -/
def wordsFrom (cur : Text) : Text → List Text
  | [] => if cur.isEmpty then [] else [cur.reverse]
  | c :: s =>
    if isBlank c then
      if cur.isEmpty then wordsFrom [] s else cur.reverse :: wordsFrom [] s
    else wordsFrom (c :: cur) s

/-- The longest stretches without a blank, in order. -/
def words (s : Text) : List Text := wordsFrom [] s

/-- The words joined by single spaces. -/
def collapse (s : Text) : Text := [' '].intercalate (words s)

/-! ## Leading text -/

/-- What is left of `s` after the leading text `p`, if `s` starts with it. -/
def after? : (p s : Text) → Option Text
  | [], s => some s
  | _ :: _, [] => none
  | a :: p, c :: s => if a = c then after? p s else none

theorem after?_eq_some_iff {p s rest : Text} : after? p s = some rest ↔ s = p ++ rest := by
  fun_induction after? p s with
  | case1 s => exact Option.some_inj
  | case2 a p => simp
  | case3 p c s ih => simp [ih]
  | case4 a p c s h => simp [Ne.symm h]

/-- A text is found in front of a character that it does not have, or not at all. -/
theorem after?_append_cons {k : Text} {b : Char} (hb : b ∉ k) (s t : Text) :
    after? k (s ++ b :: t) = (after? k s).map (· ++ b :: t) := by
  induction k generalizing s with
  | nil => simp only [after?, Option.map_some]
  | cons a k ih =>
    rw [List.mem_cons, not_or] at hb
    cases s with
    | nil => simp only [List.nil_append, after?, if_neg (Ne.symm hb.1), Option.map_none]
    | cons c s =>
      simp only [List.cons_append, after?]
      split
      · exact ih hb.2 s
      · rfl

theorem takeWhile_append_cons {p : Char → Bool} {b : Char} (hb : p b = false) (s t : Text) :
    (s ++ b :: t).takeWhile p = s.takeWhile p := by
  rw [List.takeWhile_append, List.takeWhile_cons_of_neg (by simp [hb]), List.append_nil]
  split
  · rename_i hlength
    have hle : s.takeWhile p <+: s := List.takeWhile_prefix p
    exact (hle.eq_of_length hlength).symm
  · rfl

theorem dropWhile_append_cons {p : Char → Bool} {b : Char} (hb : p b = false) (s t : Text) :
    (s ++ b :: t).dropWhile p = s.dropWhile p ++ b :: t := by
  rw [List.dropWhile_append, List.dropWhile_cons_of_neg (by simp [hb])]
  split
  · rename_i hnil
    rw [List.isEmpty_iff.1 hnil, List.nil_append]
  · rfl

/-- The text with the first occurrence of `old` replaced by `new`. -/
def replaceFirst (old new : Text) : Text → Text
  | [] => []
  | c :: s =>
    match after? old (c :: s) with
    | some rest => new ++ rest
    | none => c :: replaceFirst old new s

/-! ## Lines -/

/-- The line `cur` (reversed) once its line feed is reached: a carriage return right before the
line feed belongs to the line end. -/
def closeLine (cur : Text) : Text :=
  match cur with
  | '\r' :: cur => cur.reverse
  | _ => cur.reverse

/-- The lines of `s`, the first of which continues the reversed characters `cur`. -/
def linesFrom (cur : Text) : Text → List Text
  | [] => if cur.isEmpty then [] else [cur.reverse]
  | c :: s => if c = '\n' then closeLine cur :: linesFrom [] s else linesFrom (c :: cur) s

/-- The lines of the text. A line feed ends a line, so a final one opens no further line. -/
def lines (s : Text) : List Text := linesFrom [] s

/-! ## Matches of a reader -/

/-- The results of `read` at the leftmost positions where it succeeds. `read` answers with its
result and the number of characters taken; the next search starts behind them. The first
`skip` characters belong to the match before. -/
def matchesFrom {α : Type} (read : Text → Option (α × Nat)) : (skip : Nat) → Text → List α
  | _, [] => []
  | skip + 1, _ :: s => matchesFrom read skip s
  | 0, c :: s =>
    match read (c :: s) with
    | some (a, n) => a :: matchesFrom read (n - 1) s
    | none => matchesFrom read 0 s

/-- All non-overlapping matches of `read`, from left to right. -/
def allMatches {α : Type} (read : Text → Option (α × Nat)) (s : Text) : List α :=
  matchesFrom read 0 s

/-- Skipping is dropping. -/
theorem matchesFrom_eq_drop {α : Type} (read : Text → Option (α × Nat)) (skip : Nat) (s : Text) :
    matchesFrom read skip s = allMatches read (s.drop skip) := by
  induction s generalizing skip with
  | nil => cases skip <;> simp [matchesFrom, allMatches]
  | cons c s ih =>
    cases skip with
    | zero => rfl
    | succ skip => simpa [matchesFrom] using ih skip

theorem allMatches_cons_of_none {α : Type} {read : Text → Option (α × Nat)} {c : Char} {s : Text}
    (h : read (c :: s) = none) : allMatches read (c :: s) = allMatches read s := by
  simp only [allMatches, matchesFrom, h]

/-- Behind a match the search goes on. -/
theorem allMatches_append_of_some {α : Type} {read : Text → Option (α × Nat)} {a : α} {u t : Text}
    (hu : u ≠ []) (h : read (u ++ t) = some (a, u.length)) :
    allMatches read (u ++ t) = a :: allMatches read t := by
  obtain ⟨c, u, rfl⟩ := List.exists_cons_of_ne_nil hu
  rw [List.cons_append] at h ⊢
  simp only [allMatches, matchesFrom, h]
  rw [matchesFrom_eq_drop, List.length_cons, Nat.add_sub_cancel, List.drop_left]
  rfl

/-! ## Case -/

/-- The text with its ASCII capitals made small. -/
def lower (s : Text) : Text := s.map Char.toLower

/-- The decimal digits of a number. -/
def ofNat (n : Nat) : Text := (toString n).toList

end Text

end UtilitySheet
