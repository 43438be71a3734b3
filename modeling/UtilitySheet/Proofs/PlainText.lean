import Mathlib.Tactic.Tauto
import UtilitySheet.Proofs.Spacing
import UtilitySheet.Sheet.Comment

/-!
# Plain stylesheets

A stylesheet is plain if nothing in it hides a brace or a semicolon from a reader that looks at
brackets only: it has no quotes and no comments, its brackets nest within stretches between braces,
and every brace closes a block with a head. A plain text falls into flat stretches, each up to a
semicolon or a brace (`exists_stretch`).
-/

namespace UtilitySheet.Sheet

open Text

/-! ## No comments -/

/-- Whether no comment starts in a text. -/
def isClean : Text → Bool
  | '/' :: '*' :: _ => false
  | _ :: s => isClean s
  | [] => true

theorem isClean_cons {c : Char} {s : Text} :
    isClean (c :: s) = true ↔ isClean s = true ∧ (c = '/' → s.head? ≠ some '*') := by
  cases s with
  | nil => simp [isClean]
  | cons d s =>
    by_cases hc : c = '/' ∧ d = '*'
    · obtain ⟨rfl, rfl⟩ := hc
      simp [isClean]
    · rw [isClean.eq_2]
      · simp only [List.head?_cons, ne_eq, Option.some.injEq]
        tauto
      · rintro s rfl h
        exact hc ⟨rfl, (List.cons.inj h).1⟩

theorem isClean_cons_of_ne {c : Char} (hc : c ≠ '/') (s : Text) :
    isClean (c :: s) = isClean s := by
  rw [Bool.eq_iff_iff, isClean_cons]
  exact ⟨And.left, fun h => ⟨h, fun hslash => absurd hslash hc⟩⟩

theorem isClean_append_of_not_mem {s : Text} (h : '/' ∉ s) (t : Text) :
    isClean (s ++ t) = isClean t := by
  induction s with
  | nil => rfl
  | cons c s ih =>
    rw [List.mem_cons, not_or] at h
    rw [List.cons_append, isClean_cons_of_ne (Ne.symm h.1), ih h.2]

theorem isClean_of_not_mem {s : Text} (h : '/' ∉ s) : isClean s = true := by
  simpa [isClean] using isClean_append_of_not_mem h []

theorem isClean_blanks_append {b : Text} (hb : isBlankText b = true) (s : Text) :
    isClean (b ++ s) = isClean s := by
  refine isClean_append_of_not_mem (fun hmem => ?_) s
  exact absurd (List.all_eq_true.1 hb '/' hmem) (by decide)

theorem isClean_append {s t : Text} :
    isClean (s ++ t) = true ↔
      isClean s = true ∧ isClean t = true ∧
        (s.getLast? = some '/' → t.head? ≠ some '*') := by
  induction s with
  | nil => simp [isClean]
  | cons c s ih =>
    rw [List.cons_append, isClean_cons, isClean_cons, ih]
    cases s with
    | nil => simp [isClean]
    | cons d s =>
      simp only [List.cons_append, List.head?_cons, List.getLast?_cons_cons]
      tauto

/-- No comment starts where two texts are joined by a character of no mark of a comment. -/
theorem isClean_append_cons {s t : Text} {c : Char} (hslash : c ≠ '/') (hstar : c ≠ '*')
    (hs : isClean s = true) (ht : isClean t = true) : isClean (s ++ c :: t) = true := by
  refine isClean_append.2 ⟨hs, by rwa [isClean_cons_of_ne hslash], fun _ => ?_⟩
  simpa using hstar

theorem isClean_of_isInfix {s t : Text} (hst : s <:+: t) (h : isClean t = true) :
    isClean s = true := by
  obtain ⟨u, v, rfl⟩ := hst
  exact (isClean_append.1 (isClean_append.1 h).1).2.1

/-- No character of a text without comments is dropped, unless the text behind it makes an opening
mark of its last one. -/
theorem stripFrom_append_of_isClean {s t : Text} (hs : isClean s = true)
    (hjoin : s.getLast? = some '/' → t.head? ≠ some '*') (acc : Text) :
    stripFrom acc false (s ++ t) = stripFrom (s.reverse ++ acc) false t := by
  induction s generalizing acc with
  | nil => rfl
  | cons c s ih =>
    obtain ⟨hclean, hstar⟩ := isClean_cons.1 hs
    have hnext : c = '/' → (s ++ t).head? ≠ some '*' := by
      rintro rfl
      cases s with
      | nil => exact hjoin rfl
      | cons d s => exact hstar rfl
    have hlast : s.getLast? = some '/' → t.head? ≠ some '*' := fun hlast =>
      hjoin (by rw [List.getLast?_cons, hlast]; rfl)
    rw [List.cons_append, stripFrom.eq_3, ih hclean hlast, List.reverse_cons, List.append_assoc]
    · rfl
    · rintro r hc heq
      exact hnext hc (by rw [heq]; rfl)

/-- A text without comments keeps all its characters. -/
theorem stripComments_of_isClean {s : Text} (h : isClean s = true) : stripComments s = s := by
  have hstrip := stripFrom_append_of_isClean h (t := []) (by simp) []
  simpa [stripComments, stripFrom] using hstrip

/-! ## Nested brackets -/

/-- The brackets that are open behind one more character, the last one first; none if the character
may not stand there. A semicolon may stand within parentheses, but not within other brackets. -/
def bracketStep (opened : List Char) (c : Char) : Option (List Char) :=
  if c = '(' ∨ c = '[' then some (c :: opened)
  else if c = ')' then if opened.head? = some '(' then some opened.tail else none
  else if c = ']' then if opened.head? = some '[' then some opened.tail else none
  else if c = ';' then if opened.contains '(' && !opened.contains '[' then some opened else none
  else if c = '\x7b' ∨ c = '\x7d' ∨ c = '"' ∨ c = '\'' then none
  else some opened

/-- The brackets that are open behind a text. -/
def brackets (opened : List Char) (s : Text) : Option (List Char) := s.foldlM bracketStep opened

theorem brackets_cons (opened : List Char) (c : Char) (s : Text) :
    brackets opened (c :: s) = (bracketStep opened c).bind (brackets · s) := rfl

theorem brackets_append (opened : List Char) (s t : Text) :
    brackets opened (s ++ t) = (brackets opened s).bind (brackets · t) := by
  simp only [brackets, List.foldlM_append]
  rfl

/-- The characters that have a part in the nesting of brackets, or none in a stretch. -/
def marks : List Char := ['(', ')', '[', ']', ';', '\x7b', '\x7d', '"', '\'']

theorem bracketStep_of_not_mem {c : Char} (hc : c ∉ marks) (opened : List Char) :
    bracketStep opened c = some opened := by
  simp only [marks, List.mem_cons, List.not_mem_nil, or_false, not_or] at hc
  simp [bracketStep, hc]

/-- All that a character can do to the open brackets: it opens one, closes the last one, stands as a
semicolon within parentheses, or is no mark. -/
theorem bracketStep_cases {opened opened' : List Char} {c : Char}
    (h : bracketStep opened c = some opened') :
    (c = '(' ∨ c = '[') ∧ opened' = c :: opened ∨ c = ')' ∧ opened = '(' :: opened' ∨
      c = ']' ∧ opened = '[' :: opened' ∨
      c = ';' ∧ '(' ∈ opened ∧ '[' ∉ opened ∧ opened' = opened ∨
      c ∉ marks ∧ opened' = opened := by
  unfold bracketStep at h
  split at h
  · rename_i hc
    exact .inl ⟨hc, (Option.some.inj h).symm⟩
  split at h
  · rename_i hc
    cases opened <;> simp_all
  split at h
  · rename_i hc
    cases opened <;> simp_all
  split at h
  · rename_i hc
    obtain ⟨⟨hround, hsquare⟩, rfl⟩ := by simpa using h
    exact .inr (.inr (.inr (.inl ⟨hc, hround, hsquare, rfl⟩)))
  split at h
  · cases h
  · obtain rfl := Option.some.inj h
    simp_all [marks]

theorem brackets_of_not_mem {s : Text} (hs : ∀ c ∈ s, c ∉ marks) (opened : List Char) :
    brackets opened s = some opened := by
  induction s with
  | nil => rfl
  | cons c s ih =>
    rw [brackets_cons, bracketStep_of_not_mem (hs c List.mem_cons_self)]
    exact ih fun d hd => hs d (List.mem_cons_of_mem _ hd)

theorem not_mem_marks_of_isBlank {c : Char} (hc : isBlank c = true) : c ∉ marks := by
  have hmarks : marks.all (fun d => !isBlank d) = true := by decide
  intro hmem
  simpa [hc] using List.all_eq_true.1 hmarks c hmem

theorem not_mem_marks_of_isNameChar {c : Char} (hc : isNameChar c = true) : c ∉ marks := by
  have hmarks : marks.all (fun d => !isNameChar d) = true := by decide
  intro hmem
  simpa [hc] using List.all_eq_true.1 hmarks c hmem

theorem brackets_tightenFrom (last : Char) (gap : Bool) (opened : List Char) (s : Text) :
    brackets opened (tightenFrom last gap s) = brackets opened s := by
  induction s generalizing last gap opened with
  | nil => rfl
  | cons c s ih =>
    by_cases hc : isBlank c = true
    · rw [brackets_cons, bracketStep_of_not_mem (not_mem_marks_of_isBlank hc)]
      simpa [tightenFrom, hc] using ih last true opened
    · have hnext : brackets opened (c :: tightenFrom c false s) = brackets opened (c :: s) := by
        simp only [brackets_cons, ih]
      simp only [tightenFrom, hc, Bool.false_eq_true, if_false]
      split
      · rw [brackets_cons, bracketStep_of_not_mem (by decide)]
        exact hnext
      · exact hnext

theorem brackets_squeezeFrom (started gap : Bool) (opened : List Char) (s : Text) :
    brackets opened (squeezeFrom started gap s) = brackets opened s := by
  induction s generalizing started gap opened with
  | nil => rfl
  | cons c s ih =>
    by_cases hc : isBlank c = true
    · rw [brackets_cons, bracketStep_of_not_mem (not_mem_marks_of_isBlank hc)]
      simpa [squeezeFrom, hc] using ih started true opened
    · have hnext : brackets opened (c :: squeezeFrom true false s) = brackets opened (c :: s) := by
        simp only [brackets_cons, ih]
      simp only [squeezeFrom, hc, Bool.false_eq_true, if_false]
      split
      · rw [brackets_cons, bracketStep_of_not_mem (by decide)]
        exact hnext
      · exact hnext

theorem brackets_blanks {b : Text} (hb : isBlankText b = true) (opened : List Char) :
    brackets opened b = some opened := by
  refine brackets_of_not_mem (fun c hc => not_mem_marks_of_isBlank ?_) opened
  exact List.all_eq_true.1 hb c hc

theorem brackets_brokenHead (depth : Nat) (opened : List Char) (s : Text) :
    brackets opened (brokenHead depth s) = brackets opened s := by
  induction s generalizing opened with
  | nil => rfl
  | cons c s ih =>
    rw [brokenHead_cons]
    split
    · subst c
      rw [List.cons_append, brackets_cons, brackets_cons,
        bracketStep_of_not_mem (by decide), Option.bind_some, Option.bind_some, brackets_append,
        brackets_blanks (isBlankText_lineBreak depth), Option.bind_some, ih]
    · simp only [List.singleton_append, brackets_cons, ih]

/-! ## Flat stretches -/

/-- A text without braces, quotes and comments in which brackets nest, and every semicolon stands
within parentheses only. -/
structure Flat (s : Text) : Prop where
  nested : brackets [] s = some []
  clean : isClean s = true

theorem head?_tightenFrom {last : Char} {gap : Bool} {s : Text} (hlast : last ≠ ',')
    (h : (tightenFrom last gap s).head? = some '*') : gap = false ∧ s.head? = some '*' := by
  induction s generalizing gap with
  | nil => cases h
  | cons c s ih =>
    by_cases hc : isBlank c = true
    · have hrest : (tightenFrom last true s).head? = some '*' := by
        simpa [tightenFrom, hc] using h
      cases (ih hrest).1
    · cases gap with
      | false => simpa [tightenFrom, hc] using h
      | true =>
        by_cases hcomma : c = ','
        · subst hcomma
          simp [tightenFrom, hc] at h
        · simp [tightenFrom, hc, hlast, hcomma] at h

theorem isClean_tightenFrom {last : Char} {gap : Bool} {s : Text} (h : isClean s = true) :
    isClean (tightenFrom last gap s) = true := by
  induction s generalizing last gap with
  | nil => rfl
  | cons c s ih =>
    obtain ⟨hs, hstar⟩ := isClean_cons.1 h
    by_cases hc : isBlank c = true
    · simpa [tightenFrom, hc] using ih hs
    · have hnext : isClean (c :: tightenFrom c false s) = true := by
        refine isClean_cons.2 ⟨ih hs, ?_⟩
        rintro rfl hhead
        exact hstar rfl (head?_tightenFrom (by decide) hhead).2
      simp only [tightenFrom, hc, Bool.false_eq_true, if_false]
      split
      · rwa [isClean_cons_of_ne (by decide)]
      · exact hnext

theorem head?_squeezeFrom {gap : Bool} {s : Text}
    (h : (squeezeFrom true gap s).head? = some '*') : gap = false ∧ s.head? = some '*' := by
  induction s generalizing gap with
  | nil => cases h
  | cons c s ih =>
    by_cases hc : isBlank c = true
    · have hrest : (squeezeFrom true true s).head? = some '*' := by
        simpa [squeezeFrom, hc] using h
      cases (ih hrest).1
    · cases gap <;> simp [squeezeFrom, hc] at h
      simpa using h

theorem isClean_squeezeFrom {started gap : Bool} {s : Text} (h : isClean s = true) :
    isClean (squeezeFrom started gap s) = true := by
  induction s generalizing started gap with
  | nil => rfl
  | cons c s ih =>
    obtain ⟨hs, hstar⟩ := isClean_cons.1 h
    by_cases hc : isBlank c = true
    · simpa [squeezeFrom, hc] using ih hs
    · have hnext : isClean (c :: squeezeFrom true false s) = true := by
        refine isClean_cons.2 ⟨ih hs, ?_⟩
        rintro rfl hhead
        exact hstar rfl (head?_squeezeFrom hhead).2
      simp only [squeezeFrom, hc, Bool.false_eq_true, if_false]
      split
      · rwa [isClean_cons_of_ne (by decide)]
      · exact hnext

theorem isClean_brokenHead {depth : Nat} {s : Text} (h : isClean s = true) :
    isClean (brokenHead depth s) = true := by
  have hhead : ∀ s, (brokenHead depth s).head? = s.head? := by
    intro s
    cases s with
    | nil => rfl
    | cons c s =>
      rw [brokenHead_cons]
      split <;> simp_all
  induction s with
  | nil => rfl
  | cons c s ih =>
    obtain ⟨hs, hstar⟩ := isClean_cons.1 h
    rw [brokenHead_cons]
    split
    · subst c
      rw [List.cons_append, isClean_cons_of_ne (by decide),
        isClean_blanks_append (isBlankText_lineBreak depth), ih hs]
    · rw [List.singleton_append]
      exact isClean_cons.2 ⟨ih hs, by rwa [hhead]⟩

namespace Flat

theorem blanks_append {b : Text} (hb : isBlankText b = true) {s : Text} :
    Flat (b ++ s) ↔ Flat s := by
  have hnested : brackets [] (b ++ s) = brackets [] s := by
    rw [brackets_append, brackets_blanks hb, Option.bind_some]
  have hclean := isClean_blanks_append hb s
  exact ⟨fun h => ⟨hnested ▸ h.nested, hclean ▸ h.clean⟩,
    fun h => ⟨hnested ▸ h.nested, hclean ▸ h.clean⟩⟩

/-- What stands behind characters that are no marks is flat. -/
theorem of_append {p s : Text} (hp : ∀ c ∈ p, c ∉ marks) (h : Flat (p ++ s)) : Flat s where
  nested := by simpa [brackets_append, brackets_of_not_mem hp] using h.nested
  clean := (isClean_append.1 h.clean).2.1

theorem dropWhile {p : Char → Bool} (hp : ∀ c, p c = true → c ∉ marks) {s : Text} (h : Flat s) :
    Flat (s.dropWhile p) := by
  rw [← List.takeWhile_append_dropWhile (p := p) (l := s)] at h
  exact h.of_append fun c hc => hp c (List.all_eq_true.1 List.all_takeWhile c hc)

theorem normalHead {s : Text} (h : Flat s) : Flat (normalHead s) := by
  rw [normalHead_eq_tighten]
  exact ⟨by rw [brackets_tightenFrom, h.nested], isClean_tightenFrom h.clean⟩

theorem brokenHead {s : Text} (h : Flat s) (depth : Nat) : Flat (brokenHead depth s) :=
  ⟨by rw [brackets_brokenHead, h.nested], isClean_brokenHead h.clean⟩

theorem collapse {s : Text} (h : Flat s) : Flat (collapse s) := by
  rw [collapse_eq_squeeze]
  exact ⟨by rw [brackets_squeezeFrom, h.nested], isClean_squeezeFrom h.clean⟩

end Flat

/-! ## Plain texts -/

/-- Whether a stretch can be the head of a block: it is not blank and no lone at sign. -/
def isHeadText (s : Text) : Bool := !isBlankText s && trim s != ['@']

/-- Whether a text can be a head depends on its characters that are not blank. -/
theorem isHeadText_iff {s : Text} :
    isHeadText s = true ↔ withoutBlanks s ≠ [] ∧ withoutBlanks s ≠ ['@'] := by
  simp only [isHeadText, Bool.and_eq_true, Bool.not_eq_true', bne_iff_ne, ne_eq,
    trim_eq_singleton_iff (show isBlank '@' = false by decide), withoutBlanks_eq_nil_iff,
    Bool.not_eq_true]

/-- Whether a text is plain behind the reversed stretch `seg`, in which the brackets `opened` are
open, within `depth` blocks. -/
def isPlainFrom (seg : Text) (opened : List Char) (depth : Nat) : Text → Bool
  | [] => opened.isEmpty && depth == 0
  | c :: s =>
    if c = '\x7b' then
      opened.isEmpty && isHeadText seg.reverse && isPlainFrom [] [] (depth + 1) s
    else if c = '\x7d' then
      match depth with
      | 0 => false
      | depth + 1 => opened.isEmpty && isPlainFrom [] [] depth s
    else if c = ';' ∧ opened = [] then isPlainFrom [] [] depth s
    else
      match bracketStep opened c with
      | none => false
      | some opened => isPlainFrom (c :: seg) opened depth s

/-- Whether a stylesheet is plain. -/
def isPlain (s : Text) : Bool := isClean s && isPlainFrom [] [] 0 s

/-- What ends a stretch of a plain text within `depth` blocks. -/
inductive StretchEnd (depth : Nat) (stretch : Text) : Text → Prop
  | text : depth = 0 → StretchEnd depth stretch []
  | semicolon {s : Text} : isPlainFrom [] [] depth s = true → StretchEnd depth stretch (';' :: s)
  | opening {s : Text} : isHeadText stretch = true → isPlainFrom [] [] (depth + 1) s = true →
      StretchEnd depth stretch ('\x7b' :: s)
  | closing {s : Text} (d : Nat) : depth = d + 1 → isPlainFrom [] [] d s = true →
      StretchEnd depth stretch ('\x7d' :: s)

/-- A plain text starts with a stretch in which brackets nest. -/
theorem exists_stretch {seg s : Text} {opened : List Char} {depth : Nat}
    (hseg : brackets [] seg.reverse = some opened)
    (h : isPlainFrom seg opened depth s = true) :
    ∃ t u, s = t ++ u ∧ brackets [] (seg.reverse ++ t) = some [] ∧
      StretchEnd depth (seg.reverse ++ t) u := by
  induction s generalizing seg opened with
  | nil =>
    simp only [isPlainFrom, Bool.and_eq_true, List.isEmpty_iff, beq_iff_eq] at h
    obtain ⟨rfl, rfl⟩ := h
    exact ⟨[], [], rfl, by simpa using hseg, .text rfl⟩
  | cons c s ih =>
    unfold isPlainFrom at h
    split at h
    · subst c
      simp only [Bool.and_eq_true, List.isEmpty_iff] at h
      obtain ⟨⟨rfl, hhead⟩, hs⟩ := h
      exact ⟨[], _, rfl, by simpa using hseg, .opening (by simpa using hhead) hs⟩
    split at h
    · subst c
      cases depth with
      | zero => cases h
      | succ d =>
        simp only [Bool.and_eq_true, List.isEmpty_iff] at h
        obtain ⟨rfl, hs⟩ := h
        exact ⟨[], _, rfl, by simpa using hseg, .closing d rfl hs⟩
    split at h
    · rename_i hsemicolon
      obtain ⟨rfl, rfl⟩ := hsemicolon
      exact ⟨[], _, rfl, by simpa using hseg, .semicolon h⟩
    · cases hstep : bracketStep opened c with
      | none =>
        rw [hstep] at h
        cases h
      | some opened' =>
        rw [hstep] at h
        have hseg' : brackets [] (c :: seg).reverse = some opened' := by
          rw [List.reverse_cons, brackets_append, hseg, Option.bind_some, brackets_cons, hstep]
          rfl
        obtain ⟨t, u, rfl, hnested, hend⟩ := ih hseg' h
        refine ⟨c :: t, u, rfl, ?_, ?_⟩
        · simpa using hnested
        · simpa using hend

end UtilitySheet.Sheet
