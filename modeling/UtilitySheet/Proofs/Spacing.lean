import UtilitySheet.Sheet.Head

/-!
# White space in heads and values

Collapsing a text writes its words with single spaces, and the normal form of a head has no space at
a comma either. Both are made in several steps; here each is one pass over the text
(`collapse_eq_squeeze`, `normalHead_eq_tighten`), from which it follows that the white space of a
text does not matter: the normal form of a head on several lines is the head
(`normalHead_brokenHead`).
-/

namespace UtilitySheet

namespace Text

/-! ## Without blanks -/

theorem isBlankText_append {s t : Text} :
    isBlankText (s ++ t) = true ↔ isBlankText s = true ∧ isBlankText t = true := by
  simp [isBlankText]

theorem withoutBlanks_blanks_append {b : Text} (hb : isBlankText b = true) (s : Text) :
    withoutBlanks (b ++ s) = withoutBlanks s := by
  have hnone : b.filter (!isBlank ·) = [] := by
    simpa [isBlankText, List.filter_eq_nil_iff] using hb
  simp [withoutBlanks, hnone]

theorem withoutBlanks_eq_nil_iff {s : Text} : withoutBlanks s = [] ↔ isBlankText s = true := by
  simp [withoutBlanks, isBlankText, List.filter_eq_nil_iff]

@[simp] theorem withoutBlanks_nil : withoutBlanks [] = [] := rfl

theorem withoutBlanks_cons {c : Char} (hc : isBlank c = false) (s : Text) :
    withoutBlanks (c :: s) = c :: withoutBlanks s := by
  simp [withoutBlanks, hc]

theorem withoutBlanks_append (s t : Text) :
    withoutBlanks (s ++ t) = withoutBlanks s ++ withoutBlanks t :=
  List.filter_append s t

/-- The first character that is no blank stands behind blanks. -/
theorem exists_of_withoutBlanks_eq_cons {c : Char} {t r : Text} (h : withoutBlanks t = c :: r) :
    ∃ b t', t = b ++ c :: t' ∧ isBlankText b = true ∧ withoutBlanks t' = r := by
  obtain ⟨b, t', rfl, hb, -, ht'⟩ := List.filter_eq_cons_iff.1 h
  exact ⟨b, t', rfl, by simpa [isBlankText] using hb, ht'⟩

theorem withoutBlanks_dropWhile (s : Text) :
    withoutBlanks (s.dropWhile isBlank) = withoutBlanks s := by
  induction s with
  | nil => rfl
  | cons c s ih =>
    by_cases hc : isBlank c = true
    · rw [List.dropWhile_cons_of_pos hc, ih]
      simp [withoutBlanks, hc]
    · rw [List.dropWhile_cons_of_neg hc]

theorem withoutBlanks_trim (s : Text) : withoutBlanks (trim s) = withoutBlanks s := by
  have hreverse : ∀ s : Text, withoutBlanks s.reverse = (withoutBlanks s).reverse := by
    intro s
    simp [withoutBlanks, List.filter_reverse]
  rw [trim, trimEnd, hreverse, withoutBlanks_dropWhile, hreverse, List.reverse_reverse,
    withoutBlanks_dropWhile]

/-- A text is a lone character between blanks exactly if it is that character once trimmed. -/
theorem trim_eq_singleton_iff {s : Text} {c : Char} (hc : isBlank c = false) :
    trim s = [c] ↔ withoutBlanks s = [c] := by
  constructor
  · intro h
    rw [← withoutBlanks_trim, h]
    simp [withoutBlanks, hc]
  · intro h
    have hdrop := (withoutBlanks_dropWhile s).trans h
    cases hs : s.dropWhile isBlank with
    | nil => simp [hs, withoutBlanks] at hdrop
    | cons d t =>
      have hd : isBlank d = false := by
        have := List.head_dropWhile_not isBlank (l := s) (by simp [hs])
        simpa [hs] using this
      rw [hs] at hdrop
      simp only [withoutBlanks, List.filter_cons, hd, Bool.not_false, if_true] at hdrop
      obtain ⟨rfl, ht⟩ := List.cons.inj hdrop
      have ht : isBlankText t.reverse = true := by
        have := withoutBlanks_eq_nil_iff.1 ht
        simpa [isBlankText] using this
      rw [trim, hs, trimEnd, List.reverse_cons,
        List.dropWhile_append_of_pos (List.all_eq_true.1 ht),
        List.dropWhile_cons_of_neg (by simp [hd])]
      rfl

/-! ## Words with single spaces -/

/-- The words of a text with single spaces in one pass; `started` says whether there is a word
before, and `gap` whether there are blanks behind it. -/
def squeezeFrom (started gap : Bool) : Text → Text
  | [] => []
  | c :: s =>
    if isBlank c then squeezeFrom started true s
    else if started && gap then ' ' :: c :: squeezeFrom true false s
    else c :: squeezeFrom true false s

theorem wordsFrom_ne_nil {cur : Text} (hcur : cur ≠ []) (s : Text) : wordsFrom cur s ≠ [] := by
  induction s generalizing cur with
  | nil => simp [wordsFrom, hcur]
  | cons c s ih =>
    unfold wordsFrom
    split
    · simp [hcur]
    · exact ih (List.cons_ne_nil c cur)

/-- The words of a text joined, alone, behind the letters of a word and behind a word that ends. -/
theorem intercalate_wordsFrom (s : Text) :
    (∀ gap, [' '].intercalate (wordsFrom [] s) = squeezeFrom false gap s) ∧
    (∀ cur, cur ≠ [] →
      [' '].intercalate (wordsFrom cur s) = cur.reverse ++ squeezeFrom true false s) ∧
    ∀ w, [' '].intercalate (w :: wordsFrom [] s) = w ++ squeezeFrom true true s := by
  induction s with
  | nil =>
    refine ⟨fun _ => rfl, fun cur hcur => ?_, fun w => ?_⟩
    · simp [wordsFrom, hcur, squeezeFrom]
    · simp [wordsFrom, squeezeFrom]
  | cons c s ih =>
    obtain ⟨halone, hword, hbehind⟩ := ih
    by_cases hc : isBlank c = true
    · refine ⟨fun gap => ?_, fun cur hcur => ?_, fun w => ?_⟩
      · simpa [wordsFrom, squeezeFrom, hc] using halone true
      · simpa [wordsFrom, squeezeFrom, hc, hcur] using hbehind cur.reverse
      · simpa [wordsFrom, squeezeFrom, hc] using hbehind w
    · have hone : ∀ cur, [' '].intercalate (wordsFrom (c :: cur) s) =
          (c :: cur).reverse ++ squeezeFrom true false s :=
        fun cur => hword _ (List.cons_ne_nil _ _)
      refine ⟨fun gap => ?_, fun cur hcur => ?_, fun w => ?_⟩
      · simpa [wordsFrom, squeezeFrom, hc] using hone []
      · simpa [wordsFrom, squeezeFrom, hc] using hone cur
      · obtain ⟨v, vs, hvs⟩ := List.exists_cons_of_ne_nil
          (wordsFrom_ne_nil (List.cons_ne_nil c []) s)
        have hrest := hone []
        simp only [wordsFrom, squeezeFrom, hc, hvs] at hrest ⊢
        simp [hrest]

/-- Collapsing in one pass. -/
theorem collapse_eq_squeeze (s : Text) : collapse s = squeezeFrom false false s :=
  (intercalate_wordsFrom s).1 false

theorem withoutBlanks_collapse (s : Text) : withoutBlanks (collapse s) = withoutBlanks s := by
  have hspace : isBlank ' ' = true := by decide
  have hsqueeze : ∀ started gap : Bool,
      withoutBlanks (squeezeFrom started gap s) = withoutBlanks s := by
    induction s with
    | nil => exact fun _ _ => rfl
    | cons c s ih =>
      intro started gap
      by_cases hc : isBlank c = true
      · simpa [squeezeFrom, withoutBlanks, hc] using ih started true
      · have ih := ih true false
        simp only [withoutBlanks] at ih
        by_cases hgap : (started && gap) = true <;>
          simp [squeezeFrom, withoutBlanks, hc, hgap, hspace, ih]
  rw [collapse_eq_squeeze, hsqueeze]

theorem squeezeFrom_squeezeFrom (started gap : Bool) (s : Text) :
    squeezeFrom started false (squeezeFrom started gap s) = squeezeFrom started gap s := by
  have hspace : isBlank ' ' = true := by decide
  induction s generalizing started gap with
  | nil => rfl
  | cons c s ih =>
    by_cases hc : isBlank c = true
    · simpa [squeezeFrom, hc] using ih started true
    · cases started <;> cases gap <;> simp [squeezeFrom, hc, hspace, ih]

theorem collapse_collapse (s : Text) : collapse (collapse s) = collapse s := by
  simp only [collapse_eq_squeeze, squeezeFrom_squeezeFrom]

/-- A collapsed text starts with no blank. -/
theorem isBlank_head_squeeze {s t : Text} {gap : Bool} {c : Char}
    (h : squeezeFrom false gap s = c :: t) : isBlank c = false := by
  induction s generalizing gap with
  | nil => cases h
  | cons d s ih =>
    by_cases hd : isBlank d = true
    · have hrest : squeezeFrom false true s = c :: t := by
        simpa [squeezeFrom, hd] using h
      exact ih hrest
    · simp only [squeezeFrom, hd, Bool.false_and, if_false, Bool.false_eq_true] at h
      obtain ⟨rfl, -⟩ := List.cons.inj h
      simpa using hd

end Text

namespace Sheet

open Text

/-! ## Heads in normal form -/

/-- The normal form of a head in one pass, behind the character `last`, with or without blanks
since. -/
def tightenFrom (last : Char) (gap : Bool) : Text → Text
  | [] => []
  | c :: s =>
    if isBlank c then tightenFrom last true s
    else if gap && last != ',' && c != ',' then ' ' :: c :: tightenFrom c false s
    else c :: tightenFrom c false s

theorem dropBeforeComma_cons {c : Char} (hc : c ≠ ' ') (s : Text) :
    dropBeforeComma (c :: s) = c :: dropBeforeComma s := by
  rw [dropBeforeComma.eq_2]
  simp [hc]

theorem dropBeforeComma_space {c : Char} (hc : c ≠ ',') (s : Text) :
    dropBeforeComma (' ' :: c :: s) = ' ' :: dropBeforeComma (c :: s) := by
  rw [dropBeforeComma.eq_2]
  simp [hc]

theorem dropAfterComma_cons {c : Char} (hc : c ≠ ',') (s : Text) :
    dropAfterComma (c :: s) = c :: dropAfterComma s := by
  rw [dropAfterComma.eq_2]
  simp [hc]

/-- What is left of a collapsed text when the spaces before commas are dropped: none is written
before a comma. -/
def squeezeCommaFrom (started gap : Bool) : Text → Text
  | [] => []
  | c :: s =>
    if isBlank c then squeezeCommaFrom started true s
    else if started && gap && c != ',' then ' ' :: c :: squeezeCommaFrom true false s
    else c :: squeezeCommaFrom true false s

theorem ne_space {c : Char} (hc : ¬ isBlank c = true) : c ≠ ' ' := by
  rintro rfl
  exact hc (by decide)

theorem dropBeforeComma_squeeze (started gap : Bool) (s : Text) :
    dropBeforeComma (squeezeFrom started gap s) = squeezeCommaFrom started gap s := by
  induction s generalizing started gap with
  | nil => rfl
  | cons c s ih =>
    by_cases hc : isBlank c = true
    · simpa [squeezeFrom, squeezeCommaFrom, hc] using ih started true
    · have hcons : dropBeforeComma (c :: squeezeFrom true false s) =
          c :: squeezeCommaFrom true false s := by
        rw [dropBeforeComma_cons (ne_space hc), ih]
      by_cases hgap : (started && gap) = true
      · by_cases hcomma : c = ','
        · subst hcomma
          have hspace : dropBeforeComma (' ' :: ',' :: squeezeFrom true false s) =
              ',' :: dropBeforeComma (squeezeFrom true false s) := rfl
          simp [squeezeFrom, squeezeCommaFrom, hc, hgap, hspace, ih]
        · simp [squeezeFrom, squeezeCommaFrom, hc, hgap, hcomma, dropBeforeComma_space, hcons]
      · simp [squeezeFrom, squeezeCommaFrom, hc, hgap, hcons]

/-- Behind a comma, behind another character and at the start of a head. -/
theorem dropAfterComma_squeeze (s : Text) :
    (∀ gap, dropAfterComma (',' :: squeezeCommaFrom true gap s) = ',' :: tightenFrom ',' gap s) ∧
    (∀ last gap, last ≠ ',' →
      dropAfterComma (squeezeCommaFrom true gap s) = tightenFrom last gap s) ∧
    ∀ gap gap', dropAfterComma (squeezeCommaFrom false gap s) = tightenFrom ',' gap' s := by
  induction s with
  | nil => exact ⟨fun _ => rfl, fun _ _ _ => rfl, fun _ _ => rfl⟩
  | cons c s ih =>
    obtain ⟨hcomma, hother, hstart⟩ := ih
    by_cases hc : isBlank c = true
    · refine ⟨fun gap => ?_, fun last gap hlast => ?_, fun gap gap' => ?_⟩
      · simpa [squeezeCommaFrom, tightenFrom, hc] using hcomma true
      · simpa [squeezeCommaFrom, tightenFrom, hc] using hother last true hlast
      · simpa [squeezeCommaFrom, tightenFrom, hc] using hstart true true
    · -- Behind `c` the next character is read as `c` says.
      have hnext : dropAfterComma (c :: squeezeCommaFrom true false s) =
          c :: tightenFrom c false s := by
        by_cases h : c = ','
        · subst h
          exact hcomma false
        · rw [dropAfterComma_cons h, hother c false h]
      refine ⟨fun gap => ?_, fun last gap hlast => ?_, fun gap gap' => ?_⟩
      · cases gap with
        | false =>
          have hkeep : dropAfterComma (',' :: c :: squeezeCommaFrom true false s) =
              ',' :: dropAfterComma (c :: squeezeCommaFrom true false s) := by
            rw [dropAfterComma.eq_2]
            simp [ne_space hc]
          simp [squeezeCommaFrom, tightenFrom, hc, hkeep, hnext]
        | true =>
          have hdrop : ∀ t, dropAfterComma (',' :: ' ' :: t) = ',' :: dropAfterComma t :=
            fun _ => rfl
          by_cases h : c = ','
          · subst h
            have hkeep : dropAfterComma (',' :: ',' :: squeezeCommaFrom true false s) =
                ',' :: dropAfterComma (',' :: squeezeCommaFrom true false s) := by
              rw [dropAfterComma.eq_2]
              simp
            simp [squeezeCommaFrom, tightenFrom, hc, hkeep, hnext]
          · simp [squeezeCommaFrom, tightenFrom, hc, h, hdrop, hnext]
      · have hspace : ∀ t, dropAfterComma (' ' :: t) = ' ' :: dropAfterComma t :=
          dropAfterComma_cons (by decide)
        cases gap with
        | false => simp [squeezeCommaFrom, tightenFrom, hc, hnext]
        | true =>
          by_cases h : c = ','
          · subst h
            simp [squeezeCommaFrom, tightenFrom, hc, hnext]
          · simp [squeezeCommaFrom, tightenFrom, hc, hlast, h, hspace, hnext]
      · simp [squeezeCommaFrom, tightenFrom, hc, hnext]

/-- The normal form of a head in one pass; at the start there is no space, as behind a comma. -/
theorem normalHead_eq_tighten (s : Text) : normalHead s = tightenFrom ',' false s := by
  rw [normalHead, collapse_eq_squeeze, dropBeforeComma_squeeze,
    (dropAfterComma_squeeze s).2.2 false false]

theorem tightenFrom_comma (gap : Bool) (s : Text) :
    tightenFrom ',' gap s = tightenFrom ',' false s := by
  cases s with
  | nil => rfl
  | cons c s => cases gap <;> simp [tightenFrom]

theorem tightenFrom_blanks {b : Text} (hb : isBlankText b = true) (last : Char) (gap : Bool)
    (s : Text) : tightenFrom last gap (b ++ s) = tightenFrom last (gap || !b.isEmpty) s := by
  induction b generalizing gap with
  | nil => simp
  | cons c b ih =>
    simp only [isBlankText, List.all_cons, Bool.and_eq_true] at hb
    simp [tightenFrom, hb.1, ih hb.2]

/-- Blanks before a head do not count. -/
theorem normalHead_blanks_append {b : Text} (hb : isBlankText b = true) (s : Text) :
    normalHead (b ++ s) = normalHead s := by
  rw [normalHead_eq_tighten, normalHead_eq_tighten, tightenFrom_blanks hb]
  exact tightenFrom_comma _ s

theorem isBlankText_lineBreak (depth : Nat) : isBlankText ('\n' :: tabs depth) = true := by
  have htab : isBlank '\t' = true := by decide
  have hline : isBlank '\n' = true := by decide
  simp [isBlankText, tabs, htab, hline]

theorem brokenHead_cons (depth : Nat) (c : Char) (s : Text) :
    brokenHead depth (c :: s) =
      (if c = ',' then ',' :: ('\n' :: tabs depth) else [c]) ++ brokenHead depth s := by
  rw [brokenHead, List.flatMap_cons]
  rfl

/-- Line breaks behind commas do not change what a head in normal form is. -/
theorem tightenFrom_brokenHead (depth : Nat) (last : Char) (gap : Bool) (s : Text) :
    tightenFrom last false (brokenHead depth (tightenFrom last gap s)) =
      tightenFrom last gap s := by
  induction s generalizing last gap with
  | nil => rfl
  | cons c s ih =>
    by_cases hc : isBlank c = true
    · simpa [tightenFrom, hc] using ih last true
    -- Behind a comma there are blanks, and they do not count.
    have hnext : ∀ gap', (gap' && last != ',' && c != ',') = false →
        tightenFrom last gap' (brokenHead depth (c :: tightenFrom c false s)) =
          c :: tightenFrom c false s := by
      intro gap' hgap'
      rw [brokenHead_cons]
      by_cases h : c = ','
      · subst h
        have hrest : tightenFrom ',' false ('\n' :: (tabs depth ++
            brokenHead depth (tightenFrom ',' false s))) = tightenFrom ',' false s := by
          rw [← List.cons_append, tightenFrom_blanks (isBlankText_lineBreak depth),
            tightenFrom_comma, ih]
        simp only [if_true, List.cons_append, tightenFrom, hc, hgap', if_false,
          Bool.false_eq_true]
        exact congrArg (',' :: ·) hrest
      · simp [tightenFrom, hc, h, hgap', ih]
    cases hgap : (gap && last != ',' && c != ',') with
    | true =>
      simp only [Bool.and_eq_true, bne_iff_ne, ne_eq] at hgap
      obtain ⟨⟨rfl, hlast⟩, hcomma⟩ := hgap
      have hspace : isBlank ' ' = true := by decide
      simp [tightenFrom, hc, hlast, hcomma, brokenHead_cons, hspace, ih]
    | false =>
      have hout : tightenFrom last gap (c :: s) = c :: tightenFrom c false s := by
        simp [tightenFrom, hc, hgap]
      rw [hout]
      exact hnext false rfl

/-- **A head in normal form that is written on several lines, behind blanks, is read as itself.** -/
theorem normalHead_brokenHead {b : Text} (hb : isBlankText b = true) (depth : Nat) (s : Text) :
    normalHead (b ++ brokenHead depth (normalHead s)) = normalHead s := by
  rw [normalHead_eq_tighten, normalHead_eq_tighten, tightenFrom_blanks hb, tightenFrom_comma,
    tightenFrom_brokenHead]

theorem withoutBlanks_tightenFrom (last : Char) (gap : Bool) (s : Text) :
    withoutBlanks (tightenFrom last gap s) = withoutBlanks s := by
  have hspace : isBlank ' ' = true := by decide
  induction s generalizing last gap with
  | nil => rfl
  | cons c s ih =>
    by_cases hc : isBlank c = true
    · simpa [tightenFrom, withoutBlanks, hc] using ih last true
    · have ih := ih c false
      simp only [withoutBlanks] at ih
      by_cases hgap : (gap && last != ',' && c != ',') = true <;>
        simp [tightenFrom, withoutBlanks, hc, hgap, hspace, ih]

/-- The normal form has the characters of the head, but for blanks. -/
theorem withoutBlanks_normalHead (s : Text) : withoutBlanks (normalHead s) = withoutBlanks s := by
  rw [normalHead_eq_tighten, withoutBlanks_tightenFrom]

end Sheet

end UtilitySheet
