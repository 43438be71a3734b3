import UtilitySheet.Proofs.Quotes

/-!
# Blanks outside of strings

A text can be rid of all its blanks, or of those outside of its strings only. Texts that are the
same without the blanks outside of strings are the same without any blanks, and have the same
strings; the converse is true as well (`withoutOuterBlanks_eq_iff`). So the two comparisons differ
by the blanks in strings, and where there are none they do not differ
(`withoutOuterBlanks_eq_withoutBlanks`). A string that is not closed runs to the end of the text.
-/

namespace UtilitySheet.Text

/-- What is written for a character of a text without the blanks outside of strings. The state is
the quote that is open. -/
def outerStep (quote : Option Char) (c : Char) : Text × Option Char :=
  (if quote.isNone && isBlank c then [] else [c], quoteStep quote c)

/-- The text without the blanks outside of its strings. -/
def withoutOuterBlanks (s : Text) : Text := rewrite outerStep none s

/-- The strings of a text with their quotes, where the end of the text closes a string. -/
def quotations (s : Text) : List Text := strings (s ++ (s.foldl quoteStep none).toList)

/-! ## One character or one string after the other -/

/-- What holds of a text from one character or string on holds of every text. -/
@[elab_as_elim]
theorem quoted_induction {motive : Text → Prop} (nil : motive [])
    (plain : ∀ c s, isQuote c = false → motive s → motive (c :: s))
    (closed : ∀ q u s, isQuote q = true → q ∉ u → motive s → motive (q :: (u ++ q :: s)))
    (opened : ∀ q u, isQuote q = true → q ∉ u → motive (q :: u)) (s : Text) : motive s := by
  cases s with
  | nil => exact nil
  | cons c s =>
    cases hc : isQuote c with
    | false => exact plain c s hc (quoted_induction nil plain closed opened s)
    | true =>
      by_cases hmem : c ∈ s
      · obtain ⟨u, v, hs, hu⟩ := List.eq_append_cons_of_mem hmem
        have hlength : v.length < (c :: s).length := by
          rw [hs]
          simp
          omega
        exact hs ▸ closed c u v hc hu (quoted_induction nil plain closed opened v)
      · exact opened c s hc hmem
termination_by s.length
decreasing_by
  · exact Nat.lt_succ_self _
  · exact hlength

section Stretches

variable {q : Char} {u : Text}

theorem foldl_quoteStep_inside (hu : q ∉ u) : u.foldl quoteStep (some q) = some q := by
  induction u with
  | nil => rfl
  | cons c u ih =>
    rw [List.mem_cons, not_or] at hu
    simp [quoteStep, Ne.symm hu.1, ih hu.2]

theorem outerBlanks_inside (hu : q ∉ u) (s : Text) :
    rewrite outerStep (some q) (u ++ s) = u ++ rewrite outerStep (some q) s := by
  induction u with
  | nil => rfl
  | cons c u ih =>
    rw [List.mem_cons, not_or] at hu
    simp [rewrite, outerStep, quoteStep, Ne.symm hu.1, ih hu.2]

theorem withoutOuterBlanks_closed (hq : isQuote q = true) (hu : q ∉ u) (s : Text) :
    withoutOuterBlanks (q :: (u ++ q :: s)) = q :: (u ++ q :: withoutOuterBlanks s) := by
  have hinside := outerBlanks_inside hu (q :: s)
  simp only [withoutOuterBlanks, rewrite, outerStep, quoteStep, isBlank_of_isQuote hq, hq]
    at hinside ⊢
  simp [hinside]

theorem withoutOuterBlanks_open (hq : isQuote q = true) (hu : q ∉ u) :
    withoutOuterBlanks (q :: u) = q :: u := by
  have hinside := outerBlanks_inside hu []
  simp only [List.append_nil, rewrite] at hinside
  simp [withoutOuterBlanks, rewrite, outerStep, quoteStep, isBlank_of_isQuote hq, hq, hinside]

theorem strings_closed (hq : isQuote q = true) (hu : q ∉ u) (s : Text) :
    strings (q :: (u ++ q :: s)) = (q :: (u ++ [q])) :: strings s := by
  have hne : ∀ c ∈ u, c ≠ q := fun c hc heq => hu (heq ▸ hc)
  simp [strings, stringsFrom, hq, stringsFrom_inside hne]

theorem quotations_closed (hq : isQuote q = true) (hu : q ∉ u) (s : Text) :
    quotations (q :: (u ++ q :: s)) = (q :: (u ++ [q])) :: quotations s := by
  have hquote : (q :: (u ++ q :: s)).foldl quoteStep none = s.foldl quoteStep none := by
    simp [quoteStep, hq, foldl_quoteStep_inside hu]
  rw [quotations, hquote, List.cons_append, List.append_assoc, List.cons_append,
    strings_closed hq hu]
  rfl

theorem quotations_open (hq : isQuote q = true) (hu : q ∉ u) :
    quotations (q :: u) = [q :: (u ++ [q])] := by
  have hquote : (q :: u).foldl quoteStep none = some q := by
    simp [quoteStep, hq, foldl_quoteStep_inside hu]
  rw [quotations, hquote, Option.toList_some, List.cons_append, strings_closed hq hu]
  rfl

end Stretches

theorem withoutOuterBlanks_plain {c : Char} (hc : isBlank c = false) (hq : isQuote c = false)
    (s : Text) : withoutOuterBlanks (c :: s) = c :: withoutOuterBlanks s := by
  simp [withoutOuterBlanks, rewrite, outerStep, quoteStep, hc, hq]

theorem withoutOuterBlanks_blanks_append {b : Text} (hb : isBlankText b = true) (s : Text) :
    withoutOuterBlanks (b ++ s) = withoutOuterBlanks s := by
  induction b with
  | nil => rfl
  | cons c b ih =>
    simp only [isBlankText, List.all_cons, Bool.and_eq_true] at hb
    rw [← ih hb.2]
    simp [withoutOuterBlanks, rewrite, outerStep, quoteStep, hb.1, isQuote_of_isBlank hb.1]

theorem quotations_plain {c : Char} (hq : isQuote c = false) (s : Text) :
    quotations (c :: s) = quotations s := by
  simp [quotations, strings, stringsFrom, quoteStep, hq]

theorem quotations_blanks_append {b : Text} (hb : isBlankText b = true) (s : Text) :
    quotations (b ++ s) = quotations s := by
  induction b with
  | nil => rfl
  | cons c b ih =>
    simp only [isBlankText, List.all_cons, Bool.and_eq_true] at hb
    rw [List.cons_append, quotations_plain (isQuote_of_isBlank hb.1), ih hb.2]

/-! ## The two comparisons -/

/-- Without its outer blanks a text has the same characters but for blanks, and the same strings. -/
theorem withoutOuterBlanks_spec (s : Text) :
    withoutBlanks (withoutOuterBlanks s) = withoutBlanks s ∧
      quotations (withoutOuterBlanks s) = quotations s := by
  induction s using quoted_induction with
  | nil => exact ⟨rfl, rfl⟩
  | plain c s hq ih =>
    cases hc : isBlank c with
    | true =>
      have hb : isBlankText [c] = true := by simp [isBlankText, hc]
      rw [← List.singleton_append, withoutOuterBlanks_blanks_append hb,
        quotations_blanks_append hb, withoutBlanks_blanks_append hb]
      exact ih
    | false =>
      rw [withoutOuterBlanks_plain hc hq, quotations_plain hq, quotations_plain hq,
        withoutBlanks_cons hc, withoutBlanks_cons hc, ih.1]
      exact ⟨rfl, ih.2⟩
  | closed q u s hq hu ih =>
    have hblank := isBlank_of_isQuote hq
    rw [withoutOuterBlanks_closed hq hu, quotations_closed hq hu, quotations_closed hq hu, ih.2]
    simp only [withoutBlanks_cons hblank, withoutBlanks_append, ih.1, and_self]
  | opened q u hq hu =>
    rw [withoutOuterBlanks_open hq hu]
    exact ⟨rfl, rfl⟩

theorem withoutBlanks_append_cons_ne {q : Char} (hq : isBlank q = false) (u s : Text) :
    withoutBlanks (u ++ q :: s) ≠ withoutBlanks u := by
  simp [withoutBlanks_append, withoutBlanks_cons hq]

/-- Texts with the same strings that are the same but for blanks differ outside of strings only. -/
theorem withoutOuterBlanks_congr {s t : Text} (hblanks : withoutBlanks s = withoutBlanks t)
    (hquotations : quotations s = quotations t) : withoutOuterBlanks s = withoutOuterBlanks t := by
  induction s using quoted_induction generalizing t with
  | nil =>
    have ht : isBlankText t = true := withoutBlanks_eq_nil_iff.1 hblanks.symm
    have houter := withoutOuterBlanks_blanks_append ht []
    rw [List.append_nil] at houter
    exact houter.symm
  | plain c s hq ih =>
    rw [quotations_plain hq] at hquotations
    cases hc : isBlank c with
    | true =>
      have hb : isBlankText [c] = true := by simp [isBlankText, hc]
      rw [← List.singleton_append] at hblanks ⊢
      rw [withoutBlanks_blanks_append hb] at hblanks
      rw [withoutOuterBlanks_blanks_append hb]
      exact ih hblanks hquotations
    | false =>
      rw [withoutBlanks_cons hc] at hblanks
      obtain ⟨b, t, rfl, hb, ht⟩ := exists_of_withoutBlanks_eq_cons hblanks.symm
      rw [quotations_blanks_append hb, quotations_plain hq] at hquotations
      rw [withoutOuterBlanks_blanks_append hb, withoutOuterBlanks_plain hc hq,
        withoutOuterBlanks_plain hc hq, ih ht.symm hquotations]
  | closed q u s hq hu ih =>
    have hblank := isBlank_of_isQuote hq
    rw [withoutBlanks_cons hblank] at hblanks
    obtain ⟨b, t, rfl, hb, ht⟩ := exists_of_withoutBlanks_eq_cons hblanks.symm
    rw [quotations_blanks_append hb, quotations_closed hq hu] at hquotations
    by_cases hmem : q ∈ t
    · obtain ⟨u', t, rfl, hu'⟩ := List.eq_append_cons_of_mem hmem
      rw [quotations_closed hq hu', List.cons.injEq, List.cons.injEq,
        List.append_cancel_right_eq] at hquotations
      obtain ⟨⟨-, rfl⟩, hquotations⟩ := hquotations
      have hrest : withoutBlanks s = withoutBlanks t := by
        simpa [withoutBlanks_append, withoutBlanks_cons hblank] using ht.symm
      rw [withoutOuterBlanks_blanks_append hb, withoutOuterBlanks_closed hq hu,
        withoutOuterBlanks_closed hq hu, ih hrest hquotations]
    · -- The string of `t` runs to its end, so that `s` has a quote too many.
      rw [quotations_open hq hmem, List.cons.injEq, List.cons.injEq,
        List.append_cancel_right_eq] at hquotations
      obtain ⟨⟨-, rfl⟩, -⟩ := hquotations
      exact absurd ht.symm (withoutBlanks_append_cons_ne hblank u s)
  | opened q u hq hu =>
    have hblank := isBlank_of_isQuote hq
    rw [withoutBlanks_cons hblank] at hblanks
    obtain ⟨b, t, rfl, hb, ht⟩ := exists_of_withoutBlanks_eq_cons hblanks.symm
    rw [quotations_blanks_append hb, quotations_open hq hu] at hquotations
    by_cases hmem : q ∈ t
    · obtain ⟨u', t, rfl, hu'⟩ := List.eq_append_cons_of_mem hmem
      rw [quotations_closed hq hu', List.cons.injEq, List.cons.injEq,
        List.append_cancel_right_eq] at hquotations
      obtain ⟨⟨-, rfl⟩, -⟩ := hquotations
      exact absurd ht (withoutBlanks_append_cons_ne hblank u t)
    · rw [quotations_open hq hmem, List.cons.injEq, List.cons.injEq,
        List.append_cancel_right_eq] at hquotations
      rw [withoutOuterBlanks_blanks_append hb, hquotations.1.2]

/-- **Texts are the same but for blanks outside of strings if they are the same but for blanks and
have the same strings, and only then.** -/
theorem withoutOuterBlanks_eq_iff {s t : Text} : withoutOuterBlanks s = withoutOuterBlanks t ↔
    withoutBlanks s = withoutBlanks t ∧ quotations s = quotations t := by
  refine ⟨fun h => ?_, fun h => withoutOuterBlanks_congr h.1 h.2⟩
  obtain ⟨hs, hs'⟩ := withoutOuterBlanks_spec s
  obtain ⟨ht, ht'⟩ := withoutOuterBlanks_spec t
  exact ⟨by rw [← hs, h, ht], by rw [← hs', h, ht']⟩

/-- Where strings have no blanks, all blanks stand outside of them. -/
theorem withoutOuterBlanks_eq_withoutBlanks {s : Text}
    (h : ∀ t ∈ quotations s, withoutBlanks t = t) : withoutOuterBlanks s = withoutBlanks s := by
  induction s using quoted_induction with
  | nil => rfl
  | plain c s hq ih =>
    rw [quotations_plain hq] at h
    cases hc : isBlank c with
    | true =>
      have hb : isBlankText [c] = true := by simp [isBlankText, hc]
      rw [← List.singleton_append, withoutOuterBlanks_blanks_append hb,
        withoutBlanks_blanks_append hb, ih h]
    | false => rw [withoutOuterBlanks_plain hc hq, withoutBlanks_cons hc, ih h]
  | closed q u s hq hu ih =>
    rw [quotations_closed hq hu, List.forall_mem_cons] at h
    have hblank := isBlank_of_isQuote hq
    have hinside : withoutBlanks u = u := by
      simpa [withoutBlanks_cons hblank, withoutBlanks_append] using h.1
    rw [withoutOuterBlanks_closed hq hu, withoutBlanks_cons hblank, withoutBlanks_append,
      withoutBlanks_cons hblank, hinside, ih h.2]
  | opened q u hq hu =>
    rw [quotations_open hq hu, List.forall_mem_singleton] at h
    have hblank := isBlank_of_isQuote hq
    have hinside : withoutBlanks u = u := by
      simpa [withoutBlanks_cons hblank, withoutBlanks_append] using h
    rw [withoutOuterBlanks_open hq hu, withoutBlanks_cons hblank, hinside]

end UtilitySheet.Text
