import UtilitySheet.Proofs.Declarations

/-!
# Quoted strings

The strings of a text run from a quote to the next quote of its kind. The normal forms of heads and
values are made character by character and start anew behind each quote, so what becomes of a string
does not depend on the text around it (`strings_rewrite`). A body is cut without regard to quotes;
where its strings hold no parenthesis, and a semicolon only within parentheses, it is cut as if
strings were in one piece (`Declarations.parts_eq_wholeParts`), and its declarations have the
strings of the source (`Declarations.strings_ofBodies`).
-/

namespace UtilitySheet

namespace Text

/-- Whether a character is a quote. -/
def isQuote (c : Char) : Bool := c == '"' || c == '\''

/-- The quote that is open behind one more character. -/
def quoteStep : (quote : Option Char) → Char → Option Char
  | none, c => if isQuote c then some c else none
  | some q, c => if c = q then none else some q

/-- The strings of a text with their quotes. `opened` is the string that is being read: its quote,
and its characters with the last one first. -/
def stringsFrom : (opened : Option (Char × Text)) → Text → List Text
  | _, [] => []
  | none, c :: s => if isQuote c then stringsFrom (some (c, [c])) s else stringsFrom none s
  | some (q, cur), c :: s =>
    if c = q then (c :: cur).reverse :: stringsFrom none s else stringsFrom (some (q, c :: cur)) s

/-- The strings of a text with their quotes. -/
def strings (s : Text) : List Text := stringsFrom none s

@[simp] theorem isQuote_space : isQuote ' ' = false := by decide

theorem isQuote_iff {c : Char} : isQuote c = true ↔ c = '"' ∨ c = '\'' := by
  simp [isQuote]

theorem isQuote_of_isBlank {c : Char} (hc : isBlank c = true) : isQuote c = false := by
  refine Bool.eq_false_iff.2 fun hquote => ?_
  rcases isQuote_iff.1 hquote with rfl | rfl
  · exact absurd hc (by decide)
  · exact absurd hc (by decide)

theorem ne_comma_of_isQuote {c : Char} (hc : isQuote c = true) : c ≠ ',' := by
  rintro rfl
  exact absurd hc (by decide)

theorem isBlank_of_isQuote {c : Char} (hc : isQuote c = true) : isBlank c = false := by
  refine Bool.eq_false_iff.2 fun hblank => ?_
  rw [isQuote_of_isBlank hblank] at hc
  cases hc

theorem stringsFrom_plain {u : Text} (hu : ∀ d ∈ u, isQuote d = false) (s : Text) :
    stringsFrom none (u ++ s) = stringsFrom none s := by
  induction u with
  | nil => rfl
  | cons d u ih =>
    rw [List.forall_mem_cons] at hu
    simp [stringsFrom, hu.1, ih hu.2]

theorem stringsFrom_inside {q : Char} {u : Text} (hu : ∀ d ∈ u, d ≠ q) (cur s : Text) :
    stringsFrom (some (q, cur)) (u ++ s) = stringsFrom (some (q, u.reverse ++ cur)) s := by
  induction u generalizing cur with
  | nil => rfl
  | cons d u ih =>
    rw [List.forall_mem_cons] at hu
    simp [stringsFrom, hu.1, ih hu.2]

/-- A string is a stretch of the text. -/
theorem infix_of_mem_strings {s t : Text} (h : t ∈ strings s) : t <:+: s := by
  have hfrom : ∀ opened : Option (Char × Text), t ∈ stringsFrom opened s →
      t <:+: (opened.map (·.2.reverse)).getD [] ++ s := by
    clear h
    induction s with
    | nil =>
      intro opened h
      cases opened <;> cases h
    | cons c s ih =>
      rintro (_ | ⟨q, cur⟩) h
      · simp only [stringsFrom] at h
        split at h
        · exact ih (some (c, [c])) h
        · exact (ih none h).trans (List.infix_cons (List.infix_refl s))
      · simp only [stringsFrom] at h
        split at h
        · rcases List.mem_cons.1 h with rfl | h
          · exact ⟨[], s, by simp⟩
          · exact (ih none h).trans ⟨cur.reverse ++ [c], [], by simp⟩
        · simpa using ih (some (q, c :: cur)) h
  exact hfrom none h

/-- Where no quote is open, the strings behind do not depend on the text before. -/
theorem strings_append {u : Text} (hu : u.foldl quoteStep none = none) (v : Text) :
    strings (u ++ v) = strings u ++ strings v := by
  have hfrom : ∀ opened : Option (Char × Text),
      u.foldl quoteStep (opened.map Prod.fst) = none →
      stringsFrom opened (u ++ v) = stringsFrom opened u ++ strings v := by
    clear hu
    induction u with
    | nil =>
      intro opened h
      obtain rfl := Option.map_eq_none_iff.1 h
      rfl
    | cons c u ih =>
      rintro (_ | ⟨q, cur⟩) h
      · by_cases hc : isQuote c = true
        · simpa [stringsFrom, hc] using ih (some (c, [c])) (by simpa [quoteStep, hc] using h)
        · simpa [stringsFrom, hc] using ih none (by simpa [quoteStep, hc] using h)
      · by_cases hc : c = q
        · simpa [stringsFrom, hc] using ih none (by simpa [quoteStep, hc] using h)
        · simpa [stringsFrom, hc] using ih (some (q, c :: cur)) (by simpa [quoteStep, hc] using h)
  exact hfrom none hu

/-! ## Texts rewritten character by character -/

section Rewriting

variable {σ : Type} (step : σ → Char → Text × σ)

/-- The text with each character replaced by what `step` writes for it, from a state on. -/
def rewrite : (state : σ) → Text → Text
  | _, [] => []
  | state, c :: s => (step state c).1 ++ rewrite (step state c).2 s

/-- A rewriting that keeps quotes, adds none, and starts anew behind each of them. -/
structure KeepsQuotes (init : σ) : Prop where
  plain : ∀ state c, isQuote c = false → ∀ d ∈ (step state c).1, isQuote d = false
  quote : ∀ state c, isQuote c = true → ∃ gap : Text, (∀ d ∈ gap, isQuote d = false) ∧
    step state c = (gap ++ [c], (step init c).2)
  first : ∀ c, isQuote c = true → (step init c).1 = [c]

variable {step}

/-- What is written for a character that does not close a string does not close it either. -/
theorem KeepsQuotes.ne_of_ne {init : σ} (h : KeepsQuotes step init) {q c : Char}
    (hq : isQuote q = true) (hc : c ≠ q) (state : σ) : ∀ d ∈ (step state c).1, d ≠ q := by
  intro d hd
  by_cases hquote : isQuote c = true
  · obtain ⟨gap, hgap, heq⟩ := h.quote state c hquote
    rw [heq] at hd
    rcases List.mem_append.1 hd with hd | hd
    · rintro rfl
      rw [hgap d hd] at hq
      cases hq
    · rw [List.mem_singleton.1 hd]
      exact hc
  · rintro rfl
    rw [h.plain state c (by simpa using hquote) d hd] at hq
    cases hq

/-- **Each string is rewritten as it would be on its own.** -/
theorem strings_rewrite {init : σ} (h : KeepsQuotes step init) (state : σ) (s : Text) :
    strings (rewrite step state s) = (strings s).map (rewrite step init) := by
  -- Inside a string, `cur'` is what has been written for the characters `cur`.
  have hboth : (∀ state, stringsFrom none (rewrite step state s) =
        (stringsFrom none s).map (rewrite step init)) ∧
      ∀ (q : Char) (cur cur' : Text) (state : σ), isQuote q = true →
        (∀ t, rewrite step init (cur.reverse ++ t) = cur'.reverse ++ rewrite step state t) →
        stringsFrom (some (q, cur')) (rewrite step state s) =
          (stringsFrom (some (q, cur)) s).map (rewrite step init) := by
    induction s with
    | nil => exact ⟨fun _ => rfl, fun _ _ _ _ _ _ => rfl⟩
    | cons c s ih =>
      obtain ⟨houtside, hinside⟩ := ih
      refine ⟨fun state => ?_, fun q cur cur' state hq hcur => ?_⟩
      · by_cases hc : isQuote c = true
        · obtain ⟨gap, hgap, heq⟩ := h.quote state c hc
          have hstart : ∀ t, rewrite step init ([c] ++ t) =
              [c] ++ rewrite step (step init c).2 t := by
            intro t
            rw [List.singleton_append, rewrite, h.first c hc]
          rw [rewrite, heq, List.append_assoc, stringsFrom_plain hgap]
          simpa [stringsFrom, hc] using hinside c [c] [c] (step init c).2 hc hstart
        · rw [rewrite, stringsFrom_plain (h.plain state c (by simpa using hc))]
          simpa [stringsFrom, hc] using houtside (step state c).2
      · by_cases hc : c = q
        · subst hc
          obtain ⟨gap, hgap, heq⟩ := h.quote state c hq
          have hgap' : ∀ d ∈ gap, d ≠ c := by
            rintro d hd rfl
            rw [hgap d hd] at hq
            cases hq
          have hwhole := hcur [c]
          rw [rewrite, heq, rewrite, List.append_nil] at hwhole
          rw [rewrite, heq, List.append_assoc, stringsFrom_inside hgap']
          simp [stringsFrom, hwhole, houtside]
        · have hnext : ∀ t, rewrite step init ((c :: cur).reverse ++ t) =
              ((step state c).1.reverse ++ cur').reverse ++ rewrite step (step state c).2 t := by
            intro t
            have hcons := hcur (c :: t)
            rw [rewrite] at hcons
            simpa using hcons
          rw [rewrite, stringsFrom_inside (h.ne_of_ne hq hc state),
            hinside q (c :: cur) _ _ hq hnext]
          simp [stringsFrom, hc]
  exact hboth.1 state

end Rewriting

/-! ## Values -/

/-- What is written for a character of a value: nothing for a blank, and a space before the next
word. -/
def squeezeStep : (state : Bool × Bool) → Char → Text × (Bool × Bool)
  | (started, gap), c =>
    if isBlank c then ([], (started, true))
    else (if started && gap then [' ', c] else [c], (true, false))

theorem squeezeFrom_eq_rewrite (started gap : Bool) (s : Text) :
    squeezeFrom started gap s = rewrite squeezeStep (started, gap) s := by
  induction s generalizing started gap with
  | nil => rfl
  | cons c s ih =>
    rw [squeezeFrom, rewrite, squeezeStep]
    split
    · simp [ih]
    · split <;> simp [ih]

theorem keepsQuotes_squeezeStep : KeepsQuotes squeezeStep (false, false) where
  plain := by
    rintro ⟨started, gap⟩ c hc d hd
    simp only [squeezeStep] at hd
    split at hd
    · cases hd
    · have hd : d = ' ' ∨ d = c := by
        split at hd <;> simp at hd <;> simp [hd]
      rcases hd with rfl | rfl
      · exact isQuote_space
      · exact hc
  quote := by
    rintro ⟨started, gap⟩ c hc
    refine ⟨if started && gap then [' '] else [], ?_, ?_⟩
    · split <;> simp
    · simp only [squeezeStep, isBlank_of_isQuote hc, Bool.false_eq_true, if_false]
      split <;> rfl
  first := by
    intro c hc
    simp [squeezeStep, isBlank_of_isQuote hc]

theorem strings_collapse (s : Text) : strings (collapse s) = (strings s).map collapse := by
  have hrewrite : collapse = rewrite squeezeStep (false, false) := by
    funext t
    rw [collapse_eq_squeeze, squeezeFrom_eq_rewrite]
  rw [hrewrite, strings_rewrite keepsQuotes_squeezeStep]

/-! ## Statements -/

/-- What is written for a character of a text without blanks. -/
def blankStep (_ : Unit) (c : Char) : Text × Unit := (if isBlank c then [] else [c], ())

theorem keepsQuotes_blankStep : KeepsQuotes blankStep () where
  plain := by
    intro _ c hc d hd
    simp only [blankStep] at hd
    split at hd
    · cases hd
    · rw [List.mem_singleton.1 hd]
      exact hc
  quote := by
    intro _ c hc
    refine ⟨[], by simp, ?_⟩
    simp [blankStep, isBlank_of_isQuote hc]
  first := by
    intro c hc
    simp [blankStep, isBlank_of_isQuote hc]

theorem strings_withoutBlanks (s : Text) :
    strings (withoutBlanks s) = (strings s).map withoutBlanks := by
  have hrewrite : withoutBlanks = rewrite blankStep () := by
    funext t
    induction t with
    | nil => rfl
    | cons c t ih =>
      rw [rewrite, ← ih]
      by_cases hc : isBlank c = true <;> simp [withoutBlanks, blankStep, hc]
  rw [hrewrite, strings_rewrite keepsQuotes_blankStep]

end Text

namespace Sheet

open Text

/-! ## Heads -/

/-- What is written for a character of a head at a depth: nothing for a blank, a space before the
next word unless there is a comma, and a line break behind a comma. -/
def headStep (depth : Nat) : (state : Char × Bool) → Char → Text × (Char × Bool)
  | (last, gap), c =>
    if isBlank c then ([], (last, true))
    else (brokenHead depth (if gap && last != ',' && c != ',' then [' ', c] else [c]), (c, false))

theorem brokenHead_append (depth : Nat) (s t : Text) :
    brokenHead depth (s ++ t) = brokenHead depth s ++ brokenHead depth t := List.flatMap_append

theorem brokenHead_tightenFrom (depth : Nat) (last : Char) (gap : Bool) (s : Text) :
    brokenHead depth (tightenFrom last gap s) = rewrite (headStep depth) (last, gap) s := by
  induction s generalizing last gap with
  | nil => rfl
  | cons c s ih =>
    rw [tightenFrom, rewrite, headStep]
    split
    · simp [ih]
    · split
      · rw [← ih c false, ← brokenHead_append]
        rfl
      · rw [← ih c false, ← brokenHead_append]
        rfl

theorem brokenHead_of_not_mem {s : Text} (hs : ',' ∉ s) (depth : Nat) :
    brokenHead depth s = s := by
  induction s with
  | nil => rfl
  | cons c s ih =>
    rw [List.mem_cons, not_or] at hs
    rw [brokenHead_cons, if_neg (Ne.symm hs.1), ih hs.2]
    rfl

theorem isQuote_of_mem_brokenHead {depth : Nat} {s : Text} (hs : ∀ d ∈ s, isQuote d = false) :
    ∀ d ∈ brokenHead depth s, isQuote d = false := by
  intro d hd
  obtain ⟨c, hc, hd⟩ := List.mem_flatMap.1 hd
  split at hd
  · have hd : d ∈ ',' :: ('\n' :: tabs depth) := hd
    rcases List.mem_cons.1 hd with rfl | hd
    · decide
    · exact isQuote_of_isBlank (List.all_eq_true.1 (isBlankText_lineBreak depth) d hd)
  · rw [List.mem_singleton.1 hd]
    exact hs c hc

theorem keepsQuotes_headStep (depth : Nat) : KeepsQuotes (headStep depth) (',', false) where
  plain := by
    rintro ⟨last, gap⟩ c hc d hd
    simp only [headStep] at hd
    split at hd
    · cases hd
    · refine isQuote_of_mem_brokenHead ?_ d hd
      split <;> simp [hc]
  quote := by
    rintro ⟨last, gap⟩ c hc
    have hcomma := ne_comma_of_isQuote hc
    have hcut : ∀ d ∈ [' ', c], d ≠ ',' := by simp [hcomma]
    refine ⟨if gap && last != ',' && c != ',' then [' '] else [], ?_, ?_⟩
    · split <;> simp
    · simp only [headStep, isBlank_of_isQuote hc, Bool.false_eq_true, if_false]
      split
      · rw [brokenHead_of_not_mem fun hmem => hcut _ hmem rfl]
        rfl
      · rw [brokenHead_of_not_mem (by simpa using Ne.symm hcomma)]
        rfl
  first := by
    intro c hc
    have hcomma := ne_comma_of_isQuote hc
    simp only [headStep, isBlank_of_isQuote hc, Bool.false_eq_true, if_false, Bool.false_and]
    exact brokenHead_of_not_mem (by simpa using Ne.symm hcomma) depth

/-- Each string of a head is put in normal form and broken at its commas. -/
theorem strings_brokenHead_normalHead (depth : Nat) (s : Text) :
    strings (brokenHead depth (normalHead s)) =
      (strings s).map fun t => brokenHead depth (normalHead t) := by
  have hrewrite : ∀ t, brokenHead depth (normalHead t) =
      rewrite (headStep depth) (',', false) t := by
    intro t
    rw [normalHead_eq_tighten, brokenHead_tightenFrom]
  rw [hrewrite, strings_rewrite (keepsQuotes_headStep depth)]
  exact List.map_congr_left fun t _ => (hrewrite t).symm

theorem dropBeforeComma_of_not_mem {s : Text} (hs : ',' ∉ s) : dropBeforeComma s = s := by
  fun_induction dropBeforeComma s with
  | case1 s => simp at hs
  | case2 c s _ ih => rw [ih fun h => hs (List.mem_cons_of_mem _ h)]
  | case3 => rfl

theorem dropAfterComma_of_not_mem {s : Text} (hs : ',' ∉ s) : dropAfterComma s = s := by
  fun_induction dropAfterComma s with
  | case1 s => simp at hs
  | case2 c s _ ih => rw [ih fun h => hs (List.mem_cons_of_mem _ h)]
  | case3 => rfl

/-- **A head is written with its strings if they hold no commas, and single spaces as blanks.** -/
theorem strings_writtenHead {s : Text} (hs : ∀ t ∈ strings s, ',' ∉ t ∧ collapse t = t)
    (depth : Nat) : strings (brokenHead depth (normalHead s)) = strings s := by
  rw [strings_brokenHead_normalHead]
  refine (List.map_congr_left fun t ht => ?_).trans (List.map_id _)
  obtain ⟨hcomma, hspace⟩ := hs t ht
  rw [normalHead, hspace, dropBeforeComma_of_not_mem hcomma, dropAfterComma_of_not_mem hcomma,
    brokenHead_of_not_mem hcomma, id]

end Sheet

namespace Declarations

open Text

/-! ## Bodies -/

/-- How many parentheses are open behind one more character. -/
def parenStep (depth : Nat) (c : Char) : Nat :=
  if c = '(' then depth + 1 else if c = ')' then depth - 1 else depth

/-- The parts of a body between the semicolons that stand outside of parentheses and strings. The
first part continues the reversed text `cur` with `depth` open parentheses and an open quote. -/
def wholePartsFrom (cur : Text) (depth : Nat) (quote : Option Char) : Text → List Text
  | [] => [cur.reverse]
  | c :: s =>
    if quote = none ∧ c = ';' ∧ depth = 0 then cur.reverse :: wholePartsFrom [] 0 none s
    else wholePartsFrom (c :: cur) (if quote.isSome then depth else parenStep depth c)
      (quoteStep quote c) s

/-- The parts between the semicolons that stand outside of parentheses and strings. -/
def wholeParts (body : Text) : List Text := wholePartsFrom [] 0 none body

/-- Whether a text hides no parenthesis in a string, and no semicolon unless the string stands in
parentheses, of which `depth` are open. -/
def hidesNothingFrom (depth : Nat) (quote : Option Char) : Text → Bool
  | [] => true
  | c :: s =>
    (quote.isNone || c != '(' && c != ')' && (c != ';' || 0 < depth)) &&
      hidesNothingFrom (if quote.isSome then depth else parenStep depth c) (quoteStep quote c) s

/-- Whether a body hides no parenthesis in a string, and no semicolon unless the string stands in
parentheses. -/
def hidesNothing (body : Text) : Bool := hidesNothingFrom 0 none body

theorem partsFrom_cons (cur : Text) (depth : Nat) (c : Char) (s : Text) :
    partsFrom cur depth (c :: s) =
      if c = ';' ∧ depth = 0 then cur.reverse :: partsFrom [] 0 s
      else partsFrom (c :: cur) (parenStep depth c) s := by
  rw [partsFrom, parenStep]
  by_cases hopen : c = '('
  · simp [hopen]
  · by_cases hclose : c = ')'
    · simp [hclose]
    · simp [hopen, hclose]

theorem partsFrom_eq_wholePartsFrom {depth : Nat} {quote : Option Char} {s : Text}
    (h : hidesNothingFrom depth quote s = true) (cur : Text) :
    partsFrom cur depth s = wholePartsFrom cur depth quote s := by
  induction s generalizing cur depth quote with
  | nil => rfl
  | cons c s ih =>
    obtain ⟨hc, hs⟩ := Bool.and_eq_true_iff.1 h
    have ih := fun cur => ih hs cur
    rw [partsFrom_cons, wholePartsFrom]
    cases quote with
    | none =>
      simp only [Option.isSome_none, Bool.false_eq_true, if_false] at ih
      by_cases hcut : c = ';' ∧ depth = 0
      · obtain ⟨rfl, rfl⟩ := hcut
        have hrest : partsFrom [] 0 s = wholePartsFrom [] 0 none s := ih []
        simp [hrest]
      · simp [hcut, ih]
    | some q =>
      simp only [Option.isSome_some, if_true] at ih
      simp only [Option.isNone_some, Bool.false_or, Bool.and_eq_true, bne_iff_ne, ne_eq,
        Bool.or_eq_true, decide_eq_true_eq] at hc
      have hcut : ¬ (c = ';' ∧ depth = 0) := by
        rintro ⟨rfl, rfl⟩
        simp at hc
      have hparen : parenStep depth c = depth := by
        rw [parenStep, if_neg hc.1.1, if_neg hc.1.2]
      simp [hcut, hparen, ih]

/-- **A body that hides nothing in its strings is cut as if strings were in one piece.** -/
theorem parts_eq_wholeParts {body : Text} (h : hidesNothing body = true) :
    parts body = wholeParts body := partsFrom_eq_wholePartsFrom h []

/-- The strings of a body are those of its parts. -/
theorem flatMap_strings_wholeParts (body : Text) :
    (wholeParts body).flatMap strings = strings body := by
  have hfrom : ∀ (s cur : Text) (depth : Nat) (quote : Option Char),
      cur.reverse.foldl quoteStep none = quote →
      (wholePartsFrom cur depth quote s).flatMap strings = strings (cur.reverse ++ s) := by
    intro s
    induction s with
    | nil => simp [wholePartsFrom]
    | cons c s ih =>
      intro cur depth quote hquote
      rw [wholePartsFrom]
      split
      · rename_i hcut
        obtain ⟨rfl, rfl, -⟩ := hcut
        rw [List.flatMap_cons, ih [] 0 none rfl, strings_append hquote]
        rfl
      · rw [ih (c :: cur) _ _ (by simp [List.foldl_append, hquote])]
        simp
  exact hfrom body [] 0 none rfl

theorem strings_dropWhile {p : Char → Bool} (hp : ∀ c, p c = true → isQuote c = false) (s : Text) :
    strings (s.dropWhile p) = strings s := by
  have hplain : ∀ d ∈ s.takeWhile p, isQuote d = false :=
    fun d hd => hp d (List.all_eq_true.1 List.all_takeWhile d hd)
  conv_rhs => rw [← List.takeWhile_append_dropWhile (p := p) (l := s)]
  exact (stringsFrom_plain hplain _).symm

/-- A declaration has the strings of its value. -/
theorem strings_of_shape? {part property value : Text}
    (h : shape? part = some (property, value)) : strings value = strings part := by
  have hlayout : ∀ c, isLayout c = true → isQuote c = false :=
    fun c hc => isQuote_of_isBlank (isBlank_of_isLayout hc)
  have hname : ∀ c, isNameChar c = true → isQuote c = false := by
    have hquotes : ['"', '\''].all (fun q => !isNameChar q) = true := by decide
    intro c hc
    refine Bool.eq_false_iff.2 fun hquote => ?_
    have := List.all_eq_true.1 hquotes c (by simpa using isQuote_iff.1 hquote)
    rw [hc] at this
    cases this
  unfold shape? at h
  simp only at h
  split at h
  · cases h
  split at h
  · rename_i rest hcolon
    obtain ⟨-, rfl⟩ := Prod.mk.inj (Option.some.inj h)
    calc strings (rest.dropWhile isLayout)
        = strings (':' :: rest) := strings_dropWhile hlayout rest
      _ = strings part := by
        rw [← hcolon, strings_dropWhile hlayout, strings_dropWhile hname,
          strings_dropWhile hlayout]
  · cases h

/-! ## Declarations as they are written in the source -/

/-- The declarations with that of one more part, with its value as it is written. -/
def addWritten (ds : Declarations) (part : Text) : Declarations :=
  if isBlankText part then ds
  else
    match shape? part with
    | some (property, value) =>
      if (collapse value).isEmpty then ds else ds.insert property value
    | none => ds

/-- The declarations of several bodies with their values as they are written; strings are in one
piece, and the last value of a property counts. -/
def writtenIn (bodies : List Text) : Declarations :=
  (bodies.flatMap wholeParts).foldl addWritten []

theorem map_insert (f : Text → Text) (ds : Declarations) (property value : Text) :
    (ds.insert property value).map (fun d => (d.1, f d.2)) =
      insert property (f value) (ds.map fun d => (d.1, f d.2)) := by
  induction ds with
  | nil => rfl
  | cons d ds ih =>
    by_cases hd : d.1 = property
    · simp [insert, hd]
    · simp [insert, hd, ih]

theorem addPart_map_collapse (ds : Declarations) (part : Text) :
    addPart (ds.map fun d => (d.1, collapse d.2)) part =
      (addWritten ds part).map fun d => (d.1, collapse d.2) := by
  rw [addPart, readPart, addWritten]
  by_cases hblank : isBlankText part = true
  · rw [if_pos hblank, if_pos hblank]
  · rw [if_neg hblank, if_neg hblank]
    cases hshape : shape? part with
    | none => rfl
    | some d =>
      obtain ⟨property, value⟩ := d
      by_cases hempty : (collapse value).isEmpty = true
      · simp [hempty]
      · simp [hempty, map_insert]

/-- The declarations that are read are those in the source, with collapsed values. -/
theorem ofBodies_eq_map {bodies : List Text} (h : ∀ body ∈ bodies, hidesNothing body = true) :
    ofBodies bodies = (writtenIn bodies).map fun d => (d.1, collapse d.2) := by
  have hfold : ∀ (ps : List Text) (ds : Declarations),
      ps.foldl addPart (ds.map fun d => (d.1, collapse d.2)) =
        (ps.foldl addWritten ds).map fun d => (d.1, collapse d.2) := by
    intro ps
    induction ps with
    | nil => exact fun _ => rfl
    | cons p ps ih => exact fun ds => by rw [List.foldl_cons, addPart_map_collapse, ih]; rfl
  have hparts : bodies.flatMap parts = bodies.flatMap wholeParts :=
    List.flatMap_congr fun body hbody => parts_eq_wholeParts (h body hbody)
  have hflat : ofBodies bodies = (bodies.flatMap parts).foldl addPart [] := by
    rw [List.foldl_flatMap]
    rfl
  rw [hflat, hparts, writtenIn]
  exact hfold _ []

/-- The strings of a value stand in one of the bodies. -/
theorem strings_subset_of_mem {bodies : List Text} {d : Text × Text} (h : d ∈ writtenIn bodies) :
    ∃ body ∈ bodies, strings d.2 ⊆ strings body := by
  refine List.foldlRecOn
    (motive := fun ds => ∀ d ∈ ds, ∃ body ∈ bodies, strings d.2 ⊆ strings body)
    (bodies.flatMap wholeParts) addWritten (by simp) ?_ d h
  intro ds hds part hpart d hd
  unfold addWritten at hd
  split at hd
  · exact hds d hd
  split at hd
  · rename_i property value hshape
    split at hd
    · exact hds d hd
    rcases mem_insert hd with rfl | hd
    · obtain ⟨body, hbody, hpart⟩ := List.mem_flatMap.1 hpart
      refine ⟨body, hbody, fun t ht => ?_⟩
      rw [strings_of_shape? hshape] at ht
      rw [← flatMap_strings_wholeParts]
      exact List.mem_flatMap.2 ⟨part, hpart, ht⟩
    · exact hds d hd
  · exact hds d hd

/-- **The declarations that are read have the properties and the strings of the source, if its
strings hide nothing and hold no blanks but single spaces.** -/
theorem strings_ofBodies {bodies : List Text}
    (h : ∀ body ∈ bodies, hidesNothing body = true ∧ ∀ t ∈ strings body, collapse t = t) :
    (ofBodies bodies).map (fun d => (d.1, strings d.2)) =
      (writtenIn bodies).map fun d => (d.1, strings d.2) := by
  rw [ofBodies_eq_map fun body hbody => (h body hbody).1, List.map_map]
  refine List.map_congr_left fun d hd => ?_
  obtain ⟨body, hbody, hsub⟩ := strings_subset_of_mem hd
  have hsame : (strings d.2).map collapse = strings d.2 :=
    (List.map_congr_left fun t ht => (h body hbody).2 t (hsub ht)).trans (List.map_id _)
  exact congrArg (d.1, ·) ((strings_collapse d.2).trans hsame)

end Declarations

end UtilitySheet
