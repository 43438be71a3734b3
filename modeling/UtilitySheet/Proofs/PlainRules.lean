import UtilitySheet.Proofs.Emission
import UtilitySheet.Proofs.Markup
import UtilitySheet.Proofs.PlainText

/-!
# Compiled rules are plain

Nothing in the rules of a compilation has a meaning to a reader of stylesheets: no character of a
selector or a value nests, quotes, separates or starts a comment
(`Matcher.isPlain_of_mem_tokenize`). A selector may have blanks, in a class whose key has some; no
blank stands alone there, since names are joined by two (`Matcher.hasLoneBlank_text`).
-/

namespace UtilitySheet

open Text Sheet

/-! ## Plain rules -/

/-- Whether no character of a text nests, quotes, separates or starts a comment. -/
def Text.isQuiet (s : Text) : Bool := s.all fun c => !('/' :: marks).contains c

theorem Text.isQuiet_iff {s : Text} : s.isQuiet = true ↔ ∀ c ∈ s, c ∉ '/' :: marks := by
  simp [isQuiet]

theorem Text.isQuiet_append {s t : Text} :
    (s ++ t).isQuiet = true ↔ s.isQuiet = true ∧ t.isQuiet = true := by
  simp [isQuiet]

/-- Characters that are no marks by a test make a quiet text. -/
theorem Text.isQuiet_of_forall {p : Char → Bool}
    (hp : ('/' :: marks).all (fun c => !p c) = true) {s : Text} (h : ∀ c ∈ s, p c = true) :
    s.isQuiet = true := by
  refine isQuiet_iff.2 fun c hc hmark => ?_
  have hnot := List.all_eq_true.1 hp c hmark
  rw [h c hc] at hnot
  cases hnot

theorem Sheet.flat_of_isQuiet {s : Text} (h : s.isQuiet = true) : Flat s where
  nested := brackets_of_not_mem (fun c hc hmark =>
    isQuiet_iff.1 h c hc (List.mem_cons_of_mem _ hmark)) []
  clean := isClean_of_not_mem fun hmem => isQuiet_iff.1 h '/' hmem List.mem_cons_self

/-- Whether a character is no blank and has no meaning to a reader of stylesheets. -/
def Text.isPlainChar (c : Char) : Bool := !isBlank c && !('/' :: marks).contains c

/-- A value that is read back as it is written. -/
structure Text.IsPlainValue (v : Text) : Prop where
  ne_nil : v ≠ []
  plain : ∀ c ∈ v, isPlainChar c = true

theorem Text.IsPlainValue.unbroken {v : Text} (h : v.IsPlainValue) : isUnbroken v = true :=
  isUnbroken_iff.2 fun c hc => by simpa using (Bool.and_eq_true_iff.1 (h.plain c hc)).1

theorem Text.IsPlainValue.quiet {v : Text} (h : v.IsPlainValue) : v.isQuiet = true :=
  List.all_eq_true.2 fun c hc => (Bool.and_eq_true_iff.1 (h.plain c hc)).2

namespace Declaration

/-- The property and the value with its mark of importance. -/
def written (d : Declaration) : Text × Text :=
  (d.property, d.value ++ if d.important then " !important" else "")

structure IsPlain (d : Declaration) : Prop where
  named : d.property ≠ []
  name : ∀ c ∈ d.property, isNameChar c = true
  value : d.value.IsPlainValue

/-- The line of a declaration without its semicolon. -/
theorem line_append (d : Declaration) (t : Text) :
    d.line ++ t = ('\t' :: (d.written.1 ++ ':' :: d.written.2)) ++ ';' :: '\n' :: t := by
  have hend : (";\n" : Text) = [';', '\n'] := rfl
  have hcolon : (":" : Text) = [':'] := rfl
  have htab : ("\t" : Text) = ['\t'] := rfl
  simp [line, written, hend, hcolon, htab]

end Declaration

/-- A rule that is read back as it is written, but for the blanks of its selector. -/
structure Rule.IsPlain (r : Rule) : Prop where
  selector : r.selector.isQuiet = true
  declarations : ∀ d ∈ r.declarations, d.IsPlain
  nodup : (r.declarations.map Declaration.property).Nodup

/-! ## Values -/

/-- Characters that are neither blanks nor marks by a test are plain. -/
theorem Text.isPlainChar_of {p : Char → Bool} (hblank : ∀ {c}, isBlank c = true → p c = false)
    (hmark : ('/' :: marks).all (fun c => !p c) = true) {c : Char} (h : p c = true) :
    isPlainChar c = true := by
  have hquiet : Text.isQuiet [c] = true := isQuiet_of_forall hmark (by simpa using h)
  have hunbroken : isUnbroken [c] = true := isUnbroken_of_forall hblank (by simpa using h)
  rw [isPlainChar, Bool.and_eq_true]
  simp only [isUnbroken, isQuiet, List.all_cons, List.all_nil, Bool.and_true] at hunbroken hquiet
  exact ⟨hunbroken, hquiet⟩

/-- The values of class names are plain. -/
theorem ValueLanguage.Accepts.isPlainValue {f : Family} {v : Text} (h : f.language.Accepts v) :
    v.IsPlainValue := by
  have hwords : ∀ f ∈ Family.all, ∀ w ∈ f.language.words,
      w ≠ [] ∧ w.all isPlainChar = true := by
    decide +kernel
  have hword : v ∈ f.language.words → v.IsPlainValue := fun hv =>
    ⟨(hwords f (Family.mem_all f) v hv).1,
      List.all_eq_true.1 (hwords f (Family.mem_all f) v hv).2⟩
  have hnumber : ∀ {s : Text}, IsUnsigned s → s.IsPlainValue := fun h =>
    ⟨h.ne_nil, h.forall_mem
      (fun _ hc => isPlainChar_of not_isDigit_of_isBlank (by decide) hc) (by decide)⟩
  revert hword
  generalize f.language = l at h
  intro hword
  cases h with
  | keyword hw => exact hword (List.mem_map_of_mem hw)
  | identifier hne hall =>
    exact ⟨hne, fun c hc => isPlainChar_of not_isIdentifier_of_isBlank (by decide) (hall c hc)⟩
  | unsigned h => exact hnumber h
  | negative h =>
    refine ⟨List.cons_ne_nil _ _, fun c hc => ?_⟩
    rcases List.mem_cons.1 hc with rfl | hc
    · decide
    · exact (hnumber h).plain c hc
  | reserved h => exact hword h
  | hexadecimal h =>
    simp only [isHexColor, Bool.and_eq_true, decide_eq_true_eq] at h
    refine ⟨?_, fun c hc => isPlainChar_of not_isHexDigit_of_isBlank (by decide)
      (List.all_eq_true.1 h.2 c hc)⟩
    rintro rfl
    exact absurd h.1.1 (by decide)
  | colorName hne hall =>
    exact ⟨hne, fun c hc => isPlainChar_of not_isLower_of_isBlank (by decide) (hall c hc)⟩

/-- A point and zeros are all that is written into a number. -/
theorem Numeral.mem_of_place {payload number : Text} {places : Nat}
    (h : place payload places = .ok number) (hne : payload ≠ []) :
    number ≠ [] ∧ ∀ c ∈ number, c ∈ payload ∨ c = '0' ∨ c = '.' := by
  unfold place at h
  split at h
  · obtain rfl := Except.ok.inj h
    exact ⟨hne, fun c hc => .inl hc⟩
  split at h
  · cases h
  simp only at h
  split at h
  · rename_i whole decimals hcut
    obtain rfl := Except.ok.inj h
    refine ⟨by simp, fun c hc => ?_⟩
    have hdigits := (eq_append_of_cutBytes hcut).1
    rw [List.reverse_reverse, List.append_nil] at hdigits
    have hsign : ∀ c ∈ (splitSign payload).1, c ∈ payload := by
      unfold splitSign
      split
      · exact fun c hc => List.mem_singleton.1 hc ▸ List.mem_cons_self
      · exact fun c hc => absurd hc List.not_mem_nil
    have hpart : c ∈ whole ++ decimals → c ∈ payload ∨ c = '0' ∨ c = '.' := by
      rw [← hdigits, padded]
      intro hc
      rcases List.mem_append.1 hc with hc | hc
      · exact .inr (.inl (List.eq_of_mem_replicate hc))
      · exact .inl (Matcher.mem_of_mem_splitSign hc)
    rcases List.mem_append.1 hc with hc | hc
    · rcases List.mem_append.1 hc with hc | hc
      · exact .inl (hsign c hc)
      · exact hpart (List.mem_append_left _ hc)
    · rcases List.mem_cons.1 hc with rfl | hc
      · exact .inr (.inr rfl)
      · exact hpart (List.mem_append_right _ hc)
  · cases h

namespace Matcher

variable {m : Matcher} {name : ClassName} {f : Family}

theorem isPlainValue_append_symbol {number : Text} (hne : number ≠ [])
    (h : ∀ c ∈ number, isPlainChar c = true) (unit : NumericUnit) :
    (number ++ unit.symbol).IsPlainValue := by
  have hsymbol : ∀ unit ∈ NumericUnit.all, unit.symbol.all isPlainChar = true := by decide
  refine ⟨by simp [hne], fun c hc => ?_⟩
  rcases List.mem_append.1 hc with hc | hc
  · exact h c hc
  · exact List.all_eq_true.1 (hsymbol unit (NumericUnit.mem_all unit)) c hc

theorem isPlainValue_numericValue {precision : Nat} {unit : NumericUnit} {payload value : Text}
    (hpayload : payload.IsPlainValue)
    (h : numericValue precision unit payload = .emitted value) : value.IsPlainValue := by
  unfold numericValue at h
  split at h
  · obtain rfl := Resolution.emitted.inj h
    exact hpayload
  split at h
  · rename_i whole decimals hspan
    obtain rfl := Resolution.emitted.inj h
    have hsplit : whole ++ '_' :: decimals = payload := by
      rw [List.span_eq_takeWhile_dropWhile, Prod.mk.injEq] at hspan
      rw [← hspan.1, ← hspan.2, List.takeWhile_append_dropWhile]
    refine isPlainValue_append_symbol (by simp) (fun c hc => ?_) unit
    rw [List.append_assoc, List.mem_append, List.mem_append] at hc
    rcases hc with hc | hc | hc
    · exact hpayload.plain c (hsplit ▸ List.mem_append_left _ hc)
    · obtain rfl : c = '.' := by simpa using hc
      decide
    · exact hpayload.plain c (hsplit ▸ List.mem_append_right _ (List.mem_cons_of_mem _ hc))
  · split at h
    · rename_i number hplace
      obtain rfl := Resolution.emitted.inj h
      obtain ⟨hne, hmem⟩ := Numeral.mem_of_place hplace hpayload.ne_nil
      refine isPlainValue_append_symbol hne (fun c hc => ?_) unit
      rcases hmem c hc with hc | rfl | rfl
      · exact hpayload.plain c hc
      · decide
      · decide
    · cases h

/-- The words that keywords stand for are plain. -/
theorem isPlainValue_meaning {literal word : Text} (h : f.meaning? literal = some word) :
    word.IsPlainValue := by
  have hmeanings : ∀ f ∈ Family.all, ∀ literal ∈ f.language.words,
      (f.meaning? literal).all (fun word => !word.isEmpty && word.all isPlainChar) = true := by
    decide +kernel
  have hlisted : literal ∈ f.language.words := by
    unfold Family.meaning? at h
    split at h
    · rename_i ws hlanguage
      obtain ⟨w, hw, -⟩ := Option.bind_eq_some_iff.1 h
      have hliteral : w.literal = literal := by simpa using List.find?_some hw
      rw [hlanguage, ← hliteral]
      exact List.mem_map_of_mem (List.mem_of_find?_eq_some hw)
    · cases h
  have hword := hmeanings f (Family.mem_all f) literal hlisted
  rw [h, Option.all_some, Bool.and_eq_true] at hword
  exact ⟨by simpa using hword.1, List.all_eq_true.1 hword.2⟩

theorem isPlainValue_value {d : ClassDef} {value : Text} (hname : name.value.IsPlainValue)
    (h : m.value d name f = .emitted value) : value.IsPlainValue := by
  unfold Matcher.value at h
  split at h
  · obtain rfl := Resolution.emitted.inj h
    split
    · refine ⟨List.cons_ne_nil _ _, fun c hc => ?_⟩
      rcases List.mem_cons.1 hc with rfl | hc
      · decide
      · exact hname.plain c hc
    · exact hname
  · obtain rfl := Resolution.emitted.inj h
    cases hmeaning : f.meaning? name.value with
    | none => exact hname
    | some word =>
      exact isPlainValue_meaning hmeaning
  · obtain ⟨unit, -, hvalue⟩ := Resolution.bind_eq_emitted.1 h
    exact isPlainValue_numericValue hname hvalue

end Matcher

/-! ## Lone blanks -/

/-- Whether a blank stands alone between two characters that are no blanks. -/
def Text.hasLoneBlank : Text → Bool
  | x :: b :: y :: s => !isBlank x && isBlank b && !isBlank y || hasLoneBlank (b :: y :: s)
  | _ => false

namespace Text

theorem hasLoneBlank_of_cons {c : Char} {s : Text} (h : hasLoneBlank (c :: s) = false) :
    hasLoneBlank s = false := by
  match s with
  | [] | [_] => rfl
  | b :: y :: s => exact (Bool.or_eq_false_iff.1 h).2

theorem hasLoneBlank_of_append {s t : Text} (h : hasLoneBlank (s ++ t) = false) :
    hasLoneBlank s = false := by
  induction s with
  | nil => rfl
  | cons x s ih =>
    have hs := ih (hasLoneBlank_of_cons h)
    match s with
    | [] | [_] => rfl
    | b :: y :: s => exact Bool.or_eq_false_iff.2 ⟨(Bool.or_eq_false_iff.1 h).1, hs⟩

theorem hasLoneBlank_of_infix {s t : Text} (hst : s <:+: t) (h : hasLoneBlank t = false) :
    hasLoneBlank s = false := by
  obtain ⟨u, v, rfl⟩ := hst
  rw [List.append_assoc] at h
  induction u with
  | nil => exact hasLoneBlank_of_append h
  | cons c u ih => exact ih (hasLoneBlank_of_cons h)

theorem hasLoneBlank_blank_cons {b : Char} (hb : isBlank b = true) (s : Text) :
    hasLoneBlank (b :: s) = hasLoneBlank s := by
  match s with
  | [] | [_] => rfl
  | c :: y :: s => simp [hasLoneBlank, hb]

/-- A character before one that is no blank stands beside no lone blank. -/
theorem hasLoneBlank_cons_cons {c d : Char} (hd : isBlank d = false) (s : Text) :
    hasLoneBlank (c :: d :: s) = hasLoneBlank (d :: s) := by
  cases s with
  | nil => rfl
  | cons y s => simp [hasLoneBlank, hd]

theorem hasLoneBlank_unbroken_append {t : Text} (ht : isUnbroken t = true) (s : Text) :
    hasLoneBlank (t ++ ' ' :: ' ' :: s) = hasLoneBlank s := by
  have hspace : isBlank ' ' = true := by decide
  induction t with
  | nil =>
    rw [List.nil_append, hasLoneBlank_blank_cons hspace, hasLoneBlank_blank_cons hspace]
  | cons c t ih =>
    obtain ⟨-, ht⟩ := isUnbroken_cons.1 ht
    rw [← ih ht]
    cases t with
    | nil => simp [hasLoneBlank, hspace]
    | cons d t => exact hasLoneBlank_cons_cons (isUnbroken_cons.1 ht).1 _

theorem hasLoneBlank_unbroken_blank {t : Text} (ht : isUnbroken t = true) :
    hasLoneBlank (t ++ [' ']) = false := by
  refine hasLoneBlank_of_append (t := [' ']) ?_
  rw [List.append_assoc, List.singleton_append, hasLoneBlank_unbroken_append ht]
  rfl

theorem head?_dropWhile_isBlank (s : Text) :
    ∀ c ∈ (s.dropWhile isBlank).head?, isBlank c = false := by
  intro c hc
  have hstop := List.head?_dropWhile_not isBlank s
  rw [Option.mem_def.1 hc] at hstop
  exact hstop

theorem getLast?_trim (s : Text) : ∀ c ∈ (trim s).getLast?, isBlank c = false := by
  intro c hc
  rw [trim, trimEnd, List.getLast?_reverse] at hc
  exact head?_dropWhile_isBlank _ c hc

theorem isPrefix_trim (s : Text) : trim s <+: s.dropWhile isBlank := by
  rw [← List.reverse_suffix, trim, trimEnd, List.reverse_reverse]
  exact List.dropWhile_suffix _

theorem isInfix_trim (s : Text) : trim s <:+: s :=
  (isPrefix_trim s).isInfix.trans (List.dropWhile_suffix _).isInfix

theorem head?_trim (s : Text) : ∀ c ∈ (trim s).head?, isBlank c = false := by
  intro c hc
  obtain ⟨t, ht⟩ := isPrefix_trim s
  refine head?_dropWhile_isBlank s c ?_
  rw [← ht, List.head?_append, Option.mem_def.1 hc]
  rfl

end Text

/-- No blank stands alone between two names. -/
theorem hasLoneBlank_spaced {names : List Text} (h : ∀ t ∈ names, isUnbroken t = true) :
    hasLoneBlank (spaced names) = false := by
  have hjoined : hasLoneBlank ([' ', ' '].intercalate names ++ [' ']) = false := by
    induction names with
    | nil => rfl
    | cons t names ih =>
      rw [List.forall_mem_cons] at h
      cases names with
      | nil => simpa [List.intercalate] using hasLoneBlank_unbroken_blank h.1
      | cons next names =>
        rw [List.intercalate_cons_cons, List.append_assoc, List.append_assoc,
          List.cons_append, List.singleton_append, hasLoneBlank_unbroken_append h.1]
        exact ih h.2
  have hspaced : spaced names = ' ' :: ([' ', ' '].intercalate names ++ [' ']) := by
    simp [spaced]
  rw [hspaced, hasLoneBlank_blank_cons (by decide), hjoined]

/-! ## Collected names -/

theorem Text.isUnbroken_of_mem_wordsFrom {w : Text} : ∀ {s cur : Text}, isUnbroken cur = true →
    w ∈ wordsFrom cur s → isUnbroken w = true
  | [], cur, hcur, hw => by
    unfold wordsFrom at hw
    split at hw
    · cases hw
    · obtain rfl := List.mem_singleton.1 hw
      simpa [isUnbroken] using hcur
  | c :: s, cur, hcur, hw => by
    unfold wordsFrom at hw
    split at hw
    · split at hw
      · exact isUnbroken_of_mem_wordsFrom rfl hw
      · rcases List.mem_cons.1 hw with rfl | hw
        · simpa [isUnbroken] using hcur
        · exact isUnbroken_of_mem_wordsFrom rfl hw
    · rename_i hc
      exact isUnbroken_of_mem_wordsFrom (isUnbroken_cons.2 ⟨by simpa using hc, hcur⟩) hw

namespace Markup

/-- A class name that is collected has no blanks and no marks. -/
theorem of_mem_collectAll {documents : List Text} {name : Text}
    (h : name ∈ collectAll documents) : isUnbroken name = true ∧ name.isQuiet = true := by
  obtain ⟨d, -, hname⟩ := mem_collectAll.1 h
  obtain ⟨names, hnames, hname⟩ := List.mem_flatten.1 hname
  obtain ⟨t, n, -, hread⟩ := Text.exists_suffix_of_mem_matchesFrom hnames
  obtain ⟨rest, -, heq⟩ := Option.map_eq_some_iff.1 hread
  split at heq
  · rename_i value hvalue
    obtain ⟨rfl, -⟩ := Prod.mk.inj heq
    refine ⟨Text.isUnbroken_of_mem_wordsFrom rfl hname, ?_⟩
    refine isQuiet_of_forall (p := isClassChar) (by decide) fun c hc => ?_
    refine (quotedValue_eq_some_iff.1 hvalue).1 c ?_
    exact (Text.mem_of_mem_wordsFrom hname hc).resolve_left List.not_mem_nil
  · obtain ⟨rfl, -⟩ := Prod.mk.inj heq
    cases hname

end Markup

namespace Matcher

variable {m : Matcher} {name : ClassName} {f : Family}

/-! ## Compiled rules -/

/-- What is read is written in the joined names, with the parts of its pattern. -/
theorem exists_written_of_mem_tokenize {names : List Text} (hm : m.IsAssembled)
    (h : (name, f) ∈ m.tokenize names) :
    (m.classes.pattern f).HasParts name ∧ ∃ hyphen ∈ [[], ['-']],
      ∃ joint ∈ [['_', '_'], ['_']], name.text = trim (name.written hyphen joint) ∧
        name.written hyphen joint <:+: spaced names := by
  obtain ⟨p, hp, hname⟩ := List.mem_flatMap.1 h
  obtain ⟨name', hname', heq⟩ := List.mem_map.1 hname
  obtain ⟨rfl, rfl⟩ := Prod.mk.inj heq
  rw [hm] at hp
  obtain ⟨f, -, rfl⟩ := List.mem_map.1 (List.mem_filter.1 hp).1
  obtain ⟨t, n, ht, hread⟩ := Text.exists_suffix_of_mem_matchesFrom hname'
  unfold Pattern.read at hread
  split at hread
  · cases hread
  rename_i c t
  split at hread
  · obtain ⟨⟨name', rest⟩, hhead, heq⟩ := Option.map_eq_some_iff.1 hread
    obtain ⟨rfl, -⟩ := Prod.mk.inj heq
    obtain ⟨hparts, hyphen, hhyphen, joint, hjoint, b, -, hs, htext⟩ :=
      Pattern.mem_readings_iff_written.1 (List.mem_of_mem_head? hhead)
    refine ⟨hparts, hyphen, hhyphen, joint, hjoint, htext, ?_⟩
    have hprefix : name'.written hyphen joint <:+: t := ⟨[], b :: rest, by simp [hs]⟩
    exact hprefix.trans ((List.suffix_cons c t).trans ht).isInfix
  · cases hread

/-- What a pseudo-class adds to a selector has no blanks and no marks. -/
theorem pseudo_selector {k : Text} (h : k ∈ PseudoClass.all.map PseudoClass.key) :
    isUnbroken ((PseudoClass.selector? k).getD []) = true ∧
      ((PseudoClass.selector? k).getD []).isQuiet = true := by
  have hall : ∀ k ∈ PseudoClass.all.map PseudoClass.key,
      isUnbroken ((PseudoClass.selector? k).getD []) = true ∧
        ((PseudoClass.selector? k).getD []).isQuiet = true := by
    decide +kernel
  exact hall k h

/-- A selector is the text of its name and what a pseudo-class adds. -/
theorem exists_selector (hparts : (m.classes.pattern f).HasParts name) {r : Rule}
    (hr : m.resolve name f = .emitted r) :
    ∃ added, r.selector = name.text ++ added ∧ isUnbroken added = true ∧ added.isQuiet = true := by
  obtain ⟨d, value, -, -, rfl⟩ := resolve_eq_emitted.1 hr
  refine ⟨(name.pseudo.bind PseudoClass.selector?).getD [], rfl, ?_⟩
  cases hpseudo : name.pseudo with
  | none => exact ⟨rfl, rfl⟩
  | some k => exact pseudo_selector (hparts.pseudo k hpseudo)

/-- No blank stands alone in the text of a name. -/
theorem hasLoneBlank_text {names : List Text} (hm : m.IsAssembled)
    (hnames : ∀ t ∈ names, isUnbroken t = true) (h : (name, f) ∈ m.tokenize names) :
    hasLoneBlank name.text = false := by
  obtain ⟨-, hyphen, -, joint, -, htext, hwritten⟩ := exists_written_of_mem_tokenize hm h
  rw [htext]
  exact hasLoneBlank_of_infix ((isInfix_trim _).trans hwritten) (hasLoneBlank_spaced hnames)

/-- The text of a name has no blanks if the keys have none. -/
theorem isUnbroken_text {names : List Text} (hm : m.IsAssembled)
    (hkeys : ∀ d ∈ m.classes.classes, isUnbroken d.key = true)
    (h : (name, f) ∈ m.tokenize names) : isUnbroken name.text = true := by
  obtain ⟨hparts, hyphen, hhyphen, joint, hjoint, htext, -⟩ := exists_written_of_mem_tokenize hm h
  have hwritten := hparts.isUnbroken_written (ClassTable.isUnbroken_keys hkeys f) hhyphen hjoint
  rw [htext, trim_of_isUnbroken hwritten]
  exact hwritten

/-- What a reading of quiet names gives is a plain rule. -/
theorem isPlain_of_mem_tokenize {s : Settings} {names : List Text}
    (hnames : ∀ t ∈ names, t.isQuiet = true)
    (h : (name, f) ∈ (Compiler.ofSettings s).tokenize names) {r : Rule}
    (hr : (Compiler.ofSettings s).resolve name f = .emitted r) : r.IsPlain := by
  have hm := isAssembled_ofSettings s
  obtain ⟨hparts, hyphen, -, joint, -, htext, hwritten⟩ := exists_written_of_mem_tokenize hm h
  obtain ⟨added, hselector, -, hadded⟩ := exists_selector hparts hr
  obtain ⟨d, value, hd, hvalue, rfl⟩ := resolve_eq_emitted.1 hr
  obtain ⟨hmem, -⟩ := ClassTable.find?_eq_some hd
  obtain ⟨seed, hseed, hkeeps⟩ := (Compiler.sound_classes s).exists_seed hmem
  have hseeds : ∀ seed ∈ ClassTable.seeds, seed.properties.Nodup ∧
      ∀ property ∈ seed.properties, property ≠ [] ∧ property.all isNameChar = true := by
    decide +kernel
  obtain ⟨hnodup, hproperties⟩ := hseeds seed hseed
  have hplain := isPlainValue_value hparts.value.isPlainValue hvalue
  refine ⟨?_, ?_, ?_⟩
  · rw [hselector]
    refine isQuiet_append.2 ⟨isQuiet_iff.2 fun c hc => ?_, hadded⟩
    rw [htext] at hc
    rcases mem_spaced (hwritten.subset ((isInfix_trim _).subset hc)) with rfl | ⟨t, ht, hct⟩
    · decide
    · exact isQuiet_iff.1 (hnames t ht) c hct
  · refine List.forall_mem_map.2 fun property hproperty => ?_
    rw [hkeeps.properties] at hproperty
    obtain ⟨hnamed, hname⟩ := hproperties property hproperty
    exact ⟨hnamed, List.all_eq_true.1 hname, hplain⟩
  · rw [List.map_map]
    simpa [Function.comp_def, hkeeps.properties] using hnodup

/-- Each rule of a compilation comes from a reading. -/
theorem exists_reading_of_mem_group {names : List Text} {g : RuleGroups}
    (h : m.compile names = .ok g) {kind : Option Breakpoint} {r : Rule} (hr : r ∈ g.group kind) :
    ∃ reading ∈ m.tokenize names, m.resolve reading.1 reading.2 = .emitted r := by
  rw [compile] at h
  cases hcollect : Resolution.collect (m.resolutions names) with
  | error e => simp [hcollect, Except.map] at h
  | ok rules =>
    rw [hcollect] at h
    obtain rfl := Except.ok.inj h
    have hmem : r ∈ rules := (RuleGroups.perm_ofRules rules).mem_iff.1 (List.mem_filter.1 hr).1
    rw [Resolution.collect_eq_ok hcollect, resolutions, List.filterMap_map] at hmem
    obtain ⟨reading, hreading, hr⟩ := List.mem_filterMap.1 hmem
    exact ⟨reading, hreading, Resolution.emitted?_eq_some.1 hr⟩

end Matcher

end UtilitySheet
