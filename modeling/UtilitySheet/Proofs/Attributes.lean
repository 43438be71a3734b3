import Mathlib.Data.List.Induction
import UtilitySheet.Proofs.Markup

/-!
# Class names attribute by attribute

The name of an attribute does not overlap with itself, and no value holds its `=`. So what is
broken in front of an attribute, be it a value without its closing quote or the start of a name,
ends there, and a document is searched on both sides of an attribute as if the other side were not
there. What is collected from several documents are the first occurrences of all that they hold.
Main statement: `classNames_append_attribute`.
-/

namespace UtilitySheet.Markup

open Text

variable {s t value : Text}

/-- Whether `a` is an attribute that counts, with this value. -/
def IsAttribute (a value : Text) : Prop :=
  (∀ c ∈ value, isClassChar c = true) ∧ ∃ quote, (quote = '"' ∨ quote = '\'') ∧
    a = attributeStart ++ quote :: (value ++ [quote])

/-! ## One step of the search -/

theorem classNames_cons_of_none {c : Char} (h : after? attributeStart (c :: s) = none) :
    classNames (c :: s) = classNames s := by
  have hread : attributeNames (c :: s) = none := by rw [attributeNames, h, Option.map_none]
  rw [classNames, allMatches_cons_of_none hread, classNames]

/-- Behind the name of an attribute that does not count the search goes on. -/
theorem classNames_of_quotedValue_eq_none (h : quotedValue s = none) :
    classNames (attributeStart ++ s) = classNames s := by
  have hread : attributeNames (attributeStart ++ s) = some ([], attributeStart.length) := by
    rw [attributeNames, after?_eq_some_iff.2 rfl, Option.map_some, h]
  rw [classNames, allMatches_append_of_some (by decide) hread, List.flatten_cons,
    List.nil_append, classNames]

/-- An attribute that counts gives the words of its value, and the search goes on behind it. -/
theorem classNames_attribute {a : Text} (h : IsAttribute a value) (s : Text) :
    classNames (a ++ s) = words value ++ classNames s := by
  obtain ⟨hvalue, quote, hquote, rfl⟩ := h
  have hquoted : quotedValue (quote :: (value ++ quote :: s)) = some value :=
    quotedValue_eq_some_iff.2 ⟨hvalue, quote, s, hquote, rfl⟩
  have hread : attributeNames (attributeStart ++ quote :: (value ++ [quote]) ++ s) =
      some (words value, (attributeStart ++ quote :: (value ++ [quote])).length) := by
    have hafter : after? attributeStart (attributeStart ++ quote :: (value ++ [quote]) ++ s) =
        some (quote :: (value ++ quote :: s)) := after?_eq_some_iff.2 (by simp)
    rw [attributeNames, hafter, Option.map_some, hquoted]
    simp [Nat.add_assoc]
  rw [classNames, allMatches_append_of_some (by simp [attributeStart]) hread, List.flatten_cons,
    classNames]

/-! ## What stands before an attribute -/

/-- The name of an attribute does not begin within itself. -/
theorem after?_append_attributeStart {c : Char} (s t : Text) :
    after? attributeStart (c :: s ++ (attributeStart ++ t)) =
      (after? attributeStart (c :: s)).map (· ++ (attributeStart ++ t)) := by
  have hstart : attributeStart = 'c' :: "lass=".toList := rfl
  have hlater : after? "lass=".toList (s ++ (attributeStart ++ t)) =
      (after? "lass=".toList s).map (· ++ (attributeStart ++ t)) := by
    rw [hstart, List.cons_append]
    exact after?_append_cons (by decide) s _
  rw [List.cons_append, hstart, after?, after?, ← hstart, hlater]
  split <;> rfl

/-- No value reaches over the name of an attribute, closed or not. -/
theorem quotedValue_append_attributeStart (s t : Text) :
    quotedValue (s ++ (attributeStart ++ t)) = quotedValue s := by
  refine Option.ext fun value => ?_
  rw [quotedValue_eq_some_iff, quotedValue_eq_some_iff]
  refine and_congr_right fun hvalue => exists_congr fun quote => ?_
  constructor
  · rintro ⟨rest, hquote, heq⟩
    have hsplit : s ++ (attributeStart ++ t) = (quote :: (value ++ [quote])) ++ rest := by
      simpa using heq
    have hequals : '=' ∉ quote :: (value ++ [quote]) := by
      have hne : '=' ≠ quote := by rcases hquote with rfl | rfl <;> decide
      have hmem : '=' ∉ value := fun h => absurd (hvalue _ h) (by decide)
      simp [hne, hmem]
    rcases List.append_eq_append_iff.1 hsplit with ⟨u, hu, hrest⟩ | ⟨u, rfl, -⟩
    · -- The closing quote would stand in the name or behind it.
      rcases List.append_eq_append_iff.1 hrest with ⟨w, rfl, -⟩ | ⟨w, hw, -⟩
      · refine absurd ?_ hequals
        rw [hu]
        simp [attributeStart]
      · rcases List.eq_nil_or_concat u with rfl | ⟨u, c, rfl⟩
        · exact ⟨[], hquote, by simpa using hu.symm⟩
        · have hlast : c = quote := by
            have hlast := congrArg List.getLast? hu
            simpa [List.getLast?_cons, List.getLast?_append] using hlast.symm
          have hmem : quote ∈ attributeStart := by
            rw [hw, ← hlast]
            simp
          rcases hquote with rfl | rfl <;> exact absurd hmem (by decide)
    · exact ⟨u, hquote, by simp⟩
  · rintro ⟨rest, hquote, rfl⟩
    exact ⟨rest ++ (attributeStart ++ t), hquote, by simp⟩

/-- **What stands before the name of an attribute is searched as if nothing followed.** -/
theorem classNames_append_attributeStart (s t : Text) :
    classNames (s ++ (attributeStart ++ t)) =
      classNames s ++ classNames (attributeStart ++ t) := by
  match s with
  | [] => rfl
  | c :: s =>
    cases h : after? attributeStart (c :: s) with
    | none =>
      have h' := after?_append_attributeStart (c := c) s t
      rw [h, Option.map_none] at h'
      rw [List.cons_append] at h' ⊢
      rw [classNames_cons_of_none h', classNames_cons_of_none h,
        classNames_append_attributeStart s t]
    | some rest =>
      have hlength := congrArg List.length (after?_eq_some_iff.1 h)
      rw [after?_eq_some_iff.1 h, List.append_assoc]
      cases hvalue : quotedValue rest with
      | none =>
        have hvalue' := (quotedValue_append_attributeStart rest t).trans hvalue
        rw [classNames_of_quotedValue_eq_none hvalue', classNames_of_quotedValue_eq_none hvalue,
          classNames_append_attributeStart rest t]
      | some value =>
        obtain ⟨hchars, quote, rest', hquote, rfl⟩ := quotedValue_eq_some_iff.1 hvalue
        have ha : IsAttribute (attributeStart ++ quote :: (value ++ [quote])) value :=
          ⟨hchars, quote, hquote, rfl⟩
        have hsplit : ∀ u, attributeStart ++ (quote :: (value ++ quote :: rest') ++ u) =
            attributeStart ++ quote :: (value ++ [quote]) ++ (rest' ++ u) := by simp
        have hnil := hsplit []
        simp only [List.append_nil] at hnil
        rw [hsplit, hnil, classNames_attribute ha, classNames_attribute ha,
          classNames_append_attributeStart rest' t, List.append_assoc]
termination_by s.length
decreasing_by
  all_goals
    have hstart : attributeStart.length = 6 := rfl
    simp_all only [List.length_append, List.length_cons]
    omega

/-! ## What holds no attribute -/

/-- A name that is found stands in an attribute. -/
theorem exists_isAttribute {d name : Text} (h : name ∈ classNames d) :
    ∃ a value, IsAttribute a value ∧ a <:+: d ∧ name ∈ words value := by
  obtain ⟨names, hnames, hname⟩ := List.mem_flatten.1 h
  obtain ⟨u, n, hu, hread⟩ := exists_suffix_of_mem_matchesFrom hnames
  obtain ⟨rest, hrest, heq⟩ := Option.map_eq_some_iff.1 hread
  rw [after?_eq_some_iff] at hrest
  split at heq
  · rename_i value hvalue
    obtain ⟨rfl, -⟩ := Prod.mk.inj heq
    obtain ⟨hchars, quote, behind, hquote, rfl⟩ := quotedValue_eq_some_iff.1 hvalue
    refine ⟨_, value, ⟨hchars, quote, hquote, rfl⟩, ?_, hname⟩
    obtain ⟨before, rfl⟩ := hu
    exact ⟨before, behind, by simp [hrest]⟩
  · obtain ⟨rfl, -⟩ := Prod.mk.inj heq
    cases hname

/-! ## Documents -/

theorem addNew_eq (seen names : List Text) :
    addNew seen names = seen ++ (names.filter (!seen.contains ·)).eraseDups := by
  induction names generalizing seen with
  | nil => simp [addNew]
  | cons name names ih =>
    rw [addNew, ih]
    by_cases hname : name ∈ seen
    · simp [hname]
    · have hfresh : ∀ n, (!(seen ++ [name]).contains n) = (!n == name && !seen.contains n) := by
        intro n
        simp [Bool.and_comm, beq_eq_decide]
      simp only [List.contains_eq_mem, hname, decide_false, Bool.false_eq_true, if_false,
        Bool.not_false, List.filter_cons_of_pos, List.eraseDups_cons, List.filter_filter]
      simp only [← List.contains_eq_mem, hfresh, List.append_assoc, List.singleton_append]

/-- The distinct names of several documents are the first occurrences of all their names. -/
theorem collectAll_eq (documents : List Text) :
    collectAll documents = (documents.flatMap classNames).eraseDups := by
  induction documents using List.reverseRecOn with
  | nil => rfl
  | append_singleton documents d ih =>
    have hstep : collectAll (documents ++ [d]) = collect (collectAll documents) d := by
      rw [collectAll, List.foldl_append]
      rfl
    rw [hstep, ih, collect, addNew_eq, List.flatMap_append, List.eraseDups_append]
    simp [List.removeAll]

/-! ## Main statement -/

/-- **The names of an attribute stand between those of the text before it and those of the text
behind it,** whatever these texts are; a text without an attribute has none; and what is collected
from documents are the first occurrences of the names of all of them. -/
theorem classNames_append_attribute :
    (∀ p a value s, IsAttribute a value →
      classNames (p ++ (a ++ s)) = classNames p ++ (words value ++ classNames s)) ∧
    (∀ d, (∀ a value, a <:+: d → ¬ IsAttribute a value) → classNames d = []) ∧
    ∀ documents, collectAll documents = (documents.flatMap classNames).eraseDups := by
  refine ⟨fun p a value s h => ?_, fun d h => ?_, collectAll_eq⟩
  · obtain ⟨-, quote, -, rfl⟩ := id h
    rw [← classNames_attribute h, List.append_assoc, classNames_append_attributeStart]
  · refine List.eq_nil_iff_forall_not_mem.2 fun name hname => ?_
    obtain ⟨a, value, ha, hinfix, -⟩ := exists_isAttribute hname
    exact h a value hinfix ha

/-- An attribute is found behind a value without its closing quote and the start of a name. -/
theorem classNames_append_attribute_broken :
    IsAttribute "class='b c'" "b c" ∧
    classNames ("<p class=\"a clas" ++ ("class='b c'" ++ " class=\"d\">")) =
      [("b" : Text), ("c" : Text), ("d" : Text)] ∧
    (∀ a value, a <:+: ("<p class=\"a" : Text) → ¬ IsAttribute a value) ∧
    classNames "<p class=\"a" = [] := by
  obtain ⟨haround, hnone, -⟩ := classNames_append_attribute
  have ha : IsAttribute "class='b c'" "b c" :=
    ⟨List.all_eq_true.1 (by decide), '\'', .inr rfl, rfl⟩
  have hno : ∀ a value, a <:+: ("<p class=\"a" : Text) → ¬ IsAttribute a value := by
    rintro a value hinfix ⟨-, quote, hquote, rfl⟩
    -- An attribute has two quotes of a kind.
    have hcount := hinfix.sublist.count_le quote
    simp only [List.count_append, List.count_cons_self] at hcount
    rcases hquote with rfl | rfl
    · have hone : ("<p class=\"a" : Text).count '"' = 1 := by decide
      omega
    · have hzero : ("<p class=\"a" : Text).count '\'' = 0 := by decide
      omega
  refine ⟨ha, ?_, hno, hnone _ hno⟩
  rw [haround _ _ _ _ ha]
  decide

end UtilitySheet.Markup
