import Mathlib.Data.List.TakeWhile
import UtilitySheet.Markup
import UtilitySheet.Proofs.ClassName

/-!
# Where class names come from

Main statement (`Markup.exists_document`): every name that is collected from documents is written
with characters of one of them.
-/

namespace UtilitySheet

/-- A word has characters of its text. -/
theorem Text.mem_of_mem_wordsFrom {w : Text} {c : Char} :
    ∀ {s cur : Text}, w ∈ wordsFrom cur s → c ∈ w → c ∈ cur ∨ c ∈ s
  | [], cur, hw, hc => by
    unfold wordsFrom at hw
    split at hw
    · cases hw
    · obtain rfl := List.mem_singleton.1 hw
      exact .inl (List.mem_reverse.1 hc)
  | d :: s, cur, hw, hc => by
    unfold wordsFrom at hw
    split at hw
    · split at hw
      · rcases mem_of_mem_wordsFrom hw hc with h | h
        · cases h
        · exact .inr (List.mem_cons_of_mem d h)
      · rcases List.mem_cons.1 hw with rfl | hw
        · exact .inl (List.mem_reverse.1 hc)
        · rcases mem_of_mem_wordsFrom hw hc with h | h
          · cases h
          · exact .inr (List.mem_cons_of_mem d h)
    · rcases mem_of_mem_wordsFrom hw hc with h | h
      · rcases List.mem_cons.1 h with rfl | h
        · exact .inr List.mem_cons_self
        · exact .inl h
      · exact .inr (List.mem_cons_of_mem d h)

namespace Markup

theorem mem_addNew {name : Text} : ∀ {names seen : List Text},
    name ∈ addNew seen names ↔ name ∈ seen ∨ name ∈ names
  | [], seen => by simp [addNew]
  | n :: names, seen => by
    rw [addNew, mem_addNew]
    by_cases hn : n ∈ seen
    · simp only [List.contains_eq_mem, hn, decide_true, if_true, List.mem_cons]
      constructor
      · rintro (h | h)
        · exact .inl h
        · exact .inr (.inr h)
      · rintro (h | rfl | h)
        · exact .inl h
        · exact .inl hn
        · exact .inr h
    · simp [hn, or_assoc]

theorem mem_collectAll {name : Text} {documents : List Text} :
    name ∈ collectAll documents ↔ ∃ d ∈ documents, name ∈ classNames d := by
  have hfold : ∀ (documents seen : List Text), name ∈ documents.foldl collect seen ↔
      name ∈ seen ∨ ∃ d ∈ documents, name ∈ classNames d := by
    intro documents
    induction documents with
    | nil => simp
    | cons d documents ih =>
      intro seen
      rw [List.foldl_cons, ih, collect, mem_addNew, or_assoc]
      simp
  simpa [collectAll] using hfold documents []

/-- A value in quotes is a stretch of class characters between a quote and the same quote. -/
theorem quotedValue_eq_some_iff {s value : Text} : quotedValue s = some value ↔
    (∀ c ∈ value, isClassChar c = true) ∧ ∃ quote rest, (quote = '"' ∨ quote = '\'') ∧
      s = quote :: (value ++ quote :: rest) := by
  constructor
  · intro h
    unfold quotedValue at h
    split at h
    · cases h
    rename_i quote t
    split at h
    · rename_i hquote
      split at h
      · rename_i c rest hrest
        split at h
        · rename_i hc
          obtain rfl := Option.some.inj h
          obtain rfl := beq_iff_eq.1 hc
          refine ⟨fun d hd => List.mem_takeWhile_imp hd, c, rest, by simpa using hquote, ?_⟩
          rw [← hrest, List.takeWhile_append_dropWhile]
        · cases h
      · cases h
    · cases h
  · rintro ⟨hvalue, quote, rest, hquote, rfl⟩
    have hstop : isClassChar quote = false := by rcases hquote with rfl | rfl <;> decide
    have htake : (value ++ quote :: rest).takeWhile isClassChar = value := by
      rw [Text.takeWhile_append_cons hstop, List.takeWhile_eq_self_iff.2 hvalue]
    have hdrop : (value ++ quote :: rest).dropWhile isClassChar = quote :: rest := by
      rw [Text.dropWhile_append_cons hstop, List.dropWhile_eq_nil_iff.2 hvalue, List.nil_append]
    simp [quotedValue, htake, hdrop, hquote]

theorem mem_of_quotedValue {s value : Text} {c : Char} (h : quotedValue s = some value)
    (hc : c ∈ value) : c ∈ s := by
  obtain ⟨-, quote, rest, -, rfl⟩ := quotedValue_eq_some_iff.1 h
  exact List.mem_cons_of_mem quote (List.mem_append_left _ hc)

/-- A class name is written with characters of its document. -/
theorem mem_of_mem_classNames {d name : Text} {c : Char} (h : name ∈ classNames d)
    (hc : c ∈ name) : c ∈ d := by
  obtain ⟨names, hnames, hname⟩ := List.mem_flatten.1 h
  obtain ⟨t, n, ht, hread⟩ := Text.exists_suffix_of_mem_matchesFrom hnames
  obtain ⟨rest, hrest, heq⟩ := Option.map_eq_some_iff.1 hread
  rw [Text.after?_eq_some_iff] at hrest
  split at heq
  · rename_i value hvalue
    obtain ⟨rfl, -⟩ := Prod.mk.inj heq
    rcases Text.mem_of_mem_wordsFrom hname hc with h | h
    · cases h
    · refine ht.subset ?_
      rw [hrest]
      exact List.mem_append_right _ (mem_of_quotedValue hvalue h)
  · obtain ⟨rfl, -⟩ := Prod.mk.inj heq
    cases hname

/-- A name that is collected is written with characters of one of the documents. -/
theorem exists_document {documents : List Text} {name : Text} (h : name ∈ collectAll documents) :
    ∃ d ∈ documents, ∀ c ∈ name, c ∈ d := by
  obtain ⟨d, hd, hname⟩ := mem_collectAll.1 h
  exact ⟨d, hd, fun c hc => mem_of_mem_classNames hname hc⟩

end Markup

end UtilitySheet
