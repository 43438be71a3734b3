import UtilitySheet.Rule

/-!
# Sorting by weight

Sorting is stable: elements that the order does not tell apart keep their places among each other
(`filter_mergeSort`). Weights are compared by their keys, which tell all of them apart that differ
in a bit.
-/

namespace UtilitySheet

/-- What the order does not tell apart stays as it was. -/
theorem filter_mergeSort {α : Type} {le : α → α → Bool} {p : α → Bool}
    (trans : ∀ a b c, le a b = true → le b c = true → le a c = true)
    (total : ∀ a b, (le a b || le b a) = true) (hp : ∀ a b, p a = true → p b = true → le a b = true)
    (as : List α) : (as.mergeSort le).filter p = as.filter p := by
  have hsame : (as.filter p).Pairwise fun a b => le a b = true :=
    List.pairwise_of_forall_mem_list fun a ha b hb =>
      hp a b (List.mem_filter.1 ha).2 (List.mem_filter.1 hb).2
  have hsub : (as.filter p).Sublist (as.mergeSort le) :=
    List.sublist_mergeSort trans total hsame List.filter_sublist
  have hfilter := hsub.filter p
  rw [List.filter_filter] at hfilter
  simp only [Bool.and_self] at hfilter
  exact (hfilter.eq_of_length ((List.mergeSort_perm as le).filter p).length_eq.symm).symm

/-! ## Weights -/

theorem weightLe_trans {x y z : Float} (h : weightLe x y = true) (h' : weightLe y z = true) :
    weightLe x z = true := by
  simp only [weightLe, decide_eq_true_eq] at *
  exact UInt64.le_trans h h'

theorem weightLe_total (x y : Float) : (weightLe x y || weightLe y x) = true := by
  simp only [weightLe, Bool.or_eq_true, decide_eq_true_eq]
  exact UInt64.le_total _ _

theorem weightLe_of_key_eq {x y : Float} (h : weightKey x = weightKey y) : weightLe x y = true := by
  simp [weightLe, h]

/-! ## By weight -/

section

variable {α : Type} (weight : α → Float)

theorem pairwise_mergeSort_weight (as : List α) :
    (as.mergeSort fun a b => weightLe (weight a) (weight b)).Pairwise fun a b =>
      weightLe (weight a) (weight b) = true := by
  refine List.pairwise_mergeSort (fun a b c hab hbc => ?_) (fun a b => ?_) as
  · exact weightLe_trans hab hbc
  · exact weightLe_total (weight a) (weight b)

/-- What has one weight keeps its order. -/
theorem filter_mergeSort_weight {p : α → Bool} {key : UInt64}
    (hp : ∀ a, p a = true → weightKey (weight a) = key) (as : List α) :
    (as.mergeSort fun a b => weightLe (weight a) (weight b)).filter p = as.filter p := by
  refine filter_mergeSort (fun a b c hab hbc => ?_) (fun a b => ?_) (fun a b ha hb => ?_) as
  · exact weightLe_trans hab hbc
  · exact weightLe_total (weight a) (weight b)
  · exact weightLe_of_key_eq ((hp a ha).trans (hp b hb).symm)

end

namespace RuleGroups

variable {rules : List Rule}

theorem perm_ofRules (rules : List Rule) : (ofRules rules).rules.Perm rules :=
  List.mergeSort_perm _ _

theorem pairwise_ofRules (rules : List Rule) :
    (ofRules rules).rules.Pairwise fun a b => weightLe a.weight b.weight = true :=
  pairwise_mergeSort_weight Rule.weight rules

/-- Rules of one weight are listed in the order in which they come. -/
theorem filter_ofRules {p : Rule → Bool} {key : UInt64}
    (hp : ∀ r, p r = true → weightKey r.weight = key) (rules : List Rule) :
    (ofRules rules).rules.filter p = rules.filter p :=
  filter_mergeSort_weight Rule.weight hp rules

end RuleGroups

end UtilitySheet
