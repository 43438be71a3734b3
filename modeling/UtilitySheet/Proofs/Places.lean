import UtilitySheet.Proofs.Conservation
import UtilitySheet.Proofs.Constructs

/-!
# Places

Siblings are written in places: each on its own, or all that have one identity together
(`places`). One item is written for each place (`fills_itemsOf`): a statement, or a rule with the
head of the first node and the blocks that contribute, which are those from the last one on that
replaces those before it.
-/

namespace UtilitySheet.Sheet

open Text

/-! ## Places and their items -/

/-- The nodes that are written in one place: each node on its own, or all nodes of an identity. -/
def places : (mode : Mode) → (nodes : List Node) → List (List Node)
  | .concat, nodes => nodes.map fun n => [n]
  | .merge, nodes => (nodes.map Node.identity).eraseDups.map (Group.same nodes)

/-- The items of siblings. -/
def itemsOf (mode : Mode) (nodes : List Node) : List Item := (⟨nodes, none⟩ : Forest).items mode

theorem Forest.items_eq (f : Forest) (mode : Mode) : f.items mode = itemsOf mode f.nodes := by
  cases mode <;> rfl

theorem mem_of_mem_places {mode : Mode} {nodes place : List Node} (h : place ∈ places mode nodes) :
    ∀ n ∈ place, n ∈ nodes := by
  intro n hn
  cases mode with
  | concat =>
    obtain ⟨m, hm, rfl⟩ := List.mem_map.1 h
    rw [List.mem_singleton.1 hn]
    exact hm
  | merge =>
    obtain ⟨identity, -, rfl⟩ := List.mem_map.1 h
    exact List.mem_of_mem_filter hn

/-- What an item has by its head, by the bodies that contribute and by the items inside it is had by
all items of siblings with such heads and bodies at every depth. -/
theorem forall_itemsOf {H B : Text → Prop} {P : Item → Prop}
    (statement : ∀ {text}, H text → P (.statement text))
    (rule : ∀ {head bodies inner}, H head → (∀ body ∈ bodies, B body) → (∀ i ∈ inner, P i) →
      P (.rule head bodies inner))
    {mode : Mode} {nodes : List Node}
    (h : ∀ n ∈ nodes, n.Everywhere fun n => H n.head ∧ ∀ body ∈ n.own, B body) :
    ∀ i ∈ itemsOf mode nodes, P i := by
  cases mode with
  | concat =>
    have hnode : ∀ {n : Node}, (n.Everywhere fun n => H n.head ∧ ∀ body ∈ n.own, B body) →
        P (Item.ofNode n) := by
      intro n hn
      induction hn with
      | @intro n hn hchildren ih =>
        cases n with
        | statement text => exact statement hn.1
        | leaf head written body => exact rule hn.1 hn.2 fun _ hi => absurd hi List.not_mem_nil
        | nest head written own nodes =>
          refine rule hn.1 hn.2 ?_
          rw [Item.ofNodes_eq_map]
          exact List.forall_mem_map.2 ih
    rw [itemsOf, Forest.items, Item.ofNodes_eq_map]
    exact List.forall_mem_map.2 fun n hn => hnode (h n hn)
  | merge =>
    rw [itemsOf, Forest.items]
    induction nodes using Node.pool_induction with
    | nil =>
      rw [mergeNodes_eq]
      exact fun _ hi => absurd hi List.not_mem_nil
    | step nodes ih =>
      rw [mergeNodes_eq]
      refine List.forall_mem_map.2 fun g hg => ?_
      obtain ⟨l, hl⟩ := Group.exists_leads hg
      have hhead : H g.head := hl.head_eq ▸ (h l hl.mem).here.1
      cases g with
      | statement text => exact statement hhead
      | blocks head members =>
        have hmembers := fun m hm => (hl.mem_of_mem m hm).1
        refine rule hhead (fun body hbody => ?_) (ih members hmembers fun n hn => ?_)
        · obtain ⟨m, hm, hbody⟩ := List.mem_flatMap.1 hbody
          exact (h m (hmembers m hm)).here.2 body hbody
        · exact Node.Everywhere.pool h hmembers n (Node.mem_sorted.1 hn)

/-- What each item has as it is written is had by all of them together, if it is kept over a blank
line. -/
theorem forall_renderAll {P : Text → Prop} (nil : P [])
    (append : ∀ {s t}, P s → P t → P (s ++ "\n\n" ++ t)) {depth : Nat} {items : List Item}
    (h : ∀ i ∈ items, P (i.render depth)) : P (Item.renderAll depth items) := by
  induction items with
  | nil => exact nil
  | cons i items ih =>
    rw [List.forall_mem_cons] at h
    cases items with
    | nil => exact h.1
    | cons j items => exact append h.1 (ih h.2)

/-- The groups of siblings are those of their identities, in the order of their first nodes. -/
theorem map_fst_foldl_add (nodes : List Node) :
    (nodes.foldl Group.add []).map Prod.fst = (nodes.map Node.identity).eraseDups := by
  induction nodes using List.reverseRecOn with
  | nil => rfl
  | append_singleton nodes n ih =>
    rw [List.foldl_append, List.map_append, List.eraseDups_append, ← ih, List.map_singleton,
      List.foldl_cons, List.foldl_nil]
    by_cases hmem : n.identity ∈ nodes.map Node.identity
    · have hmem' : n.identity ∈ (nodes.foldl Group.add []).map Prod.fst := by
        rwa [ih, List.mem_eraseDups]
      rw [Group.map_fst_add_of_mem hmem', List.removeAll,
        List.filter_cons_of_neg (by simpa using hmem)]
      simp
    · have hmem' : n.identity ∉ (nodes.foldl Group.add []).map Prod.fst := by
        rwa [ih, List.mem_eraseDups]
      rw [Group.add_of_not_mem hmem', List.map_append, List.removeAll,
        List.filter_cons_of_pos (by simpa using hmem)]
      rfl

/-! ## Contributing blocks -/

/-- Blocks that are the same, from the last one on that replaces those before it. -/
def accumulated : List Node → List Node
  | [] => []
  | n :: nodes =>
    if nodes.any (Policy.replacesOf ·.head) then accumulated nodes else n :: nodes

/-- The blocks of a place that contribute to the rule that is written there. -/
def contributing (place : List Node) : List Node := accumulated (place.filter Node.isBlock)

theorem accumulated_concat (nodes : List Node) (n : Node) :
    accumulated (nodes ++ [n]) =
      if Policy.replacesOf n.head then [n] else accumulated nodes ++ [n] := by
  induction nodes with
  | nil => simp [accumulated]
  | cons m nodes ih =>
    rw [List.cons_append, accumulated, accumulated, ih, List.any_append]
    by_cases hn : Policy.replacesOf n.head = true
    · simp [hn]
    · simp only [List.any_cons, List.any_nil, hn, Bool.or_false, Bool.false_eq_true, if_false]
      split <;> rfl

theorem accumulated_subset (nodes : List Node) : accumulated nodes ⊆ nodes := by
  induction nodes with
  | nil => exact List.Subset.refl _
  | cons n nodes ih =>
    rw [accumulated]
    split
    · exact List.Subset.trans ih (List.subset_cons_self _ _)
    · exact List.Subset.refl _

theorem mem_of_mem_contributing {place : List Node} {n : Node} (h : n ∈ contributing place) :
    n ∈ place :=
  List.mem_of_mem_filter (accumulated_subset _ h)

theorem contributing_concat (place : List Node) (n : Node) :
    contributing (place ++ [n]) =
      if n.isBlock then
        if Policy.replacesOf n.head then [n] else contributing place ++ [n]
      else contributing place := by
  rw [contributing, List.filter_append]
  cases hn : n.isBlock with
  | true =>
    rw [List.filter_cons_of_pos hn, List.filter_nil, accumulated_concat]
    rfl
  | false =>
    rw [List.filter_cons_of_neg (by simp [hn]), List.filter_nil, List.append_nil]
    rfl

theorem contributing_singleton {n : Node} (h : n.isBlock = true) : contributing [n] = [n] := by
  simp [contributing, accumulated, h]

theorem Group.join_statement {n : Node} (h : n.isBlock = false) (g : Group) : g.join n = g := by
  cases n with
  | statement text => cases g <;> rfl
  | leaf _ _ _ | nest _ _ _ _ => cases h

/-- The group that nodes make up is that of the first one, with the blocks that contribute. -/
theorem Group.collect_cons (first : Node) (rest : List Node) :
    collect (first :: rest) = some (if first.isBlock then
      .blocks first.head (contributing (first :: rest)) else .statement first.head) := by
  induction rest using List.reverseRecOn with
  | nil =>
    cases first with
    | statement text => rfl
    | leaf _ _ _ | nest _ _ _ _ => rfl
  | append_singleton rest n ih =>
    rw [← List.cons_append, collect_append ih, contributing_concat]
    cases hfirst : first.isBlock with
    | false => rfl
    | true =>
      cases hn : n.isBlock with
      | false => simp [join_statement hn]
      | true => simp [join_of_isBlock hn]

/-! ## What places are written as -/

/-- What is written in a place: a statement, or a rule for the blocks that contribute. -/
inductive Fills (mode : Mode) : (place : List Node) → Item → Prop
  | statement {first : Node} {rest : List Node} :
      first.isBlock = false → Fills mode (first :: rest) (.statement first.head)
  | rule {first : Node} {rest : List Node} :
      first.isBlock = true →
      Fills mode (first :: rest) (.rule first.head
        ((contributing (first :: rest)).flatMap Node.own)
        (itemsOf mode (Node.sorted ((contributing (first :: rest)).flatMap Node.children))))

theorem fills_ofNode {n : Node} (h : n.IsRead) : Fills .concat [n] (Item.ofNode n) := by
  have hrule : n.isBlock = true →
      Fills .concat [n] (.rule n.head n.own (Item.ofNodes n.children)) := by
    intro hblock
    have hfills : Fills .concat [n] _ := .rule hblock
    rw [contributing_singleton hblock, List.flatMap_singleton, List.flatMap_singleton,
      Node.sorted_of_pairwise h.pairwise_children] at hfills
    exact hfills
  cases n with
  | statement text => exact .statement rfl
  | leaf _ _ _ | nest _ _ _ _ => exact hrule rfl

theorem fills_collect {place : List Node} {g : Group} (h : Group.collect place = some g) :
    Fills .merge place g.item := by
  cases place with
  | nil => cases h
  | cons first rest =>
    rw [Group.collect_cons] at h
    obtain rfl := Option.some.inj h
    cases hfirst : first.isBlock with
    | false => exact .statement hfirst
    | true => exact .rule hfirst

/-- **Siblings are written as one item for each place, in either mode.** -/
theorem fills_itemsOf {mode : Mode} {nodes : List Node} (h : ∀ n ∈ nodes, n.IsRead) :
    List.Forall₂ (Fills mode) (places mode nodes) (itemsOf mode nodes) := by
  cases mode with
  | concat =>
    rw [itemsOf, Forest.items, Item.ofNodes_eq_map, places, List.forall₂_map_left_iff,
      List.forall₂_map_right_iff, List.forall₂_same]
    exact fun n hn => fills_ofNode (h n hn)
  | merge =>
    obtain ⟨leaders, hled⟩ := Group.exists_led nodes
    have hitems : itemsOf .merge nodes = (nodes.foldl Group.add []).map fun e => e.2.item := by
      rw [itemsOf, Forest.items, mergeNodes_eq, Group.ofNodes, List.map_map]
      rfl
    rw [hitems, places, ← map_fst_foldl_add, List.map_map, List.forall₂_map_left_iff,
      List.forall₂_map_right_iff, List.forall₂_same]
    exact fun entry hentry => fills_collect (hled.collected entry hentry)

end UtilitySheet.Sheet
