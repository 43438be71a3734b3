import UtilitySheet.Proofs.Braces

/-!
# The declaration that counts

A rule is written with the last value of each property, of all that is declared in the blocks that
contribute to it (`printsLast_reassemble`). The priority `!important` is part of a value and has no
say in that. So the value is the one that applies in CSS if it is important itself, or if no other
one of its property is (`Declarations.applied?_eq_iff`); else it is not
(`not_printsApplied_reassemble`).
-/

namespace UtilitySheet

open Text

namespace Declarations

/-! ## The last value -/

/-- What a part declares. -/
def declared? (part : Text) : Option (Text × Text) :=
  match readPart part with
  | .declared property value => some (property, value)
  | _ => none

/-- The declarations of bodies in order, each as often as it stands there. -/
def listed (bodies : List Text) : List (Text × Text) :=
  bodies.flatMap fun body => (parts body).filterMap declared?

/-- The last value of a property. -/
def last? (property : Text) (ds : List (Text × Text)) : Option Text :=
  (ds.filter (·.1 == property)).getLast?.map (·.2)

theorem last?_concat (property : Text) (ds : List (Text × Text)) (d : Text × Text) :
    last? property (ds ++ [d]) = if d.1 = property then some d.2 else last? property ds := by
  rw [last?, List.filter_append]
  by_cases hd : d.1 = property
  · simp [hd]
  · simp [hd, last?]

theorem last?_eq_none_iff {property : Text} {ds : List (Text × Text)} :
    last? property ds = none ↔ ∀ d ∈ ds, d.1 ≠ property := by
  simp [last?]

theorem mem_of_last? {property value : Text} {ds : List (Text × Text)}
    (h : last? property ds = some value) : (property, value) ∈ ds := by
  obtain ⟨d, hd, rfl⟩ := Option.map_eq_some_iff.1 h
  obtain ⟨hmem, hproperty⟩ := List.mem_filter.1 (List.mem_of_getLast? hd)
  rw [← beq_iff_eq.1 hproperty]
  exact hmem

/-- A last value is also the last one of those like it. -/
theorem last?_filter {property value : Text} {ds : List (Text × Text)} {p : Text × Text → Bool}
    (h : last? property ds = some value) (hp : p (property, value) = true) :
    last? property (ds.filter p) = some value := by
  induction ds using List.reverseRecOn with
  | nil => cases h
  | append_singleton ds d ih =>
    rw [last?_concat] at h
    rw [List.filter_append]
    split at h
    · rename_i hd
      subst hd
      obtain rfl := Option.some.inj h
      rw [List.filter_cons_of_pos hp, List.filter_nil, last?_concat, if_pos rfl]
    · rename_i hd
      cases hlike : p d with
      | true => rw [List.filter_cons_of_pos hlike, List.filter_nil, last?_concat, if_neg hd, ih h]
      | false =>
        rw [List.filter_cons_of_neg (by simp [hlike]), List.filter_nil, List.append_nil, ih h]

theorem addPart_eq (ds : Declarations) (part : Text) :
    addPart ds part = (declared? part).elim ds fun d => ds.insert d.1 d.2 := by
  rw [addPart, declared?]
  cases readPart part <;> rfl

theorem ofBodies_eq_foldl (bodies : List Text) :
    ofBodies bodies = (listed bodies).foldl (fun ds d => insert d.1 d.2 ds) [] := by
  have hbody : addBody = fun ds body =>
      ((parts body).filterMap declared?).foldl (fun ds d => insert d.1 d.2 ds) ds := by
    funext ds body
    rw [List.foldl_filterMap, addBody]
    congr 1
    funext ds part
    rw [addPart_eq]
    cases declared? part <;> rfl
  rw [ofBodies, hbody, listed, List.foldl_flatMap]

theorem nodup_foldl_insert (ds : List (Text × Text)) :
    ((ds.foldl (fun ds d => insert d.1 d.2 ds) []).map Prod.fst).Nodup := by
  induction ds using List.reverseRecOn with
  | nil => exact List.nodup_nil
  | append_singleton ds d ih =>
    rw [List.foldl_append]
    exact nodup_insert ih d.1 d.2

theorem nodup_ofBodies (bodies : List Text) : ((ofBodies bodies).map Prod.fst).Nodup := by
  rw [ofBodies_eq_foldl]
  exact nodup_foldl_insert _

/-- **Bodies declare each property once, with its last value.** -/
theorem mem_ofBodies_iff {bodies : List Text} {property value : Text} :
    (property, value) ∈ ofBodies bodies ↔ last? property (listed bodies) = some value := by
  rw [ofBodies_eq_foldl]
  generalize listed bodies = ds
  induction ds using List.reverseRecOn with
  | nil => simp [last?]
  | append_singleton ds d ih =>
    rw [List.foldl_append, List.foldl_cons, List.foldl_nil,
      mem_insert_iff (nodup_foldl_insert ds), ih, last?_concat]
    by_cases hd : d.1 = property
    · subst hd
      simp [Prod.ext_iff, eq_comm]
    · have hne : property ≠ d.1 := fun heq => hd heq.symm
      simp [Prod.ext_iff, hd, hne]

/-! ## The value that applies -/

/-- Whether a value has the priority `!important`. -/
def isImportant (value : Text) : Bool :=
  let lower := value.map Char.toLower
  ("!important" : Text).isSuffixOf lower || ("! important" : Text).isSuffixOf lower

/-- The value of a property that applies in CSS: the last one that is important, or the last one if
none is. -/
def applied? (property : Text) (ds : List (Text × Text)) : Option Text :=
  (last? property (ds.filter fun d => isImportant d.2)).or (last? property ds)

/-- **The last value applies if and only if it is important or no value of the property is.** -/
theorem applied?_eq_iff {property value : Text} {ds : List (Text × Text)}
    (h : last? property ds = some value) :
    applied? property ds = some value ↔
      isImportant value = true ∨ ∀ d ∈ ds, d.1 = property → isImportant d.2 = false := by
  rw [applied?]
  cases hlast : last? property (ds.filter fun d => isImportant d.2) with
  | none =>
    rw [Option.none_or]
    refine iff_of_true h (.inr fun d hd hproperty => ?_)
    by_contra himportant
    rw [Bool.not_eq_false] at himportant
    exact last?_eq_none_iff.1 hlast d (List.mem_filter.2 ⟨hd, himportant⟩) hproperty
  | some winner =>
    rw [Option.some_or]
    obtain ⟨hmem, himportant⟩ := List.mem_filter.1 (mem_of_last? hlast)
    constructor
    · intro heq
      obtain rfl := Option.some.inj heq
      exact .inl himportant
    · rintro (hvalue | hnone)
      · rw [← hlast]
        exact last?_filter h hvalue
      · exact absurd ((hnone _ hmem rfl).symm.trans himportant) Bool.false_ne_true

end Declarations

namespace Sheet

open Declarations

/-! ## What is printed -/

/-- One item is written for each place, with the text of its first node. The declarations of each
rule, at any depth, are in the relation `R` with the blocks that contribute to it. -/
inductive Prints (R : List Node → Declarations → Prop) (mode : Mode) :
    List (List Node) → List Item → Prop
  | nil : Prints R mode [] []
  | statement {place : List Node} {rest : List (List Node)} {text : Text} {items : List Item} :
      place.head?.map Node.head = some text → Prints R mode rest items →
      Prints R mode (place :: rest) (.statement text :: items)
  | rule {place : List Node} {rest : List (List Node)} {head : Text} {bodies : List Text}
      {inner items : List Item} :
      place.head?.map Node.head = some head → R (contributing place) (ofBodies bodies) →
      Prints R mode (places mode (Node.sorted ((contributing place).flatMap Node.children))) inner →
      Prints R mode rest items →
      Prints R mode (place :: rest) (.rule head bodies inner :: items)

/-- What holds of all blocks and the declarations of their bodies holds wherever they are
written. -/
theorem prints_itemsOf {R : List Node → Declarations → Prop}
    (hR : ∀ nodes, R nodes (ofBodies (nodes.flatMap Node.own))) {mode : Mode} {nodes : List Node}
    (h : ∀ n ∈ nodes, n.Everywhere Node.IsRead) :
    Prints R mode (places mode nodes) (itemsOf mode nodes) := by
  induction nodes using Node.pool_induction with
  | nil =>
    cases mode with
    | concat => exact .nil
    | merge => exact .nil
  | step nodes ih =>
    have hfills : List.Forall₂ (Fills mode) (places mode nodes) (itemsOf mode nodes) :=
      fills_itemsOf fun n hn => (h n hn).here
    have hmem : ∀ place ∈ places mode nodes, ∀ n ∈ place, n ∈ nodes :=
      fun place hplace => mem_of_mem_places hplace
    generalize places mode nodes = ps at hfills hmem
    generalize itemsOf mode nodes = items at hfills
    induction hfills with
    | nil => exact .nil
    | @cons place item ps items hplace _ ihRest =>
      rw [List.forall_mem_cons] at hmem
      have hrest := ihRest hmem.2
      cases hplace with
      | statement _ => exact .statement rfl hrest
      | @rule first rest _ =>
        have hsub : ∀ n ∈ contributing (first :: rest), n ∈ nodes :=
          fun n hn => hmem.1 n (mem_of_mem_contributing hn)
        refine .rule rfl (hR _) (ih _ hsub fun n hn => ?_) hrest
        exact Node.Everywhere.pool h hsub n (Node.mem_sorted.1 hn)

/-! ## The value that is written -/

/-- Each property is printed once, with the last value of all that the blocks declare; that value
applies in CSS if and only if it is important or no value of the property is. -/
structure KeepsLast (blocks : List Node) (printed : Declarations) : Prop where
  nodup : (printed.map Prod.fst).Nodup
  mem_iff : ∀ property value, (property, value) ∈ printed ↔
    last? property (listed (blocks.flatMap Node.own)) = some value
  applies_iff : ∀ property value, (property, value) ∈ printed →
    (applied? property (listed (blocks.flatMap Node.own)) = some value ↔
      isImportant value = true ∨ ∀ d ∈ listed (blocks.flatMap Node.own), d.1 = property →
        isImportant d.2 = false)

/-- Each value that is printed applies in CSS. -/
def KeepsApplied (blocks : List Node) (printed : Declarations) : Prop :=
  ∀ property value, (property, value) ∈ printed →
    applied? property (listed (blocks.flatMap Node.own)) = some value

theorem keepsLast_ofBodies (blocks : List Node) :
    KeepsLast blocks (ofBodies (blocks.flatMap Node.own)) where
  nodup := nodup_ofBodies _
  mem_iff _ _ := mem_ofBodies_iff
  applies_iff _ _ h := applied?_eq_iff (mem_ofBodies_iff.1 h)

/-- **Whatever a stylesheet is, each of its rules is written with the last value of each property,
in either mode and at every depth. That value applies in CSS if and only if it is important or no
value of the property is, of all that contribute.** -/
theorem printsLast_reassemble (s : Text) (mode : Mode) :
    reassemble s mode = Item.renderAll 0 ((Forest.ofText s).items mode) ∧
    Prints KeepsLast mode (places mode (Forest.ofText s).nodes) ((Forest.ofText s).items mode) := by
  refine ⟨rfl, ?_⟩
  have hitems : (Forest.ofText s).items mode = itemsOf mode (Forest.ofText s).nodes := by
    cases mode <;> rfl
  rw [hitems]
  refine prints_itemsOf keepsLast_ofBodies fun n hn => ?_
  exact isRead_readNodes (stripComments s) n (Node.mem_sorted.1 hn)

/-- A plain value behind an important one is written. -/
theorem not_printsApplied_reassemble : ¬ ∀ (s : Text) (mode : Mode),
    Prints KeepsApplied mode (places mode (Forest.ofText s).nodes)
      ((Forest.ofText s).items mode) := by
  intro h
  have hreads := Reads.block (s := ".a") ⟨by decide, by decide⟩ (by decide)
    (.semicolon (s := "top:1 !important") ⟨by decide, by decide⟩ (by decide)
      (.text (s := "top:2") ⟨by decide, by decide⟩))
    (.text (s := []) ⟨rfl, rfl⟩)
  have hprints := h (".a" ++ '\x7b' :: (("top:1 !important" ++ ';' :: "top:2") ++ '\x7d' :: []))
    .concat
  rw [Forest.items, hreads.ofText_eq, Node.sorted_of_pairwise (List.pairwise_singleton _ _)]
    at hprints
  cases hprints with
  | rule _ hrule _ _ =>
    have happlied := hrule "top" "2" (by decide)
    revert happlied
    decide

end Sheet

end UtilitySheet
