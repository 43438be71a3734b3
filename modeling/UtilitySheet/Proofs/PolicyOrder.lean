import UtilitySheet.Proofs.Continuation
import UtilitySheet.Proofs.Places

/-!
# The order of siblings

Siblings are written by priority, at every depth and in either mode. Nodes of one priority come in
the order in which they stand in the source; where nodes are written together, the first of them
counts (`inOrder_reassemble`). The reader sorts the nodes of each block, and `merge` sorts once more
what it pools from several blocks; both sorts keep the order of what has one priority, so all that
is left of the source in the end is the order of the pool.
-/

namespace UtilitySheet.Sheet

open Text

/-! ## Nodes in source order -/

namespace Node

/-- The node with other nodes in its body, if its body is one of nodes. -/
def withChildren : Node → List Node → Node
  | nest head written own _, nodes => nest head written own nodes
  | n, _ => n

mutual

/-- The node with the nodes in it sorted, at every depth. -/
def arranged : Node → Node
  | .nest head written own nodes => .nest head written own (sorted (arrangedAll nodes))
  | n => n

/-- The nodes with the nodes in them sorted. -/
def arrangedAll : List Node → List Node
  | [] => []
  | n :: nodes => n.arranged :: arrangedAll nodes

end

end Node

/-- The nodes of a text without comments, in the order in which they stand there, at every depth. -/
def sourceNodes (s : Text) : List Node :=
  match hs : nextConstruct s with
  | none => []
  | some found =>
    have := length_rest_lt hs
    let first : Option Node :=
      match hf : found.construct with
      | .statement text => some (.statement text)
      | .block head body closed =>
        have := length_body_lt hs hf
        (Construct.block head body closed).node?.map (·.withChildren (sourceNodes body))
    first.toList ++ sourceNodes found.rest
termination_by s.length

/-! ## What is in order -/

/-- The text that an item starts with: the head of a rule, or a whole statement. -/
def Item.head : Item → Text
  | statement text => text
  | rule head _ _ => head

/-- The priority of an item. -/
def Item.priority (i : Item) : Int := Policy.priorityOf i.head

/-- Of two nodes with their places in a pool, the first comes before the second: its priority is
lower, or the priorities are the same and its place is. -/
def Precedes (a b : Node × Nat) : Prop :=
  a.1.priority < b.1.priority ∨ a.1.priority = b.1.priority ∧ a.2 < b.2

/-- Whether two nodes with their places in a pool are written together: in `concat` each is on its
own, in `merge` those of one identity are together. -/
def Together : Mode → (a b : Node × Nat) → Prop
  | .concat, a, b => a.2 = b.2
  | .merge, a, b => a.1.identity = b.1.identity

/-- What it is to put elements into groups in an order: no element is lost or comes twice, those
that belong together are in one group, each group is in order, and the groups come in the order of
their first elements. -/
structure Grouped {α : Type} (order together : α → α → Prop) (as : List α)
    (groups : List (List α)) : Prop where
  perm : groups.flatten.Perm as
  inside : ∀ g ∈ groups, ∀ a ∈ g, ∀ b ∈ g, together a b
  apart : groups.Pairwise fun g h => ∀ a ∈ g, ∀ b ∈ h, ¬ together a b
  ordered : ∀ g ∈ groups, g.Pairwise order
  firsts : (groups.filterMap List.head?).Pairwise order

/-- The items of a pool of siblings are in order: there is one for each group of nodes that are
written together, with the head of the first of them, and the priorities never fall. What is inside
a rule is in order in the same way; its pool is made up of the nodes in the blocks of the group that
contribute to it, one block after the other. -/
inductive InOrder (mode : Mode) : (pool : List Node) → List Item → Prop
  | intro {pool : List Node} {groups : List (List (Node × Nat))} {items : List Item} :
      Grouped Precedes (Together mode) pool.zipIdx groups →
      List.Forall₂ (fun g i => g.head?.map (·.1.head) = some i.head) groups items →
      items.Pairwise (fun i j => i.priority ≤ j.priority) →
      (∀ g head bodies inner, (g, Item.rule head bodies inner) ∈ groups.zip items →
        InOrder mode ((contributing (g.map Prod.fst)).flatMap Node.children) inner) →
      InOrder mode pool items

/-! ## Groups by a key -/

section Groups

variable {α β κ : Type} [BEq κ]

/-- The elements of each key, in the order in which the keys come first. -/
def groupsBy (key : α → κ) (as : List α) : List (List α) :=
  (as.map key).eraseDups.map fun k => as.filter (key · == k)

theorem mem_of_mem_groupsBy {key : α → κ} {as g : List α} (h : g ∈ groupsBy key as) :
    ∀ a ∈ g, a ∈ as := by
  obtain ⟨k, -, rfl⟩ := List.mem_map.1 h
  exact fun a ha => List.mem_of_mem_filter ha

theorem groupsBy_map (f : β → α) (key : α → κ) (bs : List β) :
    groupsBy key (bs.map f) = (groupsBy (fun b => key (f b)) bs).map (List.map f) := by
  rw [groupsBy, groupsBy, List.map_map, List.map_map]
  refine List.map_congr_left fun k _ => ?_
  rw [List.filter_map]
  rfl

variable [LawfulBEq κ]

theorem groupsBy_cons (key : α → κ) (a : α) (as : List α) :
    groupsBy key (a :: as) =
      (a :: as.filter (key · == key a)) :: groupsBy key (as.filter (key · != key a)) := by
  have hkeys : (as.map key).filter (fun k => !k == key a) =
      (as.filter (key · != key a)).map key := by
    rw [List.filter_map]
    rfl
  have hfirst : (a :: as).filter (key · == key a) = a :: as.filter (key · == key a) :=
    List.filter_cons_of_pos (by simp)
  rw [groupsBy, List.map_cons, List.eraseDups_cons, hkeys, List.map_cons, hfirst]
  refine congrArg (_ :: ·) (List.map_congr_left fun k hk => ?_)
  obtain ⟨b, hb, rfl⟩ := List.mem_map.1 (List.mem_eraseDups.1 hk)
  have hne : key b ≠ key a := by simpa using (List.mem_filter.1 hb).2
  rw [List.filter_cons_of_neg (by simpa using hne.symm), List.filter_filter]
  refine List.filter_congr fun c _ => ?_
  by_cases hc : key c = key b
  · simp [hc, hne]
  · simp [hc]

/-- **Elements in an order are put into groups by their keys.** -/
theorem grouped_groupsBy {order : α → α → Prop} (key : α → κ) {as : List α}
    (h : as.Pairwise order) :
    Grouped order (fun a b => key a = key b) as (groupsBy key as) := by
  match as, h with
  | [], _ => exact ⟨.nil, by simp [groupsBy], .nil, by simp [groupsBy], .nil⟩
  | a :: as, h =>
    obtain ⟨hfirst, hrest⟩ := List.pairwise_cons.1 h
    have hlength := List.length_filter_le (key · != key a) as
    have ih := grouped_groupsBy key (hrest.filter (key · != key a))
    have hsame : ∀ b ∈ a :: as.filter (key · == key a), key b = key a := by
      simp
    have hother : ∀ g ∈ groupsBy key (as.filter (key · != key a)), ∀ b ∈ g,
        b ∈ as ∧ key b ≠ key a := by
      intro g hg b hb
      simpa using List.mem_filter.1 (mem_of_mem_groupsBy hg b hb)
    rw [groupsBy_cons]
    refine ⟨?_, ?_, ?_, ?_, ?_⟩
    · exact .cons a ((ih.perm.append_left _).trans (List.filter_append_perm _ as))
    · exact List.forall_mem_cons.2
        ⟨fun b hb c hc => (hsame b hb).trans (hsame c hc).symm, ih.inside⟩
    · refine List.pairwise_cons.2 ⟨fun g hg b hb c hc heq => ?_, ih.apart⟩
      exact (hother g hg c hc).2 (heq.symm.trans (hsame b hb))
    · refine List.forall_mem_cons.2 ⟨List.pairwise_cons.2 ⟨fun b hb => ?_, ?_⟩, ih.ordered⟩
      · exact hfirst b (List.mem_of_mem_filter hb)
      · exact hrest.filter _
    · rw [List.filterMap_cons_some List.head?_cons]
      refine List.pairwise_cons.2 ⟨fun b hb => ?_, ih.firsts⟩
      obtain ⟨g, hg, hhead⟩ := List.mem_filterMap.1 hb
      exact hfirst b (hother g hg b (List.mem_of_head? hhead)).1
termination_by as.length

/-- Elements with keys of their own are each in a group of one. -/
theorem groupsBy_of_nodup {key : α → κ} {as : List α} (h : (as.map key).Nodup) :
    groupsBy key as = as.map fun a => [a] := by
  induction as with
  | nil => rfl
  | cons a as ih =>
    rw [List.map_cons, List.nodup_cons] at h
    have hne : ∀ b ∈ as, key b ≠ key a := fun b hb heq => h.1 (heq ▸ List.mem_map_of_mem hb)
    have hnone : as.filter (key · == key a) = [] := by simpa using hne
    have hall : as.filter (key · != key a) = as := by simpa using hne
    rw [groupsBy_cons, hnone, hall, ih h.2, List.map_cons]

end Groups

/-! ## Sorting at every depth -/

/-- The node that a construct is read as, with the nodes in it in source order. -/
def Construct.inSource? : Construct → Option Node
  | .statement text => some (.statement text)
  | .block head body closed =>
    (Construct.block head body closed).node?.map (·.withChildren (sourceNodes body))

theorem sourceNodes_of_none {s : Text} (h : nextConstruct s = none) : sourceNodes s = [] := by
  rw [sourceNodes]
  split
  · rfl
  · simp_all

theorem sourceNodes_of_some {s : Text} {f : Found} (h : nextConstruct s = some f) :
    sourceNodes s = f.construct.inSource?.toList ++ sourceNodes f.rest := by
  rw [sourceNodes]
  split
  · simp_all
  · rename_i found hs
    obtain rfl := Option.some.inj (hs.symm.trans h)
    obtain ⟨before, construct, rest⟩ := found
    cases construct <;> rfl

namespace Node

theorem arrangedAll_eq (nodes : List Node) : arrangedAll nodes = nodes.map arranged := by
  induction nodes with
  | nil => rfl
  | cons n nodes ih => rw [arrangedAll, ih, List.map_cons]

@[simp] theorem head_arranged (n : Node) : n.arranged.head = n.head := by cases n <;> rfl

@[simp] theorem isBlock_arranged (n : Node) : n.arranged.isBlock = n.isBlock := by cases n <;> rfl

@[simp] theorem identity_arranged (n : Node) : n.arranged.identity = n.identity := by
  cases n <;> rfl

@[simp] theorem priority_arranged (n : Node) : n.arranged.priority = n.priority := by
  rw [priority, head_arranged, priority]

theorem children_arranged (n : Node) :
    n.arranged.children = sorted (n.children.map arranged) := by
  cases n with
  | statement _ | leaf _ _ _ => simp [arranged, children, sorted]
  | nest head written own nodes => rw [arranged, arrangedAll_eq]; rfl

end Node

/-- **The reader finds the nodes that stand in the source and sorts those in a body, at every
depth.** -/
theorem readNodes_eq_map_arranged (s : Text) :
    (readNodes s).1 = (sourceNodes s).map Node.arranged := by
  cases h : nextConstruct s with
  | none => rw [readNodes_of_none h, sourceNodes_of_none h]; rfl
  | some f =>
    have hrest := length_rest_lt h
    have hfirst : f.construct.node? = f.construct.inSource?.map Node.arranged := by
      cases hf : f.construct with
      | statement text => rfl
      | block head body closed =>
        have hbody := length_body_lt h hf
        simp only [Construct.inSource?, Construct.node?, readNodes_eq_map_arranged body]
        split
        · rfl
        · split
          · simp [Node.withChildren, Node.arranged, Node.arrangedAll_eq]
          · rfl
    rw [readNodes_of_some h, sourceNodes_of_some h, List.map_append,
      readNodes_eq_map_arranged f.rest, hfirst, Option.toList_map]
termination_by s.length

/-- Siblings of which each lot is sorted can be sorted as if none were. -/
theorem Node.sorted_flatMap_sorted {α : Type} (f : α → List Node) (as : List α) :
    sorted (as.flatMap fun a => sorted (f a)) = sorted (as.flatMap f) := by
  refine eq_of_filter_eq (pairwise_sorted _) (pairwise_sorted _) fun k => ?_
  simp only [filter_priority_sorted, List.filter_flatMap]

/-- The nodes in blocks are sorted with their own nodes sorted or not. -/
theorem Node.sorted_pool (members : List Node) :
    sorted ((members.map arranged).flatMap children) =
      sorted ((members.flatMap children).map arranged) := by
  simp only [List.flatMap_map, List.map_flatMap, children_arranged]
  exact sorted_flatMap_sorted _ members

theorem accumulated_map_arranged (nodes : List Node) :
    accumulated (nodes.map Node.arranged) = (accumulated nodes).map Node.arranged := by
  induction nodes with
  | nil => rfl
  | cons n nodes ih =>
    simp only [List.map_cons, accumulated, ih, List.any_map, Function.comp_def, Node.head_arranged]
    split
    · rfl
    · rw [List.map_cons]

theorem contributing_map_arranged (place : List Node) :
    contributing (place.map Node.arranged) = (contributing place).map Node.arranged := by
  rw [contributing, List.filter_map, accumulated_map_arranged, contributing]
  simp only [Function.comp_def, Node.isBlock_arranged]

/-! ## The pool in order -/

/-- A pool of siblings sorted by priority, with the place of each in the pool. -/
def inPlace (pool : List Node) : List (Node × Nat) :=
  pool.zipIdx.mergeSort (List.zipIdxLE fun a b => a.priority ≤ b.priority)

theorem map_fst_inPlace (pool : List Node) : (inPlace pool).map Prod.fst = Node.sorted pool :=
  List.mergeSort_zipIdx

theorem perm_inPlace (pool : List Node) : (inPlace pool).Perm pool.zipIdx :=
  List.mergeSort_perm _ _

theorem nodup_inPlace (pool : List Node) : ((inPlace pool).map Prod.snd).Nodup := by
  rw [((perm_inPlace pool).map Prod.snd).nodup_iff, List.zipIdx_map_snd]
  exact List.nodup_range'

theorem pairwise_inPlace (pool : List Node) : (inPlace pool).Pairwise Precedes := by
  have hle : (inPlace pool).Pairwise fun a b =>
      List.zipIdxLE (fun a b : Node => a.priority ≤ b.priority) a b = true :=
    List.pairwise_mergeSort (List.zipIdxLE_trans Node.priorityLe_trans)
      (List.zipIdxLE_total Node.priorityLe_total) _
  refine hle.imp₂ (fun a b hab hne => ?_) (List.pairwise_map.1 (nodup_inPlace pool))
  simp only [List.zipIdxLE, decide_eq_true_eq] at hab
  unfold Precedes
  split at hab
  · split at hab
    · simp only [decide_eq_true_eq] at hab; omega
    · omega
  · cases hab

/-- The groups of a pool: of one node each, or of those of one identity. -/
def pooled : Mode → (pool : List Node) → List (List (Node × Nat))
  | .concat, pool => groupsBy Prod.snd (inPlace pool)
  | .merge, pool => groupsBy (fun a => a.1.identity) (inPlace pool)

theorem grouped_pooled (mode : Mode) (pool : List Node) :
    Grouped Precedes (Together mode) pool.zipIdx (pooled mode pool) := by
  have hgrouped : Grouped Precedes (Together mode) (inPlace pool) (pooled mode pool) := by
    cases mode with
    | concat => exact grouped_groupsBy _ (pairwise_inPlace pool)
    | merge => exact grouped_groupsBy _ (pairwise_inPlace pool)
  exact { hgrouped with perm := hgrouped.perm.trans (perm_inPlace pool) }

/-- Sorted siblings with the nodes in them sorted are written in the places of the groups of their
pool. -/
theorem places_sorted (mode : Mode) (pool : List Node) :
    places mode (Node.sorted (pool.map Node.arranged)) =
      (pooled mode pool).map (List.map fun a => a.1.arranged) := by
  have hsorted : Node.sorted (pool.map Node.arranged) =
      (inPlace pool).map fun a => a.1.arranged := by
    have hmap : (inPlace pool).map (fun a => a.1.arranged) =
        (Node.sorted pool).map Node.arranged := by
      rw [← map_fst_inPlace, List.map_map]
      rfl
    rw [hmap, Node.sorted, Node.sorted, List.map_mergeSort fun a _ b _ => ?_]
    simp
  rw [hsorted]
  cases mode with
  | concat =>
    rw [pooled, groupsBy_of_nodup (nodup_inPlace pool), places, List.map_map, List.map_map]
    rfl
  | merge =>
    have hplaces (nodes : List Node) : places .merge nodes = groupsBy Node.identity nodes := rfl
    simp only [hplaces, groupsBy_map, Node.identity_arranged, pooled]

/-! ## The order of items -/

theorem Fills.head_eq {mode : Mode} {place : List Node} {i : Item} (h : Fills mode place i) :
    place.head?.map Node.head = some i.head := by
  cases h <;> rfl

theorem Fills.inner_eq {mode : Mode} {place : List Node} {head : Text} {bodies : List Text}
    {inner : List Item} (h : Fills mode place (.rule head bodies inner)) :
    inner = itemsOf mode (Node.sorted ((contributing place).flatMap Node.children)) := by
  cases h
  rfl

/-- What the first elements of lists have in common with the things that stand for the lists. -/
theorem map_eq_map_firsts {α β γ : Type} {f : α → γ} {g : β → γ} {groups : List (List α)}
    {bs : List β} (h : List.Forall₂ (fun as b => as.head?.map f = some (g b)) groups bs) :
    bs.map g = (groups.filterMap List.head?).map f := by
  induction h with
  | nil => rfl
  | cons hhead _ ih =>
    obtain ⟨a, ha, hb⟩ := Option.map_eq_some_iff.1 hhead
    rw [List.filterMap_cons_some ha, List.map_cons, List.map_cons, ih, hb]

/-- Items whose first nodes are in order are in the order of their priorities. -/
theorem pairwise_priority {groups : List (List (Node × Nat))} {items : List Item}
    (hheads : List.Forall₂ (fun g i => g.head?.map (·.1.head) = some i.head) groups items)
    (hfirsts : (groups.filterMap List.head?).Pairwise Precedes) :
    items.Pairwise fun i j => i.priority ≤ j.priority := by
  have hpriority : (items.map Item.head).Pairwise fun s t =>
      Policy.priorityOf s ≤ Policy.priorityOf t := by
    rw [map_eq_map_firsts hheads, List.pairwise_map]
    refine hfirsts.imp fun {a b} hab => ?_
    rcases hab with hlt | ⟨heq, -⟩
    · exact Int.le_of_lt hlt
    · exact Int.le_of_eq heq
  rwa [List.pairwise_map] at hpriority

/-- The items of a pool are in order if what is inside each of them is. -/
theorem inOrder_of_inner {mode : Mode} {pool : List Node} (h : ∀ n ∈ pool, n.arranged.IsRead)
    (hinner : ∀ g ∈ pooled mode pool,
      InOrder mode ((contributing (g.map Prod.fst)).flatMap Node.children)
        (itemsOf mode (Node.sorted
          ((contributing (g.map fun a => a.1.arranged)).flatMap Node.children)))) :
    InOrder mode pool (itemsOf mode (Node.sorted (pool.map Node.arranged))) := by
  have hfills : List.Forall₂ (fun g i => Fills mode (g.map fun a => a.1.arranged) i)
      (pooled mode pool) (itemsOf mode (Node.sorted (pool.map Node.arranged))) := by
    rw [← List.forall₂_map_left_iff, ← places_sorted]
    refine fills_itemsOf fun n hn => ?_
    obtain ⟨m, hm, rfl⟩ := List.mem_map.1 (Node.mem_sorted.1 hn)
    exact h m hm
  have hgrouped := grouped_pooled mode pool
  have hheads : List.Forall₂ (fun g i => g.head?.map (·.1.head) = some i.head)
      (pooled mode pool) (itemsOf mode (Node.sorted (pool.map Node.arranged))) := by
    refine hfills.imp fun g i hfill => ?_
    simpa [List.head?_map, Function.comp_def] using hfill.head_eq
  refine .intro hgrouped hheads (pairwise_priority hheads hgrouped.firsts) ?_
  intro g head bodies inner hmem
  rw [((List.forall₂_iff_zip.1 hfills).2 hmem).inner_eq]
  exact hinner g (List.of_mem_zip hmem).1

/-- The items of a pool are in order. -/
theorem inOrder_itemsOf {mode : Mode} {pool : List Node}
    (h : ∀ n ∈ pool.map Node.arranged, n.Everywhere Node.IsRead) :
    InOrder mode pool (itemsOf mode (Node.sorted (pool.map Node.arranged))) := by
  generalize hnodes : Node.sorted (pool.map Node.arranged) = nodes
  induction nodes using Node.pool_induction generalizing pool with
  | nil =>
    obtain rfl : pool = [] := by simpa [Node.sorted] using congrArg List.length hnodes
    have hnone : pooled mode [] = [] := by cases mode <;> simp [pooled, inPlace, groupsBy]
    have horder : InOrder mode [] _ :=
      inOrder_of_inner (by simp) fun g hg => by simp [hnone] at hg
    rwa [hnodes] at horder
  | step nodes ih =>
    subst hnodes
    refine inOrder_of_inner (fun n hn => (h _ (List.mem_map_of_mem hn)).here) fun g hg => ?_
    have hplace : (g.map fun a => a.1.arranged) ∈
        places mode (Node.sorted (pool.map Node.arranged)) := by
      rw [places_sorted]
      exact List.mem_map_of_mem hg
    have hsub : ∀ n ∈ contributing (g.map fun a => a.1.arranged),
        n ∈ Node.sorted (pool.map Node.arranged) :=
      fun n hn => mem_of_mem_places hplace n (mem_of_mem_contributing hn)
    -- The pool of the group, sorted at every depth, is what its blocks have in them.
    have hpool : Node.sorted (((contributing (g.map Prod.fst)).flatMap Node.children).map
        Node.arranged) = Node.sorted
          ((contributing (g.map fun a => a.1.arranged)).flatMap Node.children) := by
      rw [← Node.sorted_pool, ← contributing_map_arranged, List.map_map]
      rfl
    refine ih _ hsub (fun n hn => ?_) hpool
    have hchild := Node.mem_sorted.1 (hpool ▸ Node.mem_sorted.2 hn)
    exact Node.Everywhere.pool (fun m hm => h m (Node.mem_sorted.1 hm)) hsub n hchild

/-- **Whatever a stylesheet is, its items are in order at every depth, in either mode.** -/
theorem inOrder_reassemble (s : Text) (mode : Mode) :
    reassemble s mode = Item.renderAll 0 ((Forest.ofText s).items mode) ∧
      InOrder mode (sourceNodes (stripComments s)) ((Forest.ofText s).items mode) := by
  refine ⟨rfl, ?_⟩
  have hnodes : (Forest.ofText s).nodes =
      Node.sorted ((sourceNodes (stripComments s)).map Node.arranged) := by
    rw [← readNodes_eq_map_arranged]
    rfl
  rw [Forest.items_eq, hnodes]
  refine inOrder_itemsOf ?_
  rw [← readNodes_eq_map_arranged]
  exact isRead_readNodes (stripComments s)

end UtilitySheet.Sheet
