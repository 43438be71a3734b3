import UtilitySheet.Proofs.Identity

/-!
# What merging keeps

Where blocks are the same by their heads, merging keeps what is declared along each chain of heads:
the blocks of the chain become one, with the declarations of all of them, or of the last one for
keyframes. The statements along a chain are kept, each once. `Written` is the relation of the nodes
along a chain before and after; it is passed on from a chain to the next head (`Written.step`).
-/

namespace UtilitySheet.Sheet

open Text

namespace Node

/-! ## Chains of heads -/

/-- The blocks with a head. -/
def headed (nodes : List Node) (head : Text) : List Node :=
  nodes.filter fun n => n.isBlock && n.head == head

/-- The blocks with a head that count; of the same keyframes only the last one does. -/
def counted (nodes : List Node) (head : Text) : List Node :=
  if Policy.atRuleName? head = some ("@keyframes" : Text) then (headed nodes head).getLast?.toList
  else headed nodes head

/-- The nodes inside the blocks along a chain of heads; `pick` says which of the blocks with a head
are entered. -/
def reach (pick : List Node → Text → List Node) : (nodes : List Node) → (chain : List Text) →
    List Node
  | nodes, [] => nodes
  | nodes, head :: chain => reach pick ((pick nodes head).flatMap children) chain

/-- What is declared along a chain of heads in the blocks with a last head. -/
def declared (nodes : List Node) (chain : List Text) (head : Text) : Declarations :=
  Declarations.ofBodies ((counted (reach counted nodes chain) head).flatMap own)

/-- The identities of the statements among siblings. -/
def statementKeys (nodes : List Node) : List Text :=
  (nodes.filter fun n => !n.isBlock).map identity

theorem mem_headed {nodes : List Node} {head : Text} {n : Node} :
    n ∈ headed nodes head ↔ n ∈ nodes ∧ n.isBlock = true ∧ n.head = head := by
  rw [headed, List.mem_filter, Bool.and_eq_true, beq_iff_eq]

theorem headed_sorted (nodes : List Node) (head : Text) :
    headed (sorted nodes) head = headed nodes head := by
  refine filter_sorted fun a b ha hb => ?_
  simp only [Bool.and_eq_true, beq_iff_eq] at ha hb
  rw [priority, priority, ha.2, hb.2]

theorem counted_eq_nil_iff {nodes : List Node} {head : Text} :
    counted nodes head = [] ↔ headed nodes head = [] := by
  unfold counted
  split
  · rw [Option.toList_eq_nil_iff, List.getLast?_eq_none_iff]
  · rfl

theorem mem_of_mem_counted {nodes : List Node} {head : Text} {n : Node}
    (h : n ∈ counted nodes head) : n ∈ nodes := by
  unfold counted at h
  split at h
  · rw [Option.mem_toList] at h
    exact (mem_headed.1 (List.mem_of_getLast? h)).1
  · exact (mem_headed.1 h).1

/-- Where there is at most one block with a head, it counts. -/
theorem counted_of_headed_eq_singleton {nodes : List Node} {head : Text} {n : Node}
    (h : headed nodes head = [n]) : counted nodes head = [n] := by
  rw [counted, h]
  split <;> rfl

end Node

/-! ## Groups of blocks -/

namespace Group

theorem join_of_isBlock {n : Node} (h : n.isBlock = true) (head : Text) (members : List Node) :
    (blocks head members).join n =
      blocks head (if Policy.replacesOf n.head then [n] else members ++ [n]) := by
  cases n with
  | statement text => cases h
  | leaf _ _ _ | nest _ _ _ _ =>
    simp only [join]
    split <;> rfl

/-- Blocks with one head make up a group of those that count. -/
theorem collect_blocks {nodes : List Node} {head : Text} (hne : nodes ≠ [])
    (h : ∀ n ∈ nodes, n.isBlock = true ∧ n.head = head) :
    collect nodes =
      some (blocks head (if Policy.replacesOf head then nodes.getLast?.toList else nodes)) := by
  induction nodes using List.reverseRecOn with
  | nil => exact absurd rfl hne
  | append_singleton nodes n ih =>
    obtain ⟨hblock, rfl⟩ := h n (List.mem_append_right _ (List.mem_singleton_self n))
    by_cases hnil : nodes = []
    · subst hnil
      cases n with
      | statement text => cases hblock
      | leaf _ _ _ | nest _ _ _ _ =>
        simp [collect, single]
    · have hnodes := ih hnil fun m hm => h m (List.mem_append_left _ hm)
      rw [collect_append hnodes, join_of_isBlock hblock, List.getLast?_concat]
      split <;> rfl

/-- Where there are blocks with a head, the nodes that are the same as these are just these. -/
theorem same_eq_headed {nodes : List Node} {head : Text} (hproper : ∀ n ∈ nodes, n.Proper)
    (hkeyed : ∀ n ∈ nodes, n.IsKeyedByHead) (hne : Node.headed nodes head ≠ []) :
    same nodes head = Node.headed nodes head := by
  obtain ⟨b, hb⟩ := List.exists_mem_of_ne_nil _ hne
  obtain ⟨hbmem, hbblock, rfl⟩ := Node.mem_headed.1 hb
  refine List.filter_congr fun n hn => ?_
  rw [Bool.eq_iff_iff, beq_iff_eq, Bool.and_eq_true, beq_iff_eq]
  have hbid := (hkeyed b hbmem).identity_eq hbblock
  constructor
  · intro hid
    have hblock : n.isBlock = true := by
      rw [(hproper n hn).isBlock_eq (hproper b hbmem) (hkeyed n hn) (hkeyed b hbmem)
        (hid.trans hbid.symm), hbblock]
    exact ⟨hblock, ((hkeyed n hn).identity_eq hblock).symm.trans hid⟩
  · rintro ⟨hblock, hhead⟩
    rw [(hkeyed n hn).identity_eq hblock, hhead]

end Group

theorem eq_singleton_of_nodup {α β : Type} {f : α → β} {as : List α} {a : α}
    (hnodup : (as.map f).Nodup) (ha : a ∈ as) (hall : ∀ b ∈ as, f b = f a) : as = [a] := by
  have hmap : as.map f = List.replicate as.length (f a) := by
    refine List.eq_replicate_iff.2 ⟨List.length_map _, fun x hx => ?_⟩
    obtain ⟨b, hb, rfl⟩ := List.mem_map.1 hx
    exact hall b hb
  rw [hmap, List.nodup_replicate] at hnodup
  obtain ⟨b, rfl⟩ := List.length_eq_one_iff.1
    (Nat.le_antisymm hnodup (List.length_pos_of_mem ha))
  rw [List.mem_singleton.1 ha]

/-- Where there are blocks with a head, just one of the leaders is a block with it. -/
theorem headed_leaders {nodes leaders : List Node} {head : Text}
    (hproper : ∀ n ∈ nodes, n.Proper) (hkeyed : ∀ n ∈ nodes, n.IsKeyedByHead)
    (hsub : leaders.Sublist nodes) (hnodup : (leaders.map Node.identity).Nodup)
    (hcovers : ∀ n ∈ nodes, n.identity ∈ leaders.map Node.identity)
    (hne : Node.headed nodes head ≠ []) :
    ∃ l ∈ nodes, l.isBlock = true ∧ Node.headed leaders head = [l] := by
  have hsame : ∀ n, n ∈ Node.headed nodes head ↔ n ∈ nodes ∧ n.identity = head := by
    intro n
    rw [← Group.same_eq_headed hproper hkeyed hne, Group.same, List.mem_filter, beq_iff_eq]
  obtain ⟨b, hb⟩ := List.exists_mem_of_ne_nil _ hne
  obtain ⟨hbmem, hbid⟩ := (hsame b).1 hb
  obtain ⟨l, hl, hid⟩ := List.mem_map.1 (hcovers b hbmem)
  rw [hbid] at hid
  obtain ⟨hlmem, hlblock, hlhead⟩ := Node.mem_headed.1 ((hsame l).2 ⟨hsub.subset hl, hid⟩)
  refine ⟨l, hlmem, hlblock, ?_⟩
  refine eq_singleton_of_nodup ((List.filter_sublist.map Node.identity).nodup hnodup)
    (Node.mem_headed.2 ⟨hl, hlblock, hlhead⟩) ?_
  intro m hm
  obtain ⟨hm, hmblock, hmhead⟩ := Node.mem_headed.1 hm
  rw [(hkeyed m (hsub.subset hm)).identity_eq hmblock, hmhead, hid]

/-! ## Siblings before and after merging -/

/-- Siblings that are read back, `ns`, and the siblings they were written for. -/
structure Written (nodes ns : List Node) : Prop where
  proper : ∀ n ∈ nodes, n.Everywhere Node.Proper
  keyed : ∀ n ∈ nodes, n.Everywhere Node.IsKeyedByHead
  outlines : ns.map Node.outline = merged (Node.sorted nodes)

namespace Written

variable {nodes ns : List Node}

theorem sorted_proper (h : Written nodes ns) : ∀ n ∈ Node.sorted nodes, n.Proper := by
  intro n hn
  exact (h.proper n (Node.mem_sorted.1 hn)).here

theorem sorted_keyed (h : Written nodes ns) : ∀ n ∈ Node.sorted nodes, n.IsKeyedByHead := by
  intro n hn
  exact (h.keyed n (Node.mem_sorted.1 hn)).here

/-- The blocks with a head are written as one block, with the declarations and the nodes of those
that count; where there are none, none is written. -/
theorem headed (h : Written nodes ns) (head : Text) :
    (Node.headed ns head = [] ∧ Node.headed nodes head = []) ∨
    ∃ n, Node.headed ns head = [n] ∧ Node.headed nodes head ≠ [] ∧ n.outline =
      .rule head (Declarations.ofBodies ((Node.counted nodes head).flatMap Node.own))
        (merged (Node.sorted ((Node.counted nodes head).flatMap Node.children))) := by
  obtain ⟨leaders, hsub, hnodup, hcovers, hmerges⟩ := exists_leaders_of_merged h.outlines
  have hblocks : List.Forall₂ (Merges (Node.sorted nodes)) (Node.headed ns head)
      (Node.headed leaders head) := by
    refine List.rel_filter ?_ hmerges
    intro n l hnl
    simp only [hnl.isBlock_eq, hnl.head_eq]
  by_cases hnone : Node.headed nodes head = []
  · left
    have hleaders : (Node.headed leaders head).Sublist (Node.headed (Node.sorted nodes) head) :=
      hsub.filter _
    rw [Node.headed_sorted, hnone, List.sublist_nil] at hleaders
    rw [hleaders, List.forall₂_nil_right_iff] at hblocks
    exact ⟨hblocks, hnone⟩
  · right
    have hsorted : Node.headed (Node.sorted nodes) head ≠ [] := by
      rwa [Node.headed_sorted]
    obtain ⟨l, hl, hlblock, hone⟩ :=
      headed_leaders h.sorted_proper h.sorted_keyed hsub hnodup hcovers hsorted
    rw [hone, List.forall₂_cons_right_iff] at hblocks
    obtain ⟨n, rest, ⟨g, houtline, hleads⟩, hrest, hns⟩ := hblocks
    rw [List.forall₂_nil_right_iff] at hrest
    subst hrest
    have hlhead : l.head = head :=
      (Node.mem_headed.1 (hone ▸ List.mem_singleton_self l)).2.2
    have hcollected := hleads.collected
    rw [(h.sorted_keyed l hl).identity_eq hlblock, hlhead,
      Group.same_eq_headed h.sorted_proper h.sorted_keyed hsorted, Node.headed_sorted,
      Group.collect_blocks hnone fun m hm => (Node.mem_headed.1 hm).2] at hcollected
    have hfont : Policy.atRuleName? head ≠ some ("@font-face" : Text) :=
      hlhead ▸ h.sorted_keyed l hl hlblock "@font-face" (by decide)
    rw [Policy.replacesOf_eq hfont] at hcollected
    simp only [beq_iff_eq] at hcollected
    obtain rfl := Option.some.inj hcollected
    exact ⟨n, hns, hnone, houtline⟩

/-- What is inside the blocks with a head is written for what is inside those that count. -/
theorem step (h : Written nodes ns) (head : Text) :
    Written ((Node.counted nodes head).flatMap Node.children)
      ((Node.headed ns head).flatMap Node.children) where
  proper := Node.Everywhere.pool h.proper fun _ => Node.mem_of_mem_counted
  keyed := Node.Everywhere.pool h.keyed fun _ => Node.mem_of_mem_counted
  outlines := by
    rcases h.headed head with ⟨hns, hnodes⟩ | ⟨n, hns, -, houtline⟩
    · rw [hns, Node.counted_eq_nil_iff.2 hnodes, List.flatMap_nil,
        Node.sorted_of_pairwise List.Pairwise.nil]
      rfl
    · rw [hns, List.flatMap_singleton]
      exact (Node.of_outline_eq_rule houtline).2.2

/-- Along every chain what is read back was written for what counts. -/
theorem reach (h : Written nodes ns) (chain : List Text) :
    Written (Node.reach Node.counted nodes chain) (Node.reach Node.headed ns chain) := by
  induction chain generalizing nodes ns with
  | nil => exact h
  | cons head chain ih => exact ih (h.step head)

/-- All that is read back counts. -/
theorem counted_eq (h : Written nodes ns) (head : Text) :
    Node.counted ns head = Node.headed ns head := by
  rcases h.headed head with ⟨hns, -⟩ | ⟨n, hns, -⟩
  · rw [Node.counted_eq_nil_iff.2 hns, hns]
  · rw [Node.counted_of_headed_eq_singleton hns, hns]

theorem reach_eq (h : Written nodes ns) (chain : List Text) :
    Node.reach Node.counted ns chain = Node.reach Node.headed ns chain := by
  induction chain generalizing nodes ns with
  | nil => rfl
  | cons head chain ih => rw [Node.reach, Node.reach, h.counted_eq, ih (h.step head)]

theorem length_headed (h : Written nodes ns) (head : Text) :
    (Node.headed ns head).length = if Node.counted nodes head = [] then 0 else 1 := by
  rcases h.headed head with ⟨hns, hnodes⟩ | ⟨n, hns, hnodes, -⟩
  · rw [hns, if_pos (Node.counted_eq_nil_iff.2 hnodes)]
    rfl
  · rw [hns, if_neg (Node.counted_eq_nil_iff.not.2 hnodes)]
    rfl

theorem ofBodies_counted (h : Written nodes ns) (head : Text) :
    Declarations.ofBodies ((Node.counted ns head).flatMap Node.own) =
      Declarations.ofBodies ((Node.counted nodes head).flatMap Node.own) := by
  rcases h.headed head with ⟨hns, hnodes⟩ | ⟨n, hns, -, houtline⟩
  · rw [Node.counted_eq_nil_iff.2 hns, Node.counted_eq_nil_iff.2 hnodes]
  · rw [Node.counted_of_headed_eq_singleton hns, List.flatMap_singleton]
    exact (Node.of_outline_eq_rule houtline).2.1

/-- The statements that are the same are written once. -/
theorem count_statementKeys (h : Written nodes ns) (key : Text) :
    (Node.statementKeys ns).count key = if key ∈ Node.statementKeys nodes then 1 else 0 := by
  obtain ⟨leaders, hsub, hnodup, hcovers, hmerges⟩ := exists_leaders_of_merged h.outlines
  have hproper := h.sorted_proper
  have hkeyed := h.sorted_keyed
  have hkeys : Node.statementKeys ns = Node.statementKeys leaders := by
    have hstatements : List.Forall₂ (Merges (Node.sorted nodes)) (ns.filter fun n => !n.isBlock)
        (leaders.filter fun n => !n.isBlock) := by
      refine List.rel_filter ?_ hmerges
      intro n l hnl
      simp only [hnl.isBlock_eq]
    exact map_eq_of_forall₂ hstatements fun n l hnl => hnl.identity_eq (hkeyed l hnl.mem)
  have hkeysNodup : (Node.statementKeys leaders).Nodup :=
    (List.filter_sublist.map Node.identity).nodup hnodup
  have hmem : key ∈ Node.statementKeys leaders ↔ key ∈ Node.statementKeys nodes := by
    simp only [Node.statementKeys, List.mem_map, List.mem_filter, Bool.not_eq_true']
    constructor
    · rintro ⟨l, ⟨hl, hblock⟩, rfl⟩
      exact ⟨l, ⟨Node.mem_sorted.1 (hsub.subset hl), hblock⟩, rfl⟩
    · rintro ⟨n, ⟨hn, hblock⟩, rfl⟩
      have hn := Node.mem_sorted.2 hn
      obtain ⟨l, hl, hid⟩ := List.mem_map.1 (hcovers n hn)
      have hl' := hsub.subset hl
      refine ⟨l, ⟨hl, ?_⟩, hid⟩
      rw [(hproper l hl').isBlock_eq (hproper n hn) (hkeyed l hl') (hkeyed n hn) hid, hblock]
  rw [hkeys, hkeysNodup.count]
  simp only [hmem]

end Written

/-! ## Merged stylesheets -/

/-- **Merging a plain stylesheet whose blocks are the same by their heads neither loses, doubles nor
makes up anything along any chain of heads: the blocks of a head become one, with the declarations
they had together, and each statement is there once.** -/
theorem reassemble_conserves {s : Text} (h : isPlain s = true)
    (hkeyed : ∀ n ∈ (Forest.ofText s).nodes, n.Everywhere Node.IsKeyedByHead)
    (chain : List Text) (head key : Text) :
    (Node.headed (Node.reach Node.headed (Forest.ofText (reassemble s .merge)).nodes chain)
        head).length =
      (if Node.counted (Node.reach Node.counted (Forest.ofText s).nodes chain) head = [] then 0
        else 1) ∧
    Node.declared (Forest.ofText (reassemble s .merge)).nodes chain head =
      Node.declared (Forest.ofText s).nodes chain head ∧
    (Node.statementKeys (Node.reach Node.headed (Forest.ofText (reassemble s .merge)).nodes
        chain)).count key =
      (if key ∈ Node.statementKeys (Node.reach Node.counted (Forest.ofText s).nodes chain) then 1
        else 0) := by
  obtain ⟨nodes, left, hreads⟩ := exists_reads h
  have hsorted : Node.sorted (Forest.ofText s).nodes = (Forest.ofText s).nodes :=
    Node.sorted_of_pairwise (Node.pairwise_sorted _)
  have hwritten : Written (Forest.ofText s).nodes (Forest.ofText (reassemble s .merge)).nodes :=
    ⟨hreads.sound_ofText, hkeyed, by rw [hsorted, outlines_reassemble h]⟩
  have hreach := hwritten.reach chain
  refine ⟨hreach.length_headed head, ?_, hreach.count_statementKeys key⟩
  rw [Node.declared, Node.declared, hwritten.reach_eq]
  exact hreach.ofBodies_counted head

/-- Of keyframes with the same head the last ones are kept. -/
theorem reassemble_conserves_keyframes :
    isPlain ("@keyframes a\x7btop:0\x7d" ++ "@keyframes a\x7bleft:0\x7d") = true ∧
    Node.declared (Forest.ofText (reassemble ("@keyframes a\x7btop:0\x7d" ++
      "@keyframes a\x7bleft:0\x7d") .merge)).nodes [] "@keyframes a" =
        [(("left" : Text), ("0" : Text))] := by
  have hplain : isPlain ("@keyframes a\x7btop:0\x7d" ++ "@keyframes a\x7bleft:0\x7d") = true := by
    decide
  have htext : ("@keyframes a\x7btop:0\x7d" ++ "@keyframes a\x7bleft:0\x7d" : Text) =
      "@keyframes a" ++ '\x7b' :: ("top:0" ++ '\x7d' :: ("@keyframes a" ++ '\x7b' ::
        ("left:0" ++ '\x7d' :: []))) := by
    decide
  have hhead : Flat "@keyframes a" := ⟨by decide, by decide⟩
  have hreads := Reads.block hhead (by decide) (.text (s := "top:0") ⟨by decide, by decide⟩)
    (.block hhead (by decide) (.text (s := "left:0") ⟨by decide, by decide⟩)
      (.text (s := []) ⟨rfl, rfl⟩))
  rw [← htext] at hreads
  have hkeyed : ∀ n ∈ (Forest.ofText ("@keyframes a\x7btop:0\x7d" ++
      "@keyframes a\x7bleft:0\x7d")).nodes, n.Everywhere Node.IsKeyedByHead := by
    intro n hn
    rw [hreads.ofText_eq, Node.mem_sorted, List.mem_cons, List.mem_singleton] at hn
    rcases hn with rfl | rfl
    all_goals exact Node.everywhere_ofBlock (fun _ => by decide) (by simp)
  refine ⟨hplain, (reassemble_conserves hplain hkeyed [] "@keyframes a" "").2.1.trans ?_⟩
  rw [hreads.ofText_eq, Node.sorted_of_pairwise (by decide)]
  decide

end UtilitySheet.Sheet
