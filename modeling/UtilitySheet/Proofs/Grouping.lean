import Mathlib.Data.List.Forall2
import Mathlib.Data.List.Nodup
import Mathlib.Data.List.Induction
import UtilitySheet.Proofs.Sorting
import UtilitySheet.Sheet.Reassembly

/-!
# Groups of the same nodes

Siblings fall into groups by their identities. Each group has a leader, its first node; the leaders
stand in the order of the siblings (`Group.exists_leaders`), and what a group holds is found among
the siblings of its identity. The items of siblings are those of their groups, on every level
(`mergeNodes_eq`).
-/

namespace UtilitySheet.Sheet

/-! ## Lists in step -/

section Forall₂

variable {α β γ δ : Type} {as : List α} {bs : List β}

theorem exists_of_forall₂ {R : α → β → Prop} (h : List.Forall₂ R as bs) {a : α} (ha : a ∈ as) :
    ∃ b ∈ bs, R a b := by
  induction h with
  | nil => cases ha
  | @cons _ b _ _ hab _ ih =>
    rcases List.mem_cons.1 ha with rfl | ha
    · exact ⟨b, List.mem_cons_self, hab⟩
    · exact (ih ha).imp fun _ h => ⟨List.mem_cons_of_mem _ h.1, h.2⟩

theorem map_eq_of_forall₂ {f : α → γ} {g : β → γ} {R : α → β → Prop}
    (h : List.Forall₂ R as bs) (hR : ∀ a b, R a b → f a = g b) : as.map f = bs.map g := by
  rw [← List.forall₂_eq_eq_eq, List.forall₂_map_left_iff, List.forall₂_map_right_iff]
  exact h.imp hR

theorem forall₂_of_map_eq {f : α → γ} {g : β → γ} {R : β → δ → Prop} {ds : List δ}
    (h : as.map f = bs.map g) (hR : List.Forall₂ R bs ds) :
    List.Forall₂ (fun a d => ∃ b, f a = g b ∧ R b d) as ds := by
  induction hR generalizing as with
  | nil =>
    obtain rfl := List.map_eq_nil_iff.1 h
    exact .nil
  | cons hbd _ ih =>
    obtain ⟨a, as, rfl, hab, has⟩ := List.map_eq_cons_iff.1 h
    exact .cons ⟨_, hab, hbd⟩ (ih has)

end Forall₂

namespace Node

/-! ## Sorting -/

theorem mem_sorted {nodes : List Node} {n : Node} : n ∈ sorted nodes ↔ n ∈ nodes :=
  List.mem_mergeSort

theorem priorityLe_trans (a b c : Node) (hab : decide (a.priority ≤ b.priority) = true)
    (hbc : decide (b.priority ≤ c.priority) = true) : decide (a.priority ≤ c.priority) = true := by
  simp only [decide_eq_true_eq] at *
  omega

theorem priorityLe_total (a b : Node) :
    (decide (a.priority ≤ b.priority) || decide (b.priority ≤ a.priority)) = true := by
  simp only [Bool.or_eq_true, decide_eq_true_eq]
  omega

theorem pairwise_sorted (nodes : List Node) :
    (sorted nodes).Pairwise fun a b => a.priority ≤ b.priority := by
  have h : (sorted nodes).Pairwise fun a b => decide (a.priority ≤ b.priority) = true :=
    List.pairwise_mergeSort priorityLe_trans priorityLe_total nodes
  simpa using h

theorem sorted_of_pairwise {nodes : List Node}
    (h : nodes.Pairwise fun a b => a.priority ≤ b.priority) : sorted nodes = nodes :=
  List.mergeSort_of_pairwise (by simpa using h)

/-- Nodes of one priority keep their order when siblings are sorted. -/
theorem filter_sorted {nodes : List Node} {p : Node → Bool}
    (hp : ∀ a b, p a = true → p b = true → a.priority = b.priority) :
    (sorted nodes).filter p = nodes.filter p := by
  refine filter_mergeSort priorityLe_trans priorityLe_total (fun a b ha hb => ?_) nodes
  simp [hp a b ha hb]

/-! ## Heights -/

theorem height_eq (n : Node) : n.height = heightOfNodes n.children + 1 := by
  cases n <;> simp [height, children, heightOfNodes]

theorem heightOfNodes_le_iff {nodes : List Node} {k : Nat} :
    heightOfNodes nodes ≤ k ↔ ∀ n ∈ nodes, n.height ≤ k := by
  induction nodes with
  | nil => simp [heightOfNodes]
  | cons n nodes ih => rw [heightOfNodes, Nat.max_le, ih, List.forall_mem_cons]

/-- Whether the node is a block. -/
def isBlock : Node → Bool
  | statement _ => false
  | _ => true

end Node

namespace Group

/-! ## Leaders -/

/-- The nodes of an identity. -/
def same (nodes : List Node) (identity : Text) : List Node :=
  nodes.filter (·.identity == identity)

/-- The group that nodes make up, one after the other. -/
def collect : List Node → Option Group
  | [] => none
  | n :: nodes => some (nodes.foldl join (single n))

theorem collect_append {nodes : List Node} {g : Group} (h : collect nodes = some g) (n : Node) :
    collect (nodes ++ [n]) = some (g.join n) := by
  cases nodes with
  | nil => cases h
  | cons m nodes =>
    obtain rfl := Option.some.inj h
    simp [collect]

theorem same_append (nodes : List Node) (n : Node) (identity : Text) :
    same (nodes ++ [n]) identity =
      same nodes identity ++ if n.identity = identity then [n] else [] := by
  simp [same, List.filter_append, List.filter_cons]

/-- What the groups of siblings are: `groups` has one entry for each leader, in order, and the nodes
of its identity make up its group. -/
structure Led (nodes : List Node) (groups : List (Text × Group)) (leaders : List Node) : Prop where
  sublist : leaders.Sublist nodes
  keys : groups.map Prod.fst = leaders.map Node.identity
  nodup : (leaders.map Node.identity).Nodup
  covers : ∀ n ∈ nodes, n.identity ∈ leaders.map Node.identity
  first : ∀ l ∈ leaders, (same nodes l.identity).head? = some l
  collected : ∀ entry ∈ groups, collect (same nodes entry.1) = some entry.2

theorem add_of_not_mem {groups : List (Text × Group)} {n : Node}
    (h : n.identity ∉ groups.map Prod.fst) : add groups n = groups ++ [(n.identity, single n)] := by
  induction groups with
  | nil => rfl
  | cons entry groups ih =>
    simp only [List.map_cons, List.mem_cons, not_or] at h
    obtain ⟨identity, g⟩ := entry
    simp [add, Ne.symm h.1, ih h.2]

theorem map_fst_add_of_mem {groups : List (Text × Group)} {n : Node}
    (h : n.identity ∈ groups.map Prod.fst) :
    (add groups n).map Prod.fst = groups.map Prod.fst := by
  induction groups with
  | nil => cases h
  | cons entry groups ih =>
    obtain ⟨identity, g⟩ := entry
    by_cases hid : identity = n.identity
    · simp [add, hid]
    · have hmem : n.identity ∈ groups.map Prod.fst := by
        simpa [Ne.symm hid] using h
      simp [add, hid, ih hmem]

/-- An entry is as it was, or it is that of the node's identity, which the node has joined. -/
theorem mem_add_of_mem {groups : List (Text × Group)} {n : Node}
    (hnodup : (groups.map Prod.fst).Nodup) (hmem : n.identity ∈ groups.map Prod.fst)
    {entry : Text × Group} (h : entry ∈ add groups n) :
    entry ∈ groups ∧ entry.1 ≠ n.identity ∨
      ∃ g, (n.identity, g) ∈ groups ∧ entry = (n.identity, g.join n) := by
  induction groups with
  | nil => cases hmem
  | cons e groups ih =>
    obtain ⟨identity, g⟩ := e
    simp only [List.map_cons, List.nodup_cons] at hnodup
    by_cases hid : identity = n.identity
    · subst hid
      simp only [add, if_true, List.mem_cons] at h
      rcases h with rfl | h
      · exact .inr ⟨g, List.mem_cons_self, rfl⟩
      · refine .inl ⟨List.mem_cons_of_mem _ h, fun hentry => hnodup.1 ?_⟩
        exact hentry ▸ List.mem_map_of_mem h
    · have hmem' : n.identity ∈ groups.map Prod.fst := by
        simpa [Ne.symm hid] using hmem
      simp only [add, hid, if_false, List.mem_cons] at h
      rcases h with rfl | h
      · exact .inl ⟨List.mem_cons_self, hid⟩
      · rcases ih hnodup.2 hmem' h with ⟨h, hne⟩ | ⟨g', hg', rfl⟩
        · exact .inl ⟨List.mem_cons_of_mem _ h, hne⟩
        · exact .inr ⟨g', List.mem_cons_of_mem _ hg', rfl⟩

theorem same_append_of_ne {n : Node} {identity : Text} (h : n.identity ≠ identity)
    (nodes : List Node) : same (nodes ++ [n]) identity = same nodes identity := by
  rw [same_append, if_neg h, List.append_nil]

/-- One more node joins the group of its identity. -/
theorem Led.joined {nodes : List Node} {groups : List (Text × Group)} {leaders : List Node}
    (h : Led nodes groups leaders) {n : Node} (hmem : n.identity ∈ groups.map Prod.fst) :
    Led (nodes ++ [n]) (Group.add groups n) leaders where
  sublist := h.sublist.trans (List.sublist_append_left _ _)
  keys := by rw [map_fst_add_of_mem hmem, h.keys]
  nodup := h.nodup
  covers := by
    intro m hm
    rcases List.mem_append.1 hm with hm | hm
    · exact h.covers m hm
    · rw [List.mem_singleton.1 hm, ← h.keys]
      exact hmem
  first := by
    intro l hl
    rw [same_append, List.head?_append, h.first l hl]
    rfl
  collected := by
    intro entry hentry
    rcases mem_add_of_mem (h.keys ▸ h.nodup) hmem hentry with ⟨hold, hne⟩ | ⟨g, hg, rfl⟩
    · rw [same_append_of_ne (Ne.symm hne)]
      exact h.collected entry hold
    · rw [same_append, if_pos rfl]
      exact collect_append (h.collected _ hg) n

/-- A node of a new identity leads a group of its own at the end. -/
theorem Led.opened {nodes : List Node} {groups : List (Text × Group)} {leaders : List Node}
    (h : Led nodes groups leaders) {n : Node} (hmem : n.identity ∉ groups.map Prod.fst) :
    Led (nodes ++ [n]) (Group.add groups n) (leaders ++ [n]) := by
  have hfresh : n.identity ∉ leaders.map Node.identity := h.keys ▸ hmem
  have hnone : same nodes n.identity = [] := by
    refine List.filter_eq_nil_iff.2 ?_
    intro m hm hid
    exact hfresh (beq_iff_eq.1 hid ▸ h.covers m hm)
  have hone : same (nodes ++ [n]) n.identity = [n] := by
    rw [same_append, hnone, if_pos rfl, List.nil_append]
  refine ⟨h.sublist.append (List.Sublist.refl _), ?_, ?_, ?_, ?_, ?_⟩
  · rw [add_of_not_mem hmem, List.map_append, List.map_append, h.keys]
    rfl
  · rw [List.map_append, List.nodup_append]
    refine ⟨h.nodup, by simp, ?_⟩
    rintro a ha b hb rfl
    have hb : a = n.identity := by simpa using hb
    exact hfresh (hb ▸ ha)
  · intro m hm
    rw [List.map_append, List.mem_append]
    rcases List.mem_append.1 hm with hm | hm
    · exact .inl (h.covers m hm)
    · exact .inr (List.mem_map_of_mem hm)
  · intro l hl
    rcases List.mem_append.1 hl with hl | hl
    · rw [same_append_of_ne fun heq => hfresh (heq ▸ List.mem_map_of_mem hl)]
      exact h.first l hl
    · rw [List.mem_singleton.1 hl, hone]
      rfl
  · intro entry hentry
    rw [add_of_not_mem hmem] at hentry
    rcases List.mem_append.1 hentry with hold | hnew
    · have hne : n.identity ≠ entry.1 := by
        intro heq
        exact hmem (heq ▸ List.mem_map_of_mem hold)
      rw [same_append_of_ne hne]
      exact h.collected entry hold
    · obtain rfl := List.mem_singleton.1 hnew
      rw [hone]
      rfl

theorem Led.add {nodes : List Node} {groups : List (Text × Group)} {leaders : List Node}
    (h : Led nodes groups leaders) (n : Node) :
    ∃ leaders', Led (nodes ++ [n]) (Group.add groups n) leaders' := by
  by_cases hmem : n.identity ∈ groups.map Prod.fst
  · exact ⟨leaders, h.joined hmem⟩
  · exact ⟨leaders ++ [n], h.opened hmem⟩

theorem exists_led (nodes : List Node) : ∃ leaders, Led nodes (nodes.foldl add []) leaders := by
  induction nodes using List.reverseRecOn with
  | nil => exact ⟨[], List.Sublist.refl _, rfl, List.nodup_nil, by simp, by simp, by simp⟩
  | append_singleton nodes n ih =>
    obtain ⟨leaders, h⟩ := ih
    rw [List.foldl_append]
    exact h.add n

/-- A group among those of siblings and its leader: the first of the nodes that make it up. -/
structure Leads (nodes : List Node) (g : Group) (leader : Node) : Prop where
  first : (same nodes leader.identity).head? = some leader
  collected : collect (same nodes leader.identity) = some g

/-- **The groups of siblings are led by the first nodes of their identities, in order, and hold the
nodes of these identities.** -/
theorem exists_leaders (nodes : List Node) : ∃ leaders : List Node,
    leaders.Sublist nodes ∧ (leaders.map Node.identity).Nodup ∧
    (∀ n ∈ nodes, n.identity ∈ leaders.map Node.identity) ∧
    List.Forall₂ (Leads nodes) (ofNodes nodes) leaders := by
  obtain ⟨leaders, h⟩ := exists_led nodes
  refine ⟨leaders, h.sublist, h.nodup, h.covers, ?_⟩
  have hkeys : List.Forall₂ (fun entry l => entry.1 = l.identity) (nodes.foldl add []) leaders := by
    have hkeys := h.keys
    rwa [← List.forall₂_eq_eq_eq, List.forall₂_map_left_iff, List.forall₂_map_right_iff] at hkeys
  have hentries := (List.forall₂_and_left _ _).2 ⟨h.collected, hkeys⟩
  have hleaders := (List.forall₂_and_left _ _).2 ⟨h.first, hentries.flip⟩
  rw [ofNodes, List.forall₂_map_left_iff]
  refine (hleaders.imp ?_).flip
  rintro l entry ⟨hfirst, hcollected, hkey⟩
  exact ⟨hfirst, hkey ▸ hcollected⟩

/-! ## What is in a group -/

/-- The head of a block, or the text of a statement. -/
def head : Group → Text
  | statement text => text
  | blocks head _ => head

/-- Whether the group is one of blocks. -/
def isBlocks : Group → Bool
  | statement _ => false
  | blocks _ _ => true

/-- A node that joins changes neither the head nor the kind of the group. -/
theorem head_isBlocks_join (g : Group) (n : Node) :
    (g.join n).head = g.head ∧ (g.join n).isBlocks = g.isBlocks := by
  cases g with
  | statement text => exact ⟨rfl, rfl⟩
  | blocks h members =>
    cases n with
    | statement text => exact ⟨rfl, rfl⟩
    | leaf _ _ _ | nest _ _ _ _ =>
      simp only [join]
      split <;> exact ⟨rfl, rfl⟩

theorem head_isBlocks_foldl_join (g : Group) (nodes : List Node) :
    (nodes.foldl join g).head = g.head ∧ (nodes.foldl join g).isBlocks = g.isBlocks := by
  induction nodes generalizing g with
  | nil => exact ⟨rfl, rfl⟩
  | cons n nodes ih =>
    rw [List.foldl_cons, (ih _).1, (ih _).2]
    exact head_isBlocks_join g n

/-- A group has the head of its first node, and is one of blocks if that node is a block. -/
theorem head_isBlocks_collect {nodes : List Node} {g : Group} {n : Node}
    (h : collect nodes = some g) (hn : nodes.head? = some n) :
    g.head = n.head ∧ g.isBlocks = n.isBlock := by
  cases nodes with
  | nil => cases h
  | cons m nodes =>
    obtain rfl := Option.some.inj hn
    obtain rfl := Option.some.inj h
    rw [(head_isBlocks_foldl_join _ _).1, (head_isBlocks_foldl_join _ _).2]
    cases m <;> exact ⟨rfl, rfl⟩

theorem members_foldl_join {g : Group} {nodes : List Node} {P : Node → Prop}
    (hg : ∀ head members, g = blocks head members → ∀ m ∈ members, P m)
    (hnodes : ∀ n ∈ nodes, n.isBlock = true → P n) {head : Text} {members : List Node}
    (h : nodes.foldl join g = blocks head members) : ∀ m ∈ members, P m := by
  induction nodes generalizing g with
  | nil => exact hg head members h
  | cons n nodes ih =>
    refine ih ?_ (fun m hm => hnodes m (List.mem_cons_of_mem _ hm)) h
    have hn := hnodes n List.mem_cons_self
    intro head' members' hjoin
    cases g with
    | statement text => cases hjoin
    | blocks head₀ members₀ =>
      have hold := hg head₀ members₀ rfl
      cases n with
      | statement text =>
        obtain ⟨rfl, rfl⟩ := Group.blocks.inj hjoin
        exact hold
      | leaf _ _ _ | nest _ _ _ _ =>
        simp only [join] at hjoin
        split at hjoin <;> obtain ⟨rfl, rfl⟩ := Group.blocks.inj hjoin
        · intro m hm
          rw [List.mem_singleton.1 hm]
          exact hn rfl
        · intro m hm
          rcases List.mem_append.1 hm with hm | hm
          · exact hold m hm
          · rw [List.mem_singleton.1 hm]
            exact hn rfl

/-- The members of a group are blocks among the nodes that make it up. -/
theorem mem_of_collect {nodes : List Node} {head : Text} {members : List Node}
    (h : collect nodes = some (blocks head members)) :
    ∀ m ∈ members, m ∈ nodes ∧ m.isBlock = true := by
  cases nodes with
  | nil => cases h
  | cons n nodes =>
    refine members_foldl_join (g := single n) ?_
      (fun m hm hblock => ⟨List.mem_cons_of_mem _ hm, hblock⟩) (Option.some.inj h)
    intro head' members' hsingle m hm
    cases n with
    | statement text => cases hsingle
    | leaf _ _ _ | nest _ _ _ _ =>
      obtain ⟨rfl, rfl⟩ := Group.blocks.inj hsingle
      rw [List.mem_singleton.1 hm]
      exact ⟨List.mem_cons_self, rfl⟩

end Group

/-! ## Items of groups -/

/-- The item of a group. -/
def Group.item : Group → Item
  | .statement text => .statement text
  | .blocks head members =>
    .rule head (members.flatMap Node.own)
      (mergeNodes (Node.sorted (members.flatMap Node.children)))

theorem Item.ofNodes_eq_map (nodes : List Node) : Item.ofNodes nodes = nodes.map Item.ofNode := by
  induction nodes with
  | nil => rfl
  | cons n nodes ih => rw [Item.ofNodes, ih, List.map_cons]

theorem heightOfNodes_children {nodes members : List Node} {k : Nat}
    (hmembers : ∀ m ∈ members, m ∈ nodes) (h : Node.heightOfNodes nodes ≤ k + 1) :
    Node.heightOfNodes (Node.sorted (members.flatMap Node.children)) ≤ k := by
  refine Node.heightOfNodes_le_iff.2 fun n hn => ?_
  obtain ⟨m, hm, hchild⟩ := List.mem_flatMap.1 (Node.mem_sorted.1 hn)
  have hparent := Node.heightOfNodes_le_iff.1 h m (hmembers m hm)
  have hn := Node.heightOfNodes_le_iff.1 (Nat.le_refl (Node.heightOfNodes m.children)) n hchild
  rw [Node.height_eq] at hparent
  omega

theorem Group.Leads.mem {nodes : List Node} {g : Group} {l : Node} (h : g.Leads nodes l) :
    l ∈ nodes :=
  List.mem_of_mem_filter (List.mem_of_head? h.first)

theorem Group.Leads.head_eq {nodes : List Node} {g : Group} {l : Node} (h : g.Leads nodes l) :
    g.head = l.head :=
  (head_isBlocks_collect h.collected h.first).1

theorem Group.Leads.isBlocks_eq {nodes : List Node} {g : Group} {l : Node} (h : g.Leads nodes l) :
    g.isBlocks = l.isBlock :=
  (head_isBlocks_collect h.collected h.first).2

theorem Group.Leads.mem_of_mem {nodes members : List Node} {head : Text} {l : Node}
    (h : (Group.blocks head members).Leads nodes l) :
    ∀ m ∈ members, m ∈ nodes ∧ m.isBlock = true := by
  intro m hm
  obtain ⟨hsame, hblock⟩ := mem_of_collect h.collected m hm
  exact ⟨List.mem_of_mem_filter hsame, hblock⟩

/-- Each group of siblings has a leader. -/
theorem Group.exists_leads {nodes : List Node} {g : Group} (h : g ∈ Group.ofNodes nodes) :
    ∃ l, g.Leads nodes l := by
  obtain ⟨leaders, -, -, -, hleads⟩ := Group.exists_leaders nodes
  obtain ⟨l, -, hl⟩ := exists_of_forall₂ hleads h
  exact ⟨l, hl⟩

theorem mem_of_mem_ofNodes {nodes members : List Node} {head : Text}
    (h : Group.blocks head members ∈ Group.ofNodes nodes) :
    ∀ m ∈ members, m ∈ nodes ∧ m.isBlock = true := by
  obtain ⟨l, hl⟩ := Group.exists_leads h
  exact hl.mem_of_mem

theorem eq_nil_of_heightOfNodes {nodes : List Node} (h : Node.heightOfNodes nodes ≤ 0) :
    nodes = [] := by
  cases nodes with
  | nil => rfl
  | cons n nodes =>
    have hn := Node.heightOfNodes_le_iff.1 h n List.mem_cons_self
    rw [Node.height_eq] at hn
    omega

theorem mergeLevels_nil (levels : Nat) : mergeLevels levels [] = [] := by
  cases levels <;> rfl

/-- More levels than there are give no more items. -/
theorem mergeLevels_congr {levels levels' : Nat} {nodes : List Node}
    (h : Node.heightOfNodes nodes ≤ levels) (h' : Node.heightOfNodes nodes ≤ levels') :
    mergeLevels levels nodes = mergeLevels levels' nodes := by
  induction levels generalizing levels' nodes with
  | zero =>
    obtain rfl := eq_nil_of_heightOfNodes h
    rw [mergeLevels_nil, mergeLevels_nil]
  | succ levels ih =>
    cases levels' with
    | zero =>
      obtain rfl := eq_nil_of_heightOfNodes h'
      rw [mergeLevels_nil, mergeLevels_nil]
    | succ levels' =>
      refine List.map_congr_left fun g hg => ?_
      cases g with
      | statement text => rfl
      | blocks head members =>
        have hmembers := fun m hm => (mem_of_mem_ofNodes hg m hm).1
        exact congrArg (Item.rule head _)
          (ih (heightOfNodes_children hmembers h) (heightOfNodes_children hmembers h'))

/-- What holds of siblings if it holds of the pooled children of any of them holds of all
siblings. -/
theorem Node.pool_induction {motive : List Node → Prop} (nil : motive [])
    (step : ∀ nodes, (∀ members : List Node, (∀ m ∈ members, m ∈ nodes) →
      motive (Node.sorted (members.flatMap Node.children))) → motive nodes)
    (nodes : List Node) : motive nodes := by
  have hlevels : ∀ k nodes, Node.heightOfNodes nodes ≤ k → motive nodes := by
    intro k
    induction k with
    | zero =>
      intro nodes h
      obtain rfl := eq_nil_of_heightOfNodes h
      exact nil
    | succ k ih =>
      exact fun nodes h => step nodes fun members hmembers =>
        ih _ (heightOfNodes_children hmembers h)
  exact hlevels _ nodes (Nat.le_refl _)

/-- **The items of siblings are those of their groups; inside a group the pooled children are sorted
and merged in the same way.** -/
theorem mergeNodes_eq (nodes : List Node) :
    mergeNodes nodes = (Group.ofNodes nodes).map Group.item := by
  rw [mergeNodes, mergeLevels_congr (Nat.le_refl _) (Nat.le_succ _), mergeLevels]
  refine List.map_congr_left fun g hg => ?_
  cases g with
  | statement text => rfl
  | blocks head members =>
    have hmembers := fun m hm => (mem_of_mem_ofNodes hg m hm).1
    exact congrArg (Item.rule head _) (mergeLevels_congr
      (heightOfNodes_children hmembers (Nat.le_succ _)) (Nat.le_refl _))

end UtilitySheet.Sheet
