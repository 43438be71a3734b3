import UtilitySheet.Proofs.Outline

/-!
# What merging writes

The nodes that are read from a plain text are sound (`Reads.sound`), and merging sound siblings
gives sound outlines in priority order (`merged_sound`). So a merged plain stylesheet is read back
as nodes of just the outlines that were written (`outlines_reassemble`).
-/

namespace UtilitySheet.Sheet

open Text

namespace Node

/-- What holds of a node and of all nodes inside it. -/
inductive Everywhere (P : Node → Prop) : Node → Prop
  | intro {n : Node} : P n → (∀ c ∈ n.children, Everywhere P c) → Everywhere P n

theorem Everywhere.here {P : Node → Prop} {n : Node} : Everywhere P n → P n
  | intro h _ => h

theorem Everywhere.inside {P : Node → Prop} {n : Node} :
    Everywhere P n → ∀ c ∈ n.children, Everywhere P c
  | intro _ h => h

theorem Everywhere.imp {P Q : Node → Prop} (hpq : ∀ n, P n → Q n) {n : Node}
    (h : n.Everywhere P) : n.Everywhere Q := by
  induction h with
  | intro h _ ih => exact .intro (hpq _ h) ih

theorem Everywhere.and {P Q : Node → Prop} {n : Node} (hp : n.Everywhere P)
    (hq : n.Everywhere Q) : n.Everywhere fun n => P n ∧ Q n := by
  induction hp with
  | intro hp _ ih => exact .intro ⟨hp, hq.here⟩ fun c hc => ih c hc (hq.inside c hc)

/-- What holds of siblings holds of the pooled children of some of them. -/
theorem Everywhere.pool {P : Node → Prop} {nodes members : List Node}
    (h : ∀ n ∈ nodes, Everywhere P n) (hmembers : ∀ m ∈ members, m ∈ nodes) :
    ∀ n ∈ members.flatMap children, Everywhere P n := by
  intro n hn
  obtain ⟨m, hm, hchild⟩ := List.mem_flatMap.1 hn
  exact (h m (hmembers m hm)).inside n hchild

/-- What a node that is read from a plain text looks like by itself. -/
inductive Proper : Node → Prop
  | statement {s : Text} : IsStatement s → Proper (.statement (s ++ [';']))
  | block {n : Node} : n.isBlock = true → IsHead n.head →
      (∀ body ∈ n.own, ∀ p ∈ Declarations.parts body, Flat p) →
      n.children.Pairwise (fun a b => a.priority ≤ b.priority) → Proper n

/-! ## Blocks that are read -/

theorem isBlock_ofBlock (head body : Text) (nodes : List Node) (own : Text) :
    (ofBlock head body nodes own).isBlock = true := by
  unfold ofBlock
  split <;> rfl

theorem head_ofBlock (head body : Text) (nodes : List Node) (own : Text) :
    (ofBlock head body nodes own).head = normalHead head := by
  unfold ofBlock
  split <;> rfl

theorem children_ofBlock (head body : Text) (nodes : List Node) (own : Text) :
    (ofBlock head body nodes own).children = sorted nodes := by
  cases nodes with
  | nil =>
    rw [sorted_of_pairwise List.Pairwise.nil]
    rfl
  | cons n nodes => rfl

theorem everywhere_ofBlock {P : Node → Prop} {head body own : Text} {nodes : List Node}
    (h : P (ofBlock head body nodes own)) (hnodes : ∀ n ∈ nodes, Everywhere P n) :
    Everywhere P (ofBlock head body nodes own) := by
  refine .intro h ?_
  intro n hn
  rw [children_ofBlock] at hn
  exact hnodes n (mem_sorted.1 hn)

theorem mem_own_ofBlock {head body own : Text} {nodes : List Node} (h : Reads body nodes own)
    {s : Text} (hs : s ∈ (ofBlock head body nodes own).own) : s = own := by
  cases nodes with
  | nil =>
    obtain rfl := h.eq_of_nil
    exact List.mem_singleton.1 hs
  | cons n nodes =>
    have hs : s ∈ (unlessBlank own).toList := hs
    unfold unlessBlank at hs
    split at hs
    · cases hs
    · exact List.mem_singleton.1 hs

end Node

theorem IsStatement.coreOf {s : Text} (hs : Flat s) (h : isStatementText s = true) :
    IsStatement (coreOf s) := by
  obtain ⟨hat, hlone⟩ := Bool.and_eq_true_iff.1 h
  have hflat := (Flat.blanks_append (isBlankText_leadOf s)).1 ((lead_append_core s).symm ▸ hs)
  refine ⟨hflat, ?_⟩
  obtain ⟨t, ht⟩ := List.head?_eq_some_iff.1 (beq_iff_eq.1 hat)
  have hcore : Sheet.coreOf s = '@' :: t := by rw [Sheet.coreOf, if_pos hat, ht]
  rw [hcore] at hlone ⊢
  cases t with
  | nil => cases hlone
  | cons c t => exact ⟨c, t, rfl⟩

theorem IsHead.coreOf {s : Text} (hs : Flat s) (h : isHeadText s = true) :
    IsHead (normalHead (coreOf s)) := by
  have hsame : withoutBlanks (normalHead (Sheet.coreOf s)) = withoutBlanks s := by
    rw [normalHead_coreOf, withoutBlanks_normalHead]
  refine ⟨?_, isHeadText_iff.2 (hsame ▸ isHeadText_iff.1 h), _, rfl⟩
  rw [normalHead_coreOf]
  exact hs.normalHead

/-- **The nodes of a plain text are sound, and so are the parts of the text between them.** -/
theorem Reads.sound {s left : Text} {nodes : List Node} (h : Reads s nodes left) :
    (∀ n ∈ nodes, n.Everywhere Node.Proper) ∧ ∀ p ∈ Declarations.parts left, Flat p := by
  have hlead : ∀ {s left : Text}, (∀ p ∈ Declarations.parts left, Flat p) →
      ∀ p ∈ Declarations.parts (leadOf s ++ left), Flat p := by
    intro s left hleft
    obtain ⟨p, ps, hparts, hlead⟩ :=
      Declarations.parts_blanks_append (isBlankText_leadOf s) left
    rw [hlead, List.forall_mem_cons]
    rw [hparts, List.forall_mem_cons] at hleft
    exact ⟨(Flat.blanks_append (isBlankText_leadOf s)).2 hleft.1, hleft.2⟩
  induction h with
  | text hs =>
    rw [Declarations.parts_flat hs.nested]
    exact ⟨by simp, by simpa using hs⟩
  | semicolon hs _ _ ih =>
    refine ⟨ih.1, ?_⟩
    rw [Declarations.parts_semicolon hs.nested, List.forall_mem_cons]
    exact ⟨hs, ih.2⟩
  | statement hs hst _ ih =>
    refine ⟨List.forall_mem_cons.2 ⟨?_, ih.1⟩, hlead ih.2⟩
    exact .intro (.statement (.coreOf hs hst)) fun _ hc => absurd hc List.not_mem_nil
  | @block s body t inner nodes own left hs hhead hbody _ ihBody ih =>
    refine ⟨List.forall_mem_cons.2 ⟨?_, ih.1⟩, hlead ih.2⟩
    refine Node.everywhere_ofBlock (.block (Node.isBlock_ofBlock _ _ _ _) ?_ ?_ ?_) ihBody.1
    · rw [Node.head_ofBlock]
      exact .coreOf hs hhead
    · intro u hu
      rw [Node.mem_own_ofBlock hbody hu]
      exact ihBody.2
    · rw [Node.children_ofBlock]
      exact Node.pairwise_sorted inner

/-! ## Merged siblings -/

/-- The outlines of what siblings are merged into. -/
def merged (nodes : List Node) : List Outline := Item.outlines (mergeNodes nodes)

/-- The outline of what a group is merged into. -/
def Group.outline (g : Group) : Outline := g.item.outline

/-- Whether the outline is one of a rule. -/
def Outline.isRule : Outline → Bool
  | statement _ => false
  | rule _ _ _ => true

theorem Group.outline_blocks (head : Text) (members : List Node) :
    (Group.blocks head members).outline =
      .rule head (Declarations.ofBodies (members.flatMap Node.own))
        (merged (Node.sorted (members.flatMap Node.children))) := rfl

theorem Group.head_outline (g : Group) : g.outline.head = g.head := by
  cases g <;> rfl

theorem Group.isRule_outline (g : Group) : g.outline.isRule = g.isBlocks := by
  cases g <;> rfl

theorem Node.isRule_outline (n : Node) : n.outline.isRule = n.isBlock := by
  cases n <;> rfl

theorem merged_eq (nodes : List Node) : merged nodes = (Group.ofNodes nodes).map Group.outline := by
  rw [merged, mergeNodes_eq, Item.outlines_eq, List.map_map]
  rfl

/-- What siblings are merged into stands in the order of the leaders. -/
theorem pairwise_merged {nodes : List Node}
    (h : nodes.Pairwise fun a b => a.priority ≤ b.priority) :
    (merged nodes).Pairwise fun a b => a.priority ≤ b.priority := by
  obtain ⟨leaders, hsub, -, -, hleads⟩ := Group.exists_leaders nodes
  have hpriorities : (merged nodes).map Outline.priority = leaders.map Node.priority := by
    rw [merged_eq, List.map_map]
    refine map_eq_of_forall₂ hleads ?_
    intro g l hl
    rw [Function.comp_apply, Outline.priority, Group.head_outline, hl.head_eq, Node.priority]
  have hleaders := (h.sublist hsub).map Node.priority fun _ _ hab => hab
  rw [← hpriorities, List.pairwise_map] at hleaders
  exact hleaders

/-- **Sound siblings are merged into sound outlines.** -/
theorem merged_sound {nodes : List Node} (h : ∀ n ∈ nodes, n.Everywhere Node.Proper) :
    ∀ o ∈ merged nodes, o.Sound := by
  induction nodes using Node.pool_induction with
  | nil =>
    intro o ho
    cases ho
  | step nodes ih =>
    intro o ho
    rw [merged_eq] at ho
    obtain ⟨g, hg, rfl⟩ := List.mem_map.1 ho
    obtain ⟨l, hl⟩ := Group.exists_leads hg
    have hproper := (h l hl.mem).here
    cases g with
    | statement text =>
      have hhead : text = l.head := hl.head_eq
      have hisBlock : false = l.isBlock := hl.isBlocks_eq
      cases hproper with
      | statement hs =>
        obtain rfl := hhead
        exact .statement hs
      | block hblock _ _ _ => exact absurd (hisBlock.trans hblock) Bool.false_ne_true
    | blocks head members =>
      have hmembers : ∀ m ∈ members, m ∈ nodes ∧ m.isBlock = true := hl.mem_of_mem
      have hhead : head = l.head := hl.head_eq
      have hisBlock : true = l.isBlock := hl.isBlocks_eq
      have hnodes : ∀ m ∈ members, m ∈ nodes := fun m hm => (hmembers m hm).1
      rw [Group.outline_blocks]
      refine .rule ?_ (.ofBodies ?_) ?_ (pairwise_merged (Node.pairwise_sorted _))
      · cases hproper with
        | statement hs => cases hisBlock
        | block _ hs _ _ => exact hhead ▸ hs
      · intro body hbody
        obtain ⟨m, hm, hown⟩ := List.mem_flatMap.1 hbody
        cases (h m (hnodes m hm)).here with
        | statement hs => cases (hmembers _ hm).2
        | block _ _ hbodies _ => exact hbodies body hown
      · refine ih members hnodes ?_
        intro n hn
        exact Node.Everywhere.pool h hnodes n (Node.mem_sorted.1 hn)

/-! ## Merged stylesheets -/

theorem write_merge (f : Forest) : f.write .merge = Outline.renderAll 0 (merged f.nodes) :=
  Item.renderAll_outlines 0 (mergeNodes f.nodes)

/-- The nodes of a text that reads as nodes are sound. -/
theorem Reads.sound_ofText {s left : Text} {nodes : List Node} (h : Reads s nodes left) :
    ∀ n ∈ (Forest.ofText s).nodes, n.Everywhere Node.Proper := by
  intro n hn
  rw [h.ofText_eq] at hn
  exact h.sound.1 n (Node.mem_sorted.1 hn)

/-- A merged plain stylesheet reads as nodes of the outlines that were written. -/
theorem exists_reads_reassemble {s : Text} (h : isPlain s = true) :
    ∃ nodes left, Reads (reassemble s .merge) nodes left ∧
      nodes.map Node.outline = merged (Forest.ofText s).nodes := by
  obtain ⟨nodes, left, hs⟩ := exists_reads h
  have hsound := merged_sound hs.sound_ofText
  rw [reassemble, write_merge]
  exact Outline.exists_reads hsound

/-- **The nodes of a merged plain stylesheet have the outlines that were written.** -/
theorem outlines_reassemble {s : Text} (h : isPlain s = true) :
    (Forest.ofText (reassemble s .merge)).nodes.map Node.outline =
      merged (Forest.ofText s).nodes := by
  obtain ⟨nodes, left, hs⟩ := exists_reads h
  rw [reassemble, write_merge]
  exact Outline.outlines_ofText (merged_sound hs.sound_ofText)
    (pairwise_merged (Node.pairwise_sorted _))

end UtilitySheet.Sheet
