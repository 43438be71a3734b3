import UtilitySheet.Proofs.Identity

/-!
# Merging a merged stylesheet

Merging again changes nothing if and only if no two siblings of the merged stylesheet are the same,
at any depth (`merged_eq_iff`). That is so wherever blocks are the same by their heads
(`Node.Distinct.of_merged`). It is not so in general: a font whose source is declared twice is the
same as others by the first source while it is read, and by the last one once it is written.
-/

namespace UtilitySheet.Sheet

open Text

namespace Node

/-- Siblings no two of which are the same, at any depth. -/
inductive Distinct : List Node → Prop
  | intro {nodes : List Node} : (nodes.map identity).Nodup →
      (∀ n ∈ nodes, Distinct n.children) → Distinct nodes

theorem Distinct.nil : Distinct [] := .intro List.nodup_nil fun _ hn => absurd hn List.not_mem_nil

end Node

/-! ## Groups of distinct siblings -/

theorem Group.ofNodes_of_nodup {nodes : List Node} (h : (nodes.map Node.identity).Nodup) :
    ofNodes nodes = nodes.map single := by
  have hfold : ∀ groups : List (Text × Group),
      (groups.map Prod.fst ++ nodes.map Node.identity).Nodup →
      nodes.foldl add groups = groups ++ nodes.map fun n => (n.identity, single n) := by
    clear h
    induction nodes with
    | nil => exact fun groups _ => by rw [List.foldl_nil, List.map_nil, List.append_nil]
    | cons n nodes ih =>
      intro groups hnodup
      rw [List.map_cons] at hnodup
      have hnew : n.identity ∉ groups.map Prod.fst :=
        fun hmem => (List.nodup_append.1 hnodup).2.2 _ hmem _ List.mem_cons_self rfl
      rw [List.foldl_cons, add_of_not_mem hnew, ih, List.map_cons, List.append_assoc,
        List.singleton_append]
      rwa [List.map_append, List.append_assoc]
  rw [ofNodes, hfold [] h, List.nil_append, List.map_map]
  rfl

/-- Siblings with as many groups as there are nodes are distinct. -/
theorem Group.nodup_of_length_ofNodes {nodes : List Node}
    (h : (ofNodes nodes).length = nodes.length) : (nodes.map Node.identity).Nodup := by
  obtain ⟨leaders, hsub, hnodup, -, hleads⟩ := exists_leaders nodes
  rw [← hsub.eq_of_length (hleads.length_eq.symm.trans h)]
  exact hnodup

theorem Node.Proper.pairwise_children {n : Node} (h : n.Proper) :
    n.children.Pairwise fun a b => a.priority ≤ b.priority := by
  cases h with
  | statement _ => exact .nil
  | block _ _ _ hsorted => exact hsorted

/-- A node is merged into its outline if and only if the nodes inside it are. -/
theorem Group.outline_single_iff {n : Node} (h : n.Proper) :
    (single n).outline = n.outline ↔ merged n.children = n.children.map Node.outline := by
  cases n with
  | statement text => exact ⟨fun _ => rfl, fun _ => rfl⟩
  | leaf _ _ _ | nest _ _ _ _ =>
    rw [Node.outline_of_isBlock rfl, single, outline_blocks, List.flatMap_singleton,
      List.flatMap_singleton, Node.sorted_of_pairwise h.pairwise_children]
    · exact ⟨fun heq => (Outline.rule.inj heq).2.2, fun heq => by rw [heq]⟩
    · rintro text ⟨⟩

theorem merged_eq_map_iff (nodes : List Node) :
    merged nodes = nodes.map Node.outline ↔ (nodes.map Node.identity).Nodup ∧
      ∀ n ∈ nodes, (Group.single n).outline = n.outline := by
  rw [merged_eq]
  constructor
  · intro heq
    have hlength : (Group.ofNodes nodes).length = nodes.length := by
      simpa using congrArg List.length heq
    have hnodup := Group.nodup_of_length_ofNodes hlength
    rw [Group.ofNodes_of_nodup hnodup, List.map_map, List.map_inj_left] at heq
    exact ⟨hnodup, heq⟩
  · rintro ⟨hnodup, heq⟩
    rw [Group.ofNodes_of_nodup hnodup, List.map_map, List.map_inj_left]
    exact heq

theorem Node.distinct_iff {nodes : List Node} :
    Distinct nodes ↔ (nodes.map identity).Nodup ∧ ∀ n ∈ nodes, Distinct n.children := by
  constructor
  · rintro ⟨hnodup, hinside⟩
    exact ⟨hnodup, hinside⟩
  · rintro ⟨hnodup, hinside⟩
    exact .intro hnodup hinside

/-- **Sound siblings keep their outlines if and only if they are distinct.** -/
theorem merged_eq_iff {nodes : List Node} (h : ∀ n ∈ nodes, n.Everywhere Node.Proper) :
    merged nodes = nodes.map Node.outline ↔ Node.Distinct nodes := by
  induction nodes using Node.pool_induction with
  | nil => exact ⟨fun _ => .nil, fun _ => rfl⟩
  | step nodes ih =>
    rw [merged_eq_map_iff, Node.distinct_iff]
    refine and_congr_right fun _ => forall₂_congr ?_
    intro n hn
    -- What is inside a node is the pool of this node alone.
    have hpool := ih [n] (by simpa using hn)
    rw [List.flatMap_singleton, Node.sorted_of_pairwise (h n hn).here.pairwise_children] at hpool
    rw [Group.outline_single_iff (h n hn).here, hpool (h n hn).inside]

/-- **Siblings that are the same by their heads are written as distinct ones.** -/
theorem Node.Distinct.of_merged {nodes ns : List Node}
    (hkeyed : ∀ n ∈ nodes, n.Everywhere Node.IsKeyedByHead)
    (h : ns.map Node.outline = merged nodes) : Node.Distinct ns := by
  induction nodes using Node.pool_induction generalizing ns with
  | nil =>
    obtain rfl := List.map_eq_nil_iff.1 h
    exact .nil
  | step nodes ih =>
    obtain ⟨leaders, -, hnodup, -, hmerges⟩ := exists_leaders_of_merged h
    have hidentities : ns.map Node.identity = leaders.map Node.identity :=
      map_eq_of_forall₂ hmerges fun n l hnl => hnl.identity_eq (hkeyed l hnl.mem).here
    refine .intro (hidentities ▸ hnodup) ?_
    intro n hn
    obtain ⟨l, -, g, houtline, hleads⟩ := exists_of_forall₂ hmerges hn
    cases g with
    | statement text =>
      cases n with
      | statement _ => exact .nil
      | leaf _ _ _ | nest _ _ _ _ => cases houtline
    | blocks head members =>
      have hmembers : ∀ m ∈ members, m ∈ nodes := fun m hm => (hleads.mem_of_mem m hm).1
      rw [Group.outline_blocks] at houtline
      refine ih members hmembers ?_ (Node.of_outline_eq_rule houtline).2.2
      intro c hc
      exact Node.Everywhere.pool hkeyed hmembers c (Node.mem_sorted.1 hc)

/-! ## Merged stylesheets -/

theorem reassemble_merge_eq {s left : Text} {nodes : List Node} (h : Reads s nodes left)
    (hsorted : nodes.Pairwise fun a b => a.priority ≤ b.priority) :
    reassemble s .merge = Outline.renderAll 0 (merged nodes) := by
  rw [reassemble, write_merge, h.ofText_eq, Node.sorted_of_pairwise hsorted]

/-- **Merging a merged plain stylesheet changes nothing if and only if no two siblings in it are the
same, at any depth. No two are if all blocks of the stylesheet are the same by their heads.** -/
theorem reassemble_reassemble {s : Text} (h : isPlain s = true) :
    (reassemble (reassemble s .merge) .merge = reassemble s .merge ↔
      Node.Distinct (Forest.ofText (reassemble s .merge)).nodes) ∧
    ((∀ n ∈ (Forest.ofText s).nodes, n.Everywhere Node.IsKeyedByHead) →
      reassemble (reassemble s .merge) .merge = reassemble s .merge) := by
  obtain ⟨nodes, left, hs⟩ := exists_reads h
  obtain ⟨ns, left', hreads, -⟩ := exists_reads_reassemble h
  have houtlines := outlines_reassemble h
  have hproper := hreads.sound_ofText
  have hiff : reassemble (reassemble s .merge) .merge = reassemble s .merge ↔
      Node.Distinct (Forest.ofText (reassemble s .merge)).nodes := by
    rw [← merged_eq_iff hproper]
    have hagain : reassemble (reassemble s .merge) .merge =
        Outline.renderAll 0 (merged (Forest.ofText (reassemble s .merge)).nodes) :=
      write_merge _
    have honce : reassemble s .merge =
        Outline.renderAll 0 ((Forest.ofText (reassemble s .merge)).nodes.map Node.outline) := by
      rw [houtlines]
      exact write_merge _
    constructor
    · intro heq
      refine Outline.renderAll_injective (merged_sound hproper) ?_ ?_
      · rw [houtlines]
        exact merged_sound hs.sound_ofText
      · rw [← hagain, heq, ← honce]
    · intro heq
      rw [hagain, heq, ← honce]
  exact ⟨hiff, fun hkeyed => hiff.2 (.of_merged hkeyed houtlines)⟩

theorem reassemble_reassemble_repeated_rule :
    isPlain (".b\x7bcolor:red\x7d" ++ ".b\x7bcolor:blue\x7d") = true ∧
      reassemble (reassemble (".b\x7bcolor:red\x7d" ++ ".b\x7bcolor:blue\x7d") .merge) .merge =
        reassemble (".b\x7bcolor:red\x7d" ++ ".b\x7bcolor:blue\x7d") .merge := by
  have hplain : isPlain (".b\x7bcolor:red\x7d" ++ ".b\x7bcolor:blue\x7d") = true := by
    decide
  have htext : (".b\x7bcolor:red\x7d" ++ ".b\x7bcolor:blue\x7d" : Text) =
      ".b" ++ '\x7b' :: ("color:red" ++ '\x7d' :: (".b" ++ '\x7b' ::
        ("color:blue" ++ '\x7d' :: []))) := by
    decide
  have hhead : Flat ".b" := ⟨by decide, by decide⟩
  have hreads := Reads.block hhead (by decide) (.text (s := "color:red") ⟨by decide, by decide⟩)
    (.block hhead (by decide) (.text (s := "color:blue") ⟨by decide, by decide⟩)
      (.text (s := []) ⟨rfl, rfl⟩))
  rw [← htext] at hreads
  refine ⟨hplain, (reassemble_reassemble hplain).2 fun n hn => ?_⟩
  rw [hreads.ofText_eq, Node.mem_sorted, List.mem_cons, List.mem_singleton] at hn
  rcases hn with rfl | rfl
  all_goals exact Node.everywhere_ofBlock (fun _ => by decide) (by simp)

/-- Two fonts that differ in the first of their sources only are written as two rules, and these are
read as one. -/
theorem reassemble_reassemble_fails : ¬ ∀ s : Text, isPlain s = true →
    reassemble (reassemble s .merge) .merge = reassemble s .merge := by
  intro h
  have hfont : Flat "@font-face" := ⟨by decide, by decide⟩
  have hlast : Reads "src:c" [] "src:c" := .text ⟨by decide, by decide⟩
  have hreads := Reads.block hfont (by decide)
    (.semicolon (s := "src:a") ⟨by decide, by decide⟩ (by decide) hlast)
    (.block hfont (by decide)
      (.semicolon (s := "src:b") ⟨by decide, by decide⟩ (by decide) hlast)
      (.text (s := []) ⟨rfl, rfl⟩))
  have hplain : isPlain ("@font-face" ++ '\x7b' :: (("src:a" ++ ';' :: "src:c") ++ '\x7d' ::
      ("@font-face" ++ '\x7b' :: (("src:b" ++ ';' :: "src:c") ++ '\x7d' :: [])))) = true := by
    decide
  -- Each of the two has the source `c` only once it is written.
  have hline : Reads ("\n\tsrc: c" ++ ';' :: "\n") [] ("\n\tsrc: c" ++ ';' :: "\n") :=
    .semicolon ⟨by decide, by decide⟩ (by decide) (.text ⟨by decide, by decide⟩)
  have hreads' := Reads.block hfont (by decide) hline
    (.block (s := "\n\n@font-face") ⟨by decide, by decide⟩ (by decide) hline
      (.text (s := []) ⟨rfl, rfl⟩))
  have honce : reassemble _ .merge =
      "@font-face" ++ '\x7b' :: (("\n\tsrc: c" ++ ';' :: "\n") ++ '\x7d' ::
        ("\n\n@font-face" ++ '\x7b' :: (("\n\tsrc: c" ++ ';' :: "\n") ++ '\x7d' :: []))) :=
    (reassemble_merge_eq hreads (by decide)).trans (by decide)
  have htwice := h _ hplain
  rw [honce, reassemble_merge_eq hreads' (by decide)] at htwice
  revert htwice
  decide

end UtilitySheet.Sheet
