import UtilitySheet.Proofs.Constructs
import UtilitySheet.Proofs.Idempotence

/-!
# Stylesheets that keep every node

Written node by node, a plain stylesheet is read back with the outlines it had: the same statements
and heads in the same order at every depth, and the same declarations in every block. So writing it
again changes nothing (`reassemble_concat_outlines`). Merging keeps every node, too, just where no
two siblings are the same (`mergeNodes_eq_ofNodes_iff`).
-/

namespace UtilitySheet.Sheet

theorem write_concat (f : Forest) :
    f.write .concat = Outline.renderAll 0 (f.nodes.map Node.outline) := by
  rw [Forest.write, Forest.items, Item.renderAll_outlines, Item.outlines_ofNodes]

/-- The outline of a node that is sound in every depth is sound. -/
theorem Node.sound_outline {n : Node} (h : n.Everywhere Node.Proper) : n.outline.Sound := by
  induction h with
  | @intro n hproper _ ih =>
    cases hproper with
    | statement hs => exact .statement hs
    | block hblock hhead hbodies hsorted =>
      rw [Node.outline_of_isBlock hblock]
      refine .rule hhead (.ofBodies hbodies) ?_ ?_
      · intro o ho
        obtain ⟨c, hc, rfl⟩ := List.mem_map.1 ho
        exact ih c hc
      · rw [List.pairwise_map]
        simpa only [Node.priority_outline] using hsorted

/-- **A plain stylesheet that is written node by node is read back with the outlines it had, at
every depth, and writing it once more changes nothing.** -/
theorem reassemble_concat_outlines {s : Text} (h : isPlain s = true) :
    (Forest.ofText (reassemble s .concat)).nodes.map Node.outline =
      (Forest.ofText s).nodes.map Node.outline ∧
    reassemble (reassemble s .concat) .concat = reassemble s .concat := by
  obtain ⟨nodes, left, hreads⟩ := exists_reads h
  have hsound : ∀ o ∈ (Forest.ofText s).nodes.map Node.outline, o.Sound := by
    intro o ho
    obtain ⟨n, hn, rfl⟩ := List.mem_map.1 ho
    exact Node.sound_outline (hreads.sound_ofText n hn)
  have hnodes : (Forest.ofText s).nodes.Pairwise fun a b => a.priority ≤ b.priority :=
    Node.pairwise_sorted _
  have hsorted : ((Forest.ofText s).nodes.map Node.outline).Pairwise
      fun a b => a.priority ≤ b.priority := by
    simpa only [List.pairwise_map, Node.priority_outline] using hnodes
  have houtlines : (Forest.ofText (reassemble s .concat)).nodes.map Node.outline =
      (Forest.ofText s).nodes.map Node.outline := by
    rw [reassemble, write_concat]
    exact Outline.outlines_ofText hsound hsorted
  refine ⟨houtlines, ?_⟩
  calc reassemble (reassemble s .concat) .concat
      = Outline.renderAll 0 ((Forest.ofText (reassemble s .concat)).nodes.map Node.outline) :=
        write_concat _
    _ = Outline.renderAll 0 ((Forest.ofText s).nodes.map Node.outline) := by rw [houtlines]
    _ = reassemble s .concat := (write_concat _).symm

/-- Selectors at a comma, a semicolon in parentheses, a property declared twice, and a declaration
behind a nested rule. -/
theorem reassemble_concat_outlines_nested :
    isPlain ".a , .b\x7btop:url(x;y);.c\x7b\x7d top:2\x7d" = true ∧
    (Forest.ofText (reassemble ".a , .b\x7btop:url(x;y);.c\x7b\x7d top:2\x7d" .concat)).nodes.map
        Node.outline =
      (Forest.ofText ".a , .b\x7btop:url(x;y);.c\x7b\x7d top:2\x7d").nodes.map Node.outline ∧
    reassemble (reassemble ".a , .b\x7btop:url(x;y);.c\x7b\x7d top:2\x7d" .concat) .concat =
      reassemble ".a , .b\x7btop:url(x;y);.c\x7b\x7d top:2\x7d" .concat := by
  have hplain : isPlain ".a , .b\x7btop:url(x;y);.c\x7b\x7d top:2\x7d" = true := by
    decide
  exact ⟨hplain, reassemble_concat_outlines hplain⟩

/-! ## Siblings that merging leaves apart -/

theorem Item.ofNode_of_isBlock {n : Node} (h : n.isBlock = true) :
    Item.ofNode n = .rule n.head n.own (Item.ofNodes n.children) := by
  cases n with
  | statement text => cases h
  | leaf _ _ _ | nest _ _ _ _ => rfl

theorem Group.single_of_isBlock {n : Node} (h : n.isBlock = true) :
    single n = .blocks n.head [n] := by
  cases n with
  | statement text => cases h
  | leaf _ _ _ | nest _ _ _ _ => rfl

/-- A group of one node is written like the node if and only if what is inside the node is. -/
theorem Group.item_single_iff {n : Node}
    (h : n.children.Pairwise fun a b => a.priority ≤ b.priority) :
    (single n).item = Item.ofNode n ↔ mergeNodes n.children = Item.ofNodes n.children := by
  have hitem : n.isBlock = true → (single n).item = .rule n.head n.own (mergeNodes n.children) := by
    intro hblock
    rw [single_of_isBlock hblock, item, List.flatMap_singleton, List.flatMap_singleton,
      Node.sorted_of_pairwise h]
  cases n with
  | statement text => exact ⟨fun _ => rfl, fun _ => rfl⟩
  | leaf _ _ _ | nest _ _ _ _ =>
    rw [hitem rfl, Item.ofNode_of_isBlock rfl, Item.rule.injEq]
    simp only [true_and]

theorem mergeNodes_eq_ofNodes_iff {nodes : List Node}
    (h : ∀ n ∈ nodes, n.Everywhere Node.IsRead) :
    mergeNodes nodes = Item.ofNodes nodes ↔ Node.Distinct nodes := by
  induction nodes using Node.pool_induction with
  | nil => exact ⟨fun _ => .nil, fun _ => rfl⟩
  | step nodes ih =>
    have hsingle : ∀ n ∈ nodes,
        ((Group.single n).item = Item.ofNode n ↔ Node.Distinct n.children) := by
      intro n hn
      have hsorted := (h n hn).here.pairwise_children
      -- What is inside a node is the pool of this node alone.
      have hpool := ih [n] (by simpa using hn)
      rw [List.flatMap_singleton, Node.sorted_of_pairwise hsorted] at hpool
      rw [Group.item_single_iff hsorted, hpool (h n hn).inside]
    rw [mergeNodes_eq, Item.ofNodes_eq_map, Node.distinct_iff]
    constructor
    · intro heq
      have hlength : (Group.ofNodes nodes).length = nodes.length := by
        simpa using congrArg List.length heq
      have hnodup := Group.nodup_of_length_ofNodes hlength
      rw [Group.ofNodes_of_nodup hnodup, List.map_map, List.map_inj_left] at heq
      exact ⟨hnodup, fun n hn => (hsingle n hn).1 (heq n hn)⟩
    · rintro ⟨hnodup, hinside⟩
      rw [Group.ofNodes_of_nodup hnodup, List.map_map, List.map_inj_left]
      exact fun n hn => (hsingle n hn).2 (hinside n hn)

/-- **Merging a stylesheet in which no two siblings are the same, at any depth, writes it node by
node.** -/
theorem reassemble_merge_of_distinct {s : Text} (h : Node.Distinct (Forest.ofText s).nodes) :
    reassemble s .merge = reassemble s .concat := by
  have hread : ∀ n ∈ (Forest.ofText s).nodes, n.Everywhere Node.IsRead := by
    intro n hn
    exact isRead_readNodes _ n (Node.mem_sorted.1 hn)
  have hitems : (Forest.ofText s).items .merge = (Forest.ofText s).items .concat :=
    (mergeNodes_eq_ofNodes_iff hread).2 h
  rw [reassemble, reassemble, Forest.write, Forest.write, hitems]

/-- The same rule in two rules that differ. -/
theorem reassemble_merge_of_distinct_nested :
    Node.Distinct (Forest.ofText ("@media a\x7b.b\x7btop:1\x7d.c\x7b\x7d\x7d" ++
      "@media d\x7b.b\x7btop:2\x7d\x7d")).nodes ∧
    reassemble ("@media a\x7b.b\x7btop:1\x7d.c\x7b\x7d\x7d" ++
        "@media d\x7b.b\x7btop:2\x7d\x7d") .merge =
      reassemble ("@media a\x7b.b\x7btop:1\x7d.c\x7b\x7d\x7d" ++
        "@media d\x7b.b\x7btop:2\x7d\x7d") .concat := by
  have htext : ("@media a\x7b.b\x7btop:1\x7d.c\x7b\x7d\x7d" ++
        "@media d\x7b.b\x7btop:2\x7d\x7d" : Text) =
      "@media a" ++ '\x7b' :: ((".b" ++ '\x7b' :: ("top:1" ++ '\x7d' ::
          (".c" ++ '\x7b' :: ([] ++ '\x7d' :: [])))) ++ '\x7d' ::
        ("@media d" ++ '\x7b' :: ((".b" ++ '\x7b' :: ("top:2" ++ '\x7d' :: [])) ++ '\x7d' ::
          []))) := by
    decide
  have hnil : Reads [] [] [] := .text ⟨rfl, rfl⟩
  have hb : Flat ".b" := ⟨by decide, by decide⟩
  have hreads := Reads.block (s := "@media a") ⟨by decide, by decide⟩ (by decide)
    (.block hb (by decide) (.text (s := "top:1") ⟨by decide, by decide⟩)
      (.block (s := ".c") ⟨by decide, by decide⟩ (by decide) hnil hnil))
    (.block (s := "@media d") ⟨by decide, by decide⟩ (by decide)
      (.block hb (by decide) (.text (s := "top:2") ⟨by decide, by decide⟩) hnil) hnil)
  rw [← htext] at hreads
  have hdistinct : Node.Distinct (Forest.ofText ("@media a\x7b.b\x7btop:1\x7d.c\x7b\x7d\x7d" ++
      "@media d\x7b.b\x7btop:2\x7d\x7d")).nodes := by
    rw [hreads.ofText_eq, Node.sorted_of_pairwise (by decide)]
    have hleaves : ∀ nodes : List Node, (nodes.Pairwise fun a b => a.priority ≤ b.priority) →
        (nodes.map Node.identity).Nodup → (∀ n ∈ nodes, n.children.isEmpty = true) →
        Node.Distinct (Node.sorted nodes) := by
      intro nodes hsorted hnodup hempty
      rw [Node.sorted_of_pairwise hsorted]
      refine .intro hnodup fun n hn => ?_
      rw [List.isEmpty_iff.1 (hempty n hn)]
      exact .nil
    refine .intro (by decide) ?_
    simp only [List.forall_mem_cons]
    exact ⟨hleaves _ (by decide) (by decide) (by decide),
      hleaves _ (by decide) (by decide) (by decide), by simp⟩
  exact ⟨hdistinct, reassemble_merge_of_distinct hdistinct⟩

end UtilitySheet.Sheet
