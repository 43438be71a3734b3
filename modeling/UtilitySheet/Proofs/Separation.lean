import UtilitySheet.Proofs.MandatedOrder

/-!
# A statement is never the same as a block

The identity of a statement ends with a semicolon that nothing guards. No identity of a block does:
that of a head has guarded semicolons only, that of a font ends with its head or with a source,
which has no semicolon, and that of a whole block has a brace (`Node.Braced.identity_ne`). So nodes
of one stylesheet that are the same are both statements or both blocks, however deep they stand, and
merging never meets a block that has to join a statement. Main statement: `mergeNodes?_ofText`.
-/

namespace UtilitySheet.Sheet

open Text

/-! ## Identities -/

namespace Node

/-- The identity of a block is its head, or its text, or its head with a source. -/
theorem identity_block {n : Node} (hblock : n.isBlock = true) :
    n.identity = n.head ∨ n.identity = bareText n.written ∨
      ∃ source, source? n.written = some source ∧
        n.identity = withoutBlanks n.head ++ source := by
  cases n with
  | statement text => cases hblock
  | leaf head written _ | nest head written _ _ =>
    simp only [identity, Node.head, Node.written]
    split
    · exact .inl rfl
    · exact .inr (.inl rfl)
    · split
      · rename_i source hsource
        exact .inr (.inr ⟨source, hsource, rfl⟩)
      · exact .inl rfl

/-- **A block and a statement that are read from any texts are not the same.** -/
theorem Braced.identity_ne {n m : Node} (hn : n.Braced) (hm : m.Braced)
    (hblock : n.isBlock = true) (hstatement : m.isBlock = false) : n.identity ≠ m.identity := by
  rcases identity_block hblock with hid | hid | hid
  · exact hn.read.identity_ne hm.read hblock hstatement (.inl hid)
  · intro heq
    have hbrace : '\x7b' ∈ m.identity := by
      rw [← heq, hid]
      refine mem_dropBeforeBrace (by decide) ?_
      exact List.mem_filter.2 ⟨hn.written hblock, by decide⟩
    have hmem : '\x7b' ∈ withoutBlanks m.head := by
      rw [← withoutBlanks_identity hstatement]
      exact List.mem_filter.2 ⟨hbrace, by decide⟩
    exact (isBraceless_iff.1 hm.head _ (List.mem_of_mem_filter hmem)).1 rfl
  · exact hn.read.identity_ne hm.read hblock hstatement (.inr hid)

end Node

/-! ## Merging with a check -/

namespace Group

/-- The group with one more node, if that is no block that joins a statement. -/
def join? (g : Group) (n : Node) : Option Group :=
  if n.isBlock && !g.isBlocks then none else some (g.join n)

/-- The groups by identity with one more node, if it can join the group of its identity. -/
def add? (groups : List (Text × Group)) (n : Node) : Option (List (Text × Group)) :=
  match groups with
  | [] => some [(n.identity, single n)]
  | (identity, g) :: groups =>
    if identity = n.identity then (g.join? n).map fun g => (identity, g) :: groups
    else (add? groups n).map ((identity, g) :: ·)

/-- The groups of siblings, if no block has to join a statement. -/
def ofNodes? (nodes : List Node) : Option (List Group) :=
  (nodes.foldlM add? []).map (·.map (·.2))

end Group

/-- The items of the first `levels` levels of siblings, if no block has to join a statement on any
of them. -/
def mergeLevels? : (levels : Nat) → List Node → Option (List Item)
  | 0, _ => some []
  | levels + 1, nodes => do
    let groups ← Group.ofNodes? nodes
    groups.mapM fun
      | .statement text => some (.statement text)
      | .blocks head members => do
        let inner ← mergeLevels? levels (Node.sorted (members.flatMap Node.children))
        return .rule head (members.flatMap Node.own) inner

/-- The items of siblings on all levels, if no block has to join a statement. -/
def mergeNodes? (nodes : List Node) : Option (List Item) :=
  mergeLevels? (Node.heightOfNodes nodes) nodes

/-- No block among these nodes, at any depths, is the same as a statement. -/
def Apart (nodes : List Node) : Prop :=
  ∀ n m : Node, n.Within nodes → m.Within nodes → n.isBlock = true → m.isBlock = false →
    n.identity ≠ m.identity

theorem apart_ofText (s : Text) : Apart (Forest.ofText s).nodes := by
  intro n m hn hm
  have hbraced : ∀ n ∈ (Forest.ofText s).nodes, n.Everywhere Node.Braced :=
    fun n hn => braced_readNodes (stripComments s) n (Node.mem_sorted.1 hn)
  exact (hn.of_everywhere hbraced).identity_ne (hm.of_everywhere hbraced)

theorem Apart.mono {nodes nodes' : List Node} (h : Apart nodes)
    (hsub : ∀ n ∈ nodes', n.Within nodes) : Apart nodes' := by
  have hwithin : ∀ {n : Node}, n.Within nodes' → n.Within nodes := by
    intro n hn
    induction hn with
    | here hmem => exact hsub _ hmem
    | inside _ hchild ih => exact ih.inside hchild
  exact fun n m hn hm => h n m (hwithin hn) (hwithin hm)

theorem Apart.pool {nodes members : List Node} (h : Apart nodes)
    (hmembers : ∀ m ∈ members, m ∈ nodes) :
    Apart (Node.sorted (members.flatMap Node.children)) := by
  refine h.mono fun n hn => ?_
  obtain ⟨m, hm, hchild⟩ := List.mem_flatMap.1 (Node.mem_sorted.1 hn)
  exact .inside (.here (hmembers m hm)) hchild

namespace Group

/-- What a group of siblings is was decided by a node of its identity. -/
theorem exists_of_mem_foldl_add {nodes : List Node} {entry : Text × Group}
    (h : entry ∈ nodes.foldl add []) :
    ∃ m ∈ nodes, m.identity = entry.1 ∧ m.isBlock = entry.2.isBlocks := by
  obtain ⟨leaders, hled⟩ := exists_led nodes
  have hcollected := hled.collected entry h
  cases hfirst : (same nodes entry.1).head? with
  | none =>
    rw [List.head?_eq_none_iff.1 hfirst] at hcollected
    cases hcollected
  | some m =>
    obtain ⟨hmem, hid⟩ := List.mem_filter.1 (List.mem_of_head? hfirst)
    exact ⟨m, hmem, beq_iff_eq.1 hid, (head_isBlocks_collect hcollected hfirst).2.symm⟩

/-- A block joins if what has its identity is a group of blocks. -/
theorem add?_eq_some {groups : List (Text × Group)} {n : Node}
    (h : n.isBlock = true → ∀ entry ∈ groups, entry.1 = n.identity → entry.2.isBlocks = true) :
    add? groups n = some (add groups n) := by
  induction groups with
  | nil => rfl
  | cons entry groups ih =>
    obtain ⟨identity, g⟩ := entry
    rw [add?, add]
    split
    · rename_i hid
      have hjoins : ¬ (n.isBlock && !g.isBlocks) = true := by
        have hg := fun hblock => h hblock _ List.mem_cons_self hid
        grind
      rw [join?, if_neg hjoins]
      rfl
    · rw [ih fun hblock entry hentry => h hblock entry (List.mem_cons_of_mem _ hentry)]
      rfl

/-- Siblings that are apart are grouped with the check as without. -/
theorem ofNodes?_eq_some {nodes : List Node} (h : Apart nodes) :
    ofNodes? nodes = some (ofNodes nodes) := by
  have hfold : nodes.foldlM add? [] = some (nodes.foldl add []) := by
    induction nodes using List.reverseRecOn with
    | nil => rfl
    | append_singleton nodes n ih =>
      have hnodes : Apart nodes := h.mono fun m hm => .here (List.mem_append_left _ hm)
      have hstep : add? (nodes.foldl add []) n = some (add (nodes.foldl add []) n) := by
        refine add?_eq_some fun hblock entry hentry hid => ?_
        obtain ⟨m, hm, hmid, hkind⟩ := exists_of_mem_foldl_add hentry
        rw [← hkind]
        refine Bool.of_not_eq_false fun hstatement => ?_
        exact h n m (.here (List.mem_append_right _ List.mem_cons_self))
          (.here (List.mem_append_left _ hm)) hblock hstatement (hid.symm.trans hmid.symm)
      simp [List.foldlM_append, ih hnodes, hstep]
  rw [ofNodes?, hfold]
  rfl

end Group

theorem mapM_eq_some_map {α β : Type} {f : α → Option β} {g : α → β} {as : List α}
    (h : ∀ a ∈ as, f a = some (g a)) : as.mapM f = some (as.map g) := by
  induction as with
  | nil => rfl
  | cons a as ih =>
    rw [List.forall_mem_cons] at h
    simp [List.mapM_cons, h.1, ih h.2]

/-- Siblings that are apart are merged with the check as without, level by level. -/
theorem mergeLevels?_eq_some {levels : Nat} {nodes : List Node} (h : Apart nodes) :
    mergeLevels? levels nodes = some (mergeLevels levels nodes) := by
  induction levels generalizing nodes with
  | zero => rfl
  | succ levels ih =>
    rw [mergeLevels?, Group.ofNodes?_eq_some h, mergeLevels]
    refine mapM_eq_some_map fun g hg => ?_
    cases g with
    | statement text => rfl
    | blocks head members =>
      simp only [ih (h.pool fun m hm => (mem_of_mem_ofNodes hg m hm).1)]
      rfl

/-- Siblings that are not apart are not merged with the check: here a block would be lost. -/
example : (mergeNodes? [.statement "a", .leaf "a" "a\x7b\x7d" []]).isNone = true := by decide

/-- **No block of any stylesheet is the same as a statement, however deep the two stand; so merging
it never has a block join a statement, on any level, and goes through with the check.** -/
theorem mergeNodes?_ofText (s : Text) :
    (∀ n m : Node, n.Within (Forest.ofText s).nodes → m.Within (Forest.ofText s).nodes →
      n.isBlock = true → m.isBlock = false → n.identity ≠ m.identity) ∧
    mergeNodes? (Forest.ofText s).nodes = some (mergeNodes (Forest.ofText s).nodes) :=
  ⟨apart_ofText s, mergeLevels?_eq_some (apart_ofText s)⟩

/-- A statement and a block with its text but for the last semicolon, inside of another block. -/
def guardedSheet : Text := "@a(;);@m\x7b@a(;)\x7bx:1\x7d\x7d"

theorem mergeNodes?_ofText_guarded :
    ∃ block statement : Node, (block.isBlock = true ∧ block.head = ("@a(;)" : Text) ∧
        block.Within (Forest.ofText guardedSheet).nodes) ∧
      (statement.isBlock = false ∧ statement.head = ("@a(;);" : Text) ∧
        statement.Within (Forest.ofText guardedSheet).nodes) ∧
      block.identity ≠ statement.identity := by
  have hfirst : nextConstruct guardedSheet = some ⟨[], .statement "@a(;);",
      guardedSheet.drop 6⟩ := by
    decide
  have hsecond : nextConstruct (guardedSheet.drop 6) = some ⟨[], .block "@m"
      "@a(;)\x7bx:1\x7d" true, []⟩ := by
    decide
  have hinner : nextConstruct "@a(;)\x7bx:1\x7d" = some ⟨[], .block "@a(;)" "x:1" true, []⟩ := by
    decide
  have hleaf : (Construct.block "@a(;)" "x:1" true).node? =
      some (.leaf "@a(;)" "@a(;)\x7bx:1\x7d" "x:1") := rfl
  have hbody : readNodes "@a(;)\x7bx:1\x7d" =
      ([.leaf "@a(;)" "@a(;)\x7bx:1\x7d" "x:1"], []) := by
    rw [readNodes_of_some hinner, hleaf, readNodes_of_none (s := []) rfl]
    rfl
  have hread := readNodes_statement hfirst
  rw [readNodes_of_some hsecond, Construct.node?_block (by decide) hbody (by decide)] at hread
  have hwithin : ∀ n ∈ (readNodes guardedSheet).1, n.Within (Forest.ofText guardedSheet).nodes := by
    rw [Forest.nodes_ofText (by decide)]
    exact fun n hn => .here (Node.mem_sorted.2 hn)
  rw [hread] at hwithin
  have hstatement := hwithin _ List.mem_cons_self
  have houter := hwithin _ (List.mem_cons_of_mem _ List.mem_cons_self)
  have hblock := houter.inside (c := .leaf "@a(;)" "@a(;)\x7bx:1\x7d" "x:1")
    (Node.mem_sorted.2 List.mem_cons_self)
  exact ⟨_, _, ⟨rfl, rfl, hblock⟩, ⟨rfl, rfl, hstatement⟩,
    (mergeNodes?_ofText guardedSheet).1 _ _ hblock hstatement rfl rfl⟩

end UtilitySheet.Sheet
