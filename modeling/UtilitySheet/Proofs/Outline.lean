import UtilitySheet.Proofs.Declarations
import UtilitySheet.Proofs.Grouping

/-!
# Outlines

The outline of a stylesheet is what its written form shows: statements, and rules with their heads,
declarations and inner rules. Items with the same outline are written in the same way
(`Item.render_outline`), and sound outlines that are written are read as nodes of these outlines
(`Outline.exists_reads`, and in priority order `Outline.outlines_ofText`).
-/

namespace UtilitySheet.Sheet

open Text

/-- What the written form of a statement or rule shows. -/
inductive Outline where
  | statement (text : Text)
  | rule (head : Text) (declarations : Declarations) (inner : List Outline)

namespace Outline

/-- The head of a rule, or the text of a statement. -/
def head : Outline → Text
  | statement text => text
  | rule head _ _ => head

/-- The place of an outline among its siblings. -/
def priority (o : Outline) : Int := Policy.priorityOf o.head

mutual

/-- An outline as it is written at a depth. -/
def render (depth : Nat) : Outline → Text
  | statement text => tabs depth ++ text
  | rule head declarations inner =>
    tabs depth ++ brokenHead depth head ++ ['\x7b']
      ++ declarations.flatMap (declarationLine depth)
      ++ (if inner.isEmpty then [] else '\n' :: renderAll (depth + 1) inner)
      ++ '\n' :: tabs depth ++ ['\x7d']

/-- Outlines as they are written at a depth, with a blank line between two of them. -/
def renderAll (depth : Nat) : List Outline → Text
  | [] => []
  | [o] => render depth o
  | o :: os => render depth o ++ "\n\n" ++ renderAll depth os

end

end Outline

/-! ## Outlines of items and nodes -/

mutual

/-- The outline of an item. -/
def Item.outline : Item → Outline
  | .statement text => .statement text
  | .rule head bodies inner => .rule head (Declarations.ofBodies bodies) (Item.outlines inner)

/-- The outlines of items. -/
def Item.outlines : List Item → List Outline
  | [] => []
  | i :: items => Item.outline i :: Item.outlines items

end

theorem Item.outlines_eq (items : List Item) : Item.outlines items = items.map Item.outline := by
  induction items with
  | nil => rfl
  | cons i items ih => rw [Item.outlines, ih, List.map_cons]

mutual

/-- An item is written as its outline is. -/
theorem Item.render_outline (depth : Nat) : (i : Item) → i.render depth = i.outline.render depth
  | .statement _ => rfl
  | .rule _ _ inner => by
    have hinner := Item.renderAll_outlines (depth + 1) inner
    have hempty : (Item.outlines inner).isEmpty = inner.isEmpty := by cases inner <;> rfl
    rw [Item.render, Item.outline, Outline.render, hinner, hempty]

theorem Item.renderAll_outlines (depth : Nat) : (items : List Item) →
    Item.renderAll depth items = Outline.renderAll depth (Item.outlines items)
  | [] => rfl
  | [i] => Item.render_outline depth i
  | i :: j :: items => by
    have hrest := Item.renderAll_outlines depth (j :: items)
    rw [Item.renderAll, Item.outlines, Item.render_outline depth i, hrest]
    · rfl
    · exact List.cons_ne_nil _ _

end

/-- The outline of a node on its own. -/
def Node.outline (n : Node) : Outline := (Item.ofNode n).outline

theorem Item.outlines_ofNodes (nodes : List Node) :
    Item.outlines (Item.ofNodes nodes) = nodes.map Node.outline := by
  induction nodes with
  | nil => rfl
  | cons n nodes ih => rw [Item.ofNodes, Item.outlines, ih]; rfl

namespace Node

theorem outline_of_isBlock {n : Node} (h : n.isBlock = true) :
    n.outline = .rule n.head (Declarations.ofBodies n.own) (n.children.map outline) := by
  cases n with
  | statement text => cases h
  | leaf head written body => rfl
  | nest head written own nodes =>
    rw [outline, Item.ofNode, Item.outline, Item.outlines_ofNodes]
    rfl

/-- What the outline of a node says of the node. -/
theorem of_outline_eq_rule {n : Node} {head : Text} {declarations : Declarations}
    {inner : List Outline} (h : n.outline = .rule head declarations inner) :
    n.isBlock = true ∧ Declarations.ofBodies n.own = declarations ∧
      n.children.map outline = inner := by
  have hblock : n.isBlock = true := by
    cases n with
    | statement text => cases h
    | leaf _ _ _ | nest _ _ _ _ => rfl
  rw [outline_of_isBlock hblock] at h
  exact ⟨hblock, (Outline.rule.inj h).2⟩

theorem head_outline (n : Node) : n.outline.head = n.head := by
  cases n <;> rfl

theorem priority_outline (n : Node) : n.outline.priority = n.priority := by
  rw [Outline.priority, head_outline, priority]

end Node

/-! ## Sound outlines -/

/-- What the text of a statement looks like without its semicolon. -/
structure IsStatement (s : Text) : Prop where
  flat : Flat s
  at_sign : ∃ c t, s = '@' :: c :: t

/-- What the head of a rule looks like. -/
structure IsHead (s : Text) : Prop where
  flat : Flat s
  text : isHeadText s = true
  normal : ∃ t, s = normalHead t

/-- An outline that is written so that it can be read again. -/
inductive Outline.Sound : Outline → Prop
  | statement {s : Text} : IsStatement s → Sound (.statement (s ++ [';']))
  | rule {head : Text} {declarations : Declarations} {inner : List Outline} :
      IsHead head → declarations.Sound → (∀ o ∈ inner, Sound o) →
      inner.Pairwise (fun a b => a.priority ≤ b.priority) → Sound (.rule head declarations inner)

/-! ## Written outlines are read back -/

theorem normalHead_coreOf (s : Text) : normalHead (coreOf s) = normalHead s := by
  rw [← normalHead_blanks_append (isBlankText_leadOf s), lead_append_core]

theorem isBlankText_tabs (depth : Nat) : isBlankText (tabs depth) = true := by
  have h := isBlankText_lineBreak depth
  rw [isBlankText, List.all_cons, Bool.and_eq_true] at h
  exact h.2

theorem Flat.blanks {b : Text} (hb : isBlankText b = true) : Flat b := by
  have h : Flat (b ++ []) := (Flat.blanks_append hb).2 ⟨rfl, rfl⟩
  rwa [List.append_nil] at h

namespace Reads

/-- Without nodes all of the text is left. -/
theorem eq_of_nil {s left : Text} (h : Reads s [] left) : left = s := by
  have hread := h.readNodes_eq
  have hnone : nextConstruct s = none := by simpa using h.nextConstruct_isSome
  rw [readNodes_of_none hnone] at hread
  exact (Prod.mk.inj hread).2.symm

/-- The lines of declarations hold no nodes. -/
theorem lines {ds : Declarations} (hds : ∀ d ∈ ds, Declarations.Proper d) (depth : Nat)
    {t left : Text} {nodes : List Node} (h : Reads t nodes left) :
    Reads (ds.flatMap (declarationLine depth) ++ t) nodes
      (ds.flatMap (declarationLine depth) ++ left) := by
  induction ds with
  | nil => exact h
  | cons d ds ih =>
    have hd := hds d List.mem_cons_self
    have hstatement : isStatementText (Declarations.lineText depth d) = false := by
      rw [isStatementText, Declarations.isAtText_lineText depth hd, Bool.false_and]
    have hrest := ih fun e he => hds e (List.mem_cons_of_mem _ he)
    simpa [Declarations.declarationLine_eq] using
      semicolon (Declarations.flat_lineText depth hd) hstatement hrest

end Reads

theorem ofBodies_unlessBlank (s : Text) :
    Declarations.ofBodies (unlessBlank s).toList = Declarations.ofBody s := by
  unfold unlessBlank
  split
  · rename_i hblank
    rw [Declarations.ofBody, Declarations.addBody,
      Declarations.parts_flat (brackets_blanks hblank []), List.foldl_cons, Declarations.addPart,
      Declarations.readPart, if_pos hblank]
    rfl
  · rfl

/-- The outline of a block that is read. -/
theorem Node.outline_ofBlock {body own : Text} {inner : List Node} (head : Text)
    (h : Reads body inner own) :
    (Node.ofBlock head body inner own).outline =
      .rule (normalHead head) (Declarations.ofBody own) ((Node.sorted inner).map Node.outline) := by
  unfold Node.ofBlock
  cases inner with
  | nil =>
    obtain rfl := h.eq_of_nil
    rw [List.isEmpty_nil, if_pos rfl, Node.sorted_of_pairwise List.Pairwise.nil]
    rfl
  | cons n inner =>
    rw [List.isEmpty_cons, if_neg Bool.false_ne_true, outline_of_isBlock rfl]
    exact congrArg (Outline.rule _ · _) (ofBodies_unlessBlank own)

namespace Outline

/-- Whether an outline that is written, behind blanks and before any nodes, is read as a node of
this outline. -/
def Readable (o : Outline) : Prop :=
  ∀ (depth : Nat) {b t left : Text} {nodes : List Node}, isBlankText b = true →
    Reads t nodes left → ∃ n b', isBlankText b' = true ∧ n.outline = o ∧
      Reads (b ++ (o.render depth ++ t)) (n :: nodes) (b' ++ left)

theorem readable_statement {s : Text} (h : IsStatement s) : Readable (statement (s ++ [';'])) := by
  intro depth b t left nodes hb ht
  obtain ⟨hflat, c, u, rfl⟩ := h
  have hindent : isBlankText (b ++ tabs depth) = true :=
    isBlankText_append.2 ⟨hb, isBlankText_tabs depth⟩
  have hat : isBlank '@' = false := by decide
  have hdrop : ((b ++ tabs depth) ++ '@' :: c :: u).dropWhile isBlank = '@' :: c :: u := by
    rw [List.dropWhile_append_of_pos (List.all_eq_true.1 hindent),
      List.dropWhile_cons_of_neg (by simp [hat])]
  have hisAt : isAtText ((b ++ tabs depth) ++ '@' :: c :: u) = true := by
    rw [isAtText, hdrop]
    rfl
  have hcore : coreOf ((b ++ tabs depth) ++ '@' :: c :: u) = '@' :: c :: u := by
    rw [coreOf, hisAt, if_pos rfl, hdrop]
  have hstatement : isStatementText ((b ++ tabs depth) ++ '@' :: c :: u) = true := by
    rw [isStatementText, hisAt, hcore]
    simp
  have hreads := Reads.statement ((Flat.blanks_append hindent).2 hflat) hstatement ht
  rw [hcore] at hreads
  exact ⟨_, _, isBlankText_leadOf _, rfl, by simpa [render] using hreads⟩

/-- Readable outlines that are written one after the other are read as nodes of these outlines. -/
theorem exists_reads_of_readable {os : List Outline} (hos : ∀ o ∈ os, Readable o) (depth : Nat)
    {b t : Text} (hb : isBlankText b = true) (ht : isBlankText t = true) :
    ∃ nodes left, Reads (b ++ (renderAll depth os ++ t)) nodes left ∧
      nodes.map Node.outline = os ∧ isBlankText left = true := by
  induction os generalizing b with
  | nil =>
    have hblank : isBlankText (b ++ t) = true := isBlankText_append.2 ⟨hb, ht⟩
    exact ⟨[], b ++ t, .text (Flat.blanks hblank), rfl, hblank⟩
  | cons o os ih =>
    have ho := hos o List.mem_cons_self
    cases os with
    | nil =>
      obtain ⟨n, b', hb', rfl, hreads⟩ := ho depth hb (.text (Flat.blanks ht))
      exact ⟨[n], b' ++ t, hreads, rfl, isBlankText_append.2 ⟨hb', ht⟩⟩
    | cons o' os =>
      obtain ⟨nodes, left, hrest, houtlines, hleft⟩ :=
        ih (fun p hp => hos p (List.mem_cons_of_mem _ hp)) (b := ['\n', '\n']) (by decide)
      obtain ⟨n, b', hb', hn, hreads⟩ := ho depth hb hrest
      refine ⟨n :: nodes, b' ++ left, ?_, ?_, isBlankText_append.2 ⟨hb', hleft⟩⟩
      · have hgap : "\n\n".toList = ['\n', '\n'] := rfl
        simpa [renderAll, hgap] using hreads
      · rw [List.map_cons, hn, houtlines]

theorem readable_rule {head : Text} {declarations : Declarations} {inner : List Outline}
    (hhead : IsHead head) (hds : declarations.Sound) (hinner : ∀ o ∈ inner, Readable o)
    (hsorted : inner.Pairwise fun a b => a.priority ≤ b.priority) :
    Readable (rule head declarations inner) := by
  intro depth b t left nodes hb ht
  have hindent : isBlankText (b ++ tabs depth) = true :=
    isBlankText_append.2 ⟨hb, isBlankText_tabs depth⟩
  obtain ⟨hflat, htext, u, rfl⟩ := hhead
  have hnormal := normalHead_brokenHead hindent depth u
  have hstretch : isHeadText ((b ++ tabs depth) ++ brokenHead depth (normalHead u)) = true := by
    have hsame := withoutBlanks_normalHead ((b ++ tabs depth) ++ brokenHead depth (normalHead u))
    rw [hnormal] at hsame
    rw [isHeadText_iff, ← hsame]
    exact isHeadText_iff.1 htext
  -- Inside stand the lines of the declarations, then the inner rules, and blanks at the end.
  obtain ⟨kids, own, hkids, houtlines, hown⟩ : ∃ kids own,
      Reads ((if inner.isEmpty then [] else '\n' :: renderAll (depth + 1) inner) ++
        '\n' :: tabs depth) kids own ∧
      kids.map Node.outline = inner ∧ isBlankText own = true := by
    have hend := isBlankText_lineBreak depth
    cases inner with
    | nil => exact ⟨[], _, .text (Flat.blanks hend), rfl, hend⟩
    | cons o os =>
      exact exists_reads_of_readable hinner (depth + 1) (b := ['\n']) (by decide) hend
  have hbody := Reads.lines hds.proper depth hkids
  have hreads := Reads.block ((Flat.blanks_append hindent).2 (hflat.brokenHead depth)) hstretch
    hbody ht
  have hwritten : b ++ (render depth (rule (normalHead u) declarations inner) ++ t) =
      (b ++ tabs depth ++ brokenHead depth (normalHead u)) ++
        '\x7b' :: ((declarations.flatMap (declarationLine depth) ++
          ((if inner.isEmpty then [] else '\n' :: renderAll (depth + 1) inner) ++
            '\n' :: tabs depth)) ++ '\x7d' :: t) := by
    simp [render]
  rw [← hwritten] at hreads
  refine ⟨_, _, isBlankText_leadOf _, ?_, hreads⟩
  have hkidsSorted : Node.sorted kids = kids := by
    refine Node.sorted_of_pairwise ?_
    rw [← houtlines, List.pairwise_map] at hsorted
    simpa only [Node.priority_outline] using hsorted
  rw [Node.outline_ofBlock _ hbody, normalHead_coreOf, hnormal,
    Declarations.ofBody_lines hds depth hown, hkidsSorted, houtlines]

/-- A sound outline is readable. -/
theorem Sound.readable {o : Outline} (h : Sound o) : Readable o := by
  induction h with
  | statement hs => exact readable_statement hs
  | rule hhead hds _ hsorted ih => exact readable_rule hhead hds ih hsorted

/-- **Sound outlines that are written are read as nodes of these outlines.** -/
theorem exists_reads {os : List Outline} (h : ∀ o ∈ os, Sound o) :
    ∃ nodes left, Reads (renderAll 0 os) nodes left ∧ nodes.map Node.outline = os := by
  obtain ⟨nodes, left, hreads, houtlines, -⟩ :=
    exists_reads_of_readable (b := []) (t := []) (fun o ho => (h o ho).readable) 0 rfl rfl
  rw [List.append_nil, List.nil_append] at hreads
  exact ⟨nodes, left, hreads, houtlines⟩

/-- **Sound outlines in priority order that are written are the outlines of what is read.** -/
theorem outlines_ofText {os : List Outline} (h : ∀ o ∈ os, Sound o)
    (hsorted : os.Pairwise fun a b => a.priority ≤ b.priority) :
    (Forest.ofText (renderAll 0 os)).nodes.map Node.outline = os := by
  obtain ⟨nodes, left, hreads, houtlines⟩ := exists_reads h
  have hnodes : nodes.Pairwise fun a b => a.priority ≤ b.priority := by
    rw [← houtlines, List.pairwise_map] at hsorted
    simpa only [Node.priority_outline] using hsorted
  rw [hreads.ofText_eq, Node.sorted_of_pairwise hnodes, houtlines]

/-- Sound outlines that are written in the same way are the same. -/
theorem renderAll_injective {os os' : List Outline} (h : ∀ o ∈ os, Sound o)
    (h' : ∀ o ∈ os', Sound o) (heq : renderAll 0 os = renderAll 0 os') : os = os' := by
  obtain ⟨nodes, left, hreads, rfl⟩ := exists_reads h
  obtain ⟨nodes', left', hreads', rfl⟩ := exists_reads h'
  have hread := hreads.readNodes_eq
  rw [heq, hreads'.readNodes_eq] at hread
  rw [(Prod.mk.inj hread).1]

end Outline

end UtilitySheet.Sheet
