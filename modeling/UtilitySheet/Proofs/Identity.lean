import UtilitySheet.Proofs.Merging

/-!
# Blocks that are the same by their heads

All blocks but those of a few at-rules are the same if their heads are. No statement is then the
same as a block (`Node.Proper.isBlock_eq`), and a node that is read from a merged stylesheet has the
identity of the leader it was written for (`Merges.identity_eq`).
-/

namespace UtilitySheet.Sheet

open Text

namespace Policy

/-- The at-rules whose blocks are the same by more than their heads. -/
def keyedByBody : List Text := ["@namespace", "@import", "@charset", "@font-face"]

theorem find?_eq_some {head : Text} {p : Policy} (h : find? head = some p) :
    p ∈ all ∧ atRuleName? head = some p.name := by
  unfold find? at h
  split at h
  · rename_i name hname
    have hp := List.find?_some (p := fun q : Policy => q.name == name) h
    exact ⟨List.mem_of_find?_eq_some h, by rw [hname, beq_iff_eq.1 hp]⟩
  · cases h

theorem identityOf_eq_head {head : Text}
    (h : ∀ name ∈ keyedByBody, atRuleName? head ≠ some name) : identityOf head = .head := by
  have hall : ∀ p ∈ all, p.identity = .head ∨ p.name ∈ keyedByBody := by decide
  unfold identityOf
  cases hfind : find? head with
  | none => rfl
  | some p =>
    obtain ⟨hp, hname⟩ := find?_eq_some hfind
    exact (hall p hp).resolve_right fun hmem => h _ hmem hname

/-- But for fonts, only the last body of the same keyframes counts. -/
theorem replacesOf_eq {head : Text} (h : atRuleName? head ≠ some ("@font-face" : Text)) :
    replacesOf head = (atRuleName? head == some ("@keyframes" : Text)) := by
  have hall : ∀ p ∈ all, p.name = ("@font-face" : Text) ∨
      p.replaces = (p.name == ("@keyframes" : Text)) := by decide
  unfold replacesOf
  cases hfind : find? head with
  | none =>
    have hne : atRuleName? head ≠ some ("@keyframes" : Text) := by
      intro hname
      rw [find?, hname] at hfind
      exact absurd hfind (by decide)
    rw [beq_eq_false_iff_ne.2 hne]
    rfl
  | some p =>
    obtain ⟨hp, hname⟩ := find?_eq_some hfind
    have hfont : p.name ≠ ("@font-face" : Text) := fun hfont => h (by rw [hname, hfont])
    rw [Option.map_some, Option.getD_some, (hall p hp).resolve_left hfont, hname]
    rfl

end Policy

namespace Node

/-- Whether the node, if it is a block, is the same as another one by its head. -/
def IsKeyedByHead (n : Node) : Prop :=
  n.isBlock = true → ∀ name ∈ Policy.keyedByBody, Policy.atRuleName? n.head ≠ some name

theorem IsKeyedByHead.identity_eq {n : Node} (h : n.IsKeyedByHead) (hblock : n.isBlock = true) :
    n.identity = n.head := by
  have hhead := Policy.identityOf_eq_head (h hblock)
  cases n with
  | statement text => cases hblock
  | leaf h₀ _ _ | nest h₀ _ _ _ =>
    have hhead : Policy.identityOf h₀ = .head := hhead
    simp only [identity, hhead, head]

/-- Nodes with the same head are the same, unless one is a statement and the other is not. -/
theorem IsKeyedByHead.identity_congr {n m : Node} (hn : n.IsKeyedByHead)
    (hblock : n.isBlock = m.isBlock) (hhead : n.head = m.head) : n.identity = m.identity := by
  cases h : n.isBlock with
  | true =>
    have hm : m.IsKeyedByHead := fun _ => hhead ▸ hn h
    rw [hn.identity_eq h, hm.identity_eq (hblock ▸ h), hhead]
  | false =>
    cases n <;> cases m <;> simp_all [isBlock, head]

/-- The identity of a statement ends with a semicolon. -/
theorem getLast?_identity_statement (s : Text) :
    (Node.statement (s ++ [';'])).identity.getLast? = some ';' := by
  have hsemicolon : isBlank ';' = false := by decide
  rw [identity]
  split
  · simp [withoutBlanks, hsemicolon]
  · exact List.getLast?_concat

end Node

/-- No flat text ends with a semicolon. -/
theorem Flat.getLast?_ne {s : Text} (h : Flat s) : s.getLast? ≠ some ';' := by
  intro hlast
  obtain ⟨t, rfl⟩ := List.getLast?_eq_some_iff.1 hlast
  have hnested := h.nested
  rw [brackets_append, Option.bind_eq_some_iff] at hnested
  obtain ⟨opened, -, hlast⟩ := hnested
  rw [brackets_cons, Option.bind_eq_some_iff] at hlast
  obtain ⟨opened', hstep, hnil⟩ := hlast
  obtain rfl := Option.some.inj hnil
  rcases bracketStep_cases hstep with h | h | h | ⟨-, hround, -, hsame⟩ | h
  case inr.inr.inr.inl =>
    rw [← hsame] at hround
    cases hround
  all_goals simp_all [marks]

/-- A block and a statement are never the same. -/
theorem Node.Proper.isBlock_eq {n m : Node} (hn : n.Proper) (hm : m.Proper)
    (hkeyed : n.IsKeyedByHead) (hkeyed' : m.IsKeyedByHead) (h : n.identity = m.identity) :
    n.isBlock = m.isBlock := by
  cases hn with
  | @statement s _ =>
    cases hm with
    | statement _ => rfl
    | block hblock hhead _ _ =>
      rw [hkeyed'.identity_eq hblock] at h
      exact absurd (h ▸ Node.getLast?_identity_statement s) hhead.flat.getLast?_ne
  | block hblock hhead _ _ =>
    cases hm with
    | @statement s _ =>
      rw [hkeyed.identity_eq hblock] at h
      exact absurd (h ▸ Node.getLast?_identity_statement s) hhead.flat.getLast?_ne
    | block hblock' _ _ _ => rw [hblock, hblock']

/-! ## Nodes read back and leaders -/

/-- A node that is read back for a group of siblings, and the leader of the group. -/
def Merges (nodes : List Node) (n leader : Node) : Prop :=
  ∃ g : Group, n.outline = g.outline ∧ g.Leads nodes leader

namespace Merges

variable {nodes : List Node} {n l : Node}

theorem mem (h : Merges nodes n l) : l ∈ nodes := h.elim fun _ h => h.2.mem

theorem isBlock_eq (h : Merges nodes n l) : n.isBlock = l.isBlock := by
  obtain ⟨g, houtline, hleads⟩ := h
  rw [← Node.isRule_outline, houtline, Group.isRule_outline, hleads.isBlocks_eq]

theorem head_eq (h : Merges nodes n l) : n.head = l.head := by
  obtain ⟨g, houtline, hleads⟩ := h
  rw [← Node.head_outline, houtline, Group.head_outline, hleads.head_eq]

theorem identity_eq (h : Merges nodes n l) (hl : l.IsKeyedByHead) : n.identity = l.identity :=
  (hl.identity_congr h.isBlock_eq.symm h.head_eq.symm).symm

end Merges

/-- **The nodes that are read back for siblings are those of the leaders, in order.** -/
theorem exists_leaders_of_merged {nodes ns : List Node}
    (h : ns.map Node.outline = merged nodes) : ∃ leaders : List Node,
    leaders.Sublist nodes ∧ (leaders.map Node.identity).Nodup ∧
    (∀ n ∈ nodes, n.identity ∈ leaders.map Node.identity) ∧
    List.Forall₂ (Merges nodes) ns leaders := by
  obtain ⟨leaders, hsub, hnodup, hcovers, hleads⟩ := Group.exists_leaders nodes
  rw [merged_eq] at h
  exact ⟨leaders, hsub, hnodup, hcovers, forall₂_of_map_eq h hleads⟩

end UtilitySheet.Sheet
