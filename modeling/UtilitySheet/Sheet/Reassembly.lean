import UtilitySheet.Sheet.Declarations
import UtilitySheet.Sheet.Forest

/-!
# Writing a stylesheet

A forest is written in one of two modes. `concat` keeps every node; `merge` consolidates siblings
that are the same: their bodies add up, or the last one counts, and a statement is written once.
Either mode first says what is written, a list of items, and the items have one written form. The
declarations of an item are read from all bodies that contribute to it.
-/

namespace UtilitySheet.Sheet

/-- How a stylesheet is put together. -/
inductive Mode where
  | concat
  | merge
  deriving DecidableEq, Repr

/-- What is written: a statement, or a rule with the bodies that contribute declarations and the
items inside it. -/
inductive Item where
  | statement (text : Text)
  | rule (head : Text) (bodies : List Text) (inner : List Item)

/-! ## Keeping every node -/

mutual

/-- A node as an item of its own. -/
def Item.ofNode : Node → Item
  | .statement text => .statement text
  | .leaf head _ body => .rule head [body] []
  | .nest head _ own nodes => .rule head own.toList (Item.ofNodes nodes)

/-- Each node as an item of its own. -/
def Item.ofNodes : List Node → List Item
  | [] => []
  | n :: nodes => Item.ofNode n :: Item.ofNodes nodes

end

/-! ## Consolidating the same nodes -/

/-- Nodes that are the same. -/
inductive Group where
  | statement (text : Text)
  /-- The head of the first block and the blocks that contribute. -/
  | blocks (head : Text) (members : List Node)

namespace Group

/-- The group of one node. -/
def single : Node → Group
  | .statement text => .statement text
  | n => .blocks n.head [n]

/-- The group with one more node. A block joins the blocks before it or takes their place; nothing
else changes a group. -/
def join : Group → Node → Group
  | statement text, _ => statement text
  | blocks head members, .statement _ => blocks head members
  | blocks head members, n =>
    if Policy.replacesOf n.head then blocks head [n] else blocks head (members ++ [n])

/-- The groups by identity with one more node: in the group of its identity, or in a new one at the
end. -/
def add (groups : List (Text × Group)) (n : Node) : List (Text × Group) :=
  match groups with
  | [] => [(n.identity, single n)]
  | (identity, g) :: groups =>
    if identity = n.identity then (identity, g.join n) :: groups
    else (identity, g) :: add groups n

/-- The groups of siblings, in the order of their first members. -/
def ofNodes (nodes : List Node) : List Group := (nodes.foldl add []).map (·.2)

end Group

mutual

/-- How many levels of nodes there are in a node. -/
def Node.height : Node → Nat
  | .nest _ _ _ nodes => Node.heightOfNodes nodes + 1
  | _ => 1

/-- How many levels of nodes there are in a list of nodes. -/
def Node.heightOfNodes : List Node → Nat
  | [] => 0
  | n :: nodes => max (Node.height n) (Node.heightOfNodes nodes)

end

/-- The items of the first `levels` levels of siblings. The nodes inside the blocks of a group are
pooled and sorted again. -/
def mergeLevels : (levels : Nat) → List Node → List Item
  | 0, _ => []
  | levels + 1, nodes => (Group.ofNodes nodes).map fun
    | .statement text => .statement text
    | .blocks head members =>
      .rule head (members.flatMap Node.own)
        (mergeLevels levels (Node.sorted (members.flatMap Node.children)))

/-- The items of siblings on all levels. -/
def mergeNodes (nodes : List Node) : List Item := mergeLevels (Node.heightOfNodes nodes) nodes

/-- What is written for a forest. -/
def Forest.items (f : Forest) : Mode → List Item
  | .concat => Item.ofNodes f.nodes
  | .merge => mergeNodes f.nodes

/-! ## The written form -/

/-- A declaration inside a rule at a depth. -/
def declarationLine (depth : Nat) (d : Text × Text) : Text :=
  "\n\t" ++ tabs depth ++ d.1 ++ ": " ++ d.2 ++ ";"

mutual

/-- An item as it is written at a depth. -/
def Item.render (depth : Nat) : Item → Text
  | .statement text => tabs depth ++ text
  | .rule head bodies inner =>
    tabs depth ++ brokenHead depth head ++ ['\x7b']
      ++ (Declarations.ofBodies bodies).flatMap (declarationLine depth)
      ++ (if inner.isEmpty then [] else '\n' :: Item.renderAll (depth + 1) inner)
      ++ '\n' :: tabs depth ++ ['\x7d']

/-- Items as they are written at a depth, with a blank line between two of them. -/
def Item.renderAll (depth : Nat) : List Item → Text
  | [] => []
  | [i] => Item.render depth i
  | i :: items => Item.render depth i ++ "\n\n" ++ Item.renderAll depth items

end

mutual

/-- The notices of reading the declarations of an item, its own first. -/
def Item.notices : Item → List Notice
  | .statement _ => []
  | .rule _ bodies inner => bodies.flatMap Declarations.notices ++ Item.noticesOfAll inner

/-- The notices of reading the declarations of items. -/
def Item.noticesOfAll : List Item → List Notice
  | [] => []
  | i :: items => Item.notices i ++ Item.noticesOfAll items

end

/-- A forest as it is written. -/
def Forest.write (f : Forest) (mode : Mode) : Text := Item.renderAll 0 (f.items mode)

/-- The notices of writing a forest. -/
def Forest.writeNotices (f : Forest) (mode : Mode) : List Notice :=
  Item.noticesOfAll (f.items mode)

/-- A stylesheet read and written again. -/
def reassemble (s : Text) (mode : Mode) : Text := (Forest.ofText s).write mode

/-- The notices of reading a stylesheet and writing it again. -/
def reassembleNotices (s : Text) (mode : Mode) : List Notice :=
  readNotices s ++ (Forest.ofText s).writeNotices mode

end UtilitySheet.Sheet
