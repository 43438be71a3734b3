import UtilitySheet.Log
import UtilitySheet.Sheet.AtRule
import UtilitySheet.Sheet.Comment
import UtilitySheet.Sheet.Construct
import UtilitySheet.Sheet.Head

/-!
# The forest of a stylesheet

A stylesheet is read into a forest: statements and blocks, where a block has either plain text or a
forest of its own as its body. The text between the constructs of a body holds the declarations of
the rule itself. Siblings are sorted by the priority of their at-rules; equal priorities keep their
order. A block without a head is dropped with everything in it.
-/

namespace UtilitySheet

/-! ## Notices -/

/-- The start of a text for a message: words with single spaces, at most sixty characters. -/
def Text.preview (s : Text) : Text :=
  let flat := Text.collapse s
  if flat.length ≤ 60 then flat else flat.take 60 ++ "..."

namespace Notice

/-- A block without its closing brace. -/
def unclosedBlock : Notice :=
  ⟨.warn, "unbalanced braces, block runs to end of input"⟩

/-- A block without a head. -/
def headlessBlock (text : Text) : Notice :=
  ⟨.warn, "dropping block without a rule head: " ++ text.preview⟩

/-- Text outside of any rule. -/
def strayText (text : Text) : Notice :=
  ⟨.warn, "dropping unparsed css outside of any rule: " ++ text.preview⟩

end Notice

namespace Sheet

/-- A statement or a block of a stylesheet. -/
inductive Node where
  | statement (text : Text)
  /-- A block without constructs in its body. -/
  | leaf (head written body : Text)
  /-- A block with constructs in its body; `own` is the text between them, if it is not blank. -/
  | nest (head written : Text) (own : Option Text) (nodes : List Node)

/-- Siblings in priority order, and the text between them if it is not blank. -/
structure Forest where
  nodes : List Node
  residual : Option Text

namespace Node

/-- The head of a block, or the text of a statement. -/
def head : Node → Text
  | statement text => text
  | leaf head _ _ => head
  | nest head _ _ _ => head

/-- The place of the node among its siblings. -/
def priority (n : Node) : Int := Policy.priorityOf n.head

/-- The bodies in which a node itself declares. -/
def own : Node → List Text
  | statement _ => []
  | leaf _ _ body => [body]
  | nest _ _ own _ => own.toList

/-- The nodes in the body of a node. -/
def children : Node → List Node
  | nest _ _ _ nodes => nodes
  | _ => []

/-- Siblings sorted by priority. -/
def sorted (nodes : List Node) : List Node :=
  nodes.mergeSort fun a b => a.priority ≤ b.priority

/-- What makes a node the same as another one. -/
def identity : Node → Text
  | statement text =>
    match Policy.identityOf text with
    | .wholeText => Text.withoutBlanks text
    | _ => text
  | leaf head written _ | nest head written _ _ =>
    match Policy.identityOf head with
    | .head => head
    | .wholeText => bareText written
    | .source =>
      match source? written with
      | some source => Text.withoutBlanks head ++ source
      | none => head

end Node

/-- A text unless it is blank. -/
def unlessBlank (s : Text) : Option Text := if Text.isBlankText s then none else some s

/-! ## Reading -/

/-- The nodes of a text without comments, in source order, and the text between them. -/
def readNodes (s : Text) : List Node × Text :=
  match hs : nextConstruct s with
  | none => ([], s)
  | some found =>
    have := length_rest_lt hs
    let (nodes, residual) := readNodes found.rest
    match hf : found.construct with
    | .statement text => (.statement text :: nodes, found.before ++ residual)
    | .block head body closed =>
      have := length_body_lt hs hf
      let written := Text.trim (Construct.block head body closed).text
      let head := normalHead head
      if head.isEmpty then (nodes, found.before ++ residual)
      else if (nextConstruct body).isSome then
        let (children, own) := readNodes body
        (.nest head written (unlessBlank own) (Node.sorted children) :: nodes,
          found.before ++ residual)
      else (.leaf head written body :: nodes, found.before ++ residual)
termination_by s.length

/-- The forest of a text without comments. -/
def Forest.ofPlain (s : Text) : Forest :=
  let (nodes, residual) := readNodes s
  ⟨Node.sorted nodes, unlessBlank residual⟩

/-- The forest of a stylesheet. -/
def Forest.ofText (s : Text) : Forest := Forest.ofPlain (stripComments s)

/-- Said of a construct that is found: its closing brace may be missing. -/
def Found.notices (f : Found) : List Notice :=
  match f.construct with
  | .block _ _ false => [.unclosedBlock]
  | _ => []

/-- The notices of reading the nodes of a text. A body is searched for its first construct before
it is read, so what is said about that construct is said twice. -/
def nodeNotices (s : Text) : List Notice :=
  match hs : nextConstruct s with
  | none => []
  | some found =>
    have := length_rest_lt hs
    let inner :=
      match hf : found.construct with
      | .statement _ => []
      | .block head body closed =>
        have := length_body_lt hs hf
        if (normalHead head).isEmpty then
          [.headlessBlock (Construct.block head body closed).text]
        else (nextConstruct body).toList.flatMap Found.notices ++ nodeNotices body
    found.notices ++ inner ++ nodeNotices found.rest
termination_by s.length

/-- The notices of reading a stylesheet. -/
def readNotices (s : Text) : List Notice :=
  nodeNotices (stripComments s) ++ (Forest.ofText s).residual.toList.map .strayText

end Sheet

end UtilitySheet
