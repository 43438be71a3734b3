import UtilitySheet.Text.Basic

/-!
# Rule heads

The head of a rule is everything before its brace: selectors, or an at-rule with its parameters.
Two spellings that differ only in the amount of white space, or in white space at a comma, are the
same head; the normal form has single spaces and none at a comma.
-/

namespace UtilitySheet.Sheet

/-- The text with each space before a comma dropped. -/
def dropBeforeComma : Text → Text
  | ' ' :: ',' :: s => ',' :: dropBeforeComma s
  | c :: s => c :: dropBeforeComma s
  | [] => []

/-- The text with each space after a comma dropped. -/
def dropAfterComma : Text → Text
  | ',' :: ' ' :: s => ',' :: dropAfterComma s
  | c :: s => c :: dropAfterComma s
  | [] => []

/-- The normal form of a head. -/
def normalHead (s : Text) : Text := dropAfterComma (dropBeforeComma (Text.collapse s))

/-- The tabs in front of a line at a depth. -/
def tabs (depth : Nat) : Text := List.replicate depth '\t'

/-- A head with each selector on a line of its own. -/
def brokenHead (depth : Nat) (head : Text) : Text :=
  head.flatMap fun c => if c = ',' then ",\n" ++ tabs depth else [c]

end UtilitySheet.Sheet
