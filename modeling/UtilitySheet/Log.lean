import UtilitySheet.Text.Basic

/-!
# Notices

What a step has to say beside its result. Functions that compute a result stay free of them: the
notices of a step are a function of the same input, a list in the order in which they arise. Each
area states its own notices, and they have one written form, a line per notice.
-/

namespace UtilitySheet

/-- How much a notice matters. -/
inductive Level where
  | error
  | warn
  | info
  | debug
  deriving DecidableEq, Repr

namespace Level

/-- The name of a level as it is written. -/
def name : Level → Text
  | error => "ERROR"
  | warn => "WARN"
  | info => "INFO"
  | debug => "DEBUG"

/-- From the most to the least urgent. -/
def rank : Level → Nat
  | error => 0
  | warn => 1
  | info => 2
  | debug => 3

end Level

/-- One thing to report. -/
structure Notice where
  level : Level
  message : Text
  deriving DecidableEq, Repr

namespace Notice

/-- The line `[LEVEL] message`. -/
def line (n : Notice) : Text := "[" ++ n.level.name ++ "] " ++ n.message ++ "\n"

/-- The lines of all notices, in order. -/
def lines (ns : List Notice) : Text := ns.flatMap line

/-- The notices at least as urgent as `least`. -/
def upTo (least : Level) (ns : List Notice) : List Notice :=
  ns.filter (·.level.rank ≤ least.rank)

end Notice

end UtilitySheet
