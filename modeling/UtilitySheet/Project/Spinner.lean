import UtilitySheet.Text.Basic

/-!
# The progress indicator

While a pass runs, a line with a turning bar is drawn: the first frame at once, then one every
tick. Stopping clears the line. Time passes in milliseconds; the frame that is due at the end of a
stretch of time is drawn in the next one. Commands wait until time passes.
-/

namespace UtilitySheet

/-- What the indicator can be told. -/
inductive SpinnerCommand where
  | start
  | stop
  deriving DecidableEq, Repr

/-- The state of the indicator. -/
structure Spinner where
  active : Bool := false
  /-- The number of the next frame. -/
  frame : Nat := 0
  /-- Milliseconds until the next frame. -/
  wait : Nat := 0
  /-- Commands that have not taken effect. -/
  pending : List SpinnerCommand := []
  deriving DecidableEq, Repr

namespace Spinner

/-- Back to the start of the line, which is then empty. -/
def clearLine : Text := "\x1b[1G\x1b[2K"

/-- The bar in its four positions. -/
def bars : List Char := ['|', '/', '-', '\\']

/-- What is drawn for a frame. -/
def draw (frame : Nat) : Text := clearLine ++ "...Building " ++ [bars.getD (frame % 4) '|']

/-- The indicator after a command, and what is drawn. -/
def obey (s : Spinner) : SpinnerCommand → Spinner × Text
  | .start => ({ s with active := true, frame := 0, wait := 0 }, [])
  | .stop => ({ s with active := false }, if s.active then clearLine else [])

/-- The indicator after its pending commands, and what is drawn. -/
def settle (s : Spinner) : Spinner × Text :=
  s.pending.foldl
    (fun (s, drawn) command => let (s, more) := s.obey command; (s, drawn ++ more))
    ({ s with pending := [] }, [])

/-- How many frames are due within `ms` milliseconds. -/
def framesDue (s : Spinner) (tick ms : Nat) : Nat :=
  if !s.active || ms ≤ s.wait then 0 else (ms - s.wait - 1) / tick + 1

/-- The indicator after `ms` milliseconds, and the frames drawn meanwhile. -/
def elapse (s : Spinner) (tick ms : Nat) : Spinner × Text :=
  let due := s.framesDue tick ms
  ({ s with frame := s.frame + due, wait := s.wait + due * tick - ms },
    (List.range due).flatMap fun i => draw (s.frame + i))

/-- Gives a command, which takes effect when time passes. -/
def command (s : Spinner) (c : SpinnerCommand) : Spinner := { s with pending := s.pending ++ [c] }

/-- Lets time pass, at least a millisecond: pending commands first, then the frames. -/
def sleep (s : Spinner) (tick ms : Nat) : Spinner × Text :=
  if ms = 0 then (s, [])
  else
    let (s, drawn) := s.settle
    let (s, frames) := s.elapse tick ms
    (s, drawn ++ frames)

/-- What is drawn when the indicator is given up. -/
def shutdown (s : Spinner) : Text :=
  let (s, drawn) := s.settle
  drawn ++ if s.active then clearLine else []

end Spinner

end UtilitySheet
