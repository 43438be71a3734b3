import UtilitySheet.Text.Basic

/-!
# The command line

What the arguments ask for: one of three commands, the root of the project and whether everything
is to be said. Options may stand before or behind the command.
-/

namespace UtilitySheet

/-- What to do. -/
inductive Command where
  /-- Write default settings unless there are some. -/
  | init
  /-- Run one pass. -/
  | build
  /-- Run a pass, and another one after every change. -/
  | watch
  deriving DecidableEq, Repr

/-- A command with its options. -/
structure Invocation where
  command : Command
  root : Option Text
  verbose : Bool
  deriving DecidableEq, Repr

/-- What the arguments are if they are no invocation. -/
inductive NoInvocation where
  | help
  | version
  | wrong (message : Text)
  deriving DecidableEq, Repr

namespace Invocation

/-- The command with a name. -/
def commandNamed? (name : Text) : Option Command :=
  if name = "init".toList then some .init
  else if name = "build".toList then some .build
  else if name = "watch".toList then some .watch
  else none

/-- Reads the arguments behind those that gave `command`, `root` and `verbose`. -/
def readFrom (command : Option Command) (root : Option Text) (verbose : Bool) :
    (arguments : List Text) → Except NoInvocation Invocation
  | [] =>
    match command with
    | some command => .ok { command, root, verbose }
    | none => .error (.wrong "a subcommand is required but one was not provided")
  | a :: arguments =>
    if a = "-h".toList ∨ a = "--help".toList then .error .help
    else if a = "-V".toList ∨ a = "--version".toList then .error .version
    else if a = "-v".toList ∨ a = "--verbose".toList then readFrom command root true arguments
    else if a = "--root".toList then
      match arguments with
      | [] => .error (.wrong "a value is required for '--root <DIR>' but none was supplied")
      | dir :: arguments => readFrom command (some dir) verbose arguments
    else
      match Text.after? "--root=" a, commandNamed? a, command with
      | some dir, _, _ => readFrom command (some dir) verbose arguments
      | none, some c, none => readFrom (some c) root verbose arguments
      | none, some _, some _ => .error (.wrong ("unexpected argument '" ++ a ++ "' found"))
      | none, none, none => .error (.wrong ("unrecognized subcommand '" ++ a ++ "'"))
      | none, none, some _ => .error (.wrong ("unexpected argument '" ++ a ++ "' found"))

/-- The invocation that the arguments spell. -/
def read (arguments : List Text) : Except NoInvocation Invocation :=
  readFrom none none false arguments

/-- How the program is used. -/
def usage : Text :=
  ["Compiles utility classes found in markup into one stylesheet",
   "",
   "Usage: csliner [OPTIONS] <COMMAND>",
   "",
   "Commands:",
   "  init   Write a default configuration file unless one exists",
   "  build  Build the stylesheet once",
   "  watch  Build, then rebuild whenever markup, stylesheets or the configuration change",
   "",
   "Options:",
   "      --root <DIR>  Project root, defaults to the working directory",
   "  -v, --verbose     Verbose logging",
   "  -h, --help        Print help",
   "  -V, --version     Print version"].flatMap fun line => line.toList ++ "\n".toList

/-- The name and the version of the program. -/
def version : Text := "csliner 0.1.0\n"

end Invocation

end UtilitySheet
