import UtilitySheet.Text.Basic

/-!
# Variants of a class

A class name may start with a screen breakpoint and may carry a pseudo-class: two ways to say when
its declarations apply. Both are looked up by short keys.
-/

namespace UtilitySheet

/-- A pseudo-class: its key in class names and what it adds to the selector. -/
structure PseudoClass where
  key : Text
  selector : Text
  deriving DecidableEq, Repr

namespace PseudoClass

/-- All pseudo-classes, in the order in which a class name is tried against their keys. -/
def all : List PseudoClass :=
  [⟨"act", ":active"⟩, ⟨"blr", ":blur"⟩, ⟨"chk", ":checked"⟩, ⟨"dis", ":disabled"⟩,
   ⟨"enb", ":enabled"⟩, ⟨"emp", ":empty"⟩, ⟨"fcs", ":focus"⟩, ⟨"fch", ":first-child"⟩,
   ⟨"fls", ":fullscreen"⟩, ⟨"hvr", ":hover"⟩, ⟨"inv", ":invalid"⟩, ⟨"lch", ":last-child"⟩,
   ⟨"lnk", ":link"⟩, ⟨"rdo", ":read-only"⟩, ⟨"rdw", ":read-write"⟩, ⟨"rqd", ":required"⟩,
   ⟨"opt", ":optional"⟩, ⟨"tgt", ":target"⟩, ⟨"vst", ":visited"⟩, ⟨"val", ":valid"⟩]

/-- The selector of the pseudo-class with this key. -/
def selector? (key : Text) : Option Text := (all.find? (·.key == key)).map selector

end PseudoClass

/-- A range of screens for which a class can be limited. -/
inductive Breakpoint where
  | md
  | mdl
  | mdp
  deriving DecidableEq, Repr

namespace Breakpoint

/-- All breakpoints, in the order in which a class name is tried against their keys. -/
def all : List Breakpoint := [md, mdl, mdp]

/-- What a class name starts with. -/
def key : Breakpoint → Text
  | md => "md"
  | mdl => "mdl"
  | mdp => "mdp"

/-- The media query that selects the screens. -/
def media : Breakpoint → Text
  | md => "@media(max-width:1023px) and (max-height:1023px)"
  | mdl => "@media(max-width:1023px) and (max-height:1023px) and (orientation:landscape)"
  | mdp => "@media(max-width:1023px) and (max-height:1023px) and (orientation:portrait)"

/-- The breakpoint with this key. -/
def named? (key : Text) : Option Breakpoint := all.find? (·.key == key)

end Breakpoint

end UtilitySheet
