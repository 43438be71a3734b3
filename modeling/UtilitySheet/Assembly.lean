import UtilitySheet.Compiler
import UtilitySheet.Sheet.Reassembly
import UtilitySheet.Template

/-!
# The finished stylesheet

The rules of the classes fill a template. Without author styles that is the stylesheet; with author
styles the two are read as one text and written again.
-/

namespace UtilitySheet.Assembly

/-- The filled template and the author styles as one text. -/
def combined (t : Template) (g : RuleGroups) (author : Text) : Text :=
  t.render g.rendered ++ "\n" ++ author

/-- The finished stylesheet. -/
def assemble (t : Template) (g : RuleGroups) (author : Option Text) (mode : Sheet.Mode) : Text :=
  match author with
  | none => t.render g.rendered
  | some css => Sheet.reassemble (combined t g css) mode ++ "\n"

/-- The notices of assembling. -/
def notices (t : Template) (g : RuleGroups) (author : Option Text) (mode : Sheet.Mode) :
    List Notice :=
  match author with
  | none => []
  | some css => Sheet.reassembleNotices (combined t g css) mode

end UtilitySheet.Assembly
