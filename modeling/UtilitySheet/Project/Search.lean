import UtilitySheet.Project.Config
import UtilitySheet.Project.Tree

/-!
# Searching files

A search lists the files of one extension at or below a root, in the order of their names, folder
by folder. A filter keeps it out of some places: the folder of dependencies wherever it stands, the
ignored places of the project and the folder that a build writes to. What the filter excludes is
not entered.
-/

namespace UtilitySheet

/-- The places that no search enters. -/
structure PathFilter where
  excluded : List Path := []
  deriving DecidableEq, Repr

namespace PathFilter

/-- The name of a folder of dependencies. -/
def dependencyFolder : Text := "node_modules"

/-- The filter of a project. -/
def ofConfig (root : Path) (c : Config) : PathFilter :=
  ⟨c.ignoredRoots root ++ [c.outputFolder root]⟩

/-- Whether a path is excluded. -/
def excludes (f : PathFilter) (p : Path) : Bool :=
  p.components.contains dependencyFolder || f.excluded.any p.startsWith

end PathFilter

/-- Which files a search lists. -/
structure Query where
  extension : Text
  filter : PathFilter

namespace Query

mutual

/-- The files at or below an entry at the path `p`, which the filter lets in. -/
def filesAt (q : Query) (p : Path) : Entry → List Path
  | .file _ _ => if p.hasExtension q.extension then [p] else []
  | .folder entries _ => filesIn q p entries

/-- The files at or below the entries of a folder at the path `p`. -/
def filesIn (q : Query) (p : Path) : List (Text × Entry) → List Path
  | [] => []
  | (name, e) :: entries =>
    (if q.filter.excludes (p.child name) then [] else filesAt q (p.child name) e)
      ++ filesIn q p entries

end

/-- The files at or below a root, if there is anything, in whatever order folders list their
entries. -/
def find (q : Query) (tree : Entry) (root : Path) : Except FileError (List Path) := do
  let e ← (tree.find root).mapError fun _ => FileError.missing
  return if q.filter.excludes root then [] else q.filesAt root e.arranged

end Query

/-! ## Which changes matter -/

/-- The extensions of the files that go into a stylesheet. -/
def watchedExtensions : List Text := ["html", "css"]

/-- Whether a change of the file at `p` can change the stylesheet: the settings always can, markup
and styles can unless they are excluded. -/
def isRelevant (root : Path) (f : PathFilter) (p : Path) : Bool :=
  p.same (Config.fileAt root) || watchedExtensions.any p.hasExtension && !f.excludes p

end UtilitySheet
