import UtilitySheet.Compiler
import UtilitySheet.Json.Reader
import UtilitySheet.Project.Path
import UtilitySheet.Sheet.Reassembly

/-!
# Project settings

The settings of a project stand in one JSON file at its root. Every member may be left out. Paths
are written relative to the root; what they mean is said here: which folders hold markup and
stylesheets, which are left alone, and which file is written.
-/

namespace UtilitySheet

/-- A place where author styles stand. Places of lower priority come first; a place that is only a
path has priority zero. -/
structure StyleRoot where
  path : Text
  priority : Option Float := none

/-- The priority of a place, zero if none is set. -/
def StyleRoot.weight (r : StyleRoot) : Float := r.priority.getD 0

/-- The settings of a project, with paths as they are written. -/
structure Config where
  buildPath : Text := "build/"
  markupPaths : List Text := [['.']]
  stylePaths : List StyleRoot := []
  ignoredPaths : List Text := []
  settings : Settings := {}
  merge : Bool := false
  templatePath : Option Text := none

namespace Config

/-- The name of the settings file. -/
def fileName : Text := "csliner.config.json"

/-- The name of the stylesheet that is written if none is set. -/
def defaultOutput : Text := "app.css"

/-- What a new settings file says: every default. -/
def defaultLines : List Text :=
  ["\x7b",
   "  \"BUILD_PATH\": \"build/\",",
   "  \"HTML_PATHS\": [",
   "    \".\"",
   "  ],",
   "  \"CSS_PATHS\": [],",
   "  \"IGNORE_PATHS\": [],",
   "  \"SET_CLASSES\": \x7b\x7d,",
   "  \"SET_UNITS_PRECISION\": \x7b\x7d,",
   "  \"MERGE_SAME_SELECTORS\": false",
   "\x7d"]

/-- The text of a new settings file. -/
def defaultText : Text := defaultLines.flatMap (· ++ "\n")

/-! ## What the paths mean -/

/-- Where the settings file of a project stands. -/
def fileAt (root : Path) : Path := root.child fileName

/-- How a stylesheet is put together. -/
def mode (c : Config) : Sheet.Mode := if c.merge then .merge else .concat

/-- Where markup is searched; the root itself if no place is set. -/
def markupRoots (c : Config) (root : Path) : List Path :=
  if c.markupPaths.isEmpty then [root] else c.markupPaths.map fun p => root.resolve (.ofText p)

/-- Where author styles are searched, by increasing priority; equal priorities keep their order. -/
def styleRoots (c : Config) (root : Path) : List Path :=
  (c.stylePaths.mergeSort fun a b => weightLe a.weight b.weight).map fun r =>
    root.resolve (.ofText r.path)

/-- The places that are left alone. -/
def ignoredRoots (c : Config) (root : Path) : List Path :=
  c.ignoredPaths.map fun p => root.resolve (.ofText p)

/-- The file that a build writes: a path that ends in `.css` itself, `app.css` beside a path with
another extension, and else `app.css` in the folder of that path. -/
def output (c : Config) (root : Path) : Path :=
  let path := root.resolve (.ofText c.buildPath)
  match path.extension? with
  | some e => if e = "css".toList then path else path.parent.child defaultOutput
  | none => path.child defaultOutput

/-- The folder of the file that a build writes. -/
def outputFolder (c : Config) (root : Path) : Path := (c.output root).parent

/-- Where the template stands, if it is not the built-in one. -/
def templateFile? (c : Config) (root : Path) : Option Path :=
  c.templatePath.map fun p => root.resolve (.ofText p)

end Config

end UtilitySheet
