import UtilitySheet.Assembly
import UtilitySheet.Markup
import UtilitySheet.Project.ConfigText
import UtilitySheet.Project.Search
import UtilitySheet.Text.Quoted

/-!
# Build passes

A pass reads the settings, collects the class names of all markup, compiles them, puts the rules
together with the author styles and writes one file. What it reads is gathered first, so that the
stylesheet is a function of the gathered inputs and of the compiler. A file that cannot be read is
passed over with a notice; without settings, without markup, without a compiler or without a place
to write, the pass fails and writes no file.

A builder keeps the compiler of its last pass and uses it again while the settings are the same.
What runs the patterns is given to the pass: it decides whether there is a compiler for other ones.
-/

namespace UtilitySheet

/-! ## Notices -/

namespace Notice

/-- The settings were read. -/
def configLoaded (root : Path) : Notice :=
  ⟨.debug, "loaded configuration from " ++ root.toText⟩

/-- A root that is not there. -/
def rootMissing (root : Path) : Notice :=
  ⟨.error, "cannot search " ++ root.toText ++ ": " ++ root.toText ++ " does not exist"⟩

/-- A file that cannot be read. -/
def unreadable (p : Path) (e : FileError) : Notice :=
  ⟨.error, "cannot read " ++ p.toText ++ ": " ++ e.message⟩

/-- How many class names there are. -/
def classesFound (classes files : Nat) : Notice :=
  ⟨.debug, Text.ofNat classes ++ " distinct class tokens in " ++ Text.ofNat files
    ++ " markup files"⟩

/-- A template that cannot be read. -/
def templateUnreadable (p : Path) (e : FileError) : Notice :=
  ⟨.error, "cannot read template " ++ p.toText ++ ": " ++ e.message
    ++ ", using the built-in one"⟩

/-- No author styles where some were expected. -/
def noStyles : Notice := ⟨.warn, "no css files found under CSS_PATHS"⟩

/-- A compiler is being put together. -/
def compilerStale (changes : Nat) : Notice :=
  ⟨.debug, "building compiler with " ++ Text.ofNat changes ++ " class overrides"⟩

/-- A pass is done. -/
def built (p : Path) (rules classes : Nat) : Notice :=
  ⟨.info, "built " ++ p.toText ++ " (" ++ Text.ofNat rules ++ " rules from " ++ Text.ofNat classes
    ++ " classes)"⟩

end Notice

/-! ## Errors and reports -/

/-- Why a pass fails. -/
inductive PassError where
  | configMissing (file : Path)
  | configUnreadable (error : FileError)
  | configInvalid (file : Path)
  /-- No file of markup was found at these roots. -/
  | noMarkup (roots : List Path)
  /-- There is no compiler for the settings. -/
  | compiler (error : PatternError)
  /-- The point of a number cannot be placed; the pass breaks off. -/
  | point (error : PointError)
  | outputFolder (folder : Path) (error : FileError)
  | outputFile (file : Path) (error : FileError)
  deriving DecidableEq, Repr

/-- The error in words. -/
def PassError.message : PassError → Text
  | configMissing file =>
    "configuration not found at " ++ file.toText ++ ", run `csliner init` first"
  | configUnreadable e => e.message
  | configInvalid file => "invalid configuration " ++ file.toText
  | noMarkup roots => "no markup files found under " ++ Text.quotedList (roots.map Path.toText)
  | compiler e => e.message
  | point _ => "background task failed: a decimal point cannot be placed"
  | outputFolder folder e =>
    "cannot create output directory " ++ folder.toText ++ ": " ++ e.message
  | outputFile file e => "cannot write output " ++ file.toText ++ ": " ++ e.message

/-- What a pass has done. -/
structure Report where
  output : Path
  markupFiles : Nat
  styleFiles : Nat
  classes : Nat
  rules : Nat
  deriving DecidableEq, Repr

/-! ## Reading the project -/

namespace Project

/-- The settings of the project. -/
def loadConfig (tree : Entry) (root : Path) : Except PassError Config :=
  if !tree.isFileAt (Config.fileAt root) then .error (.configMissing (Config.fileAt root))
  else
    match tree.read (Config.fileAt root) with
    | .error e => .error (.configUnreadable e)
    | .ok text =>
      match Config.ofText? text with
      | some c => .ok c
      | none => .error (.configInvalid (Config.fileAt root))

/-- The tree with the default settings, unless there is something in their place; says also
whether they were written. -/
def init (tree : Entry) (root : Path) (now : Int) : Except FileError (Entry × Bool) :=
  if tree.contains (Config.fileAt root) then .ok (tree, false)
  else (tree.write (Config.fileAt root) (some Config.defaultText) now).map (·, true)

/-- The files of several roots, root by root; a root that is not there has none. -/
def collect (q : Query) (tree : Entry) (roots : List Path) : List Path :=
  roots.flatMap fun root => (q.find tree root).toOption.getD []

/-- The roots that are not there. -/
def collectNotices (q : Query) (tree : Entry) (roots : List Path) : List Notice :=
  roots.flatMap fun root =>
    match q.find tree root with
    | .ok _ => []
    | .error _ => [.rootMissing root]

/-- The texts of the files that can be read. -/
def readAll (tree : Entry) (files : List Path) : List Text :=
  files.filterMap fun p => (tree.read p).toOption

/-- The files that cannot be read. -/
def readNotices (tree : Entry) (files : List Path) : List Notice :=
  files.flatMap fun p =>
    match tree.read p with
    | .ok _ => []
    | .error e => [.unreadable p e]

/-- The files of markup. -/
def markupFiles (tree : Entry) (root : Path) (c : Config) : List Path :=
  collect ⟨"html", .ofConfig root c⟩ tree (c.markupRoots root)

/-- The files of author styles, by the priority of their roots. -/
def styleFiles (tree : Entry) (root : Path) (c : Config) : List Path :=
  collect ⟨"css", .ofConfig root c⟩ tree (c.styleRoots root)

/-- The template: the one that is set, if it can be read, else the built-in one. -/
def template (tree : Entry) (root : Path) (c : Config) : Template :=
  match c.templateFile? root with
  | none => .builtin
  | some p =>
    match tree.read p with
    | .ok source => ⟨source⟩
    | .error _ => .builtin

/-- What there is to say about the template. -/
def templateNotices (tree : Entry) (root : Path) (c : Config) : List Notice :=
  match c.templateFile? root with
  | none => []
  | some p =>
    match tree.read p with
    | .ok _ => []
    | .error e => [.templateUnreadable p e]

/-- The author styles as one text, each file with a blank line behind it; none if there are no
files. -/
def author (tree : Entry) (root : Path) (c : Config) : Option Text :=
  if (styleFiles tree root c).isEmpty then none
  else some ((readAll tree (styleFiles tree root c)).flatMap (· ++ "\n\n"))

/-- What there is to say about the author styles. -/
def authorNotices (tree : Entry) (root : Path) (c : Config) : List Notice :=
  if c.stylePaths.isEmpty then []
  else
    collectNotices ⟨"css", .ofConfig root c⟩ tree (c.styleRoots root)
      ++ (if (styleFiles tree root c).isEmpty then [.noStyles]
          else readNotices tree (styleFiles tree root c))

/-- All that a stylesheet is made of. -/
structure Inputs where
  /-- The distinct class names of the markup. -/
  classes : List Text
  template : Template
  author : Option Text
  mode : Sheet.Mode

/-- What the settings `c` make of a project. -/
def inputs (tree : Entry) (root : Path) (c : Config) : Inputs :=
  { classes := Markup.collectAll (readAll tree (markupFiles tree root c))
    template := template tree root c
    author := author tree root c
    mode := c.mode }

/-- The notices of gathering the inputs. -/
def inputNotices (tree : Entry) (root : Path) (c : Config) : List Notice :=
  readNotices tree (markupFiles tree root c)
    ++ [.classesFound (inputs tree root c).classes.length (markupFiles tree root c).length]
    ++ templateNotices tree root c
    ++ authorNotices tree root c

/-- The stylesheet of the inputs, and the number of its rules. -/
def produce (compiler : Compiler) (i : Inputs) : Except PointError (Text × Nat) :=
  (compiler.compile i.classes).map fun groups =>
    (Assembly.assemble i.template groups i.author i.mode, groups.size)

/-- The notices of `produce`. -/
def produceNotices (compiler : Compiler) (i : Inputs) : List Notice :=
  compiler.notices i.classes ++
    match compiler.compile i.classes with
    | .ok groups => Assembly.notices i.template groups i.author i.mode
    | .error _ => []

/-- Writes the stylesheet to a path, in a folder that is made if need be; answers the tree that this
leaves behind. -/
def writeOutput (tree : Entry) (p : Path) (css : Text) (now : Int) :
    Entry × Except PassError Unit :=
  let made := tree.makeFolder now p.parent
  match made.error with
  | some e => (made.tree, .error (.outputFolder p.parent e))
  | none =>
    match made.tree.write p (some css) now with
    | .error e => (made.tree, .error (.outputFile p e))
    | .ok written => (written, .ok ())

end Project

/-! ## Passes -/

/-- A builder of one project, with the compiler of its last pass. -/
structure Builder where
  root : Path
  compiler : Option Compiler := none

/-- What a pass leaves behind. -/
structure PassResult where
  builder : Builder
  tree : Entry
  outcome : Except PassError Report
  notices : List Notice

namespace Builder

/-- The compiler for some settings: the one at hand if it was made for the same settings, else a new
one, if the engine takes its patterns. -/
def compilerFor (b : Builder) (engine : PatternEngine) (s : Settings) :
    Except PatternError Compiler :=
  match b.compiler with
  | some compiler => if compiler.settings == s then .ok compiler else Compiler.build engine s
  | none => Compiler.build engine s

/-- The notices of `compilerFor`. -/
def compilerNotices (b : Builder) (engine : PatternEngine) (s : Settings) : List Notice :=
  let fresh := Notice.compilerStale s.classes.length :: Compiler.buildNotices engine s
  match b.compiler with
  | some compiler => if compiler.settings == s then [] else fresh
  | none => fresh

/-- A pass that fails, and the builder and the tree that it leaves. -/
def refuse (b : Builder) (tree : Entry) (e : PassError) (notices : List Notice) : PassResult :=
  { builder := b, tree, outcome := .error e, notices }

/-- One pass over the project in a tree. -/
def build (b : Builder) (engine : PatternEngine) (tree : Entry) (now : Int) : PassResult :=
  match Project.loadConfig tree b.root with
  | .error e => b.refuse tree e []
  | .ok c =>
    let files := Project.markupFiles tree b.root c
    let found := Notice.configLoaded b.root
      :: Project.collectNotices ⟨"html", .ofConfig b.root c⟩ tree (c.markupRoots b.root)
    if files.isEmpty then b.refuse tree (.noMarkup (c.markupRoots b.root)) found
    else
      let inputs := Project.inputs tree b.root c
      let prepared := found ++ Project.inputNotices tree b.root c
        ++ b.compilerNotices engine c.settings
      match b.compilerFor engine c.settings with
      -- The compiler at hand was given up before the new one was built.
      | .error e => refuse { root := b.root } tree (.compiler e) prepared
      | .ok compiler =>
        let kept : Builder := { b with compiler := some compiler }
        let said := prepared ++ Project.produceNotices compiler inputs
        match Project.produce compiler inputs with
        | .error e => kept.refuse tree (.point e) said
        | .ok (css, rules) =>
          let output := c.output b.root
          match Project.writeOutput tree output css now with
          | (left, .error e) => kept.refuse left e said
          | (left, .ok ()) =>
            { builder := kept
              tree := left
              outcome := .ok
                { output, markupFiles := files.length,
                  styleFiles :=
                    (Project.readAll tree (Project.styleFiles tree b.root c)).length,
                  classes := inputs.classes.length, rules }
              notices := said ++ [.built output rules inputs.classes.length] }

/-- A pass on its own: if it breaks off, the builder starts afresh. -/
def runPass (b : Builder) (engine : PatternEngine) (tree : Entry) (now : Int) : PassResult :=
  let result := b.build engine tree now
  match result.outcome with
  | .error (.point _) => { result with builder := { root := b.root } }
  | _ => result

end Builder

end UtilitySheet
