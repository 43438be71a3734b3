import UtilitySheet.Project.CommandLine
import UtilitySheet.Project.Spinner
import UtilitySheet.Project.Watch

/-!
# The program

Reads the part of the file system that a pass can see into a tree, runs the pass on the tree, and
writes the stylesheet that it leaves there. Changes are reported by looking at the times of the
files again and again; what they lead to is up to the watcher.
-/

namespace UtilitySheet.Program

/-! ## The file system as a tree -/

/-- The text of a file, if its bytes are text. -/
def readText (file : String) : IO (Option Text) := do
  return (String.fromUTF8? (← IO.FS.readBinFile file)).map String.toList

/-- A path as the system takes it. -/
def systemPath (p : Path) : String := String.ofList p.toText

/-- A time in nanoseconds. -/
def nanoseconds (t : IO.FS.SystemTime) : Int := t.sec * 1000000000 + (t.nsec.toNat : Int)

/-- The time now, as far as the tree is concerned. -/
def now : IO Int := do return (← IO.monoNanosNow : Nat)

/-- The entry at a path, without the places that the filter excludes and without links. -/
partial def loadEntry (f : PathFilter) (p : Path) : IO (Option Entry) := do
  let folder ← IO.currentDir
  let place := folder / systemPath p
  unless ← place.pathExists do return none
  let found ← place.metadata
  let time := nanoseconds found.modified
  match found.type with
  | .file => return some (.file (← readText place.toString) time)
  | .dir =>
    let mut entries : List (Text × Entry) := []
    for child in ← place.readDir do
      let name := child.fileName.toList
      let kind := (← child.path.symlinkMetadata).type
      unless f.excludes (p.child name) || kind matches .symlink do
        if let some e ← loadEntry f (p.child name) then
          entries := Entry.insertNamed name e entries
    return some (.folder entries time)
  | _ => return none

/-- The tree with what there is at a path. -/
def addPath (f : PathFilter) (tree : Entry) (p : Path) : IO Entry := do
  match ← loadEntry f p with
  | none => return tree
  | some e =>
    let made := (tree.makeFolder e.time p.parent).tree
    match made.locate p with
    | .ok names => return made.put names e
    | .error _ => return made

/-- The tree with the folders that lead to a path, and with what stands in their way. -/
def addAncestors (tree : Entry) (p : Path) : IO Entry := do
  let mut tree := tree
  let folder ← IO.currentDir
  for above in p.ancestors.reverse do
    let place := folder / systemPath above
    if ← place.pathExists then
      let e : Entry := if ← place.isDir then .emptyFolder 0 else .file none 0
      if !tree.contains above then
        match tree.locate above with
        | .ok names => tree := tree.put names e
        | .error _ => pure ()
  return tree

/-- The tree with the part of the file system that a pass over the project at `root` can see. -/
def loadProject (tree : Entry) (root : Path) : IO Entry := do
  let tree ← addPath {} tree (Config.fileAt root)
  match Project.loadConfig tree root with
  | .error _ => return tree
  | .ok c =>
    let filter := PathFilter.ofConfig root c
    let mut tree := tree
    for p in c.markupRoots root ++ c.styleRoots root do
      tree ← addPath filter tree p
    for p in (c.templateFile? root).toList do
      tree ← addPath filter tree p
    tree ← addPath {} tree (Config.fileAt root)
    addAncestors tree (c.output root)

/-- The part of the file system that a watcher of the project at `root` can see. -/
def loadWatched (root : Path) : IO Entry := do
  let settings ← addPath {} (.emptyFolder 0) (Config.fileAt root)
  loadProject (← addPath (Project.currentFilter settings root) (.emptyFolder 0) root) root

/-! ## Notices -/

/-- Where notices go and how many of them. -/
structure Journal where
  file : String
  least : Level

/-- The journal of a project. -/
def Journal.of (root : Path) (verbose : Bool) : IO Journal := do
  let folder := root.child "csliner-log"
  try IO.FS.createDirAll (systemPath folder) catch _ => pure ()
  return ⟨systemPath (folder.child "csliner.log"), if verbose then .debug else .info⟩

/-- Writes notices to the standard error stream and to the journal's file. -/
def Journal.say (j : Journal) (notices : List Notice) : IO Unit := do
  let text := String.ofList (Notice.lines (Notice.upTo j.least notices))
  unless text.isEmpty do
    (← IO.getStderr).putStr text
    try
      IO.FS.withFile j.file .append fun h => h.putStr text
    catch _ => pure ()

/-! ## Commands -/

/-- Writes the output of a pass from the tree it left. -/
def writeOutput (tree : Entry) (p : Path) : IO Unit := do
  match tree.read p with
  | .ok css =>
    IO.FS.createDirAll (systemPath p.parent)
    IO.FS.writeFile (systemPath p) (String.ofList css)
  | .error _ => pure ()

/-- Makes the folders that a pass leaves behind when it fails at writing. -/
def leaveFolders (e : PassError) : IO Unit := do
  let folder? := match e with
    | .outputFolder p _ => some p
    | .outputFile p _ => some p.parent
    | _ => none
  for p in folder?.toList do
    try IO.FS.createDirAll (systemPath p) catch _ => pure ()

/-- Carries out what a pass came to. -/
def carryOut (result : PassResult) : IO Unit :=
  match result.outcome with
  | .ok report => writeOutput result.tree report.output
  | .error e => leaveFolders e

/-- Shows on a terminal that something is being done. -/
def indicating {α : Type} (action : IO α) : IO α := do
  let err ← IO.getStderr
  let terminal ← err.isTty
  let (spinner, drawn) := (({} : Spinner).command .start).sleep 100 1
  if terminal then err.putStr (String.ofList drawn)
  let result ← action
  if terminal then err.putStr (String.ofList spinner.shutdown)
  return result

/-- One pass; answers whether it succeeded. -/
def runBuild (j : Journal) (root : Path) : IO Bool := do
  let result ← indicating do
    let result := Builder.runPass { root } .unlimited (← loadProject (.emptyFolder 0) root) (← now)
    carryOut result
    return result
  j.say result.notices
  match result.outcome with
  | .ok _ => return true
  | .error e =>
    j.say [⟨.error, e.message⟩]
    return false

/-- Writes default settings unless there are some. -/
def runInit (j : Journal) (root : Path) : IO Bool := do
  let file := Config.fileAt root
  let tree ← addAncestors (.emptyFolder 0) file
  match Project.init tree root (← now) with
  | .ok (_, false) =>
    j.say [⟨.info, file.toText ++ " already exists"⟩]
    return true
  | .ok (tree, true) =>
    writeOutput tree file
    j.say [⟨.info, "created " ++ file.toText⟩]
    return true
  | .error e =>
    j.say [⟨.error, e.message⟩]
    return false

/-- The files whose changes can matter, with the times of their last changes. -/
def timesOf (tree : Entry) (root : Path) : List (Path × Int) :=
  (Project.watchedFiles tree root).filterMap fun p => (tree.timeAt? p).map (p, ·)

/-- The paths that are new, of another time, or gone. -/
def reports (before after : List (Path × Int)) : List Path :=
  (after.filter (!before.contains ·)).map (·.1)
    ++ (before.map (·.1)).filter fun p => !after.any (·.1 == p)

/-- Says what a step of the watcher came to, and carries out its pass. -/
def settle (j : Journal) (done : WatchStep) : IO Unit := do
  for pass in done.pass.toList do carryOut pass
  j.say done.notices

/-- Hands the watcher a batch of reports again and again. -/
partial def follow (j : Journal) (w : Watcher) (before : List (Path × Int)) : IO Unit := do
  IO.sleep 100
  let root := w.builder.root
  let tree ← loadWatched root
  let after := timesOf tree root
  let paths := reports before after
  if paths.isEmpty then follow j w after
  else
    let done ← indicating do return w.step .unlimited tree paths (← now)
    settle j done
    follow j done.watcher after

/-- Runs a pass, and another one after every change. -/
def runWatch (j : Journal) (root : Path) : IO Bool := do
  let tree ← loadWatched root
  let done ← indicating do return Watcher.start root .unlimited tree (← now)
  settle j done
  follow j done.watcher (timesOf (← loadWatched root) root)
  return true

/-- The root of the project: the folder that is given, or the one at hand. -/
def projectRoot (given : Option Text) : IO Path := do
  let place ← match given with
    | some dir => IO.FS.realPath (String.ofList dir)
    | none => IO.currentDir
  return Path.ofText place.toString.toList

/-- Runs an invocation; answers whether it succeeded. -/
def run (i : Invocation) : IO Bool := do
  let root ← projectRoot i.root
  let j ← Journal.of root i.verbose
  match i.command with
  | .init => runInit j root
  | .build => runBuild j root
  | .watch => runWatch j root

end UtilitySheet.Program

/-- Runs the program with its arguments; the exit code is zero for success. -/
def main (arguments : List String) : IO UInt32 := do
  match UtilitySheet.Invocation.read (arguments.map String.toList) with
  | .error .help =>
    (← IO.getStdout).putStr (String.ofList UtilitySheet.Invocation.usage)
    return 0
  | .error .version =>
    (← IO.getStdout).putStr (String.ofList UtilitySheet.Invocation.version)
    return 0
  | .error (.wrong message) =>
    (← IO.getStderr).putStr ("error: " ++ String.ofList message ++ "\n")
    return 2
  | .ok i =>
    try
      return if ← UtilitySheet.Program.run i then 0 else 1
    catch e =>
      (← IO.getStderr).putStr (toString e ++ "\n")
      return 1
