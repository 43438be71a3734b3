import UtilitySheet.Project.ChangeCache
import UtilitySheet.Project.Pass

/-!
# Watching a project

A watcher runs a pass and then looks at the reports of changes, one batch of paths after the other.
A path of a batch counts if a change of it can matter for the settings as they are by then, and if
the cache lets the change through. If any path counts, there is one pass for the whole batch. Where
the reports come from is no part of the library.
-/

namespace UtilitySheet

namespace Notice

/-- A change that counts. -/
def changeDetected (p : Path) : Notice := ⟨.debug, "change detected: " ++ p.toText⟩

/-- The first pass is done, and changes are waited for. -/
def watching (root : Path) : Notice := ⟨.info, "watching " ++ root.toText ++ " for changes"⟩

/-- A pass failed, and the watcher goes on. -/
def buildFailed (e : PassError) : Notice := ⟨.error, "build failed: " ++ e.message⟩

end Notice

/-- The notices of a pass of a watcher. -/
def PassResult.watchNotices (result : PassResult) : List Notice :=
  result.notices ++
    match result.outcome with
    | .ok _ => []
    | .error e => [.buildFailed e]

namespace Project

/-- The filter of the settings as they are, or of default ones if there are none. -/
def currentFilter (tree : Entry) (root : Path) : PathFilter :=
  .ofConfig root ((loadConfig tree root).toOption.getD {})

/-- The notices of `currentFilter`. -/
def filterNotices (tree : Entry) (root : Path) : List Notice :=
  match loadConfig tree root with
  | .ok _ => [.configLoaded root]
  | .error _ => []

/-- The files whose changes can matter, and the settings. -/
def watchedFiles (tree : Entry) (root : Path) : List Path :=
  (watchedExtensions.flatMap fun extension =>
      ((Query.mk extension (currentFilter tree root)).find tree root).toOption.getD [])
    ++ [Config.fileAt root]

end Project

/-- The builder of a project, and the changes that counted so far. -/
structure Watcher where
  builder : Builder
  cache : ChangeCache

/-- What a watcher does at a time. -/
structure WatchStep where
  watcher : Watcher
  /-- The pass that was run, if there was one. -/
  pass : Option PassResult
  notices : List Notice

namespace Watcher

/-- The cache after a batch of reports, and the paths that count, in order. -/
def look (root : Path) (f : PathFilter) (tree : Entry) :
    ChangeCache → List Path → ChangeCache × List Path
  | cache, [] => (cache, [])
  | cache, p :: paths =>
    if isRelevant root f p then
      let (seen, counts) := cache.observe p (tree.timeAt? p)
      let (last, counted) := look root f tree seen paths
      (last, if counts then p :: counted else counted)
    else look root f tree cache paths

/-- Watches a project from a first pass on, which is run whatever there is. -/
def start (root : Path) (engine : PatternEngine) (tree : Entry) (now : Int) : WatchStep :=
  let pass := Builder.runPass { root } engine tree now
  let cache := (Project.watchedFiles pass.tree root).foldl
    (fun cache p => cache.prime p (pass.tree.timeAt? p)) { threshold := ChangeCache.debounce }
  { watcher := ⟨pass.builder, cache⟩
    pass := some pass
    notices := pass.watchNotices ++ Project.filterNotices pass.tree root ++ [.watching root] }

/-- Looks at a batch of reports, and runs a pass if a path of it counts. -/
def step (w : Watcher) (engine : PatternEngine) (tree : Entry) (paths : List Path) (now : Int) :
    WatchStep :=
  let root := w.builder.root
  let (cache, counted) := look root (Project.currentFilter tree root) tree w.cache paths
  let said := Project.filterNotices tree root ++ counted.map .changeDetected
  if counted.isEmpty then { watcher := { w with cache }, pass := none, notices := said }
  else
    let pass := w.builder.runPass engine tree now
    { watcher := ⟨pass.builder, cache⟩, pass := some pass, notices := said ++ pass.watchNotices }

end Watcher

end UtilitySheet
