import UtilitySheet.Project.Path

/-!
# Changes that count

A file that is saved is often reported several times in a row. The cache holds the time of the last
change that counted, per path; a further change counts if its time is at least a threshold away from
that one, in either direction. A path that is new or gone always counts.
-/

namespace UtilitySheet

/-- The times of the last changes that counted, in nanoseconds. -/
structure ChangeCache where
  threshold : Nat
  /-- The times by the components of the paths. -/
  seen : List (List Text × Int) := []
  deriving DecidableEq, Repr

namespace ChangeCache

/-- The threshold of a watcher, a hundred milliseconds. -/
def debounce : Nat := 100 * 1000000

/-- The time on record for a path. -/
def time? (c : ChangeCache) (p : Path) : Option Int :=
  (c.seen.find? (·.1 == p.components)).map (·.2)

/-- The cache without a path. -/
def erase (c : ChangeCache) (p : Path) : ChangeCache :=
  { c with seen := c.seen.filter (·.1 != p.components) }

/-- The cache with a time for a path. -/
def insert (c : ChangeCache) (p : Path) (time : Int) : ChangeCache :=
  { c with seen := (p.components, time) :: (c.erase p).seen }

/-- How many paths are on record. -/
def size (c : ChangeCache) : Nat := c.seen.length

/-- Records the time of a path, if there is anything at it. -/
def prime (c : ChangeCache) (p : Path) (time : Option Int) : ChangeCache :=
  match time with
  | some time => c.insert p time
  | none => c

/-- Records a change of a path, whose time now is `time` if there is anything at it; says whether
the change counts. -/
def observe (c : ChangeCache) (p : Path) (time : Option Int) : ChangeCache × Bool :=
  match time with
  | none => (c.erase p, true)
  | some time =>
    match c.time? p with
    | none => (c.insert p time, true)
    | some last =>
      if (last - time).natAbs < c.threshold then (c, false) else (c.insert p time, true)

end ChangeCache

end UtilitySheet
