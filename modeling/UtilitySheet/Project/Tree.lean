import UtilitySheet.Project.Path

/-!
# File trees

A tree of folders and files, as far as a build can see it: the text of a file, unless its bytes are
no text, and the time of its last change in nanoseconds. There are no links: every entry stands in
one folder, so what is written at the names of one file is written to no other. A folder may list
its entries in any order; changes keep the order of names. Paths are followed from the root of the
tree, step by step: every step is taken in a folder that exists, `..` leads back from it, and a
slash or a dot at the end stays in it. Names and paths have a greatest length.

A change of the tree can stop half way. Folders on the way to a new one are made first and stay if
the last cannot be made; a folder is emptied before it is removed.
-/

namespace UtilitySheet

/-- Why a file or a folder cannot be used. -/
inductive FileError where
  | missing
  | notFolder
  | isFolder
  | notText
  | occupied
  | nameTooLong
  /-- The path holds a character that ends every path. -/
  | endMark
  /-- The path ends in a dot, which names no entry of a folder. -/
  | unnamed
  | notEmpty
  | inUse
  deriving DecidableEq, Repr

/-- The error in words. -/
def FileError.message : FileError → Text
  | missing => "No such file or directory (os error 2)"
  | notFolder => "Not a directory (os error 20)"
  | isFolder => "Is a directory (os error 21)"
  | notText => "stream did not contain valid UTF-8"
  | occupied => "File exists (os error 17)"
  | nameTooLong => "File name too long (os error 36)"
  | endMark => "file name contained an unexpected NUL byte"
  | unnamed => "Invalid argument (os error 22)"
  | notEmpty => "Directory not empty (os error 39)"
  | inUse => "Device or resource busy (os error 16)"

/-- A file or a folder. -/
inductive Entry where
  /-- The text of a file, if its bytes are text, and the time of its last change. -/
  | file (text : Option Text) (time : Int)
  | folder (entries : List (Text × Entry)) (time : Int)

namespace Entry

/-- Whether the entry is a folder. -/
def isFolder : Entry → Bool
  | folder _ _ => true
  | file _ _ => false

/-- The time of the last change. -/
def time : Entry → Int
  | file _ time => time
  | folder _ time => time

/-- The entries of a folder. -/
def entries : Entry → List (Text × Entry)
  | folder entries _ => entries
  | file _ _ => []

/-- An empty folder. -/
def emptyFolder (time : Int) : Entry := folder [] time

/-! ## By names -/

/-- The entry that the names lead to. -/
def get? (e : Entry) : List Text → Option Entry
  | [] => some e
  | name :: names =>
    match e.entries.find? (·.1 == name) with
    | some (_, child) => child.get? names
    | none => none

/-- The entries with one more, in place of the one of its name or in the order of names. -/
def insertNamed (name : Text) (child : Entry) : List (Text × Entry) → List (Text × Entry)
  | [] => [(name, child)]
  | (n, e) :: es =>
    if n = name then (n, child) :: es
    else if name < n then (name, child) :: (n, e) :: es
    else (n, e) :: insertNamed name child es

mutual

/-- The tree with the entries of every folder in the order of their names. -/
def arranged : Entry → Entry
  | .file text time => .file text time
  | .folder entries time => .folder (arrangedIn entries) time

/-- The entries of a folder in the order of their names. -/
def arrangedIn : List (Text × Entry) → List (Text × Entry)
  | [] => []
  | (name, e) :: entries => insertNamed name (arranged e) (arrangedIn entries)

end

/-- The entry with `new` where the names lead; nothing changes if they lead through a file or
through nothing. -/
def put (e : Entry) (names : List Text) (new : Entry) : Entry :=
  match names with
  | [] => new
  | [name] =>
    match e with
    | folder entries time => folder (insertNamed name new entries) time
    | file text time => file text time
  | name :: names =>
    match e, e.entries.find? (·.1 == name) with
    | folder entries time, some (_, child) =>
      folder (insertNamed name (child.put names new) entries) time
    | e, _ => e

/-- The entry without what the names lead to. -/
def erase (e : Entry) : (names : List Text) → Entry
  | [] => e
  | [name] =>
    match e with
    | folder entries time => folder (entries.filter (·.1 != name)) time
    | file text time => file text time
  | name :: names =>
    match e, e.entries.find? (·.1 == name) with
    | folder entries time, some (_, child) =>
      folder (insertNamed name (child.erase names) entries) time
    | e, _ => e

/-! ## By paths -/

/-- The greatest number of bytes in a name. -/
def longestName : Nat := 255

/-- The greatest number of bytes in a path. -/
def longestPath : Nat := 4095

/-- The number of bytes that a text takes. -/
def byteCount (s : Text) : Nat := s.foldr (fun c n => c.utf8Size + n) 0

/-- The names that the steps lead to from the folder `here`. -/
def follow (e : Entry) (here : List Text) : (steps : List Text) → Except FileError (List Text)
  | [] => .ok here
  | step :: steps =>
    match e.get? here with
    | none => .error .missing
    | some (file _ _) => .error .notFolder
    | some (folder _ _) =>
      if step = ['.', '.'] then e.follow here.dropLast steps
      else if !Path.moves step then e.follow here steps
      else if byteCount step > longestName then .error .nameTooLong
      else e.follow (here ++ [step]) steps

/-- The names of the folder that the steps lead to. -/
def enter (e : Entry) (steps : List Text) : Except FileError (List Text) :=
  e.follow [] (steps ++ [[]])

/-- Refuses what is no path at all. -/
def checkPath (p : Path) : Except FileError Unit :=
  if p.toText.contains '\x00' then .error .endMark
  else if byteCount p.toText > longestPath then .error .nameTooLong
  else .ok ()

/-- The names that a path leads to. -/
def locate (e : Entry) (p : Path) : Except FileError (List Text) := do
  checkPath p
  e.follow [] p.steps

/-- The entry at a path. -/
def find (e : Entry) (p : Path) : Except FileError Entry := do
  match e.get? (← e.locate p) with
  | some found => return found
  | none => throw .missing

/-- Whether there is anything at a path. -/
def contains (e : Entry) (p : Path) : Bool := (e.find p).toOption.isSome

/-- Whether there is a file at a path. -/
def isFileAt (e : Entry) (p : Path) : Bool :=
  match e.find p with
  | .ok found => !found.isFolder
  | .error _ => false

/-- Whether there is a folder at a path. -/
def isFolderAt (e : Entry) (p : Path) : Bool :=
  match e.find p with
  | .ok found => found.isFolder
  | .error _ => false

/-- The text of the file at a path. -/
def read (e : Entry) (p : Path) : Except FileError Text := do
  match ← e.find p with
  | file (some text) _ => return text
  | file none _ => throw .notText
  | folder _ _ => throw .isFolder

/-- The time of the last change at a path, if there is anything. -/
def timeAt? (e : Entry) (p : Path) : Option Int := (e.find p).toOption.map time

/-! ## Changes -/

/-- What an attempt to change a tree leaves behind, and what stopped it, if anything did. -/
structure Attempt where
  tree : Entry
  error : Option FileError := none

/-- The tree with one new folder, at a path where there is nothing. -/
def addFolder (e : Entry) (now : Int) (p : Path) : Except FileError Entry := do
  checkPath p
  match p.split? with
  | none => throw .occupied
  | some (before, last) =>
    let here ← e.enter before
    if last = ['.'] ∨ last = ['.', '.'] then throw .occupied
    if byteCount last > longestName then throw .nameTooLong
    match e.get? (here ++ [last]) with
    | some _ => throw .occupied
    | none => return e.put (here ++ [last]) (emptyFolder now)

/-- What is left of the attempt to add a folder: one that is there already will do. -/
def settle (e : Entry) (p : Path) : Except FileError Entry → Attempt
  | .ok added => { tree := added }
  | .error stopped =>
    if stopped = .occupied && e.isFolderAt p then { tree := e }
    else { tree := e, error := some stopped }

/-- Makes the folder at the first of the paths, each of which lies in the next one; the folders that
it lies in are made if it cannot be added without them. -/
def makeFolders (e : Entry) (now : Int) : (paths : List Path) → Attempt
  | [] => { tree := e, error := some .missing }
  | p :: above =>
    match e.addFolder now p with
    | .error .missing =>
      let around := e.makeFolders now above
      if around.error.isSome then around
      else around.tree.settle p (around.tree.addFolder now p)
    | outcome => e.settle p outcome

/-- Makes the folder at a path and all the folders on the way. -/
def makeFolder (e : Entry) (now : Int) (p : Path) : Attempt := e.makeFolders now p.ancestors

/-- The tree with a file at a path, in a folder that exists. -/
def write (e : Entry) (p : Path) (text : Option Text) (time : Int) : Except FileError Entry := do
  let names ← e.locate p
  match e.get? names with
  | some (folder _ _) => throw .isFolder
  | _ => return e.put names (file text time)

/-- The tree without the empty folder at a path. -/
def dropFolder (e : Entry) (p : Path) : Except FileError Entry := do
  match p.split? with
  | none => throw .inUse
  | some (before, last) =>
    let here ← e.enter before
    if last = ['.'] then throw .unnamed
    if last = ['.', '.'] then throw .notEmpty
    match e.get? (here ++ [last]) with
    | none => throw .missing
    | some (file _ _) => throw .notFolder
    | some (folder entries _) =>
      if entries.isEmpty then return e.erase (here ++ [last]) else throw .notEmpty

/-- Removes the file or the folder at a path. A folder is emptied first; that it is gone with what
was in it, because its path leads through itself, is no error. -/
def remove (e : Entry) (p : Path) : Attempt :=
  match e.locate p with
  | .error stopped => { tree := e, error := some stopped }
  | .ok names =>
    match e.get? names with
    | none => { tree := e, error := some .missing }
    | some (file _ _) => { tree := e.erase names }
    | some (folder _ time) =>
      let emptied := e.put names (emptyFolder time)
      match emptied.dropFolder p with
      | .ok removed => { tree := removed }
      | .error .missing => { tree := emptied }
      | .error stopped => { tree := emptied, error := some stopped }

end Entry

end UtilitySheet
