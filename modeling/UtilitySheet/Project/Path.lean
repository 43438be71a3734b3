import UtilitySheet.Text.Basic

/-!
# Paths

A path is kept as it is written: from the root or not, and the stretches between its slashes, which
are its steps. Not every step leads somewhere: an empty one, which comes of a repeated slash or of a
slash at the end, and a dot stay where they are. The parts of a path are the steps without those,
except that a dot at the very start of a path that is not rooted counts; `..` always does. Paths are
compared part by part.
-/

namespace UtilitySheet

/-- A path. -/
structure Path where
  rooted : Bool
  steps : List Text
  deriving DecidableEq, Repr

namespace Path

/-! ## Reading and writing -/

/-- The stretches between the slashes of a text, the first of which continues the reversed `cur`. -/
def piecesFrom (cur : Text) : Text → List Text
  | [] => [cur.reverse]
  | c :: s => if c = '/' then cur.reverse :: piecesFrom [] s else piecesFrom (c :: cur) s

/-- The steps that a text spells; an empty text spells none. -/
def stepsOf (s : Text) : List Text := if s.isEmpty then [] else piecesFrom [] s

/-- The path that a text spells. -/
def ofText : Text → Path
  | '/' :: s => ⟨true, stepsOf s⟩
  | s => ⟨false, stepsOf s⟩

/-- The path as it is written. -/
def toText (p : Path) : Text :=
  (if p.rooted then ['/'] else []) ++ ['/'].intercalate p.steps

theorem piecesFrom_ne_nil (cur s : Text) : piecesFrom cur s ≠ [] := by
  fun_induction piecesFrom cur s with
  | case1 => simp
  | case2 => simp
  | case3 _ _ _ _ ih => exact ih

/-- Slashes between the stretches give the text back. -/
theorem intercalate_piecesFrom (cur s : Text) :
    ['/'].intercalate (piecesFrom cur s) = cur.reverse ++ s := by
  fun_induction piecesFrom cur s with
  | case1 => simp [List.intercalate]
  | case2 cur s ih =>
    obtain ⟨p, ps, h⟩ := List.exists_cons_of_ne_nil (piecesFrom_ne_nil [] s)
    simp_all [List.intercalate]
  | case3 cur c s h ih => simpa using ih

theorem intercalate_stepsOf (s : Text) : ['/'].intercalate (stepsOf s) = s := by
  unfold stepsOf
  split
  · simp_all [List.intercalate]
  · simpa using intercalate_piecesFrom [] s

/-- A path is written as it was read. -/
theorem toText_ofText (s : Text) : (ofText s).toText = s := by
  unfold ofText
  split <;> simp [toText, intercalate_stepsOf]

/-! ## Parts -/

/-- Whether a step leads anywhere: an empty one and a dot stay where they are. -/
def moves (step : Text) : Bool := step != [] && step != ['.']

/-- The steps that lead somewhere. -/
def names (p : Path) : List Text := p.steps.filter moves

/-- The steps that count. -/
def parts (p : Path) : List Text :=
  if !p.rooted && p.steps.head? == some ['.'] then ['.'] :: p.names else p.names

/-- All there is to compare: the root, if the path starts there, and the parts. -/
def components (p : Path) : List Text := if p.rooted then ['/'] :: p.parts else p.parts

/-- Whether two paths have the same components. -/
def same (p q : Path) : Bool := p.components == q.components

/-- Whether the components of `p` start with those of `q`. -/
def startsWith (p q : Path) : Bool := q.components.isPrefixOf p.components

/-! ## Paths from paths -/

/-- The steps without a slash at the end. -/
def openEnd (steps : List Text) : List Text :=
  if steps.getLast? = some [] then steps.dropLast else steps

/-- The path of an entry of the folder `p`. -/
def child (p : Path) (name : Text) : Path := ⟨p.rooted, openEnd p.steps ++ [name]⟩

/-- The path `q` as seen from `p`. -/
def join (p q : Path) : Path :=
  if q.rooted then q
  else if !p.rooted && p.steps.isEmpty then q
  else ⟨p.rooted, openEnd p.steps ++ if q.steps.isEmpty then [[]] else q.steps⟩

/-- The path `q` as seen from `p`, with nothing but names between single slashes. -/
def resolve (p q : Path) : Path := ⟨(p.join q).rooted, (p.join q).names⟩

/-- The path without its last part. -/
def parent (p : Path) : Path := ⟨p.rooted, p.parts.dropLast⟩

/-- The path and the paths of the folders that it lies in, up to the start. -/
def ancestors (p : Path) : List Path :=
  p :: (List.range p.parts.length).reverse.map fun n => ⟨p.rooted, p.parts.take n⟩

/-- The steps behind the first `n` that lead somewhere, from the next such step on. -/
def stepsBehind : (n : Nat) → List Text → List Text
  | 0, steps => steps.dropWhile (!moves ·)
  | _ + 1, [] => []
  | n + 1, step :: steps => stepsBehind (if moves step then n else n + 1) steps

/-- The path as seen from a rooted folder that it lies in. -/
def below (folder p : Path) : Path := ⟨false, stepsBehind folder.names.length p.steps⟩

/-- The last step, slashes at the end aside, and the steps before it. -/
def split? (p : Path) : Option (List Text × Text) :=
  match p.steps.reverse.dropWhile List.isEmpty with
  | [] => none
  | last :: before => some (before.reverse, last)

/-! ## Names -/

/-- The last part, if it names a file or a folder. -/
def fileName? (p : Path) : Option Text :=
  p.parts.getLast?.filter fun name => name != ['.'] && name != ['.', '.']

/-- What stands behind the last dot of a name. A name without a dot has no extension, and a dot at
the very start counts for none. -/
def extensionOfName? (name : Text) : Option Text :=
  let reversed := name.reverse
  let stem := reversed.dropWhile (· != '.')
  if stem.length ≤ 1 then none else some (reversed.takeWhile (· != '.')).reverse

/-- The extension of the last part. -/
def extension? (p : Path) : Option Text := p.fileName?.bind extensionOfName?

/-- Whether the path has this extension, in letters of either case. -/
def hasExtension (p : Path) (extension : Text) : Bool :=
  match p.extension? with
  | some e => Text.lower e == Text.lower extension
  | none => false

end Path

end UtilitySheet
