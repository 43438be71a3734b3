import UtilitySheet.Text.Basic

/-!
# Constructs of a stylesheet

A construct is a statement, which runs from an at sign to a semicolon, or a block, a head with a
body in braces. Outside of constructs a text is read in runs. A run starts at the first character
that is no brace and no semicolon; an at sign that comes first, or after blanks only, starts an
at-rule. A brace behind a run makes a block of it, a semicolon makes a statement of an at-rule, and
any other semicolon or closing brace drops the run. Within quotes, parentheses and brackets a
semicolon and an at sign are ordinary characters. A lone at sign is no head and no statement.

A block without its closing brace runs to the end of the text.
-/

namespace UtilitySheet.Sheet

/-- A statement or a block. -/
inductive Construct where
  /-- An at-rule without a body, up to its semicolon. -/
  | statement (text : Text)
  /-- A head as it is written and the body behind it, with a closing brace or without. -/
  | block (head body : Text) (closed : Bool)
  deriving DecidableEq, Repr

/-- The construct as it is written. -/
def Construct.text : Construct → Text
  | statement text => text
  | block head body closed => head ++ '\x7b' :: body ++ (if closed then ['\x7d'] else [])

/-- The body behind an opening brace, behind the reversed text `acc`, and what follows its closing
brace if there is one; `depth` braces of the body are open. -/
def splitBody (acc : Text) : (depth : Nat) → Text → Text × Option Text
  | _, [] => (acc.reverse, none)
  | depth, c :: s =>
    if c = '\x7b' then splitBody (c :: acc) (depth + 1) s
    else if c = '\x7d' then
      match depth with
      | 0 => (acc.reverse, some s)
      | depth + 1 => splitBody (c :: acc) depth s
    else splitBody (c :: acc) depth s

/-! ## Runs -/

/-- A run that is being read; without characters it has not started. -/
structure Run where
  /-- Its characters, the last one first. -/
  chars : Text
  atRule : Bool
  /-- Whether there are only blanks so far. -/
  blank : Bool
  /-- How many parentheses and brackets are open. -/
  nesting : Nat
  /-- The quote that is open. -/
  quote : Option Char
  deriving DecidableEq, Repr

namespace Run

/-- The run that has not started. -/
def empty : Run := ⟨[], false, true, 0, none⟩

/-- The run that an at sign starts. -/
def ofAtSign : Run := ⟨['@'], true, false, 0, none⟩

/-- Whether the run can be the head of a block: it has started and is no lone at sign. -/
def isHead (r : Run) : Bool := if r.atRule then r.chars.length > 1 else !r.chars.isEmpty

/-- Whether a semicolon or an at sign is an ordinary character here. -/
def guarded (r : Run) : Bool := r.nesting > 0 || r.quote.isSome

/-- The run with one more character. -/
def push (r : Run) (c : Char) : Run :=
  let r := { r with chars := c :: r.chars, blank := r.blank && Text.isBlank c }
  match r.quote with
  | some q => if c = q then { r with quote := none } else r
  | none =>
    if c = '"' ∨ c = '\'' then { r with quote := some c }
    else if c = '(' ∨ c = '[' then { r with nesting := r.nesting + 1 }
    else if c = ')' ∨ c = ']' then { r with nesting := r.nesting - 1 }
    else r

end Run

/-- What a character does to a run. -/
inductive Step where
  /-- It belongs to the run. -/
  | extend
  /-- It ends the run, which starts no construct. -/
  | drop
  /-- It starts an at-rule in place of the run. -/
  | restart
  /-- It ends a statement. -/
  | statement
  /-- It opens the body of a block. -/
  | block
  deriving DecidableEq, Repr

/-- What the character `c` does behind the run `r`. -/
def Run.step (r : Run) (c : Char) : Step :=
  if c = '\x7b' then if r.isHead then .block else .drop
  else if c = '\x7d' then .drop
  else if c = ';' ∧ !r.guarded then if r.atRule && r.isHead then .statement else .drop
  else if c = '@' ∧ r.blank ∧ !r.guarded then .restart
  else .extend

/-! ## The first construct -/

/-- A construct and the text around it. -/
structure Found where
  before : Text
  construct : Construct
  rest : Text
  deriving DecidableEq, Repr

/-- The block with this head whose body starts `s`. -/
def Found.block (before head s : Text) : Found :=
  match splitBody [] 0 s with
  | (body, some rest) => ⟨before, .block head body true, rest⟩
  | (body, none) => ⟨before, .block head body false, []⟩

/-- The first construct of a text, behind the reversed text `before` and the run `r` that is being
read. -/
def findFrom (before : Text) (r : Run) : Text → Option Found
  | [] => none
  | c :: s =>
    match r.step c with
    | .extend => findFrom before (r.push c) s
    | .drop => findFrom (c :: (r.chars ++ before)) .empty s
    | .restart => findFrom (r.chars ++ before) .ofAtSign s
    | .statement => some ⟨before.reverse, .statement (c :: r.chars).reverse, s⟩
    | .block => some (.block before.reverse r.chars.reverse s)

/-- The first construct of a text. -/
def nextConstruct (s : Text) : Option Found := findFrom [] .empty s

/-! ## Nothing is lost -/

theorem splitBody_eq {acc s body : Text} {depth : Nat} {rest : Option Text}
    (h : splitBody acc depth s = (body, rest)) :
    acc.reverse ++ s = body ++ rest.elim [] ('\x7d' :: ·) := by
  fun_induction splitBody acc depth s with
  | case1 => obtain ⟨rfl, rfl⟩ := Prod.mk.inj h; simp
  | case2 acc depth s ih => simpa using ih h
  | case3 acc s => obtain ⟨rfl, rfl⟩ := Prod.mk.inj h; simp
  | case4 acc s depth _ ih => simpa using ih h
  | case5 acc depth c s _ _ ih => simpa using ih h

theorem Found.block_eq (before head s : Text) :
    before ++ (head ++ '\x7b' :: s)
      = (Found.block before head s).before ++ ((Found.block before head s).construct.text
        ++ (Found.block before head s).rest) := by
  unfold Found.block
  split <;> rename_i h <;> have := splitBody_eq h <;> simp_all [Construct.text]

theorem Run.chars_push (r : Run) (c : Char) : (r.push c).chars = c :: r.chars := by
  simp only [Run.push]
  split
  · split <;> rfl
  · split
    · rfl
    · split
      · rfl
      · split <;> rfl

theorem Run.step_eq_block {r : Run} {c : Char} (h : r.step c = .block) : c = '\x7b' := by
  simp only [Run.step] at h
  grind

theorem Run.step_eq_restart {r : Run} {c : Char} (h : r.step c = .restart) : c = '@' := by
  simp only [Run.step] at h
  grind

/-- What was read, the construct and the rest make up the text. -/
theorem findFrom_eq {before s : Text} {r : Run} {f : Found} (h : findFrom before r s = some f) :
    before.reverse ++ (r.chars.reverse ++ s) = f.before ++ (f.construct.text ++ f.rest) := by
  fun_induction findFrom before r s with
  | case1 => simp at h
  | case2 before r c s _ ih => simpa [Run.chars_push] using ih h
  | case3 before r c s _ ih => simpa [Run.empty] using ih h
  | case4 before r c s hstep ih =>
    rw [Run.step_eq_restart hstep, ← ih h]
    simp [Run.ofAtSign]
  | case5 before r c s => obtain rfl := Option.some.inj h; simp [Construct.text]
  | case6 before r c s hstep =>
    obtain rfl := Option.some.inj h
    rw [Run.step_eq_block hstep, ← Found.block_eq]

theorem nextConstruct_eq {s : Text} {f : Found} (h : nextConstruct s = some f) :
    s = f.before ++ (f.construct.text ++ f.rest) := by
  simpa [Run.empty] using findFrom_eq h

theorem findFrom_construct_ne_nil {before s : Text} {r : Run} {f : Found}
    (h : findFrom before r s = some f) : f.construct.text ≠ [] := by
  fun_induction findFrom before r s with
  | case1 => simp at h
  | case2 before r c s _ ih => exact ih h
  | case3 before r c s _ ih => exact ih h
  | case4 before r c s _ ih => exact ih h
  | case5 before r c s => obtain rfl := Option.some.inj h; simp [Construct.text]
  | case6 before r c s =>
    obtain rfl := Option.some.inj h
    unfold Found.block
    split <;> simp [Construct.text]

/-- The rest behind a construct is shorter than the text. -/
theorem length_rest_lt {s : Text} {f : Found} (h : nextConstruct s = some f) :
    f.rest.length < s.length := by
  have hpos := List.length_pos_iff.mpr (findFrom_construct_ne_nil h)
  have := congrArg List.length (nextConstruct_eq h)
  simp only [List.length_append] at this
  omega

/-- The body of a block is shorter than the text. -/
theorem length_body_lt {s : Text} {f : Found} {head body : Text} {closed : Bool}
    (h : nextConstruct s = some f) (hf : f.construct = .block head body closed) :
    body.length < s.length := by
  have := congrArg List.length (nextConstruct_eq h)
  simp only [hf, Construct.text, List.length_append, List.length_cons] at this
  omega

end UtilitySheet.Sheet
