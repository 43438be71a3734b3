import UtilitySheet.Proofs.PlainText
import UtilitySheet.Sheet.Forest

/-!
# What a plain stylesheet is read as

`Reads` says which nodes a text holds and which text is left between them, stretch by stretch: a
stretch before a semicolon is a statement or is passed over, a stretch before an opening brace is
the head of a block. The reader finds just that (`Reads.readNodes_eq`), and every plain text has
such a description (`exists_reads`).
-/

namespace UtilitySheet.Sheet

open Text

/-! ## Stretches -/

/-- Whether a stretch is that of an at-rule: its first character that is not blank is an at sign. -/
def isAtText (s : Text) : Bool := (s.dropWhile isBlank).head? == some '@'

/-- What stands before the run that a stretch ends with: the blanks before an at sign. -/
def leadOf (s : Text) : Text := if isAtText s then s.takeWhile isBlank else []

/-- The run that a stretch ends with. -/
def coreOf (s : Text) : Text := if isAtText s then s.dropWhile isBlank else s

theorem lead_append_core (s : Text) : leadOf s ++ coreOf s = s := by
  unfold leadOf coreOf
  split
  · exact List.takeWhile_append_dropWhile
  · rfl

theorem isBlankText_leadOf (s : Text) : isBlankText (leadOf s) = true := by
  unfold leadOf
  split
  · exact List.all_takeWhile
  · rfl

/-- The run that is being read behind a stretch. -/
def runOf (s : Text) : Run := ⟨(coreOf s).reverse, isAtText s, isBlankText s, 0, none⟩

theorem isAtText_blanks_append {b : Text} (hb : isBlankText b = true) (s : Text) :
    isAtText (b ++ s) = isAtText s := by
  have hdrop : (b ++ s).dropWhile isBlank = s.dropWhile isBlank := by
    induction b with
    | nil => rfl
    | cons c b ih =>
      simp only [isBlankText, List.all_cons, Bool.and_eq_true] at hb
      rw [List.cons_append, List.dropWhile_cons_of_pos hb.1, ih hb.2]
  rw [isAtText, hdrop, isAtText]

/-! ## Reading a stretch -/

/-- A character that changes the open brackets changes the nesting of an unquoted run, and ends it
only where it starts an at-rule. -/
theorem step_of_bracketStep {opened opened' : List Char} {c : Char} {r : Run}
    (hc : bracketStep opened c = some opened') (hquote : r.quote = none)
    (hnesting : r.nesting = opened.length) (hat : r.blank = true → opened = [] → c ≠ '@') :
    r.step c = .extend ∧
      r.push c = ⟨c :: r.chars, r.atRule, r.blank && isBlank c, opened'.length, none⟩ := by
  obtain ⟨chars, atRule, blank, nesting, quote⟩ := r
  obtain rfl : quote = none := hquote
  obtain rfl : nesting = opened.length := hnesting
  have hne : ∀ d ∈ ['\x7b', '\x7d', '"', '\''], c ≠ d := by
    rintro d hd rfl
    rcases bracketStep_cases hc with h | h | h | h | h
    all_goals simp_all [marks]
    grind
  have hpos : c = ';' ∨ c = '@' ∧ blank = true → 0 < opened.length := by
    rintro (rfl | ⟨rfl, rfl⟩)
    · rcases bracketStep_cases hc with h | h | h | h | h
      all_goals simp_all [marks]
      exact List.length_pos_of_mem h.1
    · exact List.length_pos_iff.2 fun h => hat rfl h rfl
  constructor
  · simp only [Run.step, Run.guarded]
    grind
  · simp only [Run.push]
    rcases bracketStep_cases hc with h | h | h | h | h
    all_goals simp_all [marks]

/-- Within a run that is not blank, brackets are counted and nothing ends the run. -/
theorem findFrom_nested {opened opened' : List Char} {s : Text} (before t : Text) {r : Run}
    (hs : brackets opened s = some opened') (hblank : r.blank = false) (hquote : r.quote = none)
    (hnesting : r.nesting = opened.length) :
    findFrom before r (s ++ t) =
      findFrom before ⟨s.reverse ++ r.chars, r.atRule, false, opened'.length, none⟩ t := by
  induction s generalizing opened r with
  | nil =>
    obtain rfl := Option.some.inj hs
    obtain ⟨chars, atRule, blank, nesting, quote⟩ := r
    simp_all
  | cons c s ih =>
    rw [brackets_cons, Option.bind_eq_some_iff] at hs
    obtain ⟨opened₁, hc, hs⟩ := hs
    obtain ⟨hstep, hpush⟩ := step_of_bracketStep hc hquote hnesting (by simp [hblank])
    rw [List.cons_append, findFrom, hstep, hpush]
    simp only
    rw [ih hs (by simp [hblank]) rfl rfl]
    simp

/-- The first character behind blanks that is not blank starts the run that a stretch ends with. -/
theorem findFrom_first {pre s : Text} {c : Char} (before t : Text)
    (hpre : isBlankText pre = true) (hblank : isBlank c = false)
    (hs : brackets [] (c :: s) = some []) :
    findFrom before ⟨pre.reverse, false, true, 0, none⟩ (c :: s ++ t) =
      findFrom ((leadOf (pre ++ c :: s)).reverse ++ before) (runOf (pre ++ c :: s)) t := by
  rw [brackets_cons, Option.bind_eq_some_iff] at hs
  obtain ⟨opened, hc, hrest⟩ := hs
  have hall := List.all_eq_true.1 hpre
  have htake : (pre ++ c :: s).takeWhile isBlank = pre := by
    rw [List.takeWhile_append_of_pos hall, List.takeWhile_cons_of_neg (by simp [hblank]),
      List.append_nil]
  have hdrop : (pre ++ c :: s).dropWhile isBlank = c :: s := by
    rw [List.dropWhile_append_of_pos hall, List.dropWhile_cons_of_neg (by simp [hblank])]
  have hnot : isBlankText (pre ++ c :: s) = false := by
    simp [isBlankText, hblank]
  by_cases hat : c = '@'
  · subst hat
    obtain rfl : [] = opened := by
      rw [bracketStep_of_not_mem (by decide)] at hc
      exact Option.some.inj hc
    have hstep : Run.step ⟨pre.reverse, false, true, 0, none⟩ '@' = .restart := rfl
    rw [List.cons_append, findFrom, hstep]
    simp only
    rw [findFrom_nested _ t hrest rfl rfl rfl]
    simp [leadOf, coreOf, runOf, isAtText, htake, hdrop, hnot, Run.ofAtSign]
  · obtain ⟨hstep, hpush⟩ := step_of_bracketStep
      (r := ⟨pre.reverse, false, true, 0, none⟩) hc rfl rfl fun _ _ => hat
    rw [List.cons_append, findFrom, hstep, hpush]
    simp only
    rw [findFrom_nested _ t hrest (by simpa using hblank) rfl rfl]
    have hnone : (c == '@') = false := by simpa using hat
    simp [leadOf, coreOf, runOf, isAtText, hdrop, hnot, hnone]

/-- Behind blanks, a stretch is read as the run that it ends with. -/
theorem findFrom_blanks {pre s : Text} (before t : Text) (hpre : isBlankText pre = true)
    (hs : brackets [] s = some []) :
    findFrom before ⟨pre.reverse, false, true, 0, none⟩ (s ++ t) =
      findFrom ((leadOf (pre ++ s)).reverse ++ before) (runOf (pre ++ s)) t := by
  induction s generalizing pre with
  | nil =>
    have hat : isAtText pre = false := by
      simpa [isAtText] using isAtText_blanks_append hpre []
    simp [leadOf, coreOf, runOf, hat, hpre]
  | cons c s ih =>
    by_cases hblank : isBlank c = true
    · have hc := bracketStep_of_not_mem (not_mem_marks_of_isBlank hblank) []
      have hpre' : isBlankText (pre ++ [c]) = true :=
        isBlankText_append.2 ⟨hpre, by simpa [isBlankText] using hblank⟩
      have hat : c ≠ '@' := by
        rintro rfl
        exact absurd hblank (by decide)
      obtain ⟨hstep, hpush⟩ := step_of_bracketStep
        (r := ⟨pre.reverse, false, true, 0, none⟩) hc rfl rfl fun _ _ => hat
      have hrun : (⟨c :: pre.reverse, false, true && isBlank c, 0, none⟩ : Run) =
          ⟨(pre ++ [c]).reverse, false, true, 0, none⟩ := by
        simp [hblank]
      rw [brackets_cons, hc, Option.bind_some] at hs
      rw [List.cons_append, findFrom, hstep, hpush]
      simp only [List.length_nil]
      rw [hrun, ih hpre' hs, List.append_assoc, List.singleton_append]
    · exact findFrom_first before t hpre (by simpa using hblank) hs

/-- A stretch is read as the run that it ends with. -/
theorem findFrom_stretch {s : Text} (before t : Text) (hs : brackets [] s = some []) :
    findFrom before .empty (s ++ t) =
      findFrom ((leadOf s).reverse ++ before) (runOf s) t := by
  have h := @findFrom_blanks [] s before t rfl hs
  simpa [Run.empty] using h

/-! ## What ends a stretch -/

/-- Whether a stretch before a semicolon is a statement: an at sign with something behind it. -/
def isStatementText (s : Text) : Bool := isAtText s && coreOf s != ['@']

theorem isHead_runOf {s : Text} : (runOf s).isHead = true ↔
    s ≠ [] ∧ (isAtText s = true → coreOf s ≠ ['@']) := by
  unfold runOf Run.isHead
  cases hat : isAtText s with
  | false => simp [coreOf, hat]
  | true =>
    have hcore : ∃ t, coreOf s = '@' :: t := by
      simp only [isAtText, beq_iff_eq] at hat
      obtain ⟨t, ht⟩ := List.head?_eq_some_iff.1 hat
      exact ⟨t, by simp [coreOf, isAtText, ht]⟩
    obtain ⟨t, ht⟩ := hcore
    have hne : s ≠ [] := by
      rintro rfl
      simp [isAtText] at hat
    simp only [ht]
    cases t <;> simp [hne]

theorem isHead_of_isHeadText {s : Text} (h : isHeadText s = true) : (runOf s).isHead = true := by
  obtain ⟨hblank, hlone⟩ := isHeadText_iff.1 h
  refine isHead_runOf.2 ⟨?_, fun hat hcore => hlone ?_⟩
  · rintro rfl
    exact hblank rfl
  · rw [← lead_append_core s, withoutBlanks_blanks_append (isBlankText_leadOf s), hcore]
    rfl

/-- The text before a construct starts with what was read before. -/
theorem findFrom_before (before : Text) (r : Run) (s : Text) :
    findFrom before r s =
      (findFrom [] r s).map fun f => { f with before := before.reverse ++ f.before } := by
  induction s generalizing before r with
  | nil => rfl
  | cons c s ih =>
    simp only [findFrom]
    split
    · exact ih before _
    · rw [ih (c :: (r.chars ++ before)), ih (c :: (r.chars ++ []))]
      simp [Function.comp_def]
    · rw [ih (r.chars ++ before), ih (r.chars ++ [])]
      simp [Function.comp_def]
    · simp
    · simp only [Found.block]
      split <;> simp

/-- A stretch before a semicolon is a statement, or it is passed over. -/
theorem nextConstruct_semicolon {s : Text} (hs : brackets [] s = some []) (t : Text) :
    nextConstruct (s ++ ';' :: t) =
      if isStatementText s then some ⟨leadOf s, .statement (coreOf s ++ [';']), t⟩
      else (nextConstruct t).map fun f => { f with before := s ++ ';' :: f.before } := by
  have hchars : (runOf s).chars = (coreOf s).reverse := rfl
  rw [nextConstruct, findFrom_stretch _ _ hs, findFrom]
  have hstep : (runOf s).step ';' = if isStatementText s then .statement else .drop := by
    have hhead : ((runOf s).atRule && (runOf s).isHead) = isStatementText s := by
      rw [Bool.eq_iff_iff, Bool.and_eq_true, isHead_runOf, isStatementText, Bool.and_eq_true,
        bne_iff_ne]
      have hat : (runOf s).atRule = isAtText s := rfl
      rw [hat]
      constructor
      · rintro ⟨h, -, hcore⟩
        exact ⟨h, hcore h⟩
      · rintro ⟨h, hcore⟩
        refine ⟨h, ?_, fun _ => hcore⟩
        rintro rfl
        cases h
    have hguarded : (runOf s).guarded = false := rfl
    simp [Run.step, hguarded, hhead]
  rw [hstep]
  cases isStatementText s with
  | true => simp [hchars]
  | false =>
    simp only [Bool.false_eq_true, if_false]
    rw [findFrom_before, nextConstruct, hchars, List.append_nil, ← List.reverse_append,
      lead_append_core]
    simp

/-- A stretch before an opening brace is the head of a block. -/
theorem nextConstruct_block {s : Text} (hs : brackets [] s = some []) (hhead : isHeadText s = true)
    (t : Text) :
    nextConstruct (s ++ '\x7b' :: t) = some (Found.block (leadOf s) (coreOf s) t) := by
  have hstep : (runOf s).step '\x7b' = .block := by
    simp [Run.step, isHead_of_isHeadText hhead]
  rw [nextConstruct, findFrom_stretch _ _ hs, findFrom, hstep]
  simp [runOf]

theorem nextConstruct_flat {s : Text} (hs : brackets [] s = some []) : nextConstruct s = none := by
  have h := findFrom_stretch [] [] hs
  rw [List.append_nil] at h
  rw [nextConstruct, h]
  rfl

/-! ## Plain texts as nodes -/

/-- The node of a block with a head as it is written, a body, and what is in the body. -/
def Node.ofBlock (head body : Text) (nodes : List Node) (own : Text) : Node :=
  if nodes.isEmpty then
    .leaf (normalHead head) (trim (Construct.block head body true).text) body
  else
    .nest (normalHead head) (trim (Construct.block head body true).text) (unlessBlank own)
      (Node.sorted nodes)

/-- The nodes of a plain text in source order, and the text between them. -/
inductive Reads : Text → List Node → Text → Prop
  | text {s : Text} : Flat s → Reads s [] s
  | semicolon {s t : Text} {nodes : List Node} {left : Text} :
      Flat s → isStatementText s = false → Reads t nodes left →
      Reads (s ++ ';' :: t) nodes (s ++ ';' :: left)
  | statement {s t : Text} {nodes : List Node} {left : Text} :
      Flat s → isStatementText s = true → Reads t nodes left →
      Reads (s ++ ';' :: t) (.statement (coreOf s ++ [';']) :: nodes) (leadOf s ++ left)
  | block {s body t : Text} {inner nodes : List Node} {own left : Text} :
      Flat s → isHeadText s = true → Reads body inner own → Reads t nodes left →
      Reads (s ++ '\x7b' :: (body ++ '\x7d' :: t))
        (Node.ofBlock (coreOf s) body inner own :: nodes) (leadOf s ++ left)

theorem splitBody_of_ne {c : Char} (ho : c ≠ '\x7b') (hc : c ≠ '\x7d') (acc : Text) (depth : Nat)
    (s : Text) : splitBody acc depth (c :: s) = splitBody (c :: acc) depth s := by
  cases depth <;> simp [splitBody, ho, hc]

theorem splitBody_open (acc : Text) (depth : Nat) (s : Text) :
    splitBody acc depth ('\x7b' :: s) = splitBody ('\x7b' :: acc) (depth + 1) s := by
  cases depth <;> simp [splitBody]

theorem splitBody_close (acc : Text) (depth : Nat) (s : Text) :
    splitBody acc (depth + 1) ('\x7d' :: s) = splitBody ('\x7d' :: acc) depth s := by
  simp [splitBody]

theorem splitBody_flat {s : Text} {opened opened' : List Char}
    (hs : brackets opened s = some opened') (acc : Text) (depth : Nat) (t : Text) :
    splitBody acc depth (s ++ t) = splitBody (s.reverse ++ acc) depth t := by
  induction s generalizing opened acc with
  | nil => rfl
  | cons c s ih =>
    rw [brackets_cons, Option.bind_eq_some_iff] at hs
    obtain ⟨opened₁, hc, hs⟩ := hs
    have hne : c ≠ '\x7b' ∧ c ≠ '\x7d' := by
      constructor <;>
      · rintro rfl
        rcases bracketStep_cases hc with h | h | h | h | h <;> simp_all [marks]
    rw [List.cons_append, splitBody_of_ne hne.1 hne.2, ih hs]
    simp

namespace Reads

/-- The braces of a plain text close each other. -/
theorem splitBody_append {s left : Text} {nodes : List Node} (h : Reads s nodes left) (acc : Text)
    (depth : Nat) (t : Text) :
    splitBody acc depth (s ++ t) = splitBody (s.reverse ++ acc) depth t := by
  induction h generalizing acc depth t with
  | text hs => exact splitBody_flat hs.nested acc depth t
  | semicolon hs _ _ ih | statement hs _ _ ih =>
    rw [List.append_assoc, splitBody_flat hs.nested, List.cons_append,
      splitBody_of_ne (by decide) (by decide), ih]
    simp
  | block hs _ _ _ ihBody ih =>
    rw [List.append_assoc, splitBody_flat hs.nested, List.cons_append, splitBody_open,
      List.append_assoc, ihBody, List.cons_append, splitBody_close, ih]
    simp

/-- The body of a block with a plain body. -/
theorem found_block {body left : Text} {nodes : List Node} (h : Reads body nodes left)
    (before head t : Text) :
    Found.block before head (body ++ '\x7d' :: t) = ⟨before, .block head body true, t⟩ := by
  have hsplit : splitBody [] 0 (body ++ '\x7d' :: t) = (body, some t) := by
    rw [h.splitBody_append]
    simp [splitBody]
  rw [Found.block, hsplit]

theorem nextConstruct_isSome {s left : Text} {nodes : List Node} (h : Reads s nodes left) :
    (nextConstruct s).isSome = !nodes.isEmpty := by
  induction h with
  | text hs => rw [nextConstruct_flat hs.nested]; rfl
  | semicolon hs hst _ ih => rw [nextConstruct_semicolon hs.nested, hst]; simpa using ih
  | statement hs hst _ _ => rw [nextConstruct_semicolon hs.nested, hst]; rfl
  | block hs hhead _ _ _ _ => rw [nextConstruct_block hs.nested hhead]; rfl

end Reads

/-! ## One construct after the other -/

/-- The node that a construct is read as; none if it is a block without a head. -/
def Construct.node? : Construct → Option Node
  | .statement text => some (.statement text)
  | .block head body closed =>
    if (normalHead head).isEmpty then none
    else if (nextConstruct body).isSome then
      some (.nest (normalHead head) (trim (Construct.block head body closed).text)
        (unlessBlank (readNodes body).2) (Node.sorted (readNodes body).1))
    else some (.leaf (normalHead head) (trim (Construct.block head body closed).text) body)

/-- A statement is read as itself, a block as a leaf or with the nodes of its body in it. -/
theorem Construct.node?_cases {c : Construct} {n : Node} (h : c.node? = some n) :
    (∃ text, c = .statement text ∧ n = .statement text) ∨
    ∃ head body closed, c = .block head body closed ∧
      ((nextConstruct body = none ∧
          n = .leaf (normalHead head) (trim (Construct.block head body closed).text) body) ∨
        n = .nest (normalHead head) (trim (Construct.block head body closed).text)
          (unlessBlank (readNodes body).2) (Node.sorted (readNodes body).1)) := by
  cases c with
  | statement text => exact .inl ⟨text, rfl, (Option.some.inj h).symm⟩
  | block head body closed =>
    refine .inr ⟨head, body, closed, rfl, ?_⟩
    simp only [Construct.node?] at h
    split at h
    · cases h
    split at h
    · exact .inr (Option.some.inj h).symm
    · rename_i hnone
      exact .inl ⟨by simpa using hnone, (Option.some.inj h).symm⟩

theorem readNodes_of_none {s : Text} (h : nextConstruct s = none) : readNodes s = ([], s) := by
  rw [readNodes]
  split
  · rfl
  · simp_all

/-- The nodes of a text are that of its first construct and those of the rest. -/
theorem readNodes_of_some {s : Text} {f : Found} (h : nextConstruct s = some f) :
    readNodes s =
      (f.construct.node?.toList ++ (readNodes f.rest).1, f.before ++ (readNodes f.rest).2) := by
  rw [readNodes]
  split
  · simp_all
  · rename_i found hs
    obtain rfl := Option.some.inj (hs.symm.trans h)
    obtain ⟨before, construct, rest⟩ := found
    cases construct with
    | statement text => rfl
    | block head body closed =>
      simp only [Construct.node?]
      split
      · rfl
      · split <;> rfl

/-- The nodes of a text whose first construct is a statement. -/
theorem readNodes_statement {s text rest : Text}
    (h : nextConstruct s = some ⟨[], .statement text, rest⟩) :
    (readNodes s).1 = .statement text :: (readNodes rest).1 := by
  rw [readNodes_of_some h]
  rfl

/-- The nodes of a text whose first construct is a block with no construct in its body. -/
theorem readNodes_leaf {s head body rest : Text}
    (h : nextConstruct s = some ⟨[], .block head body true, rest⟩)
    (hhead : (normalHead head).isEmpty = false) (hbody : nextConstruct body = none) :
    (readNodes s).1 = .leaf (normalHead head) (trim (Construct.block head body true).text) body ::
      (readNodes rest).1 := by
  rw [readNodes_of_some h]
  simp [Construct.node?, hhead, hbody]

/-- The nodes of a text without comments. -/
theorem Forest.nodes_ofText {s : Text} (h : isClean s = true) :
    (Forest.ofText s).nodes = Node.sorted (readNodes s).1 := by
  rw [Forest.ofText, stripComments_of_isClean h]
  rfl

theorem Construct.node?_block {head body own : Text} {inner : List Node}
    (hhead : normalHead head ≠ []) (hbody : readNodes body = (inner, own))
    (hinner : (nextConstruct body).isSome = !inner.isEmpty) :
    (Construct.block head body true).node? = some (Node.ofBlock head body inner own) := by
  have hempty : (normalHead head).isEmpty = false := by simpa using hhead
  simp only [Construct.node?, Node.ofBlock, hempty, hinner, hbody, Bool.false_eq_true, if_false]
  cases inner.isEmpty <;> rfl

theorem normalHead_ne_nil {s : Text} (h : isHeadText s = true) : normalHead (coreOf s) ≠ [] := by
  intro hnil
  refine (isHeadText_iff.1 h).1 ?_
  rw [← lead_append_core s, withoutBlanks_blanks_append (isBlankText_leadOf s),
    ← withoutBlanks_normalHead, hnil]
  rfl

/-- **The reader finds the nodes of a plain text, and the text between them.** -/
theorem Reads.readNodes_eq {s left : Text} {nodes : List Node} (h : Reads s nodes left) :
    readNodes s = (nodes, left) := by
  induction h with
  | text hs => exact readNodes_of_none (nextConstruct_flat hs.nested)
  | @semicolon s t nodes left hs hst _ ih =>
    have hnext := nextConstruct_semicolon hs.nested t
    rw [hst] at hnext
    cases ht : nextConstruct t with
    | none =>
      rw [ht] at hnext
      rw [readNodes_of_none ht] at ih
      obtain ⟨rfl, rfl⟩ := Prod.mk.inj ih
      exact readNodes_of_none hnext
    | some found =>
      rw [ht] at hnext
      rw [readNodes_of_some ht] at ih
      obtain ⟨rfl, rfl⟩ := Prod.mk.inj ih
      rw [readNodes_of_some hnext]
      simp
  | @statement s t _ _ hs hst _ ih =>
    have hnext := nextConstruct_semicolon hs.nested t
    rw [hst] at hnext
    rw [readNodes_of_some hnext, ih]
    rfl
  | @block s body t _ _ _ _ hs hhead hbody _ ihBody ih =>
    have hnext := nextConstruct_block hs.nested hhead (body ++ '\x7d' :: t)
    rw [hbody.found_block] at hnext
    rw [readNodes_of_some hnext,
      Construct.node?_block (normalHead_ne_nil hhead) ihBody hbody.nextConstruct_isSome, ih]
    rfl

/-! ## Every plain text is read so -/

theorem Reads.clean {s left : Text} {nodes : List Node} (h : Reads s nodes left) :
    isClean s = true := by
  induction h with
  | text hs => exact hs.clean
  | semicolon hs _ _ ih | statement hs _ _ ih =>
    exact isClean_append_cons (by decide) (by decide) hs.clean ih
  | block hs _ _ _ ihBody ih =>
    refine isClean_append_cons (by decide) (by decide) hs.clean ?_
    exact isClean_append_cons (by decide) (by decide) ihBody ih

/-- A plain text within blocks reads up to the brace that closes the innermost one. -/
theorem exists_reads_of_isPlainFrom {s : Text} (hclean : isClean s = true) {depth : Nat}
    (h : isPlainFrom [] [] depth s = true) :
    (depth = 0 ∧ ∃ nodes left, Reads s nodes left) ∨
      ∃ d body t nodes left, depth = d + 1 ∧ s = body ++ '\x7d' :: t ∧ Reads body nodes left ∧
        isPlainFrom [] [] d t = true := by
  obtain ⟨u, v, rfl, hnested, hend⟩ := @exists_stretch [] s [] depth rfl h
  simp only [List.reverse_nil, List.nil_append] at hnested hend
  obtain ⟨hu, hv, -⟩ := isClean_append.1 hclean
  have hflat : Flat u := ⟨hnested, hu⟩
  cases hend with
  | text hdepth =>
    rw [List.append_nil]
    exact .inl ⟨hdepth, _, _, .text hflat⟩
  | @semicolon t ht =>
    have hread : ∀ {w nodes left}, Reads w nodes left →
        ∃ nodes left, Reads (u ++ ';' :: w) nodes left := by
      intro w nodes left hw
      cases hst : isStatementText u with
      | true => exact ⟨_, _, .statement hflat hst hw⟩
      | false => exact ⟨_, _, .semicolon hflat hst hw⟩
    rcases exists_reads_of_isPlainFrom (isClean_cons.1 hv).1 ht with
      ⟨hdepth, nodes, left, hreads⟩ | ⟨d, body, w, nodes, left, hdepth, rfl, hreads, hw⟩
    · exact .inl ⟨hdepth, hread hreads⟩
    · obtain ⟨nodes, left, hreads⟩ := hread hreads
      exact .inr ⟨d, u ++ ';' :: body, w, nodes, left, hdepth, by simp, hreads, hw⟩
  | @opening t hhead ht =>
    have htclean := (isClean_cons.1 hv).1
    rcases exists_reads_of_isPlainFrom htclean ht with
      ⟨hdepth, -⟩ | ⟨d, body, w, inner, own, hdepth, rfl, hbody, hw⟩
    · cases hdepth
    obtain rfl := Nat.succ.inj hdepth
    -- What stands behind the block is read within as many blocks as the block itself.
    have hwclean := (isClean_cons.1 (isClean_append.1 htclean).2.1).1
    rcases exists_reads_of_isPlainFrom hwclean hw with
      ⟨hdepth, nodes, left, hreads⟩ | ⟨d, rest, w, nodes, left, hdepth, rfl, hreads, hw⟩
    · exact .inl ⟨hdepth, _, _, .block hflat hhead hbody hreads⟩
    · refine .inr ⟨d, u ++ '\x7b' :: (body ++ '\x7d' :: rest), w, _, _, hdepth, ?_,
        .block hflat hhead hbody hreads, hw⟩
      simp
  | @closing t d hdepth ht => exact .inr ⟨d, u, t, _, _, hdepth, rfl, .text hflat, ht⟩
termination_by s.length
decreasing_by
  all_goals
    simp_all only [List.length_append, List.length_cons]
    omega

/-- **Every plain text reads as some nodes.** -/
theorem exists_reads {s : Text} (h : isPlain s = true) : ∃ nodes left, Reads s nodes left := by
  obtain ⟨hclean, hplain⟩ := Bool.and_eq_true_iff.1 h
  rcases exists_reads_of_isPlainFrom hclean hplain with ⟨-, hreads⟩ | ⟨d, _, _, _, _, hdepth, -⟩
  · exact hreads
  · cases hdepth

/-- The forest of a plain text. -/
theorem Reads.ofText_eq {s left : Text} {nodes : List Node} (h : Reads s nodes left) :
    Forest.ofText s = ⟨Node.sorted nodes, unlessBlank left⟩ := by
  rw [Forest.ofText, stripComments_of_isClean h.clean, Forest.ofPlain, h.readNodes_eq]

end UtilitySheet.Sheet
