import UtilitySheet.Proofs.Continuation
import UtilitySheet.Proofs.DecimalPoint

/-!
# Reading in place

A stylesheet can be read in place: the text is scanned by byte offsets, the scan remembers where a
run starts and how many characters it has, and a closing brace is searched for from the offset of
the opening one, with a count of the braces that are open. The text is then cut at the offsets that
the scan answers. Such a reader fails where an offset is not between two characters of the text,
where a slice ends before it starts, where a count falls below zero, and where it does not move on.

None of this happens in any text, and what is read is what is read character by character. Main
statement: `Forest.inPlace_eq`.
-/

namespace UtilitySheet.Sheet

open Text

/-- What can go wrong in a text that is read in place. -/
inductive Fault where
  /-- The text is cut at an offset that is not between two characters of it, or a slice ends before
  it starts. -/
  | offset
  /-- A count falls below zero. -/
  | count
  /-- What is to be read next is as long as the text. -/
  | stuck
  deriving DecidableEq, Repr

/-! ## Slices -/

/-- The parts of a text before and behind a byte offset. -/
def cutAt : (offset : Nat) → Text → Except Fault (Text × Text)
  | 0, s => .ok ([], s)
  | _ + 1, [] => .error .offset
  | n + 1, c :: s =>
    if c.utf8Size ≤ n + 1 then do
      let (front, behind) ← cutAt (n + 1 - c.utf8Size) s
      return (c :: front, behind)
    else .error .offset

/-- The part of a text between two byte offsets. -/
def slice (s : Text) (start stop : Nat) : Except Fault Text := do
  let (front, _) ← cutAt stop s
  let (_, part) ← cutAt start front
  return part

/-- One less than a count. -/
def countDown : Nat → Except Fault Nat
  | 0 => .error .count
  | n + 1 => .ok n

theorem cutAt_append (s t : Text) : cutAt (Numeral.bytes s) (s ++ t) = .ok (s, t) := by
  induction s with
  | nil => simp [cutAt]
  | cons c s ih =>
    have hc := c.utf8Size_pos
    obtain ⟨n, hn⟩ : ∃ n, Numeral.bytes (c :: s) = n + 1 :=
      Nat.exists_eq_succ_of_ne_zero (by rw [Numeral.bytes_cons]; omega)
    have hle : c.utf8Size ≤ n + 1 := by rw [← hn, Numeral.bytes_cons]; omega
    have hrest : n + 1 - c.utf8Size = Numeral.bytes s := by rw [← hn, Numeral.bytes_cons]; omega
    rw [hn, List.cons_append, cutAt, if_pos hle, hrest, ih]
    rfl

/-- A slice between two offsets that are between characters is what stands there. -/
theorem slice_append {s : Text} {start stop : Nat} (before part behind : Text)
    (h : s = before ++ (part ++ behind)) (hstart : start = Numeral.bytes before)
    (hstop : stop = Numeral.bytes before + Numeral.bytes part) : slice s start stop = .ok part := by
  have hfront : cutAt stop s = .ok (before ++ part, behind) := by
    rw [hstop, ← Numeral.bytes_append, h, ← List.append_assoc, cutAt_append]
  have hpart : cutAt start (before ++ part) = .ok (before, part) := by
    rw [hstart, cutAt_append]
  rw [slice, hfront]
  simp only [bind, Except.bind, hpart]
  rfl

/-- No slice ends inside a character. -/
example : slice "é" 0 1 = .error .offset := rfl

/-! ## The closing brace -/

/-- The offset behind the closing brace of the block that opens at `opening`, or else `size`, and
whether there is one; `i` bytes of the block are read and `depth` braces are open. -/
def closeFrom (size opening : Nat) : (i depth : Nat) → Text → Except Fault (Nat × Bool)
  | _, _, [] => .ok (size, false)
  | i, depth, c :: s =>
    if c = '\x7b' then closeFrom size opening (i + c.utf8Size) (depth + 1) s
    else if c = '\x7d' then do
      let depth ← countDown depth
      if depth = 0 then return (opening + i + 1, true)
      closeFrom size opening (i + c.utf8Size) depth s
    else closeFrom size opening (i + c.utf8Size) depth s

/-- The offset behind the closing brace of the block that opens at an offset, or else the end of the
text, and whether there is one. -/
def closeOf (s : Text) (opening : Nat) : Except Fault (Nat × Bool) := do
  let block ← slice s opening (Numeral.bytes s)
  closeFrom (Numeral.bytes s) opening 0 0 block

/-- Behind an opening brace the closing one is found where the body ends. -/
theorem closeFrom_eq (size opening : Nat) {acc s body : Text} {depth : Nat} {rest : Option Text}
    (h : splitBody acc depth s = (body, rest)) :
    closeFrom size opening (1 + Numeral.bytes acc) (depth + 1) s = .ok
      (if rest.isSome then (opening + (1 + Numeral.bytes body) + 1, true) else (size, false)) := by
  fun_induction splitBody acc depth s with
  | case1 acc depth =>
    obtain ⟨rfl, rfl⟩ := Prod.mk.inj h
    rfl
  | case2 acc depth s ih =>
    rw [closeFrom, if_pos rfl, ← ih h, Numeral.bytes_cons]
    congr 1
    omega
  | case3 acc s =>
    obtain ⟨rfl, rfl⟩ := Prod.mk.inj h
    simp [closeFrom, countDown, bind, Except.bind, pure, Except.pure]
  | case4 acc s depth _ ih =>
    rw [closeFrom, if_neg (by decide), if_pos rfl, ← ih h, Numeral.bytes_cons]
    simp only [countDown, bind, Except.bind]
    rw [if_neg (Nat.succ_ne_zero depth)]
    congr 1
    omega
  | case5 acc depth c s ho hc ih =>
    rw [closeFrom, if_neg ho, if_neg hc, ← ih h, Numeral.bytes_cons]
    congr 1
    omega

/-! ## The scan -/

/-- A construct by its offsets. -/
structure Span where
  start : Nat
  stop : Nat
  /-- Whether a block has its closing brace. -/
  closed : Bool
  /-- The offset of the opening brace of a block. -/
  opening : Option Nat
  deriving DecidableEq, Repr

/-- What is known of the text that is scanned. -/
structure Scan where
  /-- The offset at which the run starts and whether it is an at-rule; none between two runs, when
  the rest is left over from the run before. -/
  run : Option (Nat × Bool)
  /-- How many characters the run has, without the at sign of an at-rule. -/
  length : Nat
  blank : Bool
  nesting : Nat
  quote : Option Char
  deriving DecidableEq, Repr

namespace Scan

/-- Nothing is scanned yet. -/
def start : Scan := ⟨none, 0, true, 0, none⟩

/-- A run starts at an offset. -/
def opened (i : Nat) (atRule : Bool) : Scan := ⟨some (i, atRule), 0, !atRule, 0, none⟩

/-- The run is over. -/
def ended (st : Scan) : Scan := { st with run := none }

/-- Whether a semicolon or an at sign is an ordinary character here. -/
def guarded (st : Scan) : Bool := st.run.isSome && (st.nesting > 0 || st.quote.isSome)

/-- The run with the character at an offset; if there is none, it starts there. -/
def extend (st : Scan) (i : Nat) (c : Char) : Scan :=
  let st := if st.run.isSome then st else opened i false
  let (nesting, quote) := guardStep (st.nesting, st.quote) c
  ⟨st.run, st.length + 1, st.blank && isBlank c, nesting, quote⟩

end Scan

/-- The first construct of the text `input`, of which the characters in front of the offset `i` are
scanned. -/
def spanFrom (input : Text) : (i : Nat) → Scan → Text → Except Fault (Option Span)
  | _, _, [] => .ok none
  | i, st, c :: s =>
    if c = '\x7b' then
      match st.run with
      | some (start, _) =>
        if st.length > 0 then do
          let (stop, closed) ← closeOf input i
          return some ⟨start, stop, closed, some i⟩
        else spanFrom input (i + c.utf8Size) st.ended s
      | none => spanFrom input (i + c.utf8Size) st.ended s
    else if c = '\x7d' then spanFrom input (i + c.utf8Size) st.ended s
    else if c = ';' ∧ !st.guarded then
      match st.run with
      | some (start, true) =>
        if st.length > 0 then .ok (some ⟨start, i + 1, true, none⟩)
        else spanFrom input (i + c.utf8Size) st.ended s
      | _ => spanFrom input (i + c.utf8Size) st.ended s
    else if c = '@' ∧ (st.run.isNone ∨ st.blank ∧ !st.guarded) then
      spanFrom input (i + c.utf8Size) (.opened i true) s
    else spanFrom input (i + c.utf8Size) (st.extend i c) s

/-- The first construct of a text. -/
def nextSpan (s : Text) : Except Fault (Option Span) := spanFrom s 0 .start s

/-- The offsets of a construct that is found. -/
def Found.span (f : Found) : Span where
  start := Numeral.bytes f.before
  stop := Numeral.bytes f.before + Numeral.bytes f.construct.text
  closed := f.construct.isClosed
  opening :=
    match f.construct with
    | .statement _ => none
    | .block head _ _ => some (Numeral.bytes f.before + Numeral.bytes head)

/-- The scan in front of the offset `i` keeps what the run `r` does. -/
inductive Scan.Tracks : Scan → Run → (i : Nat) → Prop
  | outside {st : Scan} {i : Nat} : st.run = none → Tracks st .empty i
  | inside {st : Scan} {r : Run} {i : Nat} : r.chars ≠ [] → Numeral.bytes r.chars ≤ i →
      st.run = some (i - Numeral.bytes r.chars, r.atRule) →
      r.chars.length = st.length + (if r.atRule then 1 else 0) →
      st.blank = r.blank → st.nesting = r.nesting → st.quote = r.quote → Tracks st r i

namespace Scan.Tracks

theorem ended (st : Scan) (i : Nat) : st.ended.Tracks .empty i := .outside rfl

theorem opened (i : Nat) : (Scan.opened i true).Tracks .ofAtSign (i + 1) :=
  .inside (List.cons_ne_nil _ _) (Nat.le_add_left 1 i) rfl rfl rfl rfl rfl

variable {st : Scan} {r : Run} {i : Nat}

theorem guarded_eq (h : st.Tracks r i) : st.guarded = r.guarded := by
  cases h with
  | outside hrun => simp [Scan.guarded, Run.guarded, Run.empty, hrun]
  | inside _ _ hrun _ _ hnesting hquote =>
    simp [Scan.guarded, Run.guarded, hrun, hnesting, hquote]

theorem extend (h : st.Tracks r i) (c : Char) :
    (st.extend i c).Tracks (r.push c) (i + c.utf8Size) := by
  rw [Run.push_eq]
  cases h with
  | outside hrun =>
    refine .inside (List.cons_ne_nil _ _) ?_ ?_ ?_ ?_ ?_ ?_ <;>
      simp [Scan.extend, Scan.opened, Run.empty, hrun]
  | inside hne hle hrun hlength hblank hnesting hquote =>
    have hstart : i + c.utf8Size - Numeral.bytes (c :: r.chars) = i - Numeral.bytes r.chars := by
      rw [Numeral.bytes_cons]
      omega
    refine .inside (List.cons_ne_nil _ _) ?_ ?_ ?_ ?_ ?_ ?_
    all_goals simp only [Scan.extend, hrun, Option.isSome_some, if_true, hblank, hnesting, hquote]
    · rw [Numeral.bytes_cons]
      omega
    · rw [hstart]
    · rw [List.length_cons, hlength]
      omega

end Scan.Tracks

/-- What the scan does at a character is what the character does behind the run. -/
theorem spanFrom_cons {st : Scan} {r : Run} {i : Nat} (h : st.Tracks r i) (input : Text) (c : Char)
    (s : Text) :
    spanFrom input i st (c :: s) =
      match r.step c with
      | .extend => spanFrom input (i + c.utf8Size) (st.extend i c) s
      | .drop => spanFrom input (i + c.utf8Size) st.ended s
      | .restart => spanFrom input (i + c.utf8Size) (.opened i true) s
      | .statement => .ok (some ⟨i - Numeral.bytes r.chars, i + 1, true, none⟩)
      | .block => do
        let (stop, closed) ← closeOf input i
        return some ⟨i - Numeral.bytes r.chars, stop, closed, some i⟩ := by
  have hguarded := h.guarded_eq
  rw [spanFrom, hguarded, Run.step]
  cases h with
  | outside hrun =>
    have hempty : Run.empty.guarded = false := rfl
    have hhead : Run.empty.isHead = false := rfl
    have hat : Run.empty.atRule = false := rfl
    have hblank : Run.empty.blank = true := rfl
    simp only [hrun, hempty, hhead, hat, hblank]
    by_cases ho : c = '\x7b'
    · simp [ho]
    by_cases hc : c = '\x7d'
    · simp [hc]
    by_cases hs : c = ';'
    · simp [hs]
    by_cases ha : c = '@'
    · simp [ha]
    · simp [ho, hc, hs, ha]
  | inside hne hle hrun hlength hblank hnesting hquote =>
    have hhead : r.isHead = decide (st.length > 0) := by
      have hpos : 0 < r.chars.length := List.length_pos_iff.2 hne
      unfold Run.isHead
      split <;> simp_all
    simp only [hrun, hhead, hblank]
    by_cases ho : c = '\x7b'
    · by_cases hl : st.length > 0 <;> simp [ho, hl]
    by_cases hc : c = '\x7d'
    · simp [hc]
    by_cases hs : c = ';' ∧ r.guarded = false
    · cases hat : r.atRule <;> by_cases hl : st.length > 0 <;> simp [hs, hl]
    by_cases ha : c = '@' ∧ r.blank = true ∧ r.guarded = false
    · simp [ha]
    · simp [ho, hc, hs, ha]

/-- A block ends at its closing brace, or with the text. -/
theorem closeOf_eq {input front s body : Text} {rest : Option Text} {i : Nat}
    (hinput : input = front ++ '\x7b' :: s) (hi : i = Numeral.bytes front)
    (h : splitBody [] 0 s = (body, rest)) :
    closeOf input i = .ok
      (i + Numeral.bytes ('\x7b' :: body ++ if rest.isSome then ['\x7d'] else []),
        rest.isSome) := by
  have hslice : slice input i (Numeral.bytes input) = .ok ('\x7b' :: s) :=
    slice_append front ('\x7b' :: s) [] (by rw [hinput, List.append_nil]) hi
      (by rw [hinput, Numeral.bytes_append])
  have hblock : closeOf input i = closeFrom (Numeral.bytes input) i (1 + Numeral.bytes []) 1 s := by
    rw [closeOf, hslice]
    rfl
  have hopening : ('\x7b').utf8Size = 1 := rfl
  have hclosing : ('\x7d').utf8Size = 1 := rfl
  rw [hblock, closeFrom_eq (Numeral.bytes input) i h]
  cases rest with
  | none =>
    obtain rfl : s = body := by simpa using splitBody_eq h
    simp [hinput, hi]
  | some rest =>
    simp only [Option.isSome_some, if_true, Numeral.bytes_append, Numeral.bytes_cons,
      Numeral.bytes_nil, hopening, hclosing]
    congr 2

/-- **The scan finds the first construct, whatever is scanned before.** -/
theorem spanFrom_eq {input before s : Text} {r : Run} {st : Scan} {i : Nat}
    (hinput : input = before.reverse ++ (r.chars.reverse ++ s))
    (hi : i = Numeral.bytes before + Numeral.bytes r.chars) (h : st.Tracks r i) :
    spanFrom input i st s = .ok ((findFrom before r s).map Found.span) := by
  fun_induction findFrom before r s generalizing st i with
  | case1 => rfl
  | case2 before r c s hstep ih =>
    rw [spanFrom_cons h, hstep]
    refine ih ?_ ?_ (h.extend c)
    · rw [hinput, Run.chars_push]
      simp
    · rw [Run.chars_push, Numeral.bytes_cons]
      omega
  | case3 before r c s hstep ih =>
    rw [spanFrom_cons h, hstep]
    refine ih ?_ ?_ (.ended st _)
    · rw [hinput]
      simp [Run.empty]
    · simp only [Numeral.bytes_cons, Numeral.bytes_append, Run.empty, Numeral.bytes_nil]
      omega
  | case4 before r c s hstep ih =>
    rw [spanFrom_cons h, hstep]
    obtain rfl := Run.step_eq_restart hstep
    refine ih ?_ ?_ (.opened i)
    · rw [hinput]
      simp [Run.ofAtSign]
    · have hsign : Numeral.bytes Run.ofAtSign.chars = ('@').utf8Size := rfl
      rw [hsign, hi, Numeral.bytes_append]
      omega
  | case5 before r c s hstep =>
    rw [spanFrom_cons h, hstep]
    obtain ⟨rfl, -⟩ := Run.of_step_eq_statement hstep
    have hsemicolon : (';').utf8Size = 1 := rfl
    simp only [Found.span, Option.map_some, Construct.text, Construct.isClosed,
      Numeral.bytes_reverse, Numeral.bytes_cons, hsemicolon, Except.ok.injEq, Option.some.injEq,
      Span.mk.injEq, and_true]
    omega
  | case6 before r c s hstep =>
    rw [spanFrom_cons h, hstep]
    obtain rfl := Run.step_eq_block hstep
    cases hsplit : splitBody [] 0 s with
    | mk body rest =>
      have hfront : input = (before.reverse ++ r.chars.reverse) ++ '\x7b' :: s := by
        rw [hinput, List.append_assoc]
      have hclose := closeOf_eq hfront (by simpa using hi) hsplit
      simp only [hclose, bind, Except.bind, pure, Except.pure, Option.map_some, Found.block, hsplit]
      cases rest <;> simp [hi, Found.span, Construct.text, Construct.isClosed, Nat.add_assoc]

/-- **What is scanned is what is found, and no offset is wrong.** -/
theorem nextSpan_eq (s : Text) : nextSpan s = .ok ((nextConstruct s).map Found.span) :=
  spanFrom_eq rfl rfl (.outside rfl)

/-! ## The reader -/

/-- Where the body of a block ends. -/
def Span.bodyEnd (span : Span) : Except Fault Nat :=
  if span.closed then countDown span.stop else .ok span.stop

/-- The node of a construct of a text; `read` reads shorter texts. -/
def nodeInPlace (s : Text) (span : Span)
    (read : (t : Text) → t.length < s.length → Except Fault (List Node × Text)) :
    Except Fault (Option Node) := do
  let text ← slice s span.start span.stop
  match span.opening with
  | none => return some (.statement (trim text))
  | some opening =>
    let head ← slice s span.start opening
    if (normalHead head).isEmpty then return none
    let bodyEnd ← span.bodyEnd
    let body ← slice s (opening + 1) bodyEnd
    if (← nextSpan body).isNone then return some (.leaf (normalHead head) (trim text) body)
    if h : body.length < s.length then
      let (nodes, own) ← read body h
      return some (.nest (normalHead head) (trim text) (unlessBlank own) (Node.sorted nodes))
    else throw .stuck

/-- The nodes of a text without comments, in source order, and the text between them. -/
def readInPlace (s : Text) : Except Fault (List Node × Text) := do
  match ← nextSpan s with
  | none => return ([], s)
  | some span =>
    let before ← slice s 0 span.start
    let node ← nodeInPlace s span fun t _ => readInPlace t
    let rest ← slice s span.stop (Numeral.bytes s)
    if _h : rest.length < s.length then
      let (nodes, residual) ← readInPlace rest
      return (node.toList ++ nodes, before ++ residual)
    else throw .stuck
termination_by s.length

/-- The forest of a text without comments. -/
def Forest.inPlace (s : Text) : Except Fault Forest := do
  let (nodes, residual) ← readInPlace s
  return ⟨Node.sorted nodes, unlessBlank residual⟩

/-- A statement stands between its at sign and its semicolon. -/
theorem nextConstruct_statement {s text : Text} {f : Found} (h : nextConstruct s = some f)
    (hf : f.construct = .statement text) : ∃ t, text = '@' :: t ++ [';'] := by
  have hpush : ∀ {r : Run} {c : Char}, (r.atRule = true → ∃ t, r.chars = t ++ ['@']) →
      r.step c = .extend → (r.push c).atRule = true → ∃ t, (r.push c).chars = t ++ ['@'] := by
    intro r c hr _ hat
    rw [Run.push_eq] at hat
    obtain ⟨t, ht⟩ := hr hat
    exact ⟨c :: t, by rw [Run.chars_push, ht, List.cons_append]⟩
  obtain ⟨r, hr, ⟨hstep, hc⟩ | ⟨-, body, closed, hc⟩⟩ :=
    exists_run_of_nextConstruct (K := fun r => r.atRule = true → ∃ t, r.chars = t ++ ['@'])
      (fun hat => by cases hat) (fun _ => ⟨[], rfl⟩) hpush h
  · obtain rfl := Construct.statement.inj (hf.symm.trans hc)
    have hat : r.atRule = true := by
      by_contra hat
      exact Run.step_ne_statement (Bool.eq_false_iff.2 hat) ';' hstep
    obtain ⟨t, ht⟩ := hr hat
    exact ⟨t.reverse, by simp [ht]⟩
  · cases hf.symm.trans hc

theorem trim_statement (t : Text) : trim ('@' :: t ++ [';']) = '@' :: t ++ [';'] := by
  have hsign : ¬ isBlank '@' = true := by decide
  rw [trim, List.cons_append, List.dropWhile_cons_of_neg hsign, ← List.cons_append,
    trimEnd_append_cons (by decide)]
  rfl

section Found

variable {s : Text} {f : Found} (h : nextConstruct s = some f)
include h

theorem slice_before : slice s 0 f.span.start = .ok f.before :=
  slice_append [] f.before _ (nextConstruct_eq h) rfl (Nat.zero_add _).symm

theorem slice_text : slice s f.span.start f.span.stop = .ok f.construct.text :=
  slice_append f.before f.construct.text f.rest (nextConstruct_eq h) rfl rfl

theorem slice_rest : slice s f.span.stop (Numeral.bytes s) = .ok f.rest := by
  have hs := nextConstruct_eq h
  refine slice_append (f.before ++ f.construct.text) f.rest [] ?_ ?_ ?_
  · rw [List.append_nil, List.append_assoc]
    exact hs
  · rw [Numeral.bytes_append]
    rfl
  · rw [hs]
    simp only [Numeral.bytes_append]
    omega

end Found

section Block

variable {s head body : Text} {closed : Bool} {f : Found} (h : nextConstruct s = some f)
  (hf : f.construct = .block head body closed)
include hf

theorem opening_span : f.span.opening = some (f.span.start + Numeral.bytes head) := by
  simp only [Found.span, hf]

/-- The body of a block ends in front of its closing brace, or with the block. -/
theorem bodyEnd_span :
    f.span.bodyEnd = .ok (f.span.start + Numeral.bytes head + 1 + Numeral.bytes body) := by
  have hstop : f.span.stop = f.span.start + Numeral.bytes head + 1 + Numeral.bytes body +
      Numeral.bytes (if closed then ['\x7d'] else []) := by
    have hopening : ('\x7b').utf8Size = 1 := rfl
    simp [Found.span, hf, Construct.text, hopening, Nat.add_assoc]
  have hclosed : f.span.closed = closed := by
    simp only [Found.span, hf, Construct.isClosed]
  rw [Span.bodyEnd, hclosed, hstop]
  cases closed <;> rfl

include h

theorem slice_head : slice s f.span.start (f.span.start + Numeral.bytes head) = .ok head := by
  have hs := nextConstruct_eq h
  rw [hf, Construct.text, List.append_assoc, List.append_assoc] at hs
  exact slice_append f.before head _ hs rfl rfl

theorem slice_body : slice s (f.span.start + Numeral.bytes head + 1)
    (f.span.start + Numeral.bytes head + 1 + Numeral.bytes body) = .ok body := by
  have hs := nextConstruct_eq h
  have hfront : Numeral.bytes (f.before ++ head ++ ['\x7b']) =
      f.span.start + Numeral.bytes head + 1 := by
    simp only [Numeral.bytes_append]
    rfl
  rw [← hfront]
  refine slice_append _ body ((if closed then ['\x7d'] else []) ++ f.rest) ?_ rfl rfl
  rw [hf, Construct.text] at hs
  simpa using hs

end Block

/-- A construct that is found is read in place as the node it is. -/
theorem nodeInPlace_eq {s : Text} {f : Found} (h : nextConstruct s = some f)
    (read : (t : Text) → t.length < s.length → Except Fault (List Node × Text))
    (hread : ∀ t ht, read t ht = .ok (readNodes t)) :
    nodeInPlace s f.span read = .ok f.construct.node? := by
  rw [nodeInPlace, slice_text h]
  cases hf : f.construct with
  | statement text =>
    have hopening : f.span.opening = none := by simp only [Found.span, hf]
    obtain ⟨t, rfl⟩ := nextConstruct_statement h hf
    simp only [hopening, Construct.text, bind, Except.bind, pure, Except.pure, trim_statement]
    rfl
  | block head body closed =>
    have hbody := length_body_lt h hf
    simp only [opening_span hf, slice_head h hf, bodyEnd_span hf, slice_body h hf, nextSpan_eq,
      Construct.node?, bind, Except.bind, pure, Except.pure, dif_pos hbody, hread]
    split
    · rfl
    · cases hnext : nextConstruct body <;> rfl

/-- **A text is read in place as it is read character by character.** -/
theorem readInPlace_eq (s : Text) : readInPlace s = .ok (readNodes s) := by
  rw [readInPlace, nextSpan_eq]
  cases h : nextConstruct s with
  | none =>
    rw [readNodes_of_none h]
    rfl
  | some f =>
    have hrest := length_rest_lt h
    have hnode := nodeInPlace_eq h (fun t _ => readInPlace t) fun t _ => readInPlace_eq t
    rw [readNodes_of_some h]
    simp only [Option.map_some, bind, Except.bind, slice_before h, hnode, slice_rest h,
      dif_pos hrest, readInPlace_eq f.rest]
    rfl
termination_by s.length

/-- **Every text is read in place without a fault, and its forest is the one that is read character
by character.** -/
theorem Forest.inPlace_eq (s : Text) : Forest.inPlace s = .ok (Forest.ofPlain s) := by
  rw [Forest.inPlace, readInPlace_eq]
  rfl

end UtilitySheet.Sheet
