import UtilitySheet.Proofs.Merging
import UtilitySheet.Proofs.Quotes

/-!
# What is read from any text

A text need not be plain to be read. Whatever it is, a statement ends at the first semicolon that no
quote, parenthesis or bracket guards, and the head of a block holds no brace and guarded semicolons
only. So the nodes of any text have the heads that are written in it, in normal form
(`isRead_readNodes`), and the head of a block is never the text of a statement
(`Node.IsRead.withoutBlanks_ne`).
-/

namespace UtilitySheet.Sheet

open Text

/-! ## Guarded semicolons -/

/-- How many parentheses and brackets are open behind one more character, and which quote. -/
def guardStep : (opened : Nat × Option Char) → Char → Nat × Option Char
  | (nesting, some q), c => if c = q then (nesting, none) else (nesting, some q)
  | (nesting, none), c =>
    if c = '"' ∨ c = '\'' then (nesting, some c)
    else if c = '(' ∨ c = '[' then (nesting + 1, none)
    else if c = ')' ∨ c = ']' then (nesting - 1, none)
    else (nesting, none)

/-- How many parentheses and brackets are open behind a text, and which quote. -/
def guards (s : Text) : Nat × Option Char := s.foldl guardStep (0, none)

/-- Whether a semicolon behind the text is an ordinary character. -/
def isGuarded (s : Text) : Bool := (guards s).1 > 0 || (guards s).2.isSome

theorem guardStep_of_isBlank {c : Char} (hc : isBlank c = true) (opened : Nat × Option Char)
    (hopened : ∀ q, opened.2 = some q → isQuote q = true) : guardStep opened c = opened := by
  obtain ⟨nesting, quote⟩ := opened
  have hmark := not_mem_marks_of_isBlank hc
  simp only [marks, List.mem_cons, List.not_mem_nil, or_false, not_or] at hmark
  cases quote with
  | none => simp [guardStep, hmark]
  | some q =>
    have hne : c ≠ q := by
      rintro rfl
      have hquote := hopened c rfl
      rw [isQuote_of_isBlank hc] at hquote
      cases hquote
    simp [guardStep, hne]

theorem isQuote_guardStep {opened : Nat × Option Char} (c : Char)
    (hopened : ∀ q, opened.2 = some q → isQuote q = true) :
    ∀ q, (guardStep opened c).2 = some q → isQuote q = true := by
  obtain ⟨nesting, _ | p⟩ := opened
  · intro q hq
    simp only [guardStep] at hq
    split at hq
    · rename_i hc
      obtain rfl := Option.some.inj hq
      exact isQuote_iff.2 hc
    · split at hq <;> [cases hq; (split at hq <;> cases hq)]
  · intro q hq
    simp only [guardStep] at hq
    split at hq
    · cases hq
    · exact hopened q hq

/-- Blanks guard nothing. -/
theorem guards_withoutBlanks (s : Text) : guards (withoutBlanks s) = guards s := by
  have hfrom : ∀ opened : Nat × Option Char, (∀ q, opened.2 = some q → isQuote q = true) →
      (withoutBlanks s).foldl guardStep opened = s.foldl guardStep opened := by
    induction s with
    | nil => exact fun _ _ => rfl
    | cons c s ih =>
      intro opened hopened
      by_cases hc : isBlank c = true
      · have ih := ih opened hopened
        rw [List.foldl_cons, guardStep_of_isBlank hc opened hopened]
        simpa [withoutBlanks, hc] using ih
      · have ih := ih (guardStep opened c) (isQuote_guardStep c hopened)
        simpa [withoutBlanks, hc] using ih
  refine hfrom (0, none) ?_
  rintro q ⟨⟩

theorem isGuarded_congr {s t : Text} (h : withoutBlanks s = withoutBlanks t) :
    isGuarded s = isGuarded t := by
  rw [isGuarded, isGuarded, ← guards_withoutBlanks s, h, guards_withoutBlanks]

/-! ## What the reader takes for a construct -/

/-- All that a character does to the run it belongs to. -/
theorem Run.push_eq (r : Run) (c : Char) :
    r.push c = ⟨c :: r.chars, r.atRule, r.blank && isBlank c,
      (guardStep (r.nesting, r.quote) c).1, (guardStep (r.nesting, r.quote) c).2⟩ := by
  obtain ⟨chars, atRule, blank, nesting, quote⟩ := r
  cases quote with
  | none =>
    simp only [Run.push, guardStep]
    split
    · rfl
    · split
      · rfl
      · split <;> rfl
  | some q =>
    simp only [Run.push, guardStep]
    split <;> rfl

theorem Run.guards_push (r : Run) (c : Char) :
    ((r.push c).nesting, (r.push c).quote) = guardStep (r.nesting, r.quote) c := by
  rw [Run.push_eq]

/-- What is known of a run that is being read: it holds no opening brace, and semicolons only where
they are guarded. -/
structure Run.Tracked (r : Run) : Prop where
  brace : '\x7b' ∉ r.chars
  guards : (r.nesting, r.quote) = guards r.chars.reverse
  semicolon : ∀ u v, r.chars = v ++ ';' :: u → isGuarded u.reverse = true

theorem Run.Tracked.empty : Run.empty.Tracked where
  brace := List.not_mem_nil
  guards := rfl
  semicolon := by
    intro u v h
    cases v <;> cases h

theorem Run.Tracked.ofAtSign : Run.ofAtSign.Tracked where
  brace := by decide
  guards := rfl
  semicolon := by
    intro u v h
    have hmem : ';' ∈ Run.ofAtSign.chars := by
      rw [h]
      exact List.mem_append_right _ List.mem_cons_self
    exact absurd hmem (by decide)

theorem Run.Tracked.isGuarded_eq {r : Run} (h : r.Tracked) :
    isGuarded r.chars.reverse = r.guarded := by
  rw [isGuarded, ← h.guards, Run.guarded]

theorem Run.Tracked.guardsSemicolons {r : Run} (h : r.Tracked) (u v : Text)
    (heq : r.chars.reverse = u ++ ';' :: v) : isGuarded u = true := by
  have hchars : r.chars = v.reverse ++ ';' :: u.reverse := by
    rw [← List.reverse_reverse r.chars, heq]
    simp
  simpa using h.semicolon _ _ hchars

theorem Run.of_step_eq_extend {r : Run} {c : Char} (h : r.step c = .extend) :
    c ≠ '\x7b' ∧ (c = ';' → r.guarded = true) := by
  simp only [Run.step] at h
  grind

theorem Run.of_step_eq_statement {r : Run} {c : Char} (h : r.step c = .statement) :
    c = ';' ∧ r.guarded = false := by
  simp only [Run.step] at h
  grind

theorem Run.Tracked.push {r : Run} (h : r.Tracked) {c : Char} (hstep : r.step c = .extend) :
    (r.push c).Tracked := by
  obtain ⟨hbrace, hsemicolon⟩ := Run.of_step_eq_extend hstep
  refine ⟨?_, ?_, ?_⟩
  · rw [Run.chars_push, List.mem_cons, not_or]
    exact ⟨Ne.symm hbrace, h.brace⟩
  · rw [Run.guards_push, Run.chars_push, List.reverse_cons, Sheet.guards, List.foldl_append,
      h.guards]
    rfl
  · intro u v heq
    rw [Run.chars_push] at heq
    cases v with
    | nil =>
      obtain ⟨rfl, rfl⟩ := List.cons.inj heq
      rw [h.isGuarded_eq]
      exact hsemicolon rfl
    | cons d v => exact h.semicolon u v (List.cons.inj heq).2

/-- What is known of a construct that is found. -/
inductive Construct.IsFound : Construct → Prop
  | statement {t : Text} : isGuarded t = false → IsFound (.statement (t ++ [';']))
  | block {head body : Text} {closed : Bool} : '\x7b' ∉ head →
      (∀ u v, head = u ++ ';' :: v → isGuarded u = true) → IsFound (.block head body closed)

/-- What holds of a run when it starts and is kept when it goes on holds of the run that a construct
is made of. -/
theorem exists_run_of_findFrom {K : Run → Prop} (empty : K .empty) (ofAtSign : K .ofAtSign)
    (push : ∀ {r c}, K r → r.step c = .extend → K (r.push c)) {before s : Text} {r : Run}
    {f : Found} (hr : K r) (h : findFrom before r s = some f) : ∃ before r s, K r ∧
      (r.step ';' = .statement ∧ f = ⟨before, .statement (r.chars.reverse ++ [';']), s⟩ ∨
        r.step '\x7b' = .block ∧ f = .block before r.chars.reverse s) := by
  fun_induction findFrom before r s with
  | case1 => cases h
  | case2 before r c s hstep ih => exact ih (push hr hstep) h
  | case3 before r c s _ ih => exact ih empty h
  | case4 before r c s _ ih => exact ih ofAtSign h
  | case5 before r c s hstep =>
    obtain ⟨rfl, -⟩ := Run.of_step_eq_statement hstep
    obtain rfl := Option.some.inj h
    exact ⟨before.reverse, r, s, hr, .inl ⟨hstep, by rw [List.reverse_cons]⟩⟩
  | case6 before r c s hstep =>
    obtain rfl := Run.step_eq_block hstep
    obtain rfl := Option.some.inj h
    exact ⟨before.reverse, r, s, hr, .inr ⟨hstep, rfl⟩⟩

theorem exists_run_of_nextConstruct {K : Run → Prop} (empty : K .empty) (ofAtSign : K .ofAtSign)
    (push : ∀ {r c}, K r → r.step c = .extend → K (r.push c)) {s : Text} {f : Found}
    (h : nextConstruct s = some f) : ∃ r, K r ∧
      (r.step ';' = .statement ∧ f.construct = .statement (r.chars.reverse ++ [';']) ∨
        r.step '\x7b' = .block ∧
          ∃ body closed, f.construct = .block r.chars.reverse body closed) := by
  obtain ⟨before, r, s, hr, ⟨hstep, rfl⟩ | ⟨hstep, rfl⟩⟩ :=
    exists_run_of_findFrom empty ofAtSign push empty h
  · exact ⟨r, hr, .inl ⟨hstep, rfl⟩⟩
  · refine ⟨r, hr, .inr ⟨hstep, ?_⟩⟩
    unfold Found.block
    split <;> exact ⟨_, _, rfl⟩

theorem nextConstruct_isFound {s : Text} {f : Found} (h : nextConstruct s = some f) :
    f.construct.IsFound := by
  obtain ⟨r, hr, ⟨hstep, hc⟩ | ⟨-, body, closed, hc⟩⟩ :=
    exists_run_of_nextConstruct (K := Run.Tracked) .empty .ofAtSign (fun hr => hr.push) h
  · have hguarded := (Run.of_step_eq_statement hstep).2
    rw [← hr.isGuarded_eq] at hguarded
    rw [hc]
    exact .statement hguarded
  · have hbrace : '\x7b' ∉ r.chars.reverse := fun hmem => hr.brace (List.mem_reverse.1 hmem)
    rw [hc]
    exact .block hbrace hr.guardsSemicolons

namespace Node

/-- The node as it is written in the source. -/
def written : Node → Text
  | statement text => text
  | leaf _ written _ => written
  | nest _ written _ _ => written

/-- The head of a block as it is written in the source. -/
def writtenHead (n : Node) : Text := n.written.takeWhile (· != '\x7b')

/-- What is known of a node that is read from any text. -/
inductive IsRead : Node → Prop
  | statement {t : Text} : isGuarded t = false → IsRead (.statement (t ++ [';']))
  | block {n : Node} : n.isBlock = true → n.head = normalHead n.writtenHead →
      (∀ u v, n.writtenHead = u ++ ';' :: v → isGuarded u = true) →
      n.children.Pairwise (fun a b => a.priority ≤ b.priority) → IsRead n

end Node

theorem trimEnd_append_cons {c : Char} (hc : isBlank c = false) (s t : Text) :
    trimEnd (s ++ c :: t) = s ++ c :: trimEnd t := by
  have hc : ¬ isBlank c = true := by simp [hc]
  rw [trimEnd, trimEnd, List.reverse_append, List.reverse_cons, List.append_assoc,
    List.dropWhile_append]
  split
  · rename_i hnil
    rw [List.isEmpty_iff] at hnil
    rw [List.singleton_append, List.dropWhile_cons_of_neg hc, hnil]
    simp
  · simp

/-- A block without the blanks around it. -/
theorem trim_block (head body : Text) (closed : Bool) :
    trim (Construct.block head body closed).text =
      head.dropWhile isBlank ++ '\x7b' :: trimEnd (body ++ if closed then ['\x7d'] else []) := by
  have hblank : isBlank '\x7b' = false := by decide
  rw [Construct.text, List.append_assoc, List.cons_append, trim, dropWhile_append_cons hblank,
    trimEnd_append_cons hblank]

/-- The head of a block stands before its brace. -/
theorem takeWhile_trim_block {head : Text} (hbrace : '\x7b' ∉ head) (body : Text)
    (closed : Bool) :
    (trim (Construct.block head body closed).text).takeWhile (· != '\x7b') =
      head.dropWhile isBlank := by
  have hhead : ∀ c ∈ head.dropWhile isBlank, (c != '\x7b') = true := by
    intro c hc
    rw [bne_iff_ne]
    rintro rfl
    exact hbrace ((List.dropWhile_suffix isBlank).subset hc)
  rw [trim_block, List.takeWhile_append_of_pos hhead]
  simp

theorem normalHead_dropWhile (s : Text) : normalHead (s.dropWhile isBlank) = normalHead s := by
  have h := normalHead_blanks_append (b := s.takeWhile isBlank) List.all_takeWhile
    (s.dropWhile isBlank)
  rw [← h, List.takeWhile_append_dropWhile]

/-- A block that is found is read as a node. -/
theorem Node.IsRead.of_block {n : Node} {head body : Text} {closed : Bool}
    (h : (Construct.block head body closed).IsFound) (hblock : n.isBlock = true)
    (hhead : n.head = normalHead head)
    (hwritten : n.written = trim (Construct.block head body closed).text)
    (hsorted : n.children.Pairwise fun a b => a.priority ≤ b.priority) : n.IsRead := by
  cases h with
  | block hbrace hsemicolon =>
    have hraw : n.writtenHead = head.dropWhile isBlank := by
      rw [Node.writtenHead, hwritten, takeWhile_trim_block hbrace]
    refine .block hblock ?_ ?_ hsorted
    · rw [hraw, normalHead_dropWhile, hhead]
    · intro u v heq
      rw [hraw] at heq
      have hwhole : head = (head.takeWhile isBlank ++ u) ++ ';' :: v := by
        rw [List.append_assoc, ← heq, List.takeWhile_append_dropWhile]
      rw [← hsemicolon _ _ hwhole]
      exact isGuarded_congr (withoutBlanks_blanks_append List.all_takeWhile u).symm

/-- What holds of each node that is read from a construct of a text holds of all its nodes, at every
depth. `K` is what the proof knows of the text, and so of the bodies and the rests in it. -/
theorem everywhere_readNodes {K : Text → Prop} {P : Node → Prop}
    (rest : ∀ {s f}, K s → nextConstruct s = some f → K f.rest)
    (body : ∀ {s f head body closed}, K s → nextConstruct s = some f →
      f.construct = .block head body closed → K body)
    (node : ∀ {s f n}, K s → nextConstruct s = some f → f.construct.node? = some n → P n)
    {s : Text} (hs : K s) : ∀ n ∈ (readNodes s).1, n.Everywhere P := by
  cases h : nextConstruct s with
  | none =>
    rw [readNodes_of_none h]
    exact fun _ hn => absurd hn List.not_mem_nil
  | some f =>
    have hrest := length_rest_lt h
    rw [readNodes_of_some h]
    refine List.forall_mem_append.2
      ⟨fun n hn => ?_, everywhere_readNodes rest body node (rest hs h)⟩
    have hnode := Option.mem_toList.1 hn
    refine .intro (node hs h hnode) fun c hchild => ?_
    rcases Construct.node?_cases hnode with
      ⟨text, -, rfl⟩ | ⟨head, inner, closed, hblock, ⟨-, rfl⟩ | rfl⟩
    · exact absurd hchild List.not_mem_nil
    · exact absurd hchild List.not_mem_nil
    · have hbody := length_body_lt h hblock
      exact everywhere_readNodes rest body node (body hs h hblock) c (Node.mem_sorted.1 hchild)
termination_by s.length

/-- **The nodes of any text are read from constructs that were found, at every depth.** -/
theorem isRead_readNodes (s : Text) : ∀ n ∈ (readNodes s).1, n.Everywhere Node.IsRead := by
  refine everywhere_readNodes (K := fun _ => True) (fun _ _ => trivial) (fun _ _ _ => trivial)
    (fun {_ f n} _ h hn => ?_) trivial
  have hfound := nextConstruct_isFound h
  rcases Construct.node?_cases hn with ⟨text, hc, rfl⟩ | ⟨head, body, closed, hc, hn⟩
  · rw [hc] at hfound
    cases hfound with
    | statement hguarded => exact .statement hguarded
  · rw [hc] at hfound
    rcases hn with ⟨-, rfl⟩ | rfl
    · exact .of_block hfound rfl rfl rfl .nil
    · exact .of_block hfound rfl rfl rfl (Node.pairwise_sorted _)

theorem Node.IsRead.pairwise_children {n : Node} (h : n.IsRead) :
    n.children.Pairwise fun a b => a.priority ≤ b.priority := by
  cases h with
  | statement _ => exact .nil
  | block _ _ _ hsorted => exact hsorted

/-- The head of a block is no statement, with or without blanks. -/
theorem Node.IsRead.withoutBlanks_ne {n m : Node} (hn : n.IsRead) (hm : m.IsRead)
    (hblock : n.isBlock = true) (hstatement : m.isBlock = false) :
    withoutBlanks n.head ≠ withoutBlanks m.head := by
  intro heq
  cases hm with
  | block hblock' _ _ _ => exact absurd (hblock'.symm.trans hstatement) (by decide)
  | @statement t hguarded =>
    cases hn with
    | statement _ => cases hblock
    | block _ hhead hsemicolon _ =>
      have hsame : withoutBlanks n.writtenHead = withoutBlanks t ++ [';'] := by
        rw [← withoutBlanks_normalHead, ← hhead, heq]
        have hblank : isBlank ';' = false := by decide
        simp [Node.head, withoutBlanks, hblank]
      -- Up to the last character that is no blank the head is guarded as the statement is.
      obtain ⟨u, v, huv, hu, hv⟩ := List.filter_eq_append_iff.1 hsame
      obtain ⟨b, w, rfl, hb, -, -⟩ := List.filter_eq_cons_iff.1 hv
      have hguard : isGuarded (u ++ b) = true := hsemicolon (u ++ b) w (by simp [huv])
      have hblanks : withoutBlanks (u ++ b) = withoutBlanks t := by
        have hnone : b.filter (!isBlank ·) = [] := List.filter_eq_nil_iff.2 hb
        rw [withoutBlanks, List.filter_append, hnone, List.append_nil]
        exact hu
      rw [isGuarded_congr hblanks, hguarded] at hguard
      cases hguard

end UtilitySheet.Sheet
