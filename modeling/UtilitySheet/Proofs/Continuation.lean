import UtilitySheet.Assembly
import UtilitySheet.Proofs.Constructs

/-!
# Text behind a complete stylesheet

The reader goes from left to right, and what it has found does not depend on what follows: a comment
or a block that is closed stays closed. Only the blanks that are left at the end of a stylesheet
come before the first construct of the text behind it, and they matter in one case alone, as the
head of a block that would have none (`readNodes_blanks_append`). So whatever is added behind a
complete stylesheet and a line end, the nodes of both are sorted together and none of them is lost
(`Complete.ofText_append`). A `{` at the very start of the added text is the one thing that the
line end changes (`residual_append_fails`).
-/

namespace UtilitySheet.Sheet

open Text

/-! ## Closed comments -/

/-- Whether a comment is open behind a text; `inside` says whether the text starts within one. -/
def opensComment : (inside : Bool) → Text → Bool
  | inside, [] => inside
  | false, '/' :: '*' :: s => opensComment true s
  | false, _ :: s => opensComment false s
  | true, '*' :: '/' :: s => opensComment false s
  | true, _ :: s => opensComment true s

/-- Behind a text that closes its comments, a new line starts outside of comments. -/
theorem stripFrom_append {acc u : Text} {inside : Bool} (h : opensComment inside u = false)
    (a : Text) : stripFrom acc inside (u ++ '\n' :: a) =
      stripFrom acc inside u ++ stripComments ('\n' :: a) := by
  fun_induction stripFrom acc inside u with
  | case1 acc inside =>
    obtain rfl : inside = false := h
    exact stripFrom_append_reverse [] acc false _
  | case2 acc s ih | case4 acc s ih => exact ih h
  | case3 acc c s hopen ih =>
    rw [opensComment.eq_3 c s hopen] at h
    rw [List.cons_append, stripFrom.eq_3, ih h]
    intro t hc ht
    cases s with
    | nil => cases ht
    | cons d s =>
      obtain ⟨rfl, -⟩ := List.cons.inj ht
      exact hopen s hc rfl
  | case5 acc c s hclose ih =>
    rw [opensComment.eq_5 c s hclose] at h
    rw [List.cons_append, stripFrom.eq_5, ih h]
    intro t hc ht
    cases s with
    | nil => cases ht
    | cons d s =>
      obtain ⟨rfl, -⟩ := List.cons.inj ht
      exact hclose s hc rfl

theorem stripComments_append {u : Text} (h : opensComment false u = false) (a : Text) :
    stripComments (u ++ '\n' :: a) = stripComments u ++ '\n' :: stripComments a := by
  rw [stripComments, stripFrom_append h]
  exact congrArg (_ ++ ·) (stripFrom_append_reverse [] ['\n'] false a)

/-! ## Constructs that are closed -/

/-- The constructs of a text outside of other constructs, in order. -/
def constructs (s : Text) : List Construct :=
  match hs : nextConstruct s with
  | none => []
  | some found =>
    have := length_rest_lt hs
    found.construct :: constructs found.rest
termination_by s.length

/-- Whether a construct has its closing brace. -/
def Construct.isClosed : Construct → Bool
  | statement _ => true
  | block _ _ closed => closed

theorem constructs_of_some {s : Text} {f : Found} (h : nextConstruct s = some f) :
    constructs s = f.construct :: constructs f.rest := by
  rw [constructs]
  split
  · simp_all
  · rename_i found hs
    obtain rfl := Option.some.inj (hs.symm.trans h)
    rfl

theorem constructs_of_none {s : Text} (h : nextConstruct s = none) : constructs s = [] := by
  rw [constructs]
  split
  · rfl
  · simp_all

theorem splitBody_append {acc s body rest : Text} {depth : Nat}
    (h : splitBody acc depth s = (body, some rest)) (v : Text) :
    splitBody acc depth (s ++ v) = (body, some (rest ++ v)) := by
  fun_induction splitBody acc depth s with
  | case1 => cases h
  | case2 acc depth s ih =>
    rw [List.cons_append, splitBody_open, ih h]
  | case3 acc s =>
    obtain ⟨rfl, hrest⟩ := Prod.mk.inj h
    obtain rfl := Option.some.inj hrest
    simp [splitBody]
  | case4 acc s depth _ ih => rw [List.cons_append, splitBody_close, ih h]
  | case5 acc depth c s ho hc ih => rw [List.cons_append, splitBody_of_ne ho hc, ih h]

/-- A construct that is closed is found whatever stands behind it. -/
theorem findFrom_append {before s : Text} {r : Run} {f : Found} (h : findFrom before r s = some f)
    (hclosed : f.construct.isClosed = true) (v : Text) :
    findFrom before r (s ++ v) = some { f with rest := f.rest ++ v } := by
  fun_induction findFrom before r s with
  | case1 => cases h
  | case2 before r c s hstep ih | case3 before r c s hstep ih | case4 before r c s hstep ih =>
    rw [List.cons_append, findFrom, hstep]
    exact ih h
  | case5 before r c s hstep =>
    obtain rfl := Option.some.inj h
    rw [List.cons_append, findFrom, hstep]
  | case6 before r c s hstep =>
    obtain rfl := Option.some.inj h
    rw [List.cons_append, findFrom, hstep]
    unfold Found.block at hclosed ⊢
    split at hclosed
    · rename_i body rest hbody
      rw [splitBody_append hbody]
    · cases hclosed

theorem nextConstruct_append {s : Text} {f : Found} (h : nextConstruct s = some f)
    (hclosed : f.construct.isClosed = true) (v : Text) :
    nextConstruct (s ++ v) = some { f with rest := f.rest ++ v } := findFrom_append h hclosed v

/-! ## Blanks in front -/

/-- The run with blanks in front of it. -/
def Run.behind (b : Text) (r : Run) : Run := { r with chars := r.chars ++ b.reverse }

theorem Run.behind_push (b : Text) (r : Run) (c : Char) :
    (r.behind b).push c = (r.push c).behind b := by
  simp [Run.push_eq, Run.behind]

/-- Blanks in front of a run matter only where they make it a head. -/
theorem Run.behind_step (b : Text) {r : Run} {c : Char} (hat : r.atRule = false)
    (hc : r.chars ≠ [] ∨ c ≠ '\x7b') : (r.behind b).step c = r.step c := by
  obtain ⟨chars, atRule, blank, nesting, quote⟩ := r
  obtain rfl : atRule = false := hat
  simp only [Run.step, Run.isHead, Run.guarded, Run.behind]
  rcases hc with hc | hc
  · cases chars with
    | nil => exact absurd rfl hc
    | cons d chars => rfl
  · simp [hc]

theorem Run.step_ne_statement {r : Run} (hat : r.atRule = false) (c : Char) :
    r.step c ≠ .statement := by
  simp only [Run.step, hat, Bool.false_and]
  grind

/-- What is found behind blanks: they stand before the construct, or start the head of the block. -/
inductive Found.Behind (b : Text) (f : Found) : Found → Prop
  | before : Behind b f { f with before := b ++ f.before }
  | head {head body : Text} {closed : Bool} : f.construct = .block head body closed →
      Behind b f { f with construct := .block (b ++ head) body closed }

theorem findFrom_behind (b : Text) {r : Run} {s : Text} (hat : r.atRule = false)
    (hs : r.chars ≠ [] ∨ s.head? ≠ some '\x7b') :
    Option.Rel (Found.Behind b) (findFrom [] r s) (findFrom [] (r.behind b) s) := by
  -- Once the run is dropped, the blanks stand before whatever is found.
  have hbefore : ∀ (before : Text) (r : Run) (t : Text), Option.Rel (Found.Behind b)
      (findFrom before r t) (findFrom (before ++ b.reverse) r t) := by
    intro before r t
    rw [findFrom_before before, findFrom_before (before ++ b.reverse)]
    cases findFrom [] r t with
    | none => exact .none
    | some f =>
      have hf := Found.Behind.before (b := b) (f := { f with before := before.reverse ++ f.before })
      refine .some ?_
      simpa using hf
  induction s generalizing r with
  | nil => exact .none
  | cons c s ih =>
    have hstep : (r.behind b).step c = r.step c :=
      Run.behind_step b hat (hs.imp_right fun h => by simpa using h)
    simp only [findFrom, hstep]
    split
    · rw [Run.behind_push]
      exact ih (by simpa [Run.push_eq] using hat) (.inl (by simp [Run.push_eq]))
    · simpa [Run.behind] using hbefore (c :: r.chars) .empty s
    · simpa [Run.behind] using hbefore r.chars .ofAtSign s
    · rename_i hstatement
      exact absurd (Run.step_ne_statement hat c) (not_not_intro hstatement)
    · simp only [Found.block, Run.behind]
      split
      · refine .some ?_
        simpa using Found.Behind.head (b := b) rfl
      · refine .some ?_
        simpa using Found.Behind.head (b := b) rfl

theorem nextConstruct_blanks_append {b s : Text} (hb : isBlankText b = true)
    (hs : b = [] ∨ s.head? ≠ some '\x7b') :
    Option.Rel (Found.Behind b) (nextConstruct s) (nextConstruct (b ++ s)) := by
  rcases hs with rfl | hs
  · cases h : nextConstruct s with
    | none => simp [h]
    | some f => simpa [h] using Found.Behind.before (b := []) (f := f)
  · have hblank : findFrom [] .empty (b ++ s) = findFrom [] (Run.empty.behind b) s := by
      have hat : isAtText b = false := by
        have h := isAtText_blanks_append hb []
        rwa [List.append_nil] at h
      rw [findFrom_stretch [] s (brackets_blanks hb [])]
      simp [runOf, leadOf, coreOf, hat, hb, Run.behind, Run.empty]
    rw [nextConstruct, nextConstruct, hblank]
    exact findFrom_behind b rfl (.inr hs)

theorem trim_blanks_append {b : Text} (hb : isBlankText b = true) (s : Text) :
    trim (b ++ s) = trim s := by
  rw [trim, trim, List.dropWhile_append_of_pos (List.all_eq_true.1 hb)]

theorem Construct.node?_blanks_append {b : Text} (hb : isBlankText b = true) (head body : Text)
    (closed : Bool) :
    (Construct.block (b ++ head) body closed).node? = (Construct.block head body closed).node? := by
  have htext : trim (Construct.block (b ++ head) body closed).text =
      trim (Construct.block head body closed).text := by
    simp only [Construct.text, List.append_assoc, trim_blanks_append hb]
  simp only [Construct.node?, normalHead_blanks_append hb, htext]

/-- **Blanks in front of a text change its nodes only where they make a head of nothing.** -/
theorem readNodes_blanks_append {b s : Text} (hb : isBlankText b = true)
    (hs : b = [] ∨ s.head? ≠ some '\x7b') :
    (readNodes (b ++ s)).1 = (readNodes s).1 ∧
      trim (readNodes (b ++ s)).2 = trim (readNodes s).2 := by
  have hfound := nextConstruct_blanks_append hb hs
  cases h : nextConstruct s with
  | none =>
    cases h' : nextConstruct (b ++ s) with
    | some f => simp [h, h'] at hfound
    | none =>
      rw [readNodes_of_none h, readNodes_of_none h']
      exact ⟨rfl, trim_blanks_append hb s⟩
  | some f =>
    cases h' : nextConstruct (b ++ s) with
    | none => simp [h, h'] at hfound
    | some f' =>
      rw [h, h'] at hfound
      rw [readNodes_of_some h, readNodes_of_some h']
      cases hfound with
      | some hf =>
        cases hf with
        | before => exact ⟨rfl, by rw [List.append_assoc, trim_blanks_append hb]⟩
        | head hconstruct =>
          rw [hconstruct, Construct.node?_blanks_append hb]
          exact ⟨rfl, rfl⟩

/-! ## Text behind closed constructs -/

/-- **Behind closed constructs with nothing between them, a text is read as it is on its own.** -/
theorem readNodes_append {s t : Text} (hclosed : ∀ c ∈ constructs s, c.isClosed = true)
    (hleft : isBlankText (readNodes s).2 = true) (ht : t.head? ≠ some '\x7b') :
    (readNodes (s ++ t)).1 = (readNodes s).1 ++ (readNodes t).1 ∧
      trim (readNodes (s ++ t)).2 = trim (readNodes t).2 := by
  cases h : nextConstruct s with
  | none =>
    rw [readNodes_of_none h] at hleft ⊢
    exact readNodes_blanks_append hleft (.inr ht)
  | some f =>
    have hrest := length_rest_lt h
    rw [constructs_of_some h, List.forall_mem_cons] at hclosed
    rw [readNodes_of_some h, isBlankText_append] at hleft
    obtain ⟨hnodes, htrim⟩ := readNodes_append hclosed.2 hleft.2 ht
    rw [readNodes_of_some (nextConstruct_append h hclosed.1 t), readNodes_of_some h, hnodes,
      trim_blanks_append hleft.1]
    exact ⟨(List.append_assoc _ _ _).symm, htrim⟩
termination_by s.length

/-! ## Sorting -/

/-- Siblings in priority order are known by their nodes of each priority. -/
theorem Node.eq_of_filter_eq {ns ms : List Node}
    (hn : ns.Pairwise fun a b => a.priority ≤ b.priority)
    (hm : ms.Pairwise fun a b => a.priority ≤ b.priority)
    (h : ∀ k : Int, ns.filter (·.priority == k) = ms.filter (·.priority == k)) : ns = ms := by
  -- The first node has the least priority of all, so it comes first in both.
  have hle : ∀ {n : Node} {ns ms : List Node}, ms.Pairwise (fun a b => a.priority ≤ b.priority) →
      (∀ k : Int, (n :: ns).filter (·.priority == k) = ms.filter (·.priority == k)) →
      ∃ m ms', ms = m :: ms' ∧ m.priority ≤ n.priority := by
    intro n ns ms hm h
    have hmem : n ∈ ms := by
      have hn : n ∈ (n :: ns).filter (·.priority == n.priority) := by simp
      rw [h] at hn
      exact List.mem_of_mem_filter hn
    cases ms with
    | nil => cases hmem
    | cons m ms =>
      refine ⟨m, ms, rfl, ?_⟩
      rcases List.mem_cons.1 hmem with rfl | hmem
      · exact Int.le_refl _
      · exact List.rel_of_pairwise_cons hm hmem
  induction ns generalizing ms with
  | nil =>
    cases ms with
    | nil => rfl
    | cons m ms => simpa using h m.priority
  | cons n ns ih =>
    obtain ⟨m, ms, rfl, hmn⟩ := hle hm h
    obtain ⟨_, _, heq, hnm⟩ := hle hn fun k => (h k).symm
    obtain ⟨rfl, rfl⟩ := List.cons.inj heq
    have hpriority := Int.le_antisymm hnm hmn
    have hfirst := h n.priority
    simp only [List.filter_cons, hpriority, beq_self_eq_true, if_true] at hfirst
    obtain rfl : n = m := (List.cons.inj hfirst).1
    rw [ih hn.of_cons hm.of_cons fun k => ?_]
    have hk := h k
    simp only [List.filter_cons] at hk
    split at hk
    · exact (List.cons.inj hk).2
    · exact hk

/-- Siblings that are in priority order keep it when they are sorted with others. -/
theorem Node.sublist_sorted {ns ms : List Node} (h : ns.Sublist ms)
    (hsorted : ns.Pairwise fun a b => a.priority ≤ b.priority) : ns.Sublist (sorted ms) :=
  List.sublist_mergeSort priorityLe_trans priorityLe_total (by simpa using hsorted) h

/-- Nodes of one priority stay as they were. -/
theorem Node.filter_priority_sorted (ns : List Node) (k : Int) :
    (sorted ns).filter (·.priority == k) = ns.filter (·.priority == k) := by
  refine filter_sorted fun a b ha hb => ?_
  simp only [beq_iff_eq] at ha hb
  rw [ha, hb]

/-- Sorted siblings can be sorted with others as if they were not sorted. -/
theorem Node.sorted_append (ns ms : List Node) :
    Node.sorted (ns ++ ms) = Node.sorted (Node.sorted ns ++ Node.sorted ms) := by
  refine Node.eq_of_filter_eq (Node.pairwise_sorted _) (Node.pairwise_sorted _) fun k => ?_
  simp only [filter_priority_sorted, List.filter_append]

/-! ## Complete stylesheets -/

/-- A stylesheet to which text can be added: its comments and blocks are closed, and no text is left
between its constructs. -/
structure Complete (s : Text) : Prop where
  comments : opensComment false s = false
  blocks : ∀ c ∈ constructs (stripComments s), c.isClosed = true
  left : (Forest.ofText s).residual = none

theorem unlessBlank_eq_none_iff {s : Text} : unlessBlank s = none ↔ isBlankText s = true := by
  simp [unlessBlank]

/-- Texts that are the same once trimmed are left alike. -/
theorem map_trim_unlessBlank {s t : Text} (h : trim s = trim t) :
    (unlessBlank s).map trim = (unlessBlank t).map trim := by
  have hblank : isBlankText s = isBlankText t := by
    rw [Bool.eq_iff_iff, ← withoutBlanks_eq_nil_iff, ← withoutBlanks_eq_nil_iff,
      ← withoutBlanks_trim s, h, withoutBlanks_trim]
  unfold unlessBlank
  rw [hblank]
  split
  · rfl
  · exact congrArg some h

/-- **What stands behind a complete stylesheet and a line end is read apart.** -/
theorem Complete.ofPlain_append {u : Text} (hu : Complete u) {t : Text}
    (ht : t.head? ≠ some '\x7b') :
    (Forest.ofPlain (stripComments u ++ t)).nodes =
        Node.sorted ((Forest.ofText u).nodes ++ (Forest.ofPlain t).nodes) ∧
      (Forest.ofPlain (stripComments u ++ t)).residual.map trim =
        (Forest.ofPlain t).residual.map trim := by
  obtain ⟨hnodes, htrim⟩ := readNodes_append hu.blocks (unlessBlank_eq_none_iff.1 hu.left) ht
  refine ⟨?_, map_trim_unlessBlank htrim⟩
  exact (congrArg Node.sorted hnodes).trans (Node.sorted_append _ _)

theorem stripComments_newline (a : Text) : stripComments ('\n' :: a) = '\n' :: stripComments a :=
  stripComments_append (u := []) rfl a

/-- **What stands behind a complete stylesheet does not affect it.** Its nodes are sorted with those
behind it, what is left between constructs is left behind it, and each of its nodes is written. -/
theorem Complete.ofText_append {u : Text} (hu : Complete u) (a : Text) :
    (Forest.ofText (u ++ '\n' :: a)).nodes =
        Node.sorted ((Forest.ofText u).nodes ++ (Forest.ofText ('\n' :: a)).nodes) ∧
      (Forest.ofText (u ++ '\n' :: a)).residual.map trim =
        (Forest.ofText ('\n' :: a)).residual.map trim ∧
      ((stripComments a).head? ≠ some '\x7b' →
        (Forest.ofText (u ++ '\n' :: a)).residual.map trim =
          (Forest.ofText a).residual.map trim) ∧
      ∀ (t : Template) (g : RuleGroups), t.render g.rendered = u →
        ∃ items, Assembly.assemble t g (some a) .concat = Item.renderAll 0 items ++ "\n" ∧
          ((Forest.ofText u).nodes.map Item.ofNode).Sublist items := by
  obtain ⟨hnodes, hresidual⟩ :=
    hu.ofPlain_append (t := '\n' :: stripComments a) (by simp)
  rw [← stripComments_append hu.comments, ← stripComments_newline, ← Forest.ofText,
    ← Forest.ofText] at hnodes hresidual
  refine ⟨hnodes, hresidual, fun ha => ?_, fun t g ht => ?_⟩
  · have hblank := readNodes_blanks_append (b := ['\n']) (by decide) (.inr ha)
    refine hresidual.trans (map_trim_unlessBlank ?_)
    rw [stripComments_newline]
    exact hblank.2
  · have hcombined : Assembly.combined t g a = u ++ '\n' :: a := by
      rw [Assembly.combined, ht, List.append_assoc]
      rfl
    refine ⟨(Forest.ofText (u ++ '\n' :: a)).nodes.map Item.ofNode, ?_, ?_⟩
    · rw [Assembly.assemble, hcombined, reassemble, Forest.write, Forest.items,
        Item.ofNodes_eq_map]
    · refine List.Sublist.map _ ?_
      rw [hnodes]
      exact Node.sublist_sorted (List.sublist_append_left _ _) (Node.pairwise_sorted _)

/-- A template with a comment, a statement and a block without a head around its placeholder. -/
def notedTemplate : Template := ⟨"/* a */@page;---standard---\x7by:1\x7d"⟩

/-- The groups with one rule, for all screens. -/
def oneRule : RuleGroups := ⟨[⟨"b", [⟨"x", "1", false⟩], none, 60⟩]⟩

/-- The filled template. -/
def notedSheet : Text := "/* a */@page;.b\x7b\n\tx:1;\n\x7d\n\x7by:1\x7d\n"

theorem Complete.ofText_append_unclosed :
    (Complete notedSheet ∧ notedTemplate.render oneRule.rendered = notedSheet) ∧
      ∃ items, Assembly.assemble notedTemplate oneRule (some "*/ \x7d .c\x7b") .concat =
          Item.renderAll 0 items ++ "\n" ∧
        ((Forest.ofText notedSheet).nodes.map Item.ofNode).Sublist items := by
  have hrender : notedTemplate.render oneRule.rendered = notedSheet := by decide +kernel
  have hcomplete : Complete notedSheet := by
    have hstrip : stripComments notedSheet = notedSheet.drop 7 := by decide
    have hpage : nextConstruct (notedSheet.drop 7) =
        some ⟨[], .statement "@page;", notedSheet.drop 13⟩ := by decide
    have hrule : nextConstruct (notedSheet.drop 13) =
        some ⟨[], .block ".b" "\n\tx:1;\n" true, notedSheet.drop 24⟩ := by decide
    have hheadless : nextConstruct (notedSheet.drop 24) =
        some ⟨[], .block "\n" "y:1" true, "\n"⟩ := by decide
    have hnone : nextConstruct "\n" = none := by decide
    refine ⟨by decide, ?_, ?_⟩
    · rw [hstrip, constructs_of_some hpage, constructs_of_some hrule,
        constructs_of_some hheadless, constructs_of_none hnone]
      decide
    · rw [Forest.ofText, Forest.ofPlain, hstrip, readNodes_of_some hpage, readNodes_of_some hrule,
        readNodes_of_some hheadless, readNodes_of_none hnone]
      decide
  exact ⟨⟨hcomplete, hrender⟩, (hcomplete.ofText_append _).2.2.2 _ _ hrender⟩

/-- A brace at the start of a text opens no block, but behind a line end it opens one without a
head, which is dropped; so it matters what the added text starts with. -/
theorem residual_append_fails : ¬ ∀ u a : Text, Complete u →
    (Forest.ofText (u ++ '\n' :: a)).residual.map withoutBlanks =
      (Forest.ofText a).residual.map withoutBlanks := by
  intro h
  have hrule : nextConstruct ".a\x7bx:1\x7d" = some ⟨[], .block ".a" "x:1" true, []⟩ := by decide
  have hboth : nextConstruct ".a\x7bx:1\x7d\n\x7bx\x7d" =
      some ⟨[], .block ".a" "x:1" true, "\n\x7bx\x7d"⟩ := by decide
  have hheadless : nextConstruct "\n\x7bx\x7d" = some ⟨[], .block "\n" "x" true, []⟩ := by decide
  have hcomplete : Complete ".a\x7bx:1\x7d" := by
    have hstrip : stripComments ".a\x7bx:1\x7d" = ".a\x7bx:1\x7d" := by decide
    refine ⟨by decide, ?_, ?_⟩
    · rw [hstrip, constructs_of_some hrule, constructs_of_none rfl]
      decide
    · rw [Forest.ofText, Forest.ofPlain, hstrip, readNodes_of_some hrule, readNodes_of_none rfl]
      decide
  have hresidual := h ".a\x7bx:1\x7d" "\x7bx\x7d" hcomplete
  have hstrip : stripComments (".a\x7bx:1\x7d" ++ '\n' :: "\x7bx\x7d") =
      ".a\x7bx:1\x7d\n\x7bx\x7d" := by decide
  have halone : stripComments "\x7bx\x7d" = "\x7bx\x7d" := by decide
  rw [Forest.ofText, Forest.ofPlain, hstrip, readNodes_of_some hboth, readNodes_of_some hheadless,
    readNodes_of_none rfl, Forest.ofText, Forest.ofPlain, halone,
    readNodes_of_none (s := "\x7bx\x7d") (by decide)] at hresidual
  exact absurd hresidual (by decide)

end UtilitySheet.Sheet
