import UtilitySheet.Proofs.Braces

/-!
# Comments

Every text falls in one way into stretches with comments between them (`Commented`), and what is
left without the comments are the stretches, one right behind the other
(`Commented.stripComments_eq`). No stretch opens a comment by itself, so one is opened in what is
left exactly where comments alone stand between a `/` and a `*` (`isClean_flatten_iff`). Reading a
text without comments and writing it again opens none: the pieces that are put together end or start
with other characters (`isClean_reassemble`). Main statement: `uncommented_stripComments_iff`. A
slash and a star that a comment keeps apart are joined to an opening mark, and the rest of the text
is lost in the comment (`uncommented_stripComments_fails`).
-/

namespace UtilitySheet.Sheet

open Text

/-! ## The marks of a comment -/

/-- What opens a comment. -/
def opener : Text := ['/', '*']

/-- What closes a comment. -/
def closer : Text := ['*', '/']

/-- Whether a text goes up to a mark: with the mark behind it, the mark occurs in it at the end
only. -/
def GoesUpTo (mark s : Text) : Prop := ∀ u v, s ++ mark = u ++ (mark ++ v) → v = []

namespace GoesUpTo

variable {mark s t : Text} {c : Char}

theorem nil (mark : Text) : GoesUpTo mark [] := by
  intro u v heq
  have hlength := congrArg List.length heq
  simp only [List.nil_append, List.length_append] at hlength
  exact List.length_eq_zero_iff.1 (by omega)

theorem tail (h : GoesUpTo mark (c :: s)) : GoesUpTo mark s :=
  fun u v heq => h (c :: u) v (congrArg (c :: ·) heq)

/-- The mark is not at the start, whatever stands behind it. -/
theorem not_starts (h : GoesUpTo mark (c :: s)) (t : Text) :
    ¬ mark <+: c :: (s ++ (mark ++ t)) := by
  intro hstarts
  have hshort : (c :: s) ++ mark <+: c :: (s ++ (mark ++ t)) := ⟨t, by simp⟩
  have hle : mark.length ≤ ((c :: s) ++ mark).length := by
    rw [List.length_append]
    omega
  obtain ⟨v, hv⟩ := List.prefix_of_prefix_length_le hstarts hshort hle
  have hlength := congrArg List.length hv
  rw [h [] v hv.symm] at hlength
  simp only [List.append_nil, List.length_append, List.length_cons] at hlength
  omega

theorem not_isInfix (h : GoesUpTo mark s) (hmark : mark ≠ []) : ¬ mark <:+: s := by
  rintro ⟨u, v, rfl⟩
  have hv := h u (v ++ mark) (by simp)
  exact hmark (List.append_eq_nil_iff.1 hv).2

/-- A text goes up to the first mark in one way. -/
theorem unique {s' t' : Text} (h : GoesUpTo mark s) (h' : GoesUpTo mark s')
    (heq : s ++ (mark ++ t) = s' ++ (mark ++ t')) : s = s' ∧ t = t' := by
  induction s generalizing s' with
  | nil =>
    cases s' with
    | nil => exact ⟨rfl, List.append_cancel_left heq⟩
    | cons c s' => exact absurd ⟨t, heq⟩ (h'.not_starts t')
  | cons c s ih =>
    cases s' with
    | nil => exact absurd ⟨t', heq.symm⟩ (h.not_starts t)
    | cons d s' =>
      obtain ⟨rfl, hrest⟩ := List.cons.inj heq
      obtain ⟨rfl, rfl⟩ := ih h.tail h'.tail hrest
      exact ⟨rfl, rfl⟩

end GoesUpTo

/-- A text with a mark in it goes up to the first one. -/
theorem exists_goesUpTo {mark s : Text} (h : mark <:+: s) :
    ∃ t r, s = t ++ (mark ++ r) ∧ GoesUpTo mark t := by
  induction s with
  | nil =>
    obtain rfl := List.infix_nil.1 h
    exact ⟨[], [], rfl, .nil []⟩
  | cons c s ih =>
    by_cases hstarts : mark <+: c :: s
    · obtain ⟨r, hr⟩ := hstarts
      exact ⟨[], r, hr.symm, .nil mark⟩
    · obtain ⟨t, r, rfl, ht⟩ := ih ((List.infix_cons_iff.1 h).resolve_left hstarts)
      refine ⟨c :: t, r, rfl, fun u v heq => ?_⟩
      cases u with
      | nil =>
        have hwhole : mark ++ (v ++ r) = c :: (t ++ (mark ++ r)) := by
          rw [← List.append_assoc, ← List.nil_append (mark ++ v), ← heq]
          simp
        exact absurd ⟨v ++ r, hwhole⟩ hstarts
      | cons d u => exact ht u v (List.cons.inj heq).2

theorem isClean_iff {s : Text} : isClean s = true ↔ ¬ opener <:+: s := by
  induction s with
  | nil => simp [isClean, opener]
  | cons c s ih =>
    have hstarts : opener <+: c :: s ↔ c = '/' ∧ s.head? = some '*' := by
      cases s <;> simp [opener, List.cons_prefix_cons, eq_comm]
    rw [isClean_cons, ih, List.infix_cons_iff, hstarts]
    tauto

theorem GoesUpTo.isClean {t : Text} (h : GoesUpTo opener t) : isClean t = true :=
  isClean_iff.2 (h.not_isInfix (by decide))

/-! ## Stretches and comments -/

/-- What a text is to its reader: stretches, and comments between them. A comment goes up to the
first closing mark behind its opening one; without a closing mark it goes up to the end of the
text. -/
inductive Commented : (s : Text) → (stretches comments : List Text) → Prop
  | plain {t : Text} : ¬ opener <:+: t → Commented t [t] []
  | unclosed {t c : Text} : GoesUpTo opener t → ¬ closer <:+: c →
      Commented (t ++ (opener ++ c)) [t] [c]
  | closed {t c s : Text} {ts cs : List Text} : GoesUpTo opener t → GoesUpTo closer c →
      Commented s ts cs → Commented (t ++ (opener ++ (c ++ (closer ++ s)))) (t :: ts) (c :: cs)

theorem exists_commented (s : Text) : ∃ ts cs, Commented s ts cs := by
  by_cases hopen : opener <:+: s
  · obtain ⟨t, r, hr, ht⟩ := exists_goesUpTo hopen
    by_cases hclose : closer <:+: r
    · obtain ⟨c, rest, hrest, hc⟩ := exists_goesUpTo hclose
      have hshorter : rest.length < s.length := by
        simp only [hr, hrest, List.length_append, opener, closer, List.length_cons]
        omega
      obtain ⟨ts, cs, h⟩ := exists_commented rest
      rw [hr, hrest]
      exact ⟨_, _, .closed ht hc h⟩
    · rw [hr]
      exact ⟨_, _, .unclosed ht hclose⟩
  · exact ⟨_, _, .plain hopen⟩
termination_by s.length

namespace Commented

variable {s : Text} {ts cs : List Text}

/-- **A text has its stretches and comments in one way.** -/
theorem unique {ts' cs' : List Text} (h : Commented s ts cs) (h' : Commented s ts' cs') :
    ts' = ts ∧ cs' = cs := by
  -- Both go up to the first opening mark, and from there to the first closing one.
  induction h generalizing ts' cs' with
  | plain ht =>
    cases h' with
    | plain => exact ⟨rfl, rfl⟩
    | unclosed | closed => exact absurd (List.infix_append' _ _ _) ht
  | @unclosed t c ht hc =>
    generalize hs : t ++ (opener ++ c) = s at h'
    cases h' with
    | plain ht' => exact absurd (hs ▸ List.infix_append' _ _ _) ht'
    | unclosed ht' _ =>
      obtain ⟨rfl, rfl⟩ := ht.unique ht' hs
      exact ⟨rfl, rfl⟩
    | closed ht' =>
      obtain ⟨rfl, rfl⟩ := ht.unique ht' hs
      exact absurd (List.infix_append' _ _ _) hc
  | @closed t c s ts cs ht hc _ ih =>
    generalize hs : t ++ (opener ++ (c ++ (closer ++ s))) = s' at h'
    cases h' with
    | plain ht' => exact absurd (hs ▸ List.infix_append' _ _ _) ht'
    | unclosed ht' hc' =>
      obtain ⟨rfl, rfl⟩ := ht.unique ht' hs
      exact absurd (List.infix_append' _ _ _) hc'
    | closed ht' hc' h' =>
      obtain ⟨rfl, hrest⟩ := ht.unique ht' hs
      obtain ⟨rfl, rfl⟩ := hc.unique hc' hrest
      obtain ⟨rfl, rfl⟩ := ih h'
      exact ⟨rfl, rfl⟩

/-- No stretch opens a comment. -/
theorem isClean_of_mem (h : Commented s ts cs) : ∀ t ∈ ts, isClean t = true := by
  induction h with
  | plain ht => exact List.forall_mem_singleton.2 (isClean_iff.2 ht)
  | unclosed ht _ => exact List.forall_mem_singleton.2 ht.isClean
  | closed ht _ _ ih => exact List.forall_mem_cons.2 ⟨ht.isClean, ih⟩

end Commented

/-- A reader sees no comment in a text that opens none. -/
theorem exists_commented_nil_iff {s : Text} : (∃ ts, Commented s ts []) ↔ isClean s = true := by
  refine ⟨fun ⟨ts, h⟩ => ?_, fun h => ⟨[s], .plain (isClean_iff.1 h)⟩⟩
  cases h with
  | plain hs => exact isClean_iff.2 hs

/-! ## What is left -/

theorem stripFrom_opener {t : Text} (ht : GoesUpTo opener t) (acc s : Text) :
    stripFrom acc false (t ++ (opener ++ s)) = stripFrom (t.reverse ++ acc) true s := by
  rw [stripFrom_append_of_isClean ht.isClean fun _ => by simp [opener]]
  rfl

theorem stripFrom_closer {c : Text} (hc : GoesUpTo closer c) (acc s : Text) :
    stripFrom acc true (c ++ (closer ++ s)) = stripFrom acc false s := by
  induction c with
  | nil => rfl
  | cons d c ih =>
    rw [List.cons_append, stripFrom.eq_5, ih hc.tail]
    rintro r rfl heq
    exact hc.not_starts s ⟨r, by rw [heq]; rfl⟩

theorem stripFrom_of_not_isInfix {c : Text} (hc : ¬ closer <:+: c) (acc : Text) :
    stripFrom acc true c = acc.reverse := by
  induction c with
  | nil => rfl
  | cons d c ih =>
    rw [stripFrom.eq_5, ih fun h => hc (List.infix_cons h)]
    rintro r rfl rfl
    exact hc ⟨[], r, rfl⟩

/-- **Without its comments a text is its stretches, one right behind the other.** -/
theorem Commented.stripComments_eq {s : Text} {ts cs : List Text} (h : Commented s ts cs) :
    stripComments s = ts.flatten := by
  induction h with
  | @plain t ht => rw [stripComments_of_isClean (isClean_iff.2 ht), List.flatten_singleton]
  | @unclosed t c ht hc =>
    rw [stripComments, stripFrom_opener ht, stripFrom_of_not_isInfix hc]
    simp
  | @closed t c s ts cs ht hc _ ih =>
    have hbehind : stripFrom t.reverse false s = t ++ stripComments s := by
      have hbehind := stripFrom_append_reverse [] t.reverse false s
      rwa [List.nil_append, List.reverse_reverse] at hbehind
    rw [stripComments, stripFrom_opener ht, stripFrom_closer hc, List.append_nil, hbehind, ih,
      List.flatten_cons]

theorem Commented.length_flatten_le {s : Text} {ts cs : List Text} (h : Commented s ts cs) :
    ts.flatten.length ≤ s.length := by
  induction h with
  | plain => simp
  | unclosed => simp
  | closed _ _ _ ih =>
    simp only [List.flatten_cons, List.length_append]
    omega

/-- **A text stays as it is if and only if no comment is opened in it.** -/
theorem stripComments_eq_self_iff {s : Text} : stripComments s = s ↔ isClean s = true := by
  refine ⟨fun heq => ?_, stripComments_of_isClean⟩
  obtain ⟨ts, cs, h⟩ := exists_commented s
  have hlength := congrArg List.length (h.stripComments_eq.symm.trans heq)
  cases h with
  | plain ht => exact isClean_iff.2 ht
  | unclosed => simp [opener] at hlength
  | closed _ _ h =>
    have hle := h.length_flatten_le
    simp only [List.flatten_cons, List.length_append, opener, closer, List.length_cons] at hlength
    omega

/-! ## Stretches that come together -/

/-- Whether no seam makes an opening mark: wherever the stretches are parted, a `/` at the end of
what stands before has no `*` at the start of what stands behind. -/
def Seamless (ts : List Text) : Prop :=
  ∀ us vs, ts = us ++ vs → us.flatten.getLast? = some '/' → vs.flatten.head? ≠ some '*'

theorem Seamless.tail {t : Text} {ts : List Text} (h : Seamless (t :: ts)) : Seamless ts := by
  rintro us vs rfl hlast
  refine h (t :: us) vs rfl ?_
  rw [List.flatten_cons, List.getLast?_append, hlast]
  rfl

/-- **Clean stretches open a comment together where a slash and a star come together.** -/
theorem isClean_flatten_iff {ts : List Text} (h : ∀ t ∈ ts, isClean t = true) :
    isClean ts.flatten = true ↔ Seamless ts := by
  constructor
  · rintro hclean us vs rfl
    rw [List.flatten_append] at hclean
    exact (isClean_append.1 hclean).2.2
  · intro hseamless
    induction ts with
    | nil => rfl
    | cons t ts ih =>
      rw [List.forall_mem_cons] at h
      rw [List.flatten_cons]
      refine isClean_append.2 ⟨h.1, ih h.2 hseamless.tail, fun hlast => ?_⟩
      exact hseamless [t] ts rfl (by rwa [List.flatten_singleton])

/-! ## Reading without comments -/

/-- What is passed over does not end with a slash: a run that starts no construct is dropped with
the character behind it, and one that is started anew is blank. -/
theorem findFrom_getLast?_before {before s : Text} {r : Run} {f : Found}
    (hbefore : before.head? ≠ some '/') (hr : r.blank = true → r.chars.head? ≠ some '/')
    (h : findFrom before r s = some f) : f.before.getLast? ≠ some '/' := by
  fun_induction findFrom before r s with
  | case1 => cases h
  | case2 before r c s hstep ih =>
    refine ih hbefore (fun hblank => ?_) h
    rw [Run.push_eq, Bool.and_eq_true] at hblank
    rw [Run.chars_push, List.head?_cons]
    rintro ⟨⟩
    exact absurd hblank.2 (by decide)
  | case3 before r c s hstep ih =>
    refine ih ?_ (by decide) h
    rw [List.head?_cons]
    rintro ⟨⟩
    rcases Run.of_step_eq_drop hstep with hc | hc | ⟨hc, -⟩ <;> cases hc
  | case4 before r c s hstep ih =>
    refine ih ?_ (by decide) h
    have hblank : r.blank = true := by
      simp only [Run.step] at hstep
      grind
    rw [List.head?_append]
    cases hchars : r.chars with
    | nil => simpa using hbefore
    | cons d chars => simpa [hchars] using hr hblank
  | case5 before r c s =>
    obtain rfl := Option.some.inj h
    simpa using hbefore
  | case6 before r c s =>
    obtain rfl := Option.some.inj h
    unfold Found.block
    split <;> simpa using hbefore

/-- The pieces of a text without comments have none, and nothing behind what stands before the
construct opens one with it. -/
theorem nextConstruct_isClean {s : Text} {f : Found} (hs : isClean s = true)
    (h : nextConstruct s = some f) : isClean f.construct.text = true ∧ isClean f.rest = true ∧
      ∀ t, isClean t = true → isClean (f.before ++ t) = true := by
  rw [nextConstruct_eq h] at hs
  obtain ⟨hbefore, hbehind, -⟩ := isClean_append.1 hs
  obtain ⟨hconstruct, hrest, -⟩ := isClean_append.1 hbehind
  refine ⟨hconstruct, hrest, fun t ht => isClean_append.2 ⟨hbefore, ht, fun hlast => ?_⟩⟩
  exact absurd hlast (findFrom_getLast?_before (by decide) (by decide) h)

theorem Construct.isClean_block {head body : Text} {closed : Bool}
    (h : isClean (Construct.block head body closed).text = true) :
    isClean head = true ∧ isClean body = true := by
  rw [Construct.text, List.append_assoc] at h
  obtain ⟨hhead, hbehind, -⟩ := isClean_append.1 h
  rw [List.cons_append, isClean_cons_of_ne (by decide)] at hbehind
  exact ⟨hhead, (isClean_append.1 hbehind).1⟩

/-- What is left between the constructs of a text without comments has none. -/
theorem isClean_left (s : Text) (hs : isClean s = true) : isClean (readNodes s).2 = true := by
  cases h : nextConstruct s with
  | none =>
    rw [readNodes_of_none h]
    exact hs
  | some f =>
    have hshorter := length_rest_lt h
    obtain ⟨-, hrest, hbefore⟩ := nextConstruct_isClean hs h
    rw [readNodes_of_some h]
    exact hbefore _ (isClean_left f.rest hrest)
termination_by s.length

/-- **The nodes of a text without comments have none in their heads and bodies.** -/
theorem isClean_readNodes {s : Text} (hs : isClean s = true) :
    ∀ n ∈ (readNodes s).1, n.Everywhere fun n =>
      isClean n.head = true ∧ ∀ body ∈ n.own, isClean body = true := by
  refine everywhere_readNodes (K := fun s => isClean s = true)
    (fun hs h => (nextConstruct_isClean hs h).2.1)
    (fun hs h hc => (Construct.isClean_block (hc ▸ (nextConstruct_isClean hs h).1)).2)
    (fun {s f n} hs h hn => ?_) hs
  have htext := (nextConstruct_isClean hs h).1
  rcases Construct.node?_cases hn with ⟨text, hc, rfl⟩ | ⟨head, body, closed, hc, hn⟩
  · rw [hc] at htext
    exact ⟨htext, fun _ hbody => absurd hbody List.not_mem_nil⟩
  · obtain ⟨hhead, hbody⟩ := Construct.isClean_block (hc ▸ htext)
    have hnormal : isClean (normalHead head) = true := by
      rw [normalHead_eq_tighten]
      exact isClean_tightenFrom hhead
    rcases hn with ⟨-, rfl⟩ | rfl
    · exact ⟨hnormal, List.forall_mem_singleton.2 hbody⟩
    · refine ⟨hnormal, fun own hown => ?_⟩
      simp only [Node.own, unlessBlank] at hown
      split at hown
      · cases hown
      · rw [List.mem_singleton.1 hown]
        exact isClean_left body hbody

/-! ## Writing without comments -/

/-- A body without comments declares values without comments. -/
theorem isClean_value {body : Text} (hbody : isClean body = true) {d : Text × Text}
    (h : d ∈ Declarations.ofBody body) : isClean d.2 = true := by
  obtain ⟨part, hpart, h⟩ := Declarations.mem_ofBody h
  obtain ⟨gap, gap', behind, rfl, -, -, -, -, hvalue, -⟩ := Declarations.eq_append_of_readPart h
  have hstands : behind.dropWhile isLayout <:+: body := by
    refine .trans ?_ (Declarations.infix_of_mem_parts hpart)
    exact (List.dropWhile_suffix _).isInfix.trans ⟨gap ++ (d.1 ++ (gap' ++ [':'])), [], by simp⟩
  rw [hvalue, collapse_eq_squeeze]
  exact isClean_squeezeFrom (isClean_of_isInfix hstands hbody)

/-- Lines of declarations open no comment behind a text that opens none. -/
theorem isClean_append_lines {s : Text} (hs : isClean s = true) (depth : Nat)
    {ds : Declarations} (hname : ∀ d ∈ ds, '/' ∉ d.1) (hvalue : ∀ d ∈ ds, isClean d.2 = true) :
    isClean (s ++ ds.flatMap (declarationLine depth)) = true := by
  induction ds generalizing s with
  | nil => simpa using hs
  | cons d ds ih =>
    rw [List.forall_mem_cons] at hname hvalue
    have hslash : '/' ∉ '\t' :: (tabs depth ++ (d.1 ++ ": ")) := by
      simp [tabs, hname.1]
    have hline : isClean (s ++ declarationLine depth d) = true := by
      have hbehind : isClean ('\t' :: (tabs depth ++ (d.1 ++ ": ")) ++ (d.2 ++ ";")) = true := by
        rw [isClean_append_of_not_mem hslash]
        exact isClean_append_cons (by decide) (by decide) hvalue.1 rfl
      have hwhole := isClean_append_cons (c := '\n') (by decide) (by decide) hs hbehind
      simpa [declarationLine] using hwhole
    rw [List.flatMap_cons, ← List.append_assoc]
    exact ih hline hname.2 hvalue.2

theorem isClean_renderAll {depth : Nat} {items : List Item}
    (h : ∀ i ∈ items, isClean (i.render depth) = true) :
    isClean (Item.renderAll depth items) = true := by
  refine forall_renderAll (P := fun s => isClean s = true) rfl (fun {s t} hs ht => ?_) h
  rw [List.append_assoc]
  exact isClean_append_cons (c := '\n') (by decide) (by decide) hs
    (isClean_append_cons (s := []) (c := '\n') (by decide) (by decide) rfl ht)

/-- **A rule is written without comments** if its head, its bodies and what is inside have none. -/
theorem isClean_render_rule {head : Text} {bodies : List Text} {inner : List Item}
    (hhead : isClean head = true) (hbodies : ∀ body ∈ bodies, isClean body = true)
    (hinner : ∀ i ∈ inner, ∀ depth, isClean (i.render depth) = true) (depth : Nat) :
    isClean ((Item.rule head bodies inner).render depth) = true := by
  have hslash : '/' ∉ tabs depth := by simp [tabs]
  have hopened : isClean (tabs depth ++ brokenHead depth head ++ ['\x7b']) = true := by
    rw [List.append_assoc, isClean_append_of_not_mem hslash]
    exact isClean_append_cons (by decide) (by decide) (isClean_brokenHead hhead) rfl
  have hname : ∀ d ∈ Declarations.ofBodies bodies, '/' ∉ d.1 := by
    intro d hd hmem
    obtain ⟨body, -, hd⟩ := Declarations.mem_ofBodies hd
    obtain ⟨part, -, hpart⟩ := Declarations.mem_ofBody hd
    exact absurd ((Declarations.of_readPart hpart).1 '/' hmem) (by decide)
  have hvalue : ∀ d ∈ Declarations.ofBodies bodies, isClean d.2 = true := by
    intro d hd
    obtain ⟨body, hbody, hd⟩ := Declarations.mem_ofBodies hd
    exact isClean_value (hbodies body hbody) hd
  have hlines := isClean_append_lines hopened depth hname hvalue
  have hinside : isClean (tabs depth ++ brokenHead depth head ++ ['\x7b']
      ++ (Declarations.ofBodies bodies).flatMap (declarationLine depth)
      ++ (if inner.isEmpty then [] else '\n' :: Item.renderAll (depth + 1) inner)) = true := by
    split
    · rwa [List.append_nil]
    · refine isClean_append_cons (by decide) (by decide) hlines ?_
      exact isClean_renderAll fun i hi => hinner i hi (depth + 1)
  have hend : isClean (tabs depth ++ ['\x7d']) = true := by
    rw [isClean_append_of_not_mem hslash]
    rfl
  have hwhole := isClean_append_cons (c := '\n') (by decide) (by decide) hinside hend
  rw [Item.render]
  simpa using hwhole

/-- **A text without comments is written without comments**, in either mode. -/
theorem isClean_reassemble {s : Text} (hs : isClean (stripComments s) = true) (mode : Mode) :
    isClean (reassemble s mode) = true := by
  rw [reassemble, Forest.write, Forest.items_eq]
  have hnodes : ∀ n ∈ (Forest.ofText s).nodes, n.Everywhere fun n =>
      isClean n.head = true ∧ ∀ body ∈ n.own, isClean body = true := fun n hn =>
    isClean_readNodes hs n (Node.mem_sorted.1 hn)
  refine isClean_renderAll fun i hi => ?_
  refine forall_itemsOf (P := fun i => ∀ depth, isClean (i.render depth) = true)
    (fun htext depth => ?_) isClean_render_rule hnodes i hi 0
  rw [Item.render, isClean_append_of_not_mem (by simp [tabs])]
  exact htext

/-! ## Comments that are joined -/

/-- **A text is free of comments without its comments, and stays as it is when they are removed
again, if and only if no comments stand between a slash and a star.** Then what is written for the
text has no comment either. -/
theorem uncommented_stripComments_iff (s : Text) : ∃ ts cs,
    (Commented s ts cs ∧ ∀ ts' cs', Commented s ts' cs' → ts' = ts ∧ cs' = cs) ∧
      stripComments s = ts.flatten ∧
      (¬ opener <:+: stripComments s ↔ Seamless ts) ∧
      (stripComments (stripComments s) = stripComments s ↔ Seamless ts) ∧
      ((∃ ts', Commented (stripComments s) ts' []) ↔ Seamless ts) ∧
      (Seamless ts → ∀ mode, ¬ opener <:+: reassemble s mode) := by
  obtain ⟨ts, cs, h⟩ := exists_commented s
  have hclean : isClean (stripComments s) = true ↔ Seamless ts := by
    rw [h.stripComments_eq]
    exact isClean_flatten_iff h.isClean_of_mem
  refine ⟨ts, cs, ⟨h, fun _ _ => h.unique⟩, h.stripComments_eq, ?_, ?_, ?_, ?_⟩
  · rw [← isClean_iff, hclean]
  · rw [stripComments_eq_self_iff, hclean]
  · rw [exists_commented_nil_iff, hclean]
  · exact fun hseamless mode => isClean_iff.1 (isClean_reassemble (hclean.2 hseamless) mode)

/-- A stylesheet with a comment between a slash and a star. -/
def slashedSheet : Text := ".a\x7bx:1//* b */*2\x7d.b\x7by:3\x7d"

/-- Without the comment the slash and the star open another one, in which the second rule is lost to
every reader of what is left and of what is written. -/
theorem uncommented_stripComments_fails :
    stripComments slashedSheet = ".a\x7bx:1/*2\x7d.b\x7by:3\x7d" ∧
      opener <:+: stripComments slashedSheet ∧
      stripComments (stripComments slashedSheet) = ".a\x7bx:1" ∧
      ∀ mode, reassemble slashedSheet mode =
        ".a\x7b\n\tx: 1/*2;\n\x7d\n\n.b\x7b\n\ty: 3;\n\x7d" := by
  have hstrip : stripComments slashedSheet = ".a\x7bx:1/*2\x7d.b\x7by:3\x7d" := by decide
  have hfirst : nextConstruct ".a\x7bx:1/*2\x7d.b\x7by:3\x7d" =
      some ⟨[], .block ".a" "x:1/*2" true, ".b\x7by:3\x7d"⟩ := by decide
  have hsecond : nextConstruct ".b\x7by:3\x7d" = some ⟨[], .block ".b" "y:3" true, []⟩ := by decide
  have hread : (readNodes ".a\x7bx:1/*2\x7d.b\x7by:3\x7d").1 =
      [.leaf ".a" ".a\x7bx:1/*2\x7d" "x:1/*2", .leaf ".b" ".b\x7by:3\x7d" "y:3"] := by
    rw [readNodes_leaf hfirst (by decide) (by decide),
      readNodes_leaf hsecond (by decide) (by decide), readNodes_of_none (s := []) rfl]
    rfl
  have hnodes : (Forest.ofText slashedSheet).nodes =
      [.leaf ".a" ".a\x7bx:1/*2\x7d" "x:1/*2", .leaf ".b" ".b\x7by:3\x7d" "y:3"] := by
    have hsorted : (Forest.ofText slashedSheet).nodes =
        Node.sorted (readNodes (stripComments slashedSheet)).1 := rfl
    rw [hsorted, hstrip, hread, Node.sorted_of_pairwise]
    decide
  refine ⟨hstrip, ?_, ?_, fun mode => ?_⟩
  · rw [hstrip]
    exact ⟨".a\x7bx:1", "2\x7d.b\x7by:3\x7d", by decide⟩
  · rw [hstrip]
    decide
  · rw [reassemble, Forest.write, Forest.items.eq_def, hnodes]
    cases mode <;> decide

end UtilitySheet.Sheet
