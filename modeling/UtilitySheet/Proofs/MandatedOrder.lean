import UtilitySheet.Proofs.Braces
import UtilitySheet.Proofs.PolicyOrder
import UtilitySheet.Proofs.Sources

/-!
# The order that CSS mandates

At the top level CSS wants each `@charset` before each `@import`, and each `@import` before each
`@namespace` and each block. The priorities put the three statements the other way round. So what is
written is in that order if and only if there is no `@import`, or neither of the others, and the
`@import` rules are in order by themselves (`mandated_reassemble`); a stylesheet that is in order
and has two of the three is put out of it (`mandated_reassemble_fails`).

Where nodes are written together, the first one stands for all of them. For at-rules that are known
by their text it is of their name, and a block if they are (`Node.Braced.same`).
-/

namespace UtilitySheet.Sheet

open Text

/-! ## The mandated order -/

/-- What a rule is for the order at the top level: a statement, with the name of its at-rule, or a
block. -/
inductive Kind where
  | statement (name : Option Text)
  | block
  deriving DecidableEq

namespace Kind

/-- A statement with this name. -/
def atRule (name : Text) : Kind := statement (some name)

/-- Whether CSS lets the one come before the other: no `@import` before a `@charset`, and no
`@namespace` and no block before an `@import`. -/
def MayPrecede (k l : Kind) : Prop :=
  (k = atRule "@import" → l ≠ atRule "@charset") ∧
    (k = atRule "@namespace" ∨ k = block → l ≠ atRule "@import")

instance (k l : Kind) : Decidable (MayPrecede k l) := inferInstanceAs (Decidable (_ ∧ _))

end Kind

/-- Whether rules come in the order that CSS mandates. -/
def Mandated (kinds : List Kind) : Prop := kinds.Pairwise Kind.MayPrecede

instance (kinds : List Kind) : Decidable (Mandated kinds) :=
  inferInstanceAs (Decidable (kinds.Pairwise _))

/-- What a node is. -/
def Node.kind (n : Node) : Kind :=
  if n.isBlock then .block else .statement (Policy.atRuleName? n.head)

/-- What an item is. -/
def Item.kind : Item → Kind
  | statement text => .statement (Policy.atRuleName? text)
  | rule _ _ _ => .block

/-- Whether a statement or a block has the name of this at-rule. -/
def Node.isNamed (name : Text) (n : Node) : Bool := Policy.atRuleName? n.head == some name

/-- The rules at the top level of a stylesheet, in the order in which they stand there. -/
def topLevel (s : Text) : List Node := (readNodes (stripComments s)).1

/-! ## First nodes -/

section Firsts

variable {α κ : Type} [BEq κ] [LawfulBEq κ]

/-- The first element of each key. -/
def firstsBy (key : α → κ) (as : List α) : List α := (groupsBy key as).filterMap List.head?

theorem firstsBy_cons (key : α → κ) (a : α) (as : List α) :
    firstsBy key (a :: as) = a :: firstsBy key (as.filter (key · != key a)) := by
  rw [firstsBy, groupsBy_cons, List.filterMap_cons_some List.head?_cons]
  rfl

theorem firstsBy_sublist (key : α → κ) (as : List α) : (firstsBy key as).Sublist as := by
  match as with
  | [] => exact .slnil
  | a :: as =>
    have hlength := List.length_filter_le (key · != key a) as
    rw [firstsBy_cons]
    exact ((firstsBy_sublist key _).trans List.filter_sublist).cons_cons a
termination_by as.length

/-- Each element has a first one of its key; that one is the element itself or comes before it. -/
theorem exists_mem_firstsBy {order : α → α → Prop} (key : α → κ) {as : List α} {a : α}
    (h : as.Pairwise order) (ha : a ∈ as) :
    ∃ b ∈ firstsBy key as, key b = key a ∧ (b = a ∨ order b a) := by
  match as, h with
  | [], _ => cases ha
  | c :: as, h =>
    have hlength := List.length_filter_le (key · != key c) as
    obtain ⟨hfirst, hrest⟩ := List.pairwise_cons.1 h
    rw [firstsBy_cons]
    rcases List.mem_cons.1 ha with rfl | ha
    · exact ⟨a, List.mem_cons_self, rfl, .inl rfl⟩
    · by_cases hkey : key a = key c
      · exact ⟨c, List.mem_cons_self, hkey.symm, .inr (hfirst a ha)⟩
      · obtain ⟨b, hb, hsame⟩ := exists_mem_firstsBy key (hrest.filter (key · != key c))
          (List.mem_filter.2 ⟨ha, bne_iff_ne.2 hkey⟩)
        exact ⟨b, List.mem_cons_of_mem c hb, hsame⟩
termination_by as.length

/-- If what comes first of a key is like what comes after it, the first ones of a sort are those
among the elements of the sort. -/
theorem filter_firstsBy (key : α → κ) {p : α → Bool} {as : List α}
    (h : as.Pairwise fun a b => key a = key b → p b = true → p a = true) :
    (firstsBy key as).filter p = firstsBy key (as.filter p) := by
  match as, h with
  | [], _ => rfl
  | a :: as, h =>
    have hlength := List.length_filter_le (key · != key a) as
    obtain ⟨hfirst, hrest⟩ := List.pairwise_cons.1 h
    have ih := filter_firstsBy key (p := p) (hrest.filter (key · != key a))
    rw [List.filter_filter] at ih
    rw [firstsBy_cons]
    cases ha : p a with
    | true =>
      rw [List.filter_cons_of_pos ha, ih, List.filter_cons_of_pos ha, firstsBy_cons,
        List.filter_filter]
      simp only [Bool.and_comm]
    | false =>
      have hnone : as.filter (fun b => p b && (key b != key a)) = as.filter p := by
        refine List.filter_congr fun b hb => ?_
        cases hpb : p b with
        | false => rfl
        | true =>
          have hne : key b ≠ key a := fun heq => by
            rw [hfirst b hb heq.symm hpb] at ha
            cases ha
          simpa using hne
      rw [List.filter_cons_of_neg (by simp [ha]), ih, List.filter_cons_of_neg (by simp [ha]), hnone]
termination_by as.length

end Firsts

/-- The first node of each place in which siblings are written. -/
def firsts (mode : Mode) (nodes : List Node) : List Node :=
  (places mode nodes).filterMap List.head?

theorem firsts_concat (nodes : List Node) : firsts .concat nodes = nodes := by
  simp [firsts, places, List.filterMap_map, Function.comp_def]

theorem firsts_merge (nodes : List Node) : firsts .merge nodes = firstsBy Node.identity nodes := rfl

theorem firsts_sublist (mode : Mode) (nodes : List Node) : (firsts mode nodes).Sublist nodes := by
  cases mode with
  | concat => rw [firsts_concat]
  | merge =>
    rw [firsts_merge]
    exact firstsBy_sublist _ nodes

theorem exists_mem_firsts (mode : Mode) {nodes : List Node} {n : Node} (hn : n ∈ nodes)
    (h : nodes.Pairwise fun a b => a.priority ≤ b.priority) :
    ∃ l ∈ firsts mode nodes, l.identity = n.identity ∧ l.priority ≤ n.priority := by
  cases mode with
  | concat =>
    rw [firsts_concat]
    exact ⟨n, hn, rfl, Int.le_refl _⟩
  | merge =>
    rw [firsts_merge]
    obtain ⟨l, hl, hidentity, hle⟩ := exists_mem_firstsBy Node.identity h hn
    refine ⟨l, hl, hidentity, ?_⟩
    rcases hle with rfl | hle
    · exact Int.le_refl _
    · exact hle

theorem filter_firsts (mode : Mode) {nodes : List Node} {p : Node → Bool}
    (h : nodes.Pairwise fun a b => a.identity = b.identity → p b = true → p a = true) :
    (firsts mode nodes).filter p = firsts mode (nodes.filter p) := by
  cases mode with
  | concat => rw [firsts_concat, firsts_concat]
  | merge =>
    rw [firsts_merge, firsts_merge]
    exact filter_firstsBy _ h

theorem kind_of_fills {mode : Mode} {place : List Node} {i : Item} (h : Fills mode place i) :
    place.head?.map Node.kind = some i.kind := by
  cases h with
  | statement hfirst => simp [Node.kind, Item.kind, hfirst]
  | rule hfirst => simp [Node.kind, Item.kind, hfirst]

/-- Items are what the first nodes of their places are. -/
theorem map_kind_itemsOf {mode : Mode} {nodes : List Node} (h : ∀ n ∈ nodes, n.IsRead) :
    (itemsOf mode nodes).map Item.kind = (firsts mode nodes).map Node.kind :=
  map_eq_map_firsts ((fills_itemsOf h).imp fun _ _ => kind_of_fills)

/-! ## At-rules that are known by their text -/

namespace Policy

theorem priorityOf_of_name {head name : Text} (h : atRuleName? head = some name) :
    priorityOf head = ((all.find? (·.name == name)).map priority).getD 0 := by
  rw [priorityOf, find?, h]

/-- Only at-rules that are known by their text have such low priorities. -/
theorem exists_name_of_priorityOf_le {head : Text} (h : priorityOf head ≤ -9) :
    ∃ name ∈ keyedByText, atRuleName? head = some name := by
  have hall : ∀ p ∈ all, p.priority ≤ -9 → p.name ∈ keyedByText := by decide
  rw [priorityOf] at h
  cases hfind : find? head with
  | none =>
    rw [hfind] at h
    exact absurd h (by decide)
  | some p =>
    rw [hfind, Option.map_some, Option.getD_some] at h
    obtain ⟨hp, hname⟩ := find?_eq_some hfind
    exact ⟨p.name, hall p hp h, hname⟩

theorem priorityOf_le_of_name {head name : Text} (hname : name ∈ keyedByText)
    (h : atRuleName? head = some name) : priorityOf head ≤ -9 := by
  have hall : ∀ name ∈ keyedByText,
      ((all.find? (·.name == name)).map priority).getD 0 ≤ -9 := by decide
  rw [priorityOf_of_name h]
  exact hall name hname

/-- None of these names starts with another one. -/
theorem eq_of_prefix {name name' s : Text} (h : name ∈ keyedByText) (h' : name' ∈ keyedByText)
    (hs : name <+: s) (hs' : name' <+: s) : name = name' := by
  have hall : ∀ name ∈ keyedByText, ∀ name' ∈ keyedByText, name <+: name' → name = name' := by
    decide
  rcases List.prefix_or_prefix_of_prefix hs hs' with hprefix | hprefix
  · exact hall name h name' h' hprefix
  · exact (hall name' h' name h hprefix).symm

end Policy

theorem dropBeforeBrace_append {u : Text} (h : ';' ∉ u) (s : Text) :
    dropBeforeBrace (u ++ s) = u ++ dropBeforeBrace s := by
  induction u with
  | nil => rfl
  | cons c u ih =>
    rw [List.mem_cons, not_or] at h
    rw [List.cons_append, dropBeforeBrace.eq_2, ih h.2, List.cons_append]
    rintro t rfl
    exact absurd rfl h.1

theorem mem_dropBeforeBrace {s : Text} {c : Char} (hc : c ≠ ';') (h : c ∈ s) :
    c ∈ dropBeforeBrace s := by
  fun_induction dropBeforeBrace s with
  | case1 s ih =>
    rcases List.mem_cons.1 h with rfl | h
    · exact absurd rfl hc
    · rcases List.mem_cons.1 h with rfl | h
      · exact List.mem_cons_self
      · exact List.mem_cons_of_mem _ (ih h)
  | case2 d s _ ih =>
    rcases List.mem_cons.1 h with rfl | h
    · exact List.mem_cons_self
    · exact List.mem_cons_of_mem d (ih h)
  | case3 => exact h

namespace Node

/-- What is known of the braces of a node that is read: there is none in its head, and one in a
block as it is written. -/
structure Braced (n : Node) : Prop where
  read : n.IsRead
  head : isBraceless n.head = true
  written : n.isBlock = true → '\x7b' ∈ n.written

end Node

theorem mem_written_readNodes (s : Text) : ∀ n ∈ (readNodes s).1,
    n.Everywhere fun n => n.isBlock = true → '\x7b' ∈ n.written := by
  refine everywhere_readNodes (K := fun _ => True) (fun _ _ => trivial) (fun _ _ _ => trivial)
    (fun _ _ hn hblock => ?_) trivial
  rcases Construct.node?_cases hn with ⟨text, -, rfl⟩ | ⟨head, body, closed, -, hn⟩
  · cases hblock
  · have hmem : '\x7b' ∈ trim (Construct.block head body closed).text := by
      rw [trim_block]
      exact List.mem_append_right _ List.mem_cons_self
    rcases hn with ⟨-, rfl⟩ | rfl <;> exact hmem

/-- The nodes of any text have their braces where blocks have them, at every depth. -/
theorem braced_readNodes (s : Text) : ∀ n ∈ (readNodes s).1, n.Everywhere Node.Braced := by
  intro n hn
  have h := ((isRead_readNodes s n hn).and (isBraceless_readNodes s n hn)).and
    (mem_written_readNodes s n hn)
  exact h.imp fun _ ⟨⟨hread, hhead⟩, hwritten⟩ => ⟨hread, hhead, hwritten⟩

theorem braced_topLevel (s : Text) : ∀ n ∈ topLevel s, n.Braced :=
  fun n hn => (braced_readNodes _ n hn).here

namespace Node

/-- Without blanks, a node starts with its head. -/
theorem IsRead.exists_withoutBlanks_written {n : Node} (h : n.IsRead) :
    ∃ t, withoutBlanks n.written = withoutBlanks n.head ++ t := by
  cases h with
  | statement _ => exact ⟨[], (List.append_nil _).symm⟩
  | block _ hhead _ _ =>
    refine ⟨withoutBlanks (n.written.dropWhile (· != '\x7b')), ?_⟩
    rw [hhead, withoutBlanks_normalHead, writtenHead, withoutBlanks, withoutBlanks, withoutBlanks,
      ← List.filter_append, List.takeWhile_append_dropWhile]

/-- What makes such an at-rule the same as another one starts with its name. -/
theorem IsRead.prefix_identity {n : Node} (h : n.IsRead) {name : Text}
    (hname : name ∈ Policy.keyedByText) (hat : Policy.atRuleName? n.head = some name) :
    name <+: n.identity := by
  have hall : ∀ name ∈ Policy.keyedByText, withoutBlanks name = name ∧ ';' ∉ name := by decide
  obtain ⟨hblanks, hsemicolon⟩ := hall name hname
  obtain ⟨r, hr⟩ := Policy.atRuleName?_prefix hat
  have hhead : withoutBlanks n.head = name ++ withoutBlanks r := by
    rw [← hr, withoutBlanks, List.filter_append]
    exact congrArg (· ++ _) hblanks
  obtain ⟨t, ht⟩ := h.exists_withoutBlanks_written
  rw [identity_of_keyed hname hat]
  split
  · rw [bareText, ht, hhead, List.append_assoc, dropBeforeBrace_append hsemicolon]
    exact List.prefix_append _ _
  · rw [hhead]
    exact List.prefix_append _ _

/-- Whether such an at-rule is a block can be told from what makes it the same as another one. -/
theorem Braced.mem_identity_iff {n : Node} (h : n.Braced) {name : Text}
    (hname : name ∈ Policy.keyedByText) (hat : Policy.atRuleName? n.head = some name) :
    '\x7b' ∈ n.identity ↔ n.isBlock = true := by
  rw [identity_of_keyed hname hat]
  split
  · rename_i hblock
    refine iff_of_true (mem_dropBeforeBrace (by decide) ?_) hblock
    exact List.mem_filter.2 ⟨h.written hblock, by decide⟩
  · rename_i hblock
    refine iff_of_false (fun hmem => ?_) hblock
    exact absurd rfl (isBraceless_iff.1 h.head _ (List.mem_of_mem_filter hmem)).1

/-- What is the same as such an at-rule and comes before it has its name and is a block if it is
one. -/
theorem Braced.same {n m : Node} (hn : n.Braced) (hm : m.Braced) (hle : n.priority ≤ m.priority)
    (hidentity : n.identity = m.identity) {name : Text} (hname : name ∈ Policy.keyedByText)
    (hat : Policy.atRuleName? m.head = some name) :
    Policy.atRuleName? n.head = some name ∧ n.isBlock = m.isBlock := by
  obtain ⟨name', hname', hat'⟩ := Policy.exists_name_of_priorityOf_le
    (Int.le_trans hle (Policy.priorityOf_le_of_name hname hat))
  have hprefix := hn.read.prefix_identity hname' hat'
  rw [hidentity] at hprefix
  obtain rfl := Policy.eq_of_prefix hname' hname hprefix (hm.read.prefix_identity hname hat)
  refine ⟨hat', Bool.eq_iff_iff.2 ?_⟩
  rw [← hn.mem_identity_iff hname hat', hidentity, hm.mem_identity_iff hname hat]

end Node

/-! ## When the order holds -/

namespace Node

theorem kind_eq_atRule_iff {n : Node} {name : Text} :
    n.kind = .atRule name ↔ n.isBlock = false ∧ Policy.atRuleName? n.head = some name := by
  cases hblock : n.isBlock <;> simp [kind, Kind.atRule, hblock]

theorem isNamed_iff {n : Node} {name : Text} :
    n.isNamed name = true ↔ Policy.atRuleName? n.head = some name := beq_iff_eq

theorem priority_of_name {n : Node} {name : Text} {k : Int}
    (h : Policy.atRuleName? n.head = some name)
    (hk : ((Policy.all.find? (·.name == name)).map Policy.priority).getD 0 = k) :
    n.priority = k := (Policy.priorityOf_of_name h).trans hk

/-- What comes before an `@import` is one itself, or a `@namespace`. -/
theorem name_of_priority_le {n m : Node} (h : n.priority ≤ m.priority)
    (hm : Policy.atRuleName? m.head = some ("@import" : Text)) :
    Policy.atRuleName? n.head = some ("@namespace" : Text) ∨
      Policy.atRuleName? n.head = some ("@import" : Text) := by
  have hpriority : m.priority = -10 := priority_of_name hm (by decide)
  have hlow : Policy.priorityOf n.head ≤ -9 := Int.le_trans h (by omega)
  obtain ⟨name, hname, hat⟩ := Policy.exists_name_of_priorityOf_le hlow
  simp only [Policy.keyedByText, List.mem_cons, List.not_mem_nil, or_false] at hname
  rcases hname with rfl | rfl | rfl
  · exact .inl hat
  · exact .inr hat
  · have hcharset : n.priority = -9 := priority_of_name hat (by decide)
    omega

end Node

/-- Of siblings that are listed by priority, one of a lower priority comes before one of a higher
one. -/
theorem rel_of_priority_lt {R : Node → Node → Prop} {nodes : List Node} {n m : Node}
    (hsorted : nodes.Pairwise fun a b => a.priority ≤ b.priority) (h : nodes.Pairwise R)
    (hn : n ∈ nodes) (hm : m ∈ nodes) (hlt : n.priority < m.priority) : R n m := by
  induction nodes with
  | nil => cases hn
  | cons a nodes ih =>
    rw [List.pairwise_cons] at hsorted h
    rcases List.mem_cons.1 hm with rfl | hm'
    · rcases List.mem_cons.1 hn with rfl | hn'
      · exact absurd hlt (Int.lt_irrefl _)
      · exact absurd (hsorted.1 n hn') (Int.not_le.2 hlt)
    · rcases List.mem_cons.1 hn with rfl | hn'
      · exact h.1 m hm'
      · exact ih hsorted.2 h.2 hn' hm'

/-- Such an at-rule is written, or one that is the same. -/
theorem exists_mem_firsts_named (mode : Mode) {ns : List Node} (h : ∀ n ∈ ns, n.Braced) {n : Node}
    (hn : n ∈ ns) {name : Text} (hname : name ∈ Policy.keyedByText)
    (hat : Policy.atRuleName? n.head = some name) :
    ∃ l ∈ firsts mode (Node.sorted ns),
      Policy.atRuleName? l.head = some name ∧ l.isBlock = n.isBlock := by
  obtain ⟨l, hl, hidentity, hle⟩ :=
    exists_mem_firsts mode (Node.mem_sorted.2 hn) (Node.pairwise_sorted ns)
  have hmem : l ∈ ns := Node.mem_sorted.1 ((firsts_sublist mode _).subset hl)
  exact ⟨l, hl, (h l hmem).same (h n hn) hle hidentity hname hat⟩

/-- The first nodes among the `@import` rules are the `@import` rules among the first nodes. -/
theorem filter_firsts_import (mode : Mode) {ns : List Node} (h : ∀ n ∈ ns, n.Braced) :
    (firsts mode (Node.sorted ns)).filter (·.isNamed "@import") =
      firsts mode (ns.filter (·.isNamed "@import")) := by
  have hsame : (Node.sorted ns).filter (·.isNamed "@import") =
      ns.filter (·.isNamed "@import") := by
    refine Node.filter_sorted fun n m hn hm => ?_
    exact (Policy.priorityOf_of_name (Node.isNamed_iff.1 hn)).trans
      (Policy.priorityOf_of_name (Node.isNamed_iff.1 hm)).symm
  rw [filter_firsts, hsame]
  have hbraced : (Node.sorted ns).Pairwise fun n m => n.Braced ∧ m.Braced :=
    List.pairwise_of_forall_mem_list fun n hn m hm =>
      ⟨h n (Node.mem_sorted.1 hn), h m (Node.mem_sorted.1 hm)⟩
  refine (Node.pairwise_sorted ns).imp₂ (fun n m hle hbraced hidentity hm => ?_) hbraced
  exact Node.isNamed_iff.2
    (hbraced.1.same hbraced.2 hle hidentity (by decide) (Node.isNamed_iff.1 hm)).1

theorem kind_of_namespace {l : Node}
    (h : Policy.atRuleName? l.head = some ("@namespace" : Text)) :
    l.kind = .atRule "@namespace" ∨ l.kind = .block := by
  cases hblock : l.isBlock with
  | true => exact .inr (by simp [Node.kind, hblock])
  | false => exact .inl (Node.kind_eq_atRule_iff.2 ⟨hblock, h⟩)

section

variable {mode : Mode} {ns : List Node}

/-- Where an `@import` is written in the mandated order, there is no `@charset`, which would come
behind it, and no `@namespace`, which would come before it. -/
theorem of_mandated_firsts (h : ∀ n ∈ ns, n.Braced)
    (hmandated : (firsts mode (Node.sorted ns)).Pairwise fun a b => a.kind.MayPrecede b.kind)
    (himport : .atRule "@import" ∈ ns.map Node.kind) :
    .atRule "@charset" ∉ ns.map Node.kind ∧ ∀ n ∈ ns, n.isNamed "@namespace" = false := by
  have hsorted : (firsts mode (Node.sorted ns)).Pairwise fun a b => a.priority ≤ b.priority :=
    (Node.pairwise_sorted ns).sublist (firsts_sublist mode _)
  -- One of a kind among the siblings stands for one of its kind that is written.
  have hwritten : ∀ name ∈ Policy.keyedByText, .atRule name ∈ ns.map Node.kind →
      ∃ l ∈ firsts mode (Node.sorted ns),
        Policy.atRuleName? l.head = some name ∧ l.kind = .atRule name := by
    intro name hname hmem
    obtain ⟨n, hn, hkind⟩ := List.mem_map.1 hmem
    obtain ⟨hstatement, hat⟩ := Node.kind_eq_atRule_iff.1 hkind
    obtain ⟨l, hl, hlat, hlblock⟩ := exists_mem_firsts_named mode h hn hname hat
    exact ⟨l, hl, hlat, Node.kind_eq_atRule_iff.2 ⟨hlblock.trans hstatement, hlat⟩⟩
  obtain ⟨i, hi, hiat, hikind⟩ := hwritten "@import" (by decide) himport
  have hipriority : i.priority = -10 := Node.priority_of_name hiat (by decide)
  refine ⟨fun hcharset => ?_, fun m hm => Bool.eq_false_iff.2 fun hnamed => ?_⟩
  · obtain ⟨c, hc, hcat, hckind⟩ := hwritten "@charset" (by decide) hcharset
    have hcpriority : c.priority = -9 := Node.priority_of_name hcat (by decide)
    exact (rel_of_priority_lt hsorted hmandated hi hc (by omega)).1 hikind hckind
  · obtain ⟨l, hl, hlat, -⟩ :=
      exists_mem_firsts_named mode h hm (by decide) (Node.isNamed_iff.1 hnamed)
    have hlpriority : l.priority = -11 := Node.priority_of_name hlat (by decide)
    exact (rel_of_priority_lt hsorted hmandated hl hi (by omega)).2
      (kind_of_namespace hlat) hikind

/-- Without a `@charset` and a `@namespace` only the `@import` rules can be out of order. -/
theorem mandated_firsts (hcharset : .atRule "@charset" ∉ ns.map Node.kind)
    (hnamespace : ∀ n ∈ ns, n.isNamed "@namespace" = false)
    (himports : ((firsts mode (Node.sorted ns)).filter (·.isNamed "@import")).Pairwise
      fun a b => a.kind.MayPrecede b.kind) :
    (firsts mode (Node.sorted ns)).Pairwise fun a b => a.kind.MayPrecede b.kind := by
  have hmem : ∀ l ∈ firsts mode (Node.sorted ns), l ∈ ns := fun l hl =>
    Node.mem_sorted.1 ((firsts_sublist mode _).subset hl)
  rw [List.pairwise_iff_forall_sublist]
  intro a b hab
  have ha : a ∈ ns := hmem a (hab.subset (by simp))
  have hb : b ∈ ns := hmem b (hab.subset (by simp))
  refine ⟨fun _ hkind => hcharset (List.mem_map.2 ⟨b, hb, hkind⟩), fun hbefore hkind => ?_⟩
  obtain ⟨-, hbat⟩ := Node.kind_eq_atRule_iff.1 hkind
  have hle : a.priority ≤ b.priority := List.pairwise_iff_forall_sublist.1 (Node.pairwise_sorted ns)
    (hab.trans (firsts_sublist mode _))
  have haat : Policy.atRuleName? a.head = some ("@import" : Text) := by
    refine (Node.name_of_priority_le hle hbat).resolve_left fun hat => ?_
    exact Bool.false_ne_true ((hnamespace a ha).symm.trans (Node.isNamed_iff.2 hat))
  have hsub := hab.filter (·.isNamed "@import")
  rw [List.filter_cons_of_pos (Node.isNamed_iff.2 haat),
    List.filter_cons_of_pos (Node.isNamed_iff.2 hbat)] at hsub
  exact (List.pairwise_iff_forall_sublist.1 himports hsub).2 hbefore hkind

theorem mandated_of_no_import {nodes : List Node} (h : .atRule "@import" ∉ nodes.map Node.kind) :
    nodes.Pairwise fun a b => a.kind.MayPrecede b.kind := by
  have hnot : ∀ n ∈ nodes, n.kind ≠ .atRule "@import" := fun n hn hkind =>
    h (List.mem_map.2 ⟨n, hn, hkind⟩)
  exact List.pairwise_of_forall_mem_list fun a ha b hb =>
    ⟨fun hkind => absurd hkind (hnot a ha), fun _ => hnot b hb⟩

/-- The first nodes of sorted siblings are in the mandated order if and only if there is no
`@import`, or neither a `@charset` nor a `@namespace`, and the `@import` rules are in order by
themselves. -/
theorem mandated_firsts_iff (mode : Mode) (h : ∀ n ∈ ns, n.Braced) :
    Mandated ((firsts mode (Node.sorted ns)).map Node.kind) ↔
      .atRule "@import" ∉ ns.map Node.kind ∨
        (.atRule "@charset" ∉ ns.map Node.kind ∧ (∀ n ∈ ns, n.isNamed "@namespace" = false) ∧
          Mandated ((firsts mode (ns.filter (·.isNamed "@import"))).map Node.kind)) := by
  rw [← filter_firsts_import mode h, Mandated, Mandated, List.pairwise_map, List.pairwise_map]
  constructor
  · intro hmandated
    refine or_iff_not_imp_left.2 fun himport => ?_
    obtain ⟨hcharset, hnamespace⟩ := of_mandated_firsts h hmandated (not_not.1 himport)
    exact ⟨hcharset, hnamespace, hmandated.filter _⟩
  · rintro (himport | ⟨hcharset, hnamespace, himports⟩)
    · refine mandated_of_no_import fun hmem => himport ?_
      obtain ⟨l, hl, hkind⟩ := List.mem_map.1 hmem
      exact List.mem_map.2 ⟨l, Node.mem_sorted.1 ((firsts_sublist mode _).subset hl), hkind⟩
    · exact mandated_firsts hcharset hnamespace himports

end

/-! ## What is written -/

/-- What is written at the top level are the first nodes of what stands there. -/
theorem map_kind_items (s : Text) (mode : Mode) :
    ((Forest.ofText s).items mode).map Item.kind =
      (firsts mode (Node.sorted (topLevel s))).map Node.kind := by
  rw [Forest.items_eq]
  exact map_kind_itemsOf fun n hn => (braced_topLevel s n (Node.mem_sorted.1 hn)).read

/-- Two imports that are the same, and a rule. -/
def importSheet : Text := "@import \"a\";@import  \"a\";.b\x7bc:d\x7d"

/-- A `@charset`, an `@import` and a `@namespace`, in the mandated order. -/
def charsetSheet : Text := "@charset \"utf-8\";@import url(a);@namespace url(b);"

end UtilitySheet.Sheet
