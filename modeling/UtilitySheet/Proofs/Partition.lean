import UtilitySheet.Proofs.Braces
import UtilitySheet.Proofs.Slicing

/-!
# A text and its constructs

Reading divides a text: it is made up of constructs and of what stands between them, and nothing is
lost and nothing comes twice. Each construct is the first one in what is left of the text. A block
is a head and a body in braces that match, or a head and a body that runs to the end of the text.
The nodes are those of the constructs, but for blocks without a head, sorted by priority; the
residual is what stands between the constructs; and a body with constructs is divided in the same
way (`Partitions`). Main statement: `Forest.inPlace_partitions`.
-/

namespace UtilitySheet.Sheet

open Text

/-! ## What it is to be read -/

/-- Nodes in priority order, and in their old order where priorities are the same. -/
structure Node.StablySorts (ns nodes : List Node) : Prop where
  perm : nodes.Perm ns
  ordered : nodes.Pairwise fun a b => a.priority ≤ b.priority
  stable : ∀ k : Int, nodes.filter (·.priority == k) = ns.filter (·.priority == k)

/-- A text as its constructs, each with what stands in front of it, and what stands behind the last
one. -/
structure Parts where
  pieces : List (Text × Construct)
  last : Text

namespace Parts

/-- The text that the parts make up. -/
def text (p : Parts) : Text := p.pieces.flatMap (fun q => q.1 ++ q.2.text) ++ p.last

/-- The text outside of the constructs. -/
def between (p : Parts) : Text := p.pieces.flatMap (·.1) ++ p.last

/-- The constructs, in order. -/
def constructs (p : Parts) : List Construct := p.pieces.map (·.2)

end Parts

/-- Whether each semicolon in a text is an ordinary character. -/
def GuardsSemicolons (t : Text) : Prop := ∀ u v, t = u ++ ';' :: v → isGuarded u = true

/-- What a construct is by itself: an at-rule up to its first semicolon that is none of its ordinary
characters, or a head with the body behind it. A head has no braces, and no semicolon but ordinary
ones; the braces of a body match, or are open at its end if the block is not closed. -/
inductive Construct.IsWhole : Construct → Prop
  | statement {t : Text} : isBraceless t = true → GuardsSemicolons ('@' :: t) →
      isGuarded ('@' :: t) = false → IsWhole (.statement ('@' :: t ++ [';']))
  | closed {head body : Text} : head ≠ [] → isBraceless head = true → GuardsSemicolons head →
      bracesMatch body = true → IsWhole (.block head body true)
  | unclosed {head body : Text} {depth : Nat} : head ≠ [] → isBraceless head = true →
      GuardsSemicolons head → braceDepth 0 body = some depth → IsWhole (.block head body false)

/-- Whether a construct is a block with nothing but blanks for a head. -/
def Construct.isHeadless : Construct → Bool
  | statement _ => false
  | block head _ _ => isBlankText head

/-- What the parts of a text are. -/
structure Splits (s : Text) (p : Parts) : Prop where
  text : p.text = s
  nonempty : ∀ c ∈ p.constructs, c.text ≠ []
  whole : ∀ c ∈ p.constructs, c.IsWhole
  /-- A block without its closing brace runs to the end of the text. -/
  unclosed : ∀ before q behind, p.pieces = before ++ q :: behind → q.2.isClosed = false →
    behind = [] ∧ p.last = []
  /-- Each construct is the first one in what is left of the text. -/
  first : ∀ before gap c behind, p.pieces = before ++ (gap, c) :: behind →
    nextConstruct (Parts.text ⟨(gap, c) :: behind, p.last⟩) =
      some ⟨gap, c, Parts.text ⟨behind, p.last⟩⟩
  gaps : ∀ q ∈ p.pieces, nextConstruct q.1 = none
  last : nextConstruct p.last = none

/-- What a construct is read as; `R` tells what a body is read as that has constructs. -/
inductive Construct.Becomes (R : Text → Forest → Prop) : Construct → Node → Prop
  | statement {text : Text} : Becomes R (.statement text) (.statement (trim text))
  | leaf {head body : Text} {closed : Bool} : nextConstruct body = none →
      Becomes R (.block head body closed)
        (.leaf (normalHead head) (trim (Construct.block head body closed).text) body)
  | nest {head body : Text} {closed : Bool} {f : Forest} : nextConstruct body ≠ none → R body f →
      Becomes R (.block head body closed)
        (.nest (normalHead head) (trim (Construct.block head body closed).text) f.residual f.nodes)

/-- What a text is read as: the constructs that it splits into, but for blocks without a head,
become the nodes, and what stands between them is the residual; the same holds of each body that has
constructs. -/
inductive Partitions : Text → Forest → Prop
  | intro {s : Text} {f : Forest} {p : Parts} {ns : List Node} : Splits s p →
      List.Forall₂ (Construct.Becomes Partitions) (p.constructs.filter (!·.isHeadless)) ns →
      Node.StablySorts ns f.nodes → f.residual = unlessBlank p.between → Partitions s f

theorem Node.stablySorts_sorted (ns : List Node) : Node.StablySorts ns (Node.sorted ns) where
  perm := List.mergeSort_perm _ _
  ordered := Node.pairwise_sorted ns
  stable := Node.filter_priority_sorted ns

/-! ## The first construct -/

/-- No construct ends in front of the first one. -/
theorem findFrom_gap {before s : Text} {r : Run} {f : Found}
    (hscan : ∀ t, nextConstruct (before.reverse ++ (r.chars.reverse ++ t)) = findFrom before r t)
    (hnone : nextConstruct before.reverse = none) (h : findFrom before r s = some f) :
    nextConstruct f.before = none := by
  fun_induction findFrom before r s with
  | case1 => cases h
  | case2 before r c s hstep ih =>
    refine ih (fun t => ?_) hnone h
    refine .trans (congrArg nextConstruct ?_) ((hscan (c :: t)).trans ?_)
    · simp [Run.chars_push]
    · rw [findFrom, hstep]
  | case3 before r c s hstep ih =>
    have hnext : ∀ t, nextConstruct ((c :: (r.chars ++ before)).reverse ++ t) =
        findFrom (c :: (r.chars ++ before)) .empty t := by
      intro t
      refine .trans (congrArg nextConstruct ?_) ((hscan (c :: t)).trans ?_)
      · simp
      · rw [findFrom, hstep]
    refine ih hnext ?_ h
    simpa [findFrom] using hnext []
  | case4 before r c s hstep ih =>
    refine ih (fun t => ?_) ?_ h
    · refine .trans (congrArg nextConstruct ?_) ((hscan (c :: t)).trans ?_)
      · simp [Run.ofAtSign, Run.step_eq_restart hstep]
      · rw [findFrom, hstep]
    · simpa [findFrom] using hscan []
  | case5 before r c s =>
    obtain rfl := Option.some.inj h
    exact hnone
  | case6 before r c s =>
    obtain rfl := Option.some.inj h
    unfold Found.block
    split <;> exact hnone

section Found

variable {s : Text} {f : Found} (h : nextConstruct s = some f)
include h

theorem nextConstruct_before : nextConstruct f.before = none :=
  findFrom_gap (fun _ => rfl) rfl h

theorem nextConstruct_head_ne_nil {head body : Text} {closed : Bool}
    (hf : f.construct = .block head body closed) : head ≠ [] := by
  obtain ⟨r, -, ⟨-, hc⟩ | ⟨hstep, body', closed', hc⟩⟩ :=
    exists_run_of_nextConstruct (K := fun _ => True) trivial trivial (fun _ _ => trivial) h
  · cases hf.symm.trans hc
  · obtain ⟨rfl, -, -⟩ := Construct.block.inj (hf.symm.trans hc)
    have hhead : r.isHead = true := by
      simp only [Run.step] at hstep
      grind
    intro hnil
    simp [Run.isHead, List.reverse_eq_nil_iff.1 hnil] at hhead

theorem nextConstruct_isWhole : f.construct.IsWhole := by
  have hopening := nextConstruct_opening h
  obtain ⟨r, hr, ⟨hstep, hc⟩ | ⟨-, body, closed, hc⟩⟩ :=
    exists_run_of_nextConstruct (K := Run.Tracked) .empty .ofAtSign (fun hr => hr.push) h
  · have hguarded : isGuarded r.chars.reverse = false :=
      hr.isGuarded_eq.trans (Run.of_step_eq_statement hstep).2
    have hsemicolons : GuardsSemicolons r.chars.reverse := hr.guardsSemicolons
    obtain ⟨t, ht⟩ := nextConstruct_statement h hc
    have htext : r.chars.reverse = '@' :: t := List.append_cancel_right ht
    rw [hc] at hopening ⊢
    rw [htext] at hopening hguarded hsemicolons ⊢
    have hbraces : isBraceless ('@' :: t) = true := (isBraceless_append.1 hopening).1
    exact .statement (isBraceless_append (s := ['@']).1 hbraces).2 hsemicolons hguarded
  · obtain ⟨depth, hbody, hclosed, -⟩ := nextConstruct_body h hc
    have hne := nextConstruct_head_ne_nil h hc
    rw [hc] at hopening ⊢
    cases closed with
    | true =>
      obtain rfl := hclosed rfl
      exact .closed hne hopening hr.guardsSemicolons (by simpa [bracesMatch] using hbody)
    | false => exact .unclosed hne hopening hr.guardsSemicolons hbody

/-- A block without its closing brace is the end of the text. -/
theorem nextConstruct_rest (hf : f.construct.isClosed = false) : f.rest = [] := by
  cases hc : f.construct with
  | statement text =>
    rw [hc] at hf
    cases hf
  | block head body closed =>
    rw [hc] at hf
    obtain ⟨-, -, -, hrest⟩ := nextConstruct_body h hc
    exact hrest hf

end Found

/-! ## All constructs -/

theorem Splits.eq_of_nil {p : Parts} (h : Splits [] p) : p.pieces = [] ∧ p.last = [] := by
  obtain ⟨hpieces, hlast⟩ := List.append_eq_nil_iff.1 h.text
  refine ⟨List.eq_nil_iff_forall_not_mem.2 fun q hq => ?_, hlast⟩
  have hq' := List.flatMap_eq_nil_iff.1 hpieces q hq
  exact h.nonempty q.2 (List.mem_map_of_mem hq) (List.append_eq_nil_iff.1 hq').2

theorem Splits.nil {s : Text} (h : nextConstruct s = none) : Splits s ⟨[], s⟩ where
  text := rfl
  nonempty := fun _ hc => absurd hc List.not_mem_nil
  whole := fun _ hc => absurd hc List.not_mem_nil
  unclosed := fun before q behind heq => by cases before <;> cases heq
  first := fun before gap c behind heq => by cases before <;> cases heq
  gaps := fun _ hq => absurd hq List.not_mem_nil
  last := h

theorem Parts.text_cons {s : Text} {f : Found} {p : Parts} (h : nextConstruct s = some f)
    (hp : p.text = f.rest) :
    Parts.text ⟨(f.before, f.construct) :: p.pieces, p.last⟩ = s := by
  rw [nextConstruct_eq h, ← hp]
  simp [Parts.text]

/-- The first construct and the parts of the rest are the parts of the text. -/
theorem Splits.cons {s : Text} {f : Found} {p : Parts} (h : nextConstruct s = some f)
    (hp : Splits f.rest p) : Splits s ⟨(f.before, f.construct) :: p.pieces, p.last⟩ where
  text := Parts.text_cons h hp.text
  nonempty := List.forall_mem_cons.2 ⟨findFrom_construct_ne_nil h, hp.nonempty⟩
  whole := List.forall_mem_cons.2 ⟨nextConstruct_isWhole h, hp.whole⟩
  unclosed := by
    intro before q behind heq hq
    cases before with
    | nil =>
      obtain ⟨rfl, rfl⟩ := List.cons.inj heq
      exact (nextConstruct_rest h hq ▸ hp).eq_of_nil
    | cons q' before => exact hp.unclosed before q behind (List.cons.inj heq).2 hq
  first := by
    intro before gap c behind heq
    cases before with
    | nil =>
      obtain ⟨hfirst, rfl⟩ := List.cons.inj heq
      obtain ⟨rfl, rfl⟩ := Prod.mk.inj hfirst
      have hrest : Parts.text ⟨p.pieces, p.last⟩ = f.rest := hp.text
      rw [Parts.text_cons h hp.text, hrest, h]
    | cons q before => exact hp.first before gap c behind (List.cons.inj heq).2
  gaps := List.forall_mem_cons.2 ⟨nextConstruct_before h, hp.gaps⟩
  last := hp.last

/-- **A text splits into its constructs and what stands between them, and is read so.** -/
theorem exists_splits (s : Text) : ∃ p : Parts, Splits s p ∧
    readNodes s = (p.constructs.filterMap Construct.node?, p.between) := by
  cases h : nextConstruct s with
  | none => exact ⟨⟨[], s⟩, .nil h, readNodes_of_none h⟩
  | some f =>
    have hrest := length_rest_lt h
    obtain ⟨p, hp, hread⟩ := exists_splits f.rest
    refine ⟨_, .cons h hp, ?_⟩
    rw [readNodes_of_some h, hread]
    cases hnode : f.construct.node? <;> simp [Parts.constructs, Parts.between, hnode]
termination_by s.length

theorem Splits.length_body_lt {s : Text} {p : Parts} (h : Splits s p) {head body : Text}
    {closed : Bool} (hc : .block head body closed ∈ p.constructs) : body.length < s.length := by
  obtain ⟨q, hq, hblock⟩ := List.mem_map.1 hc
  obtain ⟨before, behind, hpieces⟩ := List.append_of_mem hq
  rw [← h.text, Parts.text, hpieces]
  simp [hblock, Construct.text]
  omega

/-! ## The forest -/

theorem isEmpty_normalHead (head : Text) : (normalHead head).isEmpty = isBlankText head := by
  rw [Bool.eq_iff_iff, List.isEmpty_iff, ← withoutBlanks_eq_nil_iff]
  constructor
  · intro hnil
    rw [← withoutBlanks_normalHead, hnil]
    rfl
  · intro hblank
    have h := normalHead_blanks_append (withoutBlanks_eq_nil_iff.1 hblank) []
    rwa [List.append_nil] at h

theorem forall₂_filterMap {α β : Type} {R : α → β → Prop} {f : α → Option β} {p : α → Bool}
    {as : List α} (hdropped : ∀ a ∈ as, p a = false → f a = none)
    (hkept : ∀ a ∈ as, p a = true → ∃ b, f a = some b ∧ R a b) :
    List.Forall₂ R (as.filter p) (as.filterMap f) := by
  induction as with
  | nil => exact .nil
  | cons a as ih =>
    rw [List.forall_mem_cons] at hdropped hkept
    have ih := ih hdropped.2 hkept.2
    cases hp : p a with
    | false =>
      rwa [List.filter_cons_of_neg (by simp [hp]), List.filterMap_cons_none (hdropped.1 hp)]
    | true =>
      obtain ⟨b, hb, hR⟩ := hkept.1 hp
      rw [List.filter_cons_of_pos hp, List.filterMap_cons_some hb]
      exact .cons hR ih

/-- Only a block without a head is dropped. -/
theorem Construct.node?_eq_none_of_isHeadless {c : Construct} (h : c.isHeadless = true) :
    c.node? = none := by
  cases c with
  | statement text => cases h
  | block head body closed =>
    have hempty : (normalHead head).isEmpty = true := (isEmpty_normalHead head).trans h
    simp only [node?, hempty, if_true]

/-- Any other construct becomes its node, if its body is read as `R` tells. -/
theorem Construct.exists_becomes {R : Text → Forest → Prop} {c : Construct} (hc : c.IsWhole)
    (hR : ∀ head body closed, c = .block head body closed → R body (Forest.ofPlain body))
    (h : c.isHeadless = false) : ∃ n, c.node? = some n ∧ c.Becomes R n := by
  cases c with
  | statement text =>
    refine ⟨_, rfl, ?_⟩
    cases hc with
    | @statement t _ _ _ =>
      have hbecomes : Construct.Becomes R (.statement ('@' :: t ++ [';'])) _ := .statement
      rwa [trim_statement] at hbecomes
  | block head body closed =>
    have hempty : (normalHead head).isEmpty = false := (isEmpty_normalHead head).trans h
    simp only [node?, hempty, Bool.false_eq_true, if_false]
    cases hbody : nextConstruct body with
    | none => exact ⟨_, rfl, .leaf hbody⟩
    | some f => exact ⟨_, rfl, .nest (by simp [hbody]) (hR head body closed rfl)⟩

/-- The forest of a text is made up of its constructs and what stands between them. -/
theorem partitions_ofPlain (s : Text) : Partitions s (Forest.ofPlain s) := by
  obtain ⟨p, hp, hread⟩ := exists_splits s
  have hbecomes : List.Forall₂ (Construct.Becomes Partitions)
      (p.constructs.filter (!·.isHeadless)) (p.constructs.filterMap Construct.node?) := by
    refine forall₂_filterMap (fun c _ hc => ?_) fun c hmem hc => ?_
    · exact Construct.node?_eq_none_of_isHeadless (by simpa using hc)
    · refine Construct.exists_becomes (hp.whole c hmem) ?_ (by simpa using hc)
      rintro head body closed rfl
      have hlt := hp.length_body_lt hmem
      exact partitions_ofPlain body
  refine .intro hp hbecomes ?_ ?_
  · rw [Forest.ofPlain, hread]
    exact Node.stablySorts_sorted _
  · rw [Forest.ofPlain, hread]
termination_by s.length

/-- **Every text is read in place without a fault; it splits into constructs and what stands between
them, and its forest is made up of just these, at every depth.** -/
theorem Forest.inPlace_partitions (s : Text) :
    Forest.inPlace s = .ok (Forest.ofPlain s) ∧ Partitions s (Forest.ofPlain s) :=
  ⟨Forest.inPlace_eq s, partitions_ofPlain s⟩

end UtilitySheet.Sheet
