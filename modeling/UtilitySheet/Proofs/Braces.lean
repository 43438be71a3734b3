import UtilitySheet.Proofs.KeptStrings

/-!
# Matching braces

A head has no braces, whatever text it is read from (`isBraceless_readNodes`), and a rule is written
with a pair of its own. So the braces that are written match if those of each value do
(`bracesMatch_of_closedValues`). A body closes no brace that it does not open, and a brace behind a
head opens a block; so if each opening brace of a stylesheet stands behind a head, no brace is left
between constructs (`isBraceless_left`) and no value has one. Main statement:
`bracesMatch_reassemble`. An opening brace without a head before it stays in the body, where it may
be cut apart from its closing brace (`bracesMatch_reassemble_fails`).
-/

namespace UtilitySheet

open Text

namespace Text

/-! ## Braces of a text -/

/-- How many braces are open behind one more character; none if it closes one that is not open. -/
def braceStep (depth : Nat) (c : Char) : Option Nat :=
  if c = '\x7b' then some (depth + 1)
  else if c = '\x7d' then if depth = 0 then none else some (depth - 1)
  else some depth

/-- How many braces are open behind a text in which `depth` braces are open; none if it closes more
than that. -/
def braceDepth (depth : Nat) (s : Text) : Option Nat := s.foldlM braceStep depth

/-- Whether the braces of a text close each other. -/
def bracesMatch (s : Text) : Bool := braceDepth 0 s == some 0

/-- Whether a text has no brace. -/
def isBraceless (s : Text) : Bool := s.all fun c => c != '\x7b' && c != '\x7d'

theorem braceDepth_cons (depth : Nat) (c : Char) (s : Text) :
    braceDepth depth (c :: s) = (braceStep depth c).bind (braceDepth · s) := rfl

theorem braceDepth_append (depth : Nat) (s t : Text) :
    braceDepth depth (s ++ t) = (braceDepth depth s).bind (braceDepth · t) :=
  List.foldlM_append

theorem braceStep_of_ne {c : Char} (ho : c ≠ '\x7b') (hc : c ≠ '\x7d') (depth : Nat) :
    braceStep depth c = some depth := by
  simp [braceStep, ho, hc]

theorem braceDepth_add {depth depth' : Nat} {s : Text} (h : braceDepth depth s = some depth')
    (k : Nat) : braceDepth (depth + k) s = some (depth' + k) := by
  induction s generalizing depth with
  | nil =>
    obtain rfl := Option.some.inj h
    rfl
  | cons c s ih =>
    obtain ⟨next, hstep, hrest⟩ := Option.bind_eq_some_iff.1 h
    have hstep' : braceStep (depth + k) c = some (next + k) := by
      simp only [braceStep] at hstep ⊢
      grind
    rw [braceDepth_cons, hstep']
    exact ih hrest

theorem bracesMatch.depth {s : Text} (h : bracesMatch s = true) (depth : Nat) :
    braceDepth depth s = some depth := by
  have hzero : braceDepth 0 s = some 0 := by simpa [bracesMatch] using h
  simpa using braceDepth_add hzero depth

/-- The braces of a text close each other if they are as many, and no prefix closes more than it
opens. -/
theorem bracesMatch_iff {s : Text} : bracesMatch s = true ↔
    (∀ p, p <+: s → p.count '\x7d' ≤ p.count '\x7b') ∧ s.count '\x7d' = s.count '\x7b' := by
  have hdepth : ∀ depth : Nat, braceDepth depth s = some 0 ↔
      (∀ p, p <+: s → p.count '\x7d' ≤ p.count '\x7b' + depth) ∧
        s.count '\x7d' = s.count '\x7b' + depth := by
    induction s with
    | nil =>
      intro depth
      simp [braceDepth]
      omega
    | cons c s ih =>
      intro depth
      have hprefix : ∀ P : Text → Prop, (∀ p, p <+: c :: s → P p) ↔
          P [] ∧ ∀ p, p <+: s → P (c :: p) := by
        intro P
        simp only [List.prefix_cons_iff]
        grind
      rw [braceDepth_cons, hprefix]
      by_cases ho : c = '\x7b'
      · subst ho
        simp only [braceStep, if_true, Option.bind_some, ih, List.count_cons]
        grind
      · by_cases hc : c = '\x7d'
        · subst hc
          cases depth with
          | zero =>
            have hclosed : braceStep 0 '\x7d' = none := rfl
            rw [hclosed, Option.bind_none]
            refine iff_of_false (by simp) fun h => ?_
            have hfirst := h.1.2 [] List.nil_prefix
            simp at hfirst
          | succ depth =>
            have hclosed : braceStep (depth + 1) '\x7d' = some depth := rfl
            rw [hclosed, Option.bind_some, ih]
            simp only [List.count_cons]
            grind
        · simp [braceStep_of_ne ho hc, ih, ho, hc]
  simpa [bracesMatch] using hdepth 0

theorem bracesMatch_append {s t : Text} (hs : bracesMatch s = true) (ht : bracesMatch t = true) :
    bracesMatch (s ++ t) = true := by
  rw [bracesMatch, braceDepth_append, bracesMatch.depth hs]
  exact ht

theorem bracesMatch_of_isBraceless {s : Text} (h : isBraceless s = true) :
    bracesMatch s = true := by
  have hdepth : ∀ depth, braceDepth depth s = some depth := by
    induction s with
    | nil => exact fun _ => rfl
    | cons c s ih =>
      intro depth
      simp only [isBraceless, List.all_cons, Bool.and_eq_true, bne_iff_ne] at h
      rw [braceDepth_cons, braceStep_of_ne h.1.1 h.1.2]
      exact ih h.2 depth
  simp [bracesMatch, hdepth]

theorem bracesMatch_block {s : Text} (h : bracesMatch s = true) :
    bracesMatch ('\x7b' :: s ++ ['\x7d']) = true := by
  have hopen : braceStep 0 '\x7b' = some 1 := rfl
  rw [bracesMatch, List.cons_append, braceDepth_cons, hopen, Option.bind_some, braceDepth_append,
    bracesMatch.depth h]
  rfl

theorem bracesMatch_flatMap {α : Type} {f : α → Text} {as : List α}
    (h : ∀ a ∈ as, bracesMatch (f a) = true) : bracesMatch (as.flatMap f) = true := by
  induction as with
  | nil => rfl
  | cons a as ih =>
    rw [List.forall_mem_cons] at h
    exact bracesMatch_append h.1 (ih h.2)

theorem isBraceless_iff {s : Text} :
    isBraceless s = true ↔ ∀ c ∈ s, c ≠ '\x7b' ∧ c ≠ '\x7d' := by
  simp [isBraceless]

theorem isBraceless_append {s t : Text} :
    isBraceless (s ++ t) = true ↔ isBraceless s = true ∧ isBraceless t = true := by
  simp [isBraceless]

/-- Braces are no blanks. -/
theorem isBraceless_of_withoutBlanks {s t : Text} (h : withoutBlanks s ⊆ withoutBlanks t)
    (ht : isBraceless t = true) : isBraceless s = true := by
  rw [isBraceless_iff] at ht ⊢
  intro c hc
  by_cases hblank : isBlank c = true
  · constructor <;>
    · rintro rfl
      exact absurd hblank (by decide)
  · have hmem : c ∈ withoutBlanks s := List.mem_filter.2 ⟨hc, by simpa using hblank⟩
    exact ht c (List.mem_filter.1 (h hmem)).1

end Text

/-! ## Braces of values -/

namespace Declarations

/-- A part stands in its body. -/
theorem infix_of_mem_parts {body part : Text} (h : part ∈ parts body) : part <:+: body := by
  have hfrom : ∀ (cur : Text) (depth : Nat), part ∈ partsFrom cur depth body →
      part <:+: cur.reverse ++ body := by
    clear h
    induction body with
    | nil =>
      intro cur depth h
      obtain rfl := List.mem_singleton.1 h
      exact ⟨[], [], by simp⟩
    | cons c s ih =>
      intro cur depth h
      have hextend : ∀ depth', part ∈ partsFrom (c :: cur) depth' s →
          part <:+: cur.reverse ++ c :: s := fun depth' h => by simpa using ih _ depth' h
      simp only [partsFrom] at h
      split at h
      · exact hextend _ h
      split at h
      · exact hextend _ h
      split at h
      · rcases List.mem_cons.1 h with rfl | h
        · exact (List.prefix_append _ _).isInfix
        · exact (ih [] 0 h).trans ⟨cur.reverse ++ [c], [], by simp⟩
      · exact hextend _ h
  exact hfrom [] 0 h

/-- What is declared in a part: a name, and a value that is written in the part. -/
theorem of_readPart {part property value : Text} (h : readPart part = .declared property value) :
    (∀ c ∈ property, isNameChar c = true) ∧ withoutBlanks value ⊆ part := by
  obtain ⟨gap, gap', behind, rfl, -, -, -, hname, rfl, -⟩ := eq_append_of_readPart h
  refine ⟨hname, ?_⟩
  rw [withoutBlanks_collapse]
  refine List.Subset.trans (List.filter_subset_self _) ?_
  refine List.Subset.trans (List.dropWhile_suffix _).subset fun c hc => ?_
  simp [hc]

theorem nodup_insert {ds : Declarations} (h : (ds.map Prod.fst).Nodup) (property value : Text) :
    ((ds.insert property value).map Prod.fst).Nodup := by
  rw [map_fst_insert]
  split
  · exact h
  · rename_i hnew
    exact List.nodup_append.2 ⟨h, List.nodup_singleton _,
      fun p hp q hq heq => hnew (List.mem_singleton.1 hq ▸ heq ▸ hp)⟩

/-- The new value takes the place of the old one. -/
theorem mem_insert_iff {ds : Declarations} (h : (ds.map Prod.fst).Nodup) {property value : Text}
    {d : Text × Text} :
    d ∈ ds.insert property value ↔ d = (property, value) ∨ d ∈ ds ∧ d.1 ≠ property := by
  induction ds with
  | nil => simp [insert]
  | cons e ds ih =>
    rw [List.map_cons, List.nodup_cons] at h
    have hnot : e.1 = property → d ∈ ds → d.1 ≠ property := by
      rintro rfl hd heq
      exact h.1 (heq ▸ List.mem_map_of_mem hd)
    simp only [insert]
    split
    · rename_i heq
      simp only [List.mem_cons]
      grind
    · rename_i hne
      simp only [List.mem_cons, ih h.2]
      grind

theorem nodup_foldl_addPart {ds : Declarations} (h : (ds.map Prod.fst).Nodup) (ps : List Text) :
    ((ps.foldl addPart ds).map Prod.fst).Nodup := by
  induction ps generalizing ds with
  | nil => exact h
  | cons p ps ih =>
    refine ih ?_
    unfold addPart
    split
    · exact nodup_insert h _ _
    · exact h

/-- What parts declare they declare on their own. -/
theorem mem_foldl_addPart {ds : Declarations} (h : (ds.map Prod.fst).Nodup) {ps : List Text}
    {d : Text × Text} (hd : d ∈ ps.foldl addPart ds) : d ∈ ds ∨ d ∈ ps.foldl addPart [] := by
  induction ps using List.reverseRecOn with
  | nil => exact .inl hd
  | append_singleton ps p ih =>
    rw [List.foldl_append, List.foldl_cons, List.foldl_nil, addPart] at hd ⊢
    split at hd
    · rw [mem_insert_iff (nodup_foldl_addPart h ps)] at hd
      rw [mem_insert_iff (@nodup_foldl_addPart [] List.nodup_nil ps)]
      rcases hd with rfl | ⟨hd, hne⟩
      · exact .inr (.inl rfl)
      · exact (ih hd).imp_right fun hd => .inr ⟨hd, hne⟩
    · exact ih hd

/-- A declaration that counts for several bodies counts for one of them. -/
theorem mem_ofBodies {bodies : List Text} {d : Text × Text} (h : d ∈ ofBodies bodies) :
    ∃ body ∈ bodies, d ∈ ofBody body := by
  have hfrom : ∀ ds : Declarations, (ds.map Prod.fst).Nodup → d ∈ bodies.foldl addBody ds →
      d ∈ ds ∨ ∃ body ∈ bodies, d ∈ ofBody body := by
    clear h
    induction bodies with
    | nil => exact fun _ _ h => .inl h
    | cons body bodies ih =>
      intro ds hnodup h
      rcases ih _ (nodup_foldl_addPart hnodup (parts body)) h with h | ⟨other, hother, h⟩
      · exact (mem_foldl_addPart hnodup h).imp_right fun h => ⟨body, List.mem_cons_self, h⟩
      · exact .inr ⟨other, List.mem_cons_of_mem _ hother, h⟩
  exact (hfrom [] List.nodup_nil h).resolve_left List.not_mem_nil

/-- Bodies whose values have matching braces declare such values together. -/
theorem bracesMatch_ofBodies {bodies : List Text}
    (h : ∀ body ∈ bodies, ∀ d ∈ ofBody body, bracesMatch d.2 = true) :
    ∀ d ∈ ofBodies bodies, bracesMatch d.2 = true := by
  intro d hd
  obtain ⟨body, hbody, hd⟩ := mem_ofBodies hd
  exact h body hbody d hd

/-- A declaration of a body is written in one of its parts. -/
theorem mem_ofBody {body : Text} {d : Text × Text} (h : d ∈ ofBody body) :
    ∃ part ∈ parts body, readPart part = .declared d.1 d.2 := by
  rw [ofBody, addBody] at h
  generalize parts body = ps at h
  induction ps using List.reverseRecOn with
  | nil => cases h
  | append_singleton ps p ih =>
    rw [List.foldl_append, List.foldl_cons, List.foldl_nil, addPart] at h
    split at h
    · rename_i property value hpart
      rcases mem_insert h with rfl | h
      · exact ⟨p, by simp, hpart⟩
      · obtain ⟨part, hmem, hpart⟩ := ih h
        exact ⟨part, by simp [hmem], hpart⟩
    · obtain ⟨part, hmem, hpart⟩ := ih h
      exact ⟨part, by simp [hmem], hpart⟩

theorem isBraceless_of_isNameChar {s : Text} (h : ∀ c ∈ s, isNameChar c = true) :
    isBraceless s = true := by
  refine isBraceless_iff.2 fun c hc => ?_
  have hmark := Sheet.not_mem_marks_of_isNameChar (h c hc)
  constructor <;>
  · rintro rfl
    exact hmark (by decide)

/-- A property has no brace. -/
theorem isBraceless_property {bodies : List Text} {d : Text × Text} (h : d ∈ ofBodies bodies) :
    isBraceless d.1 = true := by
  obtain ⟨body, -, h⟩ := mem_ofBodies h
  obtain ⟨part, -, h⟩ := mem_ofBody h
  exact isBraceless_of_isNameChar (of_readPart h).1

/-- The values of a body without braces have none. -/
theorem isBraceless_value {body : Text} (hbody : isBraceless body = true) {d : Text × Text}
    (h : d ∈ ofBody body) : isBraceless d.2 = true := by
  obtain ⟨part, hpart, h⟩ := mem_ofBody h
  have hsubset := List.Subset.trans (of_readPart h).2 (infix_of_mem_parts hpart).subset
  refine isBraceless_of_withoutBlanks (t := body) (fun c hc => ?_) hbody
  exact List.mem_filter.2 ⟨hsubset hc, (List.mem_filter.1 hc).2⟩

end Declarations

namespace Sheet

/-! ## Braces of what is written -/

/-- A statement without braces, or a rule whose head has no braces and whose values have braces that
close each other, with such items inside. -/
inductive Item.Closed : Item → Prop
  | statement {text : Text} : isBraceless text = true → Closed (.statement text)
  | rule {head : Text} {bodies : List Text} {inner : List Item} : isBraceless head = true →
      (∀ d ∈ Declarations.ofBodies bodies, bracesMatch d.2 = true) → (∀ i ∈ inner, Closed i) →
      Closed (.rule head bodies inner)

theorem isBraceless_tabs (depth : Nat) : isBraceless (tabs depth) = true := by
  refine isBraceless_iff.2 fun c hc => ?_
  rw [List.eq_of_mem_replicate hc]
  decide

theorem isBraceless_brokenHead {head : Text} (h : isBraceless head = true) (depth : Nat) :
    isBraceless (brokenHead depth head) = true := by
  refine isBraceless_iff.2 fun c hc => ?_
  obtain ⟨d, hd, hc⟩ := List.mem_flatMap.1 hc
  split at hc
  · have hbreak : isBraceless (",\n" ++ tabs depth) = true :=
      isBraceless_append.2 ⟨rfl, isBraceless_tabs depth⟩
    exact isBraceless_iff.1 hbreak c hc
  · rw [List.mem_singleton.1 hc]
    exact isBraceless_iff.1 h d hd

theorem bracesMatch_declarationLine {d : Text × Text} (hproperty : isBraceless d.1 = true)
    (hvalue : bracesMatch d.2 = true) (depth : Nat) :
    bracesMatch (declarationLine depth d) = true := by
  have hbefore : isBraceless ("\n\t" ++ tabs depth ++ d.1 ++ ": ") = true := by
    simp only [isBraceless_append]
    exact ⟨⟨⟨rfl, isBraceless_tabs depth⟩, hproperty⟩, rfl⟩
  exact bracesMatch_append (bracesMatch_append (bracesMatch_of_isBraceless hbefore) hvalue) rfl

theorem bracesMatch_renderAll {depth : Nat} {items : List Item}
    (h : ∀ i ∈ items, bracesMatch (i.render depth) = true) :
    bracesMatch (Item.renderAll depth items) = true :=
  forall_renderAll (P := fun s => bracesMatch s = true) rfl
    (fun hs ht => bracesMatch_append (bracesMatch_append hs rfl) ht) h

/-- **The braces of each item close each other.** -/
theorem Item.Closed.render {i : Item} (h : i.Closed) (depth : Nat) :
    bracesMatch (i.render depth) = true := by
  induction h generalizing depth with
  | statement htext =>
    exact bracesMatch_of_isBraceless (isBraceless_append.2 ⟨isBraceless_tabs depth, htext⟩)
  | @rule head bodies inner hhead hvalues _ ih =>
    have hbefore : isBraceless (tabs depth ++ brokenHead depth head) = true :=
      isBraceless_append.2 ⟨isBraceless_tabs depth, isBraceless_brokenHead hhead depth⟩
    have hlines : bracesMatch
        ((Declarations.ofBodies bodies).flatMap (declarationLine depth)) = true :=
      bracesMatch_flatMap fun d hd =>
        bracesMatch_declarationLine (Declarations.isBraceless_property hd) (hvalues d hd) depth
    have hinner : bracesMatch
        (if inner.isEmpty then [] else '\n' :: Item.renderAll (depth + 1) inner) = true := by
      split
      · rfl
      · exact bracesMatch_append (s := ['\n']) rfl
          (bracesMatch_renderAll fun i hi => ih i hi (depth + 1))
    have hend : bracesMatch ('\n' :: tabs depth) = true :=
      bracesMatch_of_isBraceless (isBraceless_append (s := ['\n']).2 ⟨rfl, isBraceless_tabs depth⟩)
    have hblock := bracesMatch_block (bracesMatch_append (bracesMatch_append hlines hinner) hend)
    have hwhole := bracesMatch_append (bracesMatch_of_isBraceless hbefore) hblock
    rw [Item.render]
    simpa using hwhole

/-! ## Braces of nodes -/

/-- Whether the values that a node declares have braces that close each other. -/
def Node.ClosedValues (n : Node) : Prop :=
  ∀ body ∈ n.own, ∀ d ∈ Declarations.ofBody body, bracesMatch d.2 = true

/-! ## Braces of what is read -/

/-- The text of a statement, or the head of a block as it is written. -/
def Construct.opening : Construct → Text
  | statement text => text
  | block head _ _ => head

/-- **A statement and the head of a block have no braces.** -/
theorem nextConstruct_opening {s : Text} {f : Found} (h : nextConstruct s = some f) :
    isBraceless f.construct.opening = true := by
  have hpush : ∀ {r : Run} {c : Char}, isBraceless r.chars = true → r.step c = .extend →
      isBraceless (r.push c).chars = true := by
    intro r c hr hstep
    have hc : c ≠ '\x7b' ∧ c ≠ '\x7d' := by
      simp only [Run.step] at hstep
      grind
    rw [Run.chars_push]
    exact isBraceless_append (s := [c]).2 ⟨isBraceless_iff.2 (by simpa using hc), hr⟩
  obtain ⟨r, hr, hc⟩ :=
    exists_run_of_nextConstruct (K := fun r => isBraceless r.chars = true) rfl rfl hpush h
  have hchars : isBraceless r.chars.reverse = true := by simpa [isBraceless] using hr
  rcases hc with ⟨-, hc⟩ | ⟨-, body, closed, hc⟩
  · rw [hc]
    exact isBraceless_append.2 ⟨hchars, rfl⟩
  · rw [hc]
    exact hchars

/-- **The nodes of any text have heads without braces, at every depth.** -/
theorem isBraceless_readNodes (s : Text) :
    ∀ n ∈ (readNodes s).1, n.Everywhere fun n => isBraceless n.head = true := by
  refine everywhere_readNodes (K := fun _ => True) (fun _ _ => trivial) (fun _ _ _ => trivial)
    (fun {_ f n} _ h hn => ?_) trivial
  have hopening := nextConstruct_opening h
  rcases Construct.node?_cases hn with ⟨text, hc, rfl⟩ | ⟨head, body, closed, hc, hn⟩
  · rw [hc] at hopening
    exact hopening
  · have hhead : isBraceless (normalHead head) = true := by
      rw [hc] at hopening
      refine isBraceless_of_withoutBlanks ?_ hopening
      rw [withoutBlanks_normalHead]
      exact List.Subset.refl _
    rcases hn with ⟨-, rfl⟩ | rfl <;> exact hhead

/-- **What is written has matching braces if each value has.** -/
theorem bracesMatch_of_closedValues {s : Text}
    (h : ∀ n ∈ (Forest.ofText s).nodes, n.Everywhere Node.ClosedValues) (mode : Mode) :
    bracesMatch (reassemble s mode) = true := by
  have hnodes : ∀ n ∈ (Forest.ofText s).nodes,
      n.Everywhere fun n => isBraceless n.head = true ∧ n.ClosedValues := fun n hn =>
    (isBraceless_readNodes (stripComments s) n (Node.mem_sorted.1 hn)).and (h n hn)
  rw [reassemble, Forest.write, Forest.items_eq]
  refine bracesMatch_renderAll fun i hi => Item.Closed.render ?_ 0
  exact forall_itemsOf (B := fun body => ∀ d ∈ Declarations.ofBody body, bracesMatch d.2 = true)
    .statement (fun hhead hbodies => .rule hhead (Declarations.bracesMatch_ofBodies hbodies))
    hnodes i hi

/-! ## Braces that open blocks -/

/-- Whether a brace behind the character opens a block. -/
def endsHead (c : Char) : Bool := c != '\x7b' && c != '\x7d' && c != ';' && c != '@'

/-- Whether each opening brace stands behind a character that ends a head; `last` is the character
before the text. -/
def opensBlocksFrom : (last : Option Char) → Text → Bool
  | _, [] => true
  | last, c :: s => (c != '\x7b' || last.any endsHead) && opensBlocksFrom (some c) s

/-- Whether each opening brace of a text opens a block. -/
def opensBlocks (s : Text) : Bool := opensBlocksFrom none s

theorem opensBlocksFrom_append {last : Option Char} {s t : Text} :
    opensBlocksFrom last (s ++ t) =
      (opensBlocksFrom last s && opensBlocksFrom (s.getLast?.or last) t) := by
  induction s generalizing last with
  | nil => simp [opensBlocksFrom]
  | cons c s ih =>
    rw [List.cons_append, opensBlocksFrom, opensBlocksFrom, ih, Bool.and_assoc]
    cases s with
    | nil => rfl
    | cons d s => simp [List.getLast?_cons]

/-- Behind a character that ends no head, a text is read as from its start. -/
theorem opensBlocks_of_not_endsHead {c : Char} (hc : endsHead c = false) {s : Text}
    (h : opensBlocksFrom (some c) s = true) : opensBlocks s = true := by
  cases s with
  | nil => rfl
  | cons d s => simpa [opensBlocks, opensBlocksFrom, hc] using h

/-- What is found in a text whose braces open blocks. -/
structure Found.OpensBlocks (f : Found) : Prop where
  before : '\x7b' ∉ f.before
  rest : opensBlocks f.rest = true
  body : ∀ head body closed, f.construct = .block head body closed → opensBlocks body = true

/-- The body of a block closes no brace that it does not open; if it ends at a brace, all of its own
are closed. -/
theorem braceDepth_splitBody (acc : Text) (depth : Nat) (s : Text) :
    ∃ t e, (splitBody acc depth s).1 = acc.reverse ++ t ∧ braceDepth depth t = some e ∧
      ((splitBody acc depth s).2.isSome = true → e = 0) := by
  fun_induction splitBody acc depth s with
  | case1 acc depth => exact ⟨[], depth, by simp, rfl, by simp⟩
  | case2 acc depth s ih =>
    obtain ⟨t, e, hbody, hdepth, hclosed⟩ := ih
    exact ⟨'\x7b' :: t, e, by simp [hbody], hdepth, hclosed⟩
  | case3 acc s => exact ⟨[], 0, by simp, rfl, fun _ => rfl⟩
  | case4 acc s depth _ ih =>
    obtain ⟨t, e, hbody, hdepth, hclosed⟩ := ih
    exact ⟨'\x7d' :: t, e, by simp [hbody], hdepth, hclosed⟩
  | case5 acc depth c s ho hc ih =>
    obtain ⟨t, e, hbody, hdepth, hclosed⟩ := ih
    refine ⟨c :: t, e, by simp [hbody], ?_, hclosed⟩
    rw [braceDepth_cons, braceStep_of_ne ho hc]
    exact hdepth

/-- What is known of a run behind a text that ends with `last`, if braces open blocks there. -/
structure Run.Follows (last : Option Char) (r : Run) : Prop where
  head : last.any endsHead = true → r.isHead = true
  started : r.atRule = true → r.chars ≠ []
  brace : '\x7b' ∉ r.chars

theorem Run.Follows.start {last : Option Char} (h : last.any endsHead = false) :
    Run.empty.Follows last :=
  ⟨by simp [h], by simp [Run.empty], List.not_mem_nil⟩

theorem Run.Follows.push {last : Option Char} {r : Run} {c : Char} (h : r.Follows last)
    (hc : c ≠ '\x7b') : (r.push c).Follows (some c) := by
  have hat : (r.push c).atRule = r.atRule := by simp [Run.push_eq]
  refine ⟨fun _ => ?_, fun _ => by simp [Run.chars_push], ?_⟩
  · rw [Run.isHead, hat, Run.chars_push]
    split
    · rename_i hrule
      simpa using List.length_pos_iff.2 (h.started hrule)
    · rfl
  · rw [Run.chars_push, List.mem_cons, not_or]
    exact ⟨Ne.symm hc, h.brace⟩

theorem Found.opensBlocks_block {before head s : Text} (hbefore : '\x7b' ∉ before)
    (hs : opensBlocksFrom (some '\x7b') s = true) : (Found.block before head s).OpensBlocks := by
  unfold Found.block
  split
  · rename_i body rest hsplit
    have heq : s = body ++ '\x7d' :: rest := splitBody_eq hsplit
    rw [heq, opensBlocksFrom_append, Bool.and_eq_true] at hs
    refine ⟨hbefore, opensBlocks_of_not_endsHead (c := '\x7d') (by decide) ?_, ?_⟩
    · simpa [opensBlocksFrom] using hs.2
    · rintro _ _ _ ⟨⟩
      exact opensBlocks_of_not_endsHead (by decide) hs.1
  · rename_i body hsplit
    have heq : s = body := by simpa using splitBody_eq hsplit
    refine ⟨hbefore, rfl, ?_⟩
    rintro _ _ _ ⟨⟩
    exact opensBlocks_of_not_endsHead (by decide) (heq ▸ hs)

theorem Run.of_step_eq_drop {r : Run} {c : Char} (h : r.step c = .drop) :
    c = ';' ∨ c = '\x7d' ∨ c = '\x7b' ∧ r.isHead = false := by
  simp only [Run.step] at h
  grind

/-- **Where each opening brace opens a block, none is left between constructs.** -/
theorem findFrom_opensBlocks {before s : Text} {r : Run} {last : Option Char}
    (hs : opensBlocksFrom last s = true) (hr : r.Follows last) (hbefore : '\x7b' ∉ before) :
    (∀ f, findFrom before r s = some f → f.OpensBlocks) ∧
      (findFrom before r s = none → '\x7b' ∉ s) := by
  fun_induction findFrom before r s generalizing last with
  | case1 before r => exact ⟨fun _ h => (by cases h), fun _ => List.not_mem_nil⟩
  | case2 before r c s hstep ih =>
    rw [opensBlocksFrom, Bool.and_eq_true] at hs
    have hc : c ≠ '\x7b' := (Run.of_step_eq_extend hstep).1
    obtain ⟨hsome, hnone⟩ := ih hs.2 (hr.push hc) hbefore
    exact ⟨hsome, fun h => List.not_mem_cons_of_ne_of_not_mem hc.symm (hnone h)⟩
  | case3 before r c s hstep ih =>
    rw [opensBlocksFrom, Bool.and_eq_true] at hs
    -- A brace behind a head is not dropped.
    have hc : c = ';' ∨ c = '\x7d' := by
      rcases Run.of_step_eq_drop hstep with hc | hc | ⟨rfl, hhead⟩
      · exact .inl hc
      · exact .inr hc
      · have hlast : last.any endsHead = true := by simpa using hs.1
        rw [hr.head hlast] at hhead
        cases hhead
    have hne : c ≠ '\x7b' ∧ endsHead c = false := by
      rcases hc with rfl | rfl <;> decide
    have hbefore' : '\x7b' ∉ c :: (r.chars ++ before) := by
      simpa [hne.1.symm] using ⟨hr.brace, hbefore⟩
    obtain ⟨hsome, hnone⟩ := ih hs.2 (.start (by simpa using hne.2)) hbefore'
    exact ⟨hsome, fun h => List.not_mem_cons_of_ne_of_not_mem hne.1.symm (hnone h)⟩
  | case4 before r c s hstep ih =>
    rw [opensBlocksFrom, Bool.and_eq_true] at hs
    obtain rfl := Run.step_eq_restart hstep
    have hbefore' : '\x7b' ∉ r.chars ++ before := by simpa using ⟨hr.brace, hbefore⟩
    obtain ⟨hsome, hnone⟩ := ih hs.2 ⟨by decide, by decide, by decide⟩ hbefore'
    exact ⟨hsome, fun h => List.not_mem_cons_of_ne_of_not_mem (by decide) (hnone h)⟩
  | case5 before r c s hstep =>
    rw [opensBlocksFrom, Bool.and_eq_true] at hs
    obtain ⟨rfl, -⟩ := Run.of_step_eq_statement hstep
    refine ⟨?_, fun h => by cases h⟩
    rintro _ ⟨⟩
    refine ⟨by simpa using hbefore, opensBlocks_of_not_endsHead (by decide) hs.2, ?_⟩
    rintro _ _ _ ⟨⟩
  | case6 before r c s hstep =>
    rw [opensBlocksFrom, Bool.and_eq_true] at hs
    obtain rfl := Run.step_eq_block hstep
    refine ⟨?_, fun h => by cases h⟩
    rintro _ ⟨⟩
    exact Found.opensBlocks_block (by simpa using hbefore) hs.2

theorem nextConstruct_opensBlocks {s : Text} (hs : opensBlocks s = true) :
    (∀ f, nextConstruct s = some f → f.OpensBlocks) ∧ (nextConstruct s = none → '\x7b' ∉ s) :=
  findFrom_opensBlocks hs (.start rfl) List.not_mem_nil

theorem isBraceless_of_not_mem {s : Text} {e : Nat} (hopen : '\x7b' ∉ s)
    (hdepth : braceDepth 0 s = some e) : isBraceless s = true ∧ e = 0 := by
  induction s with
  | nil => exact ⟨rfl, (Option.some.inj hdepth).symm⟩
  | cons c s ih =>
    rw [List.mem_cons, not_or] at hopen
    by_cases hc : c = '\x7d'
    · subst hc
      cases hdepth
    · rw [braceDepth_cons, braceStep_of_ne (Ne.symm hopen.1) hc] at hdepth
      obtain ⟨hs, he⟩ := ih hopen.2 hdepth
      exact ⟨isBraceless_append (s := [c]).2
        ⟨isBraceless_iff.2 (by simpa using ⟨Ne.symm hopen.1, hc⟩), hs⟩, he⟩

/-- The body of a block that is found closes no brace that it does not open. -/
theorem nextConstruct_body {s : Text} {f : Found} (h : nextConstruct s = some f)
    {head body : Text} {closed : Bool} (hf : f.construct = .block head body closed) :
    ∃ e, braceDepth 0 body = some e ∧ (closed = true → e = 0) ∧ (closed = false → f.rest = []) := by
  obtain ⟨before, r, s, -, ⟨-, rfl⟩ | ⟨-, rfl⟩⟩ :=
    exists_run_of_findFrom (K := fun _ => True) trivial trivial (fun _ _ => trivial) trivial h
  · cases hf
  · obtain ⟨t, e, hbody, hdepth, hclosed⟩ := braceDepth_splitBody [] 0 s
    unfold Found.block at hf ⊢
    split at hf <;> rename_i hsplit <;> cases hf <;> rw [hsplit] at hbody hclosed
    · obtain rfl : body = t := hbody
      exact ⟨e, hdepth, fun _ => hclosed rfl, fun h => by cases h⟩
    · obtain rfl : body = t := hbody
      exact ⟨e, hdepth, fun h => (by cases h), fun _ => rfl⟩

/-- **The text between constructs has no braces, if each opening brace opens a block and none is
closed that is not open.** -/
theorem isBraceless_left {s : Text} {e : Nat} (hs : opensBlocks s = true)
    (hdepth : braceDepth 0 s = some e) : isBraceless (readNodes s).2 = true := by
  obtain ⟨hsome, hnone⟩ := nextConstruct_opensBlocks hs
  cases h : nextConstruct s with
  | none =>
    rw [readNodes_of_none h]
    exact (isBraceless_of_not_mem (hnone h) hdepth).1
  | some f =>
    have hopens := hsome f h
    have hrest := length_rest_lt h
    have hopening := nextConstruct_opening h
    rw [nextConstruct_eq h, braceDepth_append, Option.bind_eq_some_iff] at hdepth
    obtain ⟨_, hdepthBefore, hdepth⟩ := hdepth
    obtain ⟨hbefore, rfl⟩ := isBraceless_of_not_mem hopens.before hdepthBefore
    rw [readNodes_of_some h]
    refine isBraceless_append.2 ⟨hbefore, ?_⟩
    -- Either the construct closes its braces, or there is nothing behind it.
    have hconstruct : bracesMatch f.construct.text = true ∨ f.rest = [] := by
      cases hc : f.construct with
      | statement text =>
        rw [hc] at hopening
        exact .inl (bracesMatch_of_isBraceless hopening)
      | block head body closed =>
        rw [hc] at hopening
        obtain ⟨e', hbody, hclosed, hunclosed⟩ := nextConstruct_body h hc
        cases closed with
        | false => exact .inr (hunclosed rfl)
        | true =>
          have hbody : bracesMatch body = true := by simp [bracesMatch, hbody, hclosed rfl]
          have htext := bracesMatch_append (bracesMatch_of_isBraceless hopening)
            (bracesMatch_block hbody)
          exact .inl (by simpa [Construct.text, Construct.opening] using htext)
    rcases hconstruct with hmatch | hnil
    · rw [braceDepth_append, bracesMatch.depth hmatch] at hdepth
      exact isBraceless_left hopens.rest hdepth
    · rw [hnil, readNodes_of_none rfl]
      rfl
termination_by s.length

/-- **Where each opening brace opens a block, no node has a brace in what it declares.** -/
theorem isBraceless_own (s : Text) (hs : opensBlocks s = true) :
    ∀ n ∈ (readNodes s).1, n.Everywhere fun n => ∀ body ∈ n.own, isBraceless body = true := by
  have hopens : ∀ {s f}, opensBlocks s = true → nextConstruct s = some f → f.OpensBlocks :=
    fun hs h => (nextConstruct_opensBlocks hs).1 _ h
  refine everywhere_readNodes (K := fun s => opensBlocks s = true)
    (fun hs h => (hopens hs h).rest) (fun hs h hc => (hopens hs h).body _ _ _ hc)
    (fun {s f n} hs h hn => ?_) hs
  rcases Construct.node?_cases hn with ⟨text, -, rfl⟩ | ⟨head, body, closed, hc, hn⟩
  · exact fun _ hbody => absurd hbody List.not_mem_nil
  · obtain ⟨e, hdepth, -, -⟩ := nextConstruct_body h hc
    have hleft := isBraceless_left ((hopens hs h).body head body closed hc) hdepth
    rcases hn with ⟨hnone, rfl⟩ | rfl
    · rw [readNodes_of_none hnone] at hleft
      simpa [Node.own] using hleft
    · intro own hown
      simp only [Node.own, unlessBlank] at hown
      split at hown
      · cases hown
      · rw [List.mem_singleton.1 hown]
        exact hleft

/-! ## Matching braces -/

theorem Node.ClosedValues.of_isBraceless {n : Node} (h : ∀ body ∈ n.own, isBraceless body = true) :
    n.ClosedValues := fun body hbody _ hd =>
  bracesMatch_of_isBraceless (Declarations.isBraceless_value (h body hbody) hd)

/-- **Whatever is read, matching braces are written** if the braces of each value match, and so if
each opening brace of the stylesheet opens a block. -/
theorem bracesMatch_reassemble (s : Text) (mode : Mode) :
    ((∀ n ∈ (Forest.ofText s).nodes, n.Everywhere Node.ClosedValues) →
        bracesMatch (reassemble s mode) = true) ∧
      (opensBlocks (stripComments s) = true → bracesMatch (reassemble s mode) = true) := by
  refine ⟨fun h => bracesMatch_of_closedValues h mode, fun h => ?_⟩
  refine bracesMatch_of_closedValues (fun n hn => ?_) mode
  exact (isBraceless_own (stripComments s) h n (Node.mem_sorted.1 hn)).imp
    fun _ => Node.ClosedValues.of_isBraceless

/-- A stylesheet with a brace too many in front, a brace in a comment and one in a string, a lone at
sign and a block without an end. -/
def raggedSheet : Text :=
  "\x7d/*\x7b*/a;@;.b[c=\"\x7d\"]\x7bx:1;;.c \x7by:2\x7d z\x7b"

theorem bracesMatch_reassemble_ragged :
    (bracesMatch (stripComments raggedSheet) = false ∧
      opensBlocks (stripComments raggedSheet) = true) ∧
      bracesMatch (reassemble raggedSheet .merge) = true := by
  have h : opensBlocks (stripComments raggedSheet) = true := by decide
  exact ⟨⟨by decide, h⟩, (bracesMatch_reassemble raggedSheet .merge).2 h⟩

/-- A brace behind a semicolon opens no block, so a semicolon in it cuts off a declaration whose
value ends with the closing brace. -/
theorem bracesMatch_reassemble_fails :
    bracesMatch (stripComments ".a\x7b;\x7b;x:1\x7d\x7d") = true ∧
      ∀ mode, reassemble ".a\x7b;\x7b;x:1\x7d\x7d" mode = ".a\x7b\n\tx: 1\x7d;\n\x7d" ∧
        bracesMatch (reassemble ".a\x7b;\x7b;x:1\x7d\x7d" mode) = false := by
  have hnext : nextConstruct ".a\x7b;\x7b;x:1\x7d\x7d" =
      some ⟨[], .block ".a" ";\x7b;x:1\x7d" true, []⟩ := by
    decide
  have hnodes : (Forest.ofText ".a\x7b;\x7b;x:1\x7d\x7d").nodes =
      [.leaf ".a" ".a\x7b;\x7b;x:1\x7d\x7d" ";\x7b;x:1\x7d"] := by
    have hread := readNodes_leaf hnext (by decide) (by decide)
    rw [readNodes_of_none (s := []) (by decide)] at hread
    rw [Forest.nodes_ofText (by decide), hread,
      Node.sorted_of_pairwise (List.pairwise_singleton _ _)]
    rfl
  refine ⟨by decide, fun mode => ?_⟩
  have houtput : reassemble ".a\x7b;\x7b;x:1\x7d\x7d" mode = ".a\x7b\n\tx: 1\x7d;\n\x7d" := by
    rw [reassemble, Forest.write, Forest.items.eq_def, hnodes]
    cases mode <;> decide
  exact ⟨houtput, by rw [houtput]; decide⟩

end Sheet

end UtilitySheet
