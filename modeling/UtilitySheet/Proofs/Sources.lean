import Mathlib.Data.List.TakeWhile
import UtilitySheet.Proofs.Braces
import UtilitySheet.Proofs.OuterBlanks

/-!
# At-rules that are the same by their text or their source

Imports, character sets and namespaces are the same by their text without blanks, and fonts by the
source that is searched for in the text of the block. So such statements are the same if their texts
are, but for blanks outside of strings, and have the same strings; and fonts are the same if their
sources are, but for blanks outside of strings, and have the same strings, provided that the source
that is found is the one that is declared (`Node.identity_eq_iff`). It is, in a block without blocks
inside, where the first part of the body with a source declares it, no other part declares another
one, and no semicolon or brace stands in it (`FindsSource`).
-/

namespace UtilitySheet.Sheet

open Text

/-! ## Searching for a source -/

/-- What is read of a value: everything up to a semicolon or a closing brace. -/
def readValue (value : Text) : Text := value.takeWhile fun c => c != ';' && c != '\x7d'

/-- A source is read behind its name and a colon. -/
theorem sourceAt?_eq_some_iff {s source : Text} : sourceAt? s = some source ↔
    ∃ gap value : Text, s = "src" ++ (gap ++ ':' :: value) ∧ isBlankText gap = true ∧
      readValue value ≠ [] ∧ withoutBlanks (readValue value) = source := by
  have hcolon : isBlank ':' = false := by decide
  constructor
  · intro h
    unfold sourceAt? at h
    split at h
    · cases h
    rename_i rest hname
    split at h
    · rename_i value hvalue
      simp only at h
      split at h
      · cases h
      rename_i hne
      refine ⟨rest.takeWhile isBlank, value, ?_, List.all_takeWhile, ?_, Option.some.inj h⟩
      · rw [after?_eq_some_iff.1 hname, ← hvalue, List.takeWhile_append_dropWhile]
      · simpa [readValue] using hne
    · cases h
  · rintro ⟨gap, value, rfl, hgap, hne, rfl⟩
    have hdrop : (gap ++ ':' :: value).dropWhile isBlank = ':' :: value := by
      rw [dropWhile_append_cons hcolon, List.dropWhile_eq_nil_iff.2 (List.all_eq_true.1 hgap),
        List.nil_append]
    have hread : (readValue value).isEmpty = false := by simpa using hne
    rw [sourceAt?, after?_eq_some_iff.2 rfl]
    simp only [hdrop]
    rw [readValue] at hread ⊢
    rw [hread]
    rfl

/-- A source ends at a semicolon or a closing brace, whatever stands behind it. -/
theorem sourceAt?_append_cons {b : Char} (hb : b = ';' ∨ b = '\x7d') (s t : Text) :
    sourceAt? (s ++ b :: t) = sourceAt? s := by
  have hname : b ∉ ("src" : Text) := by rcases hb with rfl | rfl <;> decide
  have hblank : isBlank b = false := by rcases hb with rfl | rfl <;> decide
  have hcolon : b ≠ ':' := by rcases hb with rfl | rfl <;> decide
  have hstop : (b != ';' && b != '\x7d') = false := by rcases hb with rfl | rfl <;> decide
  rw [sourceAt?, sourceAt?, after?_append_cons hname]
  cases after? "src" s with
  | none => rfl
  | some rest =>
    simp only [Option.map_some, dropWhile_append_cons hblank]
    cases hrest : rest.dropWhile isBlank with
    | nil =>
      rw [List.nil_append]
      split
      · simp_all
      · rfl
    | cons c value =>
      by_cases hc : c = ':'
      · subst hc
        have hvalue := takeWhile_append_cons (p := fun c => c != ';' && c != '\x7d') hstop value t
        simp only [List.cons_append, hvalue]
      · simp [hc]

/-- Behind a semicolon the search starts anew. -/
theorem source?_append_semicolon (s t : Text) :
    source? (s ++ ';' :: t) = (source? s).or (source? t) := by
  have hfrom : sourceFrom? (s ++ ';' :: t) = (sourceFrom? s).or (source? t) := by
    induction s with
    | nil => simp [sourceFrom?, source?]
    | cons c s ih =>
      rw [List.cons_append, sourceFrom?, sourceFrom?, sourceAt?_append_cons (.inl rfl), ih]
      split
      · rw [Option.or_assoc]
      · rfl
  rw [source?, sourceAt?_append_cons (.inl rfl), hfrom, ← Option.or_assoc]
  rfl

theorem source?_append_brace (s : Text) : source? (s ++ ['\x7d']) = source? s := by
  have hfrom : sourceFrom? (s ++ ['\x7d']) = sourceFrom? s := by
    induction s with
    | nil => decide
    | cons c s ih =>
      rw [List.cons_append, sourceFrom?, sourceFrom?, sourceAt?_append_cons (.inr rfl), ih]
  rw [source?, sourceAt?_append_cons (.inr rfl), hfrom]
  rfl

/-- **The source of a body is that of its first part with one.** -/
theorem source?_eq_findSome? (body : Text) :
    source? body = (Declarations.parts body).findSome? source? := by
  have hfrom : ∀ (cur : Text) (depth : Nat), source? (cur.reverse ++ body) =
      (Declarations.partsFrom cur depth body).findSome? source? := by
    induction body with
    | nil => simp [Declarations.partsFrom]
    | cons c s ih =>
      intro cur depth
      have hnext : ∀ depth', source? (cur.reverse ++ c :: s) =
          (Declarations.partsFrom (c :: cur) depth' s).findSome? source? := fun depth' => by
        rw [← ih]
        simp
      simp only [Declarations.partsFrom]
      split
      · exact hnext _
      split
      · exact hnext _
      split
      · rename_i hsemicolon
        have hrest : source? s = (Declarations.partsFrom [] 0 s).findSome? source? := ih [] 0
        rw [hsemicolon.1, source?_append_semicolon, hrest, List.findSome?_cons]
        cases source? cur.reverse <;> rfl
      · exact hnext _
  exact hfrom [] 0

theorem sourceAt?_cons {c : Char} (hc : c ≠ 's') (s : Text) : sourceAt? (c :: s) = none := by
  have hnone : after? "src" (c :: s) = none := by simp [after?, Ne.symm hc]
  rw [sourceAt?, hnone]

/-- Blanks in front have no source. -/
theorem source?_blanks_append {b : Text} (hb : isBlankText b = true) (s : Text) :
    source? (b ++ s) = source? s := by
  induction b with
  | nil => rfl
  | cons c b ih =>
    simp only [isBlankText, List.all_cons, Bool.and_eq_true] at hb
    have hc : c ≠ 's' := by
      rintro rfl
      exact absurd hb.1 (by decide)
    rw [List.cons_append, source?, sourceAt?_cons hc, Option.none_or, sourceFrom?,
      if_pos (.inr (.inr hb.1))]
    exact ih hb.2

/-- Up to a brace, a text without the first letter of the name has no source. -/
theorem source?_append_block {h : Text} (hh : 's' ∉ h) (t : Text) :
    source? (h ++ '\x7b' :: t) = source? t := by
  have hnone : ∀ {h : Text}, 's' ∉ h → sourceAt? (h ++ '\x7b' :: t) = none := by
    intro h hh
    cases h with
    | nil => exact sourceAt?_cons (by decide) t
    | cons c h => exact sourceAt?_cons (fun hc => hh (hc ▸ List.mem_cons_self)) _
  have hfrom : sourceFrom? (h ++ '\x7b' :: t) = source? t := by
    induction h with
    | nil => rfl
    | cons c h ih =>
      rw [List.mem_cons, not_or] at hh
      rw [List.cons_append, sourceFrom?, hnone hh.2, ih hh.2, Option.none_or, ite_self]
  rw [source?, hnone hh, hfrom, Option.none_or]

/-- A blank more at the end of a value is read with it or not at all. -/
theorem withoutBlanks_readValue_append {c : Char} (hc : isBlank c = true) (value : Text) :
    withoutBlanks (readValue (value ++ [c])) = withoutBlanks (readValue value) := by
  have hmark := not_mem_marks_of_isBlank hc
  simp only [marks, List.mem_cons, List.not_mem_nil, or_false, not_or] at hmark
  rw [readValue, readValue, List.takeWhile_append]
  split
  · rename_i hlength
    have hblank : withoutBlanks [c] = [] := by simp [withoutBlanks, hc]
    rw [(List.takeWhile_prefix _).eq_of_length hlength,
      List.takeWhile_cons_of_pos (by simp [hmark]), List.takeWhile_nil, withoutBlanks_append,
      hblank, List.append_nil]
  · rfl

theorem readValue_append_ne_nil {value : Text} (h : readValue value ≠ []) (t : Text) :
    readValue (value ++ t) ≠ [] := by
  cases value with
  | nil => exact absurd rfl h
  | cons c value =>
    rw [readValue, List.takeWhile_cons] at h
    rw [readValue, List.cons_append, List.takeWhile_cons]
    split at h
    · rename_i hpass
      rw [if_pos hpass]
      exact List.cons_ne_nil _ _
    · exact absurd rfl h

/-- A blank more at the end changes no source that is there, and gives an empty one at most. -/
theorem sourceAt?_append_blank {c : Char} (hc : isBlank c = true) {s source : Text} :
    (sourceAt? s = some source → sourceAt? (s ++ [c]) = some source) ∧
      (sourceAt? (s ++ [c]) = some source → source ≠ [] → sourceAt? s = some source) := by
  simp only [sourceAt?_eq_some_iff]
  constructor
  · rintro ⟨gap, value, rfl, hgap, hne, rfl⟩
    exact ⟨gap, value ++ [c], by simp, hgap, readValue_append_ne_nil hne [c],
      withoutBlanks_readValue_append hc value⟩
  · rintro ⟨gap, value, heq, hgap, -, rfl⟩ hne
    cases value using List.reverseRecOn with
    | nil => exact absurd rfl hne
    | append_singleton value d =>
      have hsplit : s ++ [c] = ("src" ++ (gap ++ ':' :: value)) ++ [d] := by simp [heq]
      obtain ⟨rfl, hlast⟩ := List.append_inj' hsplit rfl
      obtain rfl := List.singleton_inj.1 hlast
      rw [withoutBlanks_readValue_append hc] at hne ⊢
      refine ⟨gap, value, rfl, hgap, fun hnil => hne ?_, rfl⟩
      rw [hnil]
      rfl

/-- Blanks behind a text do not give it a source. -/
theorem source?_of_append_blank {c : Char} (hc : isBlank c = true) {s source : Text}
    (h : source? (s ++ [c]) = some source) (hne : source ≠ []) : source? s = some source := by
  have hor : ∀ {s : Text} {a b : Option Text}, (a = some source → b = some source) →
      (sourceAt? (s ++ [c])).or a = some source → (sourceAt? s).or b = some source := by
    intro s a b hab hsome
    rw [Option.or_eq_some_iff] at hsome ⊢
    rcases hsome with hsome | ⟨hnone, hsome⟩
    · exact .inl ((sourceAt?_append_blank hc).2 hsome hne)
    · refine .inr ⟨?_, hab hsome⟩
      cases hs : sourceAt? s with
      | none => rfl
      | some other =>
        rw [(sourceAt?_append_blank hc).1 hs] at hnone
        cases hnone
  have hfrom : ∀ s : Text, sourceFrom? (s ++ [c]) = some source → sourceFrom? s = some source := by
    intro s
    induction s with
    | nil =>
      intro hsome
      simp [sourceFrom?, sourceAt?, after?] at hsome
    | cons d s ih =>
      rw [List.cons_append, sourceFrom?, sourceFrom?]
      split
      · exact hor ih
      · exact ih
  exact hor (hfrom s) h

theorem source?_trimEnd {s source : Text} (h : source? s = some source) (hne : source ≠ []) :
    source? (trimEnd s) = some source := by
  have hblanks : ∀ b : Text, (∀ c ∈ b, isBlank c = true) →
      source? (trimEnd s ++ b) = some source → source? (trimEnd s) = some source := by
    intro b hb
    induction b using List.reverseRecOn with
    | nil => simp
    | append_singleton b c ih =>
      rw [List.forall_mem_append, List.forall_mem_singleton] at hb
      rw [← List.append_assoc]
      exact fun h => ih hb.1 (source?_of_append_blank hb.2 h hne)
  refine hblanks (s.reverse.takeWhile isBlank).reverse ?_ ?_
  · intro c hc
    exact List.all_eq_true.1 List.all_takeWhile c (List.mem_reverse.1 hc)
  · rwa [trimEnd, ← List.reverse_append, List.takeWhile_append_dropWhile, List.reverse_reverse]

/-! ## The source that is declared -/

/-- A declaration of the source is read from the front of its part, up to a semicolon or a brace. -/
theorem source?_of_readPart {part value : Text}
    (h : Declarations.readPart part = .declared "src" value)
    (hwhole : ';' ∉ value ∧ '\x7d' ∉ value) : source? part = some (withoutBlanks value) := by
  obtain ⟨gap, gap', behind, rfl, hgap, hgap', -, -, hvalue, hne⟩ :=
    Declarations.eq_append_of_readPart h
  have hblank : ∀ {b : Text}, (∀ c ∈ b, isLayout c = true) → isBlankText b = true :=
    fun hb => List.all_eq_true.2 fun c hc => isBlank_of_isLayout (hb c hc)
  have hsame : withoutBlanks value = withoutBlanks behind := by
    have hlayout := withoutBlanks_blanks_append
      (hblank (List.all_eq_true.1 (List.all_takeWhile (p := isLayout) (l := behind))))
      (behind.dropWhile isLayout)
    rw [List.takeWhile_append_dropWhile] at hlayout
    rw [hvalue, withoutBlanks_collapse, hlayout]
  have hnot : ∀ {c : Char}, isBlank c = false → c ∉ value → c ∉ behind := by
    intro c hc hvalue hbehind
    have hmem : c ∈ withoutBlanks behind := List.mem_filter.2 ⟨hbehind, by simp [hc]⟩
    rw [← hsame] at hmem
    exact hvalue (List.mem_of_mem_filter hmem)
  have hread : readValue behind = behind := by
    refine List.takeWhile_eq_self_iff.2 fun c hc => ?_
    have hsemicolon : c ≠ ';' := fun heq => hnot (by decide) hwhole.1 (heq ▸ hc)
    have hbrace : c ≠ '\x7d' := fun heq => hnot (by decide) hwhole.2 (heq ▸ hc)
    simp [hsemicolon, hbrace]
  have hat : sourceAt? ("src" ++ (gap' ++ ':' :: behind)) = some (withoutBlanks value) := by
    refine sourceAt?_eq_some_iff.2 ⟨gap', behind, rfl, hblank hgap', ?_, by rw [hread, hsame]⟩
    rw [hread]
    rintro rfl
    exact hne hvalue
  rw [source?_blanks_append (hblank hgap), source?, hat]
  rfl

/-- The values that the parts of a body give to a property. -/
def valuesOf (property body : Text) : List Text :=
  (Declarations.parts body).filterMap fun part =>
    match Declarations.readPart part with
    | .declared p v => if p = property then some v else none
    | _ => none

theorem mem_valuesOf {property body value part : Text} (hmem : part ∈ Declarations.parts body)
    (h : Declarations.readPart part = .declared property value) : value ∈ valuesOf property body :=
  List.mem_filterMap.2 ⟨part, hmem, by simp [h]⟩

/-- Whether the source that a body declares stands where it is searched for, and is read whole. -/
structure FindsSource (body value : Text) : Prop where
  /-- The first part with a source declares it. -/
  first : ∃ part, (Declarations.parts body).find? (fun p => (source? p).isSome) = some part ∧
    Declarations.readPart part = .declared "src" value
  only : ∀ v ∈ valuesOf "src" body, v = value
  whole : ';' ∉ value ∧ '\x7d' ∉ value

theorem FindsSource.source?_eq {body value : Text} (h : FindsSource body value) :
    source? body = some (withoutBlanks value) := by
  obtain ⟨part, hfind, hpart⟩ := h.first
  obtain ⟨-, before, behind, hparts, hbefore⟩ := List.find?_eq_some_iff_append.1 hfind
  have hnone : before.findSome? source? = none :=
    List.findSome?_eq_none_iff.2 fun p hp => by simpa using hbefore p hp
  rw [source?_eq_findSome?, hparts, List.findSome?_append, hnone, List.findSome?_cons,
    source?_of_readPart hpart h.whole]
  rfl

theorem FindsSource.withoutBlanks_ne_nil {body value : Text} (h : FindsSource body value) :
    withoutBlanks value ≠ [] := by
  obtain ⟨part, -, hpart⟩ := h.first
  obtain ⟨-, -, behind, -, -, -, -, -, hvalue, hne⟩ := Declarations.eq_append_of_readPart hpart
  rw [collapse_eq_squeeze] at hvalue
  rw [Ne, withoutBlanks_eq_nil_iff]
  cases value with
  | nil => exact absurd rfl hne
  | cons c t => simp [isBlankText, isBlank_head_squeeze hvalue.symm]

/-- A property that a part declares is declared by the parts together. -/
theorem mem_properties_of_readPart {ps : List Text} {part property value : Text} (hmem : part ∈ ps)
    (h : Declarations.readPart part = .declared property value) :
    property ∈ (ps.foldl Declarations.addPart []).map Prod.fst := by
  induction ps using List.reverseRecOn with
  | nil => cases hmem
  | append_singleton ps p ih =>
    rw [List.foldl_append, List.foldl_cons, List.foldl_nil, Declarations.addPart]
    rcases List.mem_append.1 hmem with hmem | hmem
    · have hbefore := ih hmem
      split
      · rw [Declarations.map_fst_insert]
        split
        · exact hbefore
        · exact List.mem_append_left _ hbefore
      · exact hbefore
    · rw [← List.mem_singleton.1 hmem, h, Declarations.map_fst_insert]
      split
      · assumption
      · exact List.mem_append_right _ (List.mem_singleton_self property)

/-- Such a body declares the source. -/
theorem FindsSource.mem_ofBody {body value : Text} (h : FindsSource body value) :
    (("src" : Text), value) ∈ Declarations.ofBody body := by
  obtain ⟨part, hfind, hpart⟩ := h.first
  have hproperty : ("src" : Text) ∈ (Declarations.ofBody body).map Prod.fst :=
    mem_properties_of_readPart (List.mem_of_find?_eq_some hfind) hpart
  obtain ⟨⟨property, v⟩, hd, hsrc⟩ := List.mem_map.1 hproperty
  obtain rfl : property = "src" := hsrc
  obtain ⟨p, hp, hread⟩ := Declarations.mem_ofBody hd
  exact h.only v (mem_valuesOf hp hread) ▸ hd

/-! ## Fonts as they are written -/

/-- A leaf has the text of a block that was found, without the blanks around it. -/
theorem leaf_readNodes (s : Text) : ∀ n ∈ (readNodes s).1, n.Everywhere fun n =>
    ∀ head written body, n = .leaf head written body → ∃ raw closed,
      head = normalHead raw ∧ written = trim (Construct.block raw body closed).text := by
  refine everywhere_readNodes (K := fun _ => True) (fun _ _ => trivial) (fun _ _ _ => trivial)
    (fun _ _ hn head written body hleaf => ?_) trivial
  rcases Construct.node?_cases hn with ⟨text, -, rfl⟩ | ⟨raw, inner, closed, -, ⟨-, rfl⟩ | rfl⟩
  · cases hleaf
  · obtain ⟨rfl, rfl, rfl⟩ := Node.leaf.inj hleaf
    exact ⟨raw, closed, rfl, rfl⟩
  · cases hleaf

/-- A source in the body of a font is found in the text of the block. -/
theorem source?_trim_block {raw body source : Text} (hraw : normalHead raw = "@font-face")
    (h : source? body = some source) (hne : source ≠ []) (closed : Bool) :
    source? (trim (Construct.block raw body closed).text) = some source := by
  have hname : 's' ∉ raw.dropWhile isBlank := by
    intro hmem
    have hblanks : withoutBlanks raw = "@font-face" := by
      rw [← withoutBlanks_normalHead, hraw]
      decide
    have hs : 's' ∈ withoutBlanks raw :=
      List.mem_filter.2 ⟨(List.dropWhile_suffix _).subset hmem, by decide⟩
    rw [hblanks] at hs
    exact absurd hs (by decide)
  rw [trim_block, source?_append_block hname]
  cases closed with
  | true =>
    have hbrace : trimEnd (body ++ ['\x7d']) = body ++ ['\x7d'] := by
      rw [trimEnd_append_cons (by decide)]
      rfl
    rw [if_pos rfl, hbrace, source?_append_brace, h]
  | false =>
    rw [if_neg Bool.false_ne_true, List.append_nil]
    exact source?_trimEnd h hne

/-! ## Nodes that are the same -/

namespace Policy

/-- The at-rules whose statements are the same by more than their text. -/
def keyedByText : List Text := ["@namespace", "@import", "@charset"]

theorem identityOf_eq_wholeText {head name : Text} (hname : name ∈ keyedByText)
    (h : atRuleName? head = some name) : identityOf head = .wholeText := by
  have hall : ∀ name ∈ keyedByText,
      (((all.find? (·.name == name)).map identity).getD .head) = .wholeText := by decide
  rw [identityOf, find?, h]
  exact hall name hname

end Policy

namespace Node

/-- A node among siblings, or inside one of them. -/
inductive Within (nodes : List Node) : Node → Prop
  | here {n : Node} : n ∈ nodes → Within nodes n
  | inside {n c : Node} : Within nodes n → c ∈ n.children → Within nodes c

theorem Within.of_everywhere {P : Node → Prop} {nodes : List Node} {n : Node}
    (hn : n.Within nodes) (h : ∀ n ∈ nodes, n.Everywhere P) : P n := by
  have heverywhere : n.Everywhere P := by
    induction hn with
    | here hmem => exact h _ hmem
    | inside _ hchild ih => exact ih.inside _ hchild
  exact heverywhere.here

/-- A statement of an at-rule that is the same by its text. -/
structure IsKeyedByText (n : Node) : Prop where
  isStatement : n.isBlock = false
  name : ∃ name ∈ Policy.keyedByText, Policy.atRuleName? n.head = some name

/-- A font that declares a source. -/
structure IsFont (n : Node) (value : Text) : Prop where
  isBlock : n.isBlock = true
  head : n.head = ("@font-face" : Text)
  declared : (("src" : Text), value) ∈ Declarations.ofBodies n.own

/-- Whether the source that is searched for in a block is this one. -/
def HasSource (n : Node) (value : Text) : Prop := source? n.written = some (withoutBlanks value)

/-- What it means for two nodes to be the same that are known by the texts `a` and `b`. -/
structure ComparedBy (n m : Node) (a b : Text) : Prop where
  /-- The texts are the same but for blanks outside of strings if the nodes are the same and the
  texts have the same strings. -/
  same_iff : withoutOuterBlanks a = withoutOuterBlanks b ↔
    n.identity = m.identity ∧ quotations a = quotations b
  /-- Without blanks in strings, the nodes are the same if the texts are. -/
  unbroken : (∀ t ∈ quotations a ++ quotations b, withoutBlanks t = t) →
    (n.identity = m.identity ↔ withoutOuterBlanks a = withoutOuterBlanks b)

theorem ComparedBy.of_identity {n m : Node} {a b : Text}
    (h : n.identity = m.identity ↔ withoutBlanks a = withoutBlanks b) : n.ComparedBy m a b where
  same_iff := by rw [withoutOuterBlanks_eq_iff, h]
  unbroken := by
    intro hunbroken
    rw [List.forall_mem_append] at hunbroken
    rw [withoutOuterBlanks_eq_withoutBlanks hunbroken.1,
      withoutOuterBlanks_eq_withoutBlanks hunbroken.2, h]

theorem identity_of_keyed {n : Node} {name : Text} (hname : name ∈ Policy.keyedByText)
    (h : Policy.atRuleName? n.head = some name) :
    n.identity = if n.isBlock then bareText n.written else withoutBlanks n.head := by
  have hidentity := Policy.identityOf_eq_wholeText hname h
  cases n <;> simp only [head] at hidentity <;> simp [identity, hidentity, isBlock, written, head]

theorem IsKeyedByText.identity_eq {n : Node} (h : n.IsKeyedByText) :
    n.identity = withoutBlanks n.head := by
  obtain ⟨name, hname, hhead⟩ := h.name
  rw [identity_of_keyed hname hhead, h.isStatement, if_neg Bool.false_ne_true]

theorem IsFont.identity_eq {n : Node} {value : Text} (h : n.IsFont value)
    (hsource : n.HasSource value) : n.identity = ("@font-face" : Text) ++ withoutBlanks value := by
  rw [identity_fontFace h.isBlock h.head, hsource, Option.getD_some]

/-- **Statements that are known by their text are the same if their texts are, and fonts if their
sources are**: but for blanks outside of strings, and if they have the same strings. The source of a
font is the one it declares if it has no blocks in its body and its source stands where it is
searched for. -/
theorem identity_eq_iff (s : Text) :
    (∀ n m : Node, n.IsKeyedByText → m.IsKeyedByText → n.ComparedBy m n.head m.head) ∧
    (∀ (n m : Node) (v w : Text), n.IsFont v → m.IsFont w → n.HasSource v → m.HasSource w →
      n.ComparedBy m v w) ∧
    ∀ written body v : Text, Within (Forest.ofText s).nodes (.leaf "@font-face" written body) →
      FindsSource body v →
        (leaf "@font-face" written body).IsFont v ∧
          (leaf "@font-face" written body).HasSource v := by
  refine ⟨fun n m hn hm => .of_identity ?_, fun n m v w hn hm hv hw => .of_identity ?_,
    fun written body v hwithin hfinds => ?_⟩
  · rw [hn.identity_eq, hm.identity_eq]
  · rw [hn.identity_eq hv, hm.identity_eq hw, List.append_cancel_left_eq]
  · refine ⟨⟨rfl, rfl, hfinds.mem_ofBody⟩, ?_⟩
    obtain ⟨raw, closed, hraw, hwritten⟩ := hwithin.of_everywhere
      (fun n hn => leaf_readNodes (stripComments s) n (mem_sorted.1 hn)) _ _ _ rfl
    simp only [HasSource, Node.written]
    rw [hwritten]
    exact source?_trim_block hraw.symm hfinds.source?_eq hfinds.withoutBlanks_ne_nil closed

/-- Two imports and two fonts, each pair the same but for blanks outside of strings. -/
def spacedSheet : Text :=
  "@import \"a b\" c;@import  \"a b\"c;" ++
    "@font-face\x7bsrc:url( \"a\" );e:f\x7d@font-face \x7bg:h;src: url(\"a\")\x7d"

theorem identity_eq_iff_spaced :
    (((statement "@import \"a b\" c;").IsKeyedByText ∧
        (statement "@import  \"a b\"c;").IsKeyedByText) ∧
      (statement "@import \"a b\" c;").identity = (statement "@import  \"a b\"c;").identity) ∧
    ∃ n m : Node, (n.Within (Forest.ofText spacedSheet).nodes ∧
        m.Within (Forest.ofText spacedSheet).nodes) ∧
      (n.IsFont "url( \"a\" )" ∧ m.IsFont "url(\"a\")") ∧
      (n.HasSource "url( \"a\" )" ∧ m.HasSource "url(\"a\")") ∧ n.identity = m.identity := by
  have hkeyed : (statement "@import \"a b\" c;").IsKeyedByText := ⟨rfl, "@import", by decide⟩
  have hkeyed' : (statement "@import  \"a b\"c;").IsKeyedByText := ⟨rfl, "@import", by decide⟩
  have hwithin : ∀ n ∈ (readNodes spacedSheet).1, n.Within (Forest.ofText spacedSheet).nodes := by
    rw [Forest.nodes_ofText (by decide)]
    exact fun n hn => .here (mem_sorted.2 hn)
  have hfirst : nextConstruct spacedSheet = some ⟨[], .statement "@import \"a b\" c;",
      spacedSheet.drop 16⟩ := by
    decide
  have hsecond : nextConstruct (spacedSheet.drop 16) = some ⟨[], .statement "@import  \"a b\"c;",
      spacedSheet.drop 32⟩ := by
    decide
  have hthird : nextConstruct (spacedSheet.drop 32) = some ⟨[], .block "@font-face"
      "src:url( \"a\" );e:f" true, spacedSheet.drop 62⟩ := by
    decide
  have hfourth : nextConstruct (spacedSheet.drop 62) = some ⟨[], .block "@font-face "
      "g:h;src: url(\"a\")" true, []⟩ := by
    decide
  have hhead : normalHead "@font-face" = "@font-face" := by decide
  have hhead' : normalHead "@font-face " = "@font-face" := by decide
  have hread := readNodes_statement hfirst
  rw [readNodes_statement hsecond, readNodes_leaf hthird (by decide) (by decide),
    readNodes_leaf hfourth (by decide) (by decide), hhead, hhead'] at hread
  rw [hread] at hwithin
  simp only [List.forall_mem_cons] at hwithin
  have hfinds : FindsSource "src:url( \"a\" );e:f" "url( \"a\" )" :=
    ⟨⟨"src:url( \"a\" )", by decide, by decide⟩, by decide, by decide⟩
  have hfinds' : FindsSource "g:h;src: url(\"a\")" "url(\"a\")" :=
    ⟨⟨"src: url(\"a\")", by decide, by decide⟩, by decide, by decide⟩
  obtain ⟨hstatements, hfonts, hleaf⟩ := identity_eq_iff spacedSheet
  obtain ⟨hfont, hhas⟩ := hleaf _ _ _ hwithin.2.2.1 hfinds
  obtain ⟨hfont', hhas'⟩ := hleaf _ _ _ hwithin.2.2.2.1 hfinds'
  have himports := (hstatements _ _ hkeyed hkeyed').same_iff.1 (by decide)
  have hsame := (hfonts _ _ _ _ hfont hfont' hhas hhas').same_iff.1 (by decide)
  exact ⟨⟨⟨hkeyed, hkeyed'⟩, himports.1⟩, _, _, ⟨hwithin.2.2.1, hwithin.2.2.2.1⟩, ⟨hfont, hfont'⟩,
    ⟨hhas, hhas'⟩, hsame.1⟩

/-- Two imports that differ by the blank in a string, and two fonts that differ behind a semicolon
in parentheses. -/
def lostSheet : Text :=
  "@import \"a b\";@import \"ab\";" ++
    "@font-face\x7bsrc:url(data:;base64,AA)\x7d@font-face\x7bsrc:url(data:;base64,BB)\x7d"

/-- One of the imports and one of the fonts are lost. -/
theorem identity_eq_iff_fails :
    (∃ a b c d : Node, (Forest.ofText lostSheet).nodes = [a, b, c, d] ∧
      (a.IsKeyedByText ∧ b.IsKeyedByText ∧ a.identity = b.identity ∧
        withoutOuterBlanks a.head ≠ withoutOuterBlanks b.head) ∧
      ∃ v w : Text, c.IsFont v ∧ d.IsFont w ∧ c.identity = d.identity ∧
        withoutOuterBlanks v ≠ withoutOuterBlanks w) ∧
    reassemble lostSheet .merge =
      "@import \"a b\";\n\n@font-face\x7b\n\tsrc: url(data:;base64,BB);\n\x7d" := by
  have hfirst : nextConstruct lostSheet = some ⟨[], .statement "@import \"a b\";",
      lostSheet.drop 14⟩ := by
    decide
  have hsecond : nextConstruct (lostSheet.drop 14) = some ⟨[], .statement "@import \"ab\";",
      lostSheet.drop 27⟩ := by
    decide
  have hthird : nextConstruct (lostSheet.drop 27) = some ⟨[], .block "@font-face"
      "src:url(data:;base64,AA)" true, lostSheet.drop 63⟩ := by
    decide
  have hfourth : nextConstruct (lostSheet.drop 63) = some ⟨[], .block "@font-face"
      "src:url(data:;base64,BB)" true, []⟩ := by
    decide
  have hread := readNodes_statement hfirst
  rw [readNodes_statement hsecond, readNodes_leaf hthird (by decide) (by decide),
    readNodes_leaf hfourth (by decide) (by decide),
    readNodes_of_none (s := []) (by decide)] at hread
  have hnodes : (Forest.ofText lostSheet).nodes =
      [statement "@import \"a b\";", statement "@import \"ab\";",
        leaf "@font-face" "@font-face\x7bsrc:url(data:;base64,AA)\x7d"
          "src:url(data:;base64,AA)",
        leaf "@font-face" "@font-face\x7bsrc:url(data:;base64,BB)\x7d"
          "src:url(data:;base64,BB)"] := by
    rw [Forest.nodes_ofText (by decide), hread, sorted_of_pairwise (by decide)]
    rfl
  constructor
  · refine ⟨_, _, _, _, hnodes, ⟨⟨rfl, "@import", by decide⟩, ⟨rfl, "@import", by decide⟩, ?_⟩,
      "url(data:;base64,AA)", "url(data:;base64,BB)", ⟨rfl, rfl, by decide⟩,
      ⟨rfl, rfl, by decide⟩, ?_⟩
    · decide
    · decide
  · rw [reassemble, Forest.write, Forest.items, hnodes]
    decide

end Node

end UtilitySheet.Sheet
