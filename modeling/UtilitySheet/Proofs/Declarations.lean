import Mathlib.Data.List.Basic
import UtilitySheet.Proofs.Reading
import UtilitySheet.Sheet.Reassembly

/-!
# Declarations read and written

The declarations of a plain body are sound: each property stands once, and values are collapsed and
flat. Written line by line and read again they are the same (`ofBody_lines`).
-/

namespace UtilitySheet

open Text Sheet

namespace Declarations

/-! ## Parts of a body -/

/-- Parts are cut where no parenthesis is open, so brackets that nest are kept together. -/
theorem partsFrom_nested {opened opened' : List Char} {s : Text}
    (hs : brackets opened s = some opened') (cur t : Text) :
    partsFrom cur (opened.count '(') (s ++ t) =
      partsFrom (s.reverse ++ cur) (opened'.count '(') t := by
  induction s generalizing opened cur with
  | nil =>
    obtain rfl := Option.some.inj hs
    rfl
  | cons c s ih =>
    rw [brackets_cons, Option.bind_eq_some_iff] at hs
    obtain ⟨opened₁, hc, hs⟩ := hs
    have hstep : partsFrom cur (opened.count '(') (c :: (s ++ t)) =
        partsFrom (c :: cur) (opened₁.count '(') (s ++ t) := by
      rcases bracketStep_cases hc with
        ⟨rfl | rfl, rfl⟩ | ⟨rfl, rfl⟩ | ⟨rfl, rfl⟩ | ⟨rfl, hround, -, rfl⟩ | ⟨hmark, rfl⟩
      · simp [partsFrom]
      · simp [partsFrom]
      · simp [partsFrom]
      · simp [partsFrom]
      · have hpos := List.count_pos_iff.2 hround
        simp [partsFrom, Nat.ne_of_gt hpos]
      · simp only [marks, List.mem_cons, not_or] at hmark
        simp [partsFrom, hmark]
    rw [List.cons_append, hstep, ih hs]
    simp

theorem parts_flat {s : Text} (hs : brackets [] s = some []) : parts s = [s] := by
  have h := partsFrom_nested hs [] []
  simpa [parts, partsFrom] using h

theorem parts_semicolon {s : Text} (hs : brackets [] s = some []) (t : Text) :
    parts (s ++ ';' :: t) = s :: parts t := by
  have h := partsFrom_nested hs [] (';' :: t)
  simpa [parts, partsFrom] using h

theorem parts_blanks_append {b : Text} (hb : isBlankText b = true) (s : Text) :
    ∃ p ps, parts s = p :: ps ∧ parts (b ++ s) = (b ++ p) :: ps := by
  have hcur : ∀ (s cur : Text) (depth : Nat), ∃ p ps, partsFrom cur depth s = p :: ps ∧
      ∀ pre, partsFrom (cur ++ pre) depth s = (pre.reverse ++ p) :: ps := by
    intro s
    induction s with
    | nil => exact fun cur depth => ⟨_, _, rfl, fun pre => by simp [partsFrom]⟩
    | cons c s ih =>
      intro cur depth
      simp only [partsFrom]
      split
      · exact ih (c :: cur) (depth + 1)
      split
      · exact ih (c :: cur) (depth - 1)
      split
      · exact ⟨_, _, rfl, fun pre => by simp⟩
      · exact ih (c :: cur) depth
  obtain ⟨p, ps, hs, hpre⟩ := hcur s [] 0
  refine ⟨p, ps, hs, ?_⟩
  have hskip := partsFrom_nested (brackets_blanks hb []) [] s
  simp only [List.count_nil] at hskip
  rw [parts, hskip, List.append_nil]
  simpa using hpre b.reverse

/-! ## Sound declarations -/

/-- What a declaration that is read from a flat part looks like. -/
structure Proper (d : Text × Text) : Prop where
  named : d.1 ≠ []
  name : ∀ c ∈ d.1, isNameChar c = true
  valued : d.2 ≠ []
  collapsed : collapse d.2 = d.2
  flat : Flat d.2

/-- Declarations with each property once, all proper. -/
structure Sound (ds : Declarations) : Prop where
  nodup : (ds.map Prod.fst).Nodup
  proper : ∀ d ∈ ds, Proper d

/-- A part that declares is a name, a colon and a value, with layout around them. -/
theorem eq_append_of_readPart {part property value : Text}
    (h : readPart part = .declared property value) : ∃ gap gap' behind : Text,
    part = gap ++ (property ++ (gap' ++ ':' :: behind)) ∧
      (∀ c ∈ gap, isLayout c = true) ∧ (∀ c ∈ gap', isLayout c = true) ∧
      property ≠ [] ∧ (∀ c ∈ property, isNameChar c = true) ∧
      value = collapse (behind.dropWhile isLayout) ∧ value ≠ [] := by
  unfold readPart at h
  split at h
  · cases h
  split at h
  · cases h
  rename_i property' value' hshape
  split at h
  · cases h
  rename_i hvalue
  obtain ⟨rfl, rfl⟩ := Part.declared.inj h
  unfold shape? at hshape
  simp only at hshape
  split at hshape
  · cases hshape
  rename_i hname
  split at hshape
  · rename_i behind hcolon
    obtain ⟨rfl, rfl⟩ := Prod.mk.inj (Option.some.inj hshape)
    refine ⟨part.takeWhile isLayout,
      ((part.dropWhile isLayout).dropWhile isNameChar).takeWhile isLayout, behind, ?_,
      List.all_eq_true.1 List.all_takeWhile, List.all_eq_true.1 List.all_takeWhile,
      by simpa using hname, List.all_eq_true.1 List.all_takeWhile, rfl, by simpa using hvalue⟩
    rw [← hcolon, List.takeWhile_append_dropWhile, List.takeWhile_append_dropWhile,
      List.takeWhile_append_dropWhile]
  · cases hshape

theorem readPart_proper {part property value : Text} (hpart : Flat part)
    (h : readPart part = .declared property value) : Proper (property, value) := by
  obtain ⟨gap, gap', behind, rfl, hgap, hgap', hnamed, hname, rfl, hvalued⟩ :=
    eq_append_of_readPart h
  have hlayout : ∀ c, isLayout c = true → c ∉ marks :=
    fun c hc => not_mem_marks_of_isBlank (isBlank_of_isLayout hc)
  have hflat := ((hpart.of_append fun c hc => hlayout c (hgap c hc)).of_append
    fun c hc => not_mem_marks_of_isNameChar (hname c hc)).of_append
    fun c hc => hlayout c (hgap' c hc)
  have hbehind : Flat behind :=
    hflat.of_append (p := [':']) (List.forall_mem_singleton.2 (by decide))
  exact ⟨hnamed, hname, hvalued, collapse_collapse _, (hbehind.dropWhile hlayout).collapse⟩

theorem insert_of_not_mem {ds : Declarations} {property : Text} (value : Text)
    (h : property ∉ ds.map Prod.fst) : ds.insert property value = ds ++ [(property, value)] := by
  induction ds with
  | nil => rfl
  | cons d ds ih =>
    simp only [List.map_cons, List.mem_cons, not_or] at h
    simp [insert, Ne.symm h.1, ih h.2]

theorem mem_insert {ds : Declarations} {property value : Text} {d : Text × Text}
    (h : d ∈ ds.insert property value) : d = (property, value) ∨ d ∈ ds := by
  induction ds with
  | nil => exact .inl (List.mem_singleton.1 h)
  | cons e ds ih =>
    simp only [insert] at h
    split at h
    · subst property
      rcases List.mem_cons.1 h with h | h
      · exact .inl h
      · exact .inr (List.mem_cons_of_mem _ h)
    · rcases List.mem_cons.1 h with h | h
      · exact .inr (h ▸ List.mem_cons_self)
      · exact (ih h).imp_right (List.mem_cons_of_mem _)

/-- The properties stay as they are, unless there is a new one at the end. -/
theorem map_fst_insert (ds : Declarations) (property value : Text) :
    (ds.insert property value).map Prod.fst =
      if property ∈ ds.map Prod.fst then ds.map Prod.fst else ds.map Prod.fst ++ [property] := by
  induction ds with
  | nil => rfl
  | cons d ds ih =>
    by_cases hd : d.1 = property
    · simp [insert, hd]
    · simp only [insert, hd, if_false, List.map_cons, List.mem_cons, Ne.symm hd, false_or, ih]
      split <;> rfl

namespace Sound

theorem nil : Sound [] := ⟨List.nodup_nil, fun _ h => absurd h List.not_mem_nil⟩

theorem insert {ds : Declarations} (h : Sound ds) {property value : Text}
    (hproper : Proper (property, value)) : Sound (ds.insert property value) where
  nodup := by
    rw [map_fst_insert]
    split
    · exact h.nodup
    · rename_i hnew
      refine List.nodup_append.2 ⟨h.nodup, by simp, ?_⟩
      rintro a ha b hb rfl
      exact hnew (List.mem_singleton.1 hb ▸ ha)
  proper d hd := (mem_insert hd).elim (fun heq => heq ▸ hproper) (h.proper d)

theorem addBody {ds : Declarations} (h : Sound ds) {body : Text}
    (hparts : ∀ p ∈ parts body, Flat p) : Sound (ds.addBody body) := by
  refine List.foldlRecOn (motive := Sound) (parts body) addPart h fun ds hds p hp => ?_
  unfold addPart
  split
  · rename_i hread
    exact hds.insert (readPart_proper (hparts p hp) hread)
  · exact hds

/-- The declarations of plain bodies are sound. -/
theorem ofBodies {bodies : List Text} (h : ∀ body ∈ bodies, ∀ p ∈ parts body, Flat p) :
    Sound (ofBodies bodies) :=
  List.foldlRecOn (motive := Sound) bodies Declarations.addBody nil
    fun _ hds body hbody => hds.addBody (h body hbody)

end Sound

/-- Declarations with each property once are what inserting them one after the other gives. -/
theorem foldl_insert {ds : Declarations} (h : (ds.map Prod.fst).Nodup) :
    ds.foldl (fun ds d => insert d.1 d.2 ds) [] = ds := by
  have hall : ∀ acc : Declarations, ((acc ++ ds).map Prod.fst).Nodup →
      ds.foldl (fun ds d => insert d.1 d.2 ds) acc = acc ++ ds := by
    clear h
    induction ds with
    | nil => simp
    | cons d ds ih =>
      intro acc hnodup
      have hnew : d.1 ∉ acc.map Prod.fst := by
        simp only [List.map_append, List.map_cons, List.nodup_append] at hnodup
        exact fun hmem => hnodup.2.2 _ hmem _ List.mem_cons_self rfl
      rw [List.foldl_cons, insert_of_not_mem _ hnew, ih (acc ++ [d]) (by simpa using hnodup)]
      simp
  exact hall [] h

/-! ## Declarations in lines -/

/-- The line of a declaration without its semicolon. -/
def lineText (depth : Nat) (d : Text × Text) : Text :=
  ('\n' :: '\t' :: tabs depth) ++ (d.1 ++ ':' :: ' ' :: d.2)

theorem declarationLine_eq (depth : Nat) (d : Text × Text) :
    declarationLine depth d = lineText depth d ++ [';'] := by
  have hbreak : "\n\t".toList = ['\n', '\t'] := rfl
  have hcolon : ": ".toList = [':', ' '] := rfl
  have hsemicolon : ";".toList = [';'] := rfl
  simp [declarationLine, lineText, hbreak, hcolon, hsemicolon]

theorem isBlankText_indent (depth : Nat) : isBlankText ('\n' :: '\t' :: tabs depth) = true :=
  isBlankText_lineBreak (depth + 1)

theorem flat_lineText (depth : Nat) {d : Text × Text} (h : Proper d) : Flat (lineText depth d) := by
  refine (Flat.blanks_append (isBlankText_indent depth)).2 ⟨?_, ?_⟩
  · have hname : ∀ c ∈ d.1, c ∉ marks := fun c hc => not_mem_marks_of_isNameChar (h.name c hc)
    rw [brackets_append, brackets_of_not_mem hname, Option.bind_some, brackets_cons,
      bracketStep_of_not_mem (by decide), Option.bind_some, brackets_cons,
      bracketStep_of_not_mem (by decide), Option.bind_some, h.flat.nested]
  · have hslash : '/' ∉ d.1 := fun hmem => absurd (h.name _ hmem) (by decide)
    refine isClean_append_cons (by decide) (by decide) (isClean_of_not_mem hslash) ?_
    rw [isClean_cons_of_ne (by decide), h.flat.clean]

theorem not_isLayout_of_isNameChar {c : Char} (hc : isNameChar c = true) : isLayout c = false := by
  have hlayout : [' ', '\t', '\r', '\n'].all (fun d => !isNameChar d) = true := by decide
  refine Bool.eq_false_iff.2 fun h => ?_
  have hname := List.all_eq_true.1 hlayout c (by simpa [isLayout, or_assoc] using h)
  rw [hc] at hname
  cases hname

/-- A collapsed value starts with no layout. -/
theorem dropWhile_isLayout_of_collapse {v : Text} (hvalued : v ≠ []) (hcollapsed : collapse v = v) :
    v.dropWhile isLayout = v := by
  obtain ⟨c, value, rfl⟩ := List.exists_cons_of_ne_nil hvalued
  have hsqueezed : squeezeFrom false false (c :: value) = c :: value := by
    rw [← collapse_eq_squeeze, hcollapsed]
  have hblank : isBlank c = false := isBlank_head_squeeze hsqueezed
  refine List.dropWhile_cons_of_neg fun hlayout => ?_
  rw [isBlank_of_isLayout hlayout] at hblank
  cases hblank

theorem Proper.dropWhile_isLayout {d : Text × Text} (h : Proper d) :
    d.2.dropWhile isLayout = d.2 := dropWhile_isLayout_of_collapse h.valued h.collapsed

/-- Behind layout, a name, a colon and a text that is not blank declare. -/
theorem readPart_eq_declared {gap property behind : Text} (hgap : ∀ c ∈ gap, isLayout c = true)
    (hnamed : property ≠ []) (hname : ∀ c ∈ property, isNameChar c = true)
    (hvalued : collapse (behind.dropWhile isLayout) ≠ []) :
    readPart (gap ++ (property ++ ':' :: behind)) =
      .declared property (collapse (behind.dropWhile isLayout)) := by
  obtain ⟨c, name, rfl⟩ := List.exists_cons_of_ne_nil hnamed
  have hc := not_isLayout_of_isNameChar (hname c List.mem_cons_self)
  have hcolon : isNameChar ':' = false := by decide
  have hlayoutColon : isLayout ':' = false := by decide
  have hblank : isBlankText (gap ++ (c :: name ++ ':' :: behind)) = false := by
    have hcolon : isBlank ':' = false := by decide
    simp [isBlankText, hcolon]
  have hdrop : (gap ++ (c :: name ++ ':' :: behind)).dropWhile isLayout =
      c :: name ++ ':' :: behind := by
    rw [List.dropWhile_append_of_pos hgap, List.cons_append,
      List.dropWhile_cons_of_neg (by simp [hc])]
  have htake : (c :: name ++ ':' :: behind).takeWhile isNameChar = c :: name := by
    rw [List.takeWhile_append_of_pos hname, List.takeWhile_cons_of_neg (by simp [hcolon]),
      List.append_nil]
  have hrest : (c :: name ++ ':' :: behind).dropWhile isNameChar = ':' :: behind := by
    rw [List.dropWhile_append_of_pos hname, List.dropWhile_cons_of_neg (by simp [hcolon])]
  have hshape : shape? (gap ++ (c :: name ++ ':' :: behind)) =
      some (c :: name, behind.dropWhile isLayout) := by
    simp only [shape?, hdrop, htake, hrest]
    simp [hlayoutColon]
  have hvalue : (collapse (behind.dropWhile isLayout)).isEmpty = false := by simpa using hvalued
  rw [readPart, hblank, hshape]
  simp only [hvalue, Bool.false_eq_true, if_false]

/-- The part of a line is read as its declaration. -/
theorem readPart_lineText (depth : Nat) {d : Text × Text} (h : Proper d) :
    readPart (lineText depth d) = .declared d.1 d.2 := by
  have hindent : ∀ d ∈ '\n' :: '\t' :: tabs depth, isLayout d = true := by
    intro d hd
    simp only [tabs, List.mem_cons, List.mem_replicate] at hd
    rcases hd with rfl | rfl | ⟨-, rfl⟩ <;> rfl
  have hvalue : collapse ((' ' :: d.2).dropWhile isLayout) = d.2 := by
    rw [List.dropWhile_cons_of_pos (by decide), h.dropWhile_isLayout, h.collapsed]
  rw [lineText, readPart_eq_declared hindent h.named h.name (by rw [hvalue]; exact h.valued),
    hvalue]

/-- A text that starts with a name and a colon is not that of an at-rule. -/
theorem isAtText_name_append {name : Text} (hname : ∀ c ∈ name, isNameChar c = true) (t : Text) :
    isAtText (name ++ ':' :: t) = false := by
  have hat : '@' ∉ name := fun hmem => absurd (hname _ hmem) (by decide)
  have hcolon : isBlank ':' = false := by decide
  clear hname
  induction name with
  | nil => simp [isAtText, hcolon]
  | cons c name ih =>
    simp only [List.mem_cons, not_or] at hat
    by_cases hc : isBlank c = true
    · rw [List.cons_append, ← ih hat.2]
      simp [isAtText, hc]
    · simpa [isAtText, hc] using Ne.symm hat.1

/-- No line is that of an at-rule. -/
theorem isAtText_lineText (depth : Nat) {d : Text × Text} (h : Proper d) :
    isAtText (lineText depth d) = false := by
  rw [lineText, isAtText_blanks_append (isBlankText_indent depth)]
  exact isAtText_name_append h.name _

/-- **The declarations of a body that holds sound declarations line by line are these.** -/
theorem ofBody_lines {ds : Declarations} (h : Sound ds) (depth : Nat) {b : Text}
    (hb : isBlankText b = true) : ofBody (ds.flatMap (declarationLine depth) ++ b) = ds := by
  have hparts : parts (ds.flatMap (declarationLine depth) ++ b) =
      ds.map (lineText depth) ++ [b] := by
    have hproper := h.proper
    clear h
    induction ds with
    | nil => exact parts_flat (brackets_blanks hb [])
    | cons d ds ih =>
      rw [List.flatMap_cons, declarationLine_eq, List.append_assoc, List.append_assoc,
        List.singleton_append, parts_semicolon (flat_lineText depth
          (hproper d List.mem_cons_self)).nested,
        ih fun e he => hproper e (List.mem_cons_of_mem _ he)]
      rfl
  have hfold : ∀ acc : Declarations, (ds.map (lineText depth)).foldl addPart acc =
      ds.foldl (fun ds d => insert d.1 d.2 ds) acc := by
    intro acc
    rw [List.foldl_map]
    refine List.foldl_ext _ _ _ fun acc d hd => ?_
    rw [addPart, readPart_lineText depth (h.proper d hd)]
  have hblank : ∀ acc : Declarations, addPart acc b = acc := by
    intro acc
    rw [addPart, readPart, if_pos hb]
  rw [ofBody, addBody, hparts, List.foldl_append, hfold, foldl_insert h.nodup, List.foldl_cons,
    List.foldl_nil, hblank]

end Declarations

end UtilitySheet
