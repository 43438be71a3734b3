import UtilitySheet.Proofs.Cascade

/-!
# Declarations add up

Bodies that are put together with a semicolon between them declare what they declare one after the
other, as long as no parenthesis is left open: a property keeps its first place and takes its last
value. What such bodies declare can be written on lines and read again (`declares_lines`). A closing
parenthesis without an opening one does not count, in a body as in a line.
-/

namespace UtilitySheet

open Text Sheet

namespace Declarations

/-! ## Parentheses -/

/-- How many parentheses are open behind a text, `depth` of which are open before it. -/
def depthFrom (depth : Nat) (s : Text) : Nat := s.foldl parenStep depth

/-- How many parentheses are open behind a text in which no semicolon cuts, `depth` of which are
open before it. -/
def uncutFrom? (depth : Nat) (s : Text) : Option Nat :=
  s.foldlM (fun depth c => if c = ';' ∧ depth = 0 then none else some (parenStep depth c)) depth

@[simp]
theorem uncutFrom?_nil (depth : Nat) : uncutFrom? depth [] = some depth := rfl

theorem uncutFrom?_cons (depth : Nat) (c : Char) (s : Text) : uncutFrom? depth (c :: s) =
    if c = ';' ∧ depth = 0 then none else uncutFrom? (parenStep depth c) s := by
  rw [uncutFrom?, List.foldlM_cons]
  split <;> rfl

theorem uncutFrom?_append (depth : Nat) (s t : Text) :
    uncutFrom? depth (s ++ t) = (uncutFrom? depth s).bind (uncutFrom? · t) := List.foldlM_append

theorem uncutFrom?_cons_of_not_mem {c : Char} (h : c ∉ marks) (depth : Nat) (s : Text) :
    uncutFrom? depth (c :: s) = uncutFrom? depth s := by
  simp only [marks, List.mem_cons, not_or] at h
  rw [uncutFrom?_cons, if_neg (by simp [h]), parenStep, if_neg (by simp [h]), if_neg (by simp [h])]

theorem uncutFrom?_append_of_not_mem {s : Text} (h : ∀ c ∈ s, c ∉ marks) (depth : Nat)
    (t : Text) : uncutFrom? depth (s ++ t) = uncutFrom? depth t := by
  induction s with
  | nil => rfl
  | cons c s ih =>
    rw [List.forall_mem_cons] at h
    rw [List.cons_append, uncutFrom?_cons_of_not_mem h.1, ih h.2]

/-- Blanks do not matter to parentheses and semicolons. -/
theorem uncutFrom?_squeezeFrom (started gap : Bool) (depth : Nat) (s : Text) :
    uncutFrom? depth (squeezeFrom started gap s) = uncutFrom? depth s := by
  have hspace : ' ' ∉ marks := by decide
  induction s generalizing started gap depth with
  | nil => rfl
  | cons c s ih =>
    rw [squeezeFrom]
    split
    · rename_i hc
      rw [ih, uncutFrom?_cons_of_not_mem (not_mem_marks_of_isBlank hc)]
    · split
      · rw [uncutFrom?_cons_of_not_mem hspace, uncutFrom?_cons, uncutFrom?_cons, ih]
      · rw [uncutFrom?_cons, uncutFrom?_cons, ih]

/-! ## Bodies put together -/

/-- A semicolon cuts where no parenthesis is left open. -/
theorem partsFrom_append {depth : Nat} {s : Text} (h : depthFrom depth s = 0) (cur t : Text) :
    partsFrom cur depth (s ++ ';' :: t) = partsFrom cur depth s ++ parts t := by
  induction s generalizing cur depth with
  | nil =>
    obtain rfl : depth = 0 := h
    rfl
  | cons c s ih =>
    rw [List.cons_append, partsFrom_cons, partsFrom_cons]
    split
    · rename_i hcut
      obtain ⟨rfl, rfl⟩ := hcut
      have hrest : depthFrom 0 s = 0 := h
      rw [ih hrest, List.cons_append]
    · exact ih h _

theorem parts_append {a : Text} (h : depthFrom 0 a = 0) (b : Text) :
    parts (a ++ ';' :: b) = parts a ++ parts b := partsFrom_append h [] b

/-- **Behind a body that leaves no parenthesis open, another one adds its declarations.** -/
theorem ofBody_append {a : Text} (h : depthFrom 0 a = 0) (b : Text) :
    ofBody (a ++ ';' :: b) = (ofBody a).addBody b := by
  rw [ofBody, addBody, parts_append h, List.foldl_append]
  rfl

/-- The properties are in the order in which they come first. -/
theorem map_fst_ofBodies (bodies : List Text) :
    (ofBodies bodies).map Prod.fst = ((listed bodies).map Prod.fst).eraseDups := by
  rw [ofBodies_eq_foldl]
  generalize listed bodies = ds
  induction ds using List.reverseRecOn with
  | nil => rfl
  | append_singleton ds d ih =>
    rw [List.foldl_append, List.foldl_cons, List.foldl_nil, map_fst_insert, ih, List.map_append,
      List.eraseDups_append]
    by_cases hd : d.1 ∈ ds.map Prod.fst
    · simp [List.removeAll, hd, List.mem_eraseDups]
    · simp [List.removeAll, hd, List.mem_eraseDups, List.eraseDups_cons]

/-! ## Declarations that can be read again -/

/-- A declaration whose line is read as the declaration. -/
structure Rereads (d : Text × Text) : Prop where
  named : d.1 ≠ []
  name : ∀ c ∈ d.1, isNameChar c = true
  valued : d.2 ≠ []
  collapsed : collapse d.2 = d.2
  /-- No semicolon cuts the value, and it leaves no parenthesis open. -/
  uncut : uncutFrom? 0 d.2 = some 0

/-- No semicolon cuts a part, and it leaves no parenthesis open if the body does not. -/
theorem uncutFrom?_of_mem_partsFrom {depth : Nat} {cur s part : Text}
    (hcur : uncutFrom? 0 cur.reverse = some depth) (hs : depthFrom depth s = 0)
    (h : part ∈ partsFrom cur depth s) : uncutFrom? 0 part = some 0 := by
  induction s generalizing cur depth with
  | nil =>
    obtain rfl : depth = 0 := hs
    rwa [List.mem_singleton.1 h]
  | cons c s ih =>
    rw [partsFrom_cons] at h
    split at h
    · rename_i hcut
      obtain ⟨rfl, rfl⟩ := hcut
      rcases List.mem_cons.1 h with rfl | h
      · exact hcur
      · have hnil : uncutFrom? 0 ([] : Text).reverse = some 0 := rfl
        exact ih hnil hs h
    · rename_i hcut
      refine ih ?_ hs h
      rw [List.reverse_cons, uncutFrom?_append, hcur, Option.bind_some, uncutFrom?_cons,
        if_neg hcut, uncutFrom?_nil]

/-- The value of an uncut part is uncut. -/
theorem rereads_of_readPart {part property value : Text} (hpart : uncutFrom? 0 part = some 0)
    (h : readPart part = .declared property value) : Rereads (property, value) := by
  obtain ⟨gap, gap', behind, rfl, hgap, hgap', hnamed, hname, rfl, hvalued⟩ :=
    eq_append_of_readPart h
  have hlayout : ∀ c, isLayout c = true → c ∉ marks :=
    fun c hc => not_mem_marks_of_isBlank (isBlank_of_isLayout hc)
  have hfront : ∀ c ∈ behind.takeWhile isLayout, c ∉ marks :=
    fun c hc => hlayout c (List.all_eq_true.1 List.all_takeWhile c hc)
  rw [uncutFrom?_append_of_not_mem fun c hc => hlayout c (hgap c hc),
    uncutFrom?_append_of_not_mem fun c hc => not_mem_marks_of_isNameChar (hname c hc),
    uncutFrom?_append_of_not_mem fun c hc => hlayout c (hgap' c hc),
    uncutFrom?_cons_of_not_mem (by decide),
    ← List.takeWhile_append_dropWhile (p := isLayout) (l := behind),
    uncutFrom?_append_of_not_mem hfront] at hpart
  refine ⟨hnamed, hname, hvalued, collapse_collapse _, ?_⟩
  rw [collapse_eq_squeeze, uncutFrom?_squeezeFrom, hpart]

/-- What is declared in bodies that leave no parenthesis open can be read again. -/
theorem rereads_of_mem_ofBodies {bodies : List Text} (h : ∀ body ∈ bodies, depthFrom 0 body = 0)
    {d : Text × Text} (hd : d ∈ ofBodies bodies) : Rereads d := by
  obtain ⟨body, hbody, hd⟩ := mem_ofBodies hd
  obtain ⟨part, hpart, hread⟩ := mem_ofBody hd
  have hnil : uncutFrom? 0 ([] : Text).reverse = some 0 := rfl
  exact rereads_of_readPart (uncutFrom?_of_mem_partsFrom hnil (h body hbody) hpart) hread

/-! ## Lines -/

/-- A declaration on a line of its own, behind some tabs. -/
def lineBehind (tabCount : Nat) (d : Text × Text) : Text :=
  "\n" ++ tabs tabCount ++ d.1 ++ ": " ++ d.2 ++ ";"

/-- The line of a declaration up to its colon. -/
theorem lineBehind_eq (tabCount : Nat) (d : Text × Text) : lineBehind tabCount d =
    (('\n' :: tabs tabCount) ++ (d.1 ++ ':' :: ' ' :: d.2)) ++ [';'] := by
  have hbreak : "\n".toList = ['\n'] := rfl
  have hcolon : ": ".toList = [':', ' '] := rfl
  have hsemicolon : ";".toList = [';'] := rfl
  simp [lineBehind, hbreak, hcolon, hsemicolon]

theorem declarationLine_eq_lineBehind (depth : Nat) (d : Text × Text) :
    declarationLine depth d = lineBehind (depth + 1) d := by
  rw [declarationLine_eq, lineText, lineBehind_eq, tabs, tabs, List.replicate_succ]

section

variable {d : Text × Text} {ds : Declarations}

theorem isLayout_indent (tabCount : Nat) : ∀ c ∈ '\n' :: tabs tabCount, isLayout c = true := by
  intro c hc
  simp only [tabs, List.mem_cons, List.mem_replicate] at hc
  rcases hc with rfl | ⟨-, rfl⟩ <;> rfl

theorem Rereads.uncut_line (h : Rereads d) (tabCount : Nat) :
    uncutFrom? 0 (('\n' :: tabs tabCount) ++ (d.1 ++ ':' :: ' ' :: d.2)) = some 0 := by
  have hindent : ∀ c ∈ '\n' :: tabs tabCount, c ∉ marks :=
    fun c hc => not_mem_marks_of_isBlank (isBlank_of_isLayout (isLayout_indent tabCount c hc))
  rw [uncutFrom?_append_of_not_mem hindent,
    uncutFrom?_append_of_not_mem fun c hc => not_mem_marks_of_isNameChar (h.name c hc),
    uncutFrom?_cons_of_not_mem (by decide), uncutFrom?_cons_of_not_mem (by decide), h.uncut]

theorem Rereads.readPart_line (h : Rereads d) (tabCount : Nat) :
    readPart (('\n' :: tabs tabCount) ++ (d.1 ++ ':' :: ' ' :: d.2)) = .declared d.1 d.2 := by
  have hvalue : collapse ((' ' :: d.2).dropWhile isLayout) = d.2 := by
    rw [List.dropWhile_cons_of_pos (by decide),
      dropWhile_isLayout_of_collapse h.valued h.collapsed, h.collapsed]
  rw [readPart_eq_declared (isLayout_indent tabCount) h.named h.name
    (by rw [hvalue]; exact h.valued), hvalue]

theorem partsFrom_uncut {depth : Nat} {s : Text} (h : uncutFrom? depth s = some 0) (cur t : Text) :
    partsFrom cur depth (s ++ ';' :: t) = (cur.reverse ++ s) :: parts t := by
  induction s generalizing cur depth with
  | nil =>
    obtain rfl : depth = 0 := Option.some.inj h
    rw [List.append_nil]
    rfl
  | cons c s ih =>
    rw [uncutFrom?_cons] at h
    split at h
    · cases h
    · rename_i hcut
      rw [List.cons_append, partsFrom_cons, if_neg hcut, ih h]
      simp

/-- A text that no semicolon cuts is a part up to a semicolon behind it. -/
theorem parts_uncut {s : Text} (h : uncutFrom? 0 s = some 0) (t : Text) :
    parts (s ++ ';' :: t) = s :: parts t := partsFrom_uncut h [] t

/-- Lines add their declarations one after the other. -/
theorem addBody_lines (h : ∀ d ∈ ds, Rereads d) (tabCount : Text × Text → Nat)
    (acc : Declarations) : acc.addBody (ds.flatMap fun d => lineBehind (tabCount d) d) =
      ds.foldl (fun ds d => insert d.1 d.2 ds) acc := by
  induction ds generalizing acc with
  | nil => rfl
  | cons d ds ih =>
    rw [List.forall_mem_cons] at h
    simp only [addBody] at ih ⊢
    rw [List.flatMap_cons, lineBehind_eq, List.append_assoc, List.singleton_append,
      parts_uncut (h.1.uncut_line _), List.foldl_cons, List.foldl_cons, addPart,
      h.1.readPart_line]
    exact ih h.2 _

end

/-- **Declarations add up and can be read again.** Bodies put together with a semicolon declare what
the first one declares with the second one added, if the first one leaves no parenthesis open. Of
several bodies each property is declared in the place where it comes first and with its last value.
And if the bodies leave no parenthesis open, their declarations on lines, each behind any number of
tabs, declare the same; so do the lines of a rule at any depth. -/
theorem declares_lines :
    (∀ a b, depthFrom 0 a = 0 → ofBody (a ++ ';' :: b) = (ofBody a).addBody b) ∧
    (∀ bodies, (ofBodies bodies).map Prod.fst = ((listed bodies).map Prod.fst).eraseDups ∧
      ∀ property value, (property, value) ∈ ofBodies bodies ↔
        last? property (listed bodies) = some value) ∧
    ∀ bodies, (∀ body ∈ bodies, depthFrom 0 body = 0) →
      (∀ tabCount : Text × Text → Nat,
        ofBody ((ofBodies bodies).flatMap fun d => lineBehind (tabCount d) d) = ofBodies bodies) ∧
      ∀ depth, ofBody ((ofBodies bodies).flatMap (declarationLine depth)) = ofBodies bodies := by
  have hlines : ∀ bodies, (∀ body ∈ bodies, depthFrom 0 body = 0) →
      ∀ tabCount : Text × Text → Nat,
        ofBody ((ofBodies bodies).flatMap fun d => lineBehind (tabCount d) d) =
          ofBodies bodies := by
    intro bodies h tabCount
    rw [ofBody, addBody_lines fun d hd => rereads_of_mem_ofBodies h hd,
      foldl_insert (nodup_ofBodies bodies)]
  refine ⟨fun a b h => ofBody_append h b,
    fun bodies => ⟨map_fst_ofBodies bodies, fun _ _ => mem_ofBodies_iff⟩,
    fun bodies h => ⟨hlines bodies h, fun depth => ?_⟩⟩
  have hline : declarationLine depth = fun d => lineBehind (depth + 1) d :=
    funext (declarationLine_eq_lineBehind depth)
  rw [hline, hlines bodies h fun _ => depth + 1]

/-- A body with a semicolon in parentheses and a parenthesis that closes none. -/
def unevenBody : Text := "a:f(;) );b:1"

/-- The uneven body declares the same with another one behind it, and on lines. -/
theorem declares_lines_uneven :
    depthFrom 0 unevenBody = 0 ∧
    ofBody unevenBody = [("a".toList, "f(;) )".toList), ("b".toList, "1".toList)] ∧
    ofBody (unevenBody ++ ';' :: "a:2") = (ofBody unevenBody).addBody "a:2" ∧
    ofBody ((ofBodies [unevenBody]).flatMap fun d => lineBehind d.1.length d) =
      ofBodies [unevenBody] := by
  have hshut : depthFrom 0 unevenBody = 0 := by decide
  exact ⟨hshut, by decide, declares_lines.1 _ _ hshut,
    (declares_lines.2.2 [unevenBody] (List.forall_mem_singleton.2 hshut)).1 fun d => d.1.length⟩

end Declarations

end UtilitySheet
