import UtilitySheet.Proofs.Declarations
import UtilitySheet.Proofs.Grouping
import UtilitySheet.Proofs.PlainRules

/-!
# Compiled rules read back

The text of plain rules is read as these rules, one block for each and in order (`ofText_rules`). So
it is with each group of a compilation (`Compiler.ofText_groupText`), but for the blanks of a
selector: a head is read with single blanks, and a selector has them in pairs if it has any.
-/

namespace UtilitySheet

open Text Sheet

/-! ## Lines read back -/

namespace Sheet

/-- A stretch without blanks stays as it is where it stands in a collapsed text. -/
theorem squeezeFrom_append {v : Text} (h : isUnbroken v = true) (s : Text) :
    squeezeFrom true false (v ++ s) = v ++ squeezeFrom true false s := by
  induction v with
  | nil => rfl
  | cons c v ih =>
    obtain ⟨hc, hv⟩ := isUnbroken_cons.1 h
    simp [squeezeFrom, hc, ih hv]

theorem collapse_written {d : Declaration} (h : d.IsPlain) :
    collapse d.written.2 = d.written.2 := by
  obtain ⟨c, v, hvalue⟩ := List.exists_cons_of_ne_nil h.value.ne_nil
  have hunbroken := h.value.unbroken
  rw [hvalue] at hunbroken
  obtain ⟨hc, hv⟩ := isUnbroken_cons.1 hunbroken
  have hmark : squeezeFrom true false (if d.important then " !important" else "").toList =
      (if d.important then " !important" else "").toList := by
    split <;> decide
  rw [Declaration.written, hvalue, collapse_eq_squeeze, List.cons_append, squeezeFrom,
    if_neg (by simp [hc]), Bool.false_and, if_neg Bool.false_ne_true, squeezeFrom_append hv, hmark]

theorem isQuiet_written {d : Declaration} (h : d.IsPlain) : d.written.2.isQuiet = true := by
  refine isQuiet_append.2 ⟨h.value.quiet, ?_⟩
  split <;> decide

theorem proper_written {d : Declaration} (h : d.IsPlain) : Declarations.Proper d.written where
  named := h.named
  name := h.name
  valued hnil := h.value.ne_nil (List.append_eq_nil_iff.1 hnil).1
  collapsed := collapse_written h
  flat := flat_of_isQuiet (isQuiet_written h)

/-- The lines of declarations, one stretch for each. -/
theorem cons_lines (d : Declaration) (ds : List Declaration) :
    '\n' :: (d :: ds).flatMap Declaration.line =
      (['\n', '\t'] ++ (d.written.1 ++ ':' :: d.written.2)) ++
        ';' :: ('\n' :: ds.flatMap Declaration.line) := by
  rw [List.flatMap_cons, Declaration.line_append]
  simp

theorem flat_line {d : Declaration} (h : d.IsPlain) :
    Flat (['\n', '\t'] ++ (d.written.1 ++ ':' :: d.written.2)) := by
  have hname : d.written.1.isQuiet = true := isQuiet_of_forall (by decide) h.name
  refine flat_of_isQuiet (isQuiet_append.2 ⟨by decide, isQuiet_append.2 ⟨hname, ?_⟩⟩)
  exact isQuiet_append (s := [':']).2 ⟨by decide, isQuiet_written h⟩

theorem flat_lineBreak : Flat ['\n'] := flat_of_isQuiet (by decide)

theorem reads_lines {ds : List Declaration} (h : ∀ d ∈ ds, d.IsPlain) :
    Reads ('\n' :: ds.flatMap Declaration.line) [] ('\n' :: ds.flatMap Declaration.line) := by
  induction ds with
  | nil => exact .text flat_lineBreak
  | cons d ds ih =>
    rw [List.forall_mem_cons] at h
    have hat : isStatementText (['\n', '\t'] ++ (d.written.1 ++ ':' :: d.written.2)) = false := by
      rw [isStatementText, isAtText_blanks_append (by decide),
        Declarations.isAtText_name_append (proper_written h.1).name, Bool.false_and]
    rw [cons_lines]
    exact .semicolon (flat_line h.1) hat (ih h.2)

/-- The lines of declarations declare what is written in them. -/
theorem foldl_addPart_lines {ds : List Declaration} (h : ∀ d ∈ ds, d.IsPlain)
    (acc : Declarations) :
    (Declarations.parts ('\n' :: ds.flatMap Declaration.line)).foldl Declarations.addPart acc =
      (ds.map Declaration.written).foldl (fun ds d => Declarations.insert d.1 d.2 ds) acc := by
  induction ds generalizing acc with
  | nil => rfl
  | cons d ds ih =>
    rw [List.forall_mem_cons] at h
    have hproper := proper_written h.1
    have hvalue : collapse (d.written.2.dropWhile isLayout) = d.written.2 := by
      rw [hproper.dropWhile_isLayout, hproper.collapsed]
    have hgap : (['\n', '\t'] : Text).all isLayout = true := by decide
    have hpart : Declarations.readPart (['\n', '\t'] ++ (d.written.1 ++ ':' :: d.written.2)) =
        .declared d.written.1 d.written.2 := by
      rw [Declarations.readPart_eq_declared (List.all_eq_true.1 hgap) hproper.named hproper.name
        (by rw [hvalue]; exact hproper.valued), hvalue]
    rw [cons_lines, Declarations.parts_semicolon (flat_line h.1).nested, List.foldl_cons,
      Declarations.addPart, hpart, ih h.2]
    rfl

theorem ofBody_cons_lines {r : Rule} (h : r.IsPlain) :
    Declarations.ofBody ('\n' :: r.declarations.flatMap Declaration.line) =
      r.declarations.map Declaration.written := by
  have hsound : Declarations.Sound (r.declarations.map Declaration.written) := by
    refine ⟨?_, List.forall_mem_map.2 fun d hd => proper_written (h.declarations d hd)⟩
    rw [List.map_map]
    exact h.nodup
  rw [Declarations.ofBody, Declarations.addBody, foldl_addPart_lines h.declarations,
    Declarations.foldl_insert hsound.nodup]

/-! ## Heads read back -/

/-- Behind a blank of a tightened text there is a character that is no blank. -/
theorem exists_of_tightenFrom_eq_cons {last c : Char} {gap : Bool} {s t : Text}
    (h : tightenFrom last gap s = c :: t) (hc : isBlank c = true) :
    ∃ d u, t = d :: u ∧ isBlank d = false := by
  induction s generalizing last gap with
  | nil => cases h
  | cons d s ih =>
    rw [tightenFrom] at h
    split at h
    · exact ih h
    rename_i hd
    split at h
    · obtain ⟨-, rfl⟩ := List.cons.inj h
      exact ⟨d, _, rfl, by simpa using hd⟩
    · obtain ⟨rfl, -⟩ := List.cons.inj h
      exact absurd hc hd

/-- A text without lone blanks that stays as it is when it is tightened has no blanks, but perhaps
at its end. -/
theorem isUnbroken_of_tightenFrom {x last : Char} {s t : Text} (hx : isBlank x = false)
    (hlone : hasLoneBlank (x :: s) = false) (hend : ∀ c ∈ s.getLast?, isBlank c = false)
    (h : tightenFrom last false (s ++ t) = s ++ t) : isUnbroken s = true := by
  induction s generalizing x last with
  | nil => rfl
  | cons c s ih =>
    by_cases hc : isBlank c = true
    · obtain ⟨d, u, hbehind, hd⟩ := exists_of_tightenFrom_eq_cons h hc
      cases s with
      | nil =>
        rw [hend c rfl] at hc
        cases hc
      | cons e s =>
        obtain ⟨rfl, -⟩ := List.cons.inj hbehind
        simp [hasLoneBlank, hx, hc, hd] at hlone
    · have hc : isBlank c = false := by simpa using hc
      rw [List.cons_append, tightenFrom, if_neg (by simp [hc]), Bool.false_and, Bool.false_and,
        if_neg Bool.false_ne_true] at h
      refine isUnbroken_cons.2 ⟨hc, ih hc (hasLoneBlank_of_cons hlone) ?_ (List.cons.inj h).2⟩
      intro d hd
      refine hend d ?_
      rw [List.getLast?_cons, hd]
      rfl

theorem tightenFrom_of_isUnbroken {last : Char} {s : Text} (h : isUnbroken s = true) :
    tightenFrom last false s = s := by
  induction s generalizing last with
  | nil => rfl
  | cons c s ih =>
    obtain ⟨hc, hs⟩ := isUnbroken_cons.1 h
    rw [tightenFrom, if_neg (by simp [hc]), Bool.false_and, Bool.false_and,
      if_neg Bool.false_ne_true, ih hs]

/-! ## Rules read back -/

/-- What a rule is read as: a block with a head for it, with its declarations and nothing
inside. -/
inductive IsReadAs (head : Rule → Text) (r : Rule) : Node → Prop
  | leaf {written body : Text} :
      Declarations.ofBody body = r.declarations.map Declaration.written →
      IsReadAs head r (.leaf (head r) written body)

/-- The head of a rule as it is written. -/
def writtenHead (r : Rule) : Text := '.' :: r.selector

/-- The head of a rule as it is read. -/
def readHead (r : Rule) : Text := normalHead (writtenHead r)

theorem gap_append_rules (gap : Text) (r : Rule) (rules : List Rule) :
    gap ++ (r :: rules).flatMap Rule.css =
      (gap ++ '.' :: r.selector) ++ '\x7b' ::
        (('\n' :: r.declarations.flatMap Declaration.line) ++
          '\x7d' :: (['\n'] ++ rules.flatMap Rule.css)) := by
  have hdot : ("." : Text) = ['.'] := rfl
  have hopen : ("\x7b\n" : Text) = ['\x7b', '\n'] := rfl
  have hclose : ("\x7d\n" : Text) = ['\x7d', '\n'] := rfl
  simp [Rule.css, hdot, hopen, hclose]

/-- The text of plain rules is read as these rules, and only blanks are left between them. -/
theorem exists_reads_rules {gap : Text} (hgap : isBlankText gap = true) {rules : List Rule}
    (h : ∀ r ∈ rules, r.IsPlain) :
    ∃ nodes left, Reads (gap ++ rules.flatMap Rule.css) nodes left ∧ isBlankText left = true ∧
      List.Forall₂ (IsReadAs readHead) rules nodes := by
  induction rules generalizing gap with
  | nil =>
    rw [List.flatMap_nil, List.append_nil]
    have hflat : Flat (gap ++ []) := (Flat.blanks_append hgap).2 ⟨rfl, rfl⟩
    rw [List.append_nil] at hflat
    exact ⟨[], gap, .text hflat, hgap, .nil⟩
  | cons r rules ih =>
    rw [List.forall_mem_cons] at h
    obtain ⟨nodes, left, hreads, hleft, hnodes⟩ := @ih ['\n'] (by decide) h.2
    have hdot : isBlank '.' = false := by decide
    have hat : isAtText (gap ++ '.' :: r.selector) = false := by
      rw [isAtText_blanks_append hgap]
      simp [isAtText, hdot]
    have hflat : Flat (gap ++ '.' :: r.selector) :=
      (Flat.blanks_append hgap).2
        (flat_of_isQuiet (isQuiet_append (s := ['.']).2 ⟨by decide, h.1.selector⟩))
    have hhead : isHeadText (gap ++ '.' :: r.selector) = true := by
      rw [isHeadText_iff, withoutBlanks_blanks_append hgap, withoutBlanks_cons hdot]
      simp
    have hlines := reads_lines h.1.declarations
    have hblock := Reads.block hflat hhead hlines hreads
    rw [leadOf, coreOf, hat, if_neg Bool.false_ne_true, if_neg Bool.false_ne_true,
      List.nil_append] at hblock
    refine ⟨_, left, gap_append_rules gap r rules ▸ hblock, hleft, .cons ?_ hnodes⟩
    rw [Node.ofBlock, List.isEmpty_nil, if_pos rfl, normalHead_blanks_append hgap]
    exact .leaf (ofBody_cons_lines h.1)

theorem readHead_eq (r : Rule) : readHead r = '.' :: tightenFrom '.' false r.selector := by
  have hdot : isBlank '.' = false := by decide
  simp [readHead, writtenHead, normalHead_eq_tighten, tightenFrom, hdot]

theorem IsReadAs.priority_eq {r : Rule} {n : Node} (h : IsReadAs readHead r n) :
    n.priority = 0 := by
  cases h with
  | leaf _ =>
    rw [Node.priority, Node.head, readHead_eq]
    rfl

/-- The forest of plain rules: one node for each, in order. -/
theorem ofText_rules {rules : List Rule} (h : ∀ r ∈ rules, r.IsPlain) :
    (Forest.ofText (rules.flatMap Rule.css)).residual = none ∧
      List.Forall₂ (IsReadAs readHead) rules (Forest.ofText (rules.flatMap Rule.css)).nodes := by
  obtain ⟨nodes, left, hreads, hleft, hnodes⟩ := @exists_reads_rules [] rfl rules h
  have hpriority : ∀ n ∈ nodes, n.priority = 0 := by
    intro n hn
    obtain ⟨r, -, hr⟩ := exists_of_forall₂ hnodes.flip hn
    exact hr.priority_eq
  have hsorted : nodes.Pairwise fun a b => a.priority ≤ b.priority := by
    refine List.pairwise_of_forall_mem_list fun a ha b hb => Int.le_of_eq ?_
    rw [hpriority a ha, hpriority b hb]
  rw [List.nil_append] at hreads
  rw [hreads.ofText_eq, Node.sorted_of_pairwise hsorted, unlessBlank, if_pos hleft]
  exact ⟨rfl, hnodes⟩

/-- Rules are read with the heads that are written if and only if these are read as they are. -/
theorem forall₂_isReadAs_iff {rules : List Rule} {nodes : List Node}
    (h : List.Forall₂ (IsReadAs readHead) rules nodes) :
    List.Forall₂ (IsReadAs writtenHead) rules nodes ↔ ∀ r ∈ rules, readHead r = writtenHead r := by
  induction h with
  | nil => exact ⟨fun _ _ hr => absurd hr List.not_mem_nil, fun _ => .nil⟩
  | @cons r n rules nodes hr _ ih =>
    rw [List.forall₂_cons, List.forall_mem_cons, ih]
    refine and_congr_left fun _ => ?_
    cases hr with
    | leaf hbody =>
      constructor
      · intro hwritten
        generalize readHead r = head at hwritten
        cases hwritten
        rfl
      · intro heq
        rw [heq]
        exact .leaf hbody

end Sheet

namespace Matcher

variable {m : Matcher} {names : List Text} {name : ClassName} {f : Family}

/-- A selector of a rule is read as it is written if and only if it has no blanks. -/
theorem readHead_eq_iff (hm : m.IsAssembled) (hnames : ∀ t ∈ names, isUnbroken t = true)
    (h : (name, f) ∈ m.tokenize names) {r : Rule} (hr : m.resolve name f = .emitted r) :
    readHead r = writtenHead r ↔ isUnbroken r.selector = true := by
  obtain ⟨hparts, hyphen, -, joint, -, htext, -⟩ := exists_written_of_mem_tokenize hm h
  obtain ⟨added, hselector, hadded, -⟩ := exists_selector hparts hr
  have hdot : isBlank '.' = false := by decide
  -- The dot before the selector makes no blank of it a lone one: its first character is no blank.
  have hlone : hasLoneBlank ('.' :: name.text) = false := by
    have hbare := hasLoneBlank_text hm hnames h
    have hfirst : ∀ c ∈ name.text.head?, isBlank c = false := htext ▸ head?_trim _
    cases hcase : name.text with
    | nil => rfl
    | cons c text =>
      rw [hcase] at hbare hfirst
      rw [hasLoneBlank_cons_cons (hfirst c rfl), hbare]
  rw [readHead_eq, writtenHead, List.cons.injEq, eq_self, true_and]
  constructor
  · intro hread
    rw [hselector] at hread ⊢
    exact isUnbroken_append.2
      ⟨isUnbroken_of_tightenFrom hdot hlone (htext ▸ getLast?_trim _) hread, hadded⟩
  · exact tightenFrom_of_isUnbroken

end Matcher

namespace Compiler

variable {s : Settings} {documents : List Text} {g : RuleGroups}

/-! ## Compilations read back -/

theorem isPlain_of_mem_group (h : (ofSettings s).compile (Markup.collectAll documents) = .ok g)
    (kind : Option Breakpoint) : ∀ r ∈ g.group kind, r.IsPlain := by
  intro r hr
  obtain ⟨⟨name, f⟩, hreading, hresolve⟩ := Matcher.exists_reading_of_mem_group h hr
  exact Matcher.isPlain_of_mem_tokenize (fun t ht => (Markup.of_mem_collectAll ht).2)
    hreading hresolve

theorem forall₂_writtenHead_iff
    (h : (ofSettings s).compile (Markup.collectAll documents) = .ok g)
    (kind : Option Breakpoint) :
    List.Forall₂ (IsReadAs writtenHead) (g.group kind) (Forest.ofText (g.groupText kind)).nodes ↔
      ∀ r ∈ g.group kind, isUnbroken r.selector = true := by
  rw [RuleGroups.groupText, forall₂_isReadAs_iff (ofText_rules (isPlain_of_mem_group h kind)).2]
  refine forall₂_congr fun r hr => ?_
  obtain ⟨⟨name, f⟩, hreading, hresolve⟩ := Matcher.exists_reading_of_mem_group h hr
  exact Matcher.readHead_eq_iff (Matcher.isAssembled_ofSettings s)
    (fun t ht => (Markup.of_mem_collectAll ht).1) hreading hresolve

theorem isUnbroken_selector (h : (ofSettings s).compile (Markup.collectAll documents) = .ok g)
    {kind : Option Breakpoint} (hkeys : ∀ d ∈ (ofSettings s).classes.classes,
      isUnbroken d.key = true) : ∀ r ∈ g.group kind, isUnbroken r.selector = true := by
  intro r hr
  have hm := Matcher.isAssembled_ofSettings s
  obtain ⟨⟨name, f⟩, hreading, hresolve⟩ := Matcher.exists_reading_of_mem_group h hr
  obtain ⟨hparts, -⟩ := Matcher.exists_written_of_mem_tokenize hm hreading
  obtain ⟨added, hselector, hadded, -⟩ := Matcher.exists_selector hparts hresolve
  rw [hselector]
  exact isUnbroken_append.2 ⟨Matcher.isUnbroken_text hm hkeys hreading, hadded⟩

/-- **A group of compiled rules is read back as its rules,** one block for each and in order, with
the declarations of the rule; nothing is left over. The heads are read as they are written if and
only if no selector has a blank, and none has if no key of a class has. -/
theorem ofText_groupText (h : (ofSettings s).compile (Markup.collectAll documents) = .ok g)
    (kind : Option Breakpoint) :
    (Forest.ofText (g.groupText kind)).residual = none ∧
    List.Forall₂ (IsReadAs readHead) (g.group kind) (Forest.ofText (g.groupText kind)).nodes ∧
    (List.Forall₂ (IsReadAs writtenHead) (g.group kind) (Forest.ofText (g.groupText kind)).nodes ↔
      ∀ r ∈ g.group kind, isUnbroken r.selector = true) ∧
    ((∀ d ∈ (ofSettings s).classes.classes, isUnbroken d.key = true) →
      ∀ r ∈ g.group kind, isUnbroken r.selector = true) := by
  obtain ⟨hresidual, hnodes⟩ := ofText_rules (isPlain_of_mem_group h kind)
  exact ⟨hresidual, hnodes, forall₂_writtenHead_iff h kind, isUnbroken_selector h⟩

/-- A name with all its parts is read back as it is written. -/
theorem ofText_groupText_variant : ∃ g,
    (ofSettings {}).compile (Markup.collectAll ["<p class='md-m-i_hvr-2'>"]) = .ok g ∧
    (g.group (some .md)).map Rule.selector = (["md-m-i_hvr-2:hover"] : List Text) ∧
    List.Forall₂ (IsReadAs writtenHead) (g.group (some .md))
      (Forest.ofText (g.groupText (some .md))).nodes := by
  have hselectors : ((ofSettings {}).compile
      (Markup.collectAll ["<p class='md-m-i_hvr-2'>"])).toOption.any
        (fun g => (g.group (some .md)).map Rule.selector ==
          (["md-m-i_hvr-2:hover"] : List Text)) = true := by
    decide +kernel
  have hkeys : ∀ d ∈ (ofSettings {}).classes.classes, isUnbroken d.key = true := by decide
  cases h : (ofSettings {}).compile (Markup.collectAll ["<p class='md-m-i_hvr-2'>"]) with
  | error e =>
    rw [h] at hselectors
    cases hselectors
  | ok g =>
    rw [h] at hselectors
    obtain ⟨-, -, hwritten, hunbroken⟩ := ofText_groupText h (some .md)
    exact ⟨g, rfl, beq_iff_eq.1 hselectors, hwritten.2 (hunbroken hkeys)⟩

/-- A key with two blanks in it makes one rule of two class names, and its head is read with one
blank. -/
theorem ofText_groupText_fails : ¬ ∀ (s : Settings) (documents : List Text) (g : RuleGroups)
    (kind : Option Breakpoint),
    (ofSettings s).compile (Markup.collectAll documents) = .ok g →
      List.Forall₂ (IsReadAs writtenHead) (g.group kind)
        (Forest.ofText (g.groupText kind)).nodes := by
  intro hall
  have hbroken : ((ofSettings { classes := [("m", { rename := some "a  b" })] }).compile
      (Markup.collectAll ["<p class='a b-2'>"])).toOption.any
        (fun g => (g.group none).any fun r => !isUnbroken r.selector) = true := by
    decide +kernel
  cases h : (ofSettings { classes := [("m", { rename := some "a  b" })] }).compile
      (Markup.collectAll ["<p class='a b-2'>"]) with
  | error e =>
    rw [h] at hbroken
    cases hbroken
  | ok g =>
    rw [h] at hbroken
    obtain ⟨r, hr, hblank⟩ := List.any_eq_true.1 hbroken
    rw [(forall₂_writtenHead_iff h none).1 (hall _ _ g none h) r hr] at hblank
    cases hblank

end Compiler

end UtilitySheet
