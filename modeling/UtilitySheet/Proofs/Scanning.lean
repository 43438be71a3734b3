import Mathlib.Data.List.Basic
import UtilitySheet.Compiler
import UtilitySheet.Proofs.Grammar

/-!
# Class names side by side

The names of a page are read from one text, so a reading could reach from one name into the next.
Where no blank stands in names and keys it does not: a reader sees the text up to the blank and no
further (`Reader.Local`), so a family reads in the joined names what it reads in each alone
(`Pattern.scan_spaced`). Main statement: `Matcher.tokenize_grammar`.
-/

namespace UtilitySheet

open Text

/-! ## Readers up to a blank -/

namespace Text

theorem isUnbroken_of_suffix {s t : Text} (h : s <:+ t) (ht : isUnbroken t = true) :
    isUnbroken s = true :=
  isUnbroken_iff.2 fun c hc => isUnbroken_iff.1 ht c (h.subset hc)

/-- A text without blanks is found in front of a blank or not at all. -/
theorem after?_append_blank {k : Text} {b : Char} {u t : Text} (hb : isBlank b = true)
    (hk : isUnbroken k = true) : after? k (t ++ b :: u) = (after? k t).map (· ++ b :: u) := by
  refine after?_append_cons (fun hmem => ?_) t u
  rw [isUnbroken_iff.1 hk b hmem] at hb
  cases hb

end Text

namespace Reader

variable {α β : Type}

/-- Whether a reader sees a text up to the next blank and no further. -/
def Local (r : Reader α) : Prop := ∀ t b u, isUnbroken t = true → isBlank b = true →
  r (t ++ b :: u) = (r t).map fun (a, rest) => (a, rest ++ b :: u)

theorem local_oneOf {texts : List Text} (htexts : ∀ k ∈ texts, isUnbroken k = true) :
    Local (oneOf texts) := fun t b u _ hb => by
  unfold oneOf
  rw [List.map_filterMap]
  refine List.filterMap_congr fun k hk => ?_
  rw [after?_append_blank hb (htexts k hk)]
  cases after? k t <;> rfl

theorem local_run {p : Char → Bool} (hp : ∀ {c}, isBlank c = true → p c = false) :
    Local (run p) := fun t b u _ hb => by
  unfold run
  rw [Text.takeWhile_append_cons (hp hb), Text.dropWhile_append_cons (hp hb)]
  split <;> rfl

theorem Local.maybe {r : Reader α} (h : Local r) : Local (maybe r) := fun t b u ht hb => by
  simp only [Reader.maybe, h t b u ht hb, List.map_append, List.map_map, List.map_cons,
    List.map_nil]
  rfl

theorem Local.map {r : Reader α} (h : Local r) (f : α → β) :
    Local fun s => (r s).map fun (a, t) => (f a, t) := fun t b u ht hb => by
  simp only [h t b u ht hb, List.map_map]
  rfl

theorem Local.append {r r' : Reader α} (h : Local r) (h' : Local r') :
    Local fun s => r s ++ r' s := fun t b u ht hb => by
  simp only [h t b u ht hb, h' t b u ht hb, List.map_append]

theorem Local.filter {r : Reader α} (h : Local r) (p : α → Bool) :
    Local fun s => (r s).filter fun (a, _) => p a := fun t b u ht hb => by
  simp only [h t b u ht hb, List.filter_map]
  rfl

/-- One reader and then another, which may depend on what the first one read. -/
def bind (r : Reader α) (f : α → Reader β) : Reader β := fun s =>
  (r s).flatMap fun (a, t) => f a t

theorem Local.bind {r : Reader α} {f : α → Reader β} (h : Local r) (hr : Shrinks r)
    (hf : ∀ a, Local (f a)) : Local (r.bind f) := fun t b u ht hb => by
  simp only [Reader.bind, h t b u ht hb, List.flatMap_map, List.map_flatMap]
  refine List.flatMap_congr fun x hx => ?_
  exact hf x.1 x.2 b u (isUnbroken_of_suffix (hr t x.1 x.2 hx) ht) hb

theorem Shrinks.bind {r : Reader α} {f : α → Reader β} (hr : Shrinks r)
    (hf : ∀ a, Shrinks (f a)) : Shrinks (r.bind f) :=
  hr.flatMap hf

/-- Texts that nothing can follow need not be tried. -/
theorem flatMap_oneOf_filter {texts : List Text} {s : Text} {q : Text → Bool}
    {f : Text × Text → List β} (h : ∀ t rest, q t = false → s = t ++ rest → f (t, rest) = []) :
    (oneOf texts s).flatMap f = (oneOf (texts.filter q) s).flatMap f := by
  induction texts with
  | nil => rfl
  | cons t texts ih =>
    simp only [oneOf] at ih ⊢
    rw [List.filterMap_cons, List.filter_cons]
    cases hq : q t with
    | true =>
      rw [if_pos rfl, List.filterMap_cons]
      cases Text.after? t s with
      | none => exact ih
      | some rest => exact congrArg (f (t, rest) ++ ·) ih
    | false =>
      cases hafter : Text.after? t s with
      | none => exact ih
      | some rest =>
        rw [Option.map_some, List.flatMap_cons, h t rest hq (Text.after?_eq_some_iff.1 hafter)]
        exact ih

/-- A blank is found at the end of a text without blanks. -/
theorem blank_append {t : Text} {b : Char} {u : Text} (ht : isUnbroken t = true)
    (hb : isBlank b = true) : blank (t ++ b :: u) = if t.isEmpty then [((), u)] else [] := by
  cases t with
  | nil => simp only [List.nil_append, blank, if_pos hb, List.isEmpty_nil, if_true]
  | cons c t => simp [blank, (isUnbroken_cons.1 ht).1]

end Reader

/-! ## Values -/

theorem shrinks_value (l : ValueLanguage) : Reader.Shrinks l.value := fun _ v _ h =>
  ⟨v, (ValueLanguage.eq_append_of_mem_value h).symm⟩

theorem local_unsignedNumber : Reader.Local unsignedNumber := fun t b u ht hb => by
  have hrun : Reader.Local (Reader.run isDigit) := Reader.local_run not_isDigit_of_isBlank
  simp only [unsignedNumber, hrun t b u ht hb, List.flatMap_map, List.map_flatMap]
  refine List.flatMap_congr fun x hx => ?_
  obtain ⟨digits, rest⟩ := x
  have hrest : isUnbroken rest = true :=
    isUnbroken_of_suffix ⟨digits, (Reader.eq_append_of_mem_run hx).symm⟩ ht
  cases rest with
  | nil =>
    have hline : b ≠ '_' := by
      rintro rfl
      exact absurd hb (by decide)
    simp [hline]
  | cons c rest =>
    by_cases hc : c = '_'
    · subst hc
      simp only [List.cons_append, hrun rest b u (isUnbroken_cons.1 hrest).2 hb, List.map_append,
        List.map_map]
      rfl
    · simp [hc]

theorem local_signedNumber : Reader.Local signedNumber := fun t b u ht hb => by
  by_cases hminus : t.head? = some '-'
  · obtain ⟨t, rfl⟩ : ∃ t', t = '-' :: t' := by
      cases t with
      | nil => cases hminus
      | cons c t => exact ⟨t, by rw [Option.some.inj hminus]⟩
    simp only [List.cons_append, signedNumber,
      local_unsignedNumber t b u (isUnbroken_cons.1 ht).2 hb, List.map_map]
    rfl
  · have hminus' : (t ++ b :: u).head? ≠ some '-' := by
      cases t with
      | nil =>
        rintro h
        rw [Option.some.inj h] at hb
        exact absurd hb (by decide)
      | cons c t => exact hminus
    rw [signedNumber_of_ne hminus, signedNumber_of_ne hminus']
    exact local_unsignedNumber t b u ht hb

namespace ValueLanguage

theorem local_value (f : Family) : Reader.Local f.language.value := by
  have hwords : ∀ f ∈ Family.all, ∀ w ∈ f.language.words, Text.isUnbroken w = true := by
    decide
  have hword := hwords f (Family.mem_all f)
  revert hword
  generalize f.language = l
  intro hword
  cases l with
  | keywords ws => exact Reader.local_oneOf hword
  | identifier => exact Reader.local_run not_isIdentifier_of_isBlank
  | numeric signed =>
    refine Reader.Local.append ?_ (Reader.local_oneOf hword)
    cases signed with
    | false => exact local_unsignedNumber
    | true => exact local_signedNumber
  | color =>
    exact ((Reader.local_run not_isHexDigit_of_isBlank).filter isHexColor).append
      (Reader.local_run not_isLower_of_isBlank)

theorem local_unit (l : ValueLanguage) : Reader.Local l.unit := by
  unfold unit
  split
  · exact (Reader.local_oneOf (by decide)).maybe
  · exact fun t b u _ _ => rfl

theorem shrinks_unit (l : ValueLanguage) : Reader.Shrinks l.unit := fun s u rest h => by
  rw [(mem_unit.1 h).2]
  exact List.suffix_append _ rest

end ValueLanguage

/-! ## Names -/

namespace Pattern

/-- Reads the breakpoint and the key. -/
def front (p : Pattern) : Reader (Option Text × Text) :=
  lead.bind fun breakpoint s => (Reader.oneOf p.keys s).map fun (key, rest) =>
    ((breakpoint, key), rest)

/-- Reads what stands behind the mark of importance, and puts the parts together; the text of the
name is left open. -/
def back (p : Pattern) (breakpoint : Option Text) (key : Text) (important : Bool) :
    Reader ClassName :=
  pseudoClass.bind fun pseudo =>
  (Reader.oneOf ["-"]).bind fun _ =>
  p.family.language.value.bind fun value =>
  fun s => (p.family.language.unit s).map fun (unit, rest) =>
    ({ text := [], breakpoint, key, important, pseudo, value, unit }, rest)

/-- Reads the parts of a name. -/
def parts (p : Pattern) : Reader ClassName :=
  p.front.bind fun (breakpoint, key) => importance.bind (p.back breakpoint key)

/-- The ways to split a name into its parts, the preferred one first. -/
def splits (p : Pattern) (t : Text) : List ClassName :=
  ((p.parts t).filter fun (_, rest) => rest.isEmpty).map fun (name, _) => { name with text := t }

theorem readings_eq_parts (p : Pattern) (s : Text) :
    p.readings s = (p.parts s).flatMap fun (name, rest) => (Reader.blank rest).map fun (_, left) =>
      ({ name with text := trim (s.take (s.length - rest.length)) }, left) := by
  simp only [readings, parts, front, back, Reader.bind, List.flatMap_assoc, List.flatMap_map]

variable {p : Pattern}

theorem local_lead : Reader.Local lead :=
  (Reader.local_oneOf (by decide)).maybe.bind (Reader.shrinks_oneOf _).maybe fun breakpoint =>
    (Reader.local_oneOf (by decide)).maybe.map fun _ => breakpoint

theorem local_importance : Reader.Local importance :=
  (Reader.local_oneOf (by decide)).maybe.map Option.isSome

theorem local_pseudoClass : Reader.Local pseudoClass :=
  ((Reader.local_oneOf (by decide)).bind (Reader.shrinks_oneOf _) fun _ =>
    Reader.local_oneOf (by decide)).maybe

theorem local_front (hkeys : ∀ k ∈ p.keys, isUnbroken k = true) : Reader.Local p.front :=
  local_lead.bind shrinks_lead fun breakpoint =>
    (Reader.local_oneOf hkeys).map fun key => (breakpoint, key)

theorem local_back (breakpoint : Option Text) (key : Text) (important : Bool) :
    Reader.Local (p.back breakpoint key important) :=
  local_pseudoClass.bind shrinks_pseudoClass fun pseudo =>
  (Reader.local_oneOf (by decide)).bind (Reader.shrinks_oneOf _) fun _ =>
  (ValueLanguage.local_value p.family).bind (shrinks_value _) fun value =>
  (ValueLanguage.local_unit _).map fun unit =>
    ClassName.mk [] breakpoint key important pseudo value unit

theorem shrinks_front : Reader.Shrinks p.front :=
  shrinks_lead.bind fun breakpoint => (Reader.shrinks_oneOf _).map fun key => (breakpoint, key)

theorem shrinks_back (breakpoint : Option Text) (key : Text) (important : Bool) :
    Reader.Shrinks (p.back breakpoint key important) :=
  shrinks_pseudoClass.bind fun pseudo =>
  (Reader.shrinks_oneOf _).bind fun _ =>
  (shrinks_value _).bind fun value =>
  (ValueLanguage.shrinks_unit _).map fun unit =>
    ClassName.mk [] breakpoint key important pseudo value unit

theorem local_parts (hkeys : ∀ k ∈ p.keys, isUnbroken k = true) : Reader.Local p.parts :=
  (local_front hkeys).bind shrinks_front fun (breakpoint, key) =>
    local_importance.bind shrinks_importance (local_back breakpoint key)

theorem shrinks_parts : Reader.Shrinks p.parts :=
  shrinks_front.bind fun (breakpoint, key) => shrinks_importance.bind (shrinks_back breakpoint key)

/-- The readings of a name are its splits, whatever stands behind the blank. -/
theorem readings_append (hkeys : ∀ k ∈ p.keys, isUnbroken k = true) {t u : Text}
    (ht : isUnbroken t = true) {b : Char} (hb : isBlank b = true) :
    p.readings (t ++ b :: u) = (p.splits t).map fun name => (name, u) := by
  have hone : ∀ x ∈ p.parts t,
      ((Reader.blank (x.2 ++ b :: u)).map fun (_, left) =>
        ({ x.1 with
          text := trim ((t ++ b :: u).take ((t ++ b :: u).length - (x.2 ++ b :: u).length)) },
          left)) = if x.2.isEmpty then [({ x.1 with text := t }, u)] else [] := by
    intro x hx
    have hrest := isUnbroken_of_suffix (shrinks_parts t x.1 x.2 hx) ht
    rw [Reader.blank_append hrest hb]
    cases hx2 : x.2 with
    | nil =>
      simp only [List.isEmpty_nil, if_true, List.map_cons, List.map_nil, List.nil_append]
      rw [take_written rfl, trim_of_isUnbroken ht]
    | cons c rest => rfl
  rw [readings_eq_parts, local_parts hkeys t b u ht hb, List.flatMap_map, splits, List.map_map]
  rw [List.flatMap_congr hone]
  induction p.parts t with
  | nil => rfl
  | cons x xs ih =>
    rw [List.flatMap_cons, ih, List.filter_cons]
    split <;> simp_all

theorem mem_splits (hkeys : ∀ k ∈ p.keys, isUnbroken k = true) {t : Text}
    (ht : isUnbroken t = true) {name : ClassName} : name ∈ p.splits t ↔ p.Spells name t := by
  have hb : isBlank ' ' = true := by decide
  have h : (name, []) ∈ p.readings (t ++ ' ' :: []) ↔ [] = [] ∧ p.Spells name t :=
    mem_readings_iff hkeys ht hb
  rw [readings_append hkeys ht hb, List.mem_map] at h
  constructor
  · exact fun hname => (h.1 ⟨name, hname, rfl⟩).2
  · intro hname
    obtain ⟨name', hname', heq⟩ := h.2 ⟨rfl, hname⟩
    rwa [(Prod.mk.inj heq).1] at hname'

theorem splits_nil (hkeys : ∀ k ∈ p.keys, isUnbroken k = true) : p.splits [] = [] := by
  refine List.eq_nil_iff_forall_not_mem.2 fun name hname => ?_
  obtain ⟨hyphen, -, joint, -, h⟩ := ((mem_splits hkeys rfl).1 hname).written
  exact written_ne_nil name hyphen joint h.symm

/-! ### One name after another -/

/-- Between two blanks the preferred split is read. -/
theorem read_name (hkeys : ∀ k ∈ p.keys, isUnbroken k = true) {t u : Text}
    (ht : isUnbroken t = true) : p.read (' ' :: (t ++ ' ' :: u)) =
      ((p.splits t).head?).map fun name => (name, t.length + 2) := by
  have hb : isBlank ' ' = true := by decide
  rw [read, if_pos hb, readings_append hkeys ht hb, List.head?_map, Option.map_map]
  refine congrArg (Option.map · _) (funext fun name => ?_)
  simp only [Function.comp, Prod.mk.injEq, true_and, List.length_append, List.length_cons]
  omega

theorem readings_nil (p : Pattern) : p.readings [] = [] := by
  refine List.eq_nil_iff_forall_not_mem.2 fun x hx => ?_
  obtain ⟨-, hyphen, -, joint, -, b, -, h, -⟩ := mem_readings_iff_written.1 hx
  simp at h

/-- Nothing is read from a blank that no name follows. -/
theorem read_blank (hkeys : ∀ k ∈ p.keys, isUnbroken k = true) {u : Text}
    (hu : ∀ c ∈ u.head?, c = ' ') : p.read (' ' :: u) = none := by
  cases u with
  | nil =>
    rw [read, readings_nil]
    rfl
  | cons c u =>
    obtain rfl := hu c rfl
    rw [← List.nil_append (' ' :: u), read_name hkeys rfl, splits_nil hkeys]
    rfl

theorem scan_cons_of_read_eq_none {c : Char} {s : Text} (h : p.read (c :: s) = none) :
    p.scan (c :: s) = p.scan s :=
  allMatches_cons_of_none h

theorem scan_cons_of_read_eq_some {c : Char} {s : Text} {name : ClassName} {n : Nat}
    (h : p.read (c :: s) = some (name, n)) :
    p.scan (c :: s) = name :: p.scan (s.drop (n - 1)) := by
  simp only [scan, allMatches, matchesFrom, h]
  rw [matchesFrom_eq_drop]
  rfl

/-- No name starts inside a text without blanks. -/
theorem scan_append_of_isUnbroken {t s : Text} (ht : isUnbroken t = true) :
    p.scan (t ++ s) = p.scan s := by
  induction t with
  | nil => rfl
  | cons c t ih =>
    obtain ⟨hc, ht⟩ := isUnbroken_cons.1 ht
    rw [List.cons_append, scan_cons_of_read_eq_none (by simp [read, hc]), ih ht]

/-- A name with its two blanks adds its preferred split to what is read behind it. -/
theorem scan_name (hkeys : ∀ k ∈ p.keys, isUnbroken k = true) {t u : Text}
    (ht : isUnbroken t = true) (hu : ∀ c ∈ u.head?, c = ' ') :
    p.scan (' ' :: (t ++ ' ' :: u)) = (p.splits t).head?.toList ++ p.scan u := by
  have hread := read_name (u := u) hkeys ht
  cases hsplit : (p.splits t).head? with
  | none =>
    rw [hsplit] at hread
    rw [scan_cons_of_read_eq_none hread, scan_append_of_isUnbroken ht,
      scan_cons_of_read_eq_none (read_blank hkeys hu)]
    rfl
  | some name =>
    rw [hsplit] at hread
    have hdrop : (t ++ ' ' :: u).drop (t.length + 2 - 1) = u := by simp
    rw [scan_cons_of_read_eq_some hread, hdrop]
    rfl

end Pattern

/-- Joined names are each name between two blanks of its own. -/
theorem spaced_eq_flatMap {names : List Text} (h : names ≠ []) :
    spaced names = names.flatMap fun t => ' ' :: (t ++ [' ']) := by
  have hjoin : ∀ {names : List Text} {t : Text}, [' ', ' '].intercalate (t :: names) ++ [' '] =
      t ++ ' ' :: names.flatMap fun t => ' ' :: (t ++ [' ']) := by
    intro names
    induction names with
    | nil => simp [List.intercalate]
    | cons next names ih =>
      intro t
      rw [List.intercalate_cons_cons, List.append_assoc, List.append_assoc, ih, List.flatMap_cons]
      simp
  obtain ⟨t, names, rfl⟩ := List.exists_cons_of_ne_nil h
  have hspace : (" " : Text) = [' '] := by decide
  rw [spaced, hspace, List.append_assoc, hjoin, List.flatMap_cons]
  simp

namespace Pattern

variable {p : Pattern}

/-- **A family reads in the joined names the preferred split of each.** -/
theorem scan_spaced (hkeys : ∀ k ∈ p.keys, isUnbroken k = true) {names : List Text}
    (hnames : ∀ t ∈ names, isUnbroken t = true) :
    p.scan (spaced names) = names.filterMap fun t => (p.splits t).head? := by
  have hscan : ∀ {names : List Text}, (∀ t ∈ names, isUnbroken t = true) →
      p.scan (names.flatMap fun t => ' ' :: (t ++ [' '])) =
        names.filterMap fun t => (p.splits t).head? := by
    intro names hnames
    induction names with
    | nil => rfl
    | cons t names ih =>
      have hnext : ∀ c ∈ (names.flatMap fun t => ' ' :: (t ++ [' '])).head?, c = ' ' := by
        cases names with
        | nil => exact fun c hc => nomatch hc
        | cons next names => exact fun c hc => (Option.some.inj hc).symm
      rw [List.flatMap_cons, List.cons_append, List.append_assoc, List.singleton_append,
        scan_name hkeys (hnames t List.mem_cons_self) hnext,
        ih fun t ht => hnames t (List.mem_cons_of_mem _ ht), List.filterMap_cons]
      cases (p.splits t).head? <;> rfl
  by_cases hne : names = []
  · have hblanks : spaced [] = ' ' :: ([] ++ [' ']) := by decide
    rw [hne, hblanks, scan_name hkeys rfl (by simp), splits_nil hkeys]
    rfl
  · rw [spaced_eq_flatMap hne, hscan hnames]

/-! ### One name alone -/

/-- The pattern without the keys that have blanks. -/
def bare (p : Pattern) : Pattern := { p with keys := p.keys.filter isUnbroken }

theorem isUnbroken_bare (p : Pattern) : ∀ k ∈ p.bare.keys, isUnbroken k = true :=
  fun _ hk => (List.mem_filter.1 hk).2

/-- A key with a blank would have to take a name to its end, and the name has a value there. -/
theorem readings_bare (p : Pattern) {t : Text} (ht : isUnbroken t = true) :
    p.readings (t ++ [' ']) = p.bare.readings (t ++ [' ']) := by
  refine List.flatMap_congr fun ⟨breakpoint, s⟩ hlead => Reader.flatMap_oneOf_filter ?_
  intro k rest hk hs
  obtain ⟨-, hyphen, -, htext⟩ := mem_lead.1 hlead
  rcases List.eq_nil_or_concat rest with rfl | ⟨rest, c, rfl⟩
  · rfl
  · have hwhole : t ++ [' '] = breakpoint.getD [] ++ (hyphen ++ (k ++ rest)) ++ [c] := by
      rw [htext, hs]
      simp
    rw [(List.append_inj' hwhole rfl).1, isUnbroken_append, isUnbroken_append,
      isUnbroken_append] at ht
    rw [ht.2.2.1] at hk
    cases hk

/-- Between two blanks the preferred split is read; keys with blanks do not count. -/
theorem scan_single (p : Pattern) {t : Text} (ht : isUnbroken t = true) :
    p.scan (spaced [t]) = (p.bare.splits t).head?.toList := by
  have hspaced : spaced [t] = ' ' :: (t ++ ' ' :: []) := by simp [spaced, List.intercalate]
  have hread : p.read (' ' :: (t ++ ' ' :: [])) =
      ((p.bare.splits t).head?).map fun name => (name, t.length + 2) := by
    rw [← read_name p.isUnbroken_bare ht, read, read, readings_bare p ht]
  rw [hspaced]
  cases hsplit : (p.bare.splits t).head? with
  | none =>
    have hnone : p.read [' '] = none := by
      rw [read, readings_nil]
      rfl
    rw [hsplit] at hread
    rw [scan_cons_of_read_eq_none hread, scan_append_of_isUnbroken ht,
      scan_cons_of_read_eq_none hnone]
    rfl
  | some name =>
    rw [hsplit] at hread
    rw [scan_cons_of_read_eq_some hread, List.drop_eq_nil_of_le (by simp)]
    rfl

end Pattern

/-! ## All families -/

/-- The pattern of a family, which reads nothing if the family has no classes. -/
def ClassTable.pattern (t : ClassTable) (f : Family) : Pattern := ⟨f, t.familyKeys f⟩

theorem ClassTable.isUnbroken_keys {t : ClassTable}
    (h : ∀ d ∈ t.classes, isUnbroken d.key = true) (f : Family) :
    ∀ k ∈ (t.pattern f).keys, isUnbroken k = true := by
  intro k hk
  obtain ⟨d, hd, rfl⟩ := List.mem_map.1 hk
  exact h d (List.mem_filter.1 hd).1

theorem ClassTable.filter_patterns (t : ClassTable) (f : Family) :
    t.patterns.filter (·.family == f) = [t.pattern f].filter (!·.keys.isEmpty) := by
  have hall : (Family.all.map t.pattern).filter (·.family == f) = [t.pattern f] := by
    rw [List.filter_map]
    have hone : ∀ f ∈ Family.all, Family.all.filter (· == f) = [f] := by decide
    exact congrArg (List.map t.pattern) (hone f (Family.mem_all f))
  rw [← hall]
  exact List.filter_comm ..

namespace Matcher

/-- Whether the patterns are those of the class table, as they are in every compiler. -/
def IsAssembled (m : Matcher) : Prop := m.patterns = m.classes.patterns

theorem isAssembled_finish (d : CompilerDraft) : d.finish.IsAssembled := rfl

theorem isAssembled_ofSettings (s : Settings) : (Compiler.ofSettings s).IsAssembled :=
  isAssembled_finish _

variable {m : Matcher}

/-- What a family reads is what its patterns read. -/
theorem filter_tokenize_eq (m : Matcher) (names : List Text) (f : Family) :
    (m.tokenize names).filter (·.2 == f) = (m.patterns.filter (·.family == f)).flatMap fun p =>
      (p.scan (spaced names)).map (·, p.family) := by
  rw [tokenize]
  induction m.patterns with
  | nil => rfl
  | cons p ps ih =>
    rw [List.flatMap_cons, List.filter_append, ih, List.filter_map, List.filter_cons]
    by_cases hp : p.family = f
    · simp [Function.comp_def, hp]
    · simp [Function.comp_def, hp]

/-- What a family reads is what its pattern reads, also if it has no classes. -/
theorem filter_tokenize_eq_scan (hm : m.IsAssembled) (names : List Text) (f : Family) :
    (m.tokenize names).filter (·.2 == f) =
      ((m.classes.pattern f).scan (spaced names)).map (·, f) := by
  rw [filter_tokenize_eq, hm, ClassTable.filter_patterns]
  by_cases hnone : (m.classes.pattern f).keys.isEmpty
  · have hscan : (m.classes.pattern f).scan (spaced names) = [] := by
      refine List.eq_nil_iff_forall_not_mem.2 fun name hname => ?_
      have hkey := (Pattern.mem_scan hname).1
      rw [List.isEmpty_iff.1 hnone] at hkey
      cases hkey
    simp [hnone, hscan]
  · simp only [hnone, List.filter_cons, List.filter_nil, Bool.not_false, if_true,
      List.flatMap_cons, List.flatMap_nil, List.append_nil]
    rfl

/-- If one family reads one name and the others nothing, that is all that is read. -/
theorem tokenize_eq_singleton {names : List Text} {x : ClassName × Family}
    (h : ∀ g : Family, (m.tokenize names).filter (·.2 == g) = if g = x.2 then [x] else []) :
    m.tokenize names = [x] := by
  have hall : ∀ y ∈ m.tokenize names, (y.2 == x.2) = true := by
    intro y hy
    have hmem : y ∈ (m.tokenize names).filter (·.2 == y.2) :=
      List.mem_filter.2 ⟨hy, beq_self_eq_true y.2⟩
    rw [h] at hmem
    split at hmem
    · rename_i hfamily
      exact beq_iff_eq.2 hfamily
    · cases hmem
  rw [← List.filter_eq_self.2 hall, h, if_pos rfl]

/-- A family reads of the names the preferred split of each. -/
theorem filter_tokenize (hm : m.IsAssembled)
    (hkeys : ∀ d ∈ m.classes.classes, isUnbroken d.key = true) {names : List Text}
    (hnames : ∀ t ∈ names, isUnbroken t = true) (f : Family) :
    (m.tokenize names).filter (·.2 == f) =
      (names.filterMap fun t => ((m.classes.pattern f).splits t).head?).map (·, f) := by
  rw [filter_tokenize_eq_scan hm, Pattern.scan_spaced (ClassTable.isUnbroken_keys hkeys f) hnames]

/-- What a family reads in one name. -/
theorem mem_tokenize_single (hm : m.IsAssembled) {t : Text} (ht : isUnbroken t = true)
    {name : ClassName} {f : Family} :
    (name, f) ∈ m.tokenize [t] ↔ ((m.classes.pattern f).bare.splits t).head? = some name := by
  have h := congrArg ((name, f) ∈ ·) (filter_tokenize_eq_scan hm [t] f)
  rw [Pattern.scan_single _ ht] at h
  simpa [List.mem_filter] using h

/-- **The grammar of class names.** A family reads in a list of names what it reads in each name
alone. In one name it reads at most one, it reads one exactly if the name has a spelling in the
family, and what it reads is such a spelling. -/
theorem tokenize_grammar (hm : m.IsAssembled)
    (hkeys : ∀ d ∈ m.classes.classes, isUnbroken d.key = true) {names : List Text}
    (hnames : ∀ t ∈ names, isUnbroken t = true) (f : Family) :
    (m.tokenize names).filter (·.2 == f) =
        names.flatMap (fun t => (m.tokenize [t]).filter (·.2 == f)) ∧
      ∀ t ∈ names, ((m.tokenize [t]).filter (·.2 == f)).length ≤ 1 ∧
        ((∃ name, (name, f) ∈ m.tokenize [t]) ↔ ∃ name, (m.classes.pattern f).Spells name t) ∧
        ∀ name, (name, f) ∈ m.tokenize [t] → (m.classes.pattern f).Spells name t := by
  have hpattern := ClassTable.isUnbroken_keys hkeys f
  have hsingle : ∀ t ∈ names, (m.tokenize [t]).filter (·.2 == f) =
      ((m.classes.pattern f).splits t).head?.toList.map (·, f) := by
    intro t ht
    rw [filter_tokenize hm hkeys (by simpa using hnames t ht), List.filterMap_cons]
    cases ((m.classes.pattern f).splits t).head? <;> rfl
  have hmem : ∀ t ∈ names, ∀ name, (name, f) ∈ m.tokenize [t] ↔
      ((m.classes.pattern f).splits t).head? = some name := by
    intro t ht name
    have h := congrArg ((name, f) ∈ ·) (hsingle t ht)
    simpa [List.mem_filter] using h
  refine ⟨?_, fun t ht => ⟨?_, ?_, ?_⟩⟩
  · rw [filter_tokenize hm hkeys hnames, List.flatMap_congr hsingle]
    simp only [List.filterMap_eq_flatMap_toList, List.map_flatMap]
  · rw [hsingle t ht]
    cases ((m.classes.pattern f).splits t).head? <;> simp
  · simp only [hmem t ht, ← Pattern.mem_splits hpattern (hnames t ht)]
    cases (m.classes.pattern f).splits t <;> simp
  · intro name hname
    exact (Pattern.mem_splits hpattern (hnames t ht)).1
      (List.mem_of_mem_head? ((hmem t ht name).1 hname))

/-- A breakpoint that a longer one starts with, beside a name that starts with the missing letter. -/
theorem tokenize_grammar_neighbours :
    (Compiler.ofSettings {}).IsAssembled ∧
    (∀ d ∈ (Compiler.ofSettings {}).classes.classes, isUnbroken d.key = true) ∧
    (∀ t ∈ (["mdl-4", "p-1"] : List Text), isUnbroken t = true) ∧
    ((Compiler.ofSettings {}).tokenize ["mdl-4", "p-1"]).filter (·.2 == .offset) =
      (["mdl-4", "p-1"] : List Text).flatMap (fun t =>
        ((Compiler.ofSettings {}).tokenize [t]).filter (·.2 == .offset)) ∧
    ∃ name, (name, .offset) ∈ (Compiler.ofSettings {}).tokenize ["mdl-4"] := by
  have hkeys : ∀ d ∈ (Compiler.ofSettings {}).classes.classes, isUnbroken d.key = true := by
    decide
  have hnames : ∀ t ∈ (["mdl-4", "p-1"] : List Text), isUnbroken t = true := by decide
  obtain ⟨hjoined, hsingle⟩ := tokenize_grammar (isAssembled_ofSettings {}) hkeys hnames .offset
  refine ⟨rfl, hkeys, hnames, hjoined, ((hsingle _ List.mem_cons_self).2.1).2 ?_⟩
  have hdigit : ("4" : Text).all isDigit = true := by decide
  have hvalue : Family.offset.language.Accepts "4" :=
    .unsigned (.whole ⟨by decide, List.all_eq_true.1 hdigit⟩)
  exact ⟨⟨"mdl-4", some "md", "l", false, none, "4", none⟩,
    ⟨by decide, by decide, by decide, hvalue, by decide⟩, rfl, [], by decide, ['_'],
    by decide, by decide⟩

end Matcher

end UtilitySheet
