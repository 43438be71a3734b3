import Mathlib.Algebra.GroupWithZero.Nat
import Mathlib.Data.List.Infix
import Mathlib.Data.List.Perm.Subperm
import UtilitySheet.Compiler
import UtilitySheet.Markup
import UtilitySheet.Template
import UtilitySheet.Proofs.Grammar

/-!
# Templates filled in at once

Groups are filled into a template one after the other: each takes the first placeholder of its name
in what the groups before it have left, and the placeholders that remain at the end are removed from
the whole text. This is the same as filling the template in one pass (`fillOnce`) as long as no
group brings a placeholder with it and the placeholders of the template stand apart
(`clear_foldl_fill`): no placeholder reaches over a character that stands in none (`Border`), so a
text that has been placed is passed over by the groups behind it. Conversely, a placeholder in the
text of a group costs the result hyphens, because in the end it is filled or removed
(`isFree_of_render`). Main statement: `render_eq_renderOnce`.
-/

namespace UtilitySheet

namespace Template

open Text

/-! ## Placeholders -/

/-- A name that may stand in a placeholder. -/
def IsName (name : Text) : Prop := name ≠ [] ∧ ∀ c ∈ name, isWord c = true

theorem IsName.of_all {name : Text} (h : (!name.isEmpty && name.all isWord) = true) :
    IsName name := by
  rw [Bool.and_eq_true, List.all_eq_true] at h
  exact ⟨by simpa using h.1, h.2⟩

theorem not_isWord_hyphen : isWord '-' = false := by decide

theorem placeholderAt?_placeholder {name : Text} (h : IsName name) (rest : Text) :
    placeholderAt? (placeholder name ++ rest) = some (name, name.length + 6) := by
  have hmark : after? mark (placeholder name ++ rest) = some (name ++ (mark ++ rest)) :=
    after?_eq_some_iff.2 (by simp [placeholder])
  obtain ⟨htake, hdrop⟩ := takeWhile_append_stop (t := mark ++ rest) h.2
    (by simp [mark, not_isWord_hyphen])
  have hrest : after? mark (mark ++ rest) = some rest := after?_eq_some_iff.2 rfl
  have hname : name.isEmpty = false := by simpa using h.1
  simp [placeholderAt?, hmark, htake, hdrop, hname, hrest]

theorem placeholderAt?_eq_some_iff {s name : Text} {n : Nat} :
    placeholderAt? s = some (name, n) ↔
      IsName name ∧ n = name.length + 6 ∧ placeholder name <+: s := by
  constructor
  · intro h
    unfold placeholderAt? at h
    split at h
    · cases h
    rename_i t ht
    simp only at h
    split at h
    · cases h
    rename_i hname
    obtain ⟨rest, hrest, heq⟩ := Option.map_eq_some_iff.1 h
    obtain ⟨rfl, rfl⟩ := Prod.mk.inj heq
    refine ⟨⟨by simpa using hname, List.all_eq_true.1 List.all_takeWhile⟩, rfl, rest, ?_⟩
    rw [after?_eq_some_iff.1 ht, placeholder, List.append_assoc, List.append_assoc,
      ← after?_eq_some_iff.1 hrest, List.takeWhile_append_dropWhile]
  · rintro ⟨hname, rfl, rest, rfl⟩
    exact placeholderAt?_placeholder hname rest

theorem length_placeholder (name : Text) : (placeholder name).length = name.length + 6 := by
  simp [placeholder, mark]

theorem placeholder_ne_nil (name : Text) : placeholder name ≠ [] := by simp [placeholder, mark]

theorem count_placeholder {name : Text} (h : IsName name) : (placeholder name).count '-' = 6 := by
  have hname : name.count '-' = 0 := by
    refine List.count_eq_zero.2 fun hmem => ?_
    have hword := h.2 _ hmem
    rw [not_isWord_hyphen] at hword
    cases hword
  simp [placeholder, mark, hname]

/-- No placeholder stands within another. -/
theorem eq_of_infix_placeholder {name other : Text} (hname : IsName name) (hother : IsName other)
    (h : placeholder other <:+: placeholder name) : other = name := by
  obtain ⟨x, y, heq⟩ := h
  have hcount := congrArg (List.count '-') heq
  rw [List.count_append, List.count_append, count_placeholder hname, count_placeholder hother]
    at hcount
  -- All hyphens are in the inner one, and the outer one starts and ends with a hyphen.
  have hx : '-' ∉ x := List.count_eq_zero.1 (by omega)
  have hy : '-' ∉ y := List.count_eq_zero.1 (by omega)
  obtain rfl : x = [] := by
    cases x with
    | nil => rfl
    | cons c x =>
      have hhead : some c = some '-' := congrArg List.head? heq
      simp [Option.some.inj hhead] at hx
  obtain rfl : y = [] := by
    rcases List.eq_nil_or_concat y with rfl | ⟨y, c, rfl⟩
    · rfl
    · have hlast := congrArg List.getLast? heq
      rw [List.concat_eq_append, ← List.append_assoc, List.getLast?_concat, placeholder,
        List.getLast?_append] at hlast
      change some c = some '-' at hlast
      simp [Option.some.inj hlast] at hy
  simpa [placeholder] using heq

/-! ## Where placeholders cannot reach -/

/-- Whether a character stands in no placeholder. -/
def isEdge (c : Char) : Bool := !isWord c && c != '-'

/-- Whether a text is empty or starts with a character that stands in no placeholder. -/
def startsApart (s : Text) : Bool := s.head?.all isEdge

/-- Whether a text is empty or ends with a character that stands in no placeholder. -/
def endsApart (s : Text) : Bool := s.getLast?.all isEdge

/-- Whether no placeholder can reach from a text into the next one. -/
def Border (w v : Text) : Prop := endsApart w = true ∨ startsApart v = true

theorem isEdge_of_mem_placeholder {name : Text} (h : IsName name) {c : Char}
    (hc : c ∈ placeholder name) : isEdge c = false := by
  simp only [placeholder, List.mem_append] at hc
  rcases hc with (hc | hc) | hc
  · have : c = '-' := by simpa [mark] using hc
    simp [isEdge, this]
  · simp [isEdge, h.2 c hc]
  · have : c = '-' := by simpa [mark] using hc
    simp [isEdge, this]

theorem endsApart_append {x w : Text} : endsApart (x ++ w) = true → endsApart w = true := by
  rcases List.eq_nil_or_concat w with rfl | ⟨w, c, rfl⟩
  · exact fun _ => rfl
  · simp [endsApart]

theorem endsApart_append_of_ne {x w : Text} (hw : w ≠ []) : endsApart (x ++ w) = endsApart w := by
  obtain ⟨w, c, rfl⟩ := (List.eq_nil_or_concat w).resolve_left hw
  simp [endsApart]

theorem Border.of_append {x w v : Text} (h : Border (x ++ w) v) : Border w v :=
  h.imp_left endsApart_append

/-- A placeholder at the front of a text does not reach over a border. -/
theorem Border.starts_append {w v name : Text} (h : Border w v) (hw : w ≠ [])
    (hname : IsName name) : placeholder name <+: w ++ v ↔ placeholder name <+: w := by
  refine ⟨fun hprefix => ?_, fun hprefix => hprefix.trans (List.prefix_append w v)⟩
  rcases List.prefix_or_prefix_of_prefix hprefix (List.prefix_append w v) with hin | ⟨z, hz⟩
  · exact hin
  cases z with
  | nil => exact ⟨[], by simpa using hz.symm⟩
  | cons c z =>
    rcases h with hends | hstarts
    · obtain ⟨w, d, rfl⟩ := (List.eq_nil_or_concat w).resolve_left hw
      have hd : isEdge d = false := isEdge_of_mem_placeholder hname (hz ▸ by simp)
      simp [endsApart, hd] at hends
    · have hc : isEdge c = false := isEdge_of_mem_placeholder hname (hz ▸ by simp)
      obtain ⟨t, ht⟩ := hprefix
      rw [← hz, List.append_assoc, List.append_cancel_left_eq] at ht
      simp [startsApart, ← ht, hc] at hstarts

theorem Border.placeholderAt?_append {w v : Text} (h : Border w v) (hw : w ≠ []) :
    placeholderAt? (w ++ v) = placeholderAt? w := by
  refine Option.ext fun ⟨name, n⟩ => ?_
  simp only [placeholderAt?_eq_some_iff]
  exact and_congr_right fun hname => and_congr_right fun _ => h.starts_append hw hname

/-! ## Pieces of a template -/

/-- A piece of a template: a character that is kept, or a placeholder with its name. -/
inductive Piece where
  | char (c : Char)
  | slot (name : Text)

/-- The pieces of a text; the first `skip` characters belong to the placeholder before. -/
def piecesFrom : (skip : Nat) → Text → List Piece
  | _, [] => []
  | skip + 1, _ :: s => piecesFrom skip s
  | 0, c :: s =>
    match placeholderAt? (c :: s) with
    | some (name, n) => .slot name :: piecesFrom (n - 1) s
    | none => .char c :: piecesFrom 0 s

/-- The pieces of a text that is scanned once, from left to right. -/
def pieces (s : Text) : List Piece := piecesFrom 0 s

/-- The name of a placeholder. -/
def Piece.name? : Piece → Option Text
  | char _ => none
  | slot name => some name

/-- The pieces as text where each placeholder takes the text of the first group of its name that has
not been placed yet, and goes if there is none. -/
def fillOnce : (groups : List (Text × Text)) → List Piece → Text
  | _, [] => []
  | groups, .char c :: ps => c :: fillOnce groups ps
  | groups, .slot name :: ps =>
    ((groups.find? (·.1 == name)).map (·.2)).getD [] ++
      fillOnce (groups.eraseP (·.1 == name)) ps

theorem piecesFrom_eq_drop (skip : Nat) (s : Text) : piecesFrom skip s = pieces (s.drop skip) := by
  induction s generalizing skip with
  | nil => cases skip <;> simp [pieces, piecesFrom]
  | cons c s ih =>
    cases skip with
    | zero => rfl
    | succ skip => simpa [piecesFrom] using ih skip

theorem pieces_of_none {c : Char} {s : Text} (h : placeholderAt? (c :: s) = none) :
    pieces (c :: s) = .char c :: pieces s := by
  simp [pieces, piecesFrom, h]

theorem drop_placeholder (name s : Text) :
    ∃ c t, placeholder name ++ s = c :: t ∧ t.drop (name.length + 6 - 1) = s := by
  refine ⟨'-', ['-', '-'] ++ name ++ mark ++ s, by simp [placeholder, mark], ?_⟩
  exact List.drop_left' (by simp [mark])

theorem pieces_placeholder {name : Text} (hname : IsName name) (s : Text) :
    pieces (placeholder name ++ s) = .slot name :: pieces s := by
  have hread := placeholderAt?_placeholder hname s
  obtain ⟨c, t, heq, hdrop⟩ := drop_placeholder name s
  rw [heq] at hread ⊢
  simp only [pieces, piecesFrom, hread]
  rw [piecesFrom_eq_drop, hdrop, pieces]

/-- What holds of a text from its pieces on. -/
@[elab_as_elim]
theorem pieces_induction {motive : Text → Prop} (nil : motive [])
    (char : ∀ c s, placeholderAt? (c :: s) = none → motive s → motive (c :: s))
    (slot : ∀ name s, IsName name → motive s → motive (placeholder name ++ s)) (s : Text) :
    motive s := by
  cases s with
  | nil => exact nil
  | cons c s =>
    cases h : placeholderAt? (c :: s) with
    | none => exact char c s h (pieces_induction nil char slot s)
    | some found =>
      obtain ⟨name, n⟩ := found
      obtain ⟨hname, -, t, ht⟩ := placeholderAt?_eq_some_iff.1 h
      have hlength : t.length < (c :: s).length := by
        rw [← ht, List.length_append, length_placeholder]
        omega
      exact ht ▸ slot name t hname (pieces_induction nil char slot t)
termination_by s.length
decreasing_by
  · exact Nat.lt_succ_self _
  · exact hlength

theorem Border.pieces_append {w v : Text} (h : Border w v) :
    pieces (w ++ v) = pieces w ++ pieces v := by
  induction w using pieces_induction with
  | nil => rfl
  | char c w hnone ih =>
    have hnone' : placeholderAt? (c :: (w ++ v)) = none :=
      (h.placeholderAt?_append (by simp)).trans hnone
    rw [List.cons_append, pieces_of_none hnone', pieces_of_none hnone,
      ih (h.of_append (x := [c])), List.cons_append]
  | slot name w hname ih =>
    rw [List.append_assoc, pieces_placeholder hname, pieces_placeholder hname, ih h.of_append,
      List.cons_append]

/-- The names that the reader of placeholders finds are those of the pieces. -/
theorem placeholders_eq (s : Text) : placeholders ⟨s⟩ = (pieces s).filterMap Piece.name? := by
  induction s using pieces_induction with
  | nil => rfl
  | char c s hnone ih =>
    rw [pieces_of_none hnone, List.filterMap_cons_none rfl, ← ih]
    exact allMatches_cons_of_none hnone
  | slot name s hname ih =>
    rw [pieces_placeholder hname, List.filterMap_cons_some (f := Piece.name?) rfl, ← ih]
    have hlength : name.length + 6 = (placeholder name).length := by simp [placeholder, mark]
    exact allMatches_append_of_some (by simp [placeholder, mark])
      (hlength ▸ placeholderAt?_placeholder hname s)

theorem clearFrom_eq (acc : Text) (skip : Nat) (s : Text) :
    clearFrom acc skip s = acc.reverse ++ fillOnce [] (piecesFrom skip s) := by
  fun_induction clearFrom acc skip s with
  | case1 acc skip => simp [piecesFrom, fillOnce]
  | case2 acc skip c s ih => rw [ih, piecesFrom]
  | case3 acc c s name n hsome ih => simp [ih, piecesFrom, hsome, fillOnce]
  | case4 acc c s hnone ih => simp [ih, piecesFrom, hnone, fillOnce]

/-- To clear a text is to fill it with no group at all. -/
theorem clear_eq (s : Text) : clear s = fillOnce [] (pieces s) := clearFrom_eq [] 0 s

/-! ## Free texts -/

/-- Whether no placeholder stands in a text. -/
def isFree (s : Text) : Bool := (placeholders ⟨s⟩).isEmpty

theorem isFree_cons {c : Char} {s : Text} :
    isFree (c :: s) = true ↔ placeholderAt? (c :: s) = none ∧ isFree s = true := by
  simp only [isFree, placeholders, allMatches, matchesFrom]
  cases placeholderAt? (c :: s) with
  | none => simp
  | some p => simp

theorem isFree_of_append {x s : Text} (h : isFree (x ++ s) = true) : isFree s = true := by
  induction x with
  | nil => exact h
  | cons c x ih => exact ih (isFree_cons.1 h).2

theorem not_infix_of_isFree {s name : Text} (hname : IsName name) (h : isFree s = true) :
    ¬ placeholder name <:+: s := by
  rintro ⟨x, y, rfl⟩
  rw [List.append_assoc] at h
  have hfree := isFree_of_append h
  rw [isFree, placeholders_eq, pieces_placeholder hname] at hfree
  cases hfree

theorem pieces_of_isFree {s : Text} (h : isFree s = true) : pieces s = s.map .char := by
  induction s with
  | nil => rfl
  | cons c s ih =>
    obtain ⟨hnone, hs⟩ := isFree_cons.1 h
    rw [pieces_of_none hnone, ih hs, List.map_cons]

theorem fillOnce_append_chars (groups : List (Text × Text)) (w : Text) (ps : List Piece) :
    fillOnce groups (w.map .char ++ ps) = w ++ fillOnce groups ps := by
  induction w with
  | nil => rfl
  | cons c w ih => rw [List.map_cons, List.cons_append, fillOnce, ih, List.cons_append]

/-- A free text is passed over up to a border. -/
theorem Border.fillOnce_append {w v : Text} (h : Border w v) (hw : isFree w = true)
    (groups : List (Text × Text)) :
    fillOnce groups (pieces (w ++ v)) = w ++ fillOnce groups (pieces v) := by
  rw [h.pieces_append, pieces_of_isFree hw, fillOnce_append_chars]

/-! ## One group after the other -/

theorem fill_cons_of_starts {c : Char} {s : Text} {group : Text × Text}
    (h : placeholder group.1 <+: c :: s) :
    ∃ rest, c :: s = placeholder group.1 ++ rest ∧ fill (c :: s) group = group.2 ++ rest := by
  obtain ⟨rest, hrest⟩ := h
  refine ⟨rest, hrest.symm, ?_⟩
  rw [fill, replaceFirst, after?_eq_some_iff.2 hrest.symm]

theorem fill_cons_of_not_starts {c : Char} {s : Text} {group : Text × Text}
    (h : ¬ placeholder group.1 <+: c :: s) : fill (c :: s) group = c :: fill s group := by
  rw [fill, replaceFirst]
  split
  · rename_i rest hrest
    exact absurd ⟨rest, (after?_eq_some_iff.1 hrest).symm⟩ h
  · rfl

theorem fill_placeholder (group : Text × Text) (s : Text) :
    fill (placeholder group.1 ++ s) group = group.2 ++ s := by
  obtain ⟨c, t, heq, -⟩ := drop_placeholder group.1 s
  have hstarts : placeholder group.1 <+: c :: t := ⟨s, heq⟩
  obtain ⟨rest, hrest, hfill⟩ := fill_cons_of_starts hstarts
  rw [heq, hfill, List.append_cancel_left (heq.trans hrest)]

/-- A group is placed in the text before a border if its placeholder stands there. -/
theorem Border.fill_append {w v : Text} (h : Border w v) {group : Text × Text}
    (hgroup : IsName group.1) :
    fill (w ++ v) group =
      if placeholder group.1 <:+: w then fill w group ++ v else w ++ fill v group := by
  induction w with
  | nil =>
    rw [if_neg fun hinfix => placeholder_ne_nil group.1 (List.infix_nil.1 hinfix)]
    rfl
  | cons c w ih =>
    by_cases hprefix : placeholder group.1 <+: c :: w
    · obtain ⟨rest, hrest, hfill⟩ := fill_cons_of_starts hprefix
      rw [if_pos hprefix.isInfix, hfill, hrest, List.append_assoc, fill_placeholder,
        List.append_assoc]
    · have hprefix' : ¬ placeholder group.1 <+: c :: (w ++ v) :=
        mt (h.starts_append (by simp) hgroup).1 hprefix
      rw [List.cons_append, fill_cons_of_not_starts hprefix', ih (h.of_append (x := [c])),
        fill_cons_of_not_starts hprefix]
      simp only [List.infix_cons_iff, hprefix, false_or]
      split <;> rfl

theorem fill_of_not_infix {s : Text} {group : Text × Text} (hgroup : IsName group.1)
    (h : ¬ placeholder group.1 <:+: s) : fill s group = s := by
  have hborder : Border s [] := .inr rfl
  have happend := hborder.fill_append hgroup
  have hnil : fill [] group = [] := rfl
  rwa [if_neg h, List.append_nil, hnil, List.append_nil] at happend

theorem startsApart_fill {s : Text} (hs : startsApart s = true) {group : Text × Text}
    (hgroup : IsName group.1) : startsApart (fill s group) = true := by
  cases s with
  | nil => rfl
  | cons c s =>
    have hc : isEdge c = true := by simpa [startsApart] using hs
    rw [fill_cons_of_not_starts]
    · exact hs
    · rintro ⟨rest, hrest⟩
      have hedge := isEdge_of_mem_placeholder hgroup (c := c) ?_
      · rw [hc] at hedge
        cases hedge
      · have hhead := congrArg List.head? hrest
        simp [placeholder, mark] at hhead
        simp [placeholder, mark, ← hhead]

theorem endsApart_fill {s : Text} (hs : endsApart s = true) {group : Text × Text}
    (hgroup : IsName group.1) : endsApart (fill s group) = true := by
  rcases List.eq_nil_or_concat s with rfl | ⟨s, c, rfl⟩
  · rfl
  · have hc : startsApart [c] = true := by simpa [startsApart, endsApart] using hs
    have hborder : Border s [c] := .inr hc
    have hnot : ¬ placeholder group.1 <:+: [c] := fun h => by
      have := h.length_le
      rw [length_placeholder] at this
      simp at this
    rw [List.concat_eq_append, hborder.fill_append hgroup, fill_of_not_infix hgroup hnot]
    split
    · rw [endsApart_append_of_ne (by simp)]
      simpa [endsApart, startsApart] using hc
    · simpa [endsApart, startsApart] using hc

theorem Border.fill_right {w v : Text} (h : Border w v) {group : Text × Text}
    (hgroup : IsName group.1) : Border w (fill v group) :=
  h.imp_right fun hv => startsApart_fill hv hgroup

/-- What holds none of the placeholders is passed over by all groups, up to a border. -/
theorem Border.foldl_fill_append {w v : Text} (h : Border w v) {groups : List (Text × Text)}
    (hnames : ∀ g ∈ groups, IsName g.1) (hw : ∀ g ∈ groups, ¬ placeholder g.1 <:+: w) :
    groups.foldl fill (w ++ v) = w ++ groups.foldl fill v := by
  induction groups generalizing v with
  | nil => rfl
  | cons g groups ih =>
    obtain ⟨hg, hnames⟩ := List.forall_mem_cons.1 hnames
    obtain ⟨hgw, hw⟩ := List.forall_mem_cons.1 hw
    rw [List.foldl_cons, h.fill_append hg, if_neg hgw, ih (h.fill_right hg) hnames hw,
      List.foldl_cons]

theorem foldl_fill_of_isFree {w : Text} (hw : isFree w = true) {groups : List (Text × Text)}
    (hnames : ∀ g ∈ groups, IsName g.1) : groups.foldl fill w = w := by
  induction groups with
  | nil => rfl
  | cons g groups ih =>
    obtain ⟨hg, hnames⟩ := List.forall_mem_cons.1 hnames
    rw [List.foldl_cons, fill_of_not_infix hg (not_infix_of_isFree hg hw), ih hnames]

theorem startsApart_foldl_fill {s : Text} (hs : startsApart s = true) {groups : List (Text × Text)}
    (hnames : ∀ g ∈ groups, IsName g.1) : startsApart (groups.foldl fill s) = true := by
  induction groups generalizing s with
  | nil => exact hs
  | cons g groups ih =>
    obtain ⟨hg, hnames⟩ := List.forall_mem_cons.1 hnames
    exact ih (startsApart_fill hs hg) hnames

/-! ## Templates whose placeholders stand apart -/

/-- A text whose placeholders have neither a word character nor a hyphen beside them. -/
inductive IsApart : Text → Prop
  | free {w : Text} : isFree w = true → IsApart w
  | slot {w name v : Text} : isFree w = true → endsApart w = true → IsName name →
      startsApart v = true → IsApart v → IsApart (w ++ (placeholder name ++ v))

theorem placeholders_free {w : Text} (h : isFree w = true) : placeholders ⟨w⟩ = [] :=
  List.isEmpty_iff.1 h

theorem Border.placeholders_append {w v : Text} (h : Border w v) :
    placeholders ⟨w ++ v⟩ = placeholders ⟨w⟩ ++ placeholders ⟨v⟩ := by
  simp only [placeholders_eq, h.pieces_append, List.filterMap_append]

theorem placeholders_placeholder {name : Text} (hname : IsName name) (v : Text) :
    placeholders ⟨placeholder name ++ v⟩ = name :: placeholders ⟨v⟩ := by
  rw [placeholders_eq, pieces_placeholder hname, List.filterMap_cons_some (f := Piece.name?) rfl,
    ← placeholders_eq]

/-- The first group of its name is taken out. -/
theorem eraseP_of_first {g : Text × Text} {before behind : List (Text × Text)}
    (hbefore : ∀ h ∈ before, (!h.1 == g.1) = true) :
    (before ++ g :: behind).eraseP (·.1 == g.1) = before ++ behind := by
  rw [List.eraseP_append_right _ fun h hh => by simpa using hbefore h hh,
    List.eraseP_cons_of_pos (by simp)]

/-- Groups of other names pass over a placeholder. -/
theorem foldl_fill_pass {name v : Text} (hname : IsName name) (hv : startsApart v = true)
    {groups : List (Text × Text)} (hnames : ∀ g ∈ groups, IsName g.1)
    (hne : ∀ g ∈ groups, g.1 ≠ name) :
    groups.foldl fill (placeholder name ++ v) = placeholder name ++ groups.foldl fill v :=
  Border.foldl_fill_append (.inr hv) hnames fun g hg hinfix =>
    hne g hg (eq_of_infix_placeholder hname (hnames g hg) hinfix)

/-- The first group of its name takes the place of a placeholder, and its text is left alone. -/
theorem foldl_fill_place {group : Text × Text} {v : Text} (hgroup : IsName group.1)
    (hfree : isFree group.2 = true) (hv : startsApart v = true)
    {before behind : List (Text × Text)} (hbefore : ∀ g ∈ before, IsName g.1)
    (hbehind : ∀ g ∈ behind, IsName g.1) (hne : ∀ g ∈ before, g.1 ≠ group.1) :
    (before ++ group :: behind).foldl fill (placeholder group.1 ++ v) =
      group.2 ++ (before ++ behind).foldl fill v := by
  have hv' : startsApart (before.foldl fill v) = true := startsApart_foldl_fill hv hbefore
  rw [List.foldl_append, foldl_fill_pass hgroup hv hbefore hne, List.foldl_cons, fill_placeholder,
    Border.foldl_fill_append (.inr hv') hbehind fun g hg =>
      not_infix_of_isFree (hbehind g hg) hfree,
    ← List.foldl_append]

/-- **Filling a template with free texts, one group after the other, fills it in one pass.** -/
theorem clear_foldl_fill {s : Text} (hs : IsApart s) {groups : List (Text × Text)}
    (hnames : ∀ g ∈ groups, IsName g.1)
    (hfree : ∀ g ∈ groups, g.1 ∈ placeholders ⟨s⟩ → isFree g.2 = true) :
    clear (groups.foldl fill s) = fillOnce groups (pieces s) := by
  induction hs generalizing groups with
  | @free w hw =>
    have hborder : Border w [] := .inr rfl
    rw [foldl_fill_of_isFree hw hnames, clear_eq, ← List.append_nil w, hborder.fillOnce_append hw,
      hborder.fillOnce_append hw]
    rfl
  | @slot w name v hw hends hname hstarts _ ih =>
    have hborder : ∀ t, Border w t := fun _ => .inl hends
    have hplaceholders :
        placeholders ⟨w ++ (placeholder name ++ v)⟩ = name :: placeholders ⟨v⟩ := by
      rw [(hborder _).placeholders_append, placeholders_free hw, placeholders_placeholder hname]
      rfl
    rw [hplaceholders] at hfree
    rw [(hborder _).foldl_fill_append hnames fun g hg => not_infix_of_isFree (hnames g hg) hw,
      clear_eq, (hborder _).fillOnce_append hw, (hborder _).fillOnce_append hw, ← clear_eq,
      pieces_placeholder hname, fillOnce]
    congr 1
    cases hfind : groups.find? (·.1 == name) with
    | none =>
      have hne : ∀ g ∈ groups, g.1 ≠ name := by simpa using hfind
      rw [foldl_fill_pass hname hstarts hnames hne, List.eraseP_of_forall_not (by simpa using hne),
        clear_eq, pieces_placeholder hname]
      exact (clear_eq _).symm.trans
        (ih hnames fun g hg hv => hfree g hg (List.mem_cons_of_mem _ hv))
    | some g =>
      obtain ⟨hg, before, behind, rfl, hbefore⟩ := List.find?_eq_some_iff_append.1 hfind
      obtain rfl : g.1 = name := by simpa using hg
      have hne : ∀ h ∈ before, h.1 ≠ g.1 := fun h hh => by simpa using hbefore h hh
      have hothers : ∀ h ∈ before ++ behind, h ∈ before ++ g :: behind :=
        fun h hh => ((List.sublist_cons_self g behind).append_left before).subset hh
      have hgfree : isFree g.2 = true :=
        hfree g (List.mem_append_right _ List.mem_cons_self) List.mem_cons_self
      rw [List.forall_mem_append, List.forall_mem_cons] at hnames
      obtain ⟨hnamesBefore, hgname, hnamesBehind⟩ := hnames
      have hnames' := List.forall_mem_append.2 ⟨hnamesBefore, hnamesBehind⟩
      rw [foldl_fill_place hgname hgfree hstarts hnamesBefore hnamesBehind hne, clear_eq,
        Border.fillOnce_append (.inr (startsApart_foldl_fill hstarts hnames')) hgfree, ← clear_eq,
        eraseP_of_first hbefore]
      exact congrArg (g.2 ++ ·)
        (ih hnames' fun h hh hv => hfree h (hothers h hh) (List.mem_cons_of_mem _ hv))

/-! ## Placeholders that are left -/

/-- Whether a placeholder with a name stands apart in a text. -/
def HasSlot (name s : Text) : Prop :=
  ∃ x y, s = x ++ (placeholder name ++ y) ∧ endsApart x = true ∧ startsApart y = true

theorem HasSlot.mem {name s : Text} (hname : IsName name) (h : HasSlot name s) :
    name ∈ placeholders ⟨s⟩ := by
  obtain ⟨x, y, rfl, hx, -⟩ := h
  rw [Border.placeholders_append (.inl hx), placeholders_placeholder hname]
  simp

/-- Other groups leave a placeholder that stands apart. -/
theorem HasSlot.fill {name s : Text} (hname : IsName name) (h : HasSlot name s)
    {group : Text × Text} (hgroup : IsName group.1) (hne : group.1 ≠ name) :
    HasSlot name (fill s group) := by
  obtain ⟨x, y, rfl, hx, hy⟩ := h
  rw [Border.fill_append (.inl hx) hgroup]
  split
  · exact ⟨_, y, rfl, endsApart_fill hx hgroup, hy⟩
  · rw [Border.fill_append (.inr hy) hgroup,
      if_neg fun hinfix => hne (eq_of_infix_placeholder hname hgroup hinfix)]
    exact ⟨x, _, rfl, hx, startsApart_fill hy hgroup⟩

/-- A group is placed where its placeholder stands apart, or that placeholder is left. -/
theorem HasSlot.fill_self {s : Text} {group : Text × Text} (hgroup : IsName group.1)
    (h : HasSlot group.1 s) :
    (∃ x y, s = x ++ (placeholder group.1 ++ y) ∧ Template.fill s group = x ++ (group.2 ++ y) ∧
      endsApart x = true ∧ startsApart y = true) ∨ HasSlot group.1 (Template.fill s group) := by
  obtain ⟨x, y, rfl, hx, hy⟩ := h
  rw [Border.fill_append (.inl hx) hgroup]
  split
  · exact .inr ⟨_, y, rfl, endsApart_fill hx hgroup, hy⟩
  · exact .inl ⟨x, y, rfl, by rw [fill_placeholder], hx, hy⟩

/-- The placeholders of a template stand apart in it. -/
theorem IsApart.hasSlot {s name : Text} (hs : IsApart s) (h : name ∈ placeholders ⟨s⟩) :
    IsName name ∧ HasSlot name s := by
  induction hs with
  | free hw => simp [placeholders_free hw] at h
  | @slot w other v hw hends hother hstarts _ ih =>
    rw [Border.placeholders_append (.inl hends), placeholders_free hw,
      placeholders_placeholder hother, List.nil_append, List.mem_cons] at h
    rcases h with rfl | h
    · exact ⟨hother, w, v, rfl, hends, hstarts⟩
    · obtain ⟨hname, x, y, rfl, hx, hy⟩ := ih h
      refine ⟨hname, w ++ (placeholder other ++ x), y, by simp only [List.append_assoc], ?_, hy⟩
      -- Between the two placeholders there is a character that stands in none.
      have hne : x ≠ [] := by
        rintro rfl
        have hedge := isEdge_of_mem_placeholder hname (c := '-') (by simp [placeholder, mark])
        have hstart : isEdge '-' = true := by
          simpa [startsApart, placeholder, mark] using hstarts
        rw [hedge] at hstart
        cases hstart
      rwa [← List.append_assoc, endsApart_append_of_ne hne]

/-- **If nothing is left to clear, each group took its own placeholder and its text is free.** -/
theorem free_of_foldl_fill {s : Text} {groups : List (Text × Text)}
    (hslots : ∀ g ∈ groups, IsName g.1 ∧ HasSlot g.1 s) (hdistinct : (groups.map (·.1)).Nodup)
    (hleft : isFree (groups.foldl fill s) = true) :
    (∀ g ∈ groups, isFree g.2 = true) ∧ (placeholders ⟨s⟩).Perm (groups.map (·.1)) := by
  induction groups generalizing s with
  | nil => exact ⟨fun _ h => absurd h List.not_mem_nil, .of_eq (placeholders_free hleft)⟩
  | cons g groups ih =>
    obtain ⟨⟨hg, hslot⟩, hslots⟩ := List.forall_mem_cons.1 hslots
    obtain ⟨hnot, hdistinct⟩ := List.nodup_cons.1 hdistinct
    have hne : ∀ h ∈ groups, g.1 ≠ h.1 :=
      fun h hh heq => hnot (List.mem_map.2 ⟨h, hh, heq.symm⟩)
    obtain ⟨hfree, hperm⟩ := ih
      (fun h hh => ⟨(hslots h hh).1, (hslots h hh).2.fill (hslots h hh).1 hg (hne h hh)⟩)
      hdistinct hleft
    rcases hslot.fill_self hg with ⟨x, y, rfl, hfill, hx, hy⟩ | hstays
    · rw [hfill, Border.placeholders_append (.inl hx), Border.placeholders_append (.inr hy)]
        at hperm
      have hplaceholders : placeholders ⟨x ++ (placeholder g.1 ++ y)⟩ =
          placeholders ⟨x⟩ ++ g.1 :: placeholders ⟨y⟩ := by
        rw [Border.placeholders_append (.inl hx), placeholders_placeholder hg]
      have hsubset : groups.map (·.1) ⊆ placeholders ⟨x⟩ ++ placeholders ⟨y⟩ := by
        intro name hname
        obtain ⟨h, hh, rfl⟩ := List.mem_map.1 hname
        have hmem := (hslots h hh).2.mem (hslots h hh).1
        rw [hplaceholders, List.mem_append, List.mem_cons] at hmem
        rw [List.mem_append]
        exact hmem.imp_right (Or.resolve_left · (hne h hh).symm)
      -- The other placeholders are already those of the other groups.
      have hlength := (List.subperm_of_subset hdistinct hsubset).length_le
      have hnil : placeholders ⟨g.2⟩ = [] := by
        have := hperm.length_eq
        simp only [List.length_append] at this hlength
        exact List.length_eq_zero_iff.1 (by omega)
      rw [hnil, List.nil_append] at hperm
      refine ⟨List.forall_mem_cons.2 ⟨List.isEmpty_iff.2 hnil, hfree⟩, ?_⟩
      rw [hplaceholders, List.map_cons]
      exact List.perm_middle.trans (hperm.cons _)
    · exact absurd (hperm.mem_iff.1 (hstays.mem hg)) hnot

/-! ## Counting hyphens -/

theorem count_fill {s : Text} {group : Text × Text} (hgroup : IsName group.1)
    (h : HasSlot group.1 s) : (fill s group).count '-' + 6 = s.count '-' + group.2.count '-' := by
  have hinfix : placeholder group.1 <:+: s := by
    obtain ⟨x, y, rfl, -, -⟩ := h
    exact ⟨x, y, by simp⟩
  clear h
  induction s with
  | nil => exact absurd (List.infix_nil.1 hinfix) (placeholder_ne_nil _)
  | cons c s ih =>
    by_cases hprefix : placeholder group.1 <+: c :: s
    · obtain ⟨rest, hrest, hfill⟩ := fill_cons_of_starts hprefix
      rw [hfill, hrest, List.count_append, List.count_append, count_placeholder hgroup]
      omega
    · have hs := ih ((List.infix_cons_iff.1 hinfix).resolve_left hprefix)
      rw [fill_cons_of_not_starts hprefix, List.count_cons, List.count_cons]
      omega

theorem count_foldl_fill {s : Text} {groups : List (Text × Text)}
    (hslots : ∀ g ∈ groups, IsName g.1 ∧ HasSlot g.1 s) (hdistinct : (groups.map (·.1)).Nodup) :
    (groups.foldl fill s).count '-' + 6 * groups.length =
      s.count '-' + (groups.map (·.2.count '-')).sum := by
  induction groups generalizing s with
  | nil => rfl
  | cons g groups ih =>
    obtain ⟨⟨hg, hslot⟩, hslots⟩ := List.forall_mem_cons.1 hslots
    obtain ⟨hnot, hdistinct⟩ := List.nodup_cons.1 hdistinct
    have hrest := ih (s := fill s g) (fun h hh => ⟨(hslots h hh).1, (hslots h hh).2.fill
      (hslots h hh).1 hg fun heq => hnot (List.mem_map.2 ⟨h, hh, heq.symm⟩)⟩) hdistinct
    have hfirst := count_fill hg hslot
    simp only [List.foldl_cons, List.length_cons, List.map_cons, List.sum_cons]
    omega

/-- A text that is filled in one pass loses the hyphens of its placeholders and takes those of the
groups. -/
theorem count_fillOnce (s : Text) {groups : List (Text × Text)}
    (hmem : ∀ g ∈ groups, g.1 ∈ placeholders ⟨s⟩) (hdistinct : (groups.map (·.1)).Nodup) :
    (fillOnce groups (pieces s)).count '-' + 6 * (placeholders ⟨s⟩).length =
      s.count '-' + (groups.map (·.2.count '-')).sum := by
  induction s using pieces_induction generalizing groups with
  | nil =>
    obtain rfl : groups = [] := List.eq_nil_iff_forall_not_mem.2 fun g hg => by
      have := hmem g hg
      contradiction
    rfl
  | char c s hnone ih =>
    have hplaceholders : placeholders ⟨c :: s⟩ = placeholders ⟨s⟩ := by
      rw [placeholders_eq, pieces_of_none hnone, List.filterMap_cons_none rfl, ← placeholders_eq]
    rw [hplaceholders] at hmem ⊢
    have hs := ih hmem hdistinct
    rw [pieces_of_none hnone, fillOnce, List.count_cons, List.count_cons]
    omega
  | slot name s hname ih =>
    rw [placeholders_placeholder hname] at hmem ⊢
    rw [pieces_placeholder hname, fillOnce, List.count_append, List.count_append,
      count_placeholder hname, List.length_cons]
    cases hfind : groups.find? (·.1 == name) with
    | none =>
      have hne : ∀ g ∈ groups, g.1 ≠ name := by simpa using hfind
      have hs := ih (fun g hg => (List.mem_cons.1 (hmem g hg)).resolve_left (hne g hg)) hdistinct
      rw [List.eraseP_of_forall_not (by simpa using hne)]
      simp only [Option.map_none, Option.getD_none, List.count_nil]
      omega
    | some g =>
      obtain ⟨hg, before, behind, rfl, hbefore⟩ := List.find?_eq_some_iff_append.1 hfind
      obtain rfl : g.1 = name := by simpa using hg
      have hperm : (before ++ g :: behind).Perm (g :: (before ++ behind)) := List.perm_middle
      have hdistinct' := (hperm.map (·.1)).nodup_iff.1 hdistinct
      rw [List.map_cons, List.nodup_cons] at hdistinct'
      obtain ⟨hnot, hdistinct'⟩ := hdistinct'
      have hothers : ∀ h ∈ before ++ behind, h.1 ∈ placeholders ⟨s⟩ := fun h hh =>
        (List.mem_cons.1 (hmem h (hperm.mem_iff.2 (.tail g hh)))).resolve_left
          fun heq => hnot (List.mem_map.2 ⟨h, hh, heq⟩)
      have hs := ih hothers hdistinct'
      rw [eraseP_of_first hbefore, (hperm.map _).sum_nat, List.map_cons, List.sum_cons]
      simp only [Option.map_some, Option.getD_some]
      omega

theorem count_lines (s : Text) : ((lines s).map (·.count '-')).sum = s.count '-' := by
  have hfrom : ∀ cur : Text, ((linesFrom cur s).map (·.count '-')).sum =
      cur.count '-' + s.count '-' := by
    induction s with
    | nil =>
      intro cur
      cases cur <;> simp [linesFrom, List.count_cons]
    | cons c s ih =>
      intro cur
      rw [linesFrom]
      split
      · rename_i hc
        have hclose : (closeLine cur).count '-' = cur.count '-' := by
          unfold closeLine
          split <;> simp
        simp [ih, hclose, hc]
      · simp [ih, List.count_cons]
        omega
  simpa [lines] using hfrom []

/-- A blank line has no hyphen to lose. -/
theorem count_dropBlankLines (s : Text) : (dropBlankLines s).count '-' = s.count '-' := by
  rw [dropBlankLines, ← count_lines s]
  induction lines s with
  | nil => rfl
  | cons line ls ih =>
    cases hblank : isBlankText line with
    | true =>
      have hline : line.count '-' = 0 := List.count_eq_zero.2 fun hmem => by
        have := List.all_eq_true.1 hblank _ hmem
        revert this
        decide
      simpa [hblank, hline] using ih
    | false => simpa [hblank] using ih

/-! ## All placeholders at once -/

/-- The template with all its groups filled in at once. -/
def renderOnce (t : Template) (groups : List (Text × Text)) : Text :=
  dropBlankLines (fillOnce groups (pieces t.source))

theorem render_of_isFree {t : Template} {groups : List (Text × Text)} (ht : IsApart t.source)
    (hnames : ∀ g ∈ groups, IsName g.1)
    (hfree : ∀ g ∈ groups, g.1 ∈ t.placeholders → isFree g.2 = true) :
    t.render groups = t.renderOnce groups :=
  congrArg dropBlankLines (clear_foldl_fill ht hnames hfree)

theorem isFree_of_render {t : Template} {groups : List (Text × Text)} (ht : IsApart t.source)
    (hdistinct : (groups.map (·.1)).Nodup) (hslots : t.placeholders.Perm (groups.map (·.1)))
    (h : t.render groups = t.renderOnce groups) : ∀ g ∈ groups, isFree g.2 = true := by
  have hmem : ∀ g ∈ groups, g.1 ∈ t.placeholders :=
    fun g hg => hslots.mem_iff.2 (List.mem_map_of_mem hg)
  have hslot : ∀ g ∈ groups, IsName g.1 ∧ HasSlot g.1 t.source := fun g hg => ht.hasSlot (hmem g hg)
  refine (free_of_foldl_fill hslot hdistinct ?_).1
  -- What is cleared at the end would be missed by as many hyphens.
  have hcount := congrArg (List.count '-') h
  rw [render, renderOnce, count_dropBlankLines, count_dropBlankLines] at hcount
  have honce := count_fillOnce t.source hmem hdistinct
  have hsteps := count_foldl_fill hslot hdistinct
  have hclear : (clear (groups.foldl fill t.source)).count '-' +
      6 * (placeholders ⟨groups.foldl fill t.source⟩).length =
        (groups.foldl fill t.source).count '-' + 0 :=
    clear_eq (groups.foldl fill t.source) ▸ count_fillOnce _ (by simp) List.nodup_nil
  have hlength := hslots.length_eq
  rw [List.length_map] at hlength
  simp only [placeholders] at *
  refine List.isEmpty_iff.2 (List.length_eq_zero_iff.1 ?_)
  simp only [placeholders]
  omega

/-- The text around the placeholders of the built-in template. -/
theorem source_builtin : builtin.source = ([] : Text) ++ (placeholder "standard" ++
    ("\n\n@media(max-width:1023px) and (max-height:1023px)\x7b\n" ++ (placeholder "md" ++
    ("\n\x7d\n\n@media(max-width:1023px) and (max-height:1023px) and (orientation:landscape)\x7b\n" ++
    (placeholder "mdl" ++
    ("\n\x7d\n\n@media(max-width:1023px) and (max-height:1023px) and (orientation:portrait)\x7b\n" ++
    (placeholder "mdp" ++ "\n\x7d\n"))))))) := by
  decide +kernel

theorem isApart_builtin : IsApart builtin.source := by
  rw [source_builtin]
  refine .slot (by decide) (by decide) (.of_all (by decide)) (by decide) ?_
  refine .slot (by decide +kernel) (by decide) (.of_all (by decide)) (by decide) ?_
  refine .slot (by decide +kernel) (by decide) (.of_all (by decide)) (by decide) ?_
  exact .slot (by decide +kernel) (by decide) (.of_all (by decide)) (by decide) (.free (by decide))

/-- **With the built-in template, compiled rules are filled in at once if and only if no placeholder
stands in them.** -/
theorem render_builtin_iff (rules : RuleGroups) :
    builtin.render rules.rendered = builtin.renderOnce rules.rendered ↔
      ∀ g ∈ rules.rendered, isFree g.2 = true := by
  have hnames : rules.rendered.map (·.1) = RuleGroups.kinds.map RuleGroups.kindName := by
    rw [RuleGroups.rendered, List.map_map]
    rfl
  have hkeys : rules.rendered.map (·.1) = builtin.placeholders := by
    rw [hnames]
    decide +kernel
  have hdistinct : (rules.rendered.map (·.1)).Nodup := by
    rw [hnames]
    decide +kernel
  refine ⟨isFree_of_render isApart_builtin hdistinct (.of_eq hkeys.symm), fun hfree => ?_⟩
  refine render_of_isFree isApart_builtin (fun g hg => ?_) fun g hg _ => hfree g hg
  exact (isApart_builtin.hasSlot (hkeys ▸ List.mem_map_of_mem hg)).1

/-- **Filling a template.** Where the placeholders of a template stand apart, groups without
placeholders are filled in at once; and if the groups are those of the template, only these are. The
built-in template is such a template, whatever rules are compiled. -/
theorem render_eq_renderOnce {t : Template} {groups : List (Text × Text)} (ht : IsApart t.source)
    (hnames : ∀ g ∈ groups, IsName g.1) (hdistinct : (groups.map (·.1)).Nodup) :
    ((∀ g ∈ groups, g.1 ∈ t.placeholders → isFree g.2 = true) →
        t.render groups = t.renderOnce groups) ∧
      (t.placeholders.Perm (groups.map (·.1)) →
        (t.render groups = t.renderOnce groups ↔ ∀ g ∈ groups, isFree g.2 = true)) ∧
      ∀ rules : RuleGroups, builtin.render rules.rendered = builtin.renderOnce rules.rendered ↔
        ∀ g ∈ rules.rendered, isFree g.2 = true := by
  refine ⟨render_of_isFree ht hnames, fun hslots => ?_, render_builtin_iff⟩
  exact ⟨isFree_of_render ht hdistinct hslots,
    fun hfree => render_of_isFree ht hnames fun g hg _ => hfree g hg⟩

/-- A template with two placeholders. -/
def twoPlaces : Template := ⟨"x ---a---, ---b---;"⟩

/-- Groups with hyphens and names of placeholders, but without placeholders. -/
def hyphenated : List (Text × Text) := [("b", "--a--"), ("a", "---b")]

theorem render_eq_renderOnce_hyphenated :
    (twoPlaces.placeholders.Perm (hyphenated.map (·.1)) ∧ ∀ g ∈ hyphenated, isFree g.2 = true) ∧
      twoPlaces.render hyphenated = twoPlaces.renderOnce hyphenated := by
  have hapart : IsApart twoPlaces.source := by
    have hsource : twoPlaces.source =
        "x " ++ (placeholder "a" ++ (", " ++ (placeholder "b" ++ ";"))) := by
      decide
    rw [hsource]
    refine .slot (by decide) (by decide) (.of_all (by decide)) (by decide) ?_
    exact .slot (by decide) (by decide) (.of_all (by decide)) (by decide) (.free (by decide))
  have hslots : twoPlaces.placeholders.Perm (hyphenated.map (·.1)) := by decide
  have hnames : ∀ g ∈ hyphenated, IsName g.1 :=
    fun g hg => (hapart.hasSlot (hslots.mem_iff.2 (List.mem_map_of_mem hg))).1
  have hfree : ∀ g ∈ hyphenated, isFree g.2 = true := by decide
  exact ⟨⟨hslots, hfree⟩,
    ((render_eq_renderOnce hapart hnames (by decide)).2.1 hslots).2 hfree⟩

/-- A class name may hold hyphens, and so a placeholder. -/
theorem render_compile_fails : ∃ rules,
    (Compiler.ofSettings {}).compile (Markup.collectAll ["class='ff-a---x---b'"]) = .ok rules ∧
      builtin.render rules.rendered ≠ builtin.renderOnce rules.rendered := by
  have hheld : ((Compiler.ofSettings {}).compile
      (Markup.collectAll ["class='ff-a---x---b'"])).toOption.any
        (fun rules => !isFree (rules.groupText none)) = true := by
    decide +kernel
  cases h : (Compiler.ofSettings {}).compile (Markup.collectAll ["class='ff-a---x---b'"]) with
  | error e =>
    rw [h] at hheld
    cases hheld
  | ok rules =>
    refine ⟨rules, rfl, fun heq => ?_⟩
    have hfree : isFree (rules.groupText none) = true :=
      (render_builtin_iff rules).1 heq (RuleGroups.kindName none, rules.groupText none)
        (List.mem_map_of_mem (f := fun kind => (RuleGroups.kindName kind, rules.groupText kind))
          (by decide))
    rw [h] at hheld
    simp [Except.toOption, hfree] at hheld

end Template

end UtilitySheet
