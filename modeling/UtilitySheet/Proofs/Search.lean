import Mathlib.Data.List.Induction
import UtilitySheet.Project.Search
import UtilitySheet.Proofs.FileTree

/-!
# What a search lists

A search does not enter what the filter excludes. All that stands below an excluded place is
excluded too, so nothing is lost: below a root a search lists the files whose own path has the
extension and is not excluded, in the order of their names (`Query.visit_eq`). A change at names
that the search skips, and a new empty folder, leave the list as it is (`Query.visit_change`).
-/

namespace UtilitySheet

open UtilitySheet.Path (isName)

/-! ## Paths of entries -/

namespace Path

/-- The path of what the names lead to from the folder `p`. -/
def descend (p : Path) (names : List Text) : Path := names.foldl child p

theorem openEnd_concat (steps : List Text) {name : Text} (h : name ≠ []) :
    openEnd (steps ++ [name]) = steps ++ [name] := by
  simp [openEnd, h]

/-- At most an empty step is left out at the end. -/
theorem openEnd_cases (steps : List Text) :
    openEnd steps = steps ∨ steps = openEnd steps ++ [[]] := by
  unfold openEnd
  split
  · rename_i hlast
    obtain ⟨front, rfl⟩ := List.getLast?_eq_some_iff.1 hlast
    simp
  · exact .inl rfl

theorem descend_append (p : Path) (names more : List Text) :
    p.descend (names ++ more) = (p.descend names).descend more := List.foldl_append

/-- The steps behind a folder are the names. -/
theorem descend_eq (p : Path) {names : List Text} (h : ∀ n ∈ names, isName n = true)
    (hne : names ≠ []) : p.descend names = ⟨p.rooted, openEnd p.steps ++ names⟩ := by
  induction names using List.reverseRecOn with
  | nil => exact absurd rfl hne
  | append_singleton front last ih =>
    rw [descend_append]
    by_cases hfront : front = []
    · subst hfront
      rfl
    · have hnames : ∀ n ∈ front, isName n = true := fun n hn => h n (List.mem_append_left _ hn)
      obtain ⟨front, second, rfl⟩ := List.eq_nil_or_concat front |>.resolve_left hfront
      rw [ih hnames hfront]
      have hsecond : second ≠ [] := ne_nil_of_isName (hnames second (by simp))
      simp [descend, child, ← List.append_assoc, openEnd_concat _ hsecond]

theorem parts_descend (p : Path) {names : List Text} (h : ∀ n ∈ names, isName n = true) :
    (p.descend names).parts = p.parts ++ names := by
  by_cases hne : names = []
  · subst hne
    simp [descend]
  obtain ⟨first, rest, rfl⟩ := List.exists_cons_of_ne_nil hne
  have hmoves : (first :: rest).filter moves = first :: rest :=
    List.filter_eq_self.2 fun n hn => (isName_iff.1 (h n hn)).1
  have hfirst : first ≠ ['.'] := ne_dot_of_moves (isName_iff.1 (h first List.mem_cons_self)).1
  have hnames : (openEnd p.steps).filter moves = p.steps.filter moves := by
    rcases openEnd_cases p.steps with hsteps | hsteps
    · rw [hsteps]
    · conv_rhs => rw [hsteps, List.filter_append]
      exact (List.append_nil _).symm
  have hhead : ((openEnd p.steps ++ first :: rest).head? == some ['.']) =
      (p.steps.head? == some ['.']) := by
    rcases openEnd_cases p.steps with hsteps | hsteps
    · rw [hsteps]
      cases p.steps <;> simp [hfirst]
    · conv_rhs => rw [hsteps]
      cases openEnd p.steps <;> simp [hfirst]
  rw [descend_eq p h hne, parts, parts, names, names, List.filter_append, hmoves, hnames, hhead]
  split <;> simp

theorem components_descend (p : Path) {names : List Text} (h : ∀ n ∈ names, isName n = true) :
    (p.descend names).components = p.components ++ names := by
  by_cases hne : names = []
  · subst hne
    simp [descend]
  · have hrooted : (p.descend names).rooted = p.rooted := by rw [descend_eq p h hne]
    rw [components, components, hrooted, parts_descend p h]
    split <;> simp

/-- What stands below a folder that lies in another lies in that one too. -/
theorem startsWith_descend {p folder : Path} {names : List Text}
    (h : ∀ n ∈ names, isName n = true) (hp : p.startsWith folder = true) :
    (p.descend names).startsWith folder = true := by
  rw [startsWith, List.isPrefixOf_iff_prefix] at *
  rw [components_descend p h]
  exact hp.trans (List.prefix_append _ _)

theorem fileName?_descend (p : Path) {front : List Text} {last : Text}
    (h : ∀ n ∈ front ++ [last], isName n = true) :
    (p.descend (front ++ [last])).fileName? = some last := by
  have hparts := parts_descend p h
  rw [← List.append_assoc] at hparts
  exact fileName?_of_parts hparts (h last (by simp))

end Path

namespace Entry

variable {e : Entry} {p : Path} {above behind names : List Text}

theorem follow_openEnd {steps : List Text} (h : e.follow [] steps = .ok names) :
    e.follow [] (Path.openEnd steps) = .ok names := by
  rcases Path.openEnd_cases steps with hsteps | hsteps
  · rwa [hsteps]
  · rw [hsteps] at h
    obtain ⟨mid, hmid, h⟩ := follow_append_eq_ok.1 h
    have hend := follow_filter h
    rw [show [([] : Text)].filter Path.moves = [] by decide] at hend
    obtain rfl := Except.ok.inj hend
    exact hmid

/-- The path of what stands behind a folder leads there. -/
theorem Leads.descend {x : Entry} (h : e.Leads p above) (hget : e.get? (above ++ behind) = some x)
    (hnames : ∀ n ∈ behind, isName n = true ∧ byteCount n ≤ longestName) :
    e.Leads (p.descend behind) (above ++ behind) := by
  by_cases hne : behind = []
  · subst hne
    simpa [Path.descend] using h
  · rw [Leads, Path.descend_eq p (fun n hn => (hnames n hn).1) hne, follow_append_eq_ok]
    exact ⟨above, follow_openEnd h, follow_eq_ok_of_get? hnames hget⟩

/-- Where the path of a folder leads, the path of what stands behind it leads on. -/
theorem Leads.eq_of_descend (h : e.Leads p above) (hnames : ∀ n ∈ behind, isName n = true)
    (hbehind : e.Leads (p.descend behind) names) : names = above ++ behind := by
  by_cases hne : behind = []
  · subst hne
    have hsame : e.Leads p names := hbehind
    rw [Leads] at h hsame
    obtain rfl := Except.ok.inj (h.symm.trans hsame)
    simp
  · rw [Leads, Path.descend_eq p hnames hne] at hbehind
    obtain ⟨mid, hmid, hbehind⟩ := follow_append_eq_ok.1 hbehind
    obtain rfl := Except.ok.inj ((follow_openEnd h).symm.trans hmid)
    exact follow_of_isName hnames hbehind

/-! ## Trees in order -/

/-- A tree in the order that changes keep: the entries of every folder have names, each of its own,
and stand in the order of their names. -/
inductive Proper : Entry → Prop
  | file (text : Option Text) (time : Int) : Proper (.file text time)
  | folder {entries : List (Text × Entry)} {time : Int}
      (sorted : entries.Pairwise fun a b => a.1 < b.1)
      (names : ∀ entry ∈ entries, isName entry.1 = true)
      (inner : ∀ entry ∈ entries, Proper entry.2) : Proper (.folder entries time)

theorem mem_insertNamed {entries : List (Text × Entry)} {name : Text} {child : Entry}
    {entry : Text × Entry} (h : entry ∈ insertNamed name child entries) :
    entry = (name, child) ∨ entry ∈ entries := by
  induction entries with
  | nil => simpa [insertNamed] using h
  | cons first entries ih =>
    rw [insertNamed] at h
    split at h
    · simp_all
      grind
    · split at h
      · simpa using h
      · rcases List.mem_cons.1 h with rfl | h
        · simp
        · exact (ih h).imp id (List.mem_cons_of_mem _)

theorem sorted_insertNamed {entries : List (Text × Entry)}
    (h : entries.Pairwise fun a b => a.1 < b.1) (name : Text) (child : Entry) :
    (insertNamed name child entries).Pairwise fun a b => a.1 < b.1 := by
  induction entries with
  | nil => simp [insertNamed]
  | cons first entries ih =>
    obtain ⟨hfirst, hentries⟩ := List.pairwise_cons.1 h
    rw [insertNamed]
    split
    · rename_i heq
      exact List.pairwise_cons.2 ⟨hfirst, hentries⟩
    · rename_i hne
      split
      · rename_i hlt
        refine List.pairwise_cons.2 ⟨fun entry hentry => ?_, h⟩
        rcases List.mem_cons.1 hentry with rfl | hentry
        · exact hlt
        · exact lt_trans hlt (hfirst entry hentry)
      · rename_i hle
        refine List.pairwise_cons.2 ⟨fun entry hentry => ?_, ih hentries⟩
        rcases mem_insertNamed hentry with rfl | hentry
        · exact lt_of_le_of_ne (not_lt.1 hle) hne
        · exact hfirst entry hentry

theorem get?_cons_entries (name : Text) (entry : Text × Entry) (entries : List (Text × Entry))
    (time : Int) : (folder (entry :: entries) time).get? [name] =
      if entry.1 = name then some entry.2 else (folder entries time).get? [name] := by
  simp only [get?, Entry.entries, List.find?_cons]
  by_cases hname : entry.1 = name
  · simp [hname]
  · simp [hname, beq_false_of_ne hname]

theorem mem_of_get?_singleton {entries : List (Text × Entry)} {time : Int} {name : Text} {x : Entry}
    (h : (folder entries time).get? [name] = some x) : (name, x) ∈ entries := by
  induction entries with
  | nil => cases h
  | cons entry entries ih =>
    rw [get?_cons_entries] at h
    split at h
    · rename_i hname
      obtain rfl := Option.some.inj h
      subst hname
      exact List.mem_cons_self
    · exact List.mem_cons_of_mem _ (ih h)

theorem get?_singleton_of_forall_ne {entries : List (Text × Entry)} {name : Text} (time : Int)
    (h : ∀ entry ∈ entries, entry.1 ≠ name) : (folder entries time).get? [name] = none := by
  cases hget : (folder entries time).get? [name] with
  | none => rfl
  | some x => exact absurd rfl (h _ (mem_of_get?_singleton hget))

/-- In order, an entry is found by its name. -/
theorem get?_singleton_of_mem {entries : List (Text × Entry)} {name : Text} {x : Entry} (time : Int)
    (hsorted : entries.Pairwise fun a b => a.1 < b.1) (h : (name, x) ∈ entries) :
    (folder entries time).get? [name] = some x := by
  induction entries with
  | nil => cases h
  | cons entry entries ih =>
    obtain ⟨hfirst, hsorted⟩ := List.pairwise_cons.1 hsorted
    rw [get?_cons_entries]
    rcases List.mem_cons.1 h with rfl | h
    · simp
    · rw [if_neg (hfirst _ h).ne, ih hsorted h]

namespace Proper

theorem get? {x : Entry} (he : e.Proper) (h : e.get? names = some x) :
    x.Proper ∧ ∀ n ∈ names, isName n = true := by
  induction names generalizing e with
  | nil =>
    obtain rfl := Option.some.inj h
    exact ⟨he, by simp⟩
  | cons name names ih =>
    rw [get?_cons] at h
    obtain ⟨child, hchild, hx⟩ := Option.bind_eq_some_iff.1 h
    cases he with
    | file text time => cases hchild
    | folder _ hnames hinner =>
      have hmem := mem_of_get?_singleton hchild
      obtain ⟨hx, hrest⟩ := ih (hinner _ hmem) hx
      exact ⟨hx, List.forall_mem_cons.2 ⟨hnames _ hmem, hrest⟩⟩

theorem setNamed {entries : List (Text × Entry)} {time : Int} {name : Text} {new : Option Entry}
    (he : (Entry.folder entries time).Proper) (hname : isName name = true)
    (hnew : ∀ x ∈ new, x.Proper) : (Entry.folder (setNamed name new entries) time).Proper := by
  cases he with
  | folder hsorted hnames hinner =>
    cases new with
    | none =>
      exact .folder (hsorted.filter _) (fun entry h => hnames entry (List.mem_of_mem_filter h))
        fun entry h => hinner entry (List.mem_of_mem_filter h)
    | some x =>
      refine .folder (sorted_insertNamed hsorted name x) (fun entry h => ?_) fun entry h => ?_
      · rcases mem_insertNamed h with rfl | h
        · exact hname
        · exact hnames entry h
      · rcases mem_insertNamed h with rfl | h
        · exact hnew x rfl
        · exact hinner entry h

/-- A change at names keeps the order. -/
theorem change {new : Option Entry} (he : e.Proper) (hnames : ∀ n ∈ names, isName n = true)
    (hnew : ∀ x ∈ new, x.Proper) : (e.change names new).Proper := by
  induction names generalizing e with
  | nil =>
    cases new with
    | none => exact he
    | some x => exact hnew x rfl
  | cons name names ih =>
    obtain ⟨hname, hnames⟩ := List.forall_mem_cons.1 hnames
    cases e with
    | file text time => rwa [change_file]
    | folder entries time =>
      cases names with
      | nil =>
        rw [change_singleton]
        exact he.setNamed hname hnew
      | cons next names =>
        rw [change_cons_cons]
        cases hchild : (Entry.folder entries time).get? [name] with
        | none => exact he
        | some child =>
          refine he.setNamed hname fun x hx => ?_
          obtain rfl := Option.some.inj hx
          exact ih (he.get? hchild).1 hnames

end Proper

theorem arrangedIn_eq {entries : List (Text × Entry)}
    (hsorted : entries.Pairwise fun a b => a.1 < b.1)
    (hentries : ∀ entry ∈ entries, entry.2.arranged = entry.2) : arrangedIn entries = entries := by
  induction entries with
  | nil => rfl
  | cons entry entries ih =>
    obtain ⟨hfirst, hsorted⟩ := List.pairwise_cons.1 hsorted
    obtain ⟨hentry, hentries⟩ := List.forall_mem_cons.1 hentries
    rw [arrangedIn, hentry, ih hsorted hentries]
    cases entries with
    | nil => rfl
    | cons next entries =>
      have hlt := hfirst next List.mem_cons_self
      rw [insertNamed, if_neg hlt.ne', if_pos hlt]

/-- A tree in order stays as it is. -/
theorem arranged_of_proper (h : e.Proper) : e.arranged = e := by
  induction h with
  | file text time => rfl
  | folder hsorted _ _ ih => rw [arranged, arrangedIn_eq hsorted ih]

/-! ## The names of files -/

mutual

/-- The names that lead to each file at or below an entry, folder by folder. -/
def fileNames : Entry → List (List Text)
  | .file _ _ => [[]]
  | .folder entries _ => fileNamesIn entries

/-- The names that lead to each file at or below the entries of a folder. -/
def fileNamesIn : List (Text × Entry) → List (List Text)
  | [] => []
  | (name, e) :: entries => (fileNames e).map (name :: ·) ++ fileNamesIn entries

end

theorem fileNames_folder (entries : List (Text × Entry)) (time : Int) :
    (folder entries time).fileNames =
      entries.flatMap fun entry => entry.2.fileNames.map (entry.1 :: ·) := by
  rw [fileNames]
  induction entries with
  | nil => rfl
  | cons entry entries ih => rw [fileNamesIn, ih]; rfl

theorem mem_fileNames (he : e.Proper) : names ∈ e.fileNames ↔ (e.file? names).isSome = true := by
  induction he generalizing names with
  | file text time =>
    cases names with
    | nil => simp [fileNames, file?]
    | cons name names =>
      simp [fileNames, file?, get?_of_entries_eq_nil (e := .file text time) rfl]
  | @folder entries time hsorted hnames hinner ih =>
    rw [fileNames_folder]
    simp only [List.mem_flatMap, List.mem_map]
    cases names with
    | nil => simp [file?]
    | cons name names =>
      rw [file?_cons]
      constructor
      · rintro ⟨entry, hentry, more, hmore, heq⟩
        obtain ⟨rfl, rfl⟩ := List.cons.inj heq
        rw [get?_singleton_of_mem time hsorted hentry]
        exact (ih entry hentry).1 hmore
      · intro hfile
        cases hchild : (folder entries time).get? [name] with
        | none => simp [hchild] at hfile
        | some child =>
          have hentry := mem_of_get?_singleton hchild
          rw [hchild] at hfile
          exact ⟨_, hentry, names, (ih _ hentry).2 hfile, rfl⟩

/-- In a tree in order, the files come in the order of their names, each once. -/
theorem pairwise_fileNames (he : e.Proper) : e.fileNames.Pairwise (· < ·) := by
  induction he with
  | file text time => exact List.pairwise_singleton _ _
  | @folder entries time hsorted hnames hinner ih =>
    rw [fileNames_folder, List.pairwise_flatMap]
    refine ⟨fun entry hentry => ?_, hsorted.imp fun hlt names hnames names' hnames' => ?_⟩
    · rw [List.pairwise_map]
      exact (ih entry hentry).imp fun hlt => List.Lex.cons hlt
    · obtain ⟨names, -, rfl⟩ := List.mem_map.1 hnames
      obtain ⟨names', -, rfl⟩ := List.mem_map.1 hnames'
      exact List.Lex.rel hlt

end Entry

namespace PathFilter

/-- What stands below an excluded place is excluded. -/
theorem excludes_descend {f : PathFilter} {p : Path} {names : List Text}
    (hnames : ∀ n ∈ names, isName n = true) (h : f.excludes p = true) :
    f.excludes (p.descend names) = true := by
  simp only [excludes, Bool.or_eq_true, List.contains_iff_mem, List.any_eq_true,
    Path.components_descend p hnames] at *
  rcases h with h | ⟨place, hplace, h⟩
  · exact .inl (List.mem_append_left _ h)
  · exact .inr ⟨place, hplace, Path.startsWith_descend hnames h⟩

end PathFilter

namespace Query

variable {q : Query} {e : Entry} {p f : Path} {names above : List Text} {new : Option Entry}

/-! ## The files below a place -/

/-- What a search lists at and below an entry at the path `p`: nothing if the path is excluded. -/
def visit (q : Query) (p : Path) (e : Entry) : List Path :=
  if q.filter.excludes p then [] else q.filesAt p e

/-- What a search lists at and below the names that the path `p` leads to. -/
def below (q : Query) (e : Entry) (p : Path) (names : List Text) : List Path :=
  (e.get? names).elim [] (q.visit p)

theorem filesIn_eq_flatMap (q : Query) (p : Path) (entries : List (Text × Entry)) :
    q.filesIn p entries = entries.flatMap fun entry => q.visit (p.child entry.1) entry.2 := by
  induction entries with
  | nil => rfl
  | cons entry entries ih => rw [filesIn, ih]; rfl

theorem visit_folder (q : Query) (p : Path) (entries : List (Text × Entry)) (time : Int) :
    q.visit p (.folder entries time) =
      if q.filter.excludes p then []
      else entries.flatMap fun entry => q.visit (p.child entry.1) entry.2 := by
  rw [visit, filesAt, filesIn_eq_flatMap]

/-- In a tree in order, a search is a walk from where its root leads. -/
theorem find_getD {tree : Entry} (htree : tree.Proper) (q : Query) (root : Path) :
    (q.find tree root).toOption.getD [] =
      (tree.locate root).toOption.elim [] (q.below tree root) := by
  unfold find Entry.find
  cases tree.locate root with
  | error stopped => rfl
  | ok names =>
    simp only [Except.toOption, Option.elim_some, below, bind, Except.bind]
    cases hget : tree.get? names with
    | none => rfl
    | some e =>
      have harranged : e.arranged = e := Entry.arranged_of_proper (htree.get? hget).1
      simp only [pure, Except.pure, Except.mapError, harranged]
      rfl

/-- Whether a search asks for the path of a file. -/
def wants (q : Query) (p : Path) : Bool := p.hasExtension q.extension && !q.filter.excludes p

/-- **A search lists the files whose own path is asked for.** Nothing that the filter lets in is
lost because a folder above it is not entered. -/
theorem visit_eq (q : Query) (p : Path) (he : e.Proper) :
    q.visit p e = (e.fileNames.filter fun names => q.wants (p.descend names)).map p.descend := by
  induction he generalizing p with
  | file text time =>
    rw [visit, filesAt, Entry.fileNames]
    cases hexcluded : q.filter.excludes p <;> cases hextension : p.hasExtension q.extension <;>
      simp [wants, Path.descend, hexcluded, hextension]
  | @folder entries time hsorted hnames hinner ih =>
    rw [visit_folder]
    split
    · rename_i hexcluded
      -- The filter lets nothing in below a place that it excludes.
      have hnone : ∀ names ∈ (Entry.folder entries time).fileNames,
          ¬ q.wants (p.descend names) = true := by
        intro names hmem
        have hproper : (Entry.folder entries time).Proper := .folder hsorted hnames hinner
        obtain ⟨⟨text, modified⟩, hsome⟩ :=
          Option.isSome_iff_exists.1 ((Entry.mem_fileNames hproper).1 hmem)
        have hall := (hproper.get? (Entry.file?_eq_some.1 hsome)).2
        simp [wants, PathFilter.excludes_descend hall hexcluded]
      rw [List.filter_eq_nil_iff.2 hnone, List.map_nil]
    · rw [Entry.fileNames_folder, List.filter_flatMap, List.map_flatMap]
      refine List.flatMap_congr fun entry hentry => ?_
      rw [ih entry hentry, List.filter_map, List.map_map]
      rfl

theorem mem_visit_iff (he : e.Proper) :
    f ∈ q.visit p e ↔ ∃ names, f = p.descend names ∧ (e.file? names).isSome = true ∧
      q.wants f = true := by
  rw [visit_eq q p he]
  simp only [List.mem_map, List.mem_filter, Entry.mem_fileNames he]
  constructor
  · rintro ⟨names, ⟨hfile, hwanted⟩, rfl⟩
    exact ⟨names, rfl, hfile, hwanted⟩
  · rintro ⟨names, rfl, hfile, hwanted⟩
    exact ⟨names, ⟨hfile, hwanted⟩, rfl⟩

/-! ## Searching in a changed tree -/

/-- Whether a file at the path is not listed. -/
def Skips (q : Query) (p : Path) : Prop :=
  q.filter.excludes p = true ∨ p.hasExtension q.extension = false

theorem wants_iff : q.wants p = true ↔ ¬ q.Skips p := by
  simp [wants, Skips, and_comm]

theorem visit_file_of_skips {text : Option Text} {time : Int} (h : q.Skips p) :
    q.visit p (.file text time) = [] := by
  rw [visit, filesAt]
  rcases h with h | h <;> simp [h]

theorem visit_emptyFolder (time : Int) : q.visit p (.emptyFolder time) = [] := by
  rw [Entry.emptyFolder, visit_folder]
  simp

/-- In a folder, only the files below the entry that changes can change. -/
theorem flatMap_setNamed {entries : List (Text × Entry)} {name : Text} (time : Int)
    (g : Text × Entry → List Path) (hsorted : entries.Pairwise fun a b => a.1 < b.1)
    (h : new.elim [] (fun x => g (name, x)) =
      ((Entry.folder entries time).get? [name]).elim [] fun x => g (name, x)) :
    (Entry.setNamed name new entries).flatMap g = entries.flatMap g := by
  induction entries with
  | nil =>
    cases new with
    | none => rfl
    | some x => simpa [Entry.setNamed, Entry.insertNamed, Entry.get?, Entry.entries] using h
  | cons entry entries ih =>
    obtain ⟨hfirst, hsorted⟩ := List.pairwise_cons.1 hsorted
    rw [Entry.get?_cons_entries] at h
    by_cases hname : entry.1 = name
    · subst hname
      simp only [if_true, Option.elim_some] at h
      cases new with
      | none =>
        have hrest : entries.filter (·.1 != entry.1) = entries :=
          List.filter_eq_self.2 fun other hother => by simpa using (hfirst other hother).ne'
        simp [Entry.setNamed, hrest, ← h]
      | some x => simpa [Entry.setNamed, Entry.insertNamed] using h
    · rw [if_neg hname] at h
      have hstep : Entry.setNamed name new (entry :: entries) =
          entry :: Entry.setNamed name new entries ∨
          (∀ other ∈ entry :: entries, other.1 ≠ name) ∧
            ∃ x, new = some x ∧
              Entry.setNamed name new (entry :: entries) = (name, x) :: entry :: entries := by
        cases new with
        | none => exact .inl (by simp [Entry.setNamed, hname])
        | some x =>
          by_cases hlt : name < entry.1
          · refine .inr ⟨fun other hother => ?_, x, rfl, ?_⟩
            · rcases List.mem_cons.1 hother with rfl | hother
              · exact hname
              · exact (hlt.trans (hfirst other hother)).ne'
            · simp [Entry.setNamed, Entry.insertNamed, hname, hlt]
          · exact .inl (by simp [Entry.setNamed, Entry.insertNamed, hname, hlt])
      rcases hstep with hstep | ⟨hne, x, rfl, hstep⟩
      · rw [hstep, List.flatMap_cons, List.flatMap_cons, ih hsorted h]
      · rw [Entry.get?_singleton_of_forall_ne time
          fun other hother => hne other (List.mem_cons_of_mem _ hother)] at h
        have hx : g (name, x) = [] := h
        rw [hstep, List.flatMap_cons, hx, List.nil_append]

/-- A change that nothing is listed for before and after leaves the list as it is. -/
theorem visit_change (he : e.Proper)
    (h : new.elim [] (q.visit (p.descend names)) =
      (e.get? names).elim [] (q.visit (p.descend names))) :
    q.visit p (e.change names new) = q.visit p e := by
  induction names generalizing e p with
  | nil =>
    cases new with
    | none => rfl
    | some x => exact h
  | cons name names ih =>
    cases he with
    | file text time => rw [Entry.change_file]
    | @folder entries time hsorted hnames hinner =>
      have hproper : (Entry.folder entries time).Proper := .folder hsorted hnames hinner
      cases names with
      | nil =>
        rw [Entry.change_singleton, visit_folder, visit_folder, flatMap_setNamed time _ hsorted h]
      | cons next names =>
        rw [Entry.change_cons_cons]
        cases hchild : (Entry.folder entries time).get? [name] with
        | none => rfl
        | some child =>
          rw [Entry.get?_cons, hchild] at h
          have hin := ih (hproper.get? hchild).1 h
          simp only
          rw [visit_folder, visit_folder, flatMap_setNamed time _ hsorted]
          rw [hchild]
          exact hin

/-- What is listed below any names stays the same if nothing is listed for the change. -/
theorem below_change (he : e.Proper) (hold : e.hasFolder names = false)
    (hnew : ∀ x ∈ new, x.entries = [])
    (hquiet : ∀ behind, above ++ behind = names →
      new.elim [] (q.visit (p.descend behind)) = [] ∧
        (e.get? names).elim [] (q.visit (p.descend behind)) = []) :
    q.below (e.change names new) p above = q.below e p above := by
  induction above generalizing e names with
  | nil =>
    obtain ⟨hquiet, hquiet'⟩ := hquiet names rfl
    exact visit_change he (hquiet.trans hquiet'.symm)
  | cons first above ih =>
    have hleaf : ∀ found : Option Entry, (∀ x ∈ found, x.entries = []) →
        (found.bind (·.get? above)).elim [] (q.visit p) =
          if above = [] then found.elim [] (q.visit p) else [] := by
      intro found hfound
      cases found with
      | none => simp
      | some x =>
        cases above with
        | nil => rfl
        | cons second above => simp [Entry.get?_of_entries_eq_nil (hfound x rfl)]
    simp only [below]
    rw [Entry.get?_cons, Entry.get?_cons e]
    cases names with
    | nil =>
      have he : e.entries = [] := Entry.entries_eq_nil hold rfl
      cases new with
      | none => rfl
      | some x =>
        rw [Entry.change, Entry.put, Entry.get?_of_entries_eq_nil he,
          Entry.get?_of_entries_eq_nil (hnew x rfl)]
    | cons name names =>
      cases he with
      | file text time => rw [Entry.change_file]
      | @folder entries time hsorted hnames hinner =>
        by_cases hfirst : first = name
        · subst hfirst
          cases names with
          | nil =>
            have hthere : ∀ child ∈ (Entry.folder entries time).get? [first],
                child.entries = [] := fun child hchild => Entry.entries_eq_nil hold hchild
            rw [Entry.change_singleton, Entry.get?_setNamed_self, hleaf _ hnew, hleaf _ hthere]
            split
            · rename_i habove
              obtain ⟨hquiet, hquiet'⟩ := hquiet [] (by rw [habove]; rfl)
              exact hquiet.trans hquiet'.symm
            · rfl
          | cons next names =>
            rw [Entry.get?_change_cons_cons]
            cases hchild : (Entry.folder entries time).get? [first] with
            | none => rfl
            | some child =>
              have hproper : (Entry.folder entries time).Proper := .folder hsorted hnames hinner
              rw [Entry.hasFolder_cons, hchild] at hold
              rw [Entry.get?_cons, hchild] at hquiet
              exact ih (hproper.get? hchild).1 hold fun behind hbehind =>
                hquiet behind (congrArg _ hbehind)
        · rw [Entry.get?_change_of_ne hfirst]

end Query

end UtilitySheet
