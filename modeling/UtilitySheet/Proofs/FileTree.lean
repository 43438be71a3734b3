import Mathlib.Data.Char
import Mathlib.Data.List.Lex
import UtilitySheet.Project.Tree

/-!
# Looking up in a changed tree

What stands at names after something was put at other names, and where a path leads. A change puts
an entry without entries of its own, a file or an empty folder, where no folder is: then every
folder stays, and so does every file elsewhere (`hasFolder_change`, `change_of_ne`). A path is
followed through folders only, so it leads in the changed tree where it led before
(`follow_mono`).
-/

namespace UtilitySheet

/-- Whether a step is a name: it leads somewhere, and not back. -/
def Path.isName (step : Text) : Bool := Path.moves step && step != ['.', '.']

namespace Path

theorem isName_iff {step : Text} : isName step = true ↔ moves step = true ∧ step ≠ ['.', '.'] := by
  simp [isName]

theorem ne_nil_of_isName {step : Text} (h : isName step = true) : step ≠ [] := by
  rintro rfl
  exact absurd h (by decide)

theorem ne_dot_of_moves {step : Text} (h : moves step = true) : step ≠ ['.'] := by
  rintro rfl
  exact absurd h (by decide)

/-- A path whose last part is a name ends in it. -/
theorem fileName?_of_parts {p : Path} {front : List Text} {last : Text}
    (h : p.parts = front ++ [last]) (hlast : isName last = true) : p.fileName? = some last := by
  obtain ⟨hmoves, hdots⟩ := isName_iff.1 hlast
  rw [fileName?, h, List.getLast?_concat]
  simp [ne_dot_of_moves hmoves, hdots]

end Path

namespace Entry

/-! ## What stands at names -/

/-- The text and the time of the file that the names lead to. -/
def file? (e : Entry) (names : List Text) : Option (Option Text × Int) :=
  match e.get? names with
  | some (.file text time) => some (text, time)
  | _ => none

/-- Whether the names lead to a folder. -/
def hasFolder (e : Entry) (names : List Text) : Bool := (e.get? names).any isFolder

@[simp] theorem get?_nil (e : Entry) : e.get? [] = some e := rfl

theorem get?_cons (e : Entry) (name : Text) (names : List Text) :
    e.get? (name :: names) = (e.get? [name]).bind (·.get? names) := by
  simp only [get?]
  cases e.entries.find? (·.1 == name) <;> rfl

theorem get?_append (e : Entry) (names more : List Text) :
    e.get? (names ++ more) = (e.get? names).bind (·.get? more) := by
  induction names generalizing e with
  | nil => rfl
  | cons name names ih =>
    rw [List.cons_append, get?_cons, get?_cons e name names, Option.bind_assoc]
    exact Option.bind_congr fun child _ => ih child

theorem get?_of_entries_eq_nil {e : Entry} (h : e.entries = []) (name : Text) (names : List Text) :
    e.get? (name :: names) = none := by
  simp [get?, h]

theorem hasFolder_iff {e : Entry} {names : List Text} :
    e.hasFolder names = true ↔ ∃ entries time, e.get? names = some (.folder entries time) := by
  unfold hasFolder
  cases e.get? names with
  | none => simp
  | some found => cases found <;> simp [isFolder]

theorem file?_eq_some {e : Entry} {names : List Text} {text : Option Text} {time : Int} :
    e.file? names = some (text, time) ↔ e.get? names = some (.file text time) := by
  unfold file?
  cases e.get? names with
  | none => simp
  | some found => cases found <;> simp

theorem file?_of_hasFolder {e : Entry} {names : List Text} (h : e.hasFolder names = true) :
    e.file? names = none := by
  obtain ⟨entries, time, hget⟩ := hasFolder_iff.1 h
  simp [file?, hget]

theorem file?_cons (e : Entry) (name : Text) (names : List Text) :
    e.file? (name :: names) = (e.get? [name]).bind (·.file? names) := by
  simp only [file?, get?_cons e name names]
  cases e.get? [name] <;> rfl

theorem hasFolder_cons (e : Entry) (name : Text) (names : List Text) :
    e.hasFolder (name :: names) = (e.get? [name]).any (·.hasFolder names) := by
  simp only [hasFolder, get?_cons e name names]
  cases e.get? [name] <;> rfl

/-- Names lead beyond folders only. -/
theorem hasFolder_of_get?_append {e x : Entry} {names more : List Text}
    (h : e.get? (names ++ more) = some x) (hne : more ≠ []) : e.hasFolder names = true := by
  obtain ⟨name, more, rfl⟩ := List.exists_cons_of_ne_nil hne
  rw [get?_append] at h
  obtain ⟨found, hfound, h⟩ := Option.bind_eq_some_iff.1 h
  cases found with
  | file text time => exact absurd (h.symm.trans (get?_of_entries_eq_nil rfl _ _)) (by simp)
  | folder entries time => exact hasFolder_iff.2 ⟨entries, time, hfound⟩

theorem hasFolder_of_append {e : Entry} {names more : List Text}
    (h : e.hasFolder (names ++ more) = true) : e.hasFolder names = true := by
  by_cases hne : more = []
  · simpa [hne] using h
  · obtain ⟨entries, time, hget⟩ := hasFolder_iff.1 h
    exact hasFolder_of_get?_append hget hne

/-- What is no folder has no entries. -/
theorem entries_eq_nil {e x : Entry} {names : List Text} (h : e.hasFolder names = false)
    (hget : e.get? names = some x) : x.entries = [] := by
  cases x with
  | file text time => rfl
  | folder entries time => simp [hasFolder, hget, isFolder] at h

/-! ## Changing one entry -/

/-- The entries with `new` under a name, or with nothing there. -/
def setNamed (name : Text) (new : Option Entry) (entries : List (Text × Entry)) :
    List (Text × Entry) :=
  match new with
  | some child => insertNamed name child entries
  | none => entries.filter (·.1 != name)

/-- The tree with `new` where the names lead, or with nothing there. -/
def change (e : Entry) (names : List Text) (new : Option Entry) : Entry :=
  match new with
  | some new => e.put names new
  | none => e.erase names

theorem get?_setNamed_self (name : Text) (new : Option Entry) (entries : List (Text × Entry))
    (time : Int) : (folder (setNamed name new entries) time).get? [name] = new := by
  suffices (setNamed name new entries).find? (·.1 == name) = new.map (name, ·) by
    simp only [get?, Entry.entries, this]
    cases new <;> rfl
  cases new with
  | none => simp [setNamed]
  | some child =>
    simp only [setNamed, Option.map_some]
    induction entries with
    | nil => simp [insertNamed]
    | cons entry entries ih =>
      rw [insertNamed]
      split
      · simp_all
      · split
        · simp
        · simp_all

theorem get?_setNamed_of_ne {name other : Text} (h : other ≠ name) (new : Option Entry)
    (entries : List (Text × Entry)) (time : Int) :
    (folder (setNamed name new entries) time).get? [other] =
      (folder entries time).get? [other] := by
  suffices (setNamed name new entries).find? (·.1 == other) =
      entries.find? (·.1 == other) by
    simp [get?, Entry.entries, this]
  have hname : (name == other) = false := by simpa using Ne.symm h
  cases new with
  | none =>
    rw [setNamed, List.find?_filter]
    congr 1
    funext entry
    by_cases hother : entry.1 = other <;> simp_all
  | some child =>
    simp only [setNamed]
    induction entries with
    | nil => simp [insertNamed, hname]
    | cons entry entries ih =>
      rw [insertNamed]
      split
      · simp_all
      · split
        · simp [hname]
        · simp only [List.find?_cons, ih]

theorem change_singleton (entries : List (Text × Entry)) (time : Int) (name : Text)
    (new : Option Entry) :
    (folder entries time).change [name] new = folder (setNamed name new entries) time := by
  cases new <;> rfl

/-- Below a folder, the entry of the first name is changed. -/
theorem change_cons_cons (entries : List (Text × Entry)) (time : Int) (name next : Text)
    (names : List Text) (new : Option Entry) :
    (folder entries time).change (name :: next :: names) new =
      match (folder entries time).get? [name] with
      | some child => folder (setNamed name (child.change (next :: names) new) entries) time
      | none => folder entries time := by
  cases new <;> simp only [change, put, erase, get?, setNamed, Entry.entries] <;>
    cases entries.find? (·.1 == name) <;> rfl

theorem change_file (text : Option Text) (time : Int) (name : Text) (names : List Text)
    (new : Option Entry) : (file text time).change (name :: names) new = file text time := by
  cases new <;> cases names <;> rfl

/-- A folder in which something changes stays a folder. -/
theorem exists_change_folder (entries : List (Text × Entry)) (time : Int) (name : Text)
    (names : List Text) (new : Option Entry) :
    ∃ entries', (folder entries time).change (name :: names) new = folder entries' time := by
  cases names with
  | nil => exact ⟨_, change_singleton entries time name new⟩
  | cons next names =>
    rw [change_cons_cons]
    cases (folder entries time).get? [name] with
    | none => exact ⟨_, rfl⟩
    | some child => exact ⟨_, rfl⟩

/-- Under other names the entries stay. -/
theorem get?_change_of_ne {name other : Text} (h : other ≠ name) (entries : List (Text × Entry))
    (time : Int) (names : List Text) (new : Option Entry) :
    ((folder entries time).change (name :: names) new).get? [other] =
      (folder entries time).get? [other] := by
  cases names with
  | nil => rw [change_singleton, get?_setNamed_of_ne h]
  | cons next names =>
    rw [change_cons_cons]
    cases (folder entries time).get? [name] with
    | none => rfl
    | some child => exact get?_setNamed_of_ne h ..

/-- Under the first name the rest is changed. -/
theorem get?_change_cons_cons (entries : List (Text × Entry)) (time : Int) (name next : Text)
    (names : List Text) (new : Option Entry) :
    ((folder entries time).change (name :: next :: names) new).get? [name] =
      ((folder entries time).get? [name]).map (·.change (next :: names) new) := by
  rw [change_cons_cons]
  cases hchild : (folder entries time).get? [name] with
  | none => simp [hchild]
  | some child => simp [get?_setNamed_self]

section change

variable {e : Entry} {names : List Text} {new : Option Entry}

/-- In a folder that exists, the change is found where it was made. -/
theorem get?_change_self {name : Text} (h : e.hasFolder names = true) :
    (e.change (names ++ [name]) new).get? (names ++ [name]) = new := by
  induction names generalizing e with
  | nil =>
    obtain ⟨entries, time, he⟩ := hasFolder_iff.1 h
    obtain rfl := Option.some.inj he
    rw [List.nil_append, change_singleton]
    exact get?_setNamed_self name new entries time
  | cons first names ih =>
    cases e with
    | file text time => simp [hasFolder, get?_of_entries_eq_nil (e := .file text time) rfl] at h
    | folder entries time =>
      rw [hasFolder_cons, Option.any_eq_true] at h
      obtain ⟨child, hchild, h⟩ := h
      obtain ⟨next, rest, hnext⟩ := List.exists_cons_of_ne_nil
        (List.append_ne_nil_of_right_ne_nil names (List.cons_ne_nil name []))
      have hin := ih h
      rw [List.cons_append, hnext] at *
      rw [get?_cons, get?_change_cons_cons, hchild]
      exact hin

/-- Nothing stands below an entry that has no entries of its own. -/
theorem nothing_below {found : Option Entry} (h : ∀ x ∈ found, x.entries = []) (name : Text)
    (names : List Text) : found.bind (·.file? (name :: names)) = none ∧
      found.any (·.hasFolder (name :: names)) = false := by
  cases found with
  | none => exact ⟨rfl, rfl⟩
  | some x => simp [file?, hasFolder, get?_of_entries_eq_nil (h x rfl)]

/-- Elsewhere the same files and folders stand. -/
theorem change_of_ne {other : List Text} (hold : e.hasFolder names = false)
    (hnew : ∀ x ∈ new, x.entries = []) (hne : other ≠ names) :
    (e.change names new).file? other = e.file? other ∧
      (e.change names new).hasFolder other = e.hasFolder other := by
  induction names generalizing e other with
  | nil =>
    obtain ⟨first, rest, rfl⟩ := List.exists_cons_of_ne_nil hne
    have he : e.entries = [] := entries_eq_nil hold rfl
    cases new with
    | none => exact ⟨rfl, rfl⟩
    | some new => simp [change, put, file?, hasFolder, get?_of_entries_eq_nil, hnew, he]
  | cons name names ih =>
    cases e with
    | file text time => rw [change_file]; exact ⟨rfl, rfl⟩
    | folder entries time =>
      cases other with
      | nil =>
        obtain ⟨entries', heq⟩ := exists_change_folder entries time name names new
        rw [heq]
        exact ⟨rfl, rfl⟩
      | cons first rest =>
        simp only [file?_cons, hasFolder_cons]
        by_cases hfirst : first = name
        · subst hfirst
          have hrest : rest ≠ names := fun h => hne (congrArg _ h)
          cases names with
          | nil =>
            obtain ⟨second, rest, rfl⟩ := List.exists_cons_of_ne_nil hrest
            have hthere : ∀ child ∈ (folder entries time).get? [first], child.entries = [] :=
              fun child hchild => entries_eq_nil hold hchild
            obtain ⟨hfile, hfolder⟩ := nothing_below hnew second rest
            obtain ⟨hfile', hfolder'⟩ := nothing_below hthere second rest
            rw [change_singleton, get?_setNamed_self, hfile, hfolder, hfile', hfolder']
            exact ⟨rfl, rfl⟩
          | cons next names =>
            rw [get?_change_cons_cons]
            cases hchild : (folder entries time).get? [first] with
            | none => exact ⟨rfl, rfl⟩
            | some child =>
              rw [hasFolder_cons, hchild] at hold
              exact ih hold hrest
        · rw [get?_change_of_ne hfirst]
          exact ⟨rfl, rfl⟩

theorem hasFolder_change {other : List Text} (hold : e.hasFolder names = false)
    (hnew : ∀ x ∈ new, x.entries = []) (h : e.hasFolder other = true) :
    (e.change names new).hasFolder other = true := by
  have hne : other ≠ names := by
    rintro rfl
    rw [h] at hold
    cases hold
  rw [(change_of_ne hold hnew hne).2, h]

end change

/-! ## Following a path -/

/-- Whether a path leads to the names, however long it is. -/
def Leads (e : Entry) (p : Path) (names : List Text) : Prop := e.follow [] p.steps = .ok names

variable {e e' : Entry} {here names : List Text} {step : Text} {steps : List Text}

theorem follow_cons_eq_ok : e.follow here (step :: steps) = .ok names ↔
    e.hasFolder here = true ∧
      if step = ['.', '.'] then e.follow here.dropLast steps = .ok names
      else if !Path.moves step then e.follow here steps = .ok names
      else byteCount step ≤ longestName ∧ e.follow (here ++ [step]) steps = .ok names := by
  rw [follow, hasFolder]
  cases e.get? here with
  | none => simp
  | some found =>
    cases found with
    | file text time => simp [isFolder]
    | folder entries time =>
      simp only [Option.any_some, isFolder, true_and]
      split
      · rfl
      · split
        · rfl
        · by_cases hlong : byteCount step > longestName
          · simp [hlong, Nat.not_le.2 hlong]
          · simp [hlong, Nat.not_lt.1 hlong]

/-- What holds of the names of a folder along a path holds of the names that the path leads to. -/
theorem follow_induction {P : List Text → Prop} (h : e.follow here steps = .ok names) (hhere : P here)
    (hback : ∀ here, e.hasFolder here = true → P here → P here.dropLast)
    (hon : ∀ here step, e.hasFolder here = true → P here → Path.isName step = true →
      byteCount step ≤ longestName → P (here ++ [step])) : P names := by
  induction steps generalizing here with
  | nil =>
    obtain rfl := Except.ok.inj h
    exact hhere
  | cons step steps ih =>
    obtain ⟨hfolder, h⟩ := follow_cons_eq_ok.1 h
    split at h
    · exact ih h (hback here hfolder hhere)
    · rename_i hdots
      split at h
      · exact ih h hhere
      · rename_i hmoves
        have hname : Path.isName step = true := Path.isName_iff.2 ⟨by simpa using hmoves, hdots⟩
        exact ih h.2 (hon here step hfolder hhere hname h.1)

theorem follow_append_eq_ok {more : List Text} : e.follow here (steps ++ more) = .ok names ↔
    ∃ mid, e.follow here steps = .ok mid ∧ e.follow mid more = .ok names := by
  induction steps generalizing here with
  | nil => simp [follow]
  | cons step steps ih =>
    simp only [List.cons_append, follow_cons_eq_ok, ih]
    by_cases hdots : step = ['.', '.']
    · simp only [hdots, if_true]
      grind
    · by_cases hmoves : (!Path.moves step) = true
      · simp only [hdots, hmoves, if_true, if_false]
        grind
      · simp only [hdots, hmoves, if_false]
        grind

/-- A path leads where it led before if all folders are still there. -/
theorem follow_mono (hfolders : ∀ names, e.hasFolder names = true → e'.hasFolder names = true)
    (h : e.follow here steps = .ok names) : e'.follow here steps = .ok names := by
  induction steps generalizing here with
  | nil => exact h
  | cons step steps ih =>
    rw [follow_cons_eq_ok] at h ⊢
    refine ⟨hfolders here h.1, ?_⟩
    have h := h.2
    split
    · rw [if_pos ‹_›] at h
      exact ih h
    · rw [if_neg ‹_›] at h
      split
      · rw [if_pos ‹_›] at h
        exact ih h
      · rw [if_neg ‹_›] at h
        exact ⟨h.1, ih h.2⟩

/-- A path leads to names that an entry can have, behind the names that it starts from. -/
theorem follow_isName (h : e.follow here steps = .ok names)
    (hhere : ∀ n ∈ here, Path.isName n = true ∧ byteCount n ≤ longestName) :
    ∀ n ∈ names, Path.isName n = true ∧ byteCount n ≤ longestName := by
  refine follow_induction
    (P := fun names => ∀ n ∈ names, Path.isName n = true ∧ byteCount n ≤ longestName) h hhere
    (fun here _ ih n hn => ih n (List.dropLast_subset _ hn)) ?_
  intro here step _ ih hname hshort n hn
  rcases List.mem_append.1 hn with hn | hn
  · exact ih n hn
  · obtain rfl := List.mem_singleton.1 hn
    exact ⟨hname, hshort⟩

/-- What a path leads to stands in a folder. -/
theorem follow_hasFolder {front : List Text} {last : Text}
    (h : e.follow [] steps = .ok (front ++ [last])) : e.hasFolder front = true := by
  refine follow_induction
    (P := fun names => ∀ front last, names = front ++ [last] → e.hasFolder front = true) h ?_
    (fun here hfolder _ front last hhere => ?_) (fun here step hfolder _ _ _ front last hhere => ?_)
    front last rfl
  · intro front last hnil
    cases front <;> cases hnil
  · have hprefix := List.dropLast_prefix here
    rw [hhere] at hprefix
    obtain ⟨more, rfl⟩ := hprefix
    rw [List.append_assoc] at hfolder
    exact hasFolder_of_append hfolder
  · rwa [← (List.append_inj' hhere rfl).1]

/-- Names lead straight on. -/
theorem follow_of_isName (hsteps : ∀ s ∈ steps, Path.isName s = true)
    (h : e.follow here steps = .ok names) : names = here ++ steps := by
  induction steps generalizing here with
  | nil =>
    obtain rfl := Except.ok.inj h
    simp
  | cons step steps ih =>
    obtain ⟨hname, hsteps⟩ := List.forall_mem_cons.1 hsteps
    obtain ⟨hmoves, hdots⟩ := Path.isName_iff.1 hname
    obtain ⟨-, h⟩ := follow_cons_eq_ok.1 h
    rw [if_neg hdots, if_neg (by simp [hmoves])] at h
    simpa using ih hsteps h.2

/-- Names lead to what stands there. -/
theorem follow_eq_ok_of_get? {x : Entry}
    (hsteps : ∀ s ∈ steps, Path.isName s = true ∧ byteCount s ≤ longestName)
    (h : e.get? (here ++ steps) = some x) : e.follow here steps = .ok (here ++ steps) := by
  induction steps generalizing here with
  | nil => simp [follow]
  | cons step steps ih =>
    obtain ⟨⟨hname, hshort⟩, hsteps⟩ := List.forall_mem_cons.1 hsteps
    obtain ⟨hmoves, hdots⟩ := Path.isName_iff.1 hname
    rw [follow_cons_eq_ok, if_neg hdots, if_neg (by simp [hmoves])]
    refine ⟨hasFolder_of_get?_append h (List.cons_ne_nil _ _), hshort, ?_⟩
    have hin : e.follow (here ++ [step]) steps = .ok (here ++ [step] ++ steps) :=
      ih hsteps (by simpa using h)
    simpa using hin

/-- The steps that lead nowhere may be left out. -/
theorem follow_filter (h : e.follow here steps = .ok names) :
    e.follow here (steps.filter Path.moves) = .ok names := by
  induction steps generalizing here with
  | nil => exact h
  | cons step steps ih =>
    obtain ⟨hfolder, h⟩ := follow_cons_eq_ok.1 h
    by_cases hmoves : Path.moves step = true
    · rw [List.filter_cons_of_pos hmoves, follow_cons_eq_ok]
      refine ⟨hfolder, ?_⟩
      split
      · rw [if_pos ‹_›] at h
        exact ih h
      · rw [if_neg ‹_›, if_neg (by simp [hmoves])] at h
        rw [if_neg (by simp [hmoves])]
        exact ⟨h.1, ih h.2⟩
    · have hdots : step ≠ ['.', '.'] := by
        rintro rfl
        exact hmoves (by decide)
      rw [if_neg hdots, if_pos (by simp [hmoves])] at h
      rw [List.filter_cons_of_neg hmoves]
      exact ih h

/-- A path to a name leads to something of that name. -/
theorem follow_getLast? {name : Text} (h : e.follow here steps = .ok names)
    (hlast : (steps.filter Path.moves).getLast? = some name) (hname : name ≠ ['.', '.']) :
    names.getLast? = some name := by
  have h := follow_filter h
  obtain ⟨front, hfront⟩ := List.getLast?_eq_some_iff.1 hlast
  have hmoves : Path.moves name = true :=
    (List.mem_filter.1 (List.mem_of_getLast? hlast)).2
  rw [hfront] at h
  obtain ⟨mid, -, h⟩ := follow_append_eq_ok.1 h
  have hone := follow_of_isName (by simpa using Path.isName_iff.2 ⟨hmoves, hname⟩) h
  simp [hone]

theorem Leads.getLast? {p : Path} {name : Text} (h : e.Leads p names)
    (hname : p.fileName? = some name) : names.getLast? = some name := by
  obtain ⟨hlast, hdots⟩ := Option.filter_eq_some_iff.1 hname
  simp only [Bool.and_eq_true, bne_iff_ne, ne_eq] at hdots
  refine follow_getLast? h ?_ hdots.2
  rw [Path.parts] at hlast
  split at hlast
  · cases hnames : p.names with
    | nil => simp_all
    | cons first rest =>
      rw [hnames, List.getLast?_cons_cons, ← hnames] at hlast
      exact hlast
  · exact hlast

end Entry

end UtilitySheet
