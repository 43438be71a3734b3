import UtilitySheet.Proofs.ByteOrder
import UtilitySheet.Proofs.Search

/-!
# The list of a search

Folders list their entries in any order; a search goes through them in the order of their names
(`Entry.arranged`). It never enters an excluded place, and yet its list is what a filter over all
files at or below the root lets through, each file once and in the order of the bytes of its path
(`Query.find_lists_wanted`).
-/

namespace UtilitySheet

namespace Entry

variable {e x : Entry} {names : List Text}

/-! ## Trees in any order -/

/-- A tree as folders may list it: every entry has a name. -/
inductive Named : Entry → Prop
  | file (text : Option Text) (time : Int) : Named (.file text time)
  | folder {entries : List (Text × Entry)} {time : Int}
      (names : ∀ entry ∈ entries, Path.isName entry.1 = true)
      (inner : ∀ entry ∈ entries, Named entry.2) : Named (.folder entries time)

theorem sorted_arrangedIn (entries : List (Text × Entry)) :
    (arrangedIn entries).Pairwise fun a b => a.1 < b.1 := by
  induction entries with
  | nil => exact .nil
  | cons entry entries ih => exact sorted_insertNamed ih entry.1 entry.2.arranged

theorem mem_arrangedIn {entries : List (Text × Entry)} {entry : Text × Entry}
    (h : entry ∈ arrangedIn entries) :
    ∃ listed ∈ entries, entry = (listed.1, listed.2.arranged) := by
  induction entries with
  | nil => cases h
  | cons first entries ih =>
    rcases mem_insertNamed h with rfl | h
    · exact ⟨first, List.mem_cons_self, rfl⟩
    · obtain ⟨listed, hlisted, rfl⟩ := ih h
      exact ⟨listed, List.mem_cons_of_mem _ hlisted, rfl⟩

theorem Named.get? (h : e.Named) (hx : e.get? names = some x) : x.Named := by
  induction names generalizing e with
  | nil =>
    obtain rfl := Option.some.inj hx
    exact h
  | cons name names ih =>
    rw [get?_cons] at hx
    obtain ⟨child, hchild, hinner⟩ := Option.bind_eq_some_iff.1 hx
    cases h with
    | file text time => cases hchild
    | folder _ hnamed => exact ih (hnamed _ (mem_of_get?_singleton hchild)) hinner

theorem proper_arranged (h : e.Named) : e.arranged.Proper := by
  induction h with
  | file text time => exact .file text time
  | folder hnames _ ih =>
    refine .folder (sorted_arrangedIn _) (fun entry hentry => ?_) fun entry hentry => ?_
    · obtain ⟨listed, hlisted, rfl⟩ := mem_arrangedIn hentry
      exact hnames listed hlisted
    · obtain ⟨listed, hlisted, rfl⟩ := mem_arrangedIn hentry
      exact ih listed hlisted

/-- What stands at a name does not depend on the order. -/
theorem get?_arrangedIn (entries : List (Text × Entry)) (time : Int) (name : Text) :
    (folder (arrangedIn entries) time).get? [name] =
      ((folder entries time).get? [name]).map arranged := by
  induction entries with
  | nil => rfl
  | cons entry entries ih =>
    have hstep : arrangedIn (entry :: entries) =
        setNamed entry.1 (some entry.2.arranged) (arrangedIn entries) := rfl
    rw [hstep, get?_cons_entries]
    split
    · rename_i hname
      subst hname
      exact get?_setNamed_self entry.1 _ _ time
    · rename_i hname
      rw [get?_setNamed_of_ne (Ne.symm hname), ih]

theorem get?_arranged (e : Entry) (names : List Text) :
    e.arranged.get? names = (e.get? names).map arranged := by
  induction names generalizing e with
  | nil => rfl
  | cons name names ih =>
    have hfirst : e.arranged.get? [name] = (e.get? [name]).map arranged := by
      cases e with
      | file text time => rfl
      | folder entries time => exact get?_arrangedIn entries time name
    rw [get?_cons, hfirst, get?_cons e name names]
    cases e.get? [name] with
    | none => rfl
    | some child => exact ih child

theorem file?_arranged (e : Entry) (names : List Text) :
    e.arranged.file? names = e.file? names := by
  rw [file?, file?, get?_arranged]
  cases e.get? names with
  | none => rfl
  | some found => cases found <;> rfl

theorem find_eq_ok_iff {p : Path} :
    e.find p = .ok x ↔ ∃ names, e.locate p = .ok names ∧ e.get? names = some x := by
  rw [find]
  cases e.locate p with
  | error stopped => simp [bind, Except.bind]
  | ok names =>
    simp only [bind, Except.bind, Except.ok.injEq, exists_eq_left']
    cases e.get? names <;> simp [pure, Except.pure, throw, throwThe, MonadExceptOf.throw]

end Entry

/-- The components of a path in bytes. -/
def Path.byteComponents (p : Path) : List (List UInt8) := p.components.map Text.bytes

/-- What stands below one folder is in the order of the names behind it. -/
theorem Path.byteComponents_descend_lt (p : Path) {names names' : List Text}
    (h : ∀ n ∈ names, isName n = true) (h' : ∀ n ∈ names', isName n = true)
    (hlt : names < names') :
    (p.descend names).byteComponents < (p.descend names').byteComponents := by
  rw [byteComponents, byteComponents, components_descend p h, components_descend p h',
    List.map_append, List.map_append]
  exact List.append_left_lt (Text.map_bytes_lt hlt)

namespace Query

variable {q : Query} {tree e : Entry} {root : Path}

theorem find_eq_visit (h : tree.find root = .ok e) :
    q.find tree root = .ok (q.visit root e.arranged) := by
  rw [find, h]
  rfl

/-- In a tree in order the list of a search is in the order of bytes. -/
theorem pairwise_visit (he : e.Proper) (q : Query) (p : Path) :
    (q.visit p e).Pairwise fun f g => f.byteComponents < g.byteComponents := by
  rw [visit_eq q p he, List.pairwise_map]
  have hnames : ∀ names ∈ e.fileNames, ∀ n ∈ names, Path.isName n = true := by
    intro names hmem
    obtain ⟨⟨text, time⟩, hsome⟩ := Option.isSome_iff_exists.1 ((Entry.mem_fileNames he).1 hmem)
    exact (he.get? (Entry.file?_eq_some.1 hsome)).2
  refine ((Entry.pairwise_fileNames he).imp_of_mem fun h h' hlt => ?_).filter _
  exact Path.byteComponents_descend_lt p (hnames _ h) (hnames _ h') hlt

/-- **A search lists the files at or below its root that have the extension and whose own path is
not excluded, each once and in the order of the bytes of their paths,** in whatever order folders
list their entries. -/
theorem find_lists_wanted (htree : tree.Named) (hroot : tree.find root = .ok e) (q : Query) :
    ∃ files, q.find tree root = .ok files ∧
      (∀ f, f ∈ files ↔ ∃ names, f = root.descend names ∧ (e.file? names).isSome = true ∧
        f.hasExtension q.extension = true ∧ q.filter.excludes f = false) ∧
      files.Nodup ∧ files.Pairwise fun f g => f.byteComponents < g.byteComponents := by
  obtain ⟨above, -, hget⟩ := Entry.find_eq_ok_iff.1 hroot
  have he : e.arranged.Proper := Entry.proper_arranged (htree.get? hget)
  have hsorted := pairwise_visit he q root
  refine ⟨q.visit root e.arranged, find_eq_visit hroot, fun f => ?_, ?_, hsorted⟩
  · simp only [mem_visit_iff he, Entry.file?_arranged, wants, Bool.and_eq_true, Bool.not_eq_true']
  · refine hsorted.imp fun hlt heq => ?_
    exact absurd (heq ▸ hlt) (List.lt_irrefl _)

/-- A tree whose folders list their entries in no order. -/
def shuffledTree : Entry :=
  .folder
    [("pages", .folder
        [("b.HTML", .file none 0), ("node_modules", .folder [("c.html", .file none 0)] 0),
         ("a.html", .file none 0), ("a.css", .file none 0)] 0),
     ("index.html", .file none 0),
     ("drafts", .folder [("d.html", .file none 0)] 0)] 0

theorem named_shuffledTree : shuffledTree.Named := by
  have hleaf : ∀ name : Text, Path.isName name = true →
      (Entry.folder [(name, .file none 0)] 0).Named := by
    intro name hname
    refine .folder (by simpa using hname) fun entry hentry => ?_
    obtain rfl := List.mem_singleton.1 hentry
    exact .file _ _
  refine .folder (by decide) fun entry hentry => ?_
  simp only [List.mem_cons, List.not_mem_nil, or_false] at hentry
  rcases hentry with rfl | rfl | rfl
  · refine .folder (by decide) fun entry hentry => ?_
    simp only [List.mem_cons, List.not_mem_nil, or_false] at hentry
    rcases hentry with rfl | rfl | rfl | rfl
    · exact .file _ _
    · exact hleaf _ (by decide)
    · exact .file _ _
    · exact .file _ _
  · exact .file _ _
  · exact hleaf _ (by decide)

/-- In it the pages outside of the drafts and of the dependencies are listed in order. -/
theorem find_lists_wanted_shuffled :
    shuffledTree.Named ∧ shuffledTree.find ⟨true, []⟩ = .ok shuffledTree ∧
    ∃ files, find ⟨"html", ⟨[⟨true, ["drafts"]⟩]⟩⟩ shuffledTree ⟨true, []⟩ = .ok files ∧
      files = [⟨true, ["index.html"]⟩, ⟨true, ["pages", "a.html"]⟩, ⟨true, ["pages", "b.HTML"]⟩] ∧
      files.Pairwise fun f g => f.byteComponents < g.byteComponents := by
  have hroot : shuffledTree.find ⟨true, []⟩ = .ok shuffledTree := rfl
  obtain ⟨files, hfind, -, -, hsorted⟩ := find_lists_wanted named_shuffledTree hroot
    ⟨"html", ⟨[⟨true, ["drafts"]⟩]⟩⟩
  refine ⟨named_shuffledTree, hroot, files, hfind, ?_, hsorted⟩
  have hlist : find ⟨"html", ⟨[⟨true, ["drafts"]⟩]⟩⟩ shuffledTree ⟨true, []⟩ =
      .ok [⟨true, ["index.html"]⟩, ⟨true, ["pages", "a.html"]⟩, ⟨true, ["pages", "b.HTML"]⟩] := by
    decide +kernel
  exact Except.ok.inj (hfind.symm.trans hlist)

end Query

end UtilitySheet
