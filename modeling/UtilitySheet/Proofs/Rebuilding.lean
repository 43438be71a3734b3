import UtilitySheet.Proofs.Inputs
import UtilitySheet.Proofs.Reuse

/-!
# Building again

The filter hides the output folder from the searches, and compares paths step by step as they are
spelled. So a search reads the output back exactly where it comes to it by a path that is spelled
otherwise (`Project.readsBack_iff`), as paths with steps back are. Where a pass does not read its
output in one of these ways or another (`Project.Apart`), the next pass does the same again
(`Builder.build_again`).
-/

namespace UtilitySheet

open UtilitySheet.Path (isName moves)
open Entry (Extends)

/-! ## The path of the output -/

namespace Path

theorem moves_of_mem_resolve {p q : Path} : ∀ s ∈ (p.resolve q).steps, moves s = true :=
  moves_of_mem_names

/-- The folder of an entry at a path of steps that move. -/
theorem parent_concat {rooted : Bool} {front : List Text} {last : Text}
    (h : ∀ s ∈ front ++ [last], moves s = true) :
    parent ⟨rooted, front ++ [last]⟩ = ⟨rooted, front⟩ := by
  rw [parent, parts_of_moves h]
  simp

theorem child_of_moves {rooted : Bool} {steps : List Text} (name : Text)
    (h : ∀ s ∈ steps, moves s = true) :
    child ⟨rooted, steps⟩ name = ⟨rooted, steps ++ [name]⟩ := by
  have hopen : openEnd steps = steps := by
    rw [openEnd, if_neg]
    intro hlast
    exact absurd (h [] (List.mem_of_getLast? hlast)) (by decide)
  rw [child, hopen]

theorem components_of_moves {steps : List Text} (h : ∀ s ∈ steps, moves s = true) :
    components ⟨true, steps⟩ = ['/'] :: steps := by
  rw [components, if_pos rfl, parts_of_moves h]

end Path

namespace Config

/-- The path that the settings give for the output. -/
def buildRoot (c : Config) (root : Path) : Path := root.resolve (.ofText c.buildPath)

theorem output_of_no_extension {c : Config} {root : Path}
    (h : (c.buildRoot root).extension? = none) :
    c.output root = (c.buildRoot root).child defaultOutput := by
  unfold buildRoot at h ⊢
  simp only [output, h]

theorem output_of_extension {c : Config} {root : Path} {e : Text}
    (h : (c.buildRoot root).extension? = some e) : c.output root =
      if e = "css".toList then c.buildRoot root
      else (c.buildRoot root).parent.child defaultOutput := by
  unfold buildRoot at h ⊢
  simp only [output, h]

/-- The output is a name with the extension of a stylesheet, in the output folder. -/
theorem output_eq (c : Config) (root : Path) : ∃ front last,
    c.output root = ⟨(c.buildRoot root).rooted, front ++ [last]⟩ ∧
      c.outputFolder root = ⟨(c.buildRoot root).rooted, front⟩ ∧
      (∀ s ∈ front ++ [last], moves s = true) ∧ isName last = true ∧
      Path.extensionOfName? last = some "css".toList := by
  have hmoves : ∀ s ∈ (c.buildRoot root).steps, moves s = true := Path.moves_of_mem_resolve
  have happ : moves defaultOutput = true ∧ isName defaultOutput = true ∧
      Path.extensionOfName? defaultOutput = some "css".toList := by decide
  -- The name that is set if none is given, behind steps that move.
  have hbeside : ∀ front, (∀ s ∈ front, moves s = true) →
      ∀ s ∈ front ++ [defaultOutput], moves s = true := by
    intro front hfront s hs
    rcases List.mem_append.1 hs with hs | hs
    · exact hfront s hs
    · rw [List.mem_singleton.1 hs]
      exact happ.1
  suffices ∃ front last, c.output root = ⟨(c.buildRoot root).rooted, front ++ [last]⟩ ∧
      (∀ s ∈ front ++ [last], moves s = true) ∧ isName last = true ∧
      Path.extensionOfName? last = some "css".toList by
    obtain ⟨front, last, heq, hall, hlast⟩ := this
    exact ⟨front, last, heq, by rw [outputFolder, heq, Path.parent_concat hall], hall, hlast⟩
  cases hextension : (c.buildRoot root).extension? with
  | none =>
    have houtput := output_of_no_extension hextension
    exact ⟨_, defaultOutput, houtput.trans (Path.child_of_moves _ hmoves), hbeside _ hmoves,
      happ.2⟩
  | some e =>
    have houtput := output_of_extension hextension
    generalize c.buildRoot root = path at hmoves houtput hextension ⊢
    obtain ⟨last, hname, hlast⟩ := Option.bind_eq_some_iff.1 hextension
    rw [Path.fileName?, Path.parts_of_moves hmoves] at hname
    obtain ⟨hgetLast, hdots⟩ := Option.filter_eq_some_iff.1 hname
    simp only [Bool.and_eq_true, bne_iff_ne, ne_eq] at hdots
    obtain ⟨front, hfront⟩ := List.getLast?_eq_some_iff.1 hgetLast
    have hpath : path = ⟨path.rooted, front ++ [last]⟩ := by rw [← hfront]
    rw [hfront] at hmoves
    by_cases he : e = "css".toList
    · simp only [if_pos he] at houtput
      exact ⟨front, last, houtput.trans hpath, hmoves,
        Path.isName_iff.2 ⟨hmoves last (by simp), hdots.2⟩, he ▸ hlast⟩
    · have hfrontMoves : ∀ s ∈ front, moves s = true := fun s hs =>
        hmoves s (List.mem_append_left _ hs)
      have hparent : path.parent = ⟨path.rooted, front⟩ := by
        rw [hpath]
        exact Path.parent_concat hmoves
      simp only [if_neg he, hparent] at houtput
      exact ⟨front, defaultOutput, houtput.trans (Path.child_of_moves _ hfrontMoves),
        hbeside _ hfrontMoves, happ.2⟩

end Config

/-! ## Writing again -/

namespace Entry

variable {e left : Entry} {p : Path} {names : List Text} {now : Int}

theorem isFolderAt_iff : e.isFolderAt p = true ↔
    ∃ names, e.locate p = .ok names ∧ e.hasFolder names = true := by
  rw [isFolderAt, find]
  cases e.locate p with
  | error stopped => simp [bind, Except.bind]
  | ok names =>
    simp only [bind, Except.bind, hasFolder, Except.ok.injEq, exists_eq_left']
    cases hget : e.get? names with
    | none => simp [throw, throwThe, MonadExceptOf.throw]
    | some found => simp [pure, Except.pure]

/-- A folder that is there, at a path of steps that move, is made by doing nothing. -/
theorem makeFolder_of_isFolderAt (now : Int) (hfolder : e.isFolderAt p = true)
    (hmoves : ∀ s ∈ p.steps, moves s = true) : e.makeFolder now p = { tree := e } := by
  obtain ⟨names, hlocate, hnames⟩ := isFolderAt_iff.1 hfolder
  obtain ⟨hcheck, hleads⟩ := locate_eq_ok.1 hlocate
  have hadd : e.addFolder now p = .error .occupied := by
    rcases List.eq_nil_or_concat' p.steps with hsteps | ⟨front, last, hsteps⟩
    · have hsplit : p.split? = none := by rw [Path.split?, hsteps]; rfl
      simp [addFolder, hcheck, hsplit, bind, Except.bind, throw, throwThe, MonadExceptOf.throw]
    · have hlast : moves last = true := hmoves last (by simp [hsteps])
      have hne : last.isEmpty = false := by
        cases last with
        | nil => cases hlast
        | cons c s => rfl
      have hsplit : p.split? = some (front, last) := by
        rw [Path.split?, hsteps]
        simp [hne]
      rw [Leads, hsteps] at hleads
      obtain ⟨mid, hmid, hleads⟩ := follow_append_eq_ok.1 hleads
      obtain ⟨hmidFolder, hleads⟩ := follow_cons_eq_ok.1 hleads
      rw [addFolder_of_enter now hcheck hsplit (enter_eq_ok.2 ⟨hmid, hmidFolder⟩)]
      by_cases hdots : last = ['.', '.']
      · rw [if_pos (.inr hdots)]
      · have hdot := Path.ne_dot_of_moves hlast
        rw [if_neg hdots, if_neg (by simp [hlast])] at hleads
        obtain ⟨hshort, hleads⟩ := hleads
        obtain rfl := Except.ok.inj hleads
        obtain ⟨entries, time, hget⟩ := hasFolder_iff.1 hnames
        rw [if_neg (by simp [hdot, hdots]), if_neg (Nat.not_lt.2 hshort), hget]
  rw [makeFolder, Path.ancestors, makeFolders, hadd]
  simp [settle, hfolder]

theorem checkPath_of_makeFolder (h : (e.makeFolder now p).error = none) : checkPath p = .ok () := by
  cases hcheck : checkPath p with
  | ok u => rfl
  | error stopped =>
    have hstopped : stopped = .endMark ∨ stopped = .nameTooLong := by
      rw [checkPath] at hcheck
      split at hcheck
      · exact .inl (Except.error.inj hcheck).symm
      · split at hcheck
        · exact .inr (Except.error.inj hcheck).symm
        · cases hcheck
    have hadd : e.addFolder now p = .error stopped := by
      simp [addFolder, hcheck, bind, Except.bind]
    rw [makeFolder, Path.ancestors, makeFolders, hadd] at h
    rcases hstopped with rfl | rfl <;> simp [settle] at h

end Entry

namespace Project

variable {tree left : Entry} {p : Path} {css : Text} {now : Int}
  {rooted : Bool} {front : List Text} {last : Text}

/-- Where an output was written, another can be written, and no folder is made for it. -/
theorem writeOutput_again (css' : Text) (now' : Int) (hp : p = ⟨rooted, front ++ [last]⟩)
    (hmoves : ∀ s ∈ front ++ [last], moves s = true)
    (h : writeOutput tree p css now = (left, .ok ())) :
    ∃ again names, writeOutput left p css' now' = (again, .ok ()) ∧ left.locate p = .ok names ∧
      again.file? names = some (some css', now') ∧ Extends (· = names) left again := by
  obtain ⟨hmade, hwrite⟩ := writeOutput_eq_ok.1 h
  obtain ⟨names, hlocate, hfile, hextends⟩ := extends_of_writeOutput_ok h
  obtain ⟨hcheck, hleads⟩ := Entry.locate_eq_ok.1 hlocate
  have hparent : p.parent = ⟨rooted, front⟩ := by rw [hp, Path.parent_concat hmoves]
  have hfolder : left.isFolderAt p.parent = true := by
    rw [Entry.Leads, hp] at hleads
    obtain ⟨mid, hmid, hleads⟩ := Entry.follow_append_eq_ok.1 hleads
    have hmidFolder := (Entry.follow_cons_eq_ok.1 hleads).1
    refine Entry.isFolderAt_iff.2 ⟨mid, Entry.locate_eq_ok.2 ⟨?_, ?_⟩, hmidFolder⟩
    · exact Entry.checkPath_of_makeFolder hmade
    · rw [Entry.Leads, hparent]
      exact hmid
  have hmovesParent : ∀ s ∈ p.parent.steps, moves s = true := by
    rw [hparent]
    exact fun s hs => hmoves s (List.mem_append_left _ hs)
  have hagain := Entry.makeFolder_of_isFolderAt now' hfolder hmovesParent
  have hnone : left.hasFolder names = false := by
    rw [Entry.hasFolder, Entry.file?_eq_some.1 hfile]
    rfl
  have hwritten : left.write p (some css') now' = .ok (left.put names (.file (some css') now')) :=
    Entry.write_eq_ok.2 ⟨names, hlocate, hnone, rfl⟩
  obtain ⟨names', hlocate', hfile', hextends'⟩ := Entry.extends_write hwritten
  obtain rfl := Except.ok.inj (hlocate.symm.trans hlocate')
  exact ⟨_, names, writeOutput_eq_ok.2 ⟨by rw [hagain], by rw [hagain]; exact hwritten⟩, hlocate,
    hfile', hextends'⟩

/-! ## What the searches find -/

/-- Whether a search for markup or styles finds what stands at the names. -/
def ReadsBack (tree : Entry) (root : Path) (c : Config) (names : List Text) : Prop :=
  ∃ f ∈ markupFiles tree root c ++ styleFiles tree root c, tree.Leads f names

variable {root f r : Path} {c : Config} {names above behind : List Text}

/-- Whether names end in the name of a stylesheet. -/
def NamesStyles (names : List Text) : Prop :=
  ∃ last, names.getLast? = some last ∧ Path.extensionOfName? last = some "css".toList

theorem namesStyles_of_leads_output (h : tree.Leads (c.output root) names) : NamesStyles names := by
  obtain ⟨front, last, houtput, -, hmoves, hlast, hextension⟩ := c.output_eq root
  rw [houtput] at h
  exact ⟨last, h.getLast? (Path.fileName?_of_parts (Path.parts_of_moves hmoves) hlast), hextension⟩

namespace NamesStyles

/-- A path to a stylesheet that ends in its name has its extension. -/
theorem hasExtension_eq (h : NamesStyles names) {name : Text} (hlast : names.getLast? = some name)
    (hname : f.fileName? = some name) (extension : Text) :
    f.hasExtension extension = (Text.lower "css" == Text.lower extension) := by
  obtain ⟨last, hlast', hcss⟩ := h
  obtain rfl := Option.some.inj (hlast.symm.trans hlast')
  rw [Path.hasExtension, Path.extension?, hname, Option.bind_some, hcss]

/-- A search for markup skips a stylesheet. -/
theorem hasExtension_html (h : NamesStyles names)
    (hlast : ∀ name, f.fileName? = some name → names.getLast? = some name) :
    f.hasExtension "html" = false := by
  rw [Bool.eq_false_iff]
  intro hextension
  obtain ⟨name, hname⟩ := Path.fileName?_of_hasExtension hextension
  rw [h.hasExtension_eq (hlast name hname) hname] at hextension
  exact absurd hextension (by decide)

/-- The settings are no stylesheet. -/
theorem locate_fileAt_ne (h : NamesStyles names) : tree.locate (Config.fileAt root) ≠ .ok names := by
  intro hlocate
  obtain ⟨last, hlast, hcss⟩ := h
  have hname : (root.descend ([] ++ [Config.fileName])).fileName? = some Config.fileName :=
    Path.fileName?_descend root (by decide)
  obtain rfl := Option.some.inj
    (hlast.symm.trans ((Entry.locate_eq_ok.1 hlocate).2.getLast? hname))
  exact absurd hcss (by decide)

end NamesStyles

/-- **A search reads the output back exactly where the filter fails to hide it.** -/
theorem readsBack_iff (hstyles : NamesStyles names) (htree : tree.Proper)
    (hfile : (tree.file? names).isSome = true)
    (hshort : ∀ n ∈ names, isName n = true ∧ Entry.byteCount n ≤ Entry.longestName) :
    ReadsBack tree root c names ↔ ¬ Hides tree root c (c.styleRoots root) names := by
  obtain ⟨⟨text, time⟩, hsome⟩ := Option.isSome_iff_exists.1 hfile
  have hget := Entry.file?_eq_some.1 hsome
  constructor
  · rintro ⟨f, hf, hleads⟩ hhides
    rcases List.mem_append.1 hf with hf | hf
    · obtain ⟨r, -, above, behind, -, -, -, hskip⟩ := (mem_collect htree).1 hf
      exact hskip (.inr (hstyles.hasExtension_html fun name => hleads.getLast?))
    · obtain ⟨r, hr, above, behind, hlocate, rfl, hfound, hskip⟩ := (mem_collect htree).1 hf
      obtain ⟨⟨text', time'⟩, hsome'⟩ := Option.isSome_iff_exists.1 hfound
      have hnames : ∀ n ∈ behind, isName n = true := fun n hn =>
        (htree.get? (Entry.file?_eq_some.1 hsome')).2 n (List.mem_append_right _ hn)
      obtain rfl := (Entry.locate_eq_ok.1 hlocate).2.eq_of_descend hnames hleads
      exact hskip (.inl (hhides r hr above behind hlocate rfl))
  · intro hhides
    simp only [Hides, not_forall] at hhides
    obtain ⟨r, hr, above, behind, hlocate, rfl, hexcludes⟩ := hhides
    have hbehind : ∀ n ∈ behind, isName n = true ∧ Entry.byteCount n ≤ Entry.longestName :=
      fun n hn => hshort n (List.mem_append_right _ hn)
    have hleads := (Entry.locate_eq_ok.1 hlocate).2.descend hget hbehind
    have hname : ∃ name, (r.descend behind).fileName? = some name := by
      rcases List.eq_nil_or_concat' behind with rfl | ⟨front, last, rfl⟩
      · obtain ⟨last, hlast, -⟩ := hstyles
        obtain ⟨place, -, rfl⟩ := List.mem_map.1 hr
        refine ⟨last, Entry.Leads.fileName?_eq hleads ?_ hlast Path.moves_of_mem_resolve⟩
        rw [Entry.hasFolder, hget]
        rfl
      · exact ⟨last, Path.fileName?_descend r fun n hn => (hbehind n hn).1⟩
    obtain ⟨name, hname⟩ := hname
    refine ⟨r.descend behind, List.mem_append_right _ ?_, hleads⟩
    refine (mem_collect htree).2 ⟨r, hr, above, behind, hlocate, rfl, hfile, ?_⟩
    rintro (hskip | hskip)
    · exact hexcludes hskip
    · rw [hstyles.hasExtension_eq (hleads.getLast? hname) hname] at hskip
      simp at hskip

/-- What is found is found in a tree with more folders too, and at another output. -/
theorem readsBack_of_extends (h : Extends (· = names) tree left) (htree : tree.Proper)
    (hfile : (left.file? names).isSome = true) (hback : ReadsBack tree root c names) :
    ReadsBack left root c names := by
  have hcollect : ∀ (q : Query) (roots : List Path) (f : Path),
      f ∈ collect q tree roots → f ∈ collect q left roots := by
    intro q roots f hf
    obtain ⟨r, hr, above, behind, hlocate, rfl, hfound, hskip⟩ := (mem_collect htree).1 hf
    refine (mem_collect (h.proper htree)).2
      ⟨r, hr, above, behind, locate_of_extends h hlocate, rfl, ?_, hskip⟩
    by_cases hnames : above ++ behind = names
    · rw [hnames, hfile]
    · rw [h.file _ hnames, hfound]
  obtain ⟨f, hf, hleads⟩ := hback
  refine ⟨f, ?_, h.leads hleads⟩
  rw [List.mem_append] at hf ⊢
  exact hf.imp (hcollect _ _ f) (hcollect _ _ f)

/-! ## A pass that does not read its output -/

/-- Whether a pass that made `left` of `tree` has written where no pass reads: the searches are kept
from its output, the template is another file, and the folders that it made open nothing. -/
structure Apart (tree left : Entry) (root : Path) (c : Config) (output : List Text) : Prop where
  styles : Hides left root c (c.styleRoots root) output
  template : ∀ p, c.templateFile? root = some p → left.locate p ≠ .ok output
  opens : ∀ p ∈ places root c, OpensNothing tree left p

theorem Apart.unread (h : Apart tree left root c names) (hstyles : NamesStyles names)
    (hnames : ∀ n ∈ names, isName n = true) : Unread left root c names where
  settings := hstyles.locate_fileAt_ne
  markup := by
    rintro r - above behind hlocate rfl
    exact .inr (hstyles.hasExtension_html fun name =>
      (Entry.locate_eq_ok.1 hlocate).2.getLast?_descend fun n hn =>
        hnames n (List.mem_append_right _ hn))
  styles r hr above behind hlocate hbehind := .inl (h.styles r hr above behind hlocate hbehind)
  template := h.template

end Project

/-! ## Settings without steps back -/

namespace Entry

variable {e e' : Entry} {here names touched : List Text} {steps : List Text} {p : Path}

/-- Without steps back, a path leads to the names in it. -/
theorem follow_eq_names (h : e.follow here steps = .ok names) (hback : ['.', '.'] ∉ steps) :
    names = here ++ steps.filter moves := by
  refine follow_of_isName (fun s hs => ?_) (follow_filter h)
  obtain ⟨hs, hmoves⟩ := List.mem_filter.1 hs
  refine Path.isName_iff.2 ⟨hmoves, ?_⟩
  rintro rfl
  exact hback hs

/-- Without steps back, a path from the root of the tree is known by where it leads. -/
theorem Leads.components_eq (h : e.Leads p names) (hrooted : p.rooted = true)
    (hback : ['.', '.'] ∉ p.steps) : p.components = ['/'] :: names := by
  rw [Path.components, Path.parts, if_pos hrooted, follow_eq_names h hback]
  simp [hrooted, Path.names]

/-- Without steps back, a path that leads to something old by way of folders that may be new has
led there before. -/
theorem follow_of_newFolders
    (hfolders : ∀ names, e'.hasFolder names = true → e.hasFolder names = true ∨ e.get? names = none)
    (hback : ['.', '.'] ∉ steps) (h : e'.follow here steps = .ok names)
    (hsome : e.get? names ≠ none) : e.follow here steps = .ok names := by
  induction steps generalizing here with
  | nil => exact h
  | cons step steps ih =>
    have hhere : e.get? here ≠ none := by
      intro hnone
      apply hsome
      rw [follow_eq_names h hback, get?_append, hnone]
      rfl
    rw [List.mem_cons, not_or] at hback
    rw [follow_cons_eq_ok, if_neg (Ne.symm hback.1)] at h ⊢
    refine ⟨(hfolders here h.1).resolve_right hhere, ?_⟩
    have h := h.2
    split
    · rw [if_pos ‹_›] at h
      exact ih hback.2 h
    · rw [if_neg ‹_›] at h
      exact ⟨h.1, ih hback.2 h.2⟩

/-- The folders that come with one file are new. -/
theorem Extends.newFolders (h : Extends (· = touched) e e')
    (hfile : (e'.file? touched).isSome = true) (hfolder : e'.hasFolder names = true) :
    e.hasFolder names = true ∨ e.get? names = none := by
  have hnone : e'.file? names = none := file?_of_hasFolder hfolder
  have hne : names ≠ touched := by
    rintro rfl
    rw [hnone] at hfile
    cases hfile
  rw [h.file names hne, file?] at hnone
  cases hget : e.get? names with
  | none => exact .inr rfl
  | some found =>
    cases found with
    | file text time => simp [hget] at hnone
    | folder entries time => exact .inl (hasFolder_iff.2 ⟨entries, time, hget⟩)

end Entry

theorem Path.rooted_resolve {p q : Path} (h : p.rooted = true) : (p.resolve q).rooted = true := by
  rw [resolve, join]
  split
  · assumption
  · split
    · simp_all
    · exact h

/-- Whether settings name their places without steps back, for a project that is known by a path
from the root of the tree without such steps. -/
structure Config.IsStraight (c : Config) (root : Path) : Prop where
  rooted : root.rooted = true
  straight : ['.', '.'] ∉ root.steps
  places : ∀ p ∈ Project.places root c, ['.', '.'] ∉ p.steps

/-- Whether settings are straight, for the output too, and the template is not the output. -/
structure Config.IsPlain (c : Config) (root : Path) : Prop extends c.IsStraight root where
  output : ['.', '.'] ∉ (c.output root).steps
  template : ∀ p, c.templateFile? root = some p → p.same (c.output root) = false

namespace Project

variable {tree left : Entry} {root r : Path} {c : Config} {names above behind : List Text}

theorem rooted_of_mem_places (hroot : root.rooted = true) (hr : r ∈ places root c) :
    r.rooted = true := by
  simp only [places, List.mem_append, Option.mem_toList] at hr
  rcases hr with (hr | hr) | hr
  · rw [Config.markupRoots] at hr
    split at hr
    · rw [List.mem_singleton.1 hr, hroot]
    · obtain ⟨place, -, rfl⟩ := List.mem_map.1 hr
      exact Path.rooted_resolve hroot
  · obtain ⟨place, -, rfl⟩ := List.mem_map.1 hr
    exact Path.rooted_resolve hroot
  · obtain ⟨place, -, rfl⟩ := Option.map_eq_some_iff.1 hr
    exact Path.rooted_resolve hroot

/-- With straight settings, what is found is known by the path that it is found at. -/
theorem components_of_isStraight (hc : c.IsStraight root) (hr : r ∈ places root c)
    (h : tree.Leads r above) (hnames : ∀ n ∈ behind, isName n = true) :
    (r.descend behind).components = ['/'] :: (above ++ behind) := by
  rw [Path.components_descend r hnames,
    h.components_eq (rooted_of_mem_places hc.rooted hr) (hc.places r hr), List.cons_append]

/-- Plain settings keep a pass from its output. -/
theorem apart_of_isPlain (hc : c.IsPlain root) (h : Extends (· = names) tree left)
    (hfile : (left.file? names).isSome = true) (hleads : left.Leads (c.output root) names) :
    Apart tree left root c names := by
  obtain ⟨front, last, houtput, hfolder, hmoves, -⟩ := c.output_eq root
  have hrooted : (c.buildRoot root).rooted = true := Path.rooted_resolve hc.rooted
  rw [hrooted] at houtput hfolder
  have hcomponents := hleads.components_eq (by rw [houtput]) hc.output
  have hnames : front ++ [last] = names := by
    rw [houtput, Path.components_of_moves hmoves] at hcomponents
    exact (List.cons.inj hcomponents).2
  refine ⟨fun r hr above behind hlocate hbehind => ?_, fun p hp hlocate => ?_,
    fun p hp other hlocate => ?_⟩
  · have hbehindNames : ∀ n ∈ behind, isName n = true := fun n hn =>
      (Entry.leads_isName hleads n (by rw [← hbehind]; exact List.mem_append_right _ hn)).1
    have hfront : ∀ s ∈ front, moves s = true := fun s hs => hmoves s (List.mem_append_left _ hs)
    have hin : (r.descend behind).startsWith (c.outputFolder root) = true := by
      rw [Path.startsWith, List.isPrefixOf_iff_prefix,
        components_of_isStraight hc.toIsStraight (by simp [places, hr])
          (Entry.locate_eq_ok.1 hlocate).2 hbehindNames,
        hbehind, ← hnames, hfolder, Path.components_of_moves hfront]
      exact ⟨[last], rfl⟩
    rw [PathFilter.excludes, PathFilter.ofConfig, List.any_append, List.any_cons, hin]
    simp
  · have hplace : p ∈ places root c := by simp [places, hp]
    have hsame := (Entry.locate_eq_ok.1 hlocate).2.components_eq
      (rooted_of_mem_places hc.rooted hplace) (hc.places p hplace)
    have hother := hc.template p hp
    rw [Path.same, hsame, hcomponents, beq_self_eq_true] at hother
    cases hother
  · obtain ⟨hcheck, hother⟩ := Entry.locate_eq_ok.1 hlocate
    by_cases hnone : tree.get? other = none
    · exact .inr hnone
    · exact .inl (Entry.locate_eq_ok.2 ⟨hcheck, Entry.follow_of_newFolders
        (fun names hfolder => h.newFolders hfile hfolder) (hc.places p hp) hother hnone⟩)

end Project

/-! ## Two passes in a row -/

namespace Entry

theorem read_of_file? {e : Entry} {p : Path} {names : List Text} {text : Text} {time : Int}
    (hlocate : e.locate p = .ok names) (hfile : e.file? names = some (some text, time)) :
    e.read p = .ok text := by
  simp [read, find, hlocate, file?_eq_some.1 hfile, bind, Except.bind, pure, Except.pure]

end Entry

namespace Builder

/-- A builder uses the compiler of its last pass again while the settings stay. -/
theorem compilerFor_kept {b : Builder} {engine : PatternEngine} {s : Settings} {k : Compiler}
    (hk : b.compilerFor engine s = .ok k) :
    compilerFor { b with compiler := some k } engine s = .ok k := by
  rcases b.compilerFor_cases engine s with h | ⟨k', -, hsame, h⟩
  · -- Settings need not count as the same as themselves; then the compiler is built once more.
    by_cases hsame : (k.settings == s) = true
    · exact compilerFor_of_beq engine rfl hsame
    · rw [← hk, h, compilerFor]
      exact if_neg hsame
  · obtain rfl := Except.ok.inj (hk.symm.trans h)
    exact compilerFor_of_beq engine rfl hsame

theorem read_of_build {b : Builder} {engine : PatternEngine} {tree : Entry} {now : Int}
    {r : Report} (h : (b.build engine tree now).outcome = .ok r) :
    ∃ css, (b.build engine tree now).tree.read r.output = .ok css := by
  have hbuild := b.extends_build engine tree now
  rw [h] at hbuild
  obtain ⟨css, names, hlocate, hfile, -⟩ := hbuild
  exact ⟨css, Entry.read_of_file? hlocate hfile⟩

/-- With the same inputs a pass comes to the same stylesheet, and all that can differ is how it is
written. -/
theorem build_of_same_inputs {b : Builder} {engine : PatternEngine} {tree tree' : Entry}
    {c : Config} {k : Compiler} {css : Text} {rules : Nat} (now : Int)
    (hc : Project.loadConfig tree' b.root = .ok c)
    (hsame : Project.inputs tree' b.root c = Project.inputs tree b.root c ∧
      ∀ rules, Project.report tree' b.root c rules = Project.report tree b.root c rules)
    (hfiles : (Project.markupFiles tree b.root c).isEmpty = false)
    (hk : b.compilerFor engine c.settings = .ok k)
    (hp : Project.produce k (Project.inputs tree b.root c) = .ok (css, rules)) :
    (b.build engine tree' now).outcome =
        (Project.writeOutput tree' (c.output b.root) css now).2.map
          (fun _ => Project.report tree b.root c rules) ∧
      (b.build engine tree' now).tree =
        (Project.writeOutput tree' (c.output b.root) css now).1 := by
  obtain ⟨hinputs, hreport⟩ := hsame
  have hfound : (Project.markupFiles tree' b.root c).isEmpty = false := by
    have hlength := congrArg Report.markupFiles (hreport rules)
    simp only [Project.report] at hlength
    rw [List.isEmpty_eq_false_iff_exists_mem] at hfiles ⊢
    exact List.length_pos_iff_exists_mem.1 (hlength ▸ List.length_pos_iff_exists_mem.2 hfiles)
  rw [← hinputs] at hp
  have h := build_of_produce now hc hfound hk hp
  exact ⟨hreport rules ▸ h.outcome, h.tree⟩

/-- A pass over markup whose classes compile succeeds if any text can be written to its output. -/
theorem build_outcome_of_compile {b : Builder} {engine : PatternEngine} {tree : Entry}
    {c : Config} {k : Compiler} {g : RuleGroups} {now : Int}
    (hc : Project.loadConfig tree b.root = .ok c)
    (hfiles : (Project.markupFiles tree b.root c).isEmpty = false)
    (hk : b.compilerFor engine c.settings = .ok k)
    (hg : k.compile (Project.inputs tree b.root c).classes = .ok g)
    (hwrite : (Project.writeOutput tree (c.output b.root) [] now).2 = .ok ()) :
    (b.build engine tree now).outcome = .ok (Project.report tree b.root c g.size) := by
  have hproduce := Project.produce_of_compile hg
  rw [(build_of_produce now hc hfiles hk hproduce).outcome,
    Project.writeOutput_outcome _ _ _ [], hwrite]
  rfl

/-- **A pass that writes apart from what it reads can be run again.** After a pass the searches find
its output exactly where the filter fails to hide it from one of the roots, and they found it before
only if they find it now. Where the output is apart, as it is with plain settings, the next pass
succeeds with the same report and writes the same text. -/
theorem build_again {b : Builder} {engine : PatternEngine} {tree : Entry} {now : Int} {c : Config}
    {r : Report}
    (htree : tree.Proper) (hc : Project.loadConfig tree b.root = .ok c)
    (hr : (b.build engine tree now).outcome = .ok r) :
    ∃ css output, (b.build engine tree now).tree.locate r.output = .ok output ∧
      (b.build engine tree now).tree.read r.output = .ok css ∧
      (Project.ReadsBack (b.build engine tree now).tree b.root c output ↔
        ¬ Project.Hides (b.build engine tree now).tree b.root c (c.styleRoots b.root) output) ∧
      (Project.ReadsBack tree b.root c output →
        Project.ReadsBack (b.build engine tree now).tree b.root c output) ∧
      (c.IsPlain b.root → Project.Apart tree (b.build engine tree now).tree b.root c output) ∧
      (Project.Apart tree (b.build engine tree now).tree b.root c output → ∀ later,
        ((b.build engine tree now).builder.build engine (b.build engine tree now).tree
          later).outcome = .ok r ∧
        ((b.build engine tree now).builder.build engine (b.build engine tree now).tree
          later).tree.read r.output = .ok css) := by
  obtain ⟨c', k, css, rules, hc', hfiles, hk, hproduce, hwrite, rfl⟩ := build_eq_ok hr
  obtain rfl := Except.ok.inj (hc.symm.trans hc')
  have hbuilder := build_builder_of_files now hc hfiles hk
  generalize hleft : (b.build engine tree now).tree = left at hwrite ⊢
  obtain ⟨output, hlocate, hfile, hextends⟩ := Project.extends_of_writeOutput_ok hwrite
  obtain ⟨hcheck, hleads⟩ := Entry.locate_eq_ok.1 hlocate
  have hsome : (left.file? output).isSome = true := by rw [hfile]; rfl
  have hstyles := Project.namesStyles_of_leads_output hleads
  have hnames := Entry.leads_isName hleads
  have hproper := hextends.proper htree
  refine ⟨css, output, hlocate, Entry.read_of_file? hlocate hfile,
    Project.readsBack_iff hstyles hproper hsome hnames,
    Project.readsBack_of_extends hextends htree hsome,
    fun hplain => Project.apart_of_isPlain hplain hextends hsome hleads, fun hapart later => ?_⟩
  have hunread := hapart.unread hstyles fun n hn => (hnames n hn).1
  have hsame := Project.inputs_of_extends htree hextends hapart.opens hunread
  have hconfig := Project.loadConfig_of_extends hextends hunread.settings hc
  obtain ⟨front, last, houtput, -, hmoves, -⟩ := c.output_eq b.root
  obtain ⟨again, other, hagain, hlocate', hfile', hextends'⟩ :=
    Project.writeOutput_again css later houtput hmoves hwrite
  obtain rfl := Except.ok.inj (hlocate.symm.trans hlocate')
  rw [hbuilder]
  obtain ⟨houtcome, htree'⟩ := build_of_same_inputs later
    (b := { b with compiler := some k }) hconfig hsame hfiles (compilerFor_kept hk) hproduce
  rw [houtcome, htree', hagain]
  exact ⟨rfl, Entry.read_of_file? (Project.locate_of_extends hextends' hlocate) hfile'⟩

/-! ### Pages without classes -/

/-- Settings for one place of styles. -/
def styledConfig (buildPath stylePath : Text) : Config where
  buildPath
  stylePaths := [{ path := stylePath }]

theorem styleRoots_styledConfig (buildPath stylePath : Text) (root : Path) :
    (styledConfig buildPath stylePath).styleRoots root = [root.resolve (.ofText stylePath)] := by
  simp [Config.styleRoots, styledConfig]

/-- No names make no rules. -/
theorem compile_nil : (Compiler.ofSettings {}).compile [] = .ok ⟨[]⟩ := by
  have hnone : Resolution.collect ((Compiler.ofSettings {}).resolutions []) = .ok [] := by
    decide +kernel
  rw [Matcher.compile, hnone]
  simp [RuleGroups.ofRules, Except.map]

/-- What there is to check for a pass over pages without classes. -/
theorem build_of_no_classes {tree : Entry} {c : Config} (now : Int)
    (hc : Project.loadConfig tree pairRoot = .ok c) (hsettings : c.settings = {})
    (hfiles : (Project.markupFiles tree pairRoot c).isEmpty = false)
    (hclasses : (Project.inputs tree pairRoot c).classes = [])
    (hwrite : (Project.writeOutput tree (c.output pairRoot) [] now).2 = .ok ()) :
    (build { root := pairRoot } .unlimited tree now).outcome =
        .ok (Project.report tree pairRoot c 0) ∧
      (build { root := pairRoot } .unlimited tree now).tree =
        (Project.writeOutput tree (c.output pairRoot)
          (Assembly.assemble (Project.inputs tree pairRoot c).template ⟨[]⟩
            (Project.inputs tree pairRoot c).author (Project.inputs tree pairRoot c).mode)
          now).1 := by
  have hk : compilerFor { root := pairRoot } .unlimited c.settings = .ok (.ofSettings {}) := by
    rw [compilerFor_new, hsettings, Compiler.build_unlimited]
  have hcompile : (Compiler.ofSettings {}).compile (Project.inputs tree pairRoot c).classes =
      .ok ⟨[]⟩ := by
    rw [hclasses]
    exact compile_nil
  exact ⟨build_outcome_of_compile (b := { root := pairRoot }) hc hfiles hk hcompile hwrite,
    build_tree_of_compile (b := { root := pairRoot }) now hc hfiles hk hcompile⟩

/-- A project with a stylesheet beside its page and the output of an earlier pass. -/
def styledProject : Entry :=
  .folder
    [(Config.fileName, .file (some ("\x7b\"BUILD_PATH\": \"./dist//main.css\", "
      ++ "\"CSS_PATHS\": [\".\"]\x7d")) 0),
     ("dist", .folder [("main.css", .file (some "old") 0)] 0),
     ("index.html", .file (some "<p>") 0),
     ("site.css", .file (some "p\x7bcolor:red\x7d") 0)] 0

theorem proper_styledProject : styledProject.Proper := by
  refine .folder (by decide) (by decide) fun entry hentry => ?_
  simp only [List.mem_cons, List.not_mem_nil, or_false] at hentry
  rcases hentry with rfl | rfl | rfl | rfl
  · exact .file _ _
  · exact .folder (by decide) (by decide) fun entry hentry => by
      obtain rfl := List.mem_singleton.1 hentry
      exact .file _ _
  · exact .file _ _
  · exact .file _ _

theorem loadConfig_styledProject : Project.loadConfig styledProject pairRoot =
    .ok (styledConfig "./dist//main.css" ".") := by
  decide +kernel

theorem isPlain_styledProject : (styledConfig "./dist//main.css" ".").IsPlain pairRoot := by
  refine ⟨⟨rfl, by decide, fun p hp => ?_⟩, by decide +kernel, nofun⟩
  rw [Project.places, styleRoots_styledConfig] at hp
  revert p
  decide +kernel

theorem build_styledProject : (build { root := pairRoot } .unlimited styledProject 0).outcome =
    .ok (Project.report styledProject pairRoot (styledConfig "./dist//main.css" ".") 0) :=
  (build_of_no_classes 0 loadConfig_styledProject rfl (by decide +kernel) (by decide +kernel)
    (by decide +kernel)).1

/-- The output of the earlier pass stands below the place of the styles, and is not read. -/
theorem build_again_styledProject : ∃ r css output,
    styledProject.Proper ∧
    (styledConfig "./dist//main.css" ".").IsPlain pairRoot ∧
    (build { root := pairRoot } .unlimited styledProject 0).outcome = .ok r ∧
    (build { root := pairRoot } .unlimited styledProject 0).tree.locate r.output = .ok output ∧
    ¬ Project.ReadsBack (build { root := pairRoot } .unlimited styledProject 0).tree pairRoot
      (styledConfig "./dist//main.css" ".") output ∧
    (build { root := pairRoot } .unlimited styledProject 0).tree.read r.output = .ok css ∧
    ∀ later, (((build { root := pairRoot } .unlimited styledProject 0).builder.build .unlimited
      (build { root := pairRoot } .unlimited styledProject 0).tree later).outcome = .ok r ∧
      ((build { root := pairRoot } .unlimited styledProject 0).builder.build .unlimited
        (build { root := pairRoot } .unlimited styledProject 0).tree later).tree.read r.output =
          .ok css) := by
  obtain ⟨css, output, hlocate, hread, hback, -, hapart, hagain⟩ :=
    build_again (b := { root := pairRoot }) proper_styledProject loadConfig_styledProject
      build_styledProject
  have hapart := hapart isPlain_styledProject
  exact ⟨_, css, output, proper_styledProject, isPlain_styledProject, build_styledProject, hlocate,
    fun h => hback.1 h hapart.styles, hread, hagain hapart⟩

/-- A project whose styles are searched from its root, by a path through the folder of its pages. -/
def loopedProject : Entry :=
  .folder
    [(Config.fileName, .file (some "\x7b\"CSS_PATHS\": [\"pages/..\"]\x7d") 0),
     ("pages", .folder [("index.html", .file (some "<p>") 0)] 0)] 0

/-- The path of the output as the search spells it does not start with the output folder, so the
second pass takes the output of the first for a stylesheet of the project. -/
theorem build_again_fails : ∃ r output,
    (build { root := pairRoot } .unlimited loopedProject 0).outcome = .ok r ∧
    (build { root := pairRoot } .unlimited loopedProject 0).tree.locate r.output = .ok output ∧
    Project.ReadsBack (build { root := pairRoot } .unlimited loopedProject 0).tree pairRoot
      (styledConfig "build/" "pages/..") output ∧
    ((build { root := pairRoot } .unlimited loopedProject 0).builder.build .unlimited
      (build { root := pairRoot } .unlimited loopedProject 0).tree 1).outcome ≠ .ok r := by
  have hc : Project.loadConfig loopedProject pairRoot = .ok (styledConfig "build/" "pages/..") := by
    decide +kernel
  have hfiles : (Project.markupFiles loopedProject pairRoot
      (styledConfig "build/" "pages/..")).isEmpty = false := by
    decide +kernel
  obtain ⟨hr, htree⟩ := build_of_no_classes 0 hc rfl hfiles (by decide +kernel)
    (by decide +kernel)
  have hnone : Project.styleFiles loopedProject pairRoot
      (styledConfig "build/" "pages/..") = [] := by
    rw [Project.styleFiles, styleRoots_styledConfig]
    decide +kernel
  have hauthor : (Project.inputs loopedProject pairRoot
      (styledConfig "build/" "pages/..")).author = none := by
    simp only [Project.inputs, Project.author, hnone, List.isEmpty_nil, if_true]
  rw [hauthor] at htree
  refine ⟨_, ["build", "app.css"], hr, ?_, ?_, fun hagain => ?_⟩
  · rw [htree]
    decide +kernel
  · rw [htree, Project.ReadsBack, Project.styleFiles, styleRoots_styledConfig]
    refine ⟨⟨true, ["pages", "..", "build", "app.css"]⟩, ?_, ?_⟩
    · decide +kernel
    · rw [Entry.Leads]
      decide +kernel
  · rw [build_builder_of_files (b := { root := pairRoot }) 0 hc hfiles
      (Compiler.build_unlimited _), htree] at hagain
    obtain ⟨c, -, -, rules, hc', -, -, -, -, hreport⟩ := build_eq_ok hagain
    have hsame : Project.loadConfig (Project.writeOutput loopedProject
        ((styledConfig "build/" "pages/..").output pairRoot)
        (Assembly.assemble (Project.inputs loopedProject pairRoot
          (styledConfig "build/" "pages/..")).template ⟨[]⟩ none .concat) 0).1 pairRoot =
        .ok (styledConfig "build/" "pages/..") := by
      decide +kernel
    obtain rfl := Except.ok.inj (hsame.symm.trans hc')
    have hcount := congrArg Report.styleFiles hreport
    simp only [Project.report, hnone] at hcount
    rw [Project.styleFiles, styleRoots_styledConfig] at hcount
    revert hcount
    decide +kernel

end Builder

end UtilitySheet
