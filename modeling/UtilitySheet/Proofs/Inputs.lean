import UtilitySheet.Proofs.Passes

/-!
# What a pass reads

The settings, the files that a search lists and the template are all that a pass reads. Where a
file is none of them (`Project.Unread`), the pass does not see what becomes of it: a project in
which that file and new folders are all that is different has the same inputs
(`Project.inputs_of_extends`).
-/

namespace UtilitySheet

open UtilitySheet.Path (isName)
open Entry (Extends)

/-! ## Names of files -/

namespace Path

theorem moves_of_mem_names {p : Path} : ∀ s ∈ p.names, moves s = true :=
  fun _ h => (List.mem_filter.1 h).2

theorem parts_of_moves {p : Path} (h : ∀ s ∈ p.steps, moves s = true) : p.parts = p.steps := by
  have hhead : p.steps.head? ≠ some ['.'] := fun hdot =>
    absurd (h _ (List.mem_of_mem_head? hdot)) (by decide)
  simp [parts, names, hhead, List.filter_eq_self.2 h]

theorem hasExtension_congr {p q : Path} (h : p.fileName? = q.fileName?) (extension : Text) :
    p.hasExtension extension = q.hasExtension extension := by
  simp [hasExtension, extension?, h]

theorem fileName?_of_hasExtension {p : Path} {extension : Text}
    (h : p.hasExtension extension = true) : ∃ name, p.fileName? = some name := by
  cases hname : p.fileName? with
  | none => simp [hasExtension, extension?, hname] at h
  | some name => exact ⟨name, rfl⟩

end Path

namespace Entry

variable {e : Entry} {p : Path} {above behind names : List Text}

/-- A path behind a folder that names a file leads to something of that name. -/
theorem Leads.getLast?_descend {name : Text} (h : e.Leads p above)
    (hnames : ∀ n ∈ behind, isName n = true) (hname : (p.descend behind).fileName? = some name) :
    (above ++ behind).getLast? = some name := by
  rcases List.eq_nil_or_concat' behind with rfl | ⟨front, last, rfl⟩
  · simpa using h.getLast? hname
  · rw [Path.fileName?_descend p hnames] at hname
    obtain rfl := Option.some.inj hname
    simp [← List.append_assoc]

/-- A path of names and steps back to a file ends in the name of the file. -/
theorem Leads.fileName?_eq {name : Text} (h : e.Leads p names) (hfolder : e.hasFolder names = false)
    (hlast : names.getLast? = some name) (hmoves : ∀ s ∈ p.steps, Path.moves s = true) :
    p.fileName? = some name := by
  rw [Leads] at h
  rcases List.eq_nil_or_concat' p.steps with hsteps | ⟨front, last, hsteps⟩
  · rw [hsteps] at h
    obtain rfl := Except.ok.inj h
    cases hlast
  · have hlast' : Path.moves last = true := hmoves last (by simp [hsteps])
    have hdots : last ≠ ['.', '.'] := by
      rintro rfl
      rw [hsteps] at h
      obtain ⟨mid, -, h⟩ := follow_append_eq_ok.1 h
      obtain ⟨hmid, h⟩ := follow_cons_eq_ok.1 h
      rw [if_pos rfl] at h
      obtain rfl := Except.ok.inj h
      obtain ⟨more, hmore⟩ := List.dropLast_prefix mid
      rw [← hmore] at hmid
      rw [hasFolder_of_append hmid] at hfolder
      cases hfolder
    have hname : p.fileName? = some last :=
      Path.fileName?_of_parts ((Path.parts_of_moves hmoves).trans hsteps)
        (Path.isName_iff.2 ⟨hlast', hdots⟩)
    rw [hname, ← Leads.getLast? h hname, hlast]

/-! ## Reading a file -/

theorem read_toOption (e : Entry) (p : Path) : (e.read p).toOption =
    (e.locate p).toOption.elim none fun names => (e.file? names).bind Prod.fst := by
  rw [read, find]
  cases e.locate p with
  | error stopped => rfl
  | ok names =>
    simp only [bind, Except.bind, file?, Except.toOption, Option.elim_some]
    cases e.get? names with
    | none => rfl
    | some found =>
      cases found with
      | file text time => cases text <;> rfl
      | folder entries time => rfl

end Entry

namespace Project

variable {tree tree' : Entry} {root : Path} {c : Config} {touched : List Text} {q : Query}
  {r p : Path}

theorem loadConfig_eq_ok : loadConfig tree root = .ok c ↔
    ∃ names text time, tree.locate (Config.fileAt root) = .ok names ∧
      tree.file? names = some (some text, time) ∧ Config.ofText? text = some c := by
  unfold loadConfig
  cases hlocate : tree.locate (Config.fileAt root) with
  | error stopped => simp [Entry.isFileAt, Entry.find, hlocate, bind, Except.bind]
  | ok names =>
    simp only [Entry.file?, Except.ok.injEq, exists_and_left, exists_eq_left']
    cases hget : tree.get? names with
    | none =>
      have hfind : tree.find (Config.fileAt root) = .error .missing := by
        simp [Entry.find, hlocate, hget, bind, Except.bind, throw, throwThe, MonadExceptOf.throw]
      simp [Entry.isFileAt, hfind]
    | some found =>
      have hfind : tree.find (Config.fileAt root) = .ok found := by
        simp [Entry.find, hlocate, hget, bind, Except.bind, pure, Except.pure]
      cases found with
      | folder entries time => simp [Entry.isFileAt, hfind, Entry.isFolder]
      | file text time =>
        cases text with
        | none =>
          simp [Entry.isFileAt, Entry.read, hfind, Entry.isFolder, bind, Except.bind, throw,
            throwThe, MonadExceptOf.throw]
        | some text =>
          simp only [Entry.isFileAt, Entry.read, hfind, Entry.isFolder, bind, Except.bind, pure,
            Except.pure]
          cases hc : Config.ofText? text <;> simp [hc]

/-- The places that a pass looks up: the roots of its searches, and its template. -/
def places (root : Path) (c : Config) : List Path :=
  c.markupRoots root ++ c.styleRoots root ++ (c.templateFile? root).toList

/-- Whether no input of a pass stands at the names: neither the settings nor the template do, and
the searches for markup and styles skip what stands there. -/
structure Unread (tree : Entry) (root : Path) (c : Config) (names : List Text) : Prop where
  settings : tree.locate (Config.fileAt root) ≠ .ok names
  markup : ∀ r ∈ c.markupRoots root, ∀ above behind, tree.locate r = .ok above →
    above ++ behind = names → (⟨"html", .ofConfig root c⟩ : Query).Skips (r.descend behind)
  styles : ∀ r ∈ c.styleRoots root, ∀ above behind, tree.locate r = .ok above →
    above ++ behind = names → (⟨"css", .ofConfig root c⟩ : Query).Skips (r.descend behind)
  template : ∀ p, c.templateFile? root = some p → tree.locate p ≠ .ok names

/-- Whether the filter keeps a search from the names, from whichever root it comes to them. -/
def Hides (tree : Entry) (root : Path) (c : Config) (roots : List Path) (names : List Text) : Prop :=
  ∀ r ∈ roots, ∀ above behind, tree.locate r = .ok above → above ++ behind = names →
    (PathFilter.ofConfig root c).excludes (r.descend behind) = true

/-- Whether a place leads to nothing old in the new tree that it did not lead to before. -/
def OpensNothing (tree tree' : Entry) (p : Path) : Prop :=
  ∀ names, tree'.locate p = .ok names → tree.locate p = .ok names ∨ tree.get? names = none

theorem locate_of_extends {names : List Text} {touched : List Text → Prop}
    (h : Extends touched tree tree') (hlocate : tree.locate p = .ok names) :
    tree'.locate p = .ok names := by
  obtain ⟨hcheck, hleads⟩ := Entry.locate_eq_ok.1 hlocate
  exact Entry.locate_eq_ok.2 ⟨hcheck, h.leads hleads⟩

theorem locate_error_of_extends {stopped : FileError} (h : Extends (· = touched) tree tree')
    (hlocate' : tree'.locate p = .error stopped) : ∃ stopped', tree.locate p = .error stopped' := by
  cases hlocate : tree.locate p with
  | error stopped' => exact ⟨stopped', rfl⟩
  | ok names =>
    rw [locate_of_extends h hlocate] at hlocate'
    cases hlocate'

/-- What depends on where a place leads, and on nothing if nothing is there, is the same. -/
theorem OpensNothing.elim_eq {β : Type} {look : List Text → β} {absent : β}
    (hopens : OpensNothing tree tree' p) (h : Extends (· = touched) tree tree')
    (hlook : ∀ names, tree.get? names = none → look names = absent) :
    (tree'.locate p).toOption.elim absent look = (tree.locate p).toOption.elim absent look := by
  cases hlocate' : tree'.locate p with
  | error stopped =>
    obtain ⟨stopped', hlocate⟩ := locate_error_of_extends h hlocate'
    rw [hlocate]
    rfl
  | ok names =>
    rcases hopens names hlocate' with hlocate | hnone
    · rw [hlocate]
    · cases hlocate : tree.locate p with
      | error stopped => exact hlook names hnone
      | ok other =>
        obtain rfl := Except.ok.inj (hlocate'.symm.trans (locate_of_extends h hlocate))
        rfl

/-- The settings are the same. -/
theorem loadConfig_of_extends (h : Extends (· = touched) tree tree')
    (hunread : tree'.locate (Config.fileAt root) ≠ .ok touched)
    (hc : loadConfig tree root = .ok c) : loadConfig tree' root = .ok c := by
  obtain ⟨names, text, time, hlocate, hfile, hread⟩ := loadConfig_eq_ok.1 hc
  have hlocate' := locate_of_extends h hlocate
  refine loadConfig_eq_ok.2 ⟨names, text, time, hlocate', ?_, hread⟩
  rw [h.file names (by rintro rfl; exact hunread hlocate'), hfile]

/-- A search lists the same files. -/
theorem find_of_extends (htree : tree.Proper) (h : Extends (· = touched) tree tree')
    (hopens : OpensNothing tree tree' r)
    (hskips : ∀ above behind, tree'.locate r = .ok above → above ++ behind = touched →
      q.Skips (r.descend behind)) :
    (q.find tree' r).toOption.getD [] = (q.find tree r).toOption.getD [] := by
  have hsame : (tree'.locate r).toOption.elim [] (q.below tree' r) =
      (tree'.locate r).toOption.elim [] (q.below tree r) := by
    cases hlocate' : tree'.locate r with
    | error stopped => rfl
    | ok names => exact h.below htree q r names fun behind => hskips names behind hlocate'
  rw [Query.find_getD (h.proper htree), Query.find_getD htree, hsame]
  exact hopens.elim_eq h fun names hnone => by simp [Query.below, hnone]

theorem collect_of_extends {roots : List Path} (htree : tree.Proper)
    (h : Extends (· = touched) tree tree') (hopens : ∀ r ∈ roots, OpensNothing tree tree' r)
    (hskips : ∀ r ∈ roots, ∀ above behind, tree'.locate r = .ok above → above ++ behind = touched →
      q.Skips (r.descend behind)) :
    collect q tree' roots = collect q tree roots :=
  List.flatMap_congr fun r hr => find_of_extends htree h (hopens r hr) (hskips r hr)

/-- What is found stands behind one of the roots, and is not skipped. -/
theorem mem_collect {roots : List Path} (htree : tree.Proper) : p ∈ collect q tree roots ↔
    ∃ r ∈ roots, ∃ above behind, tree.locate r = .ok above ∧ p = r.descend behind ∧
      (tree.file? (above ++ behind)).isSome = true ∧ ¬ q.Skips p := by
  simp only [collect, List.mem_flatMap, Query.find_getD htree]
  refine exists_congr fun r => and_congr_right fun _ => ?_
  cases hlocate : tree.locate r with
  | error stopped => simp [Except.toOption]
  | ok above =>
    simp only [Except.toOption, Option.elim_some, Except.ok.injEq, Query.below,
      ← Query.wants_iff]
    cases hget : tree.get? above with
    | none => simp [Entry.file?, Entry.get?_append, hget]
    | some x =>
      rw [Option.elim_some, Query.mem_visit_iff (htree.get? hget).1]
      simp [Entry.file?, Entry.get?_append, hget]

/-- What is found is read the same. -/
theorem readAll_of_extends {roots : List Path} (htree : tree.Proper)
    (h : Extends (· = touched) tree tree')
    (hskips : ∀ r ∈ roots, ∀ above behind, tree'.locate r = .ok above → above ++ behind = touched →
      q.Skips (r.descend behind)) :
    readAll tree' (collect q tree roots) = readAll tree (collect q tree roots) := by
  refine List.filterMap_congr fun p hp => ?_
  obtain ⟨r, hr, above, behind, hlocate, rfl, hfile, hskip⟩ := (mem_collect htree).1 hp
  have hlocate' := locate_of_extends h hlocate
  have hne : above ++ behind ≠ touched := fun heq => hskip (hskips r hr above behind hlocate' heq)
  obtain ⟨⟨text, time⟩, hsome⟩ := Option.isSome_iff_exists.1 hfile
  have hget := Entry.file?_eq_some.1 hsome
  have hnames : ∀ n ∈ behind, isName n = true := fun n hn =>
    (htree.get? hget).2 n (List.mem_append_right _ hn)
  have hleads := (Entry.locate_eq_ok.1 hlocate).2
  rw [Entry.read_toOption, Entry.read_toOption]
  cases hp' : tree'.locate (r.descend behind) with
  | error stopped =>
    obtain ⟨stopped', hp⟩ := locate_error_of_extends h hp'
    rw [hp]
    rfl
  | ok names =>
    -- The path of a file that is found leads there unless it is too long, and then it does so
    -- in neither tree.
    obtain ⟨hcheck, hthere⟩ := Entry.locate_eq_ok.1 hp'
    obtain rfl := (Entry.locate_eq_ok.1 hlocate').2.eq_of_descend hnames hthere
    have hshort := Entry.leads_isName hthere
    have hp : tree.locate (r.descend behind) = .ok (above ++ behind) :=
      Entry.locate_eq_ok.2 ⟨hcheck, hleads.descend hget fun n hn =>
        hshort n (List.mem_append_right _ hn)⟩
    rw [hp]
    simp only [Except.toOption, Option.elim_some]
    rw [h.file _ hne]

/-- The template is the same. -/
theorem template_of_extends (h : Extends (· = touched) tree tree')
    (hopens : ∀ p, c.templateFile? root = some p → OpensNothing tree tree' p)
    (hunread : ∀ p, c.templateFile? root = some p → tree'.locate p ≠ .ok touched) :
    template tree' root c = template tree root c := by
  unfold template
  cases hp : c.templateFile? root with
  | none => rfl
  | some p =>
    have hsame : (tree'.locate p).toOption.elim none
          (fun names => (tree'.file? names).bind Prod.fst) =
        (tree'.locate p).toOption.elim none fun names => (tree.file? names).bind Prod.fst := by
      cases hlocate' : tree'.locate p with
      | error stopped => rfl
      | ok names =>
        have hne : names ≠ touched := by
          rintro rfl
          exact hunread p hp hlocate'
        simp only [Except.toOption, Option.elim_some]
        rw [h.file names hne]
    have hread : (tree'.read p).toOption = (tree.read p).toOption := by
      rw [Entry.read_toOption, Entry.read_toOption, hsame]
      exact (hopens p hp).elim_eq h fun names hnone => by simp [Entry.file?, hnone]
    simp only
    cases h' : tree'.read p <;> cases h : tree.read p <;> simp_all [Except.toOption]

/-- **A file that is no input of a pass does not matter to it.** Where new folders and what stands
at such names is all that is different in a project, and no place that the pass looks up leads to
anything old by way of the new folders, the pass has the same inputs. -/
theorem inputs_of_extends (htree : tree.Proper) (h : Extends (· = touched) tree tree')
    (hopens : ∀ p ∈ places root c, OpensNothing tree tree' p)
    (hunread : Unread tree' root c touched) :
    inputs tree' root c = inputs tree root c ∧
      ∀ rules, report tree' root c rules = report tree root c rules := by
  simp only [places, List.mem_append, Option.mem_toList] at hopens
  have hmarkup : markupFiles tree' root c = markupFiles tree root c :=
    collect_of_extends htree h (fun r hr => hopens r (.inl (.inl hr))) hunread.markup
  have hstyles : styleFiles tree' root c = styleFiles tree root c :=
    collect_of_extends htree h (fun r hr => hopens r (.inl (.inr hr))) hunread.styles
  have hmarkupTexts : readAll tree' (markupFiles tree root c) =
      readAll tree (markupFiles tree root c) := readAll_of_extends htree h hunread.markup
  have hstyleTexts : readAll tree' (styleFiles tree root c) =
      readAll tree (styleFiles tree root c) := readAll_of_extends htree h hunread.styles
  have htemplate := template_of_extends h (fun p hp => hopens p (.inr hp)) hunread.template
  have hinputs : inputs tree' root c = inputs tree root c := by
    simp only [inputs, author, hmarkup, hstyles, hmarkupTexts, hstyleTexts, htemplate]
  refine ⟨hinputs, fun rules => ?_⟩
  simp only [report, hinputs, hmarkup, hstyles, hstyleTexts]

end Project

end UtilitySheet
