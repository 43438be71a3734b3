import UtilitySheet.Proofs.Rebuilding

/-!
# Markup in the output folder

The output folder is one of the places that no search enters, whatever lies in it. So a page is
read exactly if its path does not start with that of the output folder, and a project has no markup
for a pass if all of its pages lie there (`Builder.build_noMarkup_iff`): if its root is the output
folder, for one.
-/

namespace UtilitySheet

namespace PathFilter

/-- What the filter of a project lets in: paths outside of folders of dependencies, of the ignored
places and of the output folder. -/
theorem excludes_ofConfig_eq_false {root p : Path} {c : Config} :
    (ofConfig root c).excludes p = false ↔ dependencyFolder ∉ p.components ∧
      (∀ ignored ∈ c.ignoredRoots root, p.startsWith ignored = false) ∧
      p.startsWith (c.outputFolder root) = false := by
  simp only [excludes, ofConfig, List.any_append, List.any_cons, List.any_nil,
    Bool.or_eq_false_iff, Bool.or_false, List.any_eq_false, Bool.not_eq_true,
    List.contains_eq_mem, decide_eq_false_iff_not]

end PathFilter

namespace Project

variable {tree : Entry} {root p r : Path} {c : Config} {above behind : List Text}

/-- Whether a path is that of a page of the project: of a file below a place of markup, with the
extension of markup, in no folder of dependencies and in no ignored place. -/
def IsPage (tree : Entry) (root : Path) (c : Config) (p : Path) : Prop :=
  ∃ r ∈ c.markupRoots root, ∃ above behind, tree.locate r = .ok above ∧ p = r.descend behind ∧
    (tree.file? (above ++ behind)).isSome = true ∧ p.hasExtension "html" = true ∧
    PathFilter.dependencyFolder ∉ p.components ∧
    ∀ ignored ∈ c.ignoredRoots root, p.startsWith ignored = false

/-- A pass reads the pages outside of the output folder. -/
theorem mem_markupFiles (htree : tree.Proper) : p ∈ markupFiles tree root c ↔
    IsPage tree root c p ∧ p.startsWith (c.outputFolder root) = false := by
  have hwants : ¬ (⟨"html", .ofConfig root c⟩ : Query).Skips p ↔
      p.hasExtension "html" = true ∧ (PathFilter.ofConfig root c).excludes p = false := by
    rw [← Query.wants_iff]
    simp [Query.wants]
  rw [markupFiles, mem_collect htree, hwants, PathFilter.excludes_ofConfig_eq_false, IsPage]
  constructor
  · rintro ⟨r, hr, above, behind, hlocate, hp, hfile, hextension, hdependency, hignored, houtput⟩
    exact ⟨⟨r, hr, above, behind, hlocate, hp, hfile, hextension, hdependency, hignored⟩, houtput⟩
  · rintro ⟨⟨r, hr, above, behind, hlocate, hp, hfile, hextension, hdependency, hignored⟩, houtput⟩
    exact ⟨r, hr, above, behind, hlocate, hp, hfile, hextension, hdependency, hignored, houtput⟩

theorem writeOutput_ne_noMarkup {css : Text} {now : Int} {roots : List Path} :
    (writeOutput tree p css now).2 ≠ .error (.noMarkup roots) := by
  rw [writeOutput]
  split
  · simp
  · split <;> simp

/-- A place of markup in the output folder is hidden with all that stands below it. -/
theorem notMem_markupFiles_of_startsWith (htree : tree.Proper)
    (hr : r.startsWith (c.outputFolder root) = true)
    (hfile : (tree.file? (above ++ behind)).isSome = true) :
    r.descend behind ∉ markupFiles tree root c := by
  obtain ⟨⟨text, time⟩, hsome⟩ := Option.isSome_iff_exists.1 hfile
  have hnames := (htree.get? (Entry.file?_eq_some.1 hsome)).2
  have hhidden := Path.startsWith_descend
    (fun n hn => hnames n (List.mem_append_right _ hn)) hr
  rw [mem_markupFiles htree, hhidden]
  rintro ⟨-, h⟩
  cases h

end Project

namespace Builder

variable {b : Builder} {tree : Entry} {c : Config}

/-- A pass finds no markup if and only if its search lists none. -/
theorem build_eq_noMarkup_iff (engine : PatternEngine) (now : Int)
    (hc : Project.loadConfig tree b.root = .ok c) :
    (b.build engine tree now).outcome = .error (.noMarkup (c.markupRoots b.root)) ↔
      Project.markupFiles tree b.root c = [] := by
  rw [← List.isEmpty_iff]
  cases hfiles : (Project.markupFiles tree b.root c).isEmpty with
  | true => exact iff_of_true (build_of_no_markup engine now hc hfiles).outcome rfl
  | false =>
    refine iff_of_false (fun h => ?_) Bool.false_ne_true
    cases hk : b.compilerFor engine c.settings with
    | error e => cases (build_of_refused now hc hfiles hk).outcome.symm.trans h
    | ok k =>
      cases hp : Project.produce k (Project.inputs tree b.root c) with
      | error e => cases (build_of_point now hc hfiles hk hp).outcome.symm.trans h
      | ok made =>
        rw [(build_of_produce now hc hfiles hk hp).outcome] at h
        cases hw : (Project.writeOutput tree (c.output b.root) made.1 now).2 with
        | error e =>
          rw [hw] at h
          obtain rfl := Except.error.inj h
          exact Project.writeOutput_ne_noMarkup hw
        | ok done => simp [hw, Except.map] at h

/-- **A page is read exactly if it does not lie in the output folder,** as far as the steps of its
path say. A place of markup that is or lies in the output folder gives a pass no page at all, and
the pass has no markup exactly if all pages of the project lie there. -/
theorem build_noMarkup_iff (htree : tree.Proper) (hc : Project.loadConfig tree b.root = .ok c) :
    (∀ p, Project.IsPage tree b.root c p → (p ∈ Project.markupFiles tree b.root c ↔
      p.startsWith (c.outputFolder b.root) = false)) ∧
    (∀ r ∈ c.markupRoots b.root, r.startsWith (c.outputFolder b.root) = true →
      ∀ above behind, tree.locate r = .ok above →
        (tree.file? (above ++ behind)).isSome = true →
        r.descend behind ∉ Project.markupFiles tree b.root c) ∧
    ∀ engine now,
      (b.build engine tree now).outcome = .error (.noMarkup (c.markupRoots b.root)) ↔
      ∀ p, Project.IsPage tree b.root c p → p.startsWith (c.outputFolder b.root) = true := by
  refine ⟨fun p hp => ?_, fun r _ hr above behind _ hfile => ?_, fun engine now => ?_⟩
  · rw [Project.mem_markupFiles htree, and_iff_right hp]
  · exact Project.notMem_markupFiles_of_startsWith htree hr hfile
  · rw [build_eq_noMarkup_iff engine now hc, List.eq_nil_iff_forall_not_mem]
    refine forall_congr' fun p => ?_
    rw [Project.mem_markupFiles htree, not_and, Bool.not_eq_false]

/-! ### A stylesheet beside the pages -/

/-- Settings for a stylesheet in the root of the project. -/
def besideConfig : Config where
  buildPath := "app.css"

/-- A project with such settings, and a page in its root. -/
def besideProject : Entry :=
  .folder
    [(Config.fileName, .file (some "\x7b\"BUILD_PATH\": \"app.css\"\x7d") 0),
     ("index.html", .file (some "<p class='d-flex'>") 0)] 0

theorem proper_besideProject : besideProject.Proper := by
  refine .folder (by decide) (by decide) fun entry hentry => ?_
  simp only [List.mem_cons, List.not_mem_nil, or_false] at hentry
  rcases hentry with rfl | rfl <;> exact .file _ _

theorem loadConfig_besideProject :
    Project.loadConfig besideProject pairRoot = .ok besideConfig := by
  decide +kernel

theorem isPage_besideProject :
    Project.IsPage besideProject pairRoot besideConfig ⟨true, ["index.html"]⟩ :=
  ⟨⟨true, []⟩, by decide, [], ["index.html"], by decide, rfl, by decide, by decide, by decide,
    nofun⟩

/-- The page lies in the folder of the stylesheet, and so no page is read. -/
theorem build_noMarkup_iff_beside :
    besideProject.Proper ∧
    Project.loadConfig besideProject pairRoot = .ok besideConfig ∧
    ⟨true, ["index.html"]⟩ ∉ Project.markupFiles besideProject pairRoot besideConfig := by
  obtain ⟨hread, -, -⟩ := build_noMarkup_iff (b := { root := pairRoot }) proper_besideProject
    loadConfig_besideProject
  refine ⟨proper_besideProject, loadConfig_besideProject, fun hmem => ?_⟩
  have houtside := (hread _ isPage_besideProject).1 hmem
  revert houtside
  decide

/-- A project whose only page stands in the folder of its stylesheet is not built. -/
theorem build_besideProject_fails :
    Project.loadConfig besideProject pairRoot = .ok besideConfig ∧
    Project.IsPage besideProject pairRoot besideConfig ⟨true, ["index.html"]⟩ ∧
    besideConfig.outputFolder pairRoot = pairRoot ∧
    besideConfig.markupRoots pairRoot = [pairRoot] ∧
    Project.markupFiles besideProject pairRoot besideConfig = [] ∧
    (build { root := pairRoot } .unlimited besideProject 0).outcome =
      .error (.noMarkup [pairRoot]) := by
  have hnone : Project.markupFiles besideProject pairRoot besideConfig = [] := by decide +kernel
  exact ⟨loadConfig_besideProject, isPage_besideProject, by decide, by decide, hnone,
    (build_eq_noMarkup_iff (b := { root := pairRoot }) .unlimited 0
      loadConfig_besideProject).2 hnone⟩

end Builder

end UtilitySheet
