import Mathlib.Data.List.Dedup
import UtilitySheet.Proofs.Rebuilding
import UtilitySheet.Proofs.Sorting

/-!
# The author styles of a project

The author styles are the stylesheets below the first place, then those below the next, and so on,
by the priority of the places; below one place they come in the order of their names, each once.
Places are searched one by one, so a stylesheet that stands below several of them is there several
times (`Project.author_eq_stylesheets`).
-/

namespace UtilitySheet

/-! ## Places in order -/

namespace Config

/-- The places of author styles in the order in which they are searched. -/
def stylePlaces (c : Config) : List StyleRoot :=
  c.stylePaths.mergeSort fun a b => weightLe a.weight b.weight

/-- The path of a place. -/
def placeAt (root : Path) (place : StyleRoot) : Path := root.resolve (.ofText place.path)

theorem styleRoots_eq (c : Config) (root : Path) :
    c.styleRoots root = c.stylePlaces.map (placeAt root) := rfl

theorem pairwise_stylePlaces (c : Config) :
    c.stylePlaces.Pairwise fun a b => weightLe a.weight b.weight = true :=
  pairwise_mergeSort_weight StyleRoot.weight c.stylePaths

/-- Places of one priority keep their order. -/
theorem filter_stylePlaces (c : Config) (key : UInt64) :
    c.stylePlaces.filter (weightKey ·.weight == key) =
      c.stylePaths.filter (weightKey ·.weight == key) :=
  filter_mergeSort_weight StyleRoot.weight (fun _ hplace => beq_iff_eq.1 hplace) c.stylePaths

end Config

/-! ## Stylesheets below a place -/

namespace Project

variable {tree : Entry} {root r : Path} {c : Config}

/-- The search for author styles. -/
def styleQuery (root : Path) (c : Config) : Query := ⟨"css", .ofConfig root c⟩

/-- The stylesheets below a place that can be read: the names that lead to each, and its text. -/
def stylesheetsUnder (tree : Entry) (root : Path) (c : Config) (r : Path) :
    List (List Text × Text) :=
  match tree.locate r with
  | .error _ => []
  | .ok above =>
    (((tree.get? above).elim [] Entry.fileNames).filter fun behind =>
        (styleQuery root c).wants (r.descend behind)).filterMap fun behind =>
      (tree.read (r.descend behind)).toOption.map (above ++ behind, ·)

/-- The stylesheets of all places. -/
def stylesheets (tree : Entry) (root : Path) (c : Config) : List (List Text × Text) :=
  (c.styleRoots root).flatMap (stylesheetsUnder tree root c)

/-- Whether a place holds a stylesheet: the names of a file at or below the place, whose path from
there has the extension of a stylesheet, is not excluded, and can be read. -/
def Holds (tree : Entry) (root : Path) (c : Config) (r : Path) (sheet : List Text × Text) : Prop :=
  ∃ above behind, tree.locate r = .ok above ∧ sheet.1 = above ++ behind ∧
    (tree.file? sheet.1).isSome = true ∧ (r.descend behind).hasExtension "css" = true ∧
    (PathFilter.ofConfig root c).excludes (r.descend behind) = false ∧
    tree.read (r.descend behind) = .ok sheet.2

/-- The names of the files at or below names. -/
theorem mem_fileNames_below (htree : tree.Proper) {above behind : List Text} :
    behind ∈ (tree.get? above).elim [] Entry.fileNames ↔
      (tree.file? (above ++ behind)).isSome = true := by
  cases hget : tree.get? above with
  | none => simp [Entry.file?, Entry.get?_append, hget]
  | some x =>
    rw [Option.elim_some, Entry.mem_fileNames (htree.get? hget).1]
    simp [Entry.file?, Entry.get?_append, hget]

theorem mem_stylesheetsUnder (htree : tree.Proper) {sheet : List Text × Text} :
    sheet ∈ stylesheetsUnder tree root c r ↔ Holds tree root c r sheet := by
  have hread : ∀ p : Path, ∀ text : Text,
      (tree.read p).toOption = some text ↔ tree.read p = .ok text := by
    intro p text
    cases tree.read p <;> simp [Except.toOption]
  obtain ⟨names, text⟩ := sheet
  unfold stylesheetsUnder Holds
  cases tree.locate r with
  | error stopped => simp
  | ok above =>
    simp only [List.mem_filterMap, List.mem_filter, mem_fileNames_below htree,
      Option.map_eq_some_iff, hread, Query.wants, styleQuery, Bool.and_eq_true,
      Bool.not_eq_true', Except.ok.injEq]
    constructor
    · rintro ⟨behind, ⟨hfile, hextension, hexcluded⟩, text, htext, heq⟩
      obtain ⟨rfl, rfl⟩ := Prod.mk.inj heq
      exact ⟨above, behind, rfl, rfl, hfile, hextension, hexcluded, htext⟩
    · rintro ⟨above, behind, rfl, rfl, hfile, hextension, hexcluded, htext⟩
      exact ⟨behind, ⟨hfile, hextension, hexcluded⟩, text, htext, rfl⟩

theorem pairwise_stylesheetsUnder (htree : tree.Proper) (root : Path) (c : Config) (r : Path) :
    (stylesheetsUnder tree root c r).Pairwise fun a b => a.1 < b.1 := by
  unfold stylesheetsUnder
  split
  · exact List.Pairwise.nil
  · rename_i above _
    have hsorted : ((tree.get? above).elim [] Entry.fileNames).Pairwise (· < ·) := by
      cases hget : tree.get? above with
      | none => exact List.Pairwise.nil
      | some x => exact Entry.pairwise_fileNames (htree.get? hget).1
    refine List.Pairwise.filterMap _ (fun behind behind' hlt a ha b hb => ?_) (hsorted.filter _)
    obtain ⟨text, -, rfl⟩ := Option.map_eq_some_iff.1 ha
    obtain ⟨text', -, rfl⟩ := Option.map_eq_some_iff.1 hb
    exact List.append_left_lt hlt

/-- The texts are those that a pass reads. -/
theorem map_snd_stylesheetsUnder (htree : tree.Proper) (root : Path) (c : Config) (r : Path) :
    (stylesheetsUnder tree root c r).map Prod.snd =
      readAll tree (((styleQuery root c).find tree r).toOption.getD []) := by
  rw [Query.find_getD htree, stylesheetsUnder]
  cases tree.locate r with
  | error stopped => rfl
  | ok above =>
    simp only [Except.toOption, Option.elim_some, Query.below]
    cases hget : tree.get? above with
    | none => rfl
    | some x =>
      simp only [Option.elim_some]
      rw [Query.visit_eq _ _ (htree.get? hget).1, readAll, List.map_filterMap, List.filterMap_map]
      refine List.filterMap_congr fun behind _ => ?_
      simp [Function.comp_def, Except.toOption]

theorem map_snd_stylesheets (htree : tree.Proper) (root : Path) (c : Config) :
    (stylesheets tree root c).map Prod.snd = readAll tree (styleFiles tree root c) := by
  have hunder : ∀ r, (stylesheetsUnder tree root c r).map Prod.snd =
      readAll tree (((styleQuery root c).find tree r).toOption.getD []) :=
    map_snd_stylesheetsUnder htree root c
  rw [stylesheets, List.map_flatMap, styleFiles, collect, readAll, List.filterMap_flatMap]
  exact List.flatMap_congr fun r _ => hunder r

theorem nodup_names_under (htree : tree.Proper) (root : Path) (c : Config) (r : Path) :
    ((stylesheetsUnder tree root c r).map Prod.fst).Nodup := by
  rw [List.nodup_iff_pairwise_ne, List.pairwise_map]
  exact (pairwise_stylesheetsUnder htree root c r).imp fun hlt => ne_of_lt hlt

/-- The places that hold a file, in the order in which they are searched. -/
def holders (tree : Entry) (root : Path) (c : Config) (names : List Text) : List Path :=
  (c.styleRoots root).filter fun r => names ∈ (stylesheetsUnder tree root c r).map Prod.fst

/-- A file is there once for each place that holds it. -/
theorem count_names (htree : tree.Proper) (root : Path) (c : Config) (names : List Text) :
    ((stylesheets tree root c).map Prod.fst).count names =
      (holders tree root c names).length := by
  rw [stylesheets, holders]
  induction c.styleRoots root with
  | nil => rfl
  | cons r roots ih =>
    have hnodup := nodup_names_under htree root c r
    rw [List.flatMap_cons, List.map_append, List.count_append, ih, List.filter_cons]
    by_cases hmem : names ∈ (stylesheetsUnder tree root c r).map Prod.fst
    · rw [List.count_eq_one_of_mem hnodup hmem, if_pos (by simpa using hmem), List.length_cons]
      omega
    · rw [List.count_eq_zero.2 hmem, if_neg (by simpa using hmem)]
      omega

theorem nodup_names_iff (htree : tree.Proper) (root : Path) (c : Config) :
    ((stylesheets tree root c).map Prod.fst).Nodup ↔
      (c.styleRoots root).Pairwise fun r r' =>
        ∀ names ∈ (stylesheetsUnder tree root c r).map Prod.fst,
          names ∉ (stylesheetsUnder tree root c r').map Prod.fst := by
  rw [stylesheets, List.map_flatMap, List.nodup_flatMap]
  have hunder : ∀ r ∈ c.styleRoots root, ((stylesheetsUnder tree root c r).map Prod.fst).Nodup :=
    fun r _ => nodup_names_under htree root c r
  exact ⟨fun h => h.2, fun h => ⟨hunder, h⟩⟩

theorem author_getD (htree : tree.Proper) (root : Path) (c : Config) :
    (author tree root c).getD [] =
      (stylesheets tree root c).flatMap fun sheet => sheet.2 ++ ("\n\n" : Text) := by
  have htexts : (stylesheets tree root c).flatMap (fun sheet => sheet.2 ++ ("\n\n" : Text)) =
      (readAll tree (styleFiles tree root c)).flatMap (· ++ ("\n\n" : Text)) := by
    rw [← map_snd_stylesheets htree, List.flatMap_map]
  rw [htexts, author]
  split
  · rename_i hnone
    rw [List.isEmpty_iff.1 hnone]
    rfl
  · rfl

/-- How the author styles of a project are put together. A file stands where the first place that
holds it stands; it is there again for every other one. -/
structure JoinsByPlace (tree : Entry) (root : Path) (c : Config) : Prop where
  text : (author tree root c).getD [] =
    (stylesheets tree root c).flatMap fun sheet => sheet.2 ++ ("\n\n" : Text)
  /-- What a pass reports. -/
  reported : ∀ (b : Builder) (engine : PatternEngine) (now : Int) (r : Report), b.root = root →
    loadConfig tree root = .ok c → (b.build engine tree now).outcome = .ok r →
    r.styleFiles = (stylesheets tree root c).length
  places : c.stylePlaces.Perm c.stylePaths ∧
    c.stylePlaces.Pairwise (fun a b => weightLe a.weight b.weight = true) ∧
    ∀ key, c.stylePlaces.filter (weightKey ·.weight == key) =
      c.stylePaths.filter (weightKey ·.weight == key)
  joined : stylesheets tree root c = c.stylePlaces.flatMap fun place =>
    stylesheetsUnder tree root c (Config.placeAt root place)
  sorted : ∀ r, (stylesheetsUnder tree root c r).Pairwise fun a b => a.1 < b.1
  held : ∀ r sheet, sheet ∈ stylesheetsUnder tree root c r ↔ Holds tree root c r sheet
  count : ∀ names, ((stylesheets tree root c).map Prod.fst).count names =
    (holders tree root c names).length
  first : ∀ before r after names, c.styleRoots root = before ++ r :: after →
    (∀ r' ∈ before, names ∉ (stylesheetsUnder tree root c r').map Prod.fst) →
    names ∈ (stylesheetsUnder tree root c r).map Prod.fst →
    ((stylesheets tree root c).map Prod.fst).idxOf names =
      (before.flatMap (stylesheetsUnder tree root c)).length +
        ((stylesheetsUnder tree root c r).map Prod.fst).idxOf names
  /-- Every file is there once if no two places hold the same one. -/
  once : ((stylesheets tree root c).map Prod.fst).Nodup ↔
    (c.styleRoots root).Pairwise fun r r' =>
      ∀ names ∈ (stylesheetsUnder tree root c r).map Prod.fst,
        names ∉ (stylesheetsUnder tree root c r').map Prod.fst
  distinct : ((stylesheets tree root c).map Prod.fst).dedup.length =
    (stylesheets tree root c).length ↔ ((stylesheets tree root c).map Prod.fst).Nodup

/-- **The author styles are the stylesheets of each place in turn,** a stylesheet once for each
place that holds it. -/
theorem joinsByPlace (htree : tree.Proper) (root : Path) (c : Config) :
    JoinsByPlace tree root c where
  text := author_getD htree root c
  reported := by
    rintro b engine now r rfl hc hr
    obtain ⟨c', -, css, rules, hc', -, -, -, -, rfl⟩ := Builder.build_eq_ok hr
    obtain rfl := Except.ok.inj (hc.symm.trans hc')
    rw [report, ← map_snd_stylesheets htree, List.length_map]
  places := ⟨List.mergeSort_perm _ _, c.pairwise_stylePlaces, c.filter_stylePlaces⟩
  joined := by rw [stylesheets, Config.styleRoots_eq, List.flatMap_map]
  sorted := pairwise_stylesheetsUnder htree root c
  held := fun _ _ => mem_stylesheetsUnder htree
  count := count_names htree root c
  first := by
    intro before r after names hroots hbefore hr
    have hnone : names ∉ (before.flatMap (stylesheetsUnder tree root c)).map Prod.fst := by
      rw [List.map_flatMap, List.mem_flatMap]
      rintro ⟨r', hr', hmem⟩
      exact hbefore r' hr' hmem
    rw [stylesheets, hroots, List.flatMap_append, List.flatMap_cons, List.map_append,
      List.map_append, List.idxOf_append_of_notMem hnone, List.length_map,
      List.idxOf_append_of_mem hr]
  once := nodup_names_iff htree root c
  distinct := by
    constructor
    · intro h
      have hsame := (List.dedup_sublist ((stylesheets tree root c).map Prod.fst)).eq_of_length
        (by rw [h, List.length_map])
      exact List.dedup_eq_self.1 hsame
    · intro h
      rw [h.dedup, List.length_map]

/-! ### A stylesheet of two places -/

/-- Settings in which the root of the project is a place of styles, and a file in it is another. -/
def overlappingConfig : Config where
  stylePaths := [{ path := "." }, { path := "site.css" }]

/-- A project with such settings. -/
def overlappingProject : Entry :=
  .folder
    [(Config.fileName, .file (some "\x7b\"CSS_PATHS\": [\".\", \"site.css\"]\x7d") 0),
     ("index.html", .file (some "<p>") 0),
     ("site.css", .file (some "p\x7bcolor:red\x7d") 0)] 0

theorem proper_overlappingProject : overlappingProject.Proper := by
  refine .folder (by decide) (by decide) fun entry hentry => ?_
  simp only [List.mem_cons, List.not_mem_nil, or_false] at hentry
  rcases hentry with rfl | rfl | rfl <;> exact .file _ _

theorem styleRoots_overlappingConfig (root : Path) : overlappingConfig.styleRoots root =
    [root.resolve (.ofText "."), root.resolve (.ofText "site.css")] := by
  have hsorted : overlappingConfig.stylePaths.Pairwise fun a b =>
      weightLe a.weight b.weight = true := by
    decide +kernel
  rw [Config.styleRoots, List.mergeSort_of_pairwise hsorted]
  rfl

/-- In it the file is there twice. -/
theorem joinsByPlace_overlapping :
    overlappingProject.Proper ∧
    JoinsByPlace overlappingProject Builder.pairRoot overlappingConfig ∧
    (holders overlappingProject Builder.pairRoot overlappingConfig ["site.css"]).length = 2 := by
  refine ⟨proper_overlappingProject, joinsByPlace proper_overlappingProject _ _, ?_⟩
  rw [holders, styleRoots_overlappingConfig]
  decide +kernel

/-- A file that two places hold is taken for two, and its text stands there twice. -/
theorem author_overlapping_twice :
    loadConfig overlappingProject Builder.pairRoot = .ok overlappingConfig ∧
    (stylesheets overlappingProject Builder.pairRoot overlappingConfig).map Prod.fst =
      List.replicate 2 [("site.css" : Text)] ∧
    author overlappingProject Builder.pairRoot overlappingConfig =
      some "p\x7bcolor:red\x7d\n\np\x7bcolor:red\x7d\n\n" ∧
    ∃ r, (Builder.build { root := Builder.pairRoot } .unlimited overlappingProject 0).outcome =
        .ok r ∧ r.styleFiles = 2 := by
  have hc : loadConfig overlappingProject Builder.pairRoot = .ok overlappingConfig := by
    decide +kernel
  refine ⟨hc, ?_, ?_, _, (Builder.build_of_no_classes 0 hc rfl (by decide +kernel)
    (by decide +kernel) (by decide +kernel)).1, ?_⟩
  · rw [stylesheets, styleRoots_overlappingConfig]
    decide +kernel
  · rw [author, styleFiles, styleRoots_overlappingConfig]
    decide +kernel
  · simp only [report]
    rw [styleFiles, styleRoots_overlappingConfig]
    decide +kernel

end Project

end UtilitySheet
