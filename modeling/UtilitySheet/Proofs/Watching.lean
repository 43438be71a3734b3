import UtilitySheet.Proofs.Rebuilding

/-!
# Which changes matter

A watcher passes over the changes that are not relevant: of files that are neither the settings nor
markup or styles, and of files that the filter excludes. A pass reads more than that: it reads the
template, whatever its name, and what a search comes to by a path that the filter lets in. Where a
file is neither (`Project.Overlooked`), no change of it that is not relevant changes what a pass
writes (`Builder.build_of_not_isRelevant`).
-/

namespace UtilitySheet

open UtilitySheet.Path (isName moves)
open Entry (Extends)

/-! ## Changes of one file -/

namespace Entry

variable {e e' : Entry} {p : Path} {names above behind : List Text}

/-- A tree after the file at a path was written, made or removed. -/
inductive FileChange (e : Entry) (p : Path) : Entry → Prop
  | written {e' : Entry} (text : Option Text) (time : Int) (h : e.write p text time = .ok e') :
    FileChange e p e'
  | removed (h : e.isFileAt p = true) : FileChange e p (e.remove p).tree

/-- A change of a file touches no other file, and no folder. -/
theorem FileChange.extends (h : FileChange e p e') : ∃ names, e.locate p = .ok names ∧
    Extends (· = names) e e' ∧ ∀ other, e'.hasFolder other = e.hasFolder other := by
  suffices ∃ names new, e.locate p = .ok names ∧ e' = e.change names new ∧
      e.hasFolder names = false ∧ (∀ x ∈ new, ∃ text time, x = .file text time) ∧
      e'.hasFolder names = false by
    obtain ⟨names, new, hlocate, rfl, hold, hnew, hfolder⟩ := this
    refine ⟨names, hlocate, extends_change hold hnew fun n hn =>
      (leads_isName (locate_eq_ok.1 hlocate).2 n hn).1, fun other => ?_⟩
    by_cases hne : other = names
    · rw [hne, hfolder, hold]
    · refine (change_of_ne hold (fun x hx => ?_) hne).2
      obtain ⟨text, time, rfl⟩ := hnew x hx
      rfl
  cases h with
  | written text time h =>
    obtain ⟨names, hlocate, hfile, -⟩ := extends_write h
    obtain ⟨names', hlocate', hold, rfl⟩ := write_eq_ok.1 h
    obtain rfl := Except.ok.inj (hlocate.symm.trans hlocate')
    refine ⟨names, some (.file text time), hlocate, rfl, hold, by simp, ?_⟩
    rw [hasFolder, file?_eq_some.1 hfile]
    rfl
  | removed h =>
    obtain ⟨names, hlocate, hfile, hremove⟩ := remove_of_isFileAt h
    obtain ⟨⟨text, time⟩, hsome⟩ := Option.isSome_iff_exists.1 hfile
    have hold : e.hasFolder names = false := by
      rw [hasFolder, file?_eq_some.1 hsome]
      rfl
    refine ⟨names, none, hlocate, by rw [hremove]; rfl, hold, by simp, ?_⟩
    rw [hremove]
    rcases List.eq_nil_or_concat' names with rfl | ⟨front, last, rfl⟩
    · exact hold
    · have hgone : (e.change (front ++ [last]) none).get? (front ++ [last]) = none :=
        get?_change_self (follow_hasFolder (locate_eq_ok.1 hlocate).2)
      rw [change] at hgone
      rw [hasFolder, hgone]
      rfl

theorem locate_congr (h : ∀ other, e'.hasFolder other = e.hasFolder other) :
    e'.locate p = .ok names ↔ e.locate p = .ok names := by
  simp only [locate_eq_ok, Leads]
  exact and_congr_right fun _ =>
    ⟨follow_mono fun other hother => h other ▸ hother,
      follow_mono fun other hother => (h other).symm ▸ hother⟩

end Entry

/-! ## Files of a project -/

namespace Path

/-- Whether a path leads down from the root of a project by the names. -/
structure LiesBelow (p root : Path) (behind : List Text) : Prop where
  rooted : p.rooted = root.rooted
  parts : p.parts = root.parts ++ behind
  names : ∀ n ∈ behind, isName n = true
  ne_nil : behind ≠ []

variable {p root : Path} {behind : List Text}

theorem filter_parts (p : Path) : p.parts.filter moves = p.names := by
  have hself : p.names.filter moves = p.names := List.filter_eq_self.2 moves_of_mem_names
  rw [Path.parts]
  split
  · rw [List.filter_cons_of_neg (by decide), hself]
  · exact hself

namespace LiesBelow

theorem names_eq (h : p.LiesBelow root behind) : p.names = root.names ++ behind := by
  have hbehind : behind.filter moves = behind :=
    List.filter_eq_self.2 fun n hn => (isName_iff.1 (h.names n hn)).1
  rw [← filter_parts p, h.parts, List.filter_append, filter_parts, hbehind]

theorem components_eq (h : p.LiesBelow root behind) :
    p.components = root.components ++ behind := by
  rw [components, components, h.rooted, h.parts]
  split <;> simp

theorem fileName?_eq (h : p.LiesBelow root behind) : p.fileName? = behind.getLast? := by
  obtain ⟨front, last, rfl⟩ := List.eq_nil_or_concat' behind |>.resolve_left h.ne_nil
  have hparts := h.parts
  rw [← List.append_assoc] at hparts
  rw [fileName?_of_parts hparts (h.names last (by simp)), List.getLast?_concat]

end LiesBelow

end Path

namespace Entry

variable {e : Entry} {p root : Path} {names above behind : List Text} {name : Text}

/-- Where an entry of a folder is found, the folder is found. -/
theorem Leads.of_child (h : e.Leads (root.child name) names) (hname : isName name = true) :
    ∃ above, e.Leads root above ∧ names = above ++ [name] := by
  obtain ⟨mid, hmid, hlast⟩ := follow_append_eq_ok.1 h
  refine ⟨mid, ?_, follow_of_isName (by simpa using hname) hlast⟩
  rw [Leads]
  rcases Path.openEnd_cases root.steps with hsteps | hsteps
  · rwa [hsteps] at hmid
  · rw [hsteps]
    exact enter_eq_ok.2 ⟨hmid, (follow_cons_eq_ok.1 hlast).1⟩

/-- A path below a root leads down from where the root leads. -/
theorem Leads.eq_of_liesBelow (h : e.Leads p names) (hroot : e.Leads root above)
    (hp : p.LiesBelow root behind) : names = above ++ behind := by
  have hnames := follow_filter h
  rw [← Path.names, hp.names_eq] at hnames
  obtain ⟨mid, hmid, hbehind⟩ := follow_append_eq_ok.1 hnames
  obtain rfl := Except.ok.inj (hmid.symm.trans (follow_filter hroot))
  exact follow_of_isName hp.names hbehind

end Entry

/-! ## Files that a pass overlooks -/

theorem PathFilter.excludes_congr (f : PathFilter) {p q : Path} (h : p.components = q.components) :
    f.excludes p = f.excludes q := by
  have hplaces : f.excluded.any p.startsWith = f.excluded.any q.startsWith := by
    refine congrArg _ (funext fun place => ?_)
    rw [Path.startsWith, Path.startsWith, h]
  rw [excludes, excludes, h, hplaces]

namespace Project

variable {tree tree' : Entry} {root p : Path} {c : Config} {names behind : List Text}

/-- Whether a pass overlooks what the watcher does: the template is another file, and where the
filter excludes the path it keeps every search from the file. -/
structure Overlooked (tree : Entry) (root : Path) (c : Config) (p : Path) : Prop where
  template : ∀ t names, c.templateFile? root = some t → tree.locate p = .ok names →
    tree.locate t ≠ .ok names
  search : ∀ names, (PathFilter.ofConfig root c).excludes p = true → tree.locate p = .ok names →
    Hides tree root c (c.markupRoots root ++ c.styleRoots root) names

/-- A path below the root that leads to the settings is the path of the settings. -/
theorem locate_fileAt_ne_of_not_same (hp : p.LiesBelow root behind)
    (hsame : p.same (Config.fileAt root) = false) (hlocate : tree.locate p = .ok names) :
    tree.locate (Config.fileAt root) ≠ .ok names := by
  intro hsettings
  have hname : isName Config.fileName = true := by decide
  obtain ⟨above, habove, rfl⟩ := (Entry.locate_eq_ok.1 hsettings).2.of_child hname
  have hbehind := (Entry.locate_eq_ok.1 hlocate).2.eq_of_liesBelow habove hp
  obtain rfl := List.append_cancel_left hbehind
  have hcomponents : p.components = (Config.fileAt root).components := by
    rw [hp.components_eq, ← Path.components_descend root hp.names]
    rfl
  rw [Path.same, hcomponents, beq_self_eq_true] at hsame
  cases hsame

/-- **What the watcher passes over is not read, if the pass overlooks it.** -/
theorem Overlooked.unread (h : Overlooked tree root c p) (hp : p.LiesBelow root behind)
    (hirrelevant : isRelevant root (.ofConfig root c) p = false)
    (hlocate : tree.locate p = .ok names) : Unread tree root c names := by
  rw [isRelevant, Bool.or_eq_false_iff, Bool.and_eq_false_iff] at hirrelevant
  obtain ⟨hsame, hskip⟩ := hirrelevant
  obtain ⟨hcheck, hleads⟩ := Entry.locate_eq_ok.1 hlocate
  have hlast : p.fileName? = names.getLast? := by
    have hlast := List.getLast?_eq_some_getLast hp.ne_nil
    have hname := hp.fileName?_eq.trans hlast
    rw [hname, hleads.getLast? hname]
  have hskips : ∀ extension ∈ watchedExtensions, ∀ r ∈ c.markupRoots root ++ c.styleRoots root,
      ∀ above behind, tree.locate r = .ok above → above ++ behind = names →
        (⟨extension, .ofConfig root c⟩ : Query).Skips (r.descend behind) := by
    intro extension hwatched r hr above behind hroot hbehind
    rcases hskip with hskip | hskip
    · right
      rw [Bool.eq_false_iff]
      intro hextension
      obtain ⟨name, hname⟩ := Path.fileName?_of_hasExtension hextension
      have hsameName : (r.descend behind).fileName? = p.fileName? := by
        rw [hname, hlast, ← hbehind]
        exact ((Entry.locate_eq_ok.1 hroot).2.getLast?_descend (fun n hn =>
          (Entry.leads_isName hleads n (hbehind ▸ List.mem_append_right _ hn)).1) hname).symm
      rw [Path.hasExtension_congr hsameName] at hextension
      exact absurd (List.any_eq_true.2 ⟨extension, hwatched, hextension⟩) (by simp [hskip])
    · exact .inl (h.search names (by simpa using hskip) hlocate r hr above behind hroot hbehind)
  exact {
    settings := locate_fileAt_ne_of_not_same hp hsame hlocate
    markup := fun r hr => hskips "html" (by decide) r (List.mem_append_left _ hr)
    styles := fun r hr => hskips "css" (by decide) r (List.mem_append_right _ hr)
    template := fun t ht => h.template t names ht hlocate }

/-- With straight settings only the template is read beside what the watcher lets through. -/
theorem overlooked_of_isStraight (hc : c.IsStraight root) (hp : p.LiesBelow root behind)
    (htemplate : ∀ t, c.templateFile? root = some t → t.same p = false) :
    Overlooked tree root c p := by
  have hback : ['.', '.'] ∉ p.steps := by
    intro hback
    have hmem : ['.', '.'] ∈ p.names := List.mem_filter.2 ⟨hback, by decide⟩
    rw [hp.names_eq] at hmem
    rcases List.mem_append.1 hmem with hmem | hmem
    · exact hc.straight (List.mem_of_mem_filter hmem)
    · exact absurd (hp.names _ hmem) (by decide)
  have hcomponents : ∀ names, tree.locate p = .ok names → p.components = ['/'] :: names :=
    fun names hlocate => (Entry.locate_eq_ok.1 hlocate).2.components_eq
      (hp.rooted.trans hc.rooted) hback
  refine ⟨fun t names ht hlocate hsame => ?_, fun names hexcludes hlocate r hr above behind hroot
    hbehind => ?_⟩
  · have hplace : t ∈ places root c := by simp [places, ht]
    have heq := (Entry.locate_eq_ok.1 hsame).2.components_eq
      (rooted_of_mem_places hc.rooted hplace) (hc.places t hplace)
    have hother := htemplate t ht
    rw [Path.same, heq, hcomponents names hlocate, beq_self_eq_true] at hother
    cases hother
  · have hnames := Entry.leads_isName (Entry.locate_eq_ok.1 hlocate).2
    have heq := components_of_isStraight hc (r := r) (List.mem_append_left _ hr)
      (Entry.locate_eq_ok.1 hroot).2 fun n hn =>
        (hnames n (hbehind ▸ List.mem_append_right _ hn)).1
    rw [PathFilter.excludes_congr _ (heq.trans
      (by rw [hbehind, hcomponents names hlocate])), hexcludes]

theorem Unread.of_hasFolder_eq (h : Unread tree root c names)
    (hfolders : ∀ other, tree'.hasFolder other = tree.hasFolder other) :
    Unread tree' root c names where
  settings hlocate := h.settings ((Entry.locate_congr hfolders).1 hlocate)
  markup r hr above behind hlocate :=
    h.markup r hr above behind ((Entry.locate_congr hfolders).1 hlocate)
  styles r hr above behind hlocate :=
    h.styles r hr above behind ((Entry.locate_congr hfolders).1 hlocate)
  template t ht hlocate := h.template t ht ((Entry.locate_congr hfolders).1 hlocate)

/-- A file that cannot be written is the only way to fail to write it. -/
theorem writeOutput_eq_error {q : Path} {css : Text} {now : Int} {left : Entry} {e : PassError}
    (h : writeOutput tree q css now = (left, .error e)) :
    ∃ stopped, e = .outputFolder q.parent stopped ∨ e = .outputFile q stopped := by
  rw [writeOutput] at h
  split at h
  · rename_i stopped hstopped
    exact ⟨stopped, .inl (Except.error.inj (Prod.mk.inj h).2).symm⟩
  · split at h
    · rename_i stopped hstopped
      exact ⟨stopped, .inr (Except.error.inj (Prod.mk.inj h).2).symm⟩
    · cases (Prod.mk.inj h).2

end Project

namespace Builder

/-- **A change that the watcher passes over does not change what a pass writes, if the pass
overlooks the file.** The settings and the inputs are the same, and a pass that has succeeded before
the change comes to the same text and the same report after it, or cannot write its output. With
straight settings, a pass overlooks all files but the template. -/
theorem build_of_not_isRelevant {b : Builder} {engine : PatternEngine} {tree tree' : Entry}
    {c : Config} {p : Path} {behind : List Text} (htree : tree.Proper)
    (hc : Project.loadConfig tree b.root = .ok c)
    (hp : p.LiesBelow b.root behind)
    (hirrelevant : isRelevant b.root (.ofConfig b.root c) p = false)
    (hchange : tree.FileChange p tree') :
    (Project.Overlooked tree b.root c p →
      Project.loadConfig tree' b.root = .ok c ∧
      Project.inputs tree' b.root c = Project.inputs tree b.root c ∧
      ∀ now later r css, (b.build engine tree now).outcome = .ok r →
        (b.build engine tree now).tree.read r.output = .ok css →
          ((b.build engine tree' later).outcome = .ok r ∧
            (b.build engine tree' later).tree.read r.output = .ok css) ∨
          ∃ stopped, (b.build engine tree' later).outcome =
              .error (.outputFolder (c.outputFolder b.root) stopped) ∨
            (b.build engine tree' later).outcome = .error (.outputFile (c.output b.root) stopped)) ∧
    (c.IsStraight b.root → (∀ t, c.templateFile? b.root = some t → t.same p = false) →
      Project.Overlooked tree b.root c p) := by
  refine ⟨fun hoverlooked => ?_, fun hstraight => Project.overlooked_of_isStraight hstraight hp⟩
  obtain ⟨names, hlocate, hextends, hfolders⟩ := hchange.extends
  have hunread := (hoverlooked.unread hp hirrelevant hlocate).of_hasFolder_eq hfolders
  have hopens : ∀ q ∈ Project.places b.root c, Project.OpensNothing tree tree' q :=
    fun q _ other hother => .inl ((Entry.locate_congr hfolders).1 hother)
  have hsame := Project.inputs_of_extends htree hextends hopens hunread
  have hconfig := Project.loadConfig_of_extends hextends hunread.settings hc
  refine ⟨hconfig, hsame.1, fun now later r css hr hread => ?_⟩
  obtain ⟨c', k, made, rules, hc', hfiles, hk, hproduce, hwrite, rfl⟩ := build_eq_ok hr
  obtain rfl := Except.ok.inj (hc.symm.trans hc')
  obtain ⟨output, hlocate', hfile, -⟩ := Project.extends_of_writeOutput_ok hwrite
  obtain rfl := Except.ok.inj (hread.symm.trans (Entry.read_of_file? hlocate' hfile))
  obtain ⟨houtcome, htree'⟩ := build_of_same_inputs later hconfig hsame hfiles hk hproduce
  rw [houtcome, htree']
  rcases hagain : Project.writeOutput tree' (c.output b.root) css later with ⟨left, e | _⟩
  · right
    obtain ⟨stopped, rfl | rfl⟩ := Project.writeOutput_eq_error hagain
    · exact ⟨stopped, .inl rfl⟩
    · exact ⟨stopped, .inr rfl⟩
  · left
    obtain ⟨output, hlocate', hfile, -⟩ := Project.extends_of_writeOutput_ok hagain
    exact ⟨rfl, Entry.read_of_file? hlocate' hfile⟩

/-! ### Files beside a page -/

/-- A stylesheet in the output folder, where no search for styles comes. -/
def themePath : Path := { rooted := true, steps := ["dist", "theme.css"] }

/-- The stylesheet may come while the project is watched, and nobody notices. -/
theorem build_of_not_isRelevant_styledProject : ∃ tree' r css,
    isRelevant pairRoot (.ofConfig pairRoot (styledConfig "./dist//main.css" ".")) themePath =
      false ∧
    styledProject.FileChange themePath tree' ∧
    (build { root := pairRoot } .unlimited styledProject 0).outcome = .ok r ∧
    (build { root := pairRoot } .unlimited styledProject 0).tree.read r.output = .ok css ∧
    (build { root := pairRoot } .unlimited tree' 1).outcome = .ok r ∧
    (build { root := pairRoot } .unlimited tree' 1).tree.read r.output = .ok css := by
  have hirrelevant : isRelevant pairRoot
      (.ofConfig pairRoot (styledConfig "./dist//main.css" ".")) themePath = false := by
    decide +kernel
  have hbelow : themePath.LiesBelow pairRoot ["dist", "theme.css"] :=
    ⟨rfl, by decide, by decide, by decide⟩
  have hchange : styledProject.FileChange themePath
      (styledProject.put ["dist", "theme.css"] (.file (some "p") 5)) :=
    .written (some "p") 5 (Entry.write_eq_ok.2
      ⟨["dist", "theme.css"], by decide +kernel, by decide +kernel, rfl⟩)
  obtain ⟨r, hr⟩ : ∃ r, (build { root := pairRoot } .unlimited styledProject 0).outcome = .ok r :=
    ⟨_, build_styledProject⟩
  obtain ⟨css, hread⟩ := read_of_build hr
  obtain ⟨hsame, hstraight⟩ := build_of_not_isRelevant (b := { root := pairRoot })
    proper_styledProject loadConfig_styledProject hbelow hirrelevant hchange
  obtain ⟨hconfig, -, hpass⟩ := hsame (hstraight isPlain_styledProject.toIsStraight nofun)
  refine ⟨_, r, css, hirrelevant, hchange, hr, hread, ?_⟩
  refine (hpass 0 1 r css hr hread).resolve_right ?_
  rintro ⟨stopped, hfailed⟩
  have hagain := (build_of_no_classes 1 hconfig rfl (by decide +kernel)
    (by decide +kernel) (by decide +kernel)).1
  rw [hagain] at hfailed
  rcases hfailed with hfailed | hfailed <;> cases hfailed

/-- Settings with a text file for a template. -/
def templateConfig : Config where
  templatePath := some "sheet.txt"

/-- A project with such settings, with this text for a template. -/
def templateProject (template : Text) : Entry :=
  .folder
    [(Config.fileName, .file (some "\x7b\"TEMPLATE_PATH\": \"sheet.txt\"\x7d") 0),
     ("index.html", .file (some "<p>") 0),
     ("sheet.txt", .file (some template) 0)] 0

/-- The path of the template. -/
def templatePath : Path := { rooted := true, steps := ["sheet.txt"] }

theorem build_templateProject : ∀ template ∈ [("/* old */" : Text), "/* new */"],
    ∃ r, (build { root := pairRoot } .unlimited (templateProject template) 0).outcome = .ok r ∧
      (build { root := pairRoot } .unlimited (templateProject template) 0).tree.read r.output =
        .ok (template ++ "\n") := by
  intro template htemplate
  have hc : Project.loadConfig (templateProject template) pairRoot = .ok templateConfig := by
    revert template
    decide +kernel
  have hchecked : (Project.markupFiles (templateProject template) pairRoot
        templateConfig).isEmpty = false ∧
      (Project.inputs (templateProject template) pairRoot templateConfig).classes = [] ∧
      (Project.writeOutput (templateProject template) (templateConfig.output pairRoot) [] 0).2 =
        .ok () := by
    revert template
    decide +kernel
  obtain ⟨hfiles, hclasses, hwrite⟩ := hchecked
  obtain ⟨hr, htree⟩ := build_of_no_classes 0 hc rfl hfiles hclasses hwrite
  refine ⟨_, hr, ?_⟩
  rw [htree, Project.author_of_no_places rfl]
  clear hr htree hc hfiles hclasses hwrite
  revert template
  decide +kernel

/-- The template is read by every pass, and the watcher does not let its changes through. -/
theorem build_of_not_isRelevant_fails :
    isRelevant pairRoot (.ofConfig pairRoot templateConfig) templatePath = false ∧
    (templateProject "/* old */").FileChange templatePath (templateProject "/* new */") ∧
    Project.loadConfig (templateProject "/* old */") pairRoot = .ok templateConfig ∧
    ∃ r r',
      (build { root := pairRoot } .unlimited (templateProject "/* old */") 0).outcome = .ok r ∧
      (build { root := pairRoot } .unlimited (templateProject "/* new */") 0).outcome = .ok r' ∧
      (build { root := pairRoot } .unlimited (templateProject "/* old */") 0).tree.read r.output ≠
        (build { root := pairRoot } .unlimited (templateProject "/* new */") 0).tree.read
          r'.output := by
  have hchange : (templateProject "/* old */").FileChange templatePath
      (templateProject "/* new */") :=
    .written (some "/* new */") 0 (Entry.write_eq_ok.2
      ⟨["sheet.txt"], by decide +kernel, by decide +kernel, rfl⟩)
  obtain ⟨r, hr, hold⟩ := build_templateProject "/* old */" (by simp)
  obtain ⟨r', hr', hnew⟩ := build_templateProject "/* new */" (by simp)
  refine ⟨by decide +kernel, hchange, by decide +kernel, r, r', hr, hr', ?_⟩
  rw [hold, hnew]
  decide

end Builder

end UtilitySheet
