import UtilitySheet.Project.Pass
import UtilitySheet.Proofs.Changes

/-!
# What a pass writes

A pass ends for want of settings, of markup, of a compiler or of a place for a point, or it gets as
far as to write; one lemma for each says what it leaves then. All ways to fail but the last come
before anything is changed (`Builder.build_cases`). So a pass that fails leaves every file as it
was, though it may have made folders, and a pass that succeeds leaves all files but its output
(`Builder.build_leavesFiles`).
-/

namespace UtilitySheet

open Entry (Extends Untouched)

namespace Project

variable {tree left : Entry} {p : Path} {css : Text} {now : Int}

/-- Where the output cannot be written, no file is touched. -/
theorem extends_of_writeOutput_error {e : PassError}
    (h : writeOutput tree p css now = (left, .error e)) : Extends Untouched tree left := by
  have hmade := tree.extends_makeFolder now p.parent
  rw [writeOutput] at h
  split at h
  · obtain ⟨rfl, -⟩ := Prod.mk.inj h
    exact hmade
  · split at h
    · obtain ⟨rfl, -⟩ := Prod.mk.inj h
      exact hmade
    · cases h

theorem writeOutput_eq_ok : writeOutput tree p css now = (left, .ok ()) ↔
    (tree.makeFolder now p.parent).error = none ∧
      (tree.makeFolder now p.parent).tree.write p (some css) now = .ok left := by
  rw [writeOutput]
  split
  · simp_all
  · split <;> simp_all

/-- A written output is found where its path leads, and no other file is touched. -/
theorem extends_of_writeOutput_ok (h : writeOutput tree p css now = (left, .ok ())) :
    ∃ names, left.locate p = .ok names ∧ left.file? names = some (some css, now) ∧
      Extends (· = names) tree left := by
  obtain ⟨-, hwrite⟩ := writeOutput_eq_ok.1 h
  obtain ⟨names, hlocate, hfile, hextends⟩ := Entry.extends_write hwrite
  obtain ⟨hcheck, hleads⟩ := Entry.locate_eq_ok.1 hlocate
  exact ⟨names, Entry.locate_eq_ok.2 ⟨hcheck, hextends.leads hleads⟩, hfile,
    (tree.extends_makeFolder now p.parent).of_untouched.trans hextends⟩

/-- A stylesheet is made of the rules that the class names compile to. -/
theorem produce_of_compile {k : Compiler} {i : Inputs} {g : RuleGroups}
    (hg : k.compile i.classes = .ok g) :
    produce k i = .ok (Assembly.assemble i.template g i.author i.mode, g.size) := by
  rw [produce, hg]
  rfl

/-- What a pass reports that makes `rules` rules of a project. -/
def report (tree : Entry) (root : Path) (c : Config) (rules : Nat) : Report where
  output := c.output root
  markupFiles := (markupFiles tree root c).length
  styleFiles := (readAll tree (styleFiles tree root c)).length
  classes := (inputs tree root c).classes.length
  rules := rules

end Project

/-- What a pass leaves behind, but for its notices. -/
structure PassResult.Leaves (result : PassResult) (b : Builder) (tree : Entry)
    (outcome : Except PassError Report) : Prop where
  builder : result.builder = b
  tree : result.tree = tree
  outcome : result.outcome = outcome

namespace Builder

variable {b : Builder} {engine : PatternEngine} {tree : Entry} {now : Int} {c : Config}
  {k : Compiler}

/-! ## How a pass ends -/

/-- Without settings a pass ends as it began. -/
theorem build_of_no_settings {e : PassError} (engine : PatternEngine) (now : Int)
    (hc : Project.loadConfig tree b.root = .error e) :
    (b.build engine tree now).Leaves b tree (.error e) := by
  rw [build, hc]
  exact ⟨rfl, rfl, rfl⟩

/-- Without markup, too. -/
theorem build_of_no_markup (engine : PatternEngine) (now : Int)
    (hc : Project.loadConfig tree b.root = .ok c)
    (hfiles : (Project.markupFiles tree b.root c).isEmpty = true) :
    (b.build engine tree now).Leaves b tree (.error (.noMarkup (c.markupRoots b.root))) := by
  simp only [build, hc, hfiles, if_true]
  exact ⟨rfl, rfl, rfl⟩

/-- With a pattern that the engine refuses, a pass ends without a compiler. -/
theorem build_of_refused {e : PatternError} (now : Int)
    (hc : Project.loadConfig tree b.root = .ok c)
    (hfiles : (Project.markupFiles tree b.root c).isEmpty = false)
    (hk : b.compilerFor engine c.settings = .error e) :
    (b.build engine tree now).Leaves { root := b.root } tree (.error (.compiler e)) := by
  simp only [build, hc, hfiles, hk, Bool.false_eq_true, if_false]
  exact ⟨rfl, rfl, rfl⟩

/-- Where a point cannot be placed, a pass breaks off and keeps its compiler. -/
theorem build_of_point {e : PointError} (now : Int)
    (hc : Project.loadConfig tree b.root = .ok c)
    (hfiles : (Project.markupFiles tree b.root c).isEmpty = false)
    (hk : b.compilerFor engine c.settings = .ok k)
    (hp : Project.produce k (Project.inputs tree b.root c) = .error e) :
    (b.build engine tree now).Leaves { b with compiler := some k } tree (.error (.point e)) := by
  simp only [build, hc, hfiles, hk, hp, Bool.false_eq_true, if_false]
  exact ⟨rfl, rfl, rfl⟩

/-- With settings, markup, a compiler and a stylesheet made of them, all that is left to do is to
write it. -/
theorem build_of_produce {css : Text} {rules : Nat} (now : Int)
    (hc : Project.loadConfig tree b.root = .ok c)
    (hfiles : (Project.markupFiles tree b.root c).isEmpty = false)
    (hk : b.compilerFor engine c.settings = .ok k)
    (hp : Project.produce k (Project.inputs tree b.root c) = .ok (css, rules)) :
    (b.build engine tree now).Leaves { b with compiler := some k }
      (Project.writeOutput tree (c.output b.root) css now).1
      ((Project.writeOutput tree (c.output b.root) css now).2.map
        fun _ => Project.report tree b.root c rules) := by
  simp only [build, hc, hfiles, hk, hp, Bool.false_eq_true, if_false]
  rcases Project.writeOutput tree (c.output b.root) css now with ⟨left, _ | _⟩ <;>
    exact ⟨rfl, rfl, rfl⟩

/-- What a pass can do: it fails before anything is changed, or it gets as far as to write its
output. -/
theorem build_cases (b : Builder) (engine : PatternEngine) (tree : Entry) (now : Int) :
    (∃ e, (b.build engine tree now).outcome = .error e ∧ (b.build engine tree now).tree = tree) ∨
      ∃ c k css rules, Project.loadConfig tree b.root = .ok c ∧
        (Project.markupFiles tree b.root c).isEmpty = false ∧
        b.compilerFor engine c.settings = .ok k ∧
        Project.produce k (Project.inputs tree b.root c) = .ok (css, rules) := by
  have hfails : ∀ {left : Builder} {e : PassError},
      (b.build engine tree now).Leaves left tree (.error e) →
        ∃ e, (b.build engine tree now).outcome = .error e ∧
          (b.build engine tree now).tree = tree :=
    fun h => ⟨_, h.outcome, h.tree⟩
  cases hc : Project.loadConfig tree b.root with
  | error e => exact .inl (hfails (build_of_no_settings engine now hc))
  | ok c =>
    cases hfiles : (Project.markupFiles tree b.root c).isEmpty with
    | true => exact .inl (hfails (build_of_no_markup engine now hc hfiles))
    | false =>
      cases hk : b.compilerFor engine c.settings with
      | error e => exact .inl (hfails (build_of_refused now hc hfiles hk))
      | ok k =>
        cases hp : Project.produce k (Project.inputs tree b.root c) with
        | error e => exact .inl (hfails (build_of_point now hc hfiles hk hp))
        | ok made => exact .inr ⟨c, k, made.1, made.2, rfl, hfiles, hk, hp⟩

/-- All that a pass has done when it succeeds. -/
theorem build_eq_ok {r : Report} (h : (b.build engine tree now).outcome = .ok r) :
    ∃ c k css rules, Project.loadConfig tree b.root = .ok c ∧
      (Project.markupFiles tree b.root c).isEmpty = false ∧
      b.compilerFor engine c.settings = .ok k ∧
      Project.produce k (Project.inputs tree b.root c) = .ok (css, rules) ∧
      Project.writeOutput tree (c.output b.root) css now =
        ((b.build engine tree now).tree, .ok ()) ∧
      r = Project.report tree b.root c rules := by
  rcases b.build_cases engine tree now with ⟨e, he, -⟩ | ⟨c, k, css, rules, hc, hfiles, hk, hp⟩
  · rw [he] at h
    cases h
  · obtain ⟨-, htree, houtcome⟩ := build_of_produce now hc hfiles hk hp
    rw [houtcome] at h
    rcases hw : Project.writeOutput tree (c.output b.root) css now with ⟨left, _ | _⟩
    · simp [hw, Except.map] at h
    · rw [hw] at h htree
      refine ⟨c, k, css, rules, hc, hfiles, hk, hp, ?_, (Except.ok.inj h).symm⟩
      rw [hw, htree]

/-- A pass keeps all that a change of its output keeps. -/
theorem extends_build (b : Builder) (engine : PatternEngine) (tree : Entry) (now : Int) :
    match (b.build engine tree now).outcome with
    | .error _ => Extends Untouched tree (b.build engine tree now).tree
    | .ok r => ∃ css names, (b.build engine tree now).tree.locate r.output = .ok names ∧
        (b.build engine tree now).tree.file? names = some (some css, now) ∧
        Extends (· = names) tree (b.build engine tree now).tree := by
  rcases b.build_cases engine tree now with ⟨e, he, htree⟩ | ⟨c, k, css, rules, hc, hfiles, hk, hp⟩
  · rw [he, htree]
    exact .refl _ _
  · obtain ⟨-, htree, houtcome⟩ := build_of_produce now hc hfiles hk hp
    rw [houtcome, htree]
    rcases hw : Project.writeOutput tree (c.output b.root) css now with ⟨left, e | _⟩
    · exact Project.extends_of_writeOutput_error hw
    · exact ⟨css, Project.extends_of_writeOutput_ok hw⟩

end Builder

/-- Whether the files of `tree` are left alone: by a pass that fails all of them, and by one that
succeeds all but its output, which stands where the report says. -/
def PassResult.LeavesFiles (tree : Entry) (result : PassResult) : Prop :=
  match result.outcome with
  | .error _ => ∀ names, result.tree.file? names = tree.file? names
  | .ok report => ∃ output, result.tree.locate report.output = .ok output ∧
      (result.tree.file? output).isSome = true ∧
      ∀ names, names ≠ output → result.tree.file? names = tree.file? names

namespace Builder

/-- A pass on its own differs in the builder that it hands back. -/
theorem runPass_eq (b : Builder) (engine : PatternEngine) (tree : Entry) (now : Int) :
    (b.runPass engine tree now).outcome = (b.build engine tree now).outcome ∧
      (b.runPass engine tree now).tree = (b.build engine tree now).tree := by
  rw [runPass]
  split <;> exact ⟨rfl, rfl⟩

end Builder

end UtilitySheet
