import UtilitySheet.Project.Watch
import UtilitySheet.Proofs.Debouncing
import UtilitySheet.Proofs.Reuse

/-!
# Batches of reports

A watcher observes the paths of a batch that are relevant, in order, so what becomes of its cache is
a run of the cache (`Watcher.look_eq_run`), and it runs a pass exactly if one of these observations
counts (`Watcher.step_pass_isSome_iff`). Whatever batches have come before, a pass of the watcher
has the outcome of a pass of a new builder (`Watcher.outcome_of_follow`).
-/

namespace UtilitySheet

open ChangeCache (Event Watched)

namespace Builder

/-- A pass keeps the root, and its compiler is one that was built. -/
theorem isBuilt_runPass {b : Builder} {engine : PatternEngine} (hb : b.IsBuilt engine)
    (tree : Entry) (now : Int) :
    (b.runPass engine tree now).builder.root = b.root ∧
      (b.runPass engine tree now).builder.IsBuilt engine := by
  have hfresh : ({ root := b.root } : Builder).IsBuilt engine := nofun
  rw [runPass]
  split
  · exact ⟨rfl, hfresh⟩
  rcases b.build_builder engine tree now with h | h | ⟨c, k, -, hk, h⟩
  · rw [h]
    exact ⟨rfl, hb⟩
  · rw [h]
    exact ⟨rfl, hfresh⟩
  · rw [h]
    refine ⟨rfl, fun used hused => ?_⟩
    obtain rfl := Option.some.inj hused
    rcases b.compilerFor_cases engine c.settings with hnew | ⟨kept, hkept, -, h⟩
    · exact ⟨c.settings, hnew ▸ hk⟩
    · obtain rfl := Except.ok.inj (hk.symm.trans h)
      exact hb _ hkept

end Builder

namespace Watcher

variable {root : Path} {f : PathFilter} {tree : Entry} {cache : ChangeCache} {w : Watcher}
  {engine : PatternEngine} {paths : List Path} {now : Int}

/-! ## One batch -/

/-- The observations that a batch of reports leads to. -/
def observations (root : Path) (f : PathFilter) (paths : List Path) : List Event :=
  (paths.filter (isRelevant root f)).map .observe

/-- **A watcher runs its cache over the relevant paths of a batch,** and the paths that count are
those that the cache lets through. -/
theorem look_eq_run (root : Path) (f : PathFilter) (tree : Entry) (cache : ChangeCache)
    (paths : List Path) :
    look root f tree cache paths =
      ((Watched.run ⟨cache, tree.timeAt?⟩ (observations root f paths)).cache,
        ((Watched.log ⟨cache, tree.timeAt?⟩ (observations root f paths)).filter
          (·.answer == some true)).map ChangeCache.Look.path) := by
  induction paths generalizing cache with
  | nil => rfl
  | cons p paths ih =>
    rw [look]
    by_cases hp : isRelevant root f p = true
    · have hfirst : observations root f (p :: paths) = .observe p :: observations root f paths := by
        rw [observations, List.filter_cons_of_pos hp, List.map_cons, observations]
      simp only [if_pos hp, hfirst, ih, Watched.run, Watched.log, Watched.step, Watched.looks,
        List.foldl_cons, List.filter_append, List.map_append]
      cases (cache.observe p (tree.timeAt? p)).2 <;> rfl
    · have hskipped : observations root f (p :: paths) = observations root f paths := by
        rw [observations, List.filter_cons_of_neg hp, observations]
      simp only [if_neg hp, hskipped, ih]

/-- What a watcher makes of a batch: nothing if no path counts, else a pass of its builder. -/
theorem step_cases (w : Watcher) (engine : PatternEngine) (tree : Entry) (paths : List Path)
    (now : Int) :
    let looked := look w.builder.root (Project.currentFilter tree w.builder.root) tree w.cache paths
    (looked.2 = [] ∧ (w.step engine tree paths now).pass = none ∧
        (w.step engine tree paths now).watcher = ⟨w.builder, looked.1⟩) ∨
      (looked.2 ≠ [] ∧
        (w.step engine tree paths now).pass = some (w.builder.runPass engine tree now) ∧
        (w.step engine tree paths now).watcher =
          ⟨(w.builder.runPass engine tree now).builder, looked.1⟩) := by
  intro looked
  have hlooked : look w.builder.root (Project.currentFilter tree w.builder.root) tree w.cache
      paths = (looked.1, looked.2) := rfl
  cases hcounted : looked.2 with
  | nil =>
    refine .inl ⟨rfl, ?_⟩
    simp only [step, hlooked, hcounted, List.isEmpty_nil, if_true, and_self]
  | cons p counted =>
    refine .inr ⟨List.cons_ne_nil _ _, ?_⟩
    simp only [step, hlooked, hcounted, List.isEmpty_cons, Bool.false_eq_true, if_false, and_self]

/-- Reports of what is not relevant leave the watcher as it is, and no pass is run. -/
theorem step_of_not_isRelevant
    (h : ∀ p ∈ paths, isRelevant w.builder.root
      (Project.currentFilter tree w.builder.root) p = false) :
    (w.step engine tree paths now).watcher = w ∧ (w.step engine tree paths now).pass = none := by
  have hnone : observations w.builder.root (Project.currentFilter tree w.builder.root) paths =
      [] := by
    rw [observations, List.filter_eq_nil_iff.2 fun p hp => Bool.eq_false_iff.1 (h p hp),
      List.map_nil]
  have hlook : look w.builder.root (Project.currentFilter tree w.builder.root) tree w.cache paths =
      (w.cache, []) := by
    rw [look_eq_run, hnone]
    rfl
  rcases w.step_cases engine tree paths now with ⟨-, hpass, hwatcher⟩ | ⟨hcounted, -, -⟩
  · exact ⟨hwatcher.trans (by rw [hlook]), hpass⟩
  · exact absurd (congrArg Prod.snd hlook) hcounted

/-- **A watcher runs a pass if and only if a relevant change of the batch counts.** -/
theorem step_pass_isSome_iff : (w.step engine tree paths now).pass.isSome = true ↔
    ∃ l ∈ Watched.log ⟨w.cache, tree.timeAt?⟩ (observations w.builder.root
      (Project.currentFilter tree w.builder.root) paths), l.answer = some true := by
  have hcounted : (look w.builder.root (Project.currentFilter tree w.builder.root) tree w.cache
      paths).2 ≠ [] ↔ ∃ l ∈ Watched.log ⟨w.cache, tree.timeAt?⟩ (observations w.builder.root
        (Project.currentFilter tree w.builder.root) paths), l.answer = some true := by
    rw [look_eq_run, Ne, List.map_eq_nil_iff, List.filter_eq_nil_iff]
    simp
  rw [← hcounted]
  rcases w.step_cases engine tree paths now with ⟨hnone, hpass, -⟩ | ⟨hsome, hpass, -⟩
  · rw [hpass]
    exact iff_of_false Bool.false_ne_true fun h => h hnone
  · rw [hpass]
    exact iff_of_true rfl hsome

/-! ## Many batches -/

/-- The watcher after batches of reports, each over the project as it was by then. -/
def follow (w : Watcher) (engine : PatternEngine) (batches : List (Entry × List Path × Int)) :
    Watcher :=
  batches.foldl (fun w batch => (w.step engine batch.1 batch.2.1 batch.2.2).watcher) w

/-- A batch keeps the root, and the compiler is one that was built. -/
theorem isBuilt_step (hw : w.builder.IsBuilt engine) (tree : Entry) (paths : List Path)
    (now : Int) :
    (w.step engine tree paths now).watcher.builder.root = w.builder.root ∧
      (w.step engine tree paths now).watcher.builder.IsBuilt engine := by
  rcases w.step_cases engine tree paths now with ⟨-, -, h⟩ | ⟨-, -, h⟩
  · rw [h]
    exact ⟨rfl, hw⟩
  · rw [h]
    exact Builder.isBuilt_runPass hw tree now

theorem isBuilt_follow (hw : w.builder.IsBuilt engine)
    (batches : List (Entry × List Path × Int)) :
    (w.follow engine batches).builder.root = w.builder.root ∧
      (w.follow engine batches).builder.IsBuilt engine := by
  induction batches generalizing w with
  | nil => exact ⟨rfl, hw⟩
  | cons batch batches ih =>
    obtain ⟨hroot, hstep⟩ := isBuilt_step hw batch.1 batch.2.1 batch.2.2
    obtain ⟨hroot', hfollow⟩ := ih hstep
    exact ⟨hroot'.trans hroot, hfollow⟩

/-- **A pass of a watcher has the outcome of a pass of a new builder,** whatever the watcher has
seen since its start. -/
theorem outcome_of_follow {pass : PassResult} (root : Path) (first : Entry) (early : Int)
    (batches : List (Entry × List Path × Int))
    (h : (((start root engine first early).watcher.follow engine batches).step engine tree paths
      now).pass = some pass) :
    pass.outcome = (Builder.build { root } engine tree now).outcome := by
  have hnew : ({ root } : Builder).IsBuilt engine := nofun
  obtain ⟨hstart, hbuilt⟩ := Builder.isBuilt_runPass hnew first early
  obtain ⟨hroot, hfollow⟩ := isBuilt_follow (w := (start root engine first early).watcher) hbuilt
    batches
  replace hroot := hroot.trans hstart
  generalize (start root engine first early).watcher.follow engine batches = w at *
  subst hroot
  rcases w.step_cases engine tree paths now with ⟨-, hpass, -⟩ | ⟨-, hpass, -⟩
  · rw [hpass] at h
    cases h
  · obtain rfl := Option.some.inj (hpass.symm.trans h)
    have hroot : w.builder.root = ({ root := w.builder.root } : Builder).root := rfl
    rw [(Builder.runPass_eq w.builder engine tree now).1]
    exact Builder.build_outcome_congr hroot now fun c _ => hfollow.sameUnweighted c.settings

end Watcher

end UtilitySheet
