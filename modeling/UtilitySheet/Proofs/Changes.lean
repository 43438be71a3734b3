import UtilitySheet.Proofs.Search

/-!
# What a change keeps

Adding folders keeps every file, and writing or removing a file keeps every other file
(`Entry.Extends`). One step at a time is followed through making a folder with all the folders on
the way (`extends_makeFolder`) and writing a file (`write_eq_ok`) or removing it
(`remove_of_isFileAt`).
-/

namespace UtilitySheet

/-- The last step that a path is split at is not empty. -/
theorem Path.ne_nil_of_split? {p : Path} {before : List Text} {last : Text}
    (h : p.split? = some (before, last)) : last ≠ [] := by
  rw [split?] at h
  split at h
  · cases h
  · rename_i hsteps
    obtain ⟨-, rfl⟩ := Prod.mk.inj (Option.some.inj h)
    have hhead := List.head?_dropWhile_not List.isEmpty p.steps.reverse
    rw [hsteps] at hhead
    simpa using hhead

namespace Entry

open UtilitySheet.Path (isName)

/-- What a change keeps: every folder, every file but those that it touches, the order, and
whatever a search lists that skips the files it touches. -/
structure Extends (touched : List Text → Prop) (e e' : Entry) : Prop where
  folder : ∀ names, e.hasFolder names = true → e'.hasFolder names = true
  file : ∀ names, ¬ touched names → e'.file? names = e.file? names
  proper : e.Proper → e'.Proper
  below : e.Proper → ∀ (q : Query) (p : Path) (above : List Text),
    (∀ behind, touched (above ++ behind) → q.Skips (p.descend behind)) →
      q.below e' p above = q.below e p above

/-- No file is touched. -/
def Untouched : List Text → Prop := fun _ => False

variable {e e' e'' : Entry} {names : List Text} {touched : List Text → Prop} {p : Path}

namespace Extends

theorem refl (touched : List Text → Prop) (e : Entry) : Extends touched e e where
  folder _ h := h
  file _ _ := rfl
  proper h := h
  below _ _ _ _ _ := rfl

theorem trans (h : Extends touched e e') (h' : Extends touched e' e'') : Extends touched e e'' where
  folder names hfolder := h'.folder names (h.folder names hfolder)
  file names hnames := (h'.file names hnames).trans (h.file names hnames)
  proper he := h'.proper (h.proper he)
  below he q p above hskips :=
    (h'.below (h.proper he) q p above hskips).trans (h.below he q p above hskips)

theorem of_untouched (h : Extends Untouched e e') : Extends touched e e' where
  folder := h.folder
  file names _ := h.file names id
  proper := h.proper
  below he q p above _ := h.below he q p above fun _ => False.elim

theorem leads (h : Extends touched e e') (hleads : e.Leads p names) : e'.Leads p names :=
  follow_mono h.folder hleads

end Extends

/-! ## One change -/

theorem extends_change {new : Option Entry} (hold : e.hasFolder names = false)
    (hnew : ∀ x ∈ new, ∃ text time, x = .file text time) (hnames : ∀ n ∈ names, isName n = true) :
    Extends (· = names) e (e.change names new) := by
  have hleaf : ∀ x ∈ new, x.entries = [] := by
    intro x hx
    obtain ⟨text, time, rfl⟩ := hnew x hx
    rfl
  refine ⟨fun other => hasFolder_change hold hleaf, fun other hne => (change_of_ne hold hleaf hne).1,
    fun he => he.change hnames fun x hx => ?_, fun he q p above hskips => ?_⟩
  · obtain ⟨text, time, rfl⟩ := hnew x hx
    exact .file text time
  · refine Query.below_change he hold hleaf fun behind hbehind => ?_
    have hskip := hskips behind hbehind
    constructor
    · cases new with
      | none => rfl
      | some x =>
        obtain ⟨text, time, rfl⟩ := hnew x rfl
        exact Query.visit_file_of_skips hskip
    · cases hget : e.get? names with
      | none => rfl
      | some x =>
        cases x with
        | file text time => exact Query.visit_file_of_skips hskip
        | folder entries time => simp [hasFolder, hget, isFolder] at hold

theorem extends_put_emptyFolder {front : List Text} {last : Text} (now : Int)
    (hfront : e.hasFolder front = true) (hnone : e.get? (front ++ [last]) = none)
    (hnames : ∀ n ∈ front ++ [last], isName n = true) :
    Extends Untouched e (e.put (front ++ [last]) (emptyFolder now)) := by
  have hold : e.hasFolder (front ++ [last]) = false := by simp [hasFolder, hnone]
  have hleaf : ∀ x ∈ some (emptyFolder now), x.entries = [] := by
    intro x hx
    obtain rfl := Option.some.inj hx
    rfl
  change Extends Untouched e (e.change (front ++ [last]) (some (emptyFolder now)))
  refine ⟨fun other => hasFolder_change hold hleaf, fun other _ => ?_,
    fun he => he.change hnames fun x hx => ?_, fun he q p above _ => ?_⟩
  · by_cases hne : other = front ++ [last]
    · rw [hne, file?, file?, get?_change_self hfront, hnone]
      rfl
    · exact (change_of_ne hold hleaf hne).1
  · obtain rfl := Option.some.inj hx
    exact .folder List.Pairwise.nil (by simp) (by simp)
  · refine Query.below_change he hold hleaf fun behind _ => ?_
    rw [hnone]
    exact ⟨Query.visit_emptyFolder now, rfl⟩

/-! ## By paths -/

theorem locate_eq_ok : e.locate p = .ok names ↔ checkPath p = .ok () ∧ e.Leads p names := by
  rw [locate, Leads]
  cases checkPath p with
  | error stopped => simp [bind, Except.bind]
  | ok u => simp [bind, Except.bind]

theorem leads_isName (h : e.Leads p names) :
    ∀ n ∈ names, isName n = true ∧ byteCount n ≤ longestName :=
  follow_isName h (by simp)

/-- In a folder that can be entered, a folder is added where there is nothing. -/
theorem addFolder_of_enter {before front : List Text} {last : Text} (now : Int)
    (hcheck : checkPath p = .ok ()) (hsplit : p.split? = some (before, last))
    (henter : e.enter before = .ok front) :
    e.addFolder now p =
      if last = ['.'] ∨ last = ['.', '.'] then .error .occupied
      else if byteCount last > longestName then .error .nameTooLong
      else match e.get? (front ++ [last]) with
        | some _ => .error .occupied
        | none => .ok (e.put (front ++ [last]) (emptyFolder now)) := by
  simp only [addFolder, hcheck, hsplit, henter, bind, Except.bind]
  split
  · rfl
  · split
    · rfl
    · cases e.get? (front ++ [last]) <;> rfl

theorem enter_eq_ok {steps : List Text} :
    e.enter steps = .ok names ↔ e.follow [] steps = .ok names ∧ e.hasFolder names = true := by
  have hend : ∀ mid, e.follow mid [[]] = .ok names ↔ mid = names ∧ e.hasFolder mid = true := by
    intro mid
    rw [follow_cons_eq_ok, if_neg (by decide), if_pos (by decide), follow]
    simp [and_comm]
  simp only [enter, follow_append_eq_ok, hend]
  grind

/-- A folder that is added stands in a folder, where there was nothing. -/
theorem addFolder_eq_ok {now : Int} (h : e.addFolder now p = .ok e') :
    ∃ front last, e.hasFolder front = true ∧ (∀ n ∈ front ++ [last], isName n = true) ∧
      e.get? (front ++ [last]) = none ∧ e' = e.put (front ++ [last]) (emptyFolder now) := by
  cases hcheck : checkPath p with
  | error stopped => simp [addFolder, hcheck, bind, Except.bind] at h
  | ok u =>
    cases hsplit : p.split? with
    | none =>
      simp [addFolder, hcheck, hsplit, bind, Except.bind, throw, throwThe,
        MonadExceptOf.throw] at h
    | some split =>
      obtain ⟨before, last⟩ := split
      cases henter : e.enter before with
      | error stopped => simp [addFolder, hcheck, hsplit, henter, bind, Except.bind] at h
      | ok front =>
        obtain ⟨hfollow, hfront⟩ := enter_eq_ok.1 henter
        rw [addFolder_of_enter now hcheck hsplit henter] at h
        split at h
        · cases h
        · rename_i hdots
          split at h
          · cases h
          · cases hnone : e.get? (front ++ [last]) with
            | some found => simp [hnone] at h
            | none =>
              simp only [hnone] at h
              refine ⟨front, last, hfront, fun n hn => ?_, hnone, (Except.ok.inj h).symm⟩
              rcases List.mem_append.1 hn with hn | hn
              · exact (follow_isName hfollow (by simp) n hn).1
              · obtain rfl := List.mem_singleton.1 hn
                rw [not_or] at hdots
                simp [isName, Path.moves, Path.ne_nil_of_split? hsplit, hdots]

theorem extends_addFolder {now : Int} (h : e.addFolder now p = .ok e') : Extends Untouched e e' := by
  obtain ⟨front, last, hfront, hnames, hnone, rfl⟩ := addFolder_eq_ok h
  exact extends_put_emptyFolder now hfront hnone hnames

theorem extends_settle {now : Int} : Extends Untouched e (e.settle p (e.addFolder now p)).tree := by
  cases h : e.addFolder now p with
  | ok added => exact extends_addFolder h
  | error stopped =>
    rw [settle]
    split <;> exact .refl _ _

/-- Making folders keeps every file, even where it stops half way. -/
theorem extends_makeFolders (e : Entry) (now : Int) (paths : List Path) :
    Extends Untouched e (e.makeFolders now paths).tree := by
  induction paths generalizing e with
  | nil => exact .refl _ _
  | cons p above ih =>
    rw [makeFolders]
    split
    · simp only
      split
      · exact ih e
      · exact (ih e).trans extends_settle
    · exact extends_settle

theorem extends_makeFolder (e : Entry) (now : Int) (p : Path) :
    Extends Untouched e (e.makeFolder now p).tree :=
  extends_makeFolders e now p.ancestors

/-- A file is written where the path leads, unless there is a folder. -/
theorem write_eq_ok {text : Option Text} {time : Int} :
    e.write p text time = .ok e' ↔
      ∃ names, e.locate p = .ok names ∧ e.hasFolder names = false ∧
        e' = e.put names (.file text time) := by
  rw [write]
  cases e.locate p with
  | error stopped => simp [bind, Except.bind]
  | ok names =>
    simp only [bind, Except.bind, hasFolder, Except.ok.injEq, exists_eq_left', eq_comm (a := e')]
    cases e.get? names with
    | none => simp [pure, Except.pure]
    | some found => cases found <;> simp [pure, Except.pure, isFolder]

/-- A written file is found where its path leads, and nothing else has changed. -/
theorem extends_write {text : Option Text} {time : Int} (h : e.write p text time = .ok e') :
    ∃ names, e.locate p = .ok names ∧ e'.file? names = some (text, time) ∧
      Extends (· = names) e e' := by
  obtain ⟨names, hlocate, hold, rfl⟩ := write_eq_ok.1 h
  have hleads := (locate_eq_ok.1 hlocate).2
  have hextends : Extends (· = names) e (e.change names (some (.file text time))) :=
    extends_change hold (by simp) fun n hn => (leads_isName hleads n hn).1
  refine ⟨names, hlocate, file?_eq_some.2 ?_, hextends⟩
  change (e.change names (some (.file text time))).get? names = _
  rcases List.eq_nil_or_concat' names with rfl | ⟨front, last, rfl⟩
  · rfl
  · exact get?_change_self (follow_hasFolder hleads)

/-- A file is removed from where the path leads. -/
theorem remove_of_isFileAt (h : e.isFileAt p = true) :
    ∃ names, e.locate p = .ok names ∧ (e.file? names).isSome = true ∧
      e.remove p = { tree := e.erase names } := by
  rw [isFileAt, find] at h
  rw [remove]
  cases hlocate : e.locate p with
  | error stopped => simp [hlocate, bind, Except.bind] at h
  | ok names =>
    simp only [hlocate, bind, Except.bind] at h
    refine ⟨names, rfl, ?_⟩
    rw [file?]
    cases hget : e.get? names with
    | none => simp [hget] at h
    | some found => cases found <;> simp_all [isFolder, pure, Except.pure]

end Entry

end UtilitySheet
