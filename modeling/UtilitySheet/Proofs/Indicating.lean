import Mathlib.Data.List.Basic
import UtilitySheet.Project.Spinner

/-!
# The indicator in every run

The indicator works in a loop of its own beside the pass: it turns to the next command that was
given, or, while it is on, to the next frame that is due, and if both are ready to either of them.
The clock may go on at any time. A frame is due at once when the indicator is started, and a tick
after the frame before it was due, however late that one was drawn. The clock is prompt if it never
goes past a frame that is due before the frame is drawn.

Every turn is logged with the time and with what it writes, and what is written fits the commands
that were taken before, character by character (`fits_activity`). Commands and stretches of time,
which are worked off one after the other, are such a run with a prompt clock.
-/

namespace UtilitySheet

namespace Spinner

/-! ## What is written -/

theorem clearLine_eq : clearLine = "\x1b[1G\x1b[2K" := rfl

/-- A frame empties the line and writes the word with the bar in one of four positions. -/
theorem draw_eq (frame : Nat) : ∃ bar, ['|', '/', '-', '\\'][frame % 4]? = some bar ∧
    draw frame = "\x1b[1G\x1b[2K...Building " ++ [bar] := by
  have hlt : frame % 4 < bars.length := Nat.mod_lt _ (by decide)
  refine ⟨bars[frame % 4], List.getElem?_eq_getElem hlt, ?_⟩
  rw [draw, List.getD_eq_getElem?_getD, List.getElem?_eq_getElem hlt]
  rfl

/-! ## The loop -/

/-- What the loop can turn to. -/
inductive Cause where
  | command (c : SpinnerCommand)
  /-- No more commands can come. -/
  | closed
  | frame
  deriving DecidableEq, Repr

/-- A turn of the loop: when, to what, and what it writes. -/
structure Turn where
  time : Nat
  cause : Cause
  written : Text
  deriving DecidableEq, Repr

/-- The indicator beside its clock. -/
structure Loop where
  spinner : Spinner := {}
  now : Nat := 0
  /-- By how much the clock has gone past the time at which the next frame was due. -/
  late : Nat := 0
  /-- Whether the indicator is given up, so that no more commands can come. -/
  closing : Bool := false
  ended : Bool := false

namespace Loop

/-- The loop after `ms` milliseconds. -/
def pass (l : Loop) (ms : Nat) : Loop :=
  { l with
    spinner := { l.spinner with wait := l.spinner.wait - ms }
    now := l.now + ms
    late := l.late + (ms - l.spinner.wait) }

/-- The loop after a command, with the ones behind it pending. -/
def obey (l : Loop) (c : SpinnerCommand) (pending : List SpinnerCommand) : Loop :=
  { l with
    spinner := ({ l.spinner with pending }.obey c).1
    late := if c = .start then 0 else l.late }

/-- The loop after its last turn. -/
def finish (l : Loop) : Loop :=
  { l with spinner := { l.spinner with active := false }, ended := true }

/-- The loop after a frame. -/
def drawn (l : Loop) (tick : Nat) : Loop :=
  { l with
    spinner := { l.spinner with frame := l.spinner.frame + 1, wait := tick - l.late }
    late := l.late - tick }

end Loop

/-- What can happen next: from a loop to a loop, with the turn of it, if it takes one. -/
inductive Step (tick : Nat) (prompt : Bool) : Loop → List Turn → Loop → Prop
  | give {l : Loop} (c : SpinnerCommand) : l.closing = false →
      Step tick prompt l [] { l with spinner := l.spinner.command c }
  | close {l : Loop} : Step tick prompt l [] { l with closing := true }
  | pass {l : Loop} (ms : Nat) :
      (prompt = true → l.spinner.active = true → ms ≤ l.spinner.wait) →
      Step tick prompt l [] (l.pass ms)
  | obey {l : Loop} {c : SpinnerCommand} {pending : List SpinnerCommand} :
      l.spinner.pending = c :: pending →
      Step tick prompt l [⟨l.now, .command c, (l.spinner.obey c).2⟩] (l.obey c pending)
  | finish {l : Loop} : l.closing = true → l.spinner.pending = [] → l.ended = false →
      Step tick prompt l [⟨l.now, .closed, if l.spinner.active then clearLine else []⟩] l.finish
  | draw {l : Loop} : l.spinner.active = true → l.spinner.wait = 0 →
      Step tick prompt l [⟨l.now, .frame, draw l.spinner.frame⟩] (l.drawn tick)

/-- The runs of the loop: the log so far and where it has come to. -/
inductive Run (tick : Nat) (prompt : Bool) : List Turn → Loop → Prop
  | new : Run tick prompt [] {}
  | step {log turns : List Turn} {l l' : Loop} : Run tick prompt log l →
      Step tick prompt l turns l' → Run tick prompt (log ++ turns) l'

/-! ## The activity in the log -/

/-- The latest command in the log is a start, at the time `since`, with `frames` behind it. -/
def StartedAt (log : List Turn) (since : Nat) (frames : List Turn) : Prop :=
  (∃ before written, log = before ++ ⟨since, .command .start, written⟩ :: frames) ∧
    ∀ f ∈ frames, f.cause = .frame

/-- Whether the indicator is on after the log: its latest command is a start. -/
def IsOn (log : List Turn) : Prop := ∃ since frames, StartedAt log since frames

/-- Whether the turn writes anything. -/
def Turn.writes (t : Turn) : Bool := !t.written.isEmpty

/-- The turn behind a log writes what fits the activity. A start writes nothing; a stop and the end
go to the first column and empty the line if the indicator is on, and write nothing if it is not. A
frame is drawn only if it is on: it empties the line and shows the bar in the first of four
positions, every further one in the next position, none before it is due and with a prompt clock
none later. -/
def Fits (tick : Nat) (prompt : Bool) (log : List Turn) (t : Turn) : Prop :=
  match t.cause with
  | .command .start => t.written = []
  | .command .stop | .closed =>
    (IsOn log → t.written = "\x1b[1G\x1b[2K") ∧ (¬ IsOn log → t.written = [])
  | .frame => ∃ since frames bar, StartedAt log since frames ∧
      ['|', '/', '-', '\\'][frames.length % 4]? = some bar ∧
      t.written = "\x1b[1G\x1b[2K...Building " ++ [bar] ∧
      since + frames.length * tick ≤ t.time ∧
      (prompt = true → t.time = since + frames.length * tick)

section

variable {tick : Nat} {prompt : Bool} {log : List Turn} {t : Turn}

theorem startedAt_start (log : List Turn) (time : Nat) (written : Text) :
    StartedAt (log ++ [⟨time, .command .start, written⟩]) time [] :=
  ⟨⟨log, written, rfl⟩, List.forall_mem_nil _⟩

theorem StartedAt.frame {since : Nat} {frames : List Turn} (h : StartedAt log since frames)
    (ht : t.cause = .frame) : StartedAt (log ++ [t]) since (frames ++ [t]) := by
  obtain ⟨⟨before, written, rfl⟩, hframes⟩ := h
  refine ⟨⟨before, written, by simp⟩, fun f hf => ?_⟩
  rcases List.mem_append.1 hf with hf | hf
  · exact hframes f hf
  · rwa [List.mem_singleton.1 hf]

/-- Behind a turn that is no start and no frame the indicator is off. -/
theorem not_isOn_concat (hstart : t.cause ≠ .command .start) (hframe : t.cause ≠ .frame) :
    ¬ IsOn (log ++ [t]) := by
  rintro ⟨since, frames, ⟨before, written, hlog⟩, hframes⟩
  rcases List.eq_nil_or_concat' frames with rfl | ⟨frames, f, rfl⟩
  · obtain ⟨-, rfl⟩ := List.append_singleton_inj.1 hlog
    exact hstart rfl
  · rw [← List.cons_append, ← List.append_assoc] at hlog
    obtain ⟨-, rfl⟩ := List.append_singleton_inj.1 hlog
    exact hframe (hframes t (List.mem_append_right _ (List.mem_singleton_self t)))

/-- A turn that fits writes nothing while the indicator is off. -/
theorem Fits.written_eq_nil (h : Fits tick prompt log t) (hoff : ¬ IsOn log) : t.written = [] := by
  unfold Fits at h
  split at h
  · exact h
  · exact h.2 hoff
  · exact h.2 hoff
  · obtain ⟨since, frames, -, hstarted, -⟩ := h
    exact absurd ⟨since, frames, hstarted⟩ hoff

theorem forall_split_concat {P : List Turn → Turn → Prop}
    (h : ∀ before u after, log = before ++ u :: after → P before u) (ht : P log t) :
    ∀ before u after, log ++ [t] = before ++ u :: after → P before u := by
  intro before u after hsplit
  rcases List.eq_nil_or_concat' after with rfl | ⟨after, v, rfl⟩
  · obtain ⟨rfl, rfl⟩ := List.append_singleton_inj.1 hsplit
    exact ht
  · rw [← List.cons_append, ← List.append_assoc] at hsplit
    exact h before u after (List.append_singleton_inj.1 hsplit).1

end

/-! ## What a run keeps -/

/-- The loop is as the log says. -/
structure Follows (tick : Nat) (prompt : Bool) (log : List Turn) (l : Loop) : Prop where
  /-- While it is on, it counts the frames and the time to the next one. -/
  on : l.spinner.active = true → ∃ since frames, StartedAt log since frames ∧
    l.spinner.frame = frames.length ∧
    l.now + l.spinner.wait = since + frames.length * tick + l.late
  off : l.spinner.active = false → ¬ IsOn log
  punctual : prompt = true → l.spinner.active = true → l.late = 0
  wait_le : l.spinner.wait ≤ tick
  fits : ∀ before t after, log = before ++ t :: after → Fits tick prompt before t
  cleared : l.spinner.active = false →
    ∀ t, (log.filter Turn.writes).getLast? = some t → t.written = "\x1b[1G\x1b[2K"

namespace Follows

variable {tick : Nat} {prompt : Bool} {log : List Turn} {l : Loop}

theorem new : Follows tick prompt [] {} where
  on h := absurd h Bool.false_ne_true
  off _ := by
    rintro ⟨since, frames, ⟨before, written, hlog⟩, -⟩
    exact absurd hlog.symm (by simp)
  punctual _ _ := rfl
  wait_le := Nat.zero_le tick
  fits before t after hlog := absurd hlog.symm (by simp)
  cleared _ t h := by cases h

/-- The loop is on exactly if the log is. -/
theorem active_iff (h : Follows tick prompt log l) : l.spinner.active = true ↔ IsOn log := by
  constructor
  · intro hon
    obtain ⟨since, frames, hstarted, -⟩ := h.on hon
    exact ⟨since, frames, hstarted⟩
  · intro hon
    by_contra hoff
    exact h.off (Bool.eq_false_iff.2 hoff) hon

theorem pass (h : Follows tick prompt log l) {ms : Nat}
    (hms : prompt = true → l.spinner.active = true → ms ≤ l.spinner.wait) :
    Follows tick prompt log (l.pass ms) where
  on hon := by
    obtain ⟨since, frames, hstarted, hframe, hdue⟩ := h.on hon
    refine ⟨since, frames, hstarted, hframe, ?_⟩
    simp only [Loop.pass]
    omega
  off := h.off
  punctual hprompt hon := by
    have hlate := h.punctual hprompt hon
    have hms := hms hprompt hon
    simp only [Loop.pass]
    omega
  wait_le := Nat.le_trans (Nat.sub_le _ _) h.wait_le
  fits := h.fits
  cleared := h.cleared

/-- A turn that clears the line, or writes nothing while the indicator is off, leaves it off. -/
theorem concat_off {l' : Loop} {t : Turn} (h : Follows tick prompt log l)
    (hcause : t.cause = .command .stop ∨ t.cause = .closed)
    (hwritten : t.written = if l.spinner.active then clearLine else [])
    (hoff : l'.spinner.active = false) (hwait : l'.spinner.wait = l.spinner.wait) :
    Follows tick prompt (log ++ [t]) l' where
  on hon := by cases hoff.symm.trans hon
  off _ := by
    rcases hcause with hcause | hcause <;>
      exact not_isOn_concat (by simp [hcause]) (by simp [hcause])
  punctual _ hon := by cases hoff.symm.trans hon
  wait_le := hwait ▸ h.wait_le
  fits := by
    refine forall_split_concat h.fits ?_
    have hboth : (IsOn log → t.written = "\x1b[1G\x1b[2K") ∧ (¬ IsOn log → t.written = []) := by
      rw [hwritten, ← h.active_iff, clearLine_eq]
      exact ⟨fun hon => if_pos hon, fun hoff => if_neg hoff⟩
    rcases hcause with hcause | hcause <;> simpa only [Fits, hcause] using hboth
  cleared _ u hu := by
    rw [List.filter_append] at hu
    cases hon : l.spinner.active with
    | true =>
      rw [hon, if_pos rfl] at hwritten
      have hwrites : Turn.writes t = true := by rw [Turn.writes, hwritten]; rfl
      rw [List.filter_cons_of_pos hwrites, List.filter_nil, List.getLast?_concat] at hu
      rw [← Option.some.inj hu, hwritten, clearLine_eq]
    | false =>
      rw [hon, if_neg Bool.false_ne_true] at hwritten
      have hwrites : ¬ Turn.writes t = true := by rw [Turn.writes, hwritten]; decide
      rw [List.filter_cons_of_neg hwrites, List.filter_nil, List.append_nil] at hu
      exact h.cleared hon u hu

theorem start (h : Follows tick prompt log l) (pending : List SpinnerCommand) :
    Follows tick prompt (log ++ [⟨l.now, .command .start, []⟩]) (l.obey .start pending) where
  on _ := ⟨l.now, [], startedAt_start log l.now [], rfl, by simp [Loop.obey, Spinner.obey]⟩
  off hoff := by cases hoff
  punctual _ _ := rfl
  wait_le := Nat.zero_le tick
  fits := forall_split_concat h.fits rfl
  cleared hoff := by cases hoff

theorem frame (h : Follows tick prompt log l) (hon : l.spinner.active = true)
    (hwait : l.spinner.wait = 0) :
    Follows tick prompt (log ++ [⟨l.now, .frame, draw l.spinner.frame⟩]) (l.drawn tick) := by
  obtain ⟨since, frames, hstarted, hframe, hdue⟩ := h.on hon
  obtain ⟨bar, hbar, hdraw⟩ := draw_eq l.spinner.frame
  rw [hframe] at hbar
  exact {
    on := fun _ => by
      refine ⟨since, _, hstarted.frame rfl, ?_, ?_⟩
      · simp [Loop.drawn, hframe]
      · simp only [Loop.drawn, List.length_append, List.length_singleton, Nat.succ_mul]
        omega
    off := fun hoff => by cases hon.symm.trans hoff
    punctual := fun hprompt _ => by
      have hlate := h.punctual hprompt hon
      simp [Loop.drawn, hlate]
    wait_le := Nat.sub_le _ _
    fits := by
      refine forall_split_concat h.fits ⟨since, frames, bar, hstarted, hbar, hdraw, ?_, ?_⟩
      · simp only
        omega
      · intro hprompt
        have hlate := h.punctual hprompt hon
        simp only
        omega
    cleared := fun hoff => by cases hon.symm.trans hoff }

/-- A step keeps the loop to its log. -/
theorem step {turns : List Turn} {l' : Loop} (h : Follows tick prompt log l)
    (hstep : Step tick prompt l turns l') : Follows tick prompt (log ++ turns) l' := by
  cases hstep with
  | give c hopen =>
    rw [List.append_nil]
    exact ⟨h.on, h.off, h.punctual, h.wait_le, h.fits, h.cleared⟩
  | close =>
    rw [List.append_nil]
    exact ⟨h.on, h.off, h.punctual, h.wait_le, h.fits, h.cleared⟩
  | pass ms hms =>
    rw [List.append_nil]
    exact h.pass hms
  | @obey c pending hpending =>
    cases c with
    | start => exact h.start pending
    | stop => exact h.concat_off (.inl rfl) rfl rfl rfl
  | finish hclosing hpending hended => exact h.concat_off (.inr rfl) rfl rfl rfl
  | draw hon hwait => exact h.frame hon hwait

end Follows

theorem Run.follows {tick : Nat} {prompt : Bool} {log : List Turn} {l : Loop}
    (h : Run tick prompt log l) : Follows tick prompt log l := by
  induction h with
  | new => exact .new
  | step _ hstep ih => exact ih.step hstep

/-! ## Commands and stretches of time -/

/-- What the indicator goes through: a command, or a stretch of time. -/
inductive Order where
  | command (c : SpinnerCommand)
  | sleep (ms : Nat)
  deriving DecidableEq, Repr

/-- What is drawn while orders are worked off and the indicator is given up. -/
def perform (tick : Nat) (s : Spinner) : List Order → Text
  | [] => s.shutdown
  | .command c :: orders => perform tick (s.command c) orders
  | .sleep ms :: orders => (s.sleep tick ms).2 ++ perform tick (s.sleep tick ms).1 orders

/-- A command worked off behind others. -/
def obeyBehind (done : Spinner × Text) (c : SpinnerCommand) : Spinner × Text :=
  ((done.1.obey c).1, done.2 ++ (done.1.obey c).2)

theorem settle_eq_foldl (s : Spinner) :
    s.settle = s.pending.foldl obeyBehind ({ s with pending := [] }, []) := rfl

theorem foldl_obeyBehind (s : Spinner) (drawn : Text) (pending : List SpinnerCommand) :
    pending.foldl obeyBehind (s, drawn) =
      ((pending.foldl obeyBehind (s, [])).1, drawn ++ (pending.foldl obeyBehind (s, [])).2) := by
  induction pending generalizing s drawn with
  | nil => simp
  | cons c pending ih =>
    rw [List.foldl_cons, List.foldl_cons, obeyBehind, obeyBehind, ih, ih _ ([] ++ _)]
    simp

/-- The first of the pending commands is settled first. -/
theorem settle_cons {s : Spinner} {c : SpinnerCommand} {pending : List SpinnerCommand}
    (h : s.pending = c :: pending) :
    s.settle = ((({ s with pending }.obey c).1.settle).1,
      (s.obey c).2 ++ (({ s with pending }.obey c).1.settle).2) := by
  rw [settle_eq_foldl, settle_eq_foldl, h, List.foldl_cons, obeyBehind, foldl_obeyBehind]
  cases c <;> rfl

theorem settle_of_nil {s : Spinner} (h : s.pending = []) : s.settle = (s, []) := by
  obtain ⟨active, frame, wait, pending⟩ := s
  obtain rfl : pending = [] := h
  rfl

theorem pending_settle (s : Spinner) : s.settle.1.pending = [] := by
  generalize hpending : s.pending = pending
  induction pending generalizing s with
  | nil => rw [settle_of_nil hpending, hpending]
  | cons c pending ih =>
    rw [settle_cons hpending]
    exact ih _ (by cases c <;> rfl)

theorem elapse_of_off {s : Spinner} {tick ms : Nat} (h : s.active = true → ms ≤ s.wait) :
    s.elapse tick ms = ({ s with wait := s.wait - ms }, []) := by
  have hdue : s.framesDue tick ms = 0 := by
    rw [framesDue]
    split
    · rfl
    · rename_i hdue
      simp only [Bool.or_eq_true, Bool.not_eq_true', decide_eq_true_eq, not_or,
        Bool.not_eq_false] at hdue
      exact absurd (h hdue.1) hdue.2
  simp [elapse, hdue]

/-- The next frame is drawn when it is due, and the others a tick after each other. -/
theorem elapse_of_due {s : Spinner} {tick ms : Nat} (htick : 0 < tick) (hon : s.active = true)
    (hdue : s.wait < ms) :
    s.elapse tick ms =
      (({ s with frame := s.frame + 1, wait := tick }.elapse tick (ms - s.wait)).1,
        draw s.frame ++
          ({ s with frame := s.frame + 1, wait := tick }.elapse tick (ms - s.wait)).2) := by
  have hframes : s.framesDue tick ms =
      ({ s with frame := s.frame + 1, wait := tick } : Spinner).framesDue tick (ms - s.wait) +
        1 := by
    have hlate : ¬ ms ≤ s.wait := Nat.not_le.2 hdue
    simp only [framesDue, hon, hlate, Bool.not_true, decide_false, Bool.or_false,
      Bool.false_eq_true, if_false, Bool.false_or, decide_eq_true_eq]
    split
    · rename_i hshort
      rw [Nat.div_eq_of_lt (by omega)]
    · rename_i hlong
      have hrest : ms - s.wait - 1 - tick = ms - s.wait - tick - 1 := by omega
      rw [Nat.div_eq_sub_div htick (by omega), hrest]
  simp only [elapse, hframes, List.range_succ_eq_map, List.flatMap_cons, List.flatMap_map]
  refine Prod.ext ?_ ?_
  · simp only [Nat.succ_mul]
    congr 1 <;> omega
  · simp only [Nat.add_zero, Nat.succ_eq_add_one, Nat.add_assoc, Nat.add_comm 1]

/-- A run with a prompt clock has come to the indicator `s` and has written the text. -/
def Shows (tick : Nat) (s : Spinner) (text : Text) : Prop :=
  ∃ log l, Run tick true log l ∧ l.spinner = s ∧ l.closing = false ∧ l.ended = false ∧
    log.flatMap Turn.written = text

namespace Shows

variable {tick : Nat} {s : Spinner} {text : Text}

theorem command (h : Shows tick s text) (c : SpinnerCommand) :
    Shows tick (s.command c) text := by
  obtain ⟨log, l, hrun, rfl, hclosing, hended, rfl⟩ := h
  have hgive := hrun.step (.give c hclosing)
  rw [List.append_nil] at hgive
  exact ⟨log, _, hgive, rfl, hclosing, hended, rfl⟩

theorem settle (h : Shows tick s text) : Shows tick s.settle.1 (text ++ s.settle.2) := by
  generalize hpending : s.pending = pending
  induction pending generalizing s text with
  | nil => simpa [settle_of_nil hpending] using h
  | cons c pending ih =>
    obtain ⟨log, l, hrun, rfl, hclosing, hended, rfl⟩ := h
    have hobey := hrun.step (.obey hpending)
    have hnext : Shows tick ({ l.spinner with pending }.obey c).1
        (log.flatMap Turn.written ++ (l.spinner.obey c).2) :=
      ⟨_, _, hobey, rfl, hclosing, hended, by simp⟩
    have hrest := ih hnext (by cases c <;> rfl)
    rw [settle_cons hpending]
    simpa using hrest

theorem pass (h : Shows tick s text) {ms : Nat} (hms : s.active = true → ms ≤ s.wait) :
    Shows tick { s with wait := s.wait - ms } text := by
  obtain ⟨log, l, hrun, rfl, hclosing, hended, rfl⟩ := h
  have hpass := hrun.step (.pass ms fun _ => hms)
  rw [List.append_nil] at hpass
  exact ⟨log, _, hpass, rfl, hclosing, hended, rfl⟩

theorem draw (h : Shows tick s text) (hon : s.active = true) (hwait : s.wait = 0) :
    Shows tick { s with frame := s.frame + 1, wait := tick }
      (text ++ Spinner.draw s.frame) := by
  obtain ⟨log, l, hrun, rfl, hclosing, hended, rfl⟩ := h
  have hlate := hrun.follows.punctual rfl hon
  refine ⟨_, _, hrun.step (.draw hon hwait), ?_, hclosing, hended, by simp⟩
  simp [Loop.drawn, hlate]

theorem elapse {s : Spinner} {text : Text} (h : Shows tick s text) (htick : 0 < tick)
    (ms : Nat) : Shows tick (s.elapse tick ms).1 (text ++ (s.elapse tick ms).2) := by
  by_cases hoff : s.active = true → ms ≤ s.wait
  · rw [elapse_of_off hoff, List.append_nil]
    exact h.pass hoff
  · obtain ⟨hon, hdue⟩ := Classical.not_imp.1 hoff
    rw [Nat.not_le] at hdue
    rw [elapse_of_due htick hon hdue, ← List.append_assoc]
    have hdrawn := (h.pass fun _ => Nat.le_refl s.wait).draw hon (Nat.sub_self _)
    exact hdrawn.elapse htick (ms - s.wait)
termination_by ms - s.wait
decreasing_by omega

theorem sleep (h : Shows tick s text) (htick : 0 < tick) (ms : Nat) :
    Shows tick (s.sleep tick ms).1 (text ++ (s.sleep tick ms).2) := by
  unfold Spinner.sleep
  split
  · simpa using h
  · have hslept := h.settle.elapse htick ms
    rwa [List.append_assoc] at hslept

/-- Whatever the orders are, some run with a prompt clock writes what they draw. -/
theorem perform (h : Shows tick s text) (htick : 0 < tick) (orders : List Order) :
    ∃ log l, Run tick true log l ∧ l.ended = true ∧
      log.flatMap Turn.written = text ++ s.perform tick orders := by
  induction orders generalizing s text with
  | nil =>
    obtain ⟨log, l, hrun, hl, hclosing, hended, htext⟩ := h.settle
    have hclose := hrun.step .close
    have hfinish := hclose.step (.finish rfl (by rw [hl, pending_settle]) hended)
    refine ⟨_, _, hfinish, rfl, ?_⟩
    simp [htext, Spinner.perform, shutdown, hl]
  | cons order orders ih =>
    cases order with
    | command c => exact ih (h.command c)
    | sleep ms =>
      rw [Spinner.perform, ← List.append_assoc]
      exact ih (h.sleep htick ms)

end Shows

end Spinner

end UtilitySheet
