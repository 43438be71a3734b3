import Mathlib.Data.List.Basic
import UtilitySheet.Project.ChangeCache

/-!
# Debouncing over a run

A watcher primes the cache and observes changes while files come, go and get other times, later or
earlier ones. Every look at a file is logged with the time that was found and with the answer. The
log alone says what the cache has on record, the time of the latest look that counted
(`Watched.time?_run`, `Watched.time?_run_eq_some_iff`). So the answers are those that the log calls
for, what is on record right after an observation is never off by the threshold, and paths do not
disturb each other (`debounces_run`). Paths that have the same components are one path.
-/

namespace UtilitySheet

theorem Path.same_comm (p q : Path) : p.same q = q.same p := Bool.beq_comm

theorem Path.same_self (p : Path) : p.same p = true := beq_self_eq_true _

namespace ChangeCache

/-! ## One call -/

section

variable {c : ChangeCache} {p q : Path}

theorem time?_congr (h : p.same q = true) : c.time? p = c.time? q := by
  rw [time?, time?, beq_iff_eq.1 h]

theorem time?_erase : (c.erase q).time? p = if p.same q then none else c.time? p := by
  simp only [erase, time?, List.find?_filter, bne_iff_ne, beq_iff_eq]
  split
  · rename_i hsame
    have hnone : c.seen.find? (fun e => decide (e.1 ≠ q.components ∧ e.1 = p.components)) =
        none := by
      refine List.find?_eq_none.2 fun e _ => ?_
      rw [beq_iff_eq.1 hsame, decide_eq_true_eq]
      exact fun h => h.1 h.2
    rw [hnone, Option.map_none]
  · rename_i hother
    have hne : p.components ≠ q.components := fun h => hother (beq_iff_eq.2 h)
    congr 2
    funext e
    rw [Bool.eq_iff_iff, decide_eq_true_eq, beq_iff_eq]
    exact ⟨fun h => h.2, fun h => ⟨h ▸ hne, h⟩⟩

theorem time?_insert (time : Int) :
    (c.insert q time).time? p = if p.same q then some time else c.time? p := by
  have herase : (c.erase q).time? p = ((c.erase q).seen.find? (·.1 == p.components)).map (·.2) :=
    rfl
  rw [insert, time?, List.find?_cons]
  rw [time?_erase] at herase
  split
  · rename_i hsame
    rw [if_pos ((p.same_comm q).trans hsame), Option.map_some]
  · rename_i hother
    have hother : ¬ p.same q = true := by
      rw [p.same_comm q]
      exact Bool.eq_false_iff.1 hother
    rw [← herase, if_neg hother, if_neg hother]

/-- Priming records the time of a file and leaves all else alone. -/
theorem time?_prime (time : Option Int) :
    (c.prime q time).time? p = if p.same q && time.isSome then time else c.time? p := by
  cases time with
  | none => rw [Option.isSome_none, Bool.and_false, if_neg Bool.false_ne_true, prime]
  | some time => rw [Option.isSome_some, Bool.and_true, prime, time?_insert]

/-- A change does not count if the time is near the one on record. -/
theorem observe_eq_false {time : Option Int} : (c.observe p time).2 = false ↔
    ∃ now last, time = some now ∧ c.time? p = some last ∧ (last - now).natAbs < c.threshold := by
  cases time with
  | none => simp [observe]
  | some now =>
    cases hlast : c.time? p with
    | none => simp [observe, hlast]
    | some last =>
      by_cases hnear : (last - now).natAbs < c.threshold
      · simp [observe, hlast, hnear]
      · simp [observe, hlast, hnear]

/-- A change that counts leaves on record what was found; any other one leaves all as it was. -/
theorem time?_observe (time : Option Int) : (c.observe q time).1.time? p =
    if p.same q && (c.observe q time).2 then time else c.time? p := by
  cases hcounts : (c.observe q time).2 with
  | false =>
    obtain ⟨now, last, rfl, hlast, hnear⟩ := observe_eq_false.1 hcounts
    rw [Bool.and_false, if_neg Bool.false_ne_true, observe]
    simp only [hlast, if_pos hnear]
  | true =>
    rw [Bool.and_true]
    cases time with
    | none => exact time?_erase
    | some now =>
      have hinsert : (c.observe q (some now)).1 = c.insert q now := by
        rw [observe] at hcounts ⊢
        split at hcounts
        · rfl
        · rename_i last hlast
          split at hcounts
          · cases hcounts
          · rename_i hfar
            simp only [if_neg hfar]
      rw [hinsert, time?_insert]

theorem threshold_prime (time : Option Int) : (c.prime q time).threshold = c.threshold := by
  cases time <;> rfl

theorem threshold_observe (time : Option Int) :
    (c.observe q time).1.threshold = c.threshold := by
  unfold observe
  split
  · rfl
  · split
    · rfl
    · split <;> rfl

/-- **Right after a change of a path is observed, the path is on record if and only if there is a
file, and then with the time of the file or with one that is nearer than the threshold.** -/
theorem time?_observe_self (time : Option Int) :
    ((c.observe p time).1.time? p).isSome = time.isSome ∧
    ∀ now, time = some now → ∃ last, (c.observe p time).1.time? p = some last ∧
      (last = now ∨ (last - now).natAbs < c.threshold) := by
  rw [time?_observe, p.same_self, Bool.true_and]
  cases hcounts : (c.observe p time).2 with
  | true =>
    rw [if_pos rfl]
    exact ⟨rfl, fun now hnow => ⟨now, hnow, .inl rfl⟩⟩
  | false =>
    obtain ⟨now, last, rfl, hlast, hnear⟩ := observe_eq_false.1 hcounts
    rw [if_neg Bool.false_ne_true, hlast]
    refine ⟨rfl, fun now' hnow => ⟨last, rfl, .inr ?_⟩⟩
    rwa [← Option.some.inj hnow]

end

/-! ## The log -/

/-- A look at a file: the path, the time that was found if there was a file, and, if a change was
observed, whether it counted. -/
structure Look where
  path : Path
  time : Option Int
  answer : Option Bool
  deriving DecidableEq, Repr

namespace Look

/-- The look puts a time on record for a path: by priming, or because the change counts. -/
def Records (p : Path) (time : Int) (l : Look) : Prop :=
  p.same l.path = true ∧ l.time = some time ∧ l.answer ≠ some false

/-- The look finds that the file at a path is gone. -/
def Removes (p : Path) (l : Look) : Prop :=
  p.same l.path = true ∧ l.time = none ∧ l.answer = some true

/-- Whether the look decides what is on record for a path. -/
def counts (p : Path) (l : Look) : Bool := p.same l.path && l.answer.getD l.time.isSome

theorem counts_iff {p : Path} {l : Look} :
    l.counts p = true ↔ (∃ time, l.Records p time) ∨ l.Removes p := by
  obtain ⟨q, time, answer⟩ := l
  rw [counts, Bool.and_eq_true]
  cases time <;> rcases answer with _ | _ | _ <;> simp [Records, Removes]

/-- A look that decides puts the time on record that it finds. -/
theorem records_iff {p : Path} {l : Look} {time : Int} :
    l.Records p time ↔ l.counts p = true ∧ l.time = some time := by
  obtain ⟨q, found, answer⟩ := l
  rw [counts, Bool.and_eq_true]
  cases found <;> rcases answer with _ | _ | _ <;> simp [Records]

end Look

/-- The latest look that decides what is on record for a path. -/
def latest? (p : Path) (log : List Look) : Option Look := (log.filter (Look.counts p)).getLast?

theorem latest?_concat (p : Path) (log : List Look) (l : Look) :
    latest? p (log ++ [l]) = if l.counts p then some l else latest? p log := by
  rw [latest?, List.filter_append]
  by_cases hl : l.counts p = true
  · simp [hl]
  · simp [hl, latest?]

theorem latest?_eq_some_iff {p : Path} {log : List Look} {l : Look} :
    latest? p log = some l ↔ l.counts p = true ∧
      ∃ before since, log = before ++ l :: since ∧ ∀ k ∈ since, ¬ k.counts p = true := by
  rw [latest?, List.getLast?_filter, List.find?_eq_some_iff_append]
  refine and_congr_right fun _ => ⟨?_, ?_⟩
  · rintro ⟨since, before, hlog, hsince⟩
    refine ⟨before.reverse, since.reverse, ?_, fun k hk => ?_⟩
    · rw [← List.reverse_reverse log, hlog]
      simp
    · simpa using hsince k (List.mem_reverse.1 hk)
  · rintro ⟨before, since, rfl, hsince⟩
    refine ⟨since.reverse, before.reverse, by simp, fun k hk => ?_⟩
    simpa using hsince k (List.mem_reverse.1 hk)

/-- What a cache has on record is what the log calls for. -/
def Keeps (c : ChangeCache) (log : List Look) : Prop :=
  ∀ p, c.time? p = (latest? p log).bind Look.time

namespace Keeps

variable {c : ChangeCache} {log : List Look}

theorem concat {d : ChangeCache} {l : Look} (h : c.Keeps log)
    (hd : ∀ p, d.time? p = if l.counts p then l.time else c.time? p) :
    d.Keeps (log ++ [l]) := by
  intro p
  rw [hd, latest?_concat, h p]
  split <;> rfl

theorem prime (h : c.Keeps log) (q : Path) (time : Option Int) :
    (c.prime q time).Keeps (log ++ [⟨q, time, none⟩]) := h.concat fun _ => time?_prime time

theorem observe (h : c.Keeps log) (q : Path) (time : Option Int) :
    (c.observe q time).1.Keeps (log ++ [⟨q, time, some (c.observe q time).2⟩]) :=
  h.concat fun _ => time?_observe time

theorem foldl_prime (h : c.Keeps log) (files : Path → Option Int) (paths : List Path) :
    Keeps (paths.foldl (fun c p => c.prime p (files p)) c)
      (log ++ paths.map fun p => ⟨p, files p, none⟩) := by
  induction paths generalizing c log with
  | nil => simpa using h
  | cons p paths ih => simpa using ih (h.prime p (files p))

end Keeps

/-! ## Runs -/

/-- What happens while files are watched. -/
inductive Event where
  /-- Files come, go, or get another time; from now on they are as `files` says. -/
  | change (files : Path → Option Int)
  | prime (paths : List Path)
  | observe (p : Path)

/-- The event without the calls for other paths. -/
def Event.only (p : Path) : Event → List Event
  | .change files => [.change files]
  | .prime paths => [.prime (paths.filter p.same)]
  | .observe q => if p.same q then [.observe q] else []

/-- A cache, and the times of the files that there are; for a tree these are `Entry.timeAt?`. -/
structure Watched where
  cache : ChangeCache
  files : Path → Option Int

namespace Watched

/-- What is left after an event. -/
def step (w : Watched) : Event → Watched
  | .change files => { w with files }
  | .prime paths => { w with cache := paths.foldl (fun c p => c.prime p (w.files p)) w.cache }
  | .observe p => { w with cache := (w.cache.observe p (w.files p)).1 }

/-- The looks at files in an event. -/
def looks (w : Watched) : Event → List Look
  | .change _ => []
  | .prime paths => paths.map fun p => ⟨p, w.files p, none⟩
  | .observe p => [⟨p, w.files p, some (w.cache.observe p (w.files p)).2⟩]

/-- What is left after events. -/
def run (w : Watched) (events : List Event) : Watched := events.foldl step w

/-- The log of events. -/
def log (w : Watched) : List Event → List Look
  | [] => []
  | e :: events => w.looks e ++ (w.step e).log events

/-- A new cache beside files. -/
def start (threshold : Nat) (files : Path → Option Int) : Watched := ⟨{ threshold }, files⟩

theorem log_append (w : Watched) (events more : List Event) :
    w.log (events ++ more) = w.log events ++ (w.run events).log more := by
  induction events generalizing w with
  | nil => rfl
  | cons e events ih => rw [List.cons_append, log, log, ih, List.append_assoc]; rfl

/-- An event keeps the record true to the log. -/
theorem keeps_step {w : Watched} {past : List Look} (h : w.cache.Keeps past) (e : Event) :
    (w.step e).cache.Keeps (past ++ w.looks e) := by
  cases e with
  | change files => simpa [step, looks] using h
  | prime paths => exact h.foldl_prime w.files paths
  | observe p => exact h.observe p (w.files p)

theorem keeps_run {w : Watched} {past : List Look} (h : w.cache.Keeps past)
    (events : List Event) : (w.run events).cache.Keeps (past ++ w.log events) := by
  induction events generalizing w past with
  | nil => simpa [run, log] using h
  | cons e events ih => simpa [run, log] using ih (keeps_step h e)

/-- **On record for a path is the time of the latest look that decides.** -/
theorem time?_run (threshold : Nat) (files : Path → Option Int) (events : List Event)
    (p : Path) : ((start threshold files).run events).cache.time? p =
      (latest? p ((start threshold files).log events)).bind Look.time := by
  have hnew : (start threshold files).cache.Keeps [] := fun _ => rfl
  exact keeps_run hnew events p

/-- **A time is on record for a path if and only if a look put it there and none behind it put
another one there or found that the file is gone.** -/
theorem time?_run_eq_some_iff {threshold : Nat} {files : Path → Option Int} {events : List Event}
    {p : Path} {last : Int} :
    ((start threshold files).run events).cache.time? p = some last ↔ ∃ before l since,
      (start threshold files).log events = before ++ l :: since ∧ l.Records p last ∧
      ∀ k ∈ since, (∀ time, ¬ k.Records p time) ∧ ¬ k.Removes p := by
  have hundecided : ∀ k : Look,
      ((∀ time, ¬ k.Records p time) ∧ ¬ k.Removes p) ↔ ¬ k.counts p = true := by
    intro k
    rw [Look.counts_iff, not_or, not_exists]
  rw [time?_run, Option.bind_eq_some_iff]
  simp only [hundecided]
  constructor
  · rintro ⟨l, hl, htime⟩
    obtain ⟨hcounts, before, since, hlog, hsince⟩ := latest?_eq_some_iff.1 hl
    exact ⟨before, l, since, hlog, Look.records_iff.2 ⟨hcounts, htime⟩, hsince⟩
  · rintro ⟨before, l, since, hlog, hrecords, hsince⟩
    obtain ⟨hcounts, htime⟩ := Look.records_iff.1 hrecords
    exact ⟨l, latest?_eq_some_iff.2 ⟨hcounts, before, since, hlog, hsince⟩, htime⟩

theorem threshold_step (w : Watched) (e : Event) :
    (w.step e).cache.threshold = w.cache.threshold := by
  cases e with
  | change files => rfl
  | prime paths =>
    refine List.foldlRecOn (motive := fun c : ChangeCache => c.threshold = w.cache.threshold)
      paths _ rfl fun c hc p _ => ?_
    rw [threshold_prime, hc]
  | observe p => exact threshold_observe _

theorem threshold_run (w : Watched) (events : List Event) :
    (w.run events).cache.threshold = w.cache.threshold :=
  List.foldlRecOn (motive := fun v : Watched => v.cache.threshold = w.cache.threshold)
    events step rfl fun v hv e _ => (v.threshold_step e).trans hv

/-! ## One path among others -/

/-- For a path, one watch is as good as the other. -/
structure Agree (p : Path) (w v : Watched) : Prop where
  files : w.files = v.files
  threshold : w.cache.threshold = v.cache.threshold
  time : w.cache.time? p = v.cache.time? p

variable {p : Path} {w v : Watched}

theorem Agree.answer (h : Agree p w v) {q : Path} (hq : p.same q = true) (time : Option Int) :
    (w.cache.observe q time).2 = (v.cache.observe q time).2 := by
  rw [Bool.eq_iff_iff, ← not_iff_not, Bool.not_eq_true, Bool.not_eq_true, observe_eq_false,
    observe_eq_false, ← time?_congr hq, ← time?_congr hq, h.time, h.threshold]

theorem time?_foldl_prime (files : Path → Option Int) (paths : List Path) (c d : ChangeCache)
    (h : c.time? p = d.time? p) :
    (paths.foldl (fun c q => c.prime q (files q)) c).time? p =
      ((paths.filter p.same).foldl (fun c q => c.prime q (files q)) d).time? p := by
  induction paths generalizing c d with
  | nil => exact h
  | cons q paths ih =>
    by_cases hq : p.same q = true
    · rw [List.filter_cons_of_pos hq, List.foldl_cons, List.foldl_cons]
      exact ih _ _ (by rw [time?_prime, time?_prime, h])
    · rw [List.filter_cons_of_neg hq, List.foldl_cons]
      exact ih _ _ (by rw [time?_prime, Bool.eq_false_iff.2 hq, Bool.false_and,
        if_neg Bool.false_ne_true, h])

/-- An event does to a path what its part for the path does. -/
theorem Agree.step (h : Agree p w v) (e : Event) :
    v.log (e.only p) = (w.looks e).filter (p.same ·.path) ∧
      Agree p (w.step e) (v.run (e.only p)) := by
  cases e with
  | change files => exact ⟨rfl, rfl, h.threshold, h.time⟩
  | prime paths =>
    refine ⟨?_, h.files, ?_, ?_⟩
    · simp only [Event.only, log, looks, List.append_nil, List.filter_map, h.files]
      rfl
    · rw [threshold_step, threshold_run, h.threshold]
    · simp only [Watched.step, Event.only, run, List.foldl_cons, List.foldl_nil, h.files]
      exact time?_foldl_prime _ paths _ _ h.time
  | observe q =>
    by_cases hq : p.same q = true
    · have hanswer := h.answer hq (v.files q)
      simp only [Event.only, if_pos hq, log, looks, run, Watched.step, List.foldl_cons,
        List.foldl_nil, h.files, List.append_nil, hanswer]
      refine ⟨by simp [hq], rfl, ?_, ?_⟩
      · rw [threshold_observe, threshold_observe, h.threshold]
      · rw [time?_observe, time?_observe, hanswer, h.time]
    · have hother := Bool.eq_false_iff.2 hq
      simp only [Event.only, if_neg hq, log, looks, run, Watched.step, List.foldl_nil]
      refine ⟨by simp [hother], h.files, ?_, ?_⟩
      · rw [threshold_observe, h.threshold]
      · rw [time?_observe, hother, Bool.false_and, if_neg Bool.false_ne_true, h.time]

/-- What is logged for a path is what a run without the calls for other paths logs. -/
theorem Agree.log (h : Agree p w v) (events : List Event) :
    v.log (events.flatMap (Event.only p)) = (w.log events).filter (p.same ·.path) := by
  induction events generalizing w v with
  | nil => rfl
  | cons e events ih =>
    obtain ⟨hlooks, hstep⟩ := h.step e
    rw [List.flatMap_cons, log_append, hlooks, ih hstep, Watched.log, List.filter_append]

end Watched

/-- **The cache debounces in every run.** Right after a change of a path is observed, the path is on
record if and only if there is a file, and then with a time that is that of the file or nearer to it
than the threshold. The change does not count if and only if there is a file, it was put on record
by priming or by a change that counted, nothing has decided since what is on record, and its time is
nearer than the threshold to that of the record. And the answers for the path are those of the run
without the calls for other paths. -/
theorem debounces_run (threshold : Nat) (files : Path → Option Int) (events : List Event)
    (p : Path) :
    let new := Watched.start threshold files
    let w := new.run events
    let observed := w.cache.observe p (w.files p)
    ((observed.1.time? p).isSome = (w.files p).isSome ∧
      ∀ now, w.files p = some now → ∃ last, observed.1.time? p = some last ∧
        (last = now ∨ (last - now).natAbs < threshold)) ∧
    (observed.2 = false ↔ ∃ now last before l since,
      w.files p = some now ∧ new.log events = before ++ l :: since ∧ l.Records p last ∧
      (∀ k ∈ since, (∀ time, ¬ k.Records p time) ∧ ¬ k.Removes p) ∧
      (last - now).natAbs < threshold) ∧
    new.log (events.flatMap (Event.only p)) = (new.log events).filter (p.same ·.path) := by
  intro new w observed
  have hthreshold : w.cache.threshold = threshold := Watched.threshold_run new events
  refine ⟨hthreshold ▸ time?_observe_self (w.files p), ?_,
    Watched.Agree.log ⟨rfl, rfl, rfl⟩ events⟩
  rw [observe_eq_false, hthreshold]
  constructor
  · rintro ⟨now, last, hnow, hlast, hnear⟩
    obtain ⟨before, l, since, hlog, hrecords, hsince⟩ := Watched.time?_run_eq_some_iff.1 hlast
    exact ⟨now, last, before, l, since, hnow, hlog, hrecords, hsince, hnear⟩
  · rintro ⟨now, last, before, l, since, hnow, hlog, hrecords, hsince, hnear⟩
    have hlast := Watched.time?_run_eq_some_iff.2 ⟨before, l, since, hlog, hrecords, hsince⟩
    exact ⟨now, last, hnow, hlast, hnear⟩

/-- Small moves add up: the third change is near the second one, but not near the one on record. -/
example : ((Watched.start 100 fun _ => some 0).log
    [.observe ⟨true, []⟩, .change fun _ => some 60, .observe ⟨true, []⟩,
      .change fun _ => some 120, .observe ⟨true, []⟩]).map Look.answer =
    [some true, some false, some true] := by decide

end ChangeCache

end UtilitySheet
