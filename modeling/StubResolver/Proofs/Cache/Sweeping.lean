import StubResolver.Proofs.Cache.History

/-!
# When sweeps are started

A sweep is started by a successful call, when the last start is long enough ago and
no sweep is under way. A sweep ends when it is finished, or when the background drops
it. One that is dropped before it has begun never counts as ended, and no sweep is
started after it.
-/

namespace StubResolver.Cache

/-! ## Starts and ends -/

inductive SweepEvent where
  | started (time : Instant)
  | finished
  /-- The background has ended, after the sweep had begun or before. -/
  | dropped (begun : Bool)
  deriving DecidableEq

namespace SweepEvent

def start? : SweepEvent → Option Instant
  | started time => some time
  | finished | dropped _ => none

def change : SweepEvent → Int
  | started _ => 1
  | finished | dropped _ => -1

end SweepEvent

def startTimes (log : List SweepEvent) : List Instant := log.filterMap SweepEvent.start?

def underWay : List SweepEvent → Int
  | [] => 0
  | event :: log => event.change + underWay log

namespace Op

def Succeeds (op : Op) (s : Timed) : Prop :=
  match op with
  | .put key response => (s.cache.put key response s.clock.now).1 = true
  | .get key => (s.cache.get key s.clock.now).1.isSome = true
  | _ => False

def sweepEvent? (op : Op) (s : Timed) : Option SweepEvent :=
  match op with
  | .put _ _ | .get _ =>
    let sweeps := (op.apply s).cache.sweeps
    if sweeps = s.cache.sweeps then none else some (.started sweeps.lastStart)
  | .finishSweep => if s.cache.sweeps.task = .idle then none else some .finished
  | .dropSweep =>
    match s.cache.sweeps.task with
    | .idle => none
    | .waiting => some (.dropped false)
    | .running => some (.dropped true)
  | _ => none

end Op

/-- The sweeps that start and end from the given state on, in order. -/
def sweepLog : Timed → List Op → List SweepEvent
  | _, [] => []
  | s, op :: ops => (op.sweepEvent? s).toList ++ sweepLog (op.apply s) ops

theorem sweepLog_concat (s : Timed) (ops : List Op) (op : Op) :
    sweepLog s (ops ++ [op]) =
      sweepLog s ops ++ (op.sweepEvent? (ops.foldl (fun s op => op.apply s) s)).toList := by
  induction ops generalizing s with
  | nil => exact List.append_nil _
  | cons first ops ih =>
      change _ ++ sweepLog _ (ops ++ [op]) = (_ ++ sweepLog _ ops) ++ _
      rw [ih, List.append_assoc, List.foldl_cons]

/-! ## What one operation does to the sweeps -/

structure Due (c : Cache) (now : Instant) : Prop where
  elapsed : c.config.sweepInterval ≤ now - c.sweeps.lastStart
  background : c.background = true
  free : c.sweeps.flagged = false

def AfterCall (c : Cache) (now : Instant) (succeeds : Prop) (sweeps : Sweeps) : Prop :=
  ((succeeds ∧ c.Due now) ∧ sweeps = ⟨true, .waiting, now⟩) ∨
    (¬ (succeeds ∧ c.Due now) ∧ sweeps = c.sweeps)

section

variable {c : Cache} {s : Timed} {op : Op} {now time : Instant}

theorem startSweepIfDue_afterCall (c : Cache) (now : Instant) :
    c.AfterCall now True (c.startSweepIfDue now).sweeps := by
  unfold startSweepIfDue
  split
  · rename_i hnot
    refine .inr ⟨fun ⟨_, hdue⟩ => ?_, rfl⟩
    have helapsed := Nat.not_lt.2 hdue.elapsed
    simp [helapsed, hdue.background, hdue.free] at hnot
  · rename_i hdue
    simp only [Bool.or_eq_true, decide_eq_true_eq, not_or, Nat.not_lt, Bool.not_eq_true',
      Bool.not_eq_false, Bool.not_eq_true] at hdue
    exact .inl ⟨⟨trivial, hdue.1.1, hdue.1.2, hdue.2⟩, rfl⟩

theorem afterCall_of_failure {succeeds : Prop} (h : ¬ succeeds) :
    c.AfterCall now succeeds c.sweeps :=
  .inr ⟨fun hstarts => h hstarts.1, rfl⟩

theorem insert_settings (c : Cache) (key : CacheKey) (e : CacheEntry) :
    (c.insert key e).config = c.config ∧ (c.insert key e).background = c.background ∧
      (c.insert key e).sweeps = c.sweeps := by
  unfold insert
  dsimp only
  split <;> exact ⟨rfl, rfl, rfl⟩

theorem startSweepIfDue_settings (c : Cache) (now : Instant) :
    (c.startSweepIfDue now).config = c.config ∧
      (c.startSweepIfDue now).background = c.background := by
  unfold startSweepIfDue
  split <;> exact ⟨rfl, rfl⟩

theorem cleanup_settings (c : Cache) (now : Instant) :
    (c.cleanup now).2.config = c.config ∧ (c.cleanup now).2.background = c.background ∧
      (c.cleanup now).2.sweeps = c.sweeps := by
  simp [cleanup, foldl_erase]

theorem due_insert_iff {key : CacheKey} {e : CacheEntry} :
    (c.insert key e).Due now ↔ c.Due now := by
  obtain ⟨hconfig, hbackground, hsweeps⟩ := c.insert_settings key e
  constructor
  · rintro ⟨helapsed, hbackground', hfree⟩
    exact ⟨hconfig ▸ hsweeps ▸ helapsed, hbackground ▸ hbackground', hsweeps ▸ hfree⟩
  · rintro ⟨helapsed, hbackground', hfree⟩
    exact ⟨by rwa [hconfig, hsweeps], by rwa [hbackground], by rwa [hsweeps]⟩

theorem put_afterCall (c : Cache) (key : CacheKey) (m : Message) (now : Instant) :
    c.AfterCall now ((c.put key m now).1 = true) (c.put key m now).2.sweeps := by
  unfold put
  cases validity? c.config m with
  | none => exact afterCall_of_failure Bool.false_ne_true
  | some validFor =>
      have hstart := (c.insert key ⟨now, validFor, m⟩).startSweepIfDue_afterCall now
      unfold AfterCall at hstart
      rw [due_insert_iff, (c.insert_settings key ⟨now, validFor, m⟩).2.2] at hstart
      simpa [AfterCall] using hstart

theorem get_afterCall (c : Cache) (key : CacheKey) (now : Instant) :
    c.AfterCall now ((c.get key now).1.isSome = true) (c.get key now).2.sweeps := by
  unfold get
  cases c.find key now with
  | nothing => exact afterCall_of_failure Bool.false_ne_true
  | expired => exact afterCall_of_failure (c := c) Bool.false_ne_true
  | hit response => simpa [AfterCall] using c.startSweepIfDue_afterCall now

namespace Op

def IsCall (op : Op) : Prop := (∃ key m, op = .put key m) ∨ ∃ key, op = .get key

theorem IsCall.afterCall (h : op.IsCall) :
    s.cache.AfterCall s.clock.now (op.Succeeds s) (op.apply s).cache.sweeps := by
  rcases h with ⟨key, m, rfl⟩ | ⟨key, rfl⟩
  · exact s.cache.put_afterCall key m s.clock.now
  · exact s.cache.get_afterCall key s.clock.now

theorem IsCall.sweepEvent?_eq (h : op.IsCall) :
    op.sweepEvent? s =
      if (op.apply s).cache.sweeps = s.cache.sweeps then none
      else some (.started (op.apply s).cache.sweeps.lastStart) := by
  rcases h with ⟨key, m, rfl⟩ | ⟨key, rfl⟩ <;> rfl

theorem IsCall.sweepEvent?_eq_started_iff (h : op.IsCall) :
    op.sweepEvent? s = some (.started time) ↔
      time = s.clock.now ∧ op.Succeeds s ∧ s.cache.Due s.clock.now := by
  rw [h.sweepEvent?_eq]
  rcases h.afterCall (s := s) with ⟨hstarts, hsweeps⟩ | ⟨hstays, hsweeps⟩
  · -- The flag was not set before.
    have hchanged : (⟨true, .waiting, s.clock.now⟩ : Sweeps) ≠ s.cache.sweeps := fun heq => by
      simpa [← heq] using hstarts.2.free
    rw [hsweeps, if_neg hchanged]
    simp [hstarts, eq_comm]
  · rw [hsweeps, if_pos rfl]
    simp [hstays]

theorem sweepEvent?_eq_started_iff :
    op.sweepEvent? s = some (.started time) ↔
      time = s.clock.now ∧ op.Succeeds s ∧ s.cache.Due s.clock.now := by
  cases op with
  | put key m => exact IsCall.sweepEvent?_eq_started_iff (.inl ⟨key, m, rfl⟩)
  | get key => exact IsCall.sweepEvent?_eq_started_iff (.inr ⟨key, rfl⟩)
  | dropSweep =>
      simp only [sweepEvent?, Succeeds, false_and, and_false, iff_false]
      cases s.cache.sweeps.task <;> simp
  | _ => simp [sweepEvent?, Succeeds]

end Op

inductive Moves (c : Cache) (now : Instant) : Option SweepEvent → Sweeps → Sweeps → Prop where
  | start (due : c.Due now) : Moves c now (some (.started now)) c.sweeps ⟨true, .waiting, now⟩
  | stay (sweeps : Sweeps) : Moves c now none sweeps sweeps
  | begin (flagged : Bool) (last : Instant) :
      Moves c now none ⟨flagged, .waiting, last⟩ ⟨flagged, .running, last⟩
  | finish (flagged : Bool) {task : SweepTask} (busy : task ≠ .idle) (last : Instant) :
      Moves c now (some .finished) ⟨flagged, task, last⟩ ⟨false, .idle, last⟩
  | dropWaiting (flagged : Bool) (last : Instant) :
      Moves c now (some (.dropped false)) ⟨flagged, .waiting, last⟩ ⟨flagged, .idle, last⟩
  | dropRunning (flagged : Bool) (last : Instant) :
      Moves c now (some (.dropped true)) ⟨flagged, .running, last⟩ ⟨false, .idle, last⟩

namespace Op

theorem IsCall.moves (h : op.IsCall) :
    Moves s.cache s.clock.now (op.sweepEvent? s) s.cache.sweeps (op.apply s).cache.sweeps := by
  rcases h.afterCall (s := s) with ⟨hstarts, hsweeps⟩ | ⟨-, hsweeps⟩
  · rw [hsweeps, h.sweepEvent?_eq_started_iff.2 ⟨rfl, hstarts⟩]
    exact .start hstarts.2
  · rw [h.sweepEvent?_eq, hsweeps, if_pos rfl]
    exact .stay _

theorem moves (op : Op) (s : Timed) :
    Moves s.cache s.clock.now (op.sweepEvent? s) s.cache.sweeps (op.apply s).cache.sweeps := by
  rcases s with ⟨clock, ⟨config, background, entries, ⟨flagged, task, last⟩⟩⟩
  cases op with
  | put key m => exact IsCall.moves (.inl ⟨key, m, rfl⟩)
  | get key => exact IsCall.moves (.inr ⟨key, rfl⟩)
  | remove key => exact .stay _
  | cleanup =>
      simp only [apply, cleanup_settings]
      exact .stay _
  | advance d => exact .stay _
  | beginSweep =>
      cases task with
      | waiting => exact .begin flagged last
      | idle => exact .stay _
      | running => exact .stay _
  | finishSweep =>
      cases task with
      | idle => exact .stay _
      | waiting => exact .finish flagged SweepTask.noConfusion last
      | running => exact .finish flagged SweepTask.noConfusion last
  | dropSweep =>
      cases task with
      | idle => exact .stay _
      | waiting => exact .dropWaiting flagged last
      | running => exact .dropRunning flagged last

theorem settings_apply (op : Op) (s : Timed) :
    (op.apply s).cache.config = s.cache.config ∧
      (op.apply s).cache.background = s.cache.background := by
  rcases s with ⟨clock, c⟩
  cases op with
  | put key m =>
      dsimp only [apply, Cache.put]
      cases validity? c.config m with
      | none => exact ⟨rfl, rfl⟩
      | some validFor =>
          obtain ⟨hconfig, hbackground⟩ :=
            (c.insert key ⟨clock.now, validFor, m⟩).startSweepIfDue_settings clock.now
          obtain ⟨hconfig', hbackground', -⟩ := c.insert_settings key ⟨clock.now, validFor, m⟩
          exact ⟨hconfig.trans hconfig', hbackground.trans hbackground'⟩
  | get key =>
      dsimp only [apply, Cache.get]
      cases c.find key clock.now with
      | nothing => exact ⟨rfl, rfl⟩
      | expired => exact ⟨rfl, rfl⟩
      | hit response => exact c.startSweepIfDue_settings clock.now
  | remove key => exact ⟨rfl, rfl⟩
  | cleanup => exact ⟨(c.cleanup_settings clock.now).1, (c.cleanup_settings clock.now).2.1⟩
  | advance d => exact ⟨rfl, rfl⟩
  | beginSweep =>
      dsimp only [apply, Cache.beginSweep]
      split <;> exact ⟨rfl, rfl⟩
  | finishSweep =>
      dsimp only [apply, Cache.finishSweep]
      split
      · exact ⟨rfl, rfl⟩
      · exact ⟨(c.cleanup_settings clock.now).1, (c.cleanup_settings clock.now).2.1⟩
  | dropSweep =>
      dsimp only [apply, Cache.dropSweep]
      split <;> exact ⟨rfl, rfl⟩

theorem now_le_apply (op : Op) {s : Timed} (h : s.clock.now ≤ Duration.longest) :
    s.clock.now ≤ (op.apply s).clock.now ∧ (op.apply s).clock.now ≤ Duration.longest := by
  cases op with
  | advance d => exact ⟨Clock.now_le_advance h d, s.clock.advance_le_longest d⟩
  | _ => exact ⟨Nat.le_refl _, h⟩

end Op

end

/-! ## Runs -/

theorem startTimes_append (log log' : List SweepEvent) :
    startTimes (log ++ log') = startTimes log ++ startTimes log' := List.filterMap_append

theorem underWay_append (log log' : List SweepEvent) :
    underWay (log ++ log') = underWay log + underWay log' := by
  induction log with
  | nil => exact (Int.zero_add _).symm
  | cons event log ih =>
      change event.change + underWay (log ++ log') = event.change + underWay log + underWay log'
      rw [ih, Int.add_assoc]

structure Told (interval : Duration) (made : Instant) (log : List SweepEvent) (sweeps : Sweeps) :
    Prop where
  lastStart : sweeps.lastStart = (startTimes log).getLastD made
  latest : ∀ time ∈ made :: startTimes log, time ≤ sweeps.lastStart
  spaced : (made :: startTimes log).Pairwise fun time later => time + interval ≤ later
  counted : underWay log = if sweeps.task = .idle then 0 else 1
  flagged : sweeps.flagged = true ↔ sweeps.task ≠ .idle ∨ .dropped false ∈ log
  lost : .dropped false ∈ log → sweeps.task = .idle

section

variable {c : Cache} {interval : Duration} {made now : Instant} {log : List SweepEvent}
  {sweeps after : Sweeps} {event? : Option SweepEvent} {event : SweepEvent}

theorem told_nil (interval : Duration) (made : Instant) :
    Told interval made [] ⟨false, .idle, made⟩ where
  lastStart := rfl
  latest := by simp [startTimes]
  spaced := List.pairwise_singleton _ _
  counted := rfl
  flagged := by simp
  lost := fun _ => rfl

theorem Told.start (h : Told interval made log sweeps) (hlast : sweeps.lastStart ≤ now)
    (helapsed : interval ≤ now - sweeps.lastStart) (hfree : sweeps.flagged = false) :
    Told interval made (log ++ [.started now]) ⟨true, .waiting, now⟩ := by
  have htimes : startTimes (log ++ [.started now]) = startTimes log ++ [now] :=
    startTimes_append _ _
  -- The flag is set as long as a sweep is under way, and after one was lost.
  have hquiet : ¬ (sweeps.task ≠ .idle ∨ .dropped false ∈ log) := fun h' => by
    simp [h.flagged.2 h'] at hfree
  rw [not_or, Decidable.not_not] at hquiet
  exact
    { lastStart := by rw [htimes, List.getLastD_concat]
      latest := by
        rw [htimes, ← List.cons_append, List.forall_mem_append, List.forall_mem_singleton]
        exact ⟨fun time htime => Nat.le_trans (h.latest time htime) hlast, Nat.le_refl _⟩
      spaced := by
        rw [htimes, ← List.cons_append, List.pairwise_append]
        refine ⟨h.spaced, List.pairwise_singleton _ _, fun time htime later hlater => ?_⟩
        rw [List.mem_singleton.1 hlater]
        calc time + interval
          _ ≤ sweeps.lastStart + interval := Nat.add_le_add_right (h.latest time htime) _
          _ ≤ now := Nat.add_le_of_le_sub' hlast helapsed
      counted := by
        rw [underWay_append, h.counted, if_pos hquiet.1]
        rfl
      flagged := by simp
      lost := by simpa using hquiet.2 }

theorem Told.ended (h : Told interval made log sweeps) (hbusy : sweeps.task ≠ .idle)
    (hstart : event.start? = none) {flagged : Bool}
    (hflagged : flagged = true ↔ event = .dropped false) :
    Told interval made (log ++ [event]) ⟨flagged, .idle, sweeps.lastStart⟩ := by
  have htimes : startTimes (log ++ [event]) = startTimes log := by
    rw [startTimes_append, startTimes, startTimes, List.filterMap_cons_none hstart]
    exact List.append_nil _
  have hchange : underWay [event] = -1 := by
    cases event with
    | started time => cases hstart
    | finished => rfl
    | dropped begun => rfl
  exact
    { lastStart := by rw [htimes, h.lastStart]
      latest := by rw [htimes]; exact h.latest
      spaced := by rw [htimes]; exact h.spaced
      counted := by
        rw [underWay_append, h.counted, if_neg hbusy, hchange]
        rfl
      flagged := by
        -- After a lost sweep none could have been under way.
        have hkept : .dropped false ∉ log := fun hlost => hbusy (h.lost hlost)
        simp [hkept, hflagged, eq_comm]
      lost := fun _ => rfl }

theorem Told.moves (h : Told interval made log sweeps) (hmoves : Moves c now event? sweeps after)
    (hinterval : c.config.sweepInterval = interval) (hlast : sweeps.lastStart ≤ now) :
    Told interval made (log ++ event?.toList) after := by
  cases hmoves with
  | start due => exact h.start hlast (hinterval ▸ due.elapsed) due.free
  | stay =>
      rw [Option.toList_none, List.append_nil]
      exact h
  | begin flagged last =>
      rw [Option.toList_none, List.append_nil]
      refine ⟨h.lastStart, h.latest, h.spaced, h.counted, ?_, fun hlost => ?_⟩
      · simpa using h.flagged
      · cases h.lost hlost
  | finish flagged busy last => exact h.ended busy rfl (by simp)
  | dropWaiting flagged last =>
      have hset : flagged = true := h.flagged.2 (.inl SweepTask.noConfusion)
      exact h.ended SweepTask.noConfusion rfl (by simp [hset])
  | dropRunning flagged last => exact h.ended SweepTask.noConfusion rfl (by simp)

theorem Moves.lastStart_le (h : Moves c now event? sweeps after) (hlast : sweeps.lastStart ≤ now) :
    after.lastStart ≤ now := by
  cases h with
  | start due => exact Nat.le_refl _
  | _ => exact hlast

end

structure Scheduled (config : CacheConfig) (made : Instant) (log : List SweepEvent) (s : Timed) :
    Prop where
  settings : s.cache.config = config
  background : s.cache.background = true
  inRange : s.clock.now ≤ Duration.longest
  past : s.cache.sweeps.lastStart ≤ s.clock.now
  told : Told config.sweepInterval made log s.cache.sweeps

section

variable {config : CacheConfig} {made : Instant} {log : List SweepEvent} {s : Timed}

theorem Scheduled.apply (h : Scheduled config made log s) (op : Op) :
    Scheduled config made (log ++ (op.sweepEvent? s).toList) (op.apply s) where
  settings := (op.settings_apply s).1.trans h.settings
  background := (op.settings_apply s).2.trans h.background
  inRange := (op.now_le_apply h.inRange).2
  past := Nat.le_trans ((op.moves s).lastStart_le h.past) (op.now_le_apply h.inRange).1
  told := h.told.moves (op.moves s) (by rw [h.settings]) h.past

theorem run_scheduled (config : CacheConfig) {start : Clock} (hstart : start.now ≤ Duration.longest)
    (ops : List Op) :
    Scheduled config start.now (sweepLog (run config true start []) ops)
      (run config true start ops) := by
  induction ops using List.reverseRecOn with
  | nil => exact ⟨rfl, rfl, hstart, Nat.le_refl _, told_nil _ _⟩
  | append_singleton ops op ih =>
      rw [run_concat, sweepLog_concat]
      exact ih.apply op

theorem Scheduled.due_iff (h : Scheduled config made log s) :
    s.cache.Due s.clock.now ↔
      (startTimes log).getLastD made + config.sweepInterval ≤ s.clock.now ∧ underWay log = 0 ∧
        .dropped false ∉ log := by
  have helapsed : config.sweepInterval ≤ s.clock.now - s.cache.sweeps.lastStart ↔
      (startTimes log).getLastD made + config.sweepInterval ≤ s.clock.now := by
    rw [← h.told.lastStart]
    exact Nat.le_sub_iff_add_le' h.past
  have hfree : s.cache.sweeps.flagged = false ↔ underWay log = 0 ∧ .dropped false ∉ log := by
    rw [← Bool.not_eq_true, h.told.flagged, not_or, Decidable.not_not, h.told.counted]
    simp
  rw [← helapsed, ← hfree, ← h.settings]
  exact ⟨fun hdue => ⟨hdue.elapsed, hdue.free⟩, fun ⟨h', hfree⟩ => ⟨h', h.background, hfree⟩⟩

end

/-- Whatever happens to a cache with a background, and whenever: there is at most one
sweep under way; the first start is at least an interval after the cache was made,
and any later one at least an interval after those before. A sweep is started by just
those calls that store or find a response when an interval has passed since the last
start, no sweep is under way, and none has been dropped before it had begun. -/
theorem sweeps_scheduled (config : CacheConfig) (made : Duration) (ops : List Op) :
    let start := Clock.start.advance made
    let s := run config true start ops
    let log := sweepLog (run config true start []) ops
    underWay log ≤ 1 ∧
    (start.now :: startTimes log).Pairwise (fun time later => time + config.sweepInterval ≤ later) ∧
    ∀ (op : Op) (time : Instant), op.sweepEvent? s = some (.started time) ↔
      time = s.clock.now ∧ op.Succeeds s ∧
      (startTimes log).getLastD start.now + config.sweepInterval ≤ time ∧ underWay log = 0 ∧
        .dropped false ∉ log := by
  intro start s log
  have h : Scheduled config start.now log s :=
    run_scheduled config (Clock.start.advance_le_longest made) ops
  refine ⟨?_, h.told.spaced, fun op time => ?_⟩
  · rw [h.told.counted]
    split <;> decide
  · rw [Op.sweepEvent?_eq_started_iff, h.due_iff]
    constructor
    · rintro ⟨rfl, hsucceeds, hdue⟩
      exact ⟨rfl, hsucceeds, hdue⟩
    · rintro ⟨rfl, hsucceeds, hdue⟩
      exact ⟨rfl, hsucceeds, hdue⟩

/-- A sweep that is dropped before it has begun is the last one: ten minutes later,
with no sweep under way, a response is stored and no sweep started. And as ten days
are more than an interval may have, a sweep is started after eight. -/
theorem no_sweep_after_lost_one :
    let key : CacheKey := ⟨.v4 ⟨#v[192, 0, 2, 53]⟩ 53, ".", .internet, .a⟩
    let answer : Message :=
      ⟨⟨0, 0x8180⟩, ⟨0, 1, 0, 0⟩, [], [⟨⟨.root, .a, .internet, 30, 4⟩, .a ⟨#v[192, 0, 2, 1]⟩⟩],
        [], [], 27⟩
    let start := Clock.start.advance 0
    let ops : List Op :=
      [.advance (.ofSeconds 600), .put key answer, .dropSweep, .advance (.ofSeconds 600)]
    let s := run .default true start ops
    let log := sweepLog (run .default true start []) ops
    let tenDays := CacheConfig.default.setSweepInterval (.ofSeconds (10 * 24 * 3600))
    let eighthDay := run tenDays true start [.advance (.ofSeconds (8 * 24 * 3600))]
    ((Op.put key answer).Succeeds s ∧
      (startTimes log).getLastD start.now + CacheConfig.default.sweepInterval ≤ s.clock.now ∧
      underWay log = 0 ∧ (Op.put key answer).sweepEvent? s = none) ∧
    (Op.put key answer).sweepEvent? eighthDay = some (.started (.ofSeconds (8 * 24 * 3600))) := by
  intro key answer start ops s log tenDays eighthDay
  have hstored : (s.cache.put key answer s.clock.now).1 = true := by decide
  have hnone : (Op.put key answer).sweepEvent? s = none := by decide
  have hstored' : (eighthDay.cache.put key answer eighthDay.clock.now).1 = true := by decide
  have hdue : eighthDay.cache.Due eighthDay.clock.now := ⟨by decide, rfl, rfl⟩
  exact ⟨⟨hstored, by decide, by decide, hnone⟩,
    Op.sweepEvent?_eq_started_iff.2 ⟨by decide, hstored', hdue⟩⟩

end StubResolver.Cache
