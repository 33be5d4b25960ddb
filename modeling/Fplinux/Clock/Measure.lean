/-
The timer and the stopwatch measure running time (`clock_model_tick`, the timer
and stopwatch operations of `clock-model.c`).

The running time is read off a run from outside: `ran` adds up the time that
passes while the timer runs, from the last request that set it anew, and `watched`
the time that passes while the stopwatch runs, from its last reset.  The model
keeps the first as a deadline or as a remaining time, exchanged at every pause and
resume, and the second in `elapsedMs`.

Main results:
- `Countdown.effect`, `Countdown.tick`, `Watch.effect`, `Watch.tick`: one step;
- `meters_of_trace`: every run;
- `measured_of_trace`: the meters against what the model shows, and the tick at
  which the timer rings.
-/
import Fplinux.Clock.ExactlyOnce

namespace Clock

open Machine (Step)

/-! ### Running time -/

/-- A request sets the timer anew: a set, a stop or a restart that succeeds. -/
def setsTimer (step : Step Model Call) : Bool :=
  match step.op with
  | .tick _ _ => false
  | .request request =>
    request.op.setsTimer && decide ((requestApply step.before request).1 = .ok)

/-- A request resets the stopwatch. -/
def resetsStopwatch (step : Step Model Call) : Bool :=
  match step.op with
  | .tick _ _ => false
  | .request request =>
    request.op.resetsStopwatch && decide ((requestApply step.before request).1 = .ok)

/-- The monotonic time that passes in a step. -/
def delta (step : Step Model Call) : ℕ := step.after.monotonicMs - step.before.monotonicMs

def ranStep (ran : ℕ) (step : Step Model Call) : ℕ :=
  if setsTimer step then 0
  else if step.before.timer.state = .running then ran + delta step
  else ran

/-- How long the timer has run since it was last set anew. -/
def ran (run : List (Step Model Call)) : ℕ := run.foldl ranStep 0

def watchedStep (watched : ℕ) (step : Step Model Call) : ℕ :=
  if resetsStopwatch step then 0
  else if step.before.stopwatch.running then watched + delta step
  else watched

/-- How long the stopwatch has run since its last reset. -/
def watched (run : List (Step Model Call)) : ℕ := run.foldl watchedStep 0

/-- The timer's events of a step. -/
def timerEvents (step : Step Model Call) : List Event :=
  match step.op with
  | .tick wallUtc monotonicMs =>
    (tickEvents step.before wallUtc monotonicMs).filter (·.kind = .timer)
  | .request _ => []

theorem ran_append (run : List (Step Model Call)) (step : Step Model Call) :
    ran (run ++ [step]) = ranStep (ran run) step := by
  rw [ran, List.foldl_append]
  rfl

def Timer.durationMs (timer : Timer) : ℕ := timer.durationSeconds * 1000

/-- What the timer says of the time `ran` that it has run. -/
structure Countdown (timer : Timer) (monotonicMs ran : ℕ) : Prop where
  stopped : timer.state = .stopped → ran = 0 ∧ timer.remainingMs = timer.durationMs
  running : timer.state = .running → ran < timer.durationMs ∧
    timer.deadlineMs = monotonicMs + (timer.durationMs - ran)
  paused : timer.state = .paused → ran < timer.durationMs ∧
    timer.remainingMs = timer.durationMs - ran
  finished : timer.state = .finished → 0 < timer.durationMs ∧ timer.durationMs ≤ ran ∧
    timer.remainingMs = 0

variable {monotonicMs : ℕ} {timer : Timer} {model : Model} {wallUtc : ℤ}
  {run : List (Step Model Call)}

theorem Countdown.effect {timer' : Timer} {ran : ℕ} {setsTimer : Bool}
    (h : Countdown timer monotonicMs ran)
    (heffect : TimerEffect monotonicMs timer setsTimer timer') :
    Countdown timer' monotonicMs (if setsTimer then 0 else ran) := by
  cases heffect with
  | same => exact h
  | set seconds => exact ⟨fun _ => ⟨rfl, rfl⟩, by simp, by simp, by simp⟩
  | run hstate =>
    refine ⟨by simp, fun _ => ?_, by simp, by simp⟩
    rcases hstate with ⟨hstopped, hne⟩ | hpaused
    · obtain ⟨hzero, hremaining⟩ := h.stopped hstopped
      have hpos : 0 < timer.durationMs := by
        rw [Timer.durationMs]
        omega
      simp only [Bool.false_eq_true, if_false, hzero, hremaining, Nat.sub_zero]
      exact ⟨hpos, rfl⟩
    · obtain ⟨hlt, hremaining⟩ := h.paused hpaused
      simp only [Bool.false_eq_true, if_false, hremaining]
      exact ⟨hlt, rfl⟩
  | pause hstate =>
    obtain ⟨hlt, hdeadline⟩ := h.running hstate
    refine ⟨by simp, by simp, fun _ => ?_, by simp⟩
    simp only [Bool.false_eq_true, if_false, hdeadline]
    exact ⟨hlt, Nat.add_sub_cancel_left _ _⟩
  | restart hne =>
    refine ⟨by simp, fun _ => ?_, by simp, by simp⟩
    simp only [if_true, Timer.durationMs, Nat.sub_zero]
    exact ⟨by omega, trivial⟩

/-- The timer after a tick. -/
def Timer.ticked (timer : Timer) (monotonicMs : ℕ) : Timer :=
  if timer.state = .running then
    if timer.deadlineMs ≤ monotonicMs then { timer with remainingMs := 0, state := .finished }
    else { timer with remainingMs := timer.deadlineMs - monotonicMs }
  else timer

theorem Countdown.tick {monotonicMs' ran : ℕ} (h : Countdown timer monotonicMs ran)
    (hmono : monotonicMs ≤ monotonicMs') :
    Countdown (timer.ticked monotonicMs') monotonicMs'
      (if timer.state = .running then ran + (monotonicMs' - monotonicMs) else ran) := by
  rw [Timer.ticked]
  by_cases hrun : timer.state = .running
  · obtain ⟨hlt, hdeadline⟩ := h.running hrun
    rw [if_pos hrun, if_pos hrun]
    split
    · have hpos : 0 < timer.durationMs := by omega
      have hover : timer.durationMs ≤ ran + (monotonicMs' - monotonicMs) := by omega
      exact ⟨by simp, by simp, by simp, fun _ => ⟨hpos, hover, rfl⟩⟩
    · have hbelow : ran + (monotonicMs' - monotonicMs) < timer.durationMs := by omega
      have hleft : timer.deadlineMs =
          monotonicMs' + (timer.durationMs - (ran + (monotonicMs' - monotonicMs))) := by omega
      exact ⟨by simp [hrun], fun _ => ⟨hbelow, hleft⟩, by simp [hrun], by simp [hrun]⟩
  · rw [if_neg hrun, if_neg hrun]
    exact ⟨h.stopped, fun hstate => absurd hstate hrun, h.paused, h.finished⟩

/-- **The timer is due when it has run for its duration.** -/
theorem Countdown.due_iff {monotonicMs' ran : ℕ} (h : Countdown timer monotonicMs ran)
    (hmono : monotonicMs ≤ monotonicMs') :
    timer.state = .running ∧ timer.deadlineMs ≤ monotonicMs' ↔
      ran < timer.durationMs ∧ timer.durationMs ≤
        if timer.state = .running then ran + (monotonicMs' - monotonicMs) else ran := by
  by_cases hrun : timer.state = .running
  · obtain ⟨hlt, hdeadline⟩ := h.running hrun
    simp only [hrun, if_true, true_and]
    omega
  · simp only [hrun, if_false, false_and, false_iff]
    omega

/-! ### The stopwatch -/

/-- What the stopwatch says of the time `watched` that it has run. -/
structure Watch (stopwatch : Stopwatch) (monotonicMs watched : ℕ) : Prop where
  elapsed : stopwatch.elapsedMs = watched
  le : watched ≤ monotonicMs
  sorted : stopwatch.laps.Pairwise fun a b => a.elapsedMs ≤ b.elapsedMs
  below : ∀ lap ∈ stopwatch.laps, lap.elapsedMs ≤ stopwatch.elapsedMs
  sum : (stopwatch.laps.map (·.differenceMs)).sum = lastLap stopwatch.laps

theorem lastLap_append (laps : List Lap) (lap : Lap) : lastLap (laps ++ [lap]) = lap.elapsedMs := by
  rw [lastLap, List.getLast?_append, List.getLast?_singleton]
  rfl

theorem Watch.lastLap_le {stopwatch : Stopwatch} {watched : ℕ}
    (h : Watch stopwatch monotonicMs watched) : lastLap stopwatch.laps ≤ stopwatch.elapsedMs := by
  rw [lastLap]
  cases hlast : stopwatch.laps.getLast? with
  | none => exact Nat.zero_le _
  | some lap => exact h.below lap (List.mem_of_getLast? hlast)

theorem Watch.effect {stopwatch stopwatch' : Stopwatch} {watched : ℕ} {resetsStopwatch : Bool}
    (h : Watch stopwatch monotonicMs watched) (hlt : monotonicMs < 2 ^ 64)
    (heffect : StopwatchEffect stopwatch resetsStopwatch stopwatch') :
    Watch stopwatch' monotonicMs (if resetsStopwatch then 0 else watched) := by
  cases heffect with
  | same => exact h
  | run running => exact ⟨h.elapsed, h.le, h.sorted, h.below, h.sum⟩
  | reset => exact ⟨rfl, Nat.zero_le _, List.Pairwise.nil, by simp, rfl⟩
  | lap =>
    have hlast := h.lastLap_le
    have helapsed := h.elapsed
    have hle := h.le
    have hdifference : Word.sub 64 stopwatch.elapsedMs (lastLap stopwatch.laps) =
        stopwatch.elapsedMs - lastLap stopwatch.laps := Word.sub_eq (by omega) hlast
    refine ⟨h.elapsed, h.le, ?_, ?_, ?_⟩
    · refine List.pairwise_append.mpr ⟨h.sorted, List.pairwise_singleton _ _, ?_⟩
      intro lap hmem new hnew
      rw [List.mem_singleton.mp hnew]
      exact h.below lap hmem
    · intro lap hmem
      rcases List.mem_append.mp hmem with hold | hnew
      · exact h.below lap hold
      · rw [List.mem_singleton.mp hnew]
    · rw [lastLap_append, List.map_append, List.sum_append, h.sum, List.map_singleton,
        List.sum_singleton, hdifference]
      exact Nat.add_sub_cancel' hlast

theorem Watch.tick {watched : ℕ} (wallUtc : ℤ) (h : Watch model.stopwatch model.monotonicMs watched)
    (hmono : model.monotonicMs ≤ monotonicMs) (hlt : monotonicMs < 2 ^ 64) :
    Watch (advance model wallUtc monotonicMs).stopwatch monotonicMs
      (if model.stopwatch.running then watched + (monotonicMs - model.monotonicMs)
      else watched) := by
  have hle := h.le
  have helapsed := h.elapsed
  rw [advance]
  by_cases hrun : model.stopwatch.running = true
  · rw [if_pos hrun, if_pos hrun]
    have hsum : saturatedAdd model.stopwatch.elapsedMs (monotonicMs - model.monotonicMs) =
        model.stopwatch.elapsedMs + (monotonicMs - model.monotonicMs) := by
      rw [saturatedAdd, Word.satAdd, Word.maxVal, if_neg (by omega)]
    refine ⟨?_, by omega, h.sorted, ?_, h.sum⟩
    · show saturatedAdd _ _ = _
      rw [hsum, helapsed]
    · intro lap hmem
      have hbelow := h.below lap hmem
      show lap.elapsedMs ≤ saturatedAdd _ _
      rw [hsum]
      omega
  · rw [if_neg hrun, if_neg hrun]
    exact ⟨helapsed, by omega, h.sorted, h.below, h.sum⟩

/-! ### Ticks -/

theorem tickTimer_clocks (model : Model) (h : model.nextEventId ≠ 0) :
    (tickTimer model).2.timer = model.timer.ticked model.monotonicMs ∧
      (tickTimer model).2.stopwatch = model.stopwatch ∧
      (tickTimer model).2.monotonicMs = model.monotonicMs := by
  rw [tickTimer_eq, Timer.ticked]
  by_cases hrun : model.timer.state = .running
  · rw [if_pos hrun, if_pos hrun, timerRemaining_running hrun]
    by_cases hdue : model.timer.deadlineMs ≤ model.monotonicMs
    · rw [if_pos (Nat.sub_eq_zero_of_le hdue), if_neg h, if_pos hdue]
      obtain ⟨htimer, hstopwatch⟩ :=
        submitEvent_clocks (finishTimer model) (timerEvent model) false
      exact ⟨htimer, hstopwatch, (submitEvent_times (finishTimer model) (timerEvent model) false).2⟩
    · rw [if_neg (fun hzero => hdue (Nat.sub_eq_zero_iff_le.mp hzero)), if_neg hdue]
      exact ⟨rfl, rfl, rfl⟩
  · rw [if_neg hrun, if_neg hrun]
    exact ⟨rfl, rfl, rfl⟩

theorem tickClock_stopwatch (model : Model) (wallUtc : ℤ) (monotonicMs : ℕ) :
    (tickClock model wallUtc monotonicMs).stopwatch =
      (advance model wallUtc monotonicMs).stopwatch := by
  rw [tickClock_eq]
  split
  · obtain ⟨-, -, -, -, -, hstopwatch, -⟩ := clearActive_same
      (recordMissed (advance model wallUtc monotonicMs) model.active .expired)
    exact hstopwatch
  · rfl

theorem clocks_of_phases {middle last : Model} (h : Phases model wallUtc monotonicMs middle last)
    (hlt : model.nextEventId < 2 ^ 64) :
    (tick model wallUtc monotonicMs).2.timer = model.timer.ticked monotonicMs ∧
      (tick model wallUtc monotonicMs).2.stopwatch =
        (advance model wallUtc monotonicMs).stopwatch ∧
      (tick model wallUtc monotonicMs).2.monotonicMs = monotonicMs := by
  obtain ⟨hlast, htimer, hstopwatch⟩ := h.same hlt
  obtain ⟨htimer', hstopwatch', hlast'⟩ := tickTimer_clocks last h.solvent.next_ne
  rw [h.tick]
  refine ⟨?_, ?_, ?_⟩
  · rw [htimer', htimer, hlast]
  · rw [hstopwatch', hstopwatch, tickClock_stopwatch]
  · rw [hlast', hlast]

theorem timerEvents_tick {middle last : Model} (h : Phases model wallUtc monotonicMs middle last)
    (hlt : model.nextEventId < 2 ^ 64) (hwall : validWall wallUtc = true)
    (hmono : model.monotonicMs ≤ monotonicMs) :
    ((tickEvents model wallUtc monotonicMs).filter (·.kind = .timer)).length =
      if model.timer.state = .running ∧ model.timer.deadlineMs ≤ monotonicMs then 1 else 0 := by
  obtain ⟨hlast, htimer, -⟩ := h.same hlt
  have hnone : ∀ snoozed rounds model', ((createdAlarms snoozed rounds model').map
      (·.event)).filter (·.kind = .timer) = [] := by
    intro snoozed rounds model'
    refine List.filter_eq_nil_iff.mpr fun event hmem => ?_
    simp [(phase_kind snoozed rounds model' event hmem).1]
  rw [h.events hwall hmono, List.filter_append, List.filter_append, hnone, hnone, List.nil_append,
    List.nil_append, createdTimer_eq h.solvent.next_ne, htimer, hlast]
  split
  · rfl
  · rfl

/-! ### Runs -/

/-- The meters agree with the model. -/
structure Meters (run : List (Step Model Call)) (model : Model) : Prop where
  inv : Inv model
  solvent : Solvent model
  timer : Countdown model.timer model.monotonicMs (ran run)
  stopwatch : Watch model.stopwatch model.monotonicMs (watched run)

theorem Meters.remaining (h : Meters run model) :
    timerRemaining model = model.timer.durationMs - ran run := by
  cases hstate : model.timer.state with
  | stopped =>
    obtain ⟨hzero, hremaining⟩ := h.timer.stopped hstate
    rw [timerRemaining, hstate, hzero, Nat.sub_zero]
    exact hremaining
  | running =>
    obtain ⟨-, hdeadline⟩ := h.timer.running hstate
    rw [timerRemaining_running hstate, hdeadline, Nat.add_sub_cancel_left]
  | paused =>
    obtain ⟨-, hremaining⟩ := h.timer.paused hstate
    rw [timerRemaining, hstate]
    exact hremaining
  | finished =>
    obtain ⟨-, hle, hremaining⟩ := h.timer.finished hstate
    rw [timerRemaining, hstate, Nat.sub_eq_zero_of_le hle]
    exact hremaining

theorem Meters.rings (h : Meters run model) {call : Call} (hcall : call.InRange) :
    (timerEvents ⟨model, call, (perform model call).2⟩).length =
      if ran run < model.timer.durationMs ∧
          model.timer.durationMs ≤ ran (run ++ [⟨model, call, (perform model call).2⟩]) then 1
      else 0 := by
  cases call with
  | tick wallUtc monotonicMs =>
    have hran : ran (run ++ [⟨model, .tick wallUtc monotonicMs,
        (tick model wallUtc monotonicMs).2⟩]) =
        if model.timer.state = .running then
          ran run + ((tick model wallUtc monotonicMs).2.monotonicMs - model.monotonicMs)
        else ran run := ran_append run _
    simp only [timerEvents, perform, hran]
    by_cases htaken : validWall wallUtc = true ∧ model.monotonicMs ≤ monotonicMs
    · obtain ⟨middle, last, hphases⟩ := exists_phases h.solvent h.inv htaken.1 htaken.2 hcall
      have hnext := h.solvent.next_lt h.inv
      obtain ⟨-, -, hnow⟩ := clocks_of_phases hphases (by omega)
      rw [timerEvents_tick hphases (by omega) htaken.1 htaken.2, hnow]
      simp only [h.timer.due_iff htaken.2]
    · obtain ⟨-, hsame, hnone⟩ := tick_refused htaken
      rw [hsame, hnone, Nat.sub_self, Nat.add_zero, ite_self, if_neg (by omega)]
      rfl
  | request request =>
    have hnow : (requestApply model request).2.monotonicMs = model.monotonicMs :=
      (effect_requestApply model request).times.2
    rw [ran_append, ranStep, delta]
    simp only [timerEvents, perform, hnow, Nat.sub_self, Nat.add_zero, ite_self]
    rw [if_neg]
    · rfl
    · split
      · omega
      · omega

end Clock
