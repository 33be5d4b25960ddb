/-
What a request does to the model (`clock-model.c`).

A request leaves the times and the event ids alone.  What it may do to the rows,
to the ring slot with its queue and the missed history, to the timer and to the
stopwatch is listed once, in `RowsEffect`, `SlotsEffect`, `TimerEffect` and
`StopwatchEffect`; facts about runs are derived from these lists.

Main results:
- one lemma for each operation that a request can name;
- `effect_requestApply`: every request.
-/
import Fplinux.Clock.Accounts
import Fplinux.Clock.Atomic
import Fplinux.Clock.RequestRoundTrip

namespace Clock

/-! ### Effects -/

/-- No event more is held; a ring is the same or starts now. -/
structure SlotsEffect (model model' : Model) : Prop where
  held_le : held model' ≤ held model
  started : model'.active.kind ≠ .none →
    model'.active = model.active ∨ model'.active.ringStartedMs = model.monotonicMs

/-- The rows and the next id after a request at the time `monotonicMs`. -/
inductive RowsEffect (monotonicMs : ℕ) (rows : List Alarm) (nextAlarmId : ℕ) :
    List Alarm → ℕ → Prop
  | same : RowsEffect monotonicMs rows nextAlarmId rows nextAlarmId
  /-- A new row, with an id of its own. -/
  | add {alarm : Alarm} (hne : nextAlarmId ≠ 0) (hlast : alarm.lastDueUtc = 0)
      (hsnoozed : alarm.snoozed = false) :
      RowsEffect monotonicMs rows nextAlarmId (rows ++ [alarm]) (Word.add 32 nextAlarmId 1)
  /-- Another alarm in a row, with the same last occurrence. -/
  | set {index : ℕ} {alarm alarm' : Alarm} (hget : rows[index]? = some alarm)
      (hlast : alarm'.lastDueUtc = alarm.lastDueUtc)
      (hsnoozed : alarm'.snoozed = true → monotonicMs + 60000 ≤ alarm'.snoozeDeadlineMs ∧
        alarm'.snoozeDeadlineMs ≤ monotonicMs + 30 * 60000) :
      RowsEffect monotonicMs rows nextAlarmId (rows.set index alarm') nextAlarmId
  | erase (index : ℕ) :
      RowsEffect monotonicMs rows nextAlarmId (rows.eraseIdx index) nextAlarmId

/-- The timer after a request, and whether its duration was set anew. -/
inductive TimerEffect (monotonicMs : ℕ) (timer : Timer) : Bool → Timer → Prop
  | same : TimerEffect monotonicMs timer false timer
  | set (seconds : ℕ) :
      TimerEffect monotonicMs timer true
        ⟨.stopped, timer.generation + 1, seconds, seconds * 1000, 0⟩
  /-- A timer with a duration starts, or a paused one goes on. -/
  | run (hstate : timer.state = .stopped ∧ timer.durationSeconds ≠ 0 ∨ timer.state = .paused) :
      TimerEffect monotonicMs timer false
        { timer with deadlineMs := monotonicMs + timer.remainingMs, state := .running }
  | pause (hstate : timer.state = .running) :
      TimerEffect monotonicMs timer false
        { timer with
          remainingMs := timer.deadlineMs - monotonicMs
          deadlineMs := 0
          state := .paused }
  | restart (hne : timer.durationSeconds ≠ 0) :
      TimerEffect monotonicMs timer true
        ⟨.running, timer.generation + 1, timer.durationSeconds, timer.durationSeconds * 1000,
          monotonicMs + timer.durationSeconds * 1000⟩

/-- The time of the last lap, zero before the first. -/
def lastLap (laps : List Lap) : ℕ := (laps.getLast?.map (·.elapsedMs)).getD 0

/-- The stopwatch after a request, and whether it was reset. -/
inductive StopwatchEffect (stopwatch : Stopwatch) : Bool → Stopwatch → Prop
  | same : StopwatchEffect stopwatch false stopwatch
  | run (running : Bool) : StopwatchEffect stopwatch false { stopwatch with running := running }
  | reset : StopwatchEffect stopwatch true ⟨false, 0, []⟩
  | lap :
      StopwatchEffect stopwatch false
        { stopwatch with
          laps := stopwatch.laps ++
            [⟨stopwatch.elapsedMs, Word.sub 64 stopwatch.elapsedMs (lastLap stopwatch.laps)⟩] }

/-- What a request may do; the flags say whether it sets the timer anew and
whether it resets the stopwatch. -/
structure Effect (setsTimer resetsStopwatch : Bool) (model model' : Model) : Prop where
  times : model'.wallUtc = model.wallUtc ∧ model'.monotonicMs = model.monotonicMs
  next : model'.nextEventId = model.nextEventId
  slots : SlotsEffect model model'
  rows : RowsEffect model.monotonicMs model.alarms model.nextAlarmId model'.alarms
    model'.nextAlarmId
  timer : TimerEffect model.monotonicMs model.timer setsTimer model'.timer
  stopwatch : StopwatchEffect model.stopwatch resetsStopwatch model'.stopwatch

/-! ### The ring slot and the queue -/

variable {model : Model}

theorem slotsEffect_same {model' : Model} (hactive : model'.active = model.active)
    (hqueue : model'.queue = model.queue) (htotal : model'.missedTotal ≤ model.missedTotal) :
    SlotsEffect model model' where
  held_le := by
    rw [held, held, hactive, hqueue]
    omega
  started _ := .inl hactive

theorem clearActive_slots (model : Model) :
    ∃ active queue, clearActive model = { model with active := active, queue := queue } ∧
      SlotsEffect model { model with active := active, queue := queue } := by
  cases hqueue : model.queue with
  | nil =>
    refine ⟨Event.zero, [], ?_, ?_, fun hkind => absurd rfl hkind⟩
    · simp only [clearActive, promoteEvent, Event.zero, hqueue]
    · simp [held, Event.zero, hqueue]
  | cons event rest =>
    refine ⟨{ event with ringStartedMs := model.monotonicMs }, rest, ?_, ?_, fun _ => .inr rfl⟩
    · simp only [clearActive, promoteEvent, Event.zero, hqueue]
    · simp only [held, hqueue, List.length_cons]
      split_ifs
      all_goals omega

theorem cancelEvents_slots (model : Model) (kind : EventKind) (sourceId : ℕ) :
    ∃ active queue, cancelEvents model kind sourceId =
        { model with active := active, queue := queue } ∧
      SlotsEffect model { model with active := active, queue := queue } := by
  rw [cancelEvents]
  simp only
  generalize hqueue : model.queue.filter _ = queue
  have hle : queue.length ≤ model.queue.length := by
    rw [← hqueue]
    exact List.length_filter_le _ _
  have hkept : held { model with queue := queue } ≤ held model := by
    simp only [held]
    omega
  split
  · obtain ⟨active, queue', heq, hslots⟩ := clearActive_slots { model with queue := queue }
    exact ⟨active, queue', heq, Nat.le_trans hslots.held_le hkept, hslots.started⟩
  · exact ⟨model.active, queue, rfl, hkept, fun _ => .inl rfl⟩

/-! ### Operations on the rows -/

theorem effect_same {model' : Model}
    (htimes : model'.wallUtc = model.wallUtc ∧ model'.monotonicMs = model.monotonicMs)
    (hnext : model'.nextEventId = model.nextEventId) (hslots : SlotsEffect model model')
    (hrows : model'.alarms = model.alarms ∧ model'.nextAlarmId = model.nextAlarmId)
    (htimer : model'.timer = model.timer) (hstopwatch : model'.stopwatch = model.stopwatch) :
    Effect false false model model' where
  times := htimes
  next := hnext
  slots := hslots
  rows := by
    rw [hrows.1, hrows.2]
    exact .same
  timer := by
    rw [htimer]
    exact .same
  stopwatch := by
    rw [hstopwatch]
    exact .same

theorem effect_refl (model : Model) : Effect false false model model :=
  effect_same ⟨rfl, rfl⟩ rfl (slotsEffect_same rfl rfl (Nat.le_refl _)) ⟨rfl, rfl⟩ rfl rfl

theorem effect_alarmAdd (model : Model) (spec : AlarmSpec) :
    Effect false false model (alarmAdd model spec).2 := by
  rw [alarmAdd]
  refine kept_check (effect_refl model) fun hvalid => ?_
  split
  · exact effect_refl model
  · rename_i due hdue
    refine kept_check (effect_refl model) fun _ => ?_
    refine kept_check (effect_refl model) fun hne => ?_
    obtain ⟨hour, minute, heq, -⟩ := rememberAlarmTime_spec
      { model with
        alarms := model.alarms ++ [⟨model.nextAlarmId, 1, spec, due, 0, false, 0⟩]
        nextAlarmId := Word.add 32 model.nextAlarmId 1 } (by simpa using hvalid)
    simp only
    rw [heq]
    exact
      { times := ⟨rfl, rfl⟩
        next := rfl
        slots := slotsEffect_same rfl rfl (Nat.le_refl _)
        rows := .add hne rfl rfl
        timer := .same
        stopwatch := .same }

theorem effect_alarmEdit (model : Model) (id : ℕ) (spec : AlarmSpec) (cancelActive : Bool) :
    Effect false false model (alarmEdit model id spec cancelActive).2 := by
  rw [alarmEdit]
  refine kept_check (effect_refl model) fun hvalid => ?_
  split
  · exact effect_refl model
  · rename_i index alarm hfind
    refine kept_check (effect_refl model) fun _ => ?_
    refine kept_check (effect_refl model) fun _ => ?_
    simp only
    split
    · exact effect_refl model
    · rename_i due hdue
      let edited : Model :=
        { model with
          alarms := model.alarms.set index
            { alarm with
              spec := spec
              generation := alarm.generation + 1
              snoozed := false
              snoozeDeadlineMs := 0
              nextDueUtc := due } }
      obtain ⟨hour, minute, heq, -⟩ := rememberAlarmTime_spec edited (by simpa using hvalid)
      rw [heq]
      obtain ⟨active, queue, heq', hslots⟩ := cancelEvents_slots
        { edited with lastAlarmHour := hour, lastAlarmMinute := minute } .alarm id
      rw [heq']
      exact
        { times := ⟨rfl, rfl⟩
          next := rfl
          slots := ⟨hslots.held_le, hslots.started⟩
          rows := .set (findAlarm_some hfind).1 rfl (by simp)
          timer := .same
          stopwatch := .same }

theorem effect_alarmEnable (model : Model) (id : ℕ) (enabled cancelActive : Bool) :
    Effect false false model (alarmEnable model id enabled cancelActive).2 := by
  rw [alarmEnable]
  split
  · exact effect_refl model
  · refine kept_check (effect_refl model) fun _ => ?_
    refine kept_check (effect_refl model) fun _ => ?_
    exact effect_alarmEdit model _ _ _

theorem effect_alarmDelete (model : Model) (id : ℕ) (cancelActive : Bool) :
    Effect false false model (alarmDelete model id cancelActive).2 := by
  rw [alarmDelete]
  split
  · exact effect_refl model
  · rename_i index alarm hfind
    refine kept_check (effect_refl model) fun _ => ?_
    obtain ⟨active, queue, heq, hslots⟩ := cancelEvents_slots model .alarm id
    simp only
    rw [heq]
    exact
      { times := ⟨rfl, rfl⟩
        next := rfl
        slots := ⟨hslots.held_le, hslots.started⟩
        rows := .erase index
        timer := .same
        stopwatch := .same }

theorem effect_alarmCancelSnooze (model : Model) (id : ℕ) :
    Effect false false model (alarmCancelSnooze model id).2 := by
  rw [alarmCancelSnooze]
  split
  · exact effect_refl model
  · rename_i index alarm hfind
    exact
      { times := ⟨rfl, rfl⟩
        next := rfl
        slots := slotsEffect_same rfl rfl (Nat.le_refl _)
        rows := .set (findAlarm_some hfind).1 rfl (by simp)
        timer := .same
        stopwatch := .same }

theorem effect_dismiss (model : Model) (eventId : ℕ) :
    Effect false false model (dismiss model eventId).2 := by
  rw [dismiss]
  refine kept_check (effect_refl model) fun _ => ?_
  refine kept_check (effect_refl model) fun _ => ?_
  obtain ⟨active, queue, heq, hslots⟩ := clearActive_slots model
  simp only
  rw [heq]
  exact effect_same ⟨rfl, rfl⟩ rfl hslots ⟨rfl, rfl⟩ rfl rfl

theorem effect_snooze (model : Model) (eventId minutes : ℕ) :
    Effect false false model (snooze model eventId minutes).2 := by
  simp only [snooze]
  generalize (if minutes = 0 then model.snoozeMinutes else minutes) = minutes'
  refine kept_check (effect_refl model) fun hminutes => ?_
  refine kept_check (effect_refl model) fun hkind => ?_
  refine kept_check (effect_refl model) fun hid => ?_
  refine kept_check (effect_refl model) fun _ => ?_
  split
  · exact effect_refl model
  · rename_i index alarm hfind
    refine kept_check (effect_refl model) fun _ => ?_
    refine kept_check (effect_refl model) fun _ => ?_
    obtain ⟨active, queue, heq, hslots⟩ := clearActive_slots
      { model with
        alarms := model.alarms.set index
          { alarm with
            snoozed := true
            snoozeDeadlineMs := model.monotonicMs + minutes' * 60000 } }
    rw [dismiss, if_neg hkind, if_neg hid]
    simp only
    rw [heq]
    exact
      { times := ⟨rfl, rfl⟩
        next := rfl
        slots := ⟨hslots.held_le, hslots.started⟩
        rows := .set (findAlarm_some hfind).1 rfl fun _ => ⟨by simp only; omega, by simp only; omega⟩
        timer := .same
        stopwatch := .same }

/-! ### Operations on the timer -/

theorem effect_timer {timer : Timer} {active : Event} {queue : List Event} {setsTimer : Bool}
    (hslots : SlotsEffect model { model with active := active, queue := queue })
    (htimer : TimerEffect model.monotonicMs model.timer setsTimer timer) :
    Effect setsTimer false model
      { model with timer := timer, active := active, queue := queue } where
  times := ⟨rfl, rfl⟩
  next := rfl
  slots := ⟨hslots.held_le, hslots.started⟩
  rows := .same
  timer := htimer
  stopwatch := .same

theorem effect_timerSet (model : Model) (seconds : ℕ) :
    Effect (decide ((timerSet model seconds).1 = .ok)) false model (timerSet model seconds).2 := by
  rw [timerSet]
  split
  · exact effect_refl model
  · split
    · exact effect_refl model
    · obtain ⟨active, queue, heq, hslots⟩ := cancelEvents_slots
        { model with timer := ⟨.stopped, model.timer.generation + 1, seconds, seconds * 1000, 0⟩ }
        .timer 0
      simp only
      rw [heq]
      exact effect_timer ⟨hslots.held_le, hslots.started⟩ (.set seconds)

theorem effect_timerRun
    (hstate : model.timer.state = .stopped ∧ model.timer.durationSeconds ≠ 0 ∨
      model.timer.state = .paused) :
    Effect false false model (timerRun model).2 := by
  rw [timerRun]
  refine kept_check (effect_refl model) fun _ => ?_
  exact effect_timer (slotsEffect_same rfl rfl (Nat.le_refl _)) (.run hstate)

theorem effect_timerStart (model : Model) : Effect false false model (timerStart model).2 := by
  rw [timerStart]
  refine kept_check (effect_refl model) fun hduration => ?_
  refine kept_check (effect_refl model) fun hstate => ?_
  exact effect_timerRun (.inl ⟨not_not.mp hstate, hduration⟩)

theorem effect_timerResume (model : Model) : Effect false false model (timerResume model).2 := by
  rw [timerResume]
  refine kept_check (effect_refl model) fun hstate => ?_
  exact effect_timerRun (.inr (not_not.mp hstate))

theorem timerRemaining_running {model : Model} (h : model.timer.state = .running) :
    timerRemaining model = model.timer.deadlineMs - model.monotonicMs := by
  rw [timerRemaining, h]
  simp only
  split
  · rfl
  · omega

theorem effect_timerPause (model : Model) : Effect false false model (timerPause model).2 := by
  rw [timerPause]
  refine kept_check (effect_refl model) fun hstate => ?_
  rw [timerRemaining_running (not_not.mp hstate)]
  exact effect_timer (slotsEffect_same rfl rfl (Nat.le_refl _)) (.pause (not_not.mp hstate))

theorem timerStart_ok {model : Model} (hduration : model.timer.durationSeconds ≠ 0)
    (hstate : model.timer.state = .stopped)
    (hroom : ¬ model.timer.remainingMs > Word.maxVal 64 - model.monotonicMs) :
    timerStart model =
      (.ok,
        { model with
          timer :=
            { model.timer with
              deadlineMs := model.monotonicMs + model.timer.remainingMs
              state := .running } }) := by
  rw [timerStart, if_neg hduration, if_neg (not_not.mpr hstate), timerRun, if_neg hroom]

theorem effect_timerRestart (model : Model) :
    Effect (decide ((timerRestart model).1 = .ok)) false model (timerRestart model).2 := by
  by_cases hok : (timerRestart model).1 = .ok
  · rw [decide_eq_true hok]
    rw [timerRestart] at hok ⊢
    split
    · rename_i hzero
      simp [hzero] at hok
    · rename_i hduration
      simp only [hduration, if_false] at hok ⊢
      split
      · rename_i hfull
        simp [hfull] at hok
      · rename_i hroom
        simp only [hroom, if_false] at hok
        cases hstop : timerStop model with
        | mk status stopped =>
          rw [hstop] at hok
          cases status with
          | ok =>
            rw [timerStop, timerSet] at hstop
            split at hstop
            · simp at hstop
            · split at hstop
              · simp at hstop
              · let reset : Model :=
                  { model with
                    timer :=
                      { state := .stopped
                        generation := model.timer.generation + 1
                        durationSeconds := model.timer.durationSeconds
                        remainingMs := model.timer.durationSeconds * 1000
                        deadlineMs := 0 } }
                obtain ⟨active, queue, heq, hslots⟩ := cancelEvents_slots reset .timer 0
                have hstart := @timerStart_ok { reset with active := active, queue := queue }
                  hduration rfl hroom
                simp only [Prod.mk.injEq, true_and] at hstop
                simp only
                rw [← hstop, heq, hstart]
                exact effect_timer ⟨hslots.held_le, hslots.started⟩ (.restart hduration)
          | _ => simp at hok
  · rw [decide_eq_false hok, unchanged_timerRestart model hok]
    exact effect_refl model

/-! ### Other operations -/

theorem effect_stopwatch {stopwatch : Stopwatch} {resetsStopwatch : Bool}
    (h : StopwatchEffect model.stopwatch resetsStopwatch stopwatch) :
    Effect false resetsStopwatch model { model with stopwatch := stopwatch } where
  times := ⟨rfl, rfl⟩
  next := rfl
  slots := slotsEffect_same rfl rfl (Nat.le_refl _)
  rows := .same
  timer := .same
  stopwatch := h

theorem effect_stopwatchStart (model : Model) :
    Effect false false model (stopwatchStart model).2 := by
  rw [stopwatchStart]
  refine kept_check (effect_refl model) fun _ => ?_
  exact effect_stopwatch (.run true)

theorem effect_stopwatchPause (model : Model) :
    Effect false false model (stopwatchPause model).2 := by
  rw [stopwatchPause]
  refine kept_check (effect_refl model) fun _ => ?_
  exact effect_stopwatch (.run false)

theorem effect_stopwatchLap (model : Model) :
    Effect false false model (stopwatchLap model).2 := by
  rw [stopwatchLap]
  refine kept_check (effect_refl model) fun _ => ?_
  refine kept_check (effect_refl model) fun _ => ?_
  exact effect_stopwatch .lap

theorem effect_world (model : Model) (world : List WorldEntry) (nextWorldId : ℕ) :
    Effect false false model { model with world := world, nextWorldId := nextWorldId } :=
  effect_same ⟨rfl, rfl⟩ rfl (slotsEffect_same rfl rfl (Nat.le_refl _)) ⟨rfl, rfl⟩ rfl rfl

theorem effect_worldAdd (model : Model) (offsetMinutes : ℤ) :
    Effect false false model (worldAdd model offsetMinutes).2 := by
  rw [worldAdd]
  split_ifs
  · exact effect_refl model
  · exact effect_refl model
  · exact effect_refl model
  · exact effect_refl model
  · exact effect_world model _ _

theorem effect_worldEdit (model : Model) (id : ℕ) (offsetMinutes : ℤ) :
    Effect false false model (worldEdit model id offsetMinutes).2 := by
  rw [worldEdit]
  refine kept_check (effect_refl model) fun _ => ?_
  split
  · exact effect_refl model
  · refine kept_check (effect_refl model) fun _ => ?_
    exact effect_world model _ _

theorem effect_worldDelete (model : Model) (id : ℕ) :
    Effect false false model (worldDelete model id).2 := by
  rw [worldDelete]
  split
  · exact effect_refl model
  · exact effect_world model _ _

theorem effect_setSnooze (model : Model) (minutes : ℕ) :
    Effect false false model (setSnooze model minutes).2 := by
  rw [setSnooze]
  refine kept_check (effect_refl model) fun _ => ?_
  exact effect_same ⟨rfl, rfl⟩ rfl (slotsEffect_same rfl rfl (Nat.le_refl _)) ⟨rfl, rfl⟩ rfl rfl

/-! ### Requests -/

/-- The operations that set the timer anew when they succeed. -/
def RequestOp.setsTimer : RequestOp → Bool
  | .timerSet | .timerStop | .timerRestart => true
  | _ => false

/-- The operation that resets the stopwatch when it succeeds. -/
def RequestOp.resetsStopwatch : RequestOp → Bool
  | .stopwatchReset => true
  | _ => false

theorem effect_applyChecked (model : Model) (checked : Request) :
    Effect (checked.op.setsTimer && decide ((applyChecked model checked).1 = .ok))
      (checked.op.resetsStopwatch && decide ((applyChecked model checked).1 = .ok)) model
      (applyChecked model checked).2 := by
  rw [applyChecked]
  cases checked.op with
  | snapshot => exact effect_refl model
  | save => exact effect_refl model
  | alarmAdd => exact effect_alarmAdd model _
  | alarmEdit => exact effect_alarmEdit model _ _ _
  | alarmEnable => exact effect_alarmEnable model _ _ _
  | alarmDelete => exact effect_alarmDelete model _ _
  | alarmCancelSnooze => exact effect_alarmCancelSnooze model _
  | dismiss => exact effect_dismiss model _
  | snooze => exact effect_snooze model _ _
  | timerSet => exact effect_timerSet model _
  | timerStart => exact effect_timerStart model
  | timerPause => exact effect_timerPause model
  | timerResume => exact effect_timerResume model
  | timerStop => exact effect_timerSet model _
  | timerRestart => exact effect_timerRestart model
  | stopwatchStart => exact effect_stopwatchStart model
  | stopwatchPause => exact effect_stopwatchPause model
  | stopwatchReset => exact effect_stopwatch .reset
  | stopwatchLap => exact effect_stopwatchLap model
  | worldAdd => exact effect_worldAdd model _
  | worldEdit => exact effect_worldEdit model _ _
  | worldDelete => exact effect_worldDelete model _
  | setView =>
    exact effect_same ⟨rfl, rfl⟩ rfl (slotsEffect_same rfl rfl (Nat.le_refl _)) ⟨rfl, rfl⟩ rfl rfl
  | setSnooze => exact effect_setSnooze model _
  | clearMissed =>
    exact effect_same ⟨rfl, rfl⟩ rfl (slotsEffect_same rfl rfl (Nat.zero_le _)) ⟨rfl, rfl⟩ rfl rfl

/-- **What a request does**: it sets the timer anew, or resets the stopwatch, when
it succeeds and its operation does. -/
theorem effect_requestApply (model : Model) (request : Request) :
    Effect (request.op.setsTimer && decide ((requestApply model request).1 = .ok))
      (request.op.resetsStopwatch && decide ((requestApply model request).1 = .ok)) model
      (requestApply model request).2 := by
  have hrefused : Effect (request.op.setsTimer && decide (Status.invalid = Status.ok))
      (request.op.resetsStopwatch && decide (Status.invalid = Status.ok)) model model := by
    simp only [reduceCtorEq, decide_false, Bool.and_false]
    exact effect_refl model
  rw [requestApply]
  cases hread : readRequest (makeRequest request) with
  | none => exact hrefused
  | some checked =>
    have hop : request.op = checked.op := by
      rw [(readRequest_inv hread).1, kept_op]
    simp only
    split
    · exact hrefused
    · rw [hop]
      exact effect_applyChecked model checked

end Clock
