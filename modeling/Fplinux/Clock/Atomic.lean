/-
Requests are atomic (`clock-wire.c`, `clock-model.c`).

A request that is not accepted leaves the model as it was.  Most operations
check before they write; three of them call another operation after a write or
a check of their own (`snooze`, `alarmEnable`, `timerRestart`), and there the
later checks follow from the earlier ones.

Main results:
- `Unchanged`, with one lemma for each operation;
- `atomic`: every request, and every tick that rejects its times.
-/
import Fplinux.Clock.Wire

namespace Clock

/-- An outcome that is not accepted has left `model` as it was. -/
def Unchanged (model : Model) (outcome : Status × Model) : Prop :=
  outcome.1 ≠ .ok → outcome.2 = model

theorem unchanged_failed (model : Model) (status : Status) : Unchanged model (status, model) :=
  fun _ => rfl

theorem unchanged_ok (model model' : Model) : Unchanged model (.ok, model') :=
  fun h => absurd rfl h

theorem unchanged_check {model : Model} {c : Prop} [Decidable c] {status : Status}
    {next : Status × Model} (h : ¬ c → Unchanged model next) :
    Unchanged model (if c then (status, model) else next) := by
  split
  · exact unchanged_failed _ _
  · exact h ‹_›

/-! ### Operations that check first -/

theorem unchanged_alarmAdd (model : Model) (spec : AlarmSpec) :
    Unchanged model (alarmAdd model spec) := by
  rw [alarmAdd]
  refine unchanged_check fun _ => ?_
  split
  · exact unchanged_failed _ _
  · refine unchanged_check fun _ => ?_
    refine unchanged_check fun _ => ?_
    exact unchanged_ok _ _

theorem unchanged_alarmEdit (model : Model) (id : ℕ) (spec : AlarmSpec) (cancelActive : Bool) :
    Unchanged model (alarmEdit model id spec cancelActive) := by
  rw [alarmEdit]
  refine unchanged_check fun _ => ?_
  split
  · exact unchanged_failed _ _
  · refine unchanged_check fun _ => ?_
    refine unchanged_check fun _ => ?_
    simp only
    split
    · exact unchanged_failed _ _
    · exact unchanged_ok _ _

theorem unchanged_alarmDelete (model : Model) (id : ℕ) (cancelActive : Bool) :
    Unchanged model (alarmDelete model id cancelActive) := by
  rw [alarmDelete]
  split
  · exact unchanged_failed _ _
  · refine unchanged_check fun _ => ?_
    exact unchanged_ok _ _

theorem unchanged_alarmCancelSnooze (model : Model) (id : ℕ) :
    Unchanged model (alarmCancelSnooze model id) := by
  rw [alarmCancelSnooze]
  split
  · exact unchanged_failed _ _
  · exact unchanged_ok _ _

theorem unchanged_dismiss (model : Model) (eventId : ℕ) :
    Unchanged model (dismiss model eventId) := by
  rw [dismiss]
  refine unchanged_check fun _ => ?_
  refine unchanged_check fun _ => ?_
  exact unchanged_ok _ _

theorem unchanged_setSnooze (model : Model) (minutes : ℕ) :
    Unchanged model (setSnooze model minutes) := by
  rw [setSnooze]
  refine unchanged_check fun _ => ?_
  exact unchanged_ok _ _

theorem unchanged_timerSet (model : Model) (seconds : ℕ) :
    Unchanged model (timerSet model seconds) := by
  rw [timerSet]
  refine unchanged_check fun _ => ?_
  refine unchanged_check fun _ => ?_
  exact unchanged_ok _ _

theorem unchanged_timerRun (model : Model) : Unchanged model (timerRun model) := by
  rw [timerRun]
  refine unchanged_check fun _ => ?_
  exact unchanged_ok _ _

theorem unchanged_timerStart (model : Model) : Unchanged model (timerStart model) := by
  rw [timerStart]
  refine unchanged_check fun _ => ?_
  refine unchanged_check fun _ => ?_
  exact unchanged_timerRun model

theorem unchanged_timerPause (model : Model) : Unchanged model (timerPause model) := by
  rw [timerPause]
  refine unchanged_check fun _ => ?_
  exact unchanged_ok _ _

theorem unchanged_timerResume (model : Model) : Unchanged model (timerResume model) := by
  rw [timerResume]
  refine unchanged_check fun _ => ?_
  exact unchanged_timerRun model

theorem unchanged_stopwatchStart (model : Model) : Unchanged model (stopwatchStart model) := by
  rw [stopwatchStart]
  refine unchanged_check fun _ => ?_
  exact unchanged_ok _ _

theorem unchanged_stopwatchPause (model : Model) : Unchanged model (stopwatchPause model) := by
  rw [stopwatchPause]
  refine unchanged_check fun _ => ?_
  exact unchanged_ok _ _

theorem unchanged_stopwatchLap (model : Model) : Unchanged model (stopwatchLap model) := by
  rw [stopwatchLap]
  refine unchanged_check fun _ => ?_
  refine unchanged_check fun _ => ?_
  exact unchanged_ok _ _

theorem unchanged_worldAdd (model : Model) (offsetMinutes : ℤ) :
    Unchanged model (worldAdd model offsetMinutes) := by
  rw [worldAdd]
  refine unchanged_check fun _ => ?_
  refine unchanged_check fun _ => ?_
  refine unchanged_check fun _ => ?_
  refine unchanged_check fun _ => ?_
  exact unchanged_ok _ _

theorem unchanged_worldEdit (model : Model) (id : ℕ) (offsetMinutes : ℤ) :
    Unchanged model (worldEdit model id offsetMinutes) := by
  rw [worldEdit]
  refine unchanged_check fun _ => ?_
  split
  · exact unchanged_failed _ _
  · refine unchanged_check fun _ => ?_
    exact unchanged_ok _ _

theorem unchanged_worldDelete (model : Model) (id : ℕ) :
    Unchanged model (worldDelete model id) := by
  rw [worldDelete]
  split
  · exact unchanged_failed _ _
  · exact unchanged_ok _ _

/-! ### Operations that call another -/

theorem unchanged_alarmEnable (model : Model) (id : ℕ) (enabled cancelActive : Bool) :
    Unchanged model (alarmEnable model id enabled cancelActive) := by
  rw [alarmEnable]
  split
  · exact unchanged_failed _ _
  · refine unchanged_check fun _ => ?_
    split
    · exact unchanged_ok _ _
    · exact unchanged_alarmEdit _ _ _ _

theorem unchanged_snooze (model : Model) (eventId minutes : ℕ) :
    Unchanged model (snooze model eventId minutes) := by
  simp only [snooze]
  generalize (if minutes = 0 then model.snoozeMinutes else minutes) = minutes'
  refine unchanged_check fun _ => ?_
  refine unchanged_check fun hkind => ?_
  refine unchanged_check fun hid => ?_
  refine unchanged_check fun _ => ?_
  split
  · exact unchanged_failed _ _
  · refine unchanged_check fun _ => ?_
    refine unchanged_check fun _ => ?_
    rw [dismiss, if_neg hkind, if_neg hid]
    exact unchanged_ok _ _

theorem cancelEvents_timer (model : Model) (kind : EventKind) (sourceId : ℕ) :
    (cancelEvents model kind sourceId).timer = model.timer ∧
      (cancelEvents model kind sourceId).monotonicMs = model.monotonicMs := by
  simp only [cancelEvents]
  split
  · rw [clearActive, promoteEvent]
    split
    · exact ⟨rfl, rfl⟩
    · exact ⟨rfl, rfl⟩
  · exact ⟨rfl, rfl⟩

theorem unchanged_timerRestart (model : Model) : Unchanged model (timerRestart model) := by
  rw [timerRestart]
  refine unchanged_check fun hduration => ?_
  simp only
  refine unchanged_check fun hroom => ?_
  split
  · rename_i stopped hstop
    rw [timerStop, timerSet] at hstop
    split at hstop
    · simp at hstop
    · split at hstop
      · simp at hstop
      · simp only [Prod.mk.injEq, true_and] at hstop
        obtain ⟨htimer, hmono⟩ := cancelEvents_timer
          { model with
            timer :=
              { state := .stopped
                generation := model.timer.generation + 1
                durationSeconds := model.timer.durationSeconds
                remainingMs := model.timer.durationSeconds * 1000
                deadlineMs := 0 } } .timer 0
        rw [hstop] at htimer hmono
        rw [timerStart, htimer, if_neg hduration, if_neg (by simp), timerRun, htimer, hmono,
          if_neg hroom]
        exact unchanged_ok _ _
  · exact unchanged_timerSet _ _

/-! ### Requests and ticks -/

theorem unchanged_applyChecked (model : Model) (checked : Request) :
    Unchanged model (applyChecked model checked) := by
  rw [applyChecked]
  cases checked.op with
  | snapshot => exact unchanged_ok _ _
  | save => exact unchanged_ok _ _
  | alarmAdd => exact unchanged_alarmAdd _ _
  | alarmEdit => exact unchanged_alarmEdit _ _ _ _
  | alarmEnable => exact unchanged_alarmEnable _ _ _ _
  | alarmDelete => exact unchanged_alarmDelete _ _ _
  | alarmCancelSnooze => exact unchanged_alarmCancelSnooze _ _
  | dismiss => exact unchanged_dismiss _ _
  | snooze => exact unchanged_snooze _ _ _
  | timerSet => exact unchanged_timerSet _ _
  | timerStart => exact unchanged_timerStart _
  | timerPause => exact unchanged_timerPause _
  | timerResume => exact unchanged_timerResume _
  | timerStop => exact unchanged_timerSet _ _
  | timerRestart => exact unchanged_timerRestart _
  | stopwatchStart => exact unchanged_stopwatchStart _
  | stopwatchPause => exact unchanged_stopwatchPause _
  | stopwatchReset => exact unchanged_ok _ _
  | stopwatchLap => exact unchanged_stopwatchLap _
  | worldAdd => exact unchanged_worldAdd _ _
  | worldEdit => exact unchanged_worldEdit _ _ _
  | worldDelete => exact unchanged_worldDelete _ _
  | setView => exact unchanged_ok _ _
  | setSnooze => exact unchanged_setSnooze _ _
  | clearMissed => exact unchanged_ok _ _

theorem unchanged_requestApply (model : Model) (request : Request) :
    Unchanged model (requestApply model request) := by
  rw [requestApply]
  split
  · exact unchanged_failed _ _
  · refine unchanged_check fun _ => ?_
    exact unchanged_applyChecked _ _

theorem tickAlarms_status (snoozed : Bool) (rounds : ℕ) (model : Model) :
    (tickAlarms snoozed rounds model).1 = .ok ∨ (tickAlarms snoozed rounds model).1 = .exhausted := by
  induction rounds generalizing model with
  | zero => exact .inl rfl
  | succ rounds ih =>
    rw [tickAlarms]
    split
    · exact .inl rfl
    · exact .inr rfl
    · exact ih _

theorem tickTimer_status (model : Model) :
    (tickTimer model).1 = .ok ∨ (tickTimer model).1 = .exhausted := by
  rw [tickTimer]
  split
  · simp only
    split
    · split
      · exact .inr rfl
      · exact .inl rfl
    · exact .inl rfl
  · exact .inl rfl

theorem tick_status {model : Model} {wallUtc : ℤ} {monotonicMs : ℕ}
    (hwall : validWall wallUtc = true) (hmono : model.monotonicMs ≤ monotonicMs) :
    (tick model wallUtc monotonicMs).1 = .ok ∨ (tick model wallUtc monotonicMs).1 = .exhausted := by
  rw [tick, if_neg (by simp [hwall]), if_neg (by omega)]
  simp only
  split
  · split
    · exact tickTimer_status _
    · exact tickAlarms_status _ _ _
  · exact tickAlarms_status _ _ _

/-- **Requests are atomic**: whatever is not accepted has no effect, and so has a
tick with a wall time out of range or a monotonic time that goes back. -/
theorem atomic (model : Model) :
    (∀ request, (requestApply model request).1 ≠ .ok → (requestApply model request).2 = model) ∧
      ∀ wallUtc monotonicMs,
        (tick model wallUtc monotonicMs).1 = .invalid ∨
          (tick model wallUtc monotonicMs).1 = .timeBackward →
        (tick model wallUtc monotonicMs).2 = model := by
  refine ⟨fun request => unchanged_requestApply model request, ?_⟩
  intro wallUtc monotonicMs hstatus
  by_cases hwall : validWall wallUtc = true
  · by_cases hmono : model.monotonicMs ≤ monotonicMs
    · rcases tick_status hwall hmono with hok | hex
      · rw [hok] at hstatus
        simp at hstatus
      · rw [hex] at hstatus
        simp at hstatus
    · rw [tick, if_neg (by simp [hwall]), if_pos (by omega)]
  · rw [tick, if_pos (by simpa using hwall)]

/-- Adding an alarm with no ids left, and a tick before 1980. -/
theorem atomic_exhausted :
    ∃ model, init 1700000040 0 = some model ∧
      (requestApply { model with nextAlarmId := 0 }
        { Request.zero with
          op := .alarmAdd
          alarm := ⟨[], .weekly, 0, 7, 0, 1, true⟩ }).2 = { model with nextAlarmId := 0 } ∧
      (tick model 0 1).2 = model :=
  ⟨_, rfl, (atomic _).1 _ (by decide), (atomic _).2 _ _ (.inl (by decide))⟩

end Clock
