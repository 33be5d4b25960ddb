/-
No alarm occurrence rings twice (`clock-model.c`, `clock-wire.c`).

The owner is looked at with a log of the events its ticks create, each with the
alarm as it was.  A run interleaves ticks at any wall time, requests, and
restarts that store the preferences and restore them into a fresh model.  What
carries the argument: an id is never given out twice, and the last occurrence of
a row never moves back (`Keeps`).

Main results:
- `LogOk.created`: what one round of a tick adds to the log;
- `keeps_requestApply`, `keeps_restored`: requests and restarts keep the rows;
- `noReplay_of_reachable`: due times strictly increase for every alarm id.
-/
import Fplinux.Clock.Preferences

namespace Clock

/-! ### The log -/

/-- An event and the alarm it was created for, as it was. -/
structure Entry where
  alarm : Alarm
  event : Event

/-- The entries of `tickAlarms`, round by round. -/
def createdAlarms (snoozed : Bool) : ℕ → Model → List Entry
  | 0, _ => []
  | rounds + 1, model =>
    match tickAlarm model snoozed with
    | .created due event model' => ⟨due, event⟩ :: createdAlarms snoozed rounds model'
    | _ => []

/-- The entries of a tick: scheduled alarms, then snoozed ones. -/
def createdTick (model : Model) (wallUtc : ℤ) (monotonicMs : ℕ) : List Entry :=
  if !validWall wallUtc then []
  else if monotonicMs < model.monotonicMs then []
  else
    let model := tickClock model wallUtc monotonicMs
    createdAlarms false model.alarms.length model ++
      match tickAlarms false model.alarms.length model with
      | (.ok, model) => createdAlarms true model.alarms.length model
      | _ => []

def created (model : Model) : Call → List Entry
  | .tick wallUtc monotonicMs => createdTick model wallUtc monotonicMs
  | .request _ => []

/-- The scheduled entries of a log. -/
def scheduled (log : List Entry) : List Entry := log.filter fun entry => !entry.event.snoozed

/-- Due times increase for every alarm id, and each is an occurrence of the
schedule the alarm had. -/
structure NoReplay (log : List Entry) : Prop where
  increasing : (scheduled log).Pairwise fun entry later =>
    entry.event.sourceId = later.event.sourceId → entry.event.dueWallUtc < later.event.dueWallUtc
  occurs : ∀ entry ∈ scheduled log, entry.event.kind = .alarm ∧
    entry.event.sourceId = entry.alarm.id ∧ Occurs entry.alarm.spec entry.event.dueWallUtc

/-- The log against the rows: every id in it was given out, and a row with that
id has rung at least as late. -/
structure LogOk (model : Model) (log : List Entry) : Prop where
  noReplay : NoReplay log
  below : ∀ entry ∈ scheduled log, model.nextAlarmId ≠ 0 → entry.event.sourceId < model.nextAlarmId
  rung : ∀ entry ∈ scheduled log, ∀ alarm ∈ model.alarms, alarm.id = entry.event.sourceId →
    entry.event.dueWallUtc ≤ alarm.lastDueUtc

/-! ### Rows that stay or are new -/

/-- Every row was there before and has rung no earlier since, or has a new id. -/
structure Keeps (model model' : Model) : Prop where
  rows : ∀ alarm' ∈ model'.alarms,
    (∃ alarm ∈ model.alarms, alarm.id = alarm'.id ∧ alarm.lastDueUtc ≤ alarm'.lastDueUtc) ∨
      model.nextAlarmId ≠ 0 ∧ model.nextAlarmId ≤ alarm'.id
  next : model'.nextAlarmId ≠ 0 → model.nextAlarmId ≠ 0 ∧ model.nextAlarmId ≤ model'.nextAlarmId

variable {model model' : Model} {log : List Entry} {due : Alarm} {entry : Entry} {owner : Owner}
  {tokener : Tokener}

theorem keeps_of_eq (halarms : model'.alarms = model.alarms)
    (hnext : model'.nextAlarmId = model.nextAlarmId) : Keeps model model' where
  rows alarm' hmem := by
    rw [halarms] at hmem
    exact .inl ⟨alarm', hmem, rfl, Int.le_refl _⟩
  next hne := by
    rw [hnext] at hne ⊢
    exact ⟨hne, Nat.le_refl _⟩

theorem Keeps.refl (model : Model) : Keeps model model := keeps_of_eq rfl rfl

theorem Keeps.trans {a b c : Model} (hab : Keeps a b) (hbc : Keeps b c) : Keeps a c where
  rows alarm'' hmem := by
    rcases hbc.rows alarm'' hmem with ⟨alarm', hmem', hid', hle'⟩ | ⟨hne, hle⟩
    · rcases hab.rows alarm' hmem' with ⟨alarm, hold, hid, hle⟩ | ⟨hne, hle⟩
      · exact .inl ⟨alarm, hold, hid.trans hid', Int.le_trans hle hle'⟩
      · exact .inr ⟨hne, hid' ▸ hle⟩
    · obtain ⟨hne', hle'⟩ := hab.next hne
      exact .inr ⟨hne', Nat.le_trans hle' hle⟩
  next hne := by
    obtain ⟨hne', hle'⟩ := hbc.next hne
    obtain ⟨hne'', hle''⟩ := hab.next hne'
    exact ⟨hne'', Nat.le_trans hle'' hle'⟩

theorem keeps_set {index : ℕ} {alarm : Alarm} (alarm' : Alarm)
    (hget : model.alarms[index]? = some alarm) (hid : alarm'.id = alarm.id)
    (hlast : alarm.lastDueUtc ≤ alarm'.lastDueUtc)
    (halarms : model'.alarms = model.alarms.set index alarm')
    (hnext : model'.nextAlarmId = model.nextAlarmId) : Keeps model model' where
  rows other hmem := by
    rw [halarms] at hmem
    rcases List.mem_or_eq_of_mem_set hmem with hold | rfl
    · exact .inl ⟨other, hold, rfl, Int.le_refl _⟩
    · exact .inl ⟨alarm, List.mem_of_getElem? hget, hid.symm, hlast⟩
  next hne := by
    rw [hnext] at hne ⊢
    exact ⟨hne, Nat.le_refl _⟩

theorem LogOk.keeps (h : LogOk model log) (hkeeps : Keeps model model') : LogOk model' log where
  noReplay := h.noReplay
  below entry hmem hne := by
    obtain ⟨hne', hle⟩ := hkeeps.next hne
    exact Nat.lt_of_lt_of_le (h.below entry hmem hne') hle
  rung entry hmem alarm' halarm' hid := by
    rcases hkeeps.rows alarm' halarm' with ⟨alarm, halarm, hsame, hle⟩ | ⟨hne, hle⟩
    · exact Int.le_trans (h.rung entry hmem alarm halarm (hsame.trans hid)) hle
    · -- A new id is not in the log yet.
      have hlt := h.below entry hmem hne
      omega

/-! ### Frames -/

@[simp] theorem promoteEvent_rows (model : Model) :
    (promoteEvent model).alarms = model.alarms ∧
      (promoteEvent model).nextAlarmId = model.nextAlarmId := by
  rw [promoteEvent]
  split
  · exact ⟨rfl, rfl⟩
  · exact ⟨rfl, rfl⟩

@[simp] theorem clearActive_rows (model : Model) :
    (clearActive model).alarms = model.alarms ∧
      (clearActive model).nextAlarmId = model.nextAlarmId :=
  promoteEvent_rows { model with active := Event.zero }

@[simp] theorem cancelEvents_rows (model : Model) (kind : EventKind) (sourceId : ℕ) :
    (cancelEvents model kind sourceId).alarms = model.alarms ∧
      (cancelEvents model kind sourceId).nextAlarmId = model.nextAlarmId := by
  rw [cancelEvents]
  simp only
  split
  · exact clearActive_rows _
  · exact ⟨rfl, rfl⟩

@[simp] theorem rememberAlarmTime_rows (model : Model) (spec : AlarmSpec) :
    (rememberAlarmTime model spec).alarms = model.alarms ∧
      (rememberAlarmTime model spec).nextAlarmId = model.nextAlarmId := by
  rw [rememberAlarmTime]
  split
  · exact ⟨rfl, rfl⟩
  · exact ⟨rfl, rfl⟩

@[simp] theorem submitEvent_rows (model : Model) (event : Event) (late : Bool) :
    (submitEvent model event late).alarms = model.alarms ∧
      (submitEvent model event late).nextAlarmId = model.nextAlarmId := by
  rw [submitEvent]
  split
  · exact ⟨rfl, rfl⟩
  · split
    · exact ⟨rfl, rfl⟩
    · split
      · exact ⟨rfl, rfl⟩
      · exact ⟨rfl, rfl⟩

/-! ### Requests -/

theorem keeps_alarmAdd (model : Model) (h : AlarmsOk model.alarms model.nextAlarmId)
    (spec : AlarmSpec) : Keeps model (alarmAdd model spec).2 := by
  rw [alarmAdd]
  refine kept_check (Keeps.refl _) fun _ => ?_
  split
  · exact Keeps.refl _
  · refine kept_check (Keeps.refl _) fun _ => ?_
    refine kept_check (Keeps.refl _) fun _ => ?_
    rename_i due _ _ hne
    refine ⟨?_, ?_⟩
    · intro alarm' hmem
      simp only [rememberAlarmTime_rows] at hmem
      rcases List.mem_append.mp hmem with hold | hnew
      · exact .inl ⟨alarm', hold, rfl, Int.le_refl _⟩
      · rw [List.mem_singleton] at hnew
        exact .inr ⟨hne, by rw [hnew]⟩
    · intro hne'
      simp only [rememberAlarmTime_rows] at hne' ⊢
      rw [Word.add_one_of_ne_zero h.next_lt hne']
      exact ⟨hne, Nat.le_succ _⟩

theorem keeps_alarmEdit (model : Model) (id : ℕ) (spec : AlarmSpec) (cancelActive : Bool) :
    Keeps model (alarmEdit model id spec cancelActive).2 := by
  rw [alarmEdit]
  refine kept_check (Keeps.refl _) fun _ => ?_
  split
  · exact Keeps.refl _
  · rename_i index alarm hfind
    refine kept_check (Keeps.refl _) fun _ => ?_
    refine kept_check (Keeps.refl _) fun _ => ?_
    simp only
    split
    · exact Keeps.refl _
    · rename_i due _
      refine keeps_set
        { alarm with
          spec := spec
          generation := alarm.generation + 1
          snoozed := false
          snoozeDeadlineMs := 0
          nextDueUtc := due } (findAlarm_some hfind).1 rfl (Int.le_refl _) ?_ ?_
      · simp
      · simp

theorem keeps_alarmEnable (model : Model) (id : ℕ) (enabled cancelActive : Bool) :
    Keeps model (alarmEnable model id enabled cancelActive).2 := by
  rw [alarmEnable]
  split
  · exact Keeps.refl _
  · refine kept_check (Keeps.refl _) fun _ => ?_
    refine kept_check (Keeps.refl _) fun _ => ?_
    exact keeps_alarmEdit _ _ _ _

theorem keeps_alarmDelete (model : Model) (id : ℕ) (cancelActive : Bool) :
    Keeps model (alarmDelete model id cancelActive).2 := by
  rw [alarmDelete]
  split
  · exact Keeps.refl _
  · refine kept_check (Keeps.refl _) fun _ => ?_
    refine ⟨?_, ?_⟩
    · intro alarm' hmem
      simp only [cancelEvents_rows] at hmem
      exact .inl ⟨alarm', (List.eraseIdx_sublist _ _).subset hmem, rfl, Int.le_refl _⟩
    · intro hne
      simp only [cancelEvents_rows] at hne ⊢
      exact ⟨hne, Nat.le_refl _⟩

theorem keeps_alarmCancelSnooze (model : Model) (id : ℕ) :
    Keeps model (alarmCancelSnooze model id).2 := by
  rw [alarmCancelSnooze]
  split
  · exact Keeps.refl _
  · rename_i index alarm hfind
    exact keeps_set { alarm with snoozed := false, snoozeDeadlineMs := 0 } (findAlarm_some hfind).1
      rfl (Int.le_refl _) rfl rfl

theorem keeps_dismiss (model : Model) (eventId : ℕ) : Keeps model (dismiss model eventId).2 := by
  rw [dismiss]
  refine kept_check (Keeps.refl _) fun _ => ?_
  refine kept_check (Keeps.refl _) fun _ => ?_
  exact keeps_of_eq (clearActive_rows _).1 (clearActive_rows _).2

theorem keeps_snooze (model : Model) (eventId minutes : ℕ) :
    Keeps model (snooze model eventId minutes).2 := by
  rw [snooze]
  generalize (if minutes = 0 then model.snoozeMinutes else minutes) = duration
  simp only
  refine kept_check (Keeps.refl _) fun _ => ?_
  refine kept_check (Keeps.refl _) fun _ => ?_
  refine kept_check (Keeps.refl _) fun _ => ?_
  refine kept_check (Keeps.refl _) fun _ => ?_
  split
  · exact Keeps.refl _
  · rename_i index alarm hfind
    refine kept_check (Keeps.refl _) fun _ => ?_
    refine kept_check (Keeps.refl _) fun _ => ?_
    refine Keeps.trans ?_ (keeps_dismiss _ _)
    exact keeps_set
      { alarm with
        snoozed := true
        snoozeDeadlineMs := model.monotonicMs + duration * 60000 }
      (findAlarm_some hfind).1 rfl (Int.le_refl _) rfl rfl

theorem keeps_timerSet (model : Model) (seconds : ℕ) : Keeps model (timerSet model seconds).2 := by
  rw [timerSet]
  refine kept_check (Keeps.refl _) fun _ => ?_
  refine kept_check (Keeps.refl _) fun _ => ?_
  exact keeps_of_eq (cancelEvents_rows _ _ _).1 (cancelEvents_rows _ _ _).2

theorem keeps_timerStart (model : Model) : Keeps model (timerStart model).2 := by
  rw [timerStart]
  refine kept_check (Keeps.refl _) fun _ => ?_
  refine kept_check (Keeps.refl _) fun _ => ?_
  rw [timerRun]
  refine kept_check (Keeps.refl _) fun _ => ?_
  exact keeps_of_eq rfl rfl

theorem keeps_timerPause (model : Model) : Keeps model (timerPause model).2 := by
  rw [timerPause]
  refine kept_check (Keeps.refl _) fun _ => ?_
  exact keeps_of_eq rfl rfl

theorem keeps_timerResume (model : Model) : Keeps model (timerResume model).2 := by
  rw [timerResume]
  refine kept_check (Keeps.refl _) fun _ => ?_
  rw [timerRun]
  refine kept_check (Keeps.refl _) fun _ => ?_
  exact keeps_of_eq rfl rfl

theorem keeps_timerRestart (model : Model) : Keeps model (timerRestart model).2 := by
  rw [timerRestart]
  refine kept_check (Keeps.refl _) fun _ => ?_
  simp only
  refine kept_check (Keeps.refl _) fun _ => ?_
  have hstop := keeps_timerSet model model.timer.durationSeconds
  rw [timerStop]
  split
  · rename_i model' heq
    rw [heq] at hstop
    exact hstop.trans (keeps_timerStart model')
  · exact hstop

theorem keeps_stopwatchStart (model : Model) : Keeps model (stopwatchStart model).2 := by
  rw [stopwatchStart]
  refine kept_check (Keeps.refl _) fun _ => ?_
  exact keeps_of_eq rfl rfl

theorem keeps_stopwatchPause (model : Model) : Keeps model (stopwatchPause model).2 := by
  rw [stopwatchPause]
  refine kept_check (Keeps.refl _) fun _ => ?_
  exact keeps_of_eq rfl rfl

theorem keeps_stopwatchLap (model : Model) : Keeps model (stopwatchLap model).2 := by
  rw [stopwatchLap]
  refine kept_check (Keeps.refl _) fun _ => ?_
  refine kept_check (Keeps.refl _) fun _ => ?_
  exact keeps_of_eq rfl rfl

theorem keeps_worldAdd (model : Model) (offsetMinutes : ℤ) :
    Keeps model (worldAdd model offsetMinutes).2 := by
  rw [worldAdd]
  refine kept_check (Keeps.refl _) fun _ => ?_
  refine kept_check (Keeps.refl _) fun _ => ?_
  refine kept_check (Keeps.refl _) fun _ => ?_
  refine kept_check (Keeps.refl _) fun _ => ?_
  exact keeps_of_eq rfl rfl

theorem keeps_worldEdit (model : Model) (id : ℕ) (offsetMinutes : ℤ) :
    Keeps model (worldEdit model id offsetMinutes).2 := by
  rw [worldEdit]
  refine kept_check (Keeps.refl _) fun _ => ?_
  split
  · exact Keeps.refl _
  · refine kept_check (Keeps.refl _) fun _ => ?_
    exact keeps_of_eq rfl rfl

theorem keeps_worldDelete (model : Model) (id : ℕ) : Keeps model (worldDelete model id).2 := by
  rw [worldDelete]
  split
  · exact Keeps.refl _
  · exact keeps_of_eq rfl rfl

theorem keeps_setSnooze (model : Model) (minutes : ℕ) : Keeps model (setSnooze model minutes).2 := by
  rw [setSnooze]
  refine kept_check (Keeps.refl _) fun _ => ?_
  exact keeps_of_eq rfl rfl

theorem keeps_applyChecked (h : AlarmsOk model.alarms model.nextAlarmId) (checked : Request) :
    Keeps model (applyChecked model checked).2 := by
  rw [applyChecked]
  cases checked.op with
  | snapshot => exact Keeps.refl _
  | save => exact Keeps.refl _
  | alarmAdd => exact keeps_alarmAdd _ h _
  | alarmEdit => exact keeps_alarmEdit _ _ _ _
  | alarmEnable => exact keeps_alarmEnable _ _ _ _
  | alarmDelete => exact keeps_alarmDelete _ _ _
  | alarmCancelSnooze => exact keeps_alarmCancelSnooze _ _
  | dismiss => exact keeps_dismiss _ _
  | snooze => exact keeps_snooze _ _ _
  | timerSet => exact keeps_timerSet _ _
  | timerStart => exact keeps_timerStart _
  | timerPause => exact keeps_timerPause _
  | timerResume => exact keeps_timerResume _
  | timerStop => exact keeps_timerSet _ _
  | timerRestart => exact keeps_timerRestart _
  | stopwatchStart => exact keeps_stopwatchStart _
  | stopwatchPause => exact keeps_stopwatchPause _
  | stopwatchReset => exact keeps_of_eq rfl rfl
  | stopwatchLap => exact keeps_stopwatchLap _
  | worldAdd => exact keeps_worldAdd _ _
  | worldEdit => exact keeps_worldEdit _ _ _
  | worldDelete => exact keeps_worldDelete _ _
  | setView => exact keeps_of_eq rfl rfl
  | setSnooze => exact keeps_setSnooze _ _
  | clearMissed => exact keeps_of_eq rfl rfl

theorem keeps_requestApply (h : AlarmsOk model.alarms model.nextAlarmId) (request : Request) :
    Keeps model (requestApply model request).2 := by
  rw [requestApply]
  split
  · exact Keeps.refl _
  · refine kept_check (Keeps.refl _) fun _ => ?_
    exact keeps_applyChecked h _

/-! ### Ticks -/

theorem rearm_last {snoozed : Bool} :
    (rearm model snoozed due).lastDueUtc = if snoozed then due.lastDueUtc else due.nextDueUtc := by
  rw [rearm]
  split
  · rfl
  · split
    · rfl
    · split
      · rfl
      · rfl

theorem scheduled_snoozed (log : List Entry) (h : entry.event.snoozed = true) :
    scheduled (log ++ [entry]) = scheduled log := by
  simp [scheduled, h]

theorem scheduled_append (log : List Entry) (h : entry.event.snoozed = false) :
    scheduled (log ++ [entry]) = scheduled log ++ [entry] := by
  simp [scheduled, h]

theorem LogOk.snoozed (h : LogOk model log) (hsnoozed : entry.event.snoozed = true) :
    LogOk model (log ++ [entry]) := by
  have hsame := scheduled_snoozed log hsnoozed
  refine ⟨⟨?_, ?_⟩, ?_, ?_⟩
  · rw [hsame]
    exact h.noReplay.increasing
  · rw [hsame]
    exact h.noReplay.occurs
  · rw [hsame]
    exact h.below
  · rw [hsame]
    exact h.rung

theorem LogOk.append (h : LogOk model log) (hsnoozed : entry.event.snoozed = false)
    (hlater : ∀ old ∈ scheduled log, old.event.sourceId = entry.event.sourceId →
      old.event.dueWallUtc < entry.event.dueWallUtc)
    (hoccurs : entry.event.kind = .alarm ∧ entry.event.sourceId = entry.alarm.id ∧
      Occurs entry.alarm.spec entry.event.dueWallUtc)
    (hbelow : model.nextAlarmId ≠ 0 → entry.event.sourceId < model.nextAlarmId)
    (hrung : ∀ alarm ∈ model.alarms, alarm.id = entry.event.sourceId →
      entry.event.dueWallUtc ≤ alarm.lastDueUtc) :
    LogOk model (log ++ [entry]) := by
  have hnew := scheduled_append log hsnoozed
  have hmem : ∀ {other : Entry}, other ∈ scheduled (log ++ [entry]) →
      other ∈ scheduled log ∨ other = entry := by
    intro other hother
    rw [hnew] at hother
    rcases List.mem_append.mp hother with hold | hlast
    · exact .inl hold
    · exact .inr (List.mem_singleton.mp hlast)
  refine ⟨⟨?_, ?_⟩, ?_, ?_⟩
  · rw [hnew, List.pairwise_append]
    refine ⟨h.noReplay.increasing, List.pairwise_singleton _ _, ?_⟩
    intro old hold last hlast hid
    rw [List.mem_singleton] at hlast
    subst hlast
    exact hlater old hold hid
  · intro other hother
    rcases hmem hother with hold | rfl
    · exact h.noReplay.occurs other hold
    · exact hoccurs
  · intro other hother
    rcases hmem hother with hold | rfl
    · exact h.below other hold
    · exact hbelow
  · intro other hother
    rcases hmem hother with hold | rfl
    · exact h.rung other hold
    · exact hrung

theorem keeps_tickAlarm (h : Inv model) {snoozed : Bool} {event : Event}
    (hround : tickAlarm model snoozed = .created due event model') :
    Keeps model model' := by
  obtain ⟨index, hget, hready, -, rfl, rfl⟩ := tickAlarm_created hround
  refine keeps_set (rearm model snoozed due) hget (rearm_id model snoozed due).1 ?_
    (submitEvent_rows _ _ _).1 (submitEvent_rows _ _ _).2
  rw [rearm_last]
  cases snoozed with
  | true => exact Int.le_refl _
  | false =>
    simp only [ready, Bool.false_eq_true, if_false, decide_eq_true_eq] at hready
    have hlt := ((h.alarms.each due (List.mem_of_getElem? hget)).enabled hready.1).2.1
    simp only [Bool.false_eq_true, if_false]
    omega

theorem AlarmsOk.eq_of_id {alarms : List Alarm} {nextAlarmId : ℕ} (h : AlarmsOk alarms nextAlarmId)
    {alarm other : Alarm} (halarm : alarm ∈ alarms) (hother : other ∈ alarms)
    (hid : alarm.id = other.id) : alarm = other :=
  List.inj_on_of_nodup_map h.nodup halarm hother hid

/-- **What one round adds to the log**: the next occurrence of a row, after
everything its id has in the log. -/
theorem LogOk.created (hinv : Inv model) (h : LogOk model log) {snoozed : Bool} {event : Event}
    (hround : tickAlarm model snoozed = .created due event model') :
    LogOk model' (log ++ [⟨due, event⟩]) := by
  have hkept := h.keeps (keeps_tickAlarm hinv hround)
  have hinv' := inv_tickAlarm hinv hround
  obtain ⟨index, hget, hready, -, rfl, rfl⟩ := tickAlarm_created hround
  have hmem := List.mem_of_getElem? hget
  cases snoozed with
  | true => exact hkept.snoozed rfl
  | false =>
    simp only [ready, Bool.false_eq_true, if_false, decide_eq_true_eq] at hready
    obtain ⟨-, hlast, hocc⟩ := (hinv.alarms.each due hmem).enabled hready.1
    refine hkept.append rfl ?_ ⟨rfl, rfl, hocc⟩ ?_ ?_
    · intro old hold hid
      exact Int.lt_of_le_of_lt (h.rung old hold due hmem hid.symm) hlast
    · intro hne
      rw [(submitEvent_rows _ _ _).2] at hne ⊢
      exact hinv.alarms.below hne due hmem
    · -- The row that rings is the only one with its id.
      intro alarm halarm hid
      have hrow : rearm model false due ∈ (submitEvent
          { model with
            nextEventId := Word.add 64 model.nextEventId 1
            alarms := model.alarms.set index (rearm model false due) } (dueEvent model false due)
          (isLate model false due)).alarms := by
        rw [(submitEvent_rows _ _ _).1]
        exact List.mem_set (List.getElem?_eq_some_iff.mp hget).1 _
      have heq := hinv'.alarms.eq_of_id halarm hrow (hid.trans (rearm_id model false due).1.symm)
      rw [heq, rearm_last]
      exact Int.le_refl _

theorem logOk_createdAlarms (hinv : Inv model) (h : LogOk model log) (snoozed : Bool) (rounds : ℕ) :
    LogOk (tickAlarms snoozed rounds model).2 (log ++ createdAlarms snoozed rounds model) := by
  induction rounds generalizing model log with
  | zero =>
    rw [createdAlarms, List.append_nil]
    exact h
  | succ rounds ih =>
    cases hround : tickAlarm model snoozed with
    | idle | exhausted =>
      simp only [tickAlarms, createdAlarms, hround, List.append_nil]
      exact h
    | created due event model' =>
      have hnext := ih (inv_tickAlarm hinv hround) (h.created hinv hround)
      simp only [tickAlarms, createdAlarms, hround]
      rw [List.append_assoc, List.singleton_append] at hnext
      exact hnext

theorem keeps_tickClock (model : Model) (wallUtc : ℤ) (monotonicMs : ℕ) :
    Keeps model (tickClock model wallUtc monotonicMs) := by
  have hrows : (tickClock model wallUtc monotonicMs).alarms = model.alarms ∧
      (tickClock model wallUtc monotonicMs).nextAlarmId = model.nextAlarmId := by
    rw [tickClock]
    simp only
    split
    · split
      · exact clearActive_rows _
      · exact ⟨rfl, rfl⟩
    · split
      · exact clearActive_rows _
      · exact ⟨rfl, rfl⟩
  exact keeps_of_eq hrows.1 hrows.2

theorem keeps_tickTimer (model : Model) : Keeps model (tickTimer model).2 := by
  rw [tickTimer]
  split
  · simp only
    split
    · split
      · exact keeps_of_eq rfl rfl
      · rename_i event model' hcreate
        rw [createEvent] at hcreate
        split at hcreate
        · simp at hcreate
        · obtain ⟨rfl, rfl⟩ := Prod.mk.inj (Option.some.inj hcreate)
          exact keeps_of_eq (submitEvent_rows _ _ _).1 (submitEvent_rows _ _ _).2
    · exact keeps_of_eq rfl rfl
  · exact Keeps.refl _

theorem logOk_tick (hinv : Inv model) (h : LogOk model log) (wallUtc : ℤ) {monotonicMs : ℕ}
    (hlt : monotonicMs < 2 ^ 64) :
    LogOk (tick model wallUtc monotonicMs).2 (log ++ createdTick model wallUtc monotonicMs) := by
  rw [tick, createdTick]
  split
  · rw [List.append_nil]
    exact h
  · rename_i hwall
    split
    · rw [List.append_nil]
      exact h
    · rename_i hmono
      have hclock : Inv (tickClock model wallUtc monotonicMs) :=
        inv_tickClock hinv (by simpa using hwall) (by omega) hlt
      have hlog := h.keeps (keeps_tickClock model wallUtc monotonicMs)
      generalize tickClock model wallUtc monotonicMs = clock at hclock hlog
      have hfirst := logOk_createdAlarms hclock hlog false clock.alarms.length
      have hfirst' := inv_tickAlarms hclock false clock.alarms.length
      -- The two phases, the second on what the first leaves.
      simp only
      cases hphase : tickAlarms false clock.alarms.length clock with
      | mk status scheduled =>
        rw [hphase] at hfirst hfirst'
        simp only at hfirst hfirst'
        cases status with
        | ok =>
          have hsecond := logOk_createdAlarms hfirst' hfirst true scheduled.alarms.length
          rw [List.append_assoc] at hsecond
          simp only
          cases hsnooze : tickAlarms true scheduled.alarms.length scheduled with
          | mk status snoozed =>
            rw [hsnooze] at hsecond
            cases status with
            | ok => exact hsecond.keeps (keeps_tickTimer snoozed)
            | _ => exact hsecond
        | _ =>
          rw [List.append_nil]
          exact hfirst

/-! ### Runs with restarts -/

theorem keeps_restored (model fresh : Model) : Keeps model (restored model fresh) where
  rows alarm' hmem := by
    obtain ⟨alarm, halarm, rfl⟩ := List.mem_map.mp hmem
    obtain ⟨hid, -, hlast⟩ := rearmStored_keeps fresh.wallUtc
      ⟨alarm.id, alarm.generation, alarm.spec, 0, alarm.lastDueUtc, false, 0⟩
    exact .inl ⟨alarm, halarm, hid.symm, Int.le_of_eq hlast.symm⟩
  next hne := ⟨hne, Nat.le_refl _⟩

/-- The owner's model and the events created so far. -/
structure Owner where
  model : Model
  log : List Entry

inductive OwnerOp
  | call (call : Call)
  /-- Stores the preferences and restores them into a model initialized at these
  times. -/
  | restart (wallUtc : ℤ) (monotonicMs capacity : ℕ)

/-- The owner over a tokener: `init`, then ticks, requests and restarts. -/
def ownerMachine (tokener : Tokener) : Machine Owner OwnerOp where
  start owner := machine.start owner.model ∧ owner.log = []
  step owner op owner' :=
    match op with
    | .call call => machine.step owner.model call owner'.model ∧
        owner'.log = owner.log ++ created owner.model call
    | .restart wallUtc monotonicMs capacity => monotonicMs < 2 ^ 64 ∧
        (∃ text fresh, preferencesEncode owner.model capacity = .ok text ∧
          init wallUtc monotonicMs = some fresh ∧
          preferencesDecode tokener text fresh = some owner'.model) ∧
        owner'.log = owner.log

theorem logOk_step (hinv : Inverts tokener) {owner' : Owner} {op : OwnerOp}
    (h : Inv owner.model ∧ LogOk owner.model owner.log)
    (hstep : (ownerMachine tokener).step owner op owner') :
    Inv owner'.model ∧ LogOk owner'.model owner'.log := by
  obtain ⟨hmodel, hlog⟩ := h
  cases op with
  | call call =>
    obtain ⟨⟨hcall, heq⟩, hlog'⟩ := hstep
    rw [heq, hlog']
    refine ⟨inv_perform hmodel hcall, ?_⟩
    cases call with
    | tick wallUtc monotonicMs => exact logOk_tick hmodel hlog wallUtc hcall
    | request request =>
      rw [created, List.append_nil]
      exact hlog.keeps (keeps_requestApply hmodel.alarms request)
  | restart wallUtc monotonicMs capacity =>
    obtain ⟨hlt, ⟨text, fresh, hencode, hinit, hdecode⟩, hlog'⟩ := hstep
    obtain ⟨rfl, hlen⟩ := preferencesEncode_ok hmodel hencode
    rw [preferencesDecode_print hinv hmodel hinit hlen] at hdecode
    rw [← Option.some.inj hdecode, hlog']
    exact ⟨inv_restored hmodel hlt hinit, hlog.keeps (keeps_restored owner.model fresh)⟩

theorem logOk_of_reachable (hinv : Inverts tokener) (h : (ownerMachine tokener).Reachable owner) :
    Inv owner.model ∧ LogOk owner.model owner.log := by
  refine h.invariant (P := fun owner => Inv owner.model ∧ LogOk owner.model owner.log) ?_ ?_
  · rintro owner ⟨⟨wallUtc, monotonicMs, hlt, hinit⟩, hnil⟩
    rw [hnil]
    exact ⟨inv_init hlt hinit, ⟨⟨List.Pairwise.nil, by simp [scheduled]⟩, by simp [scheduled],
      by simp [scheduled]⟩⟩
  · intro owner op owner' hold hstep
    exact logOk_step hinv hold hstep

/-- **No occurrence rings twice**: over every run with ticks at any wall time,
requests and restarts, the scheduled events of an alarm id have strictly
increasing due times, each an occurrence of the schedule then in force. -/
theorem noReplay_of_reachable {tokener : Tokener} (hinv : Inverts tokener) {owner : Owner}
    (h : (ownerMachine tokener).Reachable owner) : NoReplay owner.log :=
  (logOk_of_reachable hinv h).2.noReplay

theorem reachable_call (h : (ownerMachine tokener).Reachable owner) (call : Call)
    (hcall : call.InRange) :
    (ownerMachine tokener).Reachable
      ⟨(perform owner.model call).2, owner.log ++ created owner.model call⟩ :=
  .step (a := .call call) h ⟨⟨hcall, rfl⟩, rfl⟩

theorem reachable_restart (hinv : Inverts tokener) (h : (ownerMachine tokener).Reachable owner)
    {fresh : Model} {wallUtc : ℤ} {monotonicMs : ℕ} (hlt : monotonicMs < 2 ^ 64)
    (hinit : init wallUtc monotonicMs = some fresh) :
    (ownerMachine tokener).Reachable ⟨restored owner.model fresh, owner.log⟩ := by
  obtain ⟨text, hencode, hdecode⟩ := preferences_roundtrip hinv (logOk_of_reachable hinv h).1 hinit
  exact .step (a := .restart wallUtc monotonicMs wireCapacity) h
    ⟨hlt, ⟨text, fresh, hencode, hinit, hdecode⟩, rfl⟩

/-- An alarm rings, the owner restarts an hour back, and the alarm rings again
only the day after. -/
theorem noReplay_restart :
    ∃ owner, (ownerMachine plainTokener).Reachable owner ∧ NoReplay owner.log ∧
      (scheduled owner.log).map (·.event.dueWallUtc) = [1700031600, 1700118000] := by
  have hstart : (ownerMachine plainTokener).Reachable ⟨_, []⟩ :=
    .start ⟨⟨1700000040, 0, by decide, rfl⟩, rfl⟩
  have hadded := reachable_call hstart (.request dailyRequest) trivial
  have hrung := reachable_call hadded (.tick 1700031600 1000) (show 1000 < 2 ^ 64 by decide)
  have hrestart := reachable_restart inverts_plainTokener hrung (show 0 < 2 ^ 64 by decide)
    (show init 1700028000 0 = some _ from rfl)
  have hagain := reachable_call hrestart (.tick 1700118000 1000) (show 1000 < 2 ^ 64 by decide)
  exact ⟨_, hagain, noReplay_of_reachable inverts_plainTokener hagain, rfl⟩

end Clock
