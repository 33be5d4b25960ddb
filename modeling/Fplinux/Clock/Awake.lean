/-
Nothing is overdue between ticks (`clock_model_tick`).

After a tick that was taken, and after any request that follows it, the ring has
not lasted its minute, every snooze and the countdown end in the future.  A later
tick that comes before all of these, and before every scheduled occurrence, then
only moves the times along.

Main results:
- `awake_tick`, `awake_effect`: a tick and a request leave nothing overdue;
- `tick_passed`: what a tick does while nothing is due.
-/
import Fplinux.Clock.Decoded
import Fplinux.Clock.Measure

namespace Clock

/-- A countdown that runs ends in the future, and one that can start has time left. -/
structure TimerAwake (timer : Timer) (monotonicMs : ℕ) : Prop where
  running : timer.state = .running → monotonicMs < timer.deadlineMs
  stopped : timer.state = .stopped → timer.durationSeconds ≠ 0 → timer.remainingMs ≠ 0
  paused : timer.state = .paused → timer.remainingMs ≠ 0

/-- A ring has begun and has not lasted its minute. -/
def Rings (model : Model) : Prop :=
  model.active.kind ≠ .none → model.active.ringStartedMs ≤ model.monotonicMs ∧
    model.monotonicMs < model.active.ringStartedMs + ringTimeoutMs

/-- What could be due at a later time lies in the future. -/
structure Awake (model : Model) : Prop where
  ring : Rings model
  snooze : ∀ alarm ∈ model.alarms, alarm.snoozed = true →
    model.monotonicMs < alarm.snoozeDeadlineMs ∧
      alarm.snoozeDeadlineMs ≤ model.monotonicMs + 30 * 60000
  timer : TimerAwake model.timer model.monotonicMs

/-! ### Requests -/

theorem timerAwake_stopped (generation seconds monotonicMs : ℕ) :
    TimerAwake ⟨.stopped, generation, seconds, seconds * 1000, 0⟩ monotonicMs := by
  refine ⟨?_, ?_, ?_⟩
  · intro hrun
    cases hrun
  · intro _ hduration
    simp only at hduration ⊢
    omega
  · intro hpaused
    cases hpaused

variable {model model' : Model} {monotonicMs : ℕ} {wallUtc : ℤ} {snoozed : Bool}

theorem awake_init (h : init wallUtc monotonicMs = some model) : Awake model := by
  rw [init] at h
  split at h
  · cases h
  · obtain rfl := Option.some.inj h
    exact ⟨fun hkind => absurd rfl hkind, by simp, timerAwake_stopped 1 0 monotonicMs⟩

theorem snoozed_readStoredAlarm {nextAlarmId : ℕ} {object : Json} {alarm : Alarm}
    (h : readStoredAlarm wallUtc nextAlarmId object = some alarm) : alarm.snoozed = false := by
  rw [readStoredAlarm] at h
  split at h
  · simp only [Option.bind_eq_bind, Option.bind_eq_some_iff] at h
    obtain ⟨id, -, generation, -, object', -, spec, -, lastDueUtc, -, h⟩ := h
    split at h
    · cases h
    · obtain rfl := Option.some.inj h
      rw [rearmStored]
      split
      · simp only
        split <;> rfl
      · rfl
  · cases h

theorem awake_preferencesDecode {tokener : Tokener} {text : List UInt8}
    (h : preferencesDecode tokener text model = some model') : Awake model' := by
  simp only [preferencesDecode, Option.bind_eq_bind, Option.bind_eq_some_iff] at h
  obtain ⟨fresh, hinit, object, -, h⟩ := h
  cases readFrom_of_readPreferences h with
  | @read view snooze lastHour lastMinute duration nextAlarmId nextWorldId alarmItems worldItems
      alarms world _ _ _ _ _ _ _ _ halarms _ _ =>
    have hquiet := (readRows_spec (P := fun alarm => alarm.snoozed = false)
      (fun item row hrow => snoozed_readStoredAlarm hrow) halarms (by simp)
      List.Pairwise.nil).1
    rw [init] at hinit
    split at hinit
    · cases hinit
    · obtain rfl := Option.some.inj hinit
      refine ⟨fun hkind => absurd rfl hkind, ?_, timerAwake_stopped 1 duration _⟩
      intro alarm hmem hsnoozed
      rw [hquiet alarm hmem] at hsnoozed
      cases hsnoozed

theorem TimerAwake.effect {timer timer' : Timer} {setsTimer : Bool}
    (h : TimerAwake timer monotonicMs) (heffect : TimerEffect monotonicMs timer setsTimer timer') :
    TimerAwake timer' monotonicMs := by
  cases heffect with
  | same => exact h
  | set seconds => exact timerAwake_stopped _ seconds monotonicMs
  | run hstate =>
    have hleft : timer.remainingMs ≠ 0 := by
      rcases hstate with ⟨hstopped, hduration⟩ | hpaused
      · exact h.stopped hstopped hduration
      · exact h.paused hpaused
    refine ⟨fun _ => ?_, fun hstopped => ?_, fun hpaused => ?_⟩
    · simp only
      omega
    · cases hstopped
    · cases hpaused
  | pause hrun =>
    have hlater := h.running hrun
    refine ⟨fun hrun' => ?_, fun hstopped => ?_, fun _ => ?_⟩
    · cases hrun'
    · cases hstopped
    · simp only
      omega
  | restart hduration =>
    refine ⟨fun _ => ?_, fun hstopped => ?_, fun hpaused => ?_⟩
    · simp only
      omega
    · cases hstopped
    · cases hpaused

theorem awake_effect {setsTimer resetsStopwatch : Bool} (h : Awake model)
    (heffect : Effect setsTimer resetsStopwatch model model') : Awake model' := by
  have hmono := heffect.times.2
  refine ⟨?_, ?_, hmono.symm ▸ h.timer.effect heffect.timer⟩
  · intro hkind
    rw [hmono]
    rcases heffect.slots.started hkind with hsame | hnow
    · rw [hsame] at hkind ⊢
      exact h.ring hkind
    · rw [hnow]
      exact ⟨le_rfl, by simp [ringTimeoutMs]⟩
  · intro alarm hmem hsnoozed
    rw [hmono]
    have hrows := heffect.rows
    generalize model'.alarms = rows at hrows hmem
    generalize model'.nextAlarmId = nextAlarmId at hrows
    cases hrows with
    | same => exact h.snooze alarm hmem hsnoozed
    | add hne hlast hquiet =>
      rcases List.mem_append.mp hmem with hold | hnew
      · exact h.snooze alarm hold hsnoozed
      · rw [List.mem_singleton] at hnew
        rw [hnew, hquiet] at hsnoozed
        cases hsnoozed
    | set hget hlast hdeadline =>
      rcases List.mem_or_eq_of_mem_set hmem with hold | hnew
      · exact h.snooze alarm hold hsnoozed
      · rw [hnew] at hsnoozed ⊢
        have hlater := hdeadline hsnoozed
        omega
    | erase index => exact h.snooze alarm (List.mem_of_mem_eraseIdx hmem) hsnoozed

/-! ### Ticks -/

theorem rings_of (h : Rings model) (hmono : model'.monotonicMs = model.monotonicMs)
    (hactive : model'.active.kind ≠ .none →
      model'.active = model.active ∨ model'.active.ringStartedMs = model'.monotonicMs) :
    Rings model' := by
  intro hkind
  rcases hactive hkind with hsame | hnow
  · rw [hsame] at hkind ⊢
    rw [hmono]
    exact h hkind
  · rw [hnow]
    exact ⟨le_rfl, by simp [ringTimeoutMs]⟩

theorem rings_submit {model : Model} (h : Rings model) (event : Event) (late : Bool) :
    Rings (submitEvent model event late) := by
  have hmono := (submitEvent_times model event late).2
  refine rings_of h hmono fun _ => ?_
  rw [hmono]
  unfold submitEvent
  split_ifs
  · exact .inl rfl
  · exact .inr rfl
  · exact .inl rfl
  · exact .inl rfl

theorem rings_tickAlarms (h : Rings model) (snoozed : Bool) (rounds : ℕ) :
    Rings (tickAlarms snoozed rounds model).2 := by
  induction rounds generalizing model with
  | zero => exact h
  | succ rounds ih =>
    rw [tickAlarms]
    cases hround : tickAlarm model snoozed with
    | idle => exact h
    | exhausted => exact h
    | created due event model' =>
      obtain ⟨index, -, -, -, rfl⟩ := created_eq hround
      exact ih (@rings_submit (fireRow model snoozed index due) h _ _)

theorem rings_tickTimer (h : Rings model) : Rings (tickTimer model).2 := by
  rw [tickTimer_eq]
  split_ifs
  · exact h
  · exact @rings_submit (finishTimer model) h _ _
  · exact h
  · exact h

theorem rings_clearActive (model : Model) : Rings (clearActive model) := by
  cases hqueue : model.queue with
  | nil =>
    simp only [clearActive, promoteEvent, Event.zero, hqueue]
    exact fun hkind => absurd rfl hkind
  | cons event rest =>
    simp only [clearActive, promoteEvent, Event.zero, hqueue]
    exact fun _ => ⟨le_rfl, Nat.lt_add_of_pos_right (by decide)⟩

theorem rings_tickClock (h : Rings model) (wallUtc : ℤ) (hmono : model.monotonicMs ≤ monotonicMs)
    (hlt : monotonicMs < 2 ^ 64) :
    Rings (tickClock model wallUtc monotonicMs) := by
  rw [tickClock_eq]
  split
  · exact rings_clearActive _
  · rename_i hover
    intro hkind
    have hstarted := (h hkind).1
    rw [ringOver, not_and, Word.sub_eq hlt (by omega)] at hover
    have hshort := hover hkind
    show model.active.ringStartedMs ≤ monotonicMs ∧ monotonicMs < model.active.ringStartedMs + _
    omega

/-- **A phase that succeeds leaves nothing that is due.** -/
theorem not_ready_tickAlarms {model : Model} {snoozed : Bool} {rounds : ℕ}
    (hok : (tickAlarms snoozed rounds model).1 = .ok)
    (hrounds : model.alarms.countP (ready model snoozed) ≤ rounds) :
    ∀ alarm ∈ (tickAlarms snoozed rounds model).2.alarms,
      ready (tickAlarms snoozed rounds model).2 snoozed alarm = false := by
  induction rounds generalizing model with
  | zero =>
    intro alarm hmem
    have hzero := List.countP_eq_zero.mp (Nat.le_zero.mp hrounds) alarm hmem
    rw [tickAlarms]
    simpa using hzero
  | succ rounds ih =>
    rw [tickAlarms] at hok ⊢
    cases hround : tickAlarm model snoozed with
    | idle =>
      cases hselect : selectDue model snoozed model.alarms 0 none with
      | none => exact (selectDue_none hselect).2
      | some selected =>
        rw [tickAlarm_eq hselect] at hround
        split at hround
        · cases hround
        · cases hround
    | exhausted =>
      rw [hround] at hok
      cases hok
    | created due event model' =>
      rw [hround] at hok
      have hcount := countP_created hround
      exact ih hok (by omega)

theorem snoozed_rearm {due : Alarm} (h : (rearm model snoozed due).snoozed = true) :
    due.snoozed = true ∧ (rearm model snoozed due).snoozeDeadlineMs = due.snoozeDeadlineMs := by
  rw [rearm] at h ⊢
  split at h
  · cases h
  · rename_i hscheduled
    rw [if_neg hscheduled]
    split at h
    · exact ⟨h, rfl⟩
    · split at h
      · exact ⟨h, rfl⟩
      · exact ⟨h, rfl⟩

theorem snoozed_tickAlarms {rounds : ℕ} {alarm : Alarm}
    (hmem : alarm ∈ (tickAlarms snoozed rounds model).2.alarms) (h : alarm.snoozed = true) :
    ∃ old ∈ model.alarms, old.snoozed = true ∧
      alarm.snoozeDeadlineMs = old.snoozeDeadlineMs := by
  induction rounds generalizing model with
  | zero => exact ⟨alarm, hmem, h, rfl⟩
  | succ rounds ih =>
    rw [tickAlarms] at hmem
    cases hround : tickAlarm model snoozed with
    | idle | exhausted =>
      rw [hround] at hmem
      exact ⟨alarm, hmem, h, rfl⟩
    | created due event model' =>
      rw [hround] at hmem
      obtain ⟨old, hold, holdSnoozed, hsame⟩ := ih hmem
      obtain ⟨index, hselect, -, -, rfl⟩ := created_eq hround
      rw [(submitEvent_rows _ _ _).1, fireRow] at hold
      rcases List.mem_or_eq_of_mem_set hold with hkept | hset
      · exact ⟨old, hkept, holdSnoozed, hsame⟩
      · rw [hset] at holdSnoozed hsame
        obtain ⟨hdue, hdeadline⟩ := snoozed_rearm holdSnoozed
        exact ⟨due, List.mem_of_getElem? (selectDue_mem hselect).1, hdue, hsame.trans hdeadline⟩

theorem timerAwake_tickTimer (hok : (tickTimer model).1 = .ok)
    (hstopped : model.timer.state = .stopped → model.timer.durationSeconds ≠ 0 →
      model.timer.remainingMs ≠ 0)
    (hpaused : model.timer.state = .paused → model.timer.remainingMs ≠ 0) :
    TimerAwake (tickTimer model).2.timer model.monotonicMs := by
  rw [tickTimer_eq] at hok ⊢
  split_ifs at hok ⊢ with hrun hzero hid
  · rw [(submitEvent_clocks _ _ _).1]
    refine ⟨fun hrun' => ?_, fun hstopped' => ?_, fun hpaused' => ?_⟩
    · cases hrun'
    · cases hstopped'
    · cases hpaused'
  · rw [timerRemaining_running hrun] at hzero
    refine ⟨fun _ => ?_, fun hstopped' => ?_, fun hpaused' => ?_⟩
    · simp only
      omega
    · exact absurd (hrun.symm.trans hstopped') (by decide)
    · exact absurd (hrun.symm.trans hpaused') (by decide)
  · exact ⟨fun hrun' => absurd hrun' hrun, hstopped, hpaused⟩

theorem tickTimer_mono (model : Model) : (tickTimer model).2.monotonicMs = model.monotonicMs := by
  rw [tickTimer_eq]
  split_ifs
  · rfl
  · exact (submitEvent_times _ _ _).2
  · rfl
  · rfl

theorem tickAlarms_mono (snoozed : Bool) (rounds : ℕ) (model : Model) :
    (tickAlarms snoozed rounds model).2.monotonicMs = model.monotonicMs := by
  induction rounds generalizing model with
  | zero => rfl
  | succ rounds ih =>
    rw [tickAlarms]
    cases hround : tickAlarm model snoozed with
    | idle => rfl
    | exhausted => rfl
    | created due event model' =>
      obtain ⟨index, -, -, -, rfl⟩ := created_eq hround
      exact (ih _).trans (submitEvent_times _ _ _).2

/-- **A tick that is taken leaves nothing overdue.** -/
theorem awake_tick (h : Awake model) (hlt : monotonicMs < 2 ^ 64)
    (hok : (tick model wallUtc monotonicMs).1 = .ok) :
    Awake (tick model wallUtc monotonicMs).2 := by
  rw [tick] at hok ⊢
  split at hok
  · cases hok
  rename_i hwall
  split at hok
  · cases hok
  rename_i hback
  rw [if_neg hwall, if_neg hback]
  simp only at hok ⊢
  obtain ⟨-, hnow, htimer, -⟩ := tickClock_same model wallUtc monotonicMs
  have hrows := tickClock_rows model wallUtc monotonicMs
  have hclock := rings_tickClock h.ring wallUtc (Nat.le_of_not_lt hback) hlt
  generalize tickClock model wallUtc monotonicMs = clock at hok hnow htimer hrows hclock ⊢
  have hring := rings_tickAlarms hclock false clock.alarms.length
  have hmono := tickAlarms_mono false clock.alarms.length clock
  have hclocks := tickAlarms_clocks false clock.alarms.length clock
  -- the phases one after the other, each of which has to succeed
  cases hphase : tickAlarms false clock.alarms.length clock with
  | mk status middle =>
    rw [hphase] at hok hring hmono hclocks
    cases status with
    | ok =>
      simp only at hok hring hmono hclocks ⊢
      have hring' := rings_tickAlarms hring true middle.alarms.length
      have hmono' := tickAlarms_mono true middle.alarms.length middle
      have hclocks' := tickAlarms_clocks true middle.alarms.length middle
      have hquiet := @not_ready_tickAlarms middle true middle.alarms.length
      have hmiddle : middle = (tickAlarms false clock.alarms.length clock).2 := by rw [hphase]
      cases hphase' : tickAlarms true middle.alarms.length middle with
      | mk status' last =>
        rw [hphase'] at hok hring' hmono' hclocks' hquiet
        cases status' with
        | ok =>
          simp only at hok hring' hmono' hclocks' hquiet ⊢
          have hlater : last = (tickAlarms true middle.alarms.length middle).2 := by rw [hphase']
          have hlast : last.timer = model.timer := by
            rw [hclocks'.1, hclocks.1, htimer]
          refine ⟨rings_tickTimer hring', ?_, ?_⟩
          · intro alarm hmem hsnoozed
            rw [tickTimer_rows] at hmem
            have hready := hquiet trivial List.countP_le_length alarm hmem
            simp only [ready, hsnoozed, if_true, true_and, decide_eq_false_iff_not, not_le] at hready
            obtain ⟨old, hold, holdSnoozed, hsame⟩ := snoozed_tickAlarms (hlater ▸ hmem) hsnoozed
            obtain ⟨old', hold', holdSnoozed', hsame'⟩ :=
              snoozed_tickAlarms (hmiddle ▸ hold) holdSnoozed
            have hbound := (h.snooze old' (hrows ▸ hold') holdSnoozed').2
            rw [tickTimer_mono]
            refine ⟨hready, ?_⟩
            rw [hsame, hsame', hmono', hmono, hnow]
            omega
          · rw [tickTimer_mono]
            refine timerAwake_tickTimer hok ?_ ?_
            · rw [hlast]
              exact h.timer.stopped
            · rw [hlast]
              exact h.timer.paused
        | _ => cases hok
    | _ => cases hok

/-! ### Ticks with nothing to do -/

theorem selectDue_of_quiet (h : ∀ alarm ∈ model.alarms, ready model snoozed alarm = false) :
    selectDue model snoozed model.alarms 0 none = none := by
  cases hselect : selectDue model snoozed model.alarms 0 none with
  | none => rfl
  | some selected =>
    obtain ⟨index, due⟩ := selected
    have hdue := selectDue_mem hselect
    have hready := h due (List.mem_of_getElem? hdue.1)
    rw [hdue.2] at hready
    cases hready

theorem tickAlarms_of_quiet {model : Model} {snoozed : Bool}
    (h : ∀ alarm ∈ model.alarms, ready model snoozed alarm = false) (rounds : ℕ) :
    tickAlarms snoozed rounds model = (.ok, model) ∧ createdAlarms snoozed rounds model = [] := by
  have hidle := tickAlarm_idle (selectDue_of_quiet h)
  cases rounds with
  | zero => exact ⟨rfl, rfl⟩
  | succ rounds => simp only [tickAlarms, createdAlarms, hidle, and_self]

/-- Time that passes with nothing due: the stopwatch goes on, and the countdown. -/
def passed (model : Model) (wallUtc : ℤ) (monotonicMs : ℕ) : Model :=
  { advance model wallUtc monotonicMs with
    timer :=
      if model.timer.state = .running then
        { model.timer with remainingMs := model.timer.deadlineMs - monotonicMs }
      else model.timer }

/-- Nothing of the model is due at the given times. -/
structure NothingDue (model : Model) (wallUtc : ℤ) (monotonicMs : ℕ) : Prop where
  ring : model.active.kind ≠ .none → monotonicMs < model.active.ringStartedMs + ringTimeoutMs
  scheduled : ∀ alarm ∈ model.alarms, alarm.spec.enabled = true → wallUtc < alarm.nextDueUtc
  snooze : ∀ alarm ∈ model.alarms, alarm.snoozed = true → monotonicMs < alarm.snoozeDeadlineMs
  timer : model.timer.state = .running → monotonicMs < model.timer.deadlineMs

/-- **While nothing is due a tick only moves the times along**, and creates no event. -/
theorem tick_passed (h : Awake model) (hwall : validWall wallUtc = true)
    (hmono : model.monotonicMs ≤ monotonicMs) (hlt : monotonicMs < 2 ^ 64)
    (hdue : NothingDue model wallUtc monotonicMs) :
    tick model wallUtc monotonicMs = (.ok, passed model wallUtc monotonicMs) ∧
      tickEvents model wallUtc monotonicMs = [] := by
  have hring : ¬ ringOver model monotonicMs := by
    rintro ⟨hkind, hover⟩
    have hstarted := (h.ring hkind).1
    have hshort := hdue.ring hkind
    rw [Word.sub_eq hlt (by omega)] at hover
    omega
  have hclock : tickClock model wallUtc monotonicMs = advance model wallUtc monotonicMs := by
    rw [tickClock_eq, if_neg hring]
  have hscheduled : ∀ alarm ∈ model.alarms,
      ready (advance model wallUtc monotonicMs) false alarm = false := by
    intro alarm hmem
    simp only [ready, Bool.false_eq_true, if_false, decide_eq_false_iff_not, not_and, not_le]
    exact hdue.scheduled alarm hmem
  have hsnoozed : ∀ alarm ∈ model.alarms,
      ready (advance model wallUtc monotonicMs) true alarm = false := by
    intro alarm hmem
    simp only [ready, if_true, decide_eq_false_iff_not, not_and, not_le]
    exact hdue.snooze alarm hmem
  obtain ⟨hphase, hcreated⟩ := @tickAlarms_of_quiet (advance model wallUtc monotonicMs) false
    hscheduled (advance model wallUtc monotonicMs).alarms.length
  obtain ⟨hphase', hcreated'⟩ := @tickAlarms_of_quiet (advance model wallUtc monotonicMs) true
    hsnoozed (advance model wallUtc monotonicMs).alarms.length
  have htimer : tickTimer (advance model wallUtc monotonicMs) =
      (.ok, passed model wallUtc monotonicMs) ∧
        createdTimer (advance model wallUtc monotonicMs) = [] := by
    by_cases hrun : model.timer.state = .running
    · have hlater := hdue.timer hrun
      have hleft : timerRemaining (advance model wallUtc monotonicMs) =
          model.timer.deadlineMs - monotonicMs :=
        @timerRemaining_running (advance model wallUtc monotonicMs) hrun
      have hne : ¬ model.timer.deadlineMs - monotonicMs = 0 := by omega
      rw [tickTimer_eq, createdTimer, hleft, if_neg hne, passed, if_pos hrun,
        if_pos (show (advance model wallUtc monotonicMs).timer.state = .running from hrun),
        if_neg (fun hall => hne hall.2.1)]
      exact ⟨rfl, rfl⟩
    · rw [tickTimer_eq, createdTimer, passed, if_neg hrun,
        if_neg (show ¬ (advance model wallUtc monotonicMs).timer.state = .running from hrun),
        if_neg (fun hall => hrun hall.1)]
      exact ⟨rfl, rfl⟩
  have hback : ¬ monotonicMs < model.monotonicMs := Nat.not_lt.mpr hmono
  have hrange : ¬ (!validWall wallUtc) = true := by simp [hwall]
  simp only [tick, tickEvents, if_neg hrange, if_neg hback, hclock, hphase, hphase', hcreated,
    hcreated', List.map_nil, List.nil_append]
  exact htimer

end Clock
