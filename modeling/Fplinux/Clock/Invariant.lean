/-
The invariant of the clock owner's model (`clock-model.c`).

The rows, the ring slot with its queue, the missed history, the timer, the
stopwatch and the world clock each have a predicate over the fields they use;
`Inv` collects them.  The ring and its queue are looked at as one list of
pending events, without the time the ring started (`pending`): promotion does
not change it, a cancellation filters it, a submission appends to it.

Main results:
- `clearActive_spec`, `cancelEvents_spec`, `submitEvent_spec`: what the three
  primitives do to the pending events;
- `AlarmsOk.set`, `AlarmsOk.append`, `RingOk.drop_alarm`: rows that change;
- `alarmNextDue_some`: what the next occurrence of a schedule is.
-/
import Mathlib.Data.List.Nodup
import Fplinux.Clock.Wire

namespace Clock

/-! ### Alarms -/

/-- `due` is a time at which the schedule rings. -/
def Occurs (spec : AlarmSpec) (due : ℤ) : Prop :=
  match spec.schedule with
  | .once => due = spec.onceUtc
  | .weekly => ∃ localDay, due = weeklyTime spec localDay ∧ ringsOn spec localDay = true

/-- The label is text that `validateText` accepts. -/
def LabelOk (label : List UInt8) : Prop := validateText label true = .ok

/-- A specification as the request reader hands it out. -/
structure SpecOk (spec : AlarmSpec) : Prop where
  label : LabelOk spec.label
  valid : validSpec spec = true

structure AlarmOk (alarm : Alarm) : Prop where
  id_ne : alarm.id ≠ 0
  id_lt : alarm.id < 2 ^ 32
  generation_ne : alarm.generation ≠ 0
  generation_lt : alarm.generation < 2 ^ 32
  spec : SpecOk alarm.spec
  last : alarm.lastDueUtc = 0 ∨ validWall alarm.lastDueUtc = true ∧ alarm.lastDueUtc % 60 = 0
  enabled : alarm.spec.enabled = true → validWall alarm.nextDueUtc = true ∧
    alarm.lastDueUtc < alarm.nextDueUtc ∧ Occurs alarm.spec alarm.nextDueUtc
  disabled : alarm.spec.enabled = false → alarm.nextDueUtc = 0
  snooze_lt : alarm.snoozeDeadlineMs < 2 ^ 64

structure AlarmsOk (alarms : List Alarm) (nextAlarmId : ℕ) : Prop where
  length_le : alarms.length ≤ alarmLimit
  nodup : (alarms.map (·.id)).Nodup
  each : ∀ alarm ∈ alarms, AlarmOk alarm
  below : nextAlarmId ≠ 0 → ∀ alarm ∈ alarms, alarm.id < nextAlarmId
  next_lt : nextAlarmId < 2 ^ 32

/-! ### Events -/

structure EventOk (event : Event) : Prop where
  id_ne : event.id ≠ 0
  id_lt : event.id < 2 ^ 64
  kind : event.kind = .alarm ∧ event.sourceId ≠ 0 ∨
    event.kind = .timer ∧ event.sourceId = 0 ∧ event.snoozed = false
  source_lt : event.sourceId < 2 ^ 32
  generation_ne : event.generation ≠ 0
  generation_lt : event.generation < 2 ^ 32
  label : LabelOk event.label
  due : validWall event.dueWallUtc = true
  monotonic_lt : event.dueMonotonicMs < 2 ^ 64
  started_lt : event.ringStartedMs < 2 ^ 64

/-- The ring slot and the queue: an empty slot is clear and has no queue. -/
structure SlotsOk (active : Event) (queue : List Event) : Prop where
  slot : active = Event.zero ∧ queue = [] ∨ EventOk active ∧ active.missedReason = .none
  each : ∀ event ∈ queue, EventOk event ∧ event.missedReason = .none
  length_le : queue.length ≤ queueLimit

structure MissedOk (missed : List Event) (missedTotal : ℕ) : Prop where
  each : ∀ event ∈ missed, EventOk event ∧ event.missedReason ≠ .none
  length_le : missed.length ≤ missedLimit
  total_ge : missed.length ≤ missedTotal
  total_lt : missedTotal < 2 ^ 64

/-- An event without the time its ring started. -/
def Event.unrung (event : Event) : Event := { event with ringStartedMs := 0 }

/-- The events that ring or wait, oldest first. -/
def pending (active : Event) (queue : List Event) : List Event :=
  (if active.kind = .none then [] else [active.unrung]) ++ queue.map Event.unrung

/-- How the pending events hang together, and with the alarms and the timer. -/
structure RingOk (events : List Event) (alarms : List Alarm) (timer : Timer) (nextEventId : ℕ) :
    Prop where
  sorted : events.Pairwise (·.id < ·.id)
  below : nextEventId ≠ 0 → ∀ event ∈ events, event.id < nextEventId
  alarm : ∀ event ∈ events, event.kind = .alarm →
    ∃ alarm ∈ alarms, alarm.id = event.sourceId ∧ alarm.generation = event.generation
  timer : ∀ event ∈ events, event.kind = .timer →
    timer.state = .finished ∧ timer.generation = event.generation
  single : (events.filter (·.kind = .timer)).length ≤ 1
  next_lt : nextEventId < 2 ^ 64

variable {alarms : List Alarm} {events : List Event} {nextEventId index : ℕ} {timer : Timer}
  {event : Event} {α : Type*} {alarm : Alarm}

theorem RingOk.sublist {events' : List Event} (h : RingOk events alarms timer nextEventId)
    (hsub : events'.Sublist events) :
    RingOk events' alarms timer nextEventId where
  sorted := h.sorted.sublist hsub
  below hne event hmem := h.below hne event (hsub.subset hmem)
  alarm event hmem := h.alarm event (hsub.subset hmem)
  timer event hmem := h.timer event (hsub.subset hmem)
  single := Nat.le_trans (hsub.filter _).length_le h.single
  next_lt := h.next_lt

theorem RingOk.alarms_mono {alarms' : List Alarm} (h : RingOk events alarms timer nextEventId)
    (hkeep : ∀ event ∈ events, event.kind = .alarm → ∀ alarm ∈ alarms,
      alarm.id = event.sourceId → alarm.generation = event.generation →
      ∃ alarm' ∈ alarms', alarm'.id = event.sourceId ∧ alarm'.generation = event.generation) :
    RingOk events alarms' timer nextEventId where
  sorted := h.sorted
  below := h.below
  alarm event hmem hkind := by
    obtain ⟨alarm, halarm, hid, hgen⟩ := h.alarm event hmem hkind
    exact hkeep event hmem hkind alarm halarm hid hgen
  timer := h.timer
  single := h.single
  next_lt := h.next_lt

/-! ### Timer, stopwatch, world clock -/

structure TimerOk (timer : Timer) (monotonicMs : ℕ) : Prop where
  generation_ne : timer.generation ≠ 0
  generation_lt : timer.generation < 2 ^ 32
  duration_le : timer.durationSeconds ≤ timerMaxSeconds
  remaining_le : timer.remainingMs ≤ timerMaxSeconds * 1000
  deadline_lt : timer.deadlineMs < 2 ^ 64
  running : timer.state = .running → timer.deadlineMs ≤ monotonicMs + timerMaxSeconds * 1000

structure StopwatchOk (stopwatch : Stopwatch) : Prop where
  elapsed_lt : stopwatch.elapsedMs < 2 ^ 64
  length_le : stopwatch.laps.length ≤ lapLimit
  laps : ∀ lap ∈ stopwatch.laps, lap.elapsedMs < 2 ^ 64 ∧ lap.differenceMs < 2 ^ 64

structure WorldOk (world : List WorldEntry) (nextWorldId : ℕ) : Prop where
  length_le : world.length ≤ worldLimit
  each : ∀ entry ∈ world, entry.id ≠ 0 ∧ entry.id < 2 ^ 32 ∧
    worldOffsetValid entry.offsetMinutes = true
  nodup : (world.map (·.id)).Nodup
  offsets : (world.map (·.offsetMinutes)).Nodup
  below : nextWorldId ≠ 0 → ∀ entry ∈ world, entry.id < nextWorldId
  next_lt : nextWorldId < 2 ^ 32

/-- The invariant of the model. -/
structure Inv (model : Model) : Prop where
  wall : validWall model.wallUtc = true
  monotonic_lt : model.monotonicMs < 2 ^ 64
  snooze : 1 ≤ model.snoozeMinutes ∧ model.snoozeMinutes ≤ 30
  lastAlarm : model.lastAlarmHour < 24 ∧ model.lastAlarmMinute < 60
  alarms : AlarmsOk model.alarms model.nextAlarmId
  slots : SlotsOk model.active model.queue
  ring : RingOk (pending model.active model.queue) model.alarms model.timer model.nextEventId
  missed : MissedOk model.missed model.missedTotal
  timer : TimerOk model.timer model.monotonicMs
  stopwatch : StopwatchOk model.stopwatch
  world : WorldOk model.world model.nextWorldId

/-! ### The primitives on events -/

theorem EventOk.kind_ne (h : EventOk event) : event.kind ≠ .none := by
  rcases h.kind with ⟨hk, -⟩ | ⟨hk, -⟩
  · simp [hk]
  · simp [hk]

theorem EventOk.start {event : Event} (h : EventOk event) {monotonicMs : ℕ}
    (hlt : monotonicMs < 2 ^ 64) : EventOk { event with ringStartedMs := monotonicMs } :=
  { h with started_lt := hlt }

theorem pending_of_ne {active : Event} {queue : List Event} (h : active.kind ≠ .none) :
    pending active queue = active.unrung :: queue.map Event.unrung := by
  rw [pending, if_neg h]
  rfl

theorem pending_started (h : event.kind ≠ .none) (queue : List Event) (monotonicMs : ℕ) :
    pending { event with ringStartedMs := monotonicMs } queue =
      event.unrung :: queue.map Event.unrung := pending_of_ne h

theorem clearActive_spec {model : Model} (hslots : ∀ event ∈ model.queue,
      EventOk event ∧ event.missedReason = .none) (hlen : model.queue.length ≤ queueLimit)
    (hmono : model.monotonicMs < 2 ^ 64) :
    ∃ active queue, clearActive model = { model with active := active, queue := queue } ∧
      SlotsOk active queue ∧ pending active queue = model.queue.map Event.unrung := by
  cases hq : model.queue with
  | nil =>
    refine ⟨Event.zero, [], ?_, ⟨.inl ⟨rfl, rfl⟩, by simp, by simp⟩, rfl⟩
    simp only [clearActive, promoteEvent, Event.zero, hq]
  | cons event rest =>
    rw [hq] at hslots hlen
    obtain ⟨hok, hreason⟩ := hslots event (by simp)
    refine ⟨{ event with ringStartedMs := model.monotonicMs }, rest, ?_, ⟨?_, ?_, ?_⟩, ?_⟩
    · simp only [clearActive, promoteEvent, Event.zero, hq]
    · exact .inr ⟨hok.start hmono, hreason⟩
    · exact fun other hmem => hslots other (by simp [hmem])
    · simp only [List.length_cons] at hlen
      omega
    · exact pending_started hok.kind_ne rest model.monotonicMs

theorem cancelEvents_spec {model : Model} (hslots : SlotsOk model.active model.queue)
    (hmono : model.monotonicMs < 2 ^ 64) {kind : EventKind} (hkind : kind ≠ .none)
    (sourceId : ℕ) :
    ∃ active queue, cancelEvents model kind sourceId =
        { model with active := active, queue := queue } ∧
      SlotsOk active queue ∧
      pending active queue = (pending model.active model.queue).filter
        fun event => !(event.kind = kind ∧ event.sourceId = sourceId) := by
  set keep : Event → Bool := fun event => !(event.kind = kind ∧ event.sourceId = sourceId)
    with hkeep
  have hmap : (model.queue.filter keep).map Event.unrung =
      (model.queue.map Event.unrung).filter keep := by
    rw [List.filter_map]
    rfl
  have hqueue : ∀ event ∈ model.queue.filter keep, EventOk event ∧ event.missedReason = .none :=
    fun event hmem => hslots.each event (List.mem_filter.mp hmem).1
  have hlen : (model.queue.filter keep).length ≤ queueLimit :=
    Nat.le_trans (List.length_filter_le _ _) hslots.length_le
  simp only [cancelEvents, ← hkeep]
  split
  · rename_i hactive
    obtain ⟨active, queue, heq, hok, hpend⟩ :=
      @clearActive_spec { model with queue := model.queue.filter keep } hqueue hlen hmono
    refine ⟨active, queue, heq, hok, ?_⟩
    have hdrop : keep model.active.unrung = false := by
      simp [hkeep, Event.unrung, hactive.1, hactive.2]
    rw [hpend, pending_of_ne (by rw [hactive.1]; exact hkind), List.filter_cons_of_neg (by simp [hdrop])]
    exact hmap
  · rename_i hactive
    refine ⟨model.active, model.queue.filter keep, rfl, ⟨?_, hqueue, hlen⟩, ?_⟩
    · rcases hslots.slot with ⟨hz, hnil⟩ | hok
      · exact .inl ⟨hz, by simp [hnil]⟩
      · exact .inr hok
    · by_cases hnone : model.active.kind = .none
      · rw [pending, pending, if_pos hnone, List.nil_append, List.nil_append]
        exact hmap
      · have hstay : keep model.active.unrung = true := by
          simpa [hkeep, Event.unrung, ← not_and_or] using hactive
        rw [pending_of_ne hnone, pending_of_ne hnone, List.filter_cons_of_pos hstay, hmap]

theorem missedOk_recordMissed {model : Model} (h : MissedOk model.missed model.missedTotal)
    (hev : EventOk event) {reason : MissedReason} (hreason : reason ≠ .none) :
    ∃ missed total, recordMissed model event reason =
        { model with missed := missed, missedTotal := total } ∧ MissedOk missed total := by
  refine ⟨_, _, rfl, ?_⟩
  have hsat := Word.satAdd_lt (b := 1) h.total_lt
  have hlen := h.length_le
  have htotal := h.total_ge
  have hlt := h.total_lt
  refine ⟨?_, ?_, ?_, hsat⟩
  · intro other hmem
    rcases List.mem_append.mp hmem with hold | hnew
    · refine h.each other ?_
      split at hold
      · exact List.mem_of_mem_drop hold
      · exact hold
    · rw [List.mem_singleton] at hnew
      rw [hnew]
      exact ⟨{ hev with }, hreason⟩
  · rw [missedLimit] at hlen ⊢
    rw [List.length_append, List.length_singleton]
    split
    · rw [List.length_drop]
      omega
    · omega
  · rw [List.length_append, List.length_singleton, saturatedAdd, Word.satAdd, Word.maxVal]
    rw [missedLimit] at hlen ⊢
    split
    · rw [List.length_drop]
      split
      · omega
      · omega
    · split
      · omega
      · omega

theorem submitEvent_spec {model : Model} (hslots : SlotsOk model.active model.queue)
    (hmissed : MissedOk model.missed model.missedTotal) (hmono : model.monotonicMs < 2 ^ 64)
    {event : Event} (hev : EventOk event) (hreason : event.missedReason = .none) (late : Bool) :
    ∃ active queue missed total, submitEvent model event late =
        { model with
          active := active
          queue := queue
          missed := missed
          missedTotal := total } ∧
      SlotsOk active queue ∧ MissedOk missed total ∧
      (pending active queue = pending model.active model.queue ∨
        pending active queue = pending model.active model.queue ++ [event.unrung]) := by
  rw [submitEvent]
  split
  · obtain ⟨missed, total, heq, hok⟩ := missedOk_recordMissed hmissed hev
      (show MissedReason.late ≠ .none by simp)
    exact ⟨model.active, model.queue, missed, total, heq, hslots, hok, .inl rfl⟩
  · split
    · rename_i hnone
      -- An empty slot has an empty queue.
      have hnil : model.active = Event.zero ∧ model.queue = [] := by
        rcases hslots.slot with hz | ⟨hok, -⟩
        · exact hz
        · exact absurd hnone hok.kind_ne
      refine ⟨{ event with ringStartedMs := model.monotonicMs }, model.queue, model.missed,
        model.missedTotal, rfl, ⟨?_, ?_, ?_⟩, hmissed, .inr ?_⟩
      · exact .inr ⟨hev.start hmono, hreason⟩
      · exact hslots.each
      · exact hslots.length_le
      · rw [pending_started hev.kind_ne, hnil.1, hnil.2]
        rfl
    · rename_i hactive
      split
      · rename_i hroom
        refine ⟨model.active, model.queue ++ [event], model.missed, model.missedTotal, rfl,
          ⟨?_, ?_, ?_⟩, hmissed, .inr ?_⟩
        · rcases hslots.slot with ⟨hz, -⟩ | hok
          · rw [hz] at hactive
            exact absurd rfl hactive
          · exact .inr hok
        · intro other hmem
          rcases List.mem_append.mp hmem with hold | hnew
          · exact hslots.each other hold
          · rw [List.mem_singleton] at hnew
            rw [hnew]
            exact ⟨hev, hreason⟩
        · rw [List.length_append, List.length_singleton]
          omega
        · rw [pending, pending, List.map_append, List.append_assoc]
          rfl
      · obtain ⟨missed, total, heq, hok⟩ := missedOk_recordMissed hmissed hev
          (show MissedReason.queueFull ≠ .none by simp)
        exact ⟨model.active, model.queue, missed, total, heq, hslots, hok, .inl rfl⟩

/-! ### Rows -/

theorem findFrom_some {p : α → Bool} {l : List α} {start : ℕ} {entry : α}
    (h : findFrom p l start = some (index, entry)) :
    ∃ k, index = start + k ∧ l[k]? = some entry ∧ p entry = true := by
  induction l generalizing start with
  | nil => simp [findFrom] at h
  | cons first rest ih =>
    rw [findFrom] at h
    split at h
    · rename_i hp
      simp only [Option.some.injEq, Prod.mk.injEq] at h
      obtain ⟨rfl, rfl⟩ := h
      exact ⟨0, rfl, rfl, hp⟩
    · obtain ⟨k, rfl, hget, hp⟩ := ih h
      exact ⟨k + 1, by omega, by simpa using hget, hp⟩

theorem findAlarm_some {model : Model} {id : ℕ} (h : findAlarm model id = some (index, alarm)) :
    model.alarms[index]? = some alarm ∧ alarm.id = id := by
  obtain ⟨k, rfl, hget, hp⟩ := findFrom_some h
  rw [Nat.zero_add]
  exact ⟨hget, by simpa using hp⟩

theorem map_set_same {β : Type*} {l : List α} {entry entry' : α} {f : α → β}
    (hget : l[index]? = some entry) (hf : f entry' = f entry) :
    (l.set index entry').map f = l.map f := by
  rw [List.map_set, hf]
  refine List.ext_getElem? fun k => ?_
  rw [List.getElem?_set]
  split
  · rename_i heq
    subst heq
    have hlt := (List.getElem?_eq_some_iff.mp hget).1
    rw [List.length_map, if_pos hlt, List.getElem?_map, hget]
    rfl
  · rfl

theorem AlarmsOk.set {alarms : List Alarm} {nextAlarmId index : ℕ} {alarm alarm' : Alarm}
    (h : AlarmsOk alarms nextAlarmId) (hget : alarms[index]? = some alarm) (hok : AlarmOk alarm')
    (hid : alarm'.id = alarm.id) : AlarmsOk (alarms.set index alarm') nextAlarmId where
  length_le := by
    rw [List.length_set]
    exact h.length_le
  nodup := by
    rw [map_set_same hget hid]
    exact h.nodup
  each other hmem := by
    rcases List.mem_or_eq_of_mem_set hmem with hold | rfl
    · exact h.each other hold
    · exact hok
  below hne other hmem := by
    rcases List.mem_or_eq_of_mem_set hmem with hold | rfl
    · exact h.below hne other hold
    · rw [hid]
      exact h.below hne alarm (List.mem_of_getElem? hget)
  next_lt := h.next_lt

theorem AlarmsOk.append {nextAlarmId : ℕ} (h : AlarmsOk alarms nextAlarmId) (hne : nextAlarmId ≠ 0)
    (hroom : alarms.length ≠ alarmLimit) (hok : AlarmOk alarm) (hid : alarm.id = nextAlarmId) :
    AlarmsOk (alarms ++ [alarm]) (Word.add 32 nextAlarmId 1) where
  length_le := by
    have hlen := h.length_le
    rw [List.length_append, List.length_singleton]
    omega
  nodup := by
    rw [List.map_append, List.nodup_append]
    refine ⟨h.nodup, List.nodup_singleton _, ?_⟩
    intro other hmem new hnew
    obtain ⟨alarm', halarm', rfl⟩ := List.mem_map.mp hmem
    have hbelow := h.below hne alarm' halarm'
    rw [List.map_singleton, List.mem_singleton] at hnew
    omega
  each other hmem := by
    rcases List.mem_append.mp hmem with hold | hnew
    · exact h.each other hold
    · rw [List.mem_singleton] at hnew
      rw [hnew]
      exact hok
  below hne' other hmem := by
    rw [Word.add_one_of_ne_zero h.next_lt hne']
    rcases List.mem_append.mp hmem with hold | hnew
    · have hbelow := h.below hne other hold
      omega
    · rw [List.mem_singleton] at hnew
      rw [hnew, hid]
      exact Nat.lt_succ_self _
  next_lt := Word.add_lt _ _ _

theorem AlarmsOk.eraseIdx {nextAlarmId : ℕ} (h : AlarmsOk alarms nextAlarmId) (index : ℕ) :
    AlarmsOk (alarms.eraseIdx index) nextAlarmId where
  length_le := Nat.le_trans (List.length_eraseIdx_le _ _) h.length_le
  nodup := h.nodup.sublist ((List.eraseIdx_sublist _ _).map _)
  each other hmem := h.each other ((List.eraseIdx_sublist _ _).subset hmem)
  below hne other hmem := h.below hne other ((List.eraseIdx_sublist _ _).subset hmem)
  next_lt := h.next_lt

theorem mem_set_of_ne {l : List α} {entry entry' other : α} (hget : l[index]? = some entry)
    (hmem : other ∈ l) (hne : other ≠ entry) :
    other ∈ l.set index entry' := by
  obtain ⟨k, hk⟩ := List.mem_iff_getElem?.mp hmem
  have hki : index ≠ k := by
    rintro rfl
    rw [hget] at hk
    exact hne (Option.some.inj hk).symm
  exact List.mem_iff_getElem?.mpr ⟨k, by rw [List.getElem?_set_ne hki]; exact hk⟩

theorem RingOk.set_same {alarm' : Alarm} (h : RingOk events alarms timer nextEventId)
    (hget : alarms[index]? = some alarm) (hid : alarm'.id = alarm.id)
    (hgen : alarm'.generation = alarm.generation) :
    RingOk events (alarms.set index alarm') timer nextEventId := by
  refine h.alarms_mono fun event _ _ other hother hid' hgen' => ?_
  by_cases heq : other = alarm
  · subst heq
    have hlt := (List.getElem?_eq_some_iff.mp hget).1
    exact ⟨alarm', List.mem_set hlt alarm', by rw [hid, hid'], by rw [hgen, hgen']⟩
  · exact ⟨other, mem_set_of_ne hget hother heq, hid', hgen'⟩

theorem RingOk.drop_alarm {alarms' : List Alarm} {id : ℕ}
    (h : RingOk events alarms timer nextEventId)
    (hkeep : ∀ alarm ∈ alarms, alarm.id ≠ id → alarm ∈ alarms') :
    RingOk (events.filter fun event => !(event.kind = .alarm ∧ event.sourceId = id)) alarms' timer
      nextEventId := by
  refine (h.sublist (List.filter_sublist)).alarms_mono ?_
  intro event hmem hkind alarm halarm hid hgen
  refine ⟨alarm, hkeep alarm halarm ?_, hid, hgen⟩
  intro heq
  have hother := (List.mem_filter.mp hmem).2
  simp [hkind, ← hid, heq] at hother

/-! ### Schedules -/

theorem validWall_iff {wallUtc : ℤ} :
    validWall wallUtc = true ↔ wallMin ≤ wallUtc ∧ wallUtc ≤ wallMax := by
  simp [validWall]

theorem weeklyTime_mod (spec : AlarmSpec) (localDay : ℤ) : weeklyTime spec localDay % 60 = 0 := by
  rw [weeklyTime, secondsPerDay]
  omega

/-- **What the next occurrence is**: in range, after `after`, a full minute, and
a time at which the schedule rings. -/
theorem alarmNextDue_some {spec : AlarmSpec} {after due : ℤ} (h : alarmNextDue spec after = some due) :
    validWall due = true ∧ after < due ∧ due % 60 = 0 ∧ Occurs spec due := by
  rw [alarmNextDue] at h
  split at h
  · simp at h
  · rename_i hvalid
    have hspec : validSpec spec = true := by
      cases hs : validSpec spec
      · simp [hs] at hvalid
      · rfl
    rw [Occurs]
    cases hsched : spec.schedule with
    | once =>
      rw [hsched] at h
      simp only at h
      split at h
      · simp at h
      · obtain rfl := Option.some.inj h
        rw [validSpec, hsched] at hspec
        split at hspec
        · simp at hspec
        · simp only [decide_eq_true_eq] at hspec
          exact ⟨hspec.1, by omega, hspec.2.1, rfl⟩
    | weekly =>
      rw [hsched] at h
      obtain ⟨offset, -, hoff⟩ := List.exists_of_findSome?_eq_some h
      simp only at hoff
      split at hoff
      · rename_i hcand
        obtain rfl := Option.some.inj hoff
        exact ⟨hcand.2.1, hcand.1, weeklyTime_mod _ _, _, rfl, hcand.2.2⟩
      · simp at hoff

theorem armedDue_some {spec : AlarmSpec} {after due : ℤ} (h : armedDue spec after = some due) :
    (spec.enabled = true → validWall due = true ∧ after < due ∧ Occurs spec due) ∧
      (spec.enabled = false → due = 0) := by
  rw [armedDue] at h
  split at h
  · rename_i hen
    obtain ⟨hwall, hlt, -, hocc⟩ := alarmNextDue_some h
    exact ⟨fun _ => ⟨hwall, hlt, hocc⟩, fun hdis => absurd hen (by simp [hdis])⟩
  · rename_i hen
    obtain rfl := Option.some.inj h
    exact ⟨fun hen' => absurd hen' hen, fun _ => rfl⟩

end Clock
