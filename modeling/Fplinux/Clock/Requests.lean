/-
Requests keep the invariant, and the models an owner reaches
(`clock-model.c`, `clock-wire.c`).

Main results:
- one lemma for each operation that a request can name, and `inv_applyChecked`;
- `inv_of_reachable`: the invariant holds after every run of ticks and requests;
- `consistent_of_reachable`: what it says of the ring slot, the queue, the timer
  and the rows.
-/
import Fplinux.Lib.Run
import Fplinux.Clock.Tick

namespace Clock

open Option (bind_eq_bind bind_eq_some_iff)

/-! ### Requests -/

variable {spec : AlarmSpec} {model : Model} {object : Json} {count : ℕ} {request request' : Request}

theorem rememberAlarmTime_spec (model : Model) (h : validSpec spec = true) :
    ∃ hour minute, rememberAlarmTime model spec =
        { model with lastAlarmHour := hour, lastAlarmMinute := minute } ∧ hour < 24 ∧ minute < 60 := by
  rw [rememberAlarmTime]
  cases hsched : spec.schedule with
  | once =>
    refine ⟨_, _, rfl, ?_, ?_⟩
    · rw [secondsPerDay]
      omega
    · omega
  | weekly =>
    rw [validSpec, hsched] at h
    split at h
    · simp at h
    · simp only [decide_eq_true_eq] at h
      exact ⟨_, _, rfl, h.2.1, h.2.2.1⟩

theorem inv_alarmAdd (h : Inv model) (hlabel : LabelOk spec.label) :
    Inv (alarmAdd model spec).2 := by
  rw [alarmAdd]
  refine kept_check h fun hvalid => ?_
  have hspec : validSpec spec = true := by simpa using hvalid
  split
  · exact h
  · rename_i due hdue
    refine kept_check h fun hroom => ?_
    refine kept_check h fun hne => ?_
    obtain ⟨hen, hdis⟩ := armedDue_some hdue
    have hnext := h.alarms.next_lt
    have hwall := validWall_iff.mp h.wall
    have hok : AlarmOk ⟨model.nextAlarmId, 1, spec, due, 0, false, 0⟩ :=
      { id_ne := hne
        id_lt := hnext
        generation_ne := by simp
        generation_lt := by simp
        spec := ⟨hlabel, hspec⟩
        last := .inl rfl
        enabled := fun he => by
          obtain ⟨hw, hlt, hocc⟩ := hen he
          rw [wallMin] at hwall
          exact ⟨hw, by simp only; omega, hocc⟩
        disabled := hdis
        snooze_lt := by simp }
    obtain ⟨hour, minute, heq, hhour, hminute⟩ := rememberAlarmTime_spec
      { model with
        alarms := model.alarms ++ [⟨model.nextAlarmId, 1, spec, due, 0, false, 0⟩]
        nextAlarmId := Word.add 32 model.nextAlarmId 1 } hspec
    simp only
    rw [heq]
    exact
      { h with
        lastAlarm := ⟨hhour, hminute⟩
        alarms := h.alarms.append hne hroom hok rfl
        ring := h.ring.alarms_mono fun event _ _ alarm halarm hid hgen =>
          ⟨alarm, List.mem_append_left _ halarm, hid, hgen⟩ }

theorem inv_alarmEdit (h : Inv model) (hlabel : LabelOk spec.label) (id : ℕ) (cancelActive : Bool) :
    Inv (alarmEdit model id spec cancelActive).2 := by
  rw [alarmEdit]
  refine kept_check h fun hvalid => ?_
  have hspec : validSpec spec = true := by simpa using hvalid
  split
  · exact h
  · rename_i index alarm hfind
    obtain ⟨hget, hid⟩ := findAlarm_some hfind
    have hold := h.alarms.each alarm (List.mem_of_getElem? hget)
    refine kept_check h fun _ => ?_
    refine kept_check h fun hgen => ?_
    simp only
    split
    · exact h
    · rename_i due hdue
      obtain ⟨hen, hdis⟩ := armedDue_some hdue
      have hgenlt := hold.generation_lt
      rw [Word.maxVal] at hgen
      have hok : AlarmOk
          { alarm with
            spec := spec
            generation := alarm.generation + 1
            snoozed := false
            snoozeDeadlineMs := 0
            nextDueUtc := due } :=
        { id_ne := hold.id_ne
          id_lt := hold.id_lt
          generation_ne := by simp
          generation_lt := by simp only; omega
          spec := ⟨hlabel, hspec⟩
          last := hold.last
          enabled := fun he => by
            obtain ⟨hw, hlt, hocc⟩ := hen he
            refine ⟨hw, ?_, hocc⟩
            simp only
            split at hlt
            · omega
            · omega
          disabled := hdis
          snooze_lt := by simp }
      let edited : Model :=
        { model with
          alarms := model.alarms.set index
            { alarm with
              spec := spec
              generation := alarm.generation + 1
              snoozed := false
              snoozeDeadlineMs := 0
              nextDueUtc := due } }
      obtain ⟨hour, minute, heq, hhour, hminute⟩ := rememberAlarmTime_spec edited hspec
      rw [heq]
      obtain ⟨active, queue, heq', hslots, hpend⟩ :=
        @cancelEvents_spec { edited with lastAlarmHour := hour, lastAlarmMinute := minute }
          h.slots h.monotonic_lt .alarm (by simp) id
      rw [heq']
      refine
        { h with
          lastAlarm := ⟨hhour, hminute⟩
          alarms := h.alarms.set hget hok rfl
          slots := hslots
          ring := ?_ }
      rw [hpend]
      refine h.ring.drop_alarm fun other hmem hne => mem_set_of_ne hget hmem ?_
      rintro rfl
      exact hne hid

theorem inv_alarmEnable (h : Inv model) (id : ℕ) (enabled cancelActive : Bool) :
    Inv (alarmEnable model id enabled cancelActive).2 := by
  rw [alarmEnable]
  split
  · exact h
  · rename_i index alarm hfind
    refine kept_check h fun _ => ?_
    refine kept_check h fun _ => ?_
    have hmem := List.mem_of_getElem? (findAlarm_some hfind).1
    refine inv_alarmEdit h ?_ id cancelActive
    exact (h.alarms.each alarm hmem).spec.label

theorem inv_alarmDelete (h : Inv model) (id : ℕ) (cancelActive : Bool) :
    Inv (alarmDelete model id cancelActive).2 := by
  rw [alarmDelete]
  split
  · exact h
  · rename_i index alarm hfind
    obtain ⟨hget, hid⟩ := findAlarm_some hfind
    refine kept_check h fun _ => ?_
    obtain ⟨active, queue, heq, hslots, hpend⟩ :=
      @cancelEvents_spec model h.slots h.monotonic_lt .alarm (by simp) id
    simp only
    rw [heq]
    refine
      { h with
        alarms := h.alarms.eraseIdx index
        slots := hslots
        ring := ?_ }
    rw [hpend]
    refine h.ring.drop_alarm fun other hmem hne => ?_
    obtain ⟨k, hk⟩ := List.mem_iff_getElem?.mp hmem
    refine List.mem_eraseIdx_iff_getElem?.mpr ⟨k, ?_, hk⟩
    rintro rfl
    rw [hget] at hk
    obtain rfl := Option.some.inj hk
    exact hne hid

theorem AlarmsOk.set_snooze {alarms : List Alarm} {nextAlarmId index : ℕ} {alarm : Alarm}
    (h : AlarmsOk alarms nextAlarmId) (hget : alarms[index]? = some alarm) (snoozed : Bool)
    {deadline : ℕ} (hlt : deadline < 2 ^ 64) :
    AlarmsOk (alarms.set index { alarm with snoozed := snoozed, snoozeDeadlineMs := deadline })
      nextAlarmId := by
  have hok := h.each alarm (List.mem_of_getElem? hget)
  exact h.set hget { hok with snooze_lt := hlt } rfl

theorem inv_alarmCancelSnooze (h : Inv model) (id : ℕ) : Inv (alarmCancelSnooze model id).2 := by
  rw [alarmCancelSnooze]
  split
  · exact h
  · rename_i index alarm hfind
    have hget := (findAlarm_some hfind).1
    exact
      { h with
        alarms := h.alarms.set_snooze hget false (by simp)
        ring := h.ring.set_same hget rfl rfl }

theorem inv_clearActive (h : Inv model) (hactive : model.active.kind ≠ .none) :
    Inv (clearActive model) := by
  obtain ⟨active, queue, heq, hslots, hpend⟩ :=
    clearActive_spec h.slots.each h.slots.length_le h.monotonic_lt
  rw [heq]
  refine { h with slots := hslots, ring := h.ring.sublist ?_ }
  rw [hpend, pending_of_ne hactive]
  exact List.sublist_cons_self _ _

theorem inv_dismiss (h : Inv model) (eventId : ℕ) : Inv (dismiss model eventId).2 := by
  rw [dismiss]
  refine kept_check h fun hactive => ?_
  refine kept_check h fun _ => ?_
  exact inv_clearActive h hactive

theorem inv_snooze (h : Inv model) (eventId minutes : ℕ) :
    Inv (snooze model eventId minutes).2 := by
  simp only [snooze]
  generalize (if minutes = 0 then model.snoozeMinutes else minutes) = minutes'
  refine kept_check h fun _ => ?_
  refine kept_check h fun _ => ?_
  refine kept_check h fun _ => ?_
  refine kept_check h fun _ => ?_
  split
  · exact h
  · rename_i index alarm hfind
    have hget := (findAlarm_some hfind).1
    refine kept_check h fun _ => ?_
    refine kept_check h fun hroom => ?_
    have hlt := h.monotonic_lt
    rw [Word.maxVal] at hroom
    refine inv_dismiss ?_ eventId
    exact
      { h with
        alarms := h.alarms.set_snooze hget true (by omega)
        ring := h.ring.set_same hget rfl rfl }

theorem SlotsOk.timer_source {active : Event} {queue : List Event} (h : SlotsOk active queue) :
    ∀ event ∈ pending active queue, event.kind = .timer → event.sourceId = 0 := by
  have hsource : ∀ {event : Event}, EventOk event → event.kind = .timer → event.sourceId = 0 := by
    intro event hok hkind
    rcases hok.kind with ⟨halarm, -⟩ | ⟨-, hzero, -⟩
    · rw [hkind] at halarm
      simp at halarm
    · exact hzero
  intro event hmem hkind
  rcases List.mem_append.mp hmem with hact | hque
  · rcases h.slot with ⟨rfl, -⟩ | ⟨hok, -⟩
    · simp [Event.zero] at hact
    · rw [if_neg hok.kind_ne, List.mem_singleton] at hact
      subst hact
      show active.sourceId = 0
      exact hsource hok hkind
  · obtain ⟨queued, hqueued, rfl⟩ := List.mem_map.mp hque
    show queued.sourceId = 0
    exact hsource (h.each queued hqueued).1 hkind

theorem inv_timerSet (h : Inv model) (seconds : ℕ) : Inv (timerSet model seconds).2 := by
  rw [timerSet]
  refine kept_check h fun hseconds => ?_
  refine kept_check h fun hgen => ?_
  have hgenlt := h.timer.generation_lt
  rw [Word.maxVal] at hgen
  simp only
  obtain ⟨active, queue, heq, hslots, hpend⟩ :=
    @cancelEvents_spec
      { model with timer := ⟨.stopped, model.timer.generation + 1, seconds, seconds * 1000, 0⟩ }
      h.slots h.monotonic_lt .timer (by simp) 0
  rw [heq]
  refine { h with slots := hslots, ring := ?_, timer := ⟨?_, ?_, ?_, ?_, ?_, ?_⟩ }
  · -- No event of the timer is left.
    rw [hpend]
    have hring := h.ring.sublist (List.filter_sublist (p := fun event : Event =>
      !(event.kind = .timer ∧ event.sourceId = 0)))
    refine { hring with timer := fun event hmem hkind => ?_ }
    obtain ⟨hold, hother⟩ := List.mem_filter.mp hmem
    have hzero := h.slots.timer_source event hold hkind
    simp [hkind, hzero] at hother
  · simp
  · simp only
    omega
  · simp only
    omega
  · simp only
    omega
  · simp
  · simp

theorem inv_timerRun (h : Inv model) (hstate : model.timer.state ≠ .finished) :
    Inv (timerRun model).2 := by
  rw [timerRun]
  refine kept_check h fun hroom => ?_
  have hlt := h.monotonic_lt
  have hrem := h.timer.remaining_le
  rw [Word.maxVal] at hroom
  refine { h with ring := ?_, timer := ?_ }
  · refine { h.ring with timer := fun event hmem hkind => ?_ }
    exact absurd (h.ring.timer event hmem hkind).1 hstate
  · exact
      { h.timer with
        deadline_lt := by simp only; omega
        running := fun _ => Nat.add_le_add_left hrem _ }

theorem inv_timerStart (h : Inv model) : Inv (timerStart model).2 := by
  rw [timerStart]
  refine kept_check h fun _ => ?_
  refine kept_check h fun hstate => ?_
  refine inv_timerRun h fun hfin => hstate ?_
  rw [hfin]
  simp

theorem inv_timerResume (h : Inv model) : Inv (timerResume model).2 := by
  rw [timerResume]
  refine kept_check h fun hstate => ?_
  refine inv_timerRun h fun hfin => hstate ?_
  rw [hfin]
  simp

theorem inv_timerPause (h : Inv model) : Inv (timerPause model).2 := by
  rw [timerPause]
  refine kept_check h fun hstate => ?_
  refine { h with ring := ?_, timer := ?_ }
  · refine { h.ring with timer := fun event hmem hkind => ?_ }
    have hfin := (h.ring.timer event hmem hkind).1
    simp [hfin] at hstate
  · exact
      { h.timer with
        remaining_le := timerRemaining_le h.timer
        deadline_lt := by simp
        running := fun hrun => absurd hrun (by simp) }

theorem inv_timerRestart (h : Inv model) : Inv (timerRestart model).2 := by
  rw [timerRestart]
  refine kept_check h fun _ => ?_
  simp only
  refine kept_check h fun _ => ?_
  have hstop := inv_timerSet h model.timer.durationSeconds
  rw [← timerStop] at hstop
  split
  · rename_i stopped heq
    rw [heq] at hstop
    exact inv_timerStart hstop
  · exact hstop

theorem inv_stopwatchLap (h : Inv model) : Inv (stopwatchLap model).2 := by
  rw [stopwatchLap]
  refine kept_check h fun _ => ?_
  refine kept_check h fun hroom => ?_
  have hlen := h.stopwatch.length_le
  refine { h with stopwatch := ⟨h.stopwatch.elapsed_lt, ?_, ?_⟩ }
  · simp only [List.length_append, List.length_singleton]
    omega
  · intro lap hmem
    rcases List.mem_append.mp hmem with hold | hnew
    · exact h.stopwatch.laps lap hold
    · rw [List.mem_singleton] at hnew
      rw [hnew]
      exact ⟨h.stopwatch.elapsed_lt, Word.sub_lt _ _ _⟩

theorem WorldOk.set {world : List WorldEntry} {nextWorldId index : ℕ} {entry : WorldEntry}
    (h : WorldOk world nextWorldId) (hget : world[index]? = some entry) {offset : ℤ}
    (hvalid : worldOffsetValid offset = true)
    (hfree : ∀ other ∈ world, other.id ≠ entry.id → other.offsetMinutes ≠ offset) :
    WorldOk (world.set index { entry with offsetMinutes := offset }) nextWorldId := by
  have hentry := List.mem_of_getElem? hget
  refine ⟨?_, ?_, ?_, ?_, ?_, h.next_lt⟩
  · rw [List.length_set]
    exact h.length_le
  · intro other hother
    rcases List.mem_or_eq_of_mem_set hother with hold | rfl
    · exact h.each other hold
    · obtain ⟨hne, hlt, -⟩ := h.each entry hentry
      exact ⟨hne, hlt, hvalid⟩
  · have hsame : (world.set index { entry with offsetMinutes := offset }).map (·.id) =
        world.map (·.id) := map_set_same hget rfl
    rw [hsame]
    exact h.nodup
  · by_cases hkept : offset = entry.offsetMinutes
    · have hsame : (world.set index { entry with offsetMinutes := offset }).map
          (·.offsetMinutes) = world.map (·.offsetMinutes) := map_set_same hget hkept
      rw [hsame]
      exact h.offsets
    · rw [List.map_set]
      refine h.offsets.set fun hmem => ?_
      obtain ⟨other, hother, heq⟩ := List.mem_map.mp hmem
      by_cases hid : other.id = entry.id
      · obtain rfl := List.inj_on_of_nodup_map h.nodup hother hentry hid
        exact hkept heq.symm
      · exact hfree other hother hid heq
  · intro hne other hother
    rcases List.mem_or_eq_of_mem_set hother with hold | rfl
    · exact h.below hne other hold
    · exact h.below hne entry hentry

theorem inv_worldAdd (h : Inv model) (offsetMinutes : ℤ) :
    Inv (worldAdd model offsetMinutes).2 := by
  rw [worldAdd]
  refine kept_check h fun hvalid => ?_
  refine kept_check h fun hfree => ?_
  refine kept_check h fun hroom => ?_
  refine kept_check h fun hne => ?_
  have hlen := h.world.length_le
  have hnext := h.world.next_lt
  refine { h with world := ⟨?_, ?_, ?_, ?_, ?_, Word.add_lt _ _ _⟩ }
  · rw [List.length_append, List.length_singleton]
    omega
  · intro entry hmem
    rcases List.mem_append.mp hmem with hold | hnew
    · exact h.world.each entry hold
    · rw [List.mem_singleton] at hnew
      rw [hnew]
      exact ⟨hne, hnext, by simpa using hvalid⟩
  · rw [List.map_append, List.nodup_append]
    refine ⟨h.world.nodup, List.nodup_singleton _, ?_⟩
    intro id hmem new hnew
    obtain ⟨entry, hentry, rfl⟩ := List.mem_map.mp hmem
    have hbelow := h.world.below hne entry hentry
    rw [List.map_singleton, List.mem_singleton] at hnew
    simp only at hnew
    omega
  · rw [List.map_append, List.nodup_append]
    refine ⟨h.world.offsets, List.nodup_singleton _, ?_⟩
    intro offset hmem new hnew
    obtain ⟨entry, hentry, rfl⟩ := List.mem_map.mp hmem
    rw [List.map_singleton, List.mem_singleton] at hnew
    rw [hnew]
    intro heq
    exact hfree (List.any_eq_true.mpr ⟨entry, hentry, by simpa using heq⟩)
  · intro hne' entry hmem
    simp only at hne' hmem ⊢
    rw [Word.add_one_of_ne_zero hnext hne']
    rcases List.mem_append.mp hmem with hold | hnew
    · have hbelow := h.world.below hne entry hold
      omega
    · rw [List.mem_singleton] at hnew
      rw [hnew]
      exact Nat.lt_succ_self _

theorem inv_worldEdit (h : Inv model) (id : ℕ) (offsetMinutes : ℤ) :
    Inv (worldEdit model id offsetMinutes).2 := by
  rw [worldEdit]
  refine kept_check h fun hvalid => ?_
  split
  · exact h
  · rename_i index entry hfind
    obtain ⟨k, rfl, hget, hid⟩ := findFrom_some hfind
    have hold := List.mem_of_getElem? hget
    rw [Nat.zero_add]
    refine kept_check h fun hfree => ?_
    refine { h with world := h.world.set hget (by simpa using hvalid) ?_ }
    intro other hother hne heq
    have hentry : entry.id = id := by simpa using hid
    exact hfree (List.any_eq_true.mpr ⟨other, hother, by simp [← hentry, hne, heq]⟩)

theorem inv_worldDelete (h : Inv model) (id : ℕ) : Inv (worldDelete model id).2 := by
  rw [worldDelete]
  split
  · exact h
  · rename_i index entry hfind
    have hsub := List.eraseIdx_sublist model.world index
    exact
      { h with
        world :=
          { length_le := Nat.le_trans (List.length_eraseIdx_le _ _) h.world.length_le
            each := fun other hmem => h.world.each other (hsub.subset hmem)
            nodup := h.world.nodup.sublist (hsub.map _)
            offsets := h.world.offsets.sublist (hsub.map _)
            below := fun hne other hmem => h.world.below hne other (hsub.subset hmem)
            next_lt := h.world.next_lt } }

/-! ### Checked requests -/

theorem textValue_labelOk {name : String} {label : List UInt8}
    (h : textValue object name true = some label) : LabelOk label := by
  rw [textValue] at h
  split at h
  · split at h
    · rename_i hok
      obtain rfl := Option.some.inj h
      exact hok
    · simp at h
  · simp at h

theorem readAlarmSpec_labelOk (h : readAlarmSpec object = some spec) : LabelOk spec.label := by
  rw [readAlarmSpec] at h
  split at h
  · simp only [bind_eq_bind, bind_eq_some_iff] at h
    obtain ⟨label, hlabel, schedule, -, onceUtc, -, hour, -, minute, -, days, -, enabled, -, h⟩ := h
    split at h
    · split at h
      · obtain rfl := Option.some.inj h
        exact textValue_labelOk hlabel
      · simp at h
    · split at h
      · obtain rfl := Option.some.inj h
        exact textValue_labelOk hlabel
      · simp at h
  · simp at h

theorem readArguments_labelOk (h : readArguments object request = some (request', count))
    (hlabel : LabelOk request.alarm.label) : LabelOk request'.alarm.label := by
  rw [readArguments] at h
  split at h
  case h_1 | h_2 =>
    simp only [bind_eq_bind, bind_eq_some_iff] at h
    obtain ⟨spec, -, alarm, halarm, h⟩ := h
    obtain ⟨rfl, -⟩ := Prod.mk.inj (Option.some.inj h)
    exact readAlarmSpec_labelOk halarm
  all_goals
    simp only [bind_eq_bind, bind_eq_some_iff, Option.ite_none_left_eq_some,
      Option.some.injEq, Prod.mk.injEq] at h
    grind

theorem readId_alarm (h : readId object request = some (request', count)) :
    request'.alarm = request.alarm := by
  rw [readId] at h
  split at h
  · simp only [bind_eq_bind, bind_eq_some_iff] at h
    obtain ⟨id, -, h⟩ := h
    split at h
    · simp at h
    · obtain ⟨rfl, -⟩ := Prod.mk.inj (Option.some.inj h)
      rfl
  · obtain ⟨rfl, -⟩ := Prod.mk.inj (Option.some.inj h)
    rfl

theorem readCancel_alarm (h : readCancel object request = some (request', count)) :
    request'.alarm = request.alarm := by
  rw [readCancel] at h
  split at h
  · simp only [bind_eq_bind, bind_eq_some_iff] at h
    obtain ⟨cancelActive, -, h⟩ := h
    obtain ⟨rfl, -⟩ := Prod.mk.inj (Option.some.inj h)
    rfl
  · obtain ⟨rfl, -⟩ := Prod.mk.inj (Option.some.inj h)
    rfl

theorem readRequest_labelOk (h : readRequest object = some request) :
    LabelOk request.alarm.label := by
  simp only [readRequest, bind_eq_bind, bind_eq_some_iff] at h
  obtain ⟨op, -, ⟨request1, ids⟩, h1, ⟨request2, cancels⟩, h2, ⟨request3, count⟩, h3, h⟩ := h
  have hlabel : LabelOk request2.alarm.label := by
    rw [readCancel_alarm h2, readId_alarm h1]
    exact labelOk_nil
  have hlabel3 := readArguments_labelOk h3 hlabel
  split at h
  · obtain rfl := Option.some.inj h
    exact hlabel3
  · simp at h

/-- **Every request keeps the invariant.** -/
theorem inv_applyChecked (h : Inv model) {checked : Request}
    (hlabel : LabelOk checked.alarm.label) :
    Inv (applyChecked model checked).2 := by
  rw [applyChecked]
  cases checked.op with
  | snapshot => exact h
  | save => exact h
  | alarmAdd => exact inv_alarmAdd h hlabel
  | alarmEdit => exact inv_alarmEdit h hlabel _ _
  | alarmEnable => exact inv_alarmEnable h _ _ _
  | alarmDelete => exact inv_alarmDelete h _ _
  | alarmCancelSnooze => exact inv_alarmCancelSnooze h _
  | dismiss => exact inv_dismiss h _
  | snooze => exact inv_snooze h _ _
  | timerSet => exact inv_timerSet h _
  | timerStart => exact inv_timerStart h
  | timerPause => exact inv_timerPause h
  | timerResume => exact inv_timerResume h
  | timerStop => exact inv_timerSet h _
  | timerRestart => exact inv_timerRestart h
  | stopwatchStart =>
    simp only [stopwatchStart]
    refine kept_check h fun _ => ?_
    exact { h with stopwatch := { h.stopwatch with } }
  | stopwatchPause =>
    simp only [stopwatchPause]
    refine kept_check h fun _ => ?_
    exact { h with stopwatch := { h.stopwatch with } }
  | stopwatchReset => exact { h with stopwatch := ⟨by simp [stopwatchReset], by simp [stopwatchReset],
      by simp [stopwatchReset]⟩ }
  | stopwatchLap => exact inv_stopwatchLap h
  | worldAdd => exact inv_worldAdd h _
  | worldEdit => exact inv_worldEdit h _ _
  | worldDelete => exact inv_worldDelete h _
  | setView => exact { h with }
  | setSnooze =>
    simp only [setSnooze]
    refine kept_check h fun hminutes => ?_
    exact { h with snooze := by simp only; omega }
  | clearMissed => exact { h with missed := ⟨by simp [clearMissed], by simp [clearMissed],
      by simp [clearMissed], by simp [clearMissed]⟩ }

theorem inv_requestApply (h : Inv model) (request : Request) :
    Inv (requestApply model request).2 := by
  rw [requestApply]
  split
  · exact h
  · rename_i checked hread
    refine kept_check h fun _ => ?_
    exact inv_applyChecked h (readRequest_labelOk hread)

theorem inv_init {wallUtc : ℤ} {monotonicMs : ℕ} (hlt : monotonicMs < 2 ^ 64)
    (h : init wallUtc monotonicMs = some model) : Inv model := by
  rw [init] at h
  split at h
  · simp at h
  · rename_i hwall
    obtain rfl := Option.some.inj h
    exact
      { wall := by simpa using hwall
        monotonic_lt := hlt
        snooze := by simp
        lastAlarm := by simp
        alarms := ⟨by simp, by simp, by simp, by simp, by simp⟩
        slots := ⟨.inl ⟨rfl, rfl⟩, by simp, by simp⟩
        ring := ⟨List.Pairwise.nil, by simp [pending, Event.zero], by simp [pending, Event.zero],
          by simp [pending, Event.zero], by simp [pending, Event.zero], by simp⟩
        missed := ⟨by simp, by simp, by simp, by simp⟩
        timer := ⟨by simp, by simp, by simp, by simp, by simp, by simp⟩
        stopwatch := ⟨by simp, by simp, by simp⟩
        world := ⟨by simp, by simp, by simp, by simp, by simp, by simp⟩ }

/-! ### Runs of the owner -/

/-- What the owner does with its model. -/
inductive Call
  | tick (wallUtc : ℤ) (monotonicMs : ℕ)
  | request (request : Request)

def perform (model : Model) : Call → Status × Model
  | .tick wallUtc monotonicMs => tick model wallUtc monotonicMs
  | .request request => requestApply model request

/-- Monotonic times are `uint64_t`. -/
def Call.InRange : Call → Prop
  | .tick _ monotonicMs => monotonicMs < 2 ^ 64
  | .request _ => True

/-- The models an owner reaches without a restart: `init`, then ticks and requests. -/
def machine : Machine Model Call where
  start model := ∃ wallUtc monotonicMs, monotonicMs < 2 ^ 64 ∧
    init wallUtc monotonicMs = some model
  step model call model' := call.InRange ∧ model' = (perform model call).2

theorem inv_perform (h : Inv model) {call : Call} (hcall : call.InRange) :
    Inv (perform model call).2 := by
  cases call with
  | tick wallUtc monotonicMs => exact inv_tick h wallUtc hcall
  | request request => exact inv_requestApply h request

theorem inv_of_reachable (h : machine.Reachable model) : Inv model := by
  refine h.invariant (P := Inv) ?_ ?_
  · rintro model ⟨wallUtc, monotonicMs, hlt, hinit⟩
    exact inv_init hlt hinit
  · rintro model call _ hinv ⟨hcall, rfl⟩
    exact inv_perform hinv hcall

/-- The active event, when there is one, and the queued ones. -/
def ringing (model : Model) : List Event :=
  (if model.active.kind = .none then [] else [model.active]) ++ model.queue

/-- What the ring slot, the queue, the timer and the rows of a model say of each
other. -/
structure Consistent (model : Model) : Prop where
  queue_rings : model.queue ≠ [] → model.active.kind ≠ .none
  ids_sorted : (ringing model).Pairwise (·.id < ·.id)
  ids_below : model.nextEventId ≠ 0 → ∀ event ∈ ringing model, event.id < model.nextEventId
  alarm_exists : ∀ event ∈ ringing model, event.kind = .alarm →
    ∃ alarm ∈ model.alarms, alarm.id = event.sourceId ∧ alarm.generation = event.generation
  one_timer : ((ringing model).filter (·.kind = .timer)).length ≤ 1
  timer_finished : ∀ event ∈ ringing model, event.kind = .timer →
    model.timer.state = .finished ∧ model.timer.generation = event.generation
  alarm_ids : (∀ alarm ∈ model.alarms, alarm.id ≠ 0) ∧ (model.alarms.map (·.id)).Nodup
  alarm_enabled : ∀ alarm ∈ model.alarms, alarm.spec.enabled = true →
    validWall alarm.nextDueUtc = true ∧ alarm.lastDueUtc < alarm.nextDueUtc
  alarm_disabled : ∀ alarm ∈ model.alarms, alarm.spec.enabled = false → alarm.nextDueUtc = 0

theorem pending_eq (model : Model) :
    pending model.active model.queue = (ringing model).map Event.unrung := by
  rw [pending, ringing, List.map_append]
  split
  · rfl
  · rfl

/-- **The ring, the queue and the rows fit together** in every model the owner
reaches. -/
theorem consistent_of_reachable {model : Model} (h : machine.Reachable model) :
    Consistent model := by
  have hinv := inv_of_reachable h
  have hring := hinv.ring
  rw [pending_eq] at hring
  have hmem : ∀ {event : Event}, event ∈ ringing model →
      event.unrung ∈ (ringing model).map Event.unrung := fun hev => List.mem_map_of_mem hev
  refine
    { queue_rings := fun hne => ?_
      ids_sorted := ?_
      ids_below := fun hne event hev => hring.below hne event.unrung (hmem hev)
      alarm_exists := fun event hev => hring.alarm event.unrung (hmem hev)
      one_timer := ?_
      timer_finished := fun event hev => hring.timer event.unrung (hmem hev)
      alarm_ids := ⟨fun alarm ha => (hinv.alarms.each alarm ha).id_ne, hinv.alarms.nodup⟩
      alarm_enabled := fun alarm ha hen => ?_
      alarm_disabled := fun alarm ha => (hinv.alarms.each alarm ha).disabled }
  · rcases hinv.slots.slot with ⟨-, hnil⟩ | ⟨hok, -⟩
    · exact absurd hnil hne
    · exact hok.kind_ne
  · have hsorted := hring.sorted
    rw [List.pairwise_map] at hsorted
    exact hsorted
  · have hsingle := hring.single
    rw [List.filter_map, List.length_map] at hsingle
    exact hsingle
  · obtain ⟨hwall, hlt, -⟩ := (hinv.alarms.each alarm ha).enabled hen
    exact ⟨hwall, hlt⟩

/-- Adds an alarm for every day at seven. -/
def dailyRequest : Request :=
  { Request.zero with op := .alarmAdd, alarm := ⟨[], .weekly, 0, 7, 0, 127, true⟩ }

/-- A weekly alarm that is due rings. -/
theorem consistent_ringing :
    ∃ model, init 1700000040 0 = some model ∧
      Consistent (perform (perform model (.request dailyRequest)).2 (.tick 1700031600 1000)).2 := by
  refine ⟨_, rfl, consistent_of_reachable (.step (.step (.start ⟨1700000040, 0, ?_, rfl⟩)
    ⟨?_, rfl⟩) ⟨?_, rfl⟩)⟩
  · decide
  · trivial
  · show 1000 < 2 ^ 64
    decide

end Clock
