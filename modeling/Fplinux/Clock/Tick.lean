/-
The tick keeps the invariant (`clock_model_tick`).

A tick takes the new time, ends a ring that is over, then creates the events of
scheduled alarms, of snoozed alarms and of the timer, one at a time.

Main results:
- `tickAlarm_created`: what one round of `tickAlarms` creates;
- `alarmOk_rearm`: a row that rang waits for a later occurrence;
- `inv_tick`: a whole tick, also one that runs out of event ids.
-/
import Fplinux.Clock.Invariant

namespace Clock

/-! ### New events -/

variable {alarms : List Alarm} {events : List Event} {nextEventId : ℕ} {timer : Timer}
  {event : Event} {model : Model} {snoozed : Bool} {due : Alarm}

theorem RingOk.bump (h : RingOk events alarms timer nextEventId) (hne : nextEventId ≠ 0) :
    RingOk events alarms timer (Word.add 64 nextEventId 1) where
  sorted := h.sorted
  below hne' event hmem := by
    have hold := h.below hne event hmem
    rw [Word.add_one_of_ne_zero h.next_lt hne']
    omega
  alarm := h.alarm
  timer := h.timer
  single := h.single
  next_lt := Word.add_lt _ _ _

theorem RingOk.append (h : RingOk events alarms timer nextEventId) (hne : nextEventId ≠ 0)
    (hid : event.id = nextEventId)
    (halarm : event.kind = .alarm →
      ∃ alarm ∈ alarms, alarm.id = event.sourceId ∧ alarm.generation = event.generation)
    (htimer : event.kind = .timer → (timer.state = .finished ∧ timer.generation = event.generation) ∧
      ∀ other ∈ events, other.kind ≠ .timer) :
    RingOk (events ++ [event]) alarms timer (Word.add 64 nextEventId 1) where
  sorted := by
    refine List.pairwise_append.mpr ⟨h.sorted, List.pairwise_singleton _ _, ?_⟩
    intro other hmem event' hevent'
    rw [List.mem_singleton] at hevent'
    rw [hevent', hid]
    exact h.below hne other hmem
  below hne' other hmem := by
    rcases List.mem_append.mp hmem with hold | hnew
    · exact (h.bump hne).below hne' other hold
    · rw [List.mem_singleton] at hnew
      rw [hnew, hid, Word.add_one_of_ne_zero h.next_lt hne']
      exact Nat.lt_succ_self _
  alarm other hmem hkind := by
    rcases List.mem_append.mp hmem with hold | hnew
    · exact h.alarm other hold hkind
    · rw [List.mem_singleton] at hnew
      subst hnew
      exact halarm hkind
  timer other hmem hkind := by
    rcases List.mem_append.mp hmem with hold | hnew
    · exact h.timer other hold hkind
    · rw [List.mem_singleton] at hnew
      subst hnew
      exact (htimer hkind).1
  single := by
    rw [List.filter_append, List.length_append]
    by_cases hkind : event.kind = .timer
    · have hnone : events.filter (·.kind = .timer) = [] :=
        List.filter_eq_nil_iff.mpr fun other hmem => by simpa using (htimer hkind).2 other hmem
      rw [hnone]
      simp [hkind]
    · have hsingle := h.single
      simp only [List.filter_cons, hkind, decide_false, Bool.false_eq_true, if_false,
        List.filter_nil, List.length_nil]
      omega
  next_lt := Word.add_lt _ _ _

theorem RingOk.submit {events' : List Event}
    (h : RingOk events alarms timer (Word.add 64 nextEventId 1))
    (happ : RingOk (events ++ [event]) alarms timer (Word.add 64 nextEventId 1))
    (hev : events' = events ∨ events' = events ++ [event]) :
    RingOk events' alarms timer (Word.add 64 nextEventId 1) := by
  rcases hev with rfl | rfl
  · exact h
  · exact happ

/-! ### Scheduled and snoozed alarms -/

theorem selectDue_some {rows : List Alarm} {start index : ℕ} {due : Option (ℕ × Alarm)}
    {alarm : Alarm} (h : selectDue model snoozed rows start due = some (index, alarm)) :
    due = some (index, alarm) ∨
      ∃ k, index = start + k ∧ rows[k]? = some alarm ∧ ready model snoozed alarm = true := by
  induction rows generalizing start due with
  | nil => exact .inl h
  | cons first rest ih =>
    rw [selectDue] at h
    rcases ih h with hdue | ⟨k, rfl, hget, hready⟩
    · split at hdue
      · rename_i hfirst
        simp only [Option.some.injEq, Prod.mk.injEq] at hdue
        obtain ⟨rfl, rfl⟩ := hdue
        exact .inr ⟨0, rfl, rfl, hfirst.1⟩
      · exact .inl hdue
    · exact .inr ⟨k + 1, by omega, by simpa using hget, hready⟩

/-- The event of a due alarm. -/
def dueEvent (model : Model) (snoozed : Bool) (due : Alarm) : Event where
  id := model.nextEventId
  kind := .alarm
  sourceId := due.id
  generation := due.generation
  label := due.spec.label
  dueWallUtc := if snoozed then model.wallUtc else due.nextDueUtc
  dueMonotonicMs := if snoozed then due.snoozeDeadlineMs else model.monotonicMs
  ringStartedMs := 0
  snoozed := snoozed
  missedReason := .none

/-- **What one round of `tickAlarms` creates**: the event of a ready row, which is
set for its next time. -/
theorem tickAlarm_created {model' : Model}
    (h : tickAlarm model snoozed = .created due event model') :
    ∃ index, model.alarms[index]? = some due ∧ ready model snoozed due = true ∧
      model.nextEventId ≠ 0 ∧ event = dueEvent model snoozed due ∧
      model' = submitEvent
        { model with
          nextEventId := Word.add 64 model.nextEventId 1
          alarms := model.alarms.set index (rearm model snoozed due) } event
        (isLate model snoozed due) := by
  rw [tickAlarm] at h
  split at h
  · simp at h
  · rename_i index due' hselect
    rcases selectDue_some hselect with hnone | ⟨k, rfl, hget, hready⟩
    · simp at hnone
    · rw [createEvent] at h
      split at h
      · simp at h
      · rename_i event' created hcreate
        split at hcreate
        · simp at hcreate
        · rename_i hne
          obtain ⟨rfl, rfl⟩ := Prod.mk.inj (Option.some.inj hcreate)
          simp only [Round.created.injEq] at h
          obtain ⟨rfl, rfl, rfl⟩ := h
          refine ⟨k, hget, hready, hne, rfl, ?_⟩
          rw [Nat.zero_add]

theorem rearm_id (model : Model) (snoozed : Bool) (due : Alarm) :
    (rearm model snoozed due).id = due.id ∧ (rearm model snoozed due).generation = due.generation := by
  rw [rearm]
  split
  · exact ⟨rfl, rfl⟩
  · split
    · exact ⟨rfl, rfl⟩
    · split
      · exact ⟨rfl, rfl⟩
      · exact ⟨rfl, rfl⟩

theorem alarmOk_rearm (h : AlarmOk due) (hready : ready model snoozed due = true) :
    AlarmOk (rearm model snoozed due) := by
  rw [rearm]
  split
  · exact { h with snooze_lt := by simp }
  · rename_i hsn
    simp only [ready, hsn, Bool.false_eq_true, if_false, decide_eq_true_eq] at hready
    obtain ⟨hwall, -, hocc⟩ := h.enabled hready.1
    -- The occurrence that rings now becomes the last one.
    have hmod : due.nextDueUtc % 60 = 0 := by
      rw [Occurs] at hocc
      split at hocc
      · rename_i hsched
        have hspec := h.spec.valid
        rw [validSpec, hsched] at hspec
        split at hspec
        · simp at hspec
        · simp only [decide_eq_true_eq] at hspec
          rw [hocc]
          exact hspec.2.1
      · obtain ⟨localDay, heq, -⟩ := hocc
        rw [heq]
        exact weeklyTime_mod _ _
    split
    · exact
        { h with
          spec := ⟨h.spec.label, h.spec.valid⟩
          last := .inr ⟨hwall, hmod⟩
          enabled := fun hen => absurd hen (by simp)
          disabled := fun _ => rfl }
    · split
      · rename_i next hnext
        obtain ⟨hwall', hlt, -, hocc'⟩ := alarmNextDue_some hnext
        exact
          { h with
            last := .inr ⟨hwall, hmod⟩
            enabled := fun _ => ⟨hwall', by simp only; omega, hocc'⟩
            disabled := fun hdis => absurd hready.1 (by simp only at hdis; simp [hdis]) }
      · exact
          { h with
            spec := ⟨h.spec.label, h.spec.valid⟩
            last := .inr ⟨hwall, hmod⟩
            enabled := fun hen => absurd hen (by simp)
            disabled := fun _ => rfl }

theorem eventOk_dueEvent (hinv : Inv model) (h : AlarmOk due)
    (hready : ready model snoozed due = true) (hne : model.nextEventId ≠ 0) :
    EventOk (dueEvent model snoozed due) where
  id_ne := hne
  id_lt := hinv.ring.next_lt
  kind := .inl ⟨rfl, h.id_ne⟩
  source_lt := h.id_lt
  generation_ne := h.generation_ne
  generation_lt := h.generation_lt
  label := h.spec.label
  due := by
    cases snoozed with
    | true => exact hinv.wall
    | false =>
      simp only [ready, Bool.false_eq_true, if_false, decide_eq_true_eq] at hready
      exact (h.enabled hready.1).1
  monotonic_lt := by
    cases snoozed with
    | true => exact h.snooze_lt
    | false => exact hinv.monotonic_lt
  started_lt := by
    show 0 < 2 ^ 64
    omega

theorem inv_tickAlarm {model' : Model} (h : Inv model)
    (hround : tickAlarm model snoozed = .created due event model') : Inv model' := by
  obtain ⟨index, hget, hready, hne, rfl, rfl⟩ := tickAlarm_created hround
  have hdue := h.alarms.each due (List.mem_of_getElem? hget)
  have hev := eventOk_dueEvent h hdue hready hne
  obtain ⟨hid, hgen⟩ := rearm_id model snoozed due
  have hring := h.ring.set_same hget hid hgen
  obtain ⟨active, queue, missed, total, heq, hslots, hmissed, hpend⟩ :=
    @submitEvent_spec
      { model with
        nextEventId := Word.add 64 model.nextEventId 1
        alarms := model.alarms.set index (rearm model snoozed due) }
      h.slots h.missed h.monotonic_lt (dueEvent model snoozed due) hev rfl
      (isLate model snoozed due)
  rw [heq]
  refine
    { h with
      alarms := h.alarms.set hget (alarmOk_rearm hdue hready) hid
      slots := hslots
      ring := ?_
      missed := hmissed }
  refine (hring.bump hne).submit (hring.append hne rfl (fun _ => ?_) ?_) hpend
  · have hlt := (List.getElem?_eq_some_iff.mp hget).1
    exact ⟨_, List.mem_set hlt _, hid, hgen⟩
  · intro hkind
    exact absurd hkind (by simp [dueEvent, Event.unrung])

theorem inv_tickAlarms (h : Inv model) (snoozed : Bool) (rounds : ℕ) :
    Inv (tickAlarms snoozed rounds model).2 := by
  induction rounds generalizing model with
  | zero => exact h
  | succ rounds ih =>
    rw [tickAlarms]
    split
    · exact h
    · exact h
    · rename_i due event model' hround
      exact ih (inv_tickAlarm h hround)

/-! ### The tick -/

theorem labelOk_nil : LabelOk [] := rfl

theorem timerRemaining_le (h : TimerOk model.timer model.monotonicMs) :
    timerRemaining model ≤ timerMaxSeconds * 1000 := by
  rw [timerRemaining]
  split
  · rename_i hrun
    have hdeadline := h.running hrun
    split
    · omega
    · omega
  · exact h.remaining_le

theorem inv_tickTimer (h : Inv model) : Inv (tickTimer model).2 := by
  rw [tickTimer]
  split
  · rename_i hrun
    have htimer : TimerOk { model.timer with remainingMs := timerRemaining model }
        model.monotonicMs := { h.timer with remaining_le := timerRemaining_le h.timer }
    -- The countdown changes neither the state nor the generation.
    have hring : RingOk (pending model.active model.queue) model.alarms
        { model.timer with remainingMs := timerRemaining model } model.nextEventId :=
      { h.ring with timer := fun event hmem hkind => h.ring.timer event hmem hkind }
    have hidle : ∀ event ∈ pending model.active model.queue, event.kind ≠ .timer := by
      intro event hmem hkind
      have hfin := (h.ring.timer event hmem hkind).1
      rw [hrun] at hfin
      simp at hfin
    simp only
    split
    · rw [createEvent]
      split
      · exact { h with timer := htimer, ring := hring }
      · rename_i event model' hcreate
        split at hcreate
        · simp at hcreate
        · rename_i hne
          obtain ⟨rfl, rfl⟩ := Prod.mk.inj (Option.some.inj hcreate)
          have hev : EventOk
              { id := model.nextEventId
                kind := .timer
                sourceId := 0
                generation := model.timer.generation
                label := []
                dueWallUtc := model.wallUtc
                dueMonotonicMs := model.timer.deadlineMs
                ringStartedMs := 0
                snoozed := false
                missedReason := .none } :=
            { id_ne := hne
              id_lt := h.ring.next_lt
              kind := .inr ⟨rfl, rfl, rfl⟩
              source_lt := by simp
              generation_ne := h.timer.generation_ne
              generation_lt := h.timer.generation_lt
              label := labelOk_nil
              due := h.wall
              monotonic_lt := h.timer.deadline_lt
              started_lt := by simp }
          obtain ⟨active, queue, missed, total, heq, hslots, hmissed, hpend⟩ :=
            @submitEvent_spec
              { model with
                timer :=
                  { model.timer with remainingMs := timerRemaining model, state := .finished }
                nextEventId := Word.add 64 model.nextEventId 1 }
              h.slots h.missed h.monotonic_lt _ hev rfl false
          have hring' : RingOk (pending model.active model.queue) model.alarms
              { model.timer with remainingMs := timerRemaining model, state := .finished }
              model.nextEventId :=
            { h.ring with timer := fun event hmem hkind => absurd hkind (hidle event hmem) }
          simp only [Option.isSome_none, Bool.false_eq_true, if_false, Option.map_none,
            Option.getD_none]
          rw [heq]
          refine
            { h with
              slots := hslots
              ring := (hring'.bump hne).submit (hring'.append hne rfl ?_ ?_) hpend
              missed := hmissed
              timer :=
                { htimer with running := fun hstate => absurd hstate (by simp) } }
          · intro hkind
            exact absurd hkind (by simp [Event.unrung])
          · exact fun _ => ⟨⟨rfl, rfl⟩, hidle⟩
    · exact { h with timer := htimer, ring := hring }
  · exact h

theorem inv_tickClock {model : Model} (h : Inv model) {wallUtc : ℤ} {monotonicMs : ℕ}
    (hwall : validWall wallUtc = true) (hmono : model.monotonicMs ≤ monotonicMs)
    (hlt : monotonicMs < 2 ^ 64) : Inv (tickClock model wallUtc monotonicMs) := by
  have htimer : TimerOk model.timer monotonicMs :=
    { h.timer with
      running := fun hrun =>
        Nat.le_trans (h.timer.running hrun) (Nat.add_le_add_right hmono _) }
  -- The stopwatch runs on.
  have hclock : ∀ stopwatch : Stopwatch, StopwatchOk stopwatch →
      Inv (if model.active.kind ≠ .none ∧
          Word.sub 64 monotonicMs model.active.ringStartedMs ≥ ringTimeoutMs then
        clearActive (recordMissed
          { model with wallUtc := wallUtc, monotonicMs := monotonicMs, stopwatch := stopwatch }
          model.active .expired)
      else
        { model with wallUtc := wallUtc, monotonicMs := monotonicMs, stopwatch := stopwatch }) := by
    intro stopwatch hstop
    have hset : Inv
        { model with wallUtc := wallUtc, monotonicMs := monotonicMs, stopwatch := stopwatch } :=
      { h with wall := hwall, monotonic_lt := hlt, timer := htimer, stopwatch := hstop }
    split
    · rename_i hover
      have hactive : EventOk model.active := by
        rcases h.slots.slot with ⟨hz, -⟩ | ⟨hok, -⟩
        · rw [hz] at hover
          exact absurd rfl hover.1
        · exact hok
      obtain ⟨missed, total, heq, hmissed⟩ := missedOk_recordMissed hset.missed hactive
        (show MissedReason.expired ≠ .none by simp)
      rw [heq]
      obtain ⟨active, queue, heq', hslots, hpend⟩ :=
        @clearActive_spec
          { model with
            wallUtc := wallUtc
            monotonicMs := monotonicMs
            stopwatch := stopwatch
            missed := missed
            missedTotal := total }
          h.slots.each h.slots.length_le hlt
      rw [heq']
      refine { hset with slots := hslots, ring := ?_, missed := hmissed }
      refine h.ring.sublist ?_
      rw [hpend, pending_of_ne hover.1]
      exact List.sublist_cons_self _ _
    · exact hset
  rw [tickClock]
  simp only
  by_cases hrun : model.stopwatch.running = true
  · simp only [hrun, if_true]
    exact hclock _
      { h.stopwatch with elapsed_lt := Word.satAdd_lt h.stopwatch.elapsed_lt }
  · simp only [hrun, Bool.false_eq_true, if_false]
    exact hclock _ h.stopwatch

theorem inv_tick (h : Inv model) (wallUtc : ℤ) {monotonicMs : ℕ} (hlt : monotonicMs < 2 ^ 64) :
    Inv (tick model wallUtc monotonicMs).2 := by
  rw [tick]
  split
  · exact h
  · rename_i hwall
    split
    · exact h
    · have hclock := @inv_tickClock _ h wallUtc monotonicMs (by simpa using hwall) (by omega) hlt
      simp only
      have hfirst := inv_tickAlarms hclock false (tickClock model wallUtc monotonicMs).alarms.length
      split
      · rename_i model1 heq
        rw [heq] at hfirst
        have hsecond := inv_tickAlarms hfirst true model1.alarms.length
        split
        · rename_i model2 heq2
          rw [heq2] at hsecond
          exact inv_tickTimer hsecond
        · exact hsecond
      · exact hfirst

end Clock
