/-
The events of one tick (`clock_model_tick`).

A tick creates the events of the rows that are due, then of the rows whose snooze
is over, then of the timer.  Each phase takes its rows by their keys until none is
ready, so it creates one event for each ready row.

Main results:
- `ready_of_created`: what is ready after a round was ready before, with a
  greater key;
- `createdAlarms_sorted`, `createdAlarms_length`: the order and the number of a
  phase's events;
- `inOrder_tickEvents`: the events of a tick come in the order of their keys.
-/
import Fplinux.Clock.TickOrder

namespace Clock

/-! ### Rounds -/

theorem submitEvent_times (model : Model) (event : Event) (late : Bool) :
    (submitEvent model event late).wallUtc = model.wallUtc ∧
      (submitEvent model event late).monotonicMs = model.monotonicMs := by
  unfold submitEvent
  split_ifs
  all_goals exact ⟨rfl, rfl⟩

theorem submitEvent_clocks (model : Model) (event : Event) (late : Bool) :
    (submitEvent model event late).timer = model.timer ∧
      (submitEvent model event late).stopwatch = model.stopwatch := by
  unfold submitEvent
  split_ifs
  all_goals exact ⟨rfl, rfl⟩

variable {due : Alarm} {event : Event} {model model' : Model} {snoozed : Bool}

theorem created_eq (h : tickAlarm model snoozed = .created due event model') :
    ∃ index, selectDue model snoozed model.alarms 0 none = some (index, due) ∧
      model.nextEventId ≠ 0 ∧ event = dueEvent model snoozed due ∧
      model' = submitEvent (fireRow model snoozed index due) event (isLate model snoozed due) := by
  cases hselect : selectDue model snoozed model.alarms 0 none with
  | none =>
    rw [tickAlarm_idle hselect] at h
    simp at h
  | some selected =>
    obtain ⟨index, due'⟩ := selected
    rw [tickAlarm_eq hselect] at h
    split at h
    · simp at h
    · rename_i hid
      simp only [Round.created.injEq] at h
      obtain ⟨rfl, rfl, rfl⟩ := h
      exact ⟨index, rfl, hid, rfl, rfl⟩

theorem ready_congr (hwall : model'.wallUtc = model.wallUtc)
    (hmono : model'.monotonicMs = model.monotonicMs) (snoozed : Bool) (alarm : Alarm) :
    ready model' snoozed alarm = ready model snoozed alarm := by
  rw [ready, ready, hwall, hmono]

theorem ready_created (h : tickAlarm model snoozed = .created due event model') (flag : Bool)
    (alarm : Alarm) :
    ready model' flag alarm = ready model flag alarm := by
  obtain ⟨index, -, -, -, rfl⟩ := created_eq h
  exact ready_congr (submitEvent_times _ _ _).1 (submitEvent_times _ _ _).2 flag alarm

/-- **A row that rang is not ready again** in the same tick. -/
theorem not_ready_rearm (model : Model) (snoozed : Bool) (due : Alarm) :
    ready model snoozed (rearm model snoozed due) = false := by
  cases snoozed with
  | true => simp [ready, rearm]
  | false =>
    rw [ready, rearm]
    simp only [Bool.false_eq_true, if_false]
    split
    · simp
    · split
      · rename_i next hnext
        have hlt := (alarmNextDue_some hnext).2.1
        simp only [decide_eq_false_iff_not, not_and, not_le]
        exact fun _ => hlt
      · simp

theorem ready_of_created (hids : (model.alarms.map (·.id)).Nodup)
    (h : tickAlarm model snoozed = .created due event model') {alarm : Alarm}
    (hmem : alarm ∈ model'.alarms) (hready : ready model' snoozed alarm = true) :
    alarm ∈ model.alarms ∧ ready model snoozed alarm = true ∧
      dueKey snoozed due < dueKey snoozed alarm := by
  rw [ready_created h] at hready
  obtain ⟨index, hselect, -, -, rfl⟩ := created_eq h
  have hdue := selectDue_mem hselect
  rw [(submitEvent_rows _ _ _).1, fireRow, Rows.set_eq_map hids hdue.1] at hmem
  obtain ⟨other, hother, rfl⟩ := List.mem_map.mp hmem
  split at hready
  · rw [not_ready_rearm] at hready
    simp at hready
  · rename_i hne
    rw [if_neg hne]
    refine ⟨hother, hready, lt_of_le_of_ne ((selectDue_le hselect).2 other hother hready) ?_⟩
    exact fun heq => hne (dueKey_inj heq).symm

theorem createdAlarms_ready (hids : (model.alarms.map (·.id)).Nodup) (snoozed : Bool) (rounds : ℕ) :
    ∀ entry ∈ createdAlarms snoozed rounds model,
      entry.alarm ∈ model.alarms ∧ ready model snoozed entry.alarm = true := by
  induction rounds generalizing model with
  | zero => simp [createdAlarms]
  | succ rounds ih =>
    rw [createdAlarms]
    cases hround : tickAlarm model snoozed with
    | idle => simp
    | exhausted => simp
    | created due event model' =>
      obtain ⟨index, hselect, -⟩ := created_eq hround
      have hdue := selectDue_mem hselect
      refine List.forall_mem_cons.mpr ⟨⟨List.mem_of_getElem? hdue.1, hdue.2⟩, ?_⟩
      intro entry hentry
      rw [← tickAlarm_ids hround] at hids
      obtain ⟨hmem, hready⟩ := ih hids entry hentry
      rw [tickAlarm_ids hround] at hids
      obtain ⟨hold, hready', -⟩ := ready_of_created hids hround hmem hready
      exact ⟨hold, hready'⟩

/-- **A phase takes its rows by their keys.** -/
theorem createdAlarms_sorted (hids : (model.alarms.map (·.id)).Nodup) (snoozed : Bool)
    (rounds : ℕ) :
    (createdAlarms snoozed rounds model).Pairwise
      fun a b => dueKey snoozed a.alarm < dueKey snoozed b.alarm := by
  induction rounds generalizing model with
  | zero => exact List.Pairwise.nil
  | succ rounds ih =>
    rw [createdAlarms]
    cases hround : tickAlarm model snoozed with
    | idle => exact List.Pairwise.nil
    | exhausted => exact List.Pairwise.nil
    | created due event model' =>
      have hids' := hids
      rw [← tickAlarm_ids hround] at hids'
      refine List.pairwise_cons.mpr ⟨fun entry hentry => ?_, ih hids'⟩
      obtain ⟨hmem, hready⟩ := createdAlarms_ready hids' snoozed rounds entry hentry
      exact (ready_of_created hids hround hmem hready).2.2

/-- What a phase's event says of its row. -/
structure EventOf (snoozed : Bool) (entry : Entry) : Prop where
  kind : entry.event.kind = .alarm
  flag : entry.event.snoozed = snoozed
  source : entry.event.sourceId = entry.alarm.id
  due : (if snoozed then (entry.event.dueMonotonicMs : ℤ) else entry.event.dueWallUtc) =
    dueAt snoozed entry.alarm

theorem createdAlarms_event (snoozed : Bool) (rounds : ℕ) (model : Model) :
    ∀ entry ∈ createdAlarms snoozed rounds model, EventOf snoozed entry := by
  induction rounds generalizing model with
  | zero => simp [createdAlarms]
  | succ rounds ih =>
    rw [createdAlarms]
    cases hround : tickAlarm model snoozed with
    | idle => simp
    | exhausted => simp
    | created due event model' =>
      obtain ⟨index, -, -, rfl, -⟩ := created_eq hround
      refine List.forall_mem_cons.mpr ⟨⟨rfl, rfl, rfl, ?_⟩, ih model'⟩
      cases snoozed with
      | true => rfl
      | false => rfl

theorem countP_created (h : tickAlarm model snoozed = .created due event model') :
    model'.alarms.countP (ready model' snoozed) + 1 = model.alarms.countP (ready model snoozed) := by
  have hsame : ready model' snoozed = ready model snoozed := funext (ready_created h snoozed)
  rw [hsame]
  obtain ⟨index, hselect, -, -, rfl⟩ := created_eq h
  have hdue := selectDue_mem hselect
  rw [(submitEvent_rows _ _ _).1]
  exact Rows.countP_set hdue.1 hdue.2 (not_ready_rearm model snoozed due)

/-- **A phase that succeeds creates an event for each ready row.** -/
theorem createdAlarms_length {rounds : ℕ} (hok : (tickAlarms snoozed rounds model).1 = .ok)
    (hrounds : model.alarms.countP (ready model snoozed) ≤ rounds) :
    (createdAlarms snoozed rounds model).length = model.alarms.countP (ready model snoozed) := by
  induction rounds generalizing model with
  | zero =>
    rw [createdAlarms, List.length_nil]
    omega
  | succ rounds ih =>
    rw [tickAlarms] at hok
    rw [createdAlarms]
    cases hround : tickAlarm model snoozed with
    | idle =>
      have hnone : selectDue model snoozed model.alarms 0 none = none := by
        cases hselect : selectDue model snoozed model.alarms 0 none with
        | none => rfl
        | some selected =>
          rw [tickAlarm_eq hselect] at hround
          split at hround
          · simp at hround
          · simp at hround
      have hzero : model.alarms.countP (ready model snoozed) = 0 :=
        List.countP_eq_zero.mpr fun alarm hmem =>
          Bool.not_eq_true _ ▸ (selectDue_none hnone).2 alarm hmem
      rw [hzero]
      rfl
    | exhausted =>
      rw [hround] at hok
      simp at hok
    | created due event model' =>
      rw [hround] at hok
      have hcount := countP_created hround
      have hrest := ih hok (by omega)
      rw [List.length_cons, hrest, hcount]

theorem ready_snoozed_rearm (model : Model) (due : Alarm) :
    ready model true (rearm model false due) = ready model true due := by
  rw [rearm]
  simp only [Bool.false_eq_true, if_false]
  split
  · rfl
  · split
    · rfl
    · rfl

theorem map_snoozed_created (h : tickAlarm model false = .created due event model') :
    model'.alarms.map (ready model' true) = model.alarms.map (ready model true) := by
  have hsame : ready model' true = ready model true := funext (ready_created h true)
  rw [hsame]
  obtain ⟨index, hselect, -, -, rfl⟩ := created_eq h
  rw [(submitEvent_rows _ _ _).1]
  exact map_set_same (selectDue_mem hselect).1 (ready_snoozed_rearm model due)

theorem map_snoozed_tickAlarms (rounds : ℕ) (model : Model) :
    (tickAlarms false rounds model).2.alarms.map (ready (tickAlarms false rounds model).2 true) =
      model.alarms.map (ready model true) := by
  induction rounds generalizing model with
  | zero => rfl
  | succ rounds ih =>
    rw [tickAlarms]
    cases hround : tickAlarm model false with
    | idle => rfl
    | exhausted => rfl
    | created due event model' => exact (ih model').trans (map_snoozed_created hround)

theorem tickAlarms_clocks (snoozed : Bool) (rounds : ℕ) (model : Model) :
    (tickAlarms snoozed rounds model).2.timer = model.timer ∧
      (tickAlarms snoozed rounds model).2.stopwatch = model.stopwatch := by
  induction rounds generalizing model with
  | zero => exact ⟨rfl, rfl⟩
  | succ rounds ih =>
    rw [tickAlarms]
    cases hround : tickAlarm model snoozed with
    | idle => exact ⟨rfl, rfl⟩
    | exhausted => exact ⟨rfl, rfl⟩
    | created due event model' =>
      obtain ⟨index, -, -, -, rfl⟩ := created_eq hround
      obtain ⟨htimer, hstopwatch⟩ :=
        submitEvent_clocks (fireRow model snoozed index due) event (isLate model snoozed due)
      simp only
      rw [(ih _).1, (ih _).2, htimer, hstopwatch]
      exact ⟨rfl, rfl⟩

/-! ### The events of a tick -/

/-- The event of the timer at the end of a tick. -/
def createdTimer (model : Model) : List Event :=
  if model.timer.state = .running ∧ timerRemaining model = 0 ∧ model.nextEventId ≠ 0 then
    [timerEvent model]
  else []

/-- The events of a tick in the order of their creation. -/
def tickEvents (model : Model) (wallUtc : ℤ) (monotonicMs : ℕ) : List Event :=
  if !validWall wallUtc then []
  else if monotonicMs < model.monotonicMs then []
  else
    let model := tickClock model wallUtc monotonicMs
    (createdAlarms false model.alarms.length model).map (·.event) ++
      match tickAlarms false model.alarms.length model with
      | (.ok, model) =>
        (createdAlarms true model.alarms.length model).map (·.event) ++
          match tickAlarms true model.alarms.length model with
          | (.ok, model) => createdTimer model
          | _ => []
      | _ => []

/-- Scheduled events are ordered by due time and alarm. -/
def scheduledKey (event : Event) : ℤ ×ₗ ℕ := toLex (event.dueWallUtc, event.sourceId)

/-- Events of snoozes are ordered by deadline and alarm. -/
def snoozedKey (event : Event) : ℤ ×ₗ ℕ := toLex ((event.dueMonotonicMs : ℤ), event.sourceId)

/-- Scheduled alarms by due time and id, then snoozes by deadline and id, then the
timer. -/
structure InOrder (scheduled snoozed timer : List Event) : Prop where
  scheduled_alarm : ∀ event ∈ scheduled, event.kind = .alarm ∧ event.snoozed = false
  scheduled_sorted : scheduled.Pairwise fun a b => scheduledKey a < scheduledKey b
  snoozed_alarm : ∀ event ∈ snoozed, event.kind = .alarm ∧ event.snoozed = true
  snoozed_sorted : snoozed.Pairwise fun a b => snoozedKey a < snoozedKey b
  timer_last : ∀ event ∈ timer, event.kind = .timer
  timer_once : timer.length ≤ 1

theorem createdTimer_kind (model : Model) : (∀ event ∈ createdTimer model, event.kind = .timer) ∧
    (createdTimer model).length ≤ 1 := by
  rw [createdTimer]
  split
  · exact ⟨fun event hmem => by rw [List.mem_singleton.mp hmem]; rfl, Nat.le_refl _⟩
  · exact ⟨by simp, by simp⟩

theorem scheduledKey_eq {entry : Entry} (h : EventOf false entry) :
    scheduledKey entry.event = dueKey false entry.alarm := by
  have hdue := h.due
  simp only [Bool.false_eq_true, if_false] at hdue
  rw [scheduledKey, dueKey, h.source, hdue]

theorem snoozedKey_eq {entry : Entry} (h : EventOf true entry) :
    snoozedKey entry.event = dueKey true entry.alarm := by
  have hdue := h.due
  simp only [if_true] at hdue
  rw [snoozedKey, dueKey, h.source, hdue]

theorem phase_sorted (hids : (model.alarms.map (·.id)).Nodup) {key : Event → ℤ ×ₗ ℕ}
    (hkey : ∀ entry, EventOf snoozed entry → key entry.event = dueKey snoozed entry.alarm)
    (rounds : ℕ) : ((createdAlarms snoozed rounds model).map (·.event)).Pairwise
      fun a b => key a < key b := by
  rw [List.pairwise_map]
  refine (createdAlarms_sorted hids snoozed rounds).imp_of_mem fun ha hb hlt => ?_
  rw [hkey _ (createdAlarms_event snoozed rounds model _ ha),
    hkey _ (createdAlarms_event snoozed rounds model _ hb)]
  exact hlt

theorem phase_kind (snoozed : Bool) (rounds : ℕ) (model : Model) :
    ∀ event ∈ (createdAlarms snoozed rounds model).map (·.event),
      event.kind = .alarm ∧ event.snoozed = snoozed := by
  intro event hmem
  obtain ⟨entry, hentry, rfl⟩ := List.mem_map.mp hmem
  have hof := createdAlarms_event snoozed rounds model entry hentry
  exact ⟨hof.kind, hof.flag⟩

/-- **The events of a tick are created in order.** -/
theorem inOrder_tickEvents (hids : (model.alarms.map (·.id)).Nodup) (wallUtc : ℤ)
    (monotonicMs : ℕ) :
    ∃ scheduled snoozed timer,
      tickEvents model wallUtc monotonicMs = scheduled ++ snoozed ++ timer ∧
        InOrder scheduled snoozed timer := by
  have hnil : InOrder [] [] [] :=
    ⟨by simp, List.Pairwise.nil, by simp, List.Pairwise.nil, by simp, by simp⟩
  rw [tickEvents]
  split
  · exact ⟨[], [], [], rfl, hnil⟩
  · split
    · exact ⟨[], [], [], rfl, hnil⟩
    · rw [← tickClock_rows model wallUtc monotonicMs] at hids
      generalize tickClock model wallUtc monotonicMs = clock at hids
      have hfirst := phase_sorted hids (fun _ => scheduledKey_eq) clock.alarms.length
      have hkind := phase_kind false clock.alarms.length clock
      simp only
      rw [← tickAlarms_ids false clock.alarms.length clock] at hids
      cases hphase : tickAlarms false clock.alarms.length clock with
      | mk status middle =>
        rw [hphase] at hids
        cases status with
        | ok =>
          have hsecond := phase_sorted hids (fun _ => snoozedKey_eq) middle.alarms.length
          have hkind' := phase_kind true middle.alarms.length middle
          simp only
          cases tickAlarms true middle.alarms.length middle with
          | mk status last =>
            cases status with
            | ok =>
              have htimer := createdTimer_kind last
              exact ⟨_, _, _, (List.append_assoc _ _ _).symm, hkind, hfirst, hkind', hsecond,
                htimer.1, htimer.2⟩
            | _ =>
              exact ⟨_, _, _, (List.append_assoc _ _ _).symm, hkind, hfirst, hkind', hsecond,
                by simp, by simp⟩
        | _ =>
          refine ⟨_, [], [], (List.append_assoc _ [] []).symm, ?_⟩
          exact ⟨hkind, hfirst, by simp, List.Pairwise.nil, by simp, by simp⟩

end Clock
