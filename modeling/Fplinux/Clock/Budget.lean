/-
Event ids never run out (`create_event`).

Every event takes an id, and something else with it: a scheduled one moves its
row to a later occurrence, of which there are as many as minutes in the supported
range; a snoozed one ends a snooze that lasted a minute at least; the timer's one
needs a new generation.  `credit` counts, in milliseconds, the events that a model
can still create with what it has, and `granted` what ids of alarms, generations
and the time gave.  What was spent and what is left never exceed what was granted,
which is far below the number of event ids.

Main results:
- `Solvent.next_lt`: the bound;
- `exists_phases`: a tick within range that goes forward is taken;
- `solvent_effect`, `solvent_tick`: every request and every tick keep the bound.
-/
import Mathlib.Algebra.Order.BigOperators.Group.List
import Mathlib.Data.List.Perm.Subperm
import Fplinux.Clock.Effects
import Fplinux.Clock.Restart

namespace Clock

/-! ### Credit -/

/-- The minutes of the supported range of wall times. -/
def wallMinutes : ℕ := 63115200

/-- The minute of a last occurrence, counted from one; zero for none. -/
def lastMinute (lastDueUtc : ℤ) : ℕ :=
  if lastDueUtc = 0 then 0 else ((lastDueUtc - wallMin) / 60).toNat + 1

/-- How much of its first minute a snooze has waited. -/
def snoozeCredit (monotonicMs : ℕ) (alarm : Alarm) : ℕ :=
  if alarm.snoozed then 60000 - (alarm.snoozeDeadlineMs - monotonicMs) else 0

/-- The occurrences a row can still have, and its snooze. -/
def rowCredit (monotonicMs : ℕ) (alarm : Alarm) : ℕ :=
  60000 * (wallMinutes - lastMinute alarm.lastDueUtc) + snoozeCredit monotonicMs alarm

def timerCredit (timer : Timer) : ℕ := if timer.state = .finished then 0 else 60000

def credit (model : Model) : ℕ :=
  (model.alarms.map (rowCredit model.monotonicMs)).sum + timerCredit model.timer

/-- The alarm ids that were given out. -/
def given (nextAlarmId : ℕ) : ℕ := if nextAlarmId = 0 then 2 ^ 32 - 1 else nextAlarmId - 1

def granted (model : Model) : ℕ :=
  60000 * (1 + wallMinutes * given model.nextAlarmId + model.timer.generation) +
    8 * model.monotonicMs

/-- What was spent on events and what is left were granted. -/
structure Solvent (model : Model) : Prop where
  next_ne : model.nextEventId ≠ 0
  paid : 60000 * model.nextEventId + credit model ≤ granted model

variable {model model' : Model} {monotonicMs : ℕ} {wallUtc : ℤ}

/-- **Event ids do not run out.** -/
theorem Solvent.next_lt (h : Solvent model) (hinv : Inv model) :
    model.nextEventId + 1 < 2 ^ 64 := by
  have hpaid := h.paid
  have hid := hinv.alarms.next_lt
  have hgeneration := hinv.timer.generation_lt
  have hmono := hinv.monotonic_lt
  have hgiven : given model.nextAlarmId ≤ 2 ^ 32 := by
    rw [given]
    split
    · omega
    · omega
  rw [granted, wallMinutes] at hpaid
  omega

/-! ### One row -/

theorem lastMinute_le {lastDueUtc : ℤ} (h : validWall lastDueUtc = true) :
    lastMinute lastDueUtc ≤ wallMinutes := by
  rw [validWall_iff, wallMin, wallMax] at h
  rw [lastMinute, wallMinutes, wallMin]
  split
  · omega
  · omega

theorem lastMinute_lt {alarm : Alarm} (h : AlarmOk alarm) {due : ℤ}
    (hdue : validWall due = true) (hmod : due % 60 = 0) (hlt : alarm.lastDueUtc < due) :
    lastMinute alarm.lastDueUtc < lastMinute due := by
  rw [validWall_iff, wallMin, wallMax] at hdue
  rw [lastMinute, lastMinute, if_neg (show due ≠ 0 by omega), wallMin]
  rcases h.last with hzero | ⟨hlast, hmod'⟩
  · rw [if_pos hzero]
    omega
  · rw [validWall_iff, wallMin, wallMax] at hlast
    rw [if_neg (by omega)]
    omega

/-- **An event costs its row a minute.** -/
theorem rowCredit_rearm {snoozed : Bool} {due : Alarm} (h : AlarmOk due)
    (hready : ready model snoozed due = true) :
    rowCredit model.monotonicMs (rearm model snoozed due) + 60000 ≤
      rowCredit model.monotonicMs due := by
  have hok := alarmOk_rearm h hready
  cases snoozed with
  | true =>
    -- The whole minute of the snooze has passed.
    simp only [ready, if_true, decide_eq_true_eq] at hready
    have hdue : snoozeCredit model.monotonicMs due = 60000 := by
      rw [snoozeCredit, if_pos hready.1]
      omega
    have hover : snoozeCredit model.monotonicMs (rearm model true due) = 0 := rfl
    have hlast : (rearm model true due).lastDueUtc = due.lastDueUtc := rfl
    rw [rowCredit, rowCredit, hover, hdue, hlast]
  | false =>
    -- The occurrence that rings is a later minute than the last one.
    simp only [ready, Bool.false_eq_true, if_false, decide_eq_true_eq] at hready
    obtain ⟨hwall, hlt, -⟩ := h.enabled hready.1
    have hlast : (rearm model false due).lastDueUtc = due.nextDueUtc := by
      rw [rearm]
      simp only [Bool.false_eq_true, if_false]
      split
      · rfl
      · split
        · rfl
        · rfl
    have hsnooze : snoozeCredit model.monotonicMs (rearm model false due) =
        snoozeCredit model.monotonicMs due := by
      rw [rearm]
      simp only [Bool.false_eq_true, if_false]
      split
      · rfl
      · split
        · rfl
        · rfl
    have hmod : due.nextDueUtc % 60 = 0 := by
      rcases hok.last with hzero | ⟨-, hmod⟩
      · rw [validWall_iff, wallMin] at hwall
        omega
      · rw [← hlast]
        exact hmod
    have hminute := lastMinute_lt h hwall hmod hlt
    have hle := lastMinute_le hwall
    rw [rowCredit, rowCredit, hsnooze, hlast]
    omega

/-! ### Ticks -/

theorem solvent_congr (h : Solvent model)
    (hrows : model'.alarms = model.alarms ∧ model'.nextAlarmId = model.nextAlarmId)
    (htimer : model'.timer = model.timer) (hmono : model'.monotonicMs = model.monotonicMs)
    (hnext : model'.nextEventId = model.nextEventId) : Solvent model' where
  next_ne := by
    rw [hnext]
    exact h.next_ne
  paid := by
    rw [credit, granted, hnext, hrows.1, hrows.2, htimer, hmono]
    exact h.paid

theorem snoozeCredit_le {monotonicMs' : ℕ} (h : monotonicMs ≤ monotonicMs') (alarm : Alarm) :
    snoozeCredit monotonicMs' alarm ≤
      snoozeCredit monotonicMs alarm + (monotonicMs' - monotonicMs) := by
  rw [snoozeCredit, snoozeCredit]
  split
  · omega
  · omega

theorem sum_rowCredit_le {monotonicMs' : ℕ} (h : monotonicMs ≤ monotonicMs') (rows : List Alarm) :
    (rows.map (rowCredit monotonicMs')).sum ≤
      (rows.map (rowCredit monotonicMs)).sum + rows.length * (monotonicMs' - monotonicMs) := by
  induction rows with
  | nil => simp
  | cons alarm rows ih =>
    have hsnooze := snoozeCredit_le h alarm
    rw [List.map_cons, List.map_cons, List.sum_cons, List.sum_cons, List.length_cons, Nat.succ_mul,
      rowCredit, rowCredit]
    omega

theorem tickClock_nextAlarmId (model : Model) (wallUtc : ℤ) (monotonicMs : ℕ) :
    (tickClock model wallUtc monotonicMs).nextAlarmId = model.nextAlarmId := by
  rw [tickClock_eq]
  split
  · exact (clearActive_rows _).2
  · rfl

theorem solvent_tickClock (h : Solvent model) (hinv : Inv model) (wallUtc : ℤ)
    (hmono : model.monotonicMs ≤ monotonicMs) :
    Solvent (tickClock model wallUtc monotonicMs) := by
  obtain ⟨-, hnow, htimer, hnext⟩ := tickClock_same model wallUtc monotonicMs
  refine ⟨?_, ?_⟩
  · rw [hnext]
    exact h.next_ne
  · rw [credit, granted, hnext, htimer, hnow, tickClock_rows, tickClock_nextAlarmId]
    have hpaid := h.paid
    have hsum := sum_rowCredit_le hmono model.alarms
    have hrows := Nat.mul_le_mul_right (monotonicMs - model.monotonicMs) hinv.alarms.length_le
    rw [alarmLimit] at hrows
    rw [credit, granted] at hpaid
    omega

theorem solvent_submit (h : Solvent model) (event : Event) (late : Bool) :
    Solvent (submitEvent model event late) :=
  solvent_congr h (submitEvent_rows model event late) (submitEvent_clocks model event late).1
    (submitEvent_times model event late).2 (submitEvent_next model event late)

/-- **A round** pays for its event. -/
theorem solvent_tickAlarm (h : Solvent model) (hinv : Inv model) {snoozed : Bool} {due : Alarm}
    {event : Event} (hround : tickAlarm model snoozed = .created due event model') :
    Solvent model' := by
  obtain ⟨index, hselect, -, rfl, rfl⟩ := created_eq hround
  obtain ⟨hget, hready⟩ := selectDue_mem hselect
  have hnext := Word.add_eq (h.next_lt hinv)
  refine solvent_submit ⟨?_, ?_⟩ _ _
  · simp only [fireRow, hnext]
    omega
  · have hpaid := h.paid
    have hcost := rowCredit_rearm (hinv.alarms.each due (List.mem_of_getElem? hget)) hready
    have hsum := Rows.sum_set (rowCredit model.monotonicMs) hget (rearm model snoozed due)
    rw [credit, granted] at hpaid ⊢
    simp only [fireRow, hnext]
    omega

theorem solvent_tickAlarms (h : Solvent model) (hinv : Inv model) (snoozed : Bool) (rounds : ℕ) :
    (tickAlarms snoozed rounds model).1 = .ok ∧ Solvent (tickAlarms snoozed rounds model).2 := by
  induction rounds generalizing model with
  | zero => exact ⟨rfl, h⟩
  | succ rounds ih =>
    rw [tickAlarms]
    cases hround : tickAlarm model snoozed with
    | idle => exact ⟨rfl, h⟩
    | exhausted =>
      -- A round is only exhausted without an id.
      cases hselect : selectDue model snoozed model.alarms 0 none with
      | none =>
        rw [tickAlarm_idle hselect] at hround
        simp at hround
      | some selected =>
        rw [tickAlarm_eq hselect, if_neg h.next_ne] at hround
        simp at hround
    | created due event model' =>
      exact ih (solvent_tickAlarm h hinv hround) (inv_tickAlarm hinv hround)

theorem solvent_tickTimer (h : Solvent model) (hinv : Inv model) :
    (tickTimer model).1 = .ok ∧ Solvent (tickTimer model).2 := by
  rw [tickTimer_eq]
  split
  · rename_i hrun
    have hleft : timerCredit model.timer = 60000 := by
      rw [timerCredit, hrun]
      rfl
    have hpaid := h.paid
    rw [credit, granted, hleft] at hpaid
    split
    · rw [if_neg h.next_ne]
      have hnext := Word.add_eq (h.next_lt hinv)
      refine ⟨rfl, ?_⟩
      show Solvent (submitEvent (finishTimer model) (timerEvent model) false)
      refine solvent_submit ⟨?_, ?_⟩ _ _
      · simp only [finishTimer, hnext]
        omega
      · have hover : timerCredit (finishTimer model).timer = 0 := rfl
        rw [credit, granted, hover]
        simp only [finishTimer, hnext]
        omega
    · refine ⟨rfl, h.next_ne, ?_⟩
      rw [credit, granted]
      simp only [timerCredit, hrun, reduceCtorEq, if_false]
      omega
  · exact ⟨rfl, h⟩

/-- The models between the phases of a tick that is taken. -/
structure Phases (model : Model) (wallUtc : ℤ) (monotonicMs : ℕ) (middle last : Model) : Prop where
  scheduled : tickAlarms false (tickClock model wallUtc monotonicMs).alarms.length
    (tickClock model wallUtc monotonicMs) = (.ok, middle)
  snoozed : tickAlarms true middle.alarms.length middle = (.ok, last)
  tick : tick model wallUtc monotonicMs = (.ok, (tickTimer last).2)
  solvent : Solvent last
  inv : Inv last

theorem tick_taken (hwall : validWall wallUtc = true) (hmono : model.monotonicMs ≤ monotonicMs) :
    tick model wallUtc monotonicMs =
      match tickAlarms false (tickClock model wallUtc monotonicMs).alarms.length
        (tickClock model wallUtc monotonicMs) with
      | (.ok, model) =>
        match tickAlarms true model.alarms.length model with
        | (.ok, model) => tickTimer model
        | failed => failed
      | failed => failed := by
  rw [tick, if_neg (by simp [hwall])]
  exact if_neg (by omega)

/-- **A tick within range that goes forward is taken.** -/
theorem exists_phases (h : Solvent model) (hinv : Inv model) (hwall : validWall wallUtc = true)
    (hmono : model.monotonicMs ≤ monotonicMs) (hlt : monotonicMs < 2 ^ 64) :
    ∃ middle last, Phases model wallUtc monotonicMs middle last := by
  have hclock := solvent_tickClock h hinv wallUtc hmono
  have hclockInv := inv_tickClock hinv hwall hmono hlt
  have htick := tick_taken hwall hmono
  have hscheduled := solvent_tickAlarms hclock hclockInv false
    (tickClock model wallUtc monotonicMs).alarms.length
  have hscheduledInv := inv_tickAlarms hclockInv false
    (tickClock model wallUtc monotonicMs).alarms.length
  cases hphase : tickAlarms false (tickClock model wallUtc monotonicMs).alarms.length
      (tickClock model wallUtc monotonicMs) with
  | mk status middle =>
    rw [hphase] at hscheduled hscheduledInv htick
    obtain ⟨rfl, hmiddle⟩ := hscheduled
    have hsnoozed := solvent_tickAlarms hmiddle hscheduledInv true middle.alarms.length
    have hsnoozedInv := inv_tickAlarms hscheduledInv true middle.alarms.length
    cases hphase' : tickAlarms true middle.alarms.length middle with
    | mk status last =>
      rw [hphase'] at hsnoozed hsnoozedInv
      obtain ⟨rfl, hlast⟩ := hsnoozed
      have hok := (solvent_tickTimer hlast hsnoozedInv).1
      refine ⟨middle, last, hphase, hphase', ?_, hlast, hsnoozedInv⟩
      simp only [hphase'] at htick
      rw [htick, ← hok]

theorem tick_refused {model : Model} {wallUtc : ℤ} {monotonicMs : ℕ}
    (h : ¬ (validWall wallUtc = true ∧ model.monotonicMs ≤ monotonicMs)) :
    ((tick model wallUtc monotonicMs).1 = .invalid ∨
        (tick model wallUtc monotonicMs).1 = .timeBackward) ∧
      (tick model wallUtc monotonicMs).2 = model ∧ tickEvents model wallUtc monotonicMs = [] := by
  rw [tick, tickEvents]
  split
  · exact ⟨.inl rfl, rfl, rfl⟩
  · rename_i hwall
    have hback : monotonicMs < model.monotonicMs := by
      by_contra hmono
      exact h ⟨by simpa using hwall, Nat.le_of_not_lt hmono⟩
    rw [if_pos hback, if_pos hback]
    exact ⟨.inr rfl, rfl, rfl⟩

/-- **A tick never runs out of ids.** -/
theorem solvent_tick (h : Solvent model) (hinv : Inv model) (wallUtc : ℤ)
    (hlt : monotonicMs < 2 ^ 64) :
    (tick model wallUtc monotonicMs).1 ≠ .exhausted ∧
      Solvent (tick model wallUtc monotonicMs).2 := by
  by_cases htaken : validWall wallUtc = true ∧ model.monotonicMs ≤ monotonicMs
  · obtain ⟨middle, last, hphases⟩ := exists_phases h hinv htaken.1 htaken.2 hlt
    rw [hphases.tick]
    exact ⟨by simp, (solvent_tickTimer hphases.solvent hphases.inv).2⟩
  · obtain ⟨hstatus, hsame, -⟩ := tick_refused htaken
    rw [hsame]
    refine ⟨?_, h⟩
    rcases hstatus with hinvalid | hback
    · simp [hinvalid]
    · simp [hback]

/-! ### Requests -/

theorem rowsEffect_credit {nextAlarmId nextAlarmId' : ℕ} {rows rows' : List Alarm}
    (h : RowsEffect monotonicMs rows nextAlarmId rows' nextAlarmId') (hlt : nextAlarmId < 2 ^ 32) :
    (rows'.map (rowCredit monotonicMs)).sum + 60000 * (wallMinutes * given nextAlarmId) ≤
      (rows.map (rowCredit monotonicMs)).sum + 60000 * (wallMinutes * given nextAlarmId') := by
  cases h with
  | same => exact Nat.le_refl _
  | @add alarm hne hlast hsnoozed =>
    have hgiven : given (Word.add 32 nextAlarmId 1) = given nextAlarmId + 1 := by
      rw [given, given, if_neg hne]
      split
      · rename_i hwrap
        rw [Word.add] at hwrap
        omega
      · rename_i hnext
        rw [Word.add_one_of_ne_zero hlt hnext]
        omega
    have hcredit : rowCredit monotonicMs alarm = 60000 * wallMinutes := by
      have hfirst : lastMinute 0 = 0 := if_pos rfl
      rw [rowCredit, hlast, hfirst, snoozeCredit, hsnoozed, if_neg Bool.false_ne_true, Nat.sub_zero,
        Nat.add_zero]
    rw [List.map_append, List.sum_append, List.map_singleton, List.sum_singleton, hcredit, hgiven,
      Nat.mul_add_one]
    omega
  | @set index alarm alarm' hget hlast hsnoozed =>
    have hsum := Rows.sum_set (rowCredit monotonicMs) hget alarm'
    have hzero : snoozeCredit monotonicMs alarm' = 0 := by
      rw [snoozeCredit]
      split
      · rename_i hyes
        have hminute := (hsnoozed hyes).1
        omega
      · rfl
    have hle : rowCredit monotonicMs alarm' ≤ rowCredit monotonicMs alarm := by
      rw [rowCredit, rowCredit, hlast, hzero]
      omega
    omega
  | erase index =>
    have hsub := (List.eraseIdx_sublist rows index).map (rowCredit monotonicMs)
    have hle := hsub.sum_le_sum fun _ _ => Nat.zero_le _
    omega

theorem timerEffect_credit {timer timer' : Timer} {setsTimer : Bool}
    (h : TimerEffect monotonicMs timer setsTimer timer') :
    timerCredit timer' + 60000 * timer.generation ≤
      timerCredit timer + 60000 * timer'.generation := by
  cases h with
  | same => exact Nat.le_refl _
  | set seconds =>
    simp only [timerCredit, reduceCtorEq, if_false]
    omega
  | run hstate =>
    have hleft : timer.state ≠ .finished := by
      rcases hstate with ⟨hstopped, -⟩ | hpaused
      · simp [hstopped]
      · simp [hpaused]
    simp only [timerCredit, reduceCtorEq, if_false, if_neg hleft]
    exact Nat.le_refl _
  | pause hstate =>
    simp only [timerCredit, hstate, reduceCtorEq, if_false]
    exact Nat.le_refl _
  | restart hne =>
    simp only [timerCredit, reduceCtorEq, if_false]
    omega

theorem solvent_effect {setsTimer resetsStopwatch : Bool} (h : Solvent model) (hinv : Inv model)
    (heffect : Effect setsTimer resetsStopwatch model model') :
    Solvent model' where
  next_ne := by
    rw [heffect.next]
    exact h.next_ne
  paid := by
    have hpaid := h.paid
    have hrows := rowsEffect_credit heffect.rows hinv.alarms.next_lt
    have htimer := timerEffect_credit heffect.timer
    rw [credit, granted] at hpaid ⊢
    rw [heffect.next, heffect.times.2]
    omega

/-! ### Runs -/

theorem solvent_init (h : init wallUtc monotonicMs = some model) : Solvent model := by
  rw [init] at h
  split at h
  · simp at h
  · obtain rfl := Option.some.inj h
    refine ⟨by simp, ?_⟩
    simp only [credit, granted, given, timerCredit, List.map_nil, List.sum_nil]
    simp

theorem AlarmsOk.length_le_given {alarms : List Alarm} {nextAlarmId : ℕ}
    (h : AlarmsOk alarms nextAlarmId) : alarms.length ≤ given nextAlarmId := by
  have hsub : alarms.map (·.id) ⊆ List.range' 1 (given nextAlarmId) := by
    intro id hmem
    obtain ⟨alarm, halarm, rfl⟩ := List.mem_map.mp hmem
    have hok := h.each alarm halarm
    have hne := hok.id_ne
    have hlt := hok.id_lt
    have hnext := h.next_lt
    rw [List.mem_range'_1, given]
    split
    · omega
    · rename_i hroom
      have hbelow := h.below hroom alarm halarm
      omega
  have hlen := (List.subperm_of_subset h.nodup hsub).length_le
  rw [List.length_map, List.length_range'] at hlen
  exact hlen

theorem solvent_restored {fresh : Model} (hinv : Inv model)
    (hinit : init wallUtc monotonicMs = some fresh) : Solvent (restored model fresh) := by
  have hrow : ∀ alarm, rowCredit fresh.monotonicMs (restoredAlarm fresh.wallUtc alarm) ≤
      60000 * wallMinutes := by
    intro alarm
    have hzero : snoozeCredit fresh.monotonicMs (restoredAlarm fresh.wallUtc alarm) = 0 := by
      have hsnoozed : (restoredAlarm fresh.wallUtc alarm).snoozed = false := by
        rw [restoredAlarm_eq]
        split
        · split
          · rfl
          · rfl
        · rfl
      rw [snoozeCredit, hsnoozed]
      rfl
    rw [rowCredit, hzero]
    omega
  have hsum : ((model.alarms.map (restoredAlarm fresh.wallUtc)).map
      (rowCredit fresh.monotonicMs)).sum ≤ model.alarms.length * (60000 * wallMinutes) := by
    rw [List.map_map]
    have hle := List.sum_le_card_nsmul
      (model.alarms.map (rowCredit fresh.monotonicMs ∘ restoredAlarm fresh.wallUtc))
      (60000 * wallMinutes) fun n hmem => by
        obtain ⟨alarm, -, rfl⟩ := List.mem_map.mp hmem
        exact hrow alarm
    rw [List.length_map, Nat.nsmul_eq_mul] at hle
    exact hle
  have hrows := Nat.mul_le_mul_right (60000 * wallMinutes) hinv.alarms.length_le_given
  rw [init] at hinit
  split at hinit
  · simp at hinit
  · obtain rfl := Option.some.inj hinit
    refine ⟨by simp [restored], ?_⟩
    simp only [credit, granted, restored, timerCredit, reduceCtorEq, if_false] at hsum ⊢
    rw [Nat.mul_comm (given model.nextAlarmId), Nat.mul_assoc] at hrows
    omega

end Clock
