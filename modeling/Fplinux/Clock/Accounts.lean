/-
What becomes of the events of a tick (`submit_event`, `record_missed`).

Every event that is created takes the next id and rings, waits in the queue, or
joins the missed history.  `Accounts model events model'` says so of a stretch of
a tick: what rang or waited still does, in the same order, before the events that
came; the rest of them is in the history, of which the newest are kept.

Main results:
- `Accounts.trans`: stretches follow one another;
- `accounts_submit`, `accounts_tickAlarms`, `accounts_tickTimer`: the stretches;
- `accounts_tick`: a whole tick;
- `rowOrder_irrelevant`: the order of the rows does not matter.
-/
import Fplinux.Clock.TickEvents

namespace Clock

open List (append_assoc append_nil length_append length_nil map_append map_singleton)

/-! ### The missed history -/

/-- The entries the history keeps. -/
def newest (events : List Event) : List Event := events.drop (events.length - missedLimit)

variable {events : List Event} {event : Event} {model model' a b : Model}

theorem newest_of_le (h : events.length ≤ missedLimit) : newest events = events := by
  have hzero : events.length - missedLimit = 0 := by omega
  rw [newest, hzero, List.drop_zero]

theorem newest_append (events events' : List Event) :
    newest (newest events ++ events') = newest (events ++ events') := by
  rw [newest, newest, newest, length_append, length_append, List.length_drop,
    ← List.drop_append_of_le_length (by omega), List.drop_drop]
  congr 1
  omega

theorem length_newest (events : List Event) : (newest events).length ≤ missedLimit := by
  rw [newest, List.length_drop]
  omega

theorem missed_recordMissed {model : Model} (h : model.missed.length ≤ missedLimit) (event : Event)
    (reason : MissedReason) : (recordMissed model event reason).missed =
      newest (model.missed ++ [{ event with missedReason := reason }]) := by
  rw [recordMissed, newest]
  simp only [length_append, List.length_singleton]
  split
  · rename_i hfull
    have hpos : 1 ≤ missedLimit := by decide
    have hone : model.missed.length + 1 - missedLimit = 1 := by omega
    rw [hone, List.drop_append_of_le_length (by omega)]
  · rename_i hroom
    have hzero : model.missed.length + 1 - missedLimit = 0 := by omega
    rw [hzero, List.drop_zero]

/-! ### Accounts -/

/-- An event of the history as it was created. -/
def Event.unmissed (event : Event) : Event := { event with missedReason := .none }

/-- What the owner holds: the event that rings, the queue, and the count of the
missed ones. -/
def held (model : Model) : ℕ :=
  (if model.active.kind = .none then 0 else 1) + model.queue.length + model.missedTotal

/-- An empty ring slot has no queue, and the history is bounded. -/
structure Slotted (model : Model) : Prop where
  idle : model.active.kind = .none → model.queue = []
  missed_le : model.missed.length ≤ missedLimit

/-- An event as it is created. -/
structure Fresh (event : Event) : Prop where
  id_ne : event.id ≠ 0
  kind_ne : event.kind ≠ .none
  reason : event.missedReason = .none
  started : event.ringStartedMs = 0

theorem Fresh.unrung (h : Fresh event) : event.unrung = event := by
  rw [Event.unrung, ← h.started]

/-- Where the events of a stretch went. -/
structure Accounts (model : Model) (events : List Event) (model' : Model) : Prop where
  times : model'.wallUtc = model.wallUtc ∧ model'.monotonicMs = model.monotonicMs
  fresh : ∀ event ∈ events, Fresh event
  ids : events.map (·.id) = List.range' model.nextEventId events.length
  bound : model.nextEventId + events.length ≤ 2 ^ 64
  next : model'.nextEventId = (model.nextEventId + events.length) % 2 ^ 64
  placed : Slotted model → Slotted model' ∧ ∃ rang missed : List Event,
    pending model'.active model'.queue = pending model.active model.queue ++ rang ∧
    model'.missed = newest (model.missed ++ missed) ∧
    model'.missedTotal = saturatedAdd model.missedTotal missed.length ∧
    (rang ++ missed.map Event.unmissed).Perm events ∧
    ∀ event ∈ missed, event.missedReason = .late ∨ event.missedReason = .queueFull

/-- The parts of a model that accounts are about. -/
structure SameSlots (model model' : Model) : Prop where
  times : model'.wallUtc = model.wallUtc ∧ model'.monotonicMs = model.monotonicMs
  slots : model'.active = model.active ∧ model'.queue = model.queue
  missed : model'.missed = model.missed ∧ model'.missedTotal = model.missedTotal

theorem saturatedAdd_zero (n : ℕ) : saturatedAdd n 0 = n := by
  rw [saturatedAdd, Word.satAdd, if_neg (by omega), Nat.add_zero]

theorem saturatedAdd_saturatedAdd (n a b : ℕ) :
    saturatedAdd (saturatedAdd n a) b = saturatedAdd n (a + b) := Word.satAdd_satAdd 64 n a b

theorem Slotted.congr (h : Slotted model) (hsame : SameSlots model model') :
    Slotted model' where
  idle := by
    rw [hsame.slots.1, hsame.slots.2]
    exact h.idle
  missed_le := by
    rw [hsame.missed.1]
    exact h.missed_le

theorem accounts_nil (hlt : model.nextEventId < 2 ^ 64) (hsame : SameSlots model model')
    (hnext : model'.nextEventId = model.nextEventId) :
    Accounts model [] model' where
  times := hsame.times
  fresh := by simp
  ids := rfl
  bound := Nat.le_of_lt hlt
  next := by
    rw [hnext, length_nil, Nat.add_zero, Nat.mod_eq_of_lt hlt]
  placed h := by
    refine ⟨h.congr hsame, [], [], ?_, ?_, ?_, by simp, by simp⟩
    · rw [hsame.slots.1, hsame.slots.2, append_nil]
    · rw [hsame.missed.1, append_nil, newest_of_le h.missed_le]
    · rw [hsame.missed.2, length_nil, saturatedAdd_zero]

theorem accounts_same (h : model.nextEventId < 2 ^ 64) : Accounts model [] model :=
  accounts_nil h ⟨⟨rfl, rfl⟩, ⟨rfl, rfl⟩, ⟨rfl, rfl⟩⟩ rfl

theorem Accounts.next_lt (h : Accounts a events b) : b.nextEventId < 2 ^ 64 := by
  rw [h.next]
  exact Nat.mod_lt _ (by decide)

theorem Accounts.lt {c : Model} {events' : List Event} (hab : Accounts a events b)
    (hbc : Accounts b events' c) (hne : events' ≠ []) : a.nextEventId + events.length < 2 ^ 64 := by
  obtain ⟨event, rest, rfl⟩ := List.exists_cons_of_ne_nil hne
  have hfresh := hbc.fresh event List.mem_cons_self
  have hids := hbc.ids
  rw [List.map_cons, List.length_cons, List.range'_succ] at hids
  have hid : event.id = b.nextEventId := (List.cons.inj hids).1
  have hle := hab.bound
  by_contra hnot
  have hmax : a.nextEventId + events.length = 2 ^ 64 := by omega
  rw [hab.next, hmax, Nat.mod_self] at hid
  exact hfresh.id_ne hid

/-- **One stretch after another.** -/
theorem Accounts.trans {c : Model} {events' : List Event} (hab : Accounts a events b)
    (hbc : Accounts b events' c) : Accounts a (events ++ events') c where
  times := ⟨hbc.times.1.trans hab.times.1, hbc.times.2.trans hab.times.2⟩
  fresh := by
    intro event hmem
    rcases List.mem_append.mp hmem with hold | hnew
    · exact hab.fresh event hold
    · exact hbc.fresh event hnew
  ids := by
    rw [map_append, hab.ids, hbc.ids, hab.next, length_append]
    by_cases hnil : events' = []
    · simp [hnil]
    · rw [Nat.mod_eq_of_lt (hab.lt hbc hnil), List.range'_append_1]
  bound := by
    by_cases hnil : events' = []
    · rw [hnil, append_nil]
      exact hab.bound
    · have hbound := hbc.bound
      rw [hab.next, Nat.mod_eq_of_lt (hab.lt hbc hnil)] at hbound
      rw [length_append, ← Nat.add_assoc]
      exact hbound
  next := by
    rw [hbc.next, hab.next, Nat.mod_add_mod, length_append, Nat.add_assoc]
  placed h := by
    obtain ⟨hb, rang, missed, hring, hmissed, htotal, hperm, hreason⟩ := hab.placed h
    obtain ⟨hc, rang', missed', hring', hmissed', htotal', hperm', hreason'⟩ := hbc.placed hb
    refine ⟨hc, rang ++ rang', missed ++ missed', ?_, ?_, ?_, ?_, ?_⟩
    · rw [hring', hring, append_assoc]
    · rw [hmissed', hmissed, newest_append, append_assoc]
    · rw [htotal', htotal, saturatedAdd_saturatedAdd, length_append]
    · rw [map_append]
      have hmiddle : (rang ++ rang' ++ (missed.map Event.unmissed ++ missed'.map Event.unmissed)).Perm
          (rang ++ missed.map Event.unmissed ++ (rang' ++ missed'.map Event.unmissed)) := by
        simp only [append_assoc]
        refine List.Perm.append_left rang ?_
        rw [← append_assoc, ← append_assoc]
        exact List.Perm.append_right _ List.perm_append_comm
      exact hmiddle.trans (hperm.append hperm')
    · intro event hmem
      rcases List.mem_append.mp hmem with hold | hnew
      · exact hreason event hold
      · exact hreason' event hnew

/-! ### Stretches of a tick -/

theorem submitEvent_next (model : Model) (event : Event) (late : Bool) :
    (submitEvent model event late).nextEventId = model.nextEventId := by
  unfold submitEvent
  split_ifs
  all_goals rfl

theorem placed_submit {ready : Model} (h : Slotted model) (hsame : SameSlots model ready)
    (hfresh : Fresh event) (late : Bool) :
    Slotted (submitEvent ready event late) ∧ ∃ rang missed : List Event,
      pending (submitEvent ready event late).active (submitEvent ready event late).queue =
        pending model.active model.queue ++ rang ∧
      (submitEvent ready event late).missed = newest (model.missed ++ missed) ∧
      (submitEvent ready event late).missedTotal =
        saturatedAdd model.missedTotal missed.length ∧
      (rang ++ missed.map Event.unmissed).Perm [event] ∧
      ∀ event ∈ missed, event.missedReason = .late ∨ event.missedReason = .queueFull := by
  have hready := h.congr hsame
  have hkept : newest (model.missed ++ []) = model.missed := by
    rw [append_nil, newest_of_le h.missed_le]
  -- A missed event joins the history.
  have hrecord : ∀ reason, reason = .late ∨ reason = .queueFull →
      Slotted (recordMissed ready event reason) ∧ ∃ rang missed : List Event,
        pending (recordMissed ready event reason).active (recordMissed ready event reason).queue =
          pending model.active model.queue ++ rang ∧
        (recordMissed ready event reason).missed = newest (model.missed ++ missed) ∧
        (recordMissed ready event reason).missedTotal =
          saturatedAdd model.missedTotal missed.length ∧
        (rang ++ missed.map Event.unmissed).Perm [event] ∧
        ∀ event ∈ missed, event.missedReason = .late ∨ event.missedReason = .queueFull := by
    intro reason hreason
    have hle := h.missed_le
    have hmissed : (recordMissed ready event reason).missed =
        newest (model.missed ++ [{ event with missedReason := reason }]) := by
      rw [← hsame.missed.1]
      exact missed_recordMissed (hsame.missed.1 ▸ hle) event reason
    refine ⟨⟨hready.idle, ?_⟩, [], [{ event with missedReason := reason }], ?_, hmissed, ?_, ?_, ?_⟩
    · rw [hmissed]
      exact length_newest _
    · rw [recordMissed, hsame.slots.1, hsame.slots.2, append_nil]
    · rw [recordMissed, hsame.missed.2]
      rfl
    · have hback : Event.unmissed { event with missedReason := reason } = event := by
        rw [Event.unmissed, ← hfresh.reason]
      rw [List.nil_append, map_singleton, hback]
    · intro other hmem
      rw [List.mem_singleton.mp hmem]
      exact hreason
  rw [submitEvent]
  split
  · exact hrecord .late (.inl rfl)
  · split
    · rename_i hidle
      have hqueue := hready.idle hidle
      refine ⟨⟨fun hkind => absurd hkind hfresh.kind_ne, hready.missed_le⟩, [event], [], ?_, ?_, ?_,
        by simp, by simp⟩
      · have hempty : pending model.active model.queue = [] := by
          rw [← hsame.slots.1, ← hsame.slots.2, pending, if_pos hidle, hqueue]
          rfl
        rw [hempty, pending_started hfresh.kind_ne, hqueue, hfresh.unrung]
        rfl
      · rw [hkept, hsame.missed.1]
      · rw [hsame.missed.2, length_nil, saturatedAdd_zero]
    · rename_i hactive
      split
      · refine ⟨⟨fun hkind => absurd hkind hactive, hready.missed_le⟩, [event], [], ?_, ?_, ?_,
          by simp, by simp⟩
        · rw [pending, pending, hsame.slots.1, hsame.slots.2, map_append, ← append_assoc,
            map_singleton, hfresh.unrung]
        · rw [hkept, hsame.missed.1]
        · rw [hsame.missed.2, length_nil, saturatedAdd_zero]
      · exact hrecord .queueFull (.inr rfl)

/-- **A submission** places one event. -/
theorem accounts_submit {model ready : Model} (hlt : model.nextEventId < 2 ^ 64)
    (hsame : SameSlots model ready) (hnext : ready.nextEventId = Word.add 64 model.nextEventId 1)
    {event : Event} (hid : event.id = model.nextEventId) (hfresh : Fresh event) (late : Bool) :
    Accounts model [event] (submitEvent ready event late) where
  times := by
    rw [(submitEvent_times ready event late).1, (submitEvent_times ready event late).2]
    exact hsame.times
  fresh other hmem := by
    rw [List.mem_singleton.mp hmem]
    exact hfresh
  ids := by
    rw [map_singleton, hid]
    rfl
  bound := hlt
  next := by
    rw [submitEvent_next, hnext]
    rfl
  placed h := placed_submit h hsame hfresh late

theorem fresh_dueEvent (hne : model.nextEventId ≠ 0) (snoozed : Bool) (due : Alarm) :
    Fresh (dueEvent model snoozed due) := ⟨hne, by simp [dueEvent], rfl, rfl⟩

theorem fresh_timerEvent (hne : model.nextEventId ≠ 0) : Fresh (timerEvent model) :=
  ⟨hne, by simp [timerEvent], rfl, rfl⟩

theorem accounts_tickAlarm (h : model.nextEventId < 2 ^ 64) {snoozed : Bool} {due : Alarm}
    (hround : tickAlarm model snoozed = .created due event model') :
    Accounts model [event] model' := by
  obtain ⟨index, -, hne, rfl, rfl⟩ := created_eq hround
  exact @accounts_submit model (fireRow model snoozed index due) h
    ⟨⟨rfl, rfl⟩, ⟨rfl, rfl⟩, ⟨rfl, rfl⟩⟩ rfl _ rfl (fresh_dueEvent hne _ _) _

/-- **A phase** places the events of its rows. -/
theorem accounts_tickAlarms (h : model.nextEventId < 2 ^ 64) (snoozed : Bool) (rounds : ℕ) :
    Accounts model ((createdAlarms snoozed rounds model).map (·.event))
      (tickAlarms snoozed rounds model).2 := by
  have hidle := accounts_same h
  induction rounds generalizing model with
  | zero => exact hidle
  | succ rounds ih =>
    rw [tickAlarms, createdAlarms]
    cases hround : tickAlarm model snoozed with
    | idle => exact hidle
    | exhausted => exact hidle
    | created due event model' =>
      have hfirst := accounts_tickAlarm h hround
      exact hfirst.trans (ih hfirst.next_lt (accounts_same hfirst.next_lt))

/-- **The timer** places its event. -/
theorem accounts_tickTimer (h : model.nextEventId < 2 ^ 64) :
    Accounts model (createdTimer model) (tickTimer model).2 := by
  rw [createdTimer, tickTimer_eq]
  by_cases hrun : model.timer.state = .running
  · rw [if_pos hrun]
    by_cases hzero : timerRemaining model = 0
    · rw [if_pos hzero]
      by_cases hid : model.nextEventId = 0
      · rw [if_pos hid, if_neg (fun hall => hall.2.2 hid)]
        exact accounts_nil h ⟨⟨rfl, rfl⟩, ⟨rfl, rfl⟩, ⟨rfl, rfl⟩⟩ rfl
      · rw [if_neg hid, if_pos ⟨hrun, hzero, hid⟩]
        exact @accounts_submit model (finishTimer model) h
          ⟨⟨rfl, rfl⟩, ⟨rfl, rfl⟩, ⟨rfl, rfl⟩⟩ rfl _ rfl (fresh_timerEvent hid) false
    · rw [if_neg hzero, if_neg (fun hall => hzero hall.2.1)]
      exact accounts_nil h ⟨⟨rfl, rfl⟩, ⟨rfl, rfl⟩, ⟨rfl, rfl⟩⟩ rfl
  · rw [if_neg hrun, if_neg (fun hall => hrun hall.1)]
    exact accounts_nil h ⟨⟨rfl, rfl⟩, ⟨rfl, rfl⟩, ⟨rfl, rfl⟩⟩ rfl

/-! ### A whole tick -/

theorem clearActive_same (model : Model) :
    (clearActive model).wallUtc = model.wallUtc ∧
      (clearActive model).monotonicMs = model.monotonicMs ∧
      (clearActive model).missed = model.missed ∧
      (clearActive model).missedTotal = model.missedTotal ∧
      (clearActive model).timer = model.timer ∧
      (clearActive model).stopwatch = model.stopwatch ∧
      (clearActive model).nextEventId = model.nextEventId := by
  unfold clearActive promoteEvent
  split
  · exact ⟨rfl, rfl, rfl, rfl, rfl, rfl, rfl⟩
  · exact ⟨rfl, rfl, rfl, rfl, rfl, rfl, rfl⟩

theorem tickClock_same (model : Model) (wallUtc : ℤ) (monotonicMs : ℕ) :
    (tickClock model wallUtc monotonicMs).wallUtc = wallUtc ∧
      (tickClock model wallUtc monotonicMs).monotonicMs = monotonicMs ∧
      (tickClock model wallUtc monotonicMs).timer = model.timer ∧
      (tickClock model wallUtc monotonicMs).nextEventId = model.nextEventId := by
  rw [tickClock_eq]
  split
  · obtain ⟨hwall, hmono, -, -, htimer, -, hnext⟩ := clearActive_same
      (recordMissed (advance model wallUtc monotonicMs) model.active .expired)
    exact ⟨hwall, hmono, htimer, hnext⟩
  · exact ⟨rfl, rfl, rfl, rfl⟩

theorem accounts_tick (h : model.nextEventId < 2 ^ 64) {wallUtc : ℤ} {monotonicMs : ℕ}
    (hwall : validWall wallUtc = true) (hmono : model.monotonicMs ≤ monotonicMs) :
    Accounts (tickClock model wallUtc monotonicMs) (tickEvents model wallUtc monotonicMs)
      (tick model wallUtc monotonicMs).2 := by
  rw [tick, tickEvents, hwall]
  simp only [Bool.not_true, Bool.false_eq_true, if_false]
  rw [if_neg (by omega), if_neg (by omega)]
  rw [← (tickClock_same model wallUtc monotonicMs).2.2.2] at h
  generalize tickClock model wallUtc monotonicMs = clock at h
  have hfirst := accounts_tickAlarms h false clock.alarms.length
  cases hphase : tickAlarms false clock.alarms.length clock with
  | mk status middle =>
    rw [hphase] at hfirst
    cases status with
    | ok =>
      have hsecond := accounts_tickAlarms hfirst.next_lt true middle.alarms.length
      simp only
      cases hphase' : tickAlarms true middle.alarms.length middle with
      | mk status last =>
        rw [hphase'] at hsecond
        cases status with
        | ok => exact hfirst.trans (hsecond.trans (accounts_tickTimer hsecond.next_lt))
        | _ => exact hfirst.trans (hsecond.trans (accounts_same hsecond.next_lt))
    | _ => exact hfirst.trans (accounts_same hfirst.next_lt)

/-! ### The order of the rows -/

theorem createdAlarms_reorder (hids : (model.alarms.map (·.id)).Nodup) {order : List ℕ}
    (horder : order.Perm (List.range model.alarms.length)) (snoozed : Bool) (rounds : ℕ) :
    createdAlarms snoozed rounds (model.reorder order) = createdAlarms snoozed rounds model := by
  induction rounds generalizing model with
  | zero => rfl
  | succ rounds ih =>
    rw [createdAlarms, createdAlarms, tickAlarm_reorder hids horder]
    cases hround : tickAlarm model snoozed with
    | idle => rfl
    | exhausted => rfl
    | created due event model' =>
      have hsame := tickAlarm_ids hround
      rw [← hsame] at hids
      rw [← length_eq_of_ids hsame] at horder
      exact congrArg (List.cons _) (ih hids horder)

/-- **A tick commutes with a rearrangement of the rows**, and creates the same events. -/
theorem tick_reorder (hids : (model.alarms.map (·.id)).Nodup) {order : List ℕ}
    (horder : order.Perm (List.range model.alarms.length)) (wallUtc : ℤ) (monotonicMs : ℕ) :
    tick (model.reorder order) wallUtc monotonicMs =
        ((tick model wallUtc monotonicMs).1, (tick model wallUtc monotonicMs).2.reorder order) ∧
      tickEvents (model.reorder order) wallUtc monotonicMs =
        tickEvents model wallUtc monotonicMs := by
  simp only [tick, tickEvents]
  by_cases hvalid : (!validWall wallUtc) = true
  · simp only [if_pos hvalid, and_self]
  by_cases hback : monotonicMs < model.monotonicMs
  · have hback' : monotonicMs < (model.reorder order).monotonicMs := hback
    simp only [if_neg hvalid, if_pos hback, if_pos hback', and_self]
  have hback' : ¬ monotonicMs < (model.reorder order).monotonicMs := hback
  simp only [if_neg hvalid, if_neg hback, if_neg hback', tickClock_reorder]
  have hclock := tickClock_rows model wallUtc monotonicMs
  rw [← hclock] at hids horder
  generalize tickClock model wallUtc monotonicMs = clock at hids horder
  have hlen : (clock.reorder order).alarms.length = clock.alarms.length :=
    (Rows.reorder_perm horder).length_eq
  simp only [hlen, tickAlarms_reorder hids horder, createdAlarms_reorder hids horder]
  have hsame := tickAlarms_ids false clock.alarms.length clock
  cases hfirst : tickAlarms false clock.alarms.length clock with
  | mk status middle =>
    rw [hfirst] at hsame
    simp only at hsame
    cases status with
    | ok =>
      rw [← hsame] at hids
      rw [← length_eq_of_ids hsame] at horder
      have hlen' : (middle.reorder order).alarms.length = middle.alarms.length :=
        (Rows.reorder_perm horder).length_eq
      simp only [hlen', tickAlarms_reorder hids horder, createdAlarms_reorder hids horder]
      cases tickAlarms true middle.alarms.length middle with
      | mk status last =>
        cases status with
        | ok => exact ⟨tickTimer_reorder last order, rfl⟩
        | _ => exact ⟨rfl, rfl⟩
    | _ => exact ⟨rfl, rfl⟩

/-- **Row order never matters**: a tick of rearranged rows is the rearranged tick
and creates the same events; they take consecutive ids in the order of due time
and alarm, then of snooze deadline and alarm, then the timer. -/
theorem rowOrder_irrelevant {model : Model} (hids : (model.alarms.map (·.id)).Nodup)
    (hlt : model.nextEventId < 2 ^ 64) (wallUtc : ℤ) (monotonicMs : ℕ) :
    (∀ order : List ℕ, order.Perm (List.range model.alarms.length) →
      tick (model.reorder order) wallUtc monotonicMs =
          ((tick model wallUtc monotonicMs).1, (tick model wallUtc monotonicMs).2.reorder order) ∧
        tickEvents (model.reorder order) wallUtc monotonicMs =
          tickEvents model wallUtc monotonicMs) ∧
      (tickEvents model wallUtc monotonicMs).map (·.id) =
        List.range' model.nextEventId (tickEvents model wallUtc monotonicMs).length ∧
      ∃ scheduled snoozed timer,
        tickEvents model wallUtc monotonicMs = scheduled ++ snoozed ++ timer ∧
          InOrder scheduled snoozed timer := by
  refine ⟨fun order horder => tick_reorder hids horder wallUtc monotonicMs, ?_,
    inOrder_tickEvents hids wallUtc monotonicMs⟩
  by_cases htaken : validWall wallUtc = true ∧ model.monotonicMs ≤ monotonicMs
  · have hids' := (accounts_tick hlt htaken.1 htaken.2).ids
    rw [(tickClock_same model wallUtc monotonicMs).2.2.2] at hids'
    exact hids'
  · have hnil : tickEvents model wallUtc monotonicMs = [] := by
      rw [tickEvents]
      split
      · rfl
      · rename_i hvalid
        rw [if_pos]
        by_contra hnot
        exact htaken ⟨by simpa using hvalid, by omega⟩
    rw [hnil]
    rfl

/-- A model with two daily alarms. -/
def twoAlarms : Model :=
  { wallUtc := 1700000040
    monotonicMs := 0
    view := .digital
    snoozeMinutes := 5
    lastAlarmHour := 7
    lastAlarmMinute := 0
    alarms :=
      [⟨1, 1, ⟨[], .weekly, 0, 7, 0, 127, true⟩, 1700031600, 0, false, 0⟩,
        ⟨2, 1, ⟨[], .weekly, 0, 6, 59, 127, true⟩, 1700031540, 0, false, 0⟩]
    active := Event.zero
    queue := []
    missed := []
    missedTotal := 0
    timer := ⟨.stopped, 1, 0, 0, 0⟩
    stopwatch := ⟨false, 0, []⟩
    world := []
    nextAlarmId := 3
    nextWorldId := 1
    nextEventId := 1 }

/-- The earlier of two alarms rings first, whichever row it has. -/
theorem rowOrder_twoAlarms :
    tick (twoAlarms.reorder [1, 0]) 1700031600 1000 =
        ((tick twoAlarms 1700031600 1000).1, (tick twoAlarms 1700031600 1000).2.reorder [1, 0]) ∧
      (tick twoAlarms 1700031600 1000).2.active.sourceId = 2 :=
  ⟨((@rowOrder_irrelevant twoAlarms (by decide) (by decide) 1700031600 1000).1 [1, 0]
    (by decide)).1, by decide⟩

end Clock
