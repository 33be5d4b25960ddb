/-
Every event of a tick is accounted for once (`clock_model_tick`).

A tick creates one event for each alarm whose occurrence is due, for each alarm
whose snooze is over, and for the timer when it reaches zero.  Each takes an id,
and rings, waits or is missed.  Of what rang or waited before, only a ring that
lasted its minute leaves, and joins the missed history.

Main results:
- `tickEvents_length`: how many events a tick creates;
- `tickClock_placed`: what the start of a tick does to a ring;
- `exactlyOnce_of_reachable`: the accounts of a tick, over every run;
- `tick_ok_iff`: which ticks are taken.
-/
import Fplinux.Clock.Budget

namespace Clock

/-! ### What is due -/

/-- The events that a tick has to create. -/
def dueCount (model : Model) (wallUtc : ℤ) (monotonicMs : ℕ) : ℕ :=
  model.alarms.countP (fun alarm => alarm.spec.enabled ∧ alarm.nextDueUtc ≤ wallUtc) +
    model.alarms.countP (fun alarm => alarm.snoozed ∧ alarm.snoozeDeadlineMs ≤ monotonicMs) +
    if model.timer.state = .running ∧ model.timer.deadlineMs ≤ monotonicMs then 1 else 0

variable {last middle model : Model} {monotonicMs : ℕ} {wallUtc : ℤ}

theorem Phases.events (h : Phases model wallUtc monotonicMs middle last)
    (hwall : validWall wallUtc = true) (hmono : model.monotonicMs ≤ monotonicMs) :
    tickEvents model wallUtc monotonicMs =
      (createdAlarms false (tickClock model wallUtc monotonicMs).alarms.length
          (tickClock model wallUtc monotonicMs)).map (·.event) ++
        ((createdAlarms true middle.alarms.length middle).map (·.event) ++ createdTimer last) := by
  rw [tickEvents, if_neg (by simp [hwall]), if_neg (by omega)]
  simp only [h.scheduled, h.snoozed]

theorem Phases.same (h : Phases model wallUtc monotonicMs middle last)
    (hlt : model.nextEventId < 2 ^ 64) :
    last.monotonicMs = monotonicMs ∧ last.timer = model.timer ∧
      last.stopwatch = (tickClock model wallUtc monotonicMs).stopwatch := by
  obtain ⟨-, hnow, htimer, hnext⟩ := tickClock_same model wallUtc monotonicMs
  rw [← hnext] at hlt
  have hscheduled := accounts_tickAlarms hlt false
    (tickClock model wallUtc monotonicMs).alarms.length
  have hclocks := tickAlarms_clocks false (tickClock model wallUtc monotonicMs).alarms.length
    (tickClock model wallUtc monotonicMs)
  rw [h.scheduled] at hscheduled hclocks
  have hsnoozed := accounts_tickAlarms hscheduled.next_lt true middle.alarms.length
  have hclocks' := tickAlarms_clocks true middle.alarms.length middle
  rw [h.snoozed] at hsnoozed hclocks'
  refine ⟨?_, ?_, ?_⟩
  · rw [hsnoozed.times.2, hscheduled.times.2, hnow]
  · rw [hclocks'.1, hclocks.1, htimer]
  · rw [hclocks'.2, hclocks.2]

theorem createdTimer_eq (h : model.nextEventId ≠ 0) :
    createdTimer model =
      if model.timer.state = .running ∧ model.timer.deadlineMs ≤ model.monotonicMs then
        [timerEvent model]
      else [] := by
  rw [createdTimer]
  by_cases hrun : model.timer.state = .running
  · rw [timerRemaining_running hrun]
    simp only [hrun, true_and, Nat.sub_eq_zero_iff_le, h, ne_eq, not_false_eq_true, and_true]
  · rw [if_neg (fun hall => hrun hall.1), if_neg (fun hall => hrun hall.1)]

/-- **A tick creates what is due.** -/
theorem tickEvents_length (h : Phases model wallUtc monotonicMs middle last)
    (hlt : model.nextEventId < 2 ^ 64) (hwall : validWall wallUtc = true)
    (hmono : model.monotonicMs ≤ monotonicMs) :
    (tickEvents model wallUtc monotonicMs).length = dueCount model wallUtc monotonicMs := by
  obtain ⟨hnowWall, hnow, -, -⟩ := tickClock_same model wallUtc monotonicMs
  have hrows := tickClock_rows model wallUtc monotonicMs
  obtain ⟨hlast, htimer, -⟩ := h.same hlt
  have hscheduled : (createdAlarms false (tickClock model wallUtc monotonicMs).alarms.length
      (tickClock model wallUtc monotonicMs)).length =
        model.alarms.countP fun alarm => alarm.spec.enabled ∧ alarm.nextDueUtc ≤ wallUtc := by
    rw [createdAlarms_length (by rw [h.scheduled]) List.countP_le_length, hrows]
    refine List.countP_congr fun alarm _ => ?_
    simp only [ready, Bool.false_eq_true, if_false, hnowWall]
  have hkept := map_snoozed_tickAlarms (tickClock model wallUtc monotonicMs).alarms.length
    (tickClock model wallUtc monotonicMs)
  rw [h.scheduled] at hkept
  have hsnoozed : (createdAlarms true middle.alarms.length middle).length =
      model.alarms.countP fun alarm => alarm.snoozed ∧ alarm.snoozeDeadlineMs ≤ monotonicMs := by
    rw [createdAlarms_length (by rw [h.snoozed]) List.countP_le_length]
    -- The scheduled phase has left the snoozes as they were.
    have hcount := congrArg (List.countP id) hkept
    rw [List.countP_map, List.countP_map, hrows] at hcount
    refine hcount.trans (List.countP_congr fun alarm _ => ?_)
    simp only [Function.comp_apply, id_eq, ready, if_true, hnow]
  have htimerEvent : (createdTimer last).length =
      if model.timer.state = .running ∧ model.timer.deadlineMs ≤ monotonicMs then 1 else 0 := by
    rw [createdTimer_eq h.solvent.next_ne, htimer, hlast]
    split
    · rfl
    · rfl
  rw [h.events hwall hmono, List.length_append, List.length_append, List.length_map,
    List.length_map, hscheduled, hsnoozed, htimerEvent, dueCount, Nat.add_assoc]

/-! ### The end of a ring -/

/-- The active event has rung for a minute. -/
def RungOut (model : Model) (monotonicMs : ℕ) : Prop :=
  model.active.kind ≠ .none ∧ model.active.ringStartedMs + ringTimeoutMs ≤ monotonicMs

instance (model : Model) (monotonicMs : ℕ) : Decidable (RungOut model monotonicMs) :=
  inferInstanceAs (Decidable (_ ∧ _))

/-- The ring that is over, as the history takes it. -/
def expired (model : Model) (monotonicMs : ℕ) : List Event :=
  if RungOut model monotonicMs then [{ model.active with missedReason := .expired }] else []

/-- What rings or waits and stays. -/
def surviving (model : Model) (monotonicMs : ℕ) : List Event :=
  if RungOut model monotonicMs then model.queue.map Event.unrung
  else pending model.active model.queue

/-- A ring has started at a time that has passed. -/
def Started (model : Model) : Prop :=
  model.active.kind ≠ .none → model.active.ringStartedMs ≤ model.monotonicMs

/-- No more events are held than ids were taken. -/
structure Settled (model : Model) : Prop where
  inv : Inv model
  solvent : Solvent model
  held_lt : held model < model.nextEventId
  started : Started model

theorem Settled.next_lt (h : Settled model) : model.nextEventId < 2 ^ 64 := by
  have hlt := h.solvent.next_lt h.inv
  omega

theorem Settled.slotted (h : Settled model) : Slotted model where
  idle hkind := by
    rcases h.inv.slots.slot with ⟨-, hnil⟩ | ⟨hok, -⟩
    · exact hnil
    · exact absurd hkind hok.kind_ne
  missed_le := h.inv.missed.length_le

theorem held_eq (model : Model) :
    held model = (pending model.active model.queue).length + model.missedTotal := by
  rw [held, pending, List.length_append, List.length_map]
  split
  · rfl
  · rfl

theorem ringOver_iff (h : Settled model) (hmono : model.monotonicMs ≤ monotonicMs)
    (hlt : monotonicMs < 2 ^ 64) :
    ringOver model monotonicMs ↔ RungOut model monotonicMs := by
  rw [ringOver, RungOut]
  refine and_congr_right fun hkind => ?_
  have hstarted := h.started hkind
  rw [Word.sub_eq hlt (by omega)]
  omega

/-- **The start of a tick** moves a ring that is over to the history, and nothing
else. -/
theorem tickClock_placed (h : Settled model) (wallUtc : ℤ) (hmono : model.monotonicMs ≤ monotonicMs)
    (hlt : monotonicMs < 2 ^ 64) :
    Slotted (tickClock model wallUtc monotonicMs) ∧
      pending (tickClock model wallUtc monotonicMs).active
        (tickClock model wallUtc monotonicMs).queue = surviving model monotonicMs ∧
      (tickClock model wallUtc monotonicMs).missed =
        newest (model.missed ++ expired model monotonicMs) ∧
      (tickClock model wallUtc monotonicMs).missedTotal =
        model.missedTotal + (expired model monotonicMs).length := by
  have hslots := h.inv.slots
  have hmissed := h.inv.missed
  rw [tickClock_eq, surviving, expired]
  by_cases hover : RungOut model monotonicMs
  · rw [if_pos ((ringOver_iff h hmono hlt).mpr hover), if_pos hover, if_pos hover]
    obtain ⟨active, queue, heq, hslots', hpending⟩ := @clearActive_spec
      (recordMissed (advance model wallUtc monotonicMs) model.active .expired)
      hslots.each hslots.length_le hlt
    have hrecorded := @missed_recordMissed (advance model wallUtc monotonicMs) hmissed.length_le
      model.active .expired
    -- The count is below the ids taken, so that it cannot saturate.
    have htotal : saturatedAdd model.missedTotal 1 = model.missedTotal + 1 := by
      have hheld := h.held_lt
      have hnext := h.next_lt
      rw [held] at hheld
      rw [saturatedAdd, Word.satAdd, Word.maxVal, if_neg (by omega)]
    rw [heq]
    refine ⟨⟨?_, ?_⟩, hpending, hrecorded, htotal⟩
    · intro hkind
      rcases hslots'.slot with ⟨-, hnil⟩ | ⟨hok, -⟩
      · exact hnil
      · exact absurd hkind hok.kind_ne
    · simp only
      rw [hrecorded]
      exact length_newest _
  · rw [if_neg fun hring => hover ((ringOver_iff h hmono hlt).mp hring), if_neg hover, if_neg hover]
    refine ⟨⟨h.slotted.idle, h.slotted.missed_le⟩, rfl, ?_, rfl⟩
    rw [List.append_nil, newest_of_le hmissed.length_le]
    rfl

/-! ### The accounts of a tick -/

/-- Where the events of a tick went, and what became of the earlier ones. -/
structure ExactlyOnce (model : Model) (wallUtc : ℤ) (monotonicMs : ℕ) (model' : Model) : Prop where
  created : (tickEvents model wallUtc monotonicMs).length = dueCount model wallUtc monotonicMs
  next : model'.nextEventId = model.nextEventId + dueCount model wallUtc monotonicMs
  held : held model' = held model + dueCount model wallUtc monotonicMs
  placed : ∃ rang missed : List Event,
    pending model'.active model'.queue = surviving model monotonicMs ++ rang ∧
    model'.missed = newest (model.missed ++ expired model monotonicMs ++ missed) ∧
    (rang ++ missed.map Event.unmissed).Perm (tickEvents model wallUtc monotonicMs) ∧
    ∀ event ∈ missed, event.missedReason = .late ∨ event.missedReason = .queueFull

theorem length_surviving (model : Model) (monotonicMs : ℕ) :
    (surviving model monotonicMs).length + (expired model monotonicMs).length =
      (pending model.active model.queue).length := by
  rw [surviving, expired]
  split
  · rename_i hover
    rw [pending_of_ne hover.1]
    rfl
  · rfl

theorem exactlyOnce_tick (h : Settled model) (hwall : validWall wallUtc = true)
    (hmono : model.monotonicMs ≤ monotonicMs) (hlt : monotonicMs < 2 ^ 64) :
    ExactlyOnce model wallUtc monotonicMs (tick model wallUtc monotonicMs).2 := by
  obtain ⟨middle, last, hphases⟩ := exists_phases h.solvent h.inv hwall hmono hlt
  have hlength := tickEvents_length hphases h.next_lt hwall hmono
  have haccounts := accounts_tick h.next_lt hwall hmono
  obtain ⟨hslotted, hpending, hmissed, htotal⟩ := tickClock_placed h wallUtc hmono hlt
  obtain ⟨-, rang, missed, hrang, hmissed', htotal', hperm, hreason⟩ := haccounts.placed hslotted
  have hne := (solvent_tick h.solvent h.inv wallUtc hlt).2.next_ne
  have hbound := haccounts.bound
  have hnext := haccounts.next
  rw [(tickClock_same model wallUtc monotonicMs).2.2.2, hlength] at hbound hnext
  have hgrown : (tick model wallUtc monotonicMs).2.nextEventId =
      model.nextEventId + dueCount model wallUtc monotonicMs := by
    by_cases hwrap : model.nextEventId + dueCount model wallUtc monotonicMs = 2 ^ 64
    · rw [hwrap, Nat.mod_self] at hnext
      exact absurd hnext hne
    · rw [hnext, Nat.mod_eq_of_lt (by omega)]
  have hcount := hperm.length_eq
  rw [List.length_append, List.length_map, hlength] at hcount
  have hsum := length_surviving model monotonicMs
  have hheld := h.held_lt
  have hmax := ((solvent_tick h.solvent h.inv wallUtc hlt).2.next_lt
    (inv_tick h.inv wallUtc hlt))
  rw [hgrown] at hmax
  rw [held_eq] at hheld
  have hadded : (tick model wallUtc monotonicMs).2.missedTotal =
      model.missedTotal + (expired model monotonicMs).length + missed.length := by
    rw [htotal', htotal, saturatedAdd, Word.satAdd, Word.maxVal, if_neg (by omega)]
  refine ⟨hlength, hgrown, ?_, rang, missed, ?_, ?_, hperm, hreason⟩
  · rw [held_eq, held_eq, hrang, hpending, hadded, List.length_append]
    omega
  · rw [hrang, hpending]
  · rw [hmissed', hmissed, newest_append]

/-! ### Runs -/

theorem started_of {model' : Model} (h : Started model)
    (hmono : model.monotonicMs ≤ model'.monotonicMs)
    (hactive : model'.active.kind ≠ .none →
      model'.active = model.active ∨ model'.active.ringStartedMs = model'.monotonicMs) :
    Started model' := by
  intro hkind
  rcases hactive hkind with hsame | hnow
  · rw [hsame] at hkind ⊢
    exact Nat.le_trans (h hkind) hmono
  · exact Nat.le_of_eq hnow

theorem started_submit {model : Model} (h : Started model) (event : Event) (late : Bool) :
    Started (submitEvent model event late) := by
  have hmono := (submitEvent_times model event late).2
  refine started_of h (Nat.le_of_eq hmono.symm) fun _ => ?_
  rw [hmono]
  unfold submitEvent
  split_ifs
  · exact .inl rfl
  · exact .inr rfl
  · exact .inl rfl
  · exact .inl rfl

theorem started_tickAlarms (h : Started model) (snoozed : Bool) (rounds : ℕ) :
    Started (tickAlarms snoozed rounds model).2 := by
  induction rounds generalizing model with
  | zero => exact h
  | succ rounds ih =>
    rw [tickAlarms]
    cases hround : tickAlarm model snoozed with
    | idle => exact h
    | exhausted => exact h
    | created due event model' =>
      obtain ⟨index, -, -, -, rfl⟩ := created_eq hround
      exact ih (@started_submit (fireRow model snoozed index due) h _ _)

theorem started_tickTimer (h : Started model) : Started (tickTimer model).2 := by
  rw [tickTimer_eq]
  split_ifs
  · exact h
  · exact @started_submit (finishTimer model) h _ _
  · exact h
  · exact h

theorem started_tickClock (h : Started model) (wallUtc : ℤ)
    (hmono : model.monotonicMs ≤ monotonicMs) : Started (tickClock model wallUtc monotonicMs) := by
  have hadvance : Started (advance model wallUtc monotonicMs) :=
    started_of h hmono fun _ => .inl rfl
  rw [tickClock_eq]
  split
  · obtain ⟨active, queue, heq, hslots⟩ :=
      clearActive_slots (recordMissed (advance model wallUtc monotonicMs) model.active .expired)
    rw [heq]
    exact started_of hadvance (Nat.le_refl _) hslots.started
  · exact hadvance

theorem settled_tick (h : Settled model) (wallUtc : ℤ) (hlt : monotonicMs < 2 ^ 64) :
    Settled (tick model wallUtc monotonicMs).2 := by
  by_cases htaken : validWall wallUtc = true ∧ model.monotonicMs ≤ monotonicMs
  · obtain ⟨hwall, hmono⟩ := htaken
    have honce := exactlyOnce_tick h hwall hmono hlt
    obtain ⟨middle, last, hphases⟩ := exists_phases h.solvent h.inv hwall hmono hlt
    refine ⟨inv_tick h.inv wallUtc hlt, (solvent_tick h.solvent h.inv wallUtc hlt).2, ?_, ?_⟩
    · have hheld := h.held_lt
      rw [honce.held, honce.next]
      omega
    · have hscheduled := started_tickAlarms (started_tickClock h.started wallUtc hmono) false
        (tickClock model wallUtc monotonicMs).alarms.length
      rw [hphases.scheduled] at hscheduled
      have hsnoozed := started_tickAlarms hscheduled true middle.alarms.length
      rw [hphases.snoozed] at hsnoozed
      rw [hphases.tick]
      exact started_tickTimer hsnoozed
  · rw [(tick_refused htaken).2.1]
    exact h

theorem settled_perform (h : Settled model) {call : Call} (hcall : call.InRange) :
    Settled (perform model call).2 := by
  cases call with
  | tick wallUtc monotonicMs => exact settled_tick h wallUtc hcall
  | request request =>
    have heffect := effect_requestApply model request
    refine ⟨inv_requestApply h.inv request, solvent_effect h.solvent h.inv heffect, ?_, ?_⟩
    · show held (requestApply model request).2 < (requestApply model request).2.nextEventId
      rw [heffect.next]
      exact Nat.lt_of_le_of_lt heffect.slots.held_le h.held_lt
    · refine started_of h.started (Nat.le_of_eq heffect.times.2.symm) fun hkind => ?_
      show _ ∨ _ = (requestApply model request).2.monotonicMs
      rw [heffect.times.2]
      exact heffect.slots.started hkind

theorem settled_init (hlt : monotonicMs < 2 ^ 64) (h : init wallUtc monotonicMs = some model) :
    Settled model := by
  refine ⟨inv_init hlt h, solvent_init h, ?_, ?_⟩
  all_goals
    rw [init] at h
    split at h
    · simp at h
    · obtain rfl := Option.some.inj h
      simp [held, Started, Event.zero]

theorem settled_restored {fresh : Model} (hinv : Inv model) (hlt : monotonicMs < 2 ^ 64)
    (h : init wallUtc monotonicMs = some fresh) :
    Settled (restored model fresh) := by
  have hfresh := settled_init hlt h
  exact ⟨inv_restored hinv hlt h, solvent_restored hinv h, hfresh.held_lt, hfresh.started⟩

theorem settled_of_reachable {tokener : Tokener} (hinv : Inverts tokener) {owner : Owner}
    (h : (ownerMachine tokener).Reachable owner) : Settled owner.model := by
  refine h.invariant (P := fun owner => Settled owner.model) ?_ ?_
  · rintro owner ⟨⟨wallUtc, monotonicMs, hlt, hinit⟩, -⟩
    exact settled_init hlt hinit
  · intro owner op owner' hsettled hstep
    cases op with
    | call call =>
      obtain ⟨⟨hcall, heq⟩, -⟩ := hstep
      rw [heq]
      exact settled_perform hsettled hcall
    | restart wallUtc monotonicMs capacity =>
      obtain ⟨hlt, ⟨text, fresh, hencode, hinit, hdecode⟩, -⟩ := hstep
      obtain ⟨rfl, hlen⟩ := preferencesEncode_ok hsettled.inv hencode
      rw [preferencesDecode_print hinv hsettled.inv hinit hlen] at hdecode
      rw [← Option.some.inj hdecode]
      exact settled_restored hsettled.inv hlt hinit

/-- **Exactly once**: in every model an owner reaches, an accepted tick takes as
many event ids as there are scheduled occurrences, snoozes and a countdown due, and
holds as many events more.  Each event rings, waits or is missed; of the earlier
ones only a ring of a minute leaves, for the history, and the others keep their
order. -/
theorem exactlyOnce_of_reachable {tokener : Tokener} (hinv : Inverts tokener) {owner : Owner}
    (h : (ownerMachine tokener).Reachable owner) {wallUtc : ℤ} {monotonicMs : ℕ}
    (hlt : monotonicMs < 2 ^ 64) (hok : (tick owner.model wallUtc monotonicMs).1 = .ok) :
    ExactlyOnce owner.model wallUtc monotonicMs (tick owner.model wallUtc monotonicMs).2 := by
  have hsettled := settled_of_reachable hinv h
  by_cases htaken : validWall wallUtc = true ∧ owner.model.monotonicMs ≤ monotonicMs
  · exact exactlyOnce_tick hsettled htaken.1 htaken.2 hlt
  · rcases (tick_refused htaken).1 with hinvalid | hback
    · simp [hinvalid] at hok
    · simp [hback] at hok

/-- A daily alarm is due, and its event is the one that is held. -/
theorem exactlyOnce_daily :
    ∃ owner, (ownerMachine plainTokener).Reachable owner ∧ held owner.model = 0 ∧
      dueCount owner.model 1700031600 1000 = 1 ∧
      ExactlyOnce owner.model 1700031600 1000 (tick owner.model 1700031600 1000).2 := by
  have hstart : (ownerMachine plainTokener).Reachable ⟨_, []⟩ :=
    .start ⟨⟨1700000040, 0, by decide, rfl⟩, rfl⟩
  have hadded := reachable_call hstart (.request dailyRequest) trivial
  refine ⟨_, hadded, rfl, rfl, ?_⟩
  exact exactlyOnce_of_reachable inverts_plainTokener hadded (show 1000 < 2 ^ 64 by decide) rfl

/-- **Event ids never run out**: in every model an owner reaches, a tick is taken
just when its wall time is valid and its clock has not gone back. -/
theorem tick_ok_iff {tokener : Tokener} (hinv : Inverts tokener) {owner : Owner}
    (h : (ownerMachine tokener).Reachable owner) {wallUtc : ℤ} {monotonicMs : ℕ}
    (hlt : monotonicMs < 2 ^ 64) :
    (tick owner.model wallUtc monotonicMs).1 = .ok ↔
      validWall wallUtc = true ∧ owner.model.monotonicMs ≤ monotonicMs := by
  have hsettled := settled_of_reachable hinv h
  constructor
  · intro hok
    by_contra htaken
    rcases (tick_refused htaken).1 with hinvalid | hback
    · simp [hinvalid] at hok
    · simp [hback] at hok
  · rintro ⟨hwall, hmono⟩
    obtain ⟨middle, last, hphases⟩ := exists_phases hsettled.solvent hsettled.inv hwall hmono hlt
    rw [hphases.tick]

/-- While an alarm rings, a tick whose clock went back is refused and a later one taken. -/
theorem tick_ok_iff_daily :
    ∃ owner, (ownerMachine plainTokener).Reachable owner ∧ owner.model.active.id = 1 ∧
      (tick owner.model 1700031601 999).1 ≠ .ok ∧ (tick owner.model 1700031601 2000).1 = .ok := by
  have hstart : (ownerMachine plainTokener).Reachable ⟨_, []⟩ :=
    .start ⟨⟨1700000040, 0, by decide, rfl⟩, rfl⟩
  have hadded := reachable_call hstart (.request dailyRequest) trivial
  have hrings := reachable_call hadded (.tick 1700031600 1000) (show 1000 < 2 ^ 64 by decide)
  refine ⟨_, hrings, rfl, fun hok => ?_, ?_⟩
  · have htaken := (tick_ok_iff inverts_plainTokener hrings (show 999 < 2 ^ 64 by decide)).mp hok
    exact absurd htaken.2 (by decide)
  · exact (tick_ok_iff inverts_plainTokener hrings (show 2000 < 2 ^ 64 by decide)).mpr
      ⟨by decide, by decide⟩

end Clock
