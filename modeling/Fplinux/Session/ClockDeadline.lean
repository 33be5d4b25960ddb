/-
When the clock owner has to be woken (`session-clock.c`).

The owner sleeps until the earlier of two times: a monotonic deadline, for the ring,
the snoozes, the countdown and the next attempt to store, and a wall-clock deadline
for the next scheduled alarm.  Both are computed from the model, without ticking it.

Main results:
- `woken_of_trace`: along every run nothing of the model is overdue;
- `deadlines_complete`: a tick before both deadlines only moves the times along.
-/
import Fplinux.Clock.Awake
import Fplinux.Session.Clock

namespace SessionClock

open Clock (Model Alarm Inv Awake NothingDue passed tickEvents validWall ringTimeoutMs)
open Prefs (Faults)

/-! ### The deadlines -/

/-- A deadline that has passed is due at once. -/
def notBefore (deadline monoMs : ℕ) : ℕ :=
  if deadline ≤ monoMs then
    if monoMs = Word.maxVal 64 then Word.maxVal 64 else monoMs + 1
  else deadline

/-- Zero stands for no deadline. -/
def consider (earliest deadline monoMs : ℕ) : ℕ :=
  if earliest = 0 ∨ notBefore deadline monoMs < earliest then notBefore deadline monoMs
  else earliest

def considerSnooze (monoMs earliest : ℕ) (alarm : Alarm) : ℕ :=
  if alarm.snoozed then consider earliest alarm.snoozeDeadlineMs monoMs else earliest

def deadline (clock : State) (monoMs : ℕ) : ℕ :=
  let model := clock.model
  let earliest := if clock.retryAtMs ≠ 0 then consider 0 clock.retryAtMs monoMs else 0
  let earliest :=
    if model.active.kind ≠ .none then
      consider earliest (Word.satAdd 64 model.active.ringStartedMs ringTimeoutMs) monoMs
    else earliest
  let earliest :=
    if model.timer.state = .running then consider earliest model.timer.deadlineMs monoMs
    else earliest
  model.alarms.foldl (considerSnooze monoMs) earliest

def considerAlarm (earliest : ℤ) (alarm : Alarm) : ℤ :=
  if alarm.spec.enabled ∧ alarm.nextDueUtc ≠ 0 ∧
      (earliest = 0 ∨ alarm.nextDueUtc < earliest) then alarm.nextDueUtc
  else earliest

def alarmDeadline (clock : State) : ℤ := clock.model.alarms.foldl considerAlarm 0

/-! ### What a deadline covers -/

/-- The deadline is set, and not after `due` unless that has passed. -/
def Covers (monoMs earliest due : ℕ) : Prop := earliest ≠ 0 ∧ (monoMs < due → earliest ≤ due)

theorem notBefore_ne_zero (deadline monoMs : ℕ) : notBefore deadline monoMs ≠ 0 := by
  have hmax : Word.maxVal 64 ≠ 0 := by decide
  unfold notBefore
  split_ifs
  · exact hmax
  · omega
  · omega

theorem consider_le (earliest deadline monoMs : ℕ) (h : earliest ≠ 0) :
    consider earliest deadline monoMs ≤ earliest := by
  unfold consider
  split_ifs with hless
  · rcases hless with hzero | hless
    · exact absurd hzero h
    · exact Nat.le_of_lt hless
  · exact le_rfl

theorem consider_ne_zero (earliest deadline monoMs : ℕ) : consider earliest deadline monoMs ≠ 0 := by
  unfold consider
  split_ifs with hless
  · exact notBefore_ne_zero deadline monoMs
  · exact fun hzero => hless (.inl hzero)

theorem covers_consider (earliest due monoMs : ℕ) :
    Covers monoMs (consider earliest due monoMs) due := by
  refine ⟨consider_ne_zero earliest due monoMs, ?_⟩
  intro hlater
  have hsame : notBefore due monoMs = due := if_neg (Nat.not_le.mpr hlater)
  unfold consider
  rw [hsame]
  split_ifs <;> omega

variable {monoMs : ℕ} {alarm : Alarm} {model : Model} {clock : State}

theorem Covers.consider {earliest due : ℕ} (h : Covers monoMs earliest due) (other : ℕ) :
    Covers monoMs (consider earliest other monoMs) due := by
  refine ⟨consider_ne_zero earliest other monoMs, ?_⟩
  intro hlater
  exact Nat.le_trans (consider_le earliest other monoMs h.1) (h.2 hlater)

theorem Covers.snoozes {earliest due : ℕ} (h : Covers monoMs earliest due) (alarms : List Alarm) :
    Covers monoMs (alarms.foldl (considerSnooze monoMs) earliest) due := by
  induction alarms generalizing earliest with
  | nil => exact h
  | cons alarm alarms ih =>
    refine ih ?_
    unfold considerSnooze
    split
    · exact h.consider _
    · exact h

theorem covers_snooze {alarms : List Alarm} (earliest : ℕ) (hmem : alarm ∈ alarms)
    (hsnoozed : alarm.snoozed = true) :
    Covers monoMs (alarms.foldl (considerSnooze monoMs) earliest) alarm.snoozeDeadlineMs := by
  induction alarms generalizing earliest with
  | nil => cases hmem
  | cons first alarms ih =>
    rcases List.mem_cons.mp hmem with rfl | hrest
    · refine Covers.snoozes ?_ alarms
      rw [considerSnooze, if_pos hsnoozed]
      exact covers_consider _ _ _
    · exact ih _ hrest

/-- The deadline covers all that a tick looks at. -/
structure Complete (clock : State) (monoMs earliest : ℕ) : Prop where
  ring : clock.model.active.kind ≠ .none →
    Covers monoMs earliest (Word.satAdd 64 clock.model.active.ringStartedMs ringTimeoutMs)
  timer : clock.model.timer.state = .running → Covers monoMs earliest clock.model.timer.deadlineMs
  snooze : ∀ alarm ∈ clock.model.alarms, alarm.snoozed = true →
    Covers monoMs earliest alarm.snoozeDeadlineMs

theorem complete_deadline (clock : State) (monoMs : ℕ) :
    Complete clock monoMs (deadline clock monoMs) := by
  unfold deadline
  simp only
  refine ⟨?_, ?_, ?_⟩
  · intro hkind
    refine Covers.snoozes ?_ _
    rw [if_pos hkind]
    have hring := covers_consider (if clock.retryAtMs ≠ 0 then consider 0 clock.retryAtMs monoMs
      else 0) (Word.satAdd 64 clock.model.active.ringStartedMs ringTimeoutMs) monoMs
    split
    · exact hring.consider _
    · exact hring
  · intro hrun
    refine Covers.snoozes ?_ _
    rw [if_pos hrun]
    exact covers_consider _ _ _
  · intro alarm hmem hsnoozed
    exact covers_snooze _ hmem hsnoozed

theorem considerAlarm_spec (harmed : alarm.spec.enabled = true → 0 < alarm.nextDueUtc)
    {earliest : ℤ} (hnonneg : 0 ≤ earliest) :
    0 ≤ considerAlarm earliest alarm ∧
      (earliest ≠ 0 → considerAlarm earliest alarm ≠ 0 ∧ considerAlarm earliest alarm ≤ earliest) ∧
      (alarm.spec.enabled = true → considerAlarm earliest alarm ≠ 0 ∧
        considerAlarm earliest alarm ≤ alarm.nextDueUtc) := by
  unfold considerAlarm
  split_ifs with hless
  · have hpos := harmed hless.1
    omega
  · refine ⟨hnonneg, fun hne => ⟨hne, le_rfl⟩, ?_⟩
    intro hen
    have hpos := harmed hen
    simp only [hen, true_and] at hless
    omega

theorem foldl_considerAlarm {alarms : List Alarm}
    (harmed : ∀ alarm ∈ alarms, alarm.spec.enabled = true → 0 < alarm.nextDueUtc) :
    ∀ {earliest : ℤ}, 0 ≤ earliest →
      (earliest ≠ 0 → alarms.foldl considerAlarm earliest ≠ 0 ∧
        alarms.foldl considerAlarm earliest ≤ earliest) ∧
      ∀ alarm ∈ alarms, alarm.spec.enabled = true →
        alarms.foldl considerAlarm earliest ≠ 0 ∧
          alarms.foldl considerAlarm earliest ≤ alarm.nextDueUtc := by
  induction alarms with
  | nil =>
    intro earliest _
    exact ⟨fun hne => ⟨hne, le_rfl⟩, by simp⟩
  | cons first alarms ih =>
    intro earliest hnonneg
    obtain ⟨hnonneg', hkeep, hfirst⟩ := considerAlarm_spec (harmed first (by simp)) hnonneg
    obtain ⟨hrest, hall⟩ := ih (fun alarm hmem => harmed alarm (by simp [hmem])) hnonneg'
    rw [List.foldl_cons]
    refine ⟨?_, ?_⟩
    · intro hne
      obtain ⟨hne', hle⟩ := hkeep hne
      obtain ⟨hne'', hle'⟩ := hrest hne'
      exact ⟨hne'', hle'.trans hle⟩
    · intro alarm hmem hen
      rcases List.mem_cons.mp hmem with rfl | hold
      · obtain ⟨hne', hle⟩ := hfirst hen
        obtain ⟨hne'', hle'⟩ := hrest hne'
        exact ⟨hne'', hle'.trans hle⟩
      · exact hall alarm hold hen

/-! ### Runs -/

/-- Times are `uint64_t`. -/
def Op.InRange : Op → Prop
  | .tick _ monoMs _ => monoMs < 2 ^ 64
  | .retry monoMs _ => monoMs < 2 ^ 64
  | .apply _ _ monoMs _ => monoMs < 2 ^ 64

/-- Nothing of the owner's model is overdue. -/
structure Woken (model : Model) : Prop where
  inv : Inv model
  awake : Awake model

theorem saveConfiguration_model (clock : State) (configuration : List UInt8) (faults : Faults) :
    (saveConfiguration clock configuration faults).2.model = clock.model := by
  rw [saveConfiguration]
  split <;> rfl

theorem checkpoint_model (clock : State) (configuration : List UInt8) (monoMs : ℕ)
    (faults : Faults) : (checkpoint clock configuration monoMs faults).model = clock.model :=
  (saved_fields _ _ monoMs).1.trans (saveConfiguration_model clock configuration faults)

theorem retry_model (clock : State) (monoMs : ℕ) (faults : Faults) :
    (retry clock monoMs faults).2.model = clock.model := by
  rw [retry]
  split
  · rfl
  · split
    · rfl
    · exact checkpoint_model clock _ monoMs faults

theorem restore_model (clock : State) (before : List UInt8) (allocate : Bool) :
    (restore clock before allocate).model = clock.model := by
  rw [restore]
  split <;> rfl

theorem tick_model (clock : State) (wallUtc : ℤ) (monoMs : ℕ) (faults : Faults) :
    (tick clock wallUtc monoMs faults).2.model = clock.model ∨
      (Clock.tick clock.model wallUtc monoMs).1 = .ok ∧
        (tick clock wallUtc monoMs faults).2.model = (Clock.tick clock.model wallUtc monoMs).2 := by
  rw [tick]
  simp only
  split
  · exact .inl rfl
  · rename_i hstatus
    split
    · exact .inl rfl
    · refine .inr ⟨by simpa using hstatus, ?_⟩
      split
      · exact checkpoint_model _ _ monoMs faults
      · split
        · exact retry_model _ monoMs faults
        · rfl

theorem apply_model (clock : State) (request : Clock.Request) (wallUtc : ℤ) (monoMs : ℕ)
    (faults : ApplyFaults) :
    (apply clock request wallUtc monoMs faults).2.model =
        (tick clock wallUtc monoMs faults.tick).2.model ∨
      (apply clock request wallUtc monoMs faults).2.model =
        (Clock.requestApply (tick clock wallUtc monoMs faults.tick).2.model request).2 := by
  rw [apply]
  simp only
  generalize (tick clock wallUtc monoMs faults.tick).2 = ticked
  split
  · exact .inl rfl
  split
  · exact .inl rfl
  split
  · exact .inl rfl
  rename_i before after hconf
  split
  · right
    split
    · exact retry_model _ monoMs faults.save
    · rfl
  · split
    · left
      rw [restore_model]
      exact saveConfiguration_model ticked after faults.save
    · right
      exact (saved_fields _ _ monoMs).1

theorem Woken.tick (h : Woken model) (wallUtc : ℤ) (hlt : monoMs < 2 ^ 64)
    (hok : (Clock.tick model wallUtc monoMs).1 = .ok) :
    Woken (Clock.tick model wallUtc monoMs).2 :=
  ⟨Clock.inv_tick h.inv wallUtc hlt, Clock.awake_tick h.awake hlt hok⟩

theorem Woken.requestApply (h : Woken model) (request : Clock.Request) :
    Woken (Clock.requestApply model request).2 :=
  ⟨Clock.inv_requestApply h.inv request,
    Clock.awake_effect h.awake (Clock.effect_requestApply model request)⟩

theorem woken_tick (h : Woken clock.model) (wallUtc : ℤ) (hlt : monoMs < 2 ^ 64) (faults : Faults) :
    Woken (tick clock wallUtc monoMs faults).2.model := by
  rcases tick_model clock wallUtc monoMs faults with hsame | ⟨hok, hticked⟩
  · rw [hsame]
    exact h
  · rw [hticked]
    exact h.tick wallUtc hlt hok

theorem woken_perform (h : Woken clock.model) {op : Op} (hop : op.InRange) :
    Woken (perform clock op).2.model := by
  cases op with
  | tick wallUtc monoMs faults => exact woken_tick h wallUtc hop faults
  | retry monoMs faults =>
    rw [perform, retry_model]
    exact h
  | apply request wallUtc monoMs faults =>
    have hticked := woken_tick h wallUtc hop faults.tick
    rw [perform]
    rcases apply_model clock request wallUtc monoMs faults with hsame | hmade
    · rw [hsame]
      exact hticked
    · rw [hmade]
      exact hticked.requestApply request

theorem woken_init {tokener : Clock.Tokener} (h : (machine tokener).start clock) :
    Woken clock.model := by
  obtain ⟨wallUtc, monoMs, opened, faults, hlt, -, hsome⟩ := h
  rw [init] at hsome
  split at hsome
  · cases hsome
  rename_i model hinit
  have hmodel := Clock.inv_init hlt hinit
  split at hsome
  · cases hsome
  simp only at hsome
  split at hsome
  · obtain rfl := Option.some.inj hsome
    exact ⟨hmodel, Clock.awake_init hinit⟩
  split at hsome
  · cases hsome
  rename_i decoded hdecode
  have hdecoded : Woken decoded :=
    ⟨Clock.inv_preferencesDecode hmodel hdecode, Clock.awake_preferencesDecode hdecode⟩
  split at hsome
  · cases hsome
  obtain rfl := Option.some.inj hsome
  split
  · exact hdecoded
  · rw [checkpoint_model]
    exact hdecoded

/-- **Nothing is overdue**, whatever was called before and whatever was stored. -/
theorem woken_of_trace {tokener : Clock.Tokener} {l : List (Machine.Step State Op)}
    (h : (machine tokener).Trace l clock) (hrange : ∀ call ∈ l, call.op.InRange) :
    Woken clock.model := by
  refine h.invariant (P := fun _ clock => Woken clock.model) (K := fun call => call.op.InRange)
    ?_ ?_ hrange
  · intro s hstart
    exact woken_init hstart
  · rintro l s op s' hold rfl hop
    exact woken_perform hold hop

/-! ### Main result -/

theorem armed_of_inv (h : Inv model) (hmem : alarm ∈ model.alarms)
    (hen : alarm.spec.enabled = true) :
    0 < alarm.nextDueUtc := by
  obtain ⟨hwall, -⟩ := (h.alarms.each alarm hmem).enabled hen
  have hbounds := Clock.validWall_iff.mp hwall
  simp only [Clock.wallMin] at hbounds
  omega

theorem nothingDue_of_deadlines (h : Woken clock.model) {wallUtc : ℤ} (hlt : monoMs < 2 ^ 64)
    (hdeadline : deadline clock clock.model.monotonicMs = 0 ∨
      monoMs < deadline clock clock.model.monotonicMs)
    (halarm : alarmDeadline clock = 0 ∨ wallUtc < alarmDeadline clock) :
    NothingDue clock.model wallUtc monoMs := by
  have hcomplete := complete_deadline clock clock.model.monotonicMs
  have hcovered : ∀ due, clock.model.monotonicMs < due →
      Covers clock.model.monotonicMs (deadline clock clock.model.monotonicMs) due →
        monoMs < due := by
    intro due hlater hcovers
    rcases hdeadline with hzero | hlt
    · exact absurd hzero hcovers.1
    · exact Nat.lt_of_lt_of_le hlt (hcovers.2 hlater)
  refine ⟨?_, ?_, ?_, ?_⟩
  · intro hkind
    obtain ⟨hstarted, hshort⟩ := h.awake.ring hkind
    by_cases hsat : 2 ^ 64 ≤ clock.model.active.ringStartedMs + ringTimeoutMs
    · -- the ring would end after the last of the times
      exact Nat.lt_of_lt_of_le hlt hsat
    · have hexpiry : Word.satAdd 64 clock.model.active.ringStartedMs ringTimeoutMs =
          clock.model.active.ringStartedMs + ringTimeoutMs := by
        unfold Word.satAdd Word.maxVal
        rw [if_neg (by omega)]
      have hring := hcomplete.ring hkind
      rw [hexpiry] at hring
      exact hcovered _ hshort hring
  · intro alarm hmem hen
    have hfold := (foldl_considerAlarm (fun alarm hmem => armed_of_inv h.inv hmem) le_rfl).2
      alarm hmem hen
    rcases halarm with hzero | hlt
    · exact absurd hzero hfold.1
    · exact lt_of_lt_of_le hlt hfold.2
  · intro alarm hmem hsnoozed
    exact hcovered _ (h.awake.snooze alarm hmem hsnoozed).1 (hcomplete.snooze alarm hmem hsnoozed)
  · intro hrun
    exact hcovered _ (h.awake.timer.running hrun) (hcomplete.timer hrun)

/-- **The deadlines are complete.**  Take an owner after any calls, and times that are
not before its own: below both deadlines, where there are any, a tick creates no event,
and changes the model in its times, the stopwatch's and the countdown's readings only. -/
theorem deadlines_complete {tokener : Clock.Tokener} {l : List (Machine.Step State Op)}
    {clock : State} (h : (machine tokener).Trace l clock) (hrange : ∀ call ∈ l, call.op.InRange)
    {wallUtc : ℤ} {monoMs : ℕ} (hmono : clock.model.monotonicMs ≤ monoMs) (hlt : monoMs < 2 ^ 64)
    (hdeadline : deadline clock clock.model.monotonicMs = 0 ∨
      monoMs < deadline clock clock.model.monotonicMs)
    (halarm : alarmDeadline clock = 0 ∨ wallUtc < alarmDeadline clock) :
    let after := (Clock.tick clock.model wallUtc monoMs).2
    tickEvents clock.model wallUtc monoMs = [] ∧
      after =
        { clock.model with
          wallUtc := after.wallUtc
          monotonicMs := after.monotonicMs
          stopwatch := { clock.model.stopwatch with elapsedMs := after.stopwatch.elapsedMs }
          timer := { clock.model.timer with remainingMs := after.timer.remainingMs } } ∧
      (validWall wallUtc = true → (Clock.tick clock.model wallUtc monoMs).1 = .ok ∧
        after = passed clock.model wallUtc monoMs) := by
  intro after
  have hwoken := woken_of_trace h hrange
  have hdue := nothingDue_of_deadlines hwoken hlt hdeadline halarm
  by_cases hwall : validWall wallUtc = true
  · obtain ⟨htick, hnone⟩ := Clock.tick_passed hwoken.awake hwall hmono hlt hdue
    have hafter : after = passed clock.model wallUtc monoMs := by
      simp only [after, htick]
    refine ⟨hnone, ?_, fun _ => ⟨by rw [htick], hafter⟩⟩
    rw [hafter, passed, Clock.advance]
    split <;> split <;> rfl
  · obtain ⟨-, hsame, hnone⟩ := @Clock.tick_refused clock.model wallUtc monoMs
      (fun hall => hwall hall.1)
    refine ⟨hnone, ?_, fun hyes => absurd hyes hwall⟩
    rw [show after = clock.model from hsame]

/-- The owner of an empty directory counts down a minute; half a minute is over. -/
theorem deadlines_complete_countdown :
    ∃ clock : State, deadline clock clock.model.monotonicMs = 60000 ∧
      tickEvents clock.model 1000000030 30000 = [] ∧
      (Clock.tick clock.model 1000000030 30000).2.timer.remainingMs = 30000 := by
  let model := (Clock.init 1000000000 0).get rfl
  let fresh : State := ⟨model, Prefs.load none, ⟨.durable, 0⟩, 0, retryInitialMs⟩
  let faults : ApplyFaults := ⟨⟨true, none, none⟩, ⟨true, none, none⟩, true⟩
  let set : Op := .apply { Clock.Request.zero with op := .timerSet, seconds := 60 } 1000000000 0 faults
  let run : Op := .apply { Clock.Request.zero with op := .timerStart } 1000000000 0 faults
  let last : State := (perform (perform fresh set).2 run).2
  have hstart : (machine Clock.plainTokener).start fresh :=
    ⟨1000000000, 0, .ok none, ⟨true, none, none⟩, by decide, rfl, rfl⟩
  have hset : (machine Clock.plainTokener).step fresh set (perform fresh set).2 := rfl
  have hrun : (machine Clock.plainTokener).step (perform fresh set).2 run last := rfl
  have hdeadline : deadline last last.model.monotonicMs = 60000 := by decide +kernel
  have hnone : alarmDeadline last = 0 := by decide +kernel
  have hrange : ∀ call ∈ [] ++ [(⟨fresh, set, (perform fresh set).2⟩ : Machine.Step State Op)] ++
      [⟨(perform fresh set).2, run, last⟩], call.op.InRange := by
    intro call hmem
    simp only [List.nil_append, List.cons_append, List.mem_cons, List.not_mem_nil, or_false] at hmem
    rcases hmem with rfl | rfl
    · exact (by decide : 0 < 2 ^ 64)
    · exact (by decide : 0 < 2 ^ 64)
  refine ⟨last, hdeadline, ?_, by decide +kernel⟩
  exact (deadlines_complete (((Machine.Trace.start hstart).step hset).step hrun) hrange
    (by decide +kernel) (by decide) (.inr (by rw [hdeadline]; decide)) (.inl hnone)).1

end SessionClock
