/-
What the session shows the launcher of the clock (`session-clock.c`).

The presentation names the nearest of what the alarms wait for: the next occurrence of
an enabled alarm, on the wall clock, or the end of a snooze, on the monotonic one.  One
loop over the rows keeps the nearest so far and writes it over what it showed before.

Main results:
- `foldl_presentRow`: the loop shows the first minimum of all that is waited for;
- `presentation_nearest`: after any run the peer accepts the presentation, and it names
  the nearest deadline, or none if there is none.
-/
import Mathlib.Data.List.MinMax
import Fplinux.Session.ClockDeadline
import Fplinux.Ui.SessionMessage

namespace SessionClock

open Clock (Model Alarm Inv)
open UiSession (ClockPresentation clockPresentationValid controlFree)

/-! ### The loop -/

/-- The presentation so far, and the time left until what it shows. -/
structure Nearest where
  ms : ℕ
  shown : ClockPresentation

/-- The body of the loop of `fplinux_session_clock_presentation`. -/
def presentRow (model : Model) (nearest : Nearest) (alarm : Alarm) : Nearest :=
  let nearest :=
    if alarm.spec.enabled ∧ alarm.nextDueUtc ≠ 0 then
      let remainingMs :=
        if alarm.nextDueUtc > model.wallUtc then
          (alarm.nextDueUtc - model.wallUtc).toNat * 1000 % 2 ^ 64
        else 0
      if remainingMs < nearest.ms then
        ⟨remainingMs,
          { nearest.shown with
            alarmUtc := alarm.nextDueUtc
            snoozeDeadlineMs := 0
            alarmLabel := alarm.spec.label }⟩
      else nearest
    else nearest
  if !alarm.snoozed then nearest
  else
    let remainingMs :=
      if alarm.snoozeDeadlineMs > model.monotonicMs then alarm.snoozeDeadlineMs - model.monotonicMs
      else 0
    if remainingMs < nearest.ms then
      ⟨remainingMs,
        { nearest.shown with
          alarmUtc := 0
          snoozeDeadlineMs := alarm.snoozeDeadlineMs
          alarmLabel := alarm.spec.label }⟩
    else nearest

/-- What is shown before any alarm is. -/
def presentClock (model : Model) : ClockPresentation :=
  { analog := model.view = .analog
    missedTotal := model.missedTotal
    timerDeadlineMs := if model.timer.state = .running then model.timer.deadlineMs else 0
    timerRemainingMs := if model.timer.state = .paused then model.timer.remainingMs else 0 }

def presentation (clock : State) : ClockPresentation :=
  (clock.model.alarms.foldl (presentRow clock.model)
    ⟨Word.maxVal 64, presentClock clock.model⟩).shown

/-! ### What is waited for -/

/-- What an alarm can wait for: its next occurrence, and the end of its snooze. -/
inductive Due
  | scheduled (alarm : Alarm)
  | snooze (alarm : Alarm)

namespace Due

/-- The model waits for it. -/
def Waits (model : Model) : Due → Prop
  | scheduled alarm => alarm ∈ model.alarms ∧ alarm.spec.enabled = true
  | snooze alarm => alarm ∈ model.alarms ∧ alarm.snoozed = true

/-- The time left, zero once it has passed. -/
def leftMs (model : Model) : Due → ℕ
  | scheduled alarm => (alarm.nextDueUtc - model.wallUtc).toNat * 1000
  | snooze alarm => alarm.snoozeDeadlineMs - model.monotonicMs

/-- The alarm fields name this deadline, and no other. -/
def Named (shown : ClockPresentation) : Due → Prop
  | scheduled alarm => shown.alarmUtc = alarm.nextDueUtc ∧ shown.snoozeDeadlineMs = 0 ∧
      shown.alarmLabel = alarm.spec.label
  | snooze alarm => shown.alarmUtc = 0 ∧ shown.snoozeDeadlineMs = alarm.snoozeDeadlineMs ∧
      shown.alarmLabel = alarm.spec.label

/-- Writes the deadline over the alarm fields. -/
def write (shown : ClockPresentation) : Due → ClockPresentation
  | scheduled alarm =>
    { shown with
      alarmUtc := alarm.nextDueUtc
      snoozeDeadlineMs := 0
      alarmLabel := alarm.spec.label }
  | snooze alarm =>
    { shown with
      alarmUtc := 0
      snoozeDeadlineMs := alarm.snoozeDeadlineMs
      alarmLabel := alarm.spec.label }

theorem write_write (shown : ClockPresentation) (due due' : Due) :
    due'.write (due.write shown) = due'.write shown := by
  cases due <;> cases due' <;> rfl

theorem named_write (shown : ClockPresentation) (due : Due) : due.Named (due.write shown) := by
  cases due <;> exact ⟨rfl, rfl, rfl⟩

end Due

/-- The deadlines of a row, in the order in which the loop looks at them. -/
def duesOf (alarm : Alarm) : List Due :=
  (if alarm.spec.enabled ∧ alarm.nextDueUtc ≠ 0 then [.scheduled alarm] else []) ++
    if alarm.snoozed then [.snooze alarm] else []

def dues (model : Model) : List Due := model.alarms.flatMap duesOf

/-- Takes over a deadline that is nearer than all before it. -/
def take (model : Model) (nearest : Nearest) (due : Due) : Nearest :=
  if due.leftMs model < nearest.ms then ⟨due.leftMs model, due.write nearest.shown⟩ else nearest

/-- What the loop holds when this deadline is the nearest. -/
def holds (model : Model) (base : ClockPresentation) : Option Due → Nearest
  | none => ⟨Word.maxVal 64, base⟩
  | some due => ⟨due.leftMs model, due.write base⟩

/-! ### The loop finds the nearest -/

variable {due : Due} {model : Model}

theorem take_holds (hlt : due.leftMs model < Word.maxVal 64) (base : ClockPresentation)
    (nearest : Option Due) :
    take model (holds model base nearest) due =
      holds model base
        (List.argAux (fun a b => a.leftMs model < b.leftMs model) nearest due) := by
  cases nearest with
  | none =>
    rw [take, holds, if_pos hlt]
    rfl
  | some old =>
    rw [take, holds, Due.write_write]
    show _ = holds model base (if due.leftMs model < old.leftMs model then some due else some old)
    split
    · rfl
    · rfl

theorem foldl_take {dues : List Due} (hlt : ∀ due ∈ dues, due.leftMs model < Word.maxVal 64)
    (base : ClockPresentation) (nearest : Option Due) :
    dues.foldl (take model) (holds model base nearest) =
      holds model base
        (dues.foldl (List.argAux fun a b => a.leftMs model < b.leftMs model) nearest) := by
  induction dues generalizing nearest with
  | nil => rfl
  | cons due dues ih =>
    rw [List.foldl_cons, List.foldl_cons, take_holds (hlt due (by simp))]
    exact ih (fun other hmem => hlt other (by simp [hmem])) _

theorem presentRow_eq {alarm : Alarm}
    (hlt : (alarm.nextDueUtc - model.wallUtc).toNat * 1000 < 2 ^ 64) (nearest : Nearest) :
    presentRow model nearest alarm = (duesOf alarm).foldl (take model) nearest := by
  have hwall : (if alarm.nextDueUtc > model.wallUtc then
      (alarm.nextDueUtc - model.wallUtc).toNat * 1000 % 2 ^ 64 else 0) =
        (Due.scheduled alarm).leftMs model := by
    rw [Due.leftMs, Nat.mod_eq_of_lt hlt]
    split <;> omega
  have hmono : (if alarm.snoozeDeadlineMs > model.monotonicMs then
      alarm.snoozeDeadlineMs - model.monotonicMs else 0) = (Due.snooze alarm).leftMs model := by
    rw [Due.leftMs]
    split <;> omega
  rw [presentRow, duesOf, List.foldl_append, hwall, hmono]
  have hfirst : (if alarm.spec.enabled ∧ alarm.nextDueUtc ≠ 0 then
      take model nearest (.scheduled alarm) else nearest) =
        (if alarm.spec.enabled ∧ alarm.nextDueUtc ≠ 0 then [Due.scheduled alarm] else []).foldl
          (take model) nearest := by
    split <;> rfl
  rw [← hfirst]
  simp only [take, Due.write]
  cases alarm.snoozed <;> rfl

/-- **The loop shows the first minimum** of all that is waited for. -/
theorem foldl_presentRow {alarms : List Alarm}
    (hwall : ∀ alarm ∈ alarms, (alarm.nextDueUtc - model.wallUtc).toNat * 1000 < 2 ^ 64)
    (hlt : ∀ due ∈ alarms.flatMap duesOf, due.leftMs model < Word.maxVal 64)
    (base : ClockPresentation) :
    alarms.foldl (presentRow model) ⟨Word.maxVal 64, base⟩ =
      holds model base ((alarms.flatMap duesOf).argmin (Due.leftMs model)) := by
  have hrows : ∀ nearest, alarms.foldl (presentRow model) nearest =
      (alarms.flatMap duesOf).foldl (take model) nearest := by
    clear hlt
    induction alarms with
    | nil => exact fun nearest => rfl
    | cons alarm alarms ih =>
      intro nearest
      rw [List.foldl_cons, List.flatMap_cons, List.foldl_append, ih fun other hmem =>
        hwall other (by simp [hmem]), presentRow_eq (hwall alarm (by simp))]
  rw [hrows]
  exact foldl_take hlt base none

/-! ### Runs -/

theorem mem_dues (h : Inv model) : due ∈ dues model ↔ due.Waits model := by
  have hmem : ∀ alarm ∈ model.alarms, alarm.spec.enabled = true → alarm.nextDueUtc ≠ 0 :=
    fun alarm hrow hen => (armed_of_inv h hrow hen).ne'
  cases due with
  | scheduled alarm =>
    have hrow : ∀ other, Due.scheduled alarm ∈ duesOf other ↔
        (other.spec.enabled = true ∧ other.nextDueUtc ≠ 0) ∧ alarm = other := by
      intro other
      rw [duesOf]
      split <;> split <;> simp_all
    simp only [dues, List.mem_flatMap, hrow, Due.Waits]
    constructor
    · rintro ⟨other, hother, ⟨hen, -⟩, rfl⟩
      exact ⟨hother, hen⟩
    · rintro ⟨hother, hen⟩
      exact ⟨alarm, hother, ⟨hen, hmem alarm hother hen⟩, rfl⟩
  | snooze alarm =>
    have hrow : ∀ other, Due.snooze alarm ∈ duesOf other ↔
        other.snoozed = true ∧ alarm = other := by
      intro other
      rw [duesOf]
      split <;> split <;> simp_all
    simp only [dues, List.mem_flatMap, hrow, Due.Waits]
    constructor
    · rintro ⟨other, hother, hsnoozed, rfl⟩
      exact ⟨hother, hsnoozed⟩
    · rintro ⟨hother, hsnoozed⟩
      exact ⟨alarm, hother, hsnoozed, rfl⟩

theorem wallLeft_lt (h : Inv model) {alarm : Alarm} (hmem : alarm ∈ model.alarms) :
    (alarm.nextDueUtc - model.wallUtc).toNat * 1000 < Word.maxVal 64 := by
  have hmax : Word.maxVal 64 = 18446744073709551615 := rfl
  have hnow := Clock.validWall_iff.mp h.wall
  have hrow := h.alarms.each alarm hmem
  simp only [Clock.wallMin, Clock.wallMax] at hnow
  rw [hmax]
  cases hen : alarm.spec.enabled with
  | false =>
    have hzero := hrow.disabled hen
    omega
  | true =>
    have hdue := Clock.validWall_iff.mp (hrow.enabled hen).1
    simp only [Clock.wallMin, Clock.wallMax] at hdue
    omega

theorem leftMs_lt (h : Woken model) (hwaits : due.Waits model) :
    due.leftMs model < Word.maxVal 64 := by
  cases due with
  | scheduled alarm => exact wallLeft_lt h.inv hwaits.1
  | snooze alarm =>
    have hmax : Word.maxVal 64 = 18446744073709551615 := rfl
    have hbound := (h.awake.snooze alarm hwaits.1 hwaits.2).2
    rw [Due.leftMs, hmax]
    omega

theorem presentation_eq {clock : State} (h : Woken clock.model) :
    presentation clock =
      (holds clock.model (presentClock clock.model)
        ((dues clock.model).argmin (Due.leftMs clock.model))).shown := by
  have hmax : Word.maxVal 64 < 2 ^ 64 := by decide
  rw [presentation, foldl_presentRow, dues]
  · intro alarm hmem
    exact (wallLeft_lt h.inv hmem).trans hmax
  · intro due hmem
    exact leftMs_lt h ((mem_dues h.inv).mp hmem)

theorem presentClock_timer (model : Model) :
    (presentClock model).timerDeadlineMs = 0 ∨ (presentClock model).timerRemainingMs = 0 := by
  simp only [presentClock]
  cases model.timer.state <;> simp

theorem label_controlFree {label : List UInt8} (h : Clock.LabelOk label) :
    label.length ≤ UiSession.textBytes ∧ controlFree label = true := by
  refine ⟨h.scalars.1, ?_⟩
  rw [controlFree, List.all_eq_true]
  intro byte hmem
  simpa using h.printable byte hmem

theorem waits_spec (h : Woken model) (hwaits : due.Waits model) :
    match due with
    | .scheduled alarm => 0 < alarm.nextDueUtc ∧ Clock.LabelOk alarm.spec.label
    | .snooze alarm => 0 < alarm.snoozeDeadlineMs ∧ Clock.LabelOk alarm.spec.label := by
  cases due with
  | scheduled alarm =>
    exact ⟨armed_of_inv h.inv hwaits.1 hwaits.2, (h.inv.alarms.each alarm hwaits.1).spec.label⟩
  | snooze alarm =>
    have hlater := (h.awake.snooze alarm hwaits.1 hwaits.2).1
    exact ⟨by omega, (h.inv.alarms.each alarm hwaits.1).spec.label⟩

/-- No alarm is shown. -/
def Blank (shown : ClockPresentation) : Prop :=
  shown.alarmUtc = 0 ∧ shown.snoozeDeadlineMs = 0 ∧ shown.alarmLabel = []

theorem not_blank (h : Woken model) (hwaits : due.Waits model) (shown : ClockPresentation) :
    ¬ Blank (due.write shown) := by
  have hspec := waits_spec h hwaits
  cases due with
  | scheduled alarm =>
    intro hblank
    have hzero : alarm.nextDueUtc = 0 := hblank.1
    omega
  | snooze alarm =>
    intro hblank
    have hzero : alarm.snoozeDeadlineMs = 0 := hblank.2.1
    omega

theorem valid_write (h : Woken model) (hwaits : due.Waits model) {message : UiSession.Message}
    (htype : message.type = .active)
    (hshown : message.clockPresentation = due.write (presentClock model)) :
    clockPresentationValid message = true := by
  have hspec := waits_spec h hwaits
  have htimer := presentClock_timer model
  cases due with
  | scheduled alarm =>
    obtain ⟨hpos, hlabel⟩ := hspec
    obtain ⟨hlen, hfree⟩ := label_controlFree hlabel
    simp [clockPresentationValid, hshown, htype, Due.write, hlen, hfree, htimer, hpos.ne', hpos.le]
  | snooze alarm =>
    obtain ⟨hpos, hlabel⟩ := hspec
    obtain ⟨hlen, hfree⟩ := label_controlFree hlabel
    simp [clockPresentationValid, hshown, htype, Due.write, hlen, hfree, htimer, hpos.ne']

theorem valid_presentClock (model : Model) {message : UiSession.Message}
    (htype : message.type = .active) (hshown : message.clockPresentation = presentClock model) :
    clockPresentationValid message = true := by
  have htimer := presentClock_timer model
  simp only [clockPresentationValid, hshown, htype]
  simp [presentClock, controlFree] at htimer ⊢
  exact htimer

/-- **The presentation of a reachable owner.**  The peer accepts it in any message that
may carry one; unless nothing is waited for, its alarm fields name a deadline of least
time left, and they are empty exactly when nothing is. -/
theorem presentation_nearest {tokener : Clock.Tokener} {l : List (Machine.Step State Op)}
    {clock : State} (h : (machine tokener).Trace l clock) (hrange : ∀ call ∈ l, call.op.InRange) :
    (∀ message : UiSession.Message, message.type = .active →
      message.clockPresentation = presentation clock → clockPresentationValid message = true) ∧
    (Blank (presentation clock) ∨ ∃ due : Due, due.Waits clock.model ∧
      due.Named (presentation clock) ∧ ∀ other : Due, other.Waits clock.model →
        due.leftMs clock.model ≤ other.leftMs clock.model) ∧
    (Blank (presentation clock) ↔ ∀ due : Due, ¬ due.Waits clock.model) := by
  have hwoken := woken_of_trace h hrange
  rw [presentation_eq hwoken]
  cases hleast : (dues clock.model).argmin (Due.leftMs clock.model) with
  | none =>
    have hnone : ∀ due : Due, ¬ due.Waits clock.model := by
      intro due hwaits
      have hmem := (mem_dues hwoken.inv).mpr hwaits
      rw [List.argmin_eq_none.mp hleast] at hmem
      cases hmem
    have hblank : Blank (presentClock clock.model) := ⟨rfl, rfl, rfl⟩
    exact ⟨fun message htype hshown => valid_presentClock clock.model htype hshown, .inl hblank,
      fun _ => hnone, fun _ => hblank⟩
  | some due =>
    have hwaits := (mem_dues hwoken.inv).mp (List.argmin_mem hleast)
    have hblank := not_blank hwoken hwaits (presentClock clock.model)
    refine ⟨?_, .inr ⟨due, hwaits, due.named_write _, ?_⟩, ?_⟩
    · intro message htype hshown
      exact valid_write hwoken hwaits htype hshown
    · intro other hother
      exact List.le_of_mem_argmin ((mem_dues hwoken.inv).mpr hother) hleast
    · exact ⟨fun hyes => absurd hyes hblank, fun hnone => absurd hwaits (hnone due)⟩

/-- The owner of an empty directory adds an alarm, which is then the one that is shown. -/
theorem presentation_nearest_alarm :
    ∃ clock : State, (presentation clock).alarmUtc = 1000000080 ∧
      ¬ Blank (presentation clock) ∧
      clockPresentationValid
        { type := .active, clockPresentation := presentation clock } = true := by
  let model := (Clock.init 1000000000 0).get rfl
  let fresh : State := ⟨model, Prefs.load none, ⟨.durable, 0⟩, 0, retryInitialMs⟩
  let faults : ApplyFaults := ⟨⟨true, none, none⟩, ⟨true, none, none⟩, true⟩
  let spec : Clock.AlarmSpec := ⟨Bytes.ascii "Tea", .once, 1000000080, 0, 0, 0, true⟩
  let request : Clock.Request := { Clock.Request.zero with op := .alarmAdd, alarm := spec }
  let add : Op := .apply request 1000000000 0 faults
  let last : State := (perform fresh add).2
  have hstart : (machine Clock.plainTokener).start fresh :=
    ⟨1000000000, 0, .ok none, ⟨true, none, none⟩, by decide, rfl, rfl⟩
  have hadd : (machine Clock.plainTokener).step fresh add last := rfl
  have hutc : (presentation last).alarmUtc = 1000000080 := by decide +kernel
  have hrange : ∀ call ∈ [] ++ [(⟨fresh, add, last⟩ : Machine.Step State Op)], call.op.InRange := by
    intro call hmem
    rw [List.nil_append, List.mem_singleton] at hmem
    rw [hmem]
    exact (by decide : 0 < 2 ^ 64)
  obtain ⟨hvalid, -, -⟩ := presentation_nearest ((Machine.Trace.start hstart).step hadd) hrange
  -- what is left needs the presentation, not how it came to be
  clear_value last
  refine ⟨last, hutc, ?_, hvalid _ rfl rfl⟩
  intro hblank
  rw [hblank.1] at hutc
  exact absurd hutc (by decide)

end SessionClock
