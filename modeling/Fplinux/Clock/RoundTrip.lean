/-
Snapshots survive the wire (`clock-wire.c`).

For every record the reader gives back what its maker wrote, and the made value
fits: how deep it nests and how many bytes it prints to.  The rules the readers
enforce are all parts of the model's invariant.

Main results:
- `readModel_makeModel`: the self-check of the encoder passes;
- `fits_makeSnapshot`: the text fits the frame;
- `snapshot_roundtrip`: the decoder gives back what was encoded.
-/
import Mathlib.Data.List.TakeWhile
import Fplinux.Lib.JsonReader
import Fplinux.Clock.Codec
import Fplinux.Clock.Requests

namespace Clock

open Bytes (ascii)
open Json (print Fits mapM_make)
open Option (bind_eq_bind bind_some)
open Word (maxVal)

/-! ### Labels -/

variable {label : List UInt8} {depth n serial : ℕ} {name : String} {object : Json} {value : ℤ}
  {event : Event} {α : Type} {alarm : Alarm} {model : Model} {result : Result}

theorem decodes_of_validScalars {fuel characters : ℕ}
    (h : validScalars fuel label characters = true) :
    ∃ values, Utf8.Decodes label values ∧ ∀ value ∈ values, 0x20 ≤ value ∧ value ≠ 0x7f := by
  refine @Utf8.decodes_of_loop (ℕ × ℕ) (fun s text => validScalars s.1 text s.2 = true) _ ?_
    (fuel, characters) label h
  rintro ⟨fuel, characters⟩ b bytes hvalid
  cases fuel with
  | zero => simp [validScalars] at hvalid
  | succ fuel =>
    rw [validScalars] at hvalid
    cases hnext : Utf8.next (b :: bytes) with
    | none => simp [hnext] at hvalid
    | some read =>
      obtain ⟨codepoint, rest⟩ := read
      simp only [hnext] at hvalid
      split at hvalid
      · simp at hvalid
      · rename_i hprintable
        split at hvalid
        · simp at hvalid
        · exact ⟨(fuel, characters + 1), codepoint, rest, rfl, by omega, hvalid⟩

theorem LabelOk.scalars (h : LabelOk label) :
    label.length ≤ textBytes ∧ validScalars label.length label 0 = true := by
  rw [LabelOk, validateText] at h
  split at h
  · simp at h
  · rename_i hlen
    split at h
    · rename_i hvalid
      exact ⟨by omega, hvalid⟩
    · simp at h

theorem LabelOk.textOk (h : LabelOk label) : TextOk label := by
  obtain ⟨values, hdec, hge⟩ := decodes_of_validScalars h.scalars.2
  exact ⟨⟨values, hdec⟩, hdec.ge_of_mem fun value hmem => (hge value hmem).1⟩

theorem LabelOk.printable (h : LabelOk label) :
    ∀ byte ∈ label, 0x20 ≤ byte.toNat ∧ byte.toNat ≠ 0x7f := by
  obtain ⟨values, hdec, hall⟩ := decodes_of_validScalars h.scalars.2
  exact hdec.forall_mem hall fun n hn => by omega

theorem LabelOk.text_eq (h : LabelOk label) : text label = .str label := by
  have hall : label.takeWhile (· ≠ 0) = label := by
    rw [List.takeWhile_eq_self_iff]
    intro b hb
    have hge := h.textOk.2 b hb
    simp only [ne_eq, decide_not, Bool.not_eq_eq_eq_not, Bool.not_true, decide_eq_false_iff_not]
    rintro rfl
    exact absurd hge (by decide)
  simp only [text, hall, if_pos h.scalars.1]

theorem LabelOk.fits (h : LabelOk label) : Fits TextOk (text label) depth 258 := by
  rw [h.text_eq]
  exact Fits.str h.textOk h.textOk.2 h.scalars.1

/-! ### Members -/

theorem unsignedValue_of_field {maximum : ℕ} (h : field object name = some (.int n))
    (hle : n ≤ maximum) :
    unsignedValue object name maximum = some n := by
  rw [unsignedValue, h]
  simp [hle]

theorem booleanValue_of_field {value : Bool} (h : field object name = some (.bool value)) :
    booleanValue object name = some value := by
  rw [booleanValue, h]

theorem textValue_of_field (h : field object name = some (text label)) (hok : LabelOk label) :
    textValue object name true = some label := by
  rw [textValue, h, hok.text_eq]
  simp only [show validateText label true = .ok from hok, if_true]

theorem arrayValue_of_field {maximum : ℕ} {items : List Json}
    (h : field object name = some (.arr items)) (hle : items.length ≤ maximum) :
    arrayValue object name maximum = some items := by
  rw [arrayValue, h]
  simp only [if_pos hle]

theorem wallValue_of_field {allowZero : Bool} (h : field object name = some (.int value))
    (hok : validWall value = true ∨ allowZero = true ∧ value = 0) :
    wallValue object name wallMax allowZero = some value := by
  have hrange : (if allowZero then 0 else wallMin) ≤ value ∧ value ≤ wallMax ∧
      value ≤ 2 ^ 63 - 1 ∧ (wallMin ≤ value ∨ allowZero = true ∧ value = 0) := by
    rcases hok with hwall | ⟨rfl, rfl⟩
    · have hbounds := validWall_iff.mp hwall
      simp only [wallMin, wallMax] at hbounds ⊢
      refine ⟨?_, hbounds.2, by omega, .inl hbounds.1⟩
      split
      · omega
      · exact hbounds.1
    · decide
  have hsigned : signedValue object name (if allowZero then 0 else wallMin) wallMax = some value := by
    rw [signedValue, h]
    simp only
    rw [if_neg (by omega), if_pos ⟨hrange.1, hrange.2.1⟩]
  simp only [wallValue, hsigned, bind_eq_bind, bind_some, if_pos hrange.2.2.2]

theorem offset_bounds (h : worldOffsetValid value = true) : -720 ≤ value ∧ value ≤ 840 := by
  have hbounds := of_decide_eq_true h
  exact ⟨hbounds.1, hbounds.2.1⟩

theorem offsetValue_of_field (h : field object "offset_minutes" = some (.int value))
    (hok : worldOffsetValid value = true) :
    offsetValue object = some value := by
  have hbounds := offset_bounds hok
  have hsigned : signedValue object "offset_minutes" (-2 ^ 31) (2 ^ 31 - 1) = some value := by
    rw [signedValue, h]
    simp only
    rw [if_neg (by omega), if_pos (by omega)]
  simp only [offsetValue, hsigned, bind_eq_bind, bind_some, hok, if_true]

/-! ### Enumerations -/

@[simp] theorem Schedule.ofCode_code (schedule : Schedule) :
    Schedule.ofCode schedule.code = schedule := by
  cases schedule with
  | once => rfl
  | weekly => rfl

@[simp] theorem View.ofCode_code (view : View) : View.ofCode view.code = view := by
  cases view with
  | digital => rfl
  | analog => rfl

@[simp] theorem EventKind.ofCode_code (kind : EventKind) : EventKind.ofCode kind.code = kind := by
  cases kind with
  | none => rfl
  | alarm => rfl
  | timer => rfl

@[simp] theorem MissedReason.ofCode_code (reason : MissedReason) :
    MissedReason.ofCode reason.code = reason := by
  cases reason with
  | none => rfl
  | late => rfl
  | queueFull => rfl
  | expired => rfl

@[simp] theorem TimerState.ofCode_code (state : TimerState) :
    TimerState.ofCode state.code = state := by
  cases state with
  | stopped => rfl
  | running => rfl
  | paused => rfl
  | finished => rfl

theorem Schedule.code_le (schedule : Schedule) : schedule.code ≤ 1 := by
  cases schedule with
  | once => decide
  | weekly => decide

theorem View.code_le (view : View) : view.code ≤ 1 := by
  cases view with
  | digital => decide
  | analog => decide

theorem EventKind.code_le (kind : EventKind) : kind.code ≤ 2 := by
  cases kind with
  | none => decide
  | alarm => decide
  | timer => decide

theorem MissedReason.code_le (reason : MissedReason) : reason.code ≤ 3 := by
  cases reason with
  | none => decide
  | late => decide
  | queueFull => decide
  | expired => decide

theorem TimerState.code_le (state : TimerState) : state.code ≤ 3 := by
  cases state with
  | stopped => decide
  | running => decide
  | paused => decide
  | finished => decide

/-! ### Events -/

theorem le_maxVal {bits : ℕ} (h : n < 2 ^ bits) : n ≤ maxVal bits := by
  rw [maxVal]
  omega

theorem readEvent_makeEvent (h : EventOk event) : readEvent (makeEvent event) = some event := by
  have hid : unsignedValue (makeEvent event) "id" (maxVal 64) = some event.id :=
    unsignedValue_of_field rfl (le_maxVal h.id_lt)
  have hkind : unsignedValue (makeEvent event) "kind" 2 = some event.kind.code :=
    unsignedValue_of_field rfl event.kind.code_le
  have hsource : unsignedValue (makeEvent event) "source_id" (maxVal 32) =
      some event.sourceId := unsignedValue_of_field rfl (le_maxVal h.source_lt)
  have hgen : unsignedValue (makeEvent event) "generation" (maxVal 32) =
      some event.generation := unsignedValue_of_field rfl (le_maxVal h.generation_lt)
  have hlabel : textValue (makeEvent event) "label" true = some event.label :=
    textValue_of_field rfl h.label
  have hdue : wallValue (makeEvent event) "due_wall_utc" wallMax true = some event.dueWallUtc :=
    wallValue_of_field rfl (.inl h.due)
  have hmono : unsignedValue (makeEvent event) "due_monotonic_ms" (maxVal 64) =
      some event.dueMonotonicMs := unsignedValue_of_field rfl (le_maxVal h.monotonic_lt)
  have hstarted : unsignedValue (makeEvent event) "ring_started_ms" (maxVal 64) =
      some event.ringStartedMs := unsignedValue_of_field rfl (le_maxVal h.started_lt)
  have hsnoozed : booleanValue (makeEvent event) "snoozed" = some event.snoozed :=
    booleanValue_of_field rfl
  have hreason : unsignedValue (makeEvent event) "missed_reason" 3 =
      some event.missedReason.code := unsignedValue_of_field rfl event.missedReason.code_le
  have hvalid : eventValid event = true := by
    have hwall := (validWall_iff.mp h.due).1
    rw [eventValid]
    rcases h.kind with ⟨hk, hs⟩ | ⟨hk, hs, hz⟩
    · simp [hk, h.id_ne, h.generation_ne, hwall, hs]
    · simp [hk, h.id_ne, h.generation_ne, hwall, hs, hz]
  have hshape : shape (makeEvent event) 10 = true := rfl
  simp only [readEvent, hshape, if_true, hid, hkind, hsource, hgen, hlabel, hdue, hmono, hstarted,
    hsnoozed, hreason, bind_eq_bind, bind_some, EventKind.ofCode_code,
    MissedReason.ofCode_code, hvalid]

theorem readEvent_zero : readEvent (makeEvent Event.zero) = some Event.zero := by
  decide

/-! ### How numbers fit -/

theorem fits32 (h : n < 2 ^ 32) : Fits TextOk (.int n) depth 10 :=
  Fits.nat (by omega) (by omega)

theorem fits64 (h : n < 2 ^ 64) : Fits TextOk (.int n) depth 20 :=
  Fits.nat (Nat.lt_trans h (by decide)) h

theorem fits_le {bound : ℕ} (k : ℕ) (h : n ≤ bound) (hk : bound < 10 ^ (k + 1))
    (h64 : bound < 2 ^ 64) : Fits TextOk (.int n) depth (k + 1) :=
  Fits.nat (by omega) (by omega)

theorem fits_wall (h : validWall value = true ∨ value = 0) : Fits TextOk (.int value) depth 10 := by
  have hrange : 0 ≤ value ∧ value ≤ 4102444799 := by
    rcases h with hwall | rfl
    · have hbounds := validWall_iff.mp hwall
      simp only [wallMin, wallMax] at hbounds
      omega
    · decide
  exact Fits.nonneg hrange.1 (by omega) (by omega)

theorem fits_rows {make : α → Json} {rows : List α} {limit size : ℕ} (hlen : rows.length ≤ limit)
    (h : ∀ row ∈ rows, Fits TextOk (make row) depth size) :
    Fits TextOk (.arr (rows.map make)) (depth + 1) (limit * (size + 1) + 2) := by
  refine Fits.arr (by simpa using hlen) ?_
  intro item hitem
  obtain ⟨row, hrow, rfl⟩ := List.mem_map.mp hitem
  exact h row hrow

theorem fits_makeEvent (h : EventOk event ∨ event = Event.zero) :
    Fits TextOk (makeEvent event) (depth + 1) 490 := by
  obtain ⟨hid, hsource, hgen, hlabel, hdue, hmono, hstarted⟩ :
      event.id < 2 ^ 64 ∧ event.sourceId < 2 ^ 32 ∧ event.generation < 2 ^ 32 ∧
        LabelOk event.label ∧ (validWall event.dueWallUtc = true ∨ event.dueWallUtc = 0) ∧
        event.dueMonotonicMs < 2 ^ 64 ∧ event.ringStartedMs < 2 ^ 64 := by
    rcases h with hok | rfl
    · exact ⟨hok.id_lt, hok.source_lt, hok.generation_lt, hok.label, .inl hok.due,
        hok.monotonic_lt, hok.started_lt⟩
    · exact ⟨by decide, by decide, by decide, rfl, .inr rfl, by decide, by decide⟩
  exact Fits.obj (by simp) <|
    .cons rfl (fits64 hid) <|
    .cons rfl (fits_le 0 event.kind.code_le (by decide) (by decide)) <|
    .cons rfl (fits32 hsource) <|
    .cons rfl (fits32 hgen) <|
    .cons rfl hlabel.fits <|
    .cons rfl (fits_wall hdue) <|
    .cons rfl (fits64 hmono) <|
    .cons rfl (fits64 hstarted) <|
    .cons rfl (Fits.bool _) <|
    .cons rfl (fits_le 0 event.missedReason.code_le (by decide) (by decide)) .nil

/-! ### Alarms -/

theorem SpecOk.bounds {spec : AlarmSpec} (h : SpecOk spec) :
    spec.hour ≤ 23 ∧ spec.minute ≤ 59 ∧ spec.repeatDays ≤ 127 ∧ 0 ≤ spec.onceUtc ∧
      spec.onceUtc ≤ wallMax := by
  have hvalid := h.valid
  rw [validSpec] at hvalid
  split at hvalid
  · simp at hvalid
  · cases hsched : spec.schedule with
    | once =>
      simp only [hsched, decide_eq_true_eq] at hvalid
      have hwall := validWall_iff.mp hvalid.1
      rw [wallMin] at hwall
      omega
    | weekly =>
      simp only [hsched, decide_eq_true_eq] at hvalid
      rw [wallMax]
      omega

theorem readAlarmSpec_makeAlarmSpec {spec : AlarmSpec} (h : SpecOk spec) :
    readAlarmSpec (makeAlarmSpec spec) = some spec := by
  obtain ⟨hhour, hminute, hdays, hzero, hmax⟩ := h.bounds
  have hlabel : textValue (makeAlarmSpec spec) "label" true = some spec.label :=
    textValue_of_field rfl h.label
  have hschedule : unsignedValue (makeAlarmSpec spec) "schedule" 1 = some spec.schedule.code :=
    unsignedValue_of_field rfl spec.schedule.code_le
  have honce : signedValue (makeAlarmSpec spec) "once_utc" 0 wallMax = some spec.onceUtc := by
    have hfield : field (makeAlarmSpec spec) "once_utc" = some (.int spec.onceUtc) := rfl
    rw [signedValue, hfield]
    simp only
    rw [if_neg (by rw [wallMax] at hmax; omega), if_pos ⟨hzero, hmax⟩]
  have hhours : unsignedValue (makeAlarmSpec spec) "hour" 23 = some spec.hour :=
    unsignedValue_of_field rfl hhour
  have hminutes : unsignedValue (makeAlarmSpec spec) "minute" 59 = some spec.minute :=
    unsignedValue_of_field rfl hminute
  have hrepeat : unsignedValue (makeAlarmSpec spec) "repeat_days" 127 = some spec.repeatDays :=
    unsignedValue_of_field rfl hdays
  have henabled : booleanValue (makeAlarmSpec spec) "enabled" = some spec.enabled :=
    booleanValue_of_field rfl
  have hshape : shape (makeAlarmSpec spec) 7 = true := rfl
  simp only [readAlarmSpec, hshape, if_true, hlabel, hschedule, honce, hhours, hminutes, hrepeat,
    henabled, bind_eq_bind, bind_some, Schedule.ofCode_code]
  -- The rules of a schedule are those of `validSpec`.
  have hvalid := h.valid
  rw [validSpec] at hvalid
  split at hvalid
  · simp at hvalid
  · cases hsched : spec.schedule with
    | once =>
      simp only [hsched, decide_eq_true_eq] at hvalid
      have hwall := validWall_iff.mp hvalid.1
      simp only
      rw [if_pos ⟨hwall.1, hvalid.2⟩, ← hsched]
    | weekly =>
      simp only [hsched, decide_eq_true_eq] at hvalid
      simp only
      rw [if_pos ⟨hvalid.1, hvalid.2.2.2.1⟩, ← hsched]

theorem fits_makeAlarmSpec {spec : AlarmSpec} (h : SpecOk spec) {depth : ℕ} :
    Fits TextOk (makeAlarmSpec spec) (depth + 1) 360 := by
  obtain ⟨hhour, hminute, hdays, hzero, hmax⟩ := h.bounds
  rw [wallMax] at hmax
  exact Fits.obj (by simp) <|
    .cons rfl h.label.fits <|
    .cons rfl (fits_le 0 spec.schedule.code_le (by decide) (by decide)) <|
    .cons rfl (Fits.nonneg (k := 9) hzero (by omega) (by omega)) <|
    .cons rfl (fits_le 1 hhour (by decide) (by decide)) <|
    .cons rfl (fits_le 1 hminute (by decide) (by decide)) <|
    .cons rfl (fits_le 2 hdays (by decide) (by decide)) <|
    .cons rfl (Fits.bool _) .nil

theorem AlarmOk.next (h : AlarmOk alarm) :
    validWall alarm.nextDueUtc = true ∨ alarm.nextDueUtc = 0 := by
  cases hen : alarm.spec.enabled with
  | true => exact .inl (h.enabled hen).1
  | false => exact .inr (h.disabled hen)

theorem AlarmOk.last_wall (h : AlarmOk alarm) :
    validWall alarm.lastDueUtc = true ∨ alarm.lastDueUtc = 0 := by
  rcases h.last with hzero | ⟨hwall, -⟩
  · exact .inr hzero
  · exact .inl hwall

theorem readAlarm_makeAlarm (h : AlarmOk alarm) : readAlarm (makeAlarm alarm) = some alarm := by
  have hid : unsignedValue (makeAlarm alarm) "id" (maxVal 32) = some alarm.id :=
    unsignedValue_of_field rfl (le_maxVal h.id_lt)
  have hgen : unsignedValue (makeAlarm alarm) "generation" (maxVal 32) =
      some alarm.generation := unsignedValue_of_field rfl (le_maxVal h.generation_lt)
  have hspec : objectValue (makeAlarm alarm) "spec" = some (makeAlarmSpec alarm.spec) := rfl
  have hnext : wallValue (makeAlarm alarm) "next_due_utc" wallMax true = some alarm.nextDueUtc :=
    wallValue_of_field rfl (h.next.imp id fun hzero => ⟨rfl, hzero⟩)
  have hlast : wallValue (makeAlarm alarm) "last_due_utc" wallMax true = some alarm.lastDueUtc :=
    wallValue_of_field rfl (h.last_wall.imp id fun hzero => ⟨rfl, hzero⟩)
  have hsnoozed : booleanValue (makeAlarm alarm) "snoozed" = some alarm.snoozed :=
    booleanValue_of_field rfl
  have hdeadline : unsignedValue (makeAlarm alarm) "snooze_deadline_ms" (maxVal 64) =
      some alarm.snoozeDeadlineMs := unsignedValue_of_field rfl (le_maxVal h.snooze_lt)
  have hshape : shape (makeAlarm alarm) 7 = true := rfl
  simp only [readAlarm, hshape, if_true, hid, hgen, hspec, readAlarmSpec_makeAlarmSpec h.spec,
    hnext, hlast, hsnoozed, hdeadline, bind_eq_bind, bind_some, h.id_ne,
    h.generation_ne, or_self, if_false]

theorem fits_makeAlarm (h : AlarmOk alarm) : Fits TextOk (makeAlarm alarm) (depth + 2) 520 :=
  Fits.obj (by simp) <|
    .cons rfl (fits32 h.id_lt) <|
    .cons rfl (fits32 h.generation_lt) <|
    .cons rfl (fits_makeAlarmSpec h.spec) <|
    .cons rfl (fits_wall h.next) <|
    .cons rfl (fits_wall h.last_wall) <|
    .cons rfl (Fits.bool _) <|
    .cons rfl (fits64 h.snooze_lt) .nil

/-! ### Timer, stopwatch, world clock -/

theorem readTimer_makeTimer {timer : Timer} {monotonicMs : ℕ} (h : TimerOk timer monotonicMs) :
    readTimer (makeTimer timer) = some timer := by
  have hstate : unsignedValue (makeTimer timer) "state" 3 = some timer.state.code :=
    unsignedValue_of_field rfl timer.state.code_le
  have hgen : unsignedValue (makeTimer timer) "generation" (maxVal 32) =
      some timer.generation := unsignedValue_of_field rfl (le_maxVal h.generation_lt)
  have hduration : unsignedValue (makeTimer timer) "duration_seconds" timerMaxSeconds =
      some timer.durationSeconds := unsignedValue_of_field rfl h.duration_le
  have hremaining : unsignedValue (makeTimer timer) "remaining_ms" (timerMaxSeconds * 1000) =
      some timer.remainingMs := unsignedValue_of_field rfl h.remaining_le
  have hdeadline : unsignedValue (makeTimer timer) "deadline_ms" (maxVal 64) =
      some timer.deadlineMs := unsignedValue_of_field rfl (le_maxVal h.deadline_lt)
  have hshape : shape (makeTimer timer) 5 = true := rfl
  simp only [readTimer, hshape, if_true, hstate, hgen, hduration, hremaining, hdeadline,
    bind_eq_bind, bind_some, h.generation_ne, if_false, TimerState.ofCode_code]

theorem fits_makeTimer {timer : Timer} {monotonicMs : ℕ} (h : TimerOk timer monotonicMs) :
    Fits TextOk (makeTimer timer) (depth + 1) 122 :=
  Fits.obj (by simp) <|
    .cons rfl (fits_le 0 timer.state.code_le (by decide) (by decide)) <|
    .cons rfl (fits32 h.generation_lt) <|
    .cons rfl (fits_le 5 h.duration_le (by decide) (by decide)) <|
    .cons rfl (fits_le 8 h.remaining_le (by decide) (by decide)) <|
    .cons rfl (fits64 h.deadline_lt) .nil

theorem readLap_makeLap {lap : Lap} (h : lap.elapsedMs < 2 ^ 64 ∧ lap.differenceMs < 2 ^ 64) :
    readLap (makeLap lap) = some lap := by
  have helapsed : unsignedValue (makeLap lap) "elapsed_ms" (maxVal 64) = some lap.elapsedMs :=
    unsignedValue_of_field rfl (le_maxVal h.1)
  have hdiff : unsignedValue (makeLap lap) "difference_ms" (maxVal 64) =
      some lap.differenceMs := unsignedValue_of_field rfl (le_maxVal h.2)
  have hshape : shape (makeLap lap) 2 = true := rfl
  simp only [readLap, hshape, if_true, helapsed, hdiff, bind_eq_bind, bind_some]

theorem fits_makeLap {lap : Lap} (h : lap.elapsedMs < 2 ^ 64 ∧ lap.differenceMs < 2 ^ 64) :
    Fits TextOk (makeLap lap) (depth + 1) 73 :=
  Fits.obj (by simp) <| .cons rfl (fits64 h.1) <| .cons rfl (fits64 h.2) .nil

theorem readStopwatch_makeStopwatch {stopwatch : Stopwatch} (h : StopwatchOk stopwatch) :
    readStopwatch (makeStopwatch stopwatch) = some stopwatch := by
  have hrunning : booleanValue (makeStopwatch stopwatch) "running" = some stopwatch.running :=
    booleanValue_of_field rfl
  have helapsed : unsignedValue (makeStopwatch stopwatch) "elapsed_ms" (maxVal 64) =
      some stopwatch.elapsedMs := unsignedValue_of_field rfl (le_maxVal h.elapsed_lt)
  have hitems : arrayValue (makeStopwatch stopwatch) "laps" lapLimit =
      some (stopwatch.laps.map makeLap) := arrayValue_of_field rfl (by simpa using h.length_le)
  have hlaps : (stopwatch.laps.map makeLap).mapM readLap = some stopwatch.laps :=
    mapM_make fun lap hmem => readLap_makeLap (h.laps lap hmem)
  have hshape : shape (makeStopwatch stopwatch) 3 = true := rfl
  simp only [readStopwatch, hshape, if_true, hrunning, helapsed, hitems, hlaps, bind_eq_bind,
    bind_some]

theorem fits_makeStopwatch {stopwatch : Stopwatch} (h : StopwatchOk stopwatch) :
    Fits TextOk (makeStopwatch stopwatch) (depth + 3) 1542 :=
  Fits.obj (by simp) <|
    .cons rfl (Fits.bool _) <|
    .cons rfl (fits64 h.elapsed_lt) <|
    .cons rfl (fits_rows h.length_le fun lap hlap => fits_makeLap (h.laps lap hlap)) .nil

theorem readWorld_makeWorld {entry : WorldEntry}
    (h : entry.id ≠ 0 ∧ entry.id < 2 ^ 32 ∧ worldOffsetValid entry.offsetMinutes = true) :
    readWorld (makeWorld entry) = some entry := by
  have hid : unsignedValue (makeWorld entry) "id" (maxVal 32) = some entry.id :=
    unsignedValue_of_field rfl (le_maxVal h.2.1)
  have hoffset : offsetValue (makeWorld entry) = some entry.offsetMinutes :=
    offsetValue_of_field rfl h.2.2
  have hshape : shape (makeWorld entry) 2 = true := rfl
  simp only [readWorld, hshape, if_true, hid, hoffset, bind_eq_bind, bind_some, h.1,
    if_false]

theorem fits_makeWorld {entry : WorldEntry}
    (h : entry.id ≠ 0 ∧ entry.id < 2 ^ 32 ∧ worldOffsetValid entry.offsetMinutes = true) :
    Fits TextOk (makeWorld entry) (depth + 1) 40 := by
  have hbounds := offset_bounds h.2.2
  exact Fits.obj (by simp) <|
    .cons rfl (fits32 h.2.1) <|
    .cons rfl (Fits.signed (k := 2) (by omega) (by omega)) .nil

/-! ### Rows -/

theorem readRows_make {read : Json → Option α} {make : α → Json} {f : α → α} {clash : α → α → Bool}
    {rows done : List α} (hread : ∀ row ∈ rows, read (make row) = some (f row))
    (hclash : rows.Pairwise fun row later => clash (f later) (f row) = false)
    (hdone : ∀ row ∈ rows, ∀ previous ∈ done, clash (f row) previous = false) :
    readRows read clash (rows.map make) done = some (done ++ rows.map f) := by
  induction rows generalizing done with
  | nil => rw [List.map_nil, readRows, List.map_nil, List.append_nil]
  | cons row rows ih =>
    have hfree : done.any (clash (f row)) = false := by
      rw [List.any_eq_false]
      intro previous hmem
      simp [hdone row (by simp) previous hmem]
    obtain ⟨hrow, hrows⟩ := List.pairwise_cons.mp hclash
    have hnext : readRows read clash (rows.map make) (done ++ [f row]) =
        some ((done ++ [f row]) ++ rows.map f) := by
      refine ih (fun other hmem => hread other (by simp [hmem])) hrows ?_
      intro other hmem previous hprevious
      rcases List.mem_append.mp hprevious with hold | hnew
      · exact hdone other (by simp [hmem]) previous hold
      · rw [List.mem_singleton] at hnew
        rw [hnew]
        exact hrow other hmem
    rw [List.map_cons, readRows, hread row (by simp)]
    simp only [bind_eq_bind, bind_some, hfree, Bool.false_eq_true, if_false, hnext,
      List.append_assoc, List.singleton_append, List.map_cons]

theorem alarms_pairwise {alarms : List Alarm} {nextAlarmId : ℕ} (h : AlarmsOk alarms nextAlarmId)
    {f : Alarm → Alarm} (hf : ∀ alarm, (f alarm).id = alarm.id) :
    alarms.Pairwise fun alarm later => alarmsClash (f later) (f alarm) = false := by
  refine (List.pairwise_map.mp h.nodup).imp ?_
  intro alarm later hne
  simp [alarmsClash, hf, Ne.symm hne]

theorem readAlarms_make {alarms : List Alarm} {nextAlarmId : ℕ} (h : AlarmsOk alarms nextAlarmId) :
    readRows readAlarm alarmsClash (alarms.map makeAlarm) [] = some alarms := by
  have hrows : readRows readAlarm alarmsClash (alarms.map makeAlarm) [] =
      some ([] ++ alarms.map fun alarm => alarm) :=
    readRows_make (fun alarm hmem => readAlarm_makeAlarm (h.each alarm hmem))
      (alarms_pairwise h fun _ => rfl) (by simp)
  simpa using hrows

theorem world_pairwise {world : List WorldEntry} {nextWorldId : ℕ} (h : WorldOk world nextWorldId) :
    world.Pairwise fun entry later => worldClash later entry = false := by
  refine ((List.pairwise_map.mp h.nodup).and (List.pairwise_map.mp h.offsets)).imp ?_
  rintro entry later ⟨hid, hoffset⟩
  simp [worldClash, Ne.symm hid, Ne.symm hoffset]

theorem readWorlds_make {world : List WorldEntry} {nextWorldId : ℕ}
    (h : WorldOk world nextWorldId) {read : Json → Option WorldEntry}
    (hread : ∀ entry ∈ world, read (makeWorld entry) = some entry) :
    readRows read worldClash (world.map makeWorld) [] = some world := by
  have hrows : readRows read worldClash (world.map makeWorld) [] =
      some ([] ++ world.map fun entry => entry) :=
    readRows_make hread (world_pairwise h) (by simp)
  simpa using hrows

theorem readListed_makeEvent {missed : Bool} (h : EventOk event)
    (hreason : decide (event.missedReason = .none) = !missed) :
    readListed missed (makeEvent event) = some event := by
  have hkind := h.kind_ne
  rw [readListed, readEvent_makeEvent h]
  simp only [bind_eq_bind, bind_some, hkind, hreason, false_or]
  rw [if_neg (by simp)]

/-! ### The model -/

theorem makeModel_eq (h : Inv model) : makeModel model = .obj (modelMembers model) := by
  have halarms := h.alarms.length_le
  have hqueue := h.slots.length_le
  have hmissed := h.missed.length_le
  have hworld := h.world.length_le
  have hlaps := h.stopwatch.length_le
  rw [makeModel, if_neg (by omega)]

theorem SlotsOk.active_ok {active : Event} {queue : List Event} (h : SlotsOk active queue) :
    EventOk active ∨ active = Event.zero := by
  rcases h.slot with ⟨hzero, -⟩ | ⟨hok, -⟩
  · exact .inr hzero
  · exact .inl hok

/-- **The reader accepts every model that keeps the invariant**, and gives it back. -/
theorem readModel_makeModel (h : Inv model) :
    readModel (.obj (modelMembers model)) = some model := by
  have hwall : wallValue (.obj (modelMembers model)) "wall_utc" wallMax false =
      some model.wallUtc := wallValue_of_field rfl (.inl h.wall)
  have hmono : unsignedValue (.obj (modelMembers model)) "monotonic_ms" (maxVal 64) =
      some model.monotonicMs := unsignedValue_of_field rfl (le_maxVal h.monotonic_lt)
  have hview : unsignedValue (.obj (modelMembers model)) "view" 1 = some model.view.code :=
    unsignedValue_of_field rfl model.view.code_le
  have hsnooze : unsignedValue (.obj (modelMembers model)) "snooze_minutes" 30 =
      some model.snoozeMinutes := unsignedValue_of_field rfl h.snooze.2
  have hhour : unsignedValue (.obj (modelMembers model)) "last_alarm_hour" 23 =
      some model.lastAlarmHour := unsignedValue_of_field rfl (Nat.le_of_lt_succ h.lastAlarm.1)
  have hminute : unsignedValue (.obj (modelMembers model)) "last_alarm_minute" 59 =
      some model.lastAlarmMinute := unsignedValue_of_field rfl (Nat.le_of_lt_succ h.lastAlarm.2)
  have halarmItems : arrayValue (.obj (modelMembers model)) "alarms" alarmLimit =
      some (model.alarms.map makeAlarm) :=
    arrayValue_of_field rfl (by simpa using h.alarms.length_le)
  have hactiveObject : objectValue (.obj (modelMembers model)) "active" =
      some (makeEvent model.active) := rfl
  have hqueueItems : arrayValue (.obj (modelMembers model)) "queue" queueLimit =
      some (model.queue.map makeEvent) :=
    arrayValue_of_field rfl (by simpa using h.slots.length_le)
  have hmissedItems : arrayValue (.obj (modelMembers model)) "missed" missedLimit =
      some (model.missed.map makeEvent) :=
    arrayValue_of_field rfl (by simpa using h.missed.length_le)
  have htotal : unsignedValue (.obj (modelMembers model)) "missed_total" (maxVal 64) =
      some model.missedTotal := unsignedValue_of_field rfl (le_maxVal h.missed.total_lt)
  have htimerObject : objectValue (.obj (modelMembers model)) "timer" =
      some (makeTimer model.timer) := rfl
  have hstopwatchObject : objectValue (.obj (modelMembers model)) "stopwatch" =
      some (makeStopwatch model.stopwatch) := rfl
  have hworldItems : arrayValue (.obj (modelMembers model)) "world" worldLimit =
      some (model.world.map makeWorld) :=
    arrayValue_of_field rfl (by simpa using h.world.length_le)
  have hnextAlarm : unsignedValue (.obj (modelMembers model)) "next_alarm_id" (maxVal 32) =
      some model.nextAlarmId := unsignedValue_of_field rfl (le_maxVal h.alarms.next_lt)
  have hnextWorld : unsignedValue (.obj (modelMembers model)) "next_world_id" (maxVal 32) =
      some model.nextWorldId := unsignedValue_of_field rfl (le_maxVal h.world.next_lt)
  have hnextEvent : unsignedValue (.obj (modelMembers model)) "next_event_id" (maxVal 64) =
      some model.nextEventId := unsignedValue_of_field rfl (le_maxVal h.ring.next_lt)
  have hshape : shape (.obj (modelMembers model)) 17 = true := rfl
  -- The records and the rows.
  have hactive : readEvent (makeEvent model.active) = some model.active := by
    rcases h.slots.active_ok with hok | hzero
    · exact readEvent_makeEvent hok
    · rw [hzero]
      exact readEvent_zero
  have hqueue : (model.queue.map makeEvent).mapM (readListed false) = some model.queue := by
    refine mapM_make fun event hmem => ?_
    obtain ⟨hok, hreason⟩ := h.slots.each event hmem
    exact readListed_makeEvent hok (by simp [hreason])
  have hmissed : (model.missed.map makeEvent).mapM (readListed true) = some model.missed := by
    refine mapM_make fun event hmem => ?_
    obtain ⟨hok, hreason⟩ := h.missed.each event hmem
    exact readListed_makeEvent hok (by simp [hreason])
  have hworlds : readRows readWorld worldClash (model.world.map makeWorld) [] = some model.world :=
    readWorlds_make h.world fun entry hmem => readWorld_makeWorld (h.world.each entry hmem)
  -- The rules across members.
  have hreason : model.active.missedReason = .none := by
    rcases h.slots.slot with ⟨hzero, -⟩ | ⟨-, hnone⟩
    · rw [hzero]
      rfl
    · exact hnone
  have hrules : ¬ (model.snoozeMinutes = 0 ∨ model.active.missedReason ≠ .none ∨
      model.missedTotal < (model.missed.map makeEvent).length) := by
    have hsnoozed := h.snooze.1
    have hge := h.missed.total_ge
    rw [List.length_map, not_or, not_or]
    exact ⟨by omega, by simp [hreason], by omega⟩
  simp only [readModel, hshape, if_true, hwall, hmono, hview, hsnooze, hhour, hminute, halarmItems,
    hactiveObject, hactive, hqueueItems, hmissedItems, htotal, htimerObject,
    readTimer_makeTimer h.timer, hstopwatchObject, readStopwatch_makeStopwatch h.stopwatch,
    hworldItems, hnextAlarm, hnextWorld, hnextEvent, readAlarms_make h.alarms, hqueue, hmissed,
    hworlds, bind_eq_bind, bind_some, if_neg hrules,
    View.ofCode_code]

theorem fits_makeModel (h : Inv model) :
    Fits TextOk (.obj (modelMembers model)) (depth + 4) 14844 :=
  Fits.obj (by simp [modelMembers]) <|
    .cons rfl (fits_wall (.inl h.wall)) <|
    .cons rfl (fits64 h.monotonic_lt) <|
    .cons rfl (fits_le 0 model.view.code_le (by decide) (by decide)) <|
    .cons rfl (fits_le 1 h.snooze.2 (by decide) (by decide)) <|
    .cons rfl (fits_le 1 (Nat.le_of_lt h.lastAlarm.1) (by decide) (by decide)) <|
    .cons rfl (fits_le 1 (Nat.le_of_lt h.lastAlarm.2) (by decide) (by decide)) <|
    .cons rfl (fits_rows h.alarms.length_le fun alarm hmem => fits_makeAlarm (h.alarms.each alarm hmem)) <|
    .cons rfl (fits_makeEvent h.slots.active_ok) <|
    .cons rfl (fits_rows h.slots.length_le fun event hmem =>
      fits_makeEvent (.inl (h.slots.each event hmem).1)) <|
    .cons rfl (fits_rows h.missed.length_le fun event hmem =>
      fits_makeEvent (.inl (h.missed.each event hmem).1)) <|
    .cons rfl (fits64 h.missed.total_lt) <|
    .cons rfl (fits_makeTimer h.timer) <|
    .cons rfl (fits_makeStopwatch h.stopwatch) <|
    .cons rfl (fits_rows h.world.length_le fun entry hmem => fits_makeWorld (h.world.each entry hmem)) <|
    .cons rfl (fits32 h.alarms.next_lt) <|
    .cons rfl (fits32 h.world.next_lt) <|
    .cons rfl (fits64 h.ring.next_lt) .nil

/-! ### Snapshots -/

/-- The response rules, with an error code that is an `errno` or zero. -/
structure ResponseOk (result : Result) : Prop where
  valid : resultValid result = true
  error_nonneg : 0 ≤ result.storageError
  error_le : result.storageError ≤ 2 ^ 31 - 1

theorem literalValue_of_field {value : String} (h : field object name = some (.str (ascii value)))
    (literal : String) :
    literalValue object name literal = decide (ascii value = ascii literal) := by
  rw [literalValue, h]

theorem find_statusName (status : Status) :
    statuses.find? (fun other => decide (ascii (statusName status) = ascii (statusName other))) =
      some status := by
  cases status with
  | ok => decide
  | invalid => decide
  | notFound => decide
  | full => decide
  | activeEvent => decide
  | staleEvent => decide
  | noEvent => decide
  | wrongState => decide
  | timeBackward => decide
  | exhausted => decide
  | storageError => decide

theorem find_storageName (state : StorageState) :
    storageStates.find? (fun other => decide (ascii (storageName state) = ascii (storageName other))) =
      some state := by
  cases state with
  | unpublished => decide
  | publishedUnsynced => decide
  | durable => decide

theorem readResult_makeSnapshot (h : ResponseOk result) :
    readResult (makeSnapshot model result serial) = some result := by
  have hstatus : statuses.find? (fun status =>
      literalValue (makeSnapshot model result serial) "status" (statusName status)) =
        some result.status := by
    have hfield : field (makeSnapshot model result serial) "status" =
        some (.str (ascii (statusName result.status))) := rfl
    simp only [literalValue_of_field hfield, find_statusName]
  have hstorage : storageStates.find? (fun state =>
      literalValue (makeSnapshot model result serial) "storage" (storageName state)) =
        some result.storageState := by
    have hfield : field (makeSnapshot model result serial) "storage" =
        some (.str (ascii (storageName result.storageState))) := rfl
    simp only [literalValue_of_field hfield, find_storageName]
  have happlied : booleanValue (makeSnapshot model result serial) "applied" =
      some result.applied := booleanValue_of_field rfl
  obtain ⟨error, herror⟩ := Int.eq_ofNat_of_zero_le h.error_nonneg
  have hle := h.error_le
  have hcode : unsignedValue (makeSnapshot model result serial) "error" (2 ^ 31 - 1) =
      some error := unsignedValue_of_field (by rw [← herror]; rfl) (by omega)
  simp only [readResult, hstatus, hstorage, happlied, hcode, bind_eq_bind, bind_some,
    ← herror, h.valid, if_true]

theorem readSnapshot_makeSnapshot (h : Inv model) (hresult : ResponseOk result)
    (hserial : serial < 2 ^ 64) :
    readSnapshot (makeSnapshot model result serial) = some (model, result, serial) := by
  have hop : literalValue (makeSnapshot model result serial) "op" "snapshot" = true := rfl
  have hshape : shape (makeSnapshot model result serial) 7 = true := rfl
  have hser : unsignedValue (makeSnapshot model result serial) "serial" (maxVal 64) =
      some serial := unsignedValue_of_field rfl (le_maxVal hserial)
  have hdata : objectValue (makeSnapshot model result serial) "model" =
      some (.obj (modelMembers model)) := by
    rw [objectValue, show field (makeSnapshot model result serial) "model" =
      some (makeModel model) from rfl, makeModel_eq h]
  simp only [readSnapshot, hshape, hop, and_self, if_true, readResult_makeSnapshot hresult, hser,
    hdata, readModel_makeModel h, bind_eq_bind, bind_some]

theorem fits_literal {literal : String}
    (hall : (ascii literal).all (fun b => decide (0x20 ≤ b.toNat ∧ b.toNat < 0x80)) = true)
    (hlen : (ascii literal).length ≤ n) :
    Fits TextOk (.str (ascii literal)) depth (2 * n + 2) := by
  have hbyte : ∀ b ∈ ascii literal, 0x20 ≤ b.toNat ∧ b.toNat < 0x80 := by
    intro b hb
    exact of_decide_eq_true (List.all_eq_true.mp hall b hb)
  have hge : ∀ b ∈ ascii literal, 0x20 ≤ b.toNat := fun b hb => (hbyte b hb).1
  exact Fits.str ⟨⟨_, Utf8.decodes_ascii fun b hb => (hbyte b hb).2⟩, hge⟩ hge hlen

theorem fits_statusName (status : Status) :
    Fits TextOk (.str (ascii (statusName status))) depth 28 := by
  refine fits_literal (n := 13) ?_ ?_
  · cases status <;> rfl
  · cases status <;> decide

theorem fits_storageName (state : StorageState) :
    Fits TextOk (.str (ascii (storageName state))) depth 38 := by
  refine fits_literal (n := 18) ?_ ?_
  · cases state <;> rfl
  · cases state <;> decide

/-- **A snapshot fits the frame**: at most 15031 bytes. -/
theorem fits_makeSnapshot (h : Inv model) (hresult : ResponseOk result)
    (hserial : serial < 2 ^ 64) :
    Fits TextOk (makeSnapshot model result serial) 5 15031 := by
  have herror := hresult.error_le
  rw [makeSnapshot, makeModel_eq h]
  exact Fits.obj (by simp) <|
    .cons rfl (fits_literal (n := 8) rfl (by decide)) <|
    .cons rfl (fits_statusName _) <|
    .cons rfl (Fits.bool _) <|
    .cons rfl (fits_storageName _) <|
    .cons rfl (Fits.nonneg (k := 9) hresult.error_nonneg (by omega) (by omega)) <|
    .cons rfl (fits64 hserial) <|
    .cons rfl (fits_makeModel h) .nil

/-- **Snapshots survive the wire**: for every model the owner reaches, every
result that keeps the response rules and every serial, the text fits the frame
and decodes to what was encoded. -/
theorem snapshot_roundtrip {tokener : Tokener} (hinv : Inverts tokener) {model : Model}
    (hmodel : machine.Reachable model) {result : Result} (hresult : ResponseOk result) {serial : ℕ}
    (hserial : serial < 2 ^ 64) :
    ∃ text, snapshotEncode model result serial wireCapacity = .ok text ∧
      snapshotDecode tokener text = some (model, result, serial) := by
  have h := inv_of_reachable hmodel
  have hread := readSnapshot_makeSnapshot h hresult hserial
  have hfits := fits_makeSnapshot h hresult hserial
  have hlen : (print (makeSnapshot model result serial)).length < wireCapacity :=
    Nat.lt_of_le_of_lt hfits.length_le (by decide)
  refine ⟨print (makeSnapshot model result serial), ?_, ?_⟩
  · rw [snapshotEncode, hread]
    simp only [writeObject]
    rw [if_neg (by decide), if_neg (by omega)]
  · have hparse : parseObject tokener (print (makeSnapshot model result serial)) =
        some (makeSnapshot model result serial) :=
      parseObject_print hinv hfits.plain (Nat.lt_of_le_of_lt hfits.height_le (by decide)) hlen
    rw [snapshotDecode, hparse]
    exact hread

/-- A tokener for plain text; the text it is given is valid UTF-8 already. -/
def plainTokener : Tokener := fun depth _ text => Json.reader depth text

theorem inverts_plainTokener : Inverts plainTokener := by
  intro depth validate value _ hplain hheight
  exact Json.reader_print hplain hheight

/-- A snapshot of a weekly alarm that rings. -/
theorem snapshot_roundtrip_ringing :
    ∃ model, init 1700000040 0 = some model ∧
      ∃ ringing, ringing =
          (perform (perform model (.request dailyRequest)).2 (.tick 1700031600 1000)).2 ∧
        ∃ text, snapshotEncode ringing ⟨.ok, true, .durable, 0⟩ 7 wireCapacity = .ok text ∧
          snapshotDecode plainTokener text = some (ringing, ⟨.ok, true, .durable, 0⟩, 7) := by
  refine ⟨_, rfl, _, rfl, snapshot_roundtrip inverts_plainTokener
    (.step (.step (.start ⟨1700000040, 0, ?_, rfl⟩) ⟨?_, rfl⟩) ⟨?_, rfl⟩) ⟨?_, ?_, ?_⟩ ?_⟩
  · decide
  · trivial
  · show 1000 < 2 ^ 64
    decide
  · decide
  · decide
  · decide
  · decide

end Clock
