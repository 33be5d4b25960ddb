/-
Snapshots and preferences on the wire (`clock-wire.c`).

Every record has a maker, its JSON object with the members in the source's
order, and a reader with the source's checks.  An encoder reads its own object
back before it prints it; a decoder parses the text, reads the object and only
then replaces its outputs.  `none` stands for `CLOCK_INVALID`.
-/
import Fplinux.Clock.Scan

namespace Clock

open Bytes (ascii)
open Word (maxVal)

/-! ### Enumerations on the wire -/

def EventKind.code : EventKind → ℕ
  | .none => 0
  | .alarm => 1
  | .timer => 2

def EventKind.ofCode : ℕ → EventKind
  | 0 => .none
  | 1 => .alarm
  | _ => .timer

def MissedReason.code : MissedReason → ℕ
  | .none => 0
  | .late => 1
  | .queueFull => 2
  | .expired => 3

def MissedReason.ofCode : ℕ → MissedReason
  | 0 => .none
  | 1 => .late
  | 2 => .queueFull
  | _ => .expired

def TimerState.code : TimerState → ℕ
  | .stopped => 0
  | .running => 1
  | .paused => 2
  | .finished => 3

def TimerState.ofCode : ℕ → TimerState
  | 0 => .stopped
  | 1 => .running
  | 2 => .paused
  | _ => .finished

/-- `enum fplinux_storage_state`. -/
inductive StorageState
  | unpublished | publishedUnsynced | durable
  deriving DecidableEq, Repr

def storageName : StorageState → String
  | .unpublished => "unpublished"
  | .publishedUnsynced => "published-unsynced"
  | .durable => "durable"

/-- `struct clock_result`. -/
structure Result where
  status : Status
  applied : Bool
  storageState : StorageState
  storageError : ℤ
  deriving DecidableEq, Repr

/-! ### Readers of members -/

def wallValue (object : Json) (name : String) (maximum : ℤ) (allowZero : Bool) : Option ℤ := do
  let value ← signedValue object name (if allowZero then 0 else wallMin) maximum
  if wallMin ≤ value ∨ (allowZero ∧ value = 0) then some value else none

def arrayValue (object : Json) (name : String) (maximum : ℕ) : Option (List Json) :=
  match field object name with
  | some (.arr items) => if items.length ≤ maximum then some items else none
  | _ => none

/-! ### Records -/

/-- The rules of an event: a cleared one, or a full one. -/
def eventValid (event : Event) : Bool :=
  match event.kind with
  | .none => event = Event.zero
  | .alarm =>
    event.id ≠ 0 ∧ event.generation ≠ 0 ∧ wallMin ≤ event.dueWallUtc ∧ event.sourceId ≠ 0
  | .timer =>
    event.id ≠ 0 ∧ event.generation ≠ 0 ∧ wallMin ≤ event.dueWallUtc ∧ event.sourceId = 0 ∧
      !event.snoozed

def readEvent (object : Json) : Option Event := do
  if shape object 10 then
    let id ← unsignedValue object "id" (maxVal 64)
    let kind ← unsignedValue object "kind" 2
    let sourceId ← unsignedValue object "source_id" (maxVal 32)
    let generation ← unsignedValue object "generation" (maxVal 32)
    let label ← textValue object "label" true
    let dueWallUtc ← wallValue object "due_wall_utc" wallMax true
    let dueMonotonicMs ← unsignedValue object "due_monotonic_ms" (maxVal 64)
    let ringStartedMs ← unsignedValue object "ring_started_ms" (maxVal 64)
    let snoozed ← booleanValue object "snoozed"
    let reason ← unsignedValue object "missed_reason" 3
    let event : Event :=
      ⟨id, EventKind.ofCode kind, sourceId, generation, label, dueWallUtc, dueMonotonicMs,
        ringStartedMs, snoozed, MissedReason.ofCode reason⟩
    if eventValid event then some event else none
  else none

def makeEvent (event : Event) : Json :=
  .obj
    [("id", .int event.id),
     ("kind", .int event.kind.code),
     ("source_id", .int event.sourceId),
     ("generation", .int event.generation),
     ("label", text event.label),
     ("due_wall_utc", .int event.dueWallUtc),
     ("due_monotonic_ms", .int event.dueMonotonicMs),
     ("ring_started_ms", .int event.ringStartedMs),
     ("snoozed", .bool event.snoozed),
     ("missed_reason", .int event.missedReason.code)]

def readAlarm (object : Json) : Option Alarm := do
  if shape object 7 then
    let id ← unsignedValue object "id" (maxVal 32)
    let generation ← unsignedValue object "generation" (maxVal 32)
    let specObject ← objectValue object "spec"
    let spec ← readAlarmSpec specObject
    let nextDueUtc ← wallValue object "next_due_utc" wallMax true
    let lastDueUtc ← wallValue object "last_due_utc" wallMax true
    let snoozed ← booleanValue object "snoozed"
    let snoozeDeadlineMs ← unsignedValue object "snooze_deadline_ms" (maxVal 64)
    if id = 0 ∨ generation = 0 then none
    else some ⟨id, generation, spec, nextDueUtc, lastDueUtc, snoozed, snoozeDeadlineMs⟩
  else none

def makeAlarm (alarm : Alarm) : Json :=
  .obj
    [("id", .int alarm.id),
     ("generation", .int alarm.generation),
     ("spec", makeAlarmSpec alarm.spec),
     ("next_due_utc", .int alarm.nextDueUtc),
     ("last_due_utc", .int alarm.lastDueUtc),
     ("snoozed", .bool alarm.snoozed),
     ("snooze_deadline_ms", .int alarm.snoozeDeadlineMs)]

def readTimer (object : Json) : Option Timer := do
  if shape object 5 then
    let state ← unsignedValue object "state" 3
    let generation ← unsignedValue object "generation" (maxVal 32)
    let duration ← unsignedValue object "duration_seconds" timerMaxSeconds
    let remainingMs ← unsignedValue object "remaining_ms" (timerMaxSeconds * 1000)
    let deadlineMs ← unsignedValue object "deadline_ms" (maxVal 64)
    if generation = 0 then none
    else some ⟨TimerState.ofCode state, generation, duration, remainingMs, deadlineMs⟩
  else none

def makeTimer (timer : Timer) : Json :=
  .obj
    [("state", .int timer.state.code),
     ("generation", .int timer.generation),
     ("duration_seconds", .int timer.durationSeconds),
     ("remaining_ms", .int timer.remainingMs),
     ("deadline_ms", .int timer.deadlineMs)]

def readLap (object : Json) : Option Lap := do
  if shape object 2 then
    let elapsedMs ← unsignedValue object "elapsed_ms" (maxVal 64)
    let differenceMs ← unsignedValue object "difference_ms" (maxVal 64)
    some ⟨elapsedMs, differenceMs⟩
  else none

def makeLap (lap : Lap) : Json :=
  .obj [("elapsed_ms", .int lap.elapsedMs), ("difference_ms", .int lap.differenceMs)]

def readStopwatch (object : Json) : Option Stopwatch := do
  if shape object 3 then
    let running ← booleanValue object "running"
    let elapsedMs ← unsignedValue object "elapsed_ms" (maxVal 64)
    let items ← arrayValue object "laps" lapLimit
    let laps ← items.mapM readLap
    some ⟨running, elapsedMs, laps⟩
  else none

def makeStopwatch (stopwatch : Stopwatch) : Json :=
  .obj
    [("running", .bool stopwatch.running),
     ("elapsed_ms", .int stopwatch.elapsedMs),
     ("laps", .arr (stopwatch.laps.map makeLap))]

def readWorld (object : Json) : Option WorldEntry := do
  if shape object 2 then
    let id ← unsignedValue object "id" (maxVal 32)
    let offsetMinutes ← offsetValue object
    if id = 0 then none else some ⟨id, offsetMinutes⟩
  else none

def makeWorld (entry : WorldEntry) : Json :=
  .obj [("id", .int entry.id), ("offset_minutes", .int entry.offsetMinutes)]

/-! ### Rows -/

/-- Reads rows in order; each is checked against the rows before it. -/
def readRows {α : Type} (read : Json → Option α) (clash : α → α → Bool) :
    List Json → List α → Option (List α)
  | [], rows => some rows
  | item :: items, rows => do
    let row ← read item
    if rows.any (clash row) then none else readRows read clash items (rows ++ [row])

/-- Alarms with one id. -/
def alarmsClash (alarm previous : Alarm) : Bool := alarm.id = previous.id

/-- World entries with one id or one offset. -/
def worldClash (entry previous : WorldEntry) : Bool :=
  entry.id = previous.id ∨ entry.offsetMinutes = previous.offsetMinutes

/-- Reads an event that must, or must not, have been missed. -/
def readListed (missed : Bool) (object : Json) : Option Event := do
  let event ← readEvent object
  if event.kind = .none ∨ (decide (event.missedReason = .none)) = missed then none else some event

/-! ### The model -/

def readModel (object : Json) : Option Model := do
  if shape object 17 then
    let wallUtc ← wallValue object "wall_utc" wallMax false
    let monotonicMs ← unsignedValue object "monotonic_ms" (maxVal 64)
    let view ← unsignedValue object "view" 1
    let snooze ← unsignedValue object "snooze_minutes" 30
    let lastHour ← unsignedValue object "last_alarm_hour" 23
    let lastMinute ← unsignedValue object "last_alarm_minute" 59
    let alarmItems ← arrayValue object "alarms" alarmLimit
    let activeObject ← objectValue object "active"
    let active ← readEvent activeObject
    let queueItems ← arrayValue object "queue" queueLimit
    let missedItems ← arrayValue object "missed" missedLimit
    let missedTotal ← unsignedValue object "missed_total" (maxVal 64)
    let timerObject ← objectValue object "timer"
    let timer ← readTimer timerObject
    let stopwatchObject ← objectValue object "stopwatch"
    let stopwatch ← readStopwatch stopwatchObject
    let worldItems ← arrayValue object "world" worldLimit
    let nextAlarmId ← unsignedValue object "next_alarm_id" (maxVal 32)
    let nextWorldId ← unsignedValue object "next_world_id" (maxVal 32)
    let nextEventId ← unsignedValue object "next_event_id" (maxVal 64)
    let alarms ← readRows readAlarm alarmsClash alarmItems []
    let queue ← queueItems.mapM (readListed false)
    let missed ← missedItems.mapM (readListed true)
    let world ← readRows readWorld worldClash worldItems []
    if snooze = 0 ∨ active.missedReason ≠ .none ∨ missedTotal < missedItems.length then none
    else
      some
        { wallUtc := wallUtc
          monotonicMs := monotonicMs
          view := View.ofCode view
          snoozeMinutes := snooze
          lastAlarmHour := lastHour
          lastAlarmMinute := lastMinute
          alarms := alarms
          active := active
          queue := queue
          missed := missed
          missedTotal := missedTotal
          timer := timer
          stopwatch := stopwatch
          world := world
          nextAlarmId := nextAlarmId
          nextWorldId := nextWorldId
          nextEventId := nextEventId }
  else none

def modelMembers (model : Model) : List (String × Json) :=
  [("wall_utc", .int model.wallUtc),
   ("monotonic_ms", .int model.monotonicMs),
   ("view", .int model.view.code),
   ("snooze_minutes", .int model.snoozeMinutes),
   ("last_alarm_hour", .int model.lastAlarmHour),
   ("last_alarm_minute", .int model.lastAlarmMinute),
   ("alarms", .arr (model.alarms.map makeAlarm)),
   ("active", makeEvent model.active),
   ("queue", .arr (model.queue.map makeEvent)),
   ("missed", .arr (model.missed.map makeEvent)),
   ("missed_total", .int model.missedTotal),
   ("timer", makeTimer model.timer),
   ("stopwatch", makeStopwatch model.stopwatch),
   ("world", .arr (model.world.map makeWorld)),
   ("next_alarm_id", .int model.nextAlarmId),
   ("next_world_id", .int model.nextWorldId),
   ("next_event_id", .int model.nextEventId)]

/-- `make_model`; null when a count is over its limit. -/
def makeModel (model : Model) : Json :=
  if model.alarms.length > alarmLimit ∨ model.queue.length > queueLimit ∨
      model.missed.length > missedLimit ∨ model.world.length > worldLimit ∨
      model.stopwatch.laps.length > lapLimit then .null
  else .obj (modelMembers model)

/-! ### Preferences -/

/-- A stored row of an alarm. -/
def makeStoredAlarm (alarm : Alarm) : Json :=
  .obj
    [("id", .int alarm.id),
     ("generation", .int alarm.generation),
     ("spec", makeAlarmSpec alarm.spec),
     ("last_due_utc", .int alarm.lastDueUtc)]

/-- Arms a stored row for the first occurrence after the wall time and the last
one that rang; a row without one is disabled. -/
def rearmStored (wallUtc : ℤ) (alarm : Alarm) : Alarm :=
  if alarm.spec.enabled then
    let after := if wallUtc > alarm.lastDueUtc then wallUtc else alarm.lastDueUtc
    match alarmNextDue alarm.spec after with
    | some due => { alarm with nextDueUtc := due }
    | none => { alarm with spec := { alarm.spec with enabled := false } }
  else alarm

def readStoredAlarm (wallUtc : ℤ) (nextAlarmId : ℕ) (object : Json) : Option Alarm := do
  if shape object 4 then
    let id ← unsignedValue object "id" (maxVal 32)
    let generation ← unsignedValue object "generation" (maxVal 32)
    let specObject ← objectValue object "spec"
    let spec ← readAlarmSpec specObject
    let lastDueUtc ← wallValue object "last_due_utc" wallMax true
    if id = 0 ∨ (nextAlarmId ≠ 0 ∧ id ≥ nextAlarmId) ∨ generation = 0 ∨ lastDueUtc % 60 ≠ 0 then none
    else some (rearmStored wallUtc ⟨id, generation, spec, 0, lastDueUtc, false, 0⟩)
  else none

def readStoredWorld (nextWorldId : ℕ) (object : Json) : Option WorldEntry := do
  let entry ← readWorld object
  if nextWorldId ≠ 0 ∧ entry.id ≥ nextWorldId then none else some entry

/-- Replaces the configuration of an initialized model. -/
def readPreferences (object : Json) (model : Model) : Option Model := do
  if shape object 9 then
    let view ← unsignedValue object "view" 1
    let snooze ← unsignedValue object "snooze_minutes" 30
    let lastHour ← unsignedValue object "last_alarm_hour" 23
    let lastMinute ← unsignedValue object "last_alarm_minute" 59
    let duration ← unsignedValue object "timer_duration_seconds" timerMaxSeconds
    let nextAlarmId ← unsignedValue object "next_alarm_id" (maxVal 32)
    let nextWorldId ← unsignedValue object "next_world_id" (maxVal 32)
    let alarmItems ← arrayValue object "alarms" alarmLimit
    let worldItems ← arrayValue object "world" worldLimit
    let alarms ← readRows (readStoredAlarm model.wallUtc nextAlarmId) alarmsClash alarmItems []
    let world ← readRows (readStoredWorld nextWorldId) worldClash worldItems []
    if snooze = 0 then none
    else
      some
        { model with
          view := View.ofCode view
          snoozeMinutes := snooze
          lastAlarmHour := lastHour
          lastAlarmMinute := lastMinute
          timer := { model.timer with durationSeconds := duration, remainingMs := duration * 1000 }
          nextAlarmId := nextAlarmId
          nextWorldId := nextWorldId
          alarms := alarms
          world := world }
  else none

def preferencesMembers (model : Model) : List (String × Json) :=
  [("view", .int model.view.code),
   ("snooze_minutes", .int model.snoozeMinutes),
   ("last_alarm_hour", .int model.lastAlarmHour),
   ("last_alarm_minute", .int model.lastAlarmMinute),
   ("timer_duration_seconds", .int model.timer.durationSeconds),
   ("next_alarm_id", .int model.nextAlarmId),
   ("next_world_id", .int model.nextWorldId),
   ("alarms", .arr (model.alarms.map makeStoredAlarm)),
   ("world", .arr (model.world.map makeWorld))]

/-- `make_preferences`; null when a count is over its limit. -/
def makePreferences (model : Model) : Json :=
  if model.alarms.length > alarmLimit ∨ model.world.length > worldLimit then .null
  else .obj (preferencesMembers model)

def preferencesEncode (model : Model) (capacity : ℕ) : Except Status (List UInt8) :=
  match init model.wallUtc model.monotonicMs with
  | none => .error .invalid
  | some checked =>
    match readPreferences (makePreferences model) checked with
    | none => .error .invalid
    | some _ => writeObject (makePreferences model) capacity

def preferencesDecode (tokener : Tokener) (text : List UInt8) (model : Model) : Option Model := do
  let decoded ← init model.wallUtc model.monotonicMs
  let object ← parseObject tokener text
  readPreferences object decoded

/-! ### Snapshots -/

def statuses : List Status :=
  [.ok, .invalid, .notFound, .full, .activeEvent, .staleEvent, .noEvent, .wrongState,
    .timeBackward, .exhausted, .storageError]

def storageStates : List StorageState := [.unpublished, .publishedUnsynced, .durable]

/-- The response rules: an error code unless durable, and only an accepted
request, or one that could not be stored, is applied. -/
def resultValid (result : Result) : Bool :=
  (if result.storageState = .durable then result.storageError = 0 else result.storageError ≠ 0) ∧
    (if result.status = .ok then result.applied
    else result.status = .storageError ∨ !result.applied)

def readResult (object : Json) : Option Result := do
  let status ← statuses.find? fun status => literalValue object "status" (statusName status)
  let applied ← booleanValue object "applied"
  let error ← unsignedValue object "error" (2 ^ 31 - 1)
  let state ← storageStates.find? fun state => literalValue object "storage" (storageName state)
  let result : Result := ⟨status, applied, state, error⟩
  if resultValid result then some result else none

def readSnapshot (object : Json) : Option (Model × Result × ℕ) := do
  if shape object 7 ∧ literalValue object "op" "snapshot" then
    let result ← readResult object
    let serial ← unsignedValue object "serial" (maxVal 64)
    let data ← objectValue object "model"
    let model ← readModel data
    some (model, result, serial)
  else none

def makeSnapshot (model : Model) (result : Result) (serial : ℕ) : Json :=
  .obj
    [("op", .str (ascii "snapshot")),
     ("status", .str (ascii (statusName result.status))),
     ("applied", .bool result.applied),
     ("storage", .str (ascii (storageName result.storageState))),
     ("error", .int result.storageError),
     ("serial", .int serial),
     ("model", makeModel model)]

def snapshotEncode (model : Model) (result : Result) (serial capacity : ℕ) :
    Except Status (List UInt8) :=
  match readSnapshot (makeSnapshot model result serial) with
  | none => .error .invalid
  | some _ => writeObject (makeSnapshot model result serial) capacity

def snapshotDecode (tokener : Tokener) (text : List UInt8) : Option (Model × Result × ℕ) :=
  (parseObject tokener text).bind readSnapshot

end Clock
