/-
Requests to the clock owner (`clock-wire.c`).

A request is checked by building its JSON object and reading it back: only the
fields of its operation are encoded, and the reader enforces the shape and the
bounds.  `none` stands for `false` or a null object in the source's readers.

The reader of a string member hands out the bytes json-c stored; names of
members are ASCII.
-/
import Fplinux.Lib.Json
import Fplinux.Clock.Model

namespace Clock

open Bytes (ascii)

/-! ### Members of an object -/

/-- `json_object_object_get_ex`. -/
def field (object : Json) (name : String) : Option Json :=
  match object with
  | .obj members => members.lookup name
  | _ => none

/-- The object has this many members. -/
def shape (object : Json) (members : ℕ) : Bool :=
  match object with
  | .obj entries => entries.length = members
  | _ => false

def unsignedValue (object : Json) (name : String) (maximum : ℕ) : Option ℕ :=
  match field object name with
  | some (.int number) =>
    if number < 0 then none else if number.toNat ≤ maximum then some number.toNat else none
  | _ => none

def signedValue (object : Json) (name : String) (minimum maximum : ℤ) : Option ℤ :=
  match field object name with
  | some (.int number) =>
    if number > 2 ^ 63 - 1 then none
    else if minimum ≤ number ∧ number ≤ maximum then some number
    else none
  | _ => none

def booleanValue (object : Json) (name : String) : Option Bool :=
  match field object name with
  | some (.bool value) => some value
  | _ => none

def offsetValue (object : Json) : Option ℤ := do
  let value ← signedValue object "offset_minutes" (-2 ^ 31) (2 ^ 31 - 1)
  if worldOffsetValid value then some value else none

def textValue (object : Json) (name : String) (allowEmpty : Bool) : Option (List UInt8) :=
  match field object name with
  | some (.str bytes) => if validateText bytes allowEmpty = .ok then some bytes else none
  | _ => none

def literalValue (object : Json) (name literal : String) : Bool :=
  match field object name with
  | some (.str bytes) => bytes = ascii literal
  | _ => false

/-- The member `name` as an object. -/
def objectValue (object : Json) (name : String) : Option Json :=
  match field object name with
  | some (.obj members) => some (.obj members)
  | _ => none

/-- `add_text`: null when the array has no zero byte. -/
def text (value : List UInt8) : Json :=
  let bytes := value.takeWhile (· ≠ 0)
  if bytes.length ≤ textBytes then .str bytes else .null

/-! ### Alarm specifications -/

def Schedule.code : Schedule → ℕ
  | .once => 0
  | .weekly => 1

def Schedule.ofCode : ℕ → Schedule
  | 0 => .once
  | _ => .weekly

def View.code : View → ℕ
  | .digital => 0
  | .analog => 1

def View.ofCode : ℕ → View
  | 0 => .digital
  | _ => .analog

def readAlarmSpec (object : Json) : Option AlarmSpec := do
  if shape object 7 then
    let label ← textValue object "label" true
    let schedule ← unsignedValue object "schedule" 1
    let onceUtc ← signedValue object "once_utc" 0 wallMax
    let hour ← unsignedValue object "hour" 23
    let minute ← unsignedValue object "minute" 59
    let days ← unsignedValue object "repeat_days" 127
    let enabled ← booleanValue object "enabled"
    let spec : AlarmSpec := ⟨label, Schedule.ofCode schedule, onceUtc, hour, minute, days, enabled⟩
    match spec.schedule with
    | .once =>
      if wallMin ≤ onceUtc ∧ onceUtc % 60 = 0 ∧ hour = 0 ∧ minute = 0 ∧ days = 0 then some spec
      else none
    | .weekly => if onceUtc = 0 ∧ days ≠ 0 then some spec else none
  else none

def makeAlarmSpec (spec : AlarmSpec) : Json :=
  .obj
    [("label", text spec.label),
     ("schedule", .int spec.schedule.code),
     ("once_utc", .int spec.onceUtc),
     ("hour", .int spec.hour),
     ("minute", .int spec.minute),
     ("repeat_days", .int spec.repeatDays),
     ("enabled", .bool spec.enabled)]

/-! ### Requests -/

inductive RequestOp
  | snapshot | alarmAdd | alarmEdit | alarmEnable | alarmDelete | dismiss | snooze | timerSet
  | timerStart | timerPause | timerResume | timerStop | timerRestart | stopwatchStart
  | stopwatchPause | stopwatchReset | stopwatchLap | worldAdd | worldEdit | worldDelete | setView
  | setSnooze | clearMissed | save | alarmCancelSnooze
  deriving DecidableEq, Repr

/-- `request_names`. -/
def requestName : RequestOp → String
  | .snapshot => "snapshot"
  | .alarmAdd => "alarm-add"
  | .alarmEdit => "alarm-edit"
  | .alarmEnable => "alarm-enable"
  | .alarmDelete => "alarm-delete"
  | .dismiss => "dismiss"
  | .snooze => "snooze"
  | .timerSet => "timer-set"
  | .timerStart => "timer-start"
  | .timerPause => "timer-pause"
  | .timerResume => "timer-resume"
  | .timerStop => "timer-stop"
  | .timerRestart => "timer-restart"
  | .stopwatchStart => "stopwatch-start"
  | .stopwatchPause => "stopwatch-pause"
  | .stopwatchReset => "stopwatch-reset"
  | .stopwatchLap => "stopwatch-lap"
  | .worldAdd => "world-add"
  | .worldEdit => "world-edit"
  | .worldDelete => "world-delete"
  | .setView => "set-view"
  | .setSnooze => "set-snooze"
  | .clearMissed => "clear-missed"
  | .save => "save"
  | .alarmCancelSnooze => "alarm-cancel-snooze"

/-- The operations in the order of `request_names`. -/
def requestOps : List RequestOp :=
  [.snapshot, .alarmAdd, .alarmEdit, .alarmEnable, .alarmDelete, .dismiss, .snooze, .timerSet,
    .timerStart, .timerPause, .timerResume, .timerStop, .timerRestart, .stopwatchStart,
    .stopwatchPause, .stopwatchReset, .stopwatchLap, .worldAdd, .worldEdit, .worldDelete, .setView,
    .setSnooze, .clearMissed, .save, .alarmCancelSnooze]

structure Request where
  op : RequestOp
  alarm : AlarmSpec
  id : ℕ
  eventId : ℕ
  cancelActive : Bool
  enabled : Bool
  seconds : ℕ
  minutes : ℕ
  offsetMinutes : ℤ
  view : View
  deriving DecidableEq, Repr

/-- A request cleared by its initializer. -/
def Request.zero : Request :=
  ⟨.snapshot, ⟨[], .once, 0, 0, 0, 0, false⟩, 0, 0, false, false, 0, 0, 0, .digital⟩

/-- Operations that name a row by its id. -/
def RequestOp.hasId : RequestOp → Bool
  | .alarmEdit | .alarmEnable | .alarmDelete | .alarmCancelSnooze | .worldEdit | .worldDelete => true
  | _ => false

/-- Operations that say whether to cancel a ringing alarm. -/
def RequestOp.hasCancel : RequestOp → Bool
  | .alarmEdit | .alarmEnable | .alarmDelete => true
  | _ => false

/-- The fields an operation has of its own, in order. -/
def makeArguments (request : Request) : List (String × Json) :=
  match request.op with
  | .alarmAdd | .alarmEdit => [("alarm", makeAlarmSpec request.alarm)]
  | .alarmEnable => [("enabled", .bool request.enabled)]
  | .dismiss => [("event_id", .int request.eventId)]
  | .snooze => [("event_id", .int request.eventId), ("minutes", .int request.minutes)]
  | .timerSet => [("seconds", .int request.seconds)]
  | .worldAdd | .worldEdit => [("offset_minutes", .int request.offsetMinutes)]
  | .setView => [("view", .int request.view.code)]
  | .setSnooze => [("minutes", .int request.minutes)]
  | _ => []

def makeRequest (request : Request) : Json :=
  .obj
    (("op", .str (ascii (requestName request.op))) ::
      (if request.op.hasId then [("id", .int request.id)] else []) ++
      (if request.op.hasCancel then [("cancel_active", .bool request.cancelActive)] else []) ++
      makeArguments request)

/-- Reads the fields of its own, with their number. -/
def readArguments (object : Json) (request : Request) : Option (Request × ℕ) :=
  match request.op with
  | .alarmAdd | .alarmEdit => do
    let spec ← objectValue object "alarm"
    let alarm ← readAlarmSpec spec
    some ({ request with alarm := alarm }, 1)
  | .alarmEnable => do
    let enabled ← booleanValue object "enabled"
    some ({ request with enabled := enabled }, 1)
  | .dismiss => do
    let eventId ← unsignedValue object "event_id" (Word.maxVal 64)
    if eventId = 0 then none else some ({ request with eventId := eventId }, 1)
  | .snooze => do
    let eventId ← unsignedValue object "event_id" (Word.maxVal 64)
    if eventId = 0 then none
    else
      let minutes ← unsignedValue object "minutes" 30
      some ({ request with eventId := eventId, minutes := minutes }, 2)
  | .timerSet => do
    let seconds ← unsignedValue object "seconds" timerMaxSeconds
    some ({ request with seconds := seconds }, 1)
  | .worldAdd | .worldEdit => do
    let offsetMinutes ← offsetValue object
    some ({ request with offsetMinutes := offsetMinutes }, 1)
  | .setView => do
    let view ← unsignedValue object "view" 1
    some ({ request with view := View.ofCode view }, 1)
  | .setSnooze => do
    let minutes ← unsignedValue object "minutes" 30
    if minutes = 0 then none else some ({ request with minutes := minutes }, 1)
  | _ => some (request, 0)

/-- Reads the id of a row, with the number of fields read. -/
def readId (object : Json) (request : Request) : Option (Request × ℕ) :=
  if request.op.hasId then do
    let id ← unsignedValue object "id" (Word.maxVal 32)
    if id = 0 then none else some ({ request with id := id }, 1)
  else some (request, 0)

def readCancel (object : Json) (request : Request) : Option (Request × ℕ) :=
  if request.op.hasCancel then do
    let cancelActive ← booleanValue object "cancel_active"
    some ({ request with cancelActive := cancelActive }, 1)
  else some (request, 0)

def readRequest (object : Json) : Option Request := do
  let op ← requestOps.find? fun op => literalValue object "op" (requestName op)
  let (request, ids) ← readId object { Request.zero with op := op }
  let (request, cancels) ← readCancel object request
  let (request, arguments) ← readArguments object request
  if shape object (1 + ids + cancels + arguments) then some request else none

/-- A new enabled one-time alarm must lie in the future. -/
def onceElapsed (model : Model) (request : Request) : Bool :=
  (request.op = .alarmAdd ∨ request.op = .alarmEdit) ∧ request.alarm.enabled ∧
    request.alarm.schedule = .once ∧ alarmNextDue request.alarm model.wallUtc = none

/-- The operation of a checked request. -/
def applyChecked (model : Model) (checked : Request) : Status × Model :=
  match checked.op with
  | .snapshot | .save => (.ok, model)
  | .alarmAdd => alarmAdd model checked.alarm
  | .alarmEdit => alarmEdit model checked.id checked.alarm checked.cancelActive
  | .alarmEnable => alarmEnable model checked.id checked.enabled checked.cancelActive
  | .alarmDelete => alarmDelete model checked.id checked.cancelActive
  | .alarmCancelSnooze => alarmCancelSnooze model checked.id
  | .dismiss => dismiss model checked.eventId
  | .snooze => snooze model checked.eventId checked.minutes
  | .timerSet => timerSet model checked.seconds
  | .timerStart => timerStart model
  | .timerPause => timerPause model
  | .timerResume => timerResume model
  | .timerStop => timerStop model
  | .timerRestart => timerRestart model
  | .stopwatchStart => stopwatchStart model
  | .stopwatchPause => stopwatchPause model
  | .stopwatchReset => stopwatchReset model
  | .stopwatchLap => stopwatchLap model
  | .worldAdd => worldAdd model checked.offsetMinutes
  | .worldEdit => worldEdit model checked.id checked.offsetMinutes
  | .worldDelete => worldDelete model checked.id
  | .setView => setView model checked.view
  | .setSnooze => setSnooze model checked.minutes
  | .clearMissed => (.ok, clearMissed model)

def requestApply (model : Model) (request : Request) : Status × Model :=
  match readRequest (makeRequest request) with
  | none => (.invalid, model)
  | some checked => if onceElapsed model checked then (.invalid, model) else applyChecked model checked

end Clock
