/-
The clock owner's model (`clock-model.c`): alarms, the ringing event and its
queue, the timer, the stopwatch and the world clock.

Wall times are integers, `uint32_t`/`uint64_t` fields are natural numbers that
wrap where the source's do.  An array with a count is the list of its entries;
the source clears every entry past the count.  A `char` array is the list of
its bytes up to the trailing zeros.  All time is injected, so every operation
is a function of the model, and a pointer argument is never null.
-/
import Fplinux.Lib.Word
import Fplinux.Utf8

namespace Clock

/-! ### Limits and enumerations -/

def alarmLimit : ℕ := 8
def worldLimit : ℕ := 8
def worldMinOffsetMinutes : ℤ := -720
def worldMaxOffsetMinutes : ℤ := 840
def worldStepMinutes : ℤ := 15
def queueLimit : ℕ := 8
def missedLimit : ℕ := 8
def lapLimit : ℕ := 20
def textBytes : ℕ := 128
def textCharacters : ℕ := 32
def timerMaxSeconds : ℕ := 359999
def ringTimeoutMs : ℕ := 60000
def alarmGraceSeconds : ℤ := 60
/-- 1980-01-01 00:00:00 UTC. -/
def wallMin : ℤ := 315532800
/-- 2099-12-31 23:59:59 UTC. -/
def wallMax : ℤ := 4102444799
def secondsPerDay : ℤ := 86400

inductive Status
  | ok | invalid | notFound | full | activeEvent | staleEvent | noEvent | wrongState
  | timeBackward | exhausted | storageError
  deriving DecidableEq, Repr

inductive Schedule
  | once | weekly
  deriving DecidableEq, Repr

inductive View
  | digital | analog
  deriving DecidableEq, Repr

inductive EventKind
  | none | alarm | timer
  deriving DecidableEq, Repr

inductive MissedReason
  | none | late | queueFull | expired
  deriving DecidableEq, Repr

inductive TimerState
  | stopped | running | paused | finished
  deriving DecidableEq, Repr

/-! ### Records -/

structure AlarmSpec where
  label : List UInt8
  schedule : Schedule
  /-- `once` uses an absolute UTC minute; its weekly fields are zero. -/
  onceUtc : ℤ
  hour : ℕ
  minute : ℕ
  /-- `weekly` uses Monday bit 0 through Sunday bit 6, and `onceUtc` is zero. -/
  repeatDays : ℕ
  enabled : Bool
  deriving DecidableEq, Repr

structure Alarm where
  id : ℕ
  generation : ℕ
  spec : AlarmSpec
  /-- Zero while disabled or with no future occurrence in the supported range. -/
  nextDueUtc : ℤ
  /-- Zero until consumed, otherwise the last scheduled occurrence. -/
  lastDueUtc : ℤ
  snoozed : Bool
  snoozeDeadlineMs : ℕ
  deriving DecidableEq, Repr

structure Event where
  id : ℕ
  kind : EventKind
  /-- Alarm id, or zero for the single timer. -/
  sourceId : ℕ
  generation : ℕ
  label : List UInt8
  dueWallUtc : ℤ
  dueMonotonicMs : ℕ
  ringStartedMs : ℕ
  snoozed : Bool
  missedReason : MissedReason
  deriving DecidableEq, Repr

/-- An event cleared by `memset`. -/
def Event.zero : Event := ⟨0, .none, 0, 0, [], 0, 0, 0, false, .none⟩

structure Timer where
  state : TimerState
  generation : ℕ
  durationSeconds : ℕ
  remainingMs : ℕ
  deadlineMs : ℕ
  deriving DecidableEq, Repr

structure Lap where
  elapsedMs : ℕ
  differenceMs : ℕ
  deriving DecidableEq, Repr

structure Stopwatch where
  running : Bool
  elapsedMs : ℕ
  laps : List Lap
  deriving DecidableEq, Repr

structure WorldEntry where
  id : ℕ
  offsetMinutes : ℤ
  deriving DecidableEq, Repr

structure Model where
  wallUtc : ℤ
  monotonicMs : ℕ
  view : View
  snoozeMinutes : ℕ
  lastAlarmHour : ℕ
  lastAlarmMinute : ℕ
  alarms : List Alarm
  active : Event
  queue : List Event
  missed : List Event
  missedTotal : ℕ
  timer : Timer
  stopwatch : Stopwatch
  world : List WorldEntry
  nextAlarmId : ℕ
  nextWorldId : ℕ
  nextEventId : ℕ
  deriving DecidableEq, Repr

/-! ### Text and schedules -/

def validWall (wallUtc : ℤ) : Bool := wallMin ≤ wallUtc ∧ wallUtc ≤ wallMax

def saturatedAdd (value increment : ℕ) : ℕ := Word.satAdd 64 value increment

/-- The loop of `validateText`.  Every scalar takes a byte, so `fuel` as long as
the text is enough. -/
def validScalars : ℕ → List UInt8 → ℕ → Bool
  | _, [], _ => true
  | 0, _ :: _, _ => false
  | fuel + 1, text@(_ :: _), characters =>
    match Utf8.next text with
    | none => false
    | some (codepoint, rest) =>
      if codepoint < 0x20 ∨ (0x7f ≤ codepoint ∧ codepoint ≤ 0x9f) then false
      else if characters + 1 > textCharacters then false
      else validScalars fuel rest (characters + 1)

/-- Printable, valid UTF-8 of at most 32 scalars and 128 bytes. -/
def validateText (text : List UInt8) (allowEmpty : Bool) : Status :=
  if text.length > textBytes ∨ (allowEmpty = false ∧ text.length = 0) then .invalid
  else if validScalars text.length text 0 then .ok
  else .invalid

/-- Validates the bytes of a `char` array up to its first zero. -/
def validateString (text : List UInt8) (allowEmpty : Bool) : Status :=
  validateText ((text.takeWhile (· ≠ 0)).take (textBytes + 1)) allowEmpty

def validSpec (spec : AlarmSpec) : Bool :=
  if validateString spec.label true ≠ .ok then false
  else
    match spec.schedule with
    | .once =>
      validWall spec.onceUtc ∧ spec.onceUtc % 60 = 0 ∧ spec.hour = 0 ∧ spec.minute = 0 ∧
        spec.repeatDays = 0
    | .weekly =>
      spec.onceUtc = 0 ∧ spec.hour < 24 ∧ spec.minute < 60 ∧ spec.repeatDays ≠ 0 ∧
        spec.repeatDays ≤ 0x7f

/-- The time of a weekly alarm on a day counted from the epoch. -/
def weeklyTime (spec : AlarmSpec) (localDay : ℤ) : ℤ :=
  localDay * secondsPerDay + spec.hour * 3600 + spec.minute * 60

/-- The alarm rings on this day of the week; the epoch was a Thursday. -/
def ringsOn (spec : AlarmSpec) (localDay : ℤ) : Bool :=
  spec.repeatDays.testBit ((localDay + 3) % 7).toNat

/-- `clock_model_alarm_next_due`: the first occurrence strictly after `after`;
`none` is `CLOCK_INVALID`. -/
def alarmNextDue (spec : AlarmSpec) (after : ℤ) : Option ℤ :=
  if !validSpec spec || !validWall after then none
  else
    match spec.schedule with
    | .once => if spec.onceUtc ≤ after then none else some spec.onceUtc
    | .weekly =>
      let day := after / secondsPerDay
      (List.range 8).findSome? fun offset =>
        let localDay := day + offset
        let candidate := weeklyTime spec localDay
        if candidate > after ∧ validWall candidate ∧ ringsOn spec localDay then some candidate
        else none

def rememberAlarmTime (model : Model) (spec : AlarmSpec) : Model :=
  match spec.schedule with
  | .once =>
    let seconds := spec.onceUtc % secondsPerDay
    { model with
      lastAlarmHour := (seconds / 3600).toNat
      lastAlarmMinute := (seconds / 60 % 60).toNat }
  | .weekly => { model with lastAlarmHour := spec.hour, lastAlarmMinute := spec.minute }

/-! ### Events -/

/-- The first entry that satisfies `p`, with its position counted from `index`. -/
def findFrom {α : Type*} (p : α → Bool) : List α → ℕ → Option (ℕ × α)
  | [], _ => none
  | entry :: rest, index => if p entry then some (index, entry) else findFrom p rest (index + 1)

/-- The first alarm of an id and its row. -/
def findAlarm (model : Model) (id : ℕ) : Option (ℕ × Alarm) :=
  findFrom (fun alarm => alarm.id = id) model.alarms 0

def promoteEvent (model : Model) : Model :=
  match model.active.kind, model.queue with
  | .none, event :: queue =>
    { model with active := { event with ringStartedMs := model.monotonicMs }, queue := queue }
  | _, _ => model

def recordMissed (model : Model) (event : Event) (reason : MissedReason) : Model :=
  let missed :=
    if model.missed.length = missedLimit then model.missed.drop 1 else model.missed
  { model with
    missed := missed ++ [{ event with missedReason := reason }]
    missedTotal := saturatedAdd model.missedTotal 1 }

def submitEvent (model : Model) (event : Event) (late : Bool) : Model :=
  if late then recordMissed model event .late
  else if model.active.kind = .none then
    { model with active := { event with ringStartedMs := model.monotonicMs } }
  else if model.queue.length < queueLimit then { model with queue := model.queue ++ [event] }
  else recordMissed model event .queueFull

def activeAlarm (model : Model) (id : ℕ) : Bool :=
  model.active.kind = .alarm ∧ model.active.sourceId = id

def queuedAlarm (model : Model) (id : ℕ) : Bool :=
  model.queue.any fun event => event.kind = .alarm ∧ event.sourceId = id

/-- Clears the active event and promotes the oldest queued one. -/
def clearActive (model : Model) : Model := promoteEvent { model with active := Event.zero }

def cancelEvents (model : Model) (kind : EventKind) (sourceId : ℕ) : Model :=
  let model :=
    { model with
      queue := model.queue.filter fun event => !(event.kind = kind ∧ event.sourceId = sourceId) }
  if model.active.kind = kind ∧ model.active.sourceId = sourceId then clearActive model
  else model

/-- `create_event`; `none` is `CLOCK_EXHAUSTED`.  The timer's event has no alarm. -/
def createEvent (model : Model) (alarm : Option Alarm) (dueWall : ℤ) (dueMonotonic : ℕ)
    (snoozed : Bool) : Option (Event × Model) :=
  if model.nextEventId = 0 then none
  else
    some
      ({ id := model.nextEventId
         kind := if alarm.isSome then .alarm else .timer
         sourceId := (alarm.map (·.id)).getD 0
         generation := (alarm.map (·.generation)).getD model.timer.generation
         label := (alarm.map (·.spec.label)).getD []
         dueWallUtc := dueWall
         dueMonotonicMs := dueMonotonic
         ringStartedMs := 0
         snoozed := snoozed
         missedReason := .none },
       { model with nextEventId := Word.add 64 model.nextEventId 1 })

/-- `clock_model_init`; `none` is `CLOCK_INVALID`. -/
def init (wallUtc : ℤ) (monotonicMs : ℕ) : Option Model :=
  if !validWall wallUtc then none
  else
    some
      { wallUtc := wallUtc
        monotonicMs := monotonicMs
        view := .digital
        snoozeMinutes := 5
        lastAlarmHour := 7
        lastAlarmMinute := 0
        alarms := []
        active := Event.zero
        queue := []
        missed := []
        missedTotal := 0
        timer := ⟨.stopped, 1, 0, 0, 0⟩
        stopwatch := ⟨false, 0, []⟩
        world := []
        nextAlarmId := 1
        nextWorldId := 1
        nextEventId := 1 }

/-! ### The tick -/

/-- An alarm has a scheduled or a snoozed event to create. -/
def ready (model : Model) (snoozed : Bool) (alarm : Alarm) : Bool :=
  if snoozed then alarm.snoozed ∧ alarm.snoozeDeadlineMs ≤ model.monotonicMs
  else alarm.spec.enabled ∧ alarm.nextDueUtc ≤ model.wallUtc

/-- A ready alarm comes before the one selected so far: by due time, then id. -/
def comesBefore (snoozed : Bool) (alarm : Alarm) : Option (ℕ × Alarm) → Bool
  | none => true
  | some (_, due) =>
    if snoozed then
      alarm.snoozeDeadlineMs < due.snoozeDeadlineMs ∨
        (alarm.snoozeDeadlineMs = due.snoozeDeadlineMs ∧ alarm.id < due.id)
    else
      alarm.nextDueUtc < due.nextDueUtc ∨
        (alarm.nextDueUtc = due.nextDueUtc ∧ alarm.id < due.id)

/-- The inner loop of `tick_alarms`, over the rows from `index` on. -/
def selectDue (model : Model) (snoozed : Bool) :
    List Alarm → ℕ → Option (ℕ × Alarm) → Option (ℕ × Alarm)
  | [], _, due => due
  | alarm :: rest, index, due =>
    selectDue model snoozed rest (index + 1)
      (if ready model snoozed alarm ∧ comesBefore snoozed alarm due then some (index, alarm)
      else due)

/-- The alarm after its event was created. -/
def rearm (model : Model) (snoozed : Bool) (due : Alarm) : Alarm :=
  if snoozed then { due with snoozed := false, snoozeDeadlineMs := 0 }
  else
    match due.spec.schedule with
    | .once =>
      { due with
        lastDueUtc := due.nextDueUtc
        spec := { due.spec with enabled := false }
        nextDueUtc := 0 }
    | .weekly =>
      match alarmNextDue due.spec model.wallUtc with
      | some next => { due with lastDueUtc := due.nextDueUtc, nextDueUtc := next }
      | none =>
        { due with
          lastDueUtc := due.nextDueUtc
          nextDueUtc := 0
          spec := { due.spec with enabled := false } }

/-- A due alarm is too late to ring. -/
def isLate (model : Model) (snoozed : Bool) (due : Alarm) : Bool :=
  if snoozed then Word.sub 64 model.monotonicMs due.snoozeDeadlineMs > ringTimeoutMs
  else model.wallUtc - due.nextDueUtc > alarmGraceSeconds

/-- What one round of `tick_alarms` does. -/
inductive Round
  /-- No alarm is due. -/
  | idle
  /-- `create_event` failed. -/
  | exhausted
  /-- The event created for an alarm, as it was, and the model after. -/
  | created (due : Alarm) (event : Event) (model : Model)

def tickAlarm (model : Model) (snoozed : Bool) : Round :=
  match selectDue model snoozed model.alarms 0 none with
  | none => .idle
  | some (index, due) =>
    match createEvent model (some due)
        (if snoozed then model.wallUtc else due.nextDueUtc)
        (if snoozed then due.snoozeDeadlineMs else model.monotonicMs) snoozed with
    | none => .exhausted
    | some (event, model') =>
      .created due event
        (submitEvent { model' with alarms := model'.alarms.set index (rearm model snoozed due) }
          event (isLate model snoozed due))

/-- `tick_alarms`, with the rounds left: each alarm contributes at most one
scheduled and one snoozed event. -/
def tickAlarms (snoozed : Bool) : ℕ → Model → Status × Model
  | 0, model => (.ok, model)
  | rounds + 1, model =>
    match tickAlarm model snoozed with
    | .idle => (.ok, model)
    | .exhausted => (.exhausted, model)
    | .created _ _ model' => tickAlarms snoozed rounds model'

def timerRemaining (model : Model) : ℕ :=
  match model.timer.state with
  | .running =>
    if model.timer.deadlineMs > model.monotonicMs then
      model.timer.deadlineMs - model.monotonicMs
    else 0
  | _ => model.timer.remainingMs

/-- The countdown at the end of a tick. -/
def tickTimer (model : Model) : Status × Model :=
  if model.timer.state = .running then
    let model := { model with timer := { model.timer with remainingMs := timerRemaining model } }
    if model.timer.remainingMs = 0 then
      match createEvent model none model.wallUtc model.timer.deadlineMs false with
      | none => (.exhausted, model)
      | some (event, model) =>
        (.ok, submitEvent { model with timer := { model.timer with state := .finished } } event false)
    else (.ok, model)
  else (.ok, model)

/-- The start of a tick: the new time, the stopwatch, and a ring that is over. -/
def tickClock (model : Model) (wallUtc : ℤ) (monotonicMs : ℕ) : Model :=
  let elapsed := monotonicMs - model.monotonicMs
  let model := { model with wallUtc := wallUtc, monotonicMs := monotonicMs }
  let model :=
    if model.stopwatch.running then
      { model with
        stopwatch :=
          { model.stopwatch with elapsedMs := saturatedAdd model.stopwatch.elapsedMs elapsed } }
    else model
  if model.active.kind ≠ .none ∧
      Word.sub 64 monotonicMs model.active.ringStartedMs ≥ ringTimeoutMs then
    clearActive (recordMissed model model.active .expired)
  else model

def tick (model : Model) (wallUtc : ℤ) (monotonicMs : ℕ) : Status × Model :=
  if !validWall wallUtc then (.invalid, model)
  else if monotonicMs < model.monotonicMs then (.timeBackward, model)
  else
    let model := tickClock model wallUtc monotonicMs
    match tickAlarms false model.alarms.length model with
    | (.ok, model) =>
      match tickAlarms true model.alarms.length model with
      | (.ok, model) => tickTimer model
      | failed => failed
    | failed => failed

/-! ### Settings and alarms -/

def setView (model : Model) (view : View) : Status × Model := (.ok, { model with view := view })

def setSnooze (model : Model) (minutes : ℕ) : Status × Model :=
  if minutes < 1 ∨ minutes > 30 then (.invalid, model)
  else (.ok, { model with snoozeMinutes := minutes })

/-- The occurrence a saved alarm waits for: zero while disabled. -/
def armedDue (spec : AlarmSpec) (after : ℤ) : Option ℤ :=
  if spec.enabled then alarmNextDue spec after else some 0

def alarmAdd (model : Model) (spec : AlarmSpec) : Status × Model :=
  if !validSpec spec then (.invalid, model)
  else
    match armedDue spec model.wallUtc with
    | none => (.invalid, model)
    | some due =>
      if model.alarms.length = alarmLimit then (.full, model)
      else if model.nextAlarmId = 0 then (.exhausted, model)
      else
        let alarm : Alarm :=
          { id := model.nextAlarmId
            generation := 1
            spec := spec
            nextDueUtc := due
            lastDueUtc := 0
            snoozed := false
            snoozeDeadlineMs := 0 }
        (.ok,
          rememberAlarmTime
            { model with
              alarms := model.alarms ++ [alarm]
              nextAlarmId := Word.add 32 model.nextAlarmId 1 } spec)

def alarmEdit (model : Model) (id : ℕ) (spec : AlarmSpec) (cancelActive : Bool) :
    Status × Model :=
  if !validSpec spec then (.invalid, model)
  else
    match findAlarm model id with
    | none => (.notFound, model)
    | some (index, alarm) =>
      if activeAlarm model id ∧ !cancelActive then (.activeEvent, model)
      else if alarm.generation = Word.maxVal 32 then (.exhausted, model)
      else
        let after :=
          if model.wallUtc > alarm.lastDueUtc then model.wallUtc else alarm.lastDueUtc
        match armedDue spec after with
        | none => (.invalid, model)
        | some due =>
          let alarm :=
            { alarm with
              spec := spec
              generation := alarm.generation + 1
              snoozed := false
              snoozeDeadlineMs := 0
              nextDueUtc := due }
          let model := { model with alarms := model.alarms.set index alarm }
          (.ok, cancelEvents (rememberAlarmTime model spec) .alarm id)

def alarmEnable (model : Model) (id : ℕ) (enabled cancelActive : Bool) : Status × Model :=
  match findAlarm model id with
  | none => (.notFound, model)
  | some (_, alarm) =>
    if !enabled ∧ activeAlarm model id ∧ !cancelActive then (.activeEvent, model)
    else if alarm.spec.enabled = enabled ∧
        (enabled ∨ (!alarm.snoozed ∧ !activeAlarm model id ∧ !queuedAlarm model id)) then
      (.ok, model)
    else alarmEdit model id { alarm.spec with enabled := enabled } cancelActive

def alarmDelete (model : Model) (id : ℕ) (cancelActive : Bool) : Status × Model :=
  match findAlarm model id with
  | none => (.notFound, model)
  | some (index, _) =>
    if activeAlarm model id ∧ !cancelActive then (.activeEvent, model)
    else
      let model := cancelEvents model .alarm id
      (.ok, { model with alarms := model.alarms.eraseIdx index })

def alarmCancelSnooze (model : Model) (id : ℕ) : Status × Model :=
  match findAlarm model id with
  | none => (.notFound, model)
  | some (index, alarm) =>
    (.ok,
      { model with
        alarms := model.alarms.set index { alarm with snoozed := false, snoozeDeadlineMs := 0 } })

def dismiss (model : Model) (eventId : ℕ) : Status × Model :=
  if model.active.kind = .none then (.noEvent, model)
  else if model.active.id ≠ eventId then (.staleEvent, model)
  else (.ok, clearActive model)

def snooze (model : Model) (eventId minutes : ℕ) : Status × Model :=
  let minutes := if minutes = 0 then model.snoozeMinutes else minutes
  if minutes < 1 ∨ minutes > 30 then (.invalid, model)
  else if model.active.kind = .none then (.noEvent, model)
  else if model.active.id ≠ eventId then (.staleEvent, model)
  else if model.active.kind ≠ .alarm then (.wrongState, model)
  else
    match findAlarm model model.active.sourceId with
    | none => (.staleEvent, model)
    | some (index, alarm) =>
      if alarm.generation ≠ model.active.generation then (.staleEvent, model)
      else
        let duration := minutes * 60000
        if duration > Word.maxVal 64 - model.monotonicMs then (.exhausted, model)
        else
          let alarm :=
            { alarm with snoozed := true, snoozeDeadlineMs := model.monotonicMs + duration }
          dismiss { model with alarms := model.alarms.set index alarm } eventId

def clearMissed (model : Model) : Model := { model with missed := [], missedTotal := 0 }

/-! ### Timer and stopwatch -/

def timerSet (model : Model) (seconds : ℕ) : Status × Model :=
  if seconds > timerMaxSeconds then (.invalid, model)
  else if model.timer.generation = Word.maxVal 32 then (.exhausted, model)
  else
    let timer : Timer :=
      { state := .stopped
        generation := model.timer.generation + 1
        durationSeconds := seconds
        remainingMs := seconds * 1000
        deadlineMs := 0 }
    (.ok, cancelEvents { model with timer := timer } .timer 0)

/-- Starts the countdown from the remaining time; the end of `timerStart` and
of `timerResume`. -/
def timerRun (model : Model) : Status × Model :=
  if model.timer.remainingMs > Word.maxVal 64 - model.monotonicMs then (.exhausted, model)
  else
    (.ok,
      { model with
        timer :=
          { model.timer with
            deadlineMs := model.monotonicMs + model.timer.remainingMs
            state := .running } })

def timerStart (model : Model) : Status × Model :=
  if model.timer.durationSeconds = 0 then (.invalid, model)
  else if model.timer.state ≠ .stopped then (.wrongState, model)
  else timerRun model

def timerPause (model : Model) : Status × Model :=
  if model.timer.state ≠ .running then (.wrongState, model)
  else
    (.ok,
      { model with
        timer :=
          { model.timer with
            remainingMs := timerRemaining model
            deadlineMs := 0
            state := .paused } })

def timerResume (model : Model) : Status × Model :=
  if model.timer.state ≠ .paused then (.wrongState, model) else timerRun model

def timerStop (model : Model) : Status × Model := timerSet model model.timer.durationSeconds

def timerRestart (model : Model) : Status × Model :=
  if model.timer.durationSeconds = 0 then (.invalid, model)
  else
    let duration := model.timer.durationSeconds * 1000
    if duration > Word.maxVal 64 - model.monotonicMs then (.exhausted, model)
    else
      match timerStop model with
      | (.ok, model) => timerStart model
      | failed => failed

def stopwatchStart (model : Model) : Status × Model :=
  if model.stopwatch.running then (.wrongState, model)
  else (.ok, { model with stopwatch := { model.stopwatch with running := true } })

def stopwatchPause (model : Model) : Status × Model :=
  if !model.stopwatch.running then (.wrongState, model)
  else (.ok, { model with stopwatch := { model.stopwatch with running := false } })

def stopwatchReset (model : Model) : Status × Model :=
  (.ok, { model with stopwatch := ⟨false, 0, []⟩ })

def stopwatchLap (model : Model) : Status × Model :=
  if !model.stopwatch.running then (.wrongState, model)
  else if model.stopwatch.laps.length = lapLimit then (.full, model)
  else
    let previous := (model.stopwatch.laps.getLast?.map (·.elapsedMs)).getD 0
    let lap : Lap :=
      { elapsedMs := model.stopwatch.elapsedMs
        differenceMs := Word.sub 64 model.stopwatch.elapsedMs previous }
    (.ok, { model with stopwatch := { model.stopwatch with laps := model.stopwatch.laps ++ [lap] } })

/-! ### World clock -/

def worldOffsetValid (offsetMinutes : ℤ) : Bool :=
  worldMinOffsetMinutes ≤ offsetMinutes ∧ offsetMinutes ≤ worldMaxOffsetMinutes ∧
    offsetMinutes % worldStepMinutes = 0

def worldAdd (model : Model) (offsetMinutes : ℤ) : Status × Model :=
  if !worldOffsetValid offsetMinutes then (.invalid, model)
  else if model.world.any (fun entry => entry.offsetMinutes = offsetMinutes) then (.invalid, model)
  else if model.world.length = worldLimit then (.full, model)
  else if model.nextWorldId = 0 then (.exhausted, model)
  else
    (.ok,
      { model with
        world := model.world ++ [⟨model.nextWorldId, offsetMinutes⟩]
        nextWorldId := Word.add 32 model.nextWorldId 1 })

def worldEdit (model : Model) (id : ℕ) (offsetMinutes : ℤ) : Status × Model :=
  if !worldOffsetValid offsetMinutes then (.invalid, model)
  else
    match findFrom (fun entry => entry.id = id) model.world 0 with
    | none => (.notFound, model)
    | some (index, entry) =>
      if model.world.any (fun other => other.id ≠ id ∧ other.offsetMinutes = offsetMinutes) then
        (.invalid, model)
      else
        (.ok,
          { model with world := model.world.set index { entry with offsetMinutes := offsetMinutes } })

def worldDelete (model : Model) (id : ℕ) : Status × Model :=
  match findFrom (fun entry : WorldEntry => entry.id = id) model.world 0 with
  | none => (.notFound, model)
  | some (index, _) => (.ok, { model with world := model.world.eraseIdx index })

def statusName : Status → String
  | .ok => "ok"
  | .invalid => "invalid"
  | .notFound => "not-found"
  | .full => "full"
  | .activeEvent => "active-event"
  | .staleEvent => "stale-event"
  | .noEvent => "no-event"
  | .wrongState => "wrong-state"
  | .timeBackward => "time-backward"
  | .exhausted => "exhausted"
  | .storageError => "storage-error"

/-! ### Checks -/

/-- An operation that fails a check keeps what held of the model. -/
theorem kept_check {P : Model → Prop} {model : Model} {c : Prop} [Decidable c] {status : Status}
    {next : Status × Model} (h : P model) (hnext : ¬ c → P next.2) :
    P (if c then (status, model) else next).2 := by
  split
  · exact h
  · exact hnext ‹_›

end Clock
