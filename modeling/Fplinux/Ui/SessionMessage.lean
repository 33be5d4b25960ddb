/-
Messages of the session protocol and what a peer sends (`fplinux-ui-session.c`).

Each packet is one JSON object, with at most one descriptor attached.  A message
is a record with a field for everything any type of message may carry; `value`
says which members the packet of a message has, and `sendable` is what
`fplinux_ui_session_send` checks first.

Character arrays are the bytes before their terminator, and arrays with a count
are lists.  The checks that an enumeration is in range have no counterpart here.
-/
import Fplinux.Clock.Codec
import Fplinux.Session.Power

namespace UiSession

open Bytes (byte ascii)
open Clock (StorageState storageName)
open Power (Display)

/-! ### Bounds -/

def idBytes : ℕ := 128
def textBytes : ℕ := 128
def clockBytes : ℕ := 16384
def packetBytes : ℕ := 2 * clockBytes + 4096
def localeBytes : ℕ := 8
def nameBytes : ℕ := 32
def pathBytes : ℕ := 4096
def labelBytes : ℕ := 96
def frameMaxWidth : ℕ := 320
def frameMaxHeight : ℕ := 320
def frameMaxPixels : ℕ := 240 * 320
def taskMax : ℕ := 4
def patternMax : ℕ := 64
def documentChoiceMax : ℕ := 32
def volumeMax : ℕ := 4
def vibrationPulseMinMs : ℕ := 50
def vibrationPulseMaxMs : ℕ := 3000
def vibrationPauseMinMs : ℕ := 100
def vibrationPauseMaxMs : ℕ := 60000

/-! ### Enumerations and their names -/

inductive MessageType
  | hello | ready | launch | title | softkeys | home | exit | select | config | active | close
  | error | visibility | keepScreenOn | setting | dismiss | mode | activeAck | cancel | busy
  | lifecycle | tasks | activate | closeTask | redrawAck | clock | vibrate | prepareClose
  | closeReply | closeAck | activation | activationAck | openFile | documentChoices
  | documentChoice | document | documentResult | storageRequest | storageResult
  deriving DecidableEq, Repr

/-- `message_names`. -/
def MessageType.name : MessageType → String
  | .hello => "HELLO"
  | .ready => "READY"
  | .launch => "LAUNCH"
  | .title => "TITLE"
  | .softkeys => "SOFTKEYS"
  | .home => "HOME"
  | .exit => "EXIT"
  | .select => "SELECT"
  | .config => "CONFIG"
  | .active => "ACTIVE"
  | .close => "CLOSE"
  | .error => "ERROR"
  | .visibility => "VISIBILITY"
  | .keepScreenOn => "KEEP_SCREEN_ON"
  | .setting => "SETTING"
  | .dismiss => "DISMISS"
  | .mode => "MODE"
  | .activeAck => "ACTIVE_ACK"
  | .cancel => "CANCEL"
  | .busy => "BUSY"
  | .lifecycle => "LIFECYCLE"
  | .tasks => "TASKS"
  | .activate => "ACTIVATE"
  | .closeTask => "CLOSE_TASK"
  | .redrawAck => "REDRAW_ACK"
  | .clock => "clock"
  | .vibrate => "VIBRATE"
  | .prepareClose => "PREPARE_CLOSE"
  | .closeReply => "CLOSE_REPLY"
  | .closeAck => "CLOSE_ACK"
  | .activation => "ACTIVATION"
  | .activationAck => "ACTIVATION_ACK"
  | .openFile => "OPEN_FILE"
  | .documentChoices => "DOCUMENT_CHOICES"
  | .documentChoice => "DOCUMENT_CHOICE"
  | .document => "DOCUMENT"
  | .documentResult => "DOCUMENT_RESULT"
  | .storageRequest => "STORAGE_REQUEST"
  | .storageResult => "STORAGE_RESULT"

def messageTypes : List MessageType :=
  [.hello, .ready, .launch, .title, .softkeys, .home, .exit, .select, .config, .active, .close,
   .error, .visibility, .keepScreenOn, .setting, .dismiss, .mode, .activeAck, .cancel, .busy,
   .lifecycle, .tasks, .activate, .closeTask, .redrawAck, .clock, .vibrate, .prepareClose,
   .closeReply, .closeAck, .activation, .activationAck, .openFile, .documentChoices,
   .documentChoice, .document, .documentResult, .storageRequest, .storageResult]

inductive VolumeOperation
  | refresh | connect | eject
  deriving DecidableEq, Repr

/-- `volume_operation_names`. -/
def VolumeOperation.name : VolumeOperation → String
  | .refresh => "refresh"
  | .connect => "connect"
  | .eject => "eject"

def volumeOperations : List VolumeOperation := [.refresh, .connect, .eject]

inductive DocumentStatus
  | accepted | wait | cancelled | error | restartRequired
  deriving DecidableEq, Repr

/-- `document_status_names`. -/
def DocumentStatus.name : DocumentStatus → String
  | .accepted => "accepted"
  | .wait => "wait"
  | .cancelled => "cancelled"
  | .error => "error"
  | .restartRequired => "restart-required"

def documentStatuses : List DocumentStatus :=
  [.accepted, .wait, .cancelled, .error, .restartRequired]

inductive Activation
  | open | resume
  deriving DecidableEq, Repr

/-- `activation_names`. -/
def Activation.name : Activation → String
  | .open => "open"
  | .resume => "resume"

def activations : List Activation := [.open, .resume]

inductive Lifecycle
  | foreground | background | closing
  deriving DecidableEq, Repr

/-- `lifecycle_names`. -/
def Lifecycle.name : Lifecycle → String
  | .foreground => "foreground"
  | .background => "background"
  | .closing => "closing"

def lifecycles : List Lifecycle := [.foreground, .background, .closing]

inductive Mode
  | launcher | integrated | fullscreen
  deriving DecidableEq, Repr

/-- `mode_names`. -/
def Mode.name : Mode → String
  | .launcher => "launcher"
  | .integrated => "integrated"
  | .fullscreen => "fullscreen"

def modes : List Mode := [.launcher, .integrated, .fullscreen]

/-- `display_names`. -/
def displayName : Display → String
  | .on => "on"
  | .dim => "dim"
  | .off => "off"

def displays : List Display := [.on, .dim, .off]

inductive Theme
  | light | dark
  deriving DecidableEq, Repr

/-- `theme_names`. -/
def Theme.name : Theme → String
  | .light => "light"
  | .dark => "dark"

def themes : List Theme := [.light, .dark]

inductive VolumeState
  | available | mounted | unsupported | isProtected
  deriving DecidableEq, Repr

def VolumeState.code : VolumeState → ℤ
  | .available => 0
  | .mounted => 1
  | .unsupported => 2
  | .isProtected => 3

def volumeStates : List VolumeState := [.available, .mounted, .unsupported, .isProtected]

inductive VolumeProtection
  | unprotected | systemRoot | swap | boot | otherMount
  deriving DecidableEq, Repr

def VolumeProtection.code : VolumeProtection → ℤ
  | .unprotected => 0
  | .systemRoot => 1
  | .swap => 2
  | .boot => 3
  | .otherMount => 4

def volumeProtections : List VolumeProtection :=
  [.unprotected, .systemRoot, .swap, .boot, .otherMount]

/-! ### Messages -/

structure DocumentChoice where
  appId : List UInt8
  title : List UInt8
  icon : List UInt8
  deriving DecidableEq, Repr

structure Task where
  appId : List UInt8
  title : List UInt8
  lifecycle : Lifecycle
  token : ℕ
  deriving DecidableEq, Repr

structure ClockPresentation where
  analog : Bool := false
  alarmUtc : ℤ := 0
  snoozeDeadlineMs : ℕ := 0
  alarmLabel : List UInt8 := []
  timerDeadlineMs : ℕ := 0
  timerRemainingMs : ℕ := 0
  missedTotal : ℕ := 0
  deriving DecidableEq, Repr

structure Volume where
  id : ℕ
  mountId : ℕ
  state : VolumeState
  protection : VolumeProtection
  readOnly : Bool
  label : List UInt8
  path : List UInt8
  deriving DecidableEq, Repr

/-- `struct fplinux_volume_result`, with its snapshot. -/
structure VolumeResult where
  requestId : ℕ := 0
  error : ℤ := 0
  homePersistent : Bool := false
  volumes : List Volume := []
  deriving DecidableEq, Repr

/-- `struct fplinux_ui_session_message`; the defaults are its zeroed fields. -/
structure Message where
  type : MessageType := .hello
  mode : Mode := .launcher
  appId : List UInt8 := []
  activeId : List UInt8 := []
  selectedId : List UInt8 := []
  title : List UInt8 := []
  left : List UInt8 := []
  centre : List UInt8 := []
  right : List UInt8 := []
  reason : List UInt8 := []
  width : ℤ := 0
  height : ℤ := 0
  screenWidth : ℤ := 0
  screenHeight : ℤ := 0
  theme : Theme := .light
  display : Display := .on
  locked : Bool := false
  visible : Bool := false
  enabled : Bool := false
  locale : List UInt8 := []
  inputLocale : List UInt8 := []
  name : List UInt8 := []
  value : List UInt8 := []
  battery : ℤ := 0
  charging : Bool := false
  notice : List UInt8 := []
  serial : ℕ := 0
  hasFrame : Bool := false
  frameFd : ℤ := 0
  lifecycle : Lifecycle := .foreground
  token : ℕ := 0
  hasTasks : Bool := false
  tasks : List Task := []
  clockData : List UInt8 := []
  clockPresentation : ClockPresentation := {}
  audio : Bool := false
  vibration : Bool := false
  pattern : List ℕ := []
  repeats : Bool := false
  applied : Bool := false
  storageState : StorageState := .unpublished
  storageError : ℤ := 0
  activation : Activation := .open
  path : List UInt8 := []
  documentStatus : DocumentStatus := .accepted
  documentError : ℤ := 0
  documentChoices : List DocumentChoice := []
  volumeOperation : VolumeOperation := .refresh
  volumeId : ℕ := 0
  volumeResult : VolumeResult := {}

/-! ### Checks both peers make -/

/-- No byte is a control character. -/
def controlFree (bytes : List UInt8) : Bool := bytes.all fun b => 0x20 ≤ b.toNat && b.toNat != 0x7f

def clockDataValid (text : List UInt8) : Bool := text.length < clockBytes && controlFree text

def clockPresentationValid (message : Message) : Bool :=
  let clock := message.clockPresentation
  !(textBytes < clock.alarmLabel.length || clock.alarmUtc < 0 ||
      (clock.alarmUtc != 0 && clock.snoozeDeadlineMs != 0) ||
      (clock.timerDeadlineMs != 0 && clock.timerRemainingMs != 0) ||
      (clock.alarmLabel != [] && clock.alarmUtc == 0 && clock.snoozeDeadlineMs == 0)) &&
    controlFree clock.alarmLabel &&
    (message.type == .active || clock == {})

def isIdByte (b : UInt8) : Bool :=
  (byte 'a' ≤ b && b ≤ byte 'z') || (byte 'A' ≤ b && b ≤ byte 'Z') ||
    (byte '0' ≤ b && b ≤ byte '9') || b == byte '.' || b == byte '_' || b == byte '-'

def taskIdValid (id : List UInt8) : Bool := id != [] && id.length < idBytes && id.all isIdByte

def taskValid (task : Task) : Bool :=
  taskIdValid task.appId && task.title != [] && task.title.length < textBytes && task.token != 0 &&
    controlFree task.title

def tasksValid (message : Message) : Bool :=
  message.tasks.length ≤ taskMax && (message.hasTasks || message.tasks == []) &&
    message.tasks.all taskValid &&
    message.tasks.Pairwise fun a b => a.appId ≠ b.appId ∧ a.token ≠ b.token

def closeResponseValid (value : List UInt8) : Bool :=
  value == ascii "ready" || value == ascii "cancel" || value == ascii "wait"

def volumeTextValid (text : List UInt8) (capacity : ℕ) : Bool :=
  text.length < capacity && controlFree text

def volumeValid (volume : Volume) : Bool :=
  volume.id != 0 && volume.label != [] && volumeTextValid volume.label labelBytes &&
    volumeTextValid volume.path pathBytes &&
    ((volume.state == .isProtected) == (volume.protection != .unprotected)) &&
    if volume.state = .mounted then volume.path.head? == some (byte '/') && volume.mountId != 0
    else volume.path == [] && volume.mountId == 0

/-- The result of an operation on the volumes is empty. -/
def VolumeResult.isEmpty (result : VolumeResult) : Bool :=
  result.requestId == 0 && result.error == 0 && result.volumes == [] && !result.homePersistent

def volumeFieldsValid (message : Message) : Bool :=
  let result := message.volumeResult
  if message.type = .storageRequest then
    message.serial != 0 &&
      (if message.volumeOperation = .refresh then message.volumeId == 0
       else message.volumeId != 0) && result.isEmpty
  else if message.volumeId ≠ 0 ∨ message.volumeOperation ≠ .refresh then false
  else if message.type ≠ .storageResult then result.isEmpty
  else
    message.serial != 0 && result.requestId == message.serial && 0 ≤ result.error &&
      result.volumes.length ≤ volumeMax && result.volumes.all volumeValid &&
      result.volumes.Pairwise fun a b => a.id ≠ b.id

def isDocumentType (type : MessageType) : Bool :=
  type == .openFile || type == .documentChoices || type == .documentChoice || type == .document ||
    type == .documentResult

def documentFieldsValid (m : Message) : Bool :=
  if !isDocumentType m.type then
    m.path == [] && m.documentError == 0 && m.documentStatus == .accepted && m.documentChoices == []
  else if m.serial = 0 ∨ documentChoiceMax < m.documentChoices.length then false
  else if m.type ≠ .documentResult ∧ (m.documentStatus ≠ .accepted ∨ m.documentError ≠ 0) then false
  else if m.type ≠ .documentChoices ∧ m.documentChoices ≠ [] then false
  else if m.type ≠ .openFile ∧ m.type ≠ .document ∧ m.path ≠ [] then false
  else
    match m.type with
    | .documentResult =>
      if m.documentStatus = .error then 0 < m.documentError else m.documentError == 0
    | .documentChoice => m.appId == [] || taskIdValid m.appId
    | .documentChoices =>
      m.documentChoices != [] &&
        m.documentChoices.all fun choice => taskIdValid choice.appId && choice.title != []
    | _ => m.path.head? == some (byte '/') && m.path.length < pathBytes

def storageResultValid (message : Message) : Bool :=
  if message.storageError < 0 then false
  else if message.type ≠ .setting ∧ message.type ≠ .error then
    !message.applied && message.storageState == .unpublished && message.storageError == 0
  else
    match message.storageState with
    | .durable => message.applied && message.storageError == 0
    | .publishedUnsynced => message.applied && message.storageError != 0
    | .unpublished => true

/-- The bounds of the duration at an index of a pattern of this many. -/
def durationValid (count index duration : ℕ) : Bool :=
  if index % 2 = 1 then vibrationPulseMinMs ≤ duration && duration ≤ vibrationPulseMaxMs
  else
    (if index + 1 < count then vibrationPauseMinMs else 0) ≤ duration &&
      duration ≤ vibrationPauseMaxMs

def vibrateValid (message : Message) : Bool :=
  let pattern := message.pattern
  let count := pattern.length
  let at' := fun index => pattern.getD index 0
  if message.type ≠ .vibrate ∨ patternMax < count then false
  else if count = 0 then !message.repeats
  else if count < 2 ∨ vibrationPauseMaxMs < at' 0 then false
  else if !((List.range count).all fun index => index == 0 || durationValid count index (at' index))
  then false
  else if !message.repeats then true
  else
    -- The final pause and initial wait also separate repeated pulses.
    let lastPulse := if count % 2 = 1 then count - 2 else count - 1
    let pause := at' 0 + if count % 2 = 1 then at' (count - 1) else 0
    if pause ≠ 0 then vibrationPauseMinMs ≤ pause
    else 1 < lastPulse && at' lastPulse + at' 1 ≤ vibrationPulseMaxMs

def frameDimensionsValid (message : Message) : Bool :=
  0 < message.width && message.width ≤ frameMaxWidth && 0 < message.height &&
    message.height ≤ frameMaxHeight && message.width * message.height ≤ frameMaxPixels

def frameMessageValid (message : Message) : Bool := message.type == .launch

def inputLocaleValid (locale : List UInt8) : Bool :=
  locale == [] ||
    ((locale.length == 2 || locale.length == 3) && locale.all fun b => byte 'a' ≤ b && b ≤ byte 'z')

/-- The types whose serial must not be zero. -/
def needsSerial (type : MessageType) : Bool :=
  type == .activeAck || type == .activation || type == .activationAck || type == .redrawAck ||
    type == .closeAck || type == .prepareClose || type == .closeReply

/-! ### Sending -/

/-- What `fplinux_ui_session_send` checks before it writes anything. -/
def sendable (message : Message) : Bool :=
  inputLocaleValid message.inputLocale && clockDataValid message.clockData &&
    clockPresentationValid message && storageResultValid message && documentFieldsValid message &&
    volumeFieldsValid message &&
    !((message.audio || message.vibration) && message.type != .config) &&
    !((message.pattern != [] || message.repeats) && message.type != .vibrate) &&
    !(message.type == .vibrate && !vibrateValid message) &&
    !(message.inputLocale != [] && message.type != .config && message.type != .active) &&
    !(message.clockData != [] && message.type != .clock && message.type != .active) &&
    !(message.type != .activation && message.activation != .open) &&
    !(message.type == .tasks && !tasksValid message) &&
    !((message.type == .activate || message.type == .closeTask) &&
      (!taskIdValid message.appId || message.token == 0)) &&
    !(message.type == .active && message.token != 0 && !taskIdValid message.activeId) &&
    !(message.hasFrame &&
      (!frameMessageValid message || message.frameFd < 0 || !frameDimensionsValid message)) &&
    !(needsSerial message.type && message.serial == 0) &&
    !(message.type == .closeReply && !closeResponseValid message.value)

/-- `field_names`. -/
inductive Field
  | type | mode | appId | activeId | selectedId | title | left | centre | right | reason | width
  | height | display | locked | visible | enabled | locale | inputLocale | name | value | battery
  | charging | notice | screenWidth | screenHeight | theme | serial | lifecycle | tasks | token
  | clock | clockPresentation | audio | vibration | pattern | repeats | applied | storageState
  | storageError | activation | path | documentStatus | documentError | documentChoices
  | volumeOperation | volumeId | volumeError | homePersistent | volumes
  deriving DecidableEq, Repr

/-- The member name of a field. -/
def Field.key : Field → String
  | .type => "type"
  | .mode => "mode"
  | .appId => "app_id"
  | .activeId => "active_id"
  | .selectedId => "selected_id"
  | .title => "title"
  | .left => "left"
  | .centre => "centre"
  | .right => "right"
  | .reason => "reason"
  | .width => "width"
  | .height => "height"
  | .display => "display"
  | .locked => "locked"
  | .visible => "visible"
  | .enabled => "enabled"
  | .locale => "locale"
  | .inputLocale => "input_locale"
  | .name => "name"
  | .value => "value"
  | .battery => "battery"
  | .charging => "charging"
  | .notice => "notice"
  | .screenWidth => "screen_width"
  | .screenHeight => "screen_height"
  | .theme => "theme"
  | .serial => "serial"
  | .lifecycle => "lifecycle"
  | .tasks => "tasks"
  | .token => "token"
  | .clock => "clock"
  | .clockPresentation => "clock_presentation"
  | .audio => "audio"
  | .vibration => "vibration"
  | .pattern => "pattern"
  | .repeats => "repeat"
  | .applied => "applied"
  | .storageState => "storage_state"
  | .storageError => "storage_error"
  | .activation => "activation"
  | .path => "path"
  | .documentStatus => "document_status"
  | .documentError => "document_error"
  | .documentChoices => "document_choices"
  | .volumeOperation => "volume_operation"
  | .volumeId => "volume_id"
  | .volumeError => "volume_error"
  | .homePersistent => "home_persistent"
  | .volumes => "volumes"

/-- `add_string`: an absent string reads as empty. -/
def addString (value : List UInt8) : Option Json := if value = [] then none else some (.str value)

/-- `add_clock_number`: decimal text keeps the whole range. -/
def addClockNumber (value : ℕ) : Option Json :=
  if value = 0 then none else addString (Json.decimal value)

/-- The members that are there, in order. -/
def present (slots : List (String × Option Json)) : List (String × Json) :=
  slots.filterMap fun slot => slot.2.map (slot.1, ·)

def clockSlots (clock : ClockPresentation) : List (String × Option Json) :=
  [("analog", some (.bool clock.analog)),
   ("alarm_utc", addClockNumber clock.alarmUtc.toNat),
   ("snooze_deadline_ms", addClockNumber clock.snoozeDeadlineMs),
   ("alarm_label", addString clock.alarmLabel),
   ("timer_deadline_ms", addClockNumber clock.timerDeadlineMs),
   ("timer_remaining_ms", addClockNumber clock.timerRemainingMs),
   ("missed_total", addClockNumber clock.missedTotal)]

/-- `add_clock_presentation`. -/
def clockPresentationJson (clock : ClockPresentation) : Json := .obj (present (clockSlots clock))

def taskJson (task : Task) : Json :=
  .obj (present
    [("app_id", addString task.appId),
     ("title", addString task.title),
     ("lifecycle", addString (ascii task.lifecycle.name)),
     ("token", some (.int task.token))])

def documentChoiceJson (choice : DocumentChoice) : Json :=
  .obj [("app_id", .str choice.appId), ("title", .str choice.title), ("icon", .str choice.icon)]

def volumeJson (volume : Volume) : Json :=
  .obj
    [("id", .int volume.id),
     ("mount_id", .int volume.mountId),
     ("state", .int volume.state.code),
     ("protection", .int volume.protection.code),
     ("read_only", .bool volume.readOnly),
     ("label", .str volume.label),
     ("path", .str volume.path)]

/-- The types that carry a serial, besides those about documents and volumes. -/
def carriesSerial (type : MessageType) : Bool :=
  type == .active || type == .activation || type == .activationAck || type == .activeAck ||
    type == .redrawAck || type == .closeAck || type == .setting || type == .error ||
    type == .clock || type == .prepareClose || type == .closeReply

def isStorageType (type : MessageType) : Bool := type == .storageRequest || type == .storageResult

/-- The member is there for messages of this kind only. -/
def only (kind : Bool) (value : Option Json) : Option Json := if kind then value else none

/-- There is something to say about how a setting was stored. -/
def hasStorage (message : Message) : Bool :=
  message.applied || message.storageState != .unpublished || message.storageError != 0

/-- The member of each field in the packet of a message. -/
def value (message : Message) : Field → Option Json
  | .clock => addString message.clockData
  | .clockPresentation =>
    only (message.type == .active) (some (clockPresentationJson message.clockPresentation))
  | .type => addString (ascii message.type.name)
  | .serial =>
    only (isStorageType message.type || isDocumentType message.type ||
      (carriesSerial message.type && message.serial != 0)) (some (.int message.serial))
  | .volumeOperation =>
    only (message.type == .storageRequest) (addString (ascii message.volumeOperation.name))
  | .volumeId => only (message.type == .storageRequest) (some (.int message.volumeId))
  | .volumeError =>
    only (message.type == .storageResult) (some (.int message.volumeResult.error))
  | .homePersistent =>
    only (message.type == .storageResult) (some (.bool message.volumeResult.homePersistent))
  | .volumes =>
    only (message.type == .storageResult)
      (some (.arr (message.volumeResult.volumes.map volumeJson)))
  | .path => only (isDocumentType message.type) (addString message.path)
  | .documentStatus =>
    only (message.type == .documentResult) (addString (ascii message.documentStatus.name))
  | .documentError => only (message.type == .documentResult) (some (.int message.documentError))
  | .documentChoices =>
    only (message.type == .documentChoices)
      (some (.arr (message.documentChoices.map documentChoiceJson)))
  | .applied => only (hasStorage message) (some (.bool message.applied))
  | .storageState => only (hasStorage message) (addString (ascii (storageName message.storageState)))
  | .storageError => only (hasStorage message) (some (.int message.storageError))
  | .audio => only (message.type == .config) (some (.bool message.audio))
  | .vibration => only (message.type == .config) (some (.bool message.vibration))
  | .pattern =>
    only (message.type == .vibrate) (some (.arr (message.pattern.map fun n : ℕ => .int n)))
  | .repeats => only (message.type == .vibrate) (some (.bool message.repeats))
  | .mode => addString (ascii message.mode.name)
  | .appId => addString message.appId
  | .activation => only (message.type == .activation) (addString (ascii message.activation.name))
  | .lifecycle => only (message.type == .lifecycle) (addString (ascii message.lifecycle.name))
  | .token =>
    only (message.type == .activate || message.type == .closeTask ||
      (message.type == .active && message.token != 0)) (some (.int message.token))
  | .tasks =>
    only (message.type == .tasks && message.hasTasks) (some (.arr (message.tasks.map taskJson)))
  | .activeId => addString message.activeId
  | .selectedId => addString message.selectedId
  | .title => addString message.title
  | .left => addString message.left
  | .centre => addString message.centre
  | .right => addString message.right
  | .reason => addString message.reason
  | .locale => addString message.locale
  | .inputLocale =>
    only (message.type == .config || message.type == .active) (addString message.inputLocale)
  | .name => addString message.name
  | .value => addString message.value
  | .notice => addString message.notice
  | .display => addString (ascii (displayName message.display))
  | .theme => addString (ascii message.theme.name)
  | .width => only (message.type == .launch || message.hasFrame) (some (.int message.width))
  | .height => only (message.type == .launch || message.hasFrame) (some (.int message.height))
  | .screenWidth => some (.int message.screenWidth)
  | .screenHeight => some (.int message.screenHeight)
  | .locked => some (.bool message.locked)
  | .visible => some (.bool message.visible)
  | .enabled => some (.bool message.enabled)
  | .battery => some (.int message.battery)
  | .charging => some (.bool message.charging)

/-- Where the serial stands depends on the type. -/
def fieldOrder (type : MessageType) : List Field :=
  let serial := fun kind => if kind then [Field.serial] else []
  ([.clock, .clockPresentation, .type] : List Field) ++ serial (isStorageType type) ++
    ([.volumeOperation, .volumeId, .volumeError, .homePersistent, .volumes, .path] : List Field) ++
    serial (isDocumentType type) ++
    ([.documentStatus, .documentError, .documentChoices, .applied, .storageState, .storageError,
     .audio, .vibration, .pattern, .repeats] : List Field) ++
    serial (!isStorageType type && !isDocumentType type) ++
    ([.mode, .appId, .activation, .lifecycle, .token, .tasks, .activeId, .selectedId, .title, .left,
     .centre, .right, .reason, .locale, .inputLocale, .name, .value, .notice, .display, .theme,
     .width, .height, .screenWidth, .screenHeight, .locked, .visible, .enabled, .battery,
     .charging] : List Field)

/-- The members of the packet of a message. -/
def members (message : Message) : List (String × Json) :=
  present ((fieldOrder message.type).map fun field => (field.key, value message field))

/-- A packet on the socket: its text and the descriptors attached to it. -/
structure Packet where
  text : List UInt8
  descriptors : List ℤ
  deriving DecidableEq, Repr

/-- `fplinux_ui_session_send`: the packet it writes, if it writes one. -/
def send (message : Message) : Option Packet :=
  let text := Json.print (.obj (members message))
  if sendable message ∧ text.length < packetBytes then
    some ⟨text, if message.hasFrame then [message.frameFd] else []⟩
  else none

end UiSession
