/-
What a peer receives (`fplinux_ui_session_receive`).

A packet is parsed by json-c, which is a parameter here (`Tokener`), and its
members are read field by field.  A reader is given the member of its field, or
`none` where the packet has no such member, and gives `none` for a packet it
rejects.
-/
import Fplinux.Ui.SessionMessage

namespace UiSession

open Bytes (byte ascii)
open Clock (storageName storageStates)

/-! ### Readers of one member -/

def getString (field : Option Json) (capacity : ℕ) : Option (List UInt8) :=
  match field with
  | none => some []
  | some (.str text) =>
    if capacity ≤ text.length ∨ 0 ∈ text then none
    else if controlFree text then some text
    else none
  | some _ => none

/-- File names remain data; unlike labels they may contain control bytes. -/
def getDocumentPath (field : Option Json) (capacity : ℕ) : Option (List UInt8) :=
  match field with
  | none => some []
  | some (.str text) => if capacity ≤ text.length ∨ 0 ∈ text then none else some text
  | some _ => none

def getInt (field : Option Json) : Option ℤ :=
  match field with
  | none => some 0
  | some (.int number) => if number < -2 ^ 31 ∨ 2 ^ 31 - 1 < number then none else some number
  | some _ => none

def getBool (field : Option Json) : Option Bool :=
  match field with
  | none => some false
  | some (.bool value) => some value
  | some _ => none

/-- `get_choice`: an absent or empty name selects the fallback, where there is one. -/
def getChoice {α : Type} (field : Option Json) (name : α → String) (choices : List α)
    (fallback : Option α) : Option α :=
  match field with
  | none => fallback
  | some (.str text) =>
    if 0 ∈ text then none
    else if text = [] then fallback
    else choices.find? fun choice => text = ascii (name choice)
  | some _ => none

/-- `get_token` and `get_volume_id`: a number of 32 bits from a least one on. -/
def getNumber (field : Option Json) (least : ℤ) : Option ℕ :=
  match field with
  | some (.int number) => if number < least ∨ 2 ^ 32 - 1 < number then none else some number.toNat
  | _ => none

def getToken (field : Option Json) : Option ℕ := getNumber field 1

def getVolumeId (field : Option Json) : Option ℕ := getNumber field 0

/-- `strtoull` of a text of digits only, when it is in range. -/
def parseDecimal (text : List UInt8) : Option ℕ :=
  let number := text.foldl (fun n d => n * 10 + (d.toNat - 48)) 0
  if text.all (fun d => byte '0' ≤ d && d ≤ byte '9') ∧ number < 2 ^ 64 then some number else none

def getClockNumber (field : Option Json) : Option ℕ :=
  match field with
  | none => some 0
  | some _ => do
    let text ← getString field 21
    if text = [] then none else parseDecimal text

def getLifecycle (field : Option Json) : Option Lifecycle :=
  getChoice field Lifecycle.name lifecycles none

/-- The members of an object. -/
def membersOf : Json → Option (List (String × Json))
  | .obj members => some members
  | _ => none

/-- The items of an array with no more than so many. -/
def itemsOf (field : Option Json) (most : ℕ) : Option (List Json) :=
  match field with
  | some (.arr items) => if items.length ≤ most then some items else none
  | _ => none

/-- Goes on only where the condition holds. -/
def ensure (condition : Bool) : Option Unit := if condition then some () else none

/-! ### Readers of the fields of a kind -/

/-- The members of the packet, by field. -/
abbrev Members := Field → Option Json

def clockNames : List String :=
  ["analog", "alarm_utc", "snooze_deadline_ms", "alarm_label", "timer_deadline_ms",
   "timer_remaining_ms", "missed_total"]

def getClockPresentation (packet : Members) (message : Message) : Option Message :=
  match packet .clockPresentation with
  | none => some message
  | some state => do
    ensure (message.type == .active)
    let entries ← membersOf state
    ensure (entries.all fun entry => clockNames.contains entry.1)
    let analog ← getBool (entries.lookup "analog")
    let alarmUtc ← getClockNumber (entries.lookup "alarm_utc")
    ensure (alarmUtc < 2 ^ 63)
    let snoozeDeadlineMs ← getClockNumber (entries.lookup "snooze_deadline_ms")
    let alarmLabel ← getString (entries.lookup "alarm_label") (textBytes + 1)
    let timerDeadlineMs ← getClockNumber (entries.lookup "timer_deadline_ms")
    let timerRemainingMs ← getClockNumber (entries.lookup "timer_remaining_ms")
    let missedTotal ← getClockNumber (entries.lookup "missed_total")
    return { message with
      clockPresentation :=
        ⟨analog, alarmUtc, snoozeDeadlineMs, alarmLabel, timerDeadlineMs, timerRemainingMs,
          missedTotal⟩ }

def getTask (entry : Json) : Option Task := do
  let entries ← membersOf entry
  ensure (entries.length == 4)
  let appId ← getString (entries.lookup "app_id") idBytes
  let title ← getString (entries.lookup "title") textBytes
  let lifecycle ← getLifecycle (entries.lookup "lifecycle")
  let token ← getToken (entries.lookup "token")
  return ⟨appId, title, lifecycle, token⟩

def getTasks (packet : Members) (message : Message) : Option Message :=
  match packet .tasks with
  | none => some message
  | some _ => do
    let items ← itemsOf (packet .tasks) taskMax
    let tasks ← items.mapM getTask
    let message := { message with hasTasks := true, tasks }
    ensure (tasksValid message)
    return message

def getActivation (packet : Members) (type : MessageType) : Option Activation :=
  if type = .activation then getChoice (packet .activation) Activation.name activations none
  else some .open

def getTaskFields (packet : Members) (message : Message) : Option Message := do
  ensure ((packet .lifecycle).isNone || message.type == .lifecycle)
  ensure ((packet .activation).isNone || message.type == .activation)
  let activation ← getActivation packet message.type
  let message := { message with activation }
  ensure ((packet .tasks).isNone || message.type == .tasks)
  ensure ((packet .token).isNone || message.type == .activate || message.type == .closeTask ||
    message.type == .active)
  match message.type with
  | .lifecycle => do
    let lifecycle ← getLifecycle (packet .lifecycle)
    return { message with lifecycle }
  | .tasks => getTasks packet message
  | .activate | .closeTask => do
    ensure (taskIdValid message.appId)
    let token ← getToken (packet .token)
    return { message with token }
  | .active =>
    if (packet .token).isSome then do
      ensure (taskIdValid message.activeId)
      let token ← getToken (packet .token)
      return { message with token }
    else some message
  | _ => some message

def getClock (packet : Members) (message : Message) : Option Message := do
  ensure ((packet .clock).isNone || message.type == .clock || message.type == .active)
  let clockData ← getString (packet .clock) clockBytes
  return { message with clockData }

def getDuration : Json → Option ℕ
  | .int duration =>
    if duration < 0 ∨ vibrationPauseMaxMs < duration then none else some duration.toNat
  | _ => none

def getMediaFields (packet : Members) (message : Message) : Option Message := do
  ensure (((packet .audio).isNone && (packet .vibration).isNone) || message.type == .config)
  let audio ← getBool (packet .audio)
  let vibration ← getBool (packet .vibration)
  let message := { message with audio, vibration }
  if message.type ≠ .vibrate then do
    ensure ((packet .pattern).isNone && (packet .repeats).isNone)
    return message
  else do
    let items ← itemsOf (packet .pattern) patternMax
    let repeats ← getBool (packet .repeats)
    let pattern ← items.mapM getDuration
    let message := { message with pattern, repeats }
    ensure (vibrateValid message)
    return message

def getStorageFields (packet : Members) (message : Message) : Option Message := do
  ensure (((packet .applied).isNone && (packet .storageState).isNone &&
    (packet .storageError).isNone) || message.type == .setting || message.type == .error)
  let applied ← getBool (packet .applied)
  let storageError ← getInt (packet .storageError)
  let storageState ←
    getChoice (packet .storageState) storageName storageStates (some .unpublished)
  let message := { message with applied, storageError, storageState }
  ensure (storageResultValid message)
  return message

def getDocumentChoice (entry : Json) : Option DocumentChoice := do
  let entries ← membersOf entry
  ensure (entries.length == 3)
  let appId ← getString (entries.lookup "app_id") idBytes
  let title ← getString (entries.lookup "title") textBytes
  let icon ← getString (entries.lookup "icon") textBytes
  return ⟨appId, title, icon⟩

def getDocumentFields (packet : Members) (message : Message) : Option Message :=
  if !isDocumentType message.type then do
    ensure ((packet .path).isNone && (packet .documentStatus).isNone &&
      (packet .documentError).isNone && (packet .documentChoices).isNone)
    return message
  else do
    ensure ((packet .path).isNone || message.type == .openFile || message.type == .document)
    ensure (((packet .documentStatus).isNone && (packet .documentError).isNone) ||
      message.type == .documentResult)
    ensure (message.type != .documentResult || (packet .documentStatus).isSome)
    let path ← getDocumentPath (packet .path) pathBytes
    let documentError ← getInt (packet .documentError)
    let documentStatus ←
      getChoice (packet .documentStatus) DocumentStatus.name documentStatuses (some .accepted)
    let message := { message with path, documentError, documentStatus }
    match packet .documentChoices with
    | none => some message
    | some _ => do
      ensure (message.type == .documentChoices)
      let items ← itemsOf (packet .documentChoices) documentChoiceMax
      let documentChoices ← items.mapM getDocumentChoice
      return { message with documentChoices }

/-- An enumeration read back from its code. -/
def ofCode {α : Type} (code : α → ℤ) (choices : List α) (number : ℤ) : Option α :=
  choices.find? fun choice => number = code choice

def volumeNames : List String :=
  ["id", "mount_id", "state", "protection", "read_only", "label", "path"]

def getVolume (entry : Json) : Option Volume := do
  let entries ← membersOf entry
  ensure (entries.length == volumeNames.length)
  ensure (volumeNames.all fun name => (entries.lookup name).isSome)
  let id ← getVolumeId (entries.lookup "id")
  let mountId ← getVolumeId (entries.lookup "mount_id")
  let state ← getInt (entries.lookup "state")
  let protection ← getInt (entries.lookup "protection")
  let readOnly ← getBool (entries.lookup "read_only")
  let label ← getString (entries.lookup "label") labelBytes
  let path ← getString (entries.lookup "path") pathBytes
  -- A code outside the enumeration makes the volume invalid.
  let state ← ofCode VolumeState.code volumeStates state
  let protection ← ofCode VolumeProtection.code volumeProtections protection
  let volume : Volume := ⟨id, mountId, state, protection, readOnly, label, path⟩
  ensure (volumeValid volume)
  return volume

def getVolumeFields (packet : Members) (message : Message) : Option Message := do
  ensure ((packet .volumeOperation).isSome == (message.type == .storageRequest))
  ensure ((packet .volumeId).isSome == (message.type == .storageRequest))
  ensure ((packet .volumeError).isSome == (message.type == .storageResult))
  ensure ((packet .homePersistent).isSome == (message.type == .storageResult))
  ensure ((packet .volumes).isSome == (message.type == .storageResult))
  match message.type with
  | .storageRequest => do
    let volumeOperation ←
      getChoice (packet .volumeOperation) VolumeOperation.name volumeOperations none
    let volumeId ← getVolumeId (packet .volumeId)
    return { message with volumeOperation, volumeId }
  | .storageResult => do
    let error ← getInt (packet .volumeError)
    let homePersistent ← getBool (packet .homePersistent)
    let items ← itemsOf (packet .volumes) volumeMax
    let volumes ← items.mapM getVolume
    return { message with volumeResult := ⟨0, error, homePersistent, volumes⟩ }
  | _ => some message

def getSerial (packet : Members) (message : Message) : Option Message :=
  match packet .serial with
  | none => some message
  | some _ => do
    let serial ← getNumber (packet .serial) 0
    return { message with serial }

/-! ### Receiving -/

/-- The enumerations of the packet. -/
def readChoices (packet : Members) : Option Message := do
  let type ← getChoice (packet .type) MessageType.name messageTypes none
  let mode ← getChoice (packet .mode) Mode.name modes (some .launcher)
  let display ← getChoice (packet .display) displayName displays (some .on)
  let theme ← getChoice (packet .theme) Theme.name themes (some .light)
  return { type, mode, display, theme }

/-- The strings that any type may have. -/
def readStrings (packet : Members) (message : Message) : Option Message := do
  let appId ← getString (packet .appId) idBytes
  let activeId ← getString (packet .activeId) idBytes
  let selectedId ← getString (packet .selectedId) idBytes
  let title ← getString (packet .title) textBytes
  let left ← getString (packet .left) textBytes
  let centre ← getString (packet .centre) textBytes
  let right ← getString (packet .right) textBytes
  let reason ← getString (packet .reason) textBytes
  let locale ← getString (packet .locale) localeBytes
  let inputLocale ← getString (packet .inputLocale) localeBytes
  ensure (inputLocaleValid inputLocale)
  let name ← getString (packet .name) nameBytes
  let value ← getString (packet .value) textBytes
  let notice ← getString (packet .notice) nameBytes
  return { message with
    appId, activeId, selectedId, title, left, centre, right, reason, locale, inputLocale, name
    value, notice }

/-- The numbers and the flags that any type may have. -/
def readNumbers (packet : Members) (message : Message) : Option Message := do
  let width ← getInt (packet .width)
  let height ← getInt (packet .height)
  let screenWidth ← getInt (packet .screenWidth)
  let screenHeight ← getInt (packet .screenHeight)
  let locked ← getBool (packet .locked)
  let visible ← getBool (packet .visible)
  let enabled ← getBool (packet .enabled)
  let battery ← getInt (packet .battery)
  ensure (-1 ≤ battery && battery ≤ 100)
  let charging ← getBool (packet .charging)
  return { message with
    width, height, screenWidth, screenHeight, locked, visible, enabled, battery, charging }

/-- What is checked once all fields are read. -/
def checkMessage (message : Message) : Option Message := do
  ensure (clockPresentationValid message)
  let message :=
    if message.type = .storageResult then
      { message with volumeResult := { message.volumeResult with requestId := message.serial } }
    else message
  ensure (documentFieldsValid message)
  ensure (volumeFieldsValid message)
  ensure (!needsSerial message.type || message.serial != 0)
  return message

def readMessage (packet : Members) : Option Message := do
  let message ← readChoices packet
  let message ← readStrings packet message
  let message ← readNumbers packet message
  ensure ((packet .inputLocale).isNone || message.type == .config || message.type == .active)
  let message ← getTaskFields packet message
  let message ← getClock packet message
  let message ← getClockPresentation packet message
  let message ← getMediaFields packet message
  let message ← getStorageFields packet message
  let message ← getDocumentFields packet message
  let message ← getVolumeFields packet message
  ensure (message.type != .closeReply || closeResponseValid message.value)
  let message ← getSerial packet message
  checkMessage message

def fields : List Field :=
  [.type, .mode, .appId, .activeId, .selectedId, .title, .left, .centre, .right, .reason, .width,
   .height, .display, .locked, .visible, .enabled, .locale, .inputLocale, .name, .value, .battery,
   .charging, .notice, .screenWidth, .screenHeight, .theme, .serial, .lifecycle, .tasks, .token,
   .clock, .clockPresentation, .audio, .vibration, .pattern, .repeats, .applied, .storageState,
   .storageError, .activation, .path, .documentStatus, .documentError, .documentChoices,
   .volumeOperation, .volumeId, .volumeError, .homePersistent, .volumes]

/-- Anything but the known fields makes a packet invalid. -/
def hasOnlyKnownFields (entries : List (String × Json)) : Bool :=
  entries.all fun entry => fields.any fun field => entry.1 = field.key

/-- json-c's parser of a whole packet that checks for UTF-8: the value, if the
text is that of one. -/
abbrev Tokener := List UInt8 → Option Json

/-- A descriptor may come with LAUNCH only, with the dimensions of its frame. -/
def attachFrame (descriptors : List ℤ) (message : Message) : Option Message :=
  match descriptors with
  | [] => some message
  | [frameFd] => do
    ensure (frameMessageValid message && frameDimensionsValid message)
    return { message with hasFrame := true, frameFd }
  | _ => none

/-- `fplinux_ui_session_receive` on a packet: the message, where it returns 1. -/
def receive (tokener : Tokener) (packet : Packet) : Option Message := do
  ensure (packet.text != [] && packet.text.length < packetBytes && packet.descriptors.length ≤ 1)
  let object ← tokener packet.text
  let entries ← membersOf object
  ensure (hasOnlyKnownFields entries)
  let message ← readMessage fun field => entries.lookup field.key
  attachFrame packet.descriptors message

end UiSession
