/-
Tasks, launches and documents of the session (`session-core.c`).

The session runs one launcher and up to four tasks.  A launch goes through a
pending identifier, the parking of the task in the foreground, and a fork or the
return of a retained task.  A task may hand a document to another one: the request
(`Document`) lives from OPEN_FILE to its DOCUMENT_RESULT.

`Session` has what these read and write.  What others decide comes in as input:
the desktop files, results of system calls, the keyguard and the display, whether
a notice or a ring is due, what the launcher has drawn.  `log` remembers what the
session told its clients about tasks and documents, and the launches it began.
-/
import Mathlib.Data.List.FinRange
import Fplinux.Ui.SessionReceive

namespace SessionCore

open Bytes (byte ascii)
open UiSession (Message Lifecycle Activation Mode DocumentStatus)

/-! ### State -/

def launcherId : List UInt8 := ascii "org.fplinux.launcher"
def settingsId : List UInt8 := ascii "org.fplinux.settings"

def startupMs : ℕ := 10000
def handoffLimitMs : ℕ := 500
def closeKillMs : ℕ := 1000
def prepareCloseMs : ℕ := 3000

/-! Values of `errno`. -/

def enoent : ℤ := 2
def eio : ℤ := 5
def enoexec : ℤ := 8
def ebusy : ℤ := 16
def eoverflow : ℤ := 75
def eusers : ℤ := 87
def enotsup : ℤ := 95
def etimedout : ℤ := 110

/-- `struct process` and its policy; a record with no `pid` is free.  The defaults
are those of `initialize_process`. -/
structure Process where
  pid : ℕ := 0
  token : ℕ := 0
  appId : List UInt8 := []
  title : List UInt8 := []
  titleSupplied : Bool := false
  lifecycle : Lifecycle := .foreground
  mode : Mode := .launcher
  configuredMode : Mode := .launcher
  declaredMode : Mode := .launcher
  requestedMode : Mode := .launcher
  modeMs : ℕ := 0
  placedByBuffer : Bool := false
  closing : Bool := false
  ready : Bool := false
  framed : Bool := false
  shown : Bool := false
  drawn : Bool := false
  leaving : Bool := false
  parkOnLeave : Bool := false
  handoffMs : ℕ := 0
  startedMs : ℕ := 0
  closingMs : ℕ := 0
  closeSerial : ℕ := 0
  closeRequestedMs : ℕ := 0
  closeWaiting : Bool := false
  closeActivate : Bool := false
  killed : Bool := false
  disconnected : Bool := false
  failed : Bool := false
  cancelled : Bool := false
  /-- The process identified itself at least once. -/
  connected : Bool := false
  /-- There is a control connection (`control_fd >= 0`). -/
  control : Bool := false
  returnOrigin : ℕ := 0
  deriving DecidableEq, Repr

/-- `struct document_request`. -/
structure Document where
  requestId : ℕ := 0
  serial : ℕ := 0
  originToken : ℕ := 0
  handlerToken : ℕ := 0
  handlerId : List UInt8 := []
  path : List UInt8 := []
  waiting : Bool := false
  restarted : Bool := false
  restarting : Bool := false
  detached : Bool := false
  deriving DecidableEq, Repr

/-- The fields about the launch in progress. -/
structure Launch where
  pendingId : List UInt8 := []
  launchId : List UInt8 := []
  launchTitle : List UInt8 := []
  launchMs : ℕ := 0
  launchStarting : Bool := false
  appBusy : Bool := false
  appBusyFinishing : Bool := false
  launchGeneration : ℕ := 0
  launchActivation : Activation := .open
  launchRetained : Bool := false
  activationReady : Bool := false
  deriving DecidableEq, Repr

inductive BatteryAlert
  | none | low | critical
  deriving DecidableEq, Repr

/-- What the keyguard, the display, the battery and the clock contribute. -/
structure World where
  locked : Bool := false
  displayOff : Bool := false
  clockDue : Bool := false
  /-- The launcher has drawn the current ring. -/
  clockDrawn : Bool := false
  batteryNotice : BatteryAlert := .none
  batteryNoticeDrawn : Bool := false
  launcherShown : Bool := false
  deriving DecidableEq, Repr

/-- What the session told its clients, and the launches it began. -/
inductive Event
  /-- `begin_launch` was reached. -/
  | beginLaunch (appId : List UInt8)
  /-- OPEN_FILE set the document. -/
  | opened (originToken requestId : ℕ)
  /-- OPEN_FILE was refused at once. -/
  | refused (originToken requestId : ℕ)
  /-- DOCUMENT_RESULT was sent to the origin of the document. -/
  | documentResult (originToken requestId : ℕ) (status : DocumentStatus) (error : ℤ)
  /-- The document was dropped with its origin. -/
  | dropped (originToken requestId : ℕ)
  /-- The handler of the document is started again. -/
  | restarted (originToken requestId : ℕ)
  /-- TASKS for the launcher. -/
  | tasks (message : Message)

/-- A record of the session: the launcher's, or that of a task. -/
inductive Slot
  | launcher
  | task (index : Fin 4)
  deriving DecidableEq, Repr

structure Session where
  launcher : Process := {}
  tasks : Fin 4 → Process := fun _ => {}
  /-- The task in the foreground, or the idle slot. -/
  app : Option (Fin 4) := none
  nextTaskToken : ℕ := 0
  nextCloseSerial : ℕ := 0
  document : Document := {}
  launch : Launch := {}
  returnToken : ℕ := 0
  selectedId : List UInt8 := []
  launcherFailures : ℕ := 0
  launcherHomeView : Bool := false
  launcherList : Bool := false
  launcherTasksView : Bool := false
  launcherQuickSettingsView : Bool := false
  destroying : Bool := false
  world : World := {}
  /-- How many tasks were started. -/
  starts : ℕ := 0
  log : List Event := []

/-- The settings of a desktop file that `fplinux_desktop_entry_read` accepts. -/
structure Entry where
  title : List UInt8
  icon : List UInt8
  iconValid : Bool
  extensions : List UInt8
  hidden : Bool
  mode : Mode
  title_ne : title ≠ []
  title_length : title.length < UiSession.textBytes

/-- What comes from outside during one call. -/
structure Env where
  time : ℕ
  /-- The desktop file of an identifier, if it is there and well formed. -/
  entries : List UInt8 → Option Entry
  /-- The names in the directory of desktop files; an error if it cannot be read. -/
  directory : Except ℤ (List (List UInt8))
  /-- `fplinux_ui_session_document_path_error`. -/
  pathError : List UInt8 → ℤ
  /-- PREPARE_CLOSE can be sent. -/
  sends : Bool
  /-- `handle_clock` accepts the message. -/
  clockAccepted : Bool
  /-- `fork`: the child, or `errno`. -/
  fork : Slot → Except ℤ { pid : ℕ // pid ≠ 0 }
  /-- `waitpid` says that the process is gone. -/
  exited : Slot → Bool
  /-- The launcher has drawn the ACTIVE that was sent last. -/
  launcherSettled : Bool
  launcherDrawsApp : Bool

/-! ### Records -/

def Session.process (session : Session) : Slot → Process
  | .launcher => session.launcher
  | .task index => session.tasks index

/-- Changes one record. -/
def Session.update (session : Session) (slot : Slot) (f : Process → Process) : Session :=
  match slot with
  | .launcher => { session with launcher := f session.launcher }
  | .task index => { session with tasks := Function.update session.tasks index (f (session.tasks index)) }

def Session.record (session : Session) (event : Event) : Session :=
  { session with log := session.log ++ [event] }

/-- `session->app`; the idle record is a free one. -/
def Session.appProcess (session : Session) : Process :=
  match session.app with
  | some index => session.tasks index
  | none => {}

def Session.updateApp (session : Session) (f : Process → Process) : Session :=
  match session.app with
  | some index => session.update (.task index) f
  | none => session

def isApp (session : Session) (slot : Slot) : Bool :=
  match slot with
  | .launcher => false
  | .task index => session.app == some index

def findTask (session : Session) (p : Process → Bool) : Option (Fin 4) :=
  (List.finRange 4).find? fun index => p (session.tasks index)

def taskForId (session : Session) (id : List UInt8) : Option (Fin 4) :=
  findTask session fun task => task.pid != 0 && task.appId == id

def freeTask (session : Session) : Option (Fin 4) := findTask session fun task => task.pid == 0

def taskForToken (session : Session) (token : ℕ) : Option (Fin 4) :=
  findTask session fun task => token != 0 && task.pid != 0 && task.token == token

/-! ### Desktop files -/

def lower (b : UInt8) : UInt8 := if byte 'A' ≤ b ∧ b ≤ byte 'Z' then b + 32 else b

/-- What stands after the last of these bytes, if there is one. -/
def afterLast (b : UInt8) (text : List UInt8) : Option (List UInt8) :=
  if b ∈ text then some (text.reverse.takeWhile (· != b)).reverse else none

/-- The pieces that end with a semicolon. -/
def pieces (text : List UInt8) : List (List UInt8) := (text.splitOn (byte ';')).dropLast

def handles (entry : Entry) (path : List UInt8) : Bool :=
  let basename := (afterLast (byte '/') path).getD path
  match afterLast (byte '.') basename with
  | none => false
  | some extension =>
    !entry.hidden && extension.length + 1 != basename.length && extension != [] &&
      (pieces entry.extensions).contains (extension.map lower)

/-- `read_entry`; the identifier of what it reads is `id`. -/
def readEntry (env : Env) (id : List UInt8) : Option Entry :=
  if UiSession.taskIdValid id then
    (env.entries id).filter fun entry => !entry.hidden && ((entry.mode == .launcher) == (id == launcherId))
  else none

/-! ### What the session can see -/

def isRunning (process : Process) : Bool := process.pid != 0 && !process.closing

/-- A leaving application is still shown but no longer gets keys or focus. -/
def appInForeground (session : Session) : Bool :=
  session.appProcess.pid != 0 && !session.appProcess.closing && !session.appProcess.leaving

def launchInProgress (session : Session) : Bool :=
  session.launch.launchStarting || session.launch.appBusy || session.launch.appBusyFinishing

/-- The launcher runs and has drawn a frame. -/
def launcherUp (session : Session) : Bool :=
  isRunning session.launcher && session.launcher.control && session.launcher.ready &&
    session.launcher.framed

def noticeDue (session : Session) : Bool :=
  session.world.batteryNotice != .none && !session.world.locked && !session.world.displayOff

def noticeCoversApp (session : Session) : Bool :=
  noticeDue session && (appInForeground session || launchInProgress session) && launcherUp session &&
    session.world.batteryNoticeDrawn && session.world.launcherShown

def clockCoversApp (session : Session) : Bool :=
  session.world.clockDue && launcherUp session && session.world.clockDrawn &&
    session.world.launcherShown

def launcherOnTop (session : Session) : Bool :=
  session.world.locked || noticeCoversApp session || clockCoversApp session

/-- Quick settings covers Home in the unlocked launcher. -/
def quickSettingsShown (session : Session) : Bool :=
  session.launcherQuickSettingsView && isRunning session.launcher && session.launcher.control &&
    session.launcherHomeView && !session.world.locked && !appInForeground session &&
    !launchInProgress session && !session.world.clockDue

/-! ### Tasks -/

def taskOf (process : Process) : UiSession.Task :=
  ⟨process.appId, if process.title ≠ [] then process.title else process.appId, process.lifecycle,
    process.token⟩

/-- The message that `send_tasks` builds. -/
def tasksMessage (session : Session) : Message :=
  { type := .tasks
    hasTasks := true
    tasks := ((List.finRange 4).map session.tasks |>.filter fun task => task.pid != 0).map taskOf }

def sendTasks (session : Session) : Session :=
  if !session.launcher.control || session.destroying then session
  else session.record (.tasks (tasksMessage session))

def setLifecycle (session : Session) (slot : Slot) (lifecycle : Lifecycle) : Session :=
  match slot with
  | .launcher => session
  | .task index =>
    let task := session.tasks index
    if task.pid = 0 ∨ task.lifecycle = lifecycle then session
    else sendTasks (session.update slot fun p => { p with lifecycle })

def requestClose (session : Session) (slot : Slot) (time : ℕ) : Session :=
  let process := session.process slot
  if process.pid = 0 ∨ process.closing then session
  else
    let session := session.update slot fun p =>
      { p with closing := true, closeSerial := 0, closeWaiting := false, closeActivate := false }
    let session := setLifecycle session slot .closing
    session.update slot fun p => { p with closingMs := time }

/-! ### Launches -/

/-- The next number of 32 bits, never zero. -/
def nextSerial (serial : ℕ) : ℕ := if Word.add 32 serial 1 = 0 then 1 else Word.add 32 serial 1

def finishLaunch (session : Session) : Session :=
  { session with
    launch :=
      { session.launch with
        launchStarting := false
        launchRetained := false
        activationReady := false
        appBusy := false
        appBusyFinishing := false
        launchId := []
        launchTitle := [] } }

def clearPendingLaunch (session : Session) : Session :=
  { session with launch := { session.launch with pendingId := [] } }

def finishActivation (session : Session) : Session :=
  if !session.launch.launchStarting || !session.launch.activationReady ||
      !session.appProcess.ready || !session.appProcess.drawn then session
  else
    let session := { session with launch := { session.launch with launchStarting := false } }
    if !session.launch.appBusy && !session.launch.appBusyFinishing then finishLaunch session
    else session

/-- Retaining a task never moves its record, peer or pidfd. -/
def parkApp (session : Session) : Session :=
  match session.app with
  | none => session
  | some index =>
    let session := session.update (.task index) fun p =>
      { p with shown := false, leaving := false, parkOnLeave := false }
    let session := setLifecycle session (.task index) .background
    { session with app := none }

def leaveApp (session : Session) (retain : Bool) (time : ℕ) : Session :=
  match session.app with
  | none => session
  | some index =>
    let app := session.tasks index
    if !isRunning app || app.leaving then session
    else
      let session := if session.launch.pendingId = [] then finishLaunch session else session
      let session := session.update (.task index) fun p => { p with parkOnLeave := retain }
      let session := setLifecycle session (.task index) (if retain then .background else .closing)
      if !app.shown || launcherOnTop session || session.world.displayOff then
        if retain then parkApp session else requestClose session (.task index) time
      else session.update (.task index) fun p => { p with leaving := true, handoffMs := time }

/-- `begin_launch`, and whether it began one. -/
def beginLaunch (session : Session) (id : List UInt8) (entry : Entry) (activation : Activation)
    (time : ℕ) : Bool × Session :=
  let session := session.record (.beginLaunch id)
  let existing := taskForId session id
  -- A full registry keeps its existing applications intact.
  if existing.isNone && (freeTask session).isNone then (false, session)
  else
    let session :=
      { session with
        selectedId := id
        launch :=
          { pendingId := id
            launchId := id
            launchTitle := entry.title
            launchMs := time
            launchStarting := true
            appBusy := false
            appBusyFinishing := false
            launchGeneration := nextSerial session.launch.launchGeneration
            launchActivation := activation
            launchRetained := existing.isSome
            activationReady := false } }
    let session := leaveApp session true time
    (true, if entry.mode = .fullscreen then requestClose session .launcher time else session)

def launch (session : Session) (env : Env) (id : List UInt8) (activation : Activation) : Session :=
  -- An impatient second press cannot replace the operation being cancelled.
  if launchInProgress session then session
  else
    let session := clearPendingLaunch session
    match readEntry env id with
    | none => session
    | some entry =>
      if entry.mode = .launcher then session
      else
        let session :=
          match activation, taskForId session id with
          | .open, some index =>
            let session := session.update (.task index) fun p => { p with returnOrigin := 0 }
            if session.document.handlerToken = (session.tasks index).token then
              { session with document := { session.document with detached := true } }
            else session
          | _, _ => session
        (beginLaunch session id entry activation env.time).2

/-! ### Documents -/

/-- The task that holds the handoff is in the foreground; the idle slot holds it
until a handler has been started. -/
def handlerInForeground (session : Session) : Bool :=
  if session.document.handlerToken ≠ 0 then
    (taskForToken session session.document.handlerToken).any fun index => session.app == some index
  else session.app == none

def documentResult (session : Session) (status : DocumentStatus) (error : ℤ) : Session :=
  let request := session.document
  let origin := taskForToken session request.originToken
  if request.requestId = 0 then session
  else
    let told :=
      match origin with
      | some index =>
        if (session.tasks index).control && !(session.tasks index).closing then
          session.record (.documentResult request.originToken request.requestId status error)
        else session
      | none => session
    if status = .wait then told
    else
      let back :=
        status ≠ .accepted ∧ origin.isSome ∧
          ((handlerInForeground session ∧ origin ≠ session.app) ∨
            (session.launch.launchStarting ∧ request.serial ≠ 0 ∧
              request.serial = session.launch.launchGeneration))
      { told with
        returnToken := if back then request.originToken else told.returnToken
        document := {} }

def documentLaunchResult (session : Session) (status : DocumentStatus) (error : ℤ) : Session :=
  if session.document.requestId ≠ 0 ∧ session.document.serial ≠ 0 ∧
      session.document.serial = session.launch.launchGeneration ∧
      session.document.handlerId = session.launch.launchId then
    documentResult session status error
  else session

def documentDelivered (session : Session) : Bool :=
  (taskForToken session session.document.handlerToken).any fun index =>
    (session.tasks index).connected

/-- `send_activation`: a task that is to open the document becomes its handler. -/
def sendActivation (session : Session) (index : Fin 4) : Session :=
  if session.document.requestId ≠ 0 ∧
      session.document.serial = session.launch.launchGeneration ∧
      (session.tasks index).appId = session.document.handlerId ∧ session.app = some index ∧
      session.launch.launchStarting then
    { session with
      document := { session.document with handlerToken := (session.tasks index).token } }
  else session

def cancelLaunch (session : Session) (time : ℕ) : Session :=
  let ownsOperation :=
    session.launch.pendingId = [] ∧ session.appProcess.appId = session.launch.launchId
  let retained := session.launch.launchRetained
  if !launchInProgress session then session
  else
    let session := documentLaunchResult session .cancelled 0
    let session := clearPendingLaunch session
    let session := { session with launcherHomeView := false }
    -- Before the fork, the selected record may still be an unrelated task
    -- completing its Home handoff. Cancelling the new launch retains it.
    let session :=
      if ownsOperation then
        if retained then leaveApp session true time
        else
          match session.app with
          | none => session
          | some index =>
            requestClose (session.update (.task index) fun p => { p with cancelled := true })
              (.task index) time
      else session
    finishLaunch session

def openDocumentWith (session : Session) (env : Env) (id : List UInt8) : Session :=
  let request := session.document
  let error := env.pathError request.path
  match (if error = 0 then readEntry env id else none) with
  | none => documentResult session .error (if error = 0 then enoent else error)
  | some entry =>
    if entry.mode = .launcher ∨ !handles entry request.path then
      documentResult session .error enoent
    else if (taskForId session id).isNone ∧ (freeTask session).isNone then
      documentResult session .error eusers
    else
      let session := { session with document := { request with handlerId := id } }
      let (began, session) := beginLaunch session id entry .open env.time
      if began then
        { session with
          document := { session.document with serial := session.launch.launchGeneration } }
      else documentResult session .error ebusy

/-- The identifier of a file of the directory. -/
def idOfFile (name : List UInt8) : Option (List UInt8) :=
  if name.length ≤ 8 ∨ UiSession.idBytes ≤ name.length - 8 ∨
      name.drop (name.length - 8) ≠ ascii ".desktop" then none
  else some (name.take (name.length - 8))

/-- The installed applications that handle a path. -/
def candidates (env : Env) (names : List (List UInt8)) (path : List UInt8) : List (List UInt8) :=
  (names.filterMap idOfFile).filter fun id =>
    (readEntry env id).any fun entry => entry.mode != .launcher && handles entry path

def openDocument (session : Session) (env : Env) (origin : Fin 4) (message : Message) : Session :=
  let token := (session.tasks origin).token
  if session.app ≠ some origin ∨ !appInForeground session ∨ session.world.locked ∨
      session.document.requestId ≠ 0 ∨ launchInProgress session then
    session.record (.refused token message.serial)
  else
    let session := session.record (.opened token message.serial)
    let session :=
      { session with
        document :=
          { session.document with
            requestId := message.serial, originToken := token, path := message.path } }
    let error := env.pathError message.path
    if error ≠ 0 then documentResult session .error error
    else
      match env.directory with
      | .error error => documentResult session .error error
      | .ok names =>
        let choices := candidates env names message.path
        if UiSession.documentChoiceMax < choices.length then
          documentResult session .error eoverflow
        else
          match choices with
          | [] => documentResult session .error enoexec
          | [id] => openDocumentWith session env id
          -- DOCUMENT_CHOICES goes to the origin.
          | _ => session

/-! ### Home and closing -/

def returnHome (session : Session) (time : ℕ) : Session :=
  let session :=
    if session.document.handlerId ≠ [] ∧ !documentDelivered session then
      documentResult session .cancelled 0
    else session
  let session := { session with returnToken := 0 }
  let session := finishLaunch (clearPendingLaunch session)
  let session :=
    { session with
      tasks := fun index => { session.tasks index with closeActivate := false }
      launcherHomeView := true
      launcherTasksView := false
      launcherQuickSettingsView := false }
  leaveApp session true time

def finishUserClose (session : Session) (slot : Slot) (time : ℕ) : Session :=
  let session := session.update slot fun p =>
    { p with closeSerial := 0, closeWaiting := false, closeActivate := false }
  if !isApp session slot then requestClose session slot time
  else
    let session := session.update slot fun p => { p with parkOnLeave := false }
    let session := { session with launcherHomeView := false }
    if (session.process slot).leaving then requestClose session slot time
    else leaveApp session false time

def prepareUserClose (session : Session) (slot : Slot) (env : Env) : Session :=
  let process := session.process slot
  if !isRunning process ∨ (process.closeSerial ≠ 0 ∧ !process.closeWaiting) then session
  else
    let session :=
      if process.closeSerial = 0 then
        let serial := nextSerial session.nextCloseSerial
        { session with nextCloseSerial := serial }.update slot fun p =>
          { p with closeSerial := serial, closeRequestedMs := env.time }
      else session
    let session := session.update slot fun p => { p with closeActivate := !isApp session slot }
    if !process.control ∨ !env.sends then finishUserClose session slot env.time else session

def closeReply (session : Session) (slot : Slot) (message : Message) (time : ℕ) : Session :=
  let process := session.process slot
  if process.closeSerial = 0 ∨ process.closeSerial ≠ message.serial ∨ process.closing then session
  else
    let restarts := session.document.restarting ∧ session.document.handlerToken = process.token
    if message.value = ascii "ready" then
      if restarts then requestClose session slot time else finishUserClose session slot time
    else if message.value = ascii "cancel" then
      let session := if restarts then documentResult session .cancelled 0 else session
      session.update slot fun p =>
        { p with closeSerial := 0, closeWaiting := false, closeActivate := false }
    else if message.value = ascii "wait" then
      session.update slot fun p =>
        { p with closeWaiting := true, closeActivate := p.closeActivate && !isApp session slot }
    else session

def handlerDocumentResult (session : Session) (index : Fin 4) (message : Message) (env : Env) :
    Session :=
  let process := session.tasks index
  let request := session.document
  let ownsLaunch :=
    session.launch.launchStarting && request.serial == session.launch.launchGeneration &&
      session.app == some index
  if request.requestId = 0 ∨ request.serial ≠ message.serial ∨
      request.handlerToken ≠ process.token ∨ process.closing then session
  else
    match message.documentStatus with
    | .restartRequired =>
      if request.restarted then
        let session := documentResult session .error enotsup
        if ownsLaunch then finishLaunch session else session
      else
        let session :=
          { session with
            document := { request with restarted := true, restarting := true, waiting := true } }
        -- The existing close callback owns the only ready/cancel/wait decision.
        let session := if ownsLaunch then finishLaunch session else session
        prepareUserClose session (.task index) env
    | .wait =>
      documentResult { session with document := { request with waiting := true } } .wait 0
    | .accepted =>
      let session := session.update (.task index) fun p =>
        { p with
          returnOrigin :=
            if request.detached ∨ request.originToken = p.token then 0 else request.originToken }
      let session :=
        if ownsLaunch then
          finishActivation { session with launch := { session.launch with activationReady := true } }
        else session
      documentResult session .accepted message.documentError
    | status =>
      let session := if ownsLaunch then finishLaunch session else session
      documentResult session status message.documentError

/-! ### Busy -/

def setBusy (session : Session) (message : Message) (time : ℕ) : Session :=
  if !appInForeground session then session
  else if message.enabled then
    let app := session.appProcess
    let launch :=
      if launchInProgress session then session.launch
      else
        { session.launch with
          launchRetained := false
          launchMs := time
          launchGeneration := nextSerial session.launch.launchGeneration }
    { session with
      launch :=
        { launch with
          launchId := app.appId
          launchTitle := if message.title ≠ [] then message.title else app.title
          appBusy := true
          appBusyFinishing := false } }
  else
    { session with
      launch :=
        { session.launch with
          appBusyFinishing := session.launch.appBusy || session.launch.appBusyFinishing
          appBusy := false } }

/-! ### Settings that restart the clients -/

/-- What a SETTING changed, besides what only the settings know of. -/
structure SettingEffect where
  /-- The language or the theme changed: `close_for_restart`. -/
  closesClients : Bool
  /-- The language changed: `refresh_default_titles`. -/
  refreshesTitles : Bool
  deriving DecidableEq, Repr

def slots : List Slot := .launcher :: (List.finRange 4).map .task

def closeForRestart (session : Session) (requester : Slot) (time : ℕ) : Session :=
  slots.foldl (fun session slot =>
    if slot = requester then session else requestClose session slot time) session

def refreshTitle (env : Env) (process : Process) : Process :=
  if process.pid = 0 ∨ process.titleSupplied then process
  else
    match readEntry env process.appId with
    | none => process
    | some entry => { process with title := entry.title }

def refreshDefaultTitles (session : Session) (env : Env) : Session :=
  sendTasks
    { session with
      launcher := refreshTitle env session.launcher
      tasks := fun index => refreshTitle env (session.tasks index) }

def handleSetting (session : Session) (slot : Slot) (effect : SettingEffect) (env : Env) : Session :=
  let session := if effect.closesClients then closeForRestart session slot env.time else session
  if effect.refreshesTitles then refreshDefaultTitles session env else session

/-! ### Messages -/

def batteryNoticeCode : BatteryAlert → List UInt8
  | .none => []
  | .low => ascii "battery-low"
  | .critical => ascii "battery-critical"

/-- A view that SELECT reports, if it is one of the two. -/
def selectFlag (value yes no : List UInt8) (old : Bool) : Option Bool :=
  if value = yes then some true else if value = no then some false
  else if value = [] then some old else none

def receiveSelect (session : Session) (message : Message) : Bool × Session :=
  if message.value = ascii "tasks" then (true, { session with launcherTasksView := message.enabled })
  else if message.value = ascii "quick-settings" then
    (true, { session with launcherQuickSettingsView := message.enabled })
  else if message.selectedId ≠ [] ∧ !UiSession.taskIdValid message.selectedId then (false, session)
  else
    match selectFlag message.value (ascii "home") (ascii "catalogue") session.launcherHomeView with
    | none => (false, session)
    | some homeView =>
      let session := { session with launcherHomeView := homeView }
      match selectFlag message.name (ascii "list") (ascii "grid") session.launcherList with
      | none => (false, session)
      | some list => (true, { session with launcherList := list, selectedId := message.selectedId })

/-- ACTIVATE and CLOSE_TASK name a task that can be acted on. -/
def taskAvailable (session : Session) (message : Message) : Option (Fin 4) :=
  (taskForId session message.appId).filter fun index =>
    let task := session.tasks index
    task.token == message.token && !task.closing && task.lifecycle != .closing &&
      !session.world.locked && !noticeCoversApp session && !launchInProgress session &&
      !session.world.clockDue

/-- The messages of a task or the launcher that identified itself. -/
def receiveAuthenticated (session : Session) (slot : Slot) (message : Message)
    (effect : SettingEffect) (env : Env) : Bool × Session :=
  let process := session.process slot
  match message.type, slot with
  | .storageRequest, .launcher => (false, session)
  | .storageRequest, .task _ => (true, session)
  | .openFile, .launcher => (false, session)
  | .openFile, .task index => (true, openDocument session env index message)
  | .documentChoice, _ =>
    if process.token ≠ session.document.originToken ∨
        message.serial ≠ session.document.requestId then (true, session)
    else if message.appId = [] then (true, documentResult session .cancelled 0)
    else (true, openDocumentWith session env message.appId)
  | .documentResult, .launcher => (false, session)
  | .documentResult, .task index => (true, handlerDocumentResult session index message env)
  | .ready, _ =>
    let session := session.update slot fun p =>
      { p with handoffMs := if !p.ready && p.drawn then env.time else p.handoffMs, ready := true }
    (true, if isApp session slot then finishActivation session else session)
  | .launch, .launcher =>
    if launchInProgress session ∨ session.world.clockDue then (true, session)
    else if process.closing then (false, session)
    -- Nothing starts behind the keyguard.
    else if !session.world.locked then (true, launch session env message.appId .open)
    else (true, session)
  | .launch, .task _ => (false, session)
  | .select, .launcher => receiveSelect session message
  | .select, .task _ => (false, session)
  | .activeAck, .launcher => (true, session)
  | .activeAck, .task _ => (false, session)
  | .redrawAck, _ => (true, session)
  | .activationAck, .launcher => (false, session)
  | .activationAck, .task index =>
    if session.launch.launchStarting ∧ session.launch.pendingId = [] ∧ session.app = some index ∧
        !process.closing ∧ process.appId = session.launch.launchId ∧
        message.serial = session.launch.launchGeneration then
      (true, finishActivation
        { session with launch := { session.launch with activationReady := true } })
    else (true, session)
  | .closeAck, _ => (true, session)
  | .title, _ =>
    (true, sendTasks (session.update slot fun p =>
      { p with titleSupplied := true, title := message.title }))
  | .softkeys, _ => (true, session)
  | .home, _ =>
    if session.world.clockDue then (true, session)
    -- A queued Home from a retained task cannot send another app Home.
    else if !isApp session slot ∧ slot ≠ .launcher then (true, session)
    else (true, returnHome session env.time)
  | .cancel, .launcher =>
    if !session.world.locked ∧ !noticeCoversApp session ∧ !session.world.clockDue then
      (true, cancelLaunch session env.time)
    else (true, session)
  | .cancel, .task _ => (false, session)
  -- A command queued before Home cannot start a hidden launch modal.
  | .busy, .launcher => (false, session)
  | .busy, .task index =>
    if session.app = some index then (true, setBusy session message env.time) else (true, session)
  | .exit, .launcher =>
    let session :=
      if process.closing then session else session.update slot fun p => { p with failed := true }
    (true, requestClose session slot env.time)
  | .exit, .task _ =>
    (true, if process.closing then session else prepareUserClose session slot env)
  | .closeReply, .launcher => (false, session)
  | .closeReply, .task _ => (true, closeReply session slot message env.time)
  | .keepScreenOn, _ => (true, session)
  | .vibrate, _ => (true, session)
  | .setting, .launcher =>
    ((["brightness", "brightness_preview", "volume", "volume_preview", "wifi"].map ascii).contains
      message.name, session)
  | .setting, .task index =>
    if process.appId ≠ settingsId then (false, session)
    else if session.app ≠ some index ∨ !appInForeground session ∨ launcherOnTop session then
      (true, session)
    else (true, handleSetting session slot effect env)
  | .clock, _ => (env.clockAccepted, session)
  | .dismiss, .launcher =>
    if message.notice ≠ batteryNoticeCode .low ∧ message.notice ≠ batteryNoticeCode .critical then
      (false, session)
    -- A low notice closed after it became critical leaves that.
    else if message.notice = batteryNoticeCode session.world.batteryNotice then
      (true, { session with
        world := { session.world with batteryNotice := .none, batteryNoticeDrawn := false } })
    else (true, session)
  | .dismiss, .task _ => (false, session)
  | .mode, .launcher => (false, session)
  | .mode, .task _ =>
    if message.mode = .launcher then (false, session)
    else if !process.closing ∧ process.lifecycle ≠ .closing ∧ message.mode ≠ process.requestedMode then
      (true, session.update slot fun p =>
        { p with requestedMode := message.mode, modeMs := env.time, placedByBuffer := true })
    else (true, session)
  | .tasks, .launcher => if message.hasTasks then (false, session) else (true, sendTasks session)
  | .tasks, .task _ => (false, session)
  | .activate, .launcher =>
    match taskAvailable session message with
    | none => (true, sendTasks session)
    | some _ => (true, launch session env message.appId .resume)
  | .activate, .task _ => (false, session)
  | .closeTask, .launcher =>
    match taskAvailable session message with
    | none => (true, sendTasks session)
    | some index => (true, prepareUserClose session (.task index) env)
  | .closeTask, .task _ => (false, session)
  | _, _ => (false, session)

/-- `receive_message`: whether the message was accepted, and the session after it. -/
def receiveMessage (session : Session) (slot : Slot) (authenticated : Bool) (message : Message)
    (effect : SettingEffect) (env : Env) : Bool × Session :=
  let process := session.process slot
  if process.pid = 0 then (false, session)
  else if authenticated then receiveAuthenticated session slot message effect env
  else if message.type ≠ .hello ∨ message.appId ≠ process.appId ∨ process.control then
    (false, session)
  else
    let session := session.update slot fun p => { p with control := true, connected := true }
    -- CONFIG; a task then gets its activation, the launcher the tasks.
    match slot with
    | .launcher => (true, sendTasks session)
    | .task index => (true, sendActivation session index)

/-- `disconnect_peer` for the control connection of a process. -/
def disconnectPeer (session : Session) (slot : Slot) (time : ℕ) : Session :=
  let process := session.process slot
  if process.pid = 0 ∨ !process.control then session
  else
    let session := session.update slot fun p =>
      { p with disconnected := p.disconnected || !p.closing, control := false }
    requestClose session slot time

end SessionCore
