/-
Processes of the session (`manage_processes` in `session-core.c`), and its runs.

Every tick reaps the processes that are gone, closes those that take too long,
starts what is pending and hands the screen over.  `machine` has these ticks
besides the messages, disconnects and keys, in any order.

Times are as the source reads them: `time` is that of the tick, `Env.time` what
the clock says later, and a difference is one of 64 bits.
-/
import Fplinux.Session.Core

namespace SessionCore

open UiSession (Message Mode)

/-- The milliseconds from one time to another. -/
def elapsed (time since : ℕ) : ℕ := Word.sub 64 time since

/-! ### Starting -/

/-- `start_process`, once the child exists. -/
def startProcess (session : Session) (slot : Slot) (pid : ℕ) (id : List UInt8) (entry : Entry)
    (time : ℕ) : Session :=
  -- Each start begins in the declared mode.
  let process : Process :=
    { pid
      appId := id
      title := entry.title
      mode := entry.mode
      configuredMode := entry.mode
      declaredMode := entry.mode
      requestedMode := entry.mode
      startedMs := time }
  match slot with
  | .launcher =>
    -- A new launcher's view is not placed yet and shows nothing.
    sendTasks
      { session with
        launcher := process
        launcherTasksView := false
        launcherQuickSettingsView := false
        world :=
          { session.world with
            batteryNoticeDrawn := false, clockDrawn := false, launcherShown := false } }
  | .task index =>
    let token := nextSerial session.nextTaskToken
    let document :=
      if session.document.requestId ≠ 0 ∧ session.document.serial = session.launch.launchGeneration ∧
          id = session.document.handlerId then
        { session.document with handlerToken := token }
      else session.document
    sendTasks
      { session with
        tasks := Function.update session.tasks index { process with lifecycle := .foreground, token }
        nextTaskToken := token
        starts := session.starts + 1
        document }

/-! ### Reaping -/

/-- A document goes with the task that asked for it. -/
def dropDocument (session : Session) (token : ℕ) (time : ℕ) : Session :=
  let request := session.document
  if request.requestId = 0 ∨ request.originToken ≠ token then session
  else
    let delivered := documentDelivered session
    let ownsLaunch :=
      session.launch.launchStarting && request.serial == session.launch.launchGeneration
    let session := session.record (.dropped request.originToken request.requestId)
    let session := { session with document := {} }
    if ownsLaunch then if delivered then finishLaunch session else cancelLaunch session time
    else session

/-- The document waits for this task to be gone. -/
def restartsDocument (session : Session) (token : ℕ) : Bool :=
  session.document.requestId != 0 && session.document.restarting &&
    session.document.handlerToken == token

/-- The answer of a handler that is gone. -/
def failDocument (session : Session) (process : Process) : Session :=
  if session.document.requestId ≠ 0 ∧ session.document.handlerToken = process.token ∧
      !restartsDocument session process.token then
    documentResult session .error (if process.failed then etimedout else eio)
  else session

/-- Where to go back to, and how often the launcher failed. -/
def noteExit (session : Session) (slot : Slot) (restarts : Bool) : Session :=
  let process := session.process slot
  let session :=
    if !restarts ∧ isApp session slot ∧ process.closing ∧ !process.failed ∧
        !process.disconnected ∧ process.returnOrigin ≠ 0 then
      { session with returnToken := process.returnOrigin }
    else session
  if slot = .launcher ∧ (!process.closing ∨ process.disconnected ∨ process.failed) then
    { session with launcherFailures := session.launcherFailures + 1 }
  else session

/-- The record is free again. -/
def releaseProcess (session : Session) (slot : Slot) : Session :=
  let session :=
    if isApp session slot then
      let session := if session.launch.pendingId = [] then finishLaunch session else session
      { session with app := none }
    else session
  session.update slot fun _ => {}

def reapProcess (session : Session) (env : Env) (slot : Slot) : Session :=
  if (session.process slot).pid = 0 ∨ !env.exited slot then session
  else
    let session := dropDocument session (session.process slot).token env.time
    let restarts := restartsDocument session (session.process slot).token
    let session := failDocument session (session.process slot)
    let session := noteExit session slot restarts
    let session := releaseProcess session slot
    let session :=
      if restarts then
        { session with document := { session.document with waiting := false, handlerToken := 0 } }
      else session
    sendTasks session

/-! ### Time limits -/

def startupTimeout (session : Session) (env : Env) (time : ℕ) (slot : Slot) : Session :=
  let process := session.process slot
  let own := isApp session slot
  let started :=
    if own && session.launch.launchStarting then session.launch.launchMs else process.startedMs
  if (!process.ready ∨ !process.framed) ∧ startupMs ≤ elapsed time started ∧ !process.closing ∧
      !(session.document.waiting && session.document.handlerToken == process.token) ∧
      !(own && session.launch.launchRetained) then
    requestClose (session.update slot fun p => { p with failed := true }) slot env.time
  else session

/-- A process that does not close is killed, once. -/
def killClosing (session : Session) (time : ℕ) (slot : Slot) : Session :=
  session.update slot fun p =>
    { p with killed := p.killed || (p.closing && closeKillMs ≤ elapsed time p.closingMs) }

def closeTimeout (session : Session) (env : Env) (time : ℕ) (slot : Slot) : Session :=
  let process := session.process slot
  if process.closeSerial ≠ 0 ∧ !process.closeWaiting ∧
      prepareCloseMs ≤ elapsed time process.closeRequestedMs then
    finishUserClose session slot env.time
  else session

def manageProcess (env : Env) (time : ℕ) (session : Session) (slot : Slot) : Session :=
  let session := reapProcess session env slot
  if (session.process slot).pid = 0 then session
  else closeTimeout (killClosing (startupTimeout session env time slot) time slot) env time slot

/-- A document that waits for its handler has no limit. -/
def launchTimeout (session : Session) (env : Env) (time : ℕ) : Session :=
  if session.launch.launchStarting ∧ !session.document.waiting ∧
      startupMs ≤ elapsed time session.launch.launchMs then
    cancelLaunch (documentLaunchResult session .error etimedout) env.time
  else session

/-! ### Launches of the session itself -/

/-- Goes back to the task a document came from. -/
def returnToOrigin (session : Session) (env : Env) : Session :=
  if session.returnToken ≠ 0 ∧ !launchInProgress session ∧ !session.world.locked ∧
      !session.world.clockDue then
    let origin := taskForToken session session.returnToken
    let session := { session with returnToken := 0 }
    match origin with
    | none => session
    | some index =>
      if isRunning (session.tasks index) then
        launch session env (session.tasks index).appId .resume
      else session
  else session

/-- The handler is gone and can be started again. -/
def restartDocument (session : Session) (env : Env) : Session :=
  if session.document.restarting ∧ session.document.handlerToken = 0 ∧ !launchInProgress session then
    let request := session.document
    let session := session.record (.restarted request.originToken request.requestId)
    openDocumentWith { session with document := { request with restarting := false } } env
      request.handlerId
  else session

/-- A hidden task that asks before it closes comes to the foreground. -/
def activateClosing (session : Session) (env : Env) : Session :=
  if !session.destroying ∧ !launchInProgress session ∧ !session.world.locked ∧
      !noticeCoversApp session ∧ !session.world.clockDue then
    match findTask session fun p => p.closeActivate && p.closeWaiting && isRunning p with
    | none => session
    | some index =>
      let session := session.update (.task index) fun p => { p with closeActivate := false }
      let session := { session with launcherTasksView := false }
      launch session env (session.tasks index).appId .resume
  else session

/-! ### The pending launch -/

/-- A retained task comes back. -/
def resumeTask (session : Session) (index : Fin 4) (time : ℕ) : Session :=
  let session := { session with app := some index }
  let session := session.update (.task index) fun p => { p with shown := false, handoffMs := time }
  sendActivation (setLifecycle session (.task index) .foreground) index

/-- A new task is forked. -/
def forkTask (session : Session) (env : Env) (entry : Entry) : Session :=
  match freeTask session with
  | none => finishLaunch (documentLaunchResult session .error eusers)
  | some index =>
    let session :=
      { session with app := some index, launch := { session.launch with launchRetained := false } }
    match env.fork (.task index) with
    | .ok pid => startProcess session (.task index) pid session.launch.pendingId entry env.time
    | .error error =>
      let session := documentLaunchResult session .error (if error ≠ 0 then error else eio)
      finishLaunch { session with app := none }

def startPending (session : Session) (env : Env) (time : ℕ) : Session :=
  let id := session.launch.pendingId
  if session.destroying ∨ id = [] ∨ session.appProcess.pid ≠ 0 then session
  else
    let existing := taskForId session id
    let running := existing.filter fun index => isRunning (session.tasks index)
    if session.launch.launchActivation = .resume ∧ running.isNone then
      sendTasks (finishLaunch (clearPendingLaunch session))
    else
      match readEntry env id with
      | none => finishLaunch (clearPendingLaunch (documentLaunchResult session .error enoent))
      | some entry =>
        if entry.mode = .launcher then
          finishLaunch (clearPendingLaunch (documentLaunchResult session .error enoent))
        -- No replacement fork before the old instance is reaped.
        else if existing.isSome ∧ running.isNone then session
        -- A Home handoff may have restarted the fullscreen launcher.
        else if entry.mode = .fullscreen ∧ !session.world.clockDue ∧ session.launcher.pid ≠ 0 then
          requestClose session .launcher env.time
        else if entry.mode ≠ .fullscreen ∨ session.launcher.pid = 0 then
          match running with
          | some index => clearPendingLaunch (resumeTask session index time)
          | none => clearPendingLaunch (forkTask session env entry)
        else session

/-! ### The launcher -/

/-- A fullscreen application runs without the launcher, unless it asked for the
integrated mode. -/
def appRunsAlone (session : Session) : Bool :=
  let app := session.appProcess
  app.declaredMode == .fullscreen && app.requestedMode == .fullscreen &&
    app.configuredMode == .fullscreen && app.mode == .fullscreen

/-- The keyguard, a notice and a leaving application need the launcher even above a
fullscreen application. -/
def startLauncher (session : Session) (env : Env) : Session :=
  let app := session.appProcess
  if !session.destroying ∧ session.launcher.pid = 0 ∧
      (app.pid = 0 ∨ app.closing ∨ !appRunsAlone session ∨ app.leaving ∨ session.world.locked ∨
        noticeDue session ∨ session.world.clockDue) ∧
      (session.launch.pendingId = [] ∨ app.leaving ∨ session.world.clockDue) ∧
      session.launcherFailures < 3 then
    match readEntry env launcherId, env.fork .launcher with
    | some entry, .ok pid => startProcess session .launcher pid launcherId entry env.time
    | _, _ => { session with launcherFailures := session.launcherFailures + 1 }
  else session

/-- An unanswered notice keeps it, also while the display is off. -/
def stopLauncher (session : Session) (env : Env) : Session :=
  if !session.world.locked ∧ appInForeground session ∧ appRunsAlone session ∧
      session.world.batteryNotice = .none ∧ !session.world.clockDue ∧
      isRunning session.launcher then
    requestClose session .launcher env.time
  else session

def settleLauncher (session : Session) : Session :=
  if isRunning session.launcher ∧ session.launcher.ready ∧ session.launcher.framed then
    { session with launcherFailures := 0 }
  else session

/-! ### The screen -/

/-- The launcher runs and can be told what to draw. -/
def launcherConnected (session : Session) : Bool :=
  isRunning session.launcher && session.launcher.control

/-- The swap of the application and the launcher waits for a frame of the launcher. -/
def swapWaits (session : Session) (env : Env) (app : Process) : Bool :=
  let connected := launcherConnected session
  let settled := connected && env.launcherSettled
  -- Nothing to swap on screen; a hidden launcher does not draw either.
  if launcherOnTop session || session.world.displayOff then false
  else if app.leaving then
    !(settled && !env.launcherDrawsApp) &&
      (connected || (!session.destroying && decide (session.launcherFailures < 3)))
  else app.mode == .integrated && connected && !(settled && env.launcherDrawsApp)

def handOff (session : Session) (env : Env) (time : ℕ) : Session :=
  match session.app with
  | none => session
  | some index =>
    let app := session.tasks index
    if !isRunning app ∨ !app.drawn ∨ !app.ready ∨ (app.shown ∧ !app.leaving) then session
    -- An old buffer and the launcher timeout cannot acknowledge activation.
    else if !app.leaving ∧ session.launch.launchStarting ∧ !session.launch.activationReady then
      session
    else if swapWaits session env app ∧ elapsed time app.handoffMs < handoffLimitMs then session
    else if app.leaving then
      if app.parkOnLeave then parkApp session else requestClose session (.task index) env.time
    else session.update (.task index) fun p => { p with shown := true }

/-- Going between the bars waits for the launcher to draw them. -/
def modeWaits (session : Session) (env : Env) (app : Process) : Bool :=
  let connected := launcherConnected session
  let settled := connected && env.launcherSettled
  app.requestedMode == .integrated && app.shown && !launcherOnTop session &&
    !session.world.displayOff && !(settled && env.launcherDrawsApp) &&
    (connected || (!session.destroying && decide (session.launcherFailures < 3)))

def switchMode (session : Session) (env : Env) (time : ℕ) : Session :=
  let app := session.appProcess
  if !appInForeground session ∨ app.requestedMode = app.configuredMode then session
  else if modeWaits session env app ∧ elapsed time app.modeMs < handoffLimitMs then session
  else session.updateApp fun p => { p with configuredMode := p.requestedMode }

/-! ### A tick -/

def manageProcesses (session : Session) (env : Env) (time : ℕ) : Session :=
  let session := slots.foldl (manageProcess env time) session
  let session := launchTimeout session env time
  let session := returnToOrigin session env
  let session := restartDocument session env
  let session := activateClosing session env
  let session := startPending session env time
  let session := startLauncher session env
  let session := stopLauncher session env
  let session := settleLauncher session
  let session := handOff session env time
  switchMode session env time

/-! ### The shell -/

def frame (session : Session) (slot : Slot) : Session :=
  if (session.process slot).pid = 0 then session
  else session.update slot fun p => { p with framed := true }

/-- `place_app`; `fit` is the mode whose box has the size of the buffer. -/
def placeApp (session : Session) (fit : Option Mode) : Session :=
  match fit with
  | none => session
  | some mode =>
    session.updateApp fun app =>
      if !app.placedByBuffer ∨ app.closing then app else { app with mode }

/-- A command of the application ends with the next buffer. -/
def finishBusy (session : Session) : Session :=
  if session.appProcess.ready ∧ session.launch.appBusyFinishing then
    let session := { session with launch := { session.launch with appBusyFinishing := false } }
    if !session.launch.appBusy ∧ !session.launch.launchStarting then finishLaunch session
    else session
  else session

def surfaceCommitted (session : Session) (slot : Slot) (fit : Option Mode) (time : ℕ) : Session :=
  let process := session.process slot
  -- A late buffer cannot reappear or finish a replacement launch.
  if process.pid = 0 ∨ process.closing ∨ process.leaving ∨ !isApp session slot then session
  else
    let session := finishBusy (placeApp session fit)
    if process.drawn then session
    else finishActivation (session.update slot fun p => { p with drawn := true, handoffMs := time })

/-- The first part of `fplinux_session_destroy`: all clients are told to close. -/
def destroy (session : Session) (time : ℕ) : Session :=
  slots.foldl (fun session slot => requestClose session slot time)
    { session with destroying := true }

/-! ### Runs -/

/-- What happens to the session. -/
inductive Op
  /-- A connection of a process delivers a message. -/
  | receive (slot : Slot) (authenticated : Bool) (message : Message) (effect : SettingEffect)
      (env : Env)
  | disconnect (slot : Slot) (time : ℕ)
  | manage (env : Env) (time : ℕ)
  | frame (slot : Slot)
  | surfaceCommitted (slot : Slot) (fit : Option Mode) (time : ℕ)
  | home (time : ℕ)
  | cancelLaunch (time : ℕ)
  /-- The keyguard, the display, the battery, the clock or the launcher's view changed. -/
  | world (world : World)
  | destroy (time : ℕ)

/-- One message of `fplinux_session_dispatch`.  The authenticated connection of a
process is its control connection; a message that is not accepted ends it. -/
def dispatch (session : Session) (slot : Slot) (authenticated : Bool) (message : Message)
    (effect : SettingEffect) (env : Env) : Session :=
  if authenticated ∧ !(session.process slot).control then session
  else
    let (accepted, session) := receiveMessage session slot authenticated message effect env
    if accepted ∨ !authenticated then session else disconnectPeer session slot env.time

def perform (session : Session) : Op → Session
  | .receive slot authenticated message effect env =>
    dispatch session slot authenticated message effect env
  | .disconnect slot time => disconnectPeer session slot time
  | .manage env time => manageProcesses session env time
  | .frame slot => frame session slot
  | .surfaceCommitted slot fit time => surfaceCommitted session slot fit time
  | .home time => returnHome session time
  | .cancelLaunch time => cancelLaunch session time
  | .world world => { session with world }
  | .destroy time => destroy session time

/-- `fplinux_ui_session_receive` delivers the message for some packet. -/
def Received (message : Message) : Prop :=
  ∃ tokener packet, UiSession.receive tokener packet = some message

def Op.Allowed : Op → Prop
  | .receive _ _ message _ _ => Received message
  | _ => True

def machine : Machine Session Op where
  start session := ∃ world, session = { world }
  step session op session' := op.Allowed ∧ session' = perform session op

end SessionCore
