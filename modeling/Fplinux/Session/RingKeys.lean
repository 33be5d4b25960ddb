/-
Keys while a ring covers the display (`session-core.c`).

A ring takes the soft keys and the arrows: the press of such a key belongs to the
ring it was made for (`clockKeyEvents`), and only that ring is given its release.
Keys pressed on a locked phone with a ring due are blocked until released.  All
other keys go through the power policy to the focus.

What else the session does between two keys (timers, launches, the shown view, the
clock) is a step of its own here: any call of the power policy, any call of the
clock model, any view.  `Run` remembers which keys are held since when.
-/
import Fplinux.Clock.Requests
import Fplinux.Session.Keyguard

namespace RingKeys

open InputCodes
open Power (KeySource)

/-- What the keys read of the rest of the session. -/
structure View where
  launcherRunning : Bool
  launcherConnected : Bool
  launcherReady : Bool
  launcherFramed : Bool
  launcherShown : Bool
  launcherOnTop : Bool
  launcherHomeView : Bool
  launcherTasksView : Bool
  launcherQuickSettingsView : Bool
  appInForeground : Bool
  launchInProgress : Bool
  clockDrawnEvent : ℕ
  clockDisplaySuppressed : Bool
  deriving DecidableEq, Repr

/-- The part of `struct fplinux_session` that the keys use. -/
structure Session where
  power : Power.State
  clock : Clock.Model
  view : View
  clockKeyEvents : KeySource → Fin 6 → ℕ
  clockBlockedKeys : KeySource → ℕ → Bool
  launchRightHeld : Bool
  launchEscapeHeld : Bool

def clockDue (session : Session) : Bool := session.clock.active.kind ≠ .none

def clockRaisesLauncher (session : Session) : Bool :=
  clockDue session && session.view.launcherRunning && session.view.launcherConnected &&
    session.view.launcherReady && session.view.launcherFramed &&
    session.view.clockDrawnEvent == session.clock.active.id

def clockCoversApp (session : Session) : Bool :=
  clockRaisesLauncher session && session.view.launcherShown

/-- A ring covers a lit display. -/
def eligible (session : Session) : Bool :=
  clockCoversApp session && session.power.display != .off

def clockKeySlot (source : KeySource) (code : ℕ) : Option (Fin 6) :=
  if code = (if source = .phone then keyF13 else keyCompose) then some 0
  else if code = (if source = .phone then keyF14 else keyEsc) then some 1
  else if code = keyUp then some 2
  else if code = keyDown then some 3
  else if code = keyLeft then some 4
  else if code = keyRight then some 5
  else none

def setOwner (session : Session) (source : KeySource) (slot : Fin 6) (owner : ℕ) : Session :=
  { session with
    clockKeyEvents := fun s k => if s = source ∧ k = slot then owner else session.clockKeyEvents s k }

def setBlocked (session : Session) (source : KeySource) (code : ℕ) (blocked : Bool) : Session :=
  { session with
    clockBlockedKeys := fun s c =>
      if s = source ∧ c = code then blocked else session.clockBlockedKeys s c }

/-- What `clock_key` returns: whether it handled the key, and whether to deliver it. -/
structure Answer where
  handled : Bool
  deliver : Bool
  deriving DecidableEq, Repr

/-- The end of `clock_key`: a key on a locked phone with a ring due wakes the
display and is blocked. -/
def blockKey (session : Session) (source : KeySource) (code : ℕ) (pressed : Bool) (nowMs : ℕ) :
    Answer × Session :=
  if pressed ∧ clockDue session ∧ session.power.locked then
    let session :=
      if session.power.display = .off then
        { session with
          power := Power.activity session.power true nowMs
          view := { session.view with clockDisplaySuppressed := false } }
      else session
    (⟨true, false⟩, if code < keyCnt then setBlocked session source code true else session)
  else (⟨false, false⟩, session)

def clockKey (session : Session) (source : KeySource) (code : ℕ) (pressed : Bool) (nowMs : ℕ) :
    Answer × Session :=
  if code < keyCnt ∧ session.clockBlockedKeys source code then
    (⟨true, false⟩, if pressed then session else setBlocked session source code false)
  else
    match clockKeySlot source code with
    | none => blockKey session source code pressed nowMs
    | some slot =>
      let owner := session.clockKeyEvents source slot
      let eventId := session.clock.active.id
      if !pressed ∧ owner ≠ 0 then
        (⟨true, eligible session && owner == eventId⟩, setOwner session source slot 0)
      else if eligible session then
        -- A release from the application never becomes a ring action.
        let owner := if pressed ∧ owner = 0 then eventId else owner
        (⟨true, pressed && owner == eventId⟩, setOwner session source slot owner)
      else blockKey session source code pressed nowMs

/-- The clock, then the power policy: whether to deliver a key, and whether that
was for the clock to say. -/
def offerKey (session : Session) (source : KeySource) (code : ℕ) (pressed : Bool) (nowMs : ℕ) :
    Answer × Session :=
  let (answer, session) := clockKey session source code pressed nowMs
  if answer.handled then
    let session :=
      if pressed then session
      else { session with power := (Power.key session.power source code false nowMs).2 }
    (answer, session)
  else
    let (deliver, power) := Power.key session.power source code pressed nowMs
    (⟨false, deliver⟩, { session with power := power })

/-- The key that cancels a launch, and whether its press did. -/
def cancelKey : KeySource → ℕ
  | .phone => keyF14
  | .keyboard => keyEsc

def launchHeld (session : Session) : KeySource → Bool
  | .phone => session.launchRightHeld
  | .keyboard => session.launchEscapeHeld

def setLaunchHeld (session : Session) (source : KeySource) (held : Bool) : Session :=
  match source with
  | .phone => { session with launchRightHeld := held }
  | .keyboard => { session with launchEscapeHeld := held }

/-- What both kinds of keys go through; the cancelled launch itself is a later
change of the view. -/
def filterKey (session : Session) (source : KeySource) (code : ℕ) (pressed : Bool) (nowMs : ℕ) :
    Answer × Session :=
  let (answer, session) := offerKey session source code pressed nowMs
  if code = cancelKey source ∧ launchHeld session source then
    (⟨answer.handled, false⟩, if pressed then session else setLaunchHeld session source false)
  else if answer.deliver ∧ pressed ∧ code = cancelKey source ∧ session.view.launchInProgress ∧
      !session.view.launcherOnTop then
    (⟨answer.handled, false⟩, setLaunchHeld session source true)
  else (answer, session)

/-- The power key of `fplinux_session_key`; Home is a later change of the view. -/
def powerKey (session : Session) (pressed : Bool) (timeMs nowMs : ℕ) : Session :=
  let homeView := !session.view.launchInProgress && !session.view.appInForeground &&
    session.view.launcherHomeView && !session.view.launcherTasksView &&
    !session.view.launcherQuickSettingsView && !clockDue session
  let session :=
    { session with power := (Power.redKey session.power pressed timeMs homeView nowMs).2 }
  if clockDue session ∧ !pressed then
    { session with
      view := { session.view with clockDisplaySuppressed := session.power.display == .off } }
  else session

def key (session : Session) (code : ℕ) (pressed : Bool) (timeMs nowMs : ℕ) : Answer × Session :=
  if code = keyPower then (⟨false, false⟩, powerKey session pressed timeMs nowMs)
  else filterKey session .phone code pressed nowMs

def keyboardKey (session : Session) (code : ℕ) (pressed : Bool) (nowMs : ℕ) : Answer × Session :=
  filterKey session .keyboard code pressed nowMs

def cancelInput (session : Session) (source : KeySource) : Session :=
  setLaunchHeld
    { session with
      power := Power.cancelSource session.power source
      clockKeyEvents := fun s k => if s = source then 0 else session.clockKeyEvents s k
      clockBlockedKeys := fun s c => if s = source then false else session.clockBlockedKeys s c }
    source false

/-! ### Runs -/

inductive Op
  | key (code : ℕ) (pressed : Bool) (timeMs nowMs : ℕ)
  | keyboardKey (code : ℕ) (pressed : Bool) (nowMs : ℕ)
  | cancelInput (source : KeySource)
  | power (call : Power.Call) (nowMs : ℕ)
  | clock (call : Clock.Call)
  | view (view : View)

/-- What is remembered of a key that is held: the session at its first press, and
whether all its presses reached the focus. -/
structure Gesture where
  first : Session
  reached : Bool

/-- The session and the keys that are held. -/
structure Run where
  session : Session
  held : KeySource → ℕ → Option Gesture

/-- The held keys after one more event. -/
def track (run : Run) (source : KeySource) (code : ℕ) (pressed : Bool) (answer : Answer) :
    KeySource → ℕ → Option Gesture := fun s c =>
  if s = source ∧ c = code then
    if pressed then
      match run.held s c with
      | none => some ⟨run.session, !answer.handled && answer.deliver⟩
      | some gesture =>
        some ⟨gesture.first, gesture.reached && (!answer.handled && answer.deliver)⟩
    else none
  else run.held s c

def keyed (run : Run) (source : KeySource) (code : ℕ) (pressed : Bool) (outcome : Answer × Session) :
    Run :=
  ⟨outcome.2, track run source code pressed outcome.1⟩

def perform (run : Run) : Op → Run
  | .key code pressed timeMs nowMs =>
    keyed run .phone code pressed (key run.session code pressed timeMs nowMs)
  | .keyboardKey code pressed nowMs =>
    keyed run .keyboard code pressed (keyboardKey run.session code pressed nowMs)
  | .cancelInput source =>
    ⟨cancelInput run.session source, fun s c => if s = source then none else run.held s c⟩
  | .power call nowMs =>
    { run with session.power := (Power.perform run.session.power call nowMs).2 }
  | .clock call => { run with session.clock := (Clock.perform run.session.clock call).2 }
  | .view view => { run with session.view := view }

/-- Keys reach the power policy only through `fplinux_session_key` and
`fplinux_session_keyboard_key`. -/
def Op.Allowed : Op → Prop
  | .power (.key ..) _ => False
  | _ => True

def machine : Machine Run Op where
  start run := (∀ source slot, run.session.clockKeyEvents source slot = 0) ∧
    (∀ source code, run.session.clockBlockedKeys source code = false) ∧
    run.session.launchRightHeld = false ∧ run.session.launchEscapeHeld = false ∧
    (∀ source code, run.session.power.keys source code = .released) ∧
    ∀ source code, run.held source code = none
  step run op run' := op.Allowed ∧ perform run op = run'

/-- Either kind of key. -/
def anyKey (session : Session) (source : KeySource) (code : ℕ) (pressed : Bool) (timeMs nowMs : ℕ) :
    Answer × Session :=
  match source with
  | .phone => key session code pressed timeMs nowMs
  | .keyboard => keyboardKey session code pressed nowMs

/-- A repeat that changes whose key it is: of a key no ring owns while a ring
covers a lit display, or of an owned key that gets blocked. -/
def RepeatTaken (run : Run) (source : KeySource) (code : ℕ) : Prop :=
  run.held source code ≠ none ∧ ∃ slot, clockKeySlot source code = some slot ∧
    ((run.session.clockKeyEvents source slot = 0 ∧ eligible run.session = true) ∨
      (run.session.clockKeyEvents source slot ≠ 0 ∧ eligible run.session = false ∧
        clockDue run.session = true ∧ run.session.power.locked = true))

/-- The press of an operation. -/
def Op.press : Op → Option (KeySource × ℕ)
  | .key code true _ _ => some (.phone, code)
  | .keyboardKey code true _ => some (.keyboard, code)
  | _ => none

def TakenRepeat (x : Machine.Step Run Op) : Prop :=
  ∃ source code, x.op.press = some (source, code) ∧ RepeatTaken x.before source code

/-- The session at the first press of the gesture an event belongs to. -/
def firstPress (run : Run) (source : KeySource) (code : ℕ) (pressed : Bool) : Option Session :=
  match run.held source code with
  | some gesture => some gesture.first
  | none => if pressed then some run.session else none

end RingKeys
