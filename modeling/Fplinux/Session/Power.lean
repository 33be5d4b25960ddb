/-
Display, keyguard and idle policy of the session (`session-power.c`).

`Power` is the state of `struct fplinux_session_power`; every public operation
takes the current monotonic time in milliseconds and first applies the timers
that are due (`advance`).  Times are 64-bit words (`Word.add 64`), the screen
timeout is an `unsigned int` and the auto-lock timeout an `int` whose value
`-1` turns it off.

`Call` names the public operations and `perform` runs one of them, so that
runs can be written as sequences of calls.
-/
import Fplinux.InputCodes
import Fplinux.Lib.Run
import Fplinux.Lib.Word

namespace Power

open InputCodes

/-- `enum fplinux_ui_session_display`. -/
inductive Display
  | on
  | dim
  | off
  deriving DecidableEq, Repr

/-- `enum fplinux_session_key_source`. -/
inductive KeySource
  | phone
  | keyboard
  deriving DecidableEq, Repr

/-- `enum fplinux_session_notice`. -/
inductive Notice
  | none
  | unlockPressStar
  | unlockHelp
  deriving DecidableEq, Repr

/-- `enum fplinux_session_red_action`. -/
inductive RedAction
  | none
  | home
  deriving DecidableEq, Repr

/-- `enum key_state`: whether a key's press was delivered or consumed. -/
inductive KeyState
  | released
  | delivered
  | consumed
  deriving DecidableEq, Repr

def autoLockOff : ℤ := -1
def lockedOffMs : ℕ := 10000
def unlockWindowMs : ℕ := 1500
def unlockHelpMs : ℕ := 2000
def redHoldMs : ℕ := 5000

/-- `struct fplinux_session_power`. -/
structure State where
  screenOffSeconds : ℕ
  autoLockSeconds : ℤ
  display : Display
  locked : Bool
  keepScreenOn : Bool
  notice : Notice
  activityMs : ℕ
  offMs : ℕ
  unlockMs : ℕ
  noticeUntilMs : ℕ
  unlockArmed : Bool
  redPressed : Bool
  redPressedMs : ℕ
  keys : KeySource → ℕ → KeyState

def offTimeoutMs (power : State) : ℕ :=
  if power.locked then lockedOffMs else power.screenOffSeconds * 1000

/-- Dimming starts min(7 s, timeout / 5) before the display turns off. -/
def dimLeadMs (power : State) : ℕ :=
  (if power.screenOffSeconds / 5 < 7 then power.screenOffSeconds / 5 else 7) * 1000

def clearUnlock (power : State) : State :=
  { power with unlockArmed := false, notice := .none }

def turnOff (power : State) (timeMs : ℕ) : State :=
  clearUnlock { power with display := .off, offMs := timeMs }

def wake (power : State) (nowMs : ℕ) : State :=
  { power with display := .on, activityMs := nowMs }

/-- Activity on a lit display restarts its timers and ends dimming. -/
def touch (power : State) (nowMs : ℕ) : State :=
  if power.display = .off then power
  else { power with display := .on, activityMs := nowMs }

def lock (power : State) : State :=
  clearUnlock { power with locked := true }

def hasAutoLock (power : State) : Bool :=
  !power.locked && power.autoLockSeconds != autoLockOff

/-- The product is taken in `uint64_t`, where a negative `int` wraps. -/
def autoLockMs (power : State) : ℕ :=
  Word.add 64 power.offMs ((power.autoLockSeconds * 1000) % 2 ^ 64).toNat

def init (screenOffSeconds : ℕ) (autoLockSeconds : ℤ) (nowMs : ℕ) : State where
  screenOffSeconds := screenOffSeconds
  autoLockSeconds := autoLockSeconds
  display := .on
  locked := false
  keepScreenOn := false
  notice := .none
  activityMs := nowMs
  offMs := 0
  unlockMs := 0
  noticeUntilMs := 0
  unlockArmed := false
  redPressed := false
  redPressedMs := 0
  keys := fun _ _ => .released

/-! ### Timers

`advance` is the four `if`s of `fplinux_session_power_advance` in order. -/

def expireUnlock (power : State) (nowMs : ℕ) : State :=
  if power.unlockArmed ∧ Word.sub 64 nowMs power.unlockMs ≥ unlockWindowMs then
    clearUnlock power
  else power

def expireNotice (power : State) (nowMs : ℕ) : State :=
  if power.notice = .unlockHelp ∧ nowMs ≥ power.noticeUntilMs then
    { power with notice := .none }
  else power

/-- When an idle lit display turns off. -/
def offAt (power : State) : ℕ := Word.add 64 power.activityMs (offTimeoutMs power)

/-- When an idle unlocked display dims. -/
def dimAt (power : State) : ℕ := Word.sub 64 (offAt power) (dimLeadMs power)

def expireDisplay (power : State) (nowMs : ℕ) : State :=
  if power.display ≠ .off ∧ (power.locked ∨ !power.keepScreenOn) then
    if nowMs ≥ offAt power then turnOff power (offAt power)
    else if !power.locked ∧ power.display = .on ∧ nowMs ≥ dimAt power then
      { power with display := .dim }
    else power
  else power

def expireLock (power : State) (nowMs : ℕ) : State :=
  if power.display = .off ∧ hasAutoLock power ∧ nowMs ≥ autoLockMs power then lock power
  else power

def advance (power : State) (nowMs : ℕ) : State :=
  expireLock (expireDisplay (expireNotice (expireUnlock power nowMs) nowMs) nowMs) nowMs

def consider (earliest timeMs : ℕ) : ℕ :=
  if earliest = 0 ∨ timeMs < earliest then timeMs else earliest

/-- Next time at which `advance` changes the state, 0 for none. -/
def deadline (power : State) : ℕ :=
  let earliest := 0
  let earliest :=
    if power.unlockArmed then
      consider earliest (Word.add 64 power.unlockMs unlockWindowMs)
    else earliest
  let earliest :=
    if power.notice = .unlockHelp then consider earliest power.noticeUntilMs else earliest
  let earliest :=
    if power.display ≠ .off ∧ (power.locked ∨ !power.keepScreenOn) then
      if !power.locked ∧ power.display = .on then consider earliest (dimAt power)
      else consider earliest (offAt power)
    else earliest
  if power.display = .off ∧ hasAutoLock power then consider earliest (autoLockMs power)
  else earliest

/-! ### Operations -/

/-- Left soft key or OK arms the keyguard; `*` within the window unlocks. -/
def unlockKey (power : State) (source : KeySource) (code nowMs : ℕ) : State :=
  if source = .phone ∧ (code = keyF13 ∨ code = keyOk) then
    { power with unlockArmed := true, unlockMs := nowMs, notice := .unlockPressStar }
  else if source = .phone ∧ code = keyNumericStar ∧ power.unlockArmed then
    clearUnlock { power with locked := false }
  else
    { power with
      unlockArmed := false
      notice := .unlockHelp
      noticeUntilMs := Word.add 64 nowMs unlockHelpMs }

/-- The tracked state of a key; codes from `KEY_CNT` on are not tracked. -/
def keyState (power : State) (source : KeySource) (code : ℕ) : KeyState :=
  if code < keyCnt then power.keys source code else .released

def setKeyState (power : State) (source : KeySource) (code : ℕ) (state : KeyState) : State :=
  if code < keyCnt then
    { power with
      keys := fun s c => if s = source ∧ c = code then state else power.keys s c }
  else power

/-- Applications can be seen: the display is on or dimmed and not locked. -/
def isVisible (power : State) : Bool := power.display != .off && !power.locked

def key (power : State) (source : KeySource) (code : ℕ) (pressed : Bool) (nowMs : ℕ) :
    Bool × State :=
  let power := advance power nowMs
  if pressed then
    if power.display = .off then
      (false, setKeyState (wake power nowMs) source code .consumed)
    else
      let power := touch power nowMs
      -- A repeat belongs to the gesture that its first press began.
      if keyState power source code = .consumed then (false, power)
      else if power.locked then
        (false, setKeyState (unlockKey power source code nowMs) source code .consumed)
      else (true, setKeyState power source code .delivered)
  else
    let previous := keyState power source code
    let power := touch (setKeyState power source code .released) nowMs
    if previous = .consumed then (false, power)
    else if previous = .delivered then (true, power)
    else (isVisible power, power)

def redKey (power : State) (pressed : Bool) (eventMs : ℕ) (homeView : Bool) (nowMs : ℕ) :
    RedAction × State :=
  let power := advance power nowMs
  if pressed then
    (.none, touch { power with redPressed := true, redPressedMs := eventMs } nowMs)
  else if !power.redPressed then (.none, power)
  else
    let power := { power with redPressed := false }
    if eventMs < power.redPressedMs ∨ eventMs - power.redPressedMs ≥ redHoldMs then
      (.none, power)
    else if power.display = .off then (.none, wake power nowMs)
    else
      let power := touch power nowMs
      if power.locked then (.none, turnOff power nowMs)
      else if homeView then (.none, turnOff (lock power) nowMs)
      else (.home, power)

def cancelSource (power : State) (source : KeySource) : State :=
  let power :=
    { power with keys := fun s c => if s = source then .released else power.keys s c }
  if source = .phone then { power with redPressed := false } else power

def systemKey (power : State) (nowMs : ℕ) : Bool × State :=
  let power := advance power nowMs
  if power.display = .off then (false, wake power nowMs)
  else
    let power := touch power nowMs
    if power.locked then (false, unlockKey power .keyboard keyEsc nowMs)
    else (true, power)

def activity (power : State) (wakeDisplay : Bool) (nowMs : ℕ) : State :=
  let power := advance power nowMs
  if power.display = .off then
    if wakeDisplay then wake power nowMs else power
  else touch power nowMs

def setKeepScreenOn (power : State) (enabled : Bool) (nowMs : ℕ) : State :=
  let power := advance power nowMs
  if power.keepScreenOn = enabled then power
  -- Releasing restarts the full timeout instead of blanking at once.
  else touch { power with keepScreenOn := enabled } nowMs

def configure (power : State) (screenOffSeconds : ℕ) (autoLockSeconds : ℤ) (nowMs : ℕ) : State :=
  let power := advance power nowMs
  touch { power with
    screenOffSeconds := screenOffSeconds
    autoLockSeconds := autoLockSeconds } nowMs

/-! ### Calls -/

/-- The public operations that take the current time. -/
inductive Call
  | key (source : KeySource) (code : ℕ) (pressed : Bool)
  | redKey (pressed : Bool) (eventMs : ℕ) (homeView : Bool)
  | systemKey
  | activity (wakeDisplay : Bool)
  | configure (screenOffSeconds : ℕ) (autoLockSeconds : ℤ)
  | setKeepScreenOn (enabled : Bool)
  | advance
  deriving DecidableEq, Repr

/-- What a call returns. -/
inductive Answer
  | nothing
  | deliver (reaches : Bool)
  | red (action : RedAction)
  deriving DecidableEq, Repr

def perform (power : State) (call : Call) (nowMs : ℕ) : Answer × State :=
  match call with
  | .key source code pressed =>
    (.deliver (key power source code pressed nowMs).1, (key power source code pressed nowMs).2)
  | .redKey pressed eventMs homeView =>
    (.red (redKey power pressed eventMs homeView nowMs).1,
      (redKey power pressed eventMs homeView nowMs).2)
  | .systemKey => (.deliver (systemKey power nowMs).1, (systemKey power nowMs).2)
  | .activity wakeDisplay => (.nothing, activity power wakeDisplay nowMs)
  | .configure screenOffSeconds autoLockSeconds =>
    (.nothing, configure power screenOffSeconds autoLockSeconds nowMs)
  | .setKeepScreenOn enabled => (.nothing, setKeepScreenOn power enabled nowMs)
  | .advance => (.nothing, advance power nowMs)

end Power
