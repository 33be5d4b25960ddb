/-
The backlight after a wake (`session-core.c`).

A display that turns on stays dark (`lightPending`) until a frame that the woken
clients drew is on the screen.  The compositor reports each frame twice: when it is
latched, with the clients in it, and when it is presented.  Both carry a serial.

Whatever else moves (processes, placements, the display, what covers what) is a
step of its own here: `world` sets the part of the records that the light only reads.

Main results:
- `light_of_trace`: why the light comes back;
- `stale_runs`: what a frame need not have, a fresh commit of a client that was not
  told it was hidden, and the last ACTIVE where the launcher is not seen.
-/
import Fplinux.Session.Power

namespace WakeLight

open Power (Display)

/-- The launcher, a task, or the record of no application. -/
inductive Slot
  | launcher
  | task (index : Fin 4)
  | idle
  deriving DecidableEq, Repr

/-- What the rest of the session keeps of a process. -/
structure Policy where
  pid : ℕ
  closing : Bool
  /-- There is a control connection. -/
  connected : Bool
  ready : Bool
  shown : Bool
  fullscreen : Bool
  leaving : Bool
  foreground : Bool
  deriving DecidableEq, Repr

/-- What a client last learned of its visibility, and what it owes since. -/
structure Sight where
  visible : Bool
  wakeDue : Bool
  wakeCommitted : Bool
  /-- The client has committed since it was last made visible. -/
  fresh : Bool
  deriving DecidableEq, Repr

/-- What the rest of the session decides. -/
structure World where
  policy : Slot → Policy
  /-- The task in the foreground. -/
  foreground : Option (Fin 4)
  /-- `launcher_on_top`: what the user sees on top. -/
  launcherOnTop : Bool
  /-- `fplinux_session_launcher_on_top`: what the shell places on top. -/
  launcherRaised : Bool

/-- `session->app`: the task in the foreground, or the record of no application. -/
def World.app (world : World) : Slot :=
  match world.foreground with
  | some index => .task index
  | none => .idle

/-- `struct wake_submission`. -/
structure Submission where
  serial : ℕ
  launcherPid : ℕ
  appPid : ℕ
  activeSerial : ℕ
  ready : Bool
  deriving DecidableEq, Repr

def Submission.zero : Submission := ⟨0, 0, 0, 0, false⟩

/-- The part of `struct fplinux_session` that the light depends on. -/
structure Session where
  world : World
  sight : Slot → Sight
  display : Display
  litDisplay : Display
  lightPending : Bool
  submission : Submission
  lastActiveSerial : ℕ
  lastActiveSent : Bool
  launcherAckSerial : ℕ

def isRunning (policy : Policy) : Bool := policy.pid ≠ 0 && !policy.closing

/-! ### Visibility -/

def isVisible (session : Session) (slot : Slot) : Bool :=
  if session.display = .off then false
  else if slot = .launcher then true
  else slot = session.world.app && !(session.world.policy slot).leaving &&
    (session.world.policy slot).foreground && !session.world.launcherOnTop

/-- `update_visibility`; `sends` says which clients could be told. -/
def updateVisibility (session : Session) (sends : Slot → Bool) : Session :=
  { session with
    sight := fun slot =>
      let sight := session.sight slot
      let policy := session.world.policy slot
      let visible := isVisible session slot
      if slot = .idle ∨ !isRunning policy ∨ !policy.connected ∨ visible = sight.visible ∨
          !sends slot then sight
      else
        { visible := visible
          wakeDue := visible && session.lightPending
          wakeCommitted := false
          fresh := !visible && sight.fresh } }

/-- `initialize_process`: the runtime starts visible. -/
def initializeProcess (session : Session) (slot : Slot) : Session :=
  { session with
    sight := fun s => if s = slot then ⟨true, false, false, false⟩ else session.sight s }

/-- What `park_app` does to the foreground application. -/
def parkApp (session : Session) : Session :=
  { session with
    sight := fun s =>
      if s = session.world.app then
        { session.sight s with wakeDue := false, wakeCommitted := false }
      else session.sight s }

def slots : List Slot := [.launcher, .task 0, .task 1, .task 2, .task 3]

def processForPid (session : Session) (pid : ℕ) : Option Slot :=
  if pid = 0 then none else slots.find? fun slot => (session.world.policy slot).pid = pid

/-- `fplinux_session_surface_committed`, as far as the light is concerned. -/
def surfaceCommitted (session : Session) (pid : ℕ) : Session :=
  match processForPid session pid with
  | none => session
  | some slot =>
    if (session.world.policy slot).closing ∨ (session.world.policy slot).leaving then session
    else
      { session with
        sight := fun s =>
          if s = slot then
            { session.sight s with
              wakeCommitted := (session.sight s).wakeDue || (session.sight s).wakeCommitted
              fresh := true }
          else session.sight s }

/-! ### ACTIVE -/

/-- An ACTIVE that `send_active` sent: its serial skips zero. -/
def activeSent (session : Session) : Session :=
  let serial := Word.add 32 session.lastActiveSerial 1
  { session with
    lastActiveSerial := if serial = 0 then Word.add 32 serial 1 else serial
    lastActiveSent := true }

/-- ACTIVE_ACK of the launcher. -/
def activeAck (session : Session) (serial : ℕ) : Session :=
  if serial ≠ 0 ∧ serial = session.lastActiveSerial then
    { session with launcherAckSerial := serial }
  else session

/-- A new launcher has been sent nothing. -/
def launcherStarted (session : Session) : Session :=
  { session with launcherAckSerial := 0, lastActiveSent := false }

/-! ### The light -/

def outputReset (session : Session) : Session := { session with submission := .zero }

/-- What `advance` does to the light. -/
def advanceLight (session : Session) : Session :=
  let session :=
    -- Clients redraw before the backlight comes back.
    if session.litDisplay = .off ∧ session.display ≠ .off then
      outputReset { session with lightPending := true }
    else session
  let session := { session with litDisplay := session.display }
  if session.display = .off then outputReset { session with lightPending := false } else session

def advance (session : Session) (sends : Slot → Bool) : Session :=
  updateVisibility (advanceLight session) sends

/-- `wake_clients`: the launcher supplies the whole view, or the bars of an
integrated application. -/
def wakeClients (session : Session) : Option Slot × Option Slot :=
  let app := session.world.policy session.world.app
  let showApp := app.shown && isRunning app && !session.world.launcherRaised
  (if !showApp ∨ !app.fullscreen then some .launcher else none,
    if showApp then some session.world.app else none)

def wakeClientReady (session : Session) (slot : Option Slot) (pids : List ℕ) : Bool :=
  match slot with
  | none => true
  | some slot =>
    let policy := session.world.policy slot
    let sight := session.sight slot
    if !isRunning policy ∨ !policy.connected ∨ !policy.ready ∨ !sight.visible ∨
        (sight.wakeDue ∧ !sight.wakeCommitted) then false
    -- ACTIVE_ACK follows the commit containing the current launcher view.
    else if slot = .launcher ∧ (!session.lastActiveSent ∨
        session.launcherAckSerial ≠ session.lastActiveSerial) then false
    else pids.contains policy.pid

def pidOf (session : Session) : Option Slot → ℕ
  | none => 0
  | some slot => (session.world.policy slot).pid

/-- The last ACTIVE matters where the launcher is seen. -/
def viewSerial (session : Session) : ℕ :=
  if (wakeClients session).1.isSome then session.lastActiveSerial else 0

def latch (session : Session) (serial : ℕ) (pids : List ℕ) : Submission where
  serial := serial
  launcherPid := pidOf session (wakeClients session).1
  appPid := pidOf session (wakeClients session).2
  activeSerial := viewSerial session
  ready := wakeClientReady session (wakeClients session).1 pids &&
    wakeClientReady session (wakeClients session).2 pids

def outputLatched (session : Session) (serial : ℕ) (pids : List ℕ) : Session :=
  if !session.lightPending then session
  else { session with submission := latch session serial pids }

/-- `fplinux_session_output_presented`; the `advance` it ends with is a step of its own. -/
def outputPresented (session : Session) (serial : ℕ) : Session :=
  let submission := session.submission
  if !session.lightPending ∨ serial = 0 ∨ serial ≠ submission.serial ∨ !submission.ready then session
  else if submission.launcherPid ≠ pidOf session (wakeClients session).1 ∨
      submission.appPid ≠ pidOf session (wakeClients session).2 ∨
      submission.activeSerial ≠ viewSerial session then session
  else outputReset { session with lightPending := false }

/-! ### Runs -/

inductive Op
  | world (world : World)
  | display (display : Display)
  | advance (sends : Slot → Bool)
  | initializeProcess (slot : Slot)
  | parkApp
  | surfaceCommitted (pid : ℕ)
  | activeSent
  | activeAck (serial : ℕ)
  | launcherStarted
  | outputLatched (serial : ℕ) (pids : List ℕ)
  | outputPresented (serial : ℕ)
  | outputReset

def perform (session : Session) : Op → Session
  | .world world => { session with world := world }
  | .display display => { session with display := display }
  | .advance sends => advance session sends
  | .initializeProcess slot => initializeProcess session slot
  | .parkApp => parkApp session
  | .surfaceCommitted pid => surfaceCommitted session pid
  | .activeSent => activeSent session
  | .activeAck serial => activeAck session serial
  | .launcherStarted => launcherStarted session
  | .outputLatched serial pids => outputLatched session serial pids
  | .outputPresented serial => outputPresented session serial
  | .outputReset => outputReset session

/-- From the start of the session: a lit display and no process yet. -/
def machine : Machine Session Op where
  start session := session.lightPending = false ∧ session.submission = .zero ∧
    ∀ slot, session.sight slot = ⟨true, false, false, false⟩
  step session op session' := perform session op = session'

/-! ### What a frame shows -/

abbrev LightStep := Machine.Step Session Op

/-- The client supplies a part of the view. -/
def Supplies (session : Session) (slot : Slot) : Prop :=
  (wakeClients session).1 = some slot ∨ (wakeClients session).2 = some slot

/-- A client whose part of the frame is current. -/
structure Current (session : Session) (pids : List ℕ) (slot : Slot) : Prop where
  running : isRunning (session.world.policy slot) = true
  connected : (session.world.policy slot).connected = true
  ready : (session.world.policy slot).ready = true
  visible : (session.sight slot).visible = true
  included : (session.world.policy slot).pid ∈ pids
  committed : (session.sight slot).wakeDue = true → (session.sight slot).fresh = true
  acknowledged : slot = .launcher →
    session.lastActiveSent = true ∧ session.launcherAckSerial = session.lastActiveSerial

/-- The clients of two views are the same, and so is the ACTIVE the launcher shows. -/
structure SameView (session session' : Session) : Prop where
  launcher : pidOf session' (wakeClients session').1 = pidOf session (wakeClients session).1
  app : pidOf session' (wakeClients session').2 = pidOf session (wakeClients session).2
  active : Supplies session .launcher → session'.lastActiveSerial = session.lastActiveSerial

/-- The last submission of a run that still waits to be presented. -/
structure Waiting (l : List LightStep) (session : Session) (old since : List LightStep)
    (y : LightStep) (pids : List ℕ) : Prop where
  split : l = old ++ y :: since
  latched : y.op = .outputLatched session.submission.serial pids
  pending : y.before.lightPending = true
  submission : session.submission = latch y.before session.submission.serial pids
  since : ∀ z ∈ since, z.after.lightPending = true ∧ ∀ serial pids', z.op ≠ .outputLatched serial pids'

/-- What the session remembers of the frames since the wake. -/
structure Ok (l : List LightStep) (session : Session) : Prop where
  fresh : ∀ slot, (session.sight slot).wakeCommitted = true → (session.sight slot).fresh = true
  ready : session.submission.ready = true → session.lightPending = true ∧
    ∃ old y since pids, Waiting l session old since y pids

/-! ### The commits -/

/-- Every commit that is counted is one since the client was made visible. -/
def Counted (sight : Sight) : Prop := sight.wakeCommitted = true → sight.fresh = true

variable {session : Session}

theorem counted_perform (h : ∀ slot, Counted (session.sight slot)) (op : Op) (slot : Slot) :
    Counted ((perform session op).sight slot) := by
  cases op with
  | world world => exact h slot
  | display display => exact h slot
  | advance sends =>
    have hlight : (advanceLight session).sight = session.sight := by
      rw [advanceLight]
      simp only
      split
      · split
        · rfl
        · rfl
      · split
        · rfl
        · rfl
    show Counted ((updateVisibility (advanceLight session) sends).sight slot)
    rw [updateVisibility]
    simp only
    split
    · rw [hlight]
      exact h slot
    · intro hcommitted
      cases hcommitted
  | initializeProcess started =>
    show Counted (if slot = started then _ else _)
    split
    · intro hcommitted
      cases hcommitted
    · exact h slot
  | parkApp =>
    show Counted (if slot = session.world.app then _ else _)
    split
    · intro hcommitted
      cases hcommitted
    · exact h slot
  | surfaceCommitted pid =>
    show Counted ((surfaceCommitted session pid).sight slot)
    rw [surfaceCommitted]
    split
    · exact h slot
    split
    · exact h slot
    · show Counted (if slot = _ then _ else _)
      split
      · exact fun _ => rfl
      · exact h slot
  | activeSent => exact h slot
  | activeAck serial =>
    show Counted ((activeAck session serial).sight slot)
    rw [activeAck]
    split
    · exact h slot
    · exact h slot
  | launcherStarted => exact h slot
  | outputLatched serial pids =>
    show Counted ((outputLatched session serial pids).sight slot)
    rw [outputLatched]
    split
    · exact h slot
    · exact h slot
  | outputPresented serial =>
    show Counted ((outputPresented session serial).sight slot)
    rw [outputPresented]
    split
    · exact h slot
    split
    · exact h slot
    · exact h slot
  | outputReset => exact h slot

/-! ### What one step does to the light -/

/-- A presentation of the submission that waits, over the same view. -/
structure Presents (session : Session) (serial : ℕ) : Prop where
  serial_ne : serial ≠ 0
  serial_eq : session.submission.serial = serial
  ready : session.submission.ready = true
  launcher : session.submission.launcherPid = pidOf session (wakeClients session).1
  app : session.submission.appPid = pidOf session (wakeClients session).2
  active : session.submission.activeSerial = viewSerial session

/-- Why a step may end the wait. -/
def Ends (session : Session) (op : Op) : Prop :=
  (session.display = .off ∧ ∃ sends, op = .advance sends) ∨
    ∃ serial, op = .outputPresented serial ∧ Presents session serial

theorem advanceLight_cases (session : Session) :
    (session.display = .off ∧ (advanceLight session).lightPending = false ∧
      (advanceLight session).submission = .zero) ∨
    ((advanceLight session).lightPending = true ∧ (advanceLight session).submission = .zero) ∨
    ((advanceLight session).lightPending = session.lightPending ∧
      (advanceLight session).submission = session.submission) := by
  by_cases hoff : session.display = .off
  · left
    simp [advanceLight, outputReset, hoff]
  · by_cases hwake : session.litDisplay = .off
    · right; left
      simp [advanceLight, outputReset, hoff, hwake]
    · right; right
      simp [advanceLight, hoff, hwake]

theorem outputPresented_cases (session : Session) (serial : ℕ) :
    outputPresented session serial = session ∨
      (session.lightPending = true ∧ Presents session serial ∧
        outputPresented session serial = outputReset { session with lightPending := false }) := by
  rw [outputPresented]
  split
  · exact .inl rfl
  rename_i hmatch
  split
  · exact .inl rfl
  rename_i hview
  simp only [not_or, ne_eq, not_not, Bool.not_eq_true', Bool.not_eq_false] at hmatch hview
  exact .inr ⟨hmatch.1, ⟨hmatch.2.1, hmatch.2.2.1.symm, hmatch.2.2.2, hview.1, hview.2.1, hview.2.2⟩,
    rfl⟩

theorem light_cases (session : Session) (op : Op) :
    ((perform session op).lightPending = session.lightPending ∧
      (perform session op).submission = session.submission ∧
      (session.lightPending = true → ∀ serial pids, op ≠ .outputLatched serial pids)) ∨
    (∃ serial pids, op = .outputLatched serial pids ∧ session.lightPending = true ∧
      (perform session op).lightPending = true ∧
      (perform session op).submission = latch session serial pids) ∨
    ((perform session op).submission = .zero ∧
      (session.lightPending = true → (perform session op).lightPending = false →
        Ends session op)) := by
  cases op with
  | world world => exact .inl ⟨rfl, rfl, fun _ _ _ => by simp⟩
  | display display => exact .inl ⟨rfl, rfl, fun _ _ _ => by simp⟩
  | advance sends =>
    rcases advanceLight_cases session with ⟨hoff, hlight, hsub⟩ | ⟨hlight, hsub⟩ | ⟨hlight, hsub⟩
    · exact .inr (.inr ⟨hsub, fun _ _ => .inl ⟨hoff, sends, rfl⟩⟩)
    · refine .inr (.inr ⟨hsub, fun _ hdark => ?_⟩)
      rw [show (perform session (.advance sends)).lightPending = true from hlight] at hdark
      cases hdark
    · exact .inl ⟨hlight, hsub, fun _ _ _ => by simp⟩
  | initializeProcess slot => exact .inl ⟨rfl, rfl, fun _ _ _ => by simp⟩
  | parkApp => exact .inl ⟨rfl, rfl, fun _ _ _ => by simp⟩
  | surfaceCommitted pid =>
    left
    show (surfaceCommitted session pid).lightPending = _ ∧ (surfaceCommitted session pid).submission = _ ∧ _
    rw [surfaceCommitted]
    split
    · exact ⟨rfl, rfl, fun _ _ _ => by simp⟩
    split
    · exact ⟨rfl, rfl, fun _ _ _ => by simp⟩
    · exact ⟨rfl, rfl, fun _ _ _ => by simp⟩
  | activeSent => exact .inl ⟨rfl, rfl, fun _ _ _ => by simp⟩
  | activeAck serial =>
    left
    show (activeAck session serial).lightPending = _ ∧ (activeAck session serial).submission = _ ∧ _
    rw [activeAck]
    split
    · exact ⟨rfl, rfl, fun _ _ _ => by simp⟩
    · exact ⟨rfl, rfl, fun _ _ _ => by simp⟩
  | launcherStarted => exact .inl ⟨rfl, rfl, fun _ _ _ => by simp⟩
  | outputLatched serial pids =>
    show ((outputLatched session serial pids).lightPending = _ ∧
      (outputLatched session serial pids).submission = _ ∧ _) ∨ (∃ serial' pids', _ ∧ _ ∧
      (outputLatched session serial pids).lightPending = _ ∧
      (outputLatched session serial pids).submission = latch session serial' pids') ∨ _
    rw [outputLatched]
    split
    · rename_i hdark
      left
      refine ⟨rfl, rfl, fun hpending => ?_⟩
      rw [hpending] at hdark
      cases hdark
    · rename_i hpending
      right; left
      exact ⟨serial, pids, rfl, by simpa using hpending, by simpa using hpending, rfl⟩
  | outputPresented serial =>
    rcases outputPresented_cases session serial with hsame | ⟨-, hpresents, hafter⟩
    · left
      show (outputPresented session serial).lightPending = _ ∧
        (outputPresented session serial).submission = _ ∧ _
      rw [hsame]
      exact ⟨rfl, rfl, fun _ _ _ => by simp⟩
    · right; right
      show (outputPresented session serial).submission = .zero ∧ _
      rw [hafter]
      exact ⟨rfl, fun _ _ => .inr ⟨serial, rfl, hpresents⟩⟩
  | outputReset => exact .inr (.inr ⟨rfl, fun hpending hdark => by rw [show (perform session
      .outputReset).lightPending = session.lightPending from rfl, hpending] at hdark; cases hdark⟩)

/-! ### Whole runs -/

theorem ok_perform {l : List LightStep} (h : Ok l session) (op : Op) :
    Ok (l ++ [⟨session, op, perform session op⟩]) (perform session op) := by
  refine ⟨counted_perform h.fresh op, fun hready => ?_⟩
  rcases light_cases session op with ⟨hlight, hsub, hop⟩ | ⟨serial, pids, rfl, hbefore, hafter, hsub⟩ |
    ⟨hzero, -⟩
  · rw [hsub] at hready
    obtain ⟨hpending, old, y, since, pids, hwait⟩ := h.ready hready
    refine ⟨hlight.trans hpending, old, y, since ++ [⟨session, op, perform session op⟩], pids, ?_⟩
    refine ⟨?_, ?_, hwait.pending, ?_, ?_⟩
    · rw [hwait.split, List.append_assoc, List.cons_append]
    · rw [hsub]
      exact hwait.latched
    · rw [hsub]
      exact hwait.submission
    · intro z hz
      rcases List.mem_append.mp hz with hold | hnew
      · exact hwait.since z hold
      · rw [List.mem_singleton] at hnew
        subst hnew
        exact ⟨hlight.trans hpending, hop hpending⟩
  · have hserial : (perform session (.outputLatched serial pids)).submission.serial = serial := by
      rw [hsub]
      rfl
    refine ⟨hafter, l, ⟨session, _, _⟩, [], pids, rfl, ?_, hbefore, ?_, fun z hz => by cases hz⟩
    · rw [hserial]
    · rw [hserial]
      exact hsub
  · rw [hzero] at hready
    cases hready

theorem ok_of_trace {l : List LightStep} (h : machine.Trace l session) : Ok l session := by
  refine h.invariant (P := Ok) (K := fun _ => True) ?_ ?_ fun _ _ => trivial
  · rintro session ⟨-, hzero, hsight⟩
    refine ⟨fun slot hcommitted => ?_, fun hready => ?_⟩
    · rw [hsight] at hcommitted
      cases hcommitted
    · rw [hzero] at hready
      cases hready
  · rintro l session op _ hold rfl -
    exact ok_perform hold op

theorem current_of_ready (hfresh : ∀ slot, Counted (session.sight slot)) {slot : Slot}
    {pids : List ℕ} (h : wakeClientReady session (some slot) pids = true) :
    Current session pids slot := by
  rw [wakeClientReady] at h
  split at h
  · cases h
  rename_i hclient
  split at h
  · cases h
  rename_i hack
  simp only [not_or, not_and, Bool.not_eq_true', Bool.not_eq_false] at hclient
  obtain ⟨hrunning, hconnected, hready, hvisible, hdue⟩ := hclient
  refine ⟨hrunning, hconnected, hready, hvisible, by simpa using h, ?_, ?_⟩
  · intro hwake
    exact hfresh slot (hdue hwake)
  · rintro rfl
    simp only [true_and, not_or, Bool.not_eq_true', Bool.not_eq_false, ne_eq, not_not] at hack
    exact hack

theorem current_of_supplies (hfresh : ∀ slot, Counted (session.sight slot)) {serial : ℕ}
    {pids : List ℕ} (h : (latch session serial pids).ready = true) {slot : Slot}
    (hsupplies : Supplies session slot) : Current session pids slot := by
  rw [latch, Bool.and_eq_true] at h
  rcases hsupplies with hlauncher | happ
  · rw [hlauncher] at h
    exact current_of_ready hfresh h.1
  · rw [happ] at h
    exact current_of_ready hfresh h.2

theorem supplies_launcher (h : Supplies session .launcher) :
    (wakeClients session).1 = some .launcher := by
  rcases h with hlauncher | happ
  · exact hlauncher
  · have hne : session.world.app ≠ .launcher := by
      rw [World.app]
      split
      · simp
      · simp
    rw [wakeClients] at happ
    simp only at happ
    split at happ
    · exact absurd (Option.some.inj happ) hne
    · cases happ

/-- **The light comes back only over a current frame.**  The wait ends because the
display is off, or with the presentation of the last submission latched since it
began: every client that supplies the view was in it, up to date, and the same
clients, with the same ACTIVE where the launcher is seen, supply the view now. -/
theorem light_of_trace {l pre post : List LightStep} {session : Session} {x : LightStep}
    (h : machine.Trace l session) (hsplit : l = pre ++ x :: post)
    (hbefore : x.before.lightPending = true) (hafter : x.after.lightPending = false) :
    (x.before.display = .off ∧ ∃ sends, x.op = .advance sends) ∨
      ∃ serial old y since pids, x.op = .outputPresented serial ∧ serial ≠ 0 ∧
        pre = old ++ y :: since ∧ y.op = .outputLatched serial pids ∧ y.before.lightPending = true ∧
        (∀ z ∈ since, z.after.lightPending = true ∧
          ∀ serial' pids', z.op ≠ .outputLatched serial' pids') ∧
        (∀ slot, Supplies y.before slot → Current y.before pids slot) ∧
        SameView y.before x.before := by
  obtain ⟨htrace, hstep⟩ := h.split hsplit
  have hok := ok_of_trace htrace
  rw [← show perform x.before x.op = x.after from hstep] at hafter
  have hends : Ends x.before x.op := by
    rcases light_cases x.before x.op with ⟨hlight, -⟩ | ⟨serial, pids, -, -, hlight, -⟩ | ⟨-, hends⟩
    · rw [hlight, hbefore] at hafter
      cases hafter
    · rw [hlight] at hafter
      cases hafter
    · exact hends hbefore hafter
  rcases hends with hoff | ⟨serial, hop, hpresents⟩
  · exact .inl hoff
  right
  obtain ⟨-, old, y, since, pids, hwait⟩ := hok.ready hpresents.ready
  have hsub := hwait.submission
  have hready : (latch y.before x.before.submission.serial pids).ready = true := by
    rw [← hsub]
    exact hpresents.ready
  -- the step that latched starts in a state of the run too
  have hfresh := (ok_of_trace (htrace.split hwait.split).1).fresh
  have hcurrent : ∀ slot, Supplies y.before slot → Current y.before pids slot :=
    fun slot hslot => current_of_supplies hfresh hready hslot
  have hlauncher : pidOf y.before (wakeClients y.before).1 =
      pidOf x.before (wakeClients x.before).1 := by
    have hpid := hpresents.launcher
    rw [hsub] at hpid
    exact hpid
  have happ : pidOf y.before (wakeClients y.before).2 = pidOf x.before (wakeClients x.before).2 := by
    have hpid := hpresents.app
    rw [hsub] at hpid
    exact hpid
  have hactive : viewSerial y.before = viewSerial x.before := by
    have hserial := hpresents.active
    rw [hsub] at hserial
    exact hserial
  refine ⟨serial, old, y, since, pids, hop, hpresents.serial_ne, hwait.split, ?_, hwait.pending,
    hwait.since, hcurrent, hlauncher.symm, happ.symm, ?_⟩
  · rw [← hpresents.serial_eq]
    exact hwait.latched
  · intro hsupplies
    have hthen := supplies_launcher hsupplies
    -- the launcher runs, so its pid tells that it is seen now as well
    have hpid : pidOf y.before (wakeClients y.before).1 ≠ 0 := by
      have hrunning := (hcurrent .launcher hsupplies).running
      rw [isRunning, Bool.and_eq_true, decide_eq_true_eq] at hrunning
      rw [hthen]
      exact hrunning.1
    have hnow : (wakeClients x.before).1.isSome = true := by
      rw [hlauncher] at hpid
      cases hclient : (wakeClients x.before).1 with
      | none =>
        rw [hclient] at hpid
        exact absurd rfl hpid
      | some slot => rfl
    have hthen' : (wakeClients y.before).1.isSome = true := by rw [hthen]; rfl
    rw [viewSerial, viewSerial, if_pos hthen', if_pos hnow] at hactive
    exact hactive.symm

/-! ### Runs with a fullscreen application -/

/-- A client that runs and draws. -/
def drawingPolicy (pid : ℕ) (fullscreen : Bool) : Policy :=
  ⟨pid, false, true, true, true, fullscreen, false, true⟩

/-- The launcher with process id 1 and a fullscreen application with process id 2. -/
def fullscreenWorld (launcherOnTop : Bool) : World where
  policy
    | .launcher => drawingPolicy 1 false
    | .task 0 => drawingPolicy 2 true
    | _ => ⟨0, false, false, false, false, false, false, false⟩
  foreground := some 0
  launcherOnTop := launcherOnTop
  launcherRaised := launcherOnTop

def lit : Session where
  world := fullscreenWorld false
  sight := fun _ => ⟨true, false, false, false⟩
  display := .on
  litDisplay := .on
  lightPending := false
  submission := .zero
  lastActiveSerial := 1
  lastActiveSent := true
  launcherAckSerial := 1

/-- The display sleeps and wakes; `told` says whether the clients hear of it. -/
def sleepAndWake (told : Bool) : List Op :=
  [.display .off, .advance fun _ => told, .display .on, .advance fun _ => told]

theorem trace_ops (ops : List Op) :
    machine.Trace (Machine.steps perform lit ops) (ops.foldl perform lit) := by
  have hstart : machine.Trace [] lit := .start ⟨rfl, rfl, fun _ => rfl⟩
  exact hstart.steps ops fun _ _ _ => rfl

/-- A frame of the woken application is latched. -/
def drawAndLatch : List Op := sleepAndWake true ++ [.surfaceCommitted 2, .outputLatched 7 [2]]

/-- The presentation of that frame lights the display. -/
theorem light_afterWake :
    ∃ y ∈ Machine.steps perform lit drawAndLatch, ∃ pids, y.op = .outputLatched 7 pids ∧
      ∀ slot, Supplies y.before slot → Current y.before pids slot := by
  have htrace := trace_ops (drawAndLatch ++ [.outputPresented 7])
  have hsplit : Machine.steps perform lit (drawAndLatch ++ [.outputPresented 7]) =
      Machine.steps perform lit drawAndLatch ++
        ⟨drawAndLatch.foldl perform lit, .outputPresented 7,
          (drawAndLatch ++ [Op.outputPresented 7]).foldl perform lit⟩ :: [] := rfl
  rcases light_of_trace htrace hsplit rfl rfl with
    ⟨hoff, -⟩ | ⟨serial, old, y, since, pids, hop, -, hpre, hlatched, -, -, hcurrent, -⟩
  · cases hoff
  · obtain rfl := Op.outputPresented.inj hop
    refine ⟨y, ?_, pids, hlatched, hcurrent⟩
    rw [hpre]
    exact List.mem_append_right _ (List.mem_cons_self ..)

/-- The frame is latched, and an ACTIVE follows before it is presented. -/
def activeAfterLatch : List Op := drawAndLatch ++ [.activeSent]

/-- The application is covered and uncovered on the lit display, draws nothing since,
and does not hear that the display sleeps. -/
def untold : List Op :=
  [.world (fullscreenWorld true), .advance fun _ => true, .world (fullscreenWorld false),
    .advance fun _ => true] ++ sleepAndWake false

/-- Over a fullscreen application the light comes back although another ACTIVE was
sent since the latching; and it comes back over an application that has not
committed since it was made visible. -/
theorem stale_runs :
    ((activeAfterLatch.foldl perform lit).lightPending = true ∧
      ((activeAfterLatch ++ [Op.outputPresented 7]).foldl perform lit).lightPending = false ∧
      (activeAfterLatch.foldl perform lit).lastActiveSerial ≠
        (drawAndLatch.foldl perform lit).lastActiveSerial) ∧
    ((untold.foldl perform lit).lightPending = true ∧
      Supplies (untold.foldl perform lit) (.task 0) ∧
      ((untold.foldl perform lit).sight (.task 0)).fresh = false ∧
      ((untold ++ [Op.outputLatched 7 [2], .outputPresented 7]).foldl perform lit).lightPending =
        false) := by
  refine ⟨⟨rfl, rfl, ?_⟩, rfl, .inr rfl, rfl, rfl⟩
  decide

end WakeLight
