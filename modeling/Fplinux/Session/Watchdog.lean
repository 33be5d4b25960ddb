/-
The watchdog of a launch (`manage_processes` in `session-core.c`).

A tick gives up a launch that takes too long, unless a document waits for its handler.
It does not ask whose document that is: one that waits for the handler of an earlier
launch keeps a later launch alive as well.

Main results:
- `calm_manageProcess`: the first part of a tick ends launches and documents, at most;
- `manageProcesses_view`: what a tick leaves of a launch that is overdue;
- `watchdog_of_trace`: when such a launch is the delivery of the document that waits.
-/
import Fplinux.Session.Processes

namespace SessionCore

open Machine (Step steps)
open UiSession (Activation DocumentStatus Message Mode receive)
open Bytes (ascii)

/-! ### What the watchdog sees -/

/-- The launch in progress and the document that waits. -/
structure View where
  starting : Bool
  generation : ℕ
  launchMs : ℕ
  waiting : Bool
  serial : ℕ
  deriving DecidableEq, Repr

def view (session : Session) : View where
  starting := session.launch.launchStarting
  generation := session.launch.launchGeneration
  launchMs := session.launch.launchMs
  waiting := session.document.waiting
  serial := session.document.serial

/-- The launch goes on as it was, or ended. -/
def View.SameLaunch (v v' : View) : Prop :=
  v'.starting = true →
    v.starting = true ∧ v'.generation = v.generation ∧ v'.launchMs = v.launchMs

/-- Both the launch and the document go on as they were, or ended. -/
structure View.Calm (v v' : View) : Prop where
  launch : v.SameLaunch v'
  document : v'.waiting = true → v.waiting = true ∧ v'.serial = v.serial

theorem View.Calm.refl (v : View) : v.Calm v :=
  ⟨fun h => ⟨h, rfl, rfl⟩, fun h => ⟨h, rfl⟩⟩

variable {v v' : View} {session : Session}

theorem View.Calm.trans {v'' : View} (h : v.Calm v') (h' : v'.Calm v'') : v.Calm v'' := by
  refine ⟨fun hstarting => ?_, fun hwaiting => ?_⟩
  · obtain ⟨hbefore, hgeneration, hms⟩ := h'.launch hstarting
    obtain ⟨hfirst, hgeneration', hms'⟩ := h.launch hbefore
    exact ⟨hfirst, hgeneration.trans hgeneration', hms.trans hms'⟩
  · obtain ⟨hbefore, hserial⟩ := h'.document hwaiting
    obtain ⟨hfirst, hserial'⟩ := h.document hbefore
    exact ⟨hfirst, hserial.trans hserial'⟩

theorem View.Calm.of_eq (h : v' = v) : v.Calm v' := h ▸ .refl v

/-! ### Records, tasks and messages leave it -/

@[simp] theorem view_update (session : Session) (slot : Slot) (f : Process → Process) :
    view (session.update slot f) = view session := by
  cases slot <;> rfl

@[simp] theorem view_updateApp (session : Session) (f : Process → Process) :
    view (session.updateApp f) = view session := by
  rw [Session.updateApp]
  split
  · exact view_update ..
  · rfl

@[simp] theorem view_sendTasks (session : Session) : view (sendTasks session) = view session := by
  rw [sendTasks]
  split <;> rfl

@[simp] theorem view_setLifecycle (session : Session) (slot : Slot)
    (lifecycle : UiSession.Lifecycle) :
    view (setLifecycle session slot lifecycle) = view session := by
  cases slot with
  | launcher => rfl
  | task index =>
    rw [setLifecycle]
    split
    · rfl
    · rw [view_sendTasks, view_update]

@[simp] theorem view_requestClose (session : Session) (slot : Slot) (time : ℕ) :
    view (requestClose session slot time) = view session := by
  rw [requestClose]
  simp only
  split
  · rfl
  · rw [view_update, view_setLifecycle, view_update]

@[simp] theorem view_parkApp (session : Session) : view (parkApp session) = view session := by
  rw [parkApp]
  split
  · rfl
  · exact (view_setLifecycle ..).trans (view_update ..)

@[simp] theorem view_sendActivation (session : Session) (index : Fin 4) :
    view (sendActivation session index) = view session := by
  rw [sendActivation]
  split <;> rfl

@[simp] theorem view_resumeTask (session : Session) (index : Fin 4) (time : ℕ) :
    view (resumeTask session index time) = view session := by
  rw [resumeTask, view_sendActivation, view_setLifecycle, view_update]
  rfl

@[simp] theorem view_startProcess (session : Session) (slot : Slot) (pid : ℕ) (id : List UInt8)
    (entry : Entry) (time : ℕ) :
    view (startProcess session slot pid id entry time) = view session := by
  cases slot with
  | launcher =>
    rw [startProcess]
    exact view_sendTasks _
  | task index =>
    rw [startProcess]
    simp only [view_sendTasks]
    split <;> rfl

/-! ### What ends a launch or a document -/

/-- The launch ended, or nothing happened. -/
def View.EndsLaunch (v v' : View) : Prop := v' = v ∨ v' = { v with starting := false }

/-- The document ended, or nothing happened. -/
def View.EndsDocument (v v' : View) : Prop :=
  v' = v ∨ v' = { v with waiting := false, serial := 0 }

theorem View.EndsLaunch.calm (h : v.EndsLaunch v') : v.Calm v' := by
  rcases h with rfl | rfl
  · exact .refl _
  · exact ⟨nofun, fun h => ⟨h, rfl⟩⟩

theorem View.EndsDocument.calm (h : v.EndsDocument v') : v.Calm v' := by
  rcases h with rfl | rfl
  · exact .refl _
  · exact ⟨fun h => ⟨h, rfl, rfl⟩, nofun⟩

theorem calm_finishLaunch (session : Session) : (view session).Calm (view (finishLaunch session)) :=
  View.EndsLaunch.calm (.inr rfl)

theorem endsLaunch_leaveApp (session : Session) (retain : Bool) (time : ℕ) :
    (view session).EndsLaunch (view (leaveApp session retain time)) := by
  rw [leaveApp]
  split
  · exact .inl rfl
  · simp only
    split
    · exact .inl rfl
    · have hfirst : (view session).EndsLaunch
          (view (if session.launch.pendingId = [] then finishLaunch session else session)) := by
        split
        · exact .inr rfl
        · exact .inl rfl
      generalize hleft : setLifecycle (Session.update _ _ _) _ _ = left
      have hview : view left = view (if session.launch.pendingId = [] then finishLaunch session
          else session) := by
        rw [← hleft, view_setLifecycle, view_update]
      rw [← hview] at hfirst
      split
      · split
        · rw [view_parkApp]
          exact hfirst
        · rw [view_requestClose]
          exact hfirst
      · rw [view_update]
        exact hfirst

theorem endsDocument_documentResult (session : Session) (status : DocumentStatus)
    (error : ℤ) (h : status ≠ .wait) :
    (view session).EndsDocument (view (documentResult session status error)) := by
  rw [documentResult]
  simp only [if_neg h]
  split
  · exact .inl rfl
  · right
    split
    · split <;> rfl
    · rfl

theorem endsDocument_documentLaunchResult (session : Session)
    (status : DocumentStatus) (error : ℤ) (h : status ≠ .wait) :
    (view session).EndsDocument (view (documentLaunchResult session status error)) := by
  rw [documentLaunchResult]
  split
  · exact endsDocument_documentResult session status error h
  · exact .inl rfl

theorem calm_cancelLaunch (session : Session) (time : ℕ) :
    (view session).Calm (view (cancelLaunch session time)) ∧
      (view (cancelLaunch session time)).starting = false := by
  rw [cancelLaunch]
  simp only
  split
  · rename_i hidle
    have hnone : session.launch.launchStarting = false := by
      simp only [launchInProgress, Bool.not_eq_true', Bool.or_eq_false_iff] at hidle
      exact hidle.1.1
    exact ⟨.refl _, hnone⟩
  · refine ⟨?_, rfl⟩
    have hresult := (endsDocument_documentLaunchResult session .cancelled 0 nofun).calm
    refine hresult.trans (.trans ?_ (calm_finishLaunch _))
    generalize documentLaunchResult session .cancelled 0 = answered
    split
    · split
      · exact (endsLaunch_leaveApp
          { clearPendingLaunch answered with launcherHomeView := false } true time).calm
      · split
        · exact .of_eq rfl
        · exact .of_eq (by rw [view_requestClose, view_update]; rfl)
    · exact .of_eq rfl

/-! ### The first part of a tick -/

theorem calm_dropDocument (session : Session) (token time : ℕ) :
    (view session).Calm (view (dropDocument session token time)) := by
  rw [dropDocument]
  simp only
  split
  · exact .refl _
  · generalize hdropped : { session.record _ with document := ({} : Document) } = dropped
    have hdocument : (view session).EndsDocument (view dropped) := by
      rw [← hdropped]
      exact .inr rfl
    split
    · split
      · exact hdocument.calm.trans (calm_finishLaunch dropped)
      · exact hdocument.calm.trans (calm_cancelLaunch dropped time).1
    · exact hdocument.calm

theorem calm_failDocument (session : Session) (process : Process) :
    (view session).Calm (view (failDocument session process)) := by
  rw [failDocument]
  split
  · exact (endsDocument_documentResult session .error _ nofun).calm
  · exact .refl _

@[simp] theorem view_noteExit (session : Session) (slot : Slot) (restarts : Bool) :
    view (noteExit session slot restarts) = view session := by
  rw [noteExit]
  split <;> split <;> rfl

theorem calm_releaseProcess (session : Session) (slot : Slot) :
    (view session).Calm (view (releaseProcess session slot)) := by
  rw [releaseProcess]
  simp only [view_update]
  split
  · split
    · exact calm_finishLaunch session
    · exact .of_eq rfl
  · exact .refl _

theorem calm_reapProcess (session : Session) (env : Env) (slot : Slot) :
    (view session).Calm (view (reapProcess session env slot)) := by
  rw [reapProcess]
  split
  · exact .refl _
  · simp only [view_sendTasks]
    generalize hdropped : dropDocument session (session.process slot).token env.time = dropped
    have hdrop : (view session).Calm (view dropped) := hdropped ▸ calm_dropDocument ..
    have hfail := hdrop.trans (calm_failDocument dropped (dropped.process slot))
    have hnote : (view session).Calm (view (noteExit (failDocument dropped (dropped.process slot))
        slot (restartsDocument dropped (dropped.process slot).token))) := by
      rw [view_noteExit]
      exact hfail
    have hfree := hnote.trans (calm_releaseProcess _ slot)
    split
    · exact ⟨hfree.launch, nofun⟩
    · exact hfree

@[simp] theorem view_startupTimeout (session : Session) (env : Env) (time : ℕ) (slot : Slot) :
    view (startupTimeout session env time slot) = view session := by
  rw [startupTimeout]
  generalize (if isApp session slot && session.launch.launchStarting then session.launch.launchMs
    else (session.process slot).startedMs) = started
  split
  · rw [view_requestClose, view_update]
  · rfl

@[simp] theorem view_killClosing (session : Session) (time : ℕ) (slot : Slot) :
    view (killClosing session time slot) = view session := view_update ..

theorem calm_finishUserClose (session : Session) (slot : Slot) (time : ℕ) :
    (view session).Calm (view (finishUserClose session slot time)) := by
  rw [finishUserClose]
  simp only
  split
  · exact .of_eq (by rw [view_requestClose, view_update])
  · split
    · exact .of_eq (by rw [view_requestClose]; exact (view_update ..).trans (view_update ..))
    · generalize hleft : ({ Session.update _ _ _ with launcherHomeView := false } : Session) = left
      have hview : view left = view session := by
        rw [← hleft]
        exact (view_update ..).trans (view_update ..)
      rw [← hview]
      exact (endsLaunch_leaveApp left false time).calm

theorem calm_closeTimeout (session : Session) (env : Env) (time : ℕ) (slot : Slot) :
    (view session).Calm (view (closeTimeout session env time slot)) := by
  rw [closeTimeout]
  split
  · exact calm_finishUserClose session slot env.time
  · exact .refl _

/-- **One process in a tick**: launches and documents go on or end. -/
theorem calm_manageProcess (env : Env) (time : ℕ) (session : Session) (slot : Slot) :
    (view session).Calm (view (manageProcess env time session slot)) := by
  rw [manageProcess]
  have hreap := calm_reapProcess session env slot
  split
  · exact hreap
  · have hclose := calm_closeTimeout (killClosing (startupTimeout (reapProcess session env slot)
      env time slot) time slot) env time slot
    rw [view_killClosing, view_startupTimeout] at hclose
    exact hreap.trans hclose

theorem calm_foldl (env : Env) (time : ℕ) (l : List Slot) (session : Session) :
    (view session).Calm (view (l.foldl (manageProcess env time) session)) := by
  induction l generalizing session with
  | nil => exact .refl _
  | cons slot l ih => exact (calm_manageProcess env time session slot).trans (ih _)

theorem launchTimeout_view (session : Session) (env : Env) {time : ℕ} (hword : time < 2 ^ 64)
    (hstarting : (view (launchTimeout session env time)).starting = true)
    (hlate : (view (launchTimeout session env time)).launchMs + startupMs ≤ time) :
    view (launchTimeout session env time) = view session ∧ (view session).waiting = true := by
  rw [launchTimeout] at hstarting hlate ⊢
  split
  · rename_i hover
    rw [if_pos hover, (calm_cancelLaunch _ env.time).2] at hstarting
    cases hstarting
  · rename_i hkept
    rw [if_neg hkept] at hstarting hlate
    refine ⟨rfl, ?_⟩
    by_contra hwaiting
    refine hkept ⟨hstarting, by simpa [view] using hwaiting, ?_⟩
    have hle : session.launch.launchMs + startupMs ≤ time := hlate
    rw [elapsed, Word.sub_eq hword (by omega)]
    omega

/-! ### Launches that a tick begins -/

/-- What the rest of a tick does: the launch ended, or began at this time or later, or both
the launch and the document are as they were. -/
def View.Later (v v' : View) (nowMs : ℕ) : Prop :=
  v'.starting = false ∨ nowMs ≤ v'.launchMs ∨ v' = v

theorem View.Later.trans {v'' : View} {nowMs : ℕ} (h : v.Later v' nowMs) (h' : v'.Later v'' nowMs) :
    v.Later v'' nowMs := by
  rcases h' with hidle | hfresh | rfl
  · exact .inl hidle
  · exact .inr (.inl hfresh)
  · exact h

theorem View.Later.of_eq {nowMs : ℕ} (h : v' = v) : v.Later v' nowMs :=
  .inr (.inr h)

theorem beginLaunch_view (session : Session) (id : List UInt8) (entry : Entry)
    (activation : Activation) (time : ℕ) :
    ((beginLaunch session id entry activation time).1 = false ∧
      view (beginLaunch session id entry activation time).2 = view session) ∨
    ((beginLaunch session id entry activation time).1 = true ∧
      (view (beginLaunch session id entry activation time).2).launchMs = time) := by
  rw [beginLaunch]
  simp only
  split
  · exact .inl ⟨rfl, rfl⟩
  · right
    refine ⟨rfl, ?_⟩
    generalize hbegun : ({ session.record (.beginLaunch id) with
      selectedId := id
      launch := _ } : Session) = begun
    have hms : (view begun).launchMs = time := by
      rw [← hbegun]
      rfl
    have hleft : (view (leaveApp begun true time)).launchMs = time := by
      rcases endsLaunch_leaveApp begun true time with hview | hview
      · rw [hview]
        exact hms
      · rw [hview]
        exact hms
    split
    · rw [view_requestClose]
      exact hleft
    · exact hleft

theorem later_beginLaunch (hview : view session = v) (id : List UInt8) (entry : Entry)
    (activation : Activation) (time : ℕ) :
    v.Later (view (beginLaunch session id entry activation time).2) time := by
  rcases beginLaunch_view session id entry activation time with ⟨-, hsame⟩ | ⟨-, hms⟩
  · exact .of_eq (hsame.trans hview)
  · exact .inr (.inl hms.ge)

theorem later_launch (session : Session) (env : Env) (id : List UInt8)
    (activation : Activation) :
    (view session).Later (view (launch session env id activation)) env.time := by
  rw [launch]
  split
  · exact .of_eq rfl
  · simp only
    split
    · exact .of_eq rfl
    · rename_i entry hentry
      split
      · exact .of_eq rfl
      · refine later_beginLaunch ?_ id entry activation env.time
        split
        · split
          · exact view_update ..
          · exact view_update ..
        · rfl

theorem idle_documentResult (hidle : (view session).starting = false)
    {status : DocumentStatus} (error : ℤ) (h : status ≠ .wait) :
    (view (documentResult session status error)).starting = false := by
  rcases endsDocument_documentResult session status error h with hview | hview
  · rw [hview]
    exact hidle
  · rw [hview]
    exact hidle

theorem later_openDocumentWith (session : Session) (hidle : (view session).starting = false)
    (env : Env) (id : List UInt8) :
    (view session).Later (view (openDocumentWith session env id)) env.time := by
  rw [openDocumentWith]
  simp only
  split
  · exact .inl (idle_documentResult hidle _ nofun)
  · rename_i entry hentry
    split
    · exact .inl (idle_documentResult hidle _ nofun)
    · split
      · exact .inl (idle_documentResult hidle _ nofun)
      · generalize hchosen : ({ session with
          document := { session.document with handlerId := id } } : Session) = chosen
        have hview : view chosen = view session := by
          rw [← hchosen]
          rfl
        rcases beginLaunch_view chosen id entry .open env.time with
          ⟨hrefused, hsame⟩ | ⟨hbegan, hms⟩
        · rw [hrefused]
          simp only [Bool.false_eq_true, if_false]
          refine .inl (idle_documentResult ?_ _ nofun)
          rw [hsame, hview]
          exact hidle
        · rw [hbegan]
          exact .inr (.inl hms.ge)

theorem idle_of_not_launchInProgress (h : (!launchInProgress session) = true) :
    (view session).starting = false := by
  simp only [launchInProgress, Bool.not_eq_true', Bool.or_eq_false_iff] at h
  exact h.1.1

theorem later_returnToOrigin (session : Session) (env : Env) :
    (view session).Later (view (returnToOrigin session env)) env.time := by
  rw [returnToOrigin]
  split
  · simp only
    split
    · exact .of_eq rfl
    · split
      · exact later_launch { session with returnToken := 0 } env _ .resume
      · exact .of_eq rfl
  · exact .of_eq rfl

theorem later_restartDocument (session : Session) (env : Env) :
    (view session).Later (view (restartDocument session env)) env.time := by
  rw [restartDocument]
  split
  · rename_i h
    exact later_openDocumentWith
      { session.record _ with document := { session.document with restarting := false } }
      (idle_of_not_launchInProgress h.2.2) env _
  · exact .of_eq rfl

theorem later_activateClosing (session : Session) (env : Env) :
    (view session).Later (view (activateClosing session env)) env.time := by
  rw [activateClosing]
  split
  · split
    · exact .of_eq rfl
    · rename_i index hfound
      have hview : view
          { session.update (.task index) fun p => { p with closeActivate := false } with
            launcherTasksView := false } = view session := view_update ..
      rw [← hview]
      exact later_launch _ env _ .resume
  · exact .of_eq rfl

theorem later_forkTask (session : Session) (env : Env) (entry : Entry) :
    (view session).Later (view (forkTask session env entry)) env.time := by
  rw [forkTask]
  split
  · exact .inl rfl
  · simp only
    split
    · exact .of_eq (view_startProcess ..)
    · exact .inl rfl

theorem later_startPending (session : Session) (env : Env) (time : ℕ) :
    (view session).Later (view (startPending session env time)) env.time := by
  rw [startPending]
  simp only
  split
  · exact .of_eq rfl
  · split
    · refine .inl ?_
      rw [view_sendTasks]
      rfl
    · split
      · exact .inl rfl
      · rename_i entry hentry
        split
        · exact .inl rfl
        · split
          · exact .of_eq rfl
          · split
            · exact .of_eq (view_requestClose ..)
            · split
              · split
                · exact .of_eq (view_resumeTask ..)
                · exact later_forkTask session env entry
              · exact .of_eq rfl

/-! ### The rest of a tick -/

@[simp] theorem view_startLauncher (session : Session) (env : Env) :
    view (startLauncher session env) = view session := by
  rw [startLauncher]
  split
  · split
    · exact view_startProcess ..
    · rfl
  · rfl

@[simp] theorem view_stopLauncher (session : Session) (env : Env) :
    view (stopLauncher session env) = view session := by
  rw [stopLauncher]
  split
  · exact view_requestClose ..
  · rfl

@[simp] theorem view_settleLauncher (session : Session) :
    view (settleLauncher session) = view session := by
  rw [settleLauncher]
  split <;> rfl

@[simp] theorem view_handOff (session : Session) (env : Env) (time : ℕ) :
    view (handOff session env time) = view session := by
  rw [handOff]
  split
  · rfl
  · simp only
    split
    · rfl
    · split
      · rfl
      · split
        · rfl
        · split
          · split
            · exact view_parkApp _
            · exact view_requestClose ..
          · exact view_update ..

@[simp] theorem view_switchMode (session : Session) (env : Env) (time : ℕ) :
    view (switchMode session env time) = view session := by
  rw [switchMode]
  split
  · rfl
  · split
    · rfl
    · exact view_updateApp ..

theorem later_manageProcesses (session : Session) (env : Env) (time : ℕ) :
    (view (launchTimeout (slots.foldl (manageProcess env time) session) env time)).Later
      (view (manageProcesses session env time)) env.time := by
  rw [manageProcesses]
  simp only [view_switchMode, view_handOff, view_settleLauncher, view_stopLauncher,
    view_startLauncher]
  generalize launchTimeout (slots.foldl (manageProcess env time) session) env time = watched
  have hreturned := later_returnToOrigin watched env
  have hrestarted := hreturned.trans (later_restartDocument (returnToOrigin watched env) env)
  have hactivated := hrestarted.trans
    (later_activateClosing (restartDocument (returnToOrigin watched env) env) env)
  exact hactivated.trans (later_startPending _ env time)

/-- **A tick and an overdue launch**: one that still goes on is the launch from before the
tick, and the document that waits is that from before as well. -/
theorem manageProcesses_view {session : Session} {env : Env} {time : ℕ} (hclock : time ≤ env.time)
    (hword : time < 2 ^ 64)
    (hstarting : (view (manageProcesses session env time)).starting = true)
    (hlate : (view (manageProcesses session env time)).launchMs + startupMs ≤ time) :
    (view (manageProcesses session env time)).waiting = true ∧
      (view session).starting = true ∧ (view session).waiting = true ∧
      (view (manageProcesses session env time)).generation = (view session).generation ∧
      (view (manageProcesses session env time)).serial = (view session).serial := by
  have hpos : 0 < startupMs := by decide
  have hrest := later_manageProcesses session env time
  generalize view (manageProcesses session env time) = after at *
  have hsame : after =
      view (launchTimeout (slots.foldl (manageProcess env time) session) env time) := by
    rcases hrest with hidle | hfresh | hsame
    · rw [hidle] at hstarting
      cases hstarting
    · omega
    · exact hsame
  rw [hsame] at hstarting hlate
  obtain ⟨hkept, hwaiting⟩ := launchTimeout_view _ env hword hstarting hlate
  have hcalm := calm_foldl env time slots session
  rw [← hkept] at hcalm hwaiting
  obtain ⟨hbefore, hgeneration, -⟩ := hcalm.launch hstarting
  obtain ⟨hwaited, hserial⟩ := hcalm.document hwaiting
  rw [hsame]
  exact ⟨hwaiting, hbefore, hwaited, hgeneration, hserial⟩

/-! ### Runs -/

/-- The clock goes on during a tick, and its times are 64 bits wide. -/
def Op.Clocked : Op → Prop
  | .manage env time => time ≤ env.time ∧ time < 2 ^ 64
  | _ => True

/-- A launch goes on while the document of another launch waits. -/
def Blocked (session : Session) : Prop :=
  session.launch.launchStarting = true ∧ session.document.waiting = true ∧
    session.document.serial ≠ session.launch.launchGeneration

/-- A launch is in progress that began too long ago. -/
def Overdue (session : Session) (time : ℕ) : Prop :=
  session.launch.launchStarting = true ∧ session.launch.launchMs + startupMs ≤ time

/-- The launch in progress is the delivery of the document that waits. -/
def OwnWait (session : Session) : Prop :=
  session.document.waiting = true ∧ session.document.serial = session.launch.launchGeneration

/-- The watchdog did its work in this step. -/
def Watched (x : Step Session Op) : Prop :=
  ∀ env time, x.op = .manage env time → Overdue x.after time → OwnWait x.after

/-- A tick that did not start with a blocked launch. -/
def Unblocked (x : Step Session Op) : Prop :=
  ∀ env time, x.op = .manage env time → ¬ Blocked x.before

theorem ownWait_iff {env : Env} {time : ℕ} (hclock : time ≤ env.time) (hword : time < 2 ^ 64)
    (hover : Overdue (manageProcesses session env time) time) :
    OwnWait (manageProcesses session env time) ↔ ¬ Blocked session := by
  have htick := @manageProcesses_view session env time hclock hword
  generalize manageProcesses session env time = after at *
  obtain ⟨hwaiting, hbefore, hwaited, hgeneration, hserial⟩ := htick hover.1 hover.2
  constructor
  · intro hown hblocked
    exact hblocked.2.2 (hserial.symm.trans (hown.2.trans hgeneration))
  · intro hfree
    refine ⟨hwaiting, ?_⟩
    by_contra hother
    refine hfree ⟨hbefore, hwaited, fun hown => hother ?_⟩
    exact hserial.trans (hown.trans hgeneration.symm)

/-- **The watchdog, over a run.**  If no tick finds a launch in progress while the document
of another launch waits, then after every tick a launch that is overdue is the delivery of
the document that waits.  A tick that does find that never sets it right: the launch ended
for another reason, or it is overdue and not its own document's. -/
theorem watchdog_of_trace {l : List (Step Session Op)} {s : Session}
    (htrace : machine.Trace l s) (hclock : ∀ x ∈ l, x.op.Clocked) :
    ((∀ x ∈ l, Unblocked x) → ∀ x ∈ l, Watched x) ∧
      ∀ x ∈ l, ∀ env time, x.op = .manage env time → Overdue x.after time →
        (OwnWait x.after ↔ ¬ Blocked x.before) := by
  have htick : ∀ x ∈ l, ∀ env time, x.op = .manage env time → Overdue x.after time →
      (OwnWait x.after ↔ ¬ Blocked x.before) := by
    intro x hx env time hop hover
    obtain ⟨pre, post, hl⟩ := List.append_of_mem hx
    obtain ⟨-, -, hstep⟩ := htrace.split hl
    have htimes := hclock x hx
    rw [hop] at htimes hstep
    rw [perform] at hstep
    rw [hstep] at hover ⊢
    exact ownWait_iff htimes.1 htimes.2 hover
  refine ⟨?_, htick⟩
  intro hfree x hx env time hop hover
  exact (htick x hx env time hop hover).mpr (hfree x hx env time hop)

/-! ### A launch that is never given up -/

def filesId : List UInt8 := ascii "org.fplinux.files"
def notesId : List UInt8 := ascii "org.fplinux.notes"

def plainEntry (mode : Mode) : Entry where
  title := ascii "Name"
  icon := []
  iconValid := false
  extensions := ascii "txt;"
  hidden := false
  mode := mode
  title_ne := by decide
  title_length := by decide

theorem task_pid_ne_zero (index : Fin 4) : index.val + 2 ≠ 0 := Nat.succ_ne_zero _

/-- Two applications are installed, every fork works and no process exits. -/
def quietEnv (time : ℕ) : Env where
  time := time
  entries id :=
    if id = launcherId then some (plainEntry .launcher)
    else if id = filesId ∨ id = notesId then some (plainEntry .integrated)
    else none
  directory := .ok [filesId ++ ascii ".desktop"]
  pathError _ := 0
  sends := true
  clockAccepted := true
  fork
    | .launcher => .ok ⟨1, Nat.one_ne_zero⟩
    | .task index => .ok ⟨index.val + 2, task_pid_ne_zero index⟩
  exited _ := false
  launcherSettled := true
  launcherDrawsApp := true

def told (slot : Slot) (authenticated : Bool) (message : Message) : Op :=
  .receive slot authenticated message ⟨false, false⟩ (quietEnv 0)

def firstTask : Slot := slots.getD 1 .launcher
def secondTask : Slot := slots.getD 2 .launcher

/-- The file manager opens a file with itself, and asks to wait. -/
def waitingRun : List Op :=
  [.manage (quietEnv 0) 0,
    told .launcher false { type := .hello, appId := launcherId },
    told .launcher true { type := .ready },
    .frame .launcher,
    told .launcher true { type := .launch, appId := filesId },
    .manage (quietEnv 0) 0,
    told firstTask false { type := .hello, appId := filesId },
    told firstTask true { type := .ready },
    .frame firstTask,
    .surfaceCommitted firstTask none 0,
    told firstTask true { type := .activationAck, serial := 1 },
    told firstTask true { type := .openFile, path := ascii "/a.txt", serial := 7 },
    .manage (quietEnv 0) 0,
    told firstTask true { type := .documentResult, serial := 2, documentStatus := .wait }]

/-- It comes to the foreground and goes Home, and another application is launched that
never answers. -/
def blockedRun : List Op :=
  waitingRun ++
    [told firstTask true { type := .activationAck, serial := 2 },
      .home 0,
      told .launcher true { type := .launch, appId := notesId },
      .manage (quietEnv 0) 0,
      told secondTask false { type := .hello, appId := notesId },
      told secondTask true { type := .ready },
      .frame secondTask]

/-- A packet with these texts, and perhaps a serial. -/
def members (texts : List (String × String)) (serial : Option ℤ) : Json :=
  .obj (texts.map (fun m => (m.1, .str (ascii m.2))) ++
    (serial.map fun n => ("serial", .int n)).toList)

theorem received_members {message : Message} {texts : List (String × String)} {serial : Option ℤ}
    (h : receive (fun _ => some (members texts serial)) ⟨[1], []⟩ = some message) :
    Received message :=
  ⟨_, _, h⟩

theorem allowed_waitingRun : ∀ op ∈ waitingRun, op.Allowed := by
  have hhello : Received { type := .hello, appId := launcherId } :=
    @received_members _ [("type", "HELLO"), ("app_id", "org.fplinux.launcher")] none rfl
  have hready : Received { type := .ready } := @received_members _ [("type", "READY")] none rfl
  have hlaunch : Received { type := .launch, appId := filesId } :=
    @received_members _ [("type", "LAUNCH"), ("app_id", "org.fplinux.files")] none rfl
  have hfiles : Received { type := .hello, appId := filesId } :=
    @received_members _ [("type", "HELLO"), ("app_id", "org.fplinux.files")] none rfl
  have hack : Received { type := .activationAck, serial := 1 } :=
    @received_members _ [("type", "ACTIVATION_ACK")] (some 1) rfl
  have hopen : Received { type := .openFile, path := ascii "/a.txt", serial := 7 } :=
    @received_members _ [("type", "OPEN_FILE"), ("path", "/a.txt")] (some 7) rfl
  have hwait : Received { type := .documentResult, serial := 2, documentStatus := .wait } :=
    @received_members _ [("type", "DOCUMENT_RESULT"), ("document_status", "wait")] (some 2) rfl
  simp only [waitingRun, told, List.forall_mem_cons, List.not_mem_nil, false_implies, implies_true,
    Op.Allowed, hhello, hready, hlaunch, hfiles, hack, hopen, hwait, and_true]

theorem allowed_blockedRun : ∀ op ∈ blockedRun, op.Allowed := by
  have hready : Received { type := .ready } := @received_members _ [("type", "READY")] none rfl
  have hack : Received { type := .activationAck, serial := 2 } :=
    @received_members _ [("type", "ACTIVATION_ACK")] (some 2) rfl
  have hlaunch : Received { type := .launch, appId := notesId } :=
    @received_members _ [("type", "LAUNCH"), ("app_id", "org.fplinux.notes")] none rfl
  have hnotes : Received { type := .hello, appId := notesId } :=
    @received_members _ [("type", "HELLO"), ("app_id", "org.fplinux.notes")] none rfl
  rw [blockedRun, List.forall_mem_append]
  refine ⟨allowed_waitingRun, ?_⟩
  simp only [told, List.forall_mem_cons, List.not_mem_nil, false_implies, implies_true, Op.Allowed,
    hready, hack, hlaunch, hnotes, and_true]

theorem clocked_blockedRun : ∀ op ∈ blockedRun, op.Clocked := by
  have hzero : 0 ≤ (quietEnv 0).time ∧ 0 < 2 ^ 64 := ⟨Nat.le_refl 0, Nat.two_pow_pos 64⟩
  rw [blockedRun, List.forall_mem_append]
  simp only [waitingRun, told, List.forall_mem_cons, List.not_mem_nil, false_implies, implies_true,
    Op.Clocked, hzero, and_true]

/-- The tick that comes twenty seconds after these operations. -/
def lateTick (ops : List Op) : Step Session Op :=
  ⟨ops.foldl perform {}, .manage (quietEnv 20000) 20000,
    manageProcesses (ops.foldl perform {}) (quietEnv 20000) 20000⟩

theorem step_manage (session : Session) (env : Env) (time : ℕ) :
    machine.step session (.manage env time) (manageProcesses session env time) := by
  refine ⟨trivial, ?_⟩
  rw [perform]

theorem trace_late {ops : List Op} (hallowed : ∀ op ∈ ops, op.Allowed) :
    machine.Trace (steps perform {} ops ++ [lateTick ops]) (lateTick ops).after := by
  have hstart : machine.Trace [] {} := .start ⟨{}, rfl⟩
  have htrace := hstart.steps ops fun _ op hop => ⟨hallowed op hop, rfl⟩
  rw [List.nil_append] at htrace
  have htick := step_manage (ops.foldl perform {}) (quietEnv 20000) 20000
  generalize hafter : manageProcesses (ops.foldl perform {}) (quietEnv 20000) 20000 = after at htick
  have hlate : lateTick ops = ⟨ops.foldl perform {}, .manage (quietEnv 20000) 20000, after⟩ := by
    rw [lateTick, hafter]
  rw [hlate]
  exact htrace.step htick

theorem clocked_late {ops : List Op} (hclocked : ∀ op ∈ ops, op.Clocked) :
    ∀ x ∈ steps perform {} ops ++ [lateTick ops], x.op.Clocked := by
  rw [List.forall_mem_append]
  refine ⟨fun x hx => hclocked x.op (Machine.op_mem_of_mem_steps hx), ?_⟩
  intro x hx
  rw [List.mem_singleton.mp hx]
  exact ⟨Nat.le_refl 20000, by decide⟩

theorem view_late_waitingRun :
    view (lateTick waitingRun).before = ⟨true, 2, 0, true, 2⟩ ∧
      view (lateTick waitingRun).after = ⟨true, 2, 0, true, 2⟩ := by
  constructor <;> decide +kernel

theorem view_late_blockedRun : view (lateTick blockedRun).after = ⟨true, 3, 0, true, 2⟩ := by
  decide +kernel

theorem overdue_of_view (hview : view session = v) (time : ℕ) (hstarting : v.starting = true)
    (hlate : v.launchMs + startupMs ≤ time) :
    Overdue session time := by
  subst hview
  exact ⟨hstarting, hlate⟩

/-- A launch whose own document waits goes on. -/
theorem watchdog_of_trace_waiting :
    ∃ x : Step Session Op, x.op = .manage (quietEnv 20000) 20000 ∧
      Overdue x.after 20000 ∧ OwnWait x.after := by
  obtain ⟨hbefore, hafter⟩ := view_late_waitingRun
  have htrace := trace_late allowed_waitingRun
  have hclocked : ∀ op ∈ waitingRun, op.Clocked := fun op hop =>
    clocked_blockedRun op (List.mem_append_left _ hop)
  have hclock := clocked_late hclocked
  have hop : (lateTick waitingRun).op = .manage (quietEnv 20000) 20000 := rfl
  have hmem : lateTick waitingRun ∈ steps perform {} waitingRun ++ [lateTick waitingRun] :=
    List.mem_append_right _ (List.mem_singleton_self _)
  generalize lateTick waitingRun = x at *
  have hover := overdue_of_view hafter 20000 rfl (by decide)
  have hfree : ¬ Blocked x.before := by
    rintro ⟨-, -, hserial⟩
    exact hserial ((congrArg View.serial hbefore).trans (congrArg View.generation hbefore).symm)
  exact ⟨x, hop, hover, ((watchdog_of_trace htrace hclock).2 x hmem _ _ hop hover).mpr hfree⟩

/-- **A launch that is never given up**: the document of another task waits. -/
theorem watchdog_blocked :
    machine.Trace (steps perform {} blockedRun ++ [lateTick blockedRun])
        (lateTick blockedRun).after ∧
      (∀ x ∈ steps perform {} blockedRun ++ [lateTick blockedRun], x.op.Clocked) ∧
      (lateTick blockedRun).after.appProcess.token ≠
        (lateTick blockedRun).after.document.handlerToken ∧
      ¬ Watched (lateTick blockedRun) := by
  refine ⟨trace_late allowed_blockedRun, clocked_late clocked_blockedRun, ?_, ?_⟩
  · decide +kernel
  · have hafter := view_late_blockedRun
    have hop : (lateTick blockedRun).op = .manage (quietEnv 20000) 20000 := rfl
    generalize lateTick blockedRun = x at *
    intro hwatched
    have hover := overdue_of_view hafter 20000 rfl (by decide)
    obtain ⟨-, hserial⟩ := hwatched _ _ hop hover
    have hwrong := (congrArg View.serial hafter).symm.trans
      (hserial.trans (congrArg View.generation hafter))
    cases hwrong

end SessionCore
