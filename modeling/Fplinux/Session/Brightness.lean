/-
The backlight level as the session keeps it through the brightness service
(`session-core.c`).

The service has one user level, which `SET` changes and `GET` reads.  A call
that is reported as failed may have taken effect (`Outcome.failed`): its reply
may be lost, and the service itself reports a backlight that refused the level
after it has taken the level over.  The session mirrors the level in three
places: `userLevel`, `previewRestoreLevel` and `pendingSet`.

`service` is the level in the service; `saved` is not in the source: the level
last saved successfully, before any save the one from before the first preview.

* `sound_of_trace` — a preview does not stick as long as no first step of a
  preview, and no save outside a preview, is reported as failed although the
  service took the level;
* `lost_firstStep` — otherwise it sticks.
-/
import Fplinux.Session.Power
import Fplinux.Session.Settings

namespace Brightness

open Settings (Levels parseBrightness)

def retryMs : ℕ := 2000

/-- How a service call ends. -/
inductive Outcome
  | ok
  | failed (tookEffect : Bool)
  deriving DecidableEq, Repr

def Outcome.isOk : Outcome → Bool
  | .ok => true
  | .failed _ => false

/-- Whether the service did what was asked. -/
def Outcome.applied : Outcome → Bool
  | .ok => true
  | .failed tookEffect => tookEffect

/-- The time of an operation and how its calls end, as far as it makes them:
the connection with its `SET` and `GET`, the claim, and the operation's own. -/
structure Calls where
  nowMs : ℕ
  connect : Bool
  pendingSet : Outcome
  get : Bool
  claim : Bool
  own : Outcome
  deriving DecidableEq, Repr

structure State where
  hasSocket : Bool
  connected : Bool := false
  userLevel : ℕ
  previewActive : Bool := false
  previewLauncher : Bool := false
  previewRestoreLevel : ℕ := 0
  leased : Bool := false
  shown : ℤ := -1
  pendingSet : Bool
  failed : Bool := false
  retryAtMs : ℕ := 0
  settings : Levels
  service : ℕ
  saved : ℕ
  deriving DecidableEq, Repr

/-- What the client is told. -/
inductive Reply
  | error (name : String) (value : List UInt8) (reason : String)
  | setting (name : String) (level : ℕ) (mutation : Bool)
  deriving DecidableEq, Repr

/-- The session at its start, with a service at level `service`: a level saved
earlier replaces the service's. -/
def initial (hasSocket : Bool) (settings : Levels) (service : ℕ) : State where
  hasSocket := hasSocket
  userLevel := settings.brightness
  pendingSet := settings.hasBrightness
  settings := settings
  service := service
  saved := if settings.hasBrightness then settings.brightness else service

/-- `fplinux_brightness_set` as the service sees it. -/
def serviceSet (s : State) (level : ℕ) (outcome : Outcome) : State :=
  { s with service := if outcome.applied then level else s.service }

def lost (c : Calls) (s : State) : State :=
  { s with
    failed := true
    connected := false
    leased := false
    shown := -1
    retryAtMs := Word.add 64 c.nowMs retryMs }

/-- The end of `brightness_connect`: the level is the service's. -/
def connectGet (c : Calls) (s : State) : Bool × State :=
  if c.get then
    (true, { s with userLevel := s.service, failed := false })
  else
    (false, lost c s)

def connect (c : Calls) (s : State) : Bool × State :=
  if s.connected then
    (true, s)
  else if !s.hasSocket || c.nowMs < s.retryAtMs then
    (false, s)
  else if !c.connect then
    (false, lost c s)
  else
    let s := { s with connected := true, leased := false, shown := -1 }
    if s.pendingSet then
      let s := serviceSet s s.userLevel c.pendingSet
      if c.pendingSet.isOk then
        connectGet c { s with pendingSet := false }
      else
        (false, lost c s)
    else
      connectGet c s

/-- `show_backlight`; a negative level releases the lease. -/
def showBacklight (c : Calls) (s : State) (level : ℤ) : State :=
  if level < 0 ∧ !s.leased ∧ !s.pendingSet then
    s
  else if level ≥ 0 ∧ s.leased ∧ s.shown = level then
    s
  else
    let (ok, s) := connect c s
    if !ok then
      s
    else if level < 0 then
      if s.leased ∧ !c.own.isOk then lost c s else { s with leased := false, shown := -1 }
    else if !s.leased ∧ !c.claim then
      lost c s
    else
      let s := { s with leased := true }
      if c.own.isOk then { s with shown := level } else lost c s

def dimLevel (userLevel : ℕ) : ℕ :=
  let level := if userLevel / 3 = 0 then 1 else userLevel / 3
  if level < userLevel then level else userLevel

/-- The backlight of `apply_lights`. -/
def applyLights (c : Calls) (s : State) : Power.Display → State
  | .on => showBacklight c s (-1)
  | .dim => showBacklight c s (dimLevel s.userLevel)
  | .off => showBacklight c s 0

/-- `brightness_setting`: saves the level of `value`, or reads the level when
`value` is empty. -/
def brightnessSetting (c : Calls) (s : State) (value : List UInt8) : State × Reply :=
  if value = [] then
    let (ok, s) := connect c s
    if !ok then
      (s, .error "brightness" value "unavailable")
    else if c.own.isOk then
      ({ s with userLevel := s.service }, .setting "brightness" s.service false)
    else
      (lost c s, .error "brightness" value "unavailable")
  else
    match parseBrightness value with
    | none => (s, .error "brightness" value "invalid-value")
    | some level =>
      let (ok, s) := connect c s
      if !ok then
        (s, .error "brightness" value "unavailable")
      else
        let s := serviceSet s level c.own
        if c.own.isOk then
          -- The saved level replaces the one a preview would restore.
          ({ s with
              settings := { s.settings with hasBrightness := true, brightness := level }
              userLevel := level
              previewActive := false
              saved := level }, .setting "brightness" level true)
        else
          (lost c s, .error "brightness" value "unavailable")

def endBrightnessPreview (c : Calls) (s : State) : Bool × State :=
  if !s.previewActive then
    (true, s)
  else
    let level := s.previewRestoreLevel
    let (ok, s) := connect c { s with previewActive := false }
    if !ok then
      (false, { s with userLevel := level, pendingSet := true })
    else
      let s := serviceSet { s with userLevel := level } level c.own
      if c.own.isOk then (true, s) else (false, { lost c s with pendingSet := true })

/-- The first step of a preview remembers the level that ending it restores. -/
def rememberLevel (s : State) : State :=
  if s.previewActive then s else { s with previewRestoreLevel := s.userLevel }

/-- `brightness_preview` for the launcher's Quick settings or for Settings. -/
def brightnessPreview (c : Calls) (s : State) (launcher : Bool) (value : List UInt8) :
    State × Reply :=
  if value = [] then
    let (ok, s) := endBrightnessPreview c s
    if ok then
      (s, .setting "brightness" s.userLevel false)
    else
      (s, .error "brightness" value "unavailable")
  else
    match parseBrightness value with
    | none => (s, .error "brightness_preview" value "invalid-value")
    | some level =>
      let (ok, s) := connect c s
      if !ok then
        (s, .error "brightness_preview" value "unavailable")
      else
        let s := serviceSet (rememberLevel s) level c.own
        if c.own.isOk then
          ({ s with previewActive := true, previewLauncher := launcher, userLevel := level },
            .setting "brightness_preview" level false)
        else
          (lost c s, .error "brightness_preview" value "unavailable")

/-- `settings_gone` for a process that is Settings. -/
def settingsGone (c : Calls) (s : State) : State :=
  if s.previewActive && !s.previewLauncher then (endBrightnessPreview c s).2 else s

def quickSettingsGone (c : Calls) (s : State) (quickSettingsShown : Bool) : State :=
  if s.previewActive && s.previewLauncher && !quickSettingsShown then
    (endBrightnessPreview c s).2
  else
    s

/-- What reaches the lights: settings messages, clients that leave or end,
display changes. -/
inductive Op
  | setting (value : List UInt8)
  | preview (launcher : Bool) (value : List UInt8)
  | settingsGone
  | quickSettingsGone (quickSettingsShown : Bool)
  | lights (display : Power.Display)
  deriving DecidableEq, Repr

def step (s : State) (op : Op) (c : Calls) : State :=
  match op with
  | .setting value => (brightnessSetting c s value).1
  | .preview launcher value => (brightnessPreview c s launcher value).1
  | .settingsGone => settingsGone c s
  | .quickSettingsGone shown => quickSettingsGone c s shown
  | .lights display => applyLights c s display

/-- The runs of the session with any outcome of its calls. -/
def machine : Machine State (Op × Calls) where
  start s := ∃ hasSocket settings service, s = initial hasSocket settings service
  step s a s' := s' = step s a.1 a.2

/-! ### The invariant -/

/-- Where the saved level is kept: by the preview, for the next connection, or
in the service. -/
structure Inv (s : State) : Prop where
  preview : s.previewActive = true → s.previewRestoreLevel = s.saved ∧ s.pendingSet = false
  pending : s.previewActive = false → s.pendingSet = true → s.userLevel = s.saved
  settled : s.previewActive = false → s.pendingSet = false → s.service = s.saved
  mirror : s.connected = true → s.pendingSet = false ∧
    (s.previewActive = false → s.userLevel = s.service)

theorem inv_initial (hasSocket : Bool) (settings : Levels) (service : ℕ) :
    Inv (initial hasSocket settings service) := by
  refine ⟨?_, ?_, ?_, ?_⟩
  · intro h
    cases h
  · intro _ hpending
    have hhas : settings.hasBrightness = true := hpending
    simp [initial, hhas]
  · intro _ hpending
    have hhas : settings.hasBrightness = false := hpending
    simp [initial, hhas]
  · intro h
    cases h

section Steps

variable {c : Calls} {s : State}

theorem Inv.lost (h : Inv s) : Inv (lost c s) where
  preview := h.preview
  pending := h.pending
  settled := h.settled
  mirror := by
    intro hc
    cases hc

/-- What a connection leaves alone, and that its answer is true. -/
structure Connects (s s' : State) (ok : Bool) : Prop where
  previewActive : s'.previewActive = s.previewActive
  previewRestoreLevel : s'.previewRestoreLevel = s.previewRestoreLevel
  saved : s'.saved = s.saved
  connected : s'.connected = ok
  pendingSet : s.pendingSet = false → s'.pendingSet = false

theorem connects_connectGet (hconn : s.connected = true) :
    Connects s (connectGet c s).2 (connectGet c s).1 := by
  rw [connectGet]
  split
  · exact ⟨rfl, rfl, rfl, hconn, id⟩
  · exact ⟨rfl, rfl, rfl, rfl, id⟩

theorem connects_connect (c : Calls) (s : State) : Connects s (connect c s).2 (connect c s).1 := by
  rw [connect]
  split
  · rename_i hconn
    exact ⟨rfl, rfl, rfl, hconn, id⟩
  rename_i hconn
  have hconn' : s.connected = false := by simpa using hconn
  split
  · exact ⟨rfl, rfl, rfl, hconn', id⟩
  split
  · exact ⟨rfl, rfl, rfl, rfl, id⟩
  by_cases hpending : s.pendingSet = true
  · simp only [hpending, if_true]
    split
    · obtain ⟨ha, hr, hs, hc, hp⟩ := connects_connectGet (c := c)
        (s := { serviceSet { s with connected := true, leased := false, shown := -1 } s.userLevel
          c.pendingSet with pendingSet := false }) rfl
      exact ⟨ha, hr, hs, hc, fun _ => hp rfl⟩
    · refine ⟨rfl, rfl, rfl, rfl, fun hnone => ?_⟩
      rw [hpending] at hnone
      cases hnone
  · have hnone : s.pendingSet = false := by simpa using hpending
    simp only [hnone, Bool.false_eq_true, if_false]
    obtain ⟨ha, hr, hs, hc, hp⟩ := connects_connectGet (c := c)
      (s := { s with connected := true, leased := false, shown := -1, pendingSet := false }) rfl
    exact ⟨ha, hr, hs, hc, fun _ => hp rfl⟩

theorem inv_connectGet (hinv : Inv { s with userLevel := s.service })
    (hlost : Inv (Brightness.lost c s)) : Inv (connectGet c s).2 := by
  rw [connectGet]
  split
  · exact ⟨hinv.preview, hinv.pending, hinv.settled, hinv.mirror⟩
  · exact hlost

/-- **One connection.**  The pending level reaches the service before the
session reads the level back. -/
theorem inv_connect (h : Inv s) : Inv (connect c s).2 := by
  rw [connect]
  split
  · exact h
  split
  · exact h
  split
  · exact h.lost
  by_cases hpending : s.pendingSet = true
  · -- A preview has nothing pending, so the pending level is the saved one.
    have hidle : s.previewActive = false := by
      by_contra hactive
      have hnone := (h.preview (by simpa using hactive)).2
      rw [hpending] at hnone
      cases hnone
    have hlevel := h.pending hidle hpending
    simp only [hpending, if_true]
    cases hout : c.pendingSet with
    | ok =>
      refine inv_connectGet ?_ ?_
      · refine ⟨?_, ?_, ?_, ?_⟩ <;> simp [serviceSet, Outcome.applied, hidle, hlevel]
      · refine ⟨?_, ?_, ?_, ?_⟩ <;>
          simp [serviceSet, Brightness.lost, Outcome.applied, hidle, hlevel]
    | failed tookEffect =>
      refine ⟨?_, ?_, ?_, ?_⟩ <;> simp [Outcome.isOk, serviceSet, Brightness.lost, hidle, hlevel]
  · have hnone : s.pendingSet = false := by simpa using hpending
    simp only [hnone, Bool.false_eq_true, if_false]
    refine inv_connectGet ?_ ?_
    · refine ⟨fun ha => ⟨(h.preview ha).1, rfl⟩, ?_, fun ha _ => h.settled ha hnone,
        fun _ => ⟨rfl, fun _ => rfl⟩⟩
      intro _ hp
      cases hp
    · refine ⟨fun ha => ⟨(h.preview ha).1, rfl⟩, ?_, fun ha _ => h.settled ha hnone, ?_⟩
      · intro _ hp
        cases hp
      · intro hc
        cases hc

theorem Inv.setShown (h : Inv s) (leased : Bool) (shown : ℤ) :
    Inv { s with leased := leased, shown := shown } :=
  ⟨h.preview, h.pending, h.settled, h.mirror⟩

theorem inv_showBacklight (h : Inv s) (level : ℤ) : Inv (showBacklight c s level) := by
  have hinv := inv_connect (c := c) h
  rw [showBacklight]
  split
  · exact h
  split
  · exact h
  rcases hconnect : connect c s with ⟨ok, s₁⟩
  rw [hconnect] at hinv
  simp only
  split
  · exact hinv
  split
  · split
    · exact hinv.lost
    · exact hinv.setShown false (-1)
  split
  · exact hinv.lost
  split
  · exact hinv.setShown true level
  · exact (hinv.setShown true s₁.shown).lost

theorem inv_applyLights (h : Inv s) (display : Power.Display) : Inv (applyLights c s display) := by
  cases display with
  | on => exact inv_showBacklight h _
  | dim => exact inv_showBacklight h _
  | off => exact inv_showBacklight h _

/-- The call's answer says whether it took effect, or the level is the saved
one, or a preview is active. -/
def Answered (s : State) (level : ℕ) (outcome : Outcome) : Prop :=
  s.previewActive = false → outcome = .failed true → level = s.saved

theorem inv_serviceSet_failed (h : Inv s) {level : ℕ} {outcome : Outcome}
    (hanswer : Answered s level outcome) (hfailed : outcome.isOk = false) :
    Inv (lost c (serviceSet s level outcome)) := by
  refine ⟨h.preview, h.pending, ?_, ?_⟩
  · intro hidle hnone
    have hservice := h.settled hidle hnone
    cases outcome with
    | ok => cases hfailed
    | failed tookEffect =>
      cases tookEffect with
      | false => exact hservice
      | true => exact hanswer hidle rfl
  · intro hc
    cases hc

theorem Outcome.applied_of_isOk {outcome : Outcome} (h : outcome.isOk = true) :
    outcome.applied = true := by
  cases outcome with
  | ok => rfl
  | failed tookEffect => cases h

theorem inv_brightnessSetting (h : Inv s) {value : List UInt8}
    (hanswer : ∀ level, parseBrightness value = some level → Answered s level c.own) :
    Inv (brightnessSetting c s value).1 := by
  have hinv := inv_connect (c := c) h
  have hcon := connects_connect c s
  rcases hconnect : connect c s with ⟨ok, s₁⟩
  rw [hconnect] at hinv hcon
  rw [brightnessSetting]
  split
  · simp only [hconnect]
    split
    · exact hinv
    rename_i hok
    have hmirror := hinv.mirror (hcon.connected.trans (by simpa using hok))
    split
    · refine ⟨hinv.preview, ?_, hinv.settled, fun _ => ⟨hmirror.1, fun _ => rfl⟩⟩
      intro _ hp
      rw [hmirror.1] at hp
      cases hp
    · exact hinv.lost
  split
  · exact h
  rename_i level hparse
  simp only [hconnect]
  split
  · exact hinv
  rename_i hok
  have hnone : s₁.pendingSet = false :=
    (hinv.mirror (hcon.connected.trans (by simpa using hok))).1
  split
  · rename_i hset
    have happlied := Outcome.applied_of_isOk hset
    refine ⟨?_, ?_, ?_, ?_⟩ <;> simp [serviceSet, happlied, hnone]
  · rename_i hfailed
    refine inv_serviceSet_failed hinv ?_ (by simpa using hfailed)
    intro hidle hout
    rw [hcon.saved]
    exact hanswer level hparse (hcon.previewActive.symm.trans hidle) hout

theorem inv_endBrightnessPreview (h : Inv s) : Inv (endBrightnessPreview c s).2 := by
  have hcon := connects_connect c { s with previewActive := false }
  rw [endBrightnessPreview]
  split
  · exact h
  rename_i hactive
  obtain ⟨hrestore, hnone⟩ := h.preview (by simpa using hactive)
  rcases hconnect : connect c { s with previewActive := false } with ⟨ok, s₁⟩
  rw [hconnect] at hcon
  have hidle : s₁.previewActive = false := hcon.previewActive
  have hsaved : s₁.saved = s.saved := hcon.saved
  have hclear : s₁.pendingSet = false := hcon.pendingSet hnone
  have hconn : s₁.connected = ok := hcon.connected
  simp only
  split
  · rename_i hok
    refine ⟨?_, ?_, ?_, ?_⟩ <;> simp_all
  · split
    · rename_i hset
      have happlied := Outcome.applied_of_isOk hset
      refine ⟨?_, ?_, ?_, ?_⟩ <;> simp [serviceSet, happlied, hidle, hsaved, hclear, hrestore]
    · refine ⟨?_, ?_, ?_, ?_⟩ <;> simp [serviceSet, Brightness.lost, hidle, hsaved, hrestore]

theorem saved_rememberLevel (s : State) : (rememberLevel s).saved = s.saved := by
  rw [rememberLevel]
  split <;> rfl

theorem previewActive_rememberLevel (s : State) :
    (rememberLevel s).previewActive = s.previewActive := by
  rw [rememberLevel]
  split <;> rfl

theorem inv_rememberLevel (h : Inv s) : Inv (rememberLevel s) := by
  rw [rememberLevel]
  split
  · exact h
  · rename_i hactive
    exact ⟨fun ha => absurd ha hactive, h.pending, h.settled, h.mirror⟩

theorem restore_rememberLevel (h : Inv s) (hconn : s.connected = true) :
    (rememberLevel s).previewRestoreLevel = s.saved ∧ (rememberLevel s).pendingSet = false := by
  obtain ⟨hnone, hmirror⟩ := h.mirror hconn
  rw [rememberLevel]
  split
  · rename_i hactive
    exact h.preview hactive
  · rename_i hactive
    have hidle : s.previewActive = false := by simpa using hactive
    exact ⟨(hmirror hidle).trans (h.settled hidle hnone), hnone⟩

theorem inv_brightnessPreview (h : Inv s) (launcher : Bool) {value : List UInt8}
    (hanswer : ∀ level, parseBrightness value = some level → Answered s level c.own) :
    Inv (brightnessPreview c s launcher value).1 := by
  have hinv := inv_connect (c := c) h
  have hcon := connects_connect c s
  rcases hconnect : connect c s with ⟨ok, s₁⟩
  rw [hconnect] at hinv hcon
  rw [brightnessPreview]
  split
  · have hend := inv_endBrightnessPreview (c := c) h
    simp only
    split
    · exact hend
    · exact hend
  split
  · exact h
  rename_i level hparse
  simp only [hconnect]
  split
  · exact hinv
  rename_i hok
  have hconn : s₁.connected = true := hcon.connected.trans (by simpa using hok)
  have hinv' : Inv (rememberLevel s₁) := inv_rememberLevel hinv
  obtain ⟨hrestore, hnone⟩ := restore_rememberLevel hinv hconn
  have hsaved := saved_rememberLevel s₁
  split
  · refine ⟨fun _ => ⟨hrestore.trans hsaved.symm, hnone⟩, ?_, ?_, fun _ => ⟨hnone, ?_⟩⟩
    · intro hidle
      cases hidle
    · intro hidle
      cases hidle
    · intro hidle
      cases hidle
  · rename_i hfailed
    refine inv_serviceSet_failed hinv' ?_ (by simpa using hfailed)
    intro hidle hout
    rw [hsaved, hcon.saved]
    rw [previewActive_rememberLevel] at hidle
    exact hanswer level hparse (hcon.previewActive.symm.trans hidle) hout

/-! ### Runs -/

/-- The steps in which no `SET` outside a preview, of a level other than the
saved one, is reported as failed although the service took the level. -/
def NoneLost (s : State) (op : Op) (c : Calls) : Prop :=
  match op with
  | .setting value => ∀ level, parseBrightness value = some level → Answered s level c.own
  | .preview _ value =>
    ∀ level, parseBrightness value = some level → Answered s level c.own
  | _ => True

theorem inv_step (h : Inv s) {op : Op} (hlost : NoneLost s op c) : Inv (step s op c) := by
  cases op with
  | setting value => exact inv_brightnessSetting h hlost
  | preview launcher value => exact inv_brightnessPreview h launcher hlost
  | settingsGone =>
    rw [step, settingsGone]
    split
    · exact inv_endBrightnessPreview h
    · exact h
  | quickSettingsGone shown =>
    rw [step, quickSettingsGone]
    split
    · exact inv_endBrightnessPreview h
    · exact h
  | lights display => exact inv_applyLights h display

end Steps

/-- No preview sticks: without a preview and with nothing pending, a connected
service has the saved level. -/
def Sound (s : State) : Prop :=
  s.previewActive = false → s.pendingSet = false → s.connected = true → s.service = s.saved

/-- **A brightness preview does not stick** in a run without such a call. -/
theorem sound_of_trace {l : List (Machine.Step State (Op × Calls))} {s : State}
    (h : machine.Trace l s) (hlost : ∀ x ∈ l, NoneLost x.before x.op.1 x.op.2) : Sound s := by
  have hinv : Inv s := by
    refine Machine.Trace.invariant (P := fun _ s => Inv s)
      (K := fun x => NoneLost x.before x.op.1 x.op.2) ?_ ?_ h hlost
    · rintro s ⟨hasSocket, settings, service, rfl⟩
      exact inv_initial hasSocket settings service
    · rintro _ s ⟨op, c⟩ s' hs rfl hk
      exact inv_step hs hk
  exact fun hidle hnone _ => hinv.settled hidle hnone

/-- All calls of an operation succeed. -/
def allOk (nowMs : ℕ) : Calls := ⟨nowMs, true, .ok, true, true, .ok⟩

theorem noneLost_of_ok {s : State} {c : Calls} (h : c.own = .ok) (op : Op) : NoneLost s op c := by
  have hanswer : ∀ level, Answered s level c.own := by
    intro level _ hfailed
    rw [h] at hfailed
    cases hfailed
  cases op with
  | setting value => exact fun level _ => hanswer level
  | preview launcher value => exact fun level _ => hanswer level
  | _ => trivial

/-- A preview of level 3 that ends when Settings leaves. -/
theorem sound_previewEnded :
    ∃ l s, machine.Trace l s ∧ (∀ x ∈ l, NoneLost x.before x.op.1 x.op.2) ∧
      s.connected = true ∧ s.previewActive = false ∧ Sound s := by
  have h0 : machine.Trace [] (initial true {} 7) := .start ⟨true, {}, 7, rfl⟩
  have h1 := h0.step (a := (.preview false (Bytes.ascii "3"), allOk 0)) rfl
  have h2 := h1.step (a := (.settingsGone, allOk 5)) rfl
  obtain ⟨l, s, htrace, hok, hconn, hidle⟩ : ∃ l s, machine.Trace l s ∧
      (∀ x ∈ l, x.op.2.own = .ok) ∧ s.connected = true ∧ s.previewActive = false :=
    ⟨_, _, h2, by simp [allOk], rfl, rfl⟩
  have hlost : ∀ x ∈ l, NoneLost x.before x.op.1 x.op.2 :=
    fun x hx => noneLost_of_ok (hok x hx) x.op.1
  exact ⟨l, s, htrace, hlost, hconn, hidle, sound_of_trace htrace hlost⟩

/-- **A first step that is reported as failed sticks.**  The service, at level
7 before, has taken level 3; no preview is active, nothing is pending, and the
next connection adopts level 3. -/
theorem lost_firstStep : ∃ l s, machine.Trace l s ∧ s.service = 3 ∧ s.saved = 7 ∧ ¬ Sound s := by
  have h0 : machine.Trace [] (initial true {} 7) := .start ⟨true, {}, 7, rfl⟩
  have h1 := h0.step (a := (.preview false (Bytes.ascii "3"),
    { allOk 0 with own := .failed true })) rfl
  have h2 := h1.step (a := (.setting [], allOk 2000)) rfl
  refine ⟨_, _, h2, rfl, rfl, ?_⟩
  intro h
  have hsame : (3 : ℕ) = 7 := h rfl rfl rfl
  omega

end Brightness
