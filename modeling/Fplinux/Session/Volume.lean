/-
The master volume: settings, previews and their acknowledgement
(`session-core.c` over `session-audio.c`).

A volume message becomes the one request under way; it is finished when the
audio service acknowledges the volume wanted, or given up when the connection
is no longer the one it was made on.  Giving up puts the request's restore
level back.

`saves` and `Request.acknowledged` are not in the source: a save counts as
acknowledged once the service acknowledges its level on the connection it was
requested on, whatever the session makes of it.

* `saves_of_trace` — no preview sticks and only acknowledged levels are saved,
  as long as no save is accepted while an earlier preview is still being
  rolled back, no connection reuses the descriptor number of the one a pending
  save was made on, and the connection of an acknowledged save stays up until
  its request is finished;
* `unsound_runs` — each of the three makes the session go wrong.
-/
import Fplinux.Lib.Run
import Fplinux.Session.Audio
import Fplinux.Session.Settings

namespace Volume

open SessionAudio (Audio Keeps Linked Read dispatch init keeps_app keeps_clock keeps_gone
  keeps_setVolume serves_dispatch setAudible setVolume volumeApplied volumeMax volumePending
  volumeText)

/-- `struct setting_request`, with the connection it was made on and whether the
service acknowledged the save it asks for. -/
structure Request where
  pid : ℤ := 0
  token : ℕ := 0
  serial : ℕ := 0
  level : ℕ := 0
  restoreLevel : ℕ := 0
  audioFd : Option ℕ := none
  pending : Bool := false
  save : Bool := false
  preview : Bool := false
  generation : ℕ := 0
  acknowledged : Bool := false
  deriving DecidableEq, Repr

/-- An acknowledged save. -/
structure Save where
  level : ℕ
  generation : ℕ
  deriving DecidableEq, Repr

structure State where
  audio : Audio
  request : Request := {}
  previewActive : Bool := false
  previewLauncher : Bool := false
  previewRestore : ℕ := 0
  settings : Settings.Levels
  configured : ℕ
  saves : List Save := []
  deriving DecidableEq, Repr

/-- The client a message came from: its process and whether it is the
launcher. -/
structure Sender where
  pid : ℤ
  token : ℕ
  launcher : Bool
  deriving DecidableEq, Repr

/-- What the client is told. -/
inductive Reply
  | error (name : String) (value : List UInt8) (reason : String)
  | setting (name : String) (level : ℕ) (serial : ℕ) (mutation : Bool)
  deriving DecidableEq, Repr

/-- The session at its start. -/
def initial (hasAudio : Bool) (settings : Settings.Levels) (nowMs : ℕ) : State where
  audio := setVolume (init hasAudio) settings.volume nowMs
  settings := settings
  configured := settings.volume

def endVolumePreview (s : State) (nowMs : ℕ) : State :=
  if !s.previewActive then
    s
  else
    { s with
      previewActive := false
      request := { s.request with
        pending := s.request.pending && !s.request.preview }
      audio := setVolume s.audio s.previewRestore nowMs }

/-- A save is acknowledged once. -/
def noteSave (s : State) (acked : Bool) : State :=
  if s.request.pending && s.request.save && !s.request.acknowledged && acked then
    { s with
      request := { s.request with acknowledged := true }
      saves := s.saves ++ [⟨s.request.level, s.request.generation⟩] }
  else
    s

/-- The session reads what the audio service sends; a save under way is
acknowledged when its level is, on its connection. -/
def serve (s : State) (fd : Option ℕ) (reads : List Read) (nowMs : ℕ) : State :=
  let audio := dispatch s.audio fd reads nowMs
  let news := audio.acknowledged.drop s.audio.acknowledged.length
  noteSave { s with audio := audio } (news.contains (s.request.generation, s.request.level))

/-- The name a volume message has. -/
def messageName (preview : Bool) : String := if preview then "volume_preview" else "volume"

/-- The first step of a preview; an earlier preview may still be restoring, so
the level it restores is the one wanted, not the one applied. -/
def beginPreview (s : State) (sender : Sender) : State :=
  { s with
    previewActive := true
    previewLauncher := sender.launcher
    previewRestore := s.audio.desiredVolume }

/-- The request of a message; `level` is the level asked for, `none` for the
end of a preview. -/
def newRequest (s : State) (sender : Sender) (serial : ℕ) (level : Option ℕ) (preview : Bool)
    (applied : ℕ) : Request where
  pid := sender.pid
  token := sender.token
  serial := serial
  level := level.getD s.audio.desiredVolume
  restoreLevel :=
    if level.isNone then s.audio.desiredVolume
    else if s.previewActive then s.previewRestore else applied
  audioFd := s.audio.fd
  pending := true
  save := level.isSome && !preview
  preview := preview
  generation := s.audio.generation

/-- The request is under way.  The service may have acknowledged its level
already. -/
def startRequest (s : State) (request : Request) (nowMs : ℕ) : State :=
  let s := { s with
    request := request
    previewActive := s.previewActive && !request.save
    audio := setVolume s.audio request.level nowMs }
  noteSave s (!volumePending s.audio)

/-- The last part of `volume_setting`: the message becomes the request. -/
def makeRequest (s : State) (sender : Sender) (serial : ℕ) (level : Option ℕ) (preview : Bool)
    (applied nowMs : ℕ) : State :=
  let s := if level.isSome && preview && !s.previewActive then beginPreview s sender else s
  startRequest s (newRequest s sender serial level preview applied) nowMs

def volumeSetting (s : State) (sender : Sender) (serial : ℕ) (value : List UInt8) (preview : Bool)
    (nowMs : ℕ) : State × Option Reply :=
  let name := messageName preview
  let level := Settings.parseVolume value
  if value ≠ [] ∧ level = none then
    (s, some (.error name value "invalid-value"))
  else if s.request.pending ∧ s.request.save ∧ value ≠ [] then
    (s, some (.error name value "busy"))
  else
    let rollback := preview && value = [] && s.previewActive
    let s := if preview ∧ value = [] then endVolumePreview s nowMs else s
    match volumeApplied s.audio with
    | none => (s, some (.error name value "unavailable"))
    | some applied =>
      if value = [] ∧ !rollback then
        (s, some (.setting "volume" applied serial false))
      else
        (makeRequest s sender serial level (preview && value ≠ []) applied nowMs, none)

/-- `finish_volume_request`; `present` says whether the requester still waits
for its answer. -/
def finishVolumeRequest (s : State) (present : Bool) (nowMs : ℕ) : State × Option Reply :=
  let request := s.request
  if !request.pending then
    (s, none)
  else if s.audio.fd ≠ request.audioFd ∨ s.audio.fd = none then
    ({ s with
        request := { request with pending := false }
        previewActive := s.previewActive && !request.preview
        audio := setVolume s.audio request.restoreLevel nowMs },
      if present then
        some (.error (messageName request.preview) ((Nat.toDigits 10 request.level).map Bytes.byte)
          "unavailable")
      else none)
  else if volumePending s.audio then
    (s, none)
  else
    let applied := s.audio.appliedVolume
    let s := { s with request := { request with pending := false } }
    let s :=
      if request.save then
        { s with settings := { s.settings with hasVolume := true, volume := applied } }
      else
        s
    (s, if present then
          some (.setting (messageName request.preview) applied request.serial request.save)
        else none)

/-- What reaches the volume: settings messages, a preview that ends because its
client leaves, the session's `advance` with what the audio service sends, and
the announcements that use the connection.  `room` is what the socket takes
during the operation. -/
inductive Op
  | setting (sender : Sender) (serial : ℕ) (value : List UInt8) (preview : Bool)
  | endPreview
  | advance (fd : Option ℕ) (reads : List Read) (present : Bool)
  | app (pid : ℤ) (uid : ℕ) (appId : List UInt8)
  | clock (pid : ℤ) (uid : ℕ)
  | gone (pid : ℤ)
  | audible (pid : ℤ) (audible : Bool)
  deriving DecidableEq, Repr

/-- One operation at time `nowMs`. -/
def step (s : State) (op : Op) (room nowMs : ℕ) : State :=
  let s := { s with audio.room := room }
  match op with
  | .setting sender serial value preview => (volumeSetting s sender serial value preview nowMs).1
  | .endPreview => endVolumePreview s nowMs
  | .advance fd reads present =>
    (finishVolumeRequest (serve s fd reads nowMs) present nowMs).1
  | .app pid uid appId => { s with audio := (SessionAudio.app s.audio pid uid appId nowMs).2 }
  | .clock pid uid => { s with audio := (SessionAudio.clock s.audio pid uid nowMs).2 }
  | .gone pid => { s with audio := SessionAudio.gone s.audio pid nowMs }
  | .audible pid audible => { s with audio := setAudible s.audio pid audible nowMs }

/-- The runs of the session with any behaviour of the audio service. -/
def machine : Machine State (Op × ℕ × ℕ) where
  start s := ∃ hasAudio settings nowMs, settings.volume ≤ volumeMax ∧
    s = initial hasAudio settings nowMs
  step s a s' := s' = step s a.1 a.2.1 a.2.2

/-! ### The invariant -/

/-- The level of the last of the saves, at first the configured one. -/
def lastLevel (s : State) (saves : List Save) : ℕ :=
  (saves.getLast?.map Save.level).getD s.configured

def lastSaved (s : State) : ℕ := lastLevel s s.saves

/-- The acknowledged saves whose request has ended. -/
def ended (s : State) : List Save :=
  if s.request.pending && s.request.acknowledged then s.saves.dropLast else s.saves

/-- A save under way. -/
def Saving (s : State) : Prop := s.request.pending = true ∧ s.request.save = true

/-- The connection of the request is gone. -/
def Lost (s : State) : Prop := s.audio.fd ≠ s.request.audioFd ∨ s.audio.fd = none

/-- Where the saved level is kept: it is the volume wanted, or what the preview
or the save under way puts back. -/
structure Kept (s : State) : Prop where
  settings : s.settings.volume = lastLevel s (ended s)
  bound : lastSaved s ≤ volumeMax
  linked : Linked s.audio
  saves : ∀ v ∈ s.saves, (v.generation, v.level) ∈ s.audio.acknowledged
  desired : ¬ Saving s → s.previewActive = false → s.audio.desiredVolume = lastSaved s
  preview : s.previewActive = true → s.previewRestore = lastSaved s
  restore : s.request.pending = true → s.request.acknowledged = false →
    s.request.restoreLevel = lastSaved s
  saving : Saving s → s.previewActive = false ∧ s.request.preview = false ∧
    s.audio.desiredVolume = s.request.level ∧ s.request.level ≤ volumeMax
  connection : Saving s → ¬ Lost s → s.audio.generation = s.request.generation
  noted : s.request.pending = true → s.request.acknowledged = true →
    s.request.save = true ∧ lastSaved s = s.request.level

/-- A save whose level is confirmed on its connection was acknowledged. -/
structure Inv (s : State) : Prop extends Kept s where
  done : Saving s → ¬ Lost s → volumePending s.audio = false → s.request.acknowledged = true

section Steps

variable {s : State}

theorem ended_eq (h : s.request.pending = true → s.request.acknowledged = false) :
    ended s = s.saves := by
  rw [ended, if_neg]
  intro hboth
  obtain ⟨hpending, hacked⟩ := Bool.and_eq_true_iff.mp hboth
  rw [h hpending] at hacked
  cases hacked

theorem not_saving_of_done (h : s.request.pending = false) : ¬ Saving s := by
  rintro ⟨hpending, -⟩
  rw [h] at hpending
  cases hpending

namespace Kept

theorem not_saving (h : Kept s) (hactive : s.previewActive = true) : ¬ Saving s := by
  intro hs
  have hidle := (h.saving hs).1
  rw [hactive] at hidle
  cases hidle

theorem plain (h : Kept s) (hnot : ¬ Saving s) (hpending : s.request.pending = true) :
    s.request.acknowledged = false ∧ s.request.restoreLevel = lastSaved s := by
  have hfresh : s.request.acknowledged = false := by
    by_contra hacked
    exact hnot ⟨hpending, (h.noted hpending (by simpa using hacked)).1⟩
  exact ⟨hfresh, h.restore hpending hfresh⟩

theorem settings_eq (h : Kept s) (hnot : ¬ Saving s) : s.settings.volume = lastSaved s := by
  rw [h.settings, ended_eq fun hp => (h.plain hnot hp).1, lastSaved]

end Kept

/-- Without a save under way. -/
theorem inv_plain (hnot : ¬ Saving s)
    (hplain : s.request.pending = true →
      s.request.acknowledged = false ∧ s.request.restoreLevel = lastSaved s)
    (hsettings : s.settings.volume = lastSaved s) (hbound : lastSaved s ≤ volumeMax)
    (hlinked : Linked s.audio)
    (hsaves : ∀ v ∈ s.saves, (v.generation, v.level) ∈ s.audio.acknowledged)
    (hdesired : s.previewActive = false → s.audio.desiredVolume = lastSaved s)
    (hpreview : s.previewActive = true → s.previewRestore = lastSaved s) : Inv s where
  settings := by rw [ended_eq fun hp => (hplain hp).1, hsettings, lastSaved]
  bound := hbound
  linked := hlinked
  saves := hsaves
  desired := fun _ => hdesired
  preview := hpreview
  restore := fun hpending _ => (hplain hpending).2
  saving := fun hs => absurd hs hnot
  connection := fun hs => absurd hs hnot
  noted := by
    intro hpending hacked
    rw [(hplain hpending).1] at hacked
    cases hacked
  done := fun hs => absurd hs hnot

theorem inv_initial {settings : Settings.Levels} (hvolume : settings.volume ≤ volumeMax)
    (hasAudio : Bool) (nowMs : ℕ) : Inv (initial hasAudio settings nowMs) := by
  have hkeeps := keeps_setVolume (init hasAudio) nowMs hvolume
  refine inv_plain (not_saving_of_done rfl) ?_ rfl hvolume (hkeeps.linked ?_) ?_
    (fun _ => hkeeps.desired) ?_
  · intro h
    cases h
  · intro h
    cases h
  · intro v hv
    cases hv
  · intro h
    cases h

theorem inv_keeps (h : Inv s) {audio : Audio} (hkeeps : Keeps s.audio audio) :
    Inv { s with audio := audio } := by
  have hlost : ¬ Lost { s with audio := audio } → ¬ Lost s := by
    intro hup hlost
    rcases hkeeps.link with ⟨hsame, -, -⟩ | ⟨hnone, -⟩
    · rw [Lost, ← hsame] at hlost
      exact hup hlost
    · exact hup (.inr hnone)
  exact
    { settings := h.settings
      bound := h.bound
      linked := hkeeps.linked h.linked
      saves := by
        intro v hv
        show _ ∈ audio.acknowledged
        rw [hkeeps.acknowledged]
        exact h.saves v hv
      desired := fun hs hp => hkeeps.desired.trans (h.desired hs hp)
      preview := h.preview
      restore := h.restore
      saving := by
        intro hs
        obtain ⟨hidle, hplain, hlevel, hbound⟩ := h.saving hs
        exact ⟨hidle, hplain, hkeeps.desired.trans hlevel, hbound⟩
      connection := fun hs hup => hkeeps.generation.trans (h.connection hs (hlost hup))
      noted := h.noted
      done := fun hs hup hdone => h.done hs (hlost hup) (hkeeps.confirmed hdone) }

theorem inv_noteSave (h : Kept s) {acked : Bool}
    (hack : Saving s → acked = true →
      (s.request.generation, s.request.level) ∈ s.audio.acknowledged)
    (hdone : Saving s → ¬ Lost s → volumePending s.audio = false →
      s.request.acknowledged = true ∨ acked = true) : Inv (noteSave s acked) := by
  rw [noteSave]
  split
  · rename_i hnote
    simp only [Bool.and_eq_true, Bool.not_eq_true'] at hnote
    obtain ⟨⟨⟨hpending, hsave⟩, hfresh⟩, hacked⟩ := hnote
    have hsaving : Saving s := ⟨hpending, hsave⟩
    obtain ⟨-, -, -, hbound⟩ := h.saving hsaving
    have hlast : ∀ {s' : State}, s'.saves = s.saves ++ [⟨s.request.level, s.request.generation⟩] →
        lastSaved s' = s.request.level := by
      intro s' hsaves
      rw [lastSaved, lastLevel, hsaves, List.getLast?_append]
      rfl
    exact
      { settings := by
          rw [h.settings, ended_eq fun _ => hfresh, ended, if_pos (by simp [hpending]),
            List.dropLast_concat]
          rfl
        bound := Nat.le_trans (Nat.le_of_eq (hlast rfl)) hbound
        linked := h.linked
        saves := by
          intro v hv
          rcases List.mem_append.mp hv with hv | hv
          · exact h.saves v hv
          · rw [List.mem_singleton.mp hv]
            exact hack hsaving hacked
        desired := fun hnot => absurd hsaving hnot
        preview := fun hactive => absurd hsaving (h.not_saving hactive)
        restore := by
          intro _ hno
          cases hno
        saving := h.saving
        connection := h.connection
        noted := fun _ _ => ⟨hsave, hlast rfl⟩
        done := fun _ _ _ => rfl }
  · rename_i hnote
    refine { h with done := ?_ }
    intro hs hup hconfirmed
    rcases hdone hs hup hconfirmed with hacked | hacked
    · exact hacked
    · by_contra hfresh
      exact hnote (by simp [hs.1, hs.2, hfresh, hacked])

theorem inv_endVolumePreview (h : Inv s) (nowMs : ℕ) : Inv (endVolumePreview s nowMs) := by
  rw [endVolumePreview]
  split
  · exact h
  rename_i hactive
  have hactive' : s.previewActive = true := by simpa using hactive
  have hrestore := h.preview hactive'
  have hnot := h.not_saving hactive'
  have hkeeps := keeps_setVolume s.audio nowMs (Nat.le_trans (Nat.le_of_eq hrestore) h.bound)
  have hstill : (s.request.pending && !s.request.preview) = true → s.request.pending = true :=
    fun hp => (Bool.and_eq_true_iff.mp hp).1
  refine inv_plain (fun hs => hnot ⟨hstill hs.1, hs.2⟩) (fun hp => h.plain hnot (hstill hp))
    (h.settings_eq hnot) h.bound (hkeeps.linked h.linked) ?_
    (fun _ => hkeeps.desired.trans hrestore) ?_
  · intro v hv
    rw [hkeeps.acknowledged]
    exact h.saves v hv
  · intro hp
    cases hp

theorem not_saving_endVolumePreview (h : Inv s) (hactive : s.previewActive = true) (nowMs : ℕ) :
    ¬ Saving (endVolumePreview s nowMs) ∧ (endVolumePreview s nowMs).previewActive = false := by
  rw [endVolumePreview, hactive]
  refine ⟨fun hs => h.not_saving hactive ⟨?_, hs.2⟩, rfl⟩
  exact (Bool.and_eq_true_iff.mp hs.1).1

theorem inv_beginPreview (h : Inv s) (hnot : ¬ Saving s) (hidle : s.previewActive = false)
    (sender : Sender) : Inv (beginPreview s sender) := by
  refine inv_plain hnot (h.plain hnot) (h.settings_eq hnot) h.bound h.linked h.saves ?_
    fun _ => h.desired hnot hidle
  intro hactive
  cases hactive

theorem inv_startRequest (h : Inv s) (hnot : ¬ Saving s) {request : Request}
    (hpending : request.pending = true) (hfresh : request.acknowledged = false)
    (hbound : request.level ≤ volumeMax) (hrestore : request.restoreLevel = lastSaved s)
    (hsave : request.save = true → request.preview = false)
    (hwanted : request.save = false → s.previewActive = false → request.level = lastSaved s)
    (hgeneration : request.generation = s.audio.generation) (nowMs : ℕ) :
    Inv (startRequest s request nowMs) := by
  have hkeeps := keeps_setVolume s.audio nowMs hbound
  have hlinked := hkeeps.linked h.linked
  have hgen := hkeeps.generation.trans hgeneration.symm
  refine inv_noteSave ?_ ?_ ?_
  · exact
      { settings := by
          rw [ended_eq fun _ => hfresh]
          exact h.settings_eq hnot
        bound := h.bound
        linked := hlinked
        saves := by
          intro v hv
          show _ ∈ (setVolume s.audio request.level nowMs).acknowledged
          rw [hkeeps.acknowledged]
          exact h.saves v hv
        desired := by
          intro hnot' hidle
          have hplain : request.save = false := by
            cases hs : request.save with
            | false => rfl
            | true => exact absurd ⟨hpending, hs⟩ hnot'
          have hidle' : (s.previewActive && !request.save) = false := hidle
          rw [hplain, Bool.not_false, Bool.and_true] at hidle'
          exact hkeeps.desired.trans (hwanted hplain hidle')
        preview := by
          intro hactive
          have hactive' : (s.previewActive && !request.save) = true := hactive
          rw [Bool.and_eq_true] at hactive'
          exact h.preview hactive'.1
        restore := fun _ _ => hrestore
        saving := by
          rintro ⟨-, hs⟩
          have hs' : request.save = true := hs
          refine ⟨?_, hsave hs', hkeeps.desired, hbound⟩
          show (s.previewActive && !request.save) = false
          rw [hs', Bool.not_true, Bool.and_false]
        connection := fun _ _ => hgen
        noted := by
          intro _ hacked
          have hacked' : request.acknowledged = true := hacked
          rw [hfresh] at hacked'
          cases hacked' }
  · intro _ hconfirmed
    simp only [volumePending, Bool.not_or, Bool.not_not, Bool.and_eq_true, Bool.not_eq_true',
      decide_eq_false_iff_not, ne_eq, not_not] at hconfirmed
    obtain ⟨⟨hknown, -⟩, happlied⟩ := hconfirmed
    have hmem := (hlinked hknown).2
    rw [hgen, happlied, hkeeps.desired] at hmem
    exact hmem
  · intro _ _ hconfirmed
    exact .inr (by rw [hconfirmed]; rfl)

theorem inv_makeRequest (h : Inv s) (hnot : ¬ Saving s) {level : Option ℕ} {preview : Bool}
    (hlevel : ∀ l, level = some l → l ≤ volumeMax) {applied : ℕ}
    (hend : level = none → preview = false ∧ s.previewActive = false)
    (hsave : level.isSome = true → preview = false → s.previewActive = false →
      applied = lastSaved s)
    (sender : Sender) (serial nowMs : ℕ) :
    Inv (makeRequest s sender serial level preview applied nowMs) := by
  have hdesired := h.desired hnot
  cases level with
  | none =>
    obtain ⟨rfl, hidle⟩ := hend rfl
    have hwanted := hdesired hidle
    exact inv_startRequest h hnot rfl rfl (Nat.le_trans (Nat.le_of_eq hwanted) h.bound) hwanted
      (fun _ => rfl) (fun _ _ => hwanted) rfl nowMs
  | some l =>
    have hbound := hlevel l rfl
    cases hactive : s.previewActive with
    | true =>
      have hback := h.preview hactive
      have hrestore : (newRequest s sender serial (some l) preview applied).restoreLevel =
          lastSaved s := by
        simp [newRequest, hactive, hback]
      simp only [makeRequest, hactive, Bool.not_true, Bool.and_false, Bool.false_eq_true, if_false]
      refine inv_startRequest h hnot rfl rfl hbound hrestore ?_ ?_ rfl nowMs
      · intro hs
        simpa [newRequest] using hs
      · intro _ hidle
        rw [hactive] at hidle
        cases hidle
    | false =>
      cases preview with
      | true =>
        have hbegin := inv_beginPreview h hnot hactive sender
        simp only [makeRequest, hactive, Option.isSome_some, Bool.and_true, Bool.not_false, if_true]
        refine inv_startRequest hbegin hnot rfl rfl hbound ?_ ?_ ?_ rfl nowMs
        · exact hdesired hactive
        · intro hs
          cases hs
        · intro _ hidle
          cases hidle
      | false =>
        have happlied := hsave rfl rfl hactive
        have hrestore : (newRequest s sender serial (some l) false applied).restoreLevel =
            lastSaved s := by
          simp [newRequest, hactive, happlied]
        simp only [makeRequest, Bool.and_false, Bool.false_and, Bool.false_eq_true, if_false]
        refine inv_startRequest h hnot rfl rfl hbound hrestore (fun _ => rfl) ?_ rfl nowMs
        intro hs
        cases hs

/-- A save outside a preview finds no earlier preview being rolled back: the
volume applied is the one wanted. -/
def RolledBack (s : State) (value : List UInt8) (preview : Bool) : Prop :=
  preview = false → s.previewActive = false → ¬ Saving s →
    ∀ level, Settings.parseVolume value = some level →
    ∀ applied, volumeApplied s.audio = some applied →
      applied = s.audio.desiredVolume

theorem inv_volumeSetting (h : Inv s) {value : List UInt8} {preview : Bool}
    (hrolled : RolledBack s value preview) (sender : Sender) (serial nowMs : ℕ) :
    Inv (volumeSetting s sender serial value preview nowMs).1 := by
  rw [volumeSetting]
  simp only
  split
  · exact h
  split
  · exact h
  rename_i hvalid hbusy
  by_cases hempty : value = []
  · -- The end of a preview, or a question.
    subst hempty
    cases preview with
    | false =>
      simp only [Bool.false_eq_true, false_and, if_false, Bool.false_and, Bool.not_false, and_self,
        if_true]
      split
      · exact h
      · exact h
    | true =>
      simp only [and_self, if_true, decide_true, Bool.true_and, true_and]
      have hended := inv_endVolumePreview h nowMs
      split
      · exact hended
      split
      · exact hended
      rename_i applied _ hactive
      have hactive' : s.previewActive = true := by simpa using hactive
      obtain ⟨hnot, hidle⟩ := not_saving_endVolumePreview h hactive' nowMs
      show Inv (makeRequest _ sender serial none false applied nowMs)
      refine inv_makeRequest hended hnot ?_ (fun _ => ⟨rfl, hidle⟩) ?_ sender serial nowMs
      · intro l hl
        cases hl
      · intro hsome
        cases hsome
  · have hnot : ¬ Saving s := fun hs => hbusy ⟨hs.1, hs.2, hempty⟩
    simp only [hempty, and_false, if_false, false_and]
    split
    · exact h
    rename_i applied happlied
    obtain ⟨level, hparse⟩ : ∃ level, Settings.parseVolume value = some level :=
      Option.ne_none_iff_exists'.mp fun hnone => hvalid ⟨hempty, hnone⟩
    rw [hparse]
    refine inv_makeRequest h hnot ?_ ?_ ?_ sender serial nowMs
    · intro l hl
      rw [← Option.some.inj hl]
      exact Settings.parseVolume_le hparse
    · intro hl
      cases hl
    · intro _ hpreview hidle
      have hplain : preview = false := by simpa [hempty] using hpreview
      rw [hrolled hplain hidle hnot level hparse applied happlied]
      exact h.desired hnot hidle

/-- The request is given up: its connection is gone. -/
theorem inv_giveUp (h : Inv s) (hpending : s.request.pending = true)
    (hfresh : s.request.acknowledged = false) (nowMs : ℕ) :
    Inv { s with
      request := { s.request with pending := false }
      previewActive := s.previewActive && !s.request.preview
      audio := setVolume s.audio s.request.restoreLevel nowMs } := by
  have hrestore := h.restore hpending hfresh
  have hkeeps := keeps_setVolume s.audio nowMs (Nat.le_trans (Nat.le_of_eq hrestore) h.bound)
  refine inv_plain (not_saving_of_done rfl) ?_ ?_ h.bound (hkeeps.linked h.linked) ?_
    (fun _ => hkeeps.desired.trans hrestore) ?_
  · intro hp
    cases hp
  · rw [h.settings, ended_eq fun _ => hfresh]
    rfl
  · intro v hv
    rw [hkeeps.acknowledged]
    exact h.saves v hv
  · intro hactive
    exact h.preview (Bool.and_eq_true_iff.mp hactive).1

/-- The save is stored: the service acknowledged it. -/
theorem inv_stored (h : Inv s) (hs : Saving s) (hup : ¬ Lost s)
    (hdone : volumePending s.audio = false) :
    Inv { s with
      request := { s.request with pending := false }
      settings := { s.settings with hasVolume := true, volume := s.audio.appliedVolume } } := by
  obtain ⟨-, -, hlevel, -⟩ := h.saving hs
  have hlast := (h.noted hs.1 (h.done hs hup hdone)).2
  have happlied : s.audio.appliedVolume = s.audio.desiredVolume := by
    simp only [volumePending, Bool.or_eq_false_iff, ne_eq] at hdone
    exact Decidable.not_not.mp (of_decide_eq_false hdone.2)
  have hsaved : s.audio.desiredVolume = lastSaved s := hlevel.trans hlast.symm
  refine inv_plain (not_saving_of_done rfl) ?_ (happlied.trans hsaved) h.bound h.linked h.saves
    (fun _ => hsaved) fun hactive => absurd hs (h.not_saving hactive)
  intro hp
  cases hp

/-- Anything but a save is answered. -/
theorem inv_answered (h : Inv s) (hnot : ¬ Saving s) :
    Inv { s with request := { s.request with pending := false } } := by
  refine inv_plain (not_saving_of_done rfl) ?_ (h.settings_eq hnot) h.bound h.linked h.saves
    (h.desired hnot) h.preview
  intro hp
  cases hp

theorem inv_finishVolumeRequest (h : Inv s)
    (hup : Saving s → s.request.acknowledged = true → ¬ Lost s) (present : Bool) (nowMs : ℕ) :
    Inv (finishVolumeRequest s present nowMs).1 := by
  rw [finishVolumeRequest]
  simp only
  split
  · exact h
  rename_i hpending
  have hpending' : s.request.pending = true := by simpa using hpending
  split
  · rename_i hlost
    refine inv_giveUp h hpending' ?_ nowMs
    by_contra hacked
    have hacked' : s.request.acknowledged = true := by simpa using hacked
    exact hup ⟨hpending', (h.noted hpending' hacked').1⟩ hacked' hlost
  split
  · exact h
  rename_i hopen hdone
  split
  · rename_i hsave
    exact inv_stored h ⟨hpending', hsave⟩ hopen (by simpa using hdone)
  · rename_i hsave
    exact inv_answered h fun hs => hsave hs.2

theorem inv_serve (h : Inv s) {fd : Option ℕ} (hfresh : Saving s → fd ≠ s.request.audioFd)
    (reads : List Read) (nowMs : ℕ) : Inv (serve s fd reads nowMs) := by
  have hserves := serves_dispatch s.audio fd reads nowMs
  obtain ⟨news, hnews, hconfirmed⟩ := hserves.news
  rw [serve]
  generalize dispatch s.audio fd reads nowMs = audio at hserves hnews hconfirmed
  rw [hnews, List.drop_left]
  -- An open connection is the one the save was made on.
  have hkept : Saving s → ¬ Lost { s with audio := audio } →
      ¬ Lost s ∧ audio.generation = s.audio.generation := by
    intro hs hup
    rw [Lost, not_or, not_not] at hup
    rcases hserves.conn with ⟨hgen, hkept | hclosed⟩ | ⟨-, hmade | hclosed⟩
    · refine ⟨?_, hgen⟩
      rw [Lost, ← hkept, not_or, not_not]
      exact hup
    · exact absurd hclosed hup.2
    · exact absurd (hmade.symm.trans hup.1) (hfresh hs)
    · exact absurd hclosed hup.2
  have hgeneration : Saving s → ¬ Lost { s with audio := audio } →
      audio.generation = s.request.generation := fun hs hup =>
    (hkept hs hup).2.trans (h.connection hs (hkept hs hup).1)
  refine inv_noteSave ?_ ?_ ?_
  · exact
      { settings := h.settings
        bound := h.bound
        linked := hserves.linked h.linked
        saves := by
          intro v hv
          show _ ∈ audio.acknowledged
          rw [hnews]
          exact List.mem_append_left _ (h.saves v hv)
        desired := fun hnot hidle => hserves.desired.trans (h.desired hnot hidle)
        preview := h.preview
        restore := h.restore
        saving := by
          intro hs
          obtain ⟨hidle, hplain, hlevel, hbound⟩ := h.saving hs
          exact ⟨hidle, hplain, hserves.desired.trans hlevel, hbound⟩
        connection := hgeneration
        noted := h.noted }
  · intro _ hacked
    show _ ∈ audio.acknowledged
    rw [hnews]
    exact List.mem_append_right _ (List.contains_iff_mem.mp hacked)
  · intro hs hup hdone
    rcases hconfirmed hdone with hbefore | hmem
    · exact .inl (h.done hs (hkept hs hup).1 hbefore)
    · right
      rw [hgeneration hs hup, hserves.desired, (h.saving hs).2.2.1] at hmem
      exact List.contains_iff_mem.mpr hmem

/-! ### Runs -/

/-- The steps that meet none of the defects. -/
def Careful (s : State) : Op × ℕ × ℕ → Prop
  | (.setting _ _ value preview, _) => RolledBack s value preview
  | (.advance fd reads _, room, nowMs) =>
    let served := serve { s with audio.room := room } fd reads nowMs
    (Saving s → fd ≠ s.request.audioFd) ∧
      (Saving served → served.request.acknowledged = true → ¬ Lost served)
  | _ => True

theorem inv_setRoom (h : Inv s) (room : ℕ) : Inv { s with audio.room := room } :=
  inv_keeps h ⟨rfl, rfl, rfl, id, Or.inl ⟨rfl, rfl, rfl⟩⟩

theorem inv_step (h : Inv s) {op : Op} {room nowMs : ℕ} (hcareful : Careful s (op, room, nowMs)) :
    Inv (step s op room nowMs) := by
  have hroom := inv_setRoom h room
  cases op with
  | setting sender serial value preview => exact inv_volumeSetting hroom hcareful sender serial nowMs
  | endPreview => exact inv_endVolumePreview hroom nowMs
  | advance fd reads present =>
    obtain ⟨hfresh, hup⟩ := hcareful
    exact inv_finishVolumeRequest (inv_serve hroom hfresh reads nowMs) hup present nowMs
  | app pid uid appId => exact inv_keeps hroom (keeps_app _ _ _ _ _)
  | clock pid uid => exact inv_keeps hroom (keeps_clock _ _ _ _)
  | gone pid => exact inv_keeps hroom (keeps_gone _ _ _)
  | audible pid audible => exact inv_keeps hroom (SessionAudio.keeps_setAudible _ _ _ _)

end Steps

/-- No preview sticks, the saved volume is that of the last acknowledged save
whose request has ended, and every save was acknowledged on the connection it
was requested on. -/
structure Sound (s : State) : Prop where
  notStuck : s.request.pending = false → s.previewActive = false →
    s.audio.desiredVolume = lastSaved s
  settings : s.settings.volume = lastLevel s (ended s)
  acknowledged : ∀ v ∈ s.saves, (v.generation, v.level) ∈ s.audio.acknowledged

/-- **A volume preview does not stick** in a run that meets none of the defects. -/
theorem saves_of_trace {l : List (Machine.Step State (Op × ℕ × ℕ))} {s : State}
    (h : machine.Trace l s) (hcareful : ∀ x ∈ l, Careful x.before x.op) : Sound s := by
  have hinv : Inv s := by
    refine Machine.Trace.invariant (P := fun _ s => Inv s) (K := fun x => Careful x.before x.op)
      ?_ ?_ h hcareful
    · rintro s ⟨hasAudio, settings, nowMs, hvolume, rfl⟩
      exact inv_initial hvolume hasAudio nowMs
    · rintro _ s ⟨op, room, nowMs⟩ s' hs rfl hk
      exact inv_step hs hk
  exact ⟨fun hpending => hinv.desired (not_saving_of_done hpending), hinv.settings, hinv.saves⟩

/-- The launcher's Quick settings. -/
def quickSettings : Sender := ⟨7, 1, true⟩

/-- The service acknowledges a volume. -/
def ackOp (level nowMs : ℕ) : Op × ℕ × ℕ :=
  (.advance none [.packet (volumeText level)] false, 9, nowMs)

/-- The session connects on descriptor 5 and the configured volume is
acknowledged. -/
def connectOps : List (Op × ℕ × ℕ) := [(.advance (some 5) [] false, 9, 0), ackOp 10 1]

/-- Level 5 is saved at 2 ms. -/
def saveOp : Op × ℕ × ℕ := (.setting quickSettings 1 (Bytes.ascii "5") false, 9, 2)

def stepOp (s : State) (a : Op × ℕ × ℕ) : Option State := some (step s a.1 a.2.1 a.2.2)

theorem reachable_run {l : List (Op × ℕ × ℕ)} {s : State}
    (h : Machine.runOps stepOp l (initial true {} 0) = some s) : machine.Reachable s := by
  have hstart : machine.Reachable (initial true {} 0) :=
    .start ⟨true, {}, 0, Nat.le_refl _, rfl⟩
  exact hstart.runOps (fun _ _ _ hs => (Option.some.inj hs).symm) h

/-- **Each of the defects breaks the volume's soundness.** -/
theorem unsound_runs :
    (∃ s, machine.Reachable s ∧ s.request.pending = false ∧ s.previewActive = false ∧
      s.audio.desiredVolume = 3 ∧ lastSaved s = 10) ∧
    (∃ s, machine.Reachable s ∧ s.configured = 10 ∧ s.settings.volume = 5 ∧ s.saves = []) ∧
    ∃ s, machine.Reachable s ∧ s.request.pending = false ∧ s.previewActive = false ∧
      s.audio.desiredVolume = 10 ∧ lastSaved s = 5 := by
  refine ⟨?_, ?_, ?_⟩
  · -- A preview of level 3 is rolled back to level 10; before the service acknowledges that,
    -- level 5 is saved, and the connection closes.
    refine ⟨_, reachable_run (l := connectOps ++
      [(.setting quickSettings 1 (Bytes.ascii "3") true, 9, 2), ackOp 3 3,
        (.setting quickSettings 2 [] true, 9, 4),
        (.setting quickSettings 3 (Bytes.ascii "5") false, 9, 5),
        (.advance none [.closed] false, 9, 6)]) rfl, ?_⟩
    exact ⟨rfl, rfl, rfl, rfl⟩
  · -- The connection breaks while a process is announced; the next one gets descriptor 5 again,
    -- and its acknowledgement saves the level asked for on the first.
    refine ⟨_, reachable_run (l := connectOps ++
      [saveOp, (.app 100 1000 (Bytes.ascii "player"), 0, 3),
        (.advance (some 5) [] false, 9, 103), ackOp 5 104]) rfl, ?_⟩
    exact ⟨rfl, rfl, rfl⟩
  · -- The service acknowledges the save and closes the connection before the session reads
    -- either.
    refine ⟨_, reachable_run (l := connectOps ++
      [saveOp, (.advance none [.packet (volumeText 5), .closed] false, 9, 3)]) rfl, ?_⟩
    exact ⟨rfl, rfl, rfl, rfl⟩

/-- A run that saves level 5 on one connection. -/
theorem sound_saved : ∃ l s, machine.Trace l s ∧ (∀ x ∈ l, Careful x.before x.op) ∧
    s.saves = [⟨5, 1⟩] ∧ Sound s := by
  have h0 : machine.Trace [] (initial true {} 0) := .start ⟨true, {}, 0, Nat.le_refl _, rfl⟩
  have h1 := h0.step (a := (.advance (some 5) [] false, 9, 0)) rfl
  have h2 := h1.step (a := ackOp 10 1) rfl
  have h3 := h2.step (a := saveOp) rfl
  have h4 := h3.step (a := ackOp 5 3) rfl
  obtain ⟨l, s, htrace, hcareful, hsaves⟩ : ∃ l s, machine.Trace l s ∧
      (∀ x ∈ l, Careful x.before x.op) ∧ s.saves = [⟨5, 1⟩] := by
    refine ⟨_, _, h4, ?_, rfl⟩
    intro x hx
    simp only [List.nil_append, List.mem_append, List.mem_singleton, or_assoc] at hx
    rcases hx with rfl | rfl | rfl | rfl
    · exact ⟨fun hs => absurd hs.1 Bool.false_ne_true, fun hs => absurd hs.1 Bool.false_ne_true⟩
    · exact ⟨fun hs => absurd hs.1 Bool.false_ne_true, fun hs => absurd hs.1 Bool.false_ne_true⟩
    · intro _ _ _ level _ applied happlied
      cases happlied
      rfl
    · refine ⟨?_, fun _ _ => ?_⟩
      · intro _ hfd
        cases hfd
      · rintro (hother | hnone)
        · exact hother rfl
        · cases hnone
  exact ⟨l, s, htrace, hcareful, hsaves, saves_of_trace htrace hcareful⟩

end Volume
