/-
The manager's client of the audio service's control socket
(`session-audio.c`).

The client holds the processes the service must know and the master volume.
Commands never wait: a send that the socket refuses closes the connection, and
the next connection, after a backoff, confirms the volume and announces
everything again.

`room` is how many packets the socket takes before it refuses one; every
operation sets it.  `generation`, `wire` and `acknowledged` are not in the
source: the number of connections made, the commands that went out and the
volumes the service acknowledged, each with its connection.
-/
import Fplinux.Lib.Bytes
import Fplinux.Lib.Word

namespace SessionAudio

def taskMax : ℕ := 4
def idBytes : ℕ := 128
def processesMax : ℕ := taskMax + 1
def retryMs : ℕ := 100
def retryMaxMs : ℕ := 2000
def volumeTimeoutMs : ℕ := 1000
def volumeMax : ℕ := 10

/-- Packets read from the service in one dispatch. -/
def readsMax : ℕ := 32

/-- `struct fplinux_session_audio_process`; `pid` 0 is a free entry. -/
structure Process where
  pid : ℤ := 0
  uid : ℕ := 0
  appId : List UInt8 := []
  clock : Bool := false
  audible : Bool := false
  announced : Bool := false
  toldAudible : Bool := false
  deriving DecidableEq, Repr

/-- The control commands. -/
inductive Command
  | app (pid : ℤ) (uid : ℕ) (appId : List UInt8)
  | clock (pid : ℤ) (uid : ℕ)
  | gone (pid : ℤ)
  | audible (pid : ℤ) (audible : Bool)
  | volume (level : ℕ)
  deriving DecidableEq, Repr

/-- The text of a volume command and of its acknowledgement. -/
def volumeText (level : ℕ) : List UInt8 :=
  Bytes.ascii "VOLUME " ++ (Nat.toDigits 10 level).map Bytes.byte

/-- What a read from the service gives. -/
inductive Read
  | packet (bytes : List UInt8)
  | interrupted
  | empty
  | closed
  deriving DecidableEq, Repr

/-- `struct fplinux_session_audio`. -/
structure Audio where
  enabled : Bool
  fd : Option ℕ := none
  retryAtMs : ℕ := 0
  backoffMs : ℕ := retryMs
  quiet : Bool := false
  desiredVolume : ℕ := volumeMax
  sentVolume : ℕ := 0
  appliedVolume : ℕ := 0
  volumeWaiting : Bool := false
  volumeKnown : Bool := false
  volumeReady : Bool := false
  volumeDeadlineMs : ℕ := 0
  processes : List Process := List.replicate processesMax {}
  room : ℕ := 0
  generation : ℕ := 0
  wire : List (ℕ × Command) := []
  acknowledged : List (ℕ × ℕ) := []
  deriving DecidableEq, Repr

def init (enabled : Bool) : Audio := { enabled := enabled }

def retryLater (a : Audio) (nowMs : ℕ) : Audio :=
  { a with
    retryAtMs := Word.add 64 nowMs a.backoffMs
    backoffMs := if a.backoffMs * 2 > retryMaxMs then retryMaxMs else a.backoffMs * 2 }

def disconnect (a : Audio) : Audio :=
  if a.fd = none then
    a
  else
    { a with
      fd := none
      volumeKnown := false
      volumeWaiting := false
      volumeReady := false
      processes := a.processes.map fun p => { p with announced := false } }

/-- The service forgets every process now; the next connection repeats them. -/
def lose (a : Audio) (nowMs : ℕ) : Audio :=
  retryLater (disconnect { a with quiet := true }) nowMs

/-- A command never waits: one that cannot go now closes the connection. -/
def sendText (a : Audio) (command : Command) (nowMs : ℕ) : Bool × Audio :=
  if a.room = 0 then
    (false, lose a nowMs)
  else
    (true, { a with room := a.room - 1, wire := a.wire ++ [(a.generation, command)] })

def sendVolume (a : Audio) (nowMs : ℕ) : Bool × Audio :=
  let (ok, a) := sendText a (.volume a.desiredVolume) nowMs
  if ok then
    (true, { a with
      sentVolume := a.desiredVolume
      volumeWaiting := true
      volumeDeadlineMs := Word.add 64 nowMs volumeTimeoutMs })
  else
    (false, a)

/-- The entry at an index. -/
def entry (a : Audio) (i : ℕ) : Process := a.processes.getD i {}

def setEntry (a : Audio) (i : ℕ) (p : Process) : Audio :=
  { a with processes := a.processes.set i p }

def tell (a : Audio) (i : ℕ) (nowMs : ℕ) : Bool × Audio :=
  let process := entry a i
  let (ok, a) := sendText a (.audible process.pid process.audible) nowMs
  if ok then
    (true, setEntry a i { entry a i with toldAudible := process.audible })
  else
    (false, a)

/-- APP and then AUDIBLE, so that the service never guesses the state. -/
def announce (a : Audio) (i : ℕ) (nowMs : ℕ) : Bool × Audio :=
  let process := entry a i
  let command :=
    if process.clock then Command.clock process.pid process.uid
    else Command.app process.pid process.uid process.appId
  let (ok, a) := sendText a command nowMs
  if ok then
    tell (setEntry a i { entry a i with announced := true }) i nowMs
  else
    (false, a)

/-- The loop of `announce_all` over the entries from `i` on. -/
def announceFrom (nowMs : ℕ) : ℕ → ℕ → Audio → Bool × Audio
  | 0, _, a => (true, a)
  | count + 1, i, a =>
    if (entry a i).pid ≠ 0 then
      let (ok, a) := announce a i nowMs
      if ok then announceFrom nowMs count (i + 1) a else (false, a)
    else
      announceFrom nowMs count (i + 1) a

def announceAll (a : Audio) (nowMs : ℕ) : Bool × Audio :=
  announceFrom nowMs processesMax 0 a

/-- `connect_service`; `fd` is the new connection's descriptor, or `none` when
it could not be made. -/
def connectService (a : Audio) (fd : Option ℕ) (nowMs : ℕ) : Audio :=
  match fd with
  | none => retryLater { a with quiet := true } nowMs
  | some fd =>
    (sendVolume { a with fd := some fd, quiet := false, generation := a.generation + 1 } nowMs).2

def findProcess (a : Audio) (pid : ℤ) : Option ℕ :=
  if 0 < pid then a.processes.findIdx? fun p => p.pid = pid else none

def freeProcess (a : Audio) : Option ℕ := a.processes.findIdx? fun p => p.pid = 0

/-- A command word holds printable ASCII without spaces. -/
def isWord (text : List UInt8) : Bool :=
  0 < text.length ∧ text.length < idBytes ∧
    text.all fun b => Bytes.byte ' ' < b ∧ b ≤ Bytes.byte '~'

/-- Writes an entry and announces it once the volume is confirmed. -/
def place (a : Audio) (i : ℕ) (process : Process) (nowMs : ℕ) : Audio :=
  let a := setEntry a i process
  if a.fd ≠ none ∧ a.volumeReady then (announce a i nowMs).2 else a

def app (a : Audio) (pid : ℤ) (uid : ℕ) (appId : List UInt8) (nowMs : ℕ) : Bool × Audio :=
  if !a.enabled || pid ≤ 0 || !isWord appId then
    (false, a)
  else
    match (findProcess a pid).or (freeProcess a) with
    | none => (false, a)
    | some i => (true, place a i { pid := pid, uid := uid, appId := appId } nowMs)

def clock (a : Audio) (pid : ℤ) (uid : ℕ) (nowMs : ℕ) : Bool × Audio :=
  if !a.enabled || pid ≤ 0 || a.processes.any fun p => p.clock && p.pid ≠ pid then
    (false, a)
  else
    match (findProcess a pid).or (freeProcess a) with
    | none => (false, a)
    | some i => (true, place a i { pid := pid, uid := uid, clock := true } nowMs)

def gone (a : Audio) (pid : ℤ) (nowMs : ℕ) : Audio :=
  match findProcess a pid with
  | none => a
  | some i =>
    let a :=
      if a.fd ≠ none ∧ (entry a i).announced then (sendText a (.gone pid) nowMs).2 else a
    setEntry a i {}

/-- `fplinux_session_audio_audible`. -/
def setAudible (a : Audio) (pid : ℤ) (audible : Bool) (nowMs : ℕ) : Audio :=
  match findProcess a pid with
  | none => a
  | some i =>
    let a := setEntry a i { entry a i with audible := audible }
    if a.fd ≠ none ∧ (entry a i).announced ∧ (entry a i).toldAudible ≠ audible then
      (tell a i nowMs).2
    else
      a

def setVolume (a : Audio) (level : ℕ) (nowMs : ℕ) : Audio :=
  if level > volumeMax then
    a
  else
    let a := { a with desiredVolume := level }
    if a.fd ≠ none ∧ !a.volumeWaiting ∧ (!a.volumeKnown ∨ a.appliedVolume ≠ level) then
      (sendVolume a nowMs).2
    else
      a

def volumeApplied (a : Audio) : Option ℕ := if a.volumeKnown then some a.appliedVolume else none

def volumePending (a : Audio) : Bool :=
  !a.volumeKnown || a.volumeWaiting || a.appliedVolume ≠ a.desiredVolume

/-- The service acknowledged the volume last sent. -/
def acknowledge (a : Audio) : Audio :=
  { a with
    volumeWaiting := false
    volumeKnown := true
    appliedVolume := a.sentVolume
    acknowledged := a.acknowledged ++ [(a.generation, a.sentVolume)] }

/-- What follows an acknowledgement: the volume wanted meanwhile, or the
processes; `false` when the connection was lost. -/
def afterAcknowledge (a : Audio) (nowMs : ℕ) : Bool × Audio :=
  if a.desiredVolume ≠ a.appliedVolume then
    sendVolume a nowMs
  else if !a.volumeReady then
    let (ok, a) := announceAll { a with volumeReady := true } nowMs
    if ok then (true, { a with backoffMs := retryMs }) else (false, a)
  else
    (true, a)

/-- The reads of `fplinux_session_audio_dispatch`, at most `count`. -/
def readLoop (nowMs : ℕ) : ℕ → List Read → Audio → Audio
  | 0, _, a => a
  | _ + 1, [], a => a
  | count + 1, .interrupted :: reads, a => readLoop nowMs count reads a
  | _ + 1, .empty :: _, a => a
  | _ + 1, .closed :: _, a => lose a nowMs
  | count + 1, .packet bytes :: reads, a =>
    if !a.volumeWaiting || bytes ≠ volumeText a.sentVolume then
      lose a nowMs
    else
      let (ok, a) := afterAcknowledge (acknowledge a) nowMs
      if ok then readLoop nowMs count reads a else a

/-- `fplinux_session_audio_dispatch`; `fd` is what a connection made now would
get. -/
def dispatch (a : Audio) (fd : Option ℕ) (reads : List Read) (nowMs : ℕ) : Audio :=
  if !a.enabled then
    a
  else if a.fd = none then
    if nowMs ≥ a.retryAtMs then connectService a fd nowMs else a
  else if a.volumeWaiting && nowMs ≥ a.volumeDeadlineMs then
    lose a nowMs
  else
    readLoop nowMs readsMax reads a

/-! ### What using the connection can do -/

/-- Sending leaves the volume wanted and what was acknowledged alone, confirms
no volume, and leaves the connection as it is or closed. -/
structure Keeps (a a' : Audio) : Prop where
  desired : a'.desiredVolume = a.desiredVolume
  generation : a'.generation = a.generation
  acknowledged : a'.acknowledged = a.acknowledged
  pending : volumePending a = true → volumePending a' = true
  link : a'.fd = a.fd ∧ a'.volumeKnown = a.volumeKnown ∧ a'.appliedVolume = a.appliedVolume ∨
    a'.fd = none ∧ a'.volumeKnown = false

theorem Keeps.refl (a : Audio) : Keeps a a := ⟨rfl, rfl, rfl, id, Or.inl ⟨rfl, rfl, rfl⟩⟩

theorem Keeps.trans {a b c : Audio} (h : Keeps a b) (h' : Keeps b c) : Keeps a c := by
  refine ⟨h'.desired.trans h.desired, h'.generation.trans h.generation,
    h'.acknowledged.trans h.acknowledged, h'.pending ∘ h.pending, ?_⟩
  rcases h'.link with ⟨hfd, hknown, happlied⟩ | hlost
  · rcases h.link with ⟨hfd', hknown', happlied'⟩ | ⟨hfd', hknown'⟩
    · exact Or.inl ⟨hfd.trans hfd', hknown.trans hknown', happlied.trans happlied'⟩
    · exact Or.inr ⟨hfd.trans hfd', hknown.trans hknown'⟩
  · exact Or.inr hlost

/-- The result of a send: what it keeps, and an open connection when it
succeeds. -/
structure Sends (a : Audio) (result : Bool × Audio) : Prop where
  keeps : Keeps a result.2
  stays : result.1 = true → result.2.fd = a.fd

theorem Sends.fail {a b : Audio} (h : Keeps a b) : Sends a (false, b) := by
  refine ⟨h, ?_⟩
  intro hok
  cases hok

section Sending

variable (a : Audio) (nowMs : ℕ)

theorem keeps_lose : Keeps a (lose a nowMs) := by
  rw [lose, disconnect]
  split
  · exact ⟨rfl, rfl, rfl, id, Or.inl ⟨rfl, rfl, rfl⟩⟩
  · exact ⟨rfl, rfl, rfl, fun _ => rfl, Or.inr ⟨rfl, rfl⟩⟩

theorem sends_sendText (command : Command) : Sends a (sendText a command nowMs) := by
  rw [sendText]
  split
  · exact .fail (keeps_lose a nowMs)
  · exact ⟨⟨rfl, rfl, rfl, id, Or.inl ⟨rfl, rfl, rfl⟩⟩, fun _ => rfl⟩

theorem keeps_setEntry (i : ℕ) (p : Process) : Keeps a (setEntry a i p) :=
  ⟨rfl, rfl, rfl, id, Or.inl ⟨rfl, rfl, rfl⟩⟩

theorem sends_sendVolume : Sends a (sendVolume a nowMs) := by
  obtain ⟨hkeeps, hstays⟩ := sends_sendText a nowMs (.volume a.desiredVolume)
  rw [sendVolume]
  rcases hs : sendText a (.volume a.desiredVolume) nowMs with ⟨ok, b⟩
  rw [hs] at hkeeps hstays
  simp only
  split
  · rename_i hok
    refine ⟨⟨hkeeps.desired, hkeeps.generation, hkeeps.acknowledged, fun _ => ?_, hkeeps.link⟩,
      fun _ => hstays hok⟩
    simp [volumePending]
  · exact .fail hkeeps

theorem sends_tell (i : ℕ) : Sends a (tell a i nowMs) := by
  obtain ⟨hkeeps, hstays⟩ :=
    sends_sendText a nowMs (.audible (entry a i).pid (entry a i).audible)
  rw [tell]
  rcases hs : sendText a (.audible (entry a i).pid (entry a i).audible) nowMs with ⟨ok, b⟩
  rw [hs] at hkeeps hstays
  simp only
  split
  · rename_i hok
    exact ⟨hkeeps.trans (keeps_setEntry _ _ _), fun _ => hstays hok⟩
  · exact .fail hkeeps

theorem sends_announce (i : ℕ) : Sends a (announce a i nowMs) := by
  rw [announce]
  simp only
  generalize (if (entry a i).clock then Command.clock (entry a i).pid (entry a i).uid
    else Command.app (entry a i).pid (entry a i).uid (entry a i).appId) = command
  obtain ⟨hkeeps, hstays⟩ := sends_sendText a nowMs command
  rcases hs : sendText a command nowMs with ⟨ok, b⟩
  rw [hs] at hkeeps hstays
  simp only
  split
  · rename_i hok
    obtain ⟨htell, htellStays⟩ :=
      sends_tell (setEntry b i { entry b i with announced := true }) nowMs i
    exact ⟨hkeeps.trans ((keeps_setEntry _ _ _).trans htell),
      fun h => (htellStays h).trans (hstays hok)⟩
  · exact .fail hkeeps

theorem sends_announceFrom (count : ℕ) :
    ∀ i a, Sends a (announceFrom nowMs count i a) := by
  induction count with
  | zero =>
    intro i a
    exact ⟨Keeps.refl a, fun _ => rfl⟩
  | succ count ih =>
    intro i a
    rw [announceFrom]
    split
    · obtain ⟨hkeeps, hstays⟩ := sends_announce a nowMs i
      rcases hs : announce a i nowMs with ⟨ok, b⟩
      rw [hs] at hkeeps hstays
      simp only
      split
      · rename_i hok
        obtain ⟨hrest, hrestStays⟩ := ih (i + 1) b
        exact ⟨hkeeps.trans hrest, fun h => (hrestStays h).trans (hstays hok)⟩
      · exact .fail hkeeps
    · exact ih (i + 1) a

theorem keeps_place (i : ℕ) (process : Process) : Keeps a (place a i process nowMs) := by
  have hset := keeps_setEntry a i process
  rw [place]
  split
  · exact hset.trans (sends_announce _ _ _).keeps
  · exact hset

theorem keeps_app (pid : ℤ) (uid : ℕ) (appId : List UInt8) :
    Keeps a (app a pid uid appId nowMs).2 := by
  rw [app]
  split
  · exact Keeps.refl a
  split
  · exact Keeps.refl a
  · exact keeps_place _ _ _ _

theorem keeps_clock (pid : ℤ) (uid : ℕ) : Keeps a (clock a pid uid nowMs).2 := by
  rw [clock]
  split
  · exact Keeps.refl a
  split
  · exact Keeps.refl a
  · exact keeps_place _ _ _ _

theorem keeps_gone (pid : ℤ) : Keeps a (gone a pid nowMs) := by
  rw [gone]
  split
  · exact Keeps.refl a
  simp only
  split
  · exact (sends_sendText _ _ _).keeps.trans (keeps_setEntry _ _ _)
  · exact keeps_setEntry _ _ _

theorem keeps_setAudible (pid : ℤ) (audible : Bool) : Keeps a (setAudible a pid audible nowMs) := by
  rw [setAudible]
  split
  · exact Keeps.refl a
  simp only
  split
  · exact (keeps_setEntry _ _ _).trans (sends_tell _ _ _).keeps
  · exact keeps_setEntry _ _ _

theorem keeps_setVolume {level : ℕ} (hlevel : level ≤ volumeMax) :
    Keeps { a with desiredVolume := level } (setVolume a level nowMs) := by
  rw [setVolume, if_neg (by omega)]
  simp only
  split
  · exact (sends_sendVolume _ _).keeps
  · exact Keeps.refl _

end Sending

/-! ### What a dispatch can do -/

/-- A volume that counts as applied was acknowledged on this connection. -/
def Linked (a : Audio) : Prop :=
  a.volumeKnown = true → a.fd ≠ none ∧ (a.generation, a.appliedVolume) ∈ a.acknowledged

theorem Keeps.linked {a a' : Audio} (h : Keeps a a') (hl : Linked a) : Linked a' := by
  intro hknown
  rcases h.link with ⟨hfd, hk, happlied⟩ | ⟨-, hk⟩
  · rw [hfd, h.generation, h.acknowledged, happlied]
    exact hl (hk.symm.trans hknown)
  · rw [hk] at hknown
    cases hknown

/-- Reading keeps the connection or closes it; only a closed one is made anew,
with the descriptor it gets.  The volume wanted is confirmed by an
acknowledgement only. -/
structure Serves (fd : Option ℕ) (a a' : Audio) : Prop where
  desired : a'.desiredVolume = a.desiredVolume
  news : ∃ news, a'.acknowledged = a.acknowledged ++ news ∧ (volumePending a' = false →
    volumePending a = false ∨ (a'.generation, a'.desiredVolume) ∈ news)
  conn : a'.generation = a.generation ∧ (a'.fd = a.fd ∨ a'.fd = none) ∨
    a.fd = none ∧ (a'.fd = fd ∨ a'.fd = none)
  linked : Linked a → Linked a'

theorem Keeps.confirmed {a a' : Audio} (h : Keeps a a') (hdone : volumePending a' = false) :
    volumePending a = false := by
  by_contra hpending
  rw [h.pending (by simpa using hpending)] at hdone
  cases hdone

theorem Keeps.serves {a a' : Audio} (h : Keeps a a') (fd : Option ℕ) : Serves fd a a' := by
  refine ⟨h.desired, ⟨[], ?_, fun hdone => .inl (h.confirmed hdone)⟩, ?_, h.linked⟩
  · rw [h.acknowledged, List.append_nil]
  left
  refine ⟨h.generation, ?_⟩
  rcases h.link with ⟨hfd, -, -⟩ | ⟨hfd, -⟩
  · exact Or.inl hfd
  · exact Or.inr hfd

theorem sends_afterAcknowledge (a : Audio) (nowMs : ℕ) : Sends a (afterAcknowledge a nowMs) := by
  rw [afterAcknowledge]
  split
  · exact sends_sendVolume a nowMs
  split
  · obtain ⟨hkeeps, hstays⟩ :=
      sends_announceFrom nowMs processesMax 0 { a with volumeReady := true }
    rcases hs : announceAll { a with volumeReady := true } nowMs with ⟨ok, b⟩
    rw [announceAll] at hs
    rw [hs] at hkeeps hstays
    simp only
    split
    · rename_i hok
      exact ⟨⟨hkeeps.desired, hkeeps.generation, hkeeps.acknowledged, hkeeps.pending,
        hkeeps.link⟩, fun _ => hstays hok⟩
    · exact .fail ⟨hkeeps.desired, hkeeps.generation, hkeeps.acknowledged, hkeeps.pending,
        hkeeps.link⟩
  · exact ⟨Keeps.refl a, fun _ => rfl⟩

theorem serves_acknowledge {a : Audio} (hfd : a.fd ≠ none) (fd : Option ℕ) {b : Audio}
    (h : Keeps (acknowledge a) b) : Serves fd a b := by
  refine ⟨h.desired, ⟨_, h.acknowledged, ?_⟩, ?_, ?_⟩
  · intro hdone
    right
    have hlevel : a.sentVolume = a.desiredVolume := by
      exact Decidable.not_not.mp (of_decide_eq_false (h.confirmed hdone))
    rw [h.generation, h.desired, hlevel]
    exact List.mem_singleton_self _
  · left
    refine ⟨h.generation, ?_⟩
    rcases h.link with ⟨hsame, -, -⟩ | ⟨hnone, -⟩
    · exact Or.inl hsame
    · exact Or.inr hnone
  · intro _
    exact h.linked fun _ => ⟨hfd, List.mem_append_right _ List.mem_cons_self⟩

theorem Serves.trans {fd : Option ℕ} {a b c : Audio} (h : Serves fd a b) (h' : Serves fd b c)
    (hfd : b.fd ≠ none) (hopen : a.fd ≠ none) : Serves fd a c := by
  obtain ⟨news, hnews, hdone⟩ := h.news
  obtain ⟨news', hnews', hdone'⟩ := h'.news
  refine ⟨h'.desired.trans h.desired, ⟨news ++ news', ?_, ?_⟩, ?_,
    fun hl => h'.linked (h.linked hl)⟩
  · rw [hnews', hnews, List.append_assoc]
  · intro hc
    rcases hdone' hc with hb | hmem
    · have hgen : c.generation = b.generation := by
        rcases h'.conn with ⟨hgen, -⟩ | ⟨hnone, -⟩
        · exact hgen
        · exact absurd hnone hfd
      rw [hgen, h'.desired]
      exact (hdone hb).imp_right (List.mem_append_left _)
    · exact .inr (List.mem_append_right _ hmem)
  rcases h.conn with ⟨hgen, hsame | hnone⟩ | ⟨hnone, -⟩
  · rcases h'.conn with ⟨hgen', hsame' | hnone'⟩ | ⟨hnone', -⟩
    · exact Or.inl ⟨hgen'.trans hgen, Or.inl (hsame'.trans hsame)⟩
    · exact Or.inl ⟨hgen'.trans hgen, Or.inr hnone'⟩
    · exact absurd hnone' hfd
  · exact absurd hnone hfd
  · exact absurd hnone hopen

theorem serves_readLoop (nowMs : ℕ) (fd : Option ℕ) (count : ℕ) :
    ∀ (reads : List Read) (a : Audio), a.fd ≠ none →
      Serves fd a (readLoop nowMs count reads a) := by
  induction count with
  | zero =>
    intro reads a _
    rw [readLoop]
    exact (Keeps.refl a).serves fd
  | succ count ih =>
    intro reads a hfd
    cases reads with
    | nil => exact (Keeps.refl a).serves fd
    | cons read reads =>
      cases read with
      | interrupted => exact ih reads a hfd
      | empty => exact (Keeps.refl a).serves fd
      | closed => exact (keeps_lose a nowMs).serves fd
      | packet bytes =>
        rw [readLoop]
        split
        · exact (keeps_lose a nowMs).serves fd
        · obtain ⟨hkeeps, hstays⟩ := sends_afterAcknowledge (acknowledge a) nowMs
          rcases hs : afterAcknowledge (acknowledge a) nowMs with ⟨ok, b⟩
          rw [hs] at hkeeps hstays
          have hone := serves_acknowledge hfd fd hkeeps
          simp only
          split
          · rename_i hok
            have hopen : b.fd ≠ none := by
              rw [hstays hok]
              exact hfd
            exact hone.trans (ih reads b hopen) hopen hfd
          · exact hone

/-- **A dispatch** keeps the connection, closes it, or makes a new one where
there was none. -/
theorem serves_dispatch (a : Audio) (fd : Option ℕ) (reads : List Read) (nowMs : ℕ) :
    Serves fd a (dispatch a fd reads nowMs) := by
  rw [dispatch]
  split
  · exact (Keeps.refl a).serves fd
  split
  · rename_i hnone
    split
    · cases fd with
      | none =>
        exact ⟨rfl, ⟨[], (List.append_nil _).symm, .inl⟩, Or.inl ⟨rfl, Or.inl rfl⟩, fun hl => hl⟩
      | some fd =>
        have hkeeps : Keeps { a with fd := some fd, quiet := false, generation := a.generation + 1 }
            (connectService a (some fd) nowMs) := (sends_sendVolume _ nowMs).keeps
        refine ⟨hkeeps.desired, ⟨[], ?_, fun hdone => .inl (hkeeps.confirmed hdone)⟩, ?_, ?_⟩
        · rw [hkeeps.acknowledged, List.append_nil]
        · right
          refine ⟨hnone, ?_⟩
          rcases hkeeps.link with ⟨hsame, -, -⟩ | ⟨hlost, -⟩
          · exact Or.inl hsame
          · exact Or.inr hlost
        · -- Without a connection no volume counted as applied.
          intro hl
          refine hkeeps.linked fun hknown => ?_
          exact absurd hnone (hl hknown).1
    · exact (Keeps.refl a).serves fd
  · rename_i hfd
    split
    · exact (keeps_lose a nowMs).serves fd
    · exact serves_readLoop nowMs fd readsMax reads a hfd

end SessionAudio
