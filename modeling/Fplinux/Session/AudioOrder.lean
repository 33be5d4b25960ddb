/-
The order of what the manager sends to the audio service (`session-audio.c`).

`machine` makes the calls of the client in any order, with any replies, timeouts and lost
connections, and keeps a log of every connection: the commands that went out and the replies
that were read.  The service's side (`Service`) follows every connection of every run, and
while a connection is open the client agrees with it (`Agrees`).

Main results:
- `tell_settles`, `announce_settles`, `sendVolume_settles`: what the sending functions do;
- `readLoop_outcome`: the replies of a dispatch, one after the other;
- `Inv.dispatch`, `Inv.step`: every call keeps the log in order;
- `announced_in_order`: every run.
-/
import Mathlib.Data.List.GetD
import Fplinux.Session.AudioProtocol

namespace SessionAudio

open List (append_assoc append_nil filterMap_append filterMap_map map_append map_nil)

/-! ### Runs -/

/-- The calls of the client. -/
inductive Op
  | app (pid : ℤ) (uid : ℕ) (appId : List UInt8)
  | clock (pid : ℤ) (uid : ℕ)
  | gone (pid : ℤ)
  | audible (pid : ℤ) (audible : Bool)
  | setVolume (level : ℕ)
  | dispatch (fd : Option ℕ) (reads : List Read)
  | close
  deriving DecidableEq, Repr

/-- One call. -/
def Op.run (a : Audio) (nowMs : ℕ) : Op → Audio
  | .app pid uid appId => (SessionAudio.app a pid uid appId nowMs).2
  | .clock pid uid => (SessionAudio.clock a pid uid nowMs).2
  | .gone pid => SessionAudio.gone a pid nowMs
  | .audible pid value => setAudible a pid value nowMs
  | .setVolume level => SessionAudio.setVolume a level nowMs
  | .dispatch fd reads => SessionAudio.dispatch a fd reads nowMs
  | .close => disconnect a

/-- The commands that went out between two states, with their connection. -/
def sentSince (a b : Audio) : List (ℕ × Event) :=
  (b.wire.drop a.wire.length).map fun x => (x.1, .sent x.2)

/-- What `readLoop` reads and sends, in order. -/
def readEvents (nowMs : ℕ) : ℕ → List Read → Audio → List (ℕ × Event)
  | 0, _, _ => []
  | _ + 1, [], _ => []
  | count + 1, .interrupted :: reads, a => readEvents nowMs count reads a
  | _ + 1, .empty :: _, _ => []
  | _ + 1, .closed :: _, _ => []
  | count + 1, .packet bytes :: reads, a =>
    if !a.volumeWaiting || bytes ≠ volumeText a.sentVolume then
      [(a.generation, .refused bytes)]
    else
      let (ok, b) := afterAcknowledge (acknowledge a) nowMs
      (a.generation, .acknowledged a.sentVolume a.desiredVolume bytes) ::
        (sentSince a b ++ if ok then readEvents nowMs count reads b else [])

/-- What a call reads and sends, in order. -/
def Op.events (a : Audio) (nowMs : ℕ) : Op → List (ℕ × Event)
  | .dispatch fd reads =>
    if a.fd = none ∨ !a.enabled ∨ a.volumeWaiting ∧ nowMs ≥ a.volumeDeadlineMs then
      sentSince a (SessionAudio.dispatch a fd reads nowMs)
    else
      readEvents nowMs readsMax reads a
  | op => sentSince a (op.run a nowMs)

/-- The client and what happened on its connections. -/
structure Link where
  audio : Audio
  log : List (ℕ × Event) := []

/-- A call at some time, and how many packets the socket takes. -/
structure Call where
  room : ℕ
  nowMs : ℕ
  op : Op

def Link.call (s : Link) (x : Call) : Link :=
  let a := { s.audio with room := x.room }
  { audio := x.op.run a x.nowMs, log := s.log ++ x.op.events a x.nowMs }

/-- The runs of the client. -/
def machine : Machine Link Call where
  start s := ∃ enabled, s = { audio := init enabled }
  step s x s' := s' = s.call x

/-- The events of one connection. -/
def onConnection (generation : ℕ) (log : List (ℕ × Event)) : List Event :=
  log.filterMap fun x => if x.1 = generation then some x.2 else none

/-! ### Entries -/

section Entries

variable {a : Audio} {i : ℕ}

theorem entry_setEntry (hi : i < a.processes.length) (p : Process) (j : ℕ) :
    entry (setEntry a i p) j = if j = i then p else entry a j := by
  rw [entry, setEntry, List.getD_eq_getElem?_getD, List.getElem?_set]
  by_cases hj : i = j
  · subst hj
    rw [if_pos rfl, if_pos hi, if_pos rfl, Option.getD_some]
  · rw [if_neg hj, if_neg (Ne.symm hj), entry, List.getD_eq_getElem?_getD]

theorem lt_of_pid (h : (entry a i).pid ≠ 0) : i < a.processes.length := by
  by_contra hge
  rw [entry, List.getD_eq_default _ _ (Nat.not_lt.mp hge)] at h
  exact h rfl

theorem length_setEntry (p : Process) : (setEntry a i p).processes.length = a.processes.length :=
  List.length_set

/-- No process has two entries. -/
def Unique (a : Audio) : Prop :=
  ∀ i j, (entry a i).pid ≠ 0 → (entry a i).pid = (entry a j).pid → i = j

/-- Without a connection nothing is known or announced. -/
structure Closed (a : Audio) : Prop where
  fd : a.fd = none
  waiting : a.volumeWaiting = false
  ready : a.volumeReady = false
  announced : ∀ i, (entry a i).announced = false

/-- APP or CLOCK for an entry. -/
def announcement (p : Process) : Command :=
  if p.clock then .clock p.pid p.uid else .app p.pid p.uid p.appId

/-- The client agrees with the service's side about the volume and about the entries that are
`done`; nothing is announced before the volume is confirmed. -/
structure Agrees (done : ℕ → Prop) (a : Audio) (s : Service) : Prop where
  waiting : s.waiting = if a.volumeWaiting then some a.sentVolume else none
  confirmed : s.confirmed = a.volumeReady
  intact : s.refused = false
  told : ∀ i, done i → (entry a i).pid ≠ 0 → (entry a i).announced = true ∧
    (entry a i).toldAudible = (entry a i).audible ∧
    s.told (entry a i).pid = some (announcement (entry a i), some (entry a i).audible)
  idle : a.volumeReady = false → ∀ i, (entry a i).announced = false

/-- The commands that went out between two states of a connection. -/
structure Wrote (a b : Audio) (commands : List Command) : Prop where
  generation : b.generation = a.generation
  wire : b.wire = a.wire ++ commands.map (Prod.mk a.generation)
  acknowledged : b.acknowledged = a.acknowledged
  length : b.processes.length = a.processes.length
  pids : ∀ i, (entry b i).pid = (entry a i).pid

/-- What a sending function comes to: the service's side follows what went out, and the
connection is closed or the client agrees with it again. -/
def Settles (done : ℕ → Prop) (s : Service) (a : Audio) (result : Bool × Audio) : Prop :=
  ∃ commands t, Wrote a result.2 commands ∧ Service.follow (commands.map .sent) s = some t ∧
    (result.1 = false ∧ Closed result.2 ∨
      result.1 = true ∧ result.2.fd = a.fd ∧ result.2.volumeReady = a.volumeReady ∧
        Agrees done result.2 t)

theorem Wrote.trans {b c : Audio} {commands commands' : List Command} (h : Wrote a b commands)
    (h' : Wrote b c commands') : Wrote a c (commands ++ commands') := by
  refine ⟨h'.generation.trans h.generation, ?_, h'.acknowledged.trans h.acknowledged,
    h'.length.trans h.length, fun i => (h'.pids i).trans (h.pids i)⟩
  rw [h'.wire, h.wire, h.generation, map_append, append_assoc]

theorem Unique.of_wrote {b : Audio} {commands : List Command} (h : Unique a)
    (hwrote : Wrote a b commands) : Unique b := by
  intro i j hi hij
  rw [hwrote.pids i] at hi hij
  rw [hwrote.pids j] at hij
  exact h i j hi hij

theorem entry_disconnect (a : Audio) (i : ℕ) :
    (entry (disconnect a) i).pid = (entry a i).pid := by
  rw [disconnect]
  split
  · rfl
  · simp only [entry, List.getD_eq_getElem?_getD, List.getElem?_map]
    cases a.processes[i]? with
    | none => rfl
    | some p => rfl

theorem closed_disconnect (h : a.fd ≠ none) : Closed (disconnect a) := by
  rw [disconnect, if_neg h]
  refine ⟨rfl, rfl, rfl, fun i => ?_⟩
  simp only [entry, List.getD_eq_getElem?_getD, List.getElem?_map]
  cases a.processes[i]? with
  | none => rfl
  | some p => rfl

theorem wrote_disconnect (a : Audio) : Wrote a (disconnect a) [] := by
  refine ⟨?_, ?_, ?_, ?_, entry_disconnect a⟩
  · rw [disconnect]
    split
    · rfl
    · rfl
  · rw [disconnect, map_nil, append_nil]
    split
    · rfl
    · rfl
  · rw [disconnect]
    split
    · rfl
    · rfl
  · rw [disconnect]
    split
    · rfl
    · exact List.length_map _

theorem closed_lose (h : a.fd ≠ none) (nowMs : ℕ) : Closed (lose a nowMs) := by
  have hclosed := @closed_disconnect { a with quiet := true } h
  exact ⟨hclosed.fd, hclosed.waiting, hclosed.ready, hclosed.announced⟩

theorem wrote_lose (a : Audio) (nowMs : ℕ) : Wrote a (lose a nowMs) [] := by
  have hwrote := wrote_disconnect { a with quiet := true }
  exact ⟨hwrote.generation, hwrote.wire, hwrote.acknowledged, hwrote.length, hwrote.pids⟩

theorem settles_lose (done : ℕ → Prop) (s : Service) (h : a.fd ≠ none) (nowMs : ℕ) :
    Settles done s a (false, lose a nowMs) :=
  ⟨[], s, wrote_lose a nowMs, rfl, .inl ⟨rfl, closed_lose h nowMs⟩⟩

/-- A command that went out. -/
def put (a : Audio) (command : Command) : Audio :=
  { a with
    room := a.room - 1
    wire := a.wire ++ [(a.generation, command)] }

theorem wrote_put (a : Audio) (command : Command) : Wrote a (put a command) [command] :=
  ⟨rfl, rfl, rfl, rfl, fun _ => rfl⟩

theorem sendText_cases (a : Audio) (command : Command) (nowMs : ℕ) :
    sendText a command nowMs = (false, lose a nowMs) ∨
      sendText a command nowMs = (true, put a command) := by
  rw [sendText]
  split
  · exact .inl rfl
  · exact .inr rfl

theorem tell_cases (a : Audio) (i nowMs : ℕ) :
    tell a i nowMs = (false, lose a nowMs) ∨
      tell a i nowMs = (true, setEntry (put a (.audible (entry a i).pid (entry a i).audible)) i
        { entry a i with toldAudible := (entry a i).audible }) := by
  rw [tell]
  rcases sendText_cases a (.audible (entry a i).pid (entry a i).audible) nowMs with hlost | hsent
  · rw [hlost]
    exact .inl rfl
  · rw [hsent]
    exact .inr rfl

theorem announce_cases (a : Audio) (i nowMs : ℕ) :
    announce a i nowMs = (false, lose a nowMs) ∨
      announce a i nowMs = tell (setEntry (put a (announcement (entry a i))) i
        { entry a i with announced := true }) i nowMs := by
  show (let (ok, a) := sendText a (announcement (entry a i)) nowMs
    if ok then tell (setEntry a i { entry a i with announced := true }) i nowMs
    else (false, a)) = _ ∨ _
  rcases sendText_cases a (announcement (entry a i)) nowMs with hlost | hsent
  · rw [hlost]
    exact .inl rfl
  · right
    show (let (ok, a) := sendText a (announcement (entry a i)) nowMs
      if ok then tell (setEntry a i { entry a i with announced := true }) i nowMs
      else (false, a)) = _
    rw [hsent]
    rfl

end Entries

/-! ### The service's side -/

section Taking

variable {s : Service}

theorem follow_singleton {event : Event} {t : Service} (h : s.take event = some t) :
    Service.follow [event] s = some t := by
  rw [Service.follow, Machine.runOps, h]
  rfl

theorem follow_append {l l' : List Event} {t u : Service} (h : Service.follow l s = some t)
    (h' : Service.follow l' t = some u) : Service.follow (l ++ l') s = some u :=
  (Machine.runOps_append h).trans h'

theorem take_announcement (hintact : s.refused = false) (hconfirmed : s.confirmed = true)
    (p : Process) : s.take (.sent (announcement p)) =
      some { s with told := Function.update s.told p.pid (some (announcement p, none)) } := by
  by_cases hclock : p.clock = true
  · have hcommand : announcement p = .clock p.pid p.uid := if_pos hclock
    rw [hcommand]
    unfold Service.take
    rw [hintact, if_neg Bool.false_ne_true]
    exact (if_pos hconfirmed).trans (by rw [hintact])
  · have hcommand : announcement p = .app p.pid p.uid p.appId := if_neg hclock
    rw [hcommand]
    unfold Service.take
    rw [hintact, if_neg Bool.false_ne_true]
    exact (if_pos hconfirmed).trans (by rw [hintact])

theorem take_audible (hintact : s.refused = false) (hconfirmed : s.confirmed = true) {pid : ℤ}
    {command : Command} {said : Option Bool} (htold : s.told pid = some (command, said))
    (audible : Bool) : s.take (.sent (.audible pid audible)) =
      some { s with told := Function.update s.told pid (some (command, some audible)) } := by
  unfold Service.take
  rw [hintact, if_neg Bool.false_ne_true]
  simp only
  rw [htold]
  simp only
  rw [if_pos hconfirmed]

theorem take_gone (hintact : s.refused = false) {pid : ℤ} (htold : (s.told pid).isSome = true) :
    s.take (.sent (.gone pid)) =
      some { s with told := Function.update s.told pid none } := by
  unfold Service.take
  rw [hintact, if_neg Bool.false_ne_true]
  simp only
  rw [if_pos htold]

theorem take_volume (hintact : s.refused = false) (hwaiting : s.waiting = none) (level : ℕ) :
    s.take (.sent (.volume level)) = some { s with waiting := some level } := by
  unfold Service.take
  rw [hintact, if_neg Bool.false_ne_true]
  simp only
  rw [if_pos hwaiting]

theorem take_acknowledged (hintact : s.refused = false) {level : ℕ}
    (hwaiting : s.waiting = some level) {text : List UInt8} (htext : text = volumeText level)
    (desired : ℕ) : s.take (.acknowledged level desired text) = some { s with
      waiting := none, confirmed := s.confirmed || decide (level = desired) } := by
  unfold Service.take
  rw [hintact, if_neg Bool.false_ne_true]
  simp only
  rw [if_pos ⟨hwaiting, htext⟩]

theorem take_refused (hintact : s.refused = false) (text : List UInt8) :
    s.take (.refused text) = some { s with refused := true } := by
  unfold Service.take
  rw [hintact, if_neg Bool.false_ne_true]

end Taking

/-! ### What the sending functions do -/

section Sending

variable {a : Audio} {s : Service} {done : ℕ → Prop}

theorem wrote_setEntry {b : Audio} {i : ℕ} (hi : i < a.processes.length)
    {commands : List Command} (h : Wrote a b commands) {p : Process}
    (hpid : p.pid = (entry a i).pid) : Wrote a (setEntry b i p) commands := by
  refine ⟨h.generation, h.wire, h.acknowledged, (length_setEntry p).trans h.length, fun j => ?_⟩
  rw [entry_setEntry (by rw [h.length]; exact hi)]
  split
  · rename_i hj
    rw [hj]
    exact hpid
  · exact h.pids j

/-- **VOLUME** goes out when no other is waiting. -/
theorem sendVolume_settles (h : Agrees done a s) (hopen : a.fd ≠ none)
    (hwaiting : a.volumeWaiting = false) (nowMs : ℕ) :
    Settles done s a (sendVolume a nowMs) := by
  have hnone : s.waiting = none := by
    rw [h.waiting, hwaiting]
    rfl
  rw [sendVolume]
  rcases sendText_cases a (.volume a.desiredVolume) nowMs with hlost | hsent
  · rw [hlost]
    exact settles_lose done s hopen nowMs
  · rw [hsent]
    refine ⟨[.volume a.desiredVolume], { s with waiting := some a.desiredVolume },
      ⟨rfl, rfl, rfl, rfl, fun _ => rfl⟩,
      follow_singleton (take_volume h.intact hnone a.desiredVolume),
      .inr ⟨rfl, rfl, rfl, rfl, h.confirmed, h.intact, h.told, h.idle⟩⟩

/-- **AUDIBLE** for an entry that was announced. -/
theorem tell_settles {i : ℕ} {said : Option Bool} (h : Agrees (fun j => done j ∧ j ≠ i) a s)
    (hopen : a.fd ≠ none) (hready : a.volumeReady = true) (hunique : Unique a)
    (hpid : (entry a i).pid ≠ 0) (hannounced : (entry a i).announced = true)
    (htold : s.told (entry a i).pid = some (announcement (entry a i), said)) (nowMs : ℕ) :
    Settles done s a (tell a i nowMs) := by
  have hi := lt_of_pid hpid
  rcases tell_cases a i nowMs with hlost | hsent
  · rw [hlost]
    exact settles_lose done s hopen nowMs
  · have hconfirmed : s.confirmed = true := h.confirmed.trans hready
    have hentry : ∀ j, entry (setEntry (put a (.audible (entry a i).pid (entry a i).audible)) i
        { entry a i with toldAudible := (entry a i).audible }) j =
          if j = i then { entry a i with toldAudible := (entry a i).audible } else entry a j :=
      fun j => entry_setEntry hi _ j
    have hagrees : Agrees done
        (setEntry (put a (.audible (entry a i).pid (entry a i).audible)) i
          { entry a i with toldAudible := (entry a i).audible })
        { s with
          told := Function.update s.told (entry a i).pid
            (some (announcement (entry a i), some (entry a i).audible)) } := by
      refine ⟨h.waiting, h.confirmed, h.intact, fun j hdone hj => ?_, fun hidle => ?_⟩
      · rw [hentry] at hj ⊢
        by_cases hji : j = i
        · subst hji
          rw [if_pos rfl]
          exact ⟨hannounced, rfl, Function.update_self ..⟩
        · rw [if_neg hji] at hj ⊢
          obtain ⟨hmarked, hsame, htold'⟩ := h.told j ⟨hdone, hji⟩ hj
          have hne : (entry a j).pid ≠ (entry a i).pid := fun heq => hji (hunique j i hj heq)
          exact ⟨hmarked, hsame, (Function.update_of_ne hne ..).trans htold'⟩
      · exact absurd (hready.symm.trans hidle) (by decide)
    rw [hsent]
    exact ⟨[.audible (entry a i).pid (entry a i).audible], _,
      wrote_setEntry hi (wrote_put a _) rfl,
      follow_singleton (take_audible h.intact hconfirmed htold _), .inr ⟨rfl, rfl, rfl, hagrees⟩⟩

/-- **APP or CLOCK, and then AUDIBLE.** -/
theorem announce_settles {i : ℕ} (h : Agrees (fun j => done j ∧ j ≠ i) a s)
    (hopen : a.fd ≠ none) (hready : a.volumeReady = true) (hunique : Unique a)
    (hpid : (entry a i).pid ≠ 0) (nowMs : ℕ) : Settles done s a (announce a i nowMs) := by
  have hi := lt_of_pid hpid
  have hconfirmed : s.confirmed = true := h.confirmed.trans hready
  rcases announce_cases a i nowMs with hlost | hsent
  · rw [hlost]
    exact settles_lose done s hopen nowMs
  · have hwrote := @wrote_setEntry a _ i hi _ (wrote_put a (announcement (entry a i)))
      { entry a i with announced := true } rfl
    have hentry : ∀ j, entry (setEntry (put a (announcement (entry a i))) i
        { entry a i with announced := true }) j =
          if j = i then { entry a i with announced := true } else entry a j :=
      fun j => entry_setEntry hi _ j
    have hown := hentry i
    rw [if_pos rfl] at hown
    have htake := follow_singleton (take_announcement h.intact hconfirmed (entry a i))
    have hagrees : Agrees (fun j => done j ∧ j ≠ i)
        (setEntry (put a (announcement (entry a i))) i { entry a i with announced := true })
        { s with
          told := Function.update s.told (entry a i).pid
            (some (announcement (entry a i), none)) } := by
      refine ⟨h.waiting, h.confirmed, h.intact, fun j hdone hj => ?_, fun hidle => ?_⟩
      · rw [hentry, if_neg hdone.2] at hj ⊢
        obtain ⟨hmarked, hsame, htold'⟩ := h.told j hdone hj
        have hne : (entry a j).pid ≠ (entry a i).pid :=
          fun heq => hdone.2 (hunique j i hj heq)
        exact ⟨hmarked, hsame, (Function.update_of_ne hne ..).trans htold'⟩
      · exact absurd (hready.symm.trans hidle) (by decide)
    obtain ⟨commands, u, hrest, hfollow, hend⟩ := @tell_settles _ _ done i none hagrees hopen hready
      (hunique.of_wrote hwrote) (by rw [hown]; exact hpid) (by rw [hown])
      (by rw [hown]; exact Function.update_self ..) nowMs
    rw [hsent]
    refine ⟨[announcement (entry a i)] ++ commands, u, hwrote.trans hrest, ?_, hend⟩
    rw [map_append]
    exact follow_append htake hfollow

theorem Agrees.of_imp {done' : ℕ → Prop} (h : Agrees done a s)
    (himp : ∀ i, done' i → (entry a i).pid ≠ 0 → done i) : Agrees done' a s :=
  ⟨h.waiting, h.confirmed, h.intact, fun i hdone hi => h.told i (himp i hdone hi) hi, h.idle⟩

theorem Wrote.refl (a : Audio) : Wrote a a [] :=
  ⟨rfl, by rw [map_nil, append_nil], rfl, rfl, fun _ => rfl⟩

theorem Settles.bind {done' : ℕ → Prop} {result result' : Bool × Audio}
    (h : Settles done s a result) (hfail : result.1 = false → result' = (false, result.2))
    (hok : result.1 = true → ∀ t commands, Wrote a result.2 commands → result.2.fd = a.fd →
      result.2.volumeReady = a.volumeReady → Agrees done result.2 t →
      Settles done' t result.2 result') : Settles done' s a result' := by
  obtain ⟨commands, t, hwrote, hfollow, ⟨hlost, hclosed⟩ | ⟨hsent, hfd, hready, hagrees⟩⟩ := h
  · rw [hfail hlost]
    exact ⟨commands, t, hwrote, hfollow, .inl ⟨rfl, hclosed⟩⟩
  · obtain ⟨commands', u, hwrote', hfollow', hend⟩ := hok hsent t commands hwrote hfd hready hagrees
    refine ⟨commands ++ commands', u, hwrote.trans hwrote', ?_, ?_⟩
    · rw [map_append]
      exact follow_append hfollow hfollow'
    · rcases hend with hlost | ⟨hsent', hfd', hready', hagrees'⟩
      · exact .inl hlost
      · exact .inr ⟨hsent', hfd'.trans hfd, hready'.trans hready, hagrees'⟩

/-- **The loop announces the entries from `i` on.** -/
theorem announceFrom_settles (nowMs count : ℕ) : ∀ (i : ℕ) (a : Audio) (s : Service),
    Agrees (fun j => j < i) a s → a.fd ≠ none → a.volumeReady = true → Unique a →
      a.processes.length ≤ i + count →
        Settles (fun _ => True) s a (announceFrom nowMs count i a) := by
  induction count with
  | zero =>
    intro i a s h hopen hready hunique hlength
    refine ⟨[], s, Wrote.refl a, rfl, .inr ⟨rfl, rfl, rfl, h.of_imp fun j _ hj => ?_⟩⟩
    exact Nat.lt_of_lt_of_le (lt_of_pid hj) hlength
  | succ count ih =>
    intro i a s h hopen hready hunique hlength
    rw [announceFrom]
    by_cases hpid : (entry a i).pid ≠ 0
    · rw [if_pos hpid]
      have hone : Settles (fun j => j < i + 1) s a (announce a i nowMs) := by
        refine announce_settles (h.of_imp fun j hj _ => ?_) hopen hready hunique hpid nowMs
        have hne := hj.2
        have hle := hj.1
        omega
      refine hone.bind ?_ ?_
      · intro hfail
        simp only [hfail, if_neg Bool.false_ne_true]
      · intro hok t commands hwrote hfd hready' hagrees
        simp only [hok, if_true]
        refine ih (i + 1) _ t hagrees ?_ (hready'.trans hready) (hunique.of_wrote hwrote) ?_
        · rw [hfd]
          exact hopen
        · rw [hwrote.length]
          omega
    · rw [if_neg hpid]
      refine ih (i + 1) a s (h.of_imp fun j hj hpid' => ?_) hopen hready hunique (by omega)
      have hne : j ≠ i := fun hji => hpid (hji ▸ hpid')
      omega

/-- What a call's sending comes to: the connection is closed, or the client agrees with the
service's side. -/
def Ends (s : Service) (a : Audio) (result : Bool × Audio) : Prop :=
  ∃ commands t, Wrote a result.2 commands ∧ Service.follow (commands.map .sent) s = some t ∧
    (result.1 = false ∧ Closed result.2 ∨ result.1 = true ∧ result.2.fd = a.fd ∧
      Agrees (fun _ => result.2.volumeReady = true) result.2 t)

theorem Settles.ends {result : Bool × Audio} (h : Settles done s a result)
    (hdone : a.volumeReady = true → ∀ i, done i) : Ends s a result := by
  obtain ⟨commands, t, hwrote, hfollow, hlost | ⟨hsent, hfd, hready, hagrees⟩⟩ := h
  · exact ⟨commands, t, hwrote, hfollow, .inl hlost⟩
  · exact ⟨commands, t, hwrote, hfollow, .inr ⟨hsent, hfd,
      hagrees.of_imp fun i hi _ => hdone (hready.symm.trans hi) i⟩⟩

/-- **What follows an acknowledgement**: the volume wanted meanwhile, or the processes. -/
theorem afterAcknowledge_ends (h : Agrees (fun _ => a.volumeReady = true) a s)
    (hopen : a.fd ≠ none) (hunique : Unique a) (hlength : a.processes.length = processesMax)
    (nowMs : ℕ) :
    Ends { s with
      waiting := none, confirmed := s.confirmed || decide (a.sentVolume = a.desiredVolume) }
      (acknowledge a) (afterAcknowledge (acknowledge a) nowMs) := by
  rw [afterAcknowledge]
  by_cases hwanted : (acknowledge a).desiredVolume ≠ (acknowledge a).appliedVolume
  · rw [if_pos hwanted]
    have hother : decide (a.sentVolume = a.desiredVolume) = false := by
      rw [decide_eq_false_iff_not]
      exact fun heq => hwanted heq.symm
    have hagrees : Agrees (fun _ => a.volumeReady = true) (acknowledge a) { s with
        waiting := none
        confirmed := s.confirmed || decide (a.sentVolume = a.desiredVolume) } := by
      refine ⟨rfl, ?_, h.intact, h.told, h.idle⟩
      show (s.confirmed || decide (a.sentVolume = a.desiredVolume)) = a.volumeReady
      rw [hother, Bool.or_false, h.confirmed]
    exact (sendVolume_settles hagrees hopen rfl nowMs).ends fun hready _ => hready
  · rw [if_neg hwanted]
    have hsame : decide (a.sentVolume = a.desiredVolume) = true := by
      rw [decide_eq_true_eq]
      exact (not_not.mp hwanted).symm
    rw [hsame, Bool.or_true]
    by_cases hready : a.volumeReady = true
    · have hskip : ¬ (!(acknowledge a).volumeReady) = true := by
        show ¬ (!a.volumeReady) = true
        rw [hready]
        exact Bool.false_ne_true
      rw [if_neg hskip]
      refine ⟨[], _, Wrote.refl _, rfl, .inr ⟨rfl, rfl, rfl, hready.symm, h.intact, h.told, ?_⟩⟩
      exact h.idle
    · have hfirst : (!(acknowledge a).volumeReady) = true := by
        show (!a.volumeReady) = true
        rw [Bool.not_eq_true] at hready
        rw [hready]
        rfl
      rw [if_pos hfirst]
      have hagrees : Agrees (fun j => j < 0) { acknowledge a with volumeReady := true }
          { s with waiting := none, confirmed := true } :=
        ⟨rfl, rfl, h.intact, fun j hj => absurd hj (Nat.not_lt_zero j), fun hidle => by cases hidle⟩
      obtain ⟨commands, t, hwrote, hfollow, hend⟩ := announceFrom_settles nowMs processesMax 0
        { acknowledge a with volumeReady := true } _ hagrees hopen rfl hunique
        (by rw [Nat.zero_add]; exact Nat.le_of_eq hlength)
      have hloop : announceAll { acknowledge a with volumeReady := true } nowMs =
        announceFrom nowMs processesMax 0 { acknowledge a with volumeReady := true } := rfl
      rw [hloop]
      rcases hs : announceFrom nowMs processesMax 0 { acknowledge a with volumeReady := true }
        with ⟨ok, b⟩
      rw [hs] at hwrote hend
      simp only
      rcases hend with ⟨hlost, hclosed⟩ | ⟨hsent, hfd, -, hagrees'⟩
      · rw [show ok = false from hlost]
        exact ⟨commands, t, ⟨hwrote.generation, hwrote.wire, hwrote.acknowledged, hwrote.length,
          hwrote.pids⟩, hfollow, .inl ⟨rfl, hclosed⟩⟩
      · rw [show ok = true from hsent]
        refine ⟨commands, t, ⟨hwrote.generation, hwrote.wire, hwrote.acknowledged, hwrote.length,
          hwrote.pids⟩, hfollow, .inr ⟨rfl, hfd, ?_⟩⟩
        exact ⟨hagrees'.waiting, hagrees'.confirmed, hagrees'.intact,
          fun i _ => hagrees'.told i trivial, hagrees'.idle⟩

end Sending

/-! ### What a call does -/

/-- The commands among the events. -/
def commandsOf (events : List Event) : List Command :=
  events.filterMap fun
    | .sent command => some command
    | _ => none

theorem commandsOf_sent (commands : List Command) :
    commandsOf (commands.map .sent) = commands := by
  rw [commandsOf, filterMap_map]
  exact List.filterMap_some

theorem acknowledgements_sent (commands : List Command) :
    acknowledgements (commands.map .sent) = [] := by
  rw [acknowledgements, filterMap_map]
  exact List.filterMap_eq_nil_iff.mpr fun _ _ => rfl

theorem commandsOf_append (events events' : List Event) :
    commandsOf (events ++ events') = commandsOf events ++ commandsOf events' :=
  filterMap_append

theorem acknowledgements_append (events events' : List Event) :
    acknowledgements (events ++ events') = acknowledgements events ++ acknowledgements events' :=
  filterMap_append

/-- A call on a connection: what it sent and read is `events`, the service's side follows, and
the client agrees with it unless the connection was closed. -/
structure Outcome (s : Service) (a b : Audio) (events : List Event) : Prop where
  generation : b.generation = a.generation
  wire : b.wire = a.wire ++ (commandsOf events).map (Prod.mk a.generation)
  acknowledged : b.acknowledged =
    a.acknowledged ++ (acknowledgements events).map (Prod.mk a.generation)
  length : b.processes.length = a.processes.length
  unique : Unique b
  closed : b.fd = none → Closed b
  followed : ∃ t, Service.follow events s = some t ∧
    (b.fd ≠ none → Agrees (fun _ => b.volumeReady = true) b t)

section Calls

variable {a b : Audio} {s : Service}

theorem sentSince_eq {commands : List Command}
    (h : b.wire = a.wire ++ commands.map (Prod.mk a.generation)) :
    sentSince a b = (commands.map Event.sent).map (Prod.mk a.generation) := by
  rw [sentSince, h, List.drop_left, List.map_map, List.map_map]
  rfl

theorem outcome_nil (hgeneration : b.generation = a.generation) (hwire : b.wire = a.wire)
    (hacknowledged : b.acknowledged = a.acknowledged)
    (hlength : b.processes.length = a.processes.length) (hunique : Unique b)
    (hclosed : b.fd = none → Closed b)
    (hagrees : b.fd ≠ none → Agrees (fun _ => b.volumeReady = true) b s) : Outcome s a b [] where
  generation := hgeneration
  wire := hwire.trans (append_nil _).symm
  acknowledged := hacknowledged.trans (append_nil _).symm
  length := hlength
  unique := hunique
  closed := hclosed
  followed := ⟨s, rfl, hagrees⟩

theorem outcome_of_ends {result : Bool × Audio} (h : Ends s a result) (hopen : a.fd ≠ none)
    (hunique : Unique a) : ∃ events, sentSince a result.2 = events.map (Prod.mk a.generation) ∧
      Outcome s a result.2 events := by
  obtain ⟨commands, t, hwrote, hfollow, hend⟩ := h
  refine ⟨commands.map .sent, sentSince_eq hwrote.wire, ?_⟩
  exact
    { generation := hwrote.generation
      wire := by rw [commandsOf_sent, hwrote.wire]
      acknowledged := by
        rw [acknowledgements_sent, hwrote.acknowledged, map_nil, append_nil]
      length := hwrote.length
      unique := hunique.of_wrote hwrote
      closed := by
        intro hnone
        rcases hend with ⟨-, hclosed⟩ | ⟨-, hfd, -⟩
        · exact hclosed
        · exact absurd (hfd.symm.trans hnone) hopen
      followed := by
        refine ⟨t, hfollow, fun hsome => ?_⟩
        rcases hend with ⟨-, hclosed⟩ | ⟨-, -, hagrees⟩
        · exact absurd hclosed.fd hsome
        · exact hagrees }

/-- What follows a part of a call. -/
theorem Outcome.prepend {c : Audio} {t : Service} (events : List Event) {events' : List Event}
    (hgeneration : b.generation = a.generation)
    (hwire : b.wire = a.wire ++ (commandsOf events).map (Prod.mk a.generation))
    (hacknowledged : b.acknowledged =
      a.acknowledged ++ (acknowledgements events).map (Prod.mk a.generation))
    (hlength : b.processes.length = a.processes.length)
    (hfollow : Service.follow events s = some t) (h : Outcome t b c events') :
    Outcome s a c (events ++ events') where
  generation := h.generation.trans hgeneration
  wire := by
    rw [h.wire, hwire, hgeneration, commandsOf_append, map_append, append_assoc]
  acknowledged := by
    rw [h.acknowledged, hacknowledged, hgeneration, acknowledgements_append, map_append,
      append_assoc]
  length := h.length.trans hlength
  unique := h.unique
  closed := h.closed
  followed := by
    obtain ⟨u, hfollow', hagrees⟩ := h.followed
    exact ⟨u, follow_append hfollow hfollow', hagrees⟩

theorem outcome_closed (hopen : a.fd ≠ none) (hunique : Unique a) (nowMs : ℕ) :
    Outcome s a (lose a nowMs) [] := by
  have hwrote := wrote_lose a nowMs
  have hclosed := closed_lose hopen nowMs
  refine outcome_nil hwrote.generation ?_ hwrote.acknowledged hwrote.length
    (hunique.of_wrote hwrote) (fun _ => hclosed) fun hsome => absurd hclosed.fd hsome
  exact hwrote.wire.trans (append_nil _)

/-- A reply that was not waited for closes the connection. -/
theorem outcome_refused (h : Agrees (fun _ => a.volumeReady = true) a s) (hopen : a.fd ≠ none)
    (hunique : Unique a) (bytes : List UInt8) (nowMs : ℕ) :
    Outcome s a (lose a nowMs) [.refused bytes] where
  __ := outcome_closed (s := s) hopen hunique nowMs
  followed := ⟨{ s with refused := true }, follow_singleton (take_refused h.intact bytes),
    fun hsome => absurd (closed_lose hopen nowMs).fd hsome⟩

/-- The reply that was waited for, and what is sent then. -/
theorem outcome_acknowledged (h : Agrees (fun _ => a.volumeReady = true) a s) (hopen : a.fd ≠ none)
    (hunique : Unique a) (hlength : a.processes.length = processesMax) {bytes : List UInt8}
    (hwaiting : a.volumeWaiting = true) (htext : bytes = volumeText a.sentVolume) (nowMs : ℕ) :
    ∃ sent, sentSince a (afterAcknowledge (acknowledge a) nowMs).2 =
        sent.map (Prod.mk a.generation) ∧
      Outcome s a (afterAcknowledge (acknowledge a) nowMs).2
        (.acknowledged a.sentVolume a.desiredVolume bytes :: sent) := by
  have hlevel : s.waiting = some a.sentVolume := by
    rw [h.waiting, if_pos hwaiting]
  have htake := take_acknowledged h.intact hlevel htext a.desiredVolume
  obtain ⟨sent, hsince, hsent⟩ := outcome_of_ends (a := acknowledge a)
    (afterAcknowledge_ends h hopen hunique hlength nowMs) hopen hunique
  refine ⟨sent, hsince, ?_⟩
  exact .prepend (b := acknowledge a)
    [.acknowledged a.sentVolume a.desiredVolume bytes] rfl (append_nil _).symm rfl rfl
    (follow_singleton htake) hsent

/-- **The replies of a dispatch**, one after the other. -/
theorem readLoop_outcome (nowMs count : ℕ) : ∀ (reads : List Read) (a : Audio) (s : Service),
    Agrees (fun _ => a.volumeReady = true) a s → a.fd ≠ none → Unique a →
      a.processes.length = processesMax →
      ∃ events, readEvents nowMs count reads a = events.map (Prod.mk a.generation) ∧
        Outcome s a (readLoop nowMs count reads a) events := by
  induction count with
  | zero =>
    intro reads a s h hopen hunique _
    rw [readEvents, readLoop]
    exact ⟨[], rfl, outcome_nil rfl rfl rfl rfl hunique (fun hnone => absurd hnone hopen)
      fun _ => h⟩
  | succ count ih =>
    intro reads a s h hopen hunique hlength
    have hstill : Outcome s a a [] := outcome_nil rfl rfl rfl rfl hunique
      (fun hnone => absurd hnone hopen) fun _ => h
    cases reads with
    | nil => exact ⟨[], rfl, hstill⟩
    | cons read reads =>
      cases read with
      | interrupted => exact ih reads a s h hopen hunique hlength
      | empty => exact ⟨[], rfl, hstill⟩
      | closed => exact ⟨[], rfl, outcome_closed hopen hunique nowMs⟩
      | packet bytes =>
        rw [readEvents, readLoop]
        by_cases hbad : (!a.volumeWaiting || decide (bytes ≠ volumeText a.sentVolume)) = true
        · rw [if_pos hbad, if_pos hbad]
          exact ⟨[.refused bytes], rfl, outcome_refused h hopen hunique bytes nowMs⟩
        · obtain ⟨hwaiting, htext⟩ : a.volumeWaiting = true ∧ bytes = volumeText a.sentVolume := by
            rw [Bool.or_eq_true, not_or, decide_eq_true_eq, not_not] at hbad
            exact ⟨by simpa using hbad.1, hbad.2⟩
          rw [if_neg hbad, if_neg hbad]
          obtain ⟨_, _, -, -, hend⟩ := afterAcknowledge_ends h hopen hunique hlength nowMs
          obtain ⟨sent, hsince, hout⟩ :=
            outcome_acknowledged h hopen hunique hlength hwaiting htext nowMs
          rcases hs : afterAcknowledge (acknowledge a) nowMs with ⟨ok, b⟩
          rw [hs] at hend hsince hout
          simp only
          rcases hend with ⟨hlost, -⟩ | ⟨hsent, hfd, -⟩
          · rw [show ok = false from hlost, if_neg Bool.false_ne_true, if_neg Bool.false_ne_true,
              hsince, append_nil]
            exact ⟨_, rfl, hout⟩
          · have hopen' : b.fd ≠ none := by
              rw [show b.fd = a.fd from hfd]
              exact hopen
            obtain ⟨t, hfollow, hagrees⟩ := hout.followed
            obtain ⟨events, hevents, hrest⟩ := ih reads b t (hagrees hopen') hopen' hout.unique
              (hout.length.trans hlength)
            rw [show ok = true from hsent, if_pos rfl, if_pos rfl, hsince, hevents,
              show b.generation = a.generation from hout.generation, ← map_append,
              ← List.map_cons]
            exact ⟨_, rfl, .prepend _ hout.generation hout.wire hout.acknowledged hout.length hfollow
              hrest⟩

/-- Between two calls: the table is sound, and an open connection is agreed on. -/
structure Known (a : Audio) (s : Service) : Prop where
  length : a.processes.length = processesMax
  unique : Unique a
  closed : a.fd = none → Closed a
  agrees : a.fd ≠ none → Agrees (fun _ => a.volumeReady = true) a s

/-- A call that only sends. -/
def Steps (s : Service) (a b : Audio) : Prop :=
  ∃ events, sentSince a b = events.map (Prod.mk a.generation) ∧ Outcome s a b events

theorem steps_of_quiet (hgeneration : b.generation = a.generation) (hwire : b.wire = a.wire)
    (hacknowledged : b.acknowledged = a.acknowledged) (hlength : a.processes.length = processesMax)
    (h : Known b s) : Steps s a b := by
  refine ⟨[], ?_, outcome_nil hgeneration hwire hacknowledged (h.length.trans hlength.symm)
    h.unique h.closed h.agrees⟩
  rw [sentSince, hwire, List.drop_length]
  rfl

theorem setVolume_steps (h : Known a s) (level nowMs : ℕ) :
    Steps s a (setVolume a level nowMs) := by
  have hlevel : Known { a with desiredVolume := level } s := by
    refine ⟨h.length, h.unique, fun hnone => ?_, fun hopen => ?_⟩
    · have hclosed := h.closed hnone
      exact ⟨hnone, hclosed.waiting, hclosed.ready, hclosed.announced⟩
    · have hagrees := h.agrees hopen
      exact ⟨hagrees.waiting, hagrees.confirmed, hagrees.intact, hagrees.told, hagrees.idle⟩
  rw [setVolume]
  split
  · exact steps_of_quiet rfl rfl rfl h.length h
  · simp only
    split
    · rename_i hsend
      have hwaiting : a.volumeWaiting = false := by simpa using hsend.2.1
      have hends := (sendVolume_settles (hlevel.agrees hsend.1) hsend.1 hwaiting nowMs).ends
        fun hready _ => hready
      obtain ⟨events, hevents, houtcome⟩ := outcome_of_ends hends hsend.1 hlevel.unique
      exact ⟨events, hevents, houtcome.generation, houtcome.wire, houtcome.acknowledged,
        houtcome.length, houtcome.unique, houtcome.closed, houtcome.followed⟩
    · exact steps_of_quiet rfl rfl rfl h.length hlevel

theorem close_steps (h : Known a s) : Steps s a (disconnect a) := by
  by_cases hopen : a.fd = none
  · have hsame : disconnect a = a := by rw [disconnect, if_pos hopen]
    rw [hsame]
    exact steps_of_quiet rfl rfl rfl h.length h
  · have hwrote := wrote_disconnect a
    have hclosed := closed_disconnect hopen
    refine steps_of_quiet hwrote.generation (hwrote.wire.trans (append_nil _))
      hwrote.acknowledged h.length ⟨hwrote.length.trans h.length, h.unique.of_wrote hwrote,
        fun _ => hclosed, fun hsome => absurd hclosed.fd hsome⟩

variable {i : ℕ} {pid : ℤ} {p : Process}

theorem entry_of_findProcess (h : findProcess a pid = some i) :
    0 < pid ∧ i < a.processes.length ∧ (entry a i).pid = pid := by
  rw [findProcess] at h
  split at h
  · rename_i hpos
    obtain ⟨hi, hpid, -⟩ := List.findIdx?_eq_some_iff_getElem.mp h
    refine ⟨hpos, hi, ?_⟩
    rw [entry, List.getD_eq_getElem _ _ hi]
    exact of_decide_eq_true hpid
  · cases h

theorem entry_ne_of_findProcess (hpos : 0 < pid) (h : findProcess a pid = none) (i : ℕ) :
    (entry a i).pid ≠ pid := by
  intro hpid
  have hi : i < a.processes.length := lt_of_pid (by omega : (entry a i).pid ≠ 0)
  rw [findProcess, if_pos hpos, List.findIdx?_eq_none_iff] at h
  have hother := h a.processes[i] (List.getElem_mem hi)
  rw [entry, List.getD_eq_getElem _ _ hi] at hpid
  rw [hpid, decide_eq_false_iff_not] at hother
  exact hother rfl

theorem unique_clear (h : Unique a) (hi : i < a.processes.length) : Unique (setEntry a i {}) := by
  intro j k hj hjk
  rw [entry_setEntry hi] at hj hjk
  rw [entry_setEntry hi] at hjk
  by_cases hji : j = i
  · rw [if_pos hji] at hj
    exact absurd rfl hj
  · rw [if_neg hji] at hj hjk
    by_cases hki : k = i
    · rw [if_pos hki] at hjk
      exact absurd hjk hj
    · rw [if_neg hki] at hjk
      exact h j k hj hjk

theorem Known.setEntry (h : Known a s) (hi : i < a.processes.length)
    (hunique : Unique (setEntry a i p))
    (hidle : (a.fd = none ∨ a.volumeReady = false) → p.announced = false)
    (htold : a.fd ≠ none → a.volumeReady = true → p.pid ≠ 0 → p.announced = true ∧
      p.toldAudible = p.audible ∧ s.told p.pid = some (announcement p, some p.audible)) :
    Known (setEntry a i p) s := by
  refine ⟨(length_setEntry p).trans h.length, hunique, fun hnone => ?_, fun hopen => ?_⟩
  · have hclosed := h.closed hnone
    refine ⟨hnone, hclosed.waiting, hclosed.ready, fun j => ?_⟩
    rw [entry_setEntry hi]
    split
    · exact hidle (.inl hnone)
    · exact hclosed.announced j
  · have hagrees := h.agrees hopen
    refine ⟨hagrees.waiting, hagrees.confirmed, hagrees.intact, fun j hready hj => ?_,
      fun hready j => ?_⟩
    · rw [entry_setEntry hi] at hj ⊢
      split
      · rename_i hji
        rw [if_pos hji] at hj
        exact htold hopen hready hj
      · rename_i hji
        rw [if_neg hji] at hj
        exact hagrees.told j hready hj
    · rw [entry_setEntry hi]
      split
      · exact hidle (.inr hready)
      · exact hagrees.idle hready j

theorem steps_setEntry (h : Known a s) (hknown : Known (setEntry a i p) s) :
    Steps s a (setEntry a i p) :=
  steps_of_quiet rfl rfl rfl h.length hknown

theorem Known.ready_of_announced (h : Known a s) (hopen : a.fd ≠ none)
    (hannounced : (entry a i).announced = true) : a.volumeReady = true := by
  by_contra hready
  rw [Bool.not_eq_true] at hready
  rw [(h.agrees hopen).idle hready i] at hannounced
  cases hannounced

theorem known_lose (h : Known a s) (hopen : a.fd ≠ none) (nowMs : ℕ) : Known (lose a nowMs) s :=
  have hwrote := wrote_lose a nowMs
  ⟨hwrote.length.trans h.length, h.unique.of_wrote hwrote, fun _ => closed_lose hopen nowMs,
    fun hsome => absurd (closed_lose hopen nowMs).fd hsome⟩

theorem gone_steps (h : Known a s) (pid : ℤ) (nowMs : ℕ) : Steps s a (gone a pid nowMs) := by
  rw [gone]
  cases hfound : findProcess a pid with
  | none => exact steps_of_quiet rfl rfl rfl h.length h
  | some i =>
    obtain ⟨hpos, hi, hpid⟩ := entry_of_findProcess hfound
    have hunique := unique_clear h.unique hi
    simp only
    by_cases hsend : a.fd ≠ none ∧ (entry a i).announced = true
    · rw [if_pos hsend]
      have hready := h.ready_of_announced hsend.1 hsend.2
      have hagrees := h.agrees hsend.1
      obtain ⟨-, -, htold⟩ := hagrees.told i hready (by omega)
      rcases sendText_cases a (.gone pid) nowMs with hlost | hsent
      · have hwrote := wrote_lose a nowMs
        have hi' : i < (lose a nowMs).processes.length := by
          rw [hwrote.length]
          exact hi
        have hknown := (known_lose h hsend.1 nowMs).setEntry hi'
          (unique_clear (h.unique.of_wrote hwrote) hi') (fun _ => rfl)
          fun _ _ hzero => absurd rfl hzero
        rw [hlost]
        exact steps_of_quiet hwrote.generation (hwrote.wire.trans (append_nil _))
          hwrote.acknowledged h.length hknown
      · have htake := follow_singleton (take_gone hagrees.intact (Option.isSome_of_eq_some htold))
        rw [hpid] at htake
        rw [hsent]
        refine ⟨[.sent (.gone pid)], @sentSince_eq a _ [.gone pid] rfl, ?_⟩
        refine ⟨rfl, rfl, (append_nil _).symm, length_setEntry _, hunique,
          fun hnone => absurd hnone hsend.1, _, htake, fun _ => ?_⟩
        refine ⟨hagrees.waiting, hagrees.confirmed, hagrees.intact, fun j hready' hj => ?_,
          fun hidle => absurd (hready.symm.trans hidle) (by decide)⟩
        have hentry : entry (setEntry (put a (.gone pid)) i {}) j =
            if j = i then {} else entry a j := entry_setEntry hi _ j
        rw [hentry] at hj ⊢
        by_cases hji : j = i
        · rw [if_pos hji] at hj
          exact absurd rfl hj
        · rw [if_neg hji] at hj ⊢
          have hne : (entry a j).pid ≠ pid := fun heq =>
            hji (h.unique j i hj (heq.trans hpid.symm))
          obtain ⟨hmarked, hsame, htold'⟩ := hagrees.told j hready hj
          exact ⟨hmarked, hsame, (Function.update_of_ne hne ..).trans htold'⟩
    · rw [if_neg hsend]
      refine steps_setEntry h (h.setEntry hi hunique (fun _ => rfl) fun _ _ hzero => ?_)
      exact absurd rfl hzero

theorem unique_setEntry (h : Unique a) (hi : i < a.processes.length)
    (hown : ∀ j, (entry a j).pid = p.pid → j = i) : Unique (setEntry a i p) := by
  intro j k hj hjk
  rw [entry_setEntry hi] at hj hjk
  rw [entry_setEntry hi] at hjk
  by_cases hji : j = i
  · rw [if_pos hji] at hjk
    by_cases hki : k = i
    · rw [hji, hki]
    · rw [if_neg hki] at hjk
      exact absurd (hown k hjk.symm) hki
  · rw [if_neg hji] at hj hjk
    by_cases hki : k = i
    · rw [if_pos hki] at hjk
      exact absurd (hown j hjk) hji
    · rw [if_neg hki] at hjk
      exact h j k hj hjk

theorem setAudible_steps (h : Known a s) (pid : ℤ) (audible : Bool) (nowMs : ℕ) :
    Steps s a (setAudible a pid audible nowMs) := by
  rw [setAudible]
  cases hfound : findProcess a pid with
  | none => exact steps_of_quiet rfl rfl rfl h.length h
  | some i =>
    obtain ⟨hpos, hi, hpid⟩ := entry_of_findProcess hfound
    have hunique : Unique (setEntry a i { entry a i with audible := audible }) :=
      unique_setEntry h.unique hi fun j hj =>
        h.unique j i (by rw [hj]; show (entry a i).pid ≠ 0; omega) hj
    have hentry : ∀ j, entry (setEntry a i { entry a i with audible := audible }) j =
        if j = i then { entry a i with audible := audible } else entry a j :=
      fun j => entry_setEntry hi _ j
    have hown := hentry i
    rw [if_pos rfl] at hown
    simp only
    rw [hown]
    split
    · rename_i hnews
      have hsend : a.fd ≠ none ∧ (entry a i).announced = true ∧
        (entry a i).toldAudible ≠ audible := hnews
      have hready := h.ready_of_announced hsend.1 hsend.2.1
      have hagrees := h.agrees hsend.1
      obtain ⟨-, -, htold⟩ := hagrees.told i hready (by omega)
      have hothers : Agrees (fun j => a.volumeReady = true ∧ j ≠ i)
          (setEntry a i { entry a i with audible := audible }) s := by
        refine ⟨hagrees.waiting, hagrees.confirmed, hagrees.intact, fun j hdone hj => ?_,
          fun hidle => absurd (hready.symm.trans hidle) (by decide)⟩
        rw [hentry, if_neg hdone.2] at hj ⊢
        exact hagrees.told j hdone.1 hj
      have htell := @tell_settles _ _ (fun _ => a.volumeReady = true) i _ hothers hsend.1 hready
        hunique (by rw [hown]; show (entry a i).pid ≠ 0; omega) (by rw [hown]; exact hsend.2.1)
        (by rw [hown]; exact htold) nowMs
      obtain ⟨events, hevents, houtcome⟩ :=
        outcome_of_ends (htell.ends fun hready _ => hready) hsend.1 hunique
      exact ⟨events, hevents, houtcome.generation, houtcome.wire, houtcome.acknowledged,
        houtcome.length.trans (length_setEntry _), houtcome.unique, houtcome.closed,
        houtcome.followed⟩
    · rename_i hsend
      refine steps_setEntry h (h.setEntry hi hunique (fun hidle => ?_) fun hopen hready hp => ?_)
      · rcases hidle with hnone | hidle
        · exact (h.closed hnone).announced i
        · by_cases hopen : a.fd = none
          · exact (h.closed hopen).announced i
          · exact (h.agrees hopen).idle hidle i
      · -- The service knows the value already.
        obtain ⟨hmarked, hsame, htold⟩ := (h.agrees hopen).told i hready hp
        have hvalue : (entry a i).toldAudible = audible := by
          by_contra hne
          exact hsend ⟨hopen, hmarked, hne⟩
        refine ⟨hmarked, hvalue, ?_⟩
        rw [← hsame, hvalue] at htold
        exact htold

theorem entry_of_place (h : Unique a) (hpos : 0 < pid)
    (hplace : (findProcess a pid).or (freeProcess a) = some i) :
    i < a.processes.length ∧ ∀ j, (entry a j).pid = pid → j = i := by
  cases hfound : findProcess a pid with
  | some k =>
    rw [hfound, Option.some_or] at hplace
    obtain rfl := Option.some.inj hplace
    obtain ⟨-, hi, hpid⟩ := entry_of_findProcess hfound
    exact ⟨hi, fun j hj => h j k (by omega) (hj.trans hpid.symm)⟩
  | none =>
    rw [hfound, Option.none_or, freeProcess] at hplace
    obtain ⟨hi, -⟩ := List.findIdx?_eq_some_iff_getElem.mp hplace
    exact ⟨hi, fun j hj => absurd hj (entry_ne_of_findProcess hpos hfound j)⟩

theorem place_steps (h : Known a s) (hi : i < a.processes.length) (hpid : p.pid ≠ 0)
    (hfresh : p.announced = false) (hown : ∀ j, (entry a j).pid = p.pid → j = i) (nowMs : ℕ) :
    Steps s a (place a i p nowMs) := by
  have hunique := unique_setEntry h.unique hi hown
  have hentry : ∀ j, entry (setEntry a i p) j = if j = i then p else entry a j :=
    fun j => entry_setEntry hi p j
  have hplaced := hentry i
  rw [if_pos rfl] at hplaced
  rw [place]
  by_cases hsend : (setEntry a i p).fd ≠ none ∧ (setEntry a i p).volumeReady = true
  · have hready : a.volumeReady = true := hsend.2
    have hagrees := h.agrees hsend.1
    have hothers : Agrees (fun j => a.volumeReady = true ∧ j ≠ i) (setEntry a i p) s := by
      refine ⟨hagrees.waiting, hagrees.confirmed, hagrees.intact, fun j hdone hj => ?_,
        fun hidle => absurd (hready.symm.trans hidle) (by decide)⟩
      rw [hentry, if_neg hdone.2] at hj ⊢
      exact hagrees.told j hdone.1 hj
    have hannounce := announce_settles hothers hsend.1 hready hunique
      (by rw [hplaced]; exact hpid) nowMs
    obtain ⟨events, hevents, houtcome⟩ :=
      outcome_of_ends (hannounce.ends fun hready _ => hready) hsend.1 hunique
    rw [if_pos hsend]
    exact ⟨events, hevents, houtcome.generation, houtcome.wire, houtcome.acknowledged,
      houtcome.length.trans (length_setEntry _), houtcome.unique, houtcome.closed,
      houtcome.followed⟩
  · rw [if_neg hsend]
    refine steps_setEntry h (h.setEntry hi hunique (fun _ => hfresh) fun hopen hready _ => ?_)
    exact absurd ⟨hopen, hready⟩ hsend

/-- A process is placed in its entry or a free one. -/
theorem placed_steps (h : Known a s) (hpid : 0 < p.pid) (hfresh : p.announced = false)
    (hplace : (findProcess a p.pid).or (freeProcess a) = some i) (nowMs : ℕ) :
    Steps s a (place a i p nowMs) := by
  obtain ⟨hi, hown⟩ := entry_of_place h.unique hpid hplace
  exact place_steps h hi (by omega) hfresh hown nowMs

theorem app_steps (h : Known a s) (pid : ℤ) (uid : ℕ) (appId : List UInt8) (nowMs : ℕ) :
    Steps s a (app a pid uid appId nowMs).2 := by
  rw [app]
  split
  · exact steps_of_quiet rfl rfl rfl h.length h
  · rename_i hvalid
    have hpos : 0 < pid := by
      by_contra hle
      exact hvalid (by simp [Int.not_lt.mp hle])
    split
    · exact steps_of_quiet rfl rfl rfl h.length h
    · rename_i i hplace
      exact placed_steps h hpos rfl hplace nowMs

theorem clock_steps (h : Known a s) (pid : ℤ) (uid nowMs : ℕ) :
    Steps s a (clock a pid uid nowMs).2 := by
  rw [clock]
  split
  · exact steps_of_quiet rfl rfl rfl h.length h
  · rename_i hvalid
    have hpos : 0 < pid := by
      by_contra hle
      exact hvalid (by simp [Int.not_lt.mp hle])
    split
    · exact steps_of_quiet rfl rfl rfl h.length h
    · rename_i i hplace
      exact placed_steps h hpos rfl hplace nowMs

end Calls

/-! ### Every run -/

/-- The commands of a log, and the acknowledgements, with their connections. -/
def sentOf (x : ℕ × Event) : Option (ℕ × Command) :=
  match x.2 with
  | .sent command => some (x.1, command)
  | _ => none

def acknowledgedOf (x : ℕ × Event) : Option (ℕ × ℕ) :=
  match x.2 with
  | .acknowledged level _ _ => some (x.1, level)
  | _ => none

/-- What holds between two calls: the log is what the client sent and took as acknowledged,
and the service's side follows every connection. -/
structure Inv (s : Link) : Prop where
  past : ∀ x ∈ s.log, x.1 ≤ s.audio.generation
  followed : ∀ g, ∃ t, Service.follow (onConnection g s.log) {} = some t ∧
    (g = s.audio.generation → Known s.audio t)
  sent : s.log.filterMap sentOf = s.audio.wire
  acknowledged : s.log.filterMap acknowledgedOf = s.audio.acknowledged

section Runs

variable {s : Link} {a b : Audio} {t : Service} {events : List Event}

theorem onConnection_append (g : ℕ) (log log' : List (ℕ × Event)) :
    onConnection g (log ++ log') = onConnection g log ++ onConnection g log' :=
  filterMap_append

theorem onConnection_map (g g' : ℕ) (events : List Event) :
    onConnection g (events.map (Prod.mk g')) = if g' = g then events else [] := by
  rw [onConnection, filterMap_map]
  split
  · rename_i hg
    subst hg
    have hsame :
        ((fun x : ℕ × Event => if x.1 = g' then some x.2 else none) ∘ Prod.mk g') = some := by
      funext event
      exact if_pos rfl
    rw [hsame, List.filterMap_some]
  · rename_i hg
    exact List.filterMap_eq_nil_iff.mpr fun event _ => if_neg hg

theorem sentOf_map (g : ℕ) (events : List Event) :
    (events.map (Prod.mk g)).filterMap sentOf = (commandsOf events).map (Prod.mk g) := by
  rw [commandsOf, filterMap_map, List.map_filterMap]
  refine List.filterMap_congr fun event _ => ?_
  cases event with
  | sent command => rfl
  | acknowledged level desired text => rfl
  | refused text => rfl

theorem acknowledgedOf_map (g : ℕ) (events : List Event) :
    (events.map (Prod.mk g)).filterMap acknowledgedOf =
      (acknowledgements events).map (Prod.mk g) := by
  rw [acknowledgements, filterMap_map, List.map_filterMap]
  refine List.filterMap_congr fun event _ => ?_
  cases event with
  | sent command => rfl
  | acknowledged level desired text => rfl
  | refused text => rfl

theorem Inv.extend (h : Inv s) (hwire : a.wire = s.audio.wire)
    (hacknowledged : a.acknowledged = s.audio.acknowledged)
    (hgeneration : s.audio.generation ≤ a.generation)
    (hlength : a.processes.length = processesMax)
    (hfollow : Service.follow (onConnection a.generation s.log) {} = some t)
    (houtcome : Outcome t a b events) :
    Inv { audio := b, log := s.log ++ events.map (Prod.mk a.generation) } where
  past := by
    intro x hx
    show x.1 ≤ b.generation
    rw [houtcome.generation]
    rcases List.mem_append.mp hx with hx | hx
    · exact Nat.le_trans (h.past x hx) hgeneration
    · obtain ⟨event, -, rfl⟩ := List.mem_map.mp hx
      exact Nat.le_refl _
  followed := by
    intro g
    rw [onConnection_append, onConnection_map]
    by_cases hg : a.generation = g
    · subst hg
      obtain ⟨u, hevents, hagrees⟩ := houtcome.followed
      rw [if_pos rfl]
      exact ⟨u, follow_append hfollow hevents, fun _ => ⟨houtcome.length.trans hlength,
        houtcome.unique, houtcome.closed, hagrees⟩⟩
    · obtain ⟨u, hbefore, -⟩ := h.followed g
      rw [if_neg hg, append_nil]
      exact ⟨u, hbefore, fun hlast => absurd (hlast.trans houtcome.generation).symm hg⟩
  sent := by
    rw [filterMap_append, sentOf_map, h.sent, houtcome.wire, hwire]
  acknowledged := by
    rw [filterMap_append, acknowledgedOf_map, h.acknowledged, houtcome.acknowledged,
      hacknowledged]

theorem connect_outcome (h : Known a t) (hclosed : a.fd = none) (fd nowMs : ℕ) :
    ∃ events, sentSince a (connectService a (some fd) nowMs) =
        events.map (Prod.mk (a.generation + 1)) ∧
      Outcome {} { a with fd := some fd, quiet := false, generation := a.generation + 1 }
        (connectService a (some fd) nowMs) events := by
  have hidle := h.closed hclosed
  have hagrees : Agrees (fun _ => a.volumeReady = true)
      { a with fd := some fd, quiet := false, generation := a.generation + 1 } {} := by
    refine ⟨?_, hidle.ready.symm, rfl, fun i hready => ?_, fun _ => hidle.announced⟩
    · show none = if a.volumeWaiting = true then _ else _
      rw [hidle.waiting]
      rfl
    · rw [hidle.ready] at hready
      cases hready
  have hends := (sendVolume_settles hagrees (fun hnone => by cases hnone) hidle.waiting nowMs).ends
    fun hready _ => hready
  exact outcome_of_ends hends (fun hnone => by cases hnone) h.unique

theorem Inv.steps (h : Inv s) (hwire : a.wire = s.audio.wire)
    (hacknowledged : a.acknowledged = s.audio.acknowledged)
    (hgeneration : a.generation = s.audio.generation) (hknown : Known a t)
    (hfollow : Service.follow (onConnection a.generation s.log) {} = some t)
    (hsteps : Steps t a b) : Inv { audio := b, log := s.log ++ sentSince a b } := by
  obtain ⟨events, hevents, houtcome⟩ := hsteps
  rw [hevents]
  exact h.extend hwire hacknowledged (Nat.le_of_eq hgeneration.symm) hknown.length hfollow houtcome

/-- **A dispatch** connects, gives up an answer that is late, or reads the replies. -/
theorem Inv.dispatch (h : Inv s) (hwire : a.wire = s.audio.wire)
    (hacknowledged : a.acknowledged = s.audio.acknowledged)
    (hgeneration : a.generation = s.audio.generation) (hknown : Known a t)
    (hfollow : Service.follow (onConnection a.generation s.log) {} = some t)
    (fd : Option ℕ) (reads : List Read) (nowMs : ℕ) :
    Inv { audio := dispatch a fd reads nowMs,
          log := s.log ++ (Op.dispatch fd reads).events a nowMs } := by
  have hquiet : ∀ b, Steps t a b → Inv { audio := b, log := s.log ++ sentSince a b } :=
    fun b hsteps => h.steps hwire hacknowledged hgeneration hknown hfollow hsteps
  have hsame := hquiet a (steps_of_quiet rfl rfl rfl hknown.length hknown)
  rw [Op.events]
  by_cases hskip : a.fd = none ∨ (!a.enabled) = true ∨
      a.volumeWaiting = true ∧ nowMs ≥ a.volumeDeadlineMs
  · rw [if_pos hskip, SessionAudio.dispatch]
    by_cases hdisabled : (!a.enabled) = true
    · rw [if_pos hdisabled]
      exact hsame
    · rw [if_neg hdisabled]
      by_cases hnone : a.fd = none
      · rw [if_pos hnone]
        by_cases hdue : nowMs ≥ a.retryAtMs
        · rw [if_pos hdue]
          cases fd with
          | none =>
            have hclosed := hknown.closed hnone
            refine hquiet _ (steps_of_quiet rfl rfl rfl hknown.length ?_)
            exact ⟨hknown.length, hknown.unique, fun _ => ⟨hclosed.fd, hclosed.waiting,
              hclosed.ready, hclosed.announced⟩, fun hsome => absurd hnone hsome⟩
          | some fd =>
            obtain ⟨events, hevents, houtcome⟩ := connect_outcome hknown hnone fd nowMs
            have hfresh : onConnection (a.generation + 1) s.log = [] := by
              refine List.filterMap_eq_nil_iff.mpr fun x hx => if_neg ?_
              have hpast := h.past x hx
              omega
            rw [hevents]
            refine h.extend (a := { a with
              fd := some fd, quiet := false, generation := a.generation + 1 }) hwire hacknowledged
              ?_ hknown.length ?_ houtcome
            · show s.audio.generation ≤ a.generation + 1
              omega
            · show Service.follow (onConnection (a.generation + 1) s.log) {} = _
              rw [hfresh]
              rfl
        · rw [if_neg hdue]
          exact hsame
      · obtain ⟨hwaiting, hlate⟩ := (hskip.resolve_left hnone).resolve_left hdisabled
        have hexpired : (a.volumeWaiting && decide (nowMs ≥ a.volumeDeadlineMs)) = true := by
          rw [Bool.and_eq_true, decide_eq_true_eq]
          exact ⟨hwaiting, hlate⟩
        have hwrote := wrote_lose a nowMs
        rw [if_neg hnone, if_pos hexpired]
        exact hquiet _ (steps_of_quiet hwrote.generation (hwrote.wire.trans (append_nil _))
          hwrote.acknowledged hknown.length (known_lose hknown hnone nowMs))
  · rw [not_or, not_or] at hskip
    obtain ⟨hopen, henabled, htimely⟩ := hskip
    have hexpired : ¬ (a.volumeWaiting && decide (nowMs ≥ a.volumeDeadlineMs)) = true := by
      rw [Bool.and_eq_true, decide_eq_true_eq]
      exact htimely
    have hskip' : ¬ (a.fd = none ∨ (!a.enabled) = true ∨
        a.volumeWaiting = true ∧ nowMs ≥ a.volumeDeadlineMs) := by
      rw [not_or, not_or]
      exact ⟨hopen, henabled, htimely⟩
    obtain ⟨events, hevents, houtcome⟩ := readLoop_outcome nowMs readsMax reads a t
      (hknown.agrees hopen) hopen hknown.unique hknown.length
    rw [if_neg hskip', SessionAudio.dispatch, if_neg henabled, if_neg hopen, if_neg hexpired,
      hevents]
    exact h.extend hwire hacknowledged (Nat.le_of_eq hgeneration.symm) hknown.length hfollow
      houtcome

/-- **Every call keeps the log in order.** -/
theorem Inv.step (h : Inv s) (x : Call) : Inv (s.call x) := by
  obtain ⟨t, hfollow, hlast⟩ := h.followed s.audio.generation
  have hknown : Known { s.audio with room := x.room } t := by
    have hold := hlast rfl
    refine ⟨hold.length, hold.unique, fun hnone => ?_, fun hopen => ?_⟩
    · have hclosed := hold.closed hnone
      exact ⟨hclosed.fd, hclosed.waiting, hclosed.ready, hclosed.announced⟩
    · have hagrees := hold.agrees hopen
      exact ⟨hagrees.waiting, hagrees.confirmed, hagrees.intact, hagrees.told, hagrees.idle⟩
  generalize ha : { s.audio with room := x.room } = a at hknown
  have hwire : a.wire = s.audio.wire := by rw [← ha]
  have hacknowledged : a.acknowledged = s.audio.acknowledged := by rw [← ha]
  have hgeneration : a.generation = s.audio.generation := by rw [← ha]
  have hcall : s.call x =
      { audio := x.op.run a x.nowMs, log := s.log ++ x.op.events a x.nowMs } := by
    rw [Link.call, ha]
  rw [← hgeneration] at hfollow
  have hsteps : ∀ b, Steps t a b → Inv { audio := b, log := s.log ++ sentSince a b } :=
    fun b hsteps => h.steps hwire hacknowledged hgeneration hknown hfollow hsteps
  rw [hcall]
  cases x.op with
  | app pid uid appId => exact hsteps _ (app_steps hknown pid uid appId x.nowMs)
  | clock pid uid => exact hsteps _ (clock_steps hknown pid uid x.nowMs)
  | gone pid => exact hsteps _ (gone_steps hknown pid x.nowMs)
  | audible pid audible => exact hsteps _ (setAudible_steps hknown pid audible x.nowMs)
  | setVolume level => exact hsteps _ (setVolume_steps hknown level x.nowMs)
  | close => exact hsteps _ (close_steps hknown)
  | dispatch fd reads =>
    exact h.dispatch hwire hacknowledged hgeneration hknown hfollow fd reads x.nowMs

theorem inv_init (enabled : Bool) : Inv { audio := init enabled } where
  past := fun x hx => absurd hx List.not_mem_nil
  followed := by
    have hentry : ∀ i, entry (init enabled) i = {} := by
      intro i
      rw [entry, init, List.getD_eq_getElem?_getD, List.getElem?_replicate]
      split
      · rfl
      · rfl
    intro g
    refine ⟨{}, rfl, fun _ => ⟨List.length_replicate, fun i j hi => ?_, fun _ => ?_, fun hsome =>
      absurd rfl hsome⟩⟩
    · exact absurd (by rw [hentry]) hi
    · exact ⟨rfl, rfl, rfl, fun i => by rw [hentry]⟩
  sent := rfl
  acknowledged := rfl

theorem inv_of_reachable (h : machine.Reachable s) : Inv s := by
  refine Machine.Reachable.invariant ?_ ?_ h
  · rintro s ⟨enabled, rfl⟩
    exact inv_init enabled
  · rintro s x s' hs rfl
    exact hs.step x

theorem confirmed_of_take {command : Command} {t' : Service}
    (hcommand : ∃ pid, command.about = some pid ∧ command ≠ .gone pid)
    (htake : t.take (.sent command) = some t') : t.confirmed = true := by
  have hannounce : ∀ {pid c}, t.announce pid c = some t' → t.confirmed = true := by
    intro pid c h
    rw [Service.announce] at h
    split at h
    · assumption
    · cases h
  obtain ⟨pid, habout, hstays⟩ := hcommand
  unfold Service.take at htake
  split at htake
  · cases htake
  · cases command with
    | app p uid appId => exact hannounce htake
    | clock p uid => exact hannounce htake
    | gone p =>
      obtain rfl := Option.some.inj habout
      exact absurd rfl hstays
    | audible p audible =>
      simp only at htake
      split at htake
      · split at htake
        · assumption
        · cases htake
      · cases htake
    | volume level => cases habout

theorem told_of_take {pid : ℤ} {audible : Bool} {t' : Service}
    (htake : t.take (.sent (.audible pid audible)) = some t') :
    ∃ command said, t.told pid = some (command, said) := by
  unfold Service.take at htake
  split at htake
  · cases htake
  · simp only at htake
    split at htake
    · rename_i command said htold
      exact ⟨command, said, htold⟩
    · cases htake

end Runs

/-- **The manager announces itself in order**, in every run.  The log is what was sent and
acknowledged.  On each connection: before APP, CLOCK or AUDIBLE, the service acknowledged a
VOLUME that was the one wanted then; a process was announced, and did not leave, before its
AUDIBLE; at most one VOLUME waits for its acknowledgement, and a reply that is taken as one
answers that VOLUME.  And while the connection is open and ready, the service was told of
every process, and whether it is audible. -/
theorem announced_in_order {s : Link} (h : machine.Reachable s) :
    (s.log.filterMap sentOf = s.audio.wire ∧
      s.log.filterMap acknowledgedOf = s.audio.acknowledged) ∧
    (∀ g pre command post, onConnection g s.log = pre ++ .sent command :: post →
      (∃ pid, command.about = some pid ∧ command ≠ .gone pid) →
        ∃ level text, .acknowledged level level text ∈ pre) ∧
    (∀ g pre pid audible post,
      onConnection g s.log = pre ++ .sent (.audible pid audible) :: post →
        ∃ command said, Announced pre pid command said) ∧
    (∀ g pre, pre <+: onConnection g s.log →
      (volumes pre).length ≤ (acknowledgements pre).length + 1) ∧
    (∀ g pre level desired text post,
      onConnection g s.log = pre ++ .acknowledged level desired text :: post →
        volumes pre = acknowledgements pre ++ [level] ∧ text = volumeText level ∧
          ∀ t, .refused t ∉ pre) ∧
    (s.audio.fd ≠ none → s.audio.volumeReady = true → ∀ p ∈ s.audio.processes, p.pid ≠ 0 →
      p.announced = true ∧ p.toldAudible = p.audible ∧
        Announced (onConnection s.audio.generation s.log) p.pid (announcement p)
          (some p.audible)) := by
  have hinv := inv_of_reachable h
  refine ⟨⟨hinv.sent, hinv.acknowledged⟩, ?_, ?_, ?_, ?_, ?_⟩
  · intro g pre command post hlog hcommand
    obtain ⟨u, hfollow, -⟩ := hinv.followed g
    rw [hlog] at hfollow
    obtain ⟨t, t', hsees, htake⟩ := follow_split hfollow
    exact hsees.confirmed (confirmed_of_take hcommand htake)
  · intro g pre pid audible post hlog
    obtain ⟨u, hfollow, -⟩ := hinv.followed g
    rw [hlog] at hfollow
    obtain ⟨t, t', hsees, htake⟩ := follow_split hfollow
    obtain ⟨command, said, htold⟩ := told_of_take htake
    exact ⟨command, said, hsees.told pid command said htold⟩
  · intro g pre hpre
    obtain ⟨u, hfollow, -⟩ := hinv.followed g
    obtain ⟨rest, hrest⟩ := hpre
    rw [← hrest] at hfollow
    obtain ⟨t, hbefore, -⟩ := Machine.exists_of_runOps_append hfollow
    rw [(sees_of_follow hbefore).volumes, List.length_append]
    cases t.waiting with
    | none => exact Nat.le_succ _
    | some level => exact Nat.le_refl _
  · intro g pre level desired text post hlog
    obtain ⟨u, hfollow, -⟩ := hinv.followed g
    rw [hlog] at hfollow
    obtain ⟨t, t', hsees, htake⟩ := follow_split hfollow
    unfold Service.take at htake
    split at htake
    · cases htake
    · rename_i hintact
      rw [Bool.not_eq_true] at hintact
      simp only at htake
      split at htake
      · rename_i hreply
        refine ⟨?_, hreply.2, hsees.intact hintact⟩
        rw [hsees.volumes, hreply.1]
        rfl
      · cases htake
  · intro hopen hready p hp hpid
    obtain ⟨t, hfollow, hlast⟩ := hinv.followed s.audio.generation
    obtain ⟨i, hi, rfl⟩ := List.getElem_of_mem hp
    have hentry : entry s.audio i = s.audio.processes[i] := List.getD_eq_getElem _ _ hi
    rw [← hentry] at hpid ⊢
    obtain ⟨hmarked, hsame, htold⟩ := ((hlast rfl).agrees hopen).told i hready hpid
    exact ⟨hmarked, hsame, (sees_of_follow hfollow).told _ _ _ htold⟩

/-- An app registers, the service connects and acknowledges the volume, and the app becomes
audible. -/
def connectedRun : Link :=
  [⟨0, 0, .app 7 1000 (Bytes.ascii "radio")⟩,
   ⟨5, 0, .dispatch (some 3) []⟩,
   ⟨5, 1, .dispatch none [.packet (volumeText volumeMax)]⟩,
   ⟨5, 2, .audible 7 true⟩].foldl Link.call { audio := init true }

theorem announced_in_order_connected :
    Announced (onConnection 1 connectedRun.log) 7 (.app 7 1000 (Bytes.ascii "radio"))
      (some true) := by
  have hreachable : machine.Reachable connectedRun :=
    .step (.step (.step (.step (.start ⟨true, rfl⟩) rfl) rfl) rfl) rfl
  obtain ⟨-, -, -, -, -, hready⟩ := announced_in_order hreachable
  exact (hready (by decide +kernel) (by decide +kernel)
    { pid := 7, uid := 1000, appId := Bytes.ascii "radio", audible := true, announced := true,
      toldAudible := true } (by decide +kernel) (by decide)).2.2

end SessionAudio
