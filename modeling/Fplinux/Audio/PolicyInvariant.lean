/-
What the audio service's policy guarantees, in every run.

* `Service.policy_of_trace` — at most one process is the clock helper, streams
  lie in the slots of their role, belong to an accepted connection and have
  IDs of their own, no process has more than four application streams, and
  outside a resynchronization every accepted connection matches an announced
  process; after every refresh only streams of audible processes play.  The
  condition is that no connection opens more than 2^32 - 1 streams;
* `Service.sharedId_of_reopened` — beyond that an ID comes back while its
  stream is open.

`Keeps` says what ending streams, closing connections and playing have in
common: nothing is added, and nothing that stays changes its connection, its
ID or its slot.  `Inv` and `Ids` hold of whatever is kept; only `announce`,
HELLO, OPEN and `accept` are left to look at.
-/
import Fplinux.Audio.Policy

namespace Audiod

open Audio
open List (countP_mono_left mem_cons mem_finRange not_mem_nil)
open Option (any_eq_true any_some)

namespace Streams

/-! ### The invariants -/

/-- The process with this pid, uid and role is announced. -/
def Matches (processes : ProcessIndex → Process) (connection : Connection) : Prop :=
  ∃ p, (processes p).pid ≠ 0 ∧ (processes p).pid = connection.pid ∧
    (processes p).uid = connection.uid ∧ (processes p).clock = connection.clock

/-- The tables of processes, connections and streams fit together. -/
structure Inv (s : Streams) : Prop where
  onePid : ∀ i j, (s.processes i).pid ≠ 0 → (s.processes i).pid = (s.processes j).pid → i = j
  oneClock : ∀ i j, (s.processes i).pid ≠ 0 → (s.processes i).clock = true →
    (s.processes j).pid ≠ 0 → (s.processes j).clock = true → i = j
  ready : ∀ i stream, s.streams i = some stream →
    (s.connections stream.connection).state = .ready
  role : ∀ i stream, s.streams i = some stream →
    ((s.connections stream.connection).clock = true ↔ i = clockStreamIndex)
  few : ∀ pid, (slotsOf false).countP (s.isOf pid) ≤ clientStreams

/-- The IDs of streams lie between 1 and the last one given on their
connection, each once. -/
structure Ids (s : Streams) : Prop where
  last : ∀ c, (s.connections c).lastId < 2 ^ 32
  given : ∀ i stream, s.streams i = some stream →
    stream.id ≠ 0 ∧ stream.id ≤ (s.connections stream.connection).lastId
  unique : ∀ i j a b, s.streams i = some a → s.streams j = some b →
    a.connection = b.connection → a.id = b.id → i = j

/-- Every accepted connection matches an announced process. -/
def Matched (s : Streams) : Prop :=
  ∀ c, (s.connections c).state = .ready → Matches s.processes (s.connections c)

/-- Only streams of audible processes play. -/
def Unpaused (s : Streams) (i : StreamIndex) : Prop :=
  ∀ stream, s.streams i = some stream → stream.mixer.paused = false →
    ∃ p, (s.processes p).pid ≠ 0 ∧ (s.processes p).pid = s.streamPid stream ∧
      (s.processes p).audible = true

/-- Nothing was added, and what is left is as it was. -/
structure Keeps (s t : Streams) : Prop where
  processes : t.processes = s.processes
  resyncMs : t.resyncMs = s.resyncMs
  streams : ∀ i stream, t.streams i = some stream → ∃ old, s.streams i = some old ∧
    old.connection = stream.connection ∧ old.id = stream.id
  connections : ∀ c, t.connections c = s.connections c ∨
    t.connections c = {} ∧ ∀ i stream, t.streams i = some stream → stream.connection ≠ c

variable {s t u : Streams}

theorem Keeps.refl (s : Streams) : Keeps s s :=
  ⟨rfl, rfl, fun _ stream h => ⟨stream, h, rfl, rfl⟩, fun _ => .inl rfl⟩

theorem Keeps.trans (hst : Keeps s t) (htu : Keeps t u) : Keeps s u := by
  refine ⟨htu.processes.trans hst.processes, htu.resyncMs.trans hst.resyncMs, ?_, ?_⟩
  · intro i stream hu
    obtain ⟨mid, ht, hconn, hid⟩ := htu.streams i stream hu
    obtain ⟨old, hs, hconn', hid'⟩ := hst.streams i mid ht
    exact ⟨old, hs, hconn'.trans hconn, hid'.trans hid⟩
  · intro c
    rcases htu.connections c with hsame | hfreed
    · rcases hst.connections c with hsame' | ⟨hfree, hnone⟩
      · exact .inl (hsame.trans hsame')
      · refine .inr ⟨hsame.trans hfree, fun i stream hu => ?_⟩
        obtain ⟨mid, ht, hconn, -⟩ := htu.streams i stream hu
        rw [← hconn]
        exact hnone i mid ht
    · exact .inr hfreed

theorem Keeps.foldl {ι : Type} {f : Streams → ι → Streams} (hf : ∀ s i, Keeps s (f s i))
    (l : List ι) : ∀ s, Keeps s (l.foldl f s) := by
  induction l with
  | nil => exact Keeps.refl
  | cons i l ih =>
    intro s
    exact (hf s i).trans (ih (f s i))

variable {i : StreamIndex} {stream : OpenStream} {pid : ℤ} {p : ProcessIndex}
  {index : ConnectionIndex} {connection : Connection}

theorem Keeps.connection_eq (h : Keeps s t) (hs : t.streams i = some stream) :
    t.connections stream.connection = s.connections stream.connection := by
  rcases h.connections stream.connection with hsame | ⟨-, hnone⟩
  · exact hsame
  · exact absurd rfl (hnone i stream hs)

theorem Keeps.isOf (h : Keeps s t) (ht : t.isOf pid i = true) : s.isOf pid i = true := by
  obtain ⟨stream, hstream, hpid⟩ := (any_eq_true _ _).mp ht
  obtain ⟨old, hold, hconn, -⟩ := h.streams i stream hstream
  refine (any_eq_true _ _).mpr ⟨old, hold, ?_⟩
  rw [streamPid, h.connection_eq hstream] at hpid
  rw [streamPid, hconn]
  exact hpid

theorem Inv.of_keeps (h : Inv s) (hk : Keeps s t) : Inv t where
  onePid := by
    rw [hk.processes]
    exact h.onePid
  oneClock := by
    rw [hk.processes]
    exact h.oneClock
  ready := by
    intro i stream hstream
    obtain ⟨old, hold, hconn, -⟩ := hk.streams i stream hstream
    rw [hk.connection_eq hstream, ← hconn]
    exact h.ready i old hold
  role := by
    intro i stream hstream
    obtain ⟨old, hold, hconn, -⟩ := hk.streams i stream hstream
    rw [hk.connection_eq hstream, ← hconn]
    exact h.role i old hold
  few := by
    intro pid
    exact Nat.le_trans (countP_mono_left fun i _ => hk.isOf) (h.few pid)

theorem Ids.of_keeps (h : Ids s) (hk : Keeps s t) : Ids t where
  last := by
    intro c
    rcases hk.connections c with hsame | ⟨hfree, -⟩
    · rw [hsame]
      exact h.last c
    · rw [hfree]
      exact Nat.two_pow_pos 32
  given := by
    intro i stream hstream
    obtain ⟨old, hold, hconn, hid⟩ := hk.streams i stream hstream
    rw [hk.connection_eq hstream, ← hconn, ← hid]
    exact h.given i old hold
  unique := by
    intro i j a b ha hb hconn hid
    obtain ⟨a', ha', hconna, hida⟩ := hk.streams i a ha
    obtain ⟨b', hb', hconnb, hidb⟩ := hk.streams j b hb
    exact h.unique i j a' b' ha' hb' (by rw [hconna, hconnb, hconn]) (by rw [hida, hidb, hid])

theorem Matched.of_keeps (h : Matched s) (hk : Keeps s t) : Matched t := by
  intro c hready
  rw [hk.processes]
  rcases hk.connections c with hsame | ⟨hfree, -⟩
  · rw [hsame] at hready ⊢
    exact h c hready
  · rw [hfree] at hready
    cases hready

/-! ### Ending streams and closing connections -/

theorem keeps_setStream {new : Option OpenStream}
    (h : ∀ stream, new = some stream → ∃ old, s.streams i = some old ∧
      old.connection = stream.connection ∧ old.id = stream.id) :
    Keeps s (s.setStream i new) := by
  refine ⟨rfl, rfl, ?_, fun _ => .inl rfl⟩
  intro j stream hstream
  by_cases hj : j = i
  · subst hj
    rw [setStream_self] at hstream
    exact h stream hstream
  · rw [setStream_of_ne s new hj] at hstream
    exact ⟨stream, hstream, rfl, rfl⟩

theorem keeps_endStream (s : Streams) (i : StreamIndex) : Keeps s (s.endStream i) := by
  rw [endStream]
  split
  · exact Keeps.refl s
  · have hkeeps : Keeps s (s.setStream i none) := keeps_setStream fun _ h => by cases h
    exact ⟨hkeeps.processes, hkeeps.resyncMs, hkeeps.streams, hkeeps.connections⟩

theorem streams_endStream (s : Streams) (i j : StreamIndex) :
    (s.endStream i).streams j = if j = i then none else s.streams j := by
  rw [endStream]
  split
  · rename_i hnone
    split
    · rename_i hj
      rw [hj, hnone]
    · rfl
  · exact Function.update_apply _ _ _ _

theorem keeps_endStreamOf (index : ConnectionIndex) (s : Streams) (i : StreamIndex) :
    Keeps s (endStreamOf index s i) := by
  rw [endStreamOf]
  split
  · split
    · exact keeps_endStream s i
    · exact Keeps.refl s
  · exact Keeps.refl s

theorem none_of_endStreams (index : ConnectionIndex) (l : List StreamIndex) :
    ∀ s : Streams, (∀ i stream, s.streams i = some stream → stream.connection = index → i ∈ l) →
      ∀ i stream, (l.foldl (endStreamOf index) s).streams i = some stream →
        stream.connection ≠ index := by
  induction l with
  | nil =>
    intro s hleft i stream hstream hconn
    exact not_mem_nil (hleft i stream hstream hconn)
  | cons j l ih =>
    intro s hleft
    refine ih _ fun i stream hstream hconn => ?_
    rw [endStreamOf] at hstream
    have hmem : i ≠ j → s.streams i = some stream → i ∈ l := by
      intro hne hs
      rcases mem_cons.mp (hleft i stream hs hconn) with hi | hi
      · exact absurd hi hne
      · exact hi
    split at hstream
    · rename_i old hold
      split at hstream
      · rw [streams_endStream] at hstream
        split at hstream
        · cases hstream
        · rename_i hne
          exact hmem hne hstream
      · rename_i hother
        refine hmem ?_ hstream
        rintro rfl
        rw [hstream] at hold
        rw [← Option.some.inj hold] at hother
        exact hother hconn
    · rename_i hnone
      refine hmem ?_ hstream
      rintro rfl
      rw [hstream] at hnone
      cases hnone

theorem connections_endStreams (index : ConnectionIndex) (l : List StreamIndex) :
    ∀ s : Streams, (l.foldl (endStreamOf index) s).connections = s.connections := by
  induction l with
  | nil => exact fun _ => rfl
  | cons j l ih =>
    intro s
    rw [List.foldl_cons, ih, endStreamOf]
    split
    · split
      · rw [endStream]
        split
        · rfl
        · rfl
      · rfl
    · rfl

theorem connections_disconnect (s : Streams) (index : ConnectionIndex) :
    (s.disconnect index).connections = Function.update s.connections index {} := by
  rw [disconnect, setConnection, connections_endStreams]

theorem keeps_disconnect (s : Streams) (index : ConnectionIndex) :
    Keeps s (s.disconnect index) := by
  have hended := Keeps.foldl (keeps_endStreamOf index) (List.finRange streamsMax) s
  have hnone := none_of_endStreams index (List.finRange streamsMax) s
    fun i _ _ _ => mem_finRange i
  refine ⟨hended.processes, hended.resyncMs, hended.streams, fun c => ?_⟩
  rw [connections_disconnect]
  by_cases hc : c = index
  · subst hc
    rw [Function.update_self]
    exact .inr ⟨rfl, hnone⟩
  · rw [Function.update_of_ne hc]
    exact .inl rfl

theorem keeps_forgetAt (pid : ℤ) (s : Streams) (index : ConnectionIndex) :
    Keeps s (forgetAt pid s index) := by
  rw [forgetAt]
  split
  · exact Keeps.refl s
  · exact keeps_disconnect s index

theorem keeps_resyncAt (s : Streams) (index : ConnectionIndex) : Keeps s (resyncAt s index) := by
  simp only [resyncAt]
  split
  · exact Keeps.refl s
  · exact keeps_disconnect s index

theorem keeps_deadlineAt (now : ℕ) (s : Streams) (index : ConnectionIndex) :
    Keeps s (deadlineAt now s index) := by
  simp only [deadlineAt]
  split
  · exact Keeps.refl s
  · exact keeps_disconnect s index

/-! ### Playing -/

theorem keeps_refreshAt (writes : StreamIndex → ℕ) (s : Streams) (i : StreamIndex) :
    Keeps s (refreshAt writes s i) := by
  rw [refreshAt]
  split
  · exact Keeps.refl s
  · rename_i stream hstream
    have hupdated : Keeps s (s.setStream i (some (s.update stream))) :=
      keeps_setStream fun new hnew => ⟨stream, hstream, by rw [← Option.some.inj hnew]; rfl,
        by rw [← Option.some.inj hnew]; rfl⟩
    simp only
    split
    · split
      · exact hupdated.trans (keeps_endStream _ i)
      · exact hupdated
    · exact hupdated

theorem keeps_refresh (s : Streams) (writes : StreamIndex → ℕ) : Keeps s (s.refresh writes) := by
  rw [refresh]
  exact Keeps.foldl (keeps_refreshAt writes) (List.finRange streamsMax) s

theorem keeps_mixAt (frames : ℕ) (writes : StreamIndex → ℕ) (rings : StreamIndex → List Frame)
    (s : Streams) (i : StreamIndex) : Keeps s (mixAt frames writes rings s i) := by
  rw [mixAt]
  split
  · exact Keeps.refl s
  · rename_i stream hstream
    split
    · exact keeps_endStream s i
    · exact keeps_setStream fun new hnew => ⟨stream, hstream, by rw [← Option.some.inj hnew],
        by rw [← Option.some.inj hnew]⟩

theorem keeps_publish (s : Streams) (played : ℕ) : Keeps s (s.publish played) := by
  refine ⟨rfl, rfl, ?_, fun _ => .inl rfl⟩
  intro i stream hstream
  obtain ⟨old, hold, rfl⟩ := Option.map_eq_some_iff.mp hstream
  exact ⟨old, hold, rfl, rfl⟩

theorem keeps_mix (s : Streams) (frames : ℕ) (writes : StreamIndex → ℕ)
    (rings : StreamIndex → List Frame) : Keeps s (s.mix frames writes rings) := by
  have hkeeps := Keeps.foldl (keeps_mixAt frames writes rings) (List.finRange streamsMax)
    { s with tail := (0, 0), mixed := s.mixed + frames }
  exact ⟨hkeeps.processes, hkeeps.resyncMs, hkeeps.streams, hkeeps.connections⟩

theorem pid_of_findProcess (h : s.findProcess pid = some p) :
    0 < pid ∧ (s.processes p).pid = pid := by
  rw [findProcess] at h
  split at h
  · rename_i hpos
    have hfound := List.find?_some h
    exact ⟨hpos, of_decide_eq_true hfound⟩
  · cases h

theorem exists_audible (h : (s.update stream).mixer.paused = false) :
    ∃ p, (s.processes p).pid ≠ 0 ∧ (s.processes p).pid = s.streamPid stream ∧
      (s.processes p).audible = true := by
  have hpaused : s.pausedNow stream = false := h
  rw [pausedNow] at hpaused
  split at hpaused
  · rename_i p hfound
    obtain ⟨hpos, hpid⟩ := pid_of_findProcess hfound
    refine ⟨p, ?_, hpid, ?_⟩
    · omega
    · rwa [Bool.not_eq_false'] at hpaused
  · cases hpaused

theorem refreshAt_frame (writes : StreamIndex → ℕ) (s : Streams) (i : StreamIndex) :
    (refreshAt writes s i).processes = s.processes ∧
      (refreshAt writes s i).connections = s.connections ∧
      (∀ j, j ≠ i → (refreshAt writes s i).streams j = s.streams j) ∧
      ∀ stream, (refreshAt writes s i).streams i = some stream →
        ∃ old, s.streams i = some old ∧ stream = s.update old := by
  have hended : ∀ t : Streams, (t.endStream i).connections = t.connections := by
    intro t
    rw [endStream]
    split
    · rfl
    · rfl
  refine ⟨(keeps_refreshAt writes s i).processes, ?_, ?_, ?_⟩
  · rw [refreshAt]
    split
    · rfl
    · simp only
      split
      · split
        · rw [hended]
          rfl
        · rfl
      · rfl
  · intro j hj
    rw [refreshAt]
    split
    · rfl
    · simp only
      split
      · split
        · rw [streams_endStream, if_neg hj, setStream_of_ne _ _ hj]
        · rw [setStream_of_ne _ _ hj]
      · rw [setStream_of_ne _ _ hj]
  · intro stream hstream
    rw [refreshAt] at hstream
    split at hstream
    · rename_i hnone
      rw [hnone] at hstream
      cases hstream
    · rename_i old hold
      refine ⟨old, hold, ?_⟩
      simp only at hstream
      split at hstream
      · split at hstream
        · rw [streams_endStream, if_pos rfl] at hstream
          cases hstream
        · rw [setStream_self] at hstream
          exact (Option.some.inj hstream).symm
      · rw [setStream_self] at hstream
        exact (Option.some.inj hstream).symm

/-- **A refresh pauses every stream whose process is not audible.** -/
theorem unpaused_refresh (s : Streams) (writes : StreamIndex → ℕ) (i : StreamIndex) :
    Unpaused (s.refresh writes) i := by
  have hrun : ∀ (l : List StreamIndex) (s : Streams),
      (∀ i, i ∉ l → Unpaused s i) → ∀ i, Unpaused (l.foldl (refreshAt writes) s) i := by
    intro l
    induction l with
    | nil => exact fun s hdone i => hdone i not_mem_nil
    | cons j l ih =>
      intro s hdone
      obtain ⟨hprocesses, hconnections, hothers, hown⟩ := refreshAt_frame writes s j
      refine ih _ fun i hi stream hstream hplays => ?_
      rw [hprocesses, streamPid, hconnections]
      by_cases hij : i = j
      · subst hij
        obtain ⟨old, -, rfl⟩ := hown stream hstream
        exact exists_audible hplays
      · rw [hothers i hij] at hstream
        have hrest : i ∉ j :: l := by
          rw [mem_cons]
          exact fun h => h.elim hij hi
        exact hdone i hrest stream hstream hplays
  exact hrun _ s (fun i hi => absurd (mem_finRange i) hi) i

/-! ### Connections -/

theorem Inv.connection_ne (h : Inv s) (hnot : (s.connections index).state ≠ .ready)
    (hstream : s.streams i = some stream) : stream.connection ≠ index := by
  rintro rfl
  exact hnot (h.ready i stream hstream)

theorem Inv.setConnection (h : Inv s) (hnot : (s.connections index).state ≠ .ready)
    (connection : Connection) :
    Inv (s.setConnection index connection) := by
  have hsame : ∀ i stream, s.streams i = some stream →
      (s.setConnection index connection).connections stream.connection =
        s.connections stream.connection := by
    intro i stream hstream
    exact setConnection_of_ne s connection (h.connection_ne hnot hstream)
  refine ⟨h.onePid, h.oneClock, ?_, ?_, ?_⟩
  · intro i stream hstream
    rw [hsame i stream hstream]
    exact h.ready i stream hstream
  · intro i stream hstream
    rw [hsame i stream hstream]
    exact h.role i stream hstream
  · intro pid
    refine Nat.le_trans (countP_mono_left fun i _ hof => ?_) (h.few pid)
    obtain ⟨stream, hstream, hpid⟩ := (any_eq_true _ _).mp hof
    refine (any_eq_true _ _).mpr ⟨stream, hstream, ?_⟩
    rw [streamPid, hsame i stream hstream] at hpid
    exact hpid

theorem Ids.setConnection (h : Ids s) (hinv : Inv s) (hnot : (s.connections index).state ≠ .ready)
    (hlast : connection.lastId < 2 ^ 32) : Ids (s.setConnection index connection) := by
  refine ⟨?_, ?_, h.unique⟩
  · intro c
    by_cases hc : c = index
    · subst hc
      rw [setConnection_self]
      exact hlast
    · rw [setConnection_of_ne s connection hc]
      exact h.last c
  · intro i stream hstream
    rw [setConnection_of_ne s connection (hinv.connection_ne hnot hstream)]
    exact h.given i stream hstream

theorem Matched.setConnection (h : Matched s) (index : ConnectionIndex)
    (hready : connection.state = .ready → Matches s.processes connection) :
    Matched (s.setConnection index connection) := by
  intro c hc
  by_cases hindex : c = index
  · subst hindex
    rw [setConnection_self] at hc ⊢
    exact hready hc
  · rw [setConnection_of_ne s connection hindex] at hc ⊢
    exact h c hc

/-- The tables are sound; with the manager connected and no resynchronization
pending, every accepted connection matches. -/
structure Sound (s : Streams) (connected : Bool) : Prop where
  inv : Inv s
  ids : Ids s
  matched : connected = true → s.resyncMs = 0 → Matched s

variable {connected : Bool}

theorem Sound.of_keeps (h : Sound s connected) (hk : Keeps s t) : Sound t connected :=
  ⟨h.inv.of_keeps hk, h.ids.of_keeps hk,
    fun hc hr => (h.matched hc (hk.resyncMs.symm.trans hr)).of_keeps hk⟩

theorem Sound.setConnection (h : Sound s connected) (hnot : (s.connections index).state ≠ .ready)
    (hlast : connection.lastId < 2 ^ 32)
    (hready : connection.state = .ready → Matches s.processes connection) :
    Sound (s.setConnection index connection) connected :=
  ⟨h.inv.setConnection hnot connection, h.ids.setConnection h.inv hnot hlast,
    fun hc hr => (h.matched hc hr).setConnection index hready⟩

theorem sound_accept (h : Sound s connected) (pid : ℤ) (uid now : ℕ) :
    Sound (s.accept pid uid now) connected := by
  rw [accept]
  split
  · exact h
  · rename_i i hfound
    have hfree : (s.connections i).state = .free := by
      have hstate := List.find?_some hfound
      exact of_decide_eq_true hstate
    refine h.setConnection ?_ (Nat.two_pow_pos 32) ?_
    · rw [hfree]
      exact ConnectionState.noConfusion
    · exact ConnectionState.noConfusion

/-- **HELLO** is accepted only from an announced process. -/
theorem sound_hello (h : Sound s connected) (index : ConnectionIndex) (message : Message) :
    Sound (s.hello index message).1 connected := by
  simp only [hello]
  split
  · exact h
  · rename_i hguard
    have hnew : (s.connections index).state = .new := by
      by_contra hne
      exact hguard (.inl hne)
    have hnot : (s.connections index).state ≠ .ready := by
      rw [hnew]
      exact ConnectionState.noConfusion
    split
    · exact h
    · split
      · split
        · exact h
        · exact h.setConnection hnot (h.ids.last index) ConnectionState.noConfusion
      · rename_i p hfound
        obtain ⟨hpos, hpid⟩ := pid_of_findProcess hfound
        split
        · exact h
        · rename_i huid
          refine h.setConnection hnot (h.ids.last index) fun _ => ⟨p, ?_, hpid, ?_, rfl⟩
          · omega
          · exact not_not.mp huid

/-! ### OPEN -/

theorem mem_slotsOf {clock : Bool} (h : i ∈ slotsOf clock) :
    (clock = true ↔ i = clockStreamIndex) := by
  have hrole := of_decide_eq_true (List.mem_filter.mp h).2
  rw [← hrole, decide_eq_true_eq]

theorem countP_le_succ {ι : Type} {p q : ι → Bool} {i : ι} {l : List ι} (hl : l.Nodup)
    (h : ∀ j ∈ l, j ≠ i → q j = true → p j = true) : l.countP q ≤ l.countP p + 1 := by
  induction l with
  | nil => exact Nat.zero_le _
  | cons a l ih =>
    obtain ⟨ha, hnodup⟩ := List.nodup_cons.mp hl
    rw [List.countP_cons, List.countP_cons]
    by_cases hai : a = i
    · subst hai
      have hrest : l.countP q ≤ l.countP p := countP_mono_left fun j hj hq =>
        h j (List.mem_cons_of_mem _ hj) (fun hji => ha (hji ▸ hj)) hq
      split <;> split <;> omega
    · have hrest := ih hnodup fun j hj => h j (List.mem_cons_of_mem _ hj)
      have hhead := h a List.mem_cons_self hai
      split <;> split <;> first | omega | (rename_i hq hp; exact absurd (hhead hq) hp)

/-- A connection whose last stream ID was counted up. -/
def counted (s : Streams) (index : ConnectionIndex) (lastId : ℕ) : Streams :=
  s.setConnection index { s.connections index with lastId := lastId }

theorem connections_counted (s : Streams) (index : ConnectionIndex) (lastId : ℕ)
    (c : ConnectionIndex) :
    (s.counted index lastId).connections c =
      { s.connections c with
        lastId := if c = index then lastId else (s.connections c).lastId } := by
  by_cases hc : c = index
  · subst hc
    rw [counted, setConnection_self, if_pos rfl]
  · rw [counted, setConnection_of_ne _ _ hc, if_neg hc]

theorem isOf_counted (s : Streams) (index : ConnectionIndex) (lastId : ℕ) (pid : ℤ)
    (i : StreamIndex) : (s.counted index lastId).isOf pid i = s.isOf pid i := by
  rw [isOf, isOf]
  congr 1
  funext stream
  rw [streamPid, streamPid, connections_counted]

theorem inv_counted (h : Inv s) (index : ConnectionIndex) (lastId : ℕ) :
    Inv (s.counted index lastId) := by
  refine ⟨h.onePid, h.oneClock, ?_, ?_, ?_⟩
  · intro i stream hstream
    rw [connections_counted]
    exact h.ready i stream hstream
  · intro i stream hstream
    rw [connections_counted]
    exact h.role i stream hstream
  · intro pid
    refine Nat.le_trans (countP_mono_left fun i _ hof => ?_) (h.few pid)
    rwa [isOf_counted] at hof

theorem streams_setStream {j : StreamIndex} {new : OpenStream}
    (h : (s.setStream i (some stream)).streams j = some new) :
    j = i ∧ new = stream ∨ j ≠ i ∧ s.streams j = some new := by
  by_cases hj : j = i
  · subst hj
    rw [setStream_self] at h
    exact .inl ⟨rfl, (Option.some.inj h).symm⟩
  · rw [setStream_of_ne s _ hj] at h
    exact .inr ⟨hj, h⟩

theorem Ids.setStream (h : Ids s)
    (hgiven : stream.id ≠ 0 ∧ stream.id ≤ (s.connections stream.connection).lastId)
    (hfresh : ∀ j old, s.streams j = some old → old.connection = stream.connection →
      old.id ≠ stream.id) :
    Ids (s.setStream i (some stream)) := by
  refine ⟨h.last, ?_, ?_⟩
  · intro j new hnew
    rcases streams_setStream hnew with ⟨-, rfl⟩ | ⟨-, hold⟩
    · exact hgiven
    · exact h.given j new hold
  · intro j k a b ha hb hconn hid
    rcases streams_setStream ha with ⟨rfl, rfl⟩ | ⟨-, hold⟩
    · rcases streams_setStream hb with ⟨rfl, -⟩ | ⟨-, hold'⟩
      · rfl
      · exact absurd hid.symm (hfresh k b hold' hconn.symm)
    · rcases streams_setStream hb with ⟨rfl, rfl⟩ | ⟨-, hold'⟩
      · exact absurd hid (hfresh j a hold hconn)
      · exact h.unique j k a b hold hold' hconn hid

theorem Inv.setStream (h : Inv s) (hfree : s.streams i = none)
    (hready : (s.connections stream.connection).state = .ready)
    (hrole : (s.connections stream.connection).clock = true ↔ i = clockStreamIndex)
    (hfew : (s.connections stream.connection).clock = false →
      (slotsOf false).countP (s.isOf (s.streamPid stream)) < clientStreams) :
    Inv (s.setStream i (some stream)) := by
  refine ⟨h.onePid, h.oneClock, ?_, ?_, ?_⟩
  · intro j new hnew
    rcases streams_setStream hnew with ⟨rfl, rfl⟩ | ⟨-, hold⟩
    · exact hready
    · exact h.ready j new hold
  · intro j new hnew
    rcases streams_setStream hnew with ⟨rfl, rfl⟩ | ⟨-, hold⟩
    · exact hrole
    · exact h.role j new hold
  · intro pid
    have hothers : ∀ j, j ≠ i → (s.setStream i (some stream)).isOf pid j = true →
        s.isOf pid j = true := by
      intro j hj hof
      rwa [isOf, setStream_of_ne s _ hj] at hof
    by_cases hnew : (s.connections stream.connection).clock = false ∧ s.streamPid stream = pid
    · -- The process has one more application stream, and had fewer than four.
      obtain ⟨hclock, rfl⟩ := hnew
      have hcount := countP_le_succ ((List.nodup_finRange streamsMax).filter _)
        fun j (_ : j ∈ slotsOf false) hj => hothers j hj
      exact Nat.le_trans hcount (hfew hclock)
    · refine Nat.le_trans (countP_mono_left fun j hj hof => ?_) (h.few pid)
      by_cases hji : j = i
      · subst hji
        refine absurd ⟨?_, ?_⟩ hnew
        · have hslot := mem_slotsOf hj
          rw [← Bool.not_eq_true, hrole, ← hslot]
          exact Bool.false_ne_true
        · rw [isOf, setStream_self, any_some] at hof
          exact of_decide_eq_true hof
      · exact hothers j hji hof

/-- **OPEN** fills a free slot of the connection's role, with a new ID. -/
theorem sound_openStream (h : Sound s connected) (hready : (s.connections index).state = .ready)
    (hid : (s.connections index).lastId < 2 ^ 32 - 1) (request : Message) (grants : Grants) :
    Sound (s.openStream index request grants).1 connected := by
  have hnext := nextId_eq hid
  have hcounted : Sound (s.counted index (nextId (s.connections index).lastId)) connected := by
    refine ⟨inv_counted h.inv index _, ⟨?_, ?_, h.ids.unique⟩, fun hcon hr c hc => ?_⟩
    · intro c
      have hlast := h.ids.last c
      rw [connections_counted]
      simp only
      split <;> omega
    · intro i stream hstream
      obtain ⟨hne, hle⟩ := h.ids.given i stream hstream
      rw [connections_counted]
      refine ⟨hne, ?_⟩
      simp only
      split
      · rename_i hconn
        rw [hconn] at hle
        omega
      · exact hle
    · rw [connections_counted] at hc ⊢
      exact h.matched hcon hr c hc
  simp only [openStream]
  split
  · exact h
  · split
    · exact h
    · rename_i hfew
      split
      · exact h
      · rename_i i hslot
        split
        · split
          · have hnone : s.streams i = none := by
              have hempty := List.find?_some hslot
              exact Option.isNone_iff_eq_none.mp hempty
            have hrole := mem_slotsOf (List.mem_of_find?_eq_some hslot)
            refine ⟨hcounted.inv.setStream hnone ?_ ?_ ?_, ?_, hcounted.matched⟩
            · rw [connections_counted]
              exact hready
            · rw [connections_counted]
              exact hrole
            · rw [connections_counted]
              intro hclock
              have hclock : (s.connections index).clock = false := hclock
              have hpid : (s.counted index (nextId (s.connections index).lastId)).streamPid
                  (s.newStream index request) = (s.connections index).pid := by
                rw [streamPid, connections_counted]
                rfl
              rw [hpid, funext (isOf_counted s index _ _)]
              rw [hclock, streamLimit, if_neg Bool.false_ne_true] at hfew
              exact Nat.lt_of_not_le hfew
            · refine hcounted.ids.setStream ⟨?_, ?_⟩ ?_
              · show nextId (s.connections index).lastId ≠ 0
                omega
              · rw [connections_counted, show (s.newStream index request).connection = index from rfl]
                simp only [if_pos]
                exact Nat.le_refl _
              · -- The IDs in use are not above the last one given.
                intro j old hold hconn
                obtain ⟨-, hle⟩ := h.ids.given j old hold
                rw [show old.connection = index from hconn] at hle
                show old.id ≠ nextId (s.connections index).lastId
                omega
          · exact hcounted
        · exact h

/-- **A packet** keeps the tables sound, if an OPEN finds an ID left. -/
theorem sound_handle (h : Sound s connected) {message : Message}
    (hid : message.type = typeOpen → (s.connections index).lastId < 2 ^ 32 - 1) (grants : Grants) :
    Sound (s.handle index message grants).1 connected := by
  simp only [handle]
  split
  · exact h
  · split
    · exact sound_hello h index message
    · split
      · rename_i hopen
        split
        · exact h
        · rename_i hguard
          have hready : (s.connections index).state = .ready := by
            by_contra hne
            exact hguard (.inl hne)
          exact sound_openStream h hready (hid hopen) message grants
      · split
        · split
          · exact h
          · split
            · cases hfound : s.findStream index message.stream with
              | none => exact h
              | some i => exact h.of_keeps (keeps_endStream s i)
            · exact h
        · exact h

theorem sound_receive (h : Sound s connected) {received : Received}
    (hid : ∀ message grants, received = .message message grants → message.type = typeOpen →
      (s.connections index).lastId < 2 ^ 32 - 1) :
    Sound (s.receive index received) connected := by
  unfold receive
  split
  · exact h
  · split
    · exact h.of_keeps (keeps_disconnect s index)
    · rename_i message grants
      have hhandled := sound_handle h (hid message grants rfl) grants
      simp only
      split
      · exact hhandled
      · exact hhandled.of_keeps (keeps_disconnect _ index)

/-! ### Announcements -/

theorem matched_foldl {processes : ProcessIndex → Process} {Q : Connection → Prop}
    {f : Streams → ConnectionIndex → Streams}
    (hprocesses : ∀ s c, (f s c).processes = s.processes)
    (hothers : ∀ s c d, d ≠ c → (f s c).connections d = s.connections d)
    (hown : ∀ s c, s.processes = processes →
      ((s.connections c).state = .ready → Q (s.connections c) ∨ Matches processes (s.connections c)) →
      ((f s c).connections c).state = .ready → Matches processes ((f s c).connections c))
    (l : List ConnectionIndex) : ∀ s, s.processes = processes →
      (∀ c, (s.connections c).state = .ready →
        c ∈ l ∧ Q (s.connections c) ∨ Matches processes (s.connections c)) →
      Matched (l.foldl f s) := by
  induction l with
  | nil =>
    intro s hs hleft c hready
    show Matches s.processes (s.connections c)
    rw [hs]
    exact (hleft c hready).resolve_left fun h => not_mem_nil h.1
  | cons d l ih =>
    intro s hs hleft
    refine ih _ ((hprocesses s d).trans hs) fun c hready => ?_
    by_cases hc : c = d
    · subst hc
      exact .inr (hown s c hs (fun h => (hleft c h).imp_left And.right) hready)
    · rw [hothers s d c hc] at hready ⊢
      refine (hleft c hready).imp_left fun h => ⟨?_, h.2⟩
      exact (mem_cons.mp h.1).resolve_left hc

theorem disconnect_of_ne (s : Streams) {c d : ConnectionIndex} (h : d ≠ c) :
    (s.disconnect c).connections d = s.connections d := by
  rw [connections_disconnect, Function.update_of_ne h]

theorem disconnect_state (s : Streams) (c : ConnectionIndex) :
    ((s.disconnect c).connections c).state = .free := by
  rw [connections_disconnect, Function.update_self]

theorem announceTo_cases (pid : ℤ) (uid : ℕ) (clock : Bool) (s : Streams)
    (index : ConnectionIndex) :
    announceTo pid uid clock s index = s ∧
        ((s.connections index).pid ≠ pid ∨ (s.connections index).state ≠ .ready) ∨
      announceTo pid uid clock s index =
          s.setConnection index { s.connections index with state := .ready, clock := clock } ∧
        (s.connections index).pid = pid ∧ (s.connections index).uid = uid ∧
        ((s.connections index).state = .ready → (s.connections index).clock = clock) ∨
      announceTo pid uid clock s index = s.disconnect index := by
  simp only [announceTo]
  split
  · rename_i hskip
    refine .inl ⟨rfl, ?_⟩
    rcases hskip with hpid | hfree | hnew
    · exact .inl hpid
    · exact .inr (by rw [hfree]; exact ConnectionState.noConfusion)
    · exact .inr (by rw [hnew]; exact ConnectionState.noConfusion)
  · rename_i hskip
    split
    · rename_i haccept
      refine .inr (.inl ⟨rfl, not_not.mp fun h => hskip (.inl h), haccept.1, fun hready => ?_⟩)
      rcases haccept.2 with hwaiting | hclock
      · rw [hready] at hwaiting
        cases hwaiting
      · exact hclock
    · exact .inr (.inr rfl)

theorem announceTo_frame (pid : ℤ) (uid : ℕ) (clock : Bool) (s : Streams)
    (index : ConnectionIndex) : (announceTo pid uid clock s index).processes = s.processes ∧
      (announceTo pid uid clock s index).resyncMs = s.resyncMs := by
  have hkeeps := keeps_disconnect s index
  rcases announceTo_cases pid uid clock s index with ⟨heq, -⟩ | ⟨heq, -⟩ | heq
  · rw [heq]
    exact ⟨rfl, rfl⟩
  · rw [heq]
    exact ⟨rfl, rfl⟩
  · rw [heq]
    exact ⟨hkeeps.processes, hkeeps.resyncMs⟩

theorem sound_announceTo (h : Sound s false) (pid : ℤ) (uid : ℕ) (clock : Bool)
    (index : ConnectionIndex) : Sound (announceTo pid uid clock s index) false := by
  rcases announceTo_cases pid uid clock s index with ⟨heq, -⟩ | ⟨heq, -, -, hclock⟩ | heq
  · rw [heq]
    exact h
  · rw [heq]
    by_cases hready : (s.connections index).state = .ready
    · have hsame : { s.connections index with state := .ready, clock := clock } =
          s.connections index := by
        rw [← hready, ← hclock hready]
      rw [hsame, setConnection, Function.update_eq_self]
      exact h
    · exact ⟨h.inv.setConnection hready _, h.ids.setConnection h.inv hready (h.ids.last index),
        fun hc => absurd hc Bool.false_ne_true⟩
  · rw [heq]
    exact h.of_keeps (keeps_disconnect s index)

theorem matched_announceTo {uid : ℕ} {clock : Bool}
    (hentry : ∃ p, (s.processes p).pid ≠ 0 ∧ (s.processes p).pid = pid ∧
      (s.processes p).uid = uid ∧ (s.processes p).clock = clock)
    (hothers : ∀ c, (s.connections c).state = .ready →
      (s.connections c).pid = pid ∨ Matches s.processes (s.connections c)) :
    Matched ((List.finRange connectionsMax).foldl (announceTo pid uid clock) s) := by
  refine @matched_foldl s.processes (fun connection => connection.pid = pid) _
    (fun s c => (announceTo_frame pid uid clock s c).1) ?_ ?_ _ s rfl
    fun c hready => (hothers c hready).imp_left fun h => ⟨mem_finRange c, h⟩
  · intro s c d hd
    rcases announceTo_cases pid uid clock s c with ⟨heq, -⟩ | ⟨heq, -⟩ | heq
    · rw [heq]
    · rw [heq, setConnection_of_ne _ _ hd]
    · rw [heq, disconnect_of_ne s hd]
  · intro t c ht hbefore hafter
    rcases announceTo_cases pid uid clock t c with ⟨heq, hskip⟩ | ⟨heq, hpid, huid, -⟩ | heq
    · rw [heq] at hafter ⊢
      refine (hbefore hafter).resolve_left fun hpid => ?_
      exact hskip.elim (fun h => h hpid) (fun h => h hafter)
    · rw [heq, setConnection_self]
      obtain ⟨p, hne, hp, hu, hcl⟩ := hentry
      exact ⟨p, hne, hp.trans hpid.symm, hu.trans huid.symm, hcl⟩
    · rw [heq, disconnect_state] at hafter
      cases hafter

theorem entryFor_spec (hpos : 0 < pid) (h : s.entryFor pid = some p) :
    ((s.processes p).pid = pid ∨ (s.processes p).pid = 0) ∧
      (Inv s → ∀ i, i ≠ p → (s.processes i).pid ≠ pid) := by
  rw [entryFor] at h
  cases hfound : s.findProcess pid with
  | some q =>
    rw [hfound, Option.some_or] at h
    obtain rfl := Option.some.inj h
    obtain ⟨-, hpid⟩ := pid_of_findProcess hfound
    refine ⟨.inl hpid, fun hinv i hi heq => hi ?_⟩
    exact hinv.onePid i q (by omega) (heq.trans hpid.symm)
  | none =>
    rw [hfound, Option.none_or] at h
    have hfree := List.find?_some h
    refine ⟨.inr (of_decide_eq_true hfree), fun _ i _ heq => ?_⟩
    rw [findProcess, if_pos hpos] at hfound
    have hnot := List.find?_eq_none.mp hfound i (mem_finRange i)
    exact hnot (decide_eq_true heq)

theorem inv_setProcess (h : Inv s) {process : Process}
    (hpid : process.pid ≠ 0 → ∀ i, i ≠ p → (s.processes i).pid ≠ process.pid)
    (hclock : process.pid ≠ 0 → process.clock = true → ∀ i, i ≠ p → (s.processes i).pid ≠ 0 →
      (s.processes i).clock = false) :
    Inv (s.setProcess p process) := by
  have hnew : ∀ i, i ≠ p → (s.setProcess p process).processes i = s.processes i :=
    fun i hi => setProcess_of_ne s process hi
  refine ⟨?_, ?_, h.ready, h.role, h.few⟩
  · intro i j hne heq
    by_cases hi : i = p
    · by_cases hj : j = p
      · rw [hi, hj]
      · rw [hi, setProcess_self] at hne heq
        rw [hnew j hj] at heq
        exact absurd heq.symm (hpid hne j hj)
    · rw [hnew i hi] at hne heq
      by_cases hj : j = p
      · rw [hj, setProcess_self] at heq
        exact absurd heq (hpid (heq ▸ hne) i hi)
      · rw [hnew j hj] at heq
        exact h.onePid i j hne heq
  · intro i j hi0 hic hj0 hjc
    by_cases hi : i = p
    · by_cases hj : j = p
      · rw [hi, hj]
      · rw [hi, setProcess_self] at hi0 hic
        rw [hnew j hj] at hj0 hjc
        rw [hclock hi0 hic j hj hj0] at hjc
        cases hjc
    · rw [hnew i hi] at hi0 hic
      by_cases hj : j = p
      · rw [hj, setProcess_self] at hj0 hjc
        rw [hclock hj0 hjc i hi hi0] at hic
        cases hic
      · rw [hnew j hj] at hj0 hjc
        exact h.oneClock i j hi0 hic hj0 hjc

theorem cliUnsigned_bounds {text : List UInt8} {minimum maximum value : ℕ}
    (h : cliUnsigned text minimum maximum = some value) : minimum ≤ value ∧ value ≤ maximum := by
  simp only [cliUnsigned] at h
  split at h
  · rename_i hok
    rw [← Option.some.inj h]
    exact hok.2.2
  · cases h

theorem Sound.setGone (h : Sound s connected) (gone : Fin goneMax → ℤ) (lastGone : Fin goneMax) :
    Sound { s with gone := gone, lastGone := lastGone } connected :=
  ⟨⟨h.inv.onePid, h.inv.oneClock, h.inv.ready, h.inv.role, h.inv.few⟩,
    ⟨h.ids.last, h.ids.given, h.ids.unique⟩, h.matched⟩

theorem sound_clearGone (h : Sound s connected) (pid : ℤ) : Sound (s.clearGone pid) connected := by
  rw [clearGone]
  split
  · exact h.setGone _ s.lastGone
  · exact h

theorem sound_addGone (h : Sound s connected) (pid : ℤ) : Sound (s.addGone pid) connected := by
  rw [addGone]
  split
  · exact h
  · exact h.setGone _ _

theorem clock_eq_false (h : ¬ s.clockTaken pid = true) {i : ProcessIndex}
    (hne : (s.processes i).pid ≠ 0) (hother : (s.processes i).pid ≠ pid) :
    (s.processes i).clock = false := by
  rw [clockTaken, List.any_eq_true] at h
  by_contra hclock
  refine h ⟨i, mem_finRange i, ?_⟩
  exact decide_eq_true ⟨hne, hother, Bool.not_eq_false _ ▸ hclock⟩

/-- **An announcement** leaves accepted only the connections it matches. -/
theorem sound_announce (h : Sound s connected) (hpos : 0 < pid) (uid : ℕ) (clock : Bool) :
    Sound (s.announce pid uid clock) connected := by
  rw [announce]
  split
  · exact h
  · rename_i htaken
    have hcleared := sound_clearGone h pid
    have hprocesses : (s.clearGone pid).processes = s.processes := by
      rw [clearGone]
      split <;> rfl
    simp only
    split
    · exact hcleared
    · rename_i p hentry
      obtain ⟨hp, hother⟩ := entryFor_spec hpos hentry
      have hother := hother hcleared.inv
      generalize s.clearGone pid = t at hcleared hprocesses hentry hp hother
      have hinv : Inv (t.setProcess p { pid, uid, clock }) := by
        refine inv_setProcess hcleared.inv (fun _ => hother) fun _ hclock i hi hne => ?_
        have hdiffer := hother i hi
        rw [hprocesses] at hne hdiffer ⊢
        have hfree : ¬ s.clockTaken pid = true := by
          intro htook
          rw [show clock = true from hclock, htook] at htaken
          exact htaken rfl
        exact clock_eq_false hfree hne hdiffer
      have hset : Sound (t.setProcess p { pid, uid, clock }) false :=
        ⟨hinv, ⟨hcleared.ids.last, hcleared.ids.given, hcleared.ids.unique⟩,
          fun hc => absurd hc Bool.false_ne_true⟩
      have hrun : ∀ (l : List ConnectionIndex) (u : Streams), Sound u false →
          Sound (l.foldl (announceTo pid uid clock) u) false := by
        intro l
        induction l with
        | nil => exact fun u hu => hu
        | cons c l ih => exact fun u hu => ih _ (sound_announceTo hu pid uid clock c)
      have hdone := hrun (List.finRange connectionsMax) _ hset
      have hresync : ∀ (l : List ConnectionIndex) (u : Streams),
          (l.foldl (announceTo pid uid clock) u).resyncMs = u.resyncMs := by
        intro l
        induction l with
        | nil => exact fun _ => rfl
        | cons c l ih => exact fun u => (ih _).trans (announceTo_frame pid uid clock u c).2
      refine ⟨hdone.inv, hdone.ids, fun hcon hr => matched_announceTo ?_ ?_⟩
      · refine ⟨p, ?_, ?_, ?_, ?_⟩ <;> rw [setProcess_self]
        exact Int.ne_of_gt hpos
      · intro c hready
        by_cases hpid : (t.connections c).pid = pid
        · exact .inl hpid
        · rw [hresync] at hr
          obtain ⟨q, hne, hq, huid, hclock⟩ := hcleared.matched hcon hr c hready
          have hqp : q ≠ p := by
            rintro rfl
            rcases hp with hp | hp
            · exact hpid (hq.symm.trans hp)
            · exact hne hp
          refine .inr ⟨q, ?_⟩
          rw [setProcess_of_ne _ _ hqp]
          exact ⟨hne, hq, huid, hclock⟩

/-! ### The other commands -/

theorem forgetAt_of_ne (pid : ℤ) (s : Streams) {c d : ConnectionIndex} (h : d ≠ c) :
    (forgetAt pid s c).connections d = s.connections d := by
  rw [forgetAt]
  split
  · rfl
  · exact disconnect_of_ne s h

theorem pid_ne_of_forgotten (pid : ℤ) (l : List ConnectionIndex) : ∀ s : Streams,
    (∀ c, (s.connections c).state = .ready → (s.connections c).pid = pid → c ∈ l) →
      ∀ c, ((l.foldl (forgetAt pid) s).connections c).state = .ready →
        ((l.foldl (forgetAt pid) s).connections c).pid ≠ pid := by
  induction l with
  | nil =>
    intro s hleft c hready hpid
    exact not_mem_nil (hleft c hready hpid)
  | cons d l ih =>
    intro s hleft
    refine ih _ fun c hready hpid => ?_
    by_cases hc : c = d
    · subst hc
      rw [forgetAt] at hready hpid
      split at hready
      · rename_i hskip
        rw [if_pos hskip] at hpid
        rw [hpid, hready] at hskip
        exact absurd rfl (hskip.resolve_left ConnectionState.noConfusion)
      · rw [disconnect_state] at hready
        cases hready
    · rw [forgetAt_of_ne pid s hc] at hready hpid
      exact (mem_cons.mp (hleft c hready hpid)).resolve_left hc

/-- **GONE** closes every connection of the process. -/
theorem sound_forget (h : Sound s connected) (pid : ℤ) : Sound (s.forget pid) connected := by
  have hkeeps := Keeps.foldl (keeps_forgetAt pid) (List.finRange connectionsMax) s
  have hleft := h.of_keeps hkeeps
  have hnone := pid_ne_of_forgotten pid (List.finRange connectionsMax) s
    fun c _ _ => mem_finRange c
  simp only [forget]
  generalize (List.finRange connectionsMax).foldl (forgetAt pid) s = left at hkeeps hleft hnone ⊢
  split
  · rename_i p hfound
    obtain ⟨-, hp⟩ := pid_of_findProcess hfound
    refine sound_addGone ⟨inv_setProcess hleft.inv (fun hc => absurd rfl hc)
      (fun hc => absurd rfl hc), ⟨hleft.ids.last, hleft.ids.given, hleft.ids.unique⟩, ?_⟩ pid
    intro hcon hr c hready
    obtain ⟨q, hne, hq, huid, hclock⟩ := hleft.matched hcon hr c hready
    have hqp : q ≠ p := by
      rintro rfl
      rw [hkeeps.processes, hp] at hq
      exact hnone c hready hq.symm
    refine ⟨q, ?_⟩
    rw [setProcess_of_ne _ _ hqp]
    exact ⟨hne, hq, huid, hclock⟩
  · exact sound_addGone hleft pid

/-- **AUDIBLE** changes nothing that connections are matched by. -/
theorem sound_setAudible (h : Sound s connected) (hfound : s.findProcess pid = some p)
    (audible : Bool) :
    Sound (s.setProcess p { s.processes p with audible := audible }) connected := by
  refine ⟨inv_setProcess h.inv ?_ ?_, ⟨h.ids.last, h.ids.given, h.ids.unique⟩, ?_⟩
  · intro hne i hi heq
    exact hi (h.inv.onePid p i hne heq.symm).symm
  · intro hne hclock i hi hine
    by_contra hic
    rw [Bool.not_eq_false] at hic
    exact hi (h.inv.oneClock p i hne hclock hine hic).symm
  · intro hcon hr c hready
    obtain ⟨q, hq⟩ := h.matched hcon hr c hready
    refine ⟨q, ?_⟩
    by_cases hqp : q = p
    · subst hqp
      rw [setProcess_self]
      exact hq
    · rw [setProcess_of_ne _ _ hqp]
      exact hq

theorem sound_announced (h : Sound s connected) (pid uid : List UInt8) (clock : Bool) :
    Sound
      (match cliPid pid, cliUid uid with
        | some pid, some uid => s.announce pid uid clock
        | _, _ => s) connected := by
  split
  · rename_i hpid _
    have hpos := (cliUnsigned_bounds hpid).1
    exact sound_announce h (by omega) _ clock
  · exact h

theorem sound_command (h : Sound s connected) (text : List UInt8) :
    Sound (s.command text) connected := by
  rw [command]
  split
  · split
    · exact sound_announced h _ _ false
    · exact h
  · split
    · exact sound_announced h _ _ true
    · split
      · split
        · split
          · rename_i hfound
            exact sound_setAudible h hfound _
          · exact h
        · exact h
      · exact h
  · split
    · split
      · exact sound_forget h _
      · exact h
    · exact h
  · exact h

/-! ### Deadlines -/

theorem matched_resync (s : Streams) :
    Matched ((List.finRange connectionsMax).foldl resyncAt s) := by
  refine @matched_foldl s.processes (fun _ => True) _ (fun t c => (keeps_resyncAt t c).processes)
    ?_ ?_ _ s rfl fun c _ => .inl ⟨mem_finRange c, trivial⟩
  · intro t c d hd
    simp only [resyncAt]
    split
    · rfl
    · exact disconnect_of_ne t hd
  · intro t c ht _ hafter
    simp only [resyncAt] at hafter ⊢
    split at hafter
    · rename_i hkept
      rw [if_pos hkept]
      have hannounced := hkept.resolve_left fun hne => hne hafter
      rw [announced] at hannounced
      split at hannounced
      · rename_i p hfound
        obtain ⟨hpos, hpid⟩ := pid_of_findProcess hfound
        obtain ⟨huid, hclock⟩ := of_decide_eq_true hannounced
        rw [ht] at hpid huid hclock
        exact ⟨p, by omega, hpid, huid, hclock⟩
      · cases hannounced
    · rw [disconnect_state] at hafter
      cases hafter

theorem sound_expire (h : Sound s connected) (now : ℕ) : Sound (s.expire now) connected := by
  have hdeadlines := fun t => Keeps.foldl (keeps_deadlineAt now) (List.finRange connectionsMax) t
  rw [expire]
  refine Sound.of_keeps ?_ (hdeadlines _)
  split
  · have hkeeps := Keeps.foldl keeps_resyncAt (List.finRange connectionsMax)
      { s with resyncMs := 0 }
    have hbefore : Sound { s with resyncMs := 0 } false :=
      ⟨⟨h.inv.onePid, h.inv.oneClock, h.inv.ready, h.inv.role, h.inv.few⟩,
        ⟨h.ids.last, h.ids.given, h.ids.unique⟩, fun hc => absurd hc Bool.false_ne_true⟩
    have hafter := hbefore.of_keeps hkeeps
    exact ⟨hafter.inv, hafter.ids, fun _ _ => matched_resync _⟩
  · exact h

theorem Sound.setOutput (h : Sound s connected) (output : Output) (tail : ℤ × ℤ) :
    Sound { s with output := output, tail := tail } connected :=
  ⟨⟨h.inv.onePid, h.inv.oneClock, h.inv.ready, h.inv.role, h.inv.few⟩,
    ⟨h.ids.last, h.ids.given, h.ids.unique⟩, h.matched⟩

/-! ### The manager -/

theorem sound_resync (h : Sound s connected) (now : ℕ) (connected' : Bool) :
    Sound (s.manager true now) connected' := by
  refine ⟨⟨h.inv.onePid, h.inv.oneClock, h.inv.ready, h.inv.role, h.inv.few⟩,
    ⟨h.ids.last, h.ids.given, h.ids.unique⟩, fun _ hr => ?_⟩
  have hr : now + resyncDelay = 0 := hr
  rw [resyncDelay] at hr
  omega

theorem sound_dropManager (h : Sound s connected) : Sound (s.manager false 0) false := by
  refine ⟨⟨?_, ?_, h.inv.ready, h.inv.role, h.inv.few⟩,
    ⟨h.ids.last, h.ids.given, h.ids.unique⟩, fun hc => absurd hc Bool.false_ne_true⟩
  · intro i j hne
    exact absurd rfl hne
  · intro i j hne
    exact absurd rfl hne

end Streams

namespace Service

open Streams

/-- An OPEN finds an ID left on its connection, which has not yet opened
2^32 - 1 streams. -/
def idLeft (s : Service) : Op → Bool
  | .receive index (.message message _) =>
    message.type ≠ typeOpen || (s.streams.connections index).lastId < 2 ^ 32 - 1
  | _ => true

/-- Whether a slot holds an application stream of this process. -/
def isAppOf (s : Streams) (pid : ℤ) (i : StreamIndex) : Bool :=
  (s.streams i).any fun stream =>
    s.streamPid stream = pid ∧ (s.connections stream.connection).clock = false

/-- What the service's policy owes: one clock helper; application streams below
the reserved slot, and in it only a stream of the clock role; streams only of
accepted connections, with nonzero IDs of their own; at most four application
streams of a process; and outside a resynchronization only accepted
connections of announced processes. -/
structure Policy (s : Service) : Prop where
  oneClock : ∀ i j, (s.streams.processes i).pid ≠ 0 → (s.streams.processes i).clock = true →
    (s.streams.processes j).pid ≠ 0 → (s.streams.processes j).clock = true → i = j
  appSlots : ∀ i stream, s.streams.streams i = some stream →
    (s.streams.connections stream.connection).clock = false → i < clockStreamIndex
  clockSlot : ∀ stream, s.streams.streams clockStreamIndex = some stream →
    (s.streams.connections stream.connection).clock = true
  ready : ∀ i stream, s.streams.streams i = some stream →
    (s.streams.connections stream.connection).state = .ready
  idNonzero : ∀ i stream, s.streams.streams i = some stream → stream.id ≠ 0
  idUnique : ∀ i j a b, s.streams.streams i = some a → s.streams.streams j = some b →
    a.connection = b.connection → a.id = b.id → i = j
  few : ∀ pid, (List.finRange streamsMax).countP (isAppOf s.streams pid) ≤ clientStreams
  matched : s.manager = true → s.streams.resyncMs = 0 → Matched s.streams

variable {s : Service}

theorem policy_of_sound (h : Sound s.streams s.manager) : Policy s where
  oneClock := h.inv.oneClock
  appSlots := by
    intro i stream hstream hclock
    have hrole := h.inv.role i stream hstream
    have hne : i ≠ clockStreamIndex := by
      intro hi
      rw [hrole.mpr hi] at hclock
      cases hclock
    have hlt : i.val < appStreams + 1 := i.isLt
    have hval : i.val ≠ appStreams := fun hv => hne (Fin.ext hv)
    show i.val < appStreams
    omega
  clockSlot stream hstream := (h.inv.role _ stream hstream).mpr rfl
  ready := h.inv.ready
  idNonzero i stream hstream := (h.ids.given i stream hstream).1
  idUnique := h.ids.unique
  few := by
    intro pid
    refine Nat.le_trans ?_ (h.inv.few pid)
    rw [slotsOf, List.countP_filter]
    refine countP_mono_left fun i _ hof => ?_
    obtain ⟨stream, hstream, happ⟩ := (any_eq_true _ _).mp hof
    obtain ⟨hpid, hclock⟩ := of_decide_eq_true happ
    have hrole := h.inv.role i stream hstream
    rw [Bool.and_eq_true]
    refine ⟨(any_eq_true _ _).mpr ⟨stream, hstream, decide_eq_true hpid⟩, ?_⟩
    refine decide_eq_true (decide_eq_false fun hi => ?_)
    rw [hrole.mpr hi] at hclock
    cases hclock
  matched := h.matched

theorem sound_setVolume (h : Sound s.streams true) (hmanager : s.manager = true) (level now : ℕ)
    (sent : Bool) :
    Sound (s.setVolume level now sent).streams (s.setVolume level now sent).manager := by
  simp only [setVolume]
  split <;> split
  · rw [hmanager]
    exact h
  · rw [hmanager]
    exact sound_resync h now true
  · exact sound_dropManager h
  · exact sound_dropManager (sound_resync h now true)

theorem sound_readManager (h : Sound s.streams true) (hmanager : s.manager = true)
    (text : List UInt8) (now : ℕ) (sent : Bool) :
    Sound (s.readManager text now sent).streams (s.readManager text now sent).manager := by
  rw [readManager]
  split
  · exact sound_dropManager h
  · split
    · rw [hmanager]
      exact h
    · split
      · split
        · exact sound_setVolume h hmanager _ now sent
        · rw [hmanager]
          exact h
      · show Sound (s.streams.command text) s.manager
        rw [hmanager]
        exact sound_command h text

/-- **One call keeps the tables sound.** -/
theorem sound_perform (h : Sound s.streams s.manager) {op : Op} (hid : s.idLeft op = true) :
    Sound (s.perform op).streams (s.perform op).manager := by
  cases op with
  | acceptManager now =>
    show Sound (s.acceptManager now).streams (s.acceptManager now).manager
    rw [acceptManager]
    split
    · exact sound_resync (sound_dropManager h) now true
    · exact sound_resync h now true
  | dropManager =>
    rw [perform]
    split
    · exact sound_dropManager h
    · exact h
  | readManager text now sent =>
    rw [perform]
    split
    · rename_i hmanager
      rw [hmanager] at h
      exact sound_readManager h hmanager text now sent
    · exact h
  | accept pid uid now => exact sound_accept h pid uid now
  | receive index received =>
    refine sound_receive h fun message grants hreceived hopen => ?_
    subst hreceived
    rw [idLeft, Bool.or_eq_true, decide_eq_true_eq, decide_eq_true_eq] at hid
    exact hid.resolve_left fun hne => hne hopen
  | disconnect index =>
    rw [perform]
    split
    · exact h
    · exact h.of_keeps (keeps_disconnect s.streams index)
  | expire now =>
    have hexpired := sound_expire h now
    dsimp only [perform]
    exact hexpired
  | refresh writes =>
    have hrefreshed := h.of_keeps (keeps_refresh s.streams writes)
    dsimp only [perform]
    exact hrefreshed
  | mix frames writes rings =>
    have hmixed := h.of_keeps (keeps_mix s.streams frames writes rings)
    dsimp only [perform]
    exact hmixed
  | publish played => exact h.of_keeps (keeps_publish s.streams played)
  | openDevice ok => exact h.setOutput _ s.streams.tail
  | makeUnavailable => exact h.setOutput _ s.streams.tail
  | closeDevice =>
    have hpublished := h.of_keeps (keeps_publish s.streams s.streams.mixed)
    exact hpublished.setOutput .closed (0, 0)

def slot0 : StreamIndex := ⟨0, streamsMax_pos⟩
def slot1 : StreamIndex := ⟨1, one_lt_streamsMax⟩
def connection0 : ConnectionIndex := ⟨0, by decide⟩

/-- OPEN of a mono stream, CLOSE, and HELLO. -/
def openMono : Message := { type := typeOpen, rate := 8000, channels := 1 }
def closeOf (id : ℕ) : Message := { type := typeClose, stream := id }
def helloNow : Message := { type := typeHello, version := protocolVersion }
def granted : Grants := ⟨true, true⟩

/-- An application connects and opens its first stream. -/
def firstOpen : List Op :=
  [.acceptManager 0, .readManager (Bytes.ascii "APP 7 1000 player") 0 true, .accept 7 1000 0,
    .receive connection0 (.message helloNow granted),
    .receive connection0 (.message openMono granted)]

/-- Its stream is audible and plays. -/
def playing : List Op :=
  firstOpen ++ [.expire 1000, .readManager (Bytes.ascii "AUDIBLE 7 1") 0 true, .refresh fun _ => 0]

/-- **What the policy owes holds in every run** whose OPENs find an ID left:
in every state, and after every refresh only streams of audible processes
play. -/
theorem policy_of_trace {l : List (Machine.Step Service Op)} (h : machine.Trace l s)
    (hids : ∀ x ∈ l, x.before.idLeft x.op = true) :
    Policy s ∧ ∀ x ∈ l, ∀ writes, x.op = .refresh writes → ∀ i, Unpaused x.after.streams i := by
  refine ⟨policy_of_sound ?_, ?_⟩
  · refine Machine.Trace.invariant (P := fun _ s => Sound s.streams s.manager)
      (K := fun x => x.before.idLeft x.op = true) ?_ ?_ h hids
    · rintro s rfl
      refine ⟨⟨?_, ?_, ?_, ?_, ?_⟩, ⟨?_, ?_, ?_⟩, fun hc => absurd hc Bool.false_ne_true⟩
      · intro i j hne
        exact absurd rfl hne
      · intro i j hne
        exact absurd rfl hne
      · intro i stream hstream
        cases hstream
      · intro i stream hstream
        cases hstream
      · intro pid
        have hnone : (slotsOf false).countP (isOf {} pid) = 0 :=
          List.countP_eq_zero.mpr fun i _ => Bool.false_ne_true
        exact Nat.le_trans (Nat.le_of_eq hnone) (Nat.zero_le _)
      · intro c
        exact Nat.two_pow_pos 32
      · intro i stream hstream
        cases hstream
      · intro i j a b ha
        cases ha
    · rintro l s op s' hsound rfl hid
      exact sound_perform hsound hid
  · intro x hx writes hop i
    obtain ⟨pre, post, hl⟩ := List.append_of_mem hx
    obtain ⟨-, hstep⟩ := h.split hl
    have hafter : x.after = x.before.perform x.op := hstep
    rw [hop] at hafter
    have hrefreshed := unpaused_refresh x.before.streams writes i
    rw [hafter]
    dsimp only [perform]
    exact hrefreshed

/-- A run with a stream that plays, past the resynchronization. -/
theorem policy_playing : ∃ s, Policy s ∧ s.manager = true ∧ s.streams.resyncMs = 0 ∧
    ∃ stream, s.streams.streams slot0 = some stream ∧ stream.mixer.paused = false ∧
      Unpaused s.streams slot0 := by
  have hids : ∀ x ∈ Machine.steps perform {} playing, x.before.idLeft x.op = true := by
    decide +kernel
  have hend : (playing.foldl perform {}).manager = true ∧
      (playing.foldl perform {}).streams.resyncMs = 0 ∧
      ((playing.foldl perform {}).streams.streams slot0).any (fun stream =>
        !stream.mixer.paused) = true := by decide +kernel
  have hstart : machine.Trace [] {} := .start rfl
  have hrun := hstart.steps playing fun _ _ _ => rfl
  rw [List.nil_append] at hrun
  obtain ⟨hpolicy, hplays⟩ := policy_of_trace hrun hids
  have hrefreshed := hplays
    ⟨(playing.dropLast).foldl perform {}, .refresh fun _ => 0, playing.foldl perform {}⟩
    (@List.mem_of_getElem? _ _ 7 _ rfl) (fun _ => 0) rfl slot0
  obtain ⟨hmanager, hresync, hunpaused⟩ := hend
  obtain ⟨stream, hstream, hplaying⟩ := (any_eq_true _ _).mp hunpaused
  exact ⟨_, hpolicy, hmanager, hresync, stream, hstream, by rwa [Bool.not_eq_true'] at hplaying,
    hrefreshed⟩

/-! ### An ID that comes back -/

/-- Its first stream is open and the only one; `lastId` IDs were given. -/
structure OneOpen (lastId : ℕ) (s : Streams) : Prop where
  ready : (s.connections connection0).state = .ready
  clock : (s.connections connection0).clock = false
  last : (s.connections connection0).lastId = lastId
  first : ∃ stream, s.streams slot0 = some stream ∧ stream.connection = connection0 ∧ stream.id = 1
  others : ∀ i, i ≠ slot0 → s.streams i = none

theorem slotsOf_app : slotsOf false = slot0 :: slot1 :: (slotsOf false).drop 2 := by decide

theorem finRange_streams :
    List.finRange streamsMax = slot0 :: slot1 :: (List.finRange streamsMax).drop 2 := by decide

variable {t : Streams} {lastId : ℕ}

theorem countP_oneOpen (h : OneOpen lastId t) (pid : ℤ) :
    (slotsOf false).countP (t.isOf pid) < clientStreams := by
  have hfirst : ∀ i, t.isOf pid i = true → decide (i = slot0) = true := by
    intro i hof
    by_contra hi
    rw [isOf, h.others i (fun heq => hi (decide_eq_true heq))] at hof
    cases hof
  have hone : (slotsOf false).countP (fun i => decide (i = slot0)) = 1 := by decide
  have hle := countP_mono_left fun i (_ : i ∈ slotsOf false) => hfirst i
  rw [hone] at hle
  exact Nat.lt_of_le_of_lt hle (by decide)

theorem receive_openMono (h : OneOpen lastId t) :
    t.receive connection0 (.message openMono granted) =
      (t.counted connection0 (nextId lastId)).setStream slot1
        (some (t.newStream connection0 openMono)) := by
  obtain ⟨first, hfirst, -, -⟩ := h.first
  have hslot : (slotsOf false).find? (fun i => (t.streams i).isNone) = some slot1 := by
    rw [slotsOf_app, List.find?_cons_of_neg, List.find?_cons_of_pos]
    · rw [h.others slot1 (by decide)]
      rfl
    · rw [hfirst]
      exact Bool.false_ne_true
  have hroom := Nat.not_le_of_lt (countP_oneOpen h (t.connections connection0).pid)
  have hopen : t.openStream connection0 openMono granted =
      ((t.counted connection0 (nextId lastId)).setStream slot1
        (some (t.newStream connection0 openMono)), true) := by
    have hslots : slotsOf (t.connections connection0).clock = slotsOf false := by rw [h.clock]
    have hlimit : streamLimit (t.connections connection0).clock = clientStreams := by
      rw [h.clock]
      rfl
    unfold openStream
    simp only [hslots, hlimit, hslot]
    rw [if_neg (by decide), if_neg hroom, ← h.last]
    rfl
  have hhandle : t.handle connection0 openMono granted =
      ((t.counted connection0 (nextId lastId)).setStream slot1
        (some (t.newStream connection0 openMono)), true) := by
    simp only [handle, h.ready]
    rw [if_neg (by decide), if_neg (by decide), if_pos (by decide), if_neg (by decide), hopen]
  unfold receive
  rw [if_neg (by rw [h.ready]; decide)]
  simp only [hhandle, if_true]

theorem oneOpen_reopened (h : OneOpen lastId t) (hpos : 0 < lastId) (hlt : lastId < 2 ^ 32 - 1) :
    OneOpen (lastId + 1) ((t.receive connection0 (.message openMono granted)).receive connection0
      (.message (closeOf (lastId + 1)) granted)) := by
  have hnext := nextId_eq hlt
  have hopened := receive_openMono h
  rw [hnext] at hopened
  rw [hopened]
  obtain ⟨first, hfirst, hconn, hid⟩ := h.first
  generalize hu : (t.counted connection0 (lastId + 1)).setStream slot1
    (some (t.newStream connection0 openMono)) = u
  have hconnection : u.connections connection0 =
      { t.connections connection0 with lastId := lastId + 1 } := by
    rw [← hu]
    show (t.counted connection0 (lastId + 1)).connections connection0 = _
    rw [connections_counted, if_pos rfl]
  have hslot0 : u.streams slot0 = some first := by
    rw [← hu, setStream_of_ne _ _ (by decide)]
    exact hfirst
  have hslot1 : u.streams slot1 = some (t.newStream connection0 openMono) := by
    rw [← hu, setStream_self]
  have hothers : ∀ i, i ≠ slot0 → i ≠ slot1 → u.streams i = none := by
    intro i hi0 hi1
    rw [← hu, setStream_of_ne _ _ hi1]
    exact h.others i hi0
  have hnewId : (t.newStream connection0 openMono).id = lastId + 1 := by
    rw [← hnext, ← h.last]
    rfl
  have hfound : u.findStream connection0 (lastId + 1) = some slot1 := by
    rw [findStream, finRange_streams, List.find?_cons_of_neg, List.find?_cons_of_pos]
    · rw [hslot1, any_some, hnewId]
      exact decide_eq_true ⟨rfl, rfl⟩
    · rw [hslot0, any_some, hid]
      intro hc
      have hlast := (of_decide_eq_true hc).2
      omega
  have hready : (u.connections connection0).state = .ready := by
    rw [hconnection]
    exact h.ready
  have hclosed : u.receive connection0 (.message (closeOf (lastId + 1)) granted) =
      u.endStream slot1 := by
    have hhandle : u.handle connection0 (closeOf (lastId + 1)) granted =
        (u.endStream slot1, true) := by
      simp only [handle, closeOf, hready, typeHello, typeOpen, typeClose]
      simp [hfound]
    unfold receive
    rw [if_neg (by rw [hready]; decide)]
    simp only [hhandle, if_true]
  have hends : (u.endStream slot1).connections = u.connections := by
    rw [endStream, hslot1]
    rfl
  rw [hclosed]
  refine ⟨?_, ?_, ?_, ⟨first, ?_, hconn, hid⟩, ?_⟩
  · rw [hends]
    exact hready
  · rw [hends, hconnection]
    exact h.clock
  · rw [hends, hconnection]
  · rw [streams_endStream, if_neg (by decide)]
    exact hslot0
  · intro i hi
    rw [streams_endStream]
    split
    · rfl
    · rename_i hi1
      exact hothers i hi hi1

theorem reachable_foldl (h : machine.Reachable s) (ops : List Op) :
    machine.Reachable (ops.foldl perform s) := by
  induction ops generalizing s with
  | nil => exact h
  | cons op ops ih => exact ih (h.step rfl)

theorem oneOpen_firstOpen : OneOpen 1 (firstOpen.foldl perform {}).streams := by
  have hfirst : ((firstOpen.foldl perform {}).streams.streams slot0).any (fun stream =>
      decide (stream.connection = connection0 ∧ stream.id = 1)) = true := by decide +kernel
  have hothers : ∀ i, i ≠ slot0 →
      ((firstOpen.foldl perform {}).streams.streams i).isNone = true := by decide +kernel
  obtain ⟨stream, hstream, hown⟩ := (any_eq_true _ _).mp hfirst
  obtain ⟨hconn, hid⟩ := of_decide_eq_true hown
  refine ⟨?_, ?_, ?_, ⟨stream, hstream, hconn, hid⟩, ?_⟩
  · decide +kernel
  · decide +kernel
  · decide +kernel
  · exact fun i hi => Option.isNone_iff_eq_none.mp (hothers i hi)

theorem exists_allGiven : ∀ n, n + 1 < 2 ^ 32 →
    ∃ s, machine.Reachable s ∧ OneOpen (n + 1) s.streams := by
  intro n
  induction n with
  | zero =>
    intro _
    exact ⟨firstOpen.foldl perform {}, reachable_foldl (.start rfl) firstOpen, oneOpen_firstOpen⟩
  | succ n ih =>
    intro hn
    obtain ⟨s, hreach, hopen⟩ := ih (by omega)
    have hopened : machine.Reachable
        (s.perform (.receive connection0 (.message openMono granted))) := hreach.step rfl
    have hclosed : machine.Reachable
        ((s.perform (.receive connection0 (.message openMono granted))).perform
          (.receive connection0 (.message (closeOf (n + 1 + 1)) granted))) := hopened.step rfl
    exact ⟨_, hclosed, oneOpen_reopened hopen (Nat.succ_pos n) (by omega)⟩

/-- **An ID comes back** while its stream is open: after 2^32 - 1 OPENs the
count starts again, and the next stream gets the ID of the first. -/
theorem sharedId_of_reopened : ∃ s, machine.Reachable s ∧ ∃ i j a b, i ≠ j ∧
    s.streams.streams i = some a ∧ s.streams.streams j = some b ∧
    a.connection = b.connection ∧ a.id = b.id := by
  obtain ⟨s, hreach, hopen⟩ := exists_allGiven (2 ^ 32 - 2) (by omega)
  obtain ⟨first, hfirst, hconn, hid⟩ := hopen.first
  have hopened := receive_openMono hopen
  have hlast : machine.Reachable (s.perform (.receive connection0 (.message openMono granted))) :=
    hreach.step rfl
  refine ⟨_, hlast, slot0, slot1, first, s.streams.newStream connection0 openMono, by decide,
    ?_, ?_, hconn, ?_⟩
  · show (s.streams.receive connection0 (.message openMono granted)).streams slot0 = _
    rw [hopened, setStream_of_ne _ _ (by decide)]
    exact hfirst
  · show (s.streams.receive connection0 (.message openMono granted)).streams slot1 = _
    rw [hopened, setStream_self]
  · rw [hid]
    show 1 = nextId (s.streams.connections connection0).lastId
    rw [hopen.last]
    rfl

end Service

end Audiod
