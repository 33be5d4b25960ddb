/-
When no wake-up of the audio hand-off is lost.

A stream that is audible and has unread frames is not left asleep with the
card closed, in any run in which a write that takes its KICK for a repeated
one has a current read counter (`Handoff.Current`, `Handoff.not_leftAsleep`).
Without that condition one is: `leftAsleep_of_pausedWrite` is a run in which a
write pauses between its load of `read` and its store of `write`, over a whole
period in which the service wakes, plays and closes the card again.

The invariant `Inv` has three parts.  `PhaseOk`: outside `fill` the published
read position is the mixer's, and a service that dozes with the card closed
has set `sleeping`.  `ClientOk`: the read counters behind `read` and
`kick_read` lie below the frames written, by at most one and two rings, so
that equal words are equal counters.  `DozeOk`: while the service dozes, frames
it has not seen come with a KICK or with a write that will still look at
`sleeping`, and `kick_read` equal to the read position comes with a KICK.
-/
import Fplinux.Audio.Delivery
import Fplinux.Audio.Handoff

namespace Audio

/-! ### What the steps on the stream leave alone -/

namespace Stream

/-- The service is between two calls and has published what it read. -/
structure Settled (s : Stream) : Prop where
  turn : s.service.turn = .ready
  read : s.ring.read = s.service.mixer.read

/-- The application's side is the same. -/
structure SameClient (s t : Stream) : Prop where
  sent : t.sent = s.sent
  client : t.client = s.client

/-- The service's side is the same. -/
structure SameService (s t : Stream) : Prop where
  service : t.service = s.service
  read : t.ring.read = s.ring.read

/-- The service's work on the ring, between `update` and `open_device`. -/
def works : Op → Bool
  | .loadWrite | .mix | .deviceWrite _ | .publish _ | .storeRead | .storeHeard => true
  | _ => false

variable {cfg : Config} {s t : Stream} {g : Ghost}

theorem Settled.of_sameService (h : s.Settled) (hsame : s.SameService t) : t.Settled := by
  refine ⟨?_, ?_⟩
  · rw [hsame.service]
    exact h.turn
  · rw [hsame.service, hsame.read]
    exact h.read

theorem sameClient_mix (cfg : Config) (s : Stream) (write : ℕ) :
    s.SameClient (s.mix cfg write) ∧ (s.mix cfg write).service.output = s.service.output := by
  rw [mix]
  split
  · exact ⟨⟨rfl, rfl⟩, rfl⟩
  · exact ⟨⟨rfl, rfl⟩, rfl⟩

theorem sameClient_of_works {op : Op} (hs : s.step cfg op = some t) (hworks : works op = true) :
    s.SameClient t ∧ t.service.output = s.service.output := by
  cases stepped_of_step hs with
  | mix => exact sameClient_mix cfg s _
  | loadWrite => exact ⟨⟨rfl, rfl⟩, rfl⟩
  | deviceWrite => exact ⟨⟨rfl, rfl⟩, rfl⟩
  | publish => exact ⟨⟨rfl, rfl⟩, rfl⟩
  | storeRead => exact ⟨⟨rfl, rfl⟩, rfl⟩
  | storeHeard => exact ⟨⟨rfl, rfl⟩, rfl⟩
  | _ => cases hworks

theorem sameClient_of_closeDevice (hs : s.step cfg .closeDevice = some t) : s.SameClient t := by
  cases stepped_of_step hs with
  | closeDevice => exact ⟨rfl, rfl⟩

theorem settled_of_storeHeard (h : Inv cfg s g) (hs : s.step cfg .storeHeard = some t) :
    t.Settled := by
  cases stepped_of_step hs with
  | storeHeard hturn =>
    have hok := h.turn
    simp only [TurnOk, hturn] at hok
    refine ⟨rfl, ?_⟩
    show s.ring.read = s.service.mixer.read
    rw [h.counters.ringRead, h.counters.mixerRead, hok.2]

theorem takenNow_le_count (cfg : Config) (s : Stream) (count : ℕ) :
    s.takenNow cfg count ≤ count := by
  rw [takenNow]
  split <;> split <;> omega

theorem loadRead_cases (h : Inv cfg s g) {frames : List Frame}
    (hs : s.loadRead cfg frames = some t) :
    t = s ∨ ∃ taken, taken ≠ [] ∧ s.client.writing = .idle ∧
      t = { s with client.writing := .copying taken } := by
  rw [loadRead, h.notEnded] at hs
  simp only [Bool.false_eq_true, if_false] at hs
  split at hs
  · rename_i hidle
    split at hs
    · exact .inl (Option.some.inj hs).symm
    · rename_i htaken
      refine .inr ⟨_, ?_, hidle, (Option.some.inj hs).symm⟩
      have hle := s.takenNow_le_count cfg frames.length
      intro hnil
      have hlen := congrArg List.length hnil
      rw [List.length_take, List.length_nil] at hlen
      omega
  · cases hs

theorem copyFirst_cases (hs : s.copyFirst cfg = some t) :
    ∃ frames slots, s.client.writing = .copying frames ∧
      t = { s with ring.slots := slots, client.writing := .wrapping frames } := by
  rw [copyFirst] at hs
  split at hs
  · rename_i frames hwriting
    exact ⟨frames, _, hwriting, (Option.some.inj hs).symm⟩
  · cases hs

theorem copyRest_cases (hs : s.copyRest cfg = some t) :
    ∃ frames slots, s.client.writing = .wrapping frames ∧
      t = { s with ring.slots := slots, client.writing := .copied frames } := by
  rw [copyRest] at hs
  split at hs
  · rename_i frames hwriting
    exact ⟨frames, _, hwriting, (Option.some.inj hs).symm⟩
  · cases hs

theorem storeWrite_cases (hs : s.storeWrite = some t) :
    ∃ frames, s.client.writing = .copied frames ∧ s.SameService t ∧
      t.client.writing = .idle ∧ t.sent = s.sent ++ frames := by
  rw [storeWrite] at hs
  split at hs
  · rename_i frames hwriting
    rw [← Option.some.inj hs]
    exact ⟨frames, hwriting, ⟨rfl, rfl⟩, rfl, rfl⟩
  · cases hs

end Stream

namespace Handoff

/-! ### The invariant -/

/-- What holds at the service's place in its loop. -/
def PhaseOk (s : Handoff) : Prop :=
  match s.phase with
  | .serving | .idling => s.stream.Settled
  | .polling => s.stream.Settled ∧ (s.stream.service.output = .closed → s.sleeping = true)
  | .updating pass => s.stream.Settled ∧ (pass = .third → s.stream.service.output ≠ .closed)
  | .storing pass =>
    s.stream.Settled ∧ (pass = .third → s.stream.service.output ≠ .closed) ∧
      s.stream.service.mixer.paused = !s.audible
  | .looking pass =>
    s.stream.Settled ∧ (pass = .third → s.stream.service.output ≠ .closed) ∧
      s.stream.service.mixer.paused = !s.audible ∧ s.sleeping = s.asleep
  | .looked pass _ =>
    s.stream.Settled ∧
      (s.stream.service.output = .closed → pass ≠ .third ∧ s.sleeping = true)
  | .filling _ => s.stream.service.output = .opened
  | .publishing _ failed => failed = false → s.stream.service.output ≠ .closed
  | .closing => True

/-- The counters behind the words of the application's write: `read` as it was
loaded, and as it was for the last KICK. -/
structure ClientOk (cfg : Config) (s : Handoff) : Prop where
  place : s.call ≠ .outside → s.stream.client.writing = .idle
  nonempty : s.stream.client.writing ≠ .idle → s.stream.client.writing.frames ≠ []
  loaded : ∃ n, s.loaded = n % 2 ^ 32 ∧ n ≤ s.stream.sent.length ∧
    s.stream.sent.length + s.stream.client.writing.frames.length ≤ n + cfg.capacity ∧
    (s.call ≠ .outside → n < s.stream.sent.length)
  kicked : s.kicked = true → ∃ n, s.kickRead = n % 2 ^ 32 ∧ n < s.stream.sent.length ∧
    s.stream.sent.length ≤ n + 2 * cfg.capacity ∧
    (s.call = .outside → s.stream.sent.length ≤ n + cfg.capacity)

/-- What holds of an audible stream while the service dozes and the card is
closed. -/
structure DozeOk (s : Handoff) : Prop where
  unseen : s.dozes → s.stream.service.output = .closed → s.audible = true →
    s.stream.ring.write ≠ s.stream.ring.read → 0 < s.kicks ∨ s.call ≠ .outside
  repeated : s.dozes → s.stream.service.output = .closed → s.audible = true →
    s.kicked = true → s.kickRead = s.stream.ring.read → 0 < s.kicks

structure Inv (cfg : Config) (s : Handoff) : Prop where
  stream : ∃ g, Stream.Inv cfg s.stream g
  copy : s.storedSleeping = s.sleeping
  phase : PhaseOk s
  client : ClientOk cfg s
  doze : DozeOk s

variable {cfg : Config} {s s' : Handoff} {stream : Stream}

theorem sleeping_of_dozes (h : PhaseOk s) (hdozes : s.dozes)
    (hclosed : s.stream.service.output = .closed) : s.sleeping = true := by
  rcases hdozes with hphase | hphase <;> simp only [PhaseOk, hphase] at h
  · exact h.2 hclosed
  · exact (h.2 hclosed).2

theorem DozeOk.of_not_dozes (h : ¬ s.dozes) : DozeOk s :=
  ⟨fun hdozes => absurd hdozes h, fun hdozes => absurd hdozes h⟩

theorem DozeOk.of_not_closed (h : s.stream.service.output ≠ .closed) : DozeOk s :=
  ⟨fun _ hclosed => absurd hclosed h, fun _ hclosed => absurd hclosed h⟩

theorem ClientOk.of_sameClient (h : ClientOk cfg s) (hsame : s.stream.SameClient stream) :
    ClientOk cfg (s.withStream stream) := by
  obtain ⟨hplace, hnonempty, hloaded, hkicked⟩ := h
  rw [← hsame.client] at hplace hnonempty hloaded
  rw [← hsame.sent] at hloaded hkicked
  exact ⟨hplace, hnonempty, hloaded, hkicked⟩

theorem PhaseOk.of_sameService (h : PhaseOk s) (hsame : s.stream.SameService stream) :
    PhaseOk (s.withStream stream) := by
  have hsettled : s.stream.Settled → stream.Settled := fun h => h.of_sameService hsame
  cases hphase : s.phase <;>
    simp only [PhaseOk, asleep, withStream, hphase, hsame.service] at h ⊢ <;> grind

/-! ### Steps of the application -/

theorem Inv.of_writing (h : Inv cfg s) (hinv : ∃ g, Stream.Inv cfg stream g)
    (hsame : s.stream.SameService stream) (hwrite : stream.ring.write = s.stream.ring.write)
    (loaded : ℕ) (hclient : ClientOk cfg { s with stream := stream, loaded := loaded }) :
    Inv cfg { s with stream := stream, loaded := loaded } where
  stream := hinv
  copy := h.copy
  phase := h.phase.of_sameService hsame
  client := hclient
  doze := by
    obtain ⟨hunseen, hrepeated⟩ := h.doze
    rw [← hsame.service, ← hsame.read, ← hwrite] at hunseen
    rw [← hsame.service, ← hsame.read] at hrepeated
    exact ⟨hunseen, hrepeated⟩

theorem inv_loadRead (h : Inv cfg s) {frames : List Frame} (hcall : s.call = .outside)
    (hs : s.stream.loadRead cfg frames = some stream) :
    Inv cfg { s with stream := stream, loaded := s.stream.ring.read } := by
  obtain ⟨g, hg⟩ := h.stream
  have hg' := Stream.inv_loadRead hg hs
  have hpub := hg.counters.published_le
  have htaken := hg.counters.taken_le
  have hroom := hg'.counters.room
  have houtside : ∀ {P : Prop}, s.call ≠ .outside → P := fun hc => absurd hcall hc
  rcases Stream.loadRead_cases hg hs with rfl | ⟨taken, hsome, _, rfl⟩
  · refine h.of_writing ⟨g, hg⟩ ⟨rfl, rfl⟩ rfl _ ⟨h.client.place, h.client.nonempty, ?_, h.client.kicked⟩
    exact ⟨g.published, hg.counters.ringRead, Nat.le_trans hpub htaken, hroom, houtside⟩
  · refine h.of_writing ⟨g, hg'⟩ ⟨rfl, rfl⟩ rfl _ ⟨houtside, fun _ => hsome, ?_, h.client.kicked⟩
    exact ⟨g.published, hg.counters.ringRead, Nat.le_trans hpub htaken, hroom, houtside⟩

theorem inv_copy (h : Inv cfg s) {writing : Writing} {slots : List Frame}
    (hinv : ∃ g, Stream.Inv cfg
      { s.stream with ring.slots := slots, client.writing := writing } g)
    (hframes : writing.frames = s.stream.client.writing.frames)
    (hbusy : s.stream.client.writing ≠ .idle) :
    Inv cfg
      (s.withStream { s.stream with ring.slots := slots, client.writing := writing }) := by
  refine h.of_writing hinv ⟨rfl, rfl⟩ rfl s.loaded ⟨?_, ?_, ?_, h.client.kicked⟩
  · intro hcall
    exact absurd (h.client.place hcall) hbusy
  · intro _
    show writing.frames ≠ []
    rw [hframes]
    exact h.client.nonempty hbusy
  · obtain ⟨n, hn, hle, hroom, hlt⟩ := h.client.loaded
    rw [← hframes] at hroom
    exact ⟨n, hn, hle, hroom, hlt⟩

theorem inv_copyFirst (h : Inv cfg s) (hs : s.stream.copyFirst cfg = some stream) :
    Inv cfg (s.withStream stream) := by
  obtain ⟨g, hg⟩ := h.stream
  have hinv := Stream.inv_copyFirst hg hs
  obtain ⟨frames, slots, hwriting, rfl⟩ := Stream.copyFirst_cases hs
  refine inv_copy h ⟨g, hinv⟩ ?_ ?_
  · rw [hwriting]
    rfl
  · rw [hwriting]
    exact Writing.noConfusion

theorem inv_copyRest (h : Inv cfg s) (hs : s.stream.copyRest cfg = some stream) :
    Inv cfg (s.withStream stream) := by
  obtain ⟨g, hg⟩ := h.stream
  have hinv := Stream.inv_copyRest hg hs
  obtain ⟨frames, slots, hwriting, rfl⟩ := Stream.copyRest_cases hs
  refine inv_copy h ⟨g, hinv⟩ ?_ ?_
  · rw [hwriting]
    rfl
  · rw [hwriting]
    exact Writing.noConfusion

theorem inv_storeWrite (h : Inv cfg s) (hs : s.stream.storeWrite = some stream) :
    Inv cfg { s with stream := stream, call := .stored } := by
  obtain ⟨g, hg⟩ := h.stream
  have hinv := Stream.inv_storeWrite hg hs
  obtain ⟨frames, hwriting, hsame, hidle, hsent⟩ := Stream.storeWrite_cases hs
  have hbusy : s.stream.client.writing ≠ .idle := by
    rw [hwriting]
    exact Writing.noConfusion
  have hcall : s.call = .outside := by
    by_contra hc
    exact hbusy (h.client.place hc)
  have hframes : s.stream.client.writing.frames = frames := by
    rw [hwriting]
    rfl
  have hsome : 0 < frames.length := by
    rw [← hframes]
    exact List.length_pos_of_ne_nil (h.client.nonempty hbusy)
  have hlen : stream.sent.length = s.stream.sent.length + frames.length := by
    rw [hsent, List.length_append]
  obtain ⟨n, hn, hle, hroom, -⟩ := h.client.loaded
  rw [hframes] at hroom
  exact
    { stream := ⟨g, hinv⟩
      copy := h.copy
      phase := h.phase.of_sameService hsame
      client :=
        { place := fun _ => hidle
          nonempty := fun hbusy => absurd hidle hbusy
          loaded := by
            refine ⟨n, hn, ?_, ?_, ?_⟩
            · show n ≤ stream.sent.length
              omega
            · show stream.sent.length + stream.client.writing.frames.length ≤ _
              rw [hidle, hlen]
              exact hroom
            · intro _
              show n < stream.sent.length
              omega
          kicked := by
            intro hkicked
            obtain ⟨m, hm, hlt, -, hnear⟩ := h.client.kicked hkicked
            have hnear := hnear hcall
            refine ⟨m, hm, ?_, ?_, fun hc => ?_⟩
            · show m < stream.sent.length
              omega
            · show stream.sent.length ≤ _
              omega
            · cases hc }
      doze :=
        { unseen := fun _ _ _ _ => .inr Call.noConfusion
          repeated := by
            have hrepeated := h.doze.repeated
            rw [← hsame.service, ← hsame.read] at hrepeated
            exact hrepeated } }

/-- **A write that sends no KICK is not needed to.**  It found `sleeping`
clear, and the service does not doze with the card closed; or `read` is still
where it was for the last KICK, and that one is in flight. -/
theorem inv_loadSleeping (h : Inv cfg s) (hs : s.loadSleeping = some s')
    (hcurrent : s.suppresses → s.dozes → s.stream.ring.read = s.loaded) : Inv cfg s' := by
  rw [loadSleeping] at hs
  split at hs
  · rename_i hcall
    have hidle := h.client.place (by rw [hcall]; exact Call.noConfusion)
    obtain ⟨n, hn, hle, hroom, hlt⟩ := h.client.loaded
    have hlt := hlt (by rw [hcall]; exact Call.noConfusion)
    have hcap := cfg.capacity_le
    rw [hidle] at hroom
    have hloaded : ∃ n, s.loaded = n % 2 ^ 32 ∧ n ≤ s.stream.sent.length ∧
        s.stream.sent.length + s.stream.client.writing.frames.length ≤ n + cfg.capacity ∧
        (Call.outside ≠ .outside → n < s.stream.sent.length) := by
      refine ⟨n, hn, hle, ?_, fun hc => absurd rfl hc⟩
      rw [hidle]
      exact hroom
    rw [← Option.some.inj hs]
    split_ifs with hawake hnew
    · -- A service that dozes with the card closed has set `sleeping`.
      have hawake : s.sleeping = false := by simpa using hawake
      refine ⟨h.stream, h.copy, h.phase, ⟨fun hc => absurd rfl hc, h.client.nonempty, hloaded,
        fun hk => absurd hk Bool.false_ne_true⟩, ?_, fun _ _ _ hk => absurd hk Bool.false_ne_true⟩
      intro hdozes hclosed _ _
      have hset := sleeping_of_dozes h.phase hdozes hclosed
      rw [hawake] at hset
      cases hset
    · refine ⟨h.stream, h.copy, h.phase, ⟨fun _ => hidle, h.client.nonempty,
        ⟨n, hn, hle, ?_, fun _ => hlt⟩, ?_⟩, fun _ _ _ _ => .inr Call.noConfusion, h.doze.repeated⟩
      · show _ + s.stream.client.writing.frames.length ≤ _
        rw [hidle]
        exact hroom
      · intro hkicked
        obtain ⟨m, hm, hltm, hnear, -⟩ := h.client.kicked hkicked
        exact ⟨m, hm, hltm, hnear, Call.noConfusion⟩
    · -- Equal words are equal counters: both lie within two rings of the end.
      simp only [Bool.not_eq_false, Bool.or_eq_true, decide_eq_true_eq,
        Bool.not_eq_true', not_or, not_not] at hawake hnew
      obtain ⟨hkicked, heq⟩ := hnew
      obtain ⟨m, hm, hltm, hnear, -⟩ := h.client.kicked hkicked
      have hsame : m = n := by
        rw [hn, hm] at heq
        simp only [Writing.frames, List.length_nil] at hroom
        omega
      refine ⟨h.stream, h.copy, h.phase, ⟨fun hc => absurd rfl hc, h.client.nonempty, hloaded, ?_⟩,
        ?_, h.doze.repeated⟩
      · intro _
        refine ⟨m, hm, hltm, hnear, fun _ => ?_⟩
        rw [hsame]
        exact hroom
      · intro hdozes hclosed haudible _
        have hread := hcurrent ⟨hcall, hawake, hkicked, heq⟩ hdozes
        exact .inl (h.doze.repeated hdozes hclosed haudible hkicked (by rw [← heq, ← hread]))
  · cases hs

theorem inv_sendKick (h : Inv cfg s) (hcall : s.call = .kicking) :
    Inv cfg
      { s with kicks := s.kicks + 1, kicked := true, kickRead := s.loaded, call := .outside } := by
  have hidle := h.client.place (by rw [hcall]; exact Call.noConfusion)
  obtain ⟨n, hn, hle, hroom, hlt⟩ := h.client.loaded
  have hlt := hlt (by rw [hcall]; exact Call.noConfusion)
  rw [hidle] at hroom
  exact
    { stream := h.stream
      copy := h.copy
      phase := h.phase
      client :=
        { place := fun hc => absurd rfl hc
          nonempty := h.client.nonempty
          loaded := by
            refine ⟨n, hn, hle, ?_, fun hc => absurd rfl hc⟩
            show _ + s.stream.client.writing.frames.length ≤ _
            rw [hidle]
            exact hroom
          kicked := fun _ => ⟨n, hn, hlt, Nat.le_trans hroom (by omega), fun _ => hroom⟩ }
      doze := ⟨fun _ _ _ _ => .inl (Nat.succ_pos _), fun _ _ _ _ _ => Nat.succ_pos _⟩ }

/-! ### Steps of the service -/

theorem inv_update (h : Inv cfg s) {pass : Pass} (hphase : s.phase = .updating pass) :
    Inv cfg (s.update pass) := by
  obtain ⟨g, hg⟩ := h.stream
  have hok := h.phase
  simp only [PhaseOk, hphase] at hok
  obtain ⟨hsettled, hthird⟩ := hok
  have hinv := Stream.inv_setPaused hg hsettled.turn (!s.audible)
  have hdozes : ∀ t : Handoff, t.phase = .storing pass → ¬ t.dozes := by
    rintro t ht (hc | hc) <;> rw [ht] at hc <;> cases hc
  rw [update]
  split
  · exact ⟨⟨g, hinv⟩, h.copy, ⟨⟨hsettled.turn, hsettled.read⟩, hthird, rfl⟩, { h.client with },
      .of_not_dozes (hdozes _ rfl)⟩
  · exact ⟨⟨g, hinv⟩, h.copy, ⟨⟨hsettled.turn, hsettled.read⟩, hthird, rfl⟩, { h.client with },
      .of_not_dozes (hdozes _ rfl)⟩

theorem inv_storeSleeping (h : Inv cfg s) {pass : Pass} (hphase : s.phase = .storing pass) :
    Inv cfg (s.storeSleeping pass) := by
  have hok := h.phase
  simp only [PhaseOk, hphase] at hok
  obtain ⟨hsettled, hthird, hpaused⟩ := hok
  have hdozes : ¬ ({ s with phase := .looking pass } : Handoff).dozes := by
    rintro (hc | hc) <;> cases hc
  rw [storeSleeping]
  split
  · exact ⟨h.stream, rfl, ⟨hsettled, hthird, hpaused, rfl⟩, { h.client with },
      .of_not_dozes hdozes⟩
  · rename_i hsame
    have hset : s.sleeping = s.asleep := by
      rw [← h.copy]
      exact not_not.mp hsame
    exact ⟨h.stream, h.copy, ⟨hsettled, hthird, hpaused, hset⟩, { h.client with },
      .of_not_dozes hdozes⟩

theorem asleep_of_closed (hclosed : s.stream.service.output = .closed) : s.asleep = true := by
  rw [asleep, hclosed, Bool.or_eq_true]
  exact .inr rfl

variable {pass : Pass} {wanted : Bool}

/-- **The last look.**  A service that finds no frames knows of every frame
written, and `kick_read` lies below them. -/
theorem inv_look (h : Inv cfg s) (hphase : s.phase = .looking pass) (others : Bool) :
    Inv cfg (s.look others pass) := by
  obtain ⟨g, hg⟩ := h.stream
  have hok := h.phase
  simp only [PhaseOk, hphase] at hok
  obtain ⟨hsettled, hthird, hpaused, hset⟩ := hok
  have hlooked : s.stream.service.output = .closed → pass ≠ .third ∧ s.sleeping = true := by
    intro hclosed
    refine ⟨fun hpass => hthird hpass hclosed, ?_⟩
    rw [hset]
    exact asleep_of_closed hclosed
  rw [look]
  split
  · -- The stream would play and sleeps.
    simp only [if_neg (Stream.available_le hg)]
    refine ⟨⟨g, hg⟩, h.copy, ⟨hsettled, hlooked⟩, { h.client with }, ?_⟩
    by_cases hnone : Word.sub 32 s.stream.ring.write s.stream.service.mixer.read = 0
    · have htaken := hg.counters.taken_le
      rw [Stream.available_eq hg] at hnone
      have hall : s.stream.ring.write = s.stream.ring.read := by
        rw [hsettled.read, hg.counters.ringWrite, hg.counters.mixerRead]
        congr 1
        omega
      refine ⟨fun _ _ _ hne => absurd hall hne, ?_⟩
      intro _ _ _ hkicked hread
      obtain ⟨n, hn, hlt, hnear, -⟩ := h.client.kicked hkicked
      have hcap := cfg.capacity_le
      have hread : s.kickRead = s.stream.ring.read := hread
      rw [← hall, hn, hg.counters.ringWrite] at hread
      omega
    · refine .of_not_dozes ?_
      rintro (hc | hc)
      · cases hc
      · simp only [Phase.looked.injEq, Bool.or_eq_false_iff, decide_eq_false_iff_not] at hc
        exact hc.2.2 hnone
  · rename_i hskip
    refine ⟨⟨g, hg⟩, h.copy, ⟨hsettled, hlooked⟩, { h.client with }, ?_⟩
    have hinaudible : s.stream.service.output = .closed → s.audible = true → False := by
      intro hclosed haudible
      rw [hpaused, asleep_of_closed hclosed, haudible] at hskip
      exact hskip rfl
    exact ⟨fun _ hclosed haudible => (hinaudible hclosed haudible).elim,
      fun _ hclosed haudible => (hinaudible hclosed haudible).elim⟩

theorem inv_fill (h : Inv cfg s) (hphase : s.phase = .filling pass) {op : Audio.Op}
    (hworks : Stream.works op = true) (hs : s.stream.step cfg op = some stream) (audibleMs : ℕ) :
    Inv cfg { s with stream := stream, audibleMs := audibleMs } := by
  obtain ⟨g, hg⟩ := h.stream
  obtain ⟨g', hg', -⟩ := Stream.inv_step hg hs
  obtain ⟨hsame, houtput⟩ := Stream.sameClient_of_works hs hworks
  have hok := h.phase
  simp only [PhaseOk, hphase] at hok
  refine ⟨⟨g', hg'⟩, h.copy, ?_, { h.client.of_sameClient hsame with }, .of_not_dozes ?_⟩
  · simp only [PhaseOk, hphase]
    rw [houtput]
    exact hok
  · rintro (hc | hc) <;> simp only [hphase, reduceCtorEq] at hc

theorem inv_publish (h : Inv cfg s) (hphase : s.phase = .filling pass) {delay : ℕ}
    (hs : s.stream.step cfg (.publish delay) = some stream) :
    Inv cfg { s with stream := stream, phase := .publishing pass false } := by
  obtain ⟨g, hg⟩ := h.stream
  obtain ⟨g', hg', -⟩ := Stream.inv_step hg hs
  obtain ⟨hsame, houtput⟩ := Stream.sameClient_of_works hs rfl
  have hok := h.phase
  simp only [PhaseOk, hphase] at hok
  refine ⟨⟨g', hg'⟩, h.copy, ?_, { h.client.of_sameClient hsame with }, .of_not_dozes ?_⟩
  · intro _
    show stream.service.output ≠ .closed
    rw [houtput, hok]
    exact Output.noConfusion
  · rintro (hc | hc) <;> cases hc

theorem inv_closeDevice (h : Inv cfg s) (hs : s.stream.step cfg .closeDevice = some stream)
    {phase : Phase} (hphase : (∃ pass, phase = .publishing pass true) ∨ phase = .closing) :
    Inv cfg { s with stream := stream, phase := phase } := by
  obtain ⟨g, hg⟩ := h.stream
  obtain ⟨g', hg', -⟩ := Stream.inv_step hg hs
  have hsame := Stream.sameClient_of_closeDevice hs
  rcases hphase with ⟨pass, rfl⟩ | rfl
  · refine ⟨⟨g', hg'⟩, h.copy, ?_, { h.client.of_sameClient hsame with }, .of_not_dozes ?_⟩
    · intro hfailed
      cases hfailed
    · rintro (hc | hc) <;> cases hc
  · refine ⟨⟨g', hg'⟩, h.copy, trivial, { h.client.of_sameClient hsame with }, .of_not_dozes ?_⟩
    rintro (hc | hc) <;> cases hc

theorem inv_storeRead (h : Inv cfg s)
    (hphase : s.phase = .closing ∨ ∃ pass failed, s.phase = .publishing pass failed)
    (hs : s.stream.step cfg .storeRead = some stream) : Inv cfg (s.withStream stream) := by
  obtain ⟨g, hg⟩ := h.stream
  obtain ⟨g', hg', -⟩ := Stream.inv_step hg hs
  obtain ⟨hsame, houtput⟩ := Stream.sameClient_of_works hs rfl
  have hok := h.phase
  refine ⟨⟨g', hg'⟩, h.copy, ?_, h.client.of_sameClient hsame, .of_not_dozes ?_⟩
  · rcases hphase with hphase | ⟨pass, failed, hphase⟩
    · simp only [PhaseOk, withStream, hphase]
    · simp only [PhaseOk, withStream, hphase, houtput] at hok ⊢
      exact hok
  · rintro (hc | hc) <;> rcases hphase with hphase | ⟨pass, failed, hphase⟩ <;>
      simp only [withStream, hphase, reduceCtorEq] at hc

theorem inv_storeHeard (h : Inv cfg s) {failed : Bool} (hphase : s.phase = .publishing pass failed)
    (hs : s.storeHeard cfg pass failed = some s') : Inv cfg s' := by
  obtain ⟨stream, hstream, rfl⟩ := Option.map_eq_some_iff.mp hs
  obtain ⟨g, hg⟩ := h.stream
  obtain ⟨g', hg', -⟩ := Stream.inv_step hg hstream
  obtain ⟨hsame, houtput⟩ := Stream.sameClient_of_works hstream rfl
  have hsettled := Stream.settled_of_storeHeard hg hstream
  have hok := h.phase
  simp only [PhaseOk, hphase] at hok
  rw [← houtput] at hok
  have hclient := h.client.of_sameClient hsame
  split
  · have hunavailable : (stream.openDevice false).service.output ≠ .closed := Output.noConfusion
    refine ⟨⟨g', Stream.inv_openDevice hg' false⟩, h.copy, ?_, { hclient with },
      .of_not_closed hunavailable⟩
    cases pass
    · exact ⟨hsettled.turn, hsettled.read⟩
    · exact ⟨⟨hsettled.turn, hsettled.read⟩, fun hc => absurd hc hunavailable⟩
    · exact ⟨⟨hsettled.turn, hsettled.read⟩, fun hc => absurd hc hunavailable⟩
  · rename_i hfailed
    have hopen := hok (Bool.eq_false_iff.mpr hfailed)
    refine ⟨⟨g', hg'⟩, h.copy, ?_, { hclient with }, .of_not_closed hopen⟩
    cases pass
    · exact hsettled
    · exact ⟨hsettled, fun hc => absurd hc hopen⟩
    · exact ⟨hsettled, fun hc => absurd hc hopen⟩

theorem inv_closed (h : Inv cfg s) (hs : s.stream.step cfg .storeHeard = some stream) :
    Inv cfg { s with stream := stream, phase := .updating .second } := by
  obtain ⟨g, hg⟩ := h.stream
  obtain ⟨g', hg', -⟩ := Stream.inv_step hg hs
  obtain ⟨hsame, -⟩ := Stream.sameClient_of_works hs rfl
  refine ⟨⟨g', hg'⟩, h.copy, ⟨Stream.settled_of_storeHeard hg hs, fun hc => by cases hc⟩,
    { h.client.of_sameClient hsame with }, .of_not_dozes ?_⟩
  rintro (hc | hc) <;> cases hc

theorem inv_checkIdle (h : Inv cfg s) (hphase : s.phase = .idling)
    (hs : s.checkIdle cfg = some s') : Inv cfg s' := by
  rw [checkIdle] at hs
  split at hs
  · obtain ⟨stream, hstream, rfl⟩ := Option.map_eq_some_iff.mp hs
    exact inv_closeDevice h hstream (.inr rfl)
  · have hok := h.phase
    simp only [PhaseOk, hphase] at hok
    rw [← Option.some.inj hs]
    refine ⟨h.stream, h.copy, ⟨hok, fun hc => by cases hc⟩, { h.client with }, .of_not_dozes ?_⟩
    rintro (hc | hc) <;> cases hc

theorem inv_afterSecond (h : Inv cfg s) (hphase : s.phase = .looked .second wanted) (ok : Bool) :
    Inv cfg (s.afterSecond wanted ok) := by
  obtain ⟨g, hg⟩ := h.stream
  have hok := h.phase
  simp only [PhaseOk, hphase] at hok
  obtain ⟨hsettled, hlooked⟩ := hok
  rw [afterSecond]
  split
  · rename_i hreturns
    refine ⟨⟨g, hg⟩, h.copy, ⟨hsettled, fun hc => (hlooked hc).2⟩, { h.client with }, ?_⟩
    cases wanted with
    | false =>
      have hdozes : s.dozes := .inr hphase
      exact ⟨fun _ => h.doze.unseen hdozes, fun _ => h.doze.repeated hdozes⟩
    | true =>
      refine .of_not_closed fun hclosed => ?_
      have hclosed : s.stream.service.output = .closed := hclosed
      rw [hclosed] at hreturns
      cases hreturns
  · have hopened : (s.stream.openDevice ok).service.output ≠ .closed := by
      rw [Stream.openDevice]
      cases ok <;> exact Output.noConfusion
    have hdozes : ∀ t : Handoff, t.phase = .updating .third → ¬ t.dozes := by
      rintro t ht (hc | hc) <;> rw [ht] at hc <;> cases hc
    have hinv := Stream.inv_openDevice hg ok
    simp only
    split
    · exact ⟨⟨g, hinv⟩, h.copy, ⟨⟨hsettled.turn, hsettled.read⟩, fun _ => hopened⟩,
        { h.client with }, .of_not_dozes (hdozes _ rfl)⟩
    · exact ⟨⟨g, hinv⟩, h.copy, ⟨⟨hsettled.turn, hsettled.read⟩, fun _ => hopened⟩,
        { h.client with }, .of_not_dozes (hdozes _ rfl)⟩

theorem Inv.setPhase (h : Inv cfg s) {phase : Phase} (now : ℕ)
    (hok : PhaseOk { s with now := now, phase := phase })
    (hdoze : (phase ≠ .polling ∧ phase ≠ .looked .second false) ∨
      s.stream.service.output ≠ .closed) : Inv cfg { s with now := now, phase := phase } := by
  refine ⟨h.stream, h.copy, hok, { h.client with }, ?_⟩
  rcases hdoze with ⟨hpoll, hlook⟩ | hopen
  · exact .of_not_dozes fun hdozes => hdozes.elim hpoll hlook
  · exact .of_not_closed hopen

theorem inv_afterFirst (h : Inv cfg s) (hphase : s.phase = .looked .first wanted)
    (cardReady : Bool) :
    Inv cfg
      { s with
        phase := if s.stream.service.output = .opened && cardReady then .filling .first
          else .idling } := by
  have hok := h.phase
  simp only [PhaseOk, hphase] at hok
  split
  · rename_i hfill
    rw [Bool.and_eq_true, decide_eq_true_eq] at hfill
    exact h.setPhase s.now hfill.1 (.inl ⟨Phase.noConfusion, Phase.noConfusion⟩)
  · exact h.setPhase s.now hok.1 (.inl ⟨Phase.noConfusion, Phase.noConfusion⟩)

theorem inv_afterThird (h : Inv cfg s) (hphase : s.phase = .looked .third wanted) :
    Inv cfg
      { s with
        phase := if s.stream.service.output = .opened then .filling .third else .polling } := by
  have hok := h.phase
  simp only [PhaseOk, hphase] at hok
  have hopen : s.stream.service.output ≠ .closed := fun hc => (hok.2 hc).1 rfl
  split
  · rename_i hfill
    exact h.setPhase s.now hfill (.inr hopen)
  · exact h.setPhase s.now ⟨hok.1, fun hc => absurd hc hopen⟩ (.inr hopen)

/-! ### Runs -/

/-- **One step keeps the invariant.** -/
theorem inv_step (h : Inv cfg s) {op : Op} (hs : s.step cfg op = some s')
    (hcurrent : Current ⟨s, op, s'⟩) : Inv cfg s' := by
  have hok := h.phase
  cases stepped_of_step hs with
  | loadRead hcall hstream => exact inv_loadRead h hcall hstream
  | copyFirst hstream => exact inv_copyFirst h hstream
  | copyRest hstream => exact inv_copyRest h hstream
  | storeWrite hstream => exact inv_storeWrite h hstream
  | loadSleeping hload => exact inv_loadSleeping h hload (hcurrent rfl)
  | sendKick hcall => exact inv_sendKick h hcall
  | wake hphase =>
    simp only [PhaseOk, hphase] at hok
    exact h.setPhase _ hok.1 (.inl ⟨Phase.noConfusion, Phase.noConfusion⟩)
  | receiveKick hphase =>
    refine ⟨h.stream, h.copy, h.phase, { h.client with }, .of_not_dozes ?_⟩
    rintro (hc | hc) <;> simp only [hphase, reduceCtorEq] at hc
  | command hphase =>
    simp only [PhaseOk, hphase] at hok
    refine ⟨h.stream, h.copy, ?_, { h.client with }, .of_not_dozes ?_⟩
    · simp only [PhaseOk, hphase]
      exact hok
    · rintro (hc | hc) <;> simp only [hphase, reduceCtorEq] at hc
  | advance hphase =>
    simp only [PhaseOk, hphase] at hok
    exact h.setPhase s.now ⟨hok, fun hc => by cases hc⟩
      (.inl ⟨Phase.noConfusion, Phase.noConfusion⟩)
  | update hphase => exact inv_update h hphase
  | storeSleeping hphase => exact inv_storeSleeping h hphase
  | look hphase => exact inv_look h hphase _
  | afterFirst hphase => exact inv_afterFirst h hphase _
  | loadWrite hphase hstream => exact inv_fill h hphase rfl hstream _
  | mix hphase hstream => exact inv_fill h hphase rfl hstream _
  | deviceWrite hphase hstream => exact inv_fill h hphase rfl hstream _
  | publish hphase hstream => exact inv_publish h hphase hstream
  | fail hphase hstream => exact inv_closeDevice h hstream (.inl ⟨_, rfl⟩)
  | storeRead hphase hstream => exact inv_storeRead h hphase hstream
  | storeHeard hphase hheard => exact inv_storeHeard h hphase hheard
  | checkIdle hphase hidle => exact inv_checkIdle h hphase hidle
  | closed hphase hstream => exact inv_closed h hstream
  | afterSecond hphase => exact inv_afterSecond h hphase _
  | afterThird hphase => exact inv_afterThird h hphase

theorem inv_initial {mixed pending : ℕ} (hpending : pending ≤ cfg.period) (hmixed : pending ≤ mixed)
    (output : Output) (audible : Bool) (now audibleMs retry : ℕ) :
    Inv cfg (initial cfg mixed pending output audible now audibleMs retry) := by
  have hopened : Inv cfg
      { stream := .initial cfg mixed pending output (!audible)
        audible := audible
        phase := .updating .first
        now := now
        audibleMs := audibleMs
        retry := retry } :=
    { stream := ⟨_, Stream.inv_initial hpending hmixed output (!audible)⟩
      copy := rfl
      phase := ⟨⟨rfl, rfl⟩, fun hc => by cases hc⟩
      client :=
        { place := fun hc => absurd rfl hc
          nonempty := fun hc => absurd rfl hc
          loaded := ⟨0, rfl, Nat.zero_le _, Nat.zero_le _, fun hc => absurd rfl hc⟩
          kicked := fun hc => by cases hc }
      doze := .of_not_dozes (by rintro (hc | hc) <;> cases hc) }
  have hupdated := @inv_update _ _ hopened .first rfl
  have hstored := @inv_storeSleeping _ _ hupdated .first (by rw [update]; split <;> rfl)
  have hok := hstored.phase
  have hphase : ∀ t : Handoff, (t.storeSleeping .first).phase = .looking .first := by
    intro t
    rw [storeSleeping]
    split <;> rfl
  simp only [PhaseOk, hphase] at hok
  exact @Inv.setPhase _ _ hstored .serving _ hok.1 (.inl ⟨Phase.noConfusion, Phase.noConfusion⟩)

theorem inv_of_trace {l : List (Machine.Step Handoff Op)} (h : (machine cfg).Trace l s)
    (hcurrent : ∀ x ∈ l, Current x) : Inv cfg s := by
  refine Machine.Trace.invariant (P := fun _ s => Inv cfg s) (K := Current) ?_ ?_ h hcurrent
  · rintro s ⟨mixed, pending, output, audible, now, audibleMs, retry, hpending, hmixed, -, rfl⟩
    exact inv_initial hpending hmixed output audible now audibleMs retry
  · intro l s op s' hinv hs hcur
    exact inv_step hinv hs hcur

/-- **No wake-up is lost** in a run whose writes take a KICK for a repeated one
only with a current read counter: when nothing moves, no audible stream with
unread frames is left asleep with the card closed. -/
theorem not_leftAsleep {l : List (Machine.Step Handoff Op)} (h : (machine cfg).Trace l s)
    (hcurrent : ∀ x ∈ l, Current x) (hquiet : s.Quiet) : ¬ s.LeftAsleep := by
  have hinv := inv_of_trace h hcurrent
  obtain ⟨⟨-, hcall⟩, hkicks, hpoll⟩ := hquiet
  rintro ⟨haudible, hunread, -, hclosed⟩
  rcases hinv.doze.unseen (.inl hpoll) hclosed haudible hunread with hkick | hinside
  · omega
  · exact hinside hcall

/-- The service goes to sleep and a first frame is written, with its KICK. -/
def firstWrite : List Op :=
  [.advance, .update, .storeSleeping, .look false, .afterFirst false, .checkIdle, .update,
    .storeSleeping, .look false, .afterSecond true,
    .loadRead [[7]], .copyFirst, .copyRest, .storeWrite, .loadSleeping, .sendKick,
    .loadRead [[9]]]

/-- What a write does after it has loaded `read`. -/
def restOfWrite : List Op := [.copyFirst, .copyRest, .storeWrite, .loadSleeping]

/-- The KICK wakes the service, and the card opens, plays and closes again. -/
def wakeAndPlay : List Op :=
  [.wake 1, .receiveKick, .advance, .update, .storeSleeping, .look false, .afterFirst false,
    .checkIdle, .update, .storeSleeping, .look false, .afterSecond true, .update, .storeSleeping,
    .look false, .afterThird, .loadWrite, .mix false, .deviceWrite 480, .publish 480, .storeRead,
    .storeHeard,
    .wake 3000, .advance, .update, .storeSleeping, .look false, .afterFirst true, .publish 0,
    .storeRead, .storeHeard, .checkIdle, .storeRead, .storeHeard, .update, .storeSleeping,
    .look false, .afterSecond true]

/-- Two frames written one after the other to a closed card. -/
def playedThrough : List Op := firstWrite ++ restOfWrite ++ wakeAndPlay

/-- The second write pauses after its load of `read`, until the card has
played the first frame and closed again. -/
def pausedWrite : List Op := firstWrite ++ wakeAndPlay ++ restOfWrite

/-- A stream opened while the card is closed and its process audible. -/
def opened : Handoff := initial Stream.monoConfig 0 0 .closed true 0 0 0

theorem start_opened : (machine Stream.monoConfig).start opened :=
  ⟨0, 0, .closed, true, 0, 0, 0, Nat.zero_le _, Nat.le_refl _, Nat.le_refl _, rfl⟩

/-- A run with a repeated KICK that is rightly not sent. -/
theorem not_leftAsleep_playedThrough : ∃ l s, (machine Stream.monoConfig).Trace l s ∧
    (∃ x ∈ l, x.op = .loadSleeping ∧ x.before.suppresses ∧ x.before.dozes) ∧
    s.Quiet ∧ s.stream.service.output = .closed ∧ s.sleeping = true ∧ ¬ s.LeftAsleep := by
  have hsteps : (∀ x ∈ Machine.runSteps (step Stream.monoConfig) opened playedThrough, Current x) ∧
      (∃ x ∈ Machine.runSteps (step Stream.monoConfig) opened playedThrough,
        x.op = .loadSleeping ∧ x.before.suppresses ∧ x.before.dozes) := by decide +kernel
  have hrun : (Machine.runOps (step Stream.monoConfig) playedThrough opened).any (fun s =>
      decide (s.Quiet ∧ s.stream.service.output = .closed ∧ s.sleeping = true)) = true := by
    decide +kernel
  obtain ⟨s, hs, hend⟩ := (Option.any_eq_true _ _).mp hrun
  obtain ⟨hquiet, hclosed, hsleeping⟩ := of_decide_eq_true hend
  have htrace := (Machine.Trace.start start_opened).runOps (fun _ _ _ h => h) hs
  exact ⟨_, s, htrace, hsteps.2, hquiet, hclosed, hsleeping,
    not_leftAsleep htrace hsteps.1 hquiet⟩

/-- **A KICK that was needed is not sent**: a frame is left unread, with the
stream asleep and the card closed, and nothing will wake the service. -/
theorem leftAsleep_of_pausedWrite :
    ∃ s, (machine Stream.monoConfig).Reachable s ∧ s.Quiet ∧ s.LeftAsleep := by
  have hrun : (Machine.runOps (step Stream.monoConfig) pausedWrite opened).any (fun s =>
      decide (s.Quiet ∧ s.LeftAsleep)) = true := by
    decide +kernel
  obtain ⟨s, hs, hend⟩ := (Option.any_eq_true _ _).mp hrun
  exact ⟨s, (Machine.Reachable.start start_opened).runOps (fun _ _ _ h => h) hs,
    of_decide_eq_true hend⟩

end Handoff

end Audio
