/-
The sleep hand-off between an application's stream and the service
(`fplinux_audio_stream_write`, `update`, `fplinux_audio_streams_refresh`,
`advance` and `serve`).

While the card is not open, or the stream is paused, the service sets
`sleeping` in the ring and no longer looks at it; the application's next write
sends a KICK.  `Handoff` puts this around a stream (`Stream`): the shared words
`state` and `sleeping`, the application's `kicked` and `kick_read`, the KICKs
sent and not received, and where the service is in its loop.  `step` makes one
atomic step of either side, so that a pause may lie between any two; the rest
of the service (other streams, commands, the card, the clock) enters as the
parameters of the steps.

`dozes` says that the service is past its last look at the write counter.
-/
import Fplinux.Audio.Stream

namespace Audio

open Option (map_eq_some_iff)

/-- `IDLE_MS` and `RETRY_MS`. -/
def idleMs : ℕ := 3000
def retryMs : ℕ := 1000

/-- `enum fplinux_audio_ring_state` of a stream that has not ended. -/
inductive RingState
  | playing
  | paused
  | unavailable
  deriving DecidableEq, Repr

/-- Where `fplinux_audio_stream_write` is once it has stored `write`: about to
load `sleeping`, or about to send a KICK. -/
inductive Call
  | outside
  | stored
  | kicking
  deriving DecidableEq, Repr

/-- The three calls of `fplinux_audio_streams_refresh` in `advance`. -/
inductive Pass
  | first
  | second
  | third
  deriving DecidableEq, Repr

/-- Where the service is: in `poll`, handling what woke it, and in `advance`:
in `update` of a pass, before the store of `sleeping`, before the load of
`write`, past the pass and whether a stream waits for the card; in `fill`, in
its `publish` (of `close_device` when the card failed), about to look for
silence, and closing the card for it. -/
inductive Phase
  | polling
  | serving
  | updating (pass : Pass)
  | storing (pass : Pass)
  | looking (pass : Pass)
  | looked (pass : Pass) (wanted : Bool)
  | filling (pass : Pass)
  | publishing (pass : Pass) (failed : Bool)
  | idling
  | closing
  deriving DecidableEq, Repr

/-- What `fill` returns to. -/
def Pass.afterFill : Pass → Phase
  | .first => .idling
  | _ => .polling

/-- A stream with the words of its hand-off.  `audible` is the policy of the
process; `storedState` and `storedSleeping` are the service's copies of the
words it stored last, and `loaded` is `read` in the application's write. -/
structure Handoff where
  stream : Stream
  audible : Bool
  state : RingState := .playing
  sleeping : Bool := false
  storedState : RingState := .playing
  storedSleeping : Bool := false
  loaded : ℕ := 0
  kicked : Bool := false
  kickRead : ℕ := 0
  call : Call := .outside
  kicks : ℕ := 0
  phase : Phase := .serving
  now : ℕ := 0
  audibleMs : ℕ := 0
  retry : ℕ := 0
  deriving DecidableEq, Repr

namespace Handoff

/-- The atomic steps.  In `look` and `mix`, `others` tells what the other
streams do: one waits for the card, one played. -/
inductive Op
  | loadRead (frames : List Frame)
  | copyFirst
  | copyRest
  | storeWrite
  | loadSleeping
  | sendKick
  | wake (elapsed : ℕ)
  | receiveKick
  | command (audible : Bool)
  | advance
  | update
  | storeSleeping
  | look (others : Bool)
  | afterFirst (cardReady : Bool)
  | loadWrite
  | mix (others : Bool)
  | deviceWrite (count : ℕ)
  | publish (delay : ℕ)
  | fail
  | storeRead
  | storeHeard
  | checkIdle
  | afterSecond (ok : Bool)
  | afterThird
  deriving DecidableEq, Repr

def withStream (s : Handoff) (stream : Stream) : Handoff := { s with stream := stream }

/-! ### The application -/

def loadRead (cfg : Config) (s : Handoff) (frames : List Frame) : Option Handoff :=
  match s.call with
  | .outside =>
    (s.stream.loadRead cfg frames).map fun stream =>
      { s with stream := stream, loaded := s.stream.ring.read }
  | _ => none

def storeWrite (s : Handoff) : Option Handoff :=
  s.stream.storeWrite.map fun stream => { s with stream := stream, call := .stored }

/-- A KICK the service has not answered yet is not repeated: `read` has not
moved since it was sent. -/
def loadSleeping (s : Handoff) : Option Handoff :=
  match s.call with
  | .stored =>
    some <|
      if !s.sleeping then
        { s with kicked := false, call := .outside }
      else if !s.kicked || s.loaded ≠ s.kickRead then
        { s with call := .kicking }
      else
        { s with call := .outside }
  | _ => none

/-- The `send` and what follows it; the delivery of a KICK is reliable. -/
def sendKick (s : Handoff) : Option Handoff :=
  match s.call with
  | .kicking =>
    some { s with kicks := s.kicks + 1, kicked := true, kickRead := s.loaded, call := .outside }
  | _ => none

/-! ### The service -/

/-- `state` as `update` computes it. -/
def ringState (s : Handoff) : RingState :=
  if !s.audible then .paused
  else if s.stream.service.output = .unavailable then .unavailable
  else .playing

/-- What `update` computes and the store of `state`. -/
def update (s : Handoff) (pass : Pass) : Handoff :=
  let state := s.ringState
  let s := { s with stream.service.mixer.paused := !s.audible, phase := .storing pass }
  if s.storedState ≠ state then { s with state := state, storedState := state } else s

/-- `sleeping` as `update` computes it. -/
def asleep (s : Handoff) : Bool :=
  s.stream.service.mixer.paused || s.stream.service.output ≠ .opened

def storeSleeping (s : Handoff) (pass : Pass) : Handoff :=
  let sleeping := s.asleep
  let s := { s with phase := .looking pass }
  if s.storedSleeping ≠ sleeping then
    { s with sleeping := sleeping, storedSleeping := sleeping }
  else
    s

/-- The load of `write` in `fplinux_audio_streams_refresh`, of a stream that
would play and sleeps. -/
def look (s : Handoff) (others : Bool) (pass : Pass) : Handoff :=
  if !s.stream.service.mixer.paused && s.asleep then
    let available := Word.sub 32 s.stream.ring.write s.stream.service.mixer.read
    if available > Word.add 32 s.stream.service.mixer.mask 1 then
      { s with stream.ring.ended := true, phase := .looked pass others }
    else
      { s with phase := .looked pass (others || available ≠ 0) }
  else
    { s with phase := .looked pass others }

/-- Whether the period about to be mixed takes frames of this stream. -/
def played (cfg : Config) (s : Stream) : Bool :=
  match s.service.turn with
  | .loaded write =>
    (mixerMix s.service.mixer s.ring.slots write cfg.period (s.service.mixed + cfg.period)).any
      fun m => !m.visits.isEmpty
  | _ => false

def mix (cfg : Config) (s : Handoff) (others : Bool) : Option Handoff :=
  (s.stream.step cfg .mix).map fun stream =>
    { s with
      stream := stream
      audibleMs := if played cfg s.stream || others then s.now else s.audibleMs }

/-- The end of `publish`, and `make_unavailable` when the card failed. -/
def storeHeard (cfg : Config) (s : Handoff) (pass : Pass) (failed : Bool) : Option Handoff :=
  (s.stream.step cfg .storeHeard).map fun stream =>
    if failed then
      { s with
        stream := stream.openDevice false
        retry := s.now + retryMs
        phase := pass.afterFill }
    else
      { s with stream := stream, phase := pass.afterFill }

/-- The card is closed after `IDLE_MS` of silence. -/
def checkIdle (cfg : Config) (s : Handoff) : Option Handoff :=
  if s.stream.service.output = .opened ∧ s.now - s.audibleMs ≥ idleMs then
    (s.stream.step cfg .closeDevice).map fun stream =>
      { s with stream := stream, phase := .closing }
  else
    some { s with phase := .updating .second }

/-- Past the second pass: back to `poll`, or `open_device`. -/
def afterSecond (s : Handoff) (wanted ok : Bool) : Handoff :=
  if !wanted || s.stream.service.output = .opened ||
      s.stream.service.output = .unavailable && s.now < s.retry then
    { s with phase := .polling }
  else
    let s := { s with stream := s.stream.openDevice ok, phase := .updating .third }
    if ok then { s with audibleMs := s.now } else { s with retry := s.now + retryMs }

/-- One step of the service, by where it is. -/
def serve (cfg : Config) (s : Handoff) (op : Op) : Option Handoff :=
  match op, s.phase with
  | .wake elapsed, .polling => some { s with now := s.now + elapsed, phase := .serving }
  | .receiveKick, .serving => if 0 < s.kicks then some { s with kicks := s.kicks - 1 } else none
  | .command audible, .serving => some { s with audible := audible }
  | .advance, .serving => some { s with phase := .updating .first }
  | .update, .updating pass => some (s.update pass)
  | .storeSleeping, .storing pass => some (s.storeSleeping pass)
  | .look others, .looking pass => some (s.look others pass)
  | .afterFirst cardReady, .looked .first _ =>
    some
      { s with
        phase := if s.stream.service.output = .opened && cardReady then .filling .first
          else .idling }
  | .loadWrite, .filling _ => (s.stream.step cfg .loadWrite).map s.withStream
  | .mix others, .filling _ => s.mix cfg others
  | .deviceWrite count, .filling _ => (s.stream.step cfg (.deviceWrite count)).map s.withStream
  | .publish delay, .filling pass =>
    (s.stream.step cfg (.publish delay)).map fun stream =>
      { s with stream := stream, phase := .publishing pass false }
  | .fail, .filling pass =>
    (s.stream.step cfg .closeDevice).map fun stream =>
      { s with stream := stream, phase := .publishing pass true }
  | .storeRead, .publishing _ _ => (s.stream.step cfg .storeRead).map s.withStream
  | .storeHeard, .publishing pass failed => s.storeHeard cfg pass failed
  | .checkIdle, .idling => s.checkIdle cfg
  | .storeRead, .closing => (s.stream.step cfg .storeRead).map s.withStream
  | .storeHeard, .closing =>
    (s.stream.step cfg .storeHeard).map fun stream =>
      { s with stream := stream, phase := .updating .second }
  | .afterSecond ok, .looked .second wanted => some (s.afterSecond wanted ok)
  | .afterThird, .looked .third _ =>
    some
      { s with
        phase := if s.stream.service.output = .opened then .filling .third else .polling }
  | _, _ => none

/-- One atomic step; `none` where the side is not at that step. -/
def step (cfg : Config) (s : Handoff) : Op → Option Handoff
  | .loadRead frames => s.loadRead cfg frames
  | .copyFirst => (s.stream.copyFirst cfg).map s.withStream
  | .copyRest => (s.stream.copyRest cfg).map s.withStream
  | .storeWrite => s.storeWrite
  | .loadSleeping => s.loadSleeping
  | .sendKick => s.sendKick
  | op =>
    -- An ended stream is unmapped and no longer served.
    if s.stream.ring.ended then none else s.serve cfg op

/-- What a step does, with where its side is. -/
inductive Stepped (cfg : Config) (s : Handoff) : Op → Handoff → Prop
  | loadRead {frames : List Frame} {stream : Stream} : s.call = .outside →
      s.stream.loadRead cfg frames = some stream →
      Stepped cfg s (.loadRead frames) { s with stream := stream, loaded := s.stream.ring.read }
  | copyFirst {stream : Stream} : s.stream.copyFirst cfg = some stream →
      Stepped cfg s .copyFirst (s.withStream stream)
  | copyRest {stream : Stream} : s.stream.copyRest cfg = some stream →
      Stepped cfg s .copyRest (s.withStream stream)
  | storeWrite {stream : Stream} : s.stream.storeWrite = some stream →
      Stepped cfg s .storeWrite { s with stream := stream, call := .stored }
  | loadSleeping {s' : Handoff} : s.loadSleeping = some s' → Stepped cfg s .loadSleeping s'
  | sendKick : s.call = .kicking →
      Stepped cfg s .sendKick
        { s with kicks := s.kicks + 1, kicked := true, kickRead := s.loaded, call := .outside }
  | wake {elapsed : ℕ} : s.phase = .polling →
      Stepped cfg s (.wake elapsed) { s with now := s.now + elapsed, phase := .serving }
  | receiveKick : s.phase = .serving → Stepped cfg s .receiveKick { s with kicks := s.kicks - 1 }
  | command {audible : Bool} : s.phase = .serving →
      Stepped cfg s (.command audible) { s with audible := audible }
  | advance : s.phase = .serving → Stepped cfg s .advance { s with phase := .updating .first }
  | update {pass : Pass} : s.phase = .updating pass → Stepped cfg s .update (s.update pass)
  | storeSleeping {pass : Pass} : s.phase = .storing pass →
      Stepped cfg s .storeSleeping (s.storeSleeping pass)
  | look {pass : Pass} {others : Bool} : s.phase = .looking pass →
      Stepped cfg s (.look others) (s.look others pass)
  | afterFirst {cardReady wanted : Bool} : s.phase = .looked .first wanted →
      Stepped cfg s (.afterFirst cardReady)
        { s with
          phase := if s.stream.service.output = .opened && cardReady then .filling .first
            else .idling }
  | loadWrite {pass : Pass} {stream : Stream} : s.phase = .filling pass →
      s.stream.step cfg .loadWrite = some stream → Stepped cfg s .loadWrite (s.withStream stream)
  | mix {pass : Pass} {others : Bool} {stream : Stream} : s.phase = .filling pass →
      s.stream.step cfg .mix = some stream →
      Stepped cfg s (.mix others)
        { s with
          stream := stream
          audibleMs := if played cfg s.stream || others then s.now else s.audibleMs }
  | deviceWrite {pass : Pass} {count : ℕ} {stream : Stream} : s.phase = .filling pass →
      s.stream.step cfg (.deviceWrite count) = some stream →
      Stepped cfg s (.deviceWrite count) (s.withStream stream)
  | publish {pass : Pass} {delay : ℕ} {stream : Stream} : s.phase = .filling pass →
      s.stream.step cfg (.publish delay) = some stream →
      Stepped cfg s (.publish delay) { s with stream := stream, phase := .publishing pass false }
  | fail {pass : Pass} {stream : Stream} : s.phase = .filling pass →
      s.stream.step cfg .closeDevice = some stream →
      Stepped cfg s .fail { s with stream := stream, phase := .publishing pass true }
  | storeRead {stream : Stream} :
      (s.phase = .closing ∨ ∃ pass failed, s.phase = .publishing pass failed) →
      s.stream.step cfg .storeRead = some stream → Stepped cfg s .storeRead (s.withStream stream)
  | storeHeard {pass : Pass} {failed : Bool} {s' : Handoff} : s.phase = .publishing pass failed →
      s.storeHeard cfg pass failed = some s' → Stepped cfg s .storeHeard s'
  | checkIdle {s' : Handoff} : s.phase = .idling → s.checkIdle cfg = some s' →
      Stepped cfg s .checkIdle s'
  | closed {stream : Stream} : s.phase = .closing → s.stream.step cfg .storeHeard = some stream →
      Stepped cfg s .storeHeard { s with stream := stream, phase := .updating .second }
  | afterSecond {wanted ok : Bool} : s.phase = .looked .second wanted →
      Stepped cfg s (.afterSecond ok) (s.afterSecond wanted ok)
  | afterThird {wanted : Bool} : s.phase = .looked .third wanted →
      Stepped cfg s .afterThird
        { s with
          phase := if s.stream.service.output = .opened then .filling .third else .polling }

theorem stepped_of_serve {cfg : Config} {s s' : Handoff} {op : Op}
    (hs : s.serve cfg op = some s') : s.Stepped cfg op s' := by
  unfold serve at hs
  split at hs
  all_goals rename_i hphase
  · rw [← Option.some.inj hs]
    exact .wake hphase
  · obtain ⟨-, heq⟩ := Option.ite_none_right_eq_some.mp hs
    rw [← Option.some.inj heq]
    exact .receiveKick hphase
  · rw [← Option.some.inj hs]
    exact .command hphase
  · rw [← Option.some.inj hs]
    exact .advance hphase
  · rw [← Option.some.inj hs]
    exact .update hphase
  · rw [← Option.some.inj hs]
    exact .storeSleeping hphase
  · rw [← Option.some.inj hs]
    exact .look hphase
  · rw [← Option.some.inj hs]
    exact .afterFirst hphase
  · obtain ⟨stream, hstream, rfl⟩ := map_eq_some_iff.mp hs
    exact .loadWrite hphase hstream
  · obtain ⟨stream, hstream, rfl⟩ := map_eq_some_iff.mp hs
    exact .mix hphase hstream
  · obtain ⟨stream, hstream, rfl⟩ := map_eq_some_iff.mp hs
    exact .deviceWrite hphase hstream
  · obtain ⟨stream, hstream, rfl⟩ := map_eq_some_iff.mp hs
    exact .publish hphase hstream
  · obtain ⟨stream, hstream, rfl⟩ := map_eq_some_iff.mp hs
    exact .fail hphase hstream
  · obtain ⟨stream, hstream, rfl⟩ := map_eq_some_iff.mp hs
    exact .storeRead (.inr ⟨_, _, hphase⟩) hstream
  · exact .storeHeard hphase hs
  · exact .checkIdle hphase hs
  · obtain ⟨stream, hstream, rfl⟩ := map_eq_some_iff.mp hs
    exact .storeRead (.inl hphase) hstream
  · obtain ⟨stream, hstream, rfl⟩ := map_eq_some_iff.mp hs
    exact .closed hphase hstream
  · rw [← Option.some.inj hs]
    exact .afterSecond hphase
  · rw [← Option.some.inj hs]
    exact .afterThird hphase
  · cases hs

theorem stepped_of_step {cfg : Config} {s s' : Handoff} {op : Op} (hs : s.step cfg op = some s') :
    s.Stepped cfg op s' := by
  cases op with
  | loadRead frames =>
    rw [step, loadRead] at hs
    split at hs
    · rename_i hcall
      obtain ⟨stream, hstream, rfl⟩ := map_eq_some_iff.mp hs
      exact .loadRead hcall hstream
    · cases hs
  | copyFirst =>
    obtain ⟨stream, hstream, rfl⟩ := map_eq_some_iff.mp hs
    exact .copyFirst hstream
  | copyRest =>
    obtain ⟨stream, hstream, rfl⟩ := map_eq_some_iff.mp hs
    exact .copyRest hstream
  | storeWrite =>
    obtain ⟨stream, hstream, rfl⟩ := map_eq_some_iff.mp hs
    exact .storeWrite hstream
  | loadSleeping => exact .loadSleeping hs
  | sendKick =>
    rw [step, sendKick] at hs
    split at hs
    · rename_i hcall
      rw [← Option.some.inj hs]
      exact .sendKick hcall
    · cases hs
  | _ =>
    simp only [step] at hs
    split at hs
    · cases hs
    · exact stepped_of_serve hs

/-- A new stream: `open_stream` maps a ring of zeros and calls `update`. -/
def initial (cfg : Config) (mixed pending : ℕ) (output : Output) (audible : Bool)
    (now audibleMs retry : ℕ) : Handoff :=
  let s : Handoff :=
    { stream := .initial cfg mixed pending output (!audible)
      audible := audible
      now := now
      audibleMs := audibleMs
      retry := retry }
  { (s.update .first).storeSleeping .first with phase := .serving }

/-- The runs of a stream and of the service around it. -/
def machine (cfg : Config) : Machine Handoff Op where
  start s := ∃ mixed pending output audible now audibleMs retry,
    pending ≤ cfg.period ∧ pending ≤ mixed ∧ audibleMs ≤ now ∧
      s = initial cfg mixed pending output audible now audibleMs retry
  step s op s' := s.step cfg op = some s'

/-! ### What the hand-off owes -/

/-- The application is not inside a write. -/
def Outside (s : Handoff) : Prop := s.stream.client.writing = .idle ∧ s.call = .outside

/-- Nothing moves but for another event: no write is under way, no KICK is in
flight, the service is in `poll`. -/
def Quiet (s : Handoff) : Prop := s.Outside ∧ s.kicks = 0 ∧ s.phase = .polling

/-- An audible stream with unread frames is asleep and the card closed. -/
def LeftAsleep (s : Handoff) : Prop :=
  s.audible = true ∧ s.stream.ring.write ≠ s.stream.ring.read ∧ s.sleeping = true ∧
    s.stream.service.output = .closed

/-- The service is past its last look at the write counter. -/
def dozes (s : Handoff) : Prop := s.phase = .polling ∨ s.phase = .looked .second false

/-- The write at its load of `sleeping` takes the KICK for a repeated one. -/
def suppresses (s : Handoff) : Prop :=
  s.call = .stored ∧ s.sleeping = true ∧ s.kicked = true ∧ s.loaded = s.kickRead

instance (s : Handoff) : Decidable s.Outside := inferInstanceAs (Decidable (_ ∧ _))
instance (s : Handoff) : Decidable s.Quiet := inferInstanceAs (Decidable (_ ∧ _ ∧ _))
instance (s : Handoff) : Decidable s.LeftAsleep := inferInstanceAs (Decidable (_ ∧ _ ∧ _ ∧ _))
instance (s : Handoff) : Decidable s.dozes := inferInstanceAs (Decidable (_ ∨ _))
instance (s : Handoff) : Decidable s.suppresses := inferInstanceAs (Decidable (_ ∧ _ ∧ _ ∧ _))

/-- A write takes its KICK for a repeated one, with the service past its last
look, only if `read` has not moved since the write loaded it. -/
def Current (x : Machine.Step Handoff Op) : Prop :=
  x.op = .loadSleeping → x.before.suppresses → x.before.dozes →
    x.before.stream.ring.read = x.before.loaded

instance (x : Machine.Step Handoff Op) : Decidable (Current x) :=
  inferInstanceAs (Decidable (_ → _ → _ → _))

end Handoff

end Audio
