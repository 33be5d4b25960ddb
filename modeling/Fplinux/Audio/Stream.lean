/-
One audio stream: an application that writes its ring and the service that
plays it (`fplinux_audio_stream_write`, `audio-streams.c`, `audiod.c`).

The two sides share the ring: the counters `write`, `read` and `heard`, 32-bit
words, and the frames.  `step` makes one atomic step of either side: the
application loads `read`, copies its frames in two pieces and stores `write`;
the service loads `write`, mixes a period, writes to the card, and stores
`read` and `heard`.  Each side goes on with the copies it loaded.

`sent`, `taken` and `visits` are not in the source: the frames written so far,
how many of them the mixer went past, and the frames it read, each with its
position.
-/
import Fplinux.Audio.Mixer
import Fplinux.Lib.Run

namespace Audio

/-- The loop of `fplinux_audio_ring_capacity`; 32 doublings leave no 32-bit
word below `least`. -/
def capacityLoop (least : ℕ) : ℕ → ℕ → ℕ
  | 0, capacity => capacity
  | fuel + 1, capacity =>
    if capacity < least then capacityLoop least fuel (capacity * 2) else capacity

def ringCapacity (rate : ℕ) : ℕ := capacityLoop ((rate + 3) / 4) 32 1

/-- A stream the service opens and the card it plays on: a rate and a channel
count in range, and a card buffer of 2 to 14 periods. -/
structure Config where
  rate : ℕ
  channels : ℕ
  period : ℕ
  buffer : ℕ
  rate_min : 8000 ≤ rate
  rate_max : rate ≤ 48000
  channels_min : 1 ≤ channels
  channels_max : channels ≤ 2
  period_pos : 0 < period
  period_lt : period < 2 ^ 31
  buffer_min : 2 * period ≤ buffer
  buffer_max : buffer ≤ (mixerHistory - 2) * period

def Config.capacity (cfg : Config) : ℕ := ringCapacity cfg.rate

/-- `struct fplinux_audio_ring`: the counters and the frames.  `ended` is
`FPLINUX_AUDIO_RING_ENDED` in its state. -/
structure SharedRing where
  write : ℕ := 0
  read : ℕ := 0
  heard : ℕ := 0
  ended : Bool := false
  slots : List Frame
  deriving DecidableEq, Repr

/-- Where the application is in `fplinux_audio_stream_write`: not in it, about
to copy the frames it takes, about to copy those past the last slot, or about
to store `write`. -/
inductive Writing
  | idle
  | copying (frames : List Frame)
  | wrapping (frames : List Frame)
  | copied (frames : List Frame)
  deriving DecidableEq, Repr

/-- The application's side of the stream. -/
structure Client where
  written : ℕ := 0
  writing : Writing := .idle
  deriving DecidableEq, Repr

/-- `enum fplinux_audio_output`. -/
inductive Output
  | closed
  | unavailable
  | opened
  deriving DecidableEq, Repr

/-- Where the service is: between its calls, with the write counter loaded for
a period, or in `fplinux_audio_streams_publish` with the heard position
computed and `read` not stored yet, or stored. -/
inductive Turn
  | ready
  | loaded (write : ℕ)
  | publishing (heard : ℕ)
  | published (heard : ℕ)
  deriving DecidableEq, Repr

/-- The service's side: the mixer's stream, `streams->mixed`, the card's
`written`, the frames of the last period not written to it yet. -/
structure Service where
  mixer : MixerStream
  mixed : ℕ
  written : ℕ
  pending : ℕ
  output : Output
  turn : Turn := .ready
  deriving DecidableEq, Repr

structure Stream where
  ring : SharedRing
  client : Client := {}
  service : Service
  sent : List Frame := []
  taken : ℕ := 0
  visits : List (ℕ × Visit) := []
  deriving DecidableEq, Repr

/-- The atomic steps.  `refresh` looks up whether the stream is paused;
`deviceWrite` hands `count` frames to the card; `publish` has the card's delay
as ALSA reports it. -/
inductive Op
  | loadRead (frames : List Frame)
  | copyFirst
  | copyRest
  | storeWrite
  | refresh (paused : Bool)
  | openDevice (ok : Bool)
  | loadWrite
  | mix
  | deviceWrite (count : ℕ)
  | publish (delay : ℕ)
  | closeDevice
  | storeRead
  | storeHeard
  deriving DecidableEq, Repr

namespace Stream

/-- A new stream: `open_stream` while the service has mixed `mixed` frames, of
which `pending` wait to be written. -/
def initial (cfg : Config) (mixed pending : ℕ) (output : Output) (paused : Bool) : Stream where
  ring := { slots := List.replicate cfg.capacity (List.replicate cfg.channels 0) }
  service :=
    { mixer := { mixerStreamInit cfg.capacity cfg.rate cfg.channels mixed with paused := paused }
      mixed := mixed
      written := mixed - pending
      pending := pending
      output := output }

/-- How many of `count` frames fit behind the read position loaded now. -/
def takenNow (cfg : Config) (s : Stream) (count : ℕ) : ℕ :=
  let used := Word.sub 32 s.client.written s.ring.read
  let room := if used ≥ cfg.capacity then 0 else cfg.capacity - used
  if room > count then count else room

/-- The application loads `read` and takes the frames that fit. -/
def loadRead (cfg : Config) (s : Stream) (frames : List Frame) : Option Stream :=
  if s.ring.ended then
    some s
  else
    match s.client.writing with
    | .idle =>
      let taken := s.takenNow cfg frames.length
      if taken = 0 then
        some s
      else
        some { s with client := { s.client with writing := .copying (frames.take taken) } }
    | _ => none

/-- Where the next frames go, and how many fit before the last slot. -/
def startSlot (cfg : Config) (s : Stream) : ℕ := s.client.written &&& (cfg.capacity - 1)
def firstPiece (cfg : Config) (s : Stream) (taken : ℕ) : ℕ :=
  if cfg.capacity - startSlot cfg s > taken then taken else cfg.capacity - startSlot cfg s

def copyFirst (cfg : Config) (s : Stream) : Option Stream :=
  match s.client.writing with
  | .copying frames =>
    let first := firstPiece cfg s frames.length
    some
      { s with
        ring := { s.ring with
          slots := Ring.blit s.ring.slots (startSlot cfg s) (frames.take first) }
        client := { s.client with writing := .wrapping frames } }
  | _ => none

def copyRest (cfg : Config) (s : Stream) : Option Stream :=
  match s.client.writing with
  | .wrapping frames =>
    let first := firstPiece cfg s frames.length
    some
      { s with
        ring := { s.ring with slots := Ring.blit s.ring.slots 0 (frames.drop first) }
        client := { s.client with writing := .copied frames } }
  | _ => none

def storeWrite (s : Stream) : Option Stream :=
  match s.client.writing with
  | .copied frames =>
    let written := Word.add 32 s.client.written frames.length
    some
      { s with
        ring := { s.ring with write := written }
        client := { written := written, writing := .idle }
        sent := s.sent ++ frames }
  | _ => none

/-- `fplinux_audio_streams_refresh` for this stream: `update`, and the check of
the write counter when the stream would play but the card is not open. -/
def refresh (s : Stream) (paused : Bool) : Stream :=
  let s := { s with service.mixer.paused := paused }
  if !paused && s.service.output ≠ .opened then
    let available := Word.sub 32 s.ring.write s.service.mixer.read
    if available > Word.add 32 s.service.mixer.mask 1 then
      { s with ring.ended := true }
    else
      s
  else
    s

def openDevice (s : Stream) (ok : Bool) : Stream :=
  { s with service.output := if ok then .opened else .unavailable }

/-- The load of `write` in `fplinux_audio_streams_mix`. -/
def loadWrite (s : Stream) : Stream :=
  { s with service.turn := .loaded (if s.service.mixer.paused then 0 else s.ring.write) }

/-- `fplinux_audio_streams_mix` after the load.  The frames the period took
are those the read position moved by. -/
def mix (cfg : Config) (s : Stream) (write : ℕ) : Stream :=
  let mixed := s.service.mixed + cfg.period
  match mixerMix s.service.mixer s.ring.slots write cfg.period mixed with
  | none =>
    { s with
      ring := { s.ring with ended := true }
      service := { s.service with mixed := mixed, pending := cfg.period, turn := .ready } }
  | some m =>
    { s with
      service := { s.service with
        mixer := m.stream
        mixed := mixed
        pending := cfg.period
        turn := .ready }
      taken := s.taken + Word.sub 32 m.stream.read s.service.mixer.read
      visits := s.visits ++ m.visits.map fun v => (s.taken + v.whole, v) }

def deviceWrite (s : Stream) (count : ℕ) : Stream :=
  { s with service.written := s.service.written + count,
           service.pending := s.service.pending - count }

def devicePlayed (s : Stream) (delay : ℕ) : ℕ :=
  if delay > s.service.written then 0 else s.service.written - delay

/-- The heard position of `fplinux_audio_streams_publish`. -/
def publish (s : Stream) (played : ℕ) : Stream :=
  let mixer := mixerHeard s.service.mixer played
  { s with service.mixer := mixer, service.turn := .publishing mixer.heard }

/-- `close_device`: what the card held and what was not written is dropped. -/
def closeDevice (s : Stream) : Stream :=
  publish
    { s with service.written := s.service.mixed, service.pending := 0, service.output := .closed }
    s.service.mixed

/-- One atomic step; `none` where the side is not at that step.  The card's
delay is at most its buffer. -/
def step (cfg : Config) (s : Stream) : Op → Option Stream
  | .loadRead frames => s.loadRead cfg frames
  | .copyFirst => s.copyFirst cfg
  | .copyRest => s.copyRest cfg
  | .storeWrite => s.storeWrite
  | op =>
    -- An ended stream is unmapped and no longer served.
    if s.ring.ended then
      none
    else
      match op, s.service.turn with
      | .refresh paused, .ready => some (s.refresh paused)
      | .openDevice ok, .ready => some (s.openDevice ok)
      | .loadWrite, .ready =>
        if s.service.output = .opened ∧ s.service.pending = 0 then some s.loadWrite else none
      | .mix, .loaded write => some (s.mix cfg write)
      | .deviceWrite count, .ready =>
        if count ≤ s.service.pending then some (s.deviceWrite count) else none
      | .publish delay, .ready =>
        if delay ≤ cfg.buffer then some (s.publish (s.devicePlayed delay)) else none
      | .closeDevice, .ready => some s.closeDevice
      | .storeRead, .publishing heard =>
        some { s with ring.read := s.service.mixer.read, service.turn := .published heard }
      | .storeHeard, .published heard =>
        some { s with ring.heard := heard, service.turn := .ready }
      | _, _ => none

/-- What a step does, with what lets it happen. -/
inductive Stepped (cfg : Config) (s : Stream) : Op → Stream → Prop
  | loadRead {frames : List Frame} {t : Stream} :
      s.loadRead cfg frames = some t → Stepped cfg s (.loadRead frames) t
  | copyFirst {t : Stream} : s.copyFirst cfg = some t → Stepped cfg s .copyFirst t
  | copyRest {t : Stream} : s.copyRest cfg = some t → Stepped cfg s .copyRest t
  | storeWrite {t : Stream} : s.storeWrite = some t → Stepped cfg s .storeWrite t
  | refresh {paused : Bool} :
      s.service.turn = .ready → Stepped cfg s (.refresh paused) (s.refresh paused)
  | openDevice {ok : Bool} :
      s.service.turn = .ready → Stepped cfg s (.openDevice ok) (s.openDevice ok)
  | loadWrite : s.service.turn = .ready → s.service.output = .opened → s.service.pending = 0 →
      Stepped cfg s .loadWrite s.loadWrite
  | mix {write : ℕ} : s.service.turn = .loaded write → Stepped cfg s .mix (s.mix cfg write)
  | deviceWrite {count : ℕ} : s.service.turn = .ready → count ≤ s.service.pending →
      Stepped cfg s (.deviceWrite count) (s.deviceWrite count)
  | publish {delay : ℕ} : s.service.turn = .ready → delay ≤ cfg.buffer →
      Stepped cfg s (.publish delay) (s.publish (s.devicePlayed delay))
  | closeDevice : s.service.turn = .ready → Stepped cfg s .closeDevice s.closeDevice
  | storeRead {heard : ℕ} : s.service.turn = .publishing heard →
      Stepped cfg s .storeRead
        { s with ring.read := s.service.mixer.read, service.turn := .published heard }
  | storeHeard {heard : ℕ} : s.service.turn = .published heard →
      Stepped cfg s .storeHeard { s with ring.heard := heard, service.turn := .ready }

theorem stepped_of_step {cfg : Config} {s t : Stream} {op : Op} (hs : s.step cfg op = some t) :
    s.Stepped cfg op t := by
  cases op with
  | loadRead frames => exact .loadRead hs
  | copyFirst => exact .copyFirst hs
  | copyRest => exact .copyRest hs
  | storeWrite => exact .storeWrite hs
  | _ =>
    -- The steps of the service are told apart by its turn.
    simp only [step] at hs
    split at hs
    · cases hs
    · cases hturn : s.service.turn <;> simp only [hturn, reduceCtorEq] at hs
      all_goals first
        | (obtain rfl := Option.some.inj hs; constructor; exact hturn)
        | (obtain ⟨hguard, heq⟩ := Option.ite_none_right_eq_some.mp hs
           obtain rfl := Option.some.inj heq
           constructor <;> first | exact hturn | exact hguard | exact hguard.1 | exact hguard.2)

/-- The runs of one stream. -/
def machine (cfg : Config) : Machine Stream Op where
  start s := ∃ mixed pending output paused,
    pending ≤ cfg.period ∧ pending ≤ mixed ∧ s = initial cfg mixed pending output paused
  step s op s' := s.step cfg op = some s'

end Stream

end Audio
