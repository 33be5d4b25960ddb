/-
The policy of the audio service: which process may open streams and which
stream plays (`audio-streams.c`, and the control socket of `audiod.c`).

The manager announces processes in text commands; applications connect, send
HELLO and open streams.  `Streams` holds the tables of the source as functions
on their indices; a free stream slot is `none`.  What is shared with an
application, the ring, is not trusted: its write counter and its frames are
parameters of `refresh` and `mix`.  The samples of a period are the mixer's
business (`Mixer`); only the tail of ended streams is kept here.

`Service.step` makes one call of the service's loop, in any order: a packet of
the manager or of a connection, a new connection, a hang-up, an expiry, a
refresh, a period, a change of the card.  Whether an answer could be sent and
whether memory was left for a ring are parameters too.
-/
import Mathlib.Data.List.FinRange
import Fplinux.Lib.Bytes
import Fplinux.Audio.Handoff

namespace Audiod

open Audio Bytes

def processesMax : ℕ := 5
def connectionsMax : ℕ := 16
def goneMax : ℕ := 5
theorem goneMax_pos : 0 < goneMax := by decide
def clientStreams : ℕ := 4
def appStreams : ℕ := 8
def streamsMax : ℕ := appStreams + 1
theorem streamsMax_pos : 0 < streamsMax := by decide
theorem one_lt_streamsMax : 1 < streamsMax := by decide
def clockStreamIndex : Fin streamsMax := ⟨appStreams, by decide⟩

def protocolVersion : ℕ := 1
def rateMin : ℕ := 8000
def rateMax : ℕ := 48000
def channelsMax : ℕ := 2
def volumeMax : ℕ := 10
def controlBytes : ℕ := 256
def resyncDelay : ℕ := 1000
def helloDeadline : ℕ := 1000

/-- `struct fplinux_audio_process`; `pid` 0 is a free entry. -/
structure Process where
  pid : ℤ := 0
  uid : ℕ := 0
  audible : Bool := false
  clock : Bool := false
  deriving DecidableEq, Repr

/-- `enum fplinux_audio_connection_state`. -/
inductive ConnectionState
  | free
  | new
  | waiting
  | ready
  deriving DecidableEq, Repr

/-- `struct fplinux_audio_connection`. -/
structure Connection where
  state : ConnectionState := .free
  pid : ℤ := 0
  uid : ℕ := 0
  clock : Bool := false
  deadlineMs : ℕ := 0
  lastId : ℕ := 0
  deriving DecidableEq, Repr

abbrev ProcessIndex := Fin processesMax
abbrev ConnectionIndex := Fin connectionsMax
abbrev StreamIndex := Fin streamsMax

/-- `struct fplinux_audio_stream` with a ring: `state` and `sleeping` are the
values last stored in it. -/
structure OpenStream where
  connection : ConnectionIndex
  id : ℕ
  state : RingState := .playing
  sleeping : Bool := false
  mixer : MixerStream
  deriving DecidableEq, Repr

/-- `struct fplinux_audio_streams`. -/
structure Streams where
  processes : ProcessIndex → Process := fun _ => {}
  gone : Fin goneMax → ℤ := fun _ => 0
  lastGone : Fin goneMax := ⟨0, goneMax_pos⟩
  connections : ConnectionIndex → Connection := fun _ => {}
  streams : StreamIndex → Option OpenStream := fun _ => none
  output : Output := .closed
  mixed : ℕ := 0
  resyncMs : ℕ := 0
  tail : ℤ × ℤ := (0, 0)

/-- `enum fplinux_audio_message_type`. -/
def typeHello : ℕ := 1
def typeOpen : ℕ := 2
def typeClose : ℕ := 5
def typeKick : ℕ := 6

/-- `struct fplinux_audio_message`. -/
structure Message where
  type : ℕ
  version : ℕ := 0
  stream : ℕ := 0
  rate : ℕ := 0
  channels : ℕ := 0
  flags : ℕ := 0
  error : ℤ := 0
  reserved : ℕ := 0
  deriving DecidableEq, Repr

/-- What the system grants while a packet is handled: memory for a ring, and
room for the answer in the socket. -/
structure Grants where
  memory : Bool
  sent : Bool
  deriving DecidableEq, Repr

namespace Streams

def setProcess (s : Streams) (i : ProcessIndex) (process : Process) : Streams :=
  { s with processes := Function.update s.processes i process }

def setConnection (s : Streams) (i : ConnectionIndex) (connection : Connection) : Streams :=
  { s with connections := Function.update s.connections i connection }

def setStream (s : Streams) (i : StreamIndex) (stream : Option OpenStream) : Streams :=
  { s with streams := Function.update s.streams i stream }

@[simp]
theorem setProcess_self (s : Streams) (i : ProcessIndex) (process : Process) :
    (s.setProcess i process).processes i = process :=
  Function.update_self ..

@[simp]
theorem setProcess_of_ne (s : Streams) {i j : ProcessIndex} (process : Process) (h : j ≠ i) :
    (s.setProcess i process).processes j = s.processes j :=
  Function.update_of_ne h ..

@[simp]
theorem setConnection_self (s : Streams) (i : ConnectionIndex) (connection : Connection) :
    (s.setConnection i connection).connections i = connection :=
  Function.update_self ..

@[simp]
theorem setConnection_of_ne (s : Streams) {i j : ConnectionIndex} (connection : Connection)
    (h : j ≠ i) : (s.setConnection i connection).connections j = s.connections j :=
  Function.update_of_ne h ..

@[simp]
theorem setStream_self (s : Streams) (i : StreamIndex) (stream : Option OpenStream) :
    (s.setStream i stream).streams i = stream :=
  Function.update_self ..

@[simp]
theorem setStream_of_ne (s : Streams) {i j : StreamIndex} (stream : Option OpenStream)
    (h : j ≠ i) : (s.setStream i stream).streams j = s.streams j :=
  Function.update_of_ne h ..

def findProcess (s : Streams) (pid : ℤ) : Option ProcessIndex :=
  if 0 < pid then (List.finRange processesMax).find? fun i => (s.processes i).pid = pid else none

def findGone (s : Streams) (pid : ℤ) : Option (Fin goneMax) :=
  if 0 < pid then (List.finRange goneMax).find? fun i => s.gone i = pid else none

def streamPid (s : Streams) (stream : OpenStream) : ℤ := (s.connections stream.connection).pid

def endStream (s : Streams) (i : StreamIndex) : Streams :=
  match s.streams i with
  | none => s
  | some stream =>
    let tail :=
      if s.output = .opened then
        (s.tail.1 + stream.mixer.last.1, s.tail.2 + stream.mixer.last.2)
      else s.tail
    { s.setStream i none with tail := tail }

/-- The loop of `fplinux_audio_streams_disconnect`. -/
def endStreamOf (index : ConnectionIndex) (s : Streams) (i : StreamIndex) : Streams :=
  match s.streams i with
  | some stream => if stream.connection = index then s.endStream i else s
  | none => s

def disconnect (s : Streams) (index : ConnectionIndex) : Streams :=
  ((List.finRange streamsMax).foldl (endStreamOf index) s).setConnection index {}

/-- `paused` as `update` computes it. -/
def pausedNow (s : Streams) (stream : OpenStream) : Bool :=
  match s.findProcess (s.streamPid stream) with
  | some p => !(s.processes p).audible
  | none => true

/-- `update`: the stream after it. -/
def update (s : Streams) (stream : OpenStream) : OpenStream :=
  let paused := s.pausedNow stream
  { stream with
    state := if paused then .paused
      else if s.output = .unavailable then .unavailable
      else .playing
    sleeping := paused || s.output ≠ .opened
    mixer := { stream.mixer with paused := paused } }

/-- The slots a role may use, `first` to `limit`. -/
def slotsOf (clock : Bool) : List StreamIndex :=
  (List.finRange streamsMax).filter fun i => decide (i = clockStreamIndex) = clock

/-- How many streams a process of a role may have. -/
def streamLimit (clock : Bool) : ℕ := if clock then 1 else clientStreams

/-- Whether a slot holds a stream of this process. -/
def isOf (s : Streams) (pid : ℤ) (i : StreamIndex) : Bool :=
  (s.streams i).any fun stream => s.streamPid stream = pid

/-- The next stream ID of a connection. -/
def nextId (lastId : ℕ) : ℕ :=
  if Word.add 32 lastId 1 = 0 then Word.add 32 (Word.add 32 lastId 1) 1 else Word.add 32 lastId 1

theorem nextId_eq {lastId : ℕ} (h : lastId < 2 ^ 32 - 1) : nextId lastId = lastId + 1 := by
  rw [nextId, Word.add_eq (by omega), if_neg (Nat.succ_ne_zero _)]

theorem nextId_ne_zero (lastId : ℕ) : nextId lastId ≠ 0 := by
  unfold nextId
  split
  case isTrue hzero =>
    rw [hzero]
    decide
  case isFalse hnonzero => exact hnonzero

/-- The stream that `open_stream` puts in a free slot. -/
def newStream (s : Streams) (index : ConnectionIndex) (request : Message) : OpenStream :=
  s.update
    { connection := index
      id := nextId (s.connections index).lastId
      mixer := mixerStreamInit (ringCapacity request.rate) request.rate request.channels s.mixed }

/-- `open_stream`; false when the connection must be closed, as no answer
could be sent. -/
def openStream (s : Streams) (index : ConnectionIndex) (request : Message) (grants : Grants) :
    Streams × Bool :=
  let connection := s.connections index
  let slots := slotsOf connection.clock
  if request.rate < rateMin ∨ request.rate > rateMax ∨ request.channels = 0 ∨
      request.channels > channelsMax ∨ request.flags ≠ 0 then
    (s, grants.sent)
  else if slots.countP (s.isOf connection.pid) ≥ streamLimit connection.clock then
    (s, grants.sent)
  else
    match slots.find? fun i => (s.streams i).isNone with
    | none => (s, grants.sent)
    | some i =>
      if grants.memory then
        let opened := s.setConnection index { connection with lastId := nextId connection.lastId }
        if grants.sent then
          (opened.setStream i (some (s.newStream index request)), true)
        else
          (opened, false)
      else
        (s, grants.sent)

def findStream (s : Streams) (index : ConnectionIndex) (id : ℕ) : Option StreamIndex :=
  (List.finRange streamsMax).find? fun i =>
    (s.streams i).any fun stream => stream.connection = index ∧ stream.id = id

/-- HELLO in `handle`. -/
def hello (s : Streams) (index : ConnectionIndex) (message : Message) : Streams × Bool :=
  let connection := s.connections index
  if connection.state ≠ .new ∨ message.stream ≠ 0 ∨ message.rate ≠ 0 ∨ message.channels ≠ 0 ∨
      message.flags ≠ 0 then
    (s, false)
  else if message.version ≠ protocolVersion then
    (s, false)
  else
    match s.findProcess connection.pid with
    | none =>
      if (s.findGone connection.pid).isSome then
        (s, false)
      else
        (s.setConnection index { connection with state := .waiting }, true)
    | some p =>
      if (s.processes p).uid ≠ connection.uid then
        (s, false)
      else
        (s.setConnection index
          { connection with state := .ready, clock := (s.processes p).clock }, true)

/-- `handle`; false closes the connection. -/
def handle (s : Streams) (index : ConnectionIndex) (message : Message) (grants : Grants) :
    Streams × Bool :=
  let connection := s.connections index
  if message.error ≠ 0 ∨ message.reserved ≠ 0 then
    (s, false)
  else if message.type = typeHello then
    s.hello index message
  else if message.type = typeOpen then
    if connection.state ≠ .ready ∨ message.version ≠ 0 ∨ message.stream ≠ 0 then
      (s, false)
    else
      s.openStream index message grants
  else if message.type = typeClose ∨ message.type = typeKick then
    if connection.state ≠ .ready ∨ message.version ≠ 0 ∨ message.rate ≠ 0 ∨
        message.channels ≠ 0 ∨ message.flags ≠ 0 then
      (s, false)
    else if message.type = typeClose then
      (((s.findStream index message.stream).map s.endStream).getD s, true)
    else
      (s, true)
  else
    (s, false)

/-- What `recv` gives on a connection: one whole message, or a packet of
another size, an error or the end. -/
inductive Received
  | message (message : Message) (grants : Grants)
  | broken
  deriving DecidableEq, Repr

/-- One turn of the loop of `fplinux_audio_streams_receive`. -/
def receive (s : Streams) (index : ConnectionIndex) (received : Received) : Streams :=
  if (s.connections index).state = .free ∨ (s.connections index).state = .waiting then
    s
  else
    match received with
    | .broken => s.disconnect index
    | .message message grants =>
      let handled := s.handle index message grants
      if handled.2 then handled.1 else handled.1.disconnect index

/-- `fplinux_audio_streams_accept`; the caller closes a connection that finds
no entry. -/
def accept (s : Streams) (pid : ℤ) (uid now : ℕ) : Streams :=
  match (List.finRange connectionsMax).find? fun i => (s.connections i).state = .free with
  | none => s
  | some i => s.setConnection i { state := .new, pid, uid, deadlineMs := now + helloDeadline }

/-- What `announce` does to one connection. -/
def announceTo (pid : ℤ) (uid : ℕ) (clock : Bool) (s : Streams) (index : ConnectionIndex) :
    Streams :=
  let connection := s.connections index
  if connection.pid ≠ pid ∨ connection.state = .free ∨ connection.state = .new then
    s
  else if connection.uid = uid ∧ (connection.state = .waiting ∨ connection.clock = clock) then
    s.setConnection index { connection with state := .ready, clock := clock }
  else
    s.disconnect index

/-- The entry that `announce` writes: the process's own, or a free one. -/
def entryFor (s : Streams) (pid : ℤ) : Option ProcessIndex :=
  (s.findProcess pid).or
    ((List.finRange processesMax).find? fun i => (s.processes i).pid = 0)

/-- Whether another process is the clock helper. -/
def clockTaken (s : Streams) (pid : ℤ) : Bool :=
  (List.finRange processesMax).any fun i =>
    (s.processes i).pid ≠ 0 ∧ (s.processes i).pid ≠ pid ∧ (s.processes i).clock

/-- A process that is announced is no longer remembered as gone. -/
def clearGone (s : Streams) (pid : ℤ) : Streams :=
  match s.findGone pid with
  | some i => { s with gone := Function.update s.gone i 0 }
  | none => s

def announce (s : Streams) (pid : ℤ) (uid : ℕ) (clock : Bool) : Streams :=
  if clock && s.clockTaken pid then
    s
  else
    let s := s.clearGone pid
    match s.entryFor pid with
    | none => s
    | some p =>
      -- Streams start paused, until AUDIBLE 1.
      (List.finRange connectionsMax).foldl (announceTo pid uid clock)
        (s.setProcess p { pid, uid, clock })

/-- What `forget` does to one connection. -/
def forgetAt (pid : ℤ) (s : Streams) (index : ConnectionIndex) : Streams :=
  if (s.connections index).state = .free ∨ (s.connections index).pid ≠ pid then s
  else s.disconnect index

/-- The next entry of the circle of pids that left. -/
def nextGone (i : Fin goneMax) : Fin goneMax :=
  ⟨(i.val + 1) % goneMax, Nat.mod_lt _ (by decide)⟩

/-- Remembers that a process left. -/
def addGone (s : Streams) (pid : ℤ) : Streams :=
  if (s.findGone pid).isSome then
    s
  else
    { s with
      lastGone := nextGone s.lastGone
      gone := Function.update s.gone (nextGone s.lastGone) pid }

def forget (s : Streams) (pid : ℤ) : Streams :=
  let left := (List.finRange connectionsMax).foldl (forgetAt pid) s
  match s.findProcess pid with
  | some p => (left.setProcess p {}).addGone pid
  | none => left.addGone pid

/-! ### Control commands -/

/-- `isspace` in the C locale. -/
def isSpace (b : UInt8) : Bool := b = byte ' ' ∨ 9 ≤ b ∧ b ≤ 13

def isDigit (b : UInt8) : Bool := byte '0' ≤ b ∧ b ≤ byte '9'

/-- What `strtoul` reads as digits: past spaces and a plus sign. -/
def unsignedDigits (text : List UInt8) : List UInt8 :=
  match text.dropWhile isSpace with
  | [] => []
  | b :: rest => if b = byte '+' then rest else b :: rest

def cliUnsigned (text : List UInt8) (minimum maximum : ℕ) : Option ℕ :=
  let digits := unsignedDigits text
  let value := digits.foldl (fun value b => value * 10 + (b.toNat - (byte '0').toNat)) 0
  if digits ≠ [] ∧ digits.all isDigit ∧ minimum ≤ value ∧ value ≤ maximum then some value else none

/-- The pid and the uid of a command. -/
def cliPid (text : List UInt8) : Option ℕ := cliUnsigned text 1 (2 ^ 31 - 1)
def cliUid (text : List UInt8) : Option ℕ := cliUnsigned text 0 (2 ^ 32 - 2)

/-- `fplinux_audio_streams_command`; other commands are ignored. -/
def command (s : Streams) (text : List UInt8) : Streams :=
  match text.splitOn (byte ' ') with
  | [word, pid, uid, appId] =>
    if word = ascii "APP" ∧ appId ≠ [] then
      match cliPid pid, cliUid uid with
      | some pid, some uid => s.announce pid uid false
      | _, _ => s
    else s
  | [word, pid, value] =>
    if word = ascii "CLOCK" then
      match cliPid pid, cliUid value with
      | some pid, some uid => s.announce pid uid true
      | _, _ => s
    else if word = ascii "AUDIBLE" ∧ value.length = 1 then
      match cliPid pid, cliUnsigned value 0 1 with
      | some pid, some audible =>
        match s.findProcess pid with
        | some p => s.setProcess p { s.processes p with audible := audible = 1 }
        | none => s
      | _, _ => s
    else s
  | [word, pid] =>
    if word = ascii "GONE" then
      match cliPid pid with
      | some pid => s.forget pid
      | none => s
    else s
  | _ => s

def manager (s : Streams) (connected : Bool) (now : ℕ) : Streams :=
  if connected then
    { s with resyncMs := now + resyncDelay }
  else
    { s with processes := fun _ => {}, gone := fun _ => 0, resyncMs := 0 }

/-! ### Deadlines, refreshes and periods -/

/-- Whether the connection's process is announced with its uid and role. -/
def announced (s : Streams) (connection : Connection) : Bool :=
  match s.findProcess connection.pid with
  | some p => (s.processes p).uid = connection.uid ∧ (s.processes p).clock = connection.clock
  | none => false

/-- The end of the resynchronization for one connection. -/
def resyncAt (s : Streams) (index : ConnectionIndex) : Streams :=
  let connection := s.connections index
  if connection.state ≠ .ready ∨ s.announced connection then s else s.disconnect index

/-- The end of the wait for a HELLO or for its process. -/
def deadlineAt (now : ℕ) (s : Streams) (index : ConnectionIndex) : Streams :=
  let connection := s.connections index
  if connection.state ≠ .new ∧ connection.state ≠ .waiting ∨ now < connection.deadlineMs then s
  else s.disconnect index

def expire (s : Streams) (now : ℕ) : Streams :=
  let s :=
    if s.resyncMs ≠ 0 ∧ now ≥ s.resyncMs then
      (List.finRange connectionsMax).foldl resyncAt { s with resyncMs := 0 }
    else
      s
  (List.finRange connectionsMax).foldl (deadlineAt now) s

/-- `fplinux_audio_streams_refresh` for one slot, with the write counter its
ring holds. -/
def refreshAt (writes : StreamIndex → ℕ) (s : Streams) (i : StreamIndex) : Streams :=
  match s.streams i with
  | none => s
  | some stream =>
    let stream := s.update stream
    let s := s.setStream i (some stream)
    if !stream.mixer.paused && stream.sleeping then
      if Word.sub 32 (writes i) stream.mixer.read > Word.add 32 stream.mixer.mask 1 then
        s.endStream i
      else s
    else s

def refresh (s : Streams) (writes : StreamIndex → ℕ) : Streams :=
  (List.finRange streamsMax).foldl (refreshAt writes) s

/-- `fplinux_audio_streams_mix` for one slot, with the write counter and the
frames its ring holds. -/
def mixAt (frames : ℕ) (writes : StreamIndex → ℕ) (rings : StreamIndex → List Frame)
    (s : Streams) (i : StreamIndex) : Streams :=
  match s.streams i with
  | none => s
  | some stream =>
    match mixerMix stream.mixer (rings i) (if stream.mixer.paused then 0 else writes i) frames
        s.mixed with
    | none => s.endStream i
    | some made => s.setStream i (some { stream with mixer := made.stream })

def mix (s : Streams) (frames : ℕ) (writes : StreamIndex → ℕ) (rings : StreamIndex → List Frame) :
    Streams :=
  (List.finRange streamsMax).foldl (mixAt frames writes rings)
    { s with tail := (0, 0), mixed := s.mixed + frames }

def publish (s : Streams) (played : ℕ) : Streams :=
  { s with
    streams := fun i =>
      (s.streams i).map fun stream => { stream with mixer := mixerHeard stream.mixer played } }

end Streams

/-- The service: the streams, whether the manager is connected and has
announced a process since, and the master gain. -/
structure Service where
  streams : Streams := {}
  manager : Bool := false
  managerAnnounced : Bool := false
  master : Gain := ⟨mixerUnity, mixerUnity⟩

namespace Service

def dropManager (s : Service) : Service :=
  { s with manager := false, managerAnnounced := false, streams := s.streams.manager false 0 }

/-- `accept_manager` for a peer with the service's own user. -/
def acceptManager (s : Service) (now : ℕ) : Service :=
  let s := if s.manager then s.dropManager else s
  { s with manager := true, streams := s.streams.manager true now }

/-- The text of a volume command. -/
def volumeText (level : ℕ) : List UInt8 :=
  ascii "VOLUME " ++ (Nat.toDigits 10 level).map byte

/-- The level a volume command sets. -/
def volumeLevel (text : List UInt8) : Option ℕ :=
  (List.range (volumeMax + 1)).find? fun level => text = volumeText level

/-- A volume command; `sent` tells whether the reply could be sent. -/
def setVolume (s : Service) (level now : ℕ) (sent : Bool) : Service :=
  let target := (level : ℤ) * mixerUnity / volumeMax
  let s := { s with master.target := target }
  let s :=
    if s.managerAnnounced then s
    else { s with master.current := target, streams := s.streams.manager true now }
  if sent then s else s.dropManager

/-- One packet in `read_manager`. -/
def readManager (s : Service) (text : List UInt8) (now : ℕ) (sent : Bool) : Service :=
  if text = [] then
    s.dropManager
  else if text.length ≥ controlBytes ∨ 0 ∈ text then
    s
  else if (ascii "VOLUME ").isPrefixOf text then
    match volumeLevel text with
    | some level => s.setVolume level now sent
    | none => s
  else
    { s with managerAnnounced := true, streams := s.streams.command text }

def closeDevice (s : Service) : Service :=
  let streams := { s.streams with tail := (0, 0) }.publish s.streams.mixed
  { s with streams := { streams with output := .closed } }

/-- The calls of the service's loop. -/
inductive Op
  | acceptManager (now : ℕ)
  | dropManager
  | readManager (text : List UInt8) (now : ℕ) (sent : Bool)
  | accept (pid : ℤ) (uid now : ℕ)
  | receive (index : ConnectionIndex) (received : Streams.Received)
  | disconnect (index : ConnectionIndex)
  | expire (now : ℕ)
  | refresh (writes : StreamIndex → ℕ)
  | mix (frames : ℕ) (writes : StreamIndex → ℕ) (rings : StreamIndex → List Frame)
  | publish (played : ℕ)
  | openDevice (ok : Bool)
  | makeUnavailable
  | closeDevice

/-- One call. -/
def perform (s : Service) : Op → Service
  | .acceptManager now => s.acceptManager now
  | .dropManager => if s.manager then s.dropManager else s
  | .readManager text now sent => if s.manager then s.readManager text now sent else s
  | .accept pid uid now => { s with streams := s.streams.accept pid uid now }
  | .receive index received => { s with streams := s.streams.receive index received }
  | .disconnect index =>
    if (s.streams.connections index).state = .free then s
    else { s with streams := s.streams.disconnect index }
  | .expire now => { s with streams := s.streams.expire now }
  | .refresh writes => { s with streams := s.streams.refresh writes }
  | .mix frames writes rings => { s with streams := s.streams.mix frames writes rings }
  | .publish played => { s with streams := s.streams.publish played }
  | .openDevice ok => { s with streams.output := if ok then .opened else .unavailable }
  | .makeUnavailable => { s with streams.output := .unavailable }
  | .closeDevice => s.closeDevice

/-- The runs of the service. -/
def machine : Machine Service Op where
  start s := s = {}
  step s op s' := s' = s.perform op

end Service

end Audiod
