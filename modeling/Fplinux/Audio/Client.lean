/-
The audio client and its connection to the service
(`fplinux-audio-client.c`, and the connection's side of `audio-streams.c`).

A request to open a stream sends OPEN and waits for the answer until its
deadline; answers carry no number, so the client counts those that are still
to come for requests that timed out (`late`) and drops as many.  `Agreement`
holds the client, the connection in use with its packets on the way and the
service's end of it, and `step` makes one call of either side that another may
come between: a send, a receive, a time-out, one packet served.  A connection
is reliable: what is sent arrives, in order, until one side closes it.  The
policy of the service, what it refuses and when it hangs up, is the choice of
its steps; KICKs, which change nothing, are left out.

`late` is a natural number, as a socket holds far fewer than 2^32 packets.
The calls are numbered, which the source does not do: `call` in a packet or an
answer is the request that sent the OPEN, or connected, behind it.  `pending`
lists the requests that timed out and were not answered yet, `log` every answer
received: the request the client took it for and the one that caused it.
-/
import Fplinux.Audio.Policy
import Fplinux.Lib.Slots

namespace AudioClient

open Audiod

abbrev ClientSlot := Fin clientStreams

/-- What the client sends. -/
inductive Packet
  | hello
  | openStream (rate channels call : ℕ)
  | closeStream (id call : ℕ)
  deriving DecidableEq, Repr

/-- What the service sends; `OPENED` comes with the ring. -/
inductive Answer
  | opened (id rate channels call : ℕ)
  | error (code call : ℕ)
  deriving DecidableEq, Repr

/-- A stream in a slot of the service. -/
structure Served where
  id : ℕ
  call : ℕ
  deriving DecidableEq, Repr

/-- A connection: the service's end, and the packets sent and not received
yet.  `call` is the request that connected. -/
structure Connection where
  state : ConnectionState := .new
  lastId : ℕ := 0
  slots : StreamIndex → Option Served := fun _ => none
  requests : List Packet := []
  answers : List Answer := []
  closed : Bool := false
  call : ℕ

/-- `struct fplinux_audio_stream`: `call` is the request it was handed to,
`cause` the one that caused its OPENED. -/
structure ClientStream where
  id : ℕ
  call : ℕ
  cause : ℕ
  ended : Bool := false
  deriving DecidableEq, Repr

/-- A call of `request_stream`; `retried` for the second one of an open. -/
structure Request where
  call : ℕ
  rate : ℕ
  channels : ℕ
  slot : ClientSlot
  retried : Bool := false
  deriving DecidableEq, Repr

/-- Where the client is: outside its functions, about to send HELLO or OPEN,
waiting for an answer (on a connection that is `fresh`), or in
`fplinux_audio_client_dispatch`. -/
inductive Phase
  | idle
  | greeting (request : Request)
  | asking (request : Request) (fresh : Bool)
  | awaiting (request : Request) (fresh : Bool)
  | dispatching
  deriving DecidableEq, Repr

/-- The client, with the connection of its descriptor. -/
structure Agreement where
  connection : Option Connection := none
  late : ℕ := 0
  streams : ClientSlot → Option ClientStream := fun _ => none
  phase : Phase := .idle
  calls : ℕ := 0
  pending : List ℕ := []
  log : List (Option ℕ × ℕ) := []

namespace Answer

def call : Answer → ℕ
  | .opened _ _ _ call => call
  | .error _ call => call

end Answer

namespace Connection

/-- `send`: a connection the service closed takes no more packets. -/
def send (c : Connection) (packet : Packet) : Connection :=
  if c.closed then c else { c with requests := c.requests ++ [packet] }

/-- The service closes the connection: its streams end, what it did not read
is lost, what it sent can still be received. -/
def disconnect (c : Connection) : Connection :=
  { c with state := .free, slots := fun _ => none, requests := [], closed := true }

def answer (c : Connection) (answer : Answer) : Connection :=
  { c with answers := c.answers ++ [answer] }

def findStream (c : Connection) (id : ℕ) : Option StreamIndex :=
  (List.finRange streamsMax).find? fun i => (c.slots i).any fun stream => stream.id = id

/-- What the service does with a packet: HELLO is accepted, waits or is refused
with an error; OPEN fills a free slot or is refused. -/
inductive Choice
  | accept
  | wait
  | refuse (code : ℕ)
  | fill (slot : StreamIndex)
  deriving DecidableEq, Repr

/-- A refused HELLO is answered, and the connection closed. -/
def refuseHello (c : Connection) (code : ℕ) : Connection :=
  (c.answer (.error code c.call)).disconnect

/-- OPEN: `open_stream`. -/
def serveOpen (c : Connection) (rate channels call : ℕ) : Choice → Option Connection
  | .fill slot =>
    if (c.slots slot).isNone then
      let id := Streams.nextId c.lastId
      some <|
        { c with lastId := id, slots := Function.update c.slots slot (some ⟨id, call⟩) }.answer
          (.opened id rate channels call)
    else none
  | .refuse code => if 0 < code then some (c.answer (.error code call)) else none
  | _ => none

/-- One packet: `handle`, from the state the connection is in. -/
def serve (c : Connection) (choice : Choice) : Option Connection :=
  match c.state, c.requests with
  | .new, .hello :: requests =>
    let c := { c with requests := requests }
    match choice with
    | .accept => some { c with state := .ready }
    | .wait => some { c with state := .waiting }
    | .refuse code => if 0 < code then some (c.refuseHello code) else none
    | .fill _ => none
  | .ready, .openStream rate channels call :: requests =>
    serveOpen { c with requests := requests } rate channels call choice
  | .ready, .closeStream id _ :: requests =>
    let c := { c with requests := requests }
    match c.findStream id with
    | some slot => some { c with slots := Function.update c.slots slot none }
    | none => some c
  -- A packet that does not fit the state closes the connection.
  | .new, _ :: _ => some c.disconnect
  | .ready, .hello :: _ => some c.disconnect
  | _, _ => none

/-- The process of a connection that waits is announced, or its deadline
passed. -/
def decide (c : Connection) : Choice → Option Connection
  | .accept => if c.state = .waiting then some { c with state := .ready } else none
  | .refuse code =>
    if c.state = .waiting ∧ 0 < code then some (c.refuseHello code) else none
  | _ => none

end Connection

namespace Agreement

def hangUp (s : Agreement) : Agreement :=
  { s with
    connection := none
    late := 0
    streams := fun i => (s.streams i).map fun stream => { stream with ended := true }
    phase := .idle
    pending := [] }

/-- The first free slot of `client->streams`. -/
def freeSlot (s : Agreement) : Option ClientSlot :=
  (List.finRange clientStreams).find? fun i => (s.streams i).isNone

/-- `request_stream` up to its first send; `connects` is what
`connect_service` gives. -/
def beginRequest (s : Agreement) (rate channels : ℕ) (slot : ClientSlot) (retried connects : Bool) :
    Agreement :=
  let request : Request := { call := s.calls, rate, channels, slot, retried }
  let s := { s with calls := s.calls + 1 }
  match s.connection with
  | some _ => { s with phase := .asking request false }
  | none =>
    if connects then
      { s with connection := some { call := request.call }, phase := .greeting request }
    else
      { s with phase := .idle }

/-- `fplinux_audio_stream_open` up to there. -/
def openStream (s : Agreement) (rate channels : ℕ) (connects : Bool) : Agreement :=
  if rateMin ≤ rate ∧ rate ≤ rateMax ∧ 1 ≤ channels ∧ channels ≤ channelsMax then
    match s.freeSlot with
    | some slot => s.beginRequest rate channels slot false connects
    | none => s
  else s

/-- The send of HELLO. -/
def sendHello (s : Agreement) (c : Connection) (request : Request) : Agreement :=
  if c.closed then s.hangUp
  else { s with connection := some (c.send .hello), phase := .asking request true }

/-- An answer in the place of a failed send is the one to HELLO. -/
def takeRefusal (s : Agreement) (c : Connection) (request : Request) : Agreement :=
  match c.answers with
  | answer :: _ => { s with log := s.log ++ [(some request.call, answer.call)] }
  | [] => s

/-- The send of OPEN; a connection that broke before is set up again once. -/
def sendOpen (s : Agreement) (c : Connection) (request : Request) (fresh connects : Bool) :
    Agreement :=
  if c.closed then
    if fresh then
      (s.takeRefusal c request).hangUp
    else if request.retried then
      s.hangUp
    else
      s.hangUp.beginRequest request.rate request.channels request.slot true connects
  else
    { s with
      connection := some (c.send (.openStream request.rate request.channels request.call))
      phase := .awaiting request fresh }

def dropAnswer (c : Connection) : Answer → Connection
  | .opened id _ _ call => if id ≠ 0 then c.send (.closeStream id call) else c
  | .error _ _ => c

/-- Receives one answer counted as late. -/
def takeLate (s : Agreement) (c : Connection) (answer : Answer) (rest : List Answer) : Agreement :=
  { s with
    connection := some (dropAnswer { c with answers := rest } answer)
    late := s.late - 1
    pending := s.pending.erase answer.call
    log := s.log ++ [(if 0 < s.late then s.pending.head? else none, answer.call)] }

/-- Receives the answer to the request; `mapped` is what the mapping of the
ring gives. -/
def takeOwn (s : Agreement) (c : Connection) (request : Request) (fresh mapped : Bool)
    (answer : Answer) (rest : List Answer) : Agreement :=
  let s := { s with
    connection := some { c with answers := rest }
    phase := .idle
    log := s.log ++ [(some request.call, answer.call)] }
  match answer with
  | .opened id rate channels call =>
    if mapped ∧ id ≠ 0 ∧ rate = request.rate ∧ channels = request.channels then
      { s with
        streams := Function.update s.streams request.slot
          (some { id, call := request.call, cause := call }) }
    else
      { s with connection := some (dropAnswer { c with answers := rest } answer) }
  | .error code _ => if fresh ∨ code = 0 then s.hangUp else s

/-- One turn of the loop of `request_stream`, with an answer or the end. -/
def receive (s : Agreement) (c : Connection) (request : Request) (fresh mapped : Bool) :
    Option Agreement :=
  match c.answers with
  | answer :: rest =>
    some <|
      if 0 < s.late then s.takeLate c answer rest else s.takeOwn c request fresh mapped answer rest
  | [] => if c.closed then some s.hangUp else none

/-- The deadline passes with no answer there. -/
def timeOut (s : Agreement) (c : Connection) (request : Request) : Option Agreement :=
  if c.answers = [] ∧ c.closed = false then
    some { s with late := s.late + 1, pending := s.pending ++ [request.call], phase := .idle }
  else none

/-- `fplinux_audio_stream_close`. -/
def closeStream (s : Agreement) (slot : ClientSlot) : Agreement :=
  match s.streams slot with
  | none => s
  | some stream =>
    { s with
      connection :=
        if stream.ended then s.connection
        else s.connection.map fun c => c.send (.closeStream stream.id stream.call)
      streams := Function.update s.streams slot none }

/-- One turn of the loop of `fplinux_audio_client_dispatch`, and its end. -/
def dispatch (s : Agreement) (c : Connection) : Agreement :=
  match c.answers with
  | answer :: rest => s.takeLate c answer rest
  | [] => if c.closed then s.hangUp else { s with phase := .idle }

/-- The steps of the client and of the service.  `broken` is a receive or a
poll that fails, or a hang-up seen by the caller. -/
inductive Op
  | openStream (rate channels : ℕ) (connects : Bool)
  | sendHello
  | sendOpen (connects : Bool)
  | receive (mapped : Bool)
  | timeOut
  | closeStream (slot : ClientSlot)
  | beginDispatch
  | dispatch
  | broken
  | serve (choice : Connection.Choice)
  | decide (choice : Connection.Choice)
  | disconnect
  deriving DecidableEq, Repr

/-- One step; `none` where the side is not at that step. -/
def step (s : Agreement) : Op → Option Agreement
  | .openStream rate channels connects =>
    if s.phase = .idle then some (s.openStream rate channels connects) else none
  | .closeStream slot => if s.phase = .idle then some (s.closeStream slot) else none
  | op =>
    match s.connection with
    | none => none
    | some c =>
      match op, s.phase with
      | .sendHello, .greeting request => some (s.sendHello c request)
      | .sendOpen connects, .asking request fresh => some (s.sendOpen c request fresh connects)
      | .receive mapped, .awaiting request fresh => s.receive c request fresh mapped
      | .timeOut, .awaiting request _ => s.timeOut c request
      | .beginDispatch, .idle => some { s with phase := .dispatching }
      | .dispatch, .dispatching => some (s.dispatch c)
      | .broken, .awaiting _ _ => some s.hangUp
      | .broken, .dispatching => some s.hangUp
      | .serve choice, _ => (c.serve choice).map fun c => { s with connection := some c }
      | .decide choice, _ => (c.decide choice).map fun c => { s with connection := some c }
      | .disconnect, _ => some { s with connection := some c.disconnect }
      | _, _ => none

/-- The runs of a client and of the service it talks to. -/
def machine : Machine Agreement Op where
  start s := s = {}
  step s op s' := s.step op = some s'

end Agreement

end AudioClient
