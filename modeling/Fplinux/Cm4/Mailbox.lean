/-
The Bluetooth controller's mailbox driver.

The driver answers the controller's handshake, moves bytes through the shared
rings and tells the controller with DATA and SPACE messages when it added to an
empty ring or took from a full one.  `State` is its static record and `Op` what
happens to it: calls of the driver, interrupts from the mailbox, and the second
half of a poll.  A section that runs with interrupts excluded is one step.
What such a section reads from the shared memory, which the controller may
change at any time, comes with the operation, and so does what the mailbox
controller answers to a message it is handed.

Beside the record the state keeps the messages that the mailbox controller
took (`handed`) and those whose completion it has not called back yet
(`outstanding`).
-/
import Fplinux.Cm4.Sbuf

namespace Mailbox

open Sbuf (ringBytes)

/-! ### The record -/

def eventLimit : ℕ := 256

def openWord : ℕ := 0xbeee0104

def cmdWord : ℕ := 0x00010504

def doneWord : ℕ := 0x00020604

def dataWord : ℕ := 0x00010404

def spaceWord : ℕ := 0x00020404

def sipcPhys : ℕ := 0x80000000

def sipcBytes : ℕ := 0x20000

def sbufDescriptor : ℕ := 0x04

def sbufData : ℕ := 0x6c

def sbufEnd : ℕ := 0xd86c

def ringCount : ℕ := 3

def u32Max : ℕ := 2 ^ 32 - 1

/-- Why `mailbox_fail` was called. -/
inductive Reason
  | unexpectedRoute
  | unexpectedProtocol
  | rxQueueBound
  | unexpectedTxDone
  | txFailed
  | txSubmitFailed
  | sbufLayoutChanged
  | sbufStreamChanged
  | sbufAttachCounter
  deriving DecidableEq, Repr

/-- What a call returns; `failed` is `mailbox.error`. -/
inductive Ret
  | ok
  | inProgress
  | invalid
  | hostDown
  | shutdown
  | again
  | messageSize
  | busy
  | already
  | failed
  deriving DecidableEq, Repr

structure Message where
  low : ℕ
  high : ℕ
  localOpenAtReceive : Bool
  deriving DecidableEq, Repr

/-- The three buffers that messages are sent from. -/
inductive Slot
  | opening
  | done
  | notify
  deriving DecidableEq, Repr

structure Send where
  low : ℕ
  high : ℕ
  triggered : Bool
  delivered : Bool
  deriving DecidableEq, Repr

/-- `struct sbuf_stream`; bit `2 * ring` of `pending` is a DATA notification,
bit `2 * ring + 1` a SPACE notification. -/
structure Stream where
  enabled : Bool
  pending : BitVec 32
  activeEvent : ℕ
  notify : Send
  deriving DecidableEq, Repr

/-- A message in the mailbox controller's hands. -/
structure Handed where
  slot : Slot
  low : ℕ
  high : ℕ
  deriving DecidableEq, Repr

structure State where
  queue : List Message
  consumed : ℕ
  allocatorBefore : ℕ
  peerOpen : Bool
  peerCmd : Bool
  prepared : Bool
  stopped : Bool
  suspended : Bool
  predoneValid : Bool
  continuous : Bool
  opening : Send
  done : Send
  stream : Stream
  error : Option Reason
  stopError : Bool
  due : Option Slot
  ret : Ret
  transferred : ℕ
  handed : List Handed
  outstanding : List Handed
  deriving DecidableEq, Repr

/-- The record as `ums9117_cm4_mailbox_prepare` leaves it. -/
def start (allocator : ℕ) : State where
  queue := []
  consumed := 0
  allocatorBefore := allocator
  peerOpen := false
  peerCmd := false
  prepared := true
  stopped := false
  suspended := false
  predoneValid := false
  continuous := false
  opening := ⟨openWord, 0, false, false⟩
  done := ⟨doneWord, sipcPhys + sbufDescriptor, false, false⟩
  stream := ⟨false, 0, 0, ⟨0, 0, false, false⟩⟩
  error := none
  stopError := false
  due := none
  ret := .ok
  transferred := 0
  handed := []
  outstanding := []

namespace State

variable (s : State)

/-- `mailbox_fail`: the first error stays. -/
def fail (reason : Reason) : State :=
  if s.error.isNone then { s with error := some reason, ret := .failed }
  else { s with ret := .failed }

/-- A call's result. -/
def give (ret : Ret) : State := { s with ret := ret }

/-! ### Received messages -/

def sbufAcceptEvent (message : Message) : Bool :=
  s.stream.enabled && (message.low == dataWord || message.low == spaceWord) &&
    decide (message.high < ringCount)

def acceptServiceMessage (message : Message) : State :=
  if message.low % 256 ≠ 4 ∧ message.low % 256 ≠ 5 then s.fail .unexpectedRoute
  else if message.low % 256 = 5 then s
  else if s.sbufAcceptEvent message then s
  else s.fail .unexpectedProtocol

def receive (low high : ℕ) : State :=
  let message : Message := ⟨low, high, s.opening.triggered⟩
  if s.error.isSome || s.stopped then s
  else if s.continuous then s.acceptServiceMessage message
  else if s.queue.length = eventLimit then s.fail .rxQueueBound
  else { s with queue := s.queue ++ [message] }

def acceptMessage (message : Message) : State :=
  if message.low % 256 ≠ 4 ∧ message.low % 256 ≠ 5 then s.fail .unexpectedRoute
  else if message.low % 256 = 5 then s
  else if s.sbufAcceptEvent message then s
  else if message.low = openWord ∧ message.high = 0 ∧ s.peerOpen = false then
    { s with peerOpen := true }
  else if message.low = cmdWord ∧ message.high = 0 ∧ s.peerOpen = true ∧
      message.localOpenAtReceive = true ∧ s.peerCmd = false then
    { s with peerCmd := true }
  else s.fail .unexpectedProtocol

/-- `mailbox_consume_queue`, for the messages from `consumed` on. -/
def consumeLoop : List Message → State → State
  | [], s => s
  | message :: rest, s =>
    if s.error.isSome then s
    else consumeLoop rest (acceptMessage { s with consumed := s.consumed + 1 } message)

def consumeQueue : State := consumeLoop (s.queue.drop s.consumed) s

/-! ### Messages to the controller -/

def send : Slot → Send
  | .opening => s.opening
  | .done => s.done
  | .notify => s.stream.notify

def setSend (send : Send) : Slot → State
  | .opening => { s with opening := send }
  | .done => { s with done := send }
  | .notify => { s with stream := { s.stream with notify := send } }

/-- `mailbox_transmitted` for the buffer of a slot, or for another one. -/
def transmitted (slot : Option Slot) (failed : Bool) : State :=
  match slot with
  | none => s.fail .unexpectedTxDone
  | some slot =>
    let s := { s with outstanding := s.outstanding.filter (·.slot ≠ slot) }
    let send := s.send slot
    if failed then s.fail .txFailed
    else if !send.triggered || send.delivered then s.fail .unexpectedTxDone
    else s.setSend { send with delivered := true } slot

/-- `mailbox_trigger`; `accepted` is whether `mbox_send_message` took it. -/
def trigger (slot : Slot) (accepted : Bool) : State :=
  if s.error.isSome || s.stopped || s.suspended || s.consumed != s.queue.length then
    s.give (if s.error.isSome then .failed else .inProgress)
  else
    let send := s.send slot
    if accepted then
      let message : Handed := ⟨slot, send.low, send.high⟩
      { s.setSend { send with triggered := true } slot with
        handed := s.handed ++ [message]
        outstanding := s.outstanding ++ [message]
        ret := .inProgress }
    else (s.setSend { send with triggered := false } slot).fail .txSubmitFailed

end State

/-- `__ffs`: the lowest bit that is set. -/
def ffs (bits : BitVec 32) : ℕ := bits.ctz.toNat

/-- The message of an event. -/
def eventMessage (event : ℕ) : ℕ × ℕ :=
  (if event % 2 = 0 then dataWord else spaceWord, event / 2)

/-! ### The shared memory -/

/-- `enum sbuf_word`. -/
structure Ring where
  txAddress : ℕ
  txSize : ℕ
  txRead : ℕ
  txWrite : ℕ
  rxAddress : ℕ
  rxSize : ℕ
  rxRead : ℕ
  rxWrite : ℕ
  deriving DecidableEq, Repr

/-- What `sbuf_read_snapshot` reads. -/
structure Snapshot where
  allocator : ℕ
  ringCount : ℕ
  rings : Fin 3 → Ring

inductive CounterMode
  | witness
  | stream
  deriving DecidableEq, Repr

/-- One direction of a ring: whether it is the first one of all, and its words. -/
structure Direction where
  first : Bool
  address : ℕ
  size : ℕ
  rd : ℕ
  wr : ℕ

def Ring.directions (index : Fin 3) (ring : Ring) : List Direction :=
  [⟨decide (index = 0), ring.txAddress, ring.txSize, ring.txRead, ring.txWrite⟩,
    ⟨false, ring.rxAddress, ring.rxSize, ring.rxRead, ring.rxWrite⟩]

def Direction.countersValid (mode : CounterMode) (direction : Direction) : Bool :=
  match mode with
  | .stream => decide (Word.sub 32 direction.wr direction.rd ≤ direction.size)
  | .witness =>
    if direction.first then direction.wr == 0 && direction.rd == u32Max
    else direction.rd == 0 && direction.wr == 0

/-- The loops of `sbuf_layout_valid`: the address after the last buffer. -/
def layoutLoop (mode : CounterMode) : List Direction → ℕ → Option ℕ
  | [], nextBuffer => some nextBuffer
  | direction :: rest, nextBuffer =>
    if direction.address % 4 ≠ 0 ∨ direction.address ≠ nextBuffer ∨ direction.size ≠ ringBytes ∨
        sipcPhys + sipcBytes - direction.size < direction.address ∨
        direction.countersValid mode = false then none
    else layoutLoop mode rest (direction.address + direction.size)

def layoutValid (snapshot : Snapshot) (mode : CounterMode) : Bool :=
  snapshot.ringCount == ringCount &&
    layoutLoop mode ((List.finRange 3).flatMap fun index =>
      (snapshot.rings index).directions index) (sipcPhys + sbufData) == some (sipcPhys + sbufEnd)

/-- Neither direction of a ring holds bytes. -/
def ringEmpty (ring : Ring) : Bool :=
  ring.txWrite == ring.txRead && ring.rxWrite == ring.rxRead

namespace State

variable (s : State)

def readSnapshot (snapshot : Snapshot) (mode : CounterMode) : Bool :=
  snapshot.allocator == s.allocatorBefore && layoutValid snapshot mode

/-! ### Polling -/

/-- The part of `sbuf_poll_notifications` before its `mailbox_trigger`. -/
def pollNotifications : State :=
  if s.stream.notify.triggered && !s.stream.notify.delivered then s.give .inProgress
  else
    let stream := s.stream
    let stream :=
      if (stream.notify.low == 0 || stream.notify.delivered) && stream.pending != 0 then
        let event := ffs stream.pending
        { stream with
          activeEvent := event
          pending := stream.pending &&& ~~~(BitVec.twoPow 32 event)
          notify := ⟨(eventMessage event).1, (eventMessage event).2, false, false⟩ }
      else stream
    if stream.notify.low != 0 && !stream.notify.triggered then
      { s with stream := stream, due := some .notify, ret := .inProgress }
    else { s with stream := stream, ret := .ok }

/-- `ums9117_cm4_mailbox_poll` after it consumed the queue. -/
def pollLive (snapshot : Snapshot) : State :=
  if s.error.isSome then s.give .failed
  else if s.done.delivered then
    if s.stream.enabled then s.pollNotifications else s.give .ok
  else if s.peerOpen && !s.opening.triggered then
    { s with due := some .opening, ret := .inProgress }
  else if !s.opening.delivered || !s.peerCmd then s.give .inProgress
  else if s.done.triggered then s.give .inProgress
  else if s.predoneValid || s.readSnapshot snapshot .witness then
    { s with predoneValid := true, due := some .done, ret := .inProgress }
  else s.fail .sbufLayoutChanged

/-- `ums9117_cm4_mailbox_poll` up to its `mailbox_trigger`. -/
def poll (snapshot : Snapshot) : State :=
  if s.error.isSome then s.give .failed
  else if s.prepared = false then s.give .invalid
  else if s.suspended then s.give .hostDown
  else if s.stopped then s.give (if s.done.delivered then .ok else .inProgress)
  else s.consumeQueue.pollLive snapshot

/-! ### The stream -/

def h4Begin (snapshot : Snapshot) : State :=
  if s.error.isSome then s.give .failed
  else if s.prepared = false ∨ s.stopped = true then s.give .invalid
  else if s.stream.enabled then s.give .ok
  else if s.done.delivered = false then s.give .inProgress
  else if s.readSnapshot snapshot .stream = false then s.fail .sbufStreamChanged
  else
    let ring := snapshot.rings 0
    if ring.txWrite ≠ 0 ∨ (ring.txRead ≠ 0 ∧ ring.txRead ≠ u32Max) then s.fail .sbufAttachCounter
    else if ring.txRead = u32Max then s.give .inProgress
    else { s with stream := { s.stream with enabled := true }, ret := .ok }

def h4Continue : State :=
  if s.error.isSome then s.give .failed
  else if s.continuous then s.give .already
  else if s.prepared = false ∨ s.stopped = true ∨ s.done.delivered = false ∨
      s.stream.enabled = false then s.give .invalid
  else
    let s := s.consumeQueue
    if s.error.isSome then s.give .failed else { s with continuous := true, ret := .ok }

/-- `sbuf_queue_event`; `event` is 0 for DATA and 1 for SPACE. -/
def queueEvent (index : Fin 3) (event : ℕ) : State :=
  { s with stream := { s.stream with
      pending := s.stream.pending ||| BitVec.twoPow 32 (2 * index + event) } }

/-- The refusals of `sbuf_stream_ready` before it consumes the queue. -/
def streamRefusal : Option Ret :=
  if s.error.isSome then some .failed
  else if s.stream.enabled = false ∨ s.stopped = true then some .shutdown
  else if s.suspended then some .hostDown
  else none

/-- A call that moved no bytes. -/
def moved (count : ℕ) (ret : Ret) : State := { s with transferred := count, ret := ret }

/-- `sbuf_write` of `bytes` bytes; `rd` is what it samples after publishing. -/
def write (index : Fin 3) (bytes : ℕ) (wholeCommand : Bool) (snapshot : Snapshot) (rd : ℕ) :
    State :=
  if wholeCommand ∧ ringBytes < bytes then s.moved 0 .messageSize
  else
    match s.streamRefusal with
    | some ret => s.moved 0 ret
    | none =>
      let s := s.consumeQueue
      if s.error.isSome then s.moved 0 .failed
      else if bytes = 0 then s.moved 0 .ok
      else if s.readSnapshot snapshot .stream = false then
        (s.moved 0 .failed).fail .sbufStreamChanged
      else
        let wr := (snapshot.rings index).txWrite
        let occupied := Word.sub 32 wr (snapshot.rings index).txRead
        if wholeCommand ∧ occupied ≠ 0 then s.moved 0 .again
        else
          let count := min bytes (ringBytes - occupied)
          if count = 0 then s.moved 0 .ok
          else if ringBytes < Word.sub 32 (Word.add 32 wr count) rd then
            (s.moved count .failed).fail .sbufStreamChanged
          else if rd = wr then (s.moved count .ok).queueEvent index 0
          else s.moved count .ok

/-- `sbuf_read` of up to `capacity` bytes; `wr` is what it samples after
releasing the space. -/
def read (index : Fin 3) (capacity : ℕ) (snapshot : Snapshot) (wr : ℕ) : State :=
  match s.streamRefusal with
  | some ret => s.moved 0 ret
  | none =>
    let s := s.consumeQueue
    if s.error.isSome then s.moved 0 .failed
    else if capacity = 0 then s.moved 0 .ok
    else if s.readSnapshot snapshot .stream = false then
      (s.moved 0 .failed).fail .sbufStreamChanged
    else
      let rd := (snapshot.rings index).rxRead
      let occupied := Word.sub 32 (snapshot.rings index).rxWrite rd
      let count := min capacity occupied
      if count = 0 then s.moved 0 .ok
      else if ringBytes < Word.sub 32 (Word.sub 32 wr rd) count then
        (s.moved count .failed).fail .sbufStreamChanged
      else if Word.sub 32 wr rd = ringBytes then (s.moved count .ok).queueEvent index 1
      else s.moved count .ok

/-! ### Suspend, resume and stop -/

/-- `ums9117_cm4_mailbox_suspend`; it reads the rings twice. -/
def suspend (snapshot again : Snapshot) : State :=
  if s.error.isSome then s.give .failed
  else if s.suspended then s.give .ok
  else if s.continuous = false ∨ s.stopped = true then s.give .shutdown
  else if s.readSnapshot snapshot .stream = false then s.fail .sbufStreamChanged
  else if ringEmpty (snapshot.rings 0) = false ∨ s.consumed ≠ s.queue.length ∨
      s.stream.pending ≠ 0 ∨ (s.opening.triggered = true ∧ s.opening.delivered = false) ∨
      (s.done.triggered = true ∧ s.done.delivered = false) ∨
      (s.stream.notify.low ≠ 0 ∧ s.stream.notify.delivered = false) then s.give .busy
  else if s.readSnapshot again .stream = false then s.fail .sbufStreamChanged
  else if ringEmpty (again.rings 1) = false then s.give .busy
  else { s with suspended := true, ret := .ok }

def resume (snapshot : Snapshot) : State :=
  if s.error.isSome then s.give .failed
  else if s.suspended = false then s.give .ok
  else if s.stopped then s.give .shutdown
  else if s.readSnapshot snapshot .stream = false then s.fail .sbufStreamChanged
  else { s with suspended := false, ret := .ok }

/-- `ums9117_cm4_mailbox_stop`; `flushFailed` is what `mbox_flush` answers. -/
def stop (flushFailed : Bool) : State :=
  if s.stopped then s.give (if s.stopError then .failed else .ok)
  else
    let s := if s.prepared then s.consumeQueue else s
    let pending := (s.opening.triggered && !s.opening.delivered) ||
      (s.done.triggered && !s.done.delivered) ||
      (s.stream.notify.triggered && !s.stream.notify.delivered)
    let stopError := pending && flushFailed
    { s with
      stopped := true
      stopError := stopError
      ret := if stopError then .failed else .ok }

end State

/-! ### The machine -/

inductive Op
  | receive (low high : ℕ)
  | transmitted (slot : Option Slot) (failed : Bool)
  | poll (snapshot : Snapshot)
  | trigger (accepted : Bool)
  | h4Begin (snapshot : Snapshot)
  | h4Continue
  | write (index : Fin 3) (bytes : ℕ) (wholeCommand : Bool) (snapshot : Snapshot) (rd : ℕ)
  | read (index : Fin 3) (capacity : ℕ) (snapshot : Snapshot) (wr : ℕ)
  | suspend (snapshot again : Snapshot)
  | resume (snapshot : Snapshot)
  | stop (flushFailed : Bool)

/-- One step.  There is one polling loop, so a poll ends before the next one
begins; everything else may come between its two halves. -/
def step (s : State) : Op → Option State
  | .receive low high => some (s.receive low high)
  | .transmitted slot failed => some (s.transmitted slot failed)
  | .poll snapshot => if s.due = none then some (s.poll snapshot) else none
  | .trigger accepted => s.due.map fun slot => ({ s with due := none } : State).trigger slot accepted
  | .h4Begin snapshot => some (s.h4Begin snapshot)
  | .h4Continue => some s.h4Continue
  | .write index bytes wholeCommand snapshot rd =>
    some (s.write index bytes wholeCommand snapshot rd)
  | .read index capacity snapshot wr => some (s.read index capacity snapshot wr)
  | .suspend snapshot again => some (s.suspend snapshot again)
  | .resume snapshot => some (s.resume snapshot)
  | .stop flushFailed => some (s.stop flushFailed)

/-- The driver from a prepared start on. -/
def machine : Machine State Op where
  start s := ∃ allocator, s = start allocator
  step s op s' := step s op = some s'

end Mailbox
