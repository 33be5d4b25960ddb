/-
The Bluetooth HCI transport (`cm4-hci.c`).

Frames of the HCI core wait in a queue until the worker loads one into the
transmit buffer and writes it to the ring, in as many pieces as the ring takes.
Received bytes go through `h4_recv_buf`, which hands complete frames to
`receive_frame` and keeps an incomplete one.

`io_lock` serialises everything but `runtime_send`, so a call that holds it is
split into steps where a frame may be sent meanwhile (`Holder`): the worker
before each of its calls, and a suspend while the mailbox goes to sleep.  The
worker may start whenever the lock is free.  What the mailbox, `h4_recv_buf`
and the HCI core answer comes with the operation; `h4_recv_buf` is a parameter
(`Recv`).  FM shares the worker and is left out but for its answers.

Beside the driver's record the state keeps what went in and out (`History`):
the frames accepted and purged, the bytes of each transport run, and for each
received byte when it was read.
-/
import Mathlib.Algebra.GroupWithZero.Nat
import Fplinux.Lib.Run

namespace Hci

/-! Values of `errno`. -/

def eBusy : ℤ := 16
def eProto : ℤ := 71
def eIlSeq : ℤ := 84
def eMsgSize : ℤ := 90
def eShutdown : ℤ := 108
def eHostDown : ℤ := 112
def eInProgress : ℤ := 115
def eRemoteIo : ℤ := 121

/-! ### Frames -/

def commandPkt : UInt8 := 1
def aclDataPkt : UInt8 := 2
def scoDataPkt : UInt8 := 3
def eventPkt : UInt8 := 4

/-- A frame of the HCI core (`struct sk_buff`).  The number tells buffers with
the same bytes apart: how many frames were accepted before. -/
structure Skb where
  number : ℕ
  type : UInt8
  data : List UInt8
  deriving DecidableEq, Repr

/-- `ALIGN(n, 8)`. -/
def align8 (n : ℕ) : ℕ := (n + 7) / 8 * 8

/-- The bytes of a frame in `tx_data`: its type, its data, zeros up to eight bytes. -/
def txBytes (skb : Skb) : List UInt8 :=
  skb.type :: skb.data ++
    List.replicate (align8 (skb.data.length + 1) - (skb.data.length + 1)) 0

/-- The checks of `validate_tx_frame` for one type. -/
def checkFrame (headerSize limit : ℕ) (payload length : ℕ) : ℤ :=
  if length < headerSize ∨ limit < length then -eMsgSize
  else if length = headerSize + payload then 0 else -eProto

def validateTxFrame (type : UInt8) (header : List UInt8) (length : ℕ) : ℤ :=
  let low := (header.getD 2 0).toNat
  if type = commandPkt then checkFrame 3 (3 + 255) low length
  else if type = aclDataPkt then
    checkFrame 4 1028 (low ||| (header.getD 3 0).toNat <<< 8) length
  else if type = scoDataPkt then checkFrame 3 255 low length
  else -eIlSeq

/-- The opcodes that `creates_connection` knows. -/
def connectionOpcodes : List ℕ :=
  [0x0405, 0x0407, 0x0409, 0x0428, 0x0429, 0x043d, 0x200d, 0x2043, 0x2044, 0x2064, 0x2066, 0x2068,
    0x206b]

def createsConnection (header : List UInt8) : Bool :=
  ((header.getD 0 0).toNat ||| (header.getD 1 0).toNat <<< 8) ∈ connectionOpcodes

/-! ### The record -/

/-- `runtime`.  `txData` is the first `tx_length` bytes of `tx_data`, and `rxSkb`
the bytes of the incomplete frame, none when the pointer is null. -/
structure Runtime where
  txQueue : List Skb := []
  txSkb : Option Skb := none
  txData : List UInt8 := []
  txSent : ℕ := 0
  rxSkb : List UInt8 := []
  error : ℤ := 0
  running : Bool := false
  opened : Bool := false
  rxDiscard : Bool := false
  suspending : Bool := false
  transportSuspended : Bool := false
  coreSuspended : Bool := false
  pmActivity : Bool := false
  checkingPmCommands : Bool := false
  pmCommandError : ℤ := 0
  deriving DecidableEq, Repr

def releaseTx (r : Runtime) : Runtime := { r with txSkb := none, txData := [], txSent := 0 }

def purgeQueuedTx (r : Runtime) : Runtime := { r with txQueue := [] }

def failTransport (r : Runtime) (error : ℤ) : Runtime :=
  { releaseTx (purgeQueuedTx { r with error := error, running := false }) with rxSkb := [] }

/-! ### Receiving -/

/-- What `h4_recv_buf` makes of an incomplete frame and new bytes: the frames it
completes, in order, and the incomplete one that it keeps, or its error. -/
abbrev Recv := List UInt8 → List UInt8 → List (List UInt8) × Except ℤ (List UInt8)

/-- `observe_pm_reply`, for a frame with its type before its data. -/
def observePmReply (r : Runtime) (frame : List UInt8) : Runtime :=
  let data := frame.tail
  if r.checkingPmCommands = false ∨ frame.headD 0 ≠ eventPkt then r
  else if (data.headD 0 = 0x0e ∧ 6 ≤ data.length ∧ data.getD 5 0 ≠ 0) ∨
      (data.headD 0 = 0x0f ∧ 6 ≤ data.length ∧ data.getD 2 0 ≠ 0) then
    { r with pmCommandError := -eRemoteIo }
  else r

/-- `receive_frame`, and whether the HCI core gets the frame. -/
def receiveFrame (r : Runtime) (frame : List UInt8) : Bool × Runtime :=
  let r := observePmReply r frame
  (!r.rxDiscard, { r with rxDiscard := !r.opened })

/-- The calls of `receive_frame` for the frames of a chunk. -/
def receiveFrames (r : Runtime) : List (List UInt8) → List (List UInt8 × Bool) × Runtime
  | [] => ([], r)
  | frame :: frames =>
    let first := receiveFrame r frame
    let rest := receiveFrames first.2 frames
    ((frame, first.1) :: rest.1, rest.2)

/-- What `receive_bytes` returns, the frames it completed with whether the HCI
core got them, and the record. -/
structure Reception where
  ret : ℤ
  frames : List (List UInt8 × Bool)
  runtime : Runtime

def receiveBytes (recv : Recv) (r : Runtime) (input : List UInt8) : Reception :=
  let r := if r.rxSkb = [] then { r with rxDiscard := !r.opened } else r
  let split := recv r.rxSkb input
  let received := receiveFrames r split.1
  match split.2 with
  | .ok rest => ⟨0, received.1, { received.2 with rxSkb := rest }⟩
  | .error ret => ⟨ret, received.1, { received.2 with rxSkb := [] }⟩

/-! ### Sending -/

/-- `transmit_frame` up to the write: loads the next frame when there is none.
`copied` is what `skb_copy_bits` returns. -/
def loadTx (r : Runtime) (copied : ℤ) : ℤ × Runtime :=
  match r.txSkb, r.txQueue with
  | some _, _ => (0, r)
  | none, [] => (0, r)
  | none, skb :: queue =>
    if copied ≠ 0 then (copied, { r with txQueue := queue, txSkb := some skb })
    else (0, { r with txQueue := queue, txSkb := some skb, txData := txBytes skb })

/-- `transmit_frame` from the write on: the ring took `written` bytes and the
call returned `ret`. -/
def finishTx (r : Runtime) (ret : ℤ) (written : ℕ) : ℤ × Runtime :=
  let r := { r with txSent := r.txSent + written }
  if ret ≠ 0 ∨ r.txSent ≠ r.txData.length then (ret, r) else (0, releaseTx r)

def runtimeSend (r : Runtime) (skb : Skb) : ℤ × Runtime :=
  let header := skb.data.take 4
  let ret := validateTxFrame skb.type header skb.data.length
  if ret ≠ 0 then (ret, r)
  else if r.error ≠ 0 then (r.error, r)
  else if r.running = false ∨ r.opened = false then (-eShutdown, r)
  else if r.transportSuspended then (-eHostDown, r)
  else if r.suspending ∧ (skb.type ≠ commandPkt ∨ createsConnection header) then
    (-eBusy, { r with pmActivity := true })
  else (0, { r with txQueue := r.txQueue ++ [skb] })

/-! ### The device and the transport -/

/-- `runtime_open`, once the controller is held. -/
def runtimeOpen (r : Runtime) : ℤ × Runtime :=
  if r.error ≠ 0 then (r.error, r)
  else if r.running = false then (-eShutdown, r)
  else if r.suspending then (-eBusy, r)
  else (0, { r with opened := true })

/-- The frames that have written no byte, in the order of the queue. -/
def waiting (r : Runtime) : List Skb :=
  (if r.txSent = 0 then r.txSkb.toList else []) ++ r.txQueue

def flushTx (r : Runtime) (close : Bool) : Runtime :=
  let r := if close then { r with opened := false, rxDiscard := true } else r
  let r := purgeQueuedTx r
  if r.txSkb.isSome ∧ r.txSent = 0 then releaseTx r else r

/-- Whether frames or bytes wait in the driver. -/
def pending (r : Runtime) : Bool := r.txSkb.isSome ∨ r.rxSkb ≠ [] ∨ r.txQueue ≠ []

/-- `ums9117_hci_suspend_prepare` up to `hci_suspend_dev`; `busy` says whether
the HCI core or FM is. -/
def suspendPrepare (r : Runtime) (busy : Bool) : ℤ × Runtime :=
  if r.error ≠ 0 then (r.error, r)
  else if r.suspending ∨ busy ∨ pending r then (-eBusy, r)
  else
    (0, { r with suspending := true, pmActivity := false, pmCommandError := 0,
                 checkingPmCommands := true })

/-- `ums9117_hci_suspend_prepare` after `hci_suspend_dev` returned `ret`. -/
def suspendPrepared (r : Runtime) (ret : ℤ) : ℤ × Runtime :=
  let r := { r with coreSuspended := true, checkingPmCommands := false }
  if ret ≠ 0 then (ret, r)
  else if r.error ≠ 0 then (r.error, r)
  else if r.pmCommandError ≠ 0 then (r.pmCommandError, r)
  else (if r.pmActivity then -eBusy else 0, r)

/-- A turn of `ums9117_hci_suspend` up to `ums9117_cm4_mailbox_suspend`. -/
def suspend (r : Runtime) (busy : Bool) : ℤ × Runtime :=
  if r.error ≠ 0 then (r.error, r)
  else if r.suspending = false then (-eShutdown, r)
  else if r.running = false then (0, r)
  else if r.pmActivity ∨ busy ∨ pending r then (-eBusy, r)
  else (0, { r with transportSuspended := true })

/-- `ums9117_hci_resume`, where `ums9117_cm4_mailbox_resume` returns `ret`. -/
def resume (r : Runtime) (ret : ℤ) : ℤ × Runtime :=
  if r.transportSuspended = false then (0, r)
  else if ret ≠ 0 then (ret, failTransport r ret)
  else (0, { r with transportSuspended := false })

/-- `ums9117_hci_post_suspend` before `hci_resume_dev`. -/
def resumeCore (r : Runtime) : Runtime :=
  if r.coreSuspended then { r with pmCommandError := 0, checkingPmCommands := true } else r

/-- `ums9117_hci_post_suspend` from there on. -/
def postSuspend (r : Runtime) (ret : ℤ) : ℤ × Runtime :=
  let r := { r with checkingPmCommands := false, coreSuspended := false, suspending := false,
                    pmActivity := false }
  if ret ≠ 0 then (ret, r)
  else (if r.error ≠ 0 then r.error else r.pmCommandError, r)

def transportStart (recv : Recv) (r : Runtime) (rxPrefix : List UInt8) : Reception :=
  if r.running ∨ r.suspending then ⟨-eBusy, [], r⟩
  else
    let reception := receiveBytes recv { r with rxDiscard := true } rxPrefix
    if reception.ret ≠ 0 then
      { reception with runtime := { reception.runtime with rxSkb := [] } }
    else
      { reception with
        runtime := { reception.runtime with error := 0, running := true,
                                            transportSuspended := false } }

/-- `ums9117_hci_transport_stop` up to `cancel_delayed_work_sync`. -/
def transportStop (r : Runtime) : Runtime :=
  purgeQueuedTx { r with running := false, transportSuspended := false }

/-- `ums9117_hci_transport_stop` from there on. -/
def transportStopped (r : Runtime) : Runtime :=
  { releaseTx r with rxSkb := [], rxDiscard := true }

/-! ### Any order of calls -/

/-- Who holds `io_lock` between two steps: the worker before it reads, before it
writes (`received` bytes read in this round), before FM is served or before
it fails the transport, or a suspend that waits for the mailbox. -/
inductive Holder
  | free
  | read (round : ℕ)
  | write (round received : ℕ)
  | service
  | fault (error : ℤ)
  | suspend
  deriving DecidableEq, Repr

/-- The bytes of a transport run, and the frames it wrote bytes of. -/
structure Ring where
  frames : List Skb := []
  bytes : List UInt8 := []
  deriving DecidableEq, Repr

/-- A frame that the HCI core got, its bytes with the times they were read, and
the time it got them. -/
structure Delivery where
  frame : List UInt8
  read : List (UInt8 × ℕ)
  time : ℕ
  deriving DecidableEq, Repr

/-- What went in and out.  Time counts the steps; `opens` has whether the device
was open after each.  `rxRead` is the incomplete frame with the times its
bytes were read, and `idleSince` when the transport last stopped running. -/
structure History where
  accepted : List Skb := []
  purged : List Skb := []
  past : List Ring := []
  ring : Ring := {}
  opens : List Bool := []
  rxRead : List (UInt8 × ℕ) := []
  delivered : List Delivery := []
  idleSince : ℕ := 0
  deriving DecidableEq, Repr

namespace History

def now (h : History) : ℕ := h.opens.length

/-- All transport runs, in order. -/
def runs (h : History) : List Ring := h.past ++ [h.ring]

end History

/-- The driver, the owner of `io_lock` and the stops that wait for the worker. -/
structure State where
  runtime : Runtime := {}
  holder : Holder := .free
  stopping : ℕ := 0
  history : History := {}
  deriving DecidableEq, Repr

/-- What can happen.  The bytes of `rxPrefix` come with the times the caller
read them. -/
inductive Op
  | runtimeSend (skb : Skb)
  | work
  | read (poll ret : ℤ) (input : List UInt8)
  | write (copied ret : ℤ) (written : ℕ)
  | service (fm poll : ℤ)
  | fault
  | runtimeOpen
  | runtimeClose
  | runtimeFlush
  | suspendPrepare (busy : Bool)
  | suspendPrepared (ret : ℤ)
  | suspend (busy : Bool)
  | mailboxSuspend (ret : ℤ)
  | resume (ret : ℤ)
  | resumeCore
  | postSuspend (ret : ℤ)
  | transportStart (rxPrefix : List (UInt8 × ℕ))
  | transportStop
  | transportStopped
  deriving DecidableEq, Repr

/-- A poll that fails: any other answer lets the worker go on. -/
def pollFails (ret : ℤ) : Bool := ret ≠ 0 ∧ ret ≠ -eInProgress

/-- The deliveries of frames completed at a time, from the bytes they are made of. -/
def deliveries (time : ℕ) : List (List UInt8 × Bool) → List (UInt8 × ℕ) → List Delivery
  | [], _ => []
  | (frame, passed) :: frames, read =>
    let rest := deliveries time frames (read.drop frame.length)
    if passed then ⟨frame, read.take frame.length, time⟩ :: rest else rest

/-- What a reception of bytes leaves of the history. -/
def History.receive (h : History) (reception : Reception) (read : List (UInt8 × ℕ)) : History :=
  let all := h.rxRead ++ read
  { h with
    delivered := h.delivered ++ deliveries h.now reception.frames all
    rxRead := if reception.runtime.rxSkb = [] then []
      else all.drop (reception.frames.map (·.1.length)).sum }

/-- What a write of `written` bytes of the loaded frame leaves of the history. -/
def History.write (h : History) (r : Runtime) (written : ℕ) : History :=
  { h with
    ring := {
      frames := if written = 0 ∨ r.txSent ≠ 0 then h.ring.frames
        else h.ring.frames ++ r.txSkb.toList
      bytes := h.ring.bytes ++ (r.txData.drop r.txSent).take written } }

/-- The worker reads (`ums9117_cm4_mailbox_h4_read`). -/
def workerRead (recv : Recv) (s : State) (round : ℕ) (poll ret : ℤ) (input : List UInt8) :
    State :=
  if pollFails poll then { s with holder := .fault poll }
  else if ret ≠ 0 then { s with holder := .fault ret }
  else
    let reception := receiveBytes recv s.runtime input
    { s with
      runtime := reception.runtime
      holder := if reception.ret ≠ 0 then .fault reception.ret else .write round input.length
      history := s.history.receive reception (input.map (·, s.history.now)) }

/-- The worker writes (`ums9117_cm4_mailbox_h4_write`). -/
def workerWrite (s : State) (round received : ℕ) (copied ret : ℤ) (written : ℕ) : State :=
  let loaded := loadTx s.runtime copied
  if loaded.1 ≠ 0 then { s with runtime := loaded.2, holder := .fault loaded.1 }
  else if loaded.2.txSkb = none then
    { s with
      runtime := loaded.2
      holder := if received = 0 ∨ 8 ≤ round + 1 then .service else .read (round + 1) }
  else
    let finished := finishTx loaded.2 ret written
    { s with
      runtime := finished.2
      holder := if finished.1 ≠ 0 then .fault finished.1
        else if (received = 0 ∧ written = 0) ∨ 8 ≤ round + 1 then .service
        else .read (round + 1)
      history := s.history.write loaded.2 written }

/-- A call that needs `io_lock`. -/
def locked (s : State) (next : State) : Option State :=
  if s.holder = .free then some next else none

/-- What an operation does.  The mailbox reads at most 256 bytes and writes at
most what it is given, and the callers start the transport with no stop on its
way and with bytes read since the last. -/
def act (recv : Recv) (s : State) : Op → Option State
  | .runtimeSend skb =>
    if skb.number = s.history.accepted.length then
      let sent := runtimeSend s.runtime skb
      some { s with
        runtime := sent.2
        history := { s.history with
          accepted := if sent.1 = 0 then s.history.accepted ++ [skb] else s.history.accepted } }
    else none
  | .work =>
    locked s { s with
      holder := if s.runtime.running = false ∨ s.runtime.error ≠ 0 ∨ s.runtime.transportSuspended
        then .free else .read 0 }
  | .read poll ret input =>
    match s.holder with
    | .read round =>
      if input.length ≤ 256 then some (workerRead recv s round poll ret input) else none
    | _ => none
  | .write copied ret written =>
    match s.holder with
    | .write round received =>
      let loaded := (loadTx s.runtime copied).2
      if written ≤ loaded.txData.length - loaded.txSent then
        some (workerWrite s round received copied ret written)
      else none
    | _ => none
  | .service fm poll =>
    match s.holder with
    | .service =>
      some { s with
        holder := if fm ≠ 0 then .fault fm else if pollFails poll then .fault poll else .free }
    | _ => none
  | .fault =>
    match s.holder with
    | .fault error =>
      some { s with
        runtime := failTransport s.runtime error
        holder := .free
        history := { s.history with rxRead := [] } }
    | _ => none
  | .runtimeOpen => locked s { s with runtime := (runtimeOpen s.runtime).2 }
  | .runtimeClose =>
    locked s { s with
      runtime := flushTx s.runtime true
      history := { s.history with purged := s.history.purged ++ waiting s.runtime } }
  | .runtimeFlush =>
    locked s { s with
      runtime := flushTx s.runtime false
      history := { s.history with purged := s.history.purged ++ waiting s.runtime } }
  | .suspendPrepare busy => locked s { s with runtime := (suspendPrepare s.runtime busy).2 }
  | .suspendPrepared ret => locked s { s with runtime := (suspendPrepared s.runtime ret).2 }
  | .suspend busy =>
    let admitted := suspend s.runtime busy
    locked s { s with
      runtime := admitted.2
      holder := if admitted.1 = 0 ∧ admitted.2.running then .suspend else .free }
  | .mailboxSuspend ret =>
    match s.holder with
    | .suspend =>
      some { s with
        runtime := if ret ≠ 0 then { s.runtime with transportSuspended := false } else s.runtime
        holder := .free }
    | _ => none
  | .resume ret =>
    let resumed := resume s.runtime ret
    locked s { s with
      runtime := resumed.2
      history := { s.history with rxRead := if resumed.1 = 0 then s.history.rxRead else [] } }
  | .resumeCore => locked s { s with runtime := resumeCore s.runtime }
  | .postSuspend ret => locked s { s with runtime := (postSuspend s.runtime ret).2 }
  | .transportStart rxPrefix =>
    let started := transportStart recv s.runtime (rxPrefix.map (·.1))
    if s.stopping = 0 ∧ ∀ read ∈ rxPrefix,
        s.history.idleSince ≤ read.2 ∧ read.2 ≤ s.history.now then
      locked s { s with
        runtime := started.runtime
        history :=
          if s.runtime.running ∨ s.runtime.suspending then s.history
          else
            let received := s.history.receive started rxPrefix
            if started.ret ≠ 0 then received
            else { received with past := s.history.runs, ring := {} } }
    else none
  | .transportStop =>
    locked s { s with runtime := transportStop s.runtime, stopping := s.stopping + 1 }
  | .transportStopped =>
    if s.stopping = 0 then none
    else
      locked s { s with
        runtime := transportStopped s.runtime
        stopping := s.stopping - 1
        history := { s.history with rxRead := [] } }

/-- The clock of the history after a step. -/
def tick (s s' : State) : State :=
  { s' with
    history := { s'.history with
      opens := s'.history.opens ++ [s'.runtime.opened]
      idleSince := if s.runtime.running ∧ s'.runtime.running = false then s.history.now
        else s'.history.idleSince } }

/-- One step. -/
def step (recv : Recv) (s : State) (op : Op) : Option State := (act recv s op).map (tick s)

/-- The transport under any order of calls, from the registered device on. -/
def machine (recv : Recv) : Machine State Op where
  start s := s = {}
  step s op s' := step recv s op = some s'

end Hci
