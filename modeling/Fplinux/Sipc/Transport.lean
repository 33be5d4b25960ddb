/-
The shared-buffer transport of the Qin 1s+ and the stream that it lends to
Bluetooth (`qin1splus-sipc.c`, `qin1splus-sipc-layout.c`).

The driver works under `lock`; the mailbox's interrupts and the timer take
`irq_lock` only and come in between.  `Phase` is where the owner of `lock`
is, and `step` makes one stretch of it, up to the next place where an
interrupt may change what it reads: the choice of a slot, the end of
`mbox_send_message`, the check of a transfer and its copy.  The interrupts are
steps of their own, at any time.

The mailbox is not part of the source: it may read a slot (`held`) from the
call of `mbox_send_message` on until the call fails, the completion of the
message or `mbox_free_channel`.  The other side may write to the rings at any
time (`peer`).  Time is the choice of the steps `timeout`; waits and
wake-ups, statistics, payloads, and the rings of the other channels are left
out.  The queue of received messages is a list: its counters wrap at a
multiple of its size.
-/
import Fplinux.Lib.Run
import Fplinux.Lib.Word

namespace Sipc

def receiveCount : ℕ := 64
def transmitCount : ℕ := 20
def ownerCount : ℕ := 7

def eBusy : ℤ := 16
def eInval : ℤ := 22
def eAgain : ℤ := 11
def ePipe : ℤ := 32
def eProto : ℤ := 71
def eOpNotSupp : ℤ := 95
def eNoBufs : ℤ := 105
def eShutdown : ℤ := 108
def eTimedOut : ℤ := 110
def eStale : ℤ := 116
def eCanceled : ℤ := 125

/-! ### Messages -/

/-- `struct qin_smsg`. -/
structure Message where
  word0 : ℕ := 0
  word1 : ℕ := 0
  deriving DecidableEq, Repr

namespace Message

def channel (m : Message) : ℕ := m.word0 % 2 ^ 8
def type (m : Message) : ℕ := m.word0 / 2 ^ 8 % 2 ^ 8
def flag (m : Message) : ℕ := m.word0 / 2 ^ 16 % 2 ^ 16

def typeOpen : ℕ := 1
def typeClose : ℕ := 2
def typeEvent : ℕ := 4
def typeCmd : ℕ := 5
def typeDone : ℕ := 6
def openMagic : ℕ := 0xbeee
def closeMagic : ℕ := 0xeddd
def init : ℕ := 1
def initDone : ℕ := 2

/-- `make_message`. -/
def make (channel type flag value : ℕ) : Message :=
  ⟨channel ||| type <<< 8 ||| flag <<< 16, value⟩

/-- The OPEN that `prepare` and the reply to OPEN send. -/
def opening (channel : ℕ) : Message := make channel typeOpen openMagic 0

end Message

/-! ### The fixed layout -/

/-- `struct qin_sipc_owner`. -/
structure Owner where
  channel : ℕ := 0
  block : Bool := false
  count : ℕ := 0
  txSize : ℕ := 0
  rxCount : ℕ := 0
  rxSize : ℕ := 0
  offset : ℕ := 0
  bytes : ℕ := 0
  deriving DecidableEq, Repr

abbrev OwnerIndex := Fin ownerCount

def smemBytes : ℕ := 0x100000
def cpBase : ℕ := 0x180000

def qinOwners : List Owner := [
  { channel := 5, count := 1, txSize := 0x8000, rxSize := 0x30000 },
  { channel := 11, count := 1, txSize := 0x400, rxSize := 0x400 },
  { channel := 12, count := 1, txSize := 0x400, rxSize := 0x400 },
  { channel := 4, count := 16, txSize := 0x1000, rxSize := 0x1000 },
  { channel := 7, block := true, count := 4, txSize := 2048, rxCount := 16, rxSize := 2048 },
  { channel := 8, block := true, count := 64, txSize := 1664, rxCount := 128, rxSize := 1664 },
  { channel := 9, block := true, count := 64, txSize := 1664 }]

/-- The bytes of an owner: headers of 96 or 32 bytes and descriptors of 8. -/
def ownerBytes (owner : Owner) : ℕ :=
  if owner.block then
    96 + owner.count * owner.txSize + owner.rxCount * owner.rxSize +
      2 * (owner.count + owner.rxCount) * 8
  else
    4 + owner.count * (32 + owner.txSize + owner.rxSize)

/-- The loop of `qin_sipc_layout`. -/
def layoutFrom (cursor : ℕ) : List Owner → Option (List Owner)
  | [] => some []
  | owner :: owners =>
    if ownerBytes owner ≤ smemBytes - cursor then
      (layoutFrom (cursor + (ownerBytes owner + 4095) / 4096 * 4096) owners).map fun rest =>
        { owner with offset := cursor, bytes := ownerBytes owner } :: rest
    else none

def layout : Option (OwnerIndex → Owner) :=
  (layoutFrom 0 qinOwners).map fun owners i => owners.getD i {}

/-! ### The Bluetooth rings -/

/-- The counters of the rings 11 (to the peer) and 10 (from it). -/
structure Rings where
  txRead : ℕ := 0
  txWrite : ℕ := 0
  rxRead : ℕ := 0
  rxWrite : ℕ := 0
  deriving DecidableEq, Repr

def ownerValid (owner : Owner) : Bool :=
  owner.channel = 4 ∧ owner.block = false ∧ owner.count = 16 ∧ owner.txSize = 4096 ∧
    owner.rxSize = 4096 ∧ owner.offset ≤ smemBytes ∧ owner.bytes ≤ smemBytes - owner.offset ∧
    owner.bytes = 4 + 16 * (32 + 8192)

namespace Rings

def idle (r : Rings) (owner : Owner) : ℤ :=
  if ownerValid owner = false then -eInval
  else
    let pendingTx := Word.sub 32 r.txWrite r.txRead
    let pendingRx := Word.sub 32 r.rxWrite r.rxRead
    if 4096 < pendingTx ∨ 4096 < pendingRx then -eProto
    else if pendingTx ≠ 0 ∨ pendingRx ≠ 0 then -eBusy else 0

/-- `qin_sipc_bt_write_ring`: the result, the rings and whether to notify;
`reread` is the peer's counter when it is read again. -/
def write (r : Rings) (owner : Owner) (bytes reread : ℕ) : ℤ × Rings × Bool :=
  if ownerValid owner = false ∨ bytes = 0 ∨ 4096 < bytes then (-eInval, r, false)
  else
    let used := Word.sub 32 r.txWrite r.txRead
    if 4096 < used then (-eProto, r, false)
    else if 4096 - used < bytes then (-eAgain, r, false)
    else
      let written := Word.add 32 r.txWrite bytes
      (bytes, { r with txWrite := written }, Word.sub 32 written reread = bytes)

/-- `qin_sipc_bt_read_ring`. -/
def read (r : Rings) (owner : Owner) (capacity reread : ℕ) : ℤ × Rings × Bool :=
  if ownerValid owner = false ∨ capacity = 0 then (-eInval, r, false)
  else
    let available := Word.sub 32 r.rxWrite r.rxRead
    if 4096 < available then (-eProto, r, false)
    else if available = 0 then (-eAgain, r, false)
    else
      let bytes := min available capacity
      let read := Word.add 32 r.rxRead bytes
      (bytes, { r with rxRead := read }, Word.sub 32 reread read = 4096 - bytes)

end Rings

/-! ### The driver -/

abbrev TxSlot := Fin transmitCount

/-- `struct qin_sipc_tx`. -/
structure Tx where
  message : Message := {}
  pending : Bool := false
  deriving DecidableEq, Repr

/-- `struct qin_sipc_channel`. -/
structure Channel where
  owner : Owner := {}
  openCount : ℕ := 0
  opened : Bool := false
  initQueued : Bool := false
  initializedOnce : Bool := false
  deriving DecidableEq, Repr

/-- What called `send_message`: `prepare` with OPENs still to send, the
dispatch of a message, or a transfer. -/
inductive Caller
  | prepare (rest : List ℕ)
  | dispatch (message : Message)
  | transfer
  deriving DecidableEq, Repr

/-- Where the owner of `lock` is; `free` when nobody owns it. -/
inductive Phase
  | free
  | handling (message : Message)
  | sending (message : Message) (caller : Caller)
  | submitting (slot : TxSlot) (caller : Caller)
  | copying (session : ℕ) (write : Bool) (bytes : ℕ)
  deriving DecidableEq, Repr

/-- `struct qin_sipc`, with the slots that the mailbox may read. -/
structure Driver where
  rx : List Message := []
  tx : TxSlot → Tx := fun _ => {}
  fault : ℤ := 0
  accepting : Bool := false
  channels : OwnerIndex → Channel := fun _ => {}
  mbox : Bool := false
  prepared : Bool := false
  released : Bool := false
  btSession : ℕ := 0
  btError : ℤ := 0
  btClaimed : Bool := false
  btUsed : Bool := false
  rings : Rings := {}
  held : TxSlot → Bool := fun _ => false
  phase : Phase := .free

namespace Driver

variable (s : Driver)

/-- The first fault stays. -/
def setFault (error : ℤ) : Driver :=
  { s with fault := if s.fault = 0 then error else s.fault }

/-- `bt_revoke`: a cancellation gives way to a real error. -/
def revoke (error : ℤ) : Driver :=
  { s with btError := if s.btError = 0 ∨ s.btError = -eCanceled then error else s.btError }

/-! #### Interrupts -/

/-- `receive_message`. -/
def receive (message : Message) : Driver :=
  if s.accepting ∧ s.rx.length < receiveCount then { s with rx := s.rx ++ [message] }
  else if s.accepting then s.setFault (-eNoBufs) else s

/-- `complete_message`. -/
def complete (slot : TxSlot) (status : ℤ) : Driver :=
  let s := { s with
    tx := Function.update s.tx slot { s.tx slot with pending := false }
    held := Function.update s.held slot false }
  if status ≠ 0 then s.setFault status else s

/-- `timeout_work`, when the deadline of a slot passed. -/
def timeout (slot : TxSlot) : Driver :=
  if s.accepting ∧ s.released ∧ s.fault = 0 ∧ (s.tx slot).pending then
    { s with fault := -eTimedOut }
  else s

/-! #### Channels -/

def findChannel (channel : ℕ) : Option OwnerIndex :=
  (List.finRange ownerCount).find? fun i => (s.channels i).owner.channel = channel

/-- Channel 4; it exists since the first `prepare`. -/
def btChannel : Channel := ((s.findChannel 4).map s.channels).getD {}

def setChannel (i : OwnerIndex) (ch : Channel) : Driver :=
  { s with channels := Function.update s.channels i ch }

/-- `qin_sipc_recover_owner`, on the rings of channel 4. -/
def recoverOwner (owner : Owner) : Driver :=
  if owner.channel = 4 then { s with rings := { s.rings with rxRead := s.rings.rxWrite } } else s

/-- `stop_locked`: the mailbox forgets its messages. -/
def stop : Driver :=
  { s with
    accepting := false
    released := false
    mbox := false
    held := fun i => s.held i && !s.mbox
    prepared := false
    phase := .free }.revoke (-eShutdown)

/-- The end of `dispatch_message` in `receive_work`. -/
def dispatched (message : Message) (ret : ℤ) : Driver :=
  if ret ≠ 0 ∧ message.channel = 4 then { s with phase := .free }.revoke ret
  else { s with phase := .free }

/-- `dispatch_message` up to its end or to `send_message`. -/
def dispatch (m : Message) : Driver :=
  match s.findChannel m.channel with
  | none => s.dispatched m (-eOpNotSupp)
  | some i =>
    let ch := s.channels i
    if m.type = Message.typeOpen then
      if m.flag ≠ Message.openMagic then s.dispatched m (-eProto)
      else
        let ch := { ch with openCount := Word.add 32 ch.openCount 1 }
        if 1 < ch.openCount then
          let s := if m.channel = 4 ∧ s.btUsed then s.revoke (-ePipe)
            else if ch.initializedOnce then s.recoverOwner ch.owner else s
          { s.setChannel i { ch with initQueued := false, opened := true } with
            phase := .sending (Message.opening m.channel) (.dispatch m) }
        else
          -- The initial OPEN of this side was already sent.
          (s.setChannel i { ch with opened := true }).dispatched m 0
    else if m.type = Message.typeClose then
      if ch.opened = false ∨ m.flag ≠ Message.closeMagic then s.dispatched m (-eProto)
      else
        let s := if m.channel = 4 ∧ s.btUsed then s.revoke (-ePipe)
          else if ch.owner.block = false then s.recoverOwner ch.owner else s
        { s with
          phase := .sending (.make m.channel Message.typeClose Message.closeMagic 0)
            (.dispatch m) }
    else if m.type = Message.typeCmd then
      if ch.opened = false ∨ m.flag ≠ Message.init ∨ ch.initQueued then s.dispatched m (-eProto)
      else
        { s with
          phase := .sending (.make m.channel Message.typeDone Message.initDone
            (cpBase + ch.owner.offset)) (.dispatch m) }
    else if m.type = Message.typeEvent then
      if ch.initQueued = false ∨ (m.flag ≠ 1 ∧ m.flag ≠ 2) ∨
          (ch.owner.block = false ∧ ch.owner.count ≤ m.word1) then s.dispatched m (-eProto)
      else s.dispatched m 0
    else s.dispatched m (-eOpNotSupp)

/-- What `dispatch_message` does after `send_message`. -/
def replied (m : Message) (ret : ℤ) : Driver :=
  match s.findChannel m.channel with
  | none => s.dispatched m ret
  | some i =>
    if ret ≠ 0 then s.dispatched m ret
    else if m.type = Message.typeClose then
      (s.setChannel i { s.channels i with opened := false, initQueued := false }).dispatched m ret
    else if m.type = Message.typeCmd then
      (s.setChannel i { s.channels i with
        initQueued := true, initializedOnce := true }).dispatched m ret
    else s.dispatched m ret

/-- The loop of `prepare`, at its next OPEN. -/
def openNext : List ℕ → Driver
  | [] => { s with phase := .free }
  | channel :: rest => { s with phase := .sending (Message.opening channel) (.prepare rest) }

/-- `send_message` returns to its caller. -/
def sent (ret : ℤ) : Caller → Driver
  | .prepare rest => if ret ≠ 0 then s.stop else s.openNext rest
  | .dispatch m => s.replied m ret
  | .transfer =>
    if ret < 0 ∧ ret ≠ -eAgain then { s with phase := .free }.revoke ret
    else { s with phase := .free }

/-- The first slot that is not pending. -/
def freeTx : Option TxSlot := (List.finRange transmitCount).find? fun i => !(s.tx i).pending

/-- `send_message` up to `mbox_send_message`; without a channel the mailbox
takes nothing. -/
def reserve (message : Message) (caller : Caller) : Driver :=
  if s.fault ≠ 0 then s.sent s.fault caller
  else
    match s.freeTx with
    | none => s.sent (-eNoBufs) caller
    | some slot =>
      { s with
        tx := Function.update s.tx slot ⟨message, true⟩
        held := Function.update s.held slot s.mbox
        phase := .submitting slot caller }

/-- `send_message` from the result of `mbox_send_message` on. -/
def submitted (slot : TxSlot) (caller : Caller) (ret : ℤ) : Driver :=
  if ret < 0 then
    ({ s with
      tx := Function.update s.tx slot { s.tx slot with pending := false }
      held := Function.update s.held slot false }.setFault ret).sent ret caller
  else s.sent 0 caller

/-! #### The power owner -/

/-- `qin1splus_sipc_prepare` up to its first OPEN; `request` is the result of
`mbox_request_channel`. -/
def prepare (request : ℤ) : Driver :=
  if s.prepared then s
  else
    match layout with
    | none => s
    | some owners =>
      let s := { s with
        btSession := Word.add 32 s.btSession 1
        btClaimed := false
        btUsed := false
        btError := 0
        channels := fun i => { owner := owners i }
        rings := {}
        tx := fun _ => {}
        rx := []
        fault := 0
        accepting := true }
      if request < 0 then s.stop
      else
        { s with mbox := true, prepared := true }.openNext
          ((List.finRange ownerCount).map fun i => (owners i).channel)

/-- `qin1splus_sipc_released`. -/
def release : Driver :=
  if s.prepared = false ∨ s.released then s
  else if s.fault ≠ 0 then s
  else { s with released := true }

/-! #### The Bluetooth stream -/

/-- `bt_state_locked`. -/
def stateError (session : ℕ) : ℤ :=
  if session ≠ s.btSession ∨ s.btClaimed = false then -eShutdown
  else if s.btError ≠ 0 then s.btError
  else if s.fault ≠ 0 then s.fault
  else if s.prepared = false ∨ s.released = false then -eShutdown
  else 0

/-- The result of one turn of `qin1splus_sipc_bt_claim`. -/
def claimError : ℤ :=
  if s.btUsed then -eStale
  else if s.btError ≠ 0 then s.btError
  else if s.fault ≠ 0 then s.fault
  else if s.prepared = false ∨ s.released = false then -eShutdown
  else if s.btChannel.opened ∧ s.btChannel.initQueued then 0
  else -eAgain

/-- One turn of `qin1splus_sipc_bt_claim`. -/
def claim : Driver :=
  if s.claimError = 0 then { s with btClaimed := true, btUsed := true } else s

def cancel (session : ℕ) : Driver :=
  if s.btSession = session ∧ s.btClaimed then s.revoke (-eCanceled) else s

/-- A message that `bt_control_pending` looks for. -/
def isControl (m : Message) : Bool :=
  m.channel = 4 ∧ (m.type ≠ Message.typeEvent ∨ (m.flag ≠ 1 ∧ m.flag ≠ 2) ∨ 16 ≤ m.word1)

def controlPending : Bool := s.rx.any isControl

/-- The result of `qin1splus_sipc_bt_release` for the token in use. -/
def releaseError (clean : Bool) : ℤ :=
  if clean ∧ s.fault = 0 ∧ s.controlPending = false ∧ s.prepared ∧ s.released ∧
      s.btChannel.opened ∧ s.btChannel.initQueued ∧
      (s.btError = 0 ∨ s.btError = -eCanceled) then
    s.rings.idle s.btChannel.owner
  else -eStale

def btRelease (session : ℕ) (clean : Bool) : Driver :=
  if s.btSession ≠ session ∨ s.btClaimed = false then s
  else
    let ret := s.releaseError clean
    { s with
      btClaimed := false
      btSession := Word.add 32 s.btSession 1
      btUsed := if ret = 0 then false else s.btUsed
      btError := if ret = 0 then 0 else ret }

/-- What a transfer that was checked does to the rings. -/
def ringOp (write : Bool) (bytes reread : ℕ) : ℤ × Rings × Bool :=
  if write then s.rings.write s.btChannel.owner bytes reread
  else s.rings.read s.btChannel.owner bytes reread

/-- The rest of one turn of `bt_transfer`. -/
def copy (write : Bool) (bytes reread : ℕ) : Driver :=
  let (ret, rings, notify) := s.ringOp write bytes reread
  let s := { s with rings }
  if 0 < ret ∧ notify then
    { s with
      phase := .sending (.make 4 Message.typeEvent (if write then 1 else 2)
        (if write then 11 else 10)) .transfer }
  else if ret < 0 ∧ ret ≠ -eAgain then { s with phase := .free }.revoke ret
  else { s with phase := .free }

/-! #### Steps -/

/-- The steps: interrupts, the timer and the peer first, then the code under
`lock`. -/
inductive Op
  | receive (message : Message)
  | complete (slot : TxSlot) (status : ℤ)
  | timeout (slot : TxSlot)
  | peer (rings : Rings)
  | prepare (request : ℤ)
  | released
  | halted
  | work
  | dispatch
  | reserve
  | submitted (ret : ℤ)
  | claim
  | cancel (session : ℕ)
  | release (session : ℕ) (clean : Bool)
  | check (session : ℕ) (write : Bool) (bytes : ℕ)
  | copy (reread : ℕ)
  deriving DecidableEq, Repr

/-- The steps that need no lock. -/
def Op.interrupts : Op → Bool
  | .receive _ | .complete _ _ | .timeout _ | .peer _ => true
  | _ => false

/-- `receive_work` takes the next message. -/
def work : Option Driver :=
  match s.accepting, s.rx with
  | true, m :: rest => some { s with rx := rest, phase := .handling m }
  | _, _ => none

/-- One turn of `bt_transfer` takes the lock and checks the state. -/
def check (session : ℕ) (write : Bool) (bytes : ℕ) : Driver :=
  if s.stateError session = 0 then { s with phase := .copying session write bytes } else s

/-- One step; `none` where the code is not at that step. -/
def step : Op → Option Driver
  | .receive message => some (s.receive message)
  | .complete slot status => if s.held slot then some (s.complete slot status) else none
  | .timeout slot => some (s.timeout slot)
  | .peer rings => some { s with rings }
  | op =>
    match op, s.phase with
    | .prepare request, .free => some (s.prepare request)
    | .released, .free => some s.release
    | .halted, .free => some s.stop
    | .work, .free => s.work
    | .dispatch, .handling m => some (s.dispatch m)
    | .reserve, .sending message caller => some (s.reserve message caller)
    | .submitted ret, .submitting slot caller => some (s.submitted slot caller ret)
    | .claim, .free => some s.claim
    | .cancel session, .free => some (s.cancel session)
    | .release session clean, .free => some (s.btRelease session clean)
    | .check session write bytes, .free => some (s.check session write bytes)
    | .copy reread, .copying _ write bytes => some (s.copy write bytes reread)
    | _, _ => none

/-- The runs of the driver. -/
def machine : Machine Driver Op where
  start s := s = {}
  step s op s' := s.step op = some s'

end Driver

end Sipc
