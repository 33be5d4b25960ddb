/-
The contract of a Bluetooth session token, and the count of OPENs.

`contract_of_trace` puts together what holds of every run of the transport in
which the count of OPENs does not wrap while the stream is lent.  With 2^32
OPENs it does (`contract_broken`): the next OPEN is taken for the first
one, and the token survives it.
-/
import Fplinux.Sipc.Session
import Fplinux.Sipc.TxSlots

namespace Sipc

open List (append_assoc countP_append mem_append mem_cons mem_cons_self not_mem_nil)
open Machine (Trace runOps runOps_append runSteps)

namespace Driver

variable {s t : Driver}

/-- What a token is good for.  A transfer goes back to a claim that nothing
ended or revoked since; no fault came before the check of the call, and
between the check and the copy there are interrupts only. -/
structure Contract (l : List Event) : Prop where
  transfers : ∀ pre x post session, l = pre ++ x :: post → Transfers x session →
    ∃ a grant b check c, pre = a ++ grant :: (b ++ check :: c) ∧ Grants grant session ∧
      Unended (b ++ check :: c) ∧ (∀ y ∈ b ++ check :: c, ¬Revokes y) ∧
      (∀ y ∈ pre, ¬Releases y session) ∧ (∀ y ∈ b, ¬RaisesFault y) ∧
      (∃ write bytes, check.op = .check session write bytes) ∧ ∀ y ∈ c, y.op.interrupts = true
  claims : ∀ pre x mid y post session session', l = pre ++ x :: (mid ++ y :: post) →
    Grants x session → Grants y session' → ∃ z ∈ mid, FreesCleanly z ∨ Prepares z
  slots : ∀ x ∈ l, ∀ i, x.before.held i = true →
    (x.after.tx i).message = (x.before.tx i).message ∧ x.before.freeTx ≠ some i

theorem session_of_stateError {session : ℕ} (h : s.stateError session = 0) :
    s.btSession = session ∧ s.btClaimed = true ∧ s.btError = 0 ∧ s.fault = 0 := by
  unfold stateError at h
  split at h
  case isTrue => cases h
  case isFalse hcurrent =>
    obtain ⟨hsession, hclaimed⟩ : session = s.btSession ∧ s.btClaimed = true := by
      simpa [not_or] using hcurrent
    split at h
    case isTrue herror => exact absurd h herror
    case isFalse herror =>
      split at h
      case isTrue hfault => exact absurd h hfault
      case isFalse hfault => exact ⟨hsession.symm, hclaimed, not_not.mp herror, not_not.mp hfault⟩

theorem counted_take {a b : List Event}
    (h : ∀ x ∈ a ++ b, x.before.openCounted x.op = true) :
    ∀ x ∈ a, x.before.openCounted x.op = true :=
  fun x hx => h x (List.mem_append_left b hx)

theorem transfers_of_trace {l : List Event} (h : machine.Trace l s)
    (hcounted : ∀ x ∈ l, x.before.openCounted x.op = true) (hlt : sessions l < 2 ^ 32)
    {session bytes : ℕ} {write : Bool} (hphase : s.phase = .copying session write bytes) :
    ∃ a grant b check c, l = a ++ grant :: (b ++ check :: c) ∧ Grants grant session ∧
      Unended (b ++ check :: c) ∧ (∀ y ∈ b ++ check :: c, ¬Revokes y) ∧
      (∀ y ∈ l, ¬Releases y session) ∧ (∀ y ∈ b, ¬RaisesFault y) ∧
      (∃ write bytes, check.op = .check session write bytes) ∧
      ∀ y ∈ c, y.op.interrupts = true := by
  obtain ⟨pre, check, c, rfl, hcheck, hpass, hc⟩ := checked_of_trace h session write bytes hphase
  obtain ⟨hbefore, hstep⟩ := h.split rfl
  obtain ⟨hsession, hclaimed, herror, hfault⟩ := session_of_stateError hpass
  obtain ⟨-, hlive⟩ := live_of_trace hbefore (counted_take hcounted)
  obtain ⟨a, grant, b, hsince⟩ := hlive hclaimed
  -- From the check on nothing touches the claim.
  have hquiet : ∀ y ∈ check :: c, (∀ session, ¬Grants y session ∧ ¬Releases y session ∧
      ¬Prepares y) ∧ ¬Revokes y := by
    intro y hy
    obtain ⟨a', b', hsplit⟩ := List.append_of_mem hy
    have hl : pre ++ check :: c = (pre ++ a') ++ y :: b' := by rw [hsplit, append_assoc]
    refine quiet_of_check (h.split hl).2 ?_
    rcases mem_cons.mp hy with rfl | hmem
    · rw [hcheck]
      rfl
    · exact quiet_of_interrupts (hc y hmem)
  have hsplit : pre ++ check :: c = a ++ grant :: (b ++ check :: c) := by
    rw [hsince.split, append_assoc, List.cons_append]
  have hfew : sessions pre < 2 ^ 32 := by
    rw [sessions, countP_append] at hlt
    exact Nat.lt_of_le_of_lt (Nat.le_add_right _ _) hlt
  refine ⟨a, grant, b, check, c, hsplit, ?_, ?_, ?_, ?_, hsince.faultless hfault,
    ⟨write, bytes, hcheck⟩, hc⟩
  · rw [← hsession]
    exact hsince.grants
  · intro y hy
    rcases mem_append.mp hy with hold | hnew
    · exact hsince.unended y hold
    · exact (hquiet y hnew).1
  · intro y hy
    rcases mem_append.mp hy with hold | hnew
    · exact hsince.unrevoked herror y hold
    · exact (hquiet y hnew).2
  · intro y hy
    rcases mem_append.mp hy with hold | hnew
    · rw [← hsession]
      exact not_releases_of_trace hbefore hfew y hold
    · exact ((hquiet y hnew).1 session).2.1

/-- **A token is good for one stream**: in every run with fewer than 2^32
sessions in which the count of OPENs does not wrap while the stream is lent. -/
theorem contract_of_trace {l : List Event} (h : machine.Trace l s) (hlt : sessions l < 2 ^ 32)
    (hcounted : ∀ x ∈ l, x.before.openCounted x.op = true) : Contract l where
  transfers := by
    rintro pre x post session rfl ⟨write, bytes, reread, -, hphase, -⟩
    refine transfers_of_trace (h.split rfl).1 (counted_take hcounted) ?_ hphase
    rw [sessions, countP_append] at hlt
    exact Nat.lt_of_le_of_lt (Nat.le_add_right _ _) hlt
  claims := by
    intro pre x mid y post session session' hl hfirst hsecond
    have hl' : l = (pre ++ x :: mid) ++ y :: post := by
      rw [hl, append_assoc, List.cons_append]
    obtain ⟨hbefore, hstep⟩ := h.split hl'
    refine (freed_of_trace hbefore pre x mid rfl session hfirst).resolve_right fun hused => ?_
    cases (btUsed_of_grants hstep hsecond).1.symm.trans hused
  slots := by
    intro x hx i hheld
    obtain ⟨a, b, hl⟩ := List.append_of_mem hx
    obtain ⟨hbefore, hstep⟩ := h.split hl
    have hinv := held_of_trace hbefore
    refine ⟨(message_of_step hinv hstep).2 i hheld, fun hfree => ?_⟩
    have hpending : (x.before.tx i).pending = false := by
      simpa using List.find?_some (p := fun i => !(x.before.tx i).pending) hfree
    cases hpending.symm.trans (hinv.pending i hheld)

/-! ### A run with a transfer -/

def slot0 : TxSlot := ⟨0, by decide⟩

/-- A message is sent and delivered at once. -/
def sendOne : List Op := [.reserve, .submitted 0, .complete slot0 0]

/-- A message is received and processed. -/
def handleOne (m : Message) : List Op := [.receive m, .work, .dispatch]

/-- The transport is up, channel 4 is opened by the peer. -/
def bringUp : List Op :=
  [.prepare 0] ++ (List.replicate ownerCount sendOne).flatten ++ [.released] ++
    handleOne (Message.opening 4)

/-- The peer asks for the rings. -/
def askRings : List Op := handleOne (.make 4 Message.typeCmd Message.init 0) ++ sendOne

/-- Bytes are written with the first token, the stream is released and claimed
again, and bytes are read with the second one. -/
def twoStreams : List Op :=
  bringUp ++ askRings ++ [.claim, .check 1 true 5, .copy 0] ++ sendOne ++
    [.peer ⟨5, 5, 0, 0⟩, .release 1 true, .claim, .peer ⟨5, 5, 0, 7⟩, .check 2 false 100, .copy 7]

theorem contract_twoStreams : ∃ l s, machine.Trace l s ∧ Contract l ∧ s.btSession = 2 ∧
    s.rings.txWrite = 5 ∧ s.rings.rxRead = 7 := by
  have hrun : (runOps step twoStreams {}).any (fun s =>
      decide (s.btSession = 2 ∧ s.rings.txWrite = 5 ∧ s.rings.rxRead = 7)) = true := by
    decide +kernel
  obtain ⟨s, hs, hend⟩ := (Option.any_eq_true _ _).mp hrun
  have htrace : machine.Trace ([] ++ runSteps step {} twoStreams) s :=
    Trace.runOps (fun _ _ _ => id) (.start rfl) hs
  rw [List.nil_append] at htrace
  have hfew : sessions (runSteps step {} twoStreams) < 2 ^ 32 := by decide +kernel
  have hcounted : (runSteps step {} twoStreams).all
      (fun x => x.before.openCounted x.op) = true := by decide +kernel
  exact ⟨_, s, htrace, contract_of_trace htrace hfew (List.all_eq_true.mp hcounted),
    of_decide_eq_true hend⟩

/-! ### The count of OPENs wraps -/

/-- Channel 4 in the layout. -/
def btOwner : Owner :=
  { channel := 4, count := 16, txSize := 4096, rxSize := 4096, offset := 241664, bytes := 131588 }

/-- The transport is up, nothing is on its way, and the peer sent `n` OPENs;
`queued` when it also has the rings. -/
structure Opened (n : ℕ) (queued : Bool) (s : Driver) : Prop where
  rx : s.rx = []
  fault : s.fault = 0
  accepting : s.accepting = true
  prepared : s.prepared = true
  released : s.released = true
  mbox : s.mbox = true
  phase : s.phase = .free
  session : s.btSession = 1
  error : s.btError = 0
  used : s.btUsed = false
  laid : s.findChannel 4 = some btIndex
  channel : s.channels btIndex = {
    owner := btOwner, openCount := n, opened := true, initQueued := queued
    initializedOnce := queued }
  slot : (s.tx slot0).pending = false
  rings : s.rings = {}

theorem freeTx_eq (h : (s.tx slot0).pending = false) : s.freeTx = some slot0 := by
  have hrange : List.finRange transmitCount = slot0 :: (List.finRange transmitCount).drop 1 := by
    decide +kernel
  rw [freeTx, hrange, List.find?_cons_of_pos]
  rw [h]
  rfl

theorem reserve_eq (hfault : s.fault = 0) (hslot : (s.tx slot0).pending = false)
    (message : Message) (caller : Caller) : s.reserve message caller = { s with
      tx := Function.update s.tx slot0 ⟨message, true⟩
      held := Function.update s.held slot0 s.mbox
      phase := .submitting slot0 caller } := by
  rw [reserve, if_neg (not_not.mpr hfault), freeTx_eq hslot]

theorem replied_frame (m : Message) (tx : TxSlot → Tx) (held : TxSlot → Bool) (phase : Phase) :
    ({ s with tx, held, phase } : Driver).replied m 0 = { s.replied m 0 with tx, held } := by
  have hfind : ({ s with tx, held, phase } : Driver).findChannel m.channel =
      s.findChannel m.channel := rfl
  unfold replied
  rw [hfind]
  split
  · simp [dispatched]
  · simp only [ne_eq, not_true_eq_false, if_false]
    split_ifs <;> simp [dispatched, setChannel]

theorem runOps_sendOne (reply m : Message) (hfault : s.fault = 0) (hmbox : s.mbox = true)
    (hslot : (s.tx slot0).pending = false) :
    ∃ tx held, (tx slot0).pending = false ∧
      runOps step sendOne { s with phase := .sending reply (.dispatch m) } =
        some { s.replied m 0 with tx, held } := by
  have hreserve : step { s with phase := .sending reply (.dispatch m) } .reserve = some { s with
      tx := Function.update s.tx slot0 ⟨reply, true⟩
      held := Function.update s.held slot0 s.mbox
      phase := .submitting slot0 (.dispatch m) } := by
    have htaken := reserve_eq (s := { s with phase := .sending reply (.dispatch m) }) hfault hslot
      reply (.dispatch m)
    exact congrArg some htaken
  generalize htx : Function.update s.tx slot0 ⟨reply, true⟩ = tx at hreserve
  generalize hheld : Function.update s.held slot0 s.mbox = held at hreserve
  have hsubmitted : step { s with tx, held, phase := .submitting slot0 (.dispatch m) }
      (.submitted 0) = some { s.replied m 0 with tx, held } := by
    rw [← replied_frame]
    rfl
  have hself : held slot0 = true := by rw [← hheld, Function.update_self, hmbox]
  have hcomplete : step { s.replied m 0 with tx, held } (.complete slot0 0) =
      some { s.replied m 0 with
        tx := Function.update tx slot0 { tx slot0 with pending := false }
        held := Function.update held slot0 false } := by
    show (if held slot0 = true then _ else none) = _
    rw [if_pos hself]
    rfl
  refine ⟨Function.update tx slot0 { tx slot0 with pending := false },
    Function.update held slot0 false, ?_, ?_⟩
  · rw [Function.update_self]
  · rw [sendOne, runOps, hreserve, Option.bind_some, runOps, hsubmitted,
      Option.bind_some, runOps, hcomplete, Option.bind_some]
    rfl

theorem step_work (hphase : s.phase = .free) : s.step .work = s.work := by
  simp only [step, hphase]

theorem step_receive (hrx : s.rx = []) (haccepting : s.accepting = true) (m : Message) :
    s.step (.receive m) = some { s with rx := [m] } := by
  have hroom : s.accepting = true ∧ s.rx.length < receiveCount := by
    rw [hrx]
    exact ⟨haccepting, by decide⟩
  show some (s.receive m) = _
  rw [receive, if_pos hroom, hrx]
  rfl

theorem step_taken (hrx : s.rx = []) (haccepting : s.accepting = true) (hphase : s.phase = .free)
    (m : Message) : step { s with rx := [m] } .work = some { s with phase := .handling m } := by
  rw [step_work (s := { s with rx := [m] }) hphase]
  simp only [work, haccepting]
  rw [← hrx]

theorem runOps_handleOne (hrx : s.rx = []) (haccepting : s.accepting = true)
    (hphase : s.phase = .free) (m : Message) :
    runOps step (handleOne m) s =
      some (({ s with phase := .handling m } : Driver).dispatch m) := by
  rw [handleOne, runOps, step_receive hrx haccepting, Option.bind_some, runOps,
    step_taken hrx haccepting hphase, Option.bind_some]
  rfl

variable {n : ℕ}

theorem dispatch_opening (h : Opened n false s) (hpos : 0 < n) (hlt : n < 2 ^ 32 - 1) :
    ({ s with phase := .handling (Message.opening 4) } : Driver).dispatch (Message.opening 4) =
      { s.setChannel btIndex { owner := btOwner, openCount := n + 1, opened := true } with
        phase := .sending (Message.opening 4) (.dispatch (Message.opening 4)) } := by
  have hfind : ({ s with phase := .handling (Message.opening 4) } : Driver).findChannel
      (Message.opening 4).channel = some btIndex := h.laid
  have hcount : 1 < Word.add 32 n 1 := by
    rw [Word.add_eq (by omega)]
    omega
  unfold dispatch
  rw [hfind]
  dsimp only
  rw [if_pos (by decide), if_neg (by decide), h.channel]
  dsimp only
  rw [if_pos hcount, if_neg (by rw [h.used]; decide), if_neg Bool.false_ne_true,
    Word.add_eq (by omega)]
  rfl

theorem replied_opening (hlaid : s.findChannel 4 = some btIndex) :
    s.replied (Message.opening 4) 0 = { s with phase := .free } := by
  have hfind : s.findChannel (Message.opening 4).channel = some btIndex := hlaid
  unfold replied
  rw [hfind]
  dsimp only
  rw [if_neg (by simp), if_neg (by decide), if_neg (by decide)]
  rfl

theorem findChannel_setChannel {ch : Channel} (hlaid : s.findChannel 4 = some btIndex)
    (howner : ch.owner = (s.channels btIndex).owner) :
    (s.setChannel btIndex ch).findChannel 4 = some btIndex := by
  rw [findChannel_of_owners (keeps_setChannel howner).owners]
  exact hlaid

/-- An OPEN is received, and its reply delivered. -/
def reopen : List Op := handleOne (Message.opening 4) ++ sendOne

theorem opened_reopen (h : Opened n false s) (hpos : 0 < n) (hlt : n < 2 ^ 32 - 1) :
    ∃ t, runOps step reopen s = some t ∧ Opened (n + 1) false t := by
  have hhandled := runOps_handleOne h.rx h.accepting h.phase (Message.opening 4)
  rw [dispatch_opening h hpos hlt] at hhandled
  have hlaid : (s.setChannel btIndex { owner := btOwner, openCount := n + 1, opened := true
      }).findChannel 4 = some btIndex := findChannel_setChannel h.laid (by rw [h.channel])
  generalize hu : s.setChannel btIndex { owner := btOwner, openCount := n + 1, opened := true } = u
    at hhandled hlaid
  obtain ⟨tx, held, hslot, hsent⟩ := runOps_sendOne (s := u) (Message.opening 4) (Message.opening 4)
    (by rw [← hu]; exact h.fault) (by rw [← hu]; exact h.mbox) (by rw [← hu]; exact h.slot)
  rw [replied_opening hlaid] at hsent
  refine ⟨_, (runOps_append hhandled).trans hsent, ?_⟩
  rw [← hu]
  exact { h with
    phase := rfl
    laid := by rw [hu]; exact hlaid
    channel := by
      show Function.update s.channels btIndex _ btIndex = _
      exact Function.update_self ..
    slot := hslot }

theorem opened_askRings (h : Opened n false s) :
    ∃ t, runOps step askRings s = some t ∧ Opened n true t := by
  have hhandled := runOps_handleOne h.rx h.accepting h.phase (.make 4 Message.typeCmd Message.init 0)
  have hfind : ({ s with phase := .handling (.make 4 Message.typeCmd Message.init 0) } :
      Driver).findChannel (Message.make 4 Message.typeCmd Message.init 0).channel = some btIndex :=
    h.laid
  have hdispatch : ({ s with phase := .handling (.make 4 Message.typeCmd Message.init 0) } :
      Driver).dispatch (.make 4 Message.typeCmd Message.init 0) = { s with
        phase := .sending (.make 4 Message.typeDone Message.initDone (cpBase + btOwner.offset))
          (.dispatch (.make 4 Message.typeCmd Message.init 0)) } := by
    unfold dispatch
    rw [hfind]
    dsimp only
    rw [if_neg (by decide), if_neg (by decide), if_pos (by decide), h.channel]
    dsimp only
    have hchannel : (Message.make 4 Message.typeCmd Message.init 0).channel = 4 := by decide
    rw [if_neg (by decide), hchannel]
  rw [hdispatch] at hhandled
  obtain ⟨tx, held, hslot, hsent⟩ := runOps_sendOne (s := s)
    (.make 4 Message.typeDone Message.initDone (cpBase + btOwner.offset))
    (.make 4 Message.typeCmd Message.init 0) h.fault h.mbox h.slot
  have hreplied : s.replied (.make 4 Message.typeCmd Message.init 0) 0 =
      { s.setChannel btIndex { owner := btOwner, openCount := n, opened := true, initQueued := true
                               initializedOnce := true } with phase := .free } := by
    have hfind' : s.findChannel (Message.make 4 Message.typeCmd Message.init 0).channel =
        some btIndex := h.laid
    unfold replied
    rw [hfind']
    dsimp only
    rw [if_neg (by simp), if_neg (by decide), if_pos (by decide), h.channel]
    rfl
  rw [hreplied] at hsent
  refine ⟨_, (runOps_append hhandled).trans hsent, ?_⟩
  exact { h with
    phase := rfl
    laid := findChannel_setChannel h.laid (by rw [h.channel])
    channel := by
      show Function.update s.channels btIndex _ btIndex = _
      exact Function.update_self ..
    slot := hslot }

theorem btChannel_eq (h : s.findChannel 4 = some btIndex) : s.btChannel = s.channels btIndex := by
  rw [btChannel, h]
  rfl

theorem dispatch_wrapped (hlaid : s.findChannel 4 = some btIndex)
    (hchannel : s.channels btIndex = { owner := btOwner, openCount := 2 ^ 32 - 1, opened := true
                                       initQueued := true, initializedOnce := true }) :
    s.dispatch (Message.opening 4) =
      { s.setChannel btIndex { owner := btOwner, openCount := 0, opened := true, initQueued := true
                               initializedOnce := true } with phase := .free } := by
  have hfind : s.findChannel (Message.opening 4).channel = some btIndex := hlaid
  unfold dispatch
  rw [hfind]
  dsimp only
  rw [if_pos (by decide), if_neg (by decide), hchannel]
  dsimp only
  rw [if_neg (by decide +kernel)]
  have hwrap : Word.add 32 (2 ^ 32 - 1) 1 = 0 := by decide +kernel
  rw [hwrap]
  rfl

theorem mem_of_lastGrant {p q a r : List Event} {x g e : Event} {i : ℕ}
    (h : p ++ x :: q = a ++ g :: r) (hx : Grants x i) (hg : ∃ j, Grants g j)
    (hq : ∀ y ∈ q, ∀ j, ¬Grants y j) (hr : ∀ y ∈ r, ∀ j, ¬Grants y j) (he : e ∈ q) : e ∈ r := by
  obtain ⟨j, hgrants⟩ := hg
  rcases List.append_eq_append_iff.mp h with ⟨m, rfl, hm⟩ | ⟨m, rfl, hm⟩
  · cases m with
    | nil =>
      obtain ⟨-, rfl⟩ := List.cons.inj hm
      exact he
    | cons z m =>
      obtain ⟨-, rfl⟩ := List.cons.inj hm
      exact absurd hgrants (hq g (List.mem_append_right _ (mem_cons_self ..)) j)
  · cases m with
    | nil =>
      obtain ⟨-, rfl⟩ := List.cons.inj hm
      exact he
    | cons z m =>
      obtain ⟨-, rfl⟩ := List.cons.inj hm
      exact absurd hx (hr x (List.mem_append_right _ (mem_cons_self ..)) i)

/-- The stream is claimed. -/
def lent (s : Driver) : Driver := { s with btClaimed := true, btUsed := true }

/-- The peer opened channel 4 once more than the count can tell. -/
def wrapped (s : Driver) : Driver :=
  { s.lent.setChannel btIndex { owner := btOwner, openCount := 0, opened := true, initQueued := true
                                initializedOnce := true } with phase := .free }

theorem step_claim (h : Opened n true s) : s.claimError = 0 ∧ s.step .claim = some s.lent := by
  have hbt := (btChannel_eq h.laid).trans h.channel
  have herror : s.claimError = 0 := by
    rw [claimError, if_neg (by rw [h.used]; exact Bool.false_ne_true), if_neg (not_not.mpr h.error),
      if_neg (not_not.mpr h.fault), if_neg (by rw [h.prepared, h.released]; simp), hbt, if_pos]
    exact ⟨rfl, rfl⟩
  have hclaim : s.step .claim = some s.claim := by simp only [step, h.phase]
  refine ⟨herror, ?_⟩
  rw [hclaim, claim, if_pos herror]
  rfl

theorem step_check {queued : Bool} (h : Opened n queued s) :
    s.wrapped.step (.check 1 true 5) = some { s.wrapped with phase := .copying 1 true 5 } := by
  have hpass : s.wrapped.stateError 1 = 0 := by
    have hsession : s.wrapped.btSession = 1 := h.session
    have hnone : s.wrapped.btError = 0 := h.error
    have hfault : s.wrapped.fault = 0 := h.fault
    have hprepared : s.wrapped.prepared = true := h.prepared
    have hreleased : s.wrapped.released = true := h.released
    have hclaimed : s.wrapped.btClaimed = true := rfl
    rw [stateError, if_neg (by rw [hsession, hclaimed]; simp), if_neg (not_not.mpr hnone),
      if_neg (not_not.mpr hfault), if_neg (by rw [hprepared, hreleased]; simp)]
  have hcheck : s.wrapped.step (.check 1 true 5) = some (s.wrapped.check 1 true 5) := rfl
  rw [hcheck, check, if_pos hpass]

theorem ringOp_wrapped {queued : Bool} (h : Opened n queued s) :
    (ringOp { s.wrapped with phase := .copying 1 true 5 } true 5 0).1 = 5 := by
  have hlaid : findChannel { s.wrapped with phase := .copying 1 true 5 } 4 = some btIndex :=
    findChannel_setChannel (s := s.lent) h.laid (congrArg Channel.owner h.channel).symm
  have howner : (btChannel { s.wrapped with phase := .copying 1 true 5 }).owner = btOwner := by
    rw [btChannel_eq hlaid]
    exact congrArg Channel.owner (Function.update_self btIndex _ s.channels)
  have hrings : s.wrapped.rings = {} := h.rings
  rw [ringOp, if_pos rfl, howner]
  show (s.wrapped.rings.write btOwner 5 0).1 = 5
  rw [hrings]
  decide +kernel

/-- **The token survives an OPEN** when the count wraps: the stream is claimed,
the peer opens channel 4 again, and bytes are written all the same. -/
theorem not_contract_of_wrapped {l : List Event} (h : machine.Trace l s)
    (hopened : Opened (2 ^ 32 - 1) true s) :
    ∃ l' t, machine.Trace (l ++ l') t ∧ ¬Contract (l ++ l') ∧
      sessions (l ++ l') = sessions l := by
  obtain ⟨herror, hclaim⟩ := step_claim hopened
  have hreceive := step_receive (s := s.lent) hopened.rx hopened.accepting (Message.opening 4)
  have htaken := step_taken (s := s.lent) hopened.rx hopened.accepting hopened.phase
    (Message.opening 4)
  have hdispatch : step { s.lent with phase := .handling (Message.opening 4) } .dispatch =
      some s.wrapped :=
    congrArg some (dispatch_wrapped (s := { s.lent with phase := .handling (Message.opening 4) })
      hopened.laid hopened.channel)
  have hcheck := step_check hopened
  have hbytes := ringOp_wrapped hopened
  generalize hcopying : ({ s.wrapped with phase := .copying 1 true 5 } : Driver) = copying
    at hcheck hbytes
  have hphase : copying.phase = .copying 1 true 5 := by rw [← hcopying]
  have hcopy : copying.step (.copy 0) = some (copying.copy true 5 0) := by simp only [step, hphase]
  have htrace := (((((h.step hclaim).step hreceive).step htaken).step hdispatch).step hcheck).step
    hcopy
  simp only [append_assoc, List.singleton_append] at htrace
  refine ⟨_, _, htrace, ?_, ?_⟩
  · intro hcontract
    obtain ⟨a, grant, b, check, c, hpre, hgrant, hunended, hrevokes, -⟩ := hcontract.transfers
      (l ++ [_, _, _, _, _]) _ [] 1 (by rw [append_assoc]; rfl)
      ⟨true, 5, 0, rfl, hphase, by rw [hbytes]; decide⟩
    -- The OPEN comes after the last grant.
    have hlater := mem_of_lastGrant (x := ⟨s, .claim, s.lent⟩) (i := s.btSession)
      (e := ⟨{ s.lent with phase := .handling (Message.opening 4) }, .dispatch, s.wrapped⟩) hpre
      ⟨rfl, herror, rfl⟩ ⟨1, hgrant⟩ ?_ (fun y hy j => (hunended y hy j).1) (by simp)
    · exact hrevokes _ hlater (.inl ⟨rfl, Message.opening 4, rfl, by decide, .inl (by decide)⟩)
    · intro y hy j hgrants
      simp only [mem_cons, not_mem_nil, or_false] at hy
      rcases hy with rfl | rfl | rfl | rfl
      all_goals cases hgrants.1
  · rw [sessions, countP_append]
    rfl

theorem opened_bringUp : ∃ t, runOps step bringUp {} = some t ∧ Opened 1 false t := by
  have hrun : (runOps step bringUp {}).any (fun t =>
      decide (t.rx = [] ∧ t.fault = 0 ∧ t.accepting = true ∧ t.prepared = true ∧
        t.released = true ∧ t.mbox = true ∧ t.phase = .free ∧ t.btSession = 1 ∧ t.btError = 0 ∧
        t.btUsed = false ∧ t.findChannel 4 = some btIndex ∧
        t.channels btIndex = { owner := btOwner, openCount := 1, opened := true } ∧
        (t.tx slot0).pending = false ∧ t.rings = {})) = true := by decide +kernel
  obtain ⟨t, ht, hall⟩ := (Option.any_eq_true _ _).mp hrun
  obtain ⟨hrx, hfault, haccepting, hprepared, hreleased, hmbox, hphase, hsession, herror, hused,
    hlaid, hchannel, hslot, hrings⟩ := of_decide_eq_true hall
  exact ⟨t, ht, hrx, hfault, haccepting, hprepared, hreleased, hmbox, hphase, hsession, herror,
    hused, hlaid, hchannel, hslot, hrings⟩

theorem sessions_runSteps {ops : List Op}
    (hops : ∀ op ∈ ops, ∀ u : Driver, u.startsSession op = false) :
    ∀ u : Driver, sessions (runSteps step u ops) = 0 := by
  induction ops with
  | nil => exact fun _ => rfl
  | cons op ops ih =>
    intro u
    rw [runSteps]
    cases u.step op with
    | none => rfl
    | some v =>
      have hnone := hops op (mem_cons_self ..) u
      have hrest := ih (fun o ho => hops o (List.mem_cons_of_mem _ ho)) v
      rw [sessions] at hrest
      rw [Option.elim_some, sessions, List.countP_cons_of_neg (by rw [hnone]; exact Bool.false_ne_true)]
      exact hrest

theorem exists_opened : ∀ n, n + 1 < 2 ^ 32 →
    ∃ l s, machine.Trace l s ∧ sessions l = 1 ∧ Opened (n + 1) false s := by
  intro n
  induction n with
  | zero =>
    intro _
    obtain ⟨s, hrun, hopened⟩ := opened_bringUp
    have htrace : machine.Trace ([] ++ runSteps step {} bringUp) s :=
      Trace.runOps (fun _ _ _ => id) (.start rfl) hrun
    exact ⟨_, s, htrace, by decide +kernel, hopened⟩
  | succ n ih =>
    intro hn
    obtain ⟨l, s, htrace, hone, hopened⟩ := ih (by omega)
    obtain ⟨t, hrun, hagain⟩ := opened_reopen hopened (Nat.succ_pos n) (by omega)
    refine ⟨_, t, Trace.runOps (fun _ _ _ => id) htrace hrun, ?_, hagain⟩
    have hops : ∀ op ∈ reopen, ∀ u : Driver, u.startsSession op = false := by
      intro op hop u
      simp only [reopen, handleOne, sendOne, mem_append, mem_cons, not_mem_nil,
        or_false] at hop
      rcases hop with (rfl | rfl | rfl) | rfl | rfl | rfl
      all_goals rfl
    have hnone := sessions_runSteps hops s
    rw [sessions] at hone hnone ⊢
    rw [countP_append, hone, hnone]

/-- **A token survives an OPEN**: with 2^32 OPENs of channel 4 in one session
the last one is not seen to be one. -/
theorem contract_broken : ∃ l s, machine.Trace l s ∧ sessions l < 2 ^ 32 ∧ ¬Contract l := by
  obtain ⟨l, s, htrace, hone, hopened⟩ := exists_opened (2 ^ 32 - 2) (by omega)
  obtain ⟨t, hrun, hqueued⟩ := opened_askRings hopened
  have hasked := Trace.runOps (fun _ _ _ => id) htrace hrun
  obtain ⟨l', u, hlast, hbroken, hsame⟩ := not_contract_of_wrapped hasked hqueued
  refine ⟨_, u, hlast, ?_, hbroken⟩
  have hops : ∀ op ∈ askRings, ∀ v : Driver, v.startsSession op = false := by
    intro op hop v
    simp only [askRings, handleOne, sendOne, mem_append, mem_cons, not_mem_nil,
      or_false] at hop
    rcases hop with (rfl | rfl | rfl) | rfl | rfl | rfl
    all_goals rfl
  have hnone := sessions_runSteps hops s
  rw [hsame]
  rw [sessions] at hone hnone ⊢
  rw [countP_append, hone, hnone]
  omega

end Driver

end Sipc
