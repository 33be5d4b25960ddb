/-
A session token of the Bluetooth stream is good for one stream.

* `Transfers` and the other events — what a step of a run is to a token;
* `Keeps`, `stepped_of_step` — what a step does to the claim;
* `Live`, `live_of_trace` — while a claim stands and no error is recorded,
  nothing happened since that reopens, rejects or stops the stream;
* `Session` and `session_of_trace` — the contract of a token.

An error that is recorded for the stream, and a fault of the transport, stay
until the claim ends, so that the checks of a transfer look back at everything
since the claim.
-/
import Fplinux.Sipc.Transport

namespace Sipc

namespace Driver

abbrev Event := Machine.Step Driver Op

/-! ### Events -/

/-- A claim that succeeds with this token. -/
def Grants (x : Event) (session : ℕ) : Prop :=
  x.op = .claim ∧ x.before.claimError = 0 ∧ x.before.btSession = session

/-- The release of the token. -/
def Releases (x : Event) (session : ℕ) : Prop :=
  (∃ clean, x.op = .release session clean) ∧ x.before.btSession = session ∧
    x.before.btClaimed = true

/-- Bytes are copied to or from a ring for the token. -/
def Transfers (x : Event) (session : ℕ) : Prop :=
  ∃ write bytes reread, x.op = .copy reread ∧ x.before.phase = .copying session write bytes ∧
    0 < (x.before.ringOp write bytes reread).1

/-- An OPEN or a CLOSE of channel 4 is processed. -/
def Reopens (x : Event) : Prop :=
  x.op = .dispatch ∧ ∃ m, x.before.phase = .handling m ∧ m.channel = 4 ∧
    (m.type = Message.typeOpen ∨ m.type = Message.typeClose)

/-- `dispatch_message` fails, at once or because its reply is not sent. -/
def Rejects (x : Event) (m : Message) : Prop :=
  (x.op = .dispatch ∧ x.before.phase = .handling m ∧
    ∃ ret, ret ≠ 0 ∧ x.after = x.before.dispatched m ret) ∨
  (x.op = .reserve ∧ (∃ reply, x.before.phase = .sending reply (.dispatch m)) ∧
    (x.before.fault ≠ 0 ∨ x.before.freeTx = none)) ∨
  ∃ slot ret, x.op = .submitted ret ∧ x.before.phase = .submitting slot (.dispatch m) ∧ ret < 0

/-- A `prepare` that is not refused. -/
def Prepares (x : Event) : Prop := (∃ request, x.op = .prepare request) ∧ x.before.prepared = false

/-- The transport is stopped. -/
def Stops (x : Event) : Prop :=
  x.op = .halted ∨ x.before.prepared = true ∧ x.after.prepared = false

/-- What revokes a token. -/
def Revokes (x : Event) : Prop :=
  Reopens x ∨ (∃ m, m.channel = 4 ∧ Rejects x m) ∨ Stops x

def RaisesFault (x : Event) : Prop := x.before.fault = 0 ∧ x.after.fault ≠ 0

/-- A clean release that finds both rings empty and no control message. -/
def FreesCleanly (x : Event) : Prop :=
  (∃ session, x.op = .release session true ∧ x.before.btSession = session) ∧
    x.before.btClaimed = true ∧ x.before.controlPending = false ∧
    Word.sub 32 x.before.rings.txWrite x.before.rings.txRead = 0 ∧
    Word.sub 32 x.before.rings.rxWrite x.before.rings.rxRead = 0

/-! ### What a step does to the claim -/

/-- The claim stands as before; an error stays, and stopping is one. -/
structure Keeps (s t : Driver) : Prop where
  session : t.btSession = s.btSession
  claimed : t.btClaimed = s.btClaimed
  used : t.btUsed = s.btUsed
  error : s.btError ≠ 0 → t.btError ≠ 0
  fault : s.fault ≠ 0 → t.fault ≠ 0
  stopped : s.prepared = true → t.prepared = true ∨ t.btError ≠ 0
  unprepared : s.prepared = false → t.prepared = false
  owners : ∀ i, (t.channels i).owner = (s.channels i).owner

variable {s t u : Driver}

theorem Keeps.refl (s : Driver) : Keeps s s :=
  ⟨rfl, rfl, rfl, id, id, .inl, id, fun _ => rfl⟩

theorem Keeps.trans (h : Keeps s t) (h' : Keeps t u) : Keeps s u where
  session := h'.session.trans h.session
  claimed := h'.claimed.trans h.claimed
  used := h'.used.trans h.used
  error hs := h'.error (h.error hs)
  fault hs := h'.fault (h.fault hs)
  stopped hs := by
    rcases h.stopped hs with ht | ht
    · exact h'.stopped ht
    · exact .inr (h'.error ht)
  unprepared hs := h'.unprepared (h.unprepared hs)
  owners i := (h'.owners i).trans (h.owners i)

variable {error ret : ℤ} {m : Message} {caller : Caller} {slot : TxSlot} {bytes session : ℕ}
  {write : Bool} {op : Op} {l : List Event}

theorem btError_revoke (herror : error ≠ 0) : (s.revoke error).btError ≠ 0 := by
  show (if s.btError = 0 ∨ s.btError = -eCanceled then error else s.btError) ≠ 0
  split
  case isTrue => exact herror
  case isFalse hset => exact fun hzero => hset (.inl hzero)

theorem keeps_revoke (herror : error ≠ 0) : Keeps s (s.revoke error) :=
  ⟨rfl, rfl, rfl, fun _ => btError_revoke herror, id, .inl, id, fun _ => rfl⟩

theorem keeps_setFault : Keeps s (s.setFault error) := by
  refine ⟨rfl, rfl, rfl, id, ?_, .inl, id, fun _ => rfl⟩
  intro hfault
  show (if s.fault = 0 then error else s.fault) ≠ 0
  rw [if_neg hfault]
  exact hfault

theorem keeps_of_same (h : ({ s with
      rx := t.rx, tx := t.tx, held := t.held, rings := t.rings, phase := t.phase
      accepting := t.accepting, released := t.released, mbox := t.mbox } : Driver) = t) :
    Keeps s t := by
  rw [← h]
  exact ⟨rfl, rfl, rfl, id, id, .inl, id, fun _ => rfl⟩

theorem keeps_setChannel {i : OwnerIndex} {ch : Channel} (h : ch.owner = (s.channels i).owner) :
    Keeps s (s.setChannel i ch) := by
  refine ⟨rfl, rfl, rfl, id, id, .inl, id, fun j => ?_⟩
  show (Function.update s.channels i ch j).owner = _
  by_cases hj : j = i
  · rw [hj, Function.update_self, h]
  · rw [Function.update_of_ne hj]

theorem keeps_recoverOwner {owner : Owner} : Keeps s (s.recoverOwner owner) := by
  unfold recoverOwner
  split
  · exact keeps_of_same rfl
  · exact Keeps.refl s

theorem keeps_stop : Keeps s s.stop := by
  refine ⟨rfl, rfl, rfl, ?_, id, ?_, fun _ => rfl, fun _ => rfl⟩
  · exact fun _ => btError_revoke (by decide)
  · exact fun _ => .inr (btError_revoke (by decide))

theorem keeps_dispatched : Keeps s (s.dispatched m ret) := by
  unfold dispatched
  split
  case isTrue h => exact (keeps_of_same rfl).trans (keeps_revoke h.1)
  case isFalse => exact keeps_of_same rfl

theorem keeps_replied : Keeps s (s.replied m ret) := by
  unfold replied
  split
  · exact keeps_dispatched
  split
  · exact keeps_dispatched
  split
  · refine Keeps.trans ?_ keeps_dispatched
    exact keeps_setChannel rfl
  split
  · refine Keeps.trans ?_ keeps_dispatched
    exact keeps_setChannel rfl
  · exact keeps_dispatched

theorem keeps_openNext (channels : List ℕ) : Keeps s (s.openNext channels) := by
  cases channels with
  | nil => exact keeps_of_same rfl
  | cons channel rest => exact keeps_of_same rfl

theorem keeps_sent (caller : Caller) : Keeps s (s.sent ret caller) := by
  cases caller with
  | prepare rest =>
    show Keeps s (if ret ≠ 0 then s.stop else s.openNext rest)
    split
    · exact keeps_stop
    · exact keeps_openNext rest
  | dispatch m => exact keeps_replied
  | transfer =>
    show Keeps s (if ret < 0 ∧ ret ≠ -eAgain then { s with phase := .free }.revoke ret
      else { s with phase := .free })
    split
    case isTrue h =>
      refine (keeps_of_same rfl).trans (keeps_revoke ?_)
      exact Int.ne_of_lt h.1
    case isFalse => exact keeps_of_same rfl

theorem keeps_reserve {message : Message} : Keeps s (s.reserve message caller) := by
  unfold reserve
  split
  · exact keeps_sent caller
  split
  · exact keeps_sent caller
  · exact keeps_of_same rfl

theorem keeps_submitted : Keeps s (s.submitted slot caller ret) := by
  unfold submitted
  split
  · refine Keeps.trans ?_ (keeps_sent caller)
    exact Keeps.trans (keeps_of_same rfl) keeps_setFault
  · exact keeps_sent caller

theorem keeps_dispatch : Keeps s (s.dispatch m) := by
  unfold dispatch
  split
  case h_1 => exact keeps_dispatched
  case h_2 i _ =>
    dsimp only
    split
    · -- OPEN
      split
      · exact keeps_dispatched
      split
      · refine Keeps.trans (t := if m.channel = 4 ∧ s.btUsed = true then s.revoke (-ePipe)
          else if (s.channels i).initializedOnce = true then s.recoverOwner (s.channels i).owner
          else s) ?_ ?_
        · split
          · exact keeps_revoke (by decide)
          split
          · exact keeps_recoverOwner
          · exact Keeps.refl s
        · refine Keeps.trans ?_ (keeps_of_same rfl)
          refine keeps_setChannel ?_
          split
          · rfl
          split
          · exact (keeps_recoverOwner.owners i).symm
          · rfl
      · refine Keeps.trans ?_ keeps_dispatched
        exact keeps_setChannel rfl
    split
    · -- CLOSE
      split
      · exact keeps_dispatched
      · refine Keeps.trans ?_ (keeps_of_same rfl)
        split
        · exact keeps_revoke (by decide)
        split
        · exact keeps_recoverOwner
        · exact Keeps.refl s
    split
    · -- CMD
      split
      · exact keeps_dispatched
      · exact keeps_of_same rfl
    split
    · -- EVENT
      split
      · exact keeps_dispatched
      · exact keeps_dispatched
    · exact keeps_dispatched

theorem keeps_copy {reread : ℕ} : Keeps s (s.copy write bytes reread) := by
  unfold copy
  dsimp only
  split
  · exact keeps_of_same rfl
  split
  case isTrue h =>
    refine Keeps.trans (keeps_of_same rfl) (keeps_revoke ?_)
    exact Int.ne_of_lt h.1
  case isFalse => exact keeps_of_same rfl

theorem keeps_receive : Keeps s (s.receive m) := by
  unfold receive
  split
  · exact keeps_of_same rfl
  split
  · exact keeps_setFault
  · exact Keeps.refl s

theorem keeps_complete {status : ℤ} : Keeps s (s.complete slot status) := by
  unfold complete
  dsimp only
  split
  · exact Keeps.trans (keeps_of_same rfl) keeps_setFault
  · exact keeps_of_same rfl

theorem keeps_timeout : Keeps s (s.timeout slot) := by
  unfold timeout
  split
  · exact ⟨rfl, rfl, rfl, id, fun _ => show -eTimedOut ≠ 0 by decide, .inl, id, fun _ => rfl⟩
  · exact Keeps.refl s

/-! #### The layout -/

/-- The index of channel 4. -/
def btIndex : OwnerIndex := ⟨3, by decide⟩

theorem findChannel_of_layout {owners : OwnerIndex → Owner} (h : layout = some owners)
    (ht : ∀ i, (t.channels i).owner = owners i) : t.findChannel 4 = some btIndex := by
  have hfound : layout.any (fun owners => decide ((List.finRange ownerCount).find?
      (fun i => decide ((owners i).channel = 4)) = some btIndex)) = true := by decide +kernel
  rw [h, Option.any_some] at hfound
  simp only [findChannel, ht]
  exact of_decide_eq_true hfound

theorem findChannel_of_owners (h : ∀ i, (t.channels i).owner = (s.channels i).owner)
    (channel : ℕ) : t.findChannel channel = s.findChannel channel := by
  simp only [findChannel, h]

theorem prepare_eq (hunprepared : s.prepared = false) (request : ℤ) :
    (s.prepare request).btClaimed = false ∧ (s.prepare request).btUsed = false ∧
      (s.prepare request).btSession = Word.add 32 s.btSession 1 ∧
      (s.prepare request).findChannel 4 = some btIndex := by
  have hlayout : layout.isSome = true := by decide +kernel
  obtain ⟨owners, howners⟩ := Option.isSome_iff_exists.mp hlayout
  unfold prepare
  rw [if_neg (by rw [hunprepared]; exact Bool.false_ne_true), howners]
  dsimp only
  split
  · exact ⟨rfl, rfl, rfl, findChannel_of_layout howners fun _ => rfl⟩
  · generalize List.map _ _ = channels
    cases channels with
    | nil => exact ⟨rfl, rfl, rfl, findChannel_of_layout howners fun _ => rfl⟩
    | cons channel rest => exact ⟨rfl, rfl, rfl, findChannel_of_layout howners fun _ => rfl⟩

/-! #### The step -/

/-- **What a step does to the claim**: it keeps it, or begins or ends it. -/
inductive Stepped (s : Driver) (op : Op) (t : Driver) : Prop
  | keeps (h : Keeps s t) (hop : ¬Grants ⟨s, op, t⟩ s.btSession)
      (hrel : ¬Releases ⟨s, op, t⟩ s.btSession) (hprep : ¬Prepares ⟨s, op, t⟩)
  | prepares (h : Prepares ⟨s, op, t⟩) (hclaimed : t.btClaimed = false) (hused : t.btUsed = false)
      (hsession : t.btSession = Word.add 32 s.btSession 1)
      (hlaid : t.findChannel 4 = some btIndex)
  | claims (h : op = .claim) (herror : s.claimError = 0)
      (ht : t = { s with btClaimed := true, btUsed := true })
  | releases (clean : Bool) (h : op = .release s.btSession clean) (hclaimed : s.btClaimed = true)
      (ht : t = s.btRelease s.btSession clean)

theorem Stepped.of_keeps (h : Keeps s t) (hclaim : op ≠ .claim)
    (hrelease : ∀ session clean, op ≠ .release session clean)
    (hprepare : ∀ request, op ≠ .prepare request) : Stepped s op t := by
  refine .keeps h ?_ ?_ ?_
  · exact fun hgrants => hclaim hgrants.1
  · rintro ⟨⟨clean, hop⟩, -⟩
    exact hrelease _ clean hop
  · rintro ⟨⟨request, hop⟩, -⟩
    exact hprepare request hop

theorem stepped_of_step (hs : s.step op = some t) : Stepped s op t := by
  unfold step at hs
  split at hs
  case h_1 =>
    cases hs
    exact .of_keeps keeps_receive nofun nofun nofun
  case h_2 =>
    obtain ⟨-, hs⟩ := Option.ite_none_right_eq_some.mp hs
    cases hs
    exact .of_keeps keeps_complete nofun nofun nofun
  case h_3 =>
    cases hs
    exact .of_keeps keeps_timeout nofun nofun nofun
  case h_4 =>
    cases hs
    exact .of_keeps (keeps_of_same rfl) nofun nofun nofun
  case h_5 =>
    split at hs
    case h_1 request _ _ _ _ _ =>
      cases hs
      cases hprepared : s.prepared with
      | true =>
        have hsame : s.prepare request = s := by rw [prepare, if_pos hprepared]
        rw [hsame]
        refine .keeps (Keeps.refl s) nofun nofun fun hprepares => ?_
        cases hprepared.symm.trans hprepares.2
      | false =>
        obtain ⟨hclaimed, hused, hsession, hlaid⟩ := prepare_eq hprepared request
        exact .prepares ⟨⟨request, rfl⟩, hprepared⟩ hclaimed hused hsession hlaid
    case h_2 =>
      cases hs
      refine .of_keeps ?_ nofun nofun nofun
      unfold release
      split
      · exact Keeps.refl s
      split
      · exact Keeps.refl s
      · exact keeps_of_same rfl
    case h_3 =>
      cases hs
      exact .of_keeps keeps_stop nofun nofun nofun
    case h_4 =>
      unfold work at hs
      split at hs
      · cases hs
        exact .of_keeps (keeps_of_same rfl) nofun nofun nofun
      · cases hs
    case h_5 =>
      cases hs
      exact .of_keeps keeps_dispatch nofun nofun nofun
    case h_6 =>
      cases hs
      exact .of_keeps keeps_reserve nofun nofun nofun
    case h_7 =>
      cases hs
      exact .of_keeps keeps_submitted nofun nofun nofun
    case h_8 =>
      cases hs
      unfold claim
      split
      case isTrue herror => exact .claims rfl herror rfl
      case isFalse herror =>
        exact .keeps (Keeps.refl s) (fun hgrants => herror hgrants.2.1) nofun nofun
    case h_9 =>
      cases hs
      refine .of_keeps ?_ nofun nofun nofun
      unfold cancel
      split
      · exact keeps_revoke (by decide)
      · exact Keeps.refl s
    case h_10 session clean _ _ _ _ _ =>
      cases hs
      by_cases hcurrent : s.btSession ≠ session ∨ s.btClaimed = false
      · have hsame : s.btRelease session clean = s := by rw [btRelease, if_pos hcurrent]
        rw [hsame]
        refine .keeps (Keeps.refl s) nofun ?_ nofun
        rintro ⟨⟨clean', hop⟩, -, hclaimed⟩
        injection hop with hsession
        rcases hcurrent with hne | hfree
        · exact hne hsession.symm
        · cases hclaimed.symm.trans hfree
      · obtain ⟨rfl, hclaimed⟩ : s.btSession = session ∧ s.btClaimed = true := by
          simpa [not_or] using hcurrent
        exact .releases clean rfl hclaimed rfl
    case h_11 =>
      cases hs
      refine .of_keeps ?_ nofun nofun nofun
      unfold check
      split
      · exact keeps_of_same rfl
      · exact Keeps.refl s
    case h_12 =>
      cases hs
      exact .of_keeps keeps_copy nofun nofun nofun
    case h_13 => cases hs

/-! ### The invariant -/

/-- A claim is a use, and channel 4 exists since `prepare`. -/
structure Inv (s : Driver) : Prop where
  used : s.btClaimed = true → s.btUsed = true
  laid : s.prepared = true ∨ s.btClaimed = true → s.findChannel 4 = some btIndex

theorem inv_start : Inv {} where
  used := nofun
  laid h := by
    rcases h with h | h
    · cases h
    · cases h

theorem prepared_of_claimError (h : s.claimError = 0) :
    s.btUsed = false ∧ s.btError = 0 ∧ s.fault = 0 ∧ s.prepared = true := by
  unfold claimError at h
  split at h
  case isTrue => cases h
  case isFalse hused =>
    split at h
    case isTrue herror => exact absurd h herror
    case isFalse herror =>
      split at h
      case isTrue hfault => exact absurd h hfault
      case isFalse hfault =>
        split at h
        case isTrue => cases h
        case isFalse hprepared =>
          refine ⟨eq_false_of_ne_true hused, not_not.mp herror, not_not.mp hfault, ?_⟩
          exact eq_true_of_ne_false fun hnot => hprepared (.inl hnot)

theorem btRelease_eq (hclaimed : s.btClaimed = true) (clean : Bool) :
    (s.btRelease s.btSession clean).btClaimed = false ∧
      (s.btRelease s.btSession clean).btSession = Word.add 32 s.btSession 1 ∧
      (s.btRelease s.btSession clean).prepared = s.prepared ∧
      (s.btRelease s.btSession clean).channels = s.channels ∧
      (s.btRelease s.btSession clean).btUsed = (if s.releaseError clean = 0 then false else s.btUsed) := by
  have hcurrent : ¬(s.btSession ≠ s.btSession ∨ s.btClaimed = false) := by
    rw [hclaimed]
    simp
  rw [btRelease, if_neg hcurrent]
  exact ⟨rfl, rfl, rfl, rfl, rfl⟩

theorem inv_step (h : Inv s) (hs : s.step op = some t) : Inv t := by
  cases stepped_of_step hs with
  | keeps hkeeps _ _ _ =>
    refine ⟨?_, ?_⟩
    · rw [hkeeps.claimed, hkeeps.used]
      exact h.used
    · intro hlaid
      rw [findChannel_of_owners hkeeps.owners]
      refine h.laid ?_
      rw [hkeeps.claimed] at hlaid
      refine hlaid.imp (fun hprepared => ?_) id
      by_contra hunprepared
      cases (hkeeps.unprepared (eq_false_of_ne_true hunprepared)).symm.trans hprepared
  | prepares _ hclaimed _ _ hlaid =>
    refine ⟨fun hc => ?_, fun _ => hlaid⟩
    cases hclaimed.symm.trans hc
  | claims _ herror ht =>
    rw [ht]
    exact ⟨fun _ => rfl, fun _ => h.laid (.inl (prepared_of_claimError herror).2.2.2)⟩
  | releases clean _ hclaimed ht =>
    obtain ⟨hfree, -, hprepared, hchannels, -⟩ := btRelease_eq hclaimed clean
    rw [ht]
    refine ⟨fun hc => ?_, fun hlaid => ?_⟩
    · cases hfree.symm.trans hc
    · rw [findChannel_of_owners (s := s) fun i => by rw [hchannels]]
      exact h.laid (.inr hclaimed)

/-! ### Errors are recorded -/

/-- The condition under which an OPEN is seen to be one: the count of OPENs
did not wrap when one is processed while the stream is lent. -/
def openCounted (s : Driver) : Op → Bool
  | .dispatch =>
    match s.phase with
    | .handling m =>
      !(m.channel = 4 ∧ m.type = Message.typeOpen ∧ s.btUsed) ||
        (1 ≤ s.btChannel.openCount ∧ s.btChannel.openCount < 2 ^ 32 - 1)
    | _ => true
  | _ => true

theorem btError_dispatched (hret : ret ≠ 0) (hchannel : m.channel = 4) :
    (s.dispatched m ret).btError ≠ 0 := by
  unfold dispatched
  rw [if_pos ⟨hret, hchannel⟩]
  exact btError_revoke hret

theorem btError_reopened (hused : s.btUsed = true) (hlaid : s.findChannel 4 = some btIndex)
    (hchannel : m.channel = 4) (htype : m.type = Message.typeOpen ∨ m.type = Message.typeClose)
    (hcounted : m.type = Message.typeOpen → 1 ≤ s.btChannel.openCount ∧
      s.btChannel.openCount < 2 ^ 32 - 1) :
    (s.dispatch m).btError ≠ 0 := by
  have hbt : s.btChannel = s.channels btIndex := by
    rw [btChannel, hlaid]
    rfl
  unfold dispatch
  rw [hchannel, hlaid]
  dsimp only
  rcases htype with htype | htype
  · obtain ⟨hpos, hlt⟩ := hcounted htype
    rw [hbt] at hpos hlt
    rw [if_pos htype]
    split
    · exact btError_dispatched (by decide) hchannel
    · rw [Word.add_eq (by omega), if_pos (by omega), if_pos ⟨rfl, hused⟩]
      exact btError_revoke (by decide)
  · rw [if_neg (by rw [htype]; decide), if_pos htype]
    split
    · exact btError_dispatched (by decide) hchannel
    · rw [if_pos ⟨rfl, hused⟩]
      exact btError_revoke (by decide)

theorem btError_replied (hret : ret ≠ 0) (hchannel : m.channel = 4) :
    (s.replied m ret).btError ≠ 0 := by
  unfold replied
  split
  · exact btError_dispatched hret hchannel
  · rw [if_pos hret]
    exact btError_dispatched hret hchannel

/-- **What revokes a token leaves an error.** -/
theorem btError_of_revokes (h : Inv s) (hclaimed : s.btClaimed = true) (hs : s.step op = some t)
    (hcounted : s.openCounted op = true) (hrevokes : Revokes ⟨s, op, t⟩)
    (hprep : ¬Prepares ⟨s, op, t⟩) : t.btError ≠ 0 := by
  rcases hrevokes with ⟨hop, m, hphase, hchannel, htype⟩ | ⟨m, hchannel, hrejects⟩ | hstops
  · dsimp only at hop hphase
    subst hop
    have ht : t = s.dispatch m := by
      unfold step at hs
      rw [hphase] at hs
      exact (Option.some.inj hs).symm
    rw [ht]
    refine btError_reopened (h.used hclaimed) (h.laid (.inr hclaimed)) hchannel htype fun hopen => ?_
    unfold openCounted at hcounted
    rw [hphase] at hcounted
    simpa [hchannel, hopen, h.used hclaimed] using hcounted
  · rcases hrejects with ⟨hop, hphase, ret, hret, ht⟩ | ⟨hop, ⟨reply, hphase⟩, hfails⟩ |
      ⟨slot, ret, hop, hphase, hneg⟩
    · dsimp only at ht
      rw [ht]
      exact btError_dispatched hret hchannel
    · dsimp only at hop hphase hfails
      subst hop
      have ht : t = s.reserve reply (.dispatch m) := by
        unfold step at hs
        rw [hphase] at hs
        exact (Option.some.inj hs).symm
      rw [ht]
      unfold reserve
      split
      case isTrue hfault => exact btError_replied hfault hchannel
      case isFalse hfault =>
        rw [hfails.resolve_left hfault]
        exact btError_replied (by decide) hchannel
    · dsimp only at hop hphase
      subst hop
      have ht : t = s.submitted slot (.dispatch m) ret := by
        unfold step at hs
        rw [hphase] at hs
        exact (Option.some.inj hs).symm
      rw [ht]
      unfold submitted
      rw [if_pos hneg]
      exact btError_replied (Int.ne_of_lt hneg) hchannel
  · rcases hstops with hop | ⟨hprepared, hunprepared⟩
    · dsimp only at hop
      subst hop
      have ht : t = s.stop := by
        cases hphase : s.phase with
        | free => simpa [step, hphase] using hs.symm
        | _ => simp [step, hphase] at hs
      rw [ht]
      exact btError_revoke (by decide)
    · dsimp only at hprepared hunprepared
      cases stepped_of_step hs with
      | keeps hkeeps _ _ _ =>
        refine (hkeeps.stopped hprepared).resolve_left fun hstill => ?_
        cases hunprepared.symm.trans hstill
      | prepares hprepares => exact absurd hprepares hprep
      | claims _ _ ht =>
        rw [ht] at hunprepared
        cases hunprepared.symm.trans hprepared
      | releases clean _ hclaimed ht =>
        rw [ht, (btRelease_eq hclaimed clean).2.2.1] at hunprepared
        cases hunprepared.symm.trans hprepared

/-! ### While a claim stands -/

/-- A claim that ended nowhere in these steps. -/
def Unended (l : List Event) : Prop :=
  ∀ y ∈ l, ∀ session, ¬Grants y session ∧ ¬Releases y session ∧ ¬Prepares y

/-- The run since the claim of the token in use. -/
structure Since (s : Driver) (l a b : List Event) (grant : Event) : Prop where
  split : l = a ++ grant :: b
  grants : Grants grant s.btSession
  unended : Unended b
  unrevoked : s.btError = 0 → ∀ y ∈ b, ¬Revokes y
  faultless : s.fault = 0 → ∀ y ∈ b, ¬RaisesFault y

/-- While a claim stands, the run has its grant and nothing ended it. -/
def Live (l : List Event) (s : Driver) : Prop :=
  s.btClaimed = true → ∃ a grant b, Since s l a b grant

theorem since_step {a b : List Event} {grant : Event} (h : Inv s) (hsince : Since s l a b grant)
    (hclaimed : s.btClaimed = true) (hs : s.step op = some t) (hcounted : s.openCounted op = true)
    (hkeeps : Keeps s t) (hgrants : ¬Grants ⟨s, op, t⟩ s.btSession)
    (hreleases : ¬Releases ⟨s, op, t⟩ s.btSession) (hprepares : ¬Prepares ⟨s, op, t⟩) :
    Since t (l ++ [⟨s, op, t⟩]) a (b ++ [⟨s, op, t⟩]) grant := by
  constructor
  · rw [hsince.split, List.append_assoc, List.cons_append]
  · rw [hkeeps.session]
    exact hsince.grants
  · intro y hy session
    rcases List.mem_append.mp hy with hold | hnew
    · exact hsince.unended y hold session
    · obtain rfl := List.mem_singleton.mp hnew
      refine ⟨fun hg => ?_, fun hr => ?_, hprepares⟩
      · have hsession : s.btSession = session := hg.2.2
        rw [← hsession] at hg
        exact hgrants hg
      · have hsession : s.btSession = session := hr.2.1
        rw [← hsession] at hr
        exact hreleases hr
  · intro herror y hy
    have hnone : s.btError = 0 := by
      by_contra hset
      exact hkeeps.error hset herror
    rcases List.mem_append.mp hy with hold | hnew
    · exact hsince.unrevoked hnone y hold
    · obtain rfl := List.mem_singleton.mp hnew
      exact fun hrevokes => btError_of_revokes h hclaimed hs hcounted hrevokes hprepares herror
  · intro hfault y hy
    have hnone : s.fault = 0 := by
      by_contra hset
      exact hkeeps.fault hset hfault
    rcases List.mem_append.mp hy with hold | hnew
    · exact hsince.faultless hnone y hold
    · obtain rfl := List.mem_singleton.mp hnew
      exact fun hraises => hraises.2 hfault

/-- **The claim in a run**: `openCounted` is the condition of the steps. -/
theorem live_of_trace (h : machine.Trace l s)
    (hcounted : ∀ x ∈ l, x.before.openCounted x.op = true) :
    Inv s ∧ Live l s := by
  refine Machine.Trace.invariant (P := fun l s => Inv s ∧ Live l s)
    (K := fun x => x.before.openCounted x.op = true) ?_ ?_ h hcounted
  · rintro s rfl
    exact ⟨inv_start, nofun⟩
  · rintro l s op t ⟨hinv, hlive⟩ hs hop
    refine ⟨inv_step hinv hs, fun hclaimed => ?_⟩
    cases stepped_of_step hs with
    | keeps hkeeps hgrants hreleases hprepares =>
      have hbefore : s.btClaimed = true := hkeeps.claimed.symm.trans hclaimed
      obtain ⟨a, grant, b, hsince⟩ := hlive hbefore
      exact ⟨a, grant, _, since_step hinv hsince hbefore hs hop hkeeps hgrants hreleases hprepares⟩
    | prepares _ hfree => cases hfree.symm.trans hclaimed
    | claims hclaim herror ht =>
      have hsession : s.btSession = t.btSession := by rw [ht]
      have hnone : ∀ {y : Event}, y ∉ ([] : List Event) := List.not_mem_nil
      exact ⟨l, ⟨s, op, t⟩, [], ⟨rfl, ⟨hclaim, herror, hsession⟩, fun y hy => absurd hy hnone,
        fun _ y hy => absurd hy hnone, fun _ y hy => absurd hy hnone⟩⟩
    | releases clean _ hbefore ht =>
      rw [ht, (btRelease_eq hbefore clean).1] at hclaimed
      cases hclaimed

/-! ### The checked call -/

/-- No transfer is about to copy. -/
def Uncopied (s : Driver) : Prop := ∀ session write bytes, s.phase ≠ .copying session write bytes

theorem uncopied_dispatched : Uncopied (s.dispatched m ret) := by
  unfold dispatched
  split
  · exact fun _ _ _ => nofun
  · exact fun _ _ _ => nofun

theorem uncopied_dispatch : Uncopied (s.dispatch m) := by
  unfold dispatch
  split
  · exact uncopied_dispatched
  dsimp only
  split_ifs
  all_goals first | exact uncopied_dispatched | exact fun _ _ _ => nofun

theorem uncopied_replied : Uncopied (s.replied m ret) := by
  unfold replied
  split
  · exact uncopied_dispatched
  split_ifs
  all_goals exact uncopied_dispatched

theorem uncopied_openNext (channels : List ℕ) : Uncopied (s.openNext channels) := by
  cases channels with
  | nil => exact fun _ _ _ => nofun
  | cons channel rest => exact fun _ _ _ => nofun

theorem uncopied_sent (caller : Caller) : Uncopied (s.sent ret caller) := by
  cases caller with
  | prepare rest =>
    show Uncopied (if ret ≠ 0 then s.stop else s.openNext rest)
    split
    · exact fun _ _ _ => nofun
    · exact uncopied_openNext rest
  | dispatch m => exact uncopied_replied
  | transfer =>
    show Uncopied (if ret < 0 ∧ ret ≠ -eAgain then { s with phase := .free }.revoke ret
      else { s with phase := .free })
    split
    · exact fun _ _ _ => nofun
    · exact fun _ _ _ => nofun

theorem uncopied_reserve {message : Message} : Uncopied (s.reserve message caller) := by
  unfold reserve
  split
  · exact uncopied_sent caller
  split
  · exact uncopied_sent caller
  · exact fun _ _ _ => nofun

theorem uncopied_submitted : Uncopied (s.submitted slot caller ret) := by
  unfold submitted
  split
  · exact uncopied_sent caller
  · exact uncopied_sent caller

theorem uncopied_prepare (hfree : s.phase = .free) {request : ℤ} :
    Uncopied (s.prepare request) := by
  have hself : Uncopied s := fun _ _ _ => by rw [hfree]; exact nofun
  unfold prepare
  split
  · exact hself
  split
  · exact hself
  dsimp only
  split
  · exact fun _ _ _ => nofun
  · exact uncopied_openNext _

theorem uncopied_copy {reread : ℕ} : Uncopied (s.copy write bytes reread) := by
  unfold copy
  dsimp only
  split_ifs
  all_goals exact fun _ _ _ => nofun

theorem phase_of_interrupts (hs : s.step op = some t) (hop : op.interrupts = true) :
    t.phase = s.phase ∧ t.prepared = s.prepared := by
  cases op with
  | receive m =>
    rw [← Option.some.inj hs]
    show (s.receive m).phase = s.phase ∧ (s.receive m).prepared = s.prepared
    unfold receive
    split_ifs
    all_goals exact ⟨rfl, rfl⟩
  | complete slot status =>
    obtain ⟨-, hs⟩ := Option.ite_none_right_eq_some.mp hs
    rw [← Option.some.inj hs]
    unfold complete
    dsimp only
    split_ifs
    all_goals exact ⟨rfl, rfl⟩
  | timeout slot =>
    rw [← Option.some.inj hs]
    show (s.timeout slot).phase = s.phase ∧ (s.timeout slot).prepared = s.prepared
    unfold timeout
    split_ifs
    all_goals exact ⟨rfl, rfl⟩
  | peer rings =>
    rw [← Option.some.inj hs]
    exact ⟨rfl, rfl⟩
  | _ => cases hop

theorem copying_of_step (hs : s.step op = some t) (ht : t.phase = .copying session write bytes) :
    (op = .check session write bytes ∧ s.stateError session = 0) ∨
      (op.interrupts = true ∧ s.phase = .copying session write bytes) := by
  by_cases hop : op.interrupts = true
  · exact .inr ⟨hop, (phase_of_interrupts hs hop).1.symm.trans ht⟩
  have hun : ∀ {u : Driver}, Uncopied u → u.phase ≠ .copying session write bytes :=
    fun h => h session write bytes
  have hstays : ∀ {u : Driver}, s.phase = .free → u.phase = s.phase →
      u.phase ≠ .copying session write bytes := by
    intro u hfree hsame
    rw [hsame, hfree]
    exact nofun
  unfold step at hs
  split at hs
  case h_5 =>
    split at hs
    case h_1 hfree _ _ _ _ =>
      cases hs
      exact absurd ht (hun (uncopied_prepare hfree))
    case h_2 hfree _ _ _ _ =>
      cases hs
      refine absurd ht (hstays hfree ?_)
      unfold release
      split_ifs
      all_goals rfl
    case h_3 =>
      cases hs
      cases ht
    case h_4 =>
      unfold work at hs
      split at hs
      · cases hs
        cases ht
      · cases hs
    case h_5 =>
      cases hs
      exact absurd ht (hun uncopied_dispatch)
    case h_6 =>
      cases hs
      exact absurd ht (hun uncopied_reserve)
    case h_7 =>
      cases hs
      exact absurd ht (hun uncopied_submitted)
    case h_8 hfree _ _ _ _ =>
      cases hs
      refine absurd ht (hstays hfree ?_)
      unfold claim
      split_ifs
      all_goals rfl
    case h_9 hfree _ _ _ _ =>
      cases hs
      refine absurd ht (hstays hfree ?_)
      unfold cancel
      split_ifs
      all_goals rfl
    case h_10 hfree _ _ _ _ =>
      cases hs
      refine absurd ht (hstays hfree ?_)
      unfold btRelease
      split_ifs
      all_goals rfl
    case h_11 session' write' bytes' hfree _ _ _ _ =>
      cases hs
      unfold check at ht
      split at ht
      case isTrue hpass =>
        injection ht with hsession hwrite hbytes
        rw [hsession] at hpass
        exact .inl ⟨by rw [hsession, hwrite, hbytes], hpass⟩
      case isFalse => exact absurd ht (hstays hfree rfl)
    case h_12 =>
      cases hs
      exact absurd ht (hun uncopied_copy)
    case h_13 => cases hs
  all_goals exact absurd rfl hop

/-- The run since the check of the transfer that is about to copy. -/
def Checked (l : List Event) (s : Driver) : Prop :=
  ∀ session write bytes, s.phase = .copying session write bytes →
    ∃ a check c, l = a ++ check :: c ∧ check.op = .check session write bytes ∧
      check.before.stateError session = 0 ∧ ∀ y ∈ c, y.op.interrupts = true

theorem checked_of_trace (h : machine.Trace l s) : Checked l s := by
  induction h with
  | start hstart =>
    intro session write bytes hphase
    rw [hstart] at hphase
    cases hphase
  | @step l s t op htrace hs ih =>
    intro session write bytes hphase
    rcases copying_of_step hs hphase with ⟨hop, hpass⟩ | ⟨hop, hbefore⟩
    · exact ⟨l, ⟨s, op, t⟩, [], rfl, hop, hpass, fun y hy => absurd hy List.not_mem_nil⟩
    · obtain ⟨a, check, c, hl, hcheck, hpass, hc⟩ := ih session write bytes hbefore
      refine ⟨a, check, c ++ [⟨s, op, t⟩], ?_, hcheck, hpass, ?_⟩
      · rw [hl, List.append_assoc, List.cons_append]
      · intro y hy
        rcases List.mem_append.mp hy with hold | hnew
        · exact hc y hold
        · rw [List.mem_singleton.mp hnew]
          exact hop

/-- The steps that may come between the check and the copy, and the check. -/
def Op.quiet : Op → Bool
  | .check _ _ _ => true
  | op => op.interrupts

theorem quiet_of_interrupts (h : op.interrupts = true) : op.quiet = true := by
  cases op with
  | check session write bytes => rfl
  | _ => exact h

theorem quiet_of_check {y : Event} (hs : y.before.step y.op = some y.after)
    (hop : y.op.quiet = true) :
    (∀ session, ¬Grants y session ∧ ¬Releases y session ∧ ¬Prepares y) ∧ ¬Revokes y := by
  have hnot : ∀ op : Op, op.quiet = false → y.op ≠ op := by
    intro op hlock heq
    rw [heq, hlock] at hop
    cases hop
  have hprepared : y.after.prepared = y.before.prepared := by
    cases hcase : y.op with
    | check session write bytes =>
      have hfree : y.after = y.before.check session write bytes := by
        rw [hcase] at hs
        cases hphase : y.before.phase with
        | free => simpa [step, hphase] using hs.symm
        | _ => simp [step, hphase] at hs
      rw [hfree]
      unfold check
      split_ifs
      all_goals rfl
    | receive m => exact (phase_of_interrupts hs (by rw [hcase]; rfl)).2
    | complete slot status => exact (phase_of_interrupts hs (by rw [hcase]; rfl)).2
    | timeout slot => exact (phase_of_interrupts hs (by rw [hcase]; rfl)).2
    | peer rings => exact (phase_of_interrupts hs (by rw [hcase]; rfl)).2
    | _ =>
      rw [hcase] at hop
      cases hop
  refine ⟨fun session => ⟨?_, ?_, ?_⟩, ?_⟩
  · exact fun hgrants => hnot .claim rfl hgrants.1
  · rintro ⟨⟨clean, hrelease⟩, -⟩
    exact hnot _ rfl hrelease
  · rintro ⟨⟨request, hprepare⟩, -⟩
    exact hnot _ rfl hprepare
  · rintro (⟨hdispatch, -⟩ | ⟨m, -, hrejects⟩ | hhalted | ⟨hbefore, hafter⟩)
    · exact hnot _ rfl hdispatch
    · rcases hrejects with ⟨hdispatch, -⟩ | ⟨hreserve, -⟩ | ⟨slot, ret, hsubmitted, -⟩
      · exact hnot _ rfl hdispatch
      · exact hnot _ rfl hreserve
      · exact hnot _ rfl hsubmitted
    · exact hnot _ rfl hhalted
    · rw [hprepared, hbefore] at hafter
      cases hafter

/-! ### Sessions -/

/-- A step that begins a session: its token is a new one. -/
def startsSession (s : Driver) : Op → Bool
  | .prepare _ => !s.prepared
  | .release session _ => s.btSession = session ∧ s.btClaimed
  | _ => false

/-- The sessions begun. -/
def sessions (l : List Event) : ℕ := l.countP fun x => x.before.startsSession x.op

theorem startsSession_of_releases {x : Event} (h : Releases x session) :
    x.before.startsSession x.op = true := by
  obtain ⟨⟨clean, hop⟩, hsession, hclaimed⟩ := h
  rw [hop]
  exact decide_eq_true ⟨hsession, hclaimed⟩

theorem btSession_of_trace (h : machine.Trace l s) : s.btSession = sessions l % 2 ^ 32 := by
  induction h with
  | start hstart =>
    rw [hstart]
    rfl
  | @step l s t op htrace hs ih =>
    rw [sessions, List.countP_append, List.countP_singleton]
    cases stepped_of_step hs with
    | keeps hkeeps hgrants hreleases hprepares =>
      have hnone : ¬s.startsSession op = true := by
        intro hstarts
        unfold startsSession at hstarts
        split at hstarts
        · exact hprepares ⟨⟨_, rfl⟩, by simpa using hstarts⟩
        case h_2 session clean =>
          obtain ⟨hsession, hclaimed⟩ := of_decide_eq_true hstarts
          exact hreleases ⟨⟨clean, by rw [hsession]⟩, rfl, hclaimed⟩
        · cases hstarts
      rw [hkeeps.session, if_neg hnone]
      exact ih
    | prepares hprepares _ _ hsession _ =>
      obtain ⟨⟨request, hop⟩, hprepared⟩ := hprepares
      dsimp only at hop hprepared
      rw [hsession, ih, hop, Word.add_mod, if_pos (by rw [startsSession, hprepared]; rfl)]
      rfl
    | claims hop _ ht =>
      rw [ht, hop, if_neg (by exact Bool.false_ne_true)]
      exact ih
    | releases clean hop hclaimed ht =>
      have hstarts : s.startsSession (.release s.btSession clean) = true :=
        decide_eq_true ⟨rfl, hclaimed⟩
      rw [ht, (btRelease_eq hclaimed clean).2.1, hop]
      dsimp only
      rw [if_pos hstarts, ih, Word.add_mod]
      rfl

theorem not_releases_of_trace (h : machine.Trace l s) (hlt : sessions l < 2 ^ 32) :
    ∀ y ∈ l, ¬Releases y s.btSession := by
  intro y hy hreleases
  obtain ⟨a, b, rfl⟩ := List.append_of_mem hy
  obtain ⟨hbefore, -⟩ := h.split rfl
  have hnow := btSession_of_trace h
  have hthen := btSession_of_trace hbefore
  have hsum : sessions (a ++ y :: b) = sessions a + sessions b + 1 := by
    rw [sessions, List.countP_append, List.countP_cons_of_pos
      (p := fun x : Event => x.before.startsSession x.op) (startsSession_of_releases hreleases)]
    rfl
  rw [hreleases.2.1, Nat.mod_eq_of_lt (by omega)] at hthen
  rw [Nat.mod_eq_of_lt hlt] at hnow
  omega

/-! ### The second claim -/

theorem btUsed_of_grants {x : Event} (hs : x.before.step x.op = some x.after)
    (h : Grants x session) :
    x.before.btUsed = false ∧ x.after.btUsed = true := by
  obtain ⟨hop, herror, -⟩ := h
  refine ⟨(prepared_of_claimError herror).1, ?_⟩
  cases stepped_of_step hs with
  | keeps _ hgrants _ _ => exact absurd ⟨hop, herror, rfl⟩ hgrants
  | prepares hprepares =>
    obtain ⟨⟨request, hprepare⟩, -⟩ := hprepares
    cases hop.symm.trans hprepare
  | claims _ _ ht => rw [ht]
  | releases clean hrelease => cases hop.symm.trans hrelease

theorem idle_eq_zero {r : Rings} {owner : Owner} (h : r.idle owner = 0) :
    Word.sub 32 r.txWrite r.txRead = 0 ∧ Word.sub 32 r.rxWrite r.rxRead = 0 := by
  unfold Rings.idle at h
  split at h
  · cases h
  dsimp only at h
  split at h
  · cases h
  split at h
  · cases h
  case isFalse hidle =>
    rw [not_or, not_not, not_not] at hidle
    exact hidle

theorem freed_of_step (hs : s.step op = some t) (hused : s.btUsed = true)
    (hfree : t.btUsed = false) :
    FreesCleanly ⟨s, op, t⟩ ∨ Prepares ⟨s, op, t⟩ := by
  cases stepped_of_step hs with
  | keeps hkeeps =>
    rw [hkeeps.used, hused] at hfree
    cases hfree
  | prepares hprepares => exact .inr hprepares
  | claims _ _ ht =>
    rw [ht] at hfree
    cases hfree
  | releases clean hop hclaimed ht =>
    rw [ht, (btRelease_eq hclaimed clean).2.2.2.2] at hfree
    split at hfree
    case isFalse =>
      rw [hused] at hfree
      cases hfree
    case isTrue herror =>
      unfold releaseError at herror
      split at herror
      case isFalse => cases herror
      case isTrue hall =>
        obtain ⟨rfl, -, hcontrol, -⟩ := hall
        exact .inl ⟨⟨_, hop, rfl⟩, hclaimed, hcontrol, idle_eq_zero herror⟩

/-- **A second claim** comes after a clean release or a new `prepare`. -/
theorem freed_of_trace (h : machine.Trace l s) :
    ∀ pre x post, l = pre ++ x :: post → ∀ session, Grants x session →
      (∃ y ∈ post, FreesCleanly y ∨ Prepares y) ∨ s.btUsed = true := by
  intro pre x post hl session hgrants
  refine Machine.Trace.response (R := fun x session => Grants x session)
    (H := fun y _ => FreesCleanly y ∨ Prepares y) (W := fun s _ => s.btUsed = true) ?_ ?_ h
    pre x post session hl hgrants
  · intro s op t session hs hg
    exact (btUsed_of_grants (x := ⟨s, op, t⟩) hs hg).2
  · intro l s op t session _ hs hused
    by_cases hstill : t.btUsed = true
    · exact .inr hstill
    · exact .inl (freed_of_step hs hused (eq_false_of_ne_true hstill))

end Driver

end Sipc
