/-
The mailbox reads a message from its slot until it is done with it.

A slot that the mailbox may read is pending (`Held`), and the driver writes a
message to a slot that is not pending only; so no step changes a message that
the mailbox may still read (`message_of_step`).  A time-out keeps the slot.
-/
import Fplinux.Sipc.Transport

namespace Sipc

open Function (update_of_ne update_self)

namespace Driver

variable {s t u : Driver}

/-- What the mailbox may read is pending, and with no channel it reads
nothing. -/
structure Held (s : Driver) : Prop where
  pending : ∀ i, s.held i = true → (s.tx i).pending = true
  bound : s.mbox = false → ∀ i, s.held i = false
  prepared : s.mbox = true → s.prepared = true

theorem held_start : Held {} where
  pending _ h := by cases h
  bound _ _ := rfl
  prepared h := by cases h

/-- The slots, and what the mailbox may read of them. -/
structure SlotsCore where
  tx : TxSlot → Tx
  held : TxSlot → Bool
  mbox : Bool
  prepared : Bool

def slotsCore (s : Driver) : SlotsCore := ⟨s.tx, s.held, s.mbox, s.prepared⟩

/-- The messages stay where they are. -/
structure Spares (s t : Driver) : Prop where
  message : ∀ i, (t.tx i).message = (s.tx i).message
  held : Held s → Held t

theorem Spares.trans (h : Spares s t) (h' : Spares t u) : Spares s u where
  message i := (h'.message i).trans (h.message i)
  held hs := h'.held (h.held hs)

theorem spares_of_core (h : t.slotsCore = s.slotsCore) : Spares s t := by
  have htx : t.tx = s.tx := congrArg SlotsCore.tx h
  have hheld : t.held = s.held := congrArg SlotsCore.held h
  have hmbox : t.mbox = s.mbox := congrArg SlotsCore.mbox h
  have hprepared : t.prepared = s.prepared := congrArg SlotsCore.prepared h
  refine ⟨fun i => by rw [htx], fun hs => ⟨?_, ?_, ?_⟩⟩
  · rw [htx, hheld]
    exact hs.pending
  · rw [hheld, hmbox]
    exact hs.bound
  · rw [hmbox, hprepared]
    exact hs.prepared

@[simp] theorem slotsCore_revoke (error : ℤ) : (s.revoke error).slotsCore = s.slotsCore := rfl

@[simp] theorem slotsCore_setFault (error : ℤ) : (s.setFault error).slotsCore = s.slotsCore := rfl

@[simp] theorem slotsCore_setChannel (i : OwnerIndex) (ch : Channel) :
    (s.setChannel i ch).slotsCore = s.slotsCore := rfl

@[simp] theorem slotsCore_recoverOwner (owner : Owner) :
    (s.recoverOwner owner).slotsCore = s.slotsCore := by
  unfold recoverOwner
  split
  · rfl
  · rfl

@[simp] theorem slotsCore_dispatched (m : Message) (ret : ℤ) :
    (s.dispatched m ret).slotsCore = s.slotsCore := by
  unfold dispatched
  split
  · rfl
  · rfl

@[simp] theorem slotsCore_replied (m : Message) (ret : ℤ) :
    (s.replied m ret).slotsCore = s.slotsCore := by
  unfold replied
  split
  · simp
  split_ifs
  all_goals simp

@[simp] theorem slotsCore_openNext (channels : List ℕ) :
    (s.openNext channels).slotsCore = s.slotsCore := by
  cases channels with
  | nil => rfl
  | cons channel rest => rfl

theorem slotsCore_dispatch (m : Message) : (s.dispatch m).slotsCore = s.slotsCore := by
  unfold dispatch
  split
  · simp
  dsimp only
  split_ifs
  all_goals first | simp | rfl | exact slotsCore_recoverOwner _

theorem slotsCore_copy (write : Bool) (bytes reread : ℕ) :
    (s.copy write bytes reread).slotsCore = s.slotsCore := by
  unfold copy
  dsimp only
  split_ifs
  all_goals rfl

theorem spares_stop : Spares s s.stop where
  message _ := rfl
  held hs := by
    have hnone : ∀ i, (s.held i && !s.mbox) = false := by
      intro i
      cases hmbox : s.mbox with
      | true => exact Bool.and_false _
      | false => rw [hs.bound hmbox i, Bool.false_and]
    refine ⟨fun i hi => ?_, fun _ => hnone, nofun⟩
    cases (hnone i).symm.trans hi

theorem spares_sent {ret : ℤ} (caller : Caller) : Spares s (s.sent ret caller) := by
  cases caller with
  | prepare rest =>
    show Spares s (if ret ≠ 0 then s.stop else s.openNext rest)
    split
    · exact spares_stop
    · exact spares_of_core (slotsCore_openNext rest)
  | dispatch m => exact spares_of_core (slotsCore_replied m ret)
  | transfer =>
    show Spares s (if ret < 0 ∧ ret ≠ -eAgain then { s with phase := .free }.revoke ret
      else { s with phase := .free })
    split
    · exact spares_of_core rfl
    · exact spares_of_core rfl

theorem spares_done (slot : TxSlot) : Spares s { s with
    tx := Function.update s.tx slot { s.tx slot with pending := false }
    held := Function.update s.held slot false } where
  message i := by
    dsimp only
    by_cases hi : i = slot
    · rw [hi, update_self]
    · rw [update_of_ne hi]
  held hs := by
    refine ⟨fun i hi => ?_, fun hnone i => ?_, hs.prepared⟩
    · dsimp only at hi ⊢
      by_cases heq : i = slot
      · rw [heq, update_self] at hi
        cases hi
      · rw [update_of_ne heq] at hi ⊢
        exact hs.pending i hi
    · dsimp only
      by_cases heq : i = slot
      · rw [heq, update_self]
      · rw [update_of_ne heq]
        exact hs.bound hnone i

theorem spares_complete {slot : TxSlot} {status : ℤ} : Spares s (s.complete slot status) := by
  unfold complete
  dsimp only
  split
  · exact (spares_done slot).trans (spares_of_core rfl)
  · exact spares_done slot

theorem spares_submitted {slot : TxSlot} {caller : Caller} {ret : ℤ} :
    Spares s (s.submitted slot caller ret) := by
  unfold submitted
  split
  · refine Spares.trans ?_ (spares_sent caller)
    exact Spares.trans (spares_done slot) (spares_of_core rfl)
  · exact spares_sent caller

/-- **A slot is taken** only when it is not pending. -/
theorem reserve_message (h : Held s) (message : Message) (caller : Caller) :
    Held (s.reserve message caller) ∧ ∀ i, s.held i = true →
      ((s.reserve message caller).tx i).message = (s.tx i).message := by
  unfold reserve
  split
  · exact ⟨(spares_sent caller).held h, fun i _ => (spares_sent caller).message i⟩
  split
  · exact ⟨(spares_sent caller).held h, fun i _ => (spares_sent caller).message i⟩
  case h_2 slot hslot =>
    have hfree : (s.tx slot).pending = false := by
      simpa using List.find?_some (p := fun i => !(s.tx i).pending) hslot
    refine ⟨⟨fun i hi => ?_, fun hnone i => ?_, h.prepared⟩, fun i hi => ?_⟩
    · dsimp only at hi ⊢
      by_cases heq : i = slot
      · rw [heq, update_self]
      · rw [update_of_ne heq] at hi ⊢
        exact h.pending i hi
    · dsimp only at hnone ⊢
      by_cases heq : i = slot
      · rw [heq, update_self]
        exact hnone
      · rw [update_of_ne heq]
        exact h.bound hnone i
    · dsimp only
      have hne : i ≠ slot := by
        rintro rfl
        cases hfree.symm.trans (h.pending i hi)
      rw [update_of_ne hne]

theorem prepare_message (h : Held s) (request : ℤ) :
    Held (s.prepare request) ∧ ∀ i, s.held i = true →
      ((s.prepare request).tx i).message = (s.tx i).message := by
  unfold prepare
  split
  case isTrue => exact ⟨h, fun _ _ => rfl⟩
  case isFalse hunprepared =>
    have hmbox : s.mbox = false := by
      by_contra hbound
      exact hunprepared (h.prepared (eq_true_of_ne_false hbound))
    have hnone := h.bound hmbox
    split
    · exact ⟨h, fun _ _ => rfl⟩
    dsimp only
    refine ⟨?_, fun i hi => ?_⟩
    · split
      · refine spares_stop.held ⟨fun i hi => ?_, fun _ => hnone, fun hm => ?_⟩
        · cases (hnone i).symm.trans hi
        · cases hmbox.symm.trans hm
      · refine (spares_of_core (slotsCore_openNext _)).held ⟨fun i hi => ?_, fun _ => hnone, fun _ => rfl⟩
        cases (hnone i).symm.trans hi
    · cases (hnone i).symm.trans hi

theorem Spares.kept (h : Held s) (hspares : Spares s t) :
    Held t ∧ ∀ i, s.held i = true → (t.tx i).message = (s.tx i).message :=
  ⟨hspares.held h, fun i _ => hspares.message i⟩

/-- **No step changes a message that the mailbox may still read.** -/
theorem message_of_step (h : Held s) {op : Op} (hs : s.step op = some t) :
    Held t ∧ ∀ i, s.held i = true → (t.tx i).message = (s.tx i).message := by
  unfold step at hs
  split at hs
  case h_1 m =>
    cases hs
    refine Spares.kept h (spares_of_core ?_)
    unfold receive
    split_ifs
    all_goals rfl
  case h_2 =>
    obtain ⟨-, hs⟩ := Option.ite_none_right_eq_some.mp hs
    cases hs
    exact spares_complete.kept h
  case h_3 =>
    cases hs
    refine Spares.kept h (spares_of_core ?_)
    unfold timeout
    split_ifs
    all_goals rfl
  case h_4 =>
    cases hs
    exact Spares.kept h (spares_of_core rfl)
  case h_5 =>
    split at hs
    case h_1 request _ _ _ _ _ =>
      cases hs
      exact prepare_message h request
    case h_2 =>
      cases hs
      refine Spares.kept h (spares_of_core ?_)
      unfold release
      split_ifs
      all_goals rfl
    case h_3 =>
      cases hs
      exact spares_stop.kept h
    case h_4 =>
      unfold work at hs
      split at hs
      · cases hs
        exact Spares.kept h (spares_of_core rfl)
      · cases hs
    case h_5 m _ _ _ _ _ =>
      cases hs
      exact Spares.kept h (spares_of_core (slotsCore_dispatch m))
    case h_6 message caller _ _ _ _ _ =>
      cases hs
      exact reserve_message h message caller
    case h_7 =>
      cases hs
      exact spares_submitted.kept h
    case h_8 =>
      cases hs
      refine Spares.kept h (spares_of_core ?_)
      unfold claim
      split_ifs
      all_goals rfl
    case h_9 =>
      cases hs
      refine Spares.kept h (spares_of_core ?_)
      unfold cancel
      split_ifs
      all_goals rfl
    case h_10 =>
      cases hs
      refine Spares.kept h (spares_of_core ?_)
      unfold btRelease
      split_ifs
      all_goals rfl
    case h_11 =>
      cases hs
      refine Spares.kept h (spares_of_core ?_)
      unfold check
      split_ifs
      all_goals rfl
    case h_12 write bytes reread _ _ _ _ _ =>
      cases hs
      exact Spares.kept h (spares_of_core (slotsCore_copy _ _ _))
    case h_13 => cases hs

theorem held_of_trace {l : List (Machine.Step Driver Op)} (h : machine.Trace l s) : Held s := by
  induction h with
  | start hstart =>
    rw [hstart]
    exact held_start
  | step _ hs ih => exact (message_of_step ih hs).1

end Driver

end Sipc
