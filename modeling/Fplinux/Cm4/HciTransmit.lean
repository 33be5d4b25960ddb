/-
What the Bluetooth transport writes to the ring (`cm4-hci.c`).

A frame waits in the queue or in the transmit buffer until its first byte is
written; from then on it belongs to the transport run, which ends before another
frame is begun or with the frame cut off.  `Sending` says this of every state
and `sending_step` that each step keeps it.

* `Ring.Framed`: the bytes of a run are whole frames, the last perhaps cut off;
* `sending_of_reachable`: the invariant, under any order of calls.
-/
import Mathlib.Data.List.Nodup
import Fplinux.Cm4.Hci

namespace Hci

open List (append_assoc append_nil flatMap_append flatMap_singleton mem_append mem_singleton
  nil_sublist)

variable {recv : Recv} {s s' : State} {r : Runtime} {skb : Skb}

/-! ### The transmit half of the record -/

/-- The fields that say what is sent. -/
structure TxPart where
  queue : List Skb
  skb : Option Skb
  data : List UInt8
  sent : ℕ
  running : Bool

def Runtime.txPart (r : Runtime) : TxPart := ⟨r.txQueue, r.txSkb, r.txData, r.txSent, r.running⟩

theorem txPart_observePmReply (r : Runtime) (frame : List UInt8) :
    (observePmReply r frame).txPart = r.txPart := by
  simp only [observePmReply]
  split_ifs
  · rfl
  · rfl
  · rfl

theorem txPart_receiveFrames (r : Runtime) (frames : List (List UInt8)) :
    (receiveFrames r frames).2.txPart = r.txPart := by
  induction frames generalizing r with
  | nil => rfl
  | cons frame frames ih => exact (ih _).trans (txPart_observePmReply r frame)

theorem txPart_receiveBytes (recv : Recv) (r : Runtime) (input : List UInt8) :
    (receiveBytes recv r input).runtime.txPart = r.txPart := by
  have hdiscard : (if r.rxSkb = [] then { r with rxDiscard := !r.opened } else r).txPart =
      r.txPart := by
    split_ifs
    · rfl
    · rfl
  simp only [receiveBytes]
  split
  · exact (txPart_receiveFrames _ _).trans hdiscard
  · exact (txPart_receiveFrames _ _).trans hdiscard

theorem txPart_runtimeOpen (r : Runtime) : (runtimeOpen r).2.txPart = r.txPart := by
  rw [runtimeOpen]
  split_ifs
  · rfl
  · rfl
  · rfl
  · rfl

theorem txPart_suspendPrepare (r : Runtime) (busy : Bool) :
    (suspendPrepare r busy).2.txPart = r.txPart := by
  rw [suspendPrepare]
  split_ifs
  · rfl
  · rfl
  · rfl

theorem txPart_suspendPrepared (r : Runtime) (ret : ℤ) :
    (suspendPrepared r ret).2.txPart = r.txPart := by
  simp only [suspendPrepared]
  split_ifs
  · rfl
  · rfl
  · rfl
  · rfl
  · rfl

theorem txPart_suspend (r : Runtime) (busy : Bool) : (suspend r busy).2.txPart = r.txPart := by
  rw [suspend]
  split_ifs
  · rfl
  · rfl
  · rfl
  · rfl
  · rfl

theorem txPart_resumeCore (r : Runtime) : (resumeCore r).txPart = r.txPart := by
  rw [resumeCore]
  split_ifs
  · rfl
  · rfl

theorem txPart_postSuspend (r : Runtime) (ret : ℤ) :
    (postSuspend r ret).2.txPart = r.txPart := by
  simp only [postSuspend]
  split_ifs
  · rfl
  · rfl
  · rfl

/-- **A frame is queued when it is accepted**, and only then. -/
theorem runtimeSend_cases (r : Runtime) (skb : Skb) :
    (runtimeSend r skb).1 ≠ 0 ∧ (runtimeSend r skb).2.txPart = r.txPart ∨
      (runtimeSend r skb).1 = 0 ∧
        (runtimeSend r skb).2 = { r with txQueue := r.txQueue ++ [skb] } ∧
        validateTxFrame skb.type (skb.data.take 4) skb.data.length = 0 ∧ r.running = true := by
  simp only [runtimeSend]
  split_ifs with hvalid herror hrunning hsuspended hsuspending
  · exact .inl ⟨hvalid, rfl⟩
  · exact .inl ⟨herror, rfl⟩
  · exact .inl ⟨show -eShutdown ≠ 0 by decide, rfl⟩
  · exact .inl ⟨show -eHostDown ≠ 0 by decide, rfl⟩
  · exact .inl ⟨show -eBusy ≠ 0 by decide, rfl⟩
  · refine .inr ⟨rfl, rfl, by simpa using hvalid, ?_⟩
    simp only [not_or, Bool.not_eq_false] at hrunning
    exact hrunning.1

/-! ### The invariant -/

/-- The bytes of a run are its frames in order, each whole, the last perhaps
cut off. -/
def Ring.Framed (ring : Ring) : Prop :=
  ring = {} ∨ ∃ whole last bytes, ring.frames = whole ++ [last] ∧ bytes ≠ [] ∧
    bytes <+: txBytes last ∧ ring.bytes = whole.flatMap txBytes ++ bytes

/-- What the ring has of the frames up to the one in the transmit buffer. -/
def Ring.Upto (ring : Ring) (r : Runtime) : Prop :=
  ∃ whole, ring.frames = whole ++ (if r.txSent = 0 then [] else r.txSkb.toList) ∧
    ring.bytes = whole.flatMap txBytes ++ r.txData.take r.txSent

/-- The transmit buffer holds the frame that is sent, not wholly written. -/
def Loaded (r : Runtime) : Prop :=
  match r.txSkb with
  | none => r.txData = [] ∧ r.txSent = 0
  | some skb => r.txData = txBytes skb ∧ r.txSent < r.txData.length

/-- The worker holds the lock. -/
def Holder.working : Holder → Bool
  | .free | .suspend => false
  | _ => true

/-- The worker is about to fail the transport. -/
def Holder.failing : Holder → Bool
  | .fault _ => true
  | _ => false

/-- The frames that wrote a byte, in the order of their first byte. -/
def History.begun (h : History) : List Skb := h.runs.flatMap (·.frames)

/-- **What is sent**, in every state. -/
structure Sending (s : State) : Prop where
  numbers : s.history.accepted.map (·.number) = List.range s.history.accepted.length
  valid : ∀ skb ∈ s.history.accepted,
    validateTxFrame skb.type (skb.data.take 4) skb.data.length = 0
  order : (s.history.begun ++ waiting s.runtime).Sublist s.history.accepted
  purged : ∀ skb ∈ s.history.purged,
    skb ∈ s.history.accepted ∧ skb ∉ s.history.begun ++ waiting s.runtime
  framed : ∀ ring ∈ s.history.runs, ring.Framed
  working : s.holder.working = true → s.runtime.running = true
  stopping : s.stopping ≠ 0 → s.runtime.running = false
  stopped : s.runtime.running = false → s.stopping = 0 → s.runtime.txSkb = none
  loaded : s.holder.failing = false → Loaded s.runtime
  upto : s.runtime.running = true → s.holder.failing = false → s.history.ring.Upto s.runtime

theorem txBytes_length (skb : Skb) : (txBytes skb).length = align8 (skb.data.length + 1) := by
  have hle : skb.data.length + 1 ≤ align8 (skb.data.length + 1) := by
    rw [align8]
    omega
  rw [txBytes, List.length_append, List.length_cons, List.length_replicate]
  omega

theorem dvd_txBytes_length (skb : Skb) : 8 ∣ (txBytes skb).length := by
  rw [txBytes_length]
  exact Nat.dvd_mul_left _ _

theorem txBytes_pos (skb : Skb) : 0 < (txBytes skb).length := by
  rw [txBytes_length, align8]
  omega

theorem le_of_checkFrame {headerSize limit payload length : ℕ}
    (h : checkFrame headerSize limit payload length = 0) : length ≤ limit := by
  rw [checkFrame] at h
  split_ifs at h with hsize
  · exact absurd h (by decide)
  · omega
  · exact absurd h (by decide)

/-- **An accepted frame fits `tx_data`**, which has `ALIGN(1028 + 1, 8)` bytes. -/
theorem Sending.txBytes_fits (h : Sending s) (hmem : skb ∈ s.history.accepted) :
    (txBytes skb).length ≤ align8 (1028 + 1) := by
  have hvalid := h.valid skb hmem
  have hlength : skb.data.length ≤ 1028 := by
    simp only [validateTxFrame] at hvalid
    split_ifs at hvalid
    · exact Nat.le_trans (le_of_checkFrame hvalid) (by decide)
    · exact le_of_checkFrame hvalid
    · exact Nat.le_trans (le_of_checkFrame hvalid) (by decide)
    · exact absurd hvalid (by decide)
  rw [txBytes_length, align8, align8]
  omega

theorem waiting_congr {r' : Runtime} (h : r'.txPart = r.txPart) : waiting r' = waiting r := by
  have hqueue : r'.txQueue = r.txQueue := congrArg TxPart.queue h
  have hskb : r'.txSkb = r.txSkb := congrArg TxPart.skb h
  have hsent : r'.txSent = r.txSent := congrArg TxPart.sent h
  rw [waiting, waiting, hqueue, hskb, hsent]

/-- **A step that sends nothing** keeps the invariant. -/
theorem Sending.congr (h : Sending s) (hpart : s'.runtime.txPart = s.runtime.txPart)
    (haccepted : s'.history.accepted = s.history.accepted)
    (hpurged : s'.history.purged = s.history.purged) (hpast : s'.history.past = s.history.past)
    (hring : s'.history.ring = s.history.ring) (hstopping : s'.stopping = s.stopping)
    (hworking : s'.holder.working = true → s.runtime.running = true)
    (hfailing : s'.holder.failing = false → s.holder.failing = false) : Sending s' := by
  have hruns : s'.history.runs = s.history.runs := by
    rw [History.runs, History.runs, hpast, hring]
  have hbegun : s'.history.begun = s.history.begun := by
    rw [History.begun, History.begun, hruns]
  have hwaiting := waiting_congr hpart
  have hskb : s'.runtime.txSkb = s.runtime.txSkb := congrArg TxPart.skb hpart
  have hdata : s'.runtime.txData = s.runtime.txData := congrArg TxPart.data hpart
  have hsent : s'.runtime.txSent = s.runtime.txSent := congrArg TxPart.sent hpart
  have hrunning : s'.runtime.running = s.runtime.running := congrArg TxPart.running hpart
  refine ⟨?_, ?_, ?_, ?_, ?_, ?_, ?_, ?_, ?_, ?_⟩
  · rw [haccepted]
    exact h.numbers
  · rw [haccepted]
    exact h.valid
  · rw [hbegun, hwaiting, haccepted]
    exact h.order
  · rw [hpurged, haccepted, hbegun, hwaiting]
    exact h.purged
  · rw [hruns]
    exact h.framed
  · rw [hrunning]
    exact hworking
  · rw [hrunning, hstopping]
    exact h.stopping
  · rw [hrunning, hskb, hstopping]
    exact h.stopped
  · intro hfail
    rw [Loaded, hskb, hdata, hsent]
    exact h.loaded (hfailing hfail)
  · rw [hrunning, hring]
    intro hrun hfail
    rw [Ring.Upto, hskb, hdata, hsent]
    exact h.upto hrun (hfailing hfail)

theorem Sending.number_lt (h : Sending s) (hmem : skb ∈ s.history.accepted) :
    skb.number < s.history.accepted.length := by
  have hnumber := List.mem_map_of_mem (f := Skb.number) hmem
  rw [h.numbers] at hnumber
  exact List.mem_range.mp hnumber

theorem Sending.nodup (h : Sending s) : (s.history.begun ++ waiting s.runtime).Nodup := by
  refine h.order.nodup (List.Nodup.of_map Skb.number ?_)
  rw [h.numbers]
  exact List.nodup_range

/-! ### The calls that send or drop frames -/

theorem Sending.runtimeSend (h : Sending s) (hnumber : skb.number = s.history.accepted.length)
    (hstep : act recv s (.runtimeSend skb) = some s') : Sending s' := by
  simp only [act, if_pos hnumber, Option.some.injEq] at hstep
  subst hstep
  rcases runtimeSend_cases s.runtime skb with ⟨hret, hpart⟩ | ⟨hret, hqueued, hvalid, hrunning⟩
  · exact h.congr hpart (if_neg hret) rfl rfl rfl rfl h.working id
  · have hwaiting : waiting (Hci.runtimeSend s.runtime skb).2 = waiting s.runtime ++ [skb] := by
      rw [hqueued, waiting, waiting, append_assoc]
    rw [hqueued] at hwaiting ⊢
    rw [if_pos hret]
    refine ⟨?_, ?_, ?_, ?_, h.framed, h.working, h.stopping, h.stopped, h.loaded, h.upto⟩
    · rw [List.map_append, h.numbers, List.length_append, List.map_singleton, hnumber,
        List.length_singleton, List.range_succ]
    · intro other hother
      rcases mem_append.mp hother with hold | hnew
      · exact h.valid other hold
      · rw [mem_singleton.mp hnew]
        exact hvalid
    · rw [hwaiting, ← append_assoc]
      exact h.order.append (List.Sublist.refl _)
    · intro other hother
      obtain ⟨haccepted, hnot⟩ := h.purged other hother
      refine ⟨List.mem_append_left _ haccepted, ?_⟩
      rw [hwaiting, ← append_assoc]
      intro hmem
      rcases mem_append.mp hmem with hold | hnew
      · exact hnot hold
      · -- the accepted frame has a number that no frame before it has
        have hlt := h.number_lt haccepted
        rw [mem_singleton.mp hnew, hnumber] at hlt
        exact absurd hlt (Nat.lt_irrefl _)

theorem Sending.drop (h : Sending s) (haccepted : s'.history.accepted = s.history.accepted)
    (hpast : s'.history.past = s.history.past) (hring : s'.history.ring = s.history.ring)
    (hsub : (waiting s'.runtime).Sublist (waiting s.runtime))
    (hpurged : ∀ skb ∈ s'.history.purged,
      skb ∈ s.history.purged ∨ skb ∈ waiting s.runtime ∧ skb ∉ waiting s'.runtime)
    (hworking : s'.holder.working = true → s'.runtime.running = true)
    (hstopping : s'.stopping ≠ 0 → s'.runtime.running = false)
    (hstopped : s'.runtime.running = false → s'.stopping = 0 → s'.runtime.txSkb = none)
    (hloaded : s'.holder.failing = false → Loaded s'.runtime)
    (hupto : s'.runtime.running = true → s'.holder.failing = false →
      s.history.ring.Upto s'.runtime) : Sending s' := by
  have hruns : s'.history.runs = s.history.runs := by
    rw [History.runs, History.runs, hpast, hring]
  have hbegun : s'.history.begun = s.history.begun := by
    rw [History.begun, History.begun, hruns]
  refine ⟨?_, ?_, ?_, ?_, ?_, hworking, hstopping, hstopped, hloaded, ?_⟩
  · rw [haccepted]
    exact h.numbers
  · rw [haccepted]
    exact h.valid
  · rw [hbegun, haccepted]
    exact ((List.Sublist.refl _).append hsub).trans h.order
  · rw [haccepted, hbegun]
    intro skb hmem
    rcases hpurged skb hmem with hold | ⟨hwaits, hgone⟩
    · obtain ⟨hmem, hnot⟩ := h.purged skb hold
      refine ⟨hmem, fun hin => hnot ?_⟩
      exact ((List.Sublist.refl _).append hsub).subset hin
    · refine ⟨h.order.subset (List.mem_append_right _ hwaits), fun hin => ?_⟩
      rcases mem_append.mp hin with hbegun | hstill
      · exact (List.nodup_append.mp h.nodup).2.2 skb hbegun skb hwaits rfl
      · exact hgone hstill
  · rw [hruns]
    exact h.framed
  · rw [hring]
    exact hupto

theorem txPart_flushTx (r : Runtime) (close : Bool) :
    (flushTx r close).txPart =
      if r.txSkb.isSome = true ∧ r.txSent = 0 then ⟨[], none, [], 0, r.running⟩
      else ⟨[], r.txSkb, r.txData, r.txSent, r.running⟩ := by
  cases close with
  | false =>
    simp only [flushTx, Bool.false_eq_true, if_false]
    rw [apply_ite Runtime.txPart]
    rfl
  | true =>
    simp only [flushTx, if_true]
    rw [apply_ite Runtime.txPart]
    rfl

theorem waiting_flushTx (r : Runtime) (close : Bool) : waiting (flushTx r close) = [] := by
  have hpart := txPart_flushTx r close
  by_cases hback : r.txSkb.isSome = true ∧ r.txSent = 0
  · rw [if_pos hback] at hpart
    exact waiting_congr (r := { r with txQueue := [], txSkb := none, txData := [], txSent := 0 })
      hpart
  · rw [if_neg hback] at hpart
    rw [waiting_congr (r := { r with txQueue := [] }) hpart, waiting]
    split_ifs with hsent
    · have hnone : r.txSkb = none :=
        Option.not_isSome_iff_eq_none.mp fun hsome => hback ⟨hsome, hsent⟩
      show r.txSkb.toList ++ [] = []
      rw [hnone]
      rfl
    · rfl

theorem loaded_flushTx (close : Bool) (h : Loaded r) : Loaded (flushTx r close) := by
  have hpart := txPart_flushTx r close
  have hskb := congrArg TxPart.skb hpart
  have hdata := congrArg TxPart.data hpart
  have hsent := congrArg TxPart.sent hpart
  simp only [Runtime.txPart] at hskb hdata hsent
  rw [Loaded, hskb, hdata, hsent]
  split_ifs
  · exact ⟨rfl, rfl⟩
  · exact h

variable {ring : Ring} {received round : ℕ}

theorem Ring.Upto.flushTx (close : Bool) (h : ring.Upto r) : ring.Upto (flushTx r close) := by
  obtain ⟨whole, hframes, hbytes⟩ := h
  have hpart := txPart_flushTx r close
  have hskb := congrArg TxPart.skb hpart
  have hdata := congrArg TxPart.data hpart
  have hsent := congrArg TxPart.sent hpart
  simp only [Runtime.txPart] at hskb hdata hsent
  by_cases hback : r.txSkb.isSome = true ∧ r.txSent = 0
  · rw [if_pos hback] at hskb hdata hsent
    rw [if_pos hback.2] at hframes
    refine ⟨whole, by rw [hframes, hsent]; rfl, ?_⟩
    rw [hbytes, hback.2, hdata, hsent]
    rfl
  · rw [if_neg hback] at hskb hdata hsent
    refine ⟨whole, ?_, ?_⟩
    · rw [hframes, hskb, hsent]
    · rw [hbytes, hdata, hsent]

/-- **A flush or a close takes back what has written no byte**, and no other
frame. -/
theorem Sending.flushTx (h : Sending s) (close : Bool) (hfree : s.holder = .free) :
    Sending { s with
      runtime := flushTx s.runtime close
      history := { s.history with purged := s.history.purged ++ waiting s.runtime } } := by
  have hwaits := waiting_flushTx s.runtime close
  have hpart := txPart_flushTx s.runtime close
  have hrunning : (Hci.flushTx s.runtime close).running = s.runtime.running := by
    have hrun := congrArg TxPart.running hpart
    split_ifs at hrun
    · exact hrun
    · exact hrun
  refine h.drop rfl rfl rfl (by rw [hwaits]; exact nil_sublist _) ?_ ?_ ?_ ?_ ?_ ?_
  · intro skb hmem
    rcases mem_append.mp hmem with hold | hnew
    · exact .inl hold
    · exact .inr ⟨hnew, by rw [hwaits]; exact List.not_mem_nil⟩
  · rw [hfree]
    exact nofun
  · rw [hrunning]
    exact h.stopping
  · rw [hrunning]
    intro hstop hzero
    have hskb := congrArg TxPart.skb hpart
    split_ifs at hskb
    · exact hskb
    · exact hskb.trans (h.stopped hstop hzero)
  · intro _
    exact loaded_flushTx close (h.loaded (by rw [hfree]; rfl))
  · rw [hrunning]
    intro hrun _
    exact (h.upto hrun (by rw [hfree]; rfl)).flushTx close

theorem waiting_of_released (h : r.txSkb = none) : waiting r = r.txQueue := by
  rw [waiting, h]
  split_ifs
  · rfl
  · rfl

theorem Sending.failTransport (h : Sending s) (error : ℤ) (read : List (UInt8 × ℕ)) :
    Sending { s with
      runtime := failTransport s.runtime error
      holder := .free
      history := { s.history with rxRead := read } } :=
  h.drop rfl rfl rfl (nil_sublist _) (fun _ hmem => .inl hmem) nofun (fun _ => rfl)
    (fun _ _ => rfl) (fun _ => ⟨rfl, rfl⟩) nofun

theorem Sending.transportStop (h : Sending s) (hfree : s.holder = .free) :
    Sending { s with runtime := transportStop s.runtime, stopping := s.stopping + 1 } := by
  refine h.drop rfl rfl rfl ?_ (fun _ hmem => .inl hmem) ?_ (fun _ => rfl) ?_ ?_ nofun
  · exact (List.Sublist.refl _).append (nil_sublist _)
  · rw [hfree]
    exact nofun
  · intro _ hzero
    exact absurd hzero (Nat.succ_ne_zero _)
  · intro _
    exact h.loaded (by rw [hfree]; rfl)

theorem Sending.transportStopped (h : Sending s) (hfree : s.holder = .free)
    (hstopping : s.stopping ≠ 0) (read : List (UInt8 × ℕ)) :
    Sending { s with
      runtime := transportStopped s.runtime
      stopping := s.stopping - 1
      history := { s.history with rxRead := read } } := by
  have hrunning := h.stopping hstopping
  refine h.drop rfl rfl rfl ?_ (fun _ hmem => .inl hmem) ?_ (fun _ => hrunning) (fun _ _ => rfl)
    (fun _ => ⟨rfl, rfl⟩) ?_
  · exact List.sublist_append_right _ _
  · rw [hfree]
    exact nofun
  · intro hrun
    exact absurd (hrunning.symm.trans hrun) (by decide)

/-! ### The worker writes -/

theorem loadTx_cases (r : Runtime) (copied : ℤ) :
    (loadTx r copied = (0, r) ∧ (r.txSkb = none → r.txQueue = [])) ∨
      ∃ skb queue, r.txSkb = none ∧ r.txQueue = skb :: queue ∧
        (copied ≠ 0 ∧
            loadTx r copied = (copied, { r with txQueue := queue, txSkb := some skb }) ∨
          copied = 0 ∧ loadTx r copied =
            (0, { r with txQueue := queue, txSkb := some skb, txData := txBytes skb })) := by
  rw [loadTx]
  split
  · rename_i hskb
    exact .inl ⟨rfl, by simp [hskb]⟩
  · rename_i hskb hqueue
    exact .inl ⟨rfl, fun _ => hqueue⟩
  · rename_i skb queue hskb hqueue
    refine .inr ⟨skb, queue, hskb, hqueue, ?_⟩
    split_ifs with hcopied
    · exact .inl ⟨hcopied, rfl⟩
    · exact .inr ⟨not_not.mp hcopied, rfl⟩

/-- **A frame is loaded from the head of the queue.** -/
theorem Sending.load (h : Sending s) (hwrite : s.holder = .write round received) (copied : ℤ) :
    ((loadTx s.runtime copied).1 = 0 →
      Sending { s with runtime := (loadTx s.runtime copied).2 }) ∧
    ((loadTx s.runtime copied).1 ≠ 0 → Sending { s with
      runtime := (loadTx s.runtime copied).2
      holder := .fault (loadTx s.runtime copied).1 }) := by
  have hrunning : s.runtime.running = true := h.working (by rw [hwrite]; rfl)
  have hloaded := h.loaded (by rw [hwrite]; rfl)
  rcases loadTx_cases s.runtime copied with ⟨heq, -⟩ |
    ⟨skb, queue, hskb, hqueue, ⟨hcopied, heq⟩ | ⟨hcopied, heq⟩⟩
  · rw [heq]
    exact ⟨fun _ => h, fun hne => absurd rfl hne⟩
  · rw [Loaded, hskb] at hloaded
    have hwaits : waiting { s.runtime with txQueue := queue, txSkb := some skb } =
        waiting s.runtime := by
      rw [waiting_of_released hskb, hqueue, waiting, if_pos hloaded.2]
      rfl
    rw [heq]
    refine ⟨fun hzero => absurd hzero hcopied, fun _ => ?_⟩
    refine h.drop rfl rfl rfl (by rw [hwaits]) (fun _ hmem => .inl hmem) (fun _ => hrunning)
      h.stopping ?_ nofun nofun
    intro hstop
    exact absurd (hstop.symm.trans hrunning) (by decide)
  · rw [Loaded, hskb] at hloaded
    have hwaits : waiting
        { s.runtime with txQueue := queue, txSkb := some skb, txData := txBytes skb } =
        waiting s.runtime := by
      rw [waiting_of_released hskb, hqueue, waiting, if_pos hloaded.2]
      rfl
    obtain ⟨whole, hframes, hbytes⟩ := h.upto hrunning (by rw [hwrite]; rfl)
    rw [hloaded.2] at hframes hbytes
    rw [heq]
    refine ⟨fun _ => ?_, fun hne => absurd rfl hne⟩
    refine h.drop rfl rfl rfl (by rw [hwaits]) (fun _ hmem => .inl hmem) (fun _ => hrunning)
      h.stopping ?_ ?_ ?_
    · intro hstop
      exact absurd (hstop.symm.trans hrunning) (by decide)
    · intro _
      refine ⟨rfl, ?_⟩
      rw [hloaded.2]
      exact txBytes_pos skb
    · intro _ _
      refine ⟨whole, ?_, ?_⟩
      · rw [hframes, hloaded.2]
        rfl
      · rw [hbytes, hloaded.2]
        rfl

theorem Ring.framed_of_whole (hbytes : ring.bytes = ring.frames.flatMap txBytes) : ring.Framed := by
  rcases List.eq_nil_or_concat ring.frames with hnil | ⟨whole, last, hframes⟩
  · rw [hnil] at hbytes
    exact .inl (by cases ring; simp_all)
  · rw [List.concat_eq_append] at hframes
    refine .inr ⟨whole, last, txBytes last, hframes, ?_, List.prefix_rfl, ?_⟩
    · exact List.ne_nil_of_length_pos (txBytes_pos last)
    · rw [hbytes, hframes, flatMap_append, flatMap_singleton]

theorem Ring.Upto.framed (h : ring.Upto r) (hskb : r.txSkb = some skb)
    (hdata : r.txData = txBytes skb) : ring.Framed := by
  obtain ⟨whole, hframes, hbytes⟩ := h
  by_cases hsent : r.txSent = 0
  · rw [if_pos hsent, append_nil] at hframes
    rw [hsent, List.take_zero, append_nil] at hbytes
    exact ring.framed_of_whole (by rw [hbytes, hframes])
  · rw [if_neg hsent, hskb, Option.toList_some] at hframes
    refine .inr ⟨whole, skb, _, hframes, ?_, ?_, hbytes⟩
    · refine List.ne_nil_of_length_pos ?_
      have hpos := txBytes_pos skb
      rw [List.length_take, hdata]
      omega
    · rw [hdata]
      exact List.take_prefix _ _

theorem Ring.Upto.write {h : History} (hupto : h.ring.Upto r) (written : ℕ) :
    (h.write r written).ring.Upto { r with txSent := r.txSent + written } := by
  obtain ⟨whole, hframes, hbytes⟩ := hupto
  refine ⟨whole, ?_, ?_⟩
  · simp only [History.write]
    rw [hframes]
    by_cases hwritten : written = 0
    · simp [hwritten]
    · by_cases hsent : r.txSent = 0
      · simp [hwritten, hsent]
      · simp [hwritten, hsent]
  · simp only [History.write]
    rw [hbytes, append_assoc, ← List.take_add]

theorem Ring.Upto.releaseTx (h : ring.Upto r) (hskb : r.txSkb = some skb)
    (hdata : r.txData = txBytes skb) (hsent : r.txSent = r.txData.length) :
    ring.Upto (releaseTx r) := by
  obtain ⟨whole, hframes, hbytes⟩ := h
  have hpos := txBytes_pos skb
  rw [if_neg (by rw [hsent, hdata]; omega), hskb, Option.toList_some] at hframes
  refine ⟨whole ++ [skb], ?_, ?_⟩
  · rw [hframes]
    exact (append_nil _).symm
  · rw [hbytes, hsent, List.take_length, hdata, flatMap_append, flatMap_singleton]
    exact (append_nil _).symm

theorem runs_write (h : History) (r : Runtime) (written : ℕ) :
    (h.write r written).runs = h.past ++ [(h.write r written).ring] := rfl

theorem begun_write (h : History) (written : ℕ) (hskb : r.txSkb = some skb) :
    (h.write r written).begun ++ waiting { r with txSent := r.txSent + written } =
      h.begun ++ waiting r := by
  have hbegun : h.begun = h.past.flatMap (·.frames) ++ h.ring.frames := by
    rw [History.begun, History.runs, flatMap_append, flatMap_singleton]
  rw [hbegun, History.begun, runs_write, flatMap_append, flatMap_singleton]
  simp only [History.write, waiting, hskb, Option.toList_some]
  by_cases hwritten : written = 0
  · simp [hwritten]
  · by_cases hsent : r.txSent = 0
    · simp [hwritten, hsent]
    · simp [hwritten, hsent]

/-- **A write keeps the runs framed**, however little the ring takes. -/
theorem Sending.written (h : Sending s) (hwrite : s.holder = .write round received)
    (hskb : s.runtime.txSkb = some skb) (ret : ℤ) {written : ℕ}
    (hle : written ≤ s.runtime.txData.length - s.runtime.txSent) {holder : Holder}
    (hfailing : (finishTx s.runtime ret written).1 ≠ 0 → holder.failing = true) :
    Sending { s with
      runtime := (finishTx s.runtime ret written).2
      holder := holder
      history := s.history.write s.runtime written } := by
  have hrunning : s.runtime.running = true := h.working (by rw [hwrite]; rfl)
  have hloaded := h.loaded (by rw [hwrite]; rfl)
  have hupto := (h.upto hrunning (by rw [hwrite]; rfl)).write (r := s.runtime) written
  rw [Loaded, hskb] at hloaded
  obtain ⟨hdata, hlt⟩ := hloaded
  have hbegun := begun_write s.history written hskb
  have hframed : ∀ ring ∈ (s.history.write s.runtime written).runs, ring.Framed := by
    rw [runs_write]
    intro ring hmem
    rcases mem_append.mp hmem with hpast | hnow
    · exact h.framed ring (List.mem_append_left _ hpast)
    · rw [mem_singleton.mp hnow]
      exact hupto.framed hskb hdata
  -- the buffer is released exactly when the whole frame is written without an error
  by_cases hstays : ret ≠ 0 ∨ s.runtime.txSent + written ≠ s.runtime.txData.length
  · have hfinish : finishTx s.runtime ret written =
        (ret, { s.runtime with txSent := s.runtime.txSent + written }) := if_pos hstays
    rw [hfinish] at hfailing ⊢
    refine ⟨h.numbers, h.valid, ?_, ?_, hframed, fun _ => hrunning, h.stopping, ?_, ?_, ?_⟩
    · rw [hbegun]
      exact h.order
    · rw [hbegun]
      exact h.purged
    · intro hstop
      exact absurd (hstop.symm.trans hrunning) (by decide)
    · intro hfail
      rw [Loaded, hskb]
      refine ⟨hdata, ?_⟩
      have hret : ret = 0 := by
        by_contra hne
        rw [hfailing hne] at hfail
        exact absurd hfail (by decide)
      have hne : s.runtime.txSent + written ≠ s.runtime.txData.length := by
        simpa [hret] using hstays
      show s.runtime.txSent + written < s.runtime.txData.length
      omega
    · exact fun _ _ => hupto
  · obtain ⟨hret, hsent⟩ := not_or.mp hstays
    rw [not_not] at hsent
    have hfinish : finishTx s.runtime ret written =
        (0, releaseTx { s.runtime with txSent := s.runtime.txSent + written }) := if_neg hstays
    have hwaits : waiting { s.runtime with txSent := s.runtime.txSent + written } =
        waiting (releaseTx { s.runtime with txSent := s.runtime.txSent + written }) := by
      rw [waiting, if_neg (show s.runtime.txSent + written ≠ 0 by omega)]
      rfl
    rw [hwaits] at hbegun
    rw [hfinish]
    refine ⟨h.numbers, h.valid, ?_, ?_, hframed, fun _ => hrunning, h.stopping, fun _ _ => rfl,
      fun _ => ⟨rfl, rfl⟩, fun _ _ => hupto.releaseTx hskb hdata hsent⟩
    · rw [hbegun]
      exact h.order
    · rw [hbegun]
      exact h.purged

theorem Sending.workerWrite (h : Sending s) (hwrite : s.holder = .write round received)
    (copied ret : ℤ) {written : ℕ}
    (hle : written ≤ (loadTx s.runtime copied).2.txData.length -
      (loadTx s.runtime copied).2.txSent) :
    Sending (workerWrite s round received copied ret written) := by
  obtain ⟨hload, hfault⟩ := h.load hwrite copied
  simp only [Hci.workerWrite]
  split
  · rename_i hcopied
    exact hfault hcopied
  · rename_i hcopied
    have hloaded := hload (not_not.mp hcopied)
    split
    · refine hloaded.congr rfl rfl rfl rfl rfl rfl (fun _ => ?_) (fun _ => ?_)
      · exact hloaded.working (by rw [hwrite]; rfl)
      · rw [hwrite]
        rfl
    · rename_i hsome
      obtain ⟨skb, hskb⟩ := Option.ne_none_iff_exists'.mp hsome
      refine hloaded.written hwrite hskb ret hle ?_
      intro hfinish
      rw [if_pos hfinish]
      rfl

/-! ### Every step -/

theorem Sending.started (h : Sending s) (hfree : s.holder = .free)
    (hrunning : s.runtime.running = false) (hstopping : s.stopping = 0)
    (hpart : r.txPart = { s.runtime.txPart with running := true })
    {history : History} (haccepted : history.accepted = s.history.accepted)
    (hpurged : history.purged = s.history.purged) (hpast : history.past = s.history.runs)
    (hring : history.ring = {}) : Sending { s with runtime := r, history := history } := by
  have hruns : history.runs = s.history.runs ++ [({} : Ring)] := by
    rw [History.runs, hpast, hring]
  have hbegun : history.begun = s.history.begun := by
    rw [History.begun, hruns, flatMap_append, flatMap_singleton]
    exact append_nil _
  have hwaits : waiting r = waiting s.runtime :=
    waiting_congr (r := { s.runtime with running := true }) hpart
  have hskb : r.txSkb = none :=
    (congrArg TxPart.skb hpart).trans (h.stopped hrunning hstopping)
  have hloaded := h.loaded (by rw [hfree]; rfl)
  rw [Loaded, h.stopped hrunning hstopping] at hloaded
  have hdata : r.txData = [] := (congrArg TxPart.data hpart).trans hloaded.1
  have hsent : r.txSent = 0 := (congrArg TxPart.sent hpart).trans hloaded.2
  refine ⟨?_, ?_, ?_, ?_, ?_, ?_, ?_, fun _ _ => hskb, ?_, ?_⟩
  · rw [haccepted]
    exact h.numbers
  · rw [haccepted]
    exact h.valid
  · rw [hbegun, hwaits, haccepted]
    exact h.order
  · rw [hpurged, haccepted, hbegun, hwaits]
    exact h.purged
  · rw [hruns]
    intro ring hmem
    rcases mem_append.mp hmem with hold | hnew
    · exact h.framed ring hold
    · exact .inl (mem_singleton.mp hnew)
  · rw [hfree]
    exact nofun
  · intro hne
    exact absurd hstopping hne
  · intro _
    rw [Loaded, hskb]
    exact ⟨hdata, hsent⟩
  · intro _ _
    rw [hring]
    exact ⟨[], by rw [hsent]; rfl, by rw [hsent]; rfl⟩

theorem locked_eq_some {next : State} (h : locked s next = some s') :
    s.holder = .free ∧ next = s' := by
  rw [locked] at h
  split_ifs at h with hfree
  exact ⟨hfree, Option.some.inj h⟩

theorem Sending.quiet (h : Sending s) (hfree : s.holder = .free)
    (hpart : r.txPart = s.runtime.txPart) {holder : Holder}
    (hworking : holder.working = true → s.runtime.running = true) :
    Sending { s with runtime := r, holder := holder } :=
  h.congr hpart rfl rfl rfl rfl rfl hworking fun _ => by rw [hfree]; rfl

theorem Sending.transportStart (h : Sending s) {rxPrefix : List (UInt8 × ℕ)}
    (hstep : act recv s (.transportStart rxPrefix) = some s') : Sending s' := by
  simp only [act] at hstep
  split at hstep
  · rename_i hserial
    obtain ⟨hfree, hnext⟩ := locked_eq_some hstep
    subst hnext
    have hpart := txPart_receiveBytes recv { s.runtime with rxDiscard := true }
      (rxPrefix.map (·.1))
    by_cases hbusy : s.runtime.running = true ∨ s.runtime.suspending = true
    · rw [if_pos hbusy, Hci.transportStart, if_pos hbusy]
      exact h
    · rw [if_neg hbusy, Hci.transportStart, if_neg hbusy]
      have hrunning : s.runtime.running = false := by simpa using (not_or.mp hbusy).1
      by_cases hret : (receiveBytes recv { s.runtime with rxDiscard := true }
          (rxPrefix.map (·.1))).ret ≠ 0
      · simp only [if_pos hret]
        exact h.congr hpart rfl rfl rfl rfl rfl h.working id
      · simp only [if_neg hret]
        exact h.started hfree hrunning hserial.1
          (congrArg (fun part : TxPart => { part with running := true }) hpart) rfl rfl rfl rfl
  · exact absurd hstep nofun

theorem Sending.resume (h : Sending s) (hfree : s.holder = .free) (ret : ℤ)
    (read : List (UInt8 × ℕ)) :
    Sending { s with
      runtime := (resume s.runtime ret).2
      history := { s.history with rxRead := read } } := by
  rw [Hci.resume]
  split_ifs
  · exact h.congr rfl rfl rfl rfl rfl rfl h.working id
  · rw [hfree]
    exact h.failTransport ret read
  · exact h.congr rfl rfl rfl rfl rfl rfl h.working id

theorem Sending.workerRead (h : Sending s) (hread : s.holder = .read round) (poll ret : ℤ)
    (input : List UInt8) : Sending (workerRead recv s round poll ret input) := by
  have hrunning : s.runtime.running = true := h.working (by rw [hread]; rfl)
  have hsound : s.holder.failing = false := by rw [hread]; rfl
  rw [Hci.workerRead]
  split_ifs
  · exact h.congr rfl rfl rfl rfl rfl rfl (fun _ => hrunning) fun _ => hsound
  · exact h.congr rfl rfl rfl rfl rfl rfl (fun _ => hrunning) fun _ => hsound
  · exact h.congr (txPart_receiveBytes recv s.runtime input) rfl rfl rfl rfl rfl
      (fun _ => hrunning) fun _ => hsound

/-- **Every step keeps what is sent in order.** -/
theorem sending_act (h : Sending s) {op : Op} (hstep : act recv s op = some s') : Sending s' := by
  cases op with
  | runtimeSend skb =>
    by_cases hnumber : skb.number = s.history.accepted.length
    · exact h.runtimeSend hnumber hstep
    · rw [act, if_neg hnumber] at hstep
      exact absurd hstep nofun
  | work =>
    obtain ⟨hfree, rfl⟩ := locked_eq_some hstep
    refine h.quiet hfree rfl ?_
    split_ifs with hrests
    · exact nofun
    · intro _
      simpa using (not_or.mp hrests).1
  | read poll ret input =>
    simp only [act] at hstep
    split at hstep
    · rename_i round hread
      split at hstep
      · rw [← Option.some.inj hstep]
        exact h.workerRead hread poll ret input
      · exact absurd hstep nofun
    · exact absurd hstep nofun
  | write copied ret written =>
    simp only [act] at hstep
    split at hstep
    · rename_i round received hwrite
      split at hstep
      · rename_i hle
        rw [← Option.some.inj hstep]
        exact h.workerWrite hwrite copied ret hle
      · exact absurd hstep nofun
    · exact absurd hstep nofun
  | service fm poll =>
    simp only [act] at hstep
    split at hstep
    · rename_i hservice
      rw [← Option.some.inj hstep]
      refine h.congr rfl rfl rfl rfl rfl rfl (fun _ => ?_) fun _ => by rw [hservice]; rfl
      exact h.working (by rw [hservice]; rfl)
    · exact absurd hstep nofun
  | fault =>
    simp only [act] at hstep
    split at hstep
    · rw [← Option.some.inj hstep]
      exact h.failTransport _ []
    · exact absurd hstep nofun
  | runtimeOpen =>
    obtain ⟨hfree, rfl⟩ := locked_eq_some hstep
    exact h.quiet hfree (txPart_runtimeOpen _) h.working
  | runtimeClose =>
    obtain ⟨hfree, rfl⟩ := locked_eq_some hstep
    exact h.flushTx true hfree
  | runtimeFlush =>
    obtain ⟨hfree, rfl⟩ := locked_eq_some hstep
    exact h.flushTx false hfree
  | suspendPrepare busy =>
    obtain ⟨hfree, rfl⟩ := locked_eq_some hstep
    exact h.quiet hfree (txPart_suspendPrepare _ _) h.working
  | suspendPrepared ret =>
    obtain ⟨hfree, rfl⟩ := locked_eq_some hstep
    exact h.quiet hfree (txPart_suspendPrepared _ _) h.working
  | suspend busy =>
    obtain ⟨hfree, rfl⟩ := locked_eq_some hstep
    refine h.quiet hfree (txPart_suspend _ _) ?_
    split_ifs
    · exact nofun
    · exact nofun
  | mailboxSuspend ret =>
    simp only [act] at hstep
    split at hstep
    · rename_i hsuspend
      rw [← Option.some.inj hstep]
      refine h.congr ?_ rfl rfl rfl rfl rfl nofun fun _ => by rw [hsuspend]; rfl
      split_ifs
      · rfl
      · rfl
    · exact absurd hstep nofun
  | resume ret =>
    obtain ⟨hfree, rfl⟩ := locked_eq_some hstep
    exact h.resume hfree ret _
  | resumeCore =>
    obtain ⟨hfree, rfl⟩ := locked_eq_some hstep
    exact h.quiet hfree (txPart_resumeCore _) h.working
  | postSuspend ret =>
    obtain ⟨hfree, rfl⟩ := locked_eq_some hstep
    exact h.quiet hfree (txPart_postSuspend _ _) h.working
  | transportStart rxPrefix => exact h.transportStart hstep
  | transportStop =>
    obtain ⟨hfree, rfl⟩ := locked_eq_some hstep
    exact h.transportStop hfree
  | transportStopped =>
    simp only [act] at hstep
    split at hstep
    · exact absurd hstep nofun
    · rename_i hstopping
      obtain ⟨hfree, rfl⟩ := locked_eq_some hstep
      exact h.transportStopped hfree hstopping []

theorem sending_step (h : Sending s) {op : Op} (hstep : step recv s op = some s') :
    Sending s' := by
  obtain ⟨next, hact, rfl⟩ := Option.map_eq_some_iff.mp hstep
  have hnext := sending_act h hact
  exact hnext.congr rfl rfl rfl rfl rfl rfl hnext.working id

theorem sending_start : Sending {} where
  numbers := rfl
  valid := nofun
  order := nil_sublist _
  purged := nofun
  framed _ hmem := .inl (mem_singleton.mp hmem)
  working := nofun
  stopping hne := absurd rfl hne
  stopped _ _ := rfl
  loaded _ := ⟨rfl, rfl⟩
  upto := nofun

/-- **The invariant, under any order of calls.** -/
theorem sending_of_reachable (h : (machine recv).Reachable s) : Sending s := by
  refine h.invariant ?_ ?_
  · intro s hstart
    rw [hstart]
    exact sending_start
  · intro s op s' hs hstep
    exact sending_step hs hstep

end Hci
