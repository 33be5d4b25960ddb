/-
One direction of a shared Bluetooth ring.

Two processors share a ring of `ringBytes` bytes and two 32-bit counters of it.
The producer runs `sbuf_write`: it loads both counters, copies into the free
slots from `wr % ringBytes` on in at most two pieces, publishes the write
counter and samples the read counter again.  The consumer runs `sbuf_read` by
the same rule on the other counter.  Each of these is a step of its own
(`machine`), so that either side may stop between any two of them for as long
as it likes.

Beside the shared memory the state keeps the bytes that the calls published
(`sent`) and handed out (`received`).

* `Counters`: what the counters say about these lists in every reachable state;
* `neverChanged`: no call of either side finds the stream changed.
-/
import Fplinux.Lib.CounterRing
import Fplinux.Lib.Run
import Fplinux.Lib.Word

namespace Sbuf

/-! ### The calls -/

/-- The bytes of a ring. -/
def ringBytes : ℕ := 0x2400

/-- What a call returns. -/
inductive Ret
  | ok
  | messageSize
  | again
  | streamChanged
  deriving DecidableEq, Repr

/-- A call of `sbuf_write`, with its local variables.  A finished call has its
result, `*written`, and whether it queued a notification for the peer. -/
inductive WriteCall
  | returned (ret : Ret) (written : ℕ) (dataReady : Bool)
  | copyFirst (data : List UInt8) (wr count : ℕ)
  | copyRest (data : List UInt8) (wr count : ℕ)
  | publish (data : List UInt8) (wr count : ℕ)
  | recheck (wr count : ℕ)
  deriving DecidableEq, Repr

/-- A call of `sbuf_read`, with its local variables. -/
inductive ReadCall
  | returned (ret : Ret) (data : List UInt8) (spaceReady : Bool)
  | copyFirst (rd count : ℕ)
  | copyRest (rd count : ℕ) (data : List UInt8)
  | publish (rd count : ℕ) (data : List UInt8)
  | recheck (rd count : ℕ) (data : List UInt8)
  deriving DecidableEq, Repr

/-- The shared ring, both sides' running calls and their `mailbox.error`s, and
the bytes that went through. -/
structure State where
  slots : List UInt8
  rd : ℕ
  wr : ℕ
  writer : WriteCall
  reader : ReadCall
  writeError : Bool
  readError : Bool
  sent : List UInt8
  received : List UInt8
  deriving DecidableEq

/-- The ring as `sbuf_prepare` and the peer's attach leave it. -/
def start : State where
  slots := List.replicate ringBytes 0
  rd := 0
  wr := 0
  writer := .returned .ok 0 false
  reader := .returned .ok [] false
  writeError := false
  readError := false
  sent := []
  received := []

/-- The counter check of `sbuf_layout_valid` in stream mode. -/
def countersValid (rd wr : ℕ) : Bool := Word.sub 32 wr rd ≤ ringBytes

/-- The bytes up to the last slot of `count` bytes from a counter on. -/
def firstPiece (counter count : ℕ) : ℕ := min count (ringBytes - counter % ringBytes)

/-- `sbuf_write` up to its load of the counters. -/
def write (s : State) (data : List UInt8) (wholeCommand : Bool) : WriteCall × Bool :=
  if wholeCommand ∧ ringBytes < data.length then (.returned .messageSize 0 false, s.writeError)
  else if s.writeError then (.returned .streamChanged 0 false, true)
  else if data = [] then (.returned .ok 0 false, false)
  else if countersValid s.rd s.wr = false then (.returned .streamChanged 0 false, true)
  else
    let occupied := Word.sub 32 s.wr s.rd
    if wholeCommand ∧ occupied ≠ 0 then (.returned .again 0 false, false)
    else
      let count := min data.length (ringBytes - occupied)
      if count = 0 then (.returned .ok 0 false, false) else (.copyFirst data s.wr count, false)

/-- The next step of a running `sbuf_write`. -/
def writeStep (s : State) : Option State :=
  match s.writer with
  | .returned .. => none
  | .copyFirst data wr count =>
    let first := firstPiece wr count
    some { s with
      slots := Ring.blit s.slots (wr % ringBytes) (data.take first)
      writer := if first < count then .copyRest data wr count else .publish data wr count }
  | .copyRest data wr count =>
    let first := firstPiece wr count
    some { s with
      slots := Ring.blit s.slots 0 ((data.drop first).take (count - first))
      writer := .publish data wr count }
  | .publish data wr count =>
    some { s with
      wr := Word.add 32 wr count
      sent := s.sent ++ data.take count
      writer := .recheck wr count }
  | .recheck wr count =>
    if ringBytes < Word.sub 32 (Word.add 32 wr count) s.rd then
      some { s with writer := .returned .streamChanged count false, writeError := true }
    else some { s with writer := .returned .ok count (s.rd == wr) }

/-- `sbuf_read` up to its load of the counters. -/
def read (s : State) (capacity : ℕ) : ReadCall × Bool :=
  if s.readError then (.returned .streamChanged [] false, true)
  else if capacity = 0 then (.returned .ok [] false, false)
  else if countersValid s.rd s.wr = false then (.returned .streamChanged [] false, true)
  else
    let occupied := Word.sub 32 s.wr s.rd
    let count := min capacity occupied
    if count = 0 then (.returned .ok [] false, false) else (.copyFirst s.rd count, false)

/-- The next step of a running `sbuf_read`. -/
def readStep (s : State) : Option State :=
  match s.reader with
  | .returned .. => none
  | .copyFirst rd count =>
    let first := firstPiece rd count
    let data := (s.slots.drop (rd % ringBytes)).take first
    some { s with
      reader := if first < count then .copyRest rd count data else .publish rd count data }
  | .copyRest rd count data =>
    let first := firstPiece rd count
    some { s with reader := .publish rd count (data ++ s.slots.take (count - first)) }
  | .publish rd count data =>
    some { s with
      rd := Word.add 32 rd count
      received := s.received ++ data
      reader := .recheck rd count data }
  | .recheck rd count data =>
    if ringBytes < Word.sub 32 (Word.sub 32 s.wr rd) count then
      some { s with reader := .returned .streamChanged data false, readError := true }
    else some { s with reader := .returned .ok data (Word.sub 32 s.wr rd == ringBytes) }

/-- What can happen to the ring: a call on either side, or the next step of a
running one. -/
inductive Op
  | write (data : List UInt8) (wholeCommand : Bool)
  | writeStep
  | read (capacity : ℕ)
  | readStep
  deriving DecidableEq, Repr

/-- One step.  A side starts a call when the one before has returned. -/
def step (s : State) : Op → Option State
  | .write data wholeCommand =>
    match s.writer with
    | .returned .. =>
      let call := write s data wholeCommand
      some { s with writer := call.1, writeError := call.2 }
    | _ => none
  | .writeStep => writeStep s
  | .read capacity =>
    match s.reader with
    | .returned .. =>
      let call := read s capacity
      some { s with reader := call.1, readError := call.2 }
    | _ => none
  | .readStep => readStep s

/-- The ring under any interleaving of the two sides. -/
def machine : Machine State Op where
  start s := s = start
  step s op s' := step s op = some s'

/-! ### The counters -/

theorem ringBytes_eq : ringBytes = 9216 := rfl

theorem firstPiece_le (counter count : ℕ) : firstPiece counter count ≤ count :=
  Nat.min_le_left _ _

theorem firstPiece_fits (counter count : ℕ) :
    counter % ringBytes + firstPiece counter count ≤ ringBytes := by
  have hlt : counter % ringBytes < ringBytes := Nat.mod_lt _ (by decide)
  have hle : firstPiece counter count ≤ ringBytes - counter % ringBytes := Nat.min_le_right _ _
  omega

theorem firstPiece_of_lt {counter count : ℕ} (h : firstPiece counter count < count) :
    firstPiece counter count = ringBytes - counter % ringBytes := by
  rw [firstPiece] at h ⊢
  omega

/-- What a running `sbuf_write` knows of the counters. -/
def WriteCall.Fits (s : State) : WriteCall → Prop
  | .returned ret _ _ => ret ≠ .streamChanged
  | .copyFirst data wr count | .copyRest data wr count | .publish data wr count =>
    wr = s.wr ∧ 0 < count ∧ count ≤ data.length ∧
      s.sent.length + count ≤ s.received.length + ringBytes
  | .recheck wr count => Word.add 32 wr count = s.wr

/-- What a running `sbuf_read` knows of the counters. -/
def ReadCall.Fits (s : State) : ReadCall → Prop
  | .returned ret _ _ => ret ≠ .streamChanged
  | .copyFirst rd count => rd = s.rd ∧ s.received.length + count ≤ s.sent.length
  | .copyRest rd count data =>
    rd = s.rd ∧ s.received.length + count ≤ s.sent.length ∧
      firstPiece rd count < count ∧ data.length = firstPiece rd count
  | .publish rd count data =>
    rd = s.rd ∧ s.received.length + count ≤ s.sent.length ∧ data.length = count
  | .recheck rd count _ =>
    count ≤ ringBytes ∧ ∃ taken, rd = taken % 2 ^ 32 ∧ taken + count = s.received.length

/-- **The counters count the bytes**: both are the numbers of bytes that went
through modulo `2 ^ 32`, and at most a ring of them is unread. -/
structure Counters (s : State) : Prop where
  slots : s.slots.length = ringBytes
  rd : s.rd = s.received.length % 2 ^ 32
  wr : s.wr = s.sent.length % 2 ^ 32
  le : s.received.length ≤ s.sent.length
  span : s.sent.length ≤ s.received.length + ringBytes
  writer : s.writer.Fits s
  reader : s.reader.Fits s
  writeError : s.writeError = false
  readError : s.readError = false

namespace Counters

variable {s s' : State}

theorem sub_eq (h : Counters s) :
    Word.sub 32 s.wr s.rd = s.sent.length - s.received.length := by
  have hring := ringBytes_eq
  have hspan := h.span
  rw [h.wr, h.rd]
  exact Word.sub_mod h.le (by omega)

theorem valid (h : Counters s) : countersValid s.rd s.wr = true := by
  have hspan := h.span
  rw [countersValid, h.sub_eq, decide_eq_true_iff]
  omega

theorem write (h : Counters s) (data : List UInt8) (wholeCommand : Bool) :
    (Sbuf.write s data wholeCommand).1.Fits s ∧
      (Sbuf.write s data wholeCommand).2 = false := by
  have hspan := h.span
  have hle := h.le
  rw [Sbuf.write, h.writeError, h.valid, h.sub_eq]
  simp only [Bool.false_eq_true, if_false]
  split
  · exact ⟨by simp [WriteCall.Fits], rfl⟩
  split
  · exact ⟨by simp [WriteCall.Fits], rfl⟩
  split
  · rename_i hfalse
    exact absurd hfalse (by decide)
  split
  · exact ⟨by simp [WriteCall.Fits], rfl⟩
  split
  · exact ⟨by simp [WriteCall.Fits], rfl⟩
  · rename_i hcount
    refine ⟨⟨rfl, Nat.pos_of_ne_zero hcount, Nat.min_le_left _ _, ?_⟩, rfl⟩
    have hmin := Nat.min_le_right data.length
      (ringBytes - (s.sent.length - s.received.length))
    omega

theorem read (h : Counters s) (capacity : ℕ) :
    (Sbuf.read s capacity).1.Fits s ∧ (Sbuf.read s capacity).2 = false := by
  have hle := h.le
  rw [Sbuf.read, h.readError, h.valid, h.sub_eq]
  simp only [Bool.false_eq_true, if_false]
  split
  · exact ⟨by simp [ReadCall.Fits], rfl⟩
  split
  · rename_i hfalse
    exact absurd hfalse (by decide)
  split
  · exact ⟨by simp [ReadCall.Fits], rfl⟩
  · refine ⟨⟨rfl, ?_⟩, rfl⟩
    have hmin := Nat.min_le_right capacity (s.sent.length - s.received.length)
    omega

theorem writerFits_of_read (h : Counters s) (hwr : s'.wr = s.wr) (hsent : s'.sent = s.sent)
    (hreceived : s.received.length ≤ s'.received.length) : s.writer.Fits s' := by
  have hwriter := h.writer
  cases hcall : s.writer with
  | returned ret written dataReady =>
    rw [hcall] at hwriter
    exact hwriter
  | recheck wr count =>
    rw [hcall] at hwriter
    rw [WriteCall.Fits, hwr]
    exact hwriter
  | copyFirst data wr count | copyRest data wr count | publish data wr count =>
    rw [hcall] at hwriter
    obtain ⟨hown, hpos, hlen, hfree⟩ := hwriter
    rw [WriteCall.Fits, hwr, hsent]
    exact ⟨hown, hpos, hlen, by omega⟩

theorem readerFits_of_write (h : Counters s) (hrd : s'.rd = s.rd)
    (hreceived : s'.received = s.received) (hsent : s.sent.length ≤ s'.sent.length) :
    s.reader.Fits s' := by
  have hreader := h.reader
  cases hcall : s.reader with
  | returned ret data spaceReady =>
    rw [hcall] at hreader
    exact hreader
  | recheck rd count data =>
    rw [hcall] at hreader
    rw [ReadCall.Fits, hreceived]
    exact hreader
  | copyFirst rd count =>
    rw [hcall] at hreader
    obtain ⟨hown, hunread⟩ := hreader
    rw [ReadCall.Fits, hrd, hreceived]
    exact ⟨hown, by omega⟩
  | copyRest rd count data | publish rd count data =>
    rw [hcall] at hreader
    obtain ⟨hown, hunread, hdata⟩ := hreader
    rw [ReadCall.Fits, hrd, hreceived]
    exact ⟨hown, by omega, hdata⟩

theorem writeStep (h : Counters s) (hstep : Sbuf.writeStep s = some s') : Counters s' := by
  have hring := ringBytes_eq
  have hwriter := h.writer
  rw [Sbuf.writeStep] at hstep
  cases hcall : s.writer with
  | returned ret written dataReady =>
    rw [hcall] at hstep
    exact absurd hstep (by simp)
  | copyFirst data wr count =>
    rw [hcall] at hstep hwriter
    obtain ⟨hown, hpos, hlen, hfree⟩ := hwriter
    obtain rfl := Option.some.inj hstep
    refine { h with slots := ?_, writer := ?_, reader := ?_ }
    · have hfits := firstPiece_fits wr count
      rw [Ring.length_blit, h.slots]
      rw [h.slots, List.length_take]
      omega
    · by_cases hlt : firstPiece wr count < count
      · simp only [hlt, if_true]
        exact ⟨hown, hpos, hlen, hfree⟩
      · simp only [hlt, if_false]
        exact ⟨hown, hpos, hlen, hfree⟩
    · exact h.readerFits_of_write rfl rfl (Nat.le_refl _)
  | copyRest data wr count =>
    rw [hcall] at hstep hwriter
    obtain rfl := Option.some.inj hstep
    refine { h with slots := ?_, writer := hwriter, reader := ?_ }
    · have hspan := hwriter.2.2.2
      have hle := h.le
      rw [Ring.length_blit, h.slots]
      rw [h.slots, List.length_take]
      omega
    · exact h.readerFits_of_write rfl rfl (Nat.le_refl _)
  | publish data wr count =>
    rw [hcall] at hstep hwriter
    obtain ⟨hown, hpos, hlen, hfree⟩ := hwriter
    obtain rfl := Option.some.inj hstep
    have hle := h.le
    have hsent : (s.sent ++ data.take count).length = s.sent.length + count := by
      rw [List.length_append, List.length_take, Nat.min_eq_left hlen]
    refine { h with wr := ?_, le := ?_, span := ?_, writer := rfl, reader := ?_ }
    · rw [hown, h.wr, Word.add_mod, hsent]
    · show s.received.length ≤ (s.sent ++ data.take count).length
      rw [hsent]
      omega
    · rw [hsent]
      exact hfree
    · exact h.readerFits_of_write rfl rfl (by rw [hsent]; omega)
  | recheck wr count =>
    simp only [hcall] at hstep
    rw [hcall] at hwriter
    have hown : Word.add 32 wr count = s.wr := hwriter
    have hspan := h.span
    -- The published counter is still the writer's own, so the difference is the unread bytes.
    rw [hown, h.sub_eq, if_neg (by omega)] at hstep
    obtain rfl := Option.some.inj hstep
    exact { h with
      writer := by simp [WriteCall.Fits]
      reader := h.readerFits_of_write rfl rfl (Nat.le_refl _) }

theorem readStep (h : Counters s) (hstep : Sbuf.readStep s = some s') : Counters s' := by
  have hring := ringBytes_eq
  have hreader := h.reader
  have hspan := h.span
  rw [Sbuf.readStep] at hstep
  cases hcall : s.reader with
  | returned ret data spaceReady =>
    rw [hcall] at hstep
    exact absurd hstep (by simp)
  | copyFirst rd count =>
    rw [hcall] at hstep hreader
    obtain ⟨hown, hunread⟩ := hreader
    obtain rfl := Option.some.inj hstep
    have hfits := firstPiece_fits rd count
    have hdata : ((s.slots.drop (rd % ringBytes)).take (firstPiece rd count)).length
        = firstPiece rd count := by
      rw [List.length_take, List.length_drop, h.slots]
      omega
    refine { h with writer := h.writerFits_of_read rfl rfl (Nat.le_refl _), reader := ?_ }
    by_cases hlt : firstPiece rd count < count
    · simp only [hlt, if_true]
      exact ⟨hown, hunread, hlt, hdata⟩
    · have hall : firstPiece rd count = count := by
        have hle := firstPiece_le rd count
        omega
      simp only [hlt, if_false]
      exact ⟨hown, hunread, hdata.trans hall⟩
  | copyRest rd count data =>
    rw [hcall] at hstep hreader
    obtain ⟨hown, hunread, hlt, hdata⟩ := hreader
    obtain rfl := Option.some.inj hstep
    refine { h with writer := h.writerFits_of_read rfl rfl (Nat.le_refl _), reader := ?_ }
    refine ⟨hown, hunread, ?_⟩
    rw [List.length_append, List.length_take, hdata, h.slots]
    omega
  | publish rd count data =>
    rw [hcall] at hstep hreader
    obtain ⟨hown, hunread, hdata⟩ := hreader
    obtain rfl := Option.some.inj hstep
    have hreceived : (s.received ++ data).length = s.received.length + count := by
      rw [List.length_append, hdata]
    refine { h with rd := ?_, le := ?_, span := ?_, writer := ?_, reader := ?_ }
    · rw [hown, h.rd, Word.add_mod, hreceived]
    · rw [hreceived]
      exact hunread
    · show s.sent.length ≤ (s.received ++ data).length + ringBytes
      rw [hreceived]
      omega
    · exact h.writerFits_of_read rfl rfl (by rw [hreceived]; omega)
    · exact ⟨by omega, s.received.length, hown.trans h.rd, hreceived.symm⟩
  | recheck rd count data =>
    simp only [hcall] at hstep
    rw [hcall] at hreader
    obtain ⟨hcount, taken, hown, htaken⟩ := hreader
    have hle := h.le
    have hsub : Word.sub 32 (Word.sub 32 s.wr rd) count
        = s.sent.length - s.received.length := by
      rw [h.wr, hown, Word.sub_mod (by omega) (by omega), Word.sub_eq (by omega) (by omega)]
      omega
    rw [hsub, if_neg (by omega)] at hstep
    obtain rfl := Option.some.inj hstep
    exact { h with
      writer := h.writerFits_of_read rfl rfl (Nat.le_refl _)
      reader := by simp [ReadCall.Fits] }

theorem step (h : Counters s) {op : Op} (hstep : Sbuf.step s op = some s') : Counters s' := by
  cases op with
  | writeStep => exact h.writeStep hstep
  | readStep => exact h.readStep hstep
  | write data wholeCommand =>
    rw [Sbuf.step] at hstep
    split at hstep
    · obtain rfl := Option.some.inj hstep
      obtain ⟨hfits, herror⟩ := h.write data wholeCommand
      exact { h with
        writer := hfits
        reader := h.readerFits_of_write rfl rfl (Nat.le_refl _)
        writeError := herror }
    · exact absurd hstep (by simp)
  | read capacity =>
    rw [Sbuf.step] at hstep
    split at hstep
    · obtain rfl := Option.some.inj hstep
      obtain ⟨hfits, herror⟩ := h.read capacity
      exact { h with
        writer := h.writerFits_of_read rfl rfl (Nat.le_refl _)
        reader := hfits
        readError := herror }
    · exact absurd hstep (by simp)

end Counters

theorem counters_start : Counters start where
  slots := List.length_replicate
  rd := rfl
  wr := rfl
  le := Nat.le_refl _
  span := by decide
  writer := by simp [start, WriteCall.Fits]
  reader := by simp [start, ReadCall.Fits]
  writeError := rfl
  readError := rfl

theorem counters_of_reachable {s : State} (h : machine.Reachable s) : Counters s := by
  refine h.invariant ?_ ?_
  · rintro s rfl
    exact counters_start
  · intro s op s' hcounters hstep
    exact hcounters.step hstep

/-- A side reports that the stream changed. -/
def ReportsChanged (s : State) : Prop :=
  s.writeError = true ∨ s.readError = true ∨
    (∃ written dataReady, s.writer = .returned .streamChanged written dataReady) ∨
    ∃ data spaceReady, s.reader = .returned .streamChanged data spaceReady

/-- **No call ever finds the stream changed**: the counters stay within a ring
of each other, also when they pass `2 ^ 32`. -/
theorem Counters.neverChanged {s : State} (h : Counters s) : ¬ ReportsChanged s := by
  rintro (herror | herror | ⟨written, dataReady, hcall⟩ | ⟨data, spaceReady, hcall⟩)
  · exact absurd (h.writeError.symm.trans herror) (by decide)
  · exact absurd (h.readError.symm.trans herror) (by decide)
  · have hfits := h.writer
    rw [hcall] at hfits
    exact hfits rfl
  · have hfits := h.reader
    rw [hcall] at hfits
    exact hfits rfl

end Sbuf
