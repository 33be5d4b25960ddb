/-
What arrives through a shared Bluetooth ring.

The ring's 9216 bytes do not divide `2 ^ 32`, and both sides find a byte's
place from the 32-bit counter alone.  So the places jump when a counter passes
`2 ^ 32`: the 7168 bytes before the wrap and the bytes after it share slots, and
a copy that runs across the wrap goes on in slots that no counter stands for.

* `delivers` — in every run whose copies are all `Clear` the received bytes are
  the first of the sent bytes, the others are in their slots, and no call
  reports a change;
* `wrap_repeats_zeros` — twenty bytes written across the wrap arrive as ten of
  them and ten bytes that were never sent.

A copy is `Clear` if it does not run across the wrap, and a write after the
wrap also finds at most 7168 bytes between the oldest unread one and its own
last one.  The invariant `Contents` speaks of the bytes a running `sbuf_write`
has already copied as part of the window, so that both pieces of a copy are
the same step.
-/
import Fplinux.Cm4.Sbuf

namespace Sbuf

open CounterRing
open List (length_append length_drop length_replicate length_take take_add)

/-! ### Clear copies -/

/-- Bytes after the wrap of the counter and unread ones before it, together,
fit below the place where the wrap cuts the ring. -/
def WrapRoom (rd wr count : ℕ) : Prop :=
  wr < rd → Word.sub 32 wr rd + count ≤ 2 ^ 32 % ringBytes

instance (rd wr count : ℕ) : Decidable (WrapRoom rd wr count) :=
  inferInstanceAs (Decidable (_ → _))

/-- The piece that a running `sbuf_write` copies next is clear. -/
def WriteCall.Clear (rd : ℕ) : WriteCall → Prop
  | .copyFirst _ wr count => wr + count ≤ 2 ^ 32 ∧ WrapRoom rd wr (firstPiece wr count)
  | .copyRest _ wr count => WrapRoom rd wr count
  | _ => True

/-- The bytes that a running `sbuf_read` copies next are clear. -/
def ReadCall.Clear : ReadCall → Prop
  | .copyFirst rd count => rd + count ≤ 2 ^ 32
  | _ => True

/-- A step copies nothing, or what it copies is clear. -/
def Clear (x : Machine.Step State Op) : Prop :=
  (x.op = .writeStep → x.before.writer.Clear x.before.rd) ∧
    (x.op = .readStep → x.before.reader.Clear)

instance (rd : ℕ) : DecidablePred (WriteCall.Clear rd)
  | .copyFirst .. => inferInstanceAs (Decidable (_ ∧ _))
  | .copyRest .. => inferInstanceAs (Decidable (WrapRoom _ _ _))
  | .returned .. | .publish .. | .recheck .. => .isTrue trivial

instance : DecidablePred ReadCall.Clear
  | .copyFirst .. => inferInstanceAs (Decidable (_ ≤ _))
  | .returned .. | .copyRest .. | .publish .. | .recheck .. => .isTrue trivial

instance : DecidablePred Clear := fun _ => inferInstanceAs (Decidable (_ ∧ _))

/-! ### The places -/

variable {s : State} {count k : ℕ}

theorem distinct_pending (h : Counters s) {len : ℕ} (hpos : 0 < len)
    (hfree : s.sent.length + len ≤ s.received.length + ringBytes) (hlap : s.wr + len ≤ 2 ^ 32)
    (hroom : WrapRoom s.rd s.wr len) :
    Distinct (place 32 ringBytes) s.received.length (s.sent.length + len) := by
  have hring := ringBytes_eq
  have hle := h.le
  have hrd := h.rd
  have hwr := h.wr
  by_cases hwrap : s.wr < s.rd
  · -- The window has a multiple of `2 ^ 32` inside: the last one up to the write counter.
    have hsum := hroom hwrap
    rw [h.sub_eq] at hsum
    refine distinct_of_wrap (q := s.sent.length - s.sent.length % 2 ^ 32) (by decide) ?_ ?_ ?_ ?_
    · omega
    · omega
    · omega
    · omega
  · refine distinct_of_lap ?_ (by omega)
    omega

theorem consecutive_firstPiece {counter : ℕ} (hk : counter = k % 2 ^ 32)
    (hlap : counter + count ≤ 2 ^ 32) :
    Consecutive (place 32 ringBytes) k (counter % ringBytes) (firstPiece counter count) := by
  subst hk
  have hle := firstPiece_le (k % 2 ^ 32) count
  exact consecutive_first (by omega) (firstPiece_fits _ _)

theorem consecutive_restPiece {counter : ℕ} (hk : counter = k % 2 ^ 32)
    (hlap : counter + count ≤ 2 ^ 32) (hcount : count ≤ ringBytes)
    (hlt : firstPiece counter count < count) :
    Consecutive (place 32 ringBytes) (k + firstPiece counter count) 0
      (count - firstPiece counter count) := by
  subst hk
  have hfirst := firstPiece_of_lt hlt
  rw [hfirst] at hlt ⊢
  refine consecutive_rest (by decide) ?_ (by omega)
  rw [place]
  omega

/-! ### The contents -/

/-- The bytes of a running `sbuf_write` that are not published yet. -/
def WriteCall.data : WriteCall → List UInt8
  | .copyFirst data _ count | .copyRest data _ count | .publish data _ count => data.take count
  | _ => []

/-- How many of them are in the slots. -/
def WriteCall.copied : WriteCall → ℕ
  | .copyRest _ wr count => firstPiece wr count
  | .publish _ _ count => count
  | _ => 0

/-- A copy that has begun does not run across the wrap. -/
def WriteCall.Lap : WriteCall → Prop
  | .copyRest _ wr count => firstPiece wr count < count ∧ wr + count ≤ 2 ^ 32
  | _ => True

/-- The bytes that a running `sbuf_read` has are the next ones. -/
def ReadCall.Next (s : State) : ReadCall → Prop
  | .copyRest rd count data =>
    rd + count ≤ 2 ^ 32 ∧ data = (s.sent.drop s.received.length).take (firstPiece rd count)
  | .publish _ count data => data = (s.sent.drop s.received.length).take count
  | _ => True

/-- **The slots hold what is unread**, and behind it what the running
`sbuf_write` has copied. -/
structure Contents (s : State) : Prop where
  inOrder : s.received <+: s.sent
  held : HoldsAt (place 32 ringBytes) s.slots s.received.length
    (s.sent.length + s.writer.copied) (fun n => (s.sent ++ s.writer.data)[n]?)
  lap : s.writer.Lap
  next : s.reader.Next s

namespace Contents

variable {s s' : State}

theorem unread (h : Contents s) :
    HoldsAt (place 32 ringBytes) s.slots s.received.length s.sent.length
      (fun n => s.sent[n]?) := by
  have hmono := h.held.mono (Nat.le_refl _) (Nat.le_add_right s.sent.length s.writer.copied)
  refine hmono.congr fun n _ hn => ?_
  exact List.getElem?_append_left hn

theorem next_of_write (hc : Counters s) (h : Contents s) (hreceived : s'.received = s.received)
    (hsent : s.sent <+: s'.sent) : s.reader.Next s' := by
  have hreader := hc.reader
  have hnext := h.next
  obtain ⟨more, hmore⟩ := hsent
  have htake : ∀ len, s.received.length + len ≤ s.sent.length →
      (s'.sent.drop s'.received.length).take len = (s.sent.drop s.received.length).take len := by
    intro len hlen
    rw [hreceived, ← hmore, List.drop_append_of_le_length (by omega),
      List.take_append_of_le_length (by rw [length_drop]; omega)]
  cases hcall : s.reader with
  | returned ret data spaceReady => exact trivial
  | copyFirst rd count => exact trivial
  | recheck rd count data => exact trivial
  | copyRest rd count data =>
    rw [hcall] at hreader hnext
    obtain ⟨-, hunread, hlt, -⟩ := hreader
    obtain ⟨hlap, hdata⟩ := hnext
    refine ⟨hlap, ?_⟩
    rw [htake _ (by omega)]
    exact hdata
  | publish rd count data =>
    rw [hcall] at hreader hnext
    obtain ⟨-, hunread, -⟩ := hreader
    rw [ReadCall.Next, htake _ hunread]
    exact hnext

theorem held_blit (hc : Counters s) {data piece : List UInt8} {done p : ℕ}
    (hheld : HoldsAt (place 32 ringBytes) s.slots s.received.length (s.sent.length + done)
      (fun n => (s.sent ++ data)[n]?))
    (hpiece : ∀ i, i < piece.length → data[done + i]? = piece[i]?)
    (hp : Consecutive (place 32 ringBytes) (s.sent.length + done) p piece.length)
    (hfits : p + piece.length ≤ ringBytes)
    (hdistinct : Distinct (place 32 ringBytes) s.received.length
      (s.sent.length + (done + piece.length))) :
    HoldsAt (place 32 ringBytes) (Ring.blit s.slots p piece) s.received.length
      (s.sent.length + (done + piece.length)) (fun n => (s.sent ++ data)[n]?) := by
  have hslots : p + piece.length ≤ s.slots.length := by
    rw [hc.slots]
    exact hfits
  rw [← Nat.add_assoc] at hdistinct ⊢
  have hold := hheld.blit hslots hp (Nat.le_refl _) hdistinct
  have hnew := holdsAt_blit hslots hp
  refine hold.append (hnew.congr fun n hn hn' => ?_)
  have hi := hpiece (n - (s.sent.length + done)) (by omega)
  have hindex : done + (n - (s.sent.length + done)) = n - s.sent.length := by omega
  rw [hindex] at hi
  rw [List.getElem?_append_right (by omega), hi]

theorem writeStep (hc : Counters s) (h : Contents s) (hclear : s.writer.Clear s.rd)
    (hstep : Sbuf.writeStep s = some s') : Contents s' := by
  have hring := ringBytes_eq
  have hwriter := hc.writer
  have hle := hc.le
  have hlapped := h.lap
  have hheld := h.held
  rw [Sbuf.writeStep] at hstep
  cases hcall : s.writer with
  | returned ret written dataReady =>
    rw [hcall] at hstep
    exact absurd hstep (by simp)
  | copyFirst data wr count =>
    rw [hcall] at hstep hwriter hclear hheld
    simp only [WriteCall.copied, WriteCall.data] at hheld
    obtain ⟨rfl, hpos, hlen, hfree⟩ := hwriter
    obtain ⟨hlap, hroom⟩ := hclear
    obtain rfl := Option.some.inj hstep
    have hfirst := firstPiece_le s.wr count
    have hfits := firstPiece_fits s.wr count
    have hfirstPos : 0 < firstPiece s.wr count := by
      have hlt : s.wr % ringBytes < ringBytes := Nat.mod_lt _ (by decide)
      rw [firstPiece]
      omega
    have hpiece : (data.take (firstPiece s.wr count)).length = firstPiece s.wr count := by
      rw [length_take]
      omega
    have hcopied : ∀ i, i < (data.take (firstPiece s.wr count)).length →
        (data.take count)[0 + i]? = (data.take (firstPiece s.wr count))[i]? := by
      intro i hi
      rw [Nat.zero_add, List.getElem?_take_of_lt (by omega), List.getElem?_take_of_lt (by omega)]
    have hwindow := held_blit hc hheld hcopied
      (hpiece.symm ▸ consecutive_firstPiece hc.wr hlap) (hpiece.symm ▸ hfits)
      (by
        rw [hpiece, Nat.zero_add]
        exact distinct_pending hc hfirstPos (by omega) (by omega) hroom)
    rw [hpiece, Nat.zero_add] at hwindow
    by_cases hlt : firstPiece s.wr count < count
    · simp only [hlt, if_true]
      exact { inOrder := h.inOrder, held := hwindow, lap := ⟨hlt, hlap⟩, next := h.next }
    · have hall : firstPiece s.wr count = count := by omega
      simp only [hlt, if_false]
      rw [hall] at hwindow ⊢
      exact { inOrder := h.inOrder, held := hwindow, lap := trivial, next := h.next }
  | copyRest data wr count =>
    rw [hcall] at hstep hwriter hclear hlapped hheld
    simp only [WriteCall.copied, WriteCall.data] at hheld
    obtain ⟨rfl, hpos, hlen, hfree⟩ := hwriter
    obtain ⟨hlt, hlap⟩ := hlapped
    obtain rfl := Option.some.inj hstep
    have hpiece : ((data.drop (firstPiece s.wr count)).take
        (count - firstPiece s.wr count)).length = count - firstPiece s.wr count := by
      rw [length_take, length_drop]
      omega
    have hsum : firstPiece s.wr count + (count - firstPiece s.wr count) = count := by omega
    have hcopied : ∀ i, i < ((data.drop (firstPiece s.wr count)).take
        (count - firstPiece s.wr count)).length →
        (data.take count)[firstPiece s.wr count + i]? =
          ((data.drop (firstPiece s.wr count)).take (count - firstPiece s.wr count))[i]? := by
      intro i hi
      rw [List.getElem?_take_of_lt (by omega), List.getElem?_take_of_lt (by omega),
        List.getElem?_drop]
    have hwindow := held_blit hc hheld hcopied
      (hpiece.symm ▸ consecutive_restPiece hc.wr hlap (by omega) hlt)
      (by
        rw [hpiece]
        omega)
      (by
        rw [hpiece, hsum]
        exact distinct_pending hc hpos hfree hlap hclear)
    rw [hpiece, hsum] at hwindow
    exact { inOrder := h.inOrder, held := hwindow, lap := trivial, next := h.next }
  | publish data wr count =>
    rw [hcall] at hstep hwriter hheld
    obtain ⟨rfl, hpos, hlen, hfree⟩ := hwriter
    obtain rfl := Option.some.inj hstep
    have hsent : (s.sent ++ data.take count).length = s.sent.length + count := by
      rw [length_append, length_take, Nat.min_eq_left hlen]
    have hnext : s.reader.Next { s with
        wr := Word.add 32 s.wr count
        sent := s.sent ++ data.take count
        writer := .recheck s.wr count } :=
      next_of_write hc h rfl (List.prefix_append _ _)
    refine
      { inOrder := h.inOrder.trans (List.prefix_append _ _)
        held := ?_
        lap := trivial
        next := hnext }
    simp only [WriteCall.copied, WriteCall.data, Nat.add_zero, List.append_nil, hsent] at hheld ⊢
    exact hheld
  | recheck wr count =>
    simp only [hcall] at hstep
    rw [hcall] at hheld
    split at hstep
    · obtain rfl := Option.some.inj hstep
      exact { inOrder := h.inOrder, held := hheld, lap := trivial, next := h.next }
    · obtain rfl := Option.some.inj hstep
      exact { inOrder := h.inOrder, held := hheld, lap := trivial, next := h.next }

theorem readStep (hc : Counters s) (h : Contents s) (hclear : s.reader.Clear)
    (hstep : Sbuf.readStep s = some s') : Contents s' := by
  have hreader := hc.reader
  have hnext := h.next
  have hunreadHeld := h.unread
  rw [Sbuf.readStep] at hstep
  cases hcall : s.reader with
  | returned ret data spaceReady =>
    rw [hcall] at hstep
    exact absurd hstep (by simp)
  | copyFirst rd count =>
    rw [hcall] at hstep hreader hclear
    obtain ⟨rfl, hunread⟩ := hreader
    have hlap : s.rd + count ≤ 2 ^ 32 := hclear
    obtain rfl := Option.some.inj hstep
    have hfirst := firstPiece_le s.rd count
    have hdata := hunreadHeld.slice (consecutive_firstPiece hc.rd hlap) (Nat.le_refl _)
      (by omega)
    refine { h with next := ?_ }
    by_cases hlt : firstPiece s.rd count < count
    · simp only [hlt, if_true]
      exact ⟨hlap, hdata⟩
    · have hall : firstPiece s.rd count = count := by omega
      simp only [hlt, if_false]
      rw [hall] at hdata ⊢
      exact hdata
  | copyRest rd count data =>
    rw [hcall] at hstep hreader hnext
    obtain ⟨rfl, hunread, hlt, -⟩ := hreader
    obtain ⟨hlap, rfl⟩ := hnext
    obtain rfl := Option.some.inj hstep
    have hspan := hc.span
    have hrest := hunreadHeld.slice (consecutive_restPiece hc.rd hlap (by omega) hlt)
      (by omega) (by omega)
    rw [List.drop_zero] at hrest
    refine { h with next := ?_ }
    show _ = (s.sent.drop s.received.length).take count
    rw [hrest, ← List.drop_drop, ← take_add, Nat.add_sub_cancel' (by omega)]
  | publish rd count data =>
    rw [hcall] at hstep hreader hnext
    obtain ⟨rfl, hunread, hlength⟩ := hreader
    have hdata : data = (s.sent.drop s.received.length).take count := hnext
    obtain rfl := Option.some.inj hstep
    refine { h with inOrder := ?_, held := ?_, next := trivial }
    · have hreceived : s.received = s.sent.take s.received.length :=
        List.prefix_iff_eq_take.mp h.inOrder
      have hsum : s.received ++ data = s.sent.take (s.received.length + count) := by
        rw [take_add, ← hreceived, ← hdata]
      show s.received ++ data <+: s.sent
      rw [hsum]
      exact List.take_prefix _ _
    · refine h.held.mono ?_ (Nat.le_refl _)
      rw [length_append]
      omega
  | recheck rd count data =>
    simp only [hcall] at hstep
    split at hstep
    · obtain rfl := Option.some.inj hstep
      exact { h with next := trivial }
    · obtain rfl := Option.some.inj hstep
      exact { h with next := trivial }

theorem write (s : State) (data : List UInt8) (wholeCommand : Bool) :
    (Sbuf.write s data wholeCommand).1.copied = 0 ∧
      (Sbuf.write s data wholeCommand).1.Lap := by
  simp only [Sbuf.write]
  split_ifs
  all_goals exact ⟨rfl, trivial⟩

theorem read (s s' : State) (capacity : ℕ) : (Sbuf.read s capacity).1.Next s' := by
  simp only [Sbuf.read]
  split_ifs
  all_goals exact trivial

theorem step (hc : Counters s) (h : Contents s) {op : Op} (hclear : Clear ⟨s, op, s'⟩)
    (hstep : Sbuf.step s op = some s') : Contents s' := by
  cases op with
  | writeStep => exact h.writeStep hc (hclear.1 rfl) hstep
  | readStep => exact h.readStep hc (hclear.2 rfl) hstep
  | write data wholeCommand =>
    rw [Sbuf.step] at hstep
    split at hstep
    · obtain rfl := Option.some.inj hstep
      obtain ⟨hcopied, hlap⟩ := write s data wholeCommand
      refine { inOrder := h.inOrder, held := ?_, lap := hlap, next := h.next }
      simp only [hcopied, Nat.add_zero]
      refine h.unread.congr fun n _ hn => ?_
      exact (List.getElem?_append_left hn).symm
    · exact absurd hstep (by simp)
  | read capacity =>
    rw [Sbuf.step] at hstep
    split at hstep
    · obtain rfl := Option.some.inj hstep
      exact { h with next := read s _ capacity }
    · exact absurd hstep (by simp)

end Contents

theorem contents_start : Contents start where
  inOrder := List.prefix_refl _
  held := by
    intro n _ hn
    exact absurd hn (Nat.not_lt_zero n)
  lap := trivial
  next := trivial

/-! ### Runs -/

/-- A ring delivers the stream: the received bytes are the first of the sent
ones, the others can still be read, all of them are received when the counters
meet, and no side has reported a change. -/
structure Delivers (s : State) : Prop where
  inOrder : s.received <+: s.sent
  unread : ∀ n, s.received.length ≤ n → n < s.sent.length →
    s.slots[place 32 ringBytes n]? = s.sent[n]?
  drained : s.rd = s.wr → s.received = s.sent
  unchanged : ¬ ReportsChanged s

theorem Contents.delivered (hc : Counters s) (h : Contents s) : Delivers s where
  inOrder := h.inOrder
  unread := h.unread
  drained := by
    intro heq
    have hsub := hc.sub_eq
    have hle := hc.le
    rw [heq, Word.sub_eq (by rw [hc.wr]; exact Nat.mod_lt _ (by decide)) (Nat.le_refl _),
      Nat.sub_self] at hsub
    exact h.inOrder.eq_of_length (by omega)
  unchanged := hc.neverChanged

/-- **A ring delivers the stream in every run of clear copies.** -/
theorem delivers {l : List (Machine.Step State Op)} {s : State} (h : machine.Trace l s)
    (hclear : ∀ x ∈ l, Clear x) : Delivers s := by
  have hinv : Counters s ∧ Contents s := by
    refine h.invariant (P := fun _ s => Counters s ∧ Contents s) ?_ ?_ hclear
    · rintro s rfl
      exact ⟨counters_start, contents_start⟩
    · rintro l s op s' ⟨hcounters, hcontents⟩ hstep hclear
      exact ⟨hcounters.step hstep, hcontents.step hcounters hclear hstep⟩
  exact hinv.2.delivered hinv.1

/-- A short stream. -/
def shortOps : List Op :=
  [.write [1, 2, 3] false, .writeStep, .read 2, .writeStep, .writeStep, .read 2, .readStep,
    .readStep, .readStep]

theorem delivers_short :
    ∃ l s, machine.Trace l s ∧ s.sent = [1, 2, 3] ∧ s.received = [1, 2] ∧ Delivers s := by
  have hfields : (Machine.runOps step shortOps start).map (fun s => (s.sent, s.received)) =
      some ([1, 2, 3], [1, 2]) := by decide +kernel
  have hclear : ∀ x ∈ Machine.runSteps step start shortOps, Clear x := by decide +kernel
  obtain ⟨s, hrun, hs⟩ := Option.map_eq_some_iff.mp hfields
  obtain ⟨hsent, hreceived⟩ := Prod.mk.inj hs
  have htrace := (Machine.Trace.start (S := machine) rfl).runOps (fun _ _ _ hstep => hstep) hrun
  exact ⟨_, s, htrace, hsent, hreceived, delivers htrace hclear⟩

/-! ### A write across the wrap -/

theorem run_write {data : List UInt8} {ret : Ret} {written : ℕ} {ready : Bool}
    (hidle : s.writer = .returned ret written ready) (herror : s.writeError = false)
    (hdata : data ≠ []) (hroom : Word.sub 32 s.wr s.rd + data.length ≤ ringBytes)
    (hpublished : Word.sub 32 (Word.add 32 s.wr data.length) s.rd ≤ ringBytes)
    (hpiece : s.wr % ringBytes + data.length ≤ ringBytes) :
    Machine.runOps step [.write data false, .writeStep, .writeStep, .writeStep] s =
      some { s with
        slots := Ring.blit s.slots (s.wr % ringBytes) data
        wr := Word.add 32 s.wr data.length
        sent := s.sent ++ data
        writer := .returned .ok data.length (s.rd == s.wr) } := by
  have hpos : 0 < data.length := List.length_pos_iff.mpr hdata
  have hvalid : countersValid s.rd s.wr = true := decide_eq_true (by omega)
  have hcount : min data.length (ringBytes - Word.sub 32 s.wr s.rd) = data.length := by omega
  have hfirst : firstPiece s.wr data.length = data.length := by
    rw [firstPiece]
    omega
  have hload : write s data false = (.copyFirst data s.wr data.length, false) := by
    simp only [write, herror, hvalid, hcount]
    simp [hdata]
  simp only [Machine.runOps, step, hidle, hload, writeStep, hfirst, Nat.lt_irrefl, if_false,
    Option.bind_some, List.take_length]
  rw [if_neg (by omega), herror]
  rfl

theorem run_read {ret : Ret} {data : List UInt8} {ready : Bool}
    (hidle : s.reader = .returned ret data ready) (herror : s.readError = false) (hpos : 0 < count)
    (hunread : count ≤ Word.sub 32 s.wr s.rd) (hvalid : Word.sub 32 s.wr s.rd ≤ ringBytes)
    (hreleased : Word.sub 32 (Word.sub 32 s.wr s.rd) count ≤ ringBytes)
    (hpiece : s.rd % ringBytes + count ≤ ringBytes) :
    Machine.runOps step [.read count, .readStep, .readStep, .readStep] s =
      some { s with
        rd := Word.add 32 s.rd count
        received := s.received ++ (s.slots.drop (s.rd % ringBytes)).take count
        reader := .returned .ok ((s.slots.drop (s.rd % ringBytes)).take count)
          (Word.sub 32 s.wr s.rd == ringBytes) } := by
  have hcounters : countersValid s.rd s.wr = true := decide_eq_true hvalid
  have hcount : min count (Word.sub 32 s.wr s.rd) = count := Nat.min_eq_left hunread
  have hfirst : firstPiece s.rd count = count := by
    rw [firstPiece]
    omega
  have hload : read s count = (.copyFirst s.rd count, false) := by
    simp only [read, herror, hcounters, hcount]
    simp [Nat.ne_of_gt hpos]
  simp only [Machine.runOps, step, hidle, hload, readStep, hfirst, Nat.lt_irrefl, if_false,
    Option.bind_some]
  rw [if_neg (by omega), herror]
  rfl

/-- No call is running. -/
def Idle (s : State) : Prop :=
  (∃ ret written ready, s.writer = .returned ret written ready) ∧
    ∃ ret data ready, s.reader = .returned ret data ready

theorem exists_write (h : machine.Reachable s) (hidle : Idle s) (data : List UInt8)
    (hdata : data ≠ []) (hroom : s.sent.length + data.length ≤ s.received.length + ringBytes)
    (hpiece : s.wr % ringBytes + data.length ≤ ringBytes) :
    ∃ s', machine.Reachable s' ∧ Idle s' ∧
      s'.slots = Ring.blit s.slots (s.wr % ringBytes) data ∧ s'.rd = s.rd ∧
      s'.sent = s.sent ++ data ∧ s'.received = s.received := by
  obtain ⟨⟨ret, written, ready, hwriter⟩, hreader⟩ := hidle
  have hcounters := counters_of_reachable h
  have hring := ringBytes_eq
  have hle := hcounters.le
  have hsub := hcounters.sub_eq
  have hpublished : Word.sub 32 (Word.add 32 s.wr data.length) s.rd
      = s.sent.length + data.length - s.received.length := by
    rw [hcounters.wr, hcounters.rd, Word.add_mod, Word.sub_mod (by omega) (by omega)]
  have hrun := run_write hwriter hcounters.writeError hdata (by omega) (by omega) hpiece
  exact ⟨_, h.runOps (fun _ _ _ hstep => hstep) hrun, ⟨⟨_, _, _, rfl⟩, hreader⟩, rfl, rfl, rfl,
    rfl⟩

theorem exists_read (h : machine.Reachable s) (hidle : Idle s) (count : ℕ) (hpos : 0 < count)
    (hunread : s.received.length + count ≤ s.sent.length)
    (hpiece : s.rd % ringBytes + count ≤ ringBytes) :
    ∃ s', machine.Reachable s' ∧ Idle s' ∧ s'.slots = s.slots ∧
      s'.rd = Word.add 32 s.rd count ∧ s'.sent = s.sent ∧
      s'.received = s.received ++ (s.slots.drop (s.rd % ringBytes)).take count := by
  obtain ⟨hwriter, ⟨ret, data, ready, hreader⟩⟩ := hidle
  have hcounters := counters_of_reachable h
  have hring := ringBytes_eq
  have hspan := hcounters.span
  have hsub := hcounters.sub_eq
  have hreleased : Word.sub 32 (Word.sub 32 s.wr s.rd) count
      = s.sent.length - s.received.length - count := by
    rw [hsub, Word.sub_eq (by omega) (by omega)]
  have hrun := run_read hreader hcounters.readError hpos (by omega) (by omega) (by omega) hpiece
  exact ⟨_, h.runOps (fun _ _ _ hstep => hstep) hrun, ⟨hwriter, ⟨_, _, _, rfl⟩⟩, rfl, rfl, rfl,
    rfl⟩

/-- `n` zeros went through, and the ring is empty and still all zeros. -/
structure Drained (n : ℕ) (s : State) : Prop where
  reachable : machine.Reachable s
  idle : Idle s
  slots : s.slots = List.replicate ringBytes 0
  sent : s.sent = List.replicate n 0
  received : s.received = List.replicate n 0

theorem blit_replicate {α : Type*} (x : α) {n p : ℕ} (h : p + k ≤ n) :
    Ring.blit (List.replicate n x) p (List.replicate k x) = List.replicate n x := by
  rw [Ring.blit, List.take_replicate, List.drop_replicate, length_replicate,
    List.replicate_append_replicate, List.replicate_append_replicate]
  congr 1
  omega

namespace Drained

variable {n : ℕ} {s : State}

theorem rd (h : Drained n s) : s.rd = n % 2 ^ 32 := by
  rw [(counters_of_reachable h.reachable).rd, h.received, length_replicate]

theorem wr (h : Drained n s) : s.wr = n % 2 ^ 32 := by
  rw [(counters_of_reachable h.reachable).wr, h.sent, length_replicate]

theorem pass (h : Drained n s) {k : ℕ} (hpos : 0 < k)
    (hpiece : n % 2 ^ 32 % ringBytes + k ≤ ringBytes) : ∃ s', Drained (n + k) s' := by
  have hroom : s.sent.length + (List.replicate k (0 : UInt8)).length
      ≤ s.received.length + ringBytes := by
    rw [h.sent, h.received, length_replicate, length_replicate]
    omega
  obtain ⟨t, hreachable, hidle, hslots, hrd, hsent, hreceived⟩ := exists_write h.reachable h.idle
    (List.replicate k 0) (by simpa using Nat.ne_of_gt hpos) hroom (by rw [h.wr, length_replicate]; exact hpiece)
  rw [h.wr, h.slots, blit_replicate _ hpiece] at hslots
  rw [h.sent, List.replicate_append_replicate] at hsent
  rw [h.received] at hreceived
  rw [h.rd] at hrd
  obtain ⟨s', hreachable', hidle', hslots', -, hsent', hreceived'⟩ := exists_read hreachable hidle
    k hpos (by simp only [hsent, hreceived, length_replicate, Nat.le_refl])
    (by rw [hrd]; exact hpiece)
  refine ⟨s', hreachable', hidle', hslots'.trans hslots, hsent'.trans hsent, ?_⟩
  have hunread : k ≤ ringBytes - n % 2 ^ 32 % ringBytes := by omega
  rw [hreceived', hslots, hrd, hreceived, List.drop_replicate, List.take_replicate,
    Nat.min_eq_left hunread, List.replicate_append_replicate]

theorem rounds : ∀ r, r ≤ 466033 → ∃ s, Drained (r * ringBytes) s := by
  intro r
  induction r with
  | zero =>
    intro _
    exact ⟨start, .start rfl, ⟨⟨_, _, _, rfl⟩, ⟨_, _, _, rfl⟩⟩, rfl, by simp [start],
      by simp [start]⟩
  | succ r ih =>
    intro hr
    have hring := ringBytes_eq
    obtain ⟨s, hs⟩ := ih (by omega)
    have hlt : r * ringBytes < 2 ^ 32 := by
      rw [hring]
      omega
    have hplace : r * ringBytes % 2 ^ 32 % ringBytes = 0 := by
      rw [Nat.mod_eq_of_lt hlt, Nat.mul_mod_left]
    rw [Nat.succ_mul]
    exact hs.pass (by omega) (by omega)

end Drained

/-- Twenty bytes that are not zero. -/
def wrapBytes : List UInt8 :=
  [1, 2, 3, 4, 5, 6, 7, 8, 9, 10, 11, 12, 13, 14, 15, 16, 17, 18, 19, 20]

/-- **The stream breaks at the wrap of the counters.**  After 4294967286 zeros
the producer sends twenty bytes in one call and the consumer reads them in two.
The second call starts at counter 0, which is slot 0, and finds old zeros
there: the twenty bytes lie in slots 7158 to 7177. -/
theorem wrap_repeats_zeros :
    ∃ s, machine.Reachable s ∧ s.sent[4294967296]? = some 11 ∧
      s.received[4294967296]? = some 0 ∧ ¬ Delivers s := by
  obtain ⟨s₀, h₀⟩ := Drained.rounds 466033 (Nat.le_refl _)
  obtain ⟨s, h⟩ := h₀.pass (k := 7158) (by decide) (by decide)
  have hrd : s.rd = 4294967286 := h.rd
  have hwr : s.wr = 4294967286 := h.wr
  have hn : 466033 * ringBytes + 7158 = 4294967286 := rfl
  have hsent := h.sent
  have hreceived := h.received
  rw [hn] at hsent hreceived
  obtain ⟨s₁, hreachable₁, hidle₁, hslots₁, hrd₁, hsent₁, hreceived₁⟩ := exists_write
    h.reachable h.idle wrapBytes (by decide)
    (by rw [hsent, hreceived, length_replicate]; decide) (by rw [hwr]; decide)
  rw [hwr, h.slots] at hslots₁
  rw [hrd] at hrd₁
  rw [hsent] at hsent₁
  rw [hreceived] at hreceived₁
  have hlength₁ : s₁.sent.length = 4294967306 := by
    rw [hsent₁, length_append, length_replicate]
    rfl
  obtain ⟨s₂, hreachable₂, hidle₂, hslots₂, hrd₂, hsent₂, hreceived₂⟩ := exists_read
    hreachable₁ hidle₁ 10 (by decide)
    (by rw [hlength₁, hreceived₁, length_replicate]; decide) (by rw [hrd₁]; decide)
  -- The second read finds counter 0 and so starts at slot 0.
  have hzero : s₂.rd = 0 := by
    rw [hrd₂, hrd₁]
    rfl
  have hread : ((s₁.slots.drop (s₁.rd % ringBytes)).take 10).length = 10 := by
    have hslots := (counters_of_reachable hreachable₁).slots
    rw [length_take, length_drop, hslots, hrd₁]
    rfl
  have hlength₂ : s₂.received.length = 4294967296 := by
    rw [hreceived₂, hreceived₁, length_append, length_replicate, hread]
  obtain ⟨s₃, hreachable₃, -, -, -, hsent₃, hreceived₃⟩ := exists_read
    hreachable₂ hidle₂ 10 (by decide)
    (by rw [hsent₂]; omega) (by rw [hzero]; decide)
  have htaken : (s₂.slots.drop (s₂.rd % ringBytes)).take 10 = List.replicate 10 0 := by
    rw [hslots₂, hslots₁, hzero, Ring.blit, List.take_replicate]
    rfl
  have hgot : s₃.received[4294967296]? = some 0 := by
    rw [hreceived₃, htaken, List.getElem?_append_right (by omega), hlength₂]
    rfl
  have hwanted : s₃.sent[4294967296]? = some 11 := by
    rw [hsent₃, hsent₂, hsent₁, List.getElem?_append_right (by rw [length_replicate]; decide),
      length_replicate]
    rfl
  refine ⟨s₃, hreachable₃, hwanted, hgot, fun hdelivers => ?_⟩
  obtain ⟨rest, hrest⟩ := hdelivers.inOrder
  obtain ⟨hlt, -⟩ := List.getElem?_eq_some_iff.mp hgot
  rw [← hrest, List.getElem?_append_left hlt, hgot] at hwanted
  exact absurd hwanted (by decide)

end Sbuf
