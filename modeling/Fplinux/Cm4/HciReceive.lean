/-
What the Bluetooth transport hands to the HCI core (`cm4-hci.c`).

`h4_recv_buf` keeps the bytes of an incomplete frame, and `rx_discard` says what
becomes of it: a close in the middle of a frame sets it, and it stays set until
the frame is complete, also when the device is open again by then.  The history
keeps when each byte was read, so that a delivered frame can be asked whether
the device was open from then on (`Delivery.WhileOpen`).

* `Splits`: what `h4_recv_buf` is relied on for;
* `frames_whole`: what is sent and what is delivered, under any order of calls;
* `h4Recv`: a splitter of H4 frames that meets `Splits`;
* `aligned_of_reachable`: how the frames lie in the ring.
-/
import Fplinux.Cm4.HciTransmit

namespace Hci

open List (append_assoc drop_left flatten_cons length_append map_cons map_drop map_take mem_cons
  mem_map nil_prefix)

variable {recv : Recv} {Incomplete : List UInt8 → Prop} {s s' : State} {r : Runtime}

/-- **What `h4_recv_buf` does**: it cuts the bytes into frames in order, and
returns a buffer exactly while a frame is incomplete, so that the first frame
it completes is the one it kept. -/
structure Splits (recv : Recv) (Incomplete : List UInt8 → Prop) : Prop where
  nil : Incomplete []
  rest : ∀ {skb input : List UInt8} {frames : List (List UInt8)} {rest : List UInt8},
    Incomplete skb → recv skb input = (frames, .ok rest) →
      frames.flatten ++ rest = skb ++ input ∧ Incomplete rest
  error : ∀ {skb input : List UInt8} {frames : List (List UInt8)} {ret : ℤ},
    Incomplete skb → recv skb input = (frames, .error ret) → frames.flatten <+: skb ++ input
  first : ∀ {skb input frame : List UInt8} {frames : List (List UInt8)},
    Incomplete skb → (recv skb input).1 = frame :: frames → skb <+: frame

/-! ### Time -/

/-- The device was open after each step from a time on. -/
def OpenFrom (opens : List Bool) (time : ℕ) : Prop :=
  ∀ i, time ≤ i → i < opens.length → opens[i]? = some true

/-- The device was open from the time each byte of the frame was read to the
time the HCI core got it. -/
def Delivery.WhileOpen (d : Delivery) (opens : List Bool) : Prop :=
  d.read.map (·.1) = d.frame ∧
    ∀ read ∈ d.read, read.2 ≤ d.time ∧ ∀ i, read.2 ≤ i → i ≤ d.time → opens[i]? = some true

/-- A byte read by now, with the device open since. -/
def Fresh (opens : List Bool) (read : UInt8 × ℕ) : Prop :=
  read.2 ≤ opens.length ∧ OpenFrom opens read.2

variable {opens : List Bool} {time : ℕ} {h : History}

theorem OpenFrom.append (h : OpenFrom opens time) : OpenFrom (opens ++ [true]) time := by
  intro i hle hlt
  rw [length_append, List.length_singleton] at hlt
  rcases Nat.lt_succ_iff_lt_or_eq.mp hlt with hold | rfl
  · rw [List.getElem?_append_left hold]
    exact h i hle hold
  · rw [List.getElem?_append_right (Nat.le_refl _), Nat.sub_self]
    rfl

theorem Fresh.append {read : UInt8 × ℕ} (h : Fresh opens read) : Fresh (opens ++ [true]) read :=
  ⟨by rw [length_append]; exact Nat.le_add_right_of_le h.1, h.2.append⟩

theorem fresh_now (opens : List Bool) (b : UInt8) : Fresh opens (b, opens.length) :=
  ⟨Nat.le_refl _, fun _ hle hlt => absurd hlt (Nat.not_lt.mpr hle)⟩

theorem Delivery.WhileOpen.append {d : Delivery} (h : d.WhileOpen opens) (opened : Bool) :
    d.WhileOpen (opens ++ [opened]) := by
  refine ⟨h.1, fun read hread => ⟨(h.2 read hread).1, fun i hle hlast => ?_⟩⟩
  have hopen := (h.2 read hread).2 i hle hlast
  obtain ⟨hlt, -⟩ := List.getElem?_eq_some_iff.mp hopen
  rw [List.getElem?_append_left hlt]
  exact hopen

theorem whileOpen_now {read : List (UInt8 × ℕ)} {frame : List UInt8}
    (hframe : read.map (·.1) = frame) (hfresh : ∀ x ∈ read, Fresh opens x) :
    Delivery.WhileOpen ⟨frame, read, opens.length⟩ (opens ++ [true]) := by
  refine ⟨hframe, fun x hx => ⟨(hfresh x hx).1, fun i hle hlast => ?_⟩⟩
  exact (hfresh x hx).append.2 i hle (by rw [length_append]; exact Nat.lt_succ_of_le hlast)

/-! ### The receive half of the record -/

/-- The fields that say what is received. -/
structure RxPart where
  skb : List UInt8
  discard : Bool
  opened : Bool
  running : Bool

def Runtime.rxPart (r : Runtime) : RxPart := ⟨r.rxSkb, r.rxDiscard, r.opened, r.running⟩

theorem rxPart_observePmReply (r : Runtime) (frame : List UInt8) :
    (observePmReply r frame).rxPart = r.rxPart := by
  simp only [observePmReply]
  split_ifs
  · rfl
  · rfl
  · rfl

theorem receiveFrame_spec (r : Runtime) (frame : List UInt8) :
    (receiveFrame r frame).1 = !r.rxDiscard ∧
      (receiveFrame r frame).2.rxPart = { r.rxPart with discard := !r.opened } := by
  have hpart := rxPart_observePmReply r frame
  simp only [Runtime.rxPart, RxPart.mk.injEq] at hpart
  obtain ⟨hskb, hdiscard, hopened, hrunning⟩ := hpart
  refine ⟨?_, ?_⟩
  · simp only [receiveFrame, hdiscard]
  · simp only [receiveFrame, Runtime.rxPart, hskb, hopened, hrunning]

/-- **The first frame goes by the flag as it was**, the others by whether the
device is open. -/
theorem receiveFrames_cons (r : Runtime) (frame : List UInt8) (frames : List (List UInt8)) :
    (receiveFrames r (frame :: frames)).1 = (frame, !r.rxDiscard) :: frames.map (·, r.opened) ∧
      (receiveFrames r (frame :: frames)).2.rxPart = { r.rxPart with discard := !r.opened } := by
  induction frames generalizing r frame with
  | nil =>
    obtain ⟨hpassed, hpart⟩ := receiveFrame_spec r frame
    exact ⟨by rw [receiveFrames, hpassed]; rfl, hpart⟩
  | cons next frames ih =>
    obtain ⟨hpassed, hpart⟩ := receiveFrame_spec r frame
    have hdiscard : (receiveFrame r frame).2.rxDiscard = !r.opened := congrArg RxPart.discard hpart
    have hopened : (receiveFrame r frame).2.opened = r.opened := congrArg RxPart.opened hpart
    obtain ⟨hflags, hlast⟩ := ih (receiveFrame r frame).2 next
    refine ⟨?_, ?_⟩
    · rw [receiveFrames, hpassed, hflags, hdiscard, hopened, Bool.not_not]
      rfl
    · rw [receiveFrames, hlast, hpart, hopened]

theorem deliveries_mem {d : Delivery} :
    ∀ {frames : List (List UInt8 × Bool)} {read : List (UInt8 × ℕ)},
      (frames.map (·.1)).flatten <+: read.map (·.1) → d ∈ deliveries time frames read →
      d.time = time ∧ d.read.map (·.1) = d.frame ∧ d.read ⊆ read ∧ ∃ x ∈ frames, x.2 = true := by
  intro frames
  induction frames with
  | nil =>
    intro read _ hmem
    exact absurd hmem List.not_mem_nil
  | cons head frames ih =>
    intro read hfront hmem
    obtain ⟨frame, passed⟩ := head
    simp only [map_cons, flatten_cons] at hfront
    have hhead : (read.take frame.length).map (·.1) = frame := by
      obtain ⟨tail, htail⟩ := hfront
      rw [map_take, ← htail, append_assoc, List.take_left]
    have htail : (frames.map (·.1)).flatten <+: (read.drop frame.length).map (·.1) := by
      obtain ⟨tail, htail⟩ := hfront
      refine ⟨tail, ?_⟩
      rw [map_drop, ← htail, append_assoc, drop_left]
    have hlater : d ∈ deliveries time frames (read.drop frame.length) →
        d.time = time ∧ d.read.map (·.1) = d.frame ∧ d.read ⊆ read ∧
          ∃ x ∈ (frame, passed) :: frames, x.2 = true := by
      intro hin
      obtain ⟨htime, hframe, hsub, x, hx, hpassed⟩ := ih htail hin
      refine ⟨htime, hframe, fun y hy => List.mem_of_mem_drop (hsub hy), x, ?_, hpassed⟩
      exact List.mem_cons_of_mem _ hx
    cases passed with
    | false => exact hlater hmem
    | true =>
      rcases mem_cons.mp hmem with rfl | hin
      · exact ⟨rfl, hhead, List.take_subset _ _, _, List.mem_cons_self, rfl⟩
      · exact hlater hin

theorem receiveFrames_fst (r : Runtime) (frames : List (List UInt8)) :
    (receiveFrames r frames).1.map (·.1) = frames := by
  induction frames generalizing r with
  | nil => rfl
  | cons frame frames ih =>
    rw [receiveFrames, map_cons]
    exact congrArg (List.cons frame) (ih _)

/-- **What `receive_frame` does with the frames of a chunk.**  `kept` are the
bytes before it, which belong to the first frame. -/
theorem receiveFrames_fresh {frames : List (List UInt8)} {kept read : List (UInt8 × ℕ)}
    (hfront : frames.flatten <+: (kept ++ read).map (·.1))
    (hfirst : ∀ frame ∈ frames.head?, kept.length ≤ frame.length)
    (hkept : r.rxDiscard = false → r.opened = true ∧ ∀ x ∈ kept, Fresh opens x)
    (hread : r.opened = true → ∀ x ∈ read, Fresh opens x) :
    (∀ d ∈ deliveries opens.length (receiveFrames r frames).1 (kept ++ read),
      d.WhileOpen (opens ++ [r.opened])) ∧
    ((receiveFrames r frames).2.rxDiscard = false →
      r.opened = true ∧ ∀ x ∈ (kept ++ read).drop frames.flatten.length, Fresh opens x) := by
  have hall : r.rxDiscard = false → r.opened = true ∧ ∀ x ∈ kept ++ read, Fresh opens x := by
    intro hpasses
    obtain ⟨hopened, hfresh⟩ := hkept hpasses
    refine ⟨hopened, fun x hx => ?_⟩
    rcases List.mem_append.mp hx with hold | hnew
    · exact hfresh x hold
    · exact hread hopened x hnew
  cases frames with
  | nil =>
    refine ⟨fun d hd => absurd hd List.not_mem_nil, fun hpasses => ?_⟩
    exact hall hpasses
  | cons frame frames =>
    obtain ⟨hflags, hpart⟩ := receiveFrames_cons r frame frames
    have hdiscard : (receiveFrames r (frame :: frames)).2.rxDiscard = !r.opened :=
      congrArg RxPart.discard hpart
    have hlong : kept.length ≤ frame.length := hfirst frame rfl
    -- the bytes after the first frame are all new
    have hnew : ∀ n, frame.length ≤ n → (kept ++ read).drop n ⊆ read := by
      intro n hn
      rw [List.drop_append, List.drop_of_length_le (Nat.le_trans hlong hn), List.nil_append]
      exact List.drop_subset _ _
    refine ⟨?_, ?_⟩
    · rw [hflags]
      have hhead : frame ++ frames.flatten <+: (kept ++ read).map (·.1) := hfront
      have htake : ((kept ++ read).take frame.length).map (·.1) = frame := by
        obtain ⟨tail, htail⟩ := hhead
        rw [map_take, ← htail, append_assoc, List.take_left]
      have hrest : ((frames.map (·, r.opened)).map (·.1)).flatten <+:
          ((kept ++ read).drop frame.length).map (·.1) := by
        obtain ⟨tail, htail⟩ := hhead
        refine ⟨tail, ?_⟩
        rw [List.map_map, map_drop, ← htail, append_assoc, drop_left]
        congr 2
        exact List.map_id _
      have hlater : ∀ d ∈ deliveries opens.length (frames.map (·, r.opened))
          ((kept ++ read).drop frame.length), d.WhileOpen (opens ++ [r.opened]) := by
        intro d hd
        obtain ⟨htime, hframe, hsub, x, hx, hpassed⟩ := deliveries_mem hrest hd
        obtain ⟨other, -, rfl⟩ := mem_map.mp hx
        have hopened : r.opened = true := hpassed
        rw [hopened]
        have hopen := whileOpen_now hframe
          fun y hy => hread hopened y (hnew _ (Nat.le_refl _) (hsub hy))
        rw [← htime] at hopen
        exact hopen
      intro d hd
      rw [deliveries] at hd
      cases hpasses : r.rxDiscard with
      | true =>
        rw [hpasses] at hd
        exact hlater d hd
      | false =>
        rw [hpasses] at hd
        obtain ⟨hopened, hfresh⟩ := hall hpasses
        rcases mem_cons.mp hd with rfl | hin
        · rw [hopened]
          exact whileOpen_now htake fun y hy => hfresh y (List.mem_of_mem_take hy)
        · exact hlater d hin
    · rw [hdiscard]
      intro hpasses
      have hopened : r.opened = true := by simpa using hpasses
      refine ⟨hopened, fun x hx => hread hopened x (hnew _ ?_ hx)⟩
      rw [flatten_cons, length_append]
      exact Nat.le_add_right _ _

/-! ### The invariant -/

/-- **The incomplete frame**: what is kept of it was read with the device open
since, unless it is going to be discarded. -/
structure Kept (Incomplete : List UInt8 → Prop) (r : Runtime) (h : History) : Prop where
  incomplete : Incomplete r.rxSkb
  read : h.rxRead.map (·.1) = r.rxSkb
  fresh : r.rxSkb ≠ [] → r.rxDiscard = false →
    r.opened = true ∧ ∀ x ∈ h.rxRead, Fresh h.opens x

/-- **What is received**, in every state. -/
structure Receiving (Incomplete : List UInt8 → Prop) (s : State) : Prop where
  kept : Kept Incomplete s.runtime s.history
  stopped : s.runtime.running = false → s.stopping = 0 → s.runtime.rxSkb = []
  idle : s.runtime.running = false → s.runtime.opened = true →
    OpenFrom s.history.opens s.history.idleSince
  delivered : ∀ d ∈ s.history.delivered, d.WhileOpen s.history.opens

/-- What an operation makes of it, before time goes on. -/
structure Received (Incomplete : List UInt8 → Prop) (s s' : State) : Prop where
  kept : Kept Incomplete s'.runtime s'.history
  stopped : s'.runtime.running = false → s'.stopping = 0 → s'.runtime.rxSkb = []
  opened : s'.runtime.opened = true → s.runtime.opened = true ∨ s.runtime.running = true
  delivered : ∀ d ∈ s'.history.delivered,
    d ∈ s.history.delivered ∨ d.WhileOpen (s.history.opens ++ [s'.runtime.opened])
  opens : s'.history.opens = s.history.opens
  idleSince : s'.history.idleSince = s.history.idleSince

theorem kept_nil (hrecv : Splits recv Incomplete) (hskb : r.rxSkb = []) (hread : h.rxRead = []) :
    Kept Incomplete r h where
  incomplete := by rw [hskb]; exact hrecv.nil
  read := by rw [hskb, hread]; rfl
  fresh hne := absurd hskb hne

theorem rxPart_receiveFrames (r : Runtime) (frames : List (List UInt8)) :
    (receiveFrames r frames).2.opened = r.opened ∧
      (receiveFrames r frames).2.running = r.running := by
  cases frames with
  | nil => exact ⟨rfl, rfl⟩
  | cons frame frames =>
    obtain ⟨-, hpart⟩ := receiveFrames_cons r frame frames
    exact ⟨congrArg RxPart.opened hpart, congrArg RxPart.running hpart⟩

theorem Kept.discard (hkept : Kept Incomplete r h) :
    ∃ r₀ : Runtime, (if r.rxSkb = [] then { r with rxDiscard := !r.opened } else r) = r₀ ∧
      r₀.rxSkb = r.rxSkb ∧ r₀.opened = r.opened ∧ r₀.running = r.running ∧
      (r₀.rxDiscard = false → r₀.opened = true ∧ ∀ x ∈ h.rxRead, Fresh h.opens x) := by
  by_cases hskb : r.rxSkb = []
  · refine ⟨_, if_pos hskb, rfl, rfl, rfl, fun hpasses => ?_⟩
    have hread : h.rxRead = [] := List.map_eq_nil_iff.mp (hkept.read.trans hskb)
    refine ⟨by simpa using hpasses, ?_⟩
    rw [hread]
    exact nofun
  · exact ⟨_, if_neg hskb, rfl, rfl, rfl, hkept.fresh hskb⟩

/-- **New bytes keep what is known of the incomplete frame**, and what they
complete is delivered only with the device open since its first byte. -/
theorem Kept.receive (hrecv : Splits recv Incomplete) (hkept : Kept Incomplete r h)
    (read : List (UInt8 × ℕ)) (hread : r.opened = true → ∀ x ∈ read, Fresh h.opens x) :
    Kept Incomplete (receiveBytes recv r (read.map (·.1))).runtime
        (h.receive (receiveBytes recv r (read.map (·.1))) read) ∧
      (∀ d ∈ (h.receive (receiveBytes recv r (read.map (·.1))) read).delivered,
        d ∈ h.delivered ∨ d.WhileOpen (h.opens ++ [r.opened])) ∧
      (receiveBytes recv r (read.map (·.1))).runtime.opened = r.opened ∧
      (receiveBytes recv r (read.map (·.1))).runtime.running = r.running := by
  obtain ⟨r₀, hr₀, hskb, hopened, hrunning, hfresh⟩ := hkept.discard
  cases hsplit : recv r.rxSkb (read.map (·.1)) with
  | mk frames rest =>
  obtain ⟨hlastOpened, hlastRunning⟩ := rxPart_receiveFrames r₀ frames
  have hfirst : ∀ frame ∈ frames.head?, h.rxRead.length ≤ frame.length := by
    intro frame hhead
    obtain ⟨tail, rfl⟩ := List.head?_eq_some_iff.mp hhead
    have hle := (hrecv.first hkept.incomplete (congrArg Prod.fst hsplit)).length_le
    rwa [← hkept.read, List.length_map] at hle
  have hall : (h.rxRead ++ read).map (·.1) = r.rxSkb ++ read.map (·.1) := by
    rw [List.map_append, hkept.read]
  have hfront : frames.flatten <+: (h.rxRead ++ read).map (·.1) := by
    rw [hall]
    cases rest with
    | ok rest => exact ⟨rest, (hrecv.rest hkept.incomplete hsplit).1⟩
    | error ret => exact hrecv.error hkept.incomplete hsplit
  obtain ⟨hdeliver, hlater⟩ :=
    receiveFrames_fresh hfront hfirst hfresh (by rw [hopened]; exact hread)
  rw [hopened] at hdeliver hlater
  have hdelivered : ∀ d ∈ h.delivered ++
      deliveries h.now (receiveFrames r₀ frames).1 (h.rxRead ++ read),
      d ∈ h.delivered ∨ d.WhileOpen (h.opens ++ [r.opened]) := by
    intro d hd
    rcases List.mem_append.mp hd with hold | hnew
    · exact .inl hold
    · exact .inr (hdeliver d hnew)
  have hsum : ((receiveFrames r₀ frames).1.map (·.1.length)).sum = frames.flatten.length := by
    have hlengths := congrArg (List.map List.length) (receiveFrames_fst r₀ frames)
    rw [List.map_map] at hlengths
    rw [List.length_flatten, ← hlengths]
    rfl
  cases rest with
  | error ret =>
    have hreceive : receiveBytes recv r (read.map (·.1)) =
        ⟨ret, (receiveFrames r₀ frames).1, { (receiveFrames r₀ frames).2 with rxSkb := [] }⟩ := by
      simp only [receiveBytes, hr₀, hskb, hsplit]
    rw [hreceive]
    exact ⟨kept_nil hrecv rfl rfl, hdelivered, hlastOpened.trans hopened,
      hlastRunning.trans hrunning⟩
  | ok rest =>
    have hreceive : receiveBytes recv r (read.map (·.1)) =
        ⟨0, (receiveFrames r₀ frames).1, { (receiveFrames r₀ frames).2 with rxSkb := rest }⟩ := by
      simp only [receiveBytes, hr₀, hskb, hsplit]
    obtain ⟨hcut, hincomplete⟩ := hrecv.rest hkept.incomplete hsplit
    rw [hreceive]
    refine ⟨⟨hincomplete, ?_, ?_⟩, hdelivered, hlastOpened.trans hopened,
      hlastRunning.trans hrunning⟩
    · simp only [History.receive, hsum]
      split_ifs with hnil
      · exact hnil.symm
      · rw [map_drop, hall, ← hcut, drop_left]
    · intro hne hpasses
      obtain ⟨hopen, hbytes⟩ := hlater hpasses
      refine ⟨(hlastOpened.trans hopened).trans hopen, ?_⟩
      simp only [History.receive, hsum]
      rw [if_neg hne]
      exact hbytes

/-! ### Every step -/

theorem rxPart_runtimeSend (r : Runtime) (skb : Skb) :
    (runtimeSend r skb).2.rxPart = r.rxPart := by
  simp only [runtimeSend]
  split_ifs
  · rfl
  · rfl
  · rfl
  · rfl
  · rfl
  · rfl

theorem rxPart_loadTx (r : Runtime) (copied : ℤ) : (loadTx r copied).2.rxPart = r.rxPart := by
  rcases loadTx_cases r copied with ⟨heq, -⟩ | ⟨skb, queue, -, -, ⟨-, heq⟩ | ⟨-, heq⟩⟩
  · rw [heq]
  · rw [heq]
    rfl
  · rw [heq]
    rfl

theorem rxPart_finishTx (r : Runtime) (ret : ℤ) (written : ℕ) :
    (finishTx r ret written).2.rxPart = r.rxPart := by
  simp only [finishTx]
  split_ifs
  · rfl
  · rfl

theorem rxPart_suspendPrepare (r : Runtime) (busy : Bool) :
    (suspendPrepare r busy).2.rxPart = r.rxPart := by
  rw [suspendPrepare]
  split_ifs
  · rfl
  · rfl
  · rfl

theorem rxPart_suspendPrepared (r : Runtime) (ret : ℤ) :
    (suspendPrepared r ret).2.rxPart = r.rxPart := by
  simp only [suspendPrepared]
  split_ifs
  · rfl
  · rfl
  · rfl
  · rfl
  · rfl

theorem rxPart_suspend (r : Runtime) (busy : Bool) : (suspend r busy).2.rxPart = r.rxPart := by
  rw [suspend]
  split_ifs
  · rfl
  · rfl
  · rfl
  · rfl
  · rfl

theorem rxPart_resumeCore (r : Runtime) : (resumeCore r).rxPart = r.rxPart := by
  rw [resumeCore]
  split_ifs
  · rfl
  · rfl

theorem rxPart_postSuspend (r : Runtime) (ret : ℤ) :
    (postSuspend r ret).2.rxPart = r.rxPart := by
  simp only [postSuspend]
  split_ifs
  · rfl
  · rfl
  · rfl

theorem rxPart_flushTx_false (r : Runtime) : (flushTx r false).rxPart = r.rxPart := by
  simp only [flushTx, Bool.false_eq_true, if_false]
  split_ifs
  · rfl
  · rfl

theorem rxPart_flushTx_true (r : Runtime) :
    (flushTx r true).rxPart = { r.rxPart with discard := true, opened := false } := by
  simp only [flushTx, if_true]
  split_ifs
  · rfl
  · rfl

/-- **A step that receives nothing** keeps the invariant. -/
theorem Receiving.quiet (h : Receiving Incomplete s)
    (hpart : s'.runtime.rxPart = s.runtime.rxPart) (hstopping : s'.stopping = s.stopping)
    (hread : s'.history.rxRead = s.history.rxRead) (hopens : s'.history.opens = s.history.opens)
    (hdelivered : s'.history.delivered = s.history.delivered)
    (hidle : s'.history.idleSince = s.history.idleSince) : Received Incomplete s s' := by
  simp only [Runtime.rxPart, RxPart.mk.injEq] at hpart
  obtain ⟨hskb, hdiscard, hopened, hrunning⟩ := hpart
  refine ⟨⟨?_, ?_, ?_⟩, ?_, ?_, ?_, hopens, hidle⟩
  · rw [hskb]
    exact h.kept.incomplete
  · rw [hread, hskb]
    exact h.kept.read
  · rw [hskb, hdiscard, hopened, hread, hopens]
    exact h.kept.fresh
  · rw [hrunning, hstopping, hskb]
    exact h.stopped
  · rw [hopened]
    exact .inl
  · rw [hdelivered]
    exact fun _ hd => .inl hd

theorem received_drop (hrecv : Splits recv Incomplete)
    (hskb : s'.runtime.rxSkb = []) (hopened : s'.runtime.opened = s.runtime.opened)
    (hread : s'.history.rxRead = []) (hopens : s'.history.opens = s.history.opens)
    (hdelivered : s'.history.delivered = s.history.delivered)
    (hidle : s'.history.idleSince = s.history.idleSince) : Received Incomplete s s' := by
  refine ⟨kept_nil hrecv hskb hread, fun _ _ => hskb, ?_, ?_, hopens, hidle⟩
  · rw [hopened]
    exact .inl
  · rw [hdelivered]
    exact fun _ hd => .inl hd

/-- **Time goes on** after a step. -/
theorem Received.tick (h : Receiving Incomplete s) (hnext : Received Incomplete s s') :
    Receiving Incomplete (tick s s') := by
  refine ⟨⟨hnext.kept.incomplete, hnext.kept.read, ?_⟩, hnext.stopped, ?_, ?_⟩
  · intro hne hpasses
    obtain ⟨hopened, hfresh⟩ := hnext.kept.fresh hne hpasses
    refine ⟨hopened, fun x hx => ?_⟩
    show Fresh (s'.history.opens ++ [s'.runtime.opened]) x
    rw [hopened]
    exact (hfresh x hx).append
  · intro hrunning hopened
    have hopened' : s'.runtime.opened = true := hopened
    show OpenFrom (s'.history.opens ++ [s'.runtime.opened]) _
    rw [hopened', hnext.opens]
    refine OpenFrom.append ?_
    by_cases hbefore : s.runtime.running = true
    · simp only [Hci.tick]
      rw [if_pos ⟨hbefore, hrunning⟩]
      exact fun i hle hlt => absurd hlt (Nat.not_lt.mpr hle)
    · simp only [Hci.tick]
      rw [if_neg fun hstops => hbefore hstops.1, hnext.idleSince]
      refine h.idle (by simpa using hbefore) ?_
      rcases hnext.opened hopened' with hopen | hrun
      · exact hopen
      · exact absurd hrun hbefore
  · intro d hd
    show d.WhileOpen (s'.history.opens ++ [s'.runtime.opened])
    rw [hnext.opens]
    rcases hnext.delivered d hd with hold | hnew
    · exact (h.delivered d hold).append _
    · exact hnew

theorem OpenFrom.mono {later : ℕ} (h : OpenFrom opens time) (hle : time ≤ later) :
    OpenFrom opens later :=
  fun i hlater hlt => h i (Nat.le_trans hle hlater) hlt

theorem Receiving.workerRead (h : Receiving Incomplete s) (hrecv : Splits recv Incomplete)
    (hrunning : s.runtime.running = true) (round : ℕ) (poll ret : ℤ) (input : List UInt8) :
    Received Incomplete s (workerRead recv s round poll ret input) := by
  rw [Hci.workerRead]
  split_ifs
  · exact h.quiet rfl rfl rfl rfl rfl rfl
  · exact h.quiet rfl rfl rfl rfl rfl rfl
  · have hread : ∀ x ∈ input.map (·, s.history.now), Fresh s.history.opens x := by
      intro x hx
      obtain ⟨b, -, rfl⟩ := mem_map.mp hx
      exact fresh_now _ b
    have hbytes : (input.map (·, s.history.now)).map (·.1) = input := by
      rw [List.map_map]
      exact List.map_id _
    obtain ⟨hkept, hdelivered, hopened, hrun⟩ := h.kept.receive hrecv _ fun _ => hread
    rw [hbytes] at hkept hdelivered hopened hrun
    rw [← hopened] at hdelivered
    refine ⟨hkept, ?_, ?_, ?_, rfl, rfl⟩
    · intro hstop
      exact absurd ((hrun.symm.trans hstop).symm.trans hrunning) (by decide)
    · exact fun hopen => .inl (hopened.symm.trans hopen)
    · exact hdelivered

theorem Receiving.runtimeOpen (h : Receiving Incomplete s) :
    Received Incomplete s { s with runtime := (runtimeOpen s.runtime).2 } := by
  rw [Hci.runtimeOpen]
  split_ifs with herror hstop hsuspending
  · exact h.quiet rfl rfl rfl rfl rfl rfl
  · exact h.quiet rfl rfl rfl rfl rfl rfl
  · exact h.quiet rfl rfl rfl rfl rfl rfl
  · refine ⟨⟨h.kept.incomplete, h.kept.read, ?_⟩, h.stopped, ?_, fun _ hd => .inl hd, rfl, rfl⟩
    · intro hne hpasses
      exact ⟨rfl, (h.kept.fresh hne hpasses).2⟩
    · exact fun _ => .inr (by simpa using hstop)

theorem Receiving.runtimeClose (h : Receiving Incomplete s) :
    Received Incomplete s { s with
      runtime := flushTx s.runtime true
      history := { s.history with purged := s.history.purged ++ waiting s.runtime } } := by
  have hpart := rxPart_flushTx_true s.runtime
  simp only [Runtime.rxPart, RxPart.mk.injEq] at hpart
  obtain ⟨hskb, hdiscard, hopened, hrunning⟩ := hpart
  refine ⟨⟨?_, ?_, ?_⟩, ?_, ?_, fun _ hd => .inl hd, rfl, rfl⟩
  · rw [hskb]
    exact h.kept.incomplete
  · rw [hskb]
    exact h.kept.read
  · rw [hdiscard]
    exact nofun
  · rw [hrunning, hskb]
    exact h.stopped
  · rw [hopened]
    exact nofun

theorem Receiving.resume (h : Receiving Incomplete s) (hrecv : Splits recv Incomplete) (ret : ℤ) :
    Received Incomplete s { s with
      runtime := (resume s.runtime ret).2
      history := { s.history with
        rxRead := if (resume s.runtime ret).1 = 0 then s.history.rxRead else [] } } := by
  by_cases hawake : s.runtime.transportSuspended = false
  · rw [Hci.resume, if_pos hawake]
    exact h.quiet rfl rfl rfl rfl rfl rfl
  · by_cases hret : ret = 0
    · rw [Hci.resume, if_neg hawake, if_neg (not_not.mpr hret)]
      exact h.quiet rfl rfl rfl rfl rfl rfl
    · rw [Hci.resume, if_neg hawake, if_pos hret]
      exact received_drop hrecv rfl rfl (if_neg hret) rfl rfl rfl

/-- **What was read before the start** is delivered only with the device open
all the time since the transport stopped. -/
theorem Receiving.transportStart (h : Receiving Incomplete s) (hrecv : Splits recv Incomplete)
    {rxPrefix : List (UInt8 × ℕ)} (hstep : act recv s (.transportStart rxPrefix) = some s') :
    Received Incomplete s s' := by
  simp only [act] at hstep
  split at hstep
  · rename_i hserial
    obtain ⟨hstopping, htimes⟩ := hserial
    obtain ⟨-, hnext⟩ := locked_eq_some hstep
    subst hnext
    by_cases hbusy : s.runtime.running = true ∨ s.runtime.suspending = true
    · rw [if_pos hbusy, Hci.transportStart, if_pos hbusy]
      exact h.quiet rfl rfl rfl rfl rfl rfl
    · rw [if_neg hbusy, Hci.transportStart, if_neg hbusy]
      have hrunning : s.runtime.running = false := by simpa using (not_or.mp hbusy).1
      have hskb := h.stopped hrunning hstopping
      have hnone : s.history.rxRead = [] := List.map_eq_nil_iff.mp (h.kept.read.trans hskb)
      have hkept : Kept Incomplete { s.runtime with rxDiscard := true } s.history :=
        kept_nil hrecv hskb hnone
      obtain ⟨hkept', hdelivered, hopened, -⟩ := hkept.receive hrecv rxPrefix
        fun hopen x hx =>
          ⟨(htimes x hx).2, (h.idle hrunning hopen).mono (htimes x hx).1⟩
      rw [← hopened] at hdelivered
      by_cases hret : (receiveBytes recv { s.runtime with rxDiscard := true }
          (rxPrefix.map (·.1))).ret ≠ 0
      · simp only [if_pos hret]
        refine ⟨kept_nil hrecv rfl rfl, fun _ _ => rfl, ?_, ?_, rfl, rfl⟩
        · exact fun hopen => .inl (hopened.symm.trans hopen)
        · exact hdelivered
      · simp only [if_neg hret]
        refine ⟨⟨hkept'.incomplete, hkept'.read, hkept'.fresh⟩, Bool.noConfusion, ?_, ?_, rfl, rfl⟩
        · exact fun hopen => .inl (hopened.symm.trans hopen)
        · exact hdelivered
  · cases hstep

/-- **Every step keeps what is received in order.** -/
theorem receiving_act (hrecv : Splits recv Incomplete) (hsend : Sending s)
    (h : Receiving Incomplete s) {op : Op} (hstep : act recv s op = some s') :
    Received Incomplete s s' := by
  cases op with
  | runtimeSend skb =>
    simp only [act] at hstep
    split at hstep
    · rw [← Option.some.inj hstep]
      exact h.quiet (rxPart_runtimeSend _ _) rfl rfl rfl rfl rfl
    · cases hstep
  | work =>
    obtain ⟨-, rfl⟩ := locked_eq_some hstep
    exact h.quiet rfl rfl rfl rfl rfl rfl
  | read poll ret input =>
    simp only [act] at hstep
    split at hstep
    · rename_i round hread
      split at hstep
      · rw [← Option.some.inj hstep]
        exact h.workerRead hrecv (hsend.working (by rw [hread]; rfl)) round poll ret input
      · cases hstep
    · cases hstep
  | write copied ret written =>
    simp only [act] at hstep
    split at hstep
    · rename_i round received hwrite
      split at hstep
      · rw [← Option.some.inj hstep, Hci.workerWrite]
        have hload := rxPart_loadTx s.runtime copied
        simp only
        split
        · exact h.quiet hload rfl rfl rfl rfl rfl
        · split
          · exact h.quiet hload rfl rfl rfl rfl rfl
          · exact h.quiet ((rxPart_finishTx _ _ _).trans hload) rfl rfl rfl rfl rfl
      · cases hstep
    · cases hstep
  | service fm poll =>
    simp only [act] at hstep
    split at hstep
    · rw [← Option.some.inj hstep]
      exact h.quiet rfl rfl rfl rfl rfl rfl
    · cases hstep
  | fault =>
    simp only [act] at hstep
    split at hstep
    · rw [← Option.some.inj hstep]
      exact received_drop hrecv rfl rfl rfl rfl rfl rfl
    · cases hstep
  | runtimeOpen =>
    obtain ⟨-, rfl⟩ := locked_eq_some hstep
    exact h.runtimeOpen
  | runtimeClose =>
    obtain ⟨-, rfl⟩ := locked_eq_some hstep
    exact h.runtimeClose
  | runtimeFlush =>
    obtain ⟨-, rfl⟩ := locked_eq_some hstep
    exact h.quiet (rxPart_flushTx_false _) rfl rfl rfl rfl rfl
  | suspendPrepare busy =>
    obtain ⟨-, rfl⟩ := locked_eq_some hstep
    exact h.quiet (rxPart_suspendPrepare _ _) rfl rfl rfl rfl rfl
  | suspendPrepared ret =>
    obtain ⟨-, rfl⟩ := locked_eq_some hstep
    exact h.quiet (rxPart_suspendPrepared _ _) rfl rfl rfl rfl rfl
  | suspend busy =>
    obtain ⟨-, rfl⟩ := locked_eq_some hstep
    exact h.quiet (rxPart_suspend _ _) rfl rfl rfl rfl rfl
  | mailboxSuspend ret =>
    simp only [act] at hstep
    split at hstep
    · rw [← Option.some.inj hstep]
      refine h.quiet ?_ rfl rfl rfl rfl rfl
      split_ifs
      · rfl
      · rfl
    · cases hstep
  | resume ret =>
    obtain ⟨-, rfl⟩ := locked_eq_some hstep
    exact h.resume hrecv ret
  | resumeCore =>
    obtain ⟨-, rfl⟩ := locked_eq_some hstep
    exact h.quiet (rxPart_resumeCore _) rfl rfl rfl rfl rfl
  | postSuspend ret =>
    obtain ⟨-, rfl⟩ := locked_eq_some hstep
    exact h.quiet (rxPart_postSuspend _ _) rfl rfl rfl rfl rfl
  | transportStart rxPrefix => exact h.transportStart hrecv hstep
  | transportStop =>
    obtain ⟨-, rfl⟩ := locked_eq_some hstep
    exact ⟨⟨h.kept.incomplete, h.kept.read, h.kept.fresh⟩,
      fun _ hzero => absurd hzero (Nat.succ_ne_zero _), .inl, fun _ hd => .inl hd, rfl, rfl⟩
  | transportStopped =>
    simp only [act] at hstep
    split at hstep
    · cases hstep
    · obtain ⟨-, rfl⟩ := locked_eq_some hstep
      exact received_drop hrecv rfl rfl rfl rfl rfl rfl

/-! ### A splitter of H4 frames -/

/-- The size of the header of a received type, and the length of the data that a
header gives. -/
def h4Header (type : UInt8) : Option (ℕ × (List UInt8 → ℕ)) :=
  if type = aclDataPkt then
    some (4, fun header => (header.getD 2 0).toNat + 256 * (header.getD 3 0).toNat)
  else if type = scoDataPkt then some (3, fun header => (header.getD 2 0).toNat)
  else if type = eventPkt then some (2, fun header => (header.getD 1 0).toNat)
  else none

/-- The length of the frame in front, once it is complete. -/
def h4Frame : List UInt8 → Except ℤ (Option ℕ)
  | [] => .ok none
  | type :: data =>
    match h4Header type with
    | none => .error (-eIlSeq)
    | some (size, length) =>
      if data.length < size ∨ data.length < size + length data then .ok none
      else .ok (some (1 + size + length data))

/-- Cuts off complete frames, at most as many as there are bytes. -/
def h4Split : ℕ → List UInt8 → List (List UInt8) × Except ℤ (List UInt8)
  | 0, bytes => ([], .ok bytes)
  | fuel + 1, bytes =>
    match h4Frame bytes with
    | .error ret => ([], .error ret)
    | .ok none => ([], .ok bytes)
    | .ok (some n) =>
      let rest := h4Split fuel (bytes.drop n)
      (bytes.take n :: rest.1, rest.2)

/-- `h4_recv_buf` without its limits on the length of a frame. -/
def h4Recv : Recv := fun skb input => h4Split (skb ++ input).length (skb ++ input)

theorem h4Header_append {type : UInt8} {size : ℕ} {length : List UInt8 → ℕ}
    (h : h4Header type = some (size, length)) {data : List UInt8} (hsize : size ≤ data.length)
    (input : List UInt8) : length (data ++ input) = length data := by
  have hget : ∀ i < size, (data ++ input).getD i 0 = data.getD i 0 := by
    intro i hi
    rw [List.getD_eq_getElem?_getD, List.getD_eq_getElem?_getD,
      List.getElem?_append_left (Nat.lt_of_lt_of_le hi hsize)]
  rw [h4Header] at h
  split_ifs at h
  all_goals
    simp only [Option.some.injEq, Prod.mk.injEq] at h
    obtain ⟨rfl, rfl⟩ := h
  · simp only [hget 2 (by decide), hget 3 (by decide)]
  · simp only [hget 2 (by decide)]
  · simp only [hget 1 (by decide)]

theorem h4Frame_pos {bytes : List UInt8} {n : ℕ} (h : h4Frame bytes = .ok (some n)) :
    0 < n ∧ n ≤ bytes.length := by
  cases bytes with
  | nil => cases h
  | cons type data =>
    simp only [h4Frame] at h
    split at h
    · cases h
    · split_ifs at h with hshort
      · cases h
      · obtain rfl := Option.some.inj (Except.ok.inj h)
        rw [List.length_cons]
        omega

theorem h4Split_spec : ∀ (fuel : ℕ) (bytes : List UInt8), bytes.length ≤ fuel →
    (∀ rest, (h4Split fuel bytes).2 = .ok rest →
      (h4Split fuel bytes).1.flatten ++ rest = bytes ∧ h4Frame rest = .ok none) ∧
    (h4Split fuel bytes).1.flatten <+: bytes := by
  intro fuel
  induction fuel with
  | zero =>
    intro bytes hlength
    obtain rfl := List.eq_nil_of_length_eq_zero (Nat.le_zero.mp hlength)
    refine ⟨fun rest hrest => ?_, nil_prefix⟩
    obtain rfl : [] = rest := Except.ok.inj hrest
    exact ⟨rfl, rfl⟩
  | succ fuel ih =>
    intro bytes hlength
    rw [h4Split]
    split
    · exact ⟨fun rest hrest => absurd hrest nofun, nil_prefix⟩
    · rename_i hframe
      refine ⟨fun rest hrest => ?_, nil_prefix⟩
      obtain rfl : bytes = rest := Except.ok.inj hrest
      exact ⟨rfl, hframe⟩
    · rename_i n hframe
      obtain ⟨hpos, hle⟩ := h4Frame_pos hframe
      obtain ⟨hrest, hfront⟩ := ih (bytes.drop n) (by rw [List.length_drop]; omega)
      refine ⟨fun rest heq => ?_, ?_⟩
      · obtain ⟨hcut, hincomplete⟩ := hrest rest heq
        refine ⟨?_, hincomplete⟩
        rw [flatten_cons, append_assoc, hcut, List.take_append_drop]
      · obtain ⟨tail, htail⟩ := hfront
        refine ⟨tail, ?_⟩
        rw [flatten_cons, append_assoc, htail, List.take_append_drop]

theorem h4Frame_extends {skb input : List UInt8} {n : ℕ} (hskb : h4Frame skb = .ok none)
    (h : h4Frame (skb ++ input) = .ok (some n)) : skb.length ≤ n := by
  cases skb with
  | nil => exact Nat.zero_le _
  | cons type data =>
    rw [List.cons_append] at h
    simp only [h4Frame] at hskb h
    cases hheader : h4Header type with
    | none =>
      rw [hheader] at h
      cases h
    | some header =>
      obtain ⟨size, length⟩ := header
      rw [hheader] at hskb h
      simp only at hskb h
      split_ifs at h with hshort
      · cases h
      · obtain rfl := Option.some.inj (Except.ok.inj h)
        split_ifs at hskb with hless
        · rw [List.length_cons]
          by_cases hsize : size ≤ data.length
          · rw [h4Header_append hheader hsize]
            omega
          · omega
        · cases hskb

/-- **The splitter is one that the driver may rely on.** -/
theorem splits_h4Recv : Splits h4Recv fun bytes => h4Frame bytes = .ok none where
  nil := rfl
  rest := by
    intro skb input frames rest _ hrecv
    obtain ⟨hrest, -⟩ := h4Split_spec _ (skb ++ input) (Nat.le_refl _)
    have hframes : (h4Split (skb ++ input).length (skb ++ input)).1 = frames :=
      congrArg Prod.fst hrecv
    rw [hframes] at hrest
    exact hrest rest (congrArg Prod.snd hrecv)
  error := by
    intro skb input frames ret _ hrecv
    obtain ⟨-, hfront⟩ := h4Split_spec _ (skb ++ input) (Nat.le_refl _)
    have hframes : (h4Split (skb ++ input).length (skb ++ input)).1 = frames :=
      congrArg Prod.fst hrecv
    rw [hframes] at hfront
    exact hfront
  first := by
    intro skb input frame frames hskb hrecv
    rw [h4Recv] at hrecv
    cases hlength : (skb ++ input).length with
    | zero =>
      rw [hlength, h4Split] at hrecv
      exact absurd hrecv nofun
    | succ fuel =>
      rw [hlength, h4Split] at hrecv
      split at hrecv
      · exact absurd hrecv nofun
      · exact absurd hrecv nofun
      · rename_i n hframe
        obtain ⟨rfl, -⟩ := List.cons.inj hrecv
        refine List.prefix_of_prefix_length_le (List.prefix_append skb input)
          (List.take_prefix _ _) ?_
        rw [List.length_take]
        have hle := h4Frame_extends hskb hframe
        have hlonger : skb.length ≤ (skb ++ input).length := by
          rw [length_append]
          exact Nat.le_add_right _ _
        exact Nat.le_min.mpr ⟨hle, hlonger⟩

/-! ### Frames stay whole -/

theorem receiving_start (hrecv : Splits recv Incomplete) : Receiving Incomplete {} where
  kept := kept_nil hrecv rfl rfl
  stopped _ _ := rfl
  idle _ := nofun
  delivered := nofun

/-- **Both invariants, under any order of calls.** -/
theorem invariant_of_reachable (hrecv : Splits recv Incomplete) (h : (machine recv).Reachable s) :
    Sending s ∧ Receiving Incomplete s := by
  refine h.invariant (P := fun s => Sending s ∧ Receiving Incomplete s) ?_ ?_
  · intro s hstart
    rw [hstart]
    exact ⟨sending_start, receiving_start hrecv⟩
  · intro s op s' hs hstep
    obtain ⟨hsend, hreceive⟩ := hs
    obtain ⟨next, hact, hnext⟩ := Option.map_eq_some_iff.mp hstep
    refine ⟨sending_step hsend hstep, ?_⟩
    rw [← hnext]
    exact (receiving_act hrecv hsend hreceive hact).tick hreceive

/-- **Frames stay whole.**  The bytes of each transport run are accepted frames
in the order they were accepted, each whole but perhaps the last; a frame that
a flush or a close took back has written no byte in any run; and a frame is
delivered only if the device was open from its first byte on. -/
theorem frames_whole (hrecv : Splits recv Incomplete) (h : (machine recv).Reachable s) :
    (∀ ring ∈ s.history.runs, ring.Framed) ∧
      s.history.begun.Sublist s.history.accepted ∧
      (s.history.accepted.map (·.number)).Nodup ∧
      (∀ skb ∈ s.history.purged,
        skb ∈ s.history.accepted ∧ ∀ ring ∈ s.history.runs, skb ∉ ring.frames) ∧
      ∀ d ∈ s.history.delivered, d.WhileOpen s.history.opens := by
  obtain ⟨hsend, hreceive⟩ := invariant_of_reachable hrecv h
  refine ⟨hsend.framed, ?_, ?_, ?_, hreceive.delivered⟩
  · exact (List.sublist_append_left _ _).trans hsend.order
  · rw [hsend.numbers]
    exact List.nodup_range
  · intro skb hskb
    obtain ⟨haccepted, hnot⟩ := hsend.purged skb hskb
    refine ⟨haccepted, fun ring hring hin => hnot ?_⟩
    exact List.mem_append_left _ (List.mem_flatMap.mpr ⟨ring, hring, hin⟩)

/-- A command half written and an event half read when the device is closed and
opened again; a second command waits. -/
def reopening : List Op :=
  [.transportStart [], .runtimeOpen, .runtimeSend ⟨0, commandPkt, [0x03, 0x0c, 0]⟩,
    .runtimeSend ⟨1, commandPkt, [0x01, 0x10, 0]⟩, .work, .read 0 0 [eventPkt, 0x0e],
    .write 0 0 3, .read 0 0 [], .write 0 0 0, .service 0 0, .runtimeClose, .runtimeOpen,
    .runtimeSend ⟨2, commandPkt, [0x05, 0x10, 0]⟩, .work,
    .read 0 0 [1, 0, eventPkt, 0x13, 1, 7], .write 0 0 5]

/-- **The half-written command is finished, the waiting one is taken back, and
only the event read after the reopening is delivered.** -/
theorem frames_whole_reopening :
    ∃ s, (machine h4Recv).Reachable s ∧
      s.history.ring.bytes = [1, 0x03, 0x0c, 0, 0, 0, 0, 0] ∧
      s.history.purged.map (·.number) = [1] ∧
      s.history.delivered.map (·.frame) = [[4, 0x13, 1, 7]] ∧
      (∀ ring ∈ s.history.runs, ring.Framed) ∧
      s.history.begun.Sublist s.history.accepted ∧
      (s.history.accepted.map (·.number)).Nodup ∧
      (∀ skb ∈ s.history.purged,
        skb ∈ s.history.accepted ∧ ∀ ring ∈ s.history.runs, skb ∉ ring.frames) ∧
      ∀ d ∈ s.history.delivered, d.WhileOpen s.history.opens := by
  have hruns : ((Machine.runOps (step h4Recv) reopening {}).map fun s =>
      (s.history.ring.bytes, s.history.purged.map (·.number), s.history.delivered.map (·.frame))) =
      some ([1, 0x03, 0x0c, 0, 0, 0, 0, 0], [1], [[4, 0x13, 1, 7]]) := by
    decide +kernel
  obtain ⟨s, hrun, hout⟩ := Option.map_eq_some_iff.mp hruns
  have hreachable : (machine h4Recv).Reachable s :=
    Machine.Reachable.runOps (fun _ _ _ hstep => hstep) (.start rfl) hrun
  simp only [Prod.mk.injEq] at hout
  obtain ⟨hbytes, hpurged, hdelivered⟩ := hout
  exact ⟨s, hreachable, hbytes, hpurged, hdelivered, frames_whole splits_h4Recv hreachable⟩

/-- How the frames lie in the ring: each fits `tx_data` of `ALIGN(1028 + 1, 8)` bytes,
and starts at a doubleword. -/
structure Aligned (s : State) : Prop where
  fits : ∀ skb ∈ s.history.accepted, (txBytes skb).length ≤ align8 (1028 + 1)
  start : s.runtime.running = true → s.holder.failing = false → s.runtime.txSent = 0 →
    8 ∣ s.history.ring.bytes.length

theorem dvd_flatMap_txBytes (frames : List Skb) : 8 ∣ (frames.flatMap txBytes).length := by
  induction frames with
  | nil => exact Nat.dvd_zero 8
  | cons skb frames ih =>
    rw [List.flatMap_cons, length_append]
    exact Nat.dvd_add (dvd_txBytes_length skb) ih

/-- **Frames stay aligned**, under any order of calls. -/
theorem aligned_of_reachable (h : (machine recv).Reachable s) : Aligned s where
  fits _ hmem := (sending_of_reachable h).txBytes_fits hmem
  start hrunning hfailing hsent := by
    obtain ⟨whole, -, hbytes⟩ := (sending_of_reachable h).upto hrunning hfailing
    rw [hbytes, hsent, List.take_zero, List.append_nil]
    exact dvd_flatMap_txBytes whole

theorem aligned_reopening :
    ∃ s, (machine h4Recv).Reachable s ∧ s.history.accepted.length = 3 ∧ Aligned s := by
  have hruns : ((Machine.runOps (step h4Recv) reopening {}).map (·.history.accepted.length)) =
      some 3 := by
    decide +kernel
  obtain ⟨s, hrun, hlength⟩ := Option.map_eq_some_iff.mp hruns
  have hreachable : (machine h4Recv).Reachable s :=
    Machine.Reachable.runOps (fun _ _ _ hstep => hstep) (.start rfl) hrun
  exact ⟨s, hreachable, hlength, aligned_of_reachable hreachable⟩

end Hci
