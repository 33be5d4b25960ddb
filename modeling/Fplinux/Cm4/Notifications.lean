/-
No notification of the Bluetooth controller is lost.

* `kept_of_trace` — every notification that a write or a read queued is handed
  to the mailbox controller later on, or still waits to be;
* `Sound` and `notifications_kept` — this, at most one undelivered notification at
  a time, untouched buffers, and suspension with nothing left to do;
* `drains` — polls and completions hand over everything that waits.

A step touches the notifications in one of a few ways, whatever else it does
(`Effect`, `effect_of_step`); the invariant `Inv` and every part of `Sound`
are read off these.
-/
import Fplinux.Cm4.Mailbox

namespace Mailbox

open Machine (Step Trace runOps runOps_append runSteps)
open Sbuf (ringBytes)

-- The numerals of `Fin 3` carry this one proof.
local instance rings_ne_zero : NeZero 3 := ⟨by decide⟩

/-! ### The effects of a step -/

/-- The part of the record that notifications depend on. -/
structure Core where
  pending : BitVec 32
  activeEvent : ℕ
  notify : Send
  opening : ℕ × ℕ
  done : ℕ × ℕ
  due : Option Slot
  suspended : Bool
  handed : List Handed
  outstanding : List Handed

/-- The message in a slot's buffer. -/
def Core.message (c : Core) : Slot → Handed
  | .opening => ⟨.opening, c.opening.1, c.opening.2⟩
  | .done => ⟨.done, c.done.1, c.done.2⟩
  | .notify => ⟨.notify, c.notify.low, c.notify.high⟩

@[simp] theorem Core.message_slot (c : Core) (slot : Slot) : (c.message slot).slot = slot := by
  cases slot with
  | opening => rfl
  | done => rfl
  | notify => rfl

variable {c c' : Core} {op : Op} {s s' : State} {l : List (Step State Op)} {event : ℕ}
  {snapshot : Snapshot}

theorem Core.message_congr {slot : Slot} {m : Handed} (h : c.message slot = m)
    (hslot : slot ≠ .notify) (hopening : c'.opening = c.opening) (hdone : c'.done = c.done) :
    c'.message slot = m := by
  rw [← h]
  cases slot with
  | opening => rw [message, message, hopening]
  | done => rw [message, message, hdone]
  | notify => exact absurd rfl hslot

namespace State

def core (s : State) : Core where
  pending := s.stream.pending
  activeEvent := s.stream.activeEvent
  notify := s.stream.notify
  opening := (s.opening.low, s.opening.high)
  done := (s.done.low, s.done.high)
  due := s.due
  suspended := s.suspended
  handed := s.handed
  outstanding := s.outstanding

variable (s : State)

@[simp] theorem core_fail (reason : Reason) : (s.fail reason).core = s.core := by
  rw [fail]
  split
  · rfl
  · rfl

theorem core_acceptServiceMessage (message : Message) :
    (s.acceptServiceMessage message).core = s.core := by
  rw [acceptServiceMessage]
  split_ifs
  all_goals simp

theorem core_acceptMessage (message : Message) : (s.acceptMessage message).core = s.core := by
  rw [acceptMessage]
  split_ifs
  all_goals first | rfl | simp

theorem core_consumeLoop (queue : List Message) :
    ∀ s : State, (consumeLoop queue s).core = s.core := by
  induction queue with
  | nil =>
    intro s
    rfl
  | cons message rest ih =>
    intro s
    rw [consumeLoop]
    split
    · rfl
    · rw [ih, core_acceptMessage]
      rfl

@[simp] theorem core_consumeQueue : s.consumeQueue.core = s.core :=
  core_consumeLoop _ s

theorem core_receive (low high : ℕ) : (s.receive low high).core = s.core := by
  simp only [receive]
  split_ifs
  · rfl
  · exact s.core_acceptServiceMessage _
  · simp
  · rfl

theorem core_h4Begin (snapshot : Snapshot) : (s.h4Begin snapshot).core = s.core := by
  simp only [h4Begin]
  split_ifs
  all_goals first | rfl | simp

theorem core_h4Continue : s.h4Continue.core = s.core := by
  have hconsumed := s.core_consumeQueue
  simp only [h4Continue]
  split_ifs
  all_goals first | rfl | exact hconsumed

theorem core_stop (flushFailed : Bool) : (s.stop flushFailed).core = s.core := by
  have hconsumed := s.core_consumeQueue
  simp only [stop]
  split_ifs
  all_goals first | rfl | exact hconsumed

end State

/-- What one step does to the notifications. -/
inductive Effect (op : Op) (c c' : Core) : Prop
  /-- nothing -/
  | frame (h : c' = c)
  /-- a write or a read queued an event -/
  | queued (event : ℕ) (hawake : c.suspended = false)
      (h : c' = { c with pending := c.pending ||| BitVec.twoPow 32 event })
  /-- the mailbox controller called back for a buffer -/
  | called (slot : Slot)
      (h : c' = { c with outstanding := c.outstanding.filter (·.slot ≠ slot) })
  /-- and it was the notification under way -/
  | completed (htriggered : c.notify.triggered = true)
      (h : c' = { c with
        notify := { c.notify with delivered := true }
        outstanding := c.outstanding.filter (·.slot ≠ .notify) })
  /-- a poll took the next event -/
  | selected (hawake : c.suspended = false) (hpending : c.pending ≠ 0)
      (hfree : c.notify.low = 0 ∨ c.notify.delivered = true)
      (h : c' = { c with
        pending := c.pending &&& ~~~(BitVec.twoPow 32 (ffs c.pending))
        activeEvent := ffs c.pending
        notify := ⟨(eventMessage (ffs c.pending)).1, (eventMessage (ffs c.pending)).2,
          false, false⟩
        due := some .notify })
  /-- a poll is to trigger a message -/
  | owes (slot : Slot)
      (hslot : slot = .notify → c.notify.low ≠ 0 ∧ c.notify.triggered = false)
      (h : c' = { c with due := some slot })
  /-- a trigger was refused -/
  | refused (h : c' = { c with due := none })
  /-- a message was handed over -/
  | handed (slot : Slot) (hdue : c.due = some slot) (hawake : c.suspended = false)
      (h : c' = { c with
        notify := if slot = .notify then { c.notify with triggered := true } else c.notify
        due := none
        handed := c.handed ++ [c.message slot]
        outstanding := c.outstanding ++ [c.message slot] })
  /-- the mailbox controller did not take a message -/
  | rejected (slot : Slot) (hdue : c.due = some slot)
      (h : c' = { c with
        notify := if slot = .notify then { c.notify with triggered := false } else c.notify
        due := none })
  /-- the driver was suspended -/
  | suspended (snapshot again : Snapshot) (hop : op = .suspend snapshot again)
      (hempty : ringEmpty (snapshot.rings 0) = true) (hempty' : ringEmpty (again.rings 1) = true)
      (hpending : c.pending = 0)
      (hidle : c.notify.low = 0 ∨ c.notify.delivered = true)
      (h : c' = { c with suspended := true })
  /-- the driver was resumed -/
  | resumed (h : c' = { c with suspended := false })

namespace State

variable (s : State) {op : Op}

theorem effect_transmitted (slot : Option Slot) (failed : Bool) :
    Effect op s.core (s.transmitted slot failed).core := by
  cases slot with
  | none => exact .frame (s.core_fail _)
  | some slot =>
    simp only [transmitted]
    split_ifs with hfailed hunexpected
    · refine .called slot ?_
      rw [core_fail]
      rfl
    · refine .called slot ?_
      rw [core_fail]
      rfl
    · cases slot with
      | opening => exact .called .opening rfl
      | done => exact .called .done rfl
      | notify =>
        refine .completed ?_ rfl
        simp only [Bool.or_eq_true, not_or, Bool.not_eq_true, Bool.not_eq_false'] at hunexpected
        exact hunexpected.1

theorem eventMessage_ne (event : ℕ) : (eventMessage event).1 ≠ 0 := by
  simp only [eventMessage]
  split
  · exact Nat.succ_ne_zero _
  · exact Nat.succ_ne_zero _

theorem effect_pollNotifications (hawake : s.suspended = false) :
    Effect op s.core s.pollNotifications.core := by
  simp only [pollNotifications]
  split_ifs with hbusy hselect hready hready
  · exact .frame rfl
  · simp only [Bool.and_eq_true, Bool.or_eq_true, beq_iff_eq, bne_iff_ne] at hselect
    exact .selected hawake hselect.2 hselect.1 rfl
  · -- The message of an event is never empty, so the event just taken is triggered.
    refine absurd ?_ hready
    simp [eventMessage_ne]
  · simp only [Bool.and_eq_true, bne_iff_ne, Bool.not_eq_true'] at hready
    exact .owes .notify (fun _ => hready) rfl
  · exact .frame rfl

theorem effect_pollLive (hawake : s.suspended = false) (snapshot : Snapshot) :
    Effect op s.core (s.pollLive snapshot).core := by
  rw [pollLive]
  split
  · exact .frame rfl
  split
  · split
    · exact s.effect_pollNotifications hawake
    · exact .frame rfl
  split
  · exact .owes .opening (fun h => absurd h (by decide)) rfl
  split
  · exact .frame rfl
  split
  · exact .frame rfl
  split
  · exact .owes .done (fun h => absurd h (by decide)) rfl
  · exact .frame (s.core_fail _)

theorem effect_poll (snapshot : Snapshot) : Effect op s.core (s.poll snapshot).core := by
  rw [poll]
  split
  · exact .frame rfl
  split
  · exact .frame rfl
  split
  · exact .frame rfl
  rename_i hsuspended
  split
  · exact .frame rfl
  · have hconsumed := s.core_consumeQueue
    have hsame : s.consumeQueue.suspended = s.suspended := congrArg Core.suspended hconsumed
    have hawake : s.consumeQueue.suspended = false := by
      rw [hsame]
      simpa using hsuspended
    have heffect := @effect_pollLive s.consumeQueue op hawake snapshot
    rw [hconsumed] at heffect
    exact heffect

theorem effect_trigger {slot : Slot} (hdue : s.due = some slot) (accepted : Bool) :
    Effect op s.core (({ s with due := none } : State).trigger slot accepted).core := by
  rw [trigger]
  split
  · exact .refused rfl
  · rename_i hrefused
    have hawake : s.suspended = false := by
      simp only [Bool.or_eq_true, not_or, Bool.not_eq_true] at hrefused
      exact hrefused.1.2
    dsimp only
    split
    · refine .handed slot hdue hawake ?_
      cases slot with
      | opening => rfl
      | done => rfl
      | notify => rfl
    · refine .rejected slot hdue ?_
      rw [core_fail]
      cases slot with
      | opening => rfl
      | done => rfl
      | notify => rfl

theorem awake_of_streamRefusal (h : s.streamRefusal = none) : s.suspended = false := by
  simp only [streamRefusal] at h
  split_ifs at h with herror hclosed hsuspended
  simpa using hsuspended

theorem effect_queueEvent (h : s.streamRefusal = none) (count : ℕ) (index : Fin 3) (event : ℕ) :
    Effect op s.core ((s.consumeQueue.moved count .ok).queueEvent index event).core := by
  refine .queued (2 * index + event) (s.awake_of_streamRefusal h) ?_
  rw [← s.core_consumeQueue]
  rfl

theorem effect_write (index : Fin 3) (bytes : ℕ) (wholeCommand : Bool) (snapshot : Snapshot)
    (rd : ℕ) : Effect op s.core (s.write index bytes wholeCommand snapshot rd).core := by
  have hconsumed := s.core_consumeQueue
  cases hready : s.streamRefusal with
  | some ret =>
    simp only [write, hready]
    split
    · exact .frame rfl
    · exact .frame rfl
  | none =>
    simp only [write, hready]
    split_ifs
    all_goals first
      | exact .frame rfl
      | exact .frame hconsumed
      | exact .frame ((core_fail _ _).trans hconsumed)
      | exact s.effect_queueEvent hready _ _ _

theorem effect_read (index : Fin 3) (capacity : ℕ) (snapshot : Snapshot) (wr : ℕ) :
    Effect op s.core (s.read index capacity snapshot wr).core := by
  have hconsumed := s.core_consumeQueue
  cases hready : s.streamRefusal with
  | some ret =>
    simp only [read, hready]
    exact .frame rfl
  | none =>
    simp only [read, hready]
    split_ifs
    all_goals first
      | exact .frame hconsumed
      | exact .frame ((core_fail _ _).trans hconsumed)
      | exact s.effect_queueEvent hready _ _ _

theorem effect_suspend (snapshot again : Snapshot) :
    Effect (.suspend snapshot again) s.core (s.suspend snapshot again).core := by
  simp only [suspend]
  split_ifs with _ _ _ _ hbusy _ hagain
  all_goals first
    | exact .frame rfl
    | exact .frame (s.core_fail _)
    | skip
  simp only [not_or, not_and, not_not, Bool.not_eq_false] at hbusy hagain
  obtain ⟨hempty, -, hpending, -, -, hidle⟩ := hbusy
  refine .suspended snapshot again rfl hempty hagain hpending ?_ rfl
  by_cases hlow : s.stream.notify.low = 0
  · exact .inl hlow
  · have hdelivered : s.stream.notify.delivered = true := by simpa using hidle hlow
    exact .inr hdelivered

theorem effect_resume (snapshot : Snapshot) : Effect op s.core (s.resume snapshot).core := by
  simp only [resume]
  split_ifs
  all_goals first
    | exact .frame rfl
    | exact .frame (s.core_fail _)
    | exact .resumed rfl

end State

theorem effect_of_step (h : step s op = some s') : Effect op s.core s'.core := by
  cases op with
  | receive low high =>
    obtain rfl := Option.some.inj h
    exact .frame (s.core_receive low high)
  | transmitted slot failed =>
    obtain rfl := Option.some.inj h
    exact s.effect_transmitted slot failed
  | poll snapshot =>
    rw [step] at h
    split at h
    · obtain rfl := Option.some.inj h
      exact s.effect_poll snapshot
    · exact absurd h (by simp)
  | trigger accepted =>
    rw [step, Option.map_eq_some_iff] at h
    obtain ⟨slot, hdue, rfl⟩ := h
    exact s.effect_trigger hdue accepted
  | h4Begin snapshot =>
    obtain rfl := Option.some.inj h
    exact .frame (s.core_h4Begin snapshot)
  | h4Continue =>
    obtain rfl := Option.some.inj h
    exact .frame s.core_h4Continue
  | write index bytes wholeCommand snapshot rd =>
    obtain rfl := Option.some.inj h
    exact s.effect_write index bytes wholeCommand snapshot rd
  | read index capacity snapshot wr =>
    obtain rfl := Option.some.inj h
    exact s.effect_read index capacity snapshot wr
  | suspend snapshot again =>
    obtain rfl := Option.some.inj h
    exact s.effect_suspend snapshot again
  | resume snapshot =>
    obtain rfl := Option.some.inj h
    exact s.effect_resume snapshot
  | stop flushFailed =>
    obtain rfl := Option.some.inj h
    exact .frame (s.core_stop flushFailed)

/-! ### The invariant -/

/-- The buffer of a notification is free, waits to be triggered, or is under
way, and the driver sleeps only when it is not needed. -/
structure Inv (c : Core) : Prop where
  fresh : c.notify.low = 0 → c.notify.triggered = false
  ran : c.notify.delivered = true → c.notify.triggered = true
  message : c.notify.low ≠ 0 → (c.notify.low, c.notify.high) = eventMessage c.activeEvent
  due : c.due = some .notify → c.notify.low ≠ 0 ∧ c.notify.triggered = false
  underWay : ∀ m ∈ c.outstanding, m.slot = .notify →
    c.notify.triggered = true ∧ c.notify.delivered = false
  own : ∀ m ∈ c.outstanding, c.message m.slot = m
  alone : (c.outstanding.filter (·.slot = .notify)).length ≤ 1
  quiet : c.suspended = true →
    c.pending = 0 ∧ (c.notify.low = 0 ∨ c.notify.delivered = true)

namespace Inv

variable {c c' : Core}

theorem none_outstanding (h : Inv c) (hfree : c.notify.low = 0 ∨ c.notify.delivered = true) :
    ∀ m ∈ c.outstanding, m.slot ≠ .notify := by
  intro m hm hslot
  obtain ⟨htriggered, hdelivered⟩ := h.underWay m hm hslot
  rcases hfree with hlow | hdone
  · exact absurd (h.fresh hlow) (by simp [htriggered])
  · exact absurd hdone (by simp [hdelivered])

theorem none_triggered (h : Inv c) (hwaits : c.notify.triggered = false) :
    ∀ m ∈ c.outstanding, m.slot ≠ .notify := by
  intro m hm hslot
  exact absurd (h.underWay m hm hslot).1 (by simp [hwaits])

theorem not_delivered (h : Inv c) (hwaits : c.notify.triggered = false) :
    c.notify.delivered = false := by
  by_contra hdelivered
  exact absurd (h.ran (by simpa using hdelivered)) (by simp [hwaits])

theorem filter_alone (h : Inv c) (slot : Slot) :
    ((c.outstanding.filter (·.slot ≠ slot)).filter (·.slot = .notify)).length ≤ 1 :=
  Nat.le_trans (List.filter_sublist.filter _).length_le h.alone

/-- The notification is handed over. -/
theorem handed_notify (h : Inv c) (hdue : c.due = some .notify) :
    Inv { c with
      notify := { c.notify with triggered := true }
      due := none
      handed := c.handed ++ [c.message .notify]
      outstanding := c.outstanding ++ [c.message .notify] } := by
  obtain ⟨hlow, hwaits⟩ := h.due hdue
  have hnone := h.none_triggered hwaits
  have hdelivered := h.not_delivered hwaits
  refine { h with
    fresh := fun hzero => absurd hzero hlow
    ran := fun _ => rfl
    due := fun hdue => absurd hdue (by simp)
    underWay := fun _ _ _ => ⟨rfl, hdelivered⟩
    own := ?_
    alone := ?_ }
  · intro m hm
    rcases List.mem_append.mp hm with hm | hm
    · exact Core.message_congr (h.own m hm) (hnone m hm) rfl rfl
    · rw [List.mem_singleton.mp hm]
      rfl
  · have hempty : c.outstanding.filter (·.slot = .notify) = [] :=
      List.filter_eq_nil_iff.mpr fun m hm => by simpa using hnone m hm
    rw [List.filter_append, hempty]
    exact List.length_filter_le _ _

/-- Another message is handed over. -/
theorem handed_other (h : Inv c) {slot : Slot} (hslot : slot ≠ .notify) :
    Inv { c with
      due := none
      handed := c.handed ++ [c.message slot]
      outstanding := c.outstanding ++ [c.message slot] } := by
  refine { h with
    due := fun hdue => absurd hdue (by simp)
    underWay := ?_
    own := ?_
    alone := ?_ }
  · intro m hm hnotify
    rcases List.mem_append.mp hm with hm | hm
    · exact h.underWay m hm hnotify
    · rw [List.mem_singleton.mp hm, Core.message_slot] at hnotify
      exact absurd hnotify hslot
  · intro m hm
    rcases List.mem_append.mp hm with hm | hm
    · exact h.own m hm
    · rw [List.mem_singleton.mp hm, Core.message_slot]
      exact Core.message_congr rfl hslot rfl rfl
  · have hother : [c.message slot].filter (·.slot = .notify) = [] := by
      simp [hslot]
    rw [List.filter_append, hother, List.append_nil]
    exact h.alone

/-- **Every effect keeps the invariant.** -/
theorem effect (h : Inv c) {op : Op} (he : Effect op c c') : Inv c' := by
  cases he with
  | frame heq =>
    subst heq
    exact h
  | queued event hawake heq =>
    subst heq
    exact { h with quiet := fun hsuspended => absurd hsuspended (by simp [hawake]) }
  | called slot heq =>
    subst heq
    exact { h with
      underWay := fun m hm => h.underWay m (List.mem_of_mem_filter hm)
      own := fun m hm => h.own m (List.mem_of_mem_filter hm)
      alone := h.filter_alone slot }
  | completed htriggered heq =>
    subst heq
    have hnone : ∀ m ∈ c.outstanding.filter (·.slot ≠ .notify), m.slot ≠ .notify := by
      intro m hm
      simpa using (List.mem_filter.mp hm).2
    refine { h with ran := ?_, underWay := ?_, own := ?_, alone := ?_, quiet := ?_ }
    · intro _
      exact htriggered
    · intro m hm hslot
      exact absurd hslot (hnone m hm)
    · intro m hm
      exact h.own m (List.mem_of_mem_filter hm)
    · exact h.filter_alone .notify
    · intro hsuspended
      exact ⟨(h.quiet hsuspended).1, .inr rfl⟩
  | selected hawake hpending hfree heq =>
    subst heq
    have hnone := h.none_outstanding hfree
    refine
      { fresh := fun _ => rfl
        ran := fun hdelivered => absurd hdelivered (by simp)
        message := fun _ => rfl
        due := fun _ => ⟨State.eventMessage_ne _, rfl⟩
        underWay := fun m hm hslot => absurd hslot (hnone m hm)
        own := ?_
        alone := h.alone
        quiet := fun hsuspended => absurd hsuspended (by simp [hawake]) }
    intro m hm
    exact Core.message_congr (h.own m hm) (hnone m hm) rfl rfl
  | owes slot hslot heq =>
    subst heq
    exact { h with due := fun hdue => hslot (Option.some.inj hdue) }
  | refused heq =>
    subst heq
    exact { h with due := fun hdue => absurd hdue (by simp) }
  | handed slot hdue hawake heq =>
    subst heq
    by_cases hslot : slot = .notify
    · subst hslot
      exact h.handed_notify hdue
    · simp only [if_neg hslot]
      exact h.handed_other hslot
  | rejected slot hdue heq =>
    subst heq
    by_cases hslot : slot = .notify
    · subst hslot
      -- The buffer was not triggered before, so nothing is taken back.
      have hwaits := (h.due hdue).2
      have hsame : ({ c.notify with triggered := false } : Send) = c.notify := by
        rw [← hwaits]
      simp only [if_true, hsame]
      exact { h with due := fun hdue => absurd hdue (by simp) }
    · simp only [if_neg hslot]
      exact { h with due := fun hdue => absurd hdue (by simp) }
  | suspended _ _ _ _ _ hpending hidle heq =>
    subst heq
    exact { h with quiet := fun _ => ⟨hpending, hidle⟩ }
  | resumed heq =>
    subst heq
    exact { h with quiet := fun hsuspended => absurd hsuspended (by simp) }

end Inv

theorem inv_start (allocator : ℕ) : Inv (start allocator).core where
  fresh _ := rfl
  ran h := absurd h (by simp [start, State.core])
  message h := absurd rfl h
  due h := absurd h (by simp [start, State.core])
  underWay _ hm := absurd hm List.not_mem_nil
  own _ hm := absurd hm List.not_mem_nil
  alone := Nat.zero_le _
  quiet h := absurd h (by simp [start, State.core])

theorem inv_of_trace (h : machine.Trace l s) : Inv s.core := by
  refine h.invariant (P := fun _ s => Inv s.core) (K := fun _ => True) ?_ ?_ (fun _ _ => trivial)
  · rintro s ⟨allocator, rfl⟩
    exact inv_start allocator
  · intro l s op s' hinv hstep _
    exact hinv.effect (effect_of_step hstep)

/-! ### What waits -/

/-- An event waits to be handed over: its bit is set, or it is in the buffer. -/
def Waiting (c : Core) (event : ℕ) : Prop :=
  c.pending.getLsbD event = true ∨
    (c.notify.low ≠ 0 ∧ c.notify.triggered = false ∧ c.activeEvent = event)

/-- An event's message as the mailbox controller gets it. -/
def handedEvent (event : ℕ) : Handed :=
  ⟨.notify, (eventMessage event).1, (eventMessage event).2⟩

/-- The step hands an event's message over. -/
def Hands (x : Step State Op) (event : ℕ) : Prop :=
  x.after.handed = x.before.handed ++ [handedEvent event]

/-- The step is a write that found the peer's read counter equal to its own
counter before the write, or a read that found the ring full: it published its
counter, and the event is the ring's. -/
def Raises (x : Step State Op) (event : ℕ) : Prop :=
  match x.op with
  | .write index _ _ snapshot rd =>
    x.after.ret = .ok ∧ x.after.transferred ≠ 0 ∧ rd = (snapshot.rings index).txWrite ∧
      event = 2 * index
  | .read index _ snapshot wr =>
    x.after.ret = .ok ∧ x.after.transferred ≠ 0 ∧
      Word.sub 32 wr (snapshot.rings index).rxRead = ringBytes ∧ event = 2 * index + 1
  | _ => False

theorem getLsbD_clear {bits : BitVec 32} {i : ℕ} (h : bits.getLsbD event = true) (hne : event ≠ i) :
    (bits &&& ~~~(BitVec.twoPow 32 i)).getLsbD event = true := by
  have hlt : event < 32 := BitVec.lt_of_getLsbD h
  simp [h, hlt, hne]

/-- **What waits keeps waiting until it is handed over.** -/
theorem waiting_effect (h : Inv c) (he : Effect op c c') (hwaiting : Waiting c event) :
    c'.handed = c.handed ++ [handedEvent event] ∨ Waiting c' event := by
  cases he with
  | frame heq | called _ heq | owes _ _ heq | refused heq | resumed heq
  | suspended _ _ _ _ _ _ _ heq =>
    subst heq
    exact .inr hwaiting
  | queued other _ heq =>
    subst heq
    refine .inr (hwaiting.imp_left fun hbit => ?_)
    rw [BitVec.getLsbD_or, hbit]
    rfl
  | completed htriggered heq =>
    subst heq
    refine .inr (hwaiting.imp_right fun hbuffer => ?_)
    exact absurd hbuffer.2.1 (by simp [htriggered])
  | selected _ hpending hfree heq =>
    subst heq
    rcases hwaiting with hbit | ⟨hlow, hwaits, -⟩
    · by_cases hlowest : event = ffs c.pending
      · exact .inr (.inr ⟨State.eventMessage_ne _, rfl, hlowest.symm⟩)
      · exact .inr (.inl (getLsbD_clear hbit hlowest))
    · -- A buffer that waits to be triggered is not free.
      rcases hfree with hzero | hdelivered
      · exact absurd hzero hlow
      · exact absurd (h.ran hdelivered) (by simp [hwaits])
  | handed slot hdue _ heq =>
    subst heq
    rcases hwaiting with hbit | ⟨hlow, hwaits, hevent⟩
    · exact .inr (.inl hbit)
    · by_cases hslot : slot = .notify
      · subst hslot
        refine .inl ?_
        have hmessage := h.message hlow
        rw [hevent] at hmessage
        simp only [Core.message, handedEvent, ← hmessage]
      · simp only [if_neg hslot]
        exact .inr (.inr ⟨hlow, hwaits, hevent⟩)
  | rejected slot _ heq =>
    subst heq
    refine .inr (hwaiting.imp_right fun ⟨hlow, hwaits, hevent⟩ => ?_)
    by_cases hslot : slot = .notify
    · simp only [if_pos hslot]
      exact ⟨hlow, trivial, hevent⟩
    · simp only [if_neg hslot]
      exact ⟨hlow, hwaits, hevent⟩

theorem waiting_queueEvent (s : State) (index : Fin 3) (hevent : event ≤ 1) :
    Waiting (s.queueEvent index event).core (2 * index + event) := by
  have hindex := index.isLt
  refine .inl ?_
  show (s.stream.pending ||| BitVec.twoPow 32 (2 * index + event)).getLsbD _ = true
  rw [BitVec.getLsbD_or, BitVec.getLsbD_twoPow]
  simp only [decide_true, Bool.and_true, Bool.or_eq_true, decide_eq_true_eq]
  exact .inr (by omega)

@[simp] theorem State.ret_fail (s : State) (reason : Reason) :
    (s.fail reason).ret = .failed := by
  rw [State.fail]
  split
  · rfl
  · rfl

theorem State.write_published {index : Fin 3} {bytes : ℕ} {wholeCommand : Bool} {rd : ℕ}
    (hret : (s.write index bytes wholeCommand snapshot rd).ret = .ok)
    (hmoved : (s.write index bytes wholeCommand snapshot rd).transferred ≠ 0)
    (hrd : rd = (snapshot.rings index).txWrite) :
    ∃ s₁ : State, s.write index bytes wholeCommand snapshot rd = s₁.queueEvent index 0 := by
  revert hret hmoved
  cases hready : s.streamRefusal with
  | some ret =>
    simp only [State.write, hready]
    split
    · exact fun _ hmoved => absurd rfl hmoved
    · exact fun _ hmoved => absurd rfl hmoved
  | none =>
    simp only [State.write, hready]
    split_ifs
    all_goals intro hret hmoved
    all_goals first
      | exact absurd rfl hmoved
      | exact ⟨_, rfl⟩
      | exact absurd hret (by simp)

theorem State.read_published {index : Fin 3} {capacity : ℕ} {wr : ℕ}
    (hret : (s.read index capacity snapshot wr).ret = .ok)
    (hmoved : (s.read index capacity snapshot wr).transferred ≠ 0)
    (hfull : Word.sub 32 wr (snapshot.rings index).rxRead = ringBytes) :
    ∃ s₁ : State, s.read index capacity snapshot wr = s₁.queueEvent index 1 := by
  revert hret hmoved
  cases hready : s.streamRefusal with
  | some ret =>
    simp only [State.read, hready]
    exact fun _ hmoved => absurd rfl hmoved
  | none =>
    simp only [State.read, hready]
    split_ifs
    all_goals intro hret hmoved
    all_goals first
      | exact absurd rfl hmoved
      | exact ⟨_, rfl⟩
      | exact absurd hret (by simp)

/-- **A raised event waits.** -/
theorem waiting_of_raises (hstep : step s op = some s') (h : Raises ⟨s, op, s'⟩ event) :
    Waiting s'.core event := by
  cases op with
  | write index bytes wholeCommand snapshot rd =>
    obtain ⟨hret, hmoved, hrd, rfl⟩ := h
    obtain rfl := Option.some.inj hstep
    obtain ⟨s₁, hwrite⟩ := State.write_published hret hmoved hrd
    rw [hwrite]
    exact waiting_queueEvent s₁ index (Nat.zero_le _)
  | read index capacity snapshot wr =>
    obtain ⟨hret, hmoved, hfull, rfl⟩ := h
    obtain rfl := Option.some.inj hstep
    obtain ⟨s₁, hread⟩ := State.read_published hret hmoved hfull
    rw [hread]
    exact waiting_queueEvent s₁ index (Nat.le_refl _)
  | _ => exact h.elim

/-! ### Runs -/

theorem kept_of_trace (h : machine.Trace l s) :
    ∀ pre x post event, l = pre ++ x :: post → Raises x event →
      (∃ y ∈ post, Hands y event) ∨ Waiting s.core event := by
  refine h.response (W := fun s => Waiting s.core) ?_ ?_
  · intro s op s' event hstep hraises
    exact waiting_of_raises hstep hraises
  · intro l s op s' event htrace hstep hwaiting
    exact waiting_effect (inv_of_trace htrace) (effect_of_step hstep) hwaiting

theorem message_effect (h : Inv c) (he : Effect op c c') {m : Handed} (hm : m ∈ c.outstanding) :
    c'.message m.slot = m := by
  have hown := h.own m hm
  cases he with
  | frame heq | called _ heq | owes _ _ heq | refused heq | resumed heq | queued _ _ heq
  | suspended _ _ _ _ _ _ _ heq =>
    subst heq
    exact hown
  | completed _ heq =>
    subst heq
    cases hslot : m.slot with
    | opening => rw [hslot] at hown; exact hown
    | done => rw [hslot] at hown; exact hown
    | notify => rw [hslot] at hown; exact hown
  | selected _ _ hfree heq =>
    subst heq
    exact Core.message_congr hown (h.none_outstanding hfree m hm) rfl rfl
  | handed slot _ _ heq | rejected slot _ heq =>
    subst heq
    cases hslot : m.slot with
    | opening => rw [hslot] at hown; exact hown
    | done => rw [hslot] at hown; exact hown
    | notify =>
      rw [hslot] at hown
      by_cases hnotify : slot = .notify
      · simp only [if_pos hnotify]
        exact hown
      · simp only [if_neg hnotify]
        exact hown

/-! ### Suspension -/

/-- A suspend call that found rings 0 and 1 empty suspended the driver. -/
def FoundEmpty (x : Step State Op) : Prop :=
  ∃ snapshot again, x.op = .suspend snapshot again ∧ x.before.suspended = false ∧
    ringEmpty (snapshot.rings 0) = true ∧ ringEmpty (again.rings 1) = true

/-- No notification is pending or undelivered, and the call that suspended the
driver found both rings empty. -/
structure Quiet (l : List (Step State Op)) (s : State) : Prop where
  pending : s.stream.pending = 0
  delivered : s.stream.notify.low = 0 ∨ s.stream.notify.delivered = true
  noneOutstanding : ∀ m ∈ s.outstanding, m.slot ≠ .notify
  foundEmpty : ∃ pre x post, l = pre ++ x :: post ∧ FoundEmpty x ∧
    x.after.suspended = true ∧ ∀ y ∈ post, y.after.suspended = true

theorem foundEmpty_effect (he : Effect op c c') (hawake : c.suspended = false)
    (hsuspended : c'.suspended = true) :
    ∃ snapshot again, op = .suspend snapshot again ∧
      ringEmpty (snapshot.rings 0) = true ∧ ringEmpty (again.rings 1) = true := by
  cases he with
  | suspended snapshot again hop hempty hempty' =>
    exact ⟨snapshot, again, hop, hempty, hempty'⟩
  | resumed heq =>
    subst heq
    exact absurd hsuspended (by simp)
  | frame heq | called _ heq | owes _ _ heq | refused heq | queued _ _ heq | completed _ heq
  | selected _ _ _ heq | handed _ _ _ heq | rejected _ _ heq =>
    subst heq
    exact absurd hsuspended (by simp [hawake])

/-- **A suspended driver is quiet.** -/
theorem quiet_of_trace (h : machine.Trace l s) : s.suspended = true → Quiet l s := by
  induction h with
  | @start s h0 =>
    intro hsuspended
    obtain ⟨allocator, rfl⟩ := h0
    exact absurd hsuspended (by simp [start])
  | @step l s s' op htrace hstep ih =>
    intro hsuspended
    have heffect := effect_of_step hstep
    have hinv := (inv_of_trace htrace).effect heffect
    obtain ⟨hpending, hdelivered⟩ := hinv.quiet hsuspended
    refine ⟨hpending, hdelivered, hinv.none_outstanding hdelivered, ?_⟩
    cases hbefore : s.suspended with
    | true =>
      obtain ⟨pre, x, post, rfl, hfound, hafter, hrest⟩ := (ih hbefore).foundEmpty
      refine ⟨pre, x, post ++ [⟨s, op, s'⟩], by simp, hfound, hafter, ?_⟩
      intro y hy
      rcases List.mem_append.mp hy with hy | hy
      · exact hrest y hy
      · rw [List.mem_singleton.mp hy]
        exact hsuspended
    | false =>
      obtain ⟨snapshot, again, hop, hempty, hempty'⟩ :=
        foundEmpty_effect heffect hbefore hsuspended
      exact ⟨l, ⟨s, op, s'⟩, [], rfl, ⟨snapshot, again, hop, hbefore, hempty, hempty'⟩, hsuspended,
        fun y hy => absurd hy List.not_mem_nil⟩

theorem State.suspended_of_ok {again : Snapshot} (hret : (s.suspend snapshot again).ret = .ok) :
    (s.suspend snapshot again).suspended = true := by
  revert hret
  simp only [suspend]
  split_ifs with herror hsuspended
  all_goals intro hret
  all_goals first
    | exact hsuspended
    | rfl
    | exact absurd hret (by simp [give])

/-! ### Progress -/

/-- The driver serves the stream, and no notification is under way. -/
structure Ready (s : State) : Prop where
  error : s.error = none
  prepared : s.prepared = true
  awake : s.suspended = false
  live : s.stopped = false
  consumed : s.consumed = s.queue.length
  done : s.done.delivered = true
  enabled : s.stream.enabled = true
  due : s.due = none
  free : s.stream.notify.triggered = true → s.stream.notify.delivered = true

/-- A poll whose message is taken and delivered. -/
def serve (snapshot : Snapshot) : List Op :=
  [.poll snapshot, .trigger true, .transmitted (some .notify) false]

namespace Ready

variable {s : State}

theorem consumeQueue (h : Ready s) : s.consumeQueue = s := by
  rw [State.consumeQueue, h.consumed, List.drop_length]
  rfl

theorem poll (h : Ready s) (snapshot : Snapshot) :
    step s (.poll snapshot) = some s.pollNotifications := by
  simp only [step, h.due, if_true, State.poll, h.error, h.prepared, h.awake, h.live,
    h.consumeQueue, State.pollLive, h.done, h.enabled]
  simp

theorem deliver (h : Ready s) {stream : Stream}
    (hpoll : s.pollNotifications =
      { s with stream := stream, due := some .notify, ret := .inProgress })
    (henabled : stream.enabled = true) (hdelivered : stream.notify.delivered = false)
    (snapshot : Snapshot) :
    ∃ s', runOps step (serve snapshot) s = some s' ∧ Ready s' ∧
      s'.stream = { stream with notify := ⟨stream.notify.low, stream.notify.high, true, true⟩ } := by
  have hpolled := h.poll snapshot
  rw [hpoll] at hpolled
  let message : Handed := ⟨.notify, stream.notify.low, stream.notify.high⟩
  have htriggered : step { s with stream := stream, due := some .notify, ret := .inProgress }
      (.trigger true) = some { s with
        stream := { stream with notify := { stream.notify with triggered := true } }
        due := none
        ret := .inProgress
        handed := s.handed ++ [message]
        outstanding := s.outstanding ++ [message] } := by
    simp [step, State.trigger, h.error, h.live, h.awake, h.consumed, State.send, State.setSend,
      message]
  have hcompleted : step { s with
        stream := { stream with notify := { stream.notify with triggered := true } }
        due := none
        ret := .inProgress
        handed := s.handed ++ [message]
        outstanding := s.outstanding ++ [message] } (.transmitted (some .notify) false) =
      some { s with
        stream := { stream with notify := ⟨stream.notify.low, stream.notify.high, true, true⟩ }
        due := none
        ret := .inProgress
        handed := s.handed ++ [message]
        outstanding := (s.outstanding ++ [message]).filter (·.slot ≠ .notify) } := by
    simp [step, State.transmitted, State.send, State.setSend, hdelivered]
  have hrun : runOps step (serve snapshot) s = some { s with
        stream := { stream with notify := ⟨stream.notify.low, stream.notify.high, true, true⟩ }
        due := none
        ret := .inProgress
        handed := s.handed ++ [message]
        outstanding := (s.outstanding ++ [message]).filter (·.slot ≠ .notify) } := by
    rw [serve, runOps, hpolled, Option.bind_some, runOps, htriggered,
      Option.bind_some, runOps, hcompleted]
    rfl
  refine ⟨_, hrun, ?_, rfl⟩
  exact
    { error := h.error
      prepared := h.prepared
      awake := h.awake
      live := h.live
      consumed := h.consumed
      done := h.done
      enabled := henabled
      due := rfl
      free := fun _ => rfl }

theorem serve_buffer (h : Ready s) (hlow : s.stream.notify.low ≠ 0)
    (hwaits : s.stream.notify.triggered = false) (hdelivered : s.stream.notify.delivered = false)
    (snapshot : Snapshot) :
    ∃ s', runOps step (serve snapshot) s = some s' ∧ Ready s' ∧
      s'.stream.pending = s.stream.pending ∧ s'.stream.notify.delivered = true := by
  have hpoll : s.pollNotifications =
      { s with stream := s.stream, due := some .notify, ret := .inProgress } := by
    simp [State.pollNotifications, hlow, hwaits, hdelivered]
  obtain ⟨s', hrun, hready, hstream⟩ := h.deliver hpoll h.enabled hdelivered snapshot
  exact ⟨s', hrun, hready, by rw [hstream], by rw [hstream]⟩

theorem serve_lowest (h : Ready s)
    (hfree : s.stream.notify.low = 0 ∨ s.stream.notify.delivered = true)
    (hbusy : s.stream.notify.low = 0 → s.stream.notify.triggered = false)
    (hpending : s.stream.pending ≠ 0) (snapshot : Snapshot) :
    ∃ s', runOps step (serve snapshot) s = some s' ∧ Ready s' ∧
      s'.stream.pending =
        s.stream.pending &&& ~~~(BitVec.twoPow 32 (ffs s.stream.pending)) ∧
      s'.stream.notify.delivered = true := by
  have hcond : (s.stream.notify.triggered && !s.stream.notify.delivered) = false := by
    rcases hfree with hlow | hdelivered
    · rw [hbusy hlow]
      rfl
    · rw [hdelivered, Bool.not_true, Bool.and_false]
  have hselect : ((s.stream.notify.low == 0 || s.stream.notify.delivered) &&
      s.stream.pending != 0) = true := by
    simpa using ⟨hfree, hpending⟩
  have hpoll : s.pollNotifications = { s with
      stream := { s.stream with
        activeEvent := ffs s.stream.pending
        pending := s.stream.pending &&& ~~~(BitVec.twoPow 32 (ffs s.stream.pending))
        notify := ⟨(eventMessage (ffs s.stream.pending)).1,
          (eventMessage (ffs s.stream.pending)).2, false, false⟩ }
      due := some .notify
      ret := .inProgress } := by
    simp only [State.pollNotifications, hcond, hselect, if_true, Bool.false_eq_true, if_false]
    rw [if_pos (by simp [State.eventMessage_ne])]
  obtain ⟨s', hrun, hready, hstream⟩ := h.deliver hpoll h.enabled rfl snapshot
  exact ⟨s', hrun, hready, by rw [hstream], by rw [hstream]⟩

end Ready

theorem kept_of_runOps {ops : List Op} :
    ∀ {s s' : State}, Inv s.core → runOps step ops s = some s' → Waiting s.core event →
      (∃ x ∈ runSteps step s ops, Hands x event) ∨ Waiting s'.core event := by
  induction ops with
  | nil =>
    intro s s' _ hrun hwaiting
    rw [← Option.some.inj hrun]
    exact .inr hwaiting
  | cons op ops ih =>
    intro s s' hinv hrun hwaiting
    obtain ⟨t, ht, hrest⟩ := Option.bind_eq_some_iff.mp hrun
    have hsteps : runSteps step s (op :: ops) =
        ⟨s, op, t⟩ :: runSteps step t ops := by
      rw [runSteps, ht]
      rfl
    rw [hsteps]
    rcases waiting_effect hinv (effect_of_step ht) hwaiting with hhands | hwaits
    · exact .inl ⟨_, List.mem_cons_self .., hhands⟩
    · refine (ih (hinv.effect (effect_of_step ht)) hrest hwaits).imp_left ?_
      rintro ⟨x, hx, hhands⟩
      exact ⟨x, List.mem_cons_of_mem _ hx, hhands⟩

theorem inv_of_runOps {ops : List Op} (hinv : Inv s.core)
    (hrun : runOps step ops s = some s') : Inv s'.core :=
  Machine.runOps_invariant (P := fun s => Inv s.core)
    (fun _ _ _ hinv hstep => hinv.effect (effect_of_step hstep)) hinv hrun

theorem getLsbD_ffs {bits : BitVec 32} (h : bits ≠ 0) : bits.getLsbD (ffs bits) = true :=
  BitVec.getLsbD_true_ctz_of_ne_zero h

theorem drained_from (snapshot : Snapshot) : ∀ n k, 32 ≤ k + n → ∀ s : State, Inv s.core →
    Ready s → (s.stream.notify.low = 0 ∨ s.stream.notify.delivered = true) →
    (∀ event < k, s.stream.pending.getLsbD event = false) →
    ∃ rounds s', runOps step (List.replicate rounds (serve snapshot)).flatten s = some s' ∧
      ∀ event, ¬ Waiting s'.core event := by
  intro n
  induction n with
  | zero =>
    intro k hk s hinv hready hfree hclear
    refine ⟨0, s, rfl, ?_⟩
    rintro event (hbit | ⟨hlow, hwaits, -⟩)
    · have hlt := BitVec.lt_of_getLsbD hbit
      exact absurd hbit (by simp [State.core, hclear event (by omega)])
    · rcases hfree with hzero | hdelivered
      · exact hlow hzero
      · exact absurd (hinv.ran hdelivered) (by simp [hwaits])
  | succ n ih =>
    intro k hk s hinv hready hfree hclear
    by_cases hpending : s.stream.pending = 0
    · exact ih (k + 1) (by omega) s hinv hready hfree fun event _ => by simp [hpending]
    · obtain ⟨s₁, hrun, hready₁, hpending₁, hdelivered₁⟩ :=
        hready.serve_lowest hfree hinv.fresh hpending snapshot
      have hset := getLsbD_ffs hpending
      have hge : k ≤ ffs s.stream.pending := by
        by_contra hlt
        rw [hclear _ (by omega)] at hset
        exact absurd hset (by simp)
      obtain ⟨rounds, s', hrest, hnone⟩ := ih (k + 1) (by omega) s₁ (inv_of_runOps hinv hrun)
        hready₁ (.inr hdelivered₁) (by
          intro event hevent
          rw [hpending₁, BitVec.getLsbD_and]
          by_cases hlower : event < ffs s.stream.pending
          · rw [BitVec.getLsbD_false_of_lt_ctz hlower, Bool.false_and]
          · have hsame : event = ffs s.stream.pending := by omega
            have hbit : ffs s.stream.pending < 32 := BitVec.lt_of_getLsbD hset
            rw [hsame]
            simp [hbit])
      refine ⟨rounds + 1, s', ?_, hnone⟩
      rw [List.replicate_succ, List.flatten_cons, runOps_append hrun]
      exact hrest

/-- **Polls hand over everything that waits.** -/
theorem drains (hinv : Inv s.core) (hready : Ready s) (snapshot : Snapshot) :
    ∃ rounds s', runOps step (List.replicate rounds (serve snapshot)).flatten s = some s' ∧
      ∀ event, Waiting s.core event →
        ∃ x ∈ runSteps step s (List.replicate rounds (serve snapshot)).flatten,
          Hands x event := by
  have hrun : ∃ rounds s',
      runOps step (List.replicate rounds (serve snapshot)).flatten s = some s' ∧
        ∀ event, ¬ Waiting s'.core event := by
    by_cases hfree : s.stream.notify.low = 0 ∨ s.stream.notify.delivered = true
    · exact drained_from snapshot 32 0 (by omega) s hinv hready hfree
        fun event hevent => absurd hevent (Nat.not_lt_zero event)
    · -- An event that a refused trigger left in the buffer goes first.
      rw [not_or, Bool.not_eq_true] at hfree
      have hwaits : s.stream.notify.triggered = false := by
        by_contra htriggered
        have hdelivered := hready.free (by simpa using htriggered)
        rw [hfree.2] at hdelivered
        exact absurd hdelivered (by simp)
      obtain ⟨s₁, hrun, hready₁, -, hdelivered₁⟩ :=
        hready.serve_buffer hfree.1 hwaits hfree.2 snapshot
      obtain ⟨rounds, s', hrest, hnone⟩ := drained_from snapshot 32 0 (by omega) s₁
        (inv_of_runOps hinv hrun) hready₁ (.inr hdelivered₁)
        fun event hevent => absurd hevent (Nat.not_lt_zero event)
      refine ⟨rounds + 1, s', ?_, hnone⟩
      rw [List.replicate_succ, List.flatten_cons, runOps_append hrun]
      exact hrest
  obtain ⟨rounds, s', hrun, hnone⟩ := hrun
  refine ⟨rounds, s', hrun, fun event hwaiting => ?_⟩
  rcases kept_of_runOps hinv hrun hwaiting with hhands | hwaits
  · exact hhands
  · exact absurd hwaits (hnone event)

/-! ### Delivery over a whole run -/

/-- What holds of a run and its last state: every raised event is handed over
afterwards or waits, at most one notification is under way, buffers under way
are not touched, a suspend call succeeds only when all is quiet, and polls hand
over what waits. -/
structure Sound (l : List (Step State Op)) (s : State) : Prop where
  kept : ∀ pre x post event, l = pre ++ x :: post → Raises x event →
    (∃ y ∈ post, Hands y event) ∨ Waiting s.core event
  alone : (s.outstanding.filter (·.slot = .notify)).length ≤ 1
  untouched : ∀ x ∈ l, ∀ m ∈ x.before.outstanding,
    x.before.core.message m.slot = m ∧ x.after.core.message m.slot = m
  suspends : ∀ pre x post snapshot again, l = pre ++ x :: post →
    x.op = .suspend snapshot again → x.after.ret = .ok → Quiet (pre ++ [x]) x.after
  drains : Ready s → ∀ snapshot, ∃ rounds s',
    runOps step (List.replicate rounds (serve snapshot)).flatten s = some s' ∧
      ∀ event, Waiting s.core event →
        ∃ x ∈ runSteps step s (List.replicate rounds (serve snapshot)).flatten,
          Hands x event

/-- **No notification is lost.** -/
theorem notifications_kept {l : List (Step State Op)} {s : State} (h : machine.Trace l s) :
    Sound l s where
  kept := kept_of_trace h
  alone := (inv_of_trace h).alone
  untouched := by
    intro x hx m hm
    obtain ⟨pre, post, hl⟩ := List.append_of_mem hx
    obtain ⟨htrace, hstep⟩ := h.split hl
    have hinv := inv_of_trace htrace
    exact ⟨hinv.own m hm, message_effect hinv (effect_of_step hstep) hm⟩
  suspends := by
    intro pre x post snapshot again hl hop hret
    obtain ⟨htrace, hstep⟩ := h.split hl
    have hsuspend : x.before.suspend snapshot again = x.after := by
      rw [hop] at hstep
      exact Option.some.inj hstep
    rw [← hsuspend] at hret
    have hsuspended := State.suspended_of_ok hret
    rw [hsuspend] at hsuspended
    exact quiet_of_trace (htrace.step hstep) hsuspended
  drains := fun hready => drains (inv_of_trace h) hready

/-- The shared memory with one pair of counters in ring 0's first direction. -/
def sharedMemory (rd wr : ℕ) : Snapshot where
  allocator := 0
  ringCount := ringCount
  rings index :=
    { txAddress := sipcPhys + sbufData + 2 * index * ringBytes
      txSize := ringBytes
      txRead := if index = 0 then rd else 0
      txWrite := if index = 0 then wr else 0
      rxAddress := sipcPhys + sbufData + (2 * index + 1) * ringBytes
      rxSize := ringBytes
      rxRead := 0
      rxWrite := 0 }

/-- A handshake, a write of five bytes to an empty ring, its notification, and
a suspend call. -/
def firstWrite : List Op :=
  [.receive openWord 0, .poll (sharedMemory u32Max 0), .trigger true,
    .transmitted (some .opening) false, .receive cmdWord 0, .poll (sharedMemory u32Max 0),
    .trigger true, .transmitted (some .done) false, .h4Begin (sharedMemory 0 0), .h4Continue,
    .write 0 5 false (sharedMemory 0 0) 0, .poll (sharedMemory 0 5), .trigger true,
    .transmitted (some .notify) false, .suspend (sharedMemory 5 5) (sharedMemory 5 5)]

theorem notifications_kept_firstWrite :
    ∃ l s, machine.Trace l s ∧ s.handed =
      [⟨.opening, openWord, 0⟩, ⟨.done, doneWord, sipcPhys + sbufDescriptor⟩, handedEvent 0] ∧
      s.suspended = true ∧ Sound l s := by
  have hfields : (runOps step firstWrite (start 0)).map
      (fun s => (s.handed, s.suspended)) =
      some ([⟨.opening, openWord, 0⟩, ⟨.done, doneWord, sipcPhys + sbufDescriptor⟩, handedEvent 0],
        true) := by decide +kernel
  obtain ⟨s, hrun, hs⟩ := Option.map_eq_some_iff.mp hfields
  obtain ⟨hhanded, hsuspended⟩ := Prod.mk.inj hs
  have htrace := (Trace.start (S := machine) ⟨0, rfl⟩).runOps
    (fun _ _ _ hstep => hstep) hrun
  exact ⟨_, s, htrace, hhanded, hsuspended, notifications_kept htrace⟩

end Mailbox
