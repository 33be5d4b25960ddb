/-
The client and the service agree on their streams.

While a connection is open, the OPENs that the client waits for or gave up on
(`asked`) are the ones answered, the ones still on the way and the one not sent
yet, in this order: an answer belongs to the first of them.  And the streams of
the service are the ones that an answer on the way opens, the ones the client
has and the ones that a CLOSE on the way ends (`Settled.owed`), each once.  The
first law gives the answers to their requests, the second says that no slot is
lost and that a CLOSE ends what it is meant to end, as long as no two streams
of the connection share an ID.
-/
import Fplinux.Audio.Client

namespace AudioClient

open Audiod
open Function (comp_update update_idem update_of_ne update_self)
open List (append_assoc append_nil filterMap_append mem_cons_self mem_finRange nodup_finRange)
open Machine (Reachable Step Trace runOps)
open Option (any_eq_true any_some bind_some isNone_iff_eq_none ite_none_right_eq_some
  map_eq_some_iff)

/-! ### What is asked and what is owed -/

/-- The request behind an OPEN. -/
def Packet.opens : Packet → Option ℕ
  | .openStream _ _ call => some call
  | _ => none

/-- The stream that a CLOSE is meant for. -/
def Packet.closes : Packet → Option Served
  | .closeStream id call => some ⟨id, call⟩
  | _ => none

/-- The stream that an answer brings. -/
def Answer.brings : Answer → Option Served
  | .opened id _ _ call => some ⟨id, call⟩
  | .error _ _ => none

/-- A stream that is not ended, as the service has it. -/
def ClientStream.inUse (stream : ClientStream) : Option Served :=
  if stream.ended then none else some ⟨stream.id, stream.call⟩

namespace Phase

/-- The request that waits for its answer, or is about to. -/
def request : Phase → Option Request
  | .greeting request | .asking request _ | .awaiting request _ => some request
  | _ => none

/-- The request whose OPEN is not sent yet. -/
def unsent : Phase → Option Request
  | .greeting request | .asking request _ => some request
  | _ => none

/-- Whether the connection was made for the request. -/
def fresh : Phase → Bool
  | .greeting _ => true
  | .asking _ fresh | .awaiting _ fresh => fresh
  | _ => false

end Phase

/-- The streams of the service for the connection. -/
def Connection.held (c : Connection) : List Served :=
  Slots.entries (List.finRange streamsMax) c.slots

namespace Agreement

/-- The OPENs without an answer, oldest first. -/
def asked (s : Agreement) : List ℕ := s.pending ++ (s.phase.request.map Request.call).toList

def unsent (s : Agreement) : List ℕ := (s.phase.unsent.map Request.call).toList

/-- The streams of the client that are not ended. -/
def live (s : Agreement) : List Served :=
  Slots.entries (List.finRange clientStreams) fun i => (s.streams i).bind ClientStream.inUse

end Agreement

/-! ### The accord of the two ends -/

variable {asked unsent : List ℕ} {live : List Served} {c c' : Connection}

/-- An open connection. -/
structure Settled (asked unsent : List ℕ) (live : List Served) (c : Connection) : Prop where
  opens : c.answers.map Answer.call ++ c.requests.filterMap Packet.opens ++ unsent = asked
  greeting : c.state = .new ∨ c.state = .waiting → c.answers = [] ∧ asked.head? = some c.call
  owed : (c.answers.filterMap Answer.brings ++ live ++ c.requests.filterMap Packet.closes).Perm
    c.held
  ids : (c.held.map Served.id).Nodup
  nonzero : ∀ e ∈ c.held, e.id ≠ 0

/-- A connection: when the service closed it, what it sent still answers the
first OPENs. -/
structure Accord (asked unsent : List ℕ) (live : List Served) (c : Connection) : Prop where
  answered : c.answers.map Answer.call <+: asked
  free : c.closed = true → c.state = .free
  settled : c.closed = false → Settled asked unsent live c

theorem accord_of_settled (hopen : c.closed = false) (h : Settled asked unsent live c) :
    Accord asked unsent live c where
  answered := by
    rw [← h.opens, append_assoc]
    exact List.prefix_append _ _
  free hclosed := by
    rw [hopen] at hclosed
    cases hclosed
  settled _ := h

theorem accord_disconnect (h : c.answers.map Answer.call <+: asked) :
    Accord asked unsent live c.disconnect where
  answered := h
  free _ := rfl
  settled hopen := by cases hopen

variable {e : Served} {requests : List Packet} {answer : Answer}

theorem mem_held : e ∈ c.held ↔ ∃ i, c.slots i = some e := by
  rw [Connection.held, Slots.mem_entries]
  simp only [mem_finRange, true_and]

theorem findStream_eq (hids : (c.held.map Served.id).Nodup) (he : e ∈ c.held) :
    ∃ i, c.findStream e.id = some i ∧ c.slots i = some e := by
  obtain ⟨j, hj⟩ := mem_held.mp he
  have hsome : (c.findStream e.id).isSome := by
    rw [Connection.findStream, List.find?_isSome]
    refine ⟨j, mem_finRange j, ?_⟩
    rw [hj, any_some]
    exact decide_eq_true rfl
  obtain ⟨i, hi⟩ := Option.isSome_iff_exists.mp hsome
  refine ⟨i, hi, ?_⟩
  have hfound := List.find?_some hi
  obtain ⟨e', he', hid⟩ := (any_eq_true _ _).mp hfound
  have hsame := List.inj_on_of_nodup_map hids (mem_held.mpr ⟨i, he'⟩) he (of_decide_eq_true hid)
  rw [he', hsame]

theorem mem_held_of_live (h : Settled asked unsent live c) (he : e ∈ live) : e ∈ c.held :=
  h.owed.subset (List.mem_append_left _ (List.mem_append_right _ he))

/-! ### The steps of the service -/

namespace Connection

/-- What the service can do with a packet. -/
inductive Handled (c : Connection) : Choice → Connection → Prop
  | hello {requests : List Packet} {choice : Choice} {state : ConnectionState} :
      c.state = .new → c.requests = .hello :: requests → state = .ready ∨ state = .waiting →
      Handled c choice { c with requests, state }
  | refuseHello {requests : List Packet} {code : ℕ} :
      c.state = .new → c.requests = .hello :: requests →
      Handled c (.refuse code) ({ c with requests }.refuseHello code)
  | fill {requests : List Packet} {rate channels call : ℕ} {slot : StreamIndex} :
      c.state = .ready → c.requests = .openStream rate channels call :: requests →
      c.slots slot = none →
      Handled c (.fill slot)
        { c with
          requests
          lastId := Streams.nextId c.lastId
          slots := Function.update c.slots slot (some ⟨Streams.nextId c.lastId, call⟩)
          answers := c.answers ++ [.opened (Streams.nextId c.lastId) rate channels call] }
  | refuseOpen {requests : List Packet} {rate channels call code : ℕ} :
      c.state = .ready → c.requests = .openStream rate channels call :: requests →
      Handled c (.refuse code)
        { c with requests, answers := c.answers ++ [.error code call] }
  | close {requests : List Packet} {id call : ℕ} {choice : Choice} {slot : StreamIndex} :
      c.state = .ready → c.requests = .closeStream id call :: requests →
      c.findStream id = some slot →
      Handled c choice { c with requests, slots := Function.update c.slots slot none }
  | closeUnknown {requests : List Packet} {id call : ℕ} {choice : Choice} :
      c.state = .ready → c.requests = .closeStream id call :: requests → c.findStream id = none →
      Handled c choice { c with requests }
  | disconnect {choice : Choice} : Handled c choice c.disconnect

theorem handled_of_serve {choice : Choice} (hs : c.serve choice = some c') :
    Handled c choice c' := by
  unfold serve at hs
  split at hs
  case h_1 requests hstate hrequests =>
    cases choice with
    | accept =>
      cases hs
      exact .hello hstate hrequests (.inl rfl)
    | wait =>
      cases hs
      exact .hello hstate hrequests (.inr rfl)
    | refuse code =>
      obtain ⟨-, hs⟩ := ite_none_right_eq_some.mp hs
      cases hs
      exact .refuseHello hstate hrequests
    | fill slot => cases hs
  case h_2 rate channels call requests hstate hrequests =>
    cases choice with
    | accept => cases hs
    | wait => cases hs
    | refuse code =>
      obtain ⟨-, hs⟩ := ite_none_right_eq_some.mp hs
      cases hs
      exact .refuseOpen hstate hrequests
    | fill slot =>
      obtain ⟨hfree, hs⟩ := ite_none_right_eq_some.mp hs
      cases hs
      exact .fill hstate hrequests (isNone_iff_eq_none.mp hfree)
  case h_3 id call requests hstate hrequests =>
    dsimp only at hs
    split at hs
    case h_1 slot hslot =>
      cases hs
      exact .close hstate hrequests hslot
    case h_2 hslot =>
      cases hs
      exact .closeUnknown hstate hrequests hslot
  case h_4 =>
    cases hs
    exact .disconnect
  case h_5 =>
    cases hs
    exact .disconnect
  case h_6 => cases hs

/-- The ID of the next stream is one that no stream of the connection has. -/
def idFree (c : Connection) : Choice → Bool
  | .fill _ => (c.findStream (Streams.nextId c.lastId)).isNone
  | _ => true

theorem ne_of_findStream {id : ℕ} (h : (c.findStream id).isNone = true) {e : Served}
    (he : e ∈ c.held) : e.id ≠ id := by
  obtain ⟨i, hi⟩ := mem_held.mp he
  rw [findStream, isNone_iff_eq_none, List.find?_eq_none] at h
  intro hid
  refine h i (mem_finRange i) ?_
  rw [hi, any_some]
  exact decide_eq_true hid

end Connection

theorem Accord.open_of_state (h : Accord asked unsent live c) (hstate : c.state ≠ .free) :
    c.closed = false := by
  by_contra hclosed
  exact hstate (h.free (Bool.eq_true_of_not_eq_false hclosed))

theorem accord_refuseHello (h : Settled asked unsent live c)
    (hstate : c.state = .new ∨ c.state = .waiting) (code : ℕ) :
    Accord asked unsent live ({ c with requests }.refuseHello code) := by
  obtain ⟨hnone, hhead⟩ := h.greeting hstate
  refine accord_disconnect ?_
  show (c.answers ++ [Answer.error code c.call]).map Answer.call <+: asked
  rw [hnone]
  obtain ⟨rest, hrest⟩ := List.head?_eq_some_iff.mp hhead
  exact ⟨rest, hrest.symm⟩

theorem settled_fill (h : Settled asked unsent live c) (hstate : c.state = .ready)
    {rate channels call id : ℕ} {slot : StreamIndex}
    (hrequests : c.requests = .openStream rate channels call :: requests)
    (hslot : c.slots slot = none) (hid : id ≠ 0) (hnew : ∀ e ∈ c.held, e.id ≠ id) :
    Settled asked unsent live
      { c with
        requests
        lastId := id
        slots := Function.update c.slots slot (some ⟨id, call⟩)
        answers := c.answers ++ [.opened id rate channels call] } := by
  have hheld := Slots.entries_fill (b := (⟨id, call⟩ : Served)) (nodup_finRange streamsMax)
    (mem_finRange slot) hslot
  constructor
  · have hopens := h.opens
    rw [hrequests] at hopens
    rw [← hopens]
    simp [Answer.call, Packet.opens]
  · intro hnot
    rcases hnot with hnot | hnot
    · rw [hstate] at hnot
      cases hnot
    · rw [hstate] at hnot
      cases hnot
  · have howed := h.owed
    rw [hrequests, append_assoc] at howed
    show ((c.answers ++ [Answer.opened id rate channels call]).filterMap Answer.brings ++ live ++
      requests.filterMap Packet.closes).Perm _
    rw [filterMap_append, append_assoc, append_assoc]
    exact (List.perm_middle.trans (howed.cons _)).trans hheld.symm
  · refine (hheld.map Served.id).nodup_iff.mpr (List.nodup_cons.mpr ⟨?_, h.ids⟩)
    intro hmem
    obtain ⟨e, he, heq⟩ := List.mem_map.mp hmem
    exact hnew e he heq
  · intro e he
    rcases List.mem_cons.mp (hheld.subset he) with rfl | hold
    · exact hid
    · exact h.nonzero e hold

theorem settled_close (h : Settled asked unsent live c) (hstate : c.state = .ready) {id call : ℕ}
    {slot : StreamIndex} (hrequests : c.requests = .closeStream id call :: requests)
    (hheld : c.slots slot = some ⟨id, call⟩) :
    Settled asked unsent live
      { c with requests, slots := Function.update c.slots slot none } := by
  have hfreed := Slots.entries_free (nodup_finRange streamsMax) (mem_finRange slot) hheld
  have hsub : ∀ e ∈ Connection.held { c with slots := Function.update c.slots slot none },
      e ∈ c.held := fun e he => hfreed.symm.subset (List.mem_cons_of_mem _ he)
  constructor
  · have hopens := h.opens
    rw [hrequests] at hopens
    exact hopens
  · intro hnot
    rcases hnot with hnot | hnot
    · rw [hstate] at hnot
      cases hnot
    · rw [hstate] at hnot
      cases hnot
  · have howed := h.owed.trans hfreed
    rw [hrequests] at howed
    refine List.Perm.cons_inv (List.Perm.trans ?_ howed)
    exact List.perm_middle.symm
  · exact (List.nodup_cons.mp ((hfreed.map Served.id).nodup_iff.mp h.ids)).2
  · intro e he
    exact h.nonzero e (hsub e he)

/-- **The service keeps the accord** with each packet. -/
theorem accord_serve (h : Accord asked unsent live c) {choice : Connection.Choice}
    (hid : c.idFree choice = true) (hs : c.serve choice = some c') :
    Accord asked unsent live c' := by
  cases Connection.handled_of_serve hs with
  | @hello requests _ state hstate hrequests hready =>
    have hopen := h.open_of_state (by rw [hstate]; exact nofun)
    have hsettled := h.settled hopen
    refine accord_of_settled hopen ⟨?_, ?_, ?_, hsettled.ids, hsettled.nonzero⟩
    · have hopens := hsettled.opens
      rw [hrequests] at hopens
      exact hopens
    · intro _
      exact hsettled.greeting (.inl hstate)
    · have howed := hsettled.owed
      rw [hrequests] at howed
      exact howed
  | @refuseHello requests code hstate hrequests =>
    have hopen := h.open_of_state (by rw [hstate]; exact nofun)
    exact accord_refuseHello (h.settled hopen) (.inl hstate) code
  | @fill requests rate channels call slot hstate hrequests hslot =>
    have hopen := h.open_of_state (by rw [hstate]; exact nofun)
    exact accord_of_settled hopen (settled_fill (h.settled hopen) hstate hrequests hslot
      (Streams.nextId_ne_zero _) fun e he => Connection.ne_of_findStream hid he)
  | @refuseOpen requests rate channels call code hstate hrequests =>
    have hopen := h.open_of_state (by rw [hstate]; exact nofun)
    have hsettled := h.settled hopen
    refine accord_of_settled hopen ⟨?_, ?_, ?_, hsettled.ids, hsettled.nonzero⟩
    · have hopens := hsettled.opens
      rw [hrequests] at hopens
      rw [← hopens]
      simp [Answer.call, Packet.opens]
    · intro hnot
      rw [hstate] at hnot
      rcases hnot with hnot | hnot <;> cases hnot
    · have howed := hsettled.owed
      rw [hrequests] at howed
      show ((c.answers ++ [Answer.error code call]).filterMap Answer.brings ++ live ++
        requests.filterMap Packet.closes).Perm c.held
      rw [filterMap_append, show [Answer.error code call].filterMap Answer.brings = [] from rfl,
        append_nil]
      exact howed
  | @close requests id call _ slot hstate hrequests hslot =>
    have hopen := h.open_of_state (by rw [hstate]; exact nofun)
    have hsettled := h.settled hopen
    have hmem : (⟨id, call⟩ : Served) ∈ c.held := by
      refine hsettled.owed.subset (List.mem_append_right _ ?_)
      rw [hrequests]
      exact mem_cons_self ..
    obtain ⟨i, hfound, hheld⟩ := findStream_eq hsettled.ids hmem
    obtain rfl : i = slot := Option.some.inj (hfound.symm.trans hslot)
    exact accord_of_settled hopen (settled_close hsettled hstate hrequests hheld)
  | @closeUnknown requests id call _ hstate hrequests hslot =>
    have hsettled := h.settled (h.open_of_state (by rw [hstate]; exact nofun))
    have hmem : (⟨id, call⟩ : Served) ∈ c.held := by
      refine hsettled.owed.subset (List.mem_append_right _ ?_)
      rw [hrequests]
      exact mem_cons_self ..
    obtain ⟨i, hfound, -⟩ := findStream_eq hsettled.ids hmem
    rw [hslot] at hfound
    cases hfound
  | disconnect => exact accord_disconnect h.answered

theorem accord_decide (h : Accord asked unsent live c) {choice : Connection.Choice}
    (hs : c.decide choice = some c') : Accord asked unsent live c' := by
  cases choice with
  | accept =>
    obtain ⟨hstate, hs⟩ := ite_none_right_eq_some.mp hs
    cases hs
    have hopen := h.open_of_state (by rw [hstate]; exact nofun)
    have hsettled := h.settled hopen
    exact accord_of_settled hopen ⟨hsettled.opens, fun _ => hsettled.greeting (.inr hstate),
      hsettled.owed, hsettled.ids, hsettled.nonzero⟩
  | wait => cases hs
  | refuse code =>
    obtain ⟨⟨hstate, -⟩, hs⟩ := ite_none_right_eq_some.mp hs
    cases hs
    have hopen := h.open_of_state (by rw [hstate]; exact nofun)
    exact accord_refuseHello (h.settled hopen) (.inr hstate) code
  | fill slot => cases hs

/-! ### The steps of the client on its connection -/

/-- **A packet is sent**: an OPEN that was not sent yet, or a CLOSE for a
stream that the client gives up. -/
theorem accord_send {packet : Packet} {live' : List Served}
    (h : Accord asked (packet.opens.toList ++ unsent) live c)
    (hlive : live.Perm (packet.closes.toList ++ live')) :
    Accord asked unsent live' (c.send packet) := by
  unfold Connection.send
  split
  case isTrue hclosed =>
    refine ⟨h.answered, h.free, fun hopen => ?_⟩
    rw [hclosed] at hopen
    cases hopen
  case isFalse hopen =>
    have hsettled := h.settled (Bool.eq_false_of_not_eq_true hopen)
    have hopens : [packet].filterMap Packet.opens = packet.opens.toList := by cases packet <;> rfl
    have hcloses : [packet].filterMap Packet.closes = packet.closes.toList := by
      cases packet <;> rfl
    refine accord_of_settled (Bool.eq_false_of_not_eq_true hopen)
      ⟨?_, hsettled.greeting, ?_, hsettled.ids, hsettled.nonzero⟩
    · rw [filterMap_append, hopens, append_assoc, append_assoc, ← append_assoc]
      exact hsettled.opens
    · refine List.Perm.trans ?_ hsettled.owed
      -- The CLOSE on its way takes the place of the stream.
      show (c.answers.filterMap Answer.brings ++ live' ++
        (c.requests ++ [packet]).filterMap Packet.closes).Perm _
      rw [filterMap_append, hcloses, ← append_assoc]
      refine List.perm_append_comm.trans ?_
      rw [← append_assoc]
      refine List.Perm.append_right _ ?_
      rw [← append_assoc]
      refine (List.perm_append_comm.append_right live').trans ?_
      rw [append_assoc]
      exact hlive.symm.append_left _

theorem Accord.perm (h : Accord asked unsent live c) {live' : List Served}
    (hlive : live.Perm live') : Accord asked unsent live' c where
  answered := h.answered
  free := h.free
  settled hopen := { h.settled hopen with
    owed := ((hlive.symm.append_left _).append_right _).trans (h.settled hopen).owed }

theorem Accord.head_asked (h : Accord asked unsent live c) {rest : List Answer}
    (hanswers : c.answers = answer :: rest) : ∃ asked', asked = answer.call :: asked' := by
  obtain ⟨tail, htail⟩ := h.answered
  rw [hanswers] at htail
  exact ⟨_, htail.symm⟩

theorem accord_receive {rest : List Answer} (h : Accord (answer.call :: asked) unsent live c)
    (hanswers : c.answers = answer :: rest) :
    Accord asked unsent (answer.brings.toList ++ live) { c with answers := rest } where
  answered := by
    obtain ⟨tail, htail⟩ := h.answered
    rw [hanswers] at htail
    exact ⟨tail, (List.cons_inj_right _).mp htail⟩
  free := h.free
  settled hopen := by
    have hsettled := h.settled hopen
    refine ⟨?_, ?_, ?_, hsettled.ids, hsettled.nonzero⟩
    · have hopens := hsettled.opens
      rw [hanswers] at hopens
      exact (List.cons_inj_right _).mp hopens
    · intro hstate
      have hnone := (hsettled.greeting hstate).1
      rw [hanswers] at hnone
      cases hnone
    · have howed := hsettled.owed
      rw [hanswers] at howed
      refine List.Perm.trans ?_ howed
      refine List.Perm.append_right _ ?_
      rw [← List.singleton_append (l := rest), filterMap_append,
        show [answer].filterMap Answer.brings = answer.brings.toList by
          cases answer <;> rfl]
      rw [← append_assoc, append_assoc answer.brings.toList]
      exact (List.perm_append_comm.append_right live).trans (by rw [append_assoc])

/-- **A dropped answer** closes the stream it brings. -/
theorem accord_dropAnswer (h : Accord asked unsent (answer.brings.toList ++ live) c) :
    Accord asked unsent live (Agreement.dropAnswer c answer) := by
  cases answer with
  | error code call => exact h
  | opened id rate channels call =>
    unfold Agreement.dropAnswer
    dsimp only
    split
    case isTrue hid => exact accord_send h (List.Perm.refl _)
    case isFalse hid =>
      refine ⟨h.answered, h.free, fun hopen => ?_⟩
      have hsettled := h.settled hopen
      exact absurd (hsettled.nonzero _ (mem_held_of_live hsettled (mem_cons_self ..))) hid

namespace Agreement

variable {s s' : Agreement} {request : Request}

/-! ### The invariant -/

/-- The two sides agree. -/
structure Agreed (s : Agreement) : Prop where
  late : s.late = s.pending.length
  log : ∀ p ∈ s.log, p.1 = some p.2
  cause : ∀ i stream, s.streams i = some stream → stream.cause = stream.call
  slot : ∀ request, s.phase.request = some request → s.streams request.slot = none
  fresh : s.phase.fresh = true → s.pending = []
  apart : s.connection = none → s.pending = [] ∧ s.live = []
  accord : ∀ c, s.connection = some c → Accord s.asked s.unsent s.live c

theorem agreed_start : Agreed {} where
  late := rfl
  log _ hp := by cases hp
  cause _ _ hstream := by cases hstream
  slot _ hrequest := by cases hrequest
  fresh _ := rfl
  apart _ := ⟨rfl, by decide⟩
  accord _ hc := by cases hc

theorem mem_live {e : Served} :
    e ∈ s.live ↔ ∃ i stream, s.streams i = some stream ∧ stream.inUse = some e := by
  rw [live, Slots.mem_entries]
  simp only [mem_finRange, true_and, Option.bind_eq_some_iff]

theorem live_fill {slot : ClientSlot} {stream : ClientStream} {t : Agreement}
    (hslot : s.streams slot = none) (huse : stream.ended = false)
    (ht : t.streams = Function.update s.streams slot (some stream)) :
    t.live.Perm (⟨stream.id, stream.call⟩ :: s.live) := by
  have hfill := Slots.entries_fill (f := fun i => (s.streams i).bind ClientStream.inUse)
    (b := (⟨stream.id, stream.call⟩ : Served)) (nodup_finRange clientStreams)
    (mem_finRange slot) (by rw [hslot]; rfl)
  have hbind : (some stream).bind ClientStream.inUse = some ⟨stream.id, stream.call⟩ := by
    rw [bind_some, ClientStream.inUse, huse]
    rfl
  have hupdate : (fun i => (t.streams i).bind ClientStream.inUse) =
      Function.update (fun i => (s.streams i).bind ClientStream.inUse) slot
        (some ⟨stream.id, stream.call⟩) := by
    rw [ht, ← hbind]
    exact comp_update (fun x : Option ClientStream => x.bind ClientStream.inUse)
      s.streams slot (some stream)
  rw [live, hupdate]
  exact hfill

variable {slot : ClientSlot} {fresh : Bool}

theorem live_free {stream : ClientStream} {t : Agreement} (hslot : s.streams slot = some stream)
    (ht : t.streams = Function.update s.streams slot none) :
    s.live.Perm (stream.inUse.toList ++ t.live) := by
  have hupdate : (fun i => (t.streams i).bind ClientStream.inUse) =
      Function.update (fun i => (s.streams i).bind ClientStream.inUse) slot none := by
    rw [ht]
    exact comp_update (fun x : Option ClientStream => x.bind ClientStream.inUse)
      s.streams slot none
  rw [live, live, hupdate]
  cases huse : stream.inUse with
  | none =>
    have hsame : Function.update (fun i => (s.streams i).bind ClientStream.inUse) slot none =
        fun i => (s.streams i).bind ClientStream.inUse := by
      rw [Function.update_eq_self_iff, hslot, bind_some, huse]
    rw [hsame]
    exact List.Perm.refl _
  | some e =>
    refine Slots.entries_free (nodup_finRange clientStreams) (mem_finRange slot) ?_
    rw [hslot, bind_some, huse]

/-- **Hanging up** leaves nothing behind. -/
theorem agreed_hangUp (h : Agreed s) : Agreed s.hangUp where
  late := rfl
  log := h.log
  cause i stream hstream := by
    obtain ⟨stream', hold, rfl⟩ := map_eq_some_iff.mp hstream
    exact h.cause i stream' hold
  slot _ hrequest := by cases hrequest
  fresh _ := rfl
  apart _ := by
    refine ⟨rfl, List.eq_nil_iff_forall_not_mem.mpr fun e he => ?_⟩
    obtain ⟨i, stream, hstream, huse⟩ := mem_live.mp he
    obtain ⟨stream', -, rfl⟩ := map_eq_some_iff.mp hstream
    cases huse
  accord _ hc := by cases hc

theorem Agreed.set_connection (h : Agreed s) (hc : Accord s.asked s.unsent s.live c) :
    Agreed { s with connection := some c } :=
  { h with
    apart := nofun
    accord := fun _ heq => by
      cases heq
      exact hc }

theorem Agreed.set_phase (h : Agreed s) {phase : Phase}
    (hrequest : phase.request = s.phase.request) (hunsent : phase.unsent = s.phase.unsent)
    (hfresh : phase.fresh = s.phase.fresh) : Agreed { s with phase } where
  late := h.late
  log := h.log
  cause := h.cause
  slot request hphase := h.slot request (hrequest.symm.trans hphase)
  fresh hphase := h.fresh (hfresh.symm.trans hphase)
  apart := h.apart
  accord c hc := by
    have haccord := h.accord c hc
    rw [asked, unsent, ← hrequest, ← hunsent] at haccord
    exact haccord

theorem agreed_beginRequest (h : Agreed s) (hidle : s.phase = .idle) (hslot : s.streams slot = none)
    (rate channels : ℕ) (retried connects : Bool) :
    Agreed (s.beginRequest rate channels slot retried connects) := by
  have hasked : s.asked = s.pending := by
    rw [asked, hidle]
    exact append_nil _
  have hunsent : s.unsent = [] := by
    rw [unsent, hidle]
    rfl
  cases hconnection : s.connection with
  | some c =>
    rw [beginRequest, hconnection]
    dsimp only
    refine ⟨h.late, h.log, h.cause, ?_, nofun, nofun, ?_⟩
    · intro request hrequest
      cases hrequest
      exact hslot
    intro c' hc'
    cases hc'
    have haccord := h.accord c hconnection
    rw [hasked, hunsent] at haccord
    show Accord (s.pending ++ [s.calls]) [s.calls] s.live c
    refine ⟨haccord.answered.trans (List.prefix_append _ _), haccord.free, fun hopen => ?_⟩
    have hsettled := haccord.settled hopen
    refine ⟨?_, ?_, hsettled.owed, hsettled.ids, hsettled.nonzero⟩
    · rw [← hsettled.opens, append_nil]
    · intro hstate
      obtain ⟨hnone, hhead⟩ := hsettled.greeting hstate
      obtain ⟨rest, hrest⟩ := List.head?_eq_some_iff.mp hhead
      refine ⟨hnone, ?_⟩
      rw [hrest]
      rfl
  | none =>
    obtain ⟨hpending, hlive⟩ := h.apart hconnection
    rw [beginRequest, hconnection]
    dsimp only
    split
    case isFalse =>
      exact ⟨h.late, h.log, h.cause, nofun, nofun, fun _ => ⟨hpending, hlive⟩, nofun⟩
    case isTrue =>
      refine ⟨h.late, h.log, h.cause, ?_, fun _ => hpending, nofun, ?_⟩
      · intro request hrequest
        cases hrequest
        exact hslot
      intro c' hc'
      cases hc'
      show Accord (s.pending ++ [s.calls]) [s.calls] s.live { call := s.calls }
      rw [hpending, hlive]
      have hheld : Slots.entries (List.finRange streamsMax) (fun _ => (none : Option Served)) = [] :=
        by decide
      refine accord_of_settled rfl ⟨rfl, fun _ => ⟨rfl, rfl⟩, ?_, ?_, ?_⟩
      · rw [Connection.held, hheld]
        exact List.Perm.refl _
      · rw [Connection.held, hheld]
        exact List.nodup_nil
      · rw [Connection.held, hheld]
        exact nofun

theorem agreed_sendOpen (h : Agreed s) {connects : Bool} (hphase : s.phase = .asking request fresh)
    (hconnection : s.connection = some c) : Agreed (s.sendOpen c request fresh connects) := by
  have hasked : s.asked = s.pending ++ [request.call] := by
    rw [asked, hphase]
    rfl
  have haccord := h.accord c hconnection
  have hslot := h.slot request (by rw [hphase]; rfl)
  unfold sendOpen
  split
  case isTrue hclosed =>
    split
    case isTrue hfresh =>
      refine agreed_hangUp ?_
      have hpending := h.fresh (by rw [hphase]; exact hfresh)
      unfold takeRefusal
      split
      case h_1 answer rest hanswers =>
        refine ⟨h.late, ?_, h.cause, h.slot, h.fresh, h.apart, h.accord⟩
        intro p hp
        rcases List.mem_append.mp hp with hold | hnew
        · exact h.log p hold
        · obtain rfl := List.mem_singleton.mp hnew
          obtain ⟨asked', hhead⟩ := haccord.head_asked hanswers
          rw [hasked, hpending] at hhead
          exact congrArg some (List.cons.inj hhead).1
      case h_2 => exact h
    case isFalse hfresh =>
      split
      case isTrue => exact agreed_hangUp h
      case isFalse =>
        refine agreed_beginRequest (agreed_hangUp h) rfl ?_ _ _ _ _
        show (s.streams request.slot).map _ = none
        rw [hslot]
        rfl
  case isFalse hopen =>
    have hsent : Accord s.asked [] s.live
        (c.send (.openStream request.rate request.channels request.call)) := by
      refine accord_send ?_ (List.Perm.refl _)
      rw [unsent, hphase] at haccord
      exact haccord
    refine ⟨h.late, h.log, h.cause, ?_, ?_, nofun, ?_⟩
    · intro request' hrequest
      cases hrequest
      exact hslot
    · intro hfresh
      refine h.fresh ?_
      rw [hphase]
      exact hfresh
    intro c' hc'
    cases hc'
    rw [hasked] at hsent
    exact hsent

theorem agreed_takeLate (h : Agreed s) (hpos : 0 < s.late)
    (hconnection : s.connection = some c) {answer : Answer} {rest : List Answer}
    (hanswers : c.answers = answer :: rest) : Agreed (s.takeLate c answer rest) := by
  have haccord := h.accord c hconnection
  obtain ⟨call, pending', hpending⟩ : ∃ call pending', s.pending = call :: pending' := by
    rw [h.late, List.length_pos_iff_exists_cons] at hpos
    exact hpos
  obtain ⟨asked', hhead⟩ := haccord.head_asked hanswers
  have hcall : call = answer.call := by
    rw [asked, hpending] at hhead
    exact (List.cons.inj hhead).1
  rw [hcall] at hpending
  have hlog : (if 0 < s.late then s.pending.head? else none) = some answer.call := by
    rw [if_pos hpos, hpending]
    rfl
  have hrest : s.pending.erase answer.call = pending' := by
    rw [hpending, List.erase_cons_head]
  refine ⟨?_, ?_, h.cause, h.slot, ?_, nofun, ?_⟩
  · show s.late - 1 = (s.pending.erase answer.call).length
    rw [hrest, h.late, hpending]
    rfl
  · intro p hp
    rcases List.mem_append.mp hp with hold | hnew
    · exact h.log p hold
    · obtain rfl := List.mem_singleton.mp hnew
      exact hlog
  · intro hfresh
    have hnone := h.fresh hfresh
    rw [hpending] at hnone
    cases hnone
  · intro c' hc'
    cases hc'
    show Accord (s.pending.erase answer.call ++ _) s.unsent s.live _
    rw [asked, hpending] at haccord
    rw [hrest]
    exact accord_dropAnswer (accord_receive haccord hanswers)

theorem agreed_takeOwn (h : Agreed s) (hphase : s.phase = .awaiting request fresh)
    (hnone : ¬0 < s.late) (hconnection : s.connection = some c) {answer : Answer}
    {rest : List Answer} (hanswers : c.answers = answer :: rest) (mapped : Bool) :
    Agreed (s.takeOwn c request fresh mapped answer rest) := by
  have hpending : s.pending = [] := by
    rw [h.late] at hnone
    exact List.eq_nil_of_length_eq_zero (Nat.eq_zero_of_not_pos hnone)
  have hasked : s.asked = [request.call] := by
    rw [asked, hphase, hpending]
    rfl
  have haccord := h.accord c hconnection
  obtain ⟨asked', hhead⟩ := haccord.head_asked hanswers
  rw [hasked] at hhead
  obtain ⟨hcall, rfl⟩ := List.cons.inj hhead
  have hreceived : Accord [] [] (answer.brings.toList ++ s.live) { c with answers := rest } := by
    rw [hasked, hcall, unsent, hphase] at haccord
    exact accord_receive haccord hanswers
  have hlog : ∀ p ∈ s.log ++ [(some request.call, answer.call)], p.1 = some p.2 := by
    intro p hp
    rcases List.mem_append.mp hp with hold | hnew
    · exact h.log p hold
    · obtain rfl := List.mem_singleton.mp hnew
      exact congrArg some hcall
  have hslot := h.slot request (by rw [hphase]; rfl)
  have hkept : ∀ c', Accord [] [] s.live c' → Agreed { s with
      connection := some c', phase := .idle
      log := s.log ++ [(some request.call, answer.call)] } := by
    intro c' hc'
    refine ⟨h.late, hlog, h.cause, nofun, nofun, nofun, ?_⟩
    intro c'' hc''
    cases hc''
    show Accord (s.pending ++ []) [] s.live c'
    rw [hpending]
    exact hc'
  cases answer with
  | error code call =>
    have hagreed := hkept _ hreceived
    show Agreed (if _ then _ else _)
    split
    · exact agreed_hangUp hagreed
    · exact hagreed
  | opened id rate channels call =>
    show Agreed (if _ then _ else _)
    split
    case isFalse => exact hkept _ (accord_dropAnswer hreceived)
    case isTrue =>
      obtain rfl : request.call = call := hcall
      refine ⟨h.late, hlog, ?_, nofun, nofun, nofun, ?_⟩
      · intro i stream hstream
        dsimp only at hstream
        by_cases hi : i = request.slot
        · subst hi
          rw [update_self] at hstream
          cases hstream
          rfl
        · rw [update_of_ne hi] at hstream
          exact h.cause i stream hstream
      · intro c' hc'
        cases hc'
        have hfill : (live { s with
            streams := Function.update s.streams request.slot
              (some { id, call := request.call, cause := request.call }) }).Perm
            (⟨id, request.call⟩ :: s.live) :=
          @live_fill s request.slot { id, call := request.call, cause := request.call } _ hslot rfl
            rfl
        show Accord (s.pending ++ []) [] _ _
        rw [hpending]
        exact hreceived.perm hfill.symm

theorem agreed_timeOut (h : Agreed s) (hphase : s.phase = .awaiting request fresh)
    (hconnection : s.connection = some c) (hs : s.timeOut c request = some s') : Agreed s' := by
  obtain ⟨-, hs⟩ := ite_none_right_eq_some.mp hs
  cases hs
  refine ⟨?_, h.log, h.cause, nofun, nofun, ?_, ?_⟩
  · show s.late + 1 = (s.pending ++ [request.call]).length
    rw [h.late, List.length_append, List.length_singleton]
  · intro hnone
    cases hconnection.symm.trans hnone
  · intro c' hc'
    have haccord := h.accord c' hc'
    rw [asked, unsent, hphase] at haccord
    show Accord (s.pending ++ [request.call] ++ []) [] s.live c'
    rw [append_nil]
    exact haccord

theorem agreed_closeStream (h : Agreed s) (hidle : s.phase = .idle) (slot : ClientSlot) :
    Agreed (s.closeStream slot) := by
  unfold closeStream
  split
  case h_1 => exact h
  case h_2 stream hstream =>
    have hkept : ∀ i other, Function.update s.streams slot none i = some other →
        other.cause = other.call := by
      intro i other hother
      by_cases hi : i = slot
      · rw [hi, update_self] at hother
        cases hother
      · rw [update_of_ne hi] at hother
        exact h.cause i other hother
    have hfree := live_free (t := { s with streams := Function.update s.streams slot none })
      hstream rfl
    have hnone : ∀ request, s.phase.request ≠ some request := by
      rw [hidle]
      exact nofun
    have hfresh : s.phase.fresh ≠ true := by
      rw [hidle]
      exact nofun
    refine ⟨h.late, h.log, hkept, fun request hrequest => absurd hrequest (hnone request),
      fun hf => absurd hf hfresh, ?_, ?_⟩
    · intro hapart
      have hconnection : s.connection = none := by
        dsimp only at hapart
        split at hapart
        · exact hapart
        · exact Option.map_eq_none_iff.mp hapart
      obtain ⟨hpending, hlive⟩ := h.apart hconnection
      rw [hlive] at hfree
      exact ⟨hpending, (List.append_eq_nil_iff.mp (List.nil_perm.mp hfree)).2⟩
    · intro c' hc'
      dsimp only at hc'
      cases hended : stream.ended with
      | true =>
        rw [hended, if_pos rfl] at hc'
        have huse : stream.inUse = none := by
          rw [ClientStream.inUse, hended]
          rfl
        rw [huse] at hfree
        exact (h.accord c' hc').perm hfree
      | false =>
        rw [hended, if_neg Bool.false_ne_true] at hc'
        obtain ⟨c, hc, rfl⟩ := map_eq_some_iff.mp hc'
        have huse : stream.inUse = some ⟨stream.id, stream.call⟩ := by
          rw [ClientStream.inUse, hended]
          rfl
        rw [huse] at hfree
        show Accord _ _ _ (c.send (.closeStream stream.id stream.call))
        exact accord_send (h.accord c hc) hfree

/-- The condition under which the service names streams apart: an OPEN gets an
ID that no stream of the connection has. -/
def idFree (s : Agreement) : Op → Bool
  | .serve choice => s.connection.all fun c => c.idFree choice
  | _ => true

theorem freeSlot_free (h : s.freeSlot = some slot) : s.streams slot = none :=
  isNone_iff_eq_none.mp (List.find?_some (p := fun i => (s.streams i).isNone) h)

theorem agreed_receive (h : Agreed s) {mapped : Bool} (hphase : s.phase = .awaiting request fresh)
    (hconnection : s.connection = some c) (hs : s.receive c request fresh mapped = some s') :
    Agreed s' := by
  unfold receive at hs
  split at hs
  case h_1 answer rest hanswers =>
    cases hs
    split
    case isTrue hlate => exact agreed_takeLate h hlate hconnection hanswers
    case isFalse hlate => exact agreed_takeOwn h hphase hlate hconnection hanswers mapped
  case h_2 =>
    obtain ⟨-, hs⟩ := ite_none_right_eq_some.mp hs
    cases hs
    exact agreed_hangUp h

theorem agreed_dispatch (h : Agreed s) (hphase : s.phase = .dispatching)
    (hconnection : s.connection = some c) : Agreed (s.dispatch c) := by
  have hasked : s.asked = s.pending := by
    rw [asked, hphase]
    exact append_nil _
  have haccord := h.accord c hconnection
  unfold dispatch
  split
  case h_1 answer rest hanswers =>
    refine agreed_takeLate h ?_ hconnection hanswers
    obtain ⟨asked', hhead⟩ := haccord.head_asked hanswers
    rw [h.late, ← hasked, hhead]
    exact Nat.succ_pos _
  case h_2 =>
    split
    case isTrue => exact agreed_hangUp h
    case isFalse =>
      exact h.set_phase (by rw [hphase]; rfl) (by rw [hphase]; rfl) (by rw [hphase]; rfl)

/-- **One step keeps the agreement.** -/
theorem agreed_step (h : Agreed s) {op : Op} (hid : s.idFree op = true)
    (hs : s.step op = some s') : Agreed s' := by
  unfold step at hs
  split at hs
  case h_1 rate channels connects =>
    obtain ⟨hidle, hs⟩ := ite_none_right_eq_some.mp hs
    cases hs
    unfold Agreement.openStream
    split
    case isFalse => exact h
    case isTrue =>
      split
      case h_1 slot hslot => exact agreed_beginRequest h hidle (freeSlot_free hslot) _ _ _ _
      case h_2 => exact h
  case h_2 slot =>
    obtain ⟨hidle, hs⟩ := ite_none_right_eq_some.mp hs
    cases hs
    exact agreed_closeStream h hidle slot
  case h_3 =>
    split at hs
    case h_1 => cases hs
    case h_2 c hconnection =>
      have haccord := h.accord c hconnection
      split at hs
      case h_1 request hphase _ _ =>
        cases hs
        unfold Agreement.sendHello
        split
        case isTrue => exact agreed_hangUp h
        case isFalse =>
          have hasking : Agreed { s with phase := .asking request true } :=
            h.set_phase (by rw [hphase]; rfl) (by rw [hphase]; rfl) (by rw [hphase]; rfl)
          exact hasking.set_connection (accord_send (hasking.accord c hconnection) (List.Perm.refl _))
      case h_2 connects request fresh hphase _ _ =>
        cases hs
        exact agreed_sendOpen h hphase hconnection
      case h_3 mapped request fresh hphase _ _ => exact agreed_receive h hphase hconnection hs
      case h_4 request fresh hphase _ _ => exact agreed_timeOut h hphase hconnection hs
      case h_5 hphase _ _ =>
        cases hs
        exact h.set_phase (by rw [hphase]; rfl) (by rw [hphase]; rfl) (by rw [hphase]; rfl)
      case h_6 hphase _ _ =>
        cases hs
        exact agreed_dispatch h hphase hconnection
      case h_7 =>
        cases hs
        exact agreed_hangUp h
      case h_8 =>
        cases hs
        exact agreed_hangUp h
      case h_9 choice _ =>
        obtain ⟨c', hserve, rfl⟩ := map_eq_some_iff.mp hs
        refine h.set_connection (accord_serve haccord ?_ hserve)
        simpa [idFree, hconnection] using hid
      case h_10 choice _ =>
        obtain ⟨c', hdecide, rfl⟩ := map_eq_some_iff.mp hs
        exact h.set_connection (accord_decide haccord hdecide)
      case h_11 =>
        cases hs
        exact h.set_connection (accord_disconnect haccord.answered)
      case h_12 => cases hs

/-! ### Runs -/

/-- What client and service can rely on. -/
structure Accounted (s : Agreement) : Prop where
  attributed : ∀ p ∈ s.log, p.1 = some p.2
  counted : s.late = s.pending.length
  own : ∀ i stream, s.streams i = some stream → stream.cause = stream.call
  inUse : ∀ c, s.connection = some c → c.closed = false → ∀ i stream, s.streams i = some stream →
    stream.ended = false → ∃ slot, c.slots slot = some ⟨stream.id, stream.call⟩
  settled : ∀ c, s.connection = some c → c.closed = false → s.phase.request = none →
    c.requests = [] → c.answers = [] → s.live.Perm c.held ∧ (s.live.map Served.id).Nodup
  ended : s.connection = none → ∀ i stream, s.streams i = some stream → stream.ended = true

theorem accounted_of_agreed (h : Agreed s) : Accounted s where
  attributed := h.log
  counted := h.late
  own := h.cause
  inUse c hconnection hopen i stream hstream huse := by
    refine mem_held.mp (mem_held_of_live ((h.accord c hconnection).settled hopen) ?_)
    refine mem_live.mpr ⟨i, stream, hstream, ?_⟩
    rw [ClientStream.inUse, huse]
    rfl
  settled c hconnection hopen _ hrequests hanswers := by
    have hsettled := (h.accord c hconnection).settled hopen
    have howed := hsettled.owed
    rw [hrequests, hanswers] at howed
    have hlive : s.live.Perm c.held := by simpa using howed
    exact ⟨hlive, (hlive.map Served.id).nodup_iff.mpr hsettled.ids⟩
  ended hapart i stream hstream := by
    have hlive := (h.apart hapart).2
    cases huse : stream.ended with
    | true => rfl
    | false =>
      have hmem : (⟨stream.id, stream.call⟩ : Served) ∈ s.live := by
        refine mem_live.mpr ⟨i, stream, hstream, ?_⟩
        rw [ClientStream.inUse, huse]
        rfl
      rw [hlive] at hmem
      cases hmem

/-- **Opening and closing agree** in every run in which no OPEN gets an ID
that a stream of the connection has: each answer is taken for the request that
caused it, `late` counts the requests that timed out and are not answered, the
application gets the streams it asked for, none is ended while in use, and with
nothing on the way the service has the streams of the client and no other. -/
theorem accounted_of_trace {l : List (Step Agreement Op)} (h : machine.Trace l s)
    (hid : ∀ x ∈ l, x.before.idFree x.op = true) : Accounted s := by
  refine accounted_of_agreed ?_
  refine Trace.invariant (P := fun _ s => Agreed s)
    (K := fun x => x.before.idFree x.op = true) ?_ ?_ h hid
  · rintro s rfl
    exact agreed_start
  · intro l s op s' hagreed hs hkey
    exact agreed_step hagreed hkey hs

def slot0 : StreamIndex := ⟨0, streamsMax_pos⟩
def slot1 : StreamIndex := ⟨1, one_lt_streamsMax⟩
def first : ClientSlot := ⟨0, by decide⟩
def second : ClientSlot := ⟨1, by decide⟩

/-- A request times out, and its stream is closed when the next one is made. -/
def lateAnswer : List Op :=
  [.openStream 8000 1 true, .sendHello, .sendOpen true, .timeOut, .serve .accept,
    .serve (.fill slot0), .openStream 8000 1 true, .sendOpen true, .receive true,
    .serve (.fill slot1), .serve .accept, .receive true]

theorem accounted_lateAnswer : ∃ s, machine.Reachable s ∧ Accounted s ∧
    s.log = [(some 0, 0), (some 1, 1)] ∧ s.live = [⟨2, 1⟩] := by
  have hrun : (runOps step lateAnswer {}).any (fun s =>
      decide (s.log = [(some 0, 0), (some 1, 1)] ∧ s.live = [⟨2, 1⟩])) = true := by decide +kernel
  obtain ⟨s, hs, hend⟩ := (any_eq_true _ _).mp hrun
  obtain ⟨hlog, hlive⟩ := of_decide_eq_true hend
  refine ⟨s, Reachable.runOps (fun _ _ _ => id) (.start rfl) hs, ?_, hlog, hlive⟩
  refine accounted_of_trace (Trace.runOps (fun _ _ _ => id) (.start rfl) hs) ?_
  have hids : (Machine.runSteps step {} lateAnswer).all (fun x => x.before.idFree x.op) = true := by
    decide +kernel
  exact List.all_eq_true.mp hids

/-! ### An ID that comes back -/

/-- The client has one stream, with the ID 1. -/
def oneOpen (lastId calls : ℕ) (log : List (Option ℕ × ℕ)) : Agreement where
  connection := some {
    state := .ready
    lastId
    slots := Function.update (fun _ => none) slot0 (some ⟨1, 0⟩)
    call := 0 }
  streams := Function.update (fun _ => none) first (some { id := 1, call := 0, cause := 0 })
  calls
  log

/-- And another one, just opened. -/
def twoOpen (id call : ℕ) (log : List (Option ℕ × ℕ)) : Agreement where
  connection := some {
    state := .ready
    lastId := id
    slots := Function.update (Function.update (fun _ => none) slot0 (some ⟨1, 0⟩)) slot1
      (some ⟨id, call⟩)
    call := 0 }
  streams := Function.update
    (Function.update (fun _ => none) first (some { id := 1, call := 0, cause := 0 })) second
    (some { id, call, cause := call })
  calls := call + 1
  log

/-- Before that, with the answer on its way. -/
def answered (id call : ℕ) (log : List (Option ℕ × ℕ)) : Agreement :=
  { twoOpen id call log with
    connection := (twoOpen id call log).connection.map fun c =>
      { c with answers := [.opened id 8000 1 call] }
    streams := (oneOpen id call log).streams
    phase := .awaiting { call, rate := 8000, channels := 1, slot := second } false }

def openAnother : List Op :=
  [.openStream 8000 1 true, .sendOpen true, .serve (.fill slot1), .receive true]

variable (lastId calls id : ℕ) (log : List (Option ℕ × ℕ))

theorem receive_answered (hid : id ≠ 0) :
    (answered id calls log).step (.receive true) =
      some (twoOpen id calls (log ++ [(some calls, calls)])) := by
  obtain ⟨n, rfl⟩ := Nat.exists_eq_succ_of_ne_zero hid
  rfl

theorem runOps_openAnother :
    runOps step openAnother (oneOpen lastId calls log) =
      some (twoOpen (Streams.nextId lastId) calls (log ++ [(some calls, calls)])) := by
  have hanswered : runOps step openAnother (oneOpen lastId calls log) =
      ((answered (Streams.nextId lastId) calls log).step (.receive true)).bind some := rfl
  rw [hanswered, receive_answered _ _ _ (Streams.nextId_ne_zero lastId)]
  rfl

/-- The service's end when it has both streams. -/
def bothServed : Connection where
  state := .ready
  lastId := id
  slots := Function.update (Function.update (fun _ => none) slot0 (some ⟨1, 0⟩)) slot1
    (some ⟨id, calls⟩)
  call := 0

/-- The stream opened last is closed, its CLOSE on the way. -/
def closing : Agreement :=
  { oneOpen id (calls + 1) log with
    connection := some { bothServed calls id with requests := [.closeStream id calls] } }

theorem closeStream_twoOpen :
    (twoOpen id calls log).step (.closeStream second) = some (closing calls id log) := by
  have hstreams : Function.update (twoOpen id calls log).streams second none =
      (oneOpen id (calls + 1) log).streams :=
    (update_idem ..).trans (Function.update_eq_self_iff.mpr rfl)
  show some { (closing calls id log) with
    streams := Function.update (twoOpen id calls log).streams second none } = _
  rw [hstreams]
  rfl

theorem finRange_streams : List.finRange streamsMax =
    slot0 :: slot1 :: (List.finRange streamsMax).drop 2 := by decide

theorem findStream_bothServed (hid : id ≠ 1) : (bothServed calls id).findStream id = some slot1 := by
  rw [Connection.findStream, finRange_streams, List.find?_cons_of_neg, List.find?_cons_of_pos]
  · exact decide_eq_true rfl
  · intro hfirst
    exact hid (of_decide_eq_true hfirst).symm

theorem serve_closing (hid : id ≠ 1) :
    (closing calls id log).step (.serve .accept) = some (oneOpen id (calls + 1) log) := by
  have hslots : Function.update (bothServed calls id).slots slot1 none =
      Function.update (fun _ => none) slot0 (some ⟨1, 0⟩) :=
    (update_idem ..).trans (Function.update_eq_self_iff.mpr rfl)
  have hserve : Connection.serve { bothServed calls id with requests := [.closeStream id calls] }
      .accept = some { bothServed calls id with
        slots := Function.update (fun _ => none) slot0 (some ⟨1, 0⟩) } := by
    have hfound := findStream_bothServed calls id hid
    simp only [bothServed] at hfound hslots
    simp only [Connection.serve, bothServed, hfound, hslots]
  show Option.map _ (Connection.serve _ _) = _
  rw [hserve]
  rfl

theorem exists_oneOpen : ∀ n, n + 1 < 2 ^ 32 →
    ∃ calls log, 0 < calls ∧ machine.Reachable (oneOpen (n + 1) calls log) := by
  intro n
  induction n with
  | zero =>
    intro _
    have hfirst : runOps step [.openStream 8000 1 true, .sendHello, .sendOpen true,
        .serve .accept, .serve (.fill slot0), .receive true] {} =
        some (oneOpen 1 1 [(some 0, 0)]) := rfl
    exact ⟨1, [(some 0, 0)], Nat.one_pos,
      Reachable.runOps (fun _ _ _ => id) (.start rfl) hfirst⟩
  | succ n ih =>
    intro hn
    obtain ⟨calls, log, -, hreach⟩ := ih (by omega)
    have hopened := Reachable.runOps (fun _ _ _ => id) hreach
      (runOps_openAnother (n + 1) calls log)
    rw [Streams.nextId_eq (by omega)] at hopened
    have hclosed := hopened.step (closeStream_twoOpen calls (n + 1 + 1) _)
    exact ⟨_, _, Nat.succ_pos calls, hclosed.step (serve_closing calls (n + 1 + 1) _ (by omega))⟩

/-- With the ID of the first stream, the first stream ends. -/
def wrongEnd : Agreement :=
  { oneOpen 1 (calls + 1) log with
    connection := some { bothServed calls 1 with
      slots := Function.update (bothServed calls 1).slots slot0 none } }

theorem serve_closing_one : (closing calls 1 log).step (.serve .accept) = some (wrongEnd calls log) :=
  rfl

/-- **A stream is ended while in use**: after 2^32 - 1 OPENs the next stream
gets the ID of the first, and when it is closed the service ends the first. -/
theorem lostStream_of_reopened : ∃ s, machine.Reachable s ∧ ¬s.Accounted ∧
    ∃ c stream, s.connection = some c ∧ c.closed = false ∧ s.streams first = some stream ∧
      stream.ended = false ∧ ∀ slot, c.slots slot ≠ some ⟨stream.id, stream.call⟩ := by
  obtain ⟨calls, log, hcalls, hreach⟩ := exists_oneOpen (2 ^ 32 - 2) (by omega)
  have hopened := Reachable.runOps (fun _ _ _ => id) hreach
    (runOps_openAnother (2 ^ 32 - 2 + 1) calls log)
  rw [show Streams.nextId (2 ^ 32 - 2 + 1) = 1 by decide +kernel] at hopened
  have hclosed := hopened.step (closeStream_twoOpen calls 1 _)
  have hlost := hclosed.step (serve_closing_one calls _)
  have hnone : ∀ slot, Function.update (bothServed calls 1).slots slot0 none slot ≠
      some (⟨1, 0⟩ : Served) := by
    intro slot heq
    by_cases h0 : slot = slot0
    · rw [h0, update_self] at heq
      cases heq
    rw [update_of_ne h0] at heq
    dsimp only [bothServed] at heq
    by_cases h1 : slot = slot1
    · rw [h1, update_self, Option.some.injEq, Served.mk.injEq] at heq
      omega
    · rw [update_of_ne h1, update_of_ne h0] at heq
      cases heq
  refine ⟨_, hlost, ?_, _, _, rfl, rfl, rfl, rfl, hnone⟩
  intro haccounted
  obtain ⟨slot, hslot⟩ := haccounted.inUse _ rfl rfl first _ rfl rfl
  exact hnone slot hslot

end Agreement

end AudioClient
