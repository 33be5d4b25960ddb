/-
The brightness service (`fplinux-brightnessd.c`).

The service owns the backlight and lends it to one client at a time.  The lease is the
descriptor of that client, which the kernel may give to another one after it is closed.
`shown`, `writes`, `lastOk` and `published` are not in the source: the value in the backlight,
the attempts to write it, whether the last one succeeded, and the level in the state file.

Main results:
- `Sound.execute`, `Sound.closeClient`: what a request and the end of a client keep;
- `lease_sound`: the lease and the backlight over any run.
-/
import Fplinux.Lib.Run

namespace Brightnessd

def clientCount : ℕ := 32

/-- The body of the loop of `decimal`. -/
def addDigit (maximum result : ℕ) (byte : UInt8) : Option ℕ :=
  if byte < 48 ∨ byte > 57 then none
  else if result > (maximum - (byte.toNat - 48)) / 10 then none
  else some (result * 10 + (byte.toNat - 48))

/-- `decimal`: a number without leading zeros, up to a maximum. -/
def decimal (text : List UInt8) (maximum : ℕ) : Option ℕ :=
  if text = [] ∨ (text.head? = some 48 ∧ text.length ≠ 1) then none
  else text.foldlM (addDigit maximum) 0

/-- `load_state`; `content` is `none` when the file cannot be read. -/
def loadState (content : Option (List UInt8)) : ℕ :=
  match content with
  | none => 7
  | some data =>
    if data.length ≥ 7 ∨ data.getLast? ≠ some 10 then 7
    else (decimal (data.dropLast.takeWhile (· ≠ 0)) 10).getD 7

/-! ### Requests -/

inductive Request
  | get
  | set (level : ℕ)
  | claim
  | show (level : ℕ)
  | release
  | invalid
deriving DecidableEq, Repr

def parseLevel (request verb : List UInt8) : Option ℕ :=
  if request.take verb.length = verb ∧ request[verb.length]? = some 32
  then decimal (request.drop (verb.length + 1)) 10 else none

/-- The comparisons of `handle_client`, in their order. -/
def parse (request : List UInt8) : Request :=
  if request = [71, 69, 84] then .get
  else match parseLevel request [83, 69, 84] with
  | some level => .set level
  | none =>
    if request = [67, 76, 65, 73, 77] then .claim
    else match parseLevel request [83, 72, 79, 87] with
    | some level => .show level
    | none => if request = [82, 69, 76, 69, 65, 83, 69] then .release else .invalid

inductive Reply
  | error (number : ℕ)
  | level (level : ℕ)
  | ok
deriving DecidableEq, Repr

def eperm : ℕ := 1

def ebusy : ℕ := 16

def einval : ℕ := 22

/-! ### The service -/

structure Service where
  levels : List ℕ
  baseline : ℕ
  lease : Option ℕ := none
  clients : List (Option ℕ) := List.replicate clientCount none
  shown : ℕ
  writes : ℕ := 0
  lastOk : Bool := true
  published : ℕ

/-- The end of a write to the backlight; a failed one may leave any value. -/
inductive Write
  | done
  | failed (number left : ℕ)
deriving DecidableEq, Repr

/-- How the calls of a request end, as far as it makes them. -/
structure Calls where
  publish : Option ℕ
  apply : Write
  reply : Bool
  restore : Write

/-- `apply_level`: the service, and the error. -/
def applyLevel (s : Service) (level : ℕ) (write : Write) : Service × Option ℕ :=
  match write with
  | .done =>
    ({ s with shown := s.levels.getD level 0, writes := s.writes + 1, lastOk := true }, none)
  | .failed number left =>
    ({ s with shown := left, writes := s.writes + 1, lastOk := false }, some number)

/-- The reply to a command without a level. -/
def answer (error : Option ℕ) : Reply :=
  match error with
  | some number => .error number
  | none => .ok

/-- What a request does before it is replied to. -/
def execute (s : Service) (fd : ℕ) (request : Request) (calls : Calls) : Service × Reply :=
  match request with
  | .get => (s, .level s.baseline)
  | .set level =>
    match calls.publish with
    | some number => (s, .error number)
    | none =>
      let s := { s with published := level, baseline := level }
      if s.lease = none then
        let (s, error) := applyLevel s level calls.apply
        (s, answer error)
      else (s, .ok)
  | .claim => if s.lease = none then ({ s with lease := some fd }, .ok) else (s, .error ebusy)
  | .show level =>
    if s.lease ≠ some fd then (s, .error eperm)
    else
      let (s, error) := applyLevel s level calls.apply
      (s, answer error)
  | .release =>
    if s.lease ≠ some fd then (s, .error eperm)
    else match applyLevel s s.baseline calls.apply with
    | (s, some number) => (s, .error number)
    | (s, none) => ({ s with lease := none }, .ok)
  | .invalid => (s, .error einval)

def closeClient (s : Service) (index : ℕ) (restore : Write) : Service :=
  match s.clients[index]? with
  | some (some fd) =>
    let s := if s.lease = some fd then (applyLevel { s with lease := none } s.baseline restore).1
      else s
    { s with clients := s.clients.set index none }
  | _ => s

/-- What `recv` gives: an error, or a whole packet. -/
inductive Received
  | failed (transient : Bool)
  | packet (data : List UInt8)

/-- `handle_client` of the client in a slot. -/
def handleClient (s : Service) (index fd : ℕ) (received : Received) (calls : Calls) : Service :=
  match received with
  | .failed transient => if transient then s else closeClient s index calls.restore
  | .packet data =>
    if data = [] then closeClient s index calls.restore
    else if data.length ≥ 32 ∨ 0 ∈ data ∨ parse data = .get then s
    else
      let after := (execute s fd (parse data) calls).1
      if calls.reply then after else closeClient after index calls.restore

/-- The new client takes the first free slot; without one it is closed. -/
def acceptClient (s : Service) (fd : ℕ) : Service :=
  { s with clients := s.clients.set (s.clients.idxOf none) (some fd) }

/-- What the loop of `serve` does, one event at a time. -/
inductive Event
  | input (index fd : ℕ) (received : Received) (calls : Calls)
  | hangUp (index : ℕ) (restore : Write)
  | accept (fd : ℕ)

/-- An event of the service; the kernel does not give out the descriptor of a client. -/
def step (s : Service) (event : Event) (s' : Service) : Prop :=
  match event with
  | .input index fd received calls =>
    s.clients[index]? = some (some fd) ∧ s' = handleClient s index fd received calls
  | .hangUp index restore => s' = closeClient s index restore
  | .accept fd => some fd ∉ s.clients ∧ s' = acceptClient s fd

/-- The service after its start, with the loaded level in the backlight and in the file. -/
def started (levels : List ℕ) (content : Option (List UInt8)) : Service :=
  { levels := levels
    baseline := loadState content
    shown := levels.getD (loadState content) 0
    published := loadState content }

/-- The service and its clients. -/
def machine (levels : List ℕ) : Machine Service Event where
  start s := ∃ content, s = started levels content
  step := step

/-! ### Levels -/

theorem addDigit_le {maximum result n : ℕ} {byte : UInt8} (hmaximum : 9 ≤ maximum)
    (h : addDigit maximum result byte = some n) : n ≤ maximum := by
  rw [addDigit] at h
  split_ifs at h with hdigit hlarge
  cases h
  have hbyte : byte.toNat ≤ 57 := by
    simp only [not_or, UInt8.not_lt] at hdigit
    exact UInt8.le_iff_toNat_le.mp hdigit.2
  omega

theorem foldlM_addDigit_le {maximum start n : ℕ} {text : List UInt8} (hmaximum : 9 ≤ maximum)
    (hstart : start ≤ maximum) (h : text.foldlM (addDigit maximum) start = some n) :
    n ≤ maximum := by
  induction text generalizing start with
  | nil =>
    cases h
    exact hstart
  | cons byte text ih =>
    rw [List.foldlM_cons] at h
    obtain ⟨next, hnext, h⟩ := Option.bind_eq_some_iff.mp h
    exact ih (addDigit_le hmaximum hnext) h

theorem decimal_le {text : List UInt8} {n : ℕ} (h : decimal text 10 = some n) : n ≤ 10 := by
  rw [decimal] at h
  split_ifs at h
  exact foldlM_addDigit_le (by decide) (by decide) h

theorem loadState_le (content : Option (List UInt8)) : loadState content ≤ 10 := by
  cases content with
  | none => decide
  | some data =>
    rw [loadState]
    split_ifs
    · decide
    · cases hlevel : decimal (data.dropLast.takeWhile (· ≠ 0)) 10 with
      | none => decide
      | some level => exact decimal_le hlevel

/-- The level that a request names. -/
def Request.level : Request → ℕ
  | .set level => level
  | .show level => level
  | _ => 0

theorem parseLevel_le {request verb : List UInt8} {level : ℕ}
    (h : parseLevel request verb = some level) : level ≤ 10 := by
  rw [parseLevel] at h
  split_ifs at h
  exact decimal_le h

theorem level_parse (request : List UInt8) : (parse request).level ≤ 10 := by
  unfold parse
  split
  · exact Nat.zero_le _
  split
  · rename_i level hset
    exact parseLevel_le hset
  split
  · exact Nat.zero_le _
  split
  · rename_i level hshow
    exact parseLevel_le hshow
  split
  · exact Nat.zero_le _
  · exact Nat.zero_le _

/-! ### The invariant -/

/-- The lease is free or of a client, and without it the backlight has the level of the user. -/
structure Sound (s : Service) : Prop where
  levels_length : s.levels.length = 11
  baseline_le : s.baseline ≤ 10
  published_eq : s.published = s.baseline
  lease_client : ∀ fd, s.lease = some fd → some fd ∈ s.clients
  restored : s.lease = none → s.lastOk = true → s.levels[s.baseline]? = some s.shown

variable {s : Service} {index fd level : ℕ} {calls : Calls}

theorem Sound.baseline_lt (h : Sound s) : s.baseline < s.levels.length :=
  h.levels_length ▸ Nat.lt_succ_of_le h.baseline_le

theorem applyLevel_frame (s : Service) (level : ℕ) (write : Write) :
    ∃ shown writes lastOk, (applyLevel s level write).1 =
        { s with shown := shown, writes := writes, lastOk := lastOk } ∧
      (level < s.levels.length → lastOk = true → s.levels[level]? = some shown) := by
  cases write with
  | done =>
    refine ⟨_, _, _, rfl, fun hlevel _ => ?_⟩
    rw [List.getD_eq_getElem?_getD, List.getElem?_eq_getElem hlevel]
    rfl
  | failed number left => exact ⟨_, _, _, rfl, fun _ h => nomatch h⟩

theorem Sound.applyLevel (h : Sound s) (write : Write) :
    Sound (applyLevel s s.baseline write).1 := by
  obtain ⟨shown, writes, lastOk, heq, hshown⟩ := applyLevel_frame s s.baseline write
  rw [heq]
  exact ⟨h.levels_length, h.baseline_le, h.published_eq, h.lease_client,
    fun _ => hshown h.baseline_lt⟩

theorem Sound.release (h : Sound s) (write : Write) :
    Sound { (Brightnessd.applyLevel s s.baseline write).1 with lease := none } := by
  obtain ⟨shown, writes, lastOk, heq, hshown⟩ := applyLevel_frame s s.baseline write
  rw [heq]
  exact ⟨h.levels_length, h.baseline_le, h.published_eq, nofun, fun _ => hshown h.baseline_lt⟩

/-- **A request.** -/
theorem Sound.execute (h : Sound s) (hclient : some fd ∈ s.clients) {request : Request}
    (hlevel : request.level ≤ 10) :
    Sound (execute s fd request calls).1 ∧ (execute s fd request calls).1.clients = s.clients := by
  cases request with
  | get => exact ⟨h, rfl⟩
  | set level =>
    rw [Brightnessd.execute]
    cases calls.publish with
    | some number => exact ⟨h, rfl⟩
    | none =>
      dsimp only
      by_cases hfree : s.lease = none
      · rw [if_pos hfree]
        obtain ⟨shown, writes, lastOk, heq, hshown⟩ :=
          applyLevel_frame { s with published := level, baseline := level } level calls.apply
        rw [heq]
        have hwithin : level < s.levels.length := h.levels_length ▸ Nat.lt_succ_of_le hlevel
        exact ⟨⟨h.levels_length, hlevel, rfl, h.lease_client, fun _ => hshown hwithin⟩, rfl⟩
      · rw [if_neg hfree]
        exact ⟨⟨h.levels_length, hlevel, rfl, h.lease_client, fun hnone => absurd hnone hfree⟩, rfl⟩
  | claim =>
    rw [Brightnessd.execute]
    split_ifs with hfree
    · refine ⟨⟨h.levels_length, h.baseline_le, h.published_eq, ?_, nofun⟩, rfl⟩
      rintro _ ⟨⟩
      exact hclient
    · exact ⟨h, rfl⟩
  | «show» level =>
    rw [Brightnessd.execute]
    split_ifs with hother
    · exact ⟨h, rfl⟩
    · obtain ⟨shown, writes, lastOk, heq, -⟩ := applyLevel_frame s level calls.apply
      have hheld : s.lease = some fd := not_not.mp hother
      dsimp only
      rw [heq]
      exact ⟨⟨h.levels_length, h.baseline_le, h.published_eq, h.lease_client,
        fun hnone => absurd (hheld.symm.trans hnone) nofun⟩, rfl⟩
  | release =>
    rw [Brightnessd.execute]
    split_ifs with hother
    · exact ⟨h, rfl⟩
    · have hfree := h.release calls.apply
      have hkept := h.applyLevel calls.apply
      cases hwrite : calls.apply with
      | done =>
        rw [hwrite] at hfree
        exact ⟨hfree, rfl⟩
      | failed number left =>
        rw [hwrite] at hkept
        exact ⟨hkept, rfl⟩
  | invalid => exact ⟨h, rfl⟩

/-- **The end of a client.** -/
theorem Sound.closeClient (h : Sound s) (restore : Write) :
    Sound (closeClient s index restore) := by
  rw [Brightnessd.closeClient]
  split
  · rename_i fd hindex
    dsimp only
    split_ifs with hheld
    · -- The lease ends with its holder, and so before the descriptor is free again.
      obtain ⟨shown, writes, lastOk, heq, hshown⟩ :=
        applyLevel_frame { s with lease := none } s.baseline restore
      rw [heq]
      exact ⟨h.levels_length, h.baseline_le, h.published_eq, nofun, fun _ => hshown h.baseline_lt⟩
    · refine ⟨h.levels_length, h.baseline_le, h.published_eq, fun holder hholder => ?_, h.restored⟩
      obtain ⟨slot, hslot⟩ := List.mem_iff_getElem?.mp (h.lease_client holder hholder)
      refine List.mem_iff_getElem?.mpr ⟨slot, ?_⟩
      rw [List.getElem?_set_ne, hslot]
      rintro rfl
      rw [hindex] at hslot
      cases hslot
      exact hheld hholder
  · exact h

/-! ### Runs -/

theorem Sound.handleClient (h : Sound s) (hclient : s.clients[index]? = some (some fd))
    (received : Received) (calls : Calls) : Sound (handleClient s index fd received calls) := by
  cases received with
  | failed transient =>
    rw [Brightnessd.handleClient]
    split_ifs
    · exact h
    · exact h.closeClient calls.restore
  | packet data =>
    have hexecute : Sound (Brightnessd.execute s fd (parse data) calls).1 :=
      (h.execute (List.mem_of_getElem? hclient) (level_parse data)).1
    rw [Brightnessd.handleClient]
    split_ifs
    · exact h.closeClient calls.restore
    · exact h
    · exact hexecute
    · exact hexecute.closeClient calls.restore

theorem Sound.acceptClient (h : Sound s) (fd : ℕ) : Sound (acceptClient s fd) := by
  refine ⟨h.levels_length, h.baseline_le, h.published_eq, fun holder hholder => ?_, h.restored⟩
  obtain ⟨slot, hslot⟩ := List.mem_iff_getElem?.mp (h.lease_client holder hholder)
  refine List.mem_iff_getElem?.mpr ⟨slot, ?_⟩
  have hother : s.clients.idxOf none ≠ slot := by
    rintro rfl
    obtain ⟨hlt, heq⟩ := List.getElem?_eq_some_iff.mp hslot
    rw [List.getElem_idxOf] at heq
    cases heq
  rw [Brightnessd.acceptClient, List.getElem?_set_ne hother, hslot]

theorem sound_started {levels : List ℕ} (hlevels : levels.length = 11)
    (content : Option (List UInt8)) : Sound (started levels content) := by
  have hbaseline := loadState_le content
  refine ⟨hlevels, hbaseline, rfl, nofun, fun _ _ => ?_⟩
  have hlt : loadState content < levels.length := by omega
  show levels[loadState content]? = some (levels.getD (loadState content) 0)
  rw [List.getD_eq_getElem?_getD, List.getElem?_eq_getElem hlt]
  rfl

theorem sound_reachable {levels : List ℕ} (hlevels : levels.length = 11)
    (h : (machine levels).Reachable s) : Sound s := by
  refine h.invariant ?_ ?_
  · rintro _ ⟨content, rfl⟩
    exact sound_started hlevels content
  · intro s event s' hs hstep
    cases event with
    | input index fd received calls =>
      obtain ⟨hclient, rfl⟩ := hstep
      exact hs.handleClient hclient received calls
    | hangUp index restore =>
      obtain rfl := hstep
      exact hs.closeClient restore
    | accept fd =>
      obtain ⟨-, rfl⟩ := hstep
      exact hs.acceptClient fd

/-! ### Who writes -/

/-- The backlight is not written. -/
def Untouched (s s' : Service) : Prop := s'.writes = s.writes ∧ s'.shown = s.shown

theorem untouched_closeClient (hclient : s.clients[index]? = some (some fd))
    (hother : s.lease ≠ some fd) (restore : Write) : Untouched s (closeClient s index restore) := by
  rw [closeClient, hclient]
  dsimp only
  rw [if_neg hother]
  exact ⟨rfl, rfl⟩

theorem execute_show (hother : s.lease ≠ some fd) :
    (execute s fd (.show level) calls).1 = s := by
  rw [execute, if_pos hother]

theorem execute_set (hheld : s.lease ≠ none) (fd level : ℕ) (calls : Calls) :
    Untouched s (execute s fd (.set level) calls).1 ∧
      (execute s fd (.set level) calls).1.lease = s.lease ∧
      (execute s fd (.set level) calls).1.clients = s.clients := by
  rw [execute]
  cases calls.publish with
  | some number => exact ⟨⟨rfl, rfl⟩, rfl, rfl⟩
  | none =>
    dsimp only
    rw [if_neg hheld]
    exact ⟨⟨rfl, rfl⟩, rfl, rfl⟩

theorem closeClient_held (hclient : s.clients[index]? = some (some fd)) (hheld : s.lease = some fd)
    (restore : Write) : (closeClient s index restore).lease = none := by
  obtain ⟨shown, writes, lastOk, heq, -⟩ :=
    applyLevel_frame { s with lease := none } s.baseline restore
  rw [closeClient, hclient]
  dsimp only
  rw [if_pos hheld, heq]

/-- **The lease of the backlight**, after any sequence of events: it is free or of a client, only
its holder shows a level, and what a `SET` during a lease writes comes from the end of the lease. -/
theorem lease_sound {levels : List ℕ} (hlevels : levels.length = 11)
    (h : (machine levels).Reachable s) :
    Sound s ∧
    (∀ index fd data level calls, s.clients[index]? = some (some fd) → parse data = .show level →
      s.lease ≠ some fd → Untouched s (handleClient s index fd (.packet data) calls)) ∧
    (∀ index fd data level calls, s.clients[index]? = some (some fd) → parse data = .set level →
      s.lease ≠ none →
      Untouched s (execute s fd (parse data) calls).1 ∧
      (Untouched s (handleClient s index fd (.packet data) calls) ∨
        s.lease = some fd ∧ calls.reply = false ∧
          (handleClient s index fd (.packet data) calls).lease = none)) ∧
    ∀ fd s', step s (.accept fd) s' → s'.lease ≠ some fd := by
  have hsound := sound_reachable hlevels h
  refine ⟨hsound, fun index fd data level calls hclient hparse hother => ?_,
    fun index fd data level calls hclient hparse hheld => ?_, fun fd s' hstep => ?_⟩
  · rw [handleClient, hparse, execute_show hother]
    split_ifs
    · exact untouched_closeClient hclient hother _
    · exact ⟨rfl, rfl⟩
    · exact ⟨rfl, rfl⟩
    · exact untouched_closeClient hclient hother _
  · obtain ⟨huntouched, hlease, hclients⟩ := execute_set hheld fd level calls
    have hdata : data ≠ [] := by
      rintro rfl
      exact absurd hparse (by simp [parse, parseLevel])
    rw [handleClient, hparse, if_neg hdata]
    refine ⟨huntouched, ?_⟩
    by_cases hbad : data.length ≥ 32 ∨ 0 ∈ data ∨ Request.set level = .get
    · rw [if_pos hbad]
      exact Or.inl ⟨rfl, rfl⟩
    · rw [if_neg hbad]
      cases hreply : calls.reply with
      | true => exact Or.inl huntouched
      | false =>
        rw [← hclients] at hclient
        by_cases hown : s.lease = some fd
        · exact Or.inr ⟨hown, rfl, closeClient_held hclient (hlease.trans hown) _⟩
        · obtain ⟨hwrites, hshown⟩ := untouched_closeClient hclient (hlease ▸ hown) calls.restore
          exact Or.inl ⟨hwrites.trans huntouched.1, hshown.trans huntouched.2⟩
  · obtain ⟨hfree, rfl⟩ := hstep
    exact fun hlease => hfree (hsound.lease_client fd hlease)

/-- Client 5 claims the lease and shows level 3, client 6 sets level 4, a `SHOW` fails, and the
holder hangs up; the next client gets its descriptor. -/
theorem lease_sound_sample : ∃ s, s.lease = none ∧ s.writes = 3 ∧ s.shown = 40 ∧
    s.clients.take 2 = [some 5, some 6] ∧ Sound s := by
  let levels := [0, 10, 20, 30, 40, 50, 60, 70, 80, 90, 100]
  let calls : Calls := ⟨none, .done, true, .done⟩
  have h0 : (machine levels).Reachable _ := .start ⟨none, rfl⟩
  have h1 := h0.step (a := Event.accept 5) ⟨by decide, rfl⟩
  have h2 := h1.step (a := Event.input 0 5 (.packet [67, 76, 65, 73, 77]) calls) ⟨rfl, rfl⟩
  have h3 := h2.step (a := Event.input 0 5 (.packet [83, 72, 79, 87, 32, 51]) calls) ⟨rfl, rfl⟩
  have h4 := h3.step (a := Event.accept 6) ⟨by decide, rfl⟩
  have h5 := h4.step (a := Event.input 1 6 (.packet [83, 69, 84, 32, 52]) calls) ⟨rfl, rfl⟩
  have h6 := h5.step (a := Event.input 0 5 (.packet [83, 72, 79, 87, 32, 57])
    { calls with apply := .failed 5 0 }) ⟨rfl, rfl⟩
  have h7 := h6.step (a := Event.hangUp 0 .done) rfl
  have h8 := h7.step (a := Event.accept 5) ⟨by decide, rfl⟩
  exact ⟨_, rfl, rfl, rfl, rfl, (lease_sound (by decide) h8).1⟩

end Brightnessd
