/-
The clock owner of the session (`session-clock.c`).

The owner holds the clock model and its stored preferences.  A tick commits the
model it computed whether or not it could be stored; a request that changes the
configuration is taken back when its file was not published.  Whatever was not
made durable is tried again later.

Main result:
- `durable_of_trace`: what the storage state says about the published file, along
  every run and whatever fails.
-/
import Fplinux.Clock.Replay
import Fplinux.Ui.Prefs

namespace SessionClock

open Clock (Model Status Request RequestOp Tokener Result preferencesEncode preferencesDecode
  wireCapacity requestApply)
open Bytes (ascii)
open Prefs (Storage Faults)

def retryInitialMs : ℕ := 1000
def retryMaxMs : ℕ := 30000

/-- `struct fplinux_session_clock`. -/
structure State where
  model : Model
  preferences : Prefs.State
  storage : Storage
  retryAtMs : ℕ
  retryDelayMs : ℕ

def configurationKey : List UInt8 := ascii "configuration"

def result (clock : State) (status : Status) (applied : Bool) : Result :=
  ⟨status, applied, clock.storage.state, clock.storage.error⟩

/-- Takes over the outcome of a save, and plans the next attempt. -/
def saved (clock : State) (storage : Storage) (monoMs : ℕ) : State :=
  if storage.state = .durable then
    { clock with
      storage := storage
      retryAtMs := 0
      retryDelayMs := retryInitialMs }
  else
    { clock with
      storage := storage
      retryAtMs := Word.satAdd 64 monoMs clock.retryDelayMs
      retryDelayMs :=
        if clock.retryDelayMs > retryMaxMs / 2 then retryMaxMs else 2 * clock.retryDelayMs }

def saveConfiguration (clock : State) (configuration : List UInt8) (faults : Faults) :
    Storage × State :=
  match Prefs.set clock.preferences configurationKey configuration faults.allocate with
  | .error error => (⟨.unpublished, error⟩, clock)
  | .ok preferences =>
    let (storage, preferences) := Prefs.save preferences faults
    (storage, { clock with preferences := preferences })

/-- Stores the configuration and takes over the outcome. -/
def checkpoint (clock : State) (configuration : List UInt8) (monoMs : ℕ) (faults : Faults) : State :=
  let (storage, clock) := saveConfiguration clock configuration faults
  saved clock storage monoMs

def encode (model : Model) : Except Status (List UInt8) := preferencesEncode model wireCapacity

def configurations (before after : Model) : Except Status (List UInt8 × List UInt8) :=
  match encode before, encode after with
  | .ok old, .ok current => .ok (old, current)
  | _, _ => .error .invalid

/-- `fplinux_session_clock_init`.  `opened` is what opening the preferences gave:
an errno, or the file that is there. -/
def init (tokener : Tokener) (wallUtc : ℤ) (monoMs : ℕ) (opened : Except ℕ (Option (List UInt8)))
    (faults : Faults) : Result × Option State :=
  match Clock.init wallUtc monoMs with
  | none => (⟨.invalid, false, .durable, 0⟩, none)
  | some model =>
    match opened with
    | .error error => (⟨.storageError, false, .unpublished, error⟩, none)
    | .ok file =>
      let clock : State := ⟨model, Prefs.load file, ⟨.durable, 0⟩, 0, retryInitialMs⟩
      match Prefs.get clock.preferences configurationKey with
      | none => (result clock .ok true, some clock)
      | some configuration =>
        match preferencesDecode tokener configuration model with
        | none => (result clock .invalid false, none)
        | some model =>
          let clock := { clock with model := model }
          match encode model with
          | .error status => (result clock status false, none)
          | .ok normalized =>
            let clock :=
              if configuration = normalized then clock else checkpoint clock normalized monoMs faults
            (result clock .ok true, some clock)

def retry (clock : State) (monoMs : ℕ) (faults : Faults) : Result × State :=
  if clock.storage.state = .durable then (result clock .ok true, clock)
  else
    match encode clock.model with
    | .error _ => (result clock .invalid false, clock)
    | .ok configuration =>
      let clock := checkpoint clock configuration monoMs faults
      (result clock (if clock.storage.state = .durable then .ok else .storageError) true, clock)

def tick (clock : State) (wallUtc : ℤ) (monoMs : ℕ) (faults : Faults) : Result × State :=
  let (status, candidate) := Clock.tick clock.model wallUtc monoMs
  if status ≠ .ok then (result clock status false, clock)
  else
    match configurations clock.model candidate with
    | .error status => (result clock status false, clock)
    | .ok (before, after) =>
      let clock := { clock with model := candidate }
      let clock :=
        if before ≠ after then checkpoint clock after monoMs faults
        else if clock.retryAtMs ≠ 0 ∧ monoMs ≥ clock.retryAtMs then (retry clock monoMs faults).2
        else clock
      (result clock .ok true, clock)

def configurationRequest : RequestOp → Bool
  | .save | .alarmAdd | .alarmEdit | .alarmEnable | .alarmDelete | .timerSet | .worldAdd
  | .worldEdit | .worldDelete | .setView | .setSnooze => true
  | _ => false

/-- What goes wrong during one request: in its tick, in its own save, and when the
old configuration is put back. -/
structure ApplyFaults where
  tick : Faults
  save : Faults
  restore : Bool
  deriving DecidableEq, Repr

/-- Puts the old configuration back: a rejected edit must not become the next
checkpoint.  The source ignores a failure. -/
def restore (clock : State) (before : List UInt8) (allocate : Bool) : State :=
  match Prefs.set clock.preferences configurationKey before allocate with
  | .error _ => clock
  | .ok preferences => { clock with preferences := preferences }

def apply (clock : State) (request : Request) (wallUtc : ℤ) (monoMs : ℕ) (faults : ApplyFaults) :
    Result × State :=
  let (outcome, clock) := tick clock wallUtc monoMs faults.tick
  if outcome.status ≠ .ok then (outcome, clock)
  else
    let (status, candidate) := requestApply clock.model request
    if status ≠ .ok then (result clock status false, clock)
    else
      match configurations clock.model candidate with
      | .error status => (result clock status false, clock)
      | .ok (before, after) =>
        if before = after then
          let clock := { clock with model := candidate }
          if configurationRequest request.op then retry clock monoMs faults.save
          else (result clock .ok true, clock)
        else
          let (storage, clock) := saveConfiguration clock after faults.save
          if storage.state = .unpublished then
            let clock := restore clock before faults.restore
            (⟨.storageError, false, storage.state, storage.error⟩, clock)
          else
            let clock := saved { clock with model := candidate } storage monoMs
            (result clock (if storage.state = .durable then .ok else .storageError) true, clock)

/-! ### Runs -/

inductive Op
  | tick (wallUtc : ℤ) (monoMs : ℕ) (faults : Faults)
  | retry (monoMs : ℕ) (faults : Faults)
  | apply (request : Request) (wallUtc : ℤ) (monoMs : ℕ) (faults : ApplyFaults)

def perform (clock : State) : Op → Result × State
  | .tick wallUtc monoMs faults => tick clock wallUtc monoMs faults
  | .retry monoMs faults => retry clock monoMs faults
  | .apply request wallUtc monoMs faults => apply clock request wallUtc monoMs faults

/-- The owner after an applied init, called in any order. -/
def machine (tokener : Tokener) : Machine State Op where
  start clock := ∃ wallUtc monoMs opened faults, monoMs < 2 ^ 64 ∧
    (init tokener wallUtc monoMs opened faults).1.applied = true ∧
    (init tokener wallUtc monoMs opened faults).2 = some clock
  step clock op clock' := (perform clock op).2 = clock'

/-- The configuration in the published file. -/
def published (clock : State) : Option (List UInt8) :=
  Prefs.get (Prefs.load clock.preferences.file) configurationKey

/-- The published file holds the configuration of the model. -/
def Holds (clock : State) : Prop := ∃ text, encode clock.model = .ok text ∧ published clock = some text

/-! ### One checkpoint -/

variable {text : List UInt8} {clock : State}

theorem encode_nul {model : Model} (h : encode model = .ok text) : 0 ∉ text := by
  intro hmem
  rw [encode, preferencesEncode] at h
  split at h
  · cases h
  split at h
  · cases h
  · rw [Clock.writeObject] at h
    split at h
    · cases h
    · simp only at h
      split at h
      · cases h
      · obtain rfl := Except.ok.inj h
        have hge := Json.print_ge _ hmem
        simp at hge

/-- What holds of the owner between calls, apart from the durable file. -/
structure Good (clock : State) : Prop where
  prefs : Prefs.Ok clock.preferences
  encodes : ∃ text, encode clock.model = .ok text
  delay : clock.retryDelayMs ≠ 0
  retry : clock.storage.state ≠ .durable → clock.retryAtMs ≠ 0

/-- The file and the persistent part of the model are as they were. -/
structure Same (clock clock' : State) : Prop where
  encode : encode clock'.model = encode clock.model
  file : clock'.preferences.file = clock.preferences.file
  pendingSync : clock'.preferences.pendingSync = clock.preferences.pendingSync

theorem Same.published {clock' : State} (h : Same clock clock') :
    published clock' = published clock := by
  rw [SessionClock.published, SessionClock.published, h.file]

/-- What a call leaves: a good owner that is durable only if the file holds its
configuration, or nothing persistent moved. -/
structure Next (clock clock' : State) : Prop where
  good : Good clock'
  durable : clock'.storage.state = .durable →
    (Holds clock' ∧ clock'.preferences.pendingSync = false) ∨
      (clock.storage.state = .durable ∧ Same clock clock')

theorem Next.refl (h : Good clock) : Next clock clock :=
  ⟨h, fun hdurable => .inr ⟨hdurable, rfl, rfl, rfl⟩⟩

theorem Next.trans {a b c : State} (hab : Next a b) (hbc : Next b c) : Next a c := by
  refine ⟨hbc.good, fun hdurable => ?_⟩
  rcases hbc.durable hdurable with hholds | ⟨hb, hsame⟩
  · exact .inl hholds
  rcases hab.durable hb with ⟨⟨text, henc, hpub⟩, hsync⟩ | ⟨ha, hsame'⟩
  · left
    refine ⟨⟨text, ?_, ?_⟩, ?_⟩
    · rw [hsame.encode, henc]
    · rw [hsame.published, hpub]
    · rw [hsame.pendingSync, hsync]
  · right
    refine ⟨ha, ?_, ?_, ?_⟩
    · rw [hsame.encode, hsame'.encode]
    · rw [hsame.file, hsame'.file]
    · rw [hsame.pendingSync, hsame'.pendingSync]

/-- What a save of the configuration leaves, by the state it reports. -/
structure Attempt (clock : State) (text : List UInt8) (outcome : Storage × State) : Prop where
  prefs : Prefs.Ok outcome.2.preferences
  rest : outcome.2 = { clock with preferences := outcome.2.preferences }
  unpublished : outcome.1.state = .unpublished →
    outcome.2.preferences.file = clock.preferences.file ∧
      outcome.2.preferences.pendingSync = clock.preferences.pendingSync
  published : outcome.1.state ≠ .unpublished → published outcome.2 = some text
  durable : outcome.1.state = .durable → outcome.2.preferences.pendingSync = false

theorem attempt_saveConfiguration (h : Prefs.Ok clock.preferences) (hnul : 0 ∉ text)
    (faults : Faults) :
    Attempt clock text (saveConfiguration clock text faults) := by
  rw [saveConfiguration]
  split
  · exact ⟨h, rfl, fun _ => ⟨rfl, rfl⟩, fun hne => absurd rfl hne, fun hstate => by simp at hstate⟩
  · rename_i preferences hset
    obtain ⟨hok, hfound, hfile, hsync⟩ := Prefs.set_spec h hset
    obtain ⟨hok', hitems, hunpublished, hpublished, hdurable⟩ := Prefs.save_spec hok faults
    refine ⟨hok', rfl, ?_, ?_, hdurable⟩
    · intro hstate
      obtain ⟨hfile', hsync'⟩ := hunpublished hstate
      exact ⟨hfile'.trans hfile, hsync'.trans hsync⟩
    · intro hstate
      have hload := hpublished hstate
      rw [Prefs.cString_eq hnul, Prefs.get] at hfound
      show Prefs.get (Prefs.load (Prefs.save preferences faults).2.file) configurationKey = some text
      rw [Prefs.get, hload]
      exact hfound

theorem satAdd_ne_zero {a b : ℕ} (hb : b ≠ 0) : Word.satAdd 64 a b ≠ 0 := by
  rw [Word.satAdd]
  split
  · rw [Word.maxVal]
    decide
  · omega

theorem saved_fields (clock : State) (storage : Storage) (monoMs : ℕ) :
    (saved clock storage monoMs).model = clock.model ∧
      (saved clock storage monoMs).preferences = clock.preferences ∧
      (saved clock storage monoMs).storage = storage := by
  rw [saved]
  split
  · exact ⟨rfl, rfl, rfl⟩
  · exact ⟨rfl, rfl, rfl⟩

theorem saved_schedules (h : clock.retryDelayMs ≠ 0) (storage : Storage) (monoMs : ℕ) :
    (saved clock storage monoMs).retryDelayMs ≠ 0 ∧
      (storage.state ≠ .durable → (saved clock storage monoMs).retryAtMs ≠ 0) := by
  rw [saved]
  split
  · rename_i hdurable
    refine ⟨?_, fun hne => absurd hdurable hne⟩
    show retryInitialMs ≠ 0
    decide
  · refine ⟨?_, fun _ => satAdd_ne_zero h⟩
    simp only
    split
    · decide
    · omega

theorem next_saved {outcome : Storage × State} (h : Attempt clock text outcome)
    (hdelay : clock.retryDelayMs ≠ 0) {model : Model} (henc : encode model = .ok text)
    (start : State) (monoMs : ℕ) :
    Next start (saved { outcome.2 with model := model } outcome.1 monoMs) := by
  obtain ⟨hmodel, hprefs, hstorage⟩ := saved_fields { outcome.2 with model := model } outcome.1 monoMs
  have hdelay' : ({ outcome.2 with model := model } : State).retryDelayMs ≠ 0 := by
    rw [h.rest]
    exact hdelay
  obtain ⟨hnext, hretry⟩ := saved_schedules hdelay' outcome.1 monoMs
  refine ⟨⟨?_, ⟨text, ?_⟩, hnext, ?_⟩, ?_⟩
  · rw [hprefs]
    exact h.prefs
  · rw [hmodel, henc]
  · rw [hstorage]
    exact hretry
  · intro hdurable
    rw [hstorage] at hdurable
    left
    refine ⟨⟨text, ?_, ?_⟩, ?_⟩
    · rw [hmodel, henc]
    · rw [published, hprefs]
      exact h.published (by rw [hdurable]; decide)
    · rw [hprefs]
      exact h.durable hdurable

theorem next_checkpoint (clock : State) (h : Prefs.Ok clock.preferences)
    (hdelay : clock.retryDelayMs ≠ 0) (henc : encode clock.model = .ok text) (start : State)
    (monoMs : ℕ) (faults : Faults) :
    Next start (checkpoint clock text monoMs faults) := by
  have hattempt := attempt_saveConfiguration h (encode_nul henc) faults
  have hnext := next_saved hattempt hdelay henc start monoMs
  rw [show { (saveConfiguration clock text faults).2 with model := clock.model } =
    (saveConfiguration clock text faults).2 by rw [hattempt.rest]] at hnext
  exact hnext

theorem checkpoint_spec (clock : State) (h : Prefs.Ok clock.preferences)
    (henc : encode clock.model = .ok text) (monoMs : ℕ) (faults : Faults) :
    (checkpoint clock text monoMs faults).model = clock.model ∧
      ((checkpoint clock text monoMs faults).storage.state ≠ .unpublished →
        Holds (checkpoint clock text monoMs faults)) := by
  have hattempt := attempt_saveConfiguration h (encode_nul henc) faults
  obtain ⟨hmodel, hprefs, hstorage⟩ := saved_fields (saveConfiguration clock text faults).2
    (saveConfiguration clock text faults).1 monoMs
  have hkept : (checkpoint clock text monoMs faults).model = clock.model := by
    refine hmodel.trans ?_
    rw [hattempt.rest]
  refine ⟨hkept, fun hstate => ⟨text, ?_, ?_⟩⟩
  · rw [hkept, henc]
  · rw [published]
    show Prefs.get (Prefs.load (saved (saveConfiguration clock text faults).2
      (saveConfiguration clock text faults).1 monoMs).preferences.file) configurationKey = some text
    rw [hprefs]
    refine hattempt.published ?_
    rw [← hstorage]
    exact hstate

/-! ### The calls -/

theorem configurations_ok {before after : Model} {old current : List UInt8}
    (h : configurations before after = .ok (old, current)) :
    encode before = .ok old ∧ encode after = .ok current := by
  rw [configurations] at h
  split at h
  · rename_i hold hcurrent
    obtain ⟨rfl, rfl⟩ := Prod.mk.inj (Except.ok.inj h)
    exact ⟨hold, hcurrent⟩
  · cases h

theorem next_model (h : Good clock) {candidate : Model} (hold : encode clock.model = .ok text)
    (hnew : encode candidate = .ok text) :
    Next clock { clock with model := candidate } := by
  refine ⟨⟨h.prefs, ⟨text, hnew⟩, h.delay, h.retry⟩, fun hdurable => .inr ⟨hdurable, ?_, rfl, rfl⟩⟩
  rw [hold]
  exact hnew

theorem next_retry (h : Good clock) (monoMs : ℕ) (faults : Faults) :
    Next clock (retry clock monoMs faults).2 := by
  rw [retry]
  split
  · exact .refl h
  · split
    · exact .refl h
    · rename_i henc
      exact next_checkpoint clock h.prefs h.delay henc clock monoMs faults

theorem retry_spec (h : Good clock) (hstate : clock.storage.state ≠ .durable) (monoMs : ℕ)
    (faults : Faults) :
    (retry clock monoMs faults).1.applied = true ∧
      (retry clock monoMs faults).2.model = clock.model ∧
      ((retry clock monoMs faults).2.storage.state ≠ .unpublished →
        Holds (retry clock monoMs faults).2) := by
  obtain ⟨text, henc⟩ := h.encodes
  obtain ⟨hmodel, hholds⟩ := checkpoint_spec clock h.prefs henc monoMs faults
  simp only [retry, if_neg hstate, henc]
  exact ⟨rfl, hmodel, hholds⟩

theorem retry_applied (h : Good clock) (monoMs : ℕ) (faults : Faults) :
    (retry clock monoMs faults).1.applied = true := by
  by_cases hstate : clock.storage.state = .durable
  · rw [retry, if_pos hstate]
    rfl
  · exact (retry_spec h hstate monoMs faults).1

/-- What a tick does to an owner: nothing, or it commits the ticked model. -/
structure Ticked (clock : State) (wallUtc : ℤ) (monoMs : ℕ) (outcome : Result × State) : Prop where
  next : Next clock outcome.2
  failed : outcome.1.status ≠ .ok → outcome.1.applied = false ∧ outcome.2 = clock
  model : outcome.1.status = .ok → outcome.1.applied = true ∧
    outcome.2.model = (Clock.tick clock.model wallUtc monoMs).2

theorem ticked_tick (h : Good clock) (wallUtc : ℤ) (monoMs : ℕ) (faults : Faults) :
    Ticked clock wallUtc monoMs (tick clock wallUtc monoMs faults) := by
  rw [tick]
  simp only
  split
  · rename_i hstatus
    exact ⟨.refl h, fun _ => ⟨rfl, rfl⟩, fun hok => absurd hok hstatus⟩
  split
  · rename_i hconf
    -- the only error of `configurations` is `invalid`
    have hstatus : ∀ {before after : Model} {status : Status},
        configurations before after = .error status → status ≠ .ok := by
      intro before after status hconf
      rw [configurations] at hconf
      split at hconf
      · cases hconf
      · cases hconf
        decide
    exact ⟨.refl h, fun _ => ⟨rfl, rfl⟩, fun hok => absurd hok (hstatus hconf)⟩
  · rename_i before after hconf
    obtain ⟨hold, hnew⟩ := configurations_ok hconf
    let committed : State := { clock with model := (Clock.tick clock.model wallUtc monoMs).2 }
    refine ⟨?_, fun hne => absurd rfl hne, fun _ => ⟨rfl, ?_⟩⟩
    · split
      · exact next_checkpoint committed h.prefs h.delay hnew clock monoMs faults
      · rename_i hsame
        rw [ne_eq, not_not] at hsame
        have hmodel := next_model h hold (hsame ▸ hnew)
        split
        · exact hmodel.trans (next_retry hmodel.good monoMs faults)
        · exact hmodel
    · split
      · exact (checkpoint_spec committed h.prefs hnew monoMs faults).1
      · rename_i hsame
        rw [ne_eq, not_not] at hsame
        have hmodel := next_model h hold (hsame ▸ hnew)
        split
        · by_cases hstate : clock.storage.state = .durable
          · rw [retry, if_pos hstate]
          · exact (retry_spec hmodel.good hstate monoMs faults).2.1
        · rfl

theorem restore_spec (h : Prefs.Ok clock.preferences) (before : List UInt8) (allocate : Bool) :
    Prefs.Ok (restore clock before allocate).preferences ∧
      (restore clock before allocate).preferences.file = clock.preferences.file ∧
      (restore clock before allocate).preferences.pendingSync = clock.preferences.pendingSync ∧
      restore clock before allocate =
        { clock with preferences := (restore clock before allocate).preferences } := by
  rw [restore]
  split
  · exact ⟨h, rfl, rfl, rfl⟩
  · rename_i hset
    obtain ⟨hok, -, hfile, hsync⟩ := Prefs.set_spec h hset
    exact ⟨hok, hfile, hsync, rfl⟩

/-- What a request does to the owner its tick left. -/
structure Applied (ticked : State) (outcome : Result × State) : Prop where
  next : Next ticked outcome.2
  rejected : outcome.1.applied = false →
    outcome.2.model = ticked.model ∧ outcome.2.preferences.file = ticked.preferences.file

theorem applied_apply (h : Good clock) (request : Request) (wallUtc : ℤ) (monoMs : ℕ)
    (faults : ApplyFaults) :
    Applied (tick clock wallUtc monoMs faults.tick).2
      (apply clock request wallUtc monoMs faults) := by
  have hgood := (ticked_tick h wallUtc monoMs faults.tick).next.good
  rw [apply]
  simp only
  generalize (tick clock wallUtc monoMs faults.tick).2 = ticked at hgood ⊢
  split
  · exact ⟨.refl hgood, fun _ => ⟨rfl, rfl⟩⟩
  split
  · exact ⟨.refl hgood, fun _ => ⟨rfl, rfl⟩⟩
  split
  · exact ⟨.refl hgood, fun _ => ⟨rfl, rfl⟩⟩
  rename_i before after hconf
  obtain ⟨hold, hnew⟩ := configurations_ok hconf
  split
  · -- the configuration is the same: only a configuration request tries to store again
    rename_i hsame
    have hmodel := next_model hgood hold (hsame ▸ hnew)
    split
    · refine ⟨hmodel.trans (next_retry hmodel.good monoMs faults.save), fun hrejected => ?_⟩
      rw [retry_applied hmodel.good] at hrejected
      cases hrejected
    · exact ⟨hmodel, fun hrejected => by cases hrejected⟩
  · have hattempt := attempt_saveConfiguration hgood.prefs (encode_nul hnew) faults.save
    split
    · rename_i hstate
      obtain ⟨hok, hfile, hsync, hrest⟩ := restore_spec hattempt.prefs before faults.restore
      obtain ⟨hfile', hsync'⟩ := hattempt.unpublished hstate
      have hkept : restore (saveConfiguration ticked after faults.save).2 before faults.restore =
          { ticked with
            preferences := (restore (saveConfiguration ticked after faults.save).2 before
              faults.restore).preferences } := by
        rw [hrest, hattempt.rest]
      rw [hkept]
      refine ⟨⟨⟨hok, hgood.encodes, hgood.delay, hgood.retry⟩, fun hdurable => .inr ⟨hdurable, rfl,
        hfile.trans hfile', hsync.trans hsync'⟩⟩, fun _ => ⟨rfl, hfile.trans hfile'⟩⟩
    · exact ⟨next_saved hattempt hgood.delay hnew ticked monoMs, fun hrejected => by cases hrejected⟩

theorem next_perform (h : Good clock) (op : Op) : Next clock (perform clock op).2 := by
  cases op with
  | tick wallUtc monoMs faults => exact (ticked_tick h wallUtc monoMs faults).next
  | retry monoMs faults => exact next_retry h monoMs faults
  | apply request wallUtc monoMs faults =>
    exact (ticked_tick h wallUtc monoMs faults.tick).next.trans
      (applied_apply h request wallUtc monoMs faults).next

/-! ### Whole runs -/

/-- What a durable state means after the given calls: the file is synchronized and
holds the configuration, or none was stored and the configuration never moved. -/
def Durable (l : List (Machine.Step State Op)) (clock : State) : Prop :=
  clock.preferences.pendingSync = false ∧
    (Holds clock ∨ (published clock = none ∧
      ∀ call ∈ l, encode call.after.model = encode call.before.model))

theorem start_spec {tokener : Tokener} (h : (machine tokener).start clock) :
    Good clock ∧ (clock.storage.state = .durable → Durable [] clock) := by
  obtain ⟨wallUtc, monoMs, opened, faults, hlt, happlied, hsome⟩ := h
  rw [init] at happlied hsome
  split at hsome
  · cases hsome
  rename_i model hinit
  split at hsome
  · cases hsome
  rename_i file
  simp only at hsome
  have hok := Prefs.ok_load file
  have hsync := Prefs.load_pendingSync file
  split at hsome
  · rename_i hnone
    obtain rfl := Option.some.inj hsome
    obtain ⟨text, henc, -⟩ := Clock.preferences_roundtrip Clock.inverts_plainTokener
      (Clock.inv_init hlt hinit) hinit
    refine ⟨⟨hok, ⟨text, henc⟩, (by decide : retryInitialMs ≠ 0), fun hne => absurd rfl hne⟩,
      fun _ => ⟨hsync, .inr ⟨?_, by simp⟩⟩⟩
    rw [published, Prefs.load_file]
    exact hnone
  rename_i configuration hconf
  split at hsome
  · cases hsome
  rename_i decoded hdecode
  split at hsome
  · cases hsome
  rename_i normalized henc
  obtain rfl := Option.some.inj hsome
  let fresh : State := ⟨decoded, Prefs.load file, ⟨.durable, 0⟩, 0, retryInitialMs⟩
  have hfresh : Good fresh :=
    ⟨hok, ⟨normalized, henc⟩, (by decide : retryInitialMs ≠ 0), fun hne => absurd rfl hne⟩
  split
  · rename_i hequal
    refine ⟨hfresh, fun _ => ⟨hsync, .inl ⟨normalized, henc, ?_⟩⟩⟩
    rw [published, Prefs.load_file, ← hequal]
    exact hconf
  · -- seen from an owner that is not durable, only the file can make it so
    have hnext := next_checkpoint fresh hok hfresh.delay henc
      { fresh with storage := ⟨.unpublished, 0⟩ } monoMs faults
    refine ⟨hnext.good, fun hdurable => ?_⟩
    rcases hnext.durable hdurable with ⟨hholds, hsync'⟩ | ⟨hstate, -⟩
    · exact ⟨hsync', .inl hholds⟩
    · cases hstate

theorem invariant_step {l : List (Machine.Step State Op)} (op : Op)
    (h : Good clock ∧ (clock.storage.state = .durable → Durable l clock)) :
    Good (perform clock op).2 ∧ ((perform clock op).2.storage.state = .durable →
      Durable (l ++ [⟨clock, op, (perform clock op).2⟩]) (perform clock op).2) := by
  obtain ⟨hgood, hdur⟩ := h
  have hnext := next_perform hgood op
  refine ⟨hnext.good, fun hdurable => ?_⟩
  rcases hnext.durable hdurable with ⟨hholds, hsync⟩ | ⟨hstate, hsame⟩
  · exact ⟨hsync, .inl hholds⟩
  obtain ⟨hsync, hholds | ⟨hnone, hkept⟩⟩ := hdur hstate
  · obtain ⟨text, henc, hpub⟩ := hholds
    exact ⟨hsame.pendingSync.trans hsync,
      .inl ⟨text, hsame.encode.trans henc, hsame.published.trans hpub⟩⟩
  · refine ⟨hsame.pendingSync.trans hsync, .inr ⟨hsame.published.trans hnone, ?_⟩⟩
    intro call hmem
    rcases List.mem_append.mp hmem with hold | hnew
    · exact hkept call hold
    · rw [List.mem_singleton] at hnew
      subst hnew
      exact hsame.encode

/-- **The durability of the clock owner.**  After an applied init, whatever was
called and whatever failed: a durable storage state means that the published file is
synchronized and holds the configuration of the model, or that none was stored and the
configuration never moved; any other state has a retry scheduled; a request that is
not applied leaves the model and the file its tick left; and a tick commits its model
even where storing failed, which is the model any later retry stores. -/
theorem durable_of_trace {tokener : Tokener} {l : List (Machine.Step State Op)} {clock : State}
    (h : (machine tokener).Trace l clock) :
    (clock.storage.state = .durable → Durable l clock) ∧
      (clock.storage.state ≠ .durable → clock.retryAtMs ≠ 0) ∧
      (∀ request wallUtc monoMs faults,
        (apply clock request wallUtc monoMs faults).1.applied = false →
          (apply clock request wallUtc monoMs faults).2.model =
              (tick clock wallUtc monoMs faults.tick).2.model ∧
            (apply clock request wallUtc monoMs faults).2.preferences.file =
              (tick clock wallUtc monoMs faults.tick).2.preferences.file) ∧
      ∀ wallUtc monoMs faults,
        (tick clock wallUtc monoMs faults).2.storage.state ≠ .durable →
          ((tick clock wallUtc monoMs faults).1.status = .ok →
            (tick clock wallUtc monoMs faults).2.model =
              (Clock.tick clock.model wallUtc monoMs).2) ∧
          ∀ laterMs laterFaults,
            (retry (tick clock wallUtc monoMs faults).2 laterMs laterFaults).2.model =
                (tick clock wallUtc monoMs faults).2.model ∧
              ((retry (tick clock wallUtc monoMs faults).2 laterMs laterFaults).2.storage.state ≠
                  .unpublished →
                Holds (retry (tick clock wallUtc monoMs faults).2 laterMs laterFaults).2) := by
  obtain ⟨hgood, hdur⟩ : Good clock ∧ (clock.storage.state = .durable → Durable l clock) := by
    refine h.invariant (P := fun l clock => Good clock ∧
      (clock.storage.state = .durable → Durable l clock)) (K := fun _ => True) ?_ ?_ fun _ _ => trivial
    · intro s hstart
      exact start_spec hstart
    · rintro l s op s' hold rfl -
      exact invariant_step op hold
  refine ⟨hdur, hgood.retry, ?_, ?_⟩
  · intro request wallUtc monoMs faults
    exact (applied_apply hgood request wallUtc monoMs faults).rejected
  · intro wallUtc monoMs faults hstate
    have hticked := ticked_tick hgood wallUtc monoMs faults
    refine ⟨fun hok => (hticked.model hok).2, fun laterMs laterFaults => ?_⟩
    exact (retry_spec hticked.next.good hstate laterMs laterFaults).2

def faultless : Faults := ⟨true, none, none⟩

/-- An owner without a file: the first save of an alarm is not published, the
second is not synchronized, and a retry stores it. -/
theorem durable_retried : ∃ l clock, (machine Clock.plainTokener).Trace l clock ∧
    l.map (fun call => (call.after.storage.state, call.after.model.alarms.length)) =
      [(.durable, 0), (.publishedUnsynced, 1), (.durable, 1)] ∧ Durable l clock := by
  have h0 : (machine Clock.plainTokener).Trace [] _ :=
    .start ⟨1700000000, 0, .ok none, faultless, by decide, rfl, rfl⟩
  have h1 := h0.step (a := .apply Clock.dailyRequest 1700000000 10
    ⟨faultless, { faultless with publish := some 28 }, true⟩) rfl
  have h2 := h1.step (a := .apply Clock.dailyRequest 1700000001 1010
    ⟨faultless, { faultless with sync := some 5 }, true⟩) rfl
  have h3 := h2.step (a := .retry 2010 faultless) rfl
  refine ⟨_, _, h3, ?_, (durable_of_trace h3).1 ?_⟩
  · decide +kernel
  · decide +kernel

end SessionClock
