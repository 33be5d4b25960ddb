/-
The duty policy of the vibrator (`session-vibration.c`).

An application plays a pattern of pauses and pulses; the session decides from moment to
moment whether the motor runs.  A pulse is cut after three seconds, a pause lasts a tenth
of one, and a budget that running spends and rest refills bounds the motor's share of the
time.  The session advances the policy and learns until when nothing changes by itself.

Times are `uint64_t` milliseconds of the monotonic clock.

Main results:
- `currentStep_stable`: a step of a pattern stays current until it ends;
- `ready_play`, `Advanced.ready`: what holds of the policy between calls;
- `advance_stable`: before the deadline that was reported, advancing changes nothing.
-/
import Fplinux.Ui.SessionMessage

namespace SessionVibration

open UiSession (patternMax)

def presenceMs : ℕ := 300000
def pulseLimitMs : ℕ := 3000
def gapLimitMs : ℕ := 100
def budgetMs : ℕ := 3000
def resumeMs : ℕ := 1000
def budgetFull : ℕ := 2 * budgetMs
def budgetResume : ℕ := 2 * resumeMs

/-- `struct fplinux_session_vibration`; its pattern has `count` entries. -/
structure Vibration where
  playing : Bool
  repeats : Bool
  pattern : List ℕ
  startMs : ℕ
  lengthMs : ℕ
  /-- The last requested output and the beginning of its pulse or gap. -/
  vibrating : Bool
  vibrated : Bool
  pulseMs : ℕ
  gapMs : ℕ
  pulseCut : Bool
  /-- Half milliseconds of on-time, as of `updatedMs` (`budget_ms`). -/
  budget : ℕ
  updatedMs : ℕ
  budgetEmpty : Bool
  deriving DecidableEq, Repr

/-- `struct fplinux_session_vibration_state`. -/
structure VibrationState where
  eligible : Bool
  shown : Bool
  lit : Bool
  batteryLow : Bool
  activityMs : ℕ
  deriving DecidableEq, Repr

/-! ### The policy -/

def init (nowMs : ℕ) : Vibration where
  playing := false
  repeats := false
  pattern := []
  startMs := 0
  lengthMs := 0
  vibrating := false
  vibrated := false
  pulseMs := 0
  gapMs := 0
  pulseCut := false
  budget := budgetFull
  updatedMs := nowMs
  budgetEmpty := false

def play (vibration : Vibration) (pattern : List ℕ) (repeats : Bool) (nowMs : ℕ) : Vibration :=
  if pattern.length = 0 ∨ patternMax < pattern.length then vibration
  else
    { vibration with
      pattern := pattern
      lengthMs := pattern.sum
      playing := true
      repeats := repeats && pattern.sum ≠ 0
      startMs := nowMs }

def stop (vibration : Vibration) : Vibration := { vibration with playing := false }

/-- The loop of `current_step` over the entries from an index: whether the entry that
covers the time is a pulse, and when it ends. -/
def findStep : List ℕ → ℕ → ℕ → ℕ → Option (Bool × ℕ)
  | [], _, _, _ => none
  | duration :: rest, i, at', elapsed =>
    if elapsed < duration then some (i % 2 = 1, Word.add 64 at' duration)
    else findStep rest (i + 1) (at' + duration) (elapsed - duration)

def currentStep (vibration : Vibration) (nowMs : ℕ) : Option (Bool × ℕ) :=
  let start := vibration.startMs
  let elapsed := if nowMs > start then nowMs - start else 0
  if !vibration.playing then none
  else
    let loops := if vibration.repeats then elapsed / vibration.lengthMs else 0
    findStep vibration.pattern 0 (start + loops * vibration.lengthMs)
      (elapsed - loops * vibration.lengthMs)

def isPresent (state : VibrationState) (nowMs : ℕ) : Bool :=
  nowMs < state.activityMs ∨ Word.sub 64 nowMs state.activityMs < presenceMs

/-- `spend_budget`: on-time spends, off-time refills the same amount. -/
def spendBudget (vibration : Vibration) (nowMs : ℕ) : Vibration :=
  let elapsed := if nowMs > vibration.updatedMs then nowMs - vibration.updatedMs else 0
  let budget :=
    if vibration.vibrating then
      if vibration.budget > elapsed then vibration.budget - elapsed else 0
    else if Word.sub 64 budgetFull vibration.budget > elapsed then vibration.budget + elapsed
    else budgetFull
  { vibration with
    budget := budget
    updatedMs := nowMs
    budgetEmpty :=
      if budget = 0 then true
      else if budgetResume ≤ budget then false
      else vibration.budgetEmpty }

def gapPending (vibration : Vibration) (nowMs : ℕ) : Bool :=
  !vibration.vibrating ∧ vibration.vibrated ∧ Word.sub 64 nowMs vibration.gapMs < gapLimitMs

/-- What the pattern and the conditions ask for. -/
def requests (vibration : Vibration) (step : Option (Bool × ℕ)) (state : VibrationState)
    (nowMs : ℕ) : Bool :=
  vibration.playing && (step.map Prod.fst).getD false && state.shown && state.lit &&
    !state.batteryLow && isPresent state nowMs

/-- The end of `fplinux_session_vibration_advance`: switches the motor. -/
def switch (vibration : Vibration) (on : Bool) (nowMs : ℕ) : Vibration :=
  let vibration :=
    if on && !vibration.vibrating then { vibration with pulseMs := nowMs } else vibration
  let vibration :=
    if !on && vibration.vibrating then { vibration with vibrated := true, gapMs := nowMs }
    else vibration
  { vibration with vibrating := on }

/-- `fplinux_session_vibration_advance`, with whether it dropped a live pattern. -/
def advance (vibration : Vibration) (state : VibrationState) (nowMs : ℕ) : Bool × Vibration :=
  let vibration := spendBudget vibration nowMs
  let step := currentStep vibration nowMs
  let vibration := if step.isNone then { vibration with playing := false } else vibration
  let dropped := vibration.playing && !state.eligible
  let vibration := if dropped then { vibration with playing := false } else vibration
  let requested := requests vibration step state nowMs
  let vibration := if !requested then { vibration with pulseCut := false } else vibration
  let on := requested && !vibration.pulseCut && !vibration.budgetEmpty &&
    !gapPending vibration nowMs
  (dropped,
    if on && vibration.vibrating && pulseLimitMs ≤ Word.sub 64 nowMs vibration.pulseMs then
      switch { vibration with pulseCut := true } false nowMs
    else switch vibration on nowMs)

/-- Zero stands for no deadline. -/
def consider (earliest timeMs : ℕ) : ℕ :=
  if earliest = 0 ∨ timeMs < earliest then timeMs else earliest

def deadline (vibration : Vibration) (state : VibrationState) (nowMs : ℕ) : ℕ :=
  match currentStep vibration nowMs with
  | none => 0
  | some (on, endMs) =>
    let earliest := consider 0 endMs
    let earliest :=
      if vibration.vibrating then
        consider (consider earliest (Word.add 64 vibration.pulseMs pulseLimitMs))
          (Word.add 64 nowMs vibration.budget)
      else earliest
    let earliest :=
      if on && vibration.budgetEmpty then
        consider earliest (Word.sub 64 (Word.add 64 nowMs budgetResume) vibration.budget)
      else if on && !vibration.pulseCut && gapPending vibration nowMs then
        consider earliest (Word.add 64 vibration.gapMs gapLimitMs)
      else earliest
    if isPresent state nowMs then consider earliest (Word.add 64 state.activityMs presenceMs)
    else earliest

/-! ### Steps of a pattern -/

variable {pattern : List ℕ} {nowMs : ℕ} {vibration : Vibration}

theorem findStep_stable {i start elapsed endMs : ℕ} {on : Bool}
    (h : findStep pattern i start elapsed = some (on, endMs))
    (hfits : start + elapsed + pattern.sum < 2 ^ 64) :
    start + elapsed < endMs ∧ endMs ≤ start + pattern.sum ∧
      ∀ later, elapsed ≤ later → start + later < endMs →
        findStep pattern i start later = some (on, endMs) := by
  induction pattern generalizing i start elapsed with
  | nil => cases h
  | cons duration rest ih =>
    rw [findStep] at h
    rw [List.sum_cons] at hfits ⊢
    split at h
    · rename_i hcovers
      simp only [Option.some.injEq, Prod.mk.injEq] at h
      obtain ⟨rfl, hend⟩ := h
      rw [Word.add_eq (by omega)] at hend
      refine ⟨by omega, by omega, ?_⟩
      intro later hle hlt
      rw [findStep, if_pos (show later < duration by omega), Word.add_eq (by omega), hend]
    · rename_i hpast
      obtain ⟨hlt, hle, hstable⟩ := ih h (by omega)
      refine ⟨by omega, by omega, ?_⟩
      intro later hlater hbefore
      rw [findStep, if_neg (show ¬ later < duration by omega)]
      exact hstable (later - duration) (by omega) (by omega)

/-- A pattern that can be played: its length is known, and it ends in time. -/
structure Playable (vibration : Vibration) : Prop where
  length : vibration.lengthMs = vibration.pattern.sum
  repeats : vibration.repeats = true → vibration.lengthMs ≠ 0
  short : vibration.lengthMs < 2 ^ 62
  start_lt : vibration.startMs < 2 ^ 63

theorem playing_of_step {step : Bool × ℕ} (h : currentStep vibration nowMs = some step) :
    vibration.playing = true := by
  rw [currentStep] at h
  cases hplaying : vibration.playing with
  | true => rfl
  | false => simp [hplaying] at h

/-- **A step stays current** until it ends. -/
theorem currentStep_stable (h : Playable vibration) {endMs : ℕ} {on : Bool} (hnow : nowMs < 2 ^ 63)
    (hstep : currentStep vibration nowMs = some (on, endMs)) :
    nowMs < endMs ∧ ∀ later, nowMs ≤ later → later < endMs →
      currentStep vibration later = some (on, endMs) := by
  have hshort := h.short
  have hstart := h.start_lt
  rw [currentStep] at hstep
  simp only at hstep
  split at hstep
  · cases hstep
  rename_i hplaying
  have helapsed : ∀ time, (if time > vibration.startMs then time - vibration.startMs else 0) =
      time - vibration.startMs := by
    intro time
    split <;> omega
  rw [helapsed] at hstep
  generalize hloops : (if vibration.repeats then
    (nowMs - vibration.startMs) / vibration.lengthMs else 0) = loops at hstep
  have hmul : loops * vibration.lengthMs ≤ nowMs - vibration.startMs := by
    rw [← hloops]
    split
    · exact Nat.div_mul_le_self _ _
    · omega
  obtain ⟨hlt, hle, hstable⟩ := findStep_stable hstep (by rw [← h.length]; omega)
  rw [← h.length] at hle
  refine ⟨by omega, ?_⟩
  intro later hlater hbefore
  -- no repetition begins before the step ends
  have hsame : (if vibration.repeats then
      (later - vibration.startMs) / vibration.lengthMs else 0) = loops := by
    rw [← hloops]
    split
    · rename_i hrepeats
      rw [if_pos hrepeats] at hloops
      have hpos := h.repeats hrepeats
      rw [hloops]
      refine Nat.div_eq_of_lt_le ?_ ?_
      · omega
      · rw [Nat.add_one_mul]
        omega
    · rfl
  rw [currentStep]
  simp only [helapsed, hsame]
  rw [if_neg hplaying]
  exact hstable _ (by omega) (by omega)

/-! ### One advance -/

/-- The pattern asks for a pulse, and the conditions allow it. -/
def wanted (vibration : Vibration) (state : VibrationState) (nowMs : ℕ) : Bool :=
  (currentStep vibration nowMs).any Prod.fst && state.eligible && state.shown && state.lit &&
    !state.batteryLow && isPresent state nowMs

/-- Nothing else keeps the motor off, but for the length of its pulse. -/
def allowed (vibration : Vibration) (state : VibrationState) (nowMs : ℕ) : Bool :=
  wanted vibration state nowMs && !vibration.pulseCut &&
    !(spendBudget vibration nowMs).budgetEmpty && !gapPending vibration nowMs

/-- The pulse has lasted as long as it may. -/
def overlong (vibration : Vibration) (nowMs : ℕ) : Bool :=
  vibration.vibrating && pulseLimitMs ≤ Word.sub 64 nowMs vibration.pulseMs

theorem switch_cut (hplaying : vibration.playing = true) (gap long : Bool) (nowMs : ℕ) :
    (if !vibration.pulseCut && !vibration.budgetEmpty && !gap && vibration.vibrating && long then
        switch { vibration with pulseCut := true } false nowMs
      else switch vibration (!vibration.pulseCut && !vibration.budgetEmpty && !gap) nowMs) =
      switch
        { vibration with
          playing := true
          pulseCut := vibration.pulseCut ||
            (!vibration.pulseCut && !vibration.budgetEmpty && !gap &&
              (vibration.vibrating && long)) }
        (!vibration.pulseCut && !vibration.budgetEmpty && !gap && !(vibration.vibrating && long))
        nowMs := by
  obtain ⟨playing, repeats, pattern, startMs, lengthMs, vibrating, vibrated, pulseMs, gapMs,
    pulseCut, budget, updatedMs, budgetEmpty⟩ := vibration
  obtain rfl : playing = true := hplaying
  cases pulseCut <;> cases budgetEmpty <;> cases gap <;> cases vibrating <;> cases long <;> rfl

theorem advance_eq (vibration : Vibration) (state : VibrationState) (nowMs : ℕ) :
    (advance vibration state nowMs).2 =
      switch
        { spendBudget vibration nowMs with
          playing := (currentStep vibration nowMs).isSome && state.eligible
          pulseCut := wanted vibration state nowMs &&
            (vibration.pulseCut || (allowed vibration state nowMs && overlong vibration nowMs)) }
        (allowed vibration state nowMs && !overlong vibration nowMs) nowMs := by
  have hsame : currentStep (spendBudget vibration nowMs) nowMs = currentStep vibration nowMs := rfl
  have hgap : ∀ playing cut, gapPending
      { spendBudget vibration nowMs with playing := playing, pulseCut := cut } nowMs =
        gapPending vibration nowMs := fun _ _ => rfl
  rw [advance]
  simp only [hsame]
  cases hstep : currentStep vibration nowMs with
  | none =>
    simp [wanted, allowed, requests, hstep]
  | some step =>
    have hplaying : (spendBudget vibration nowMs).playing = true := playing_of_step hstep
    cases heligible : state.eligible with
    | false =>
      -- the live pattern is dropped
      simp [wanted, allowed, requests, hstep, hplaying, heligible]
    | true =>
      have hrequests : requests (spendBudget vibration nowMs) (some step) state nowMs =
          wanted vibration state nowMs := by
        simp [requests, wanted, hstep, hplaying, heligible]
      simp only [allowed, overlong, hplaying, hrequests, Option.isNone_some, Bool.false_eq_true,
        if_false, Bool.not_true, Bool.and_false, Option.isSome_some, Bool.and_self]
      cases wanted vibration state nowMs with
      | false => simp
      | true =>
        simp only [Bool.not_true, Bool.false_eq_true, if_false, Bool.true_and]
        exact switch_cut hplaying (gapPending vibration nowMs)
          (pulseLimitMs ≤ Word.sub 64 nowMs vibration.pulseMs) nowMs

/-! ### Between calls -/

/-- What holds of the policy since it was last advanced. -/
structure Ready (vibration : Vibration) (nowMs : ℕ) : Prop where
  playable : Playable vibration
  budget_le : vibration.budget ≤ budgetFull
  updated : vibration.updatedMs = nowMs
  now_lt : nowMs < 2 ^ 63
  pulse_le : vibration.pulseMs ≤ nowMs
  gap_le : vibration.gapMs ≤ nowMs
  empty : vibration.budgetEmpty = true → vibration.budget < budgetResume
  live : vibration.vibrating = true → vibration.budgetEmpty = false ∧ 0 < vibration.budget ∧
    nowMs < vibration.pulseMs + pulseLimitMs

theorem ready_init (hnow : nowMs < 2 ^ 63) : Ready (init nowMs) nowMs where
  playable := ⟨rfl, nofun, (by decide : 0 < 2 ^ 62), (by decide : 0 < 2 ^ 63)⟩
  budget_le := le_rfl
  updated := rfl
  now_lt := hnow
  pulse_le := Nat.zero_le _
  gap_le := Nat.zero_le _
  empty := nofun
  live := nofun

theorem sum_le_length (h : ∀ duration ∈ pattern, duration < 2 ^ 32) :
    pattern.sum ≤ pattern.length * 2 ^ 32 := by
  induction pattern with
  | nil => exact Nat.zero_le _
  | cons duration pattern ih =>
    have hfirst := h duration List.mem_cons_self
    have hrest := ih fun other hmem => h other (List.mem_cons_of_mem _ hmem)
    rw [List.sum_cons, List.length_cons]
    omega

theorem ready_play (h : Ready vibration nowMs) (hpattern : ∀ duration ∈ pattern, duration < 2 ^ 32)
    (repeats : Bool) {startMs : ℕ} (hstart : startMs < 2 ^ 63) :
    Ready (play vibration pattern repeats startMs) nowMs := by
  rw [play]
  split
  · exact h
  · rename_i hcount
    have hsum := sum_le_length hpattern
    have hlen : pattern.length ≤ 64 := by
      rw [patternMax] at hcount
      omega
    refine { h with playable := ⟨rfl, ?_, ?_, hstart⟩ }
    · intro hrepeats
      simpa using (Bool.and_eq_true_iff.mp hrepeats).2
    · show pattern.sum < 2 ^ 62
      omega

theorem ready_stop (h : Ready vibration nowMs) : Ready (stop vibration) nowMs :=
  have hplayable := h.playable
  { h with
    playable := ⟨hplayable.length, hplayable.repeats, hplayable.short, hplayable.start_lt⟩ }

theorem spendBudget_spec {lastMs : ℕ} (h : Ready vibration lastMs) (hle : lastMs ≤ nowMs) :
    (spendBudget vibration nowMs).budget =
        (if vibration.vibrating then vibration.budget - (nowMs - lastMs)
        else min budgetFull (vibration.budget + (nowMs - lastMs))) ∧
      (spendBudget vibration nowMs).budgetEmpty =
        (if (spendBudget vibration nowMs).budget = 0 then true
        else if budgetResume ≤ (spendBudget vibration nowMs).budget then false
        else vibration.budgetEmpty) := by
  refine ⟨?_, rfl⟩
  have hbudget := h.budget_le
  have hfull : budgetFull < 2 ^ 64 := by decide
  have helapsed : (if nowMs > vibration.updatedMs then nowMs - vibration.updatedMs else 0) =
      nowMs - lastMs := by
    rw [h.updated]
    split <;> omega
  simp only [spendBudget, helapsed, Word.sub_eq hfull hbudget]
  split <;> split <;> omega

/-! ### What an advance leaves -/

theorem switch_eq (vibration : Vibration) (on : Bool) (nowMs : ℕ) :
    switch vibration on nowMs =
      { vibration with
        vibrating := on
        pulseMs := if on && !vibration.vibrating then nowMs else vibration.pulseMs
        vibrated := vibration.vibrated || (!on && vibration.vibrating)
        gapMs := if !on && vibration.vibrating then nowMs else vibration.gapMs } := by
  obtain ⟨playing, repeats, pattern, startMs, lengthMs, vibrating, vibrated, pulseMs, gapMs,
    pulseCut, budget, updatedMs, budgetEmpty⟩ := vibration
  cases on <;> cases vibrating <;> simp [switch]

/-- The spec of an advance, field by field. -/
structure Advanced (vibration : Vibration) (state : VibrationState) (nowMs : ℕ)
    (vibration' : Vibration) : Prop where
  budget : vibration'.budget = (spendBudget vibration nowMs).budget
  budgetEmpty : vibration'.budgetEmpty = (spendBudget vibration nowMs).budgetEmpty
  updatedMs : vibration'.updatedMs = nowMs
  pattern : vibration'.pattern = vibration.pattern ∧ vibration'.lengthMs = vibration.lengthMs ∧
    vibration'.startMs = vibration.startMs ∧ vibration'.repeats = vibration.repeats
  playing : vibration'.playing = ((currentStep vibration nowMs).isSome && state.eligible)
  vibrating : vibration'.vibrating =
    (allowed vibration state nowMs && !overlong vibration nowMs)
  pulseCut : vibration'.pulseCut = (wanted vibration state nowMs &&
    (vibration.pulseCut || (allowed vibration state nowMs && overlong vibration nowMs)))
  pulseMs : vibration'.pulseMs =
    if vibration'.vibrating && !vibration.vibrating then nowMs else vibration.pulseMs
  vibrated : vibration'.vibrated =
    (vibration.vibrated || (!vibration'.vibrating && vibration.vibrating))
  gapMs : vibration'.gapMs =
    if !vibration'.vibrating && vibration.vibrating then nowMs else vibration.gapMs

theorem advanced (vibration : Vibration) (state : VibrationState) (nowMs : ℕ) :
    Advanced vibration state nowMs (advance vibration state nowMs).2 := by
  rw [advance_eq, switch_eq]
  exact ⟨rfl, rfl, rfl, ⟨rfl, rfl, rfl, rfl⟩, rfl, rfl, rfl, rfl, rfl, rfl⟩

section

variable {vibration vibration' : Vibration} {state : VibrationState} {lastMs nowMs : ℕ}

theorem Advanced.empty_iff (h : Advanced vibration state nowMs vibration')
    (hready : Ready vibration lastMs) (hle : lastMs ≤ nowMs) :
    vibration'.budgetEmpty = (if vibration'.budget = 0 then true
      else if budgetResume ≤ vibration'.budget then false else vibration.budgetEmpty) := by
  rw [h.budgetEmpty, h.budget]
  exact (spendBudget_spec hready hle).2

/-- **An advance keeps the policy ready**, at any later time. -/
theorem Advanced.ready (h : Advanced vibration state nowMs vibration')
    (hready : Ready vibration lastMs) (hle : lastMs ≤ nowMs) (hnow : nowMs < 2 ^ 63) :
    Ready vibration' nowMs := by
  have hempty := h.empty_iff hready hle
  have hbudget := hready.budget_le
  have hpulse := hready.pulse_le
  have hgap := hready.gap_le
  obtain ⟨hpattern, hlength, hstart, hrepeats⟩ := h.pattern
  constructor
  case playable =>
    refine ⟨?_, ?_, ?_, ?_⟩
    · rw [hlength, hpattern]
      exact hready.playable.length
    · rw [hlength, hrepeats]
      exact hready.playable.repeats
    · rw [hlength]
      exact hready.playable.short
    · rw [hstart]
      exact hready.playable.start_lt
  case budget_le =>
    rw [h.budget, (spendBudget_spec hready hle).1]
    split <;> omega
  case updated => exact h.updatedMs
  case now_lt => exact hnow
  case pulse_le =>
    rw [h.pulseMs]
    split <;> omega
  case gap_le =>
    rw [h.gapMs]
    split <;> omega
  case empty =>
    intro hyes
    rw [hempty] at hyes
    have hresume : 0 < budgetResume := by decide
    split at hyes
    · omega
    · split at hyes
      · cases hyes
      · omega
  case live =>
    intro hon
    have hboth := h.vibrating.symm.trans hon
    rw [Bool.and_eq_true, Bool.not_eq_true', allowed] at hboth
    simp only [Bool.and_eq_true, Bool.not_eq_true'] at hboth
    obtain ⟨⟨⟨-, hfull⟩, -⟩, hshort⟩ := hboth
    rw [← h.budgetEmpty] at hfull
    refine ⟨hfull, ?_, ?_⟩
    · by_contra hzero
      rw [hempty, if_pos (by omega)] at hfull
      cases hfull
    · rw [h.pulseMs, hon]
      have hlimit : 0 < pulseLimitMs := by decide
      cases hold : vibration.vibrating with
      | false =>
        rw [if_pos (by decide)]
        omega
      | true =>
        rw [if_neg (by decide)]
        rw [overlong, hold, Bool.true_and, decide_eq_false_iff_not,
          Word.sub_eq (by omega) (by omega)] at hshort
        omega

theorem Advanced.currentStep_eq (h : Advanced vibration state nowMs vibration')
    (hplaying : vibration'.playing = true) (timeMs : ℕ) :
    currentStep vibration' timeMs = currentStep vibration timeMs := by
  have hlive := h.playing.symm.trans hplaying
  rw [Bool.and_eq_true, Option.isSome_iff_exists] at hlive
  obtain ⟨⟨step, hstep⟩, -⟩ := hlive
  obtain ⟨hpattern, hlength, hstart, hrepeats⟩ := h.pattern
  rw [currentStep, currentStep, hplaying, playing_of_step hstep, hpattern, hlength, hstart,
    hrepeats]

theorem currentStep_of_stopped (hplaying : vibration.playing = false) :
    currentStep vibration nowMs = none := by
  rw [currentStep]
  simp [hplaying]

theorem Advanced.wanted_eq (h : Advanced vibration state nowMs vibration') :
    wanted vibration' state nowMs = wanted vibration state nowMs := by
  cases hplaying : vibration'.playing with
  | true => rw [wanted, wanted, h.currentStep_eq hplaying]
  | false =>
    rw [wanted, wanted, currentStep_of_stopped hplaying]
    have hlive := h.playing.symm.trans hplaying
    rw [Bool.and_eq_false_iff] at hlive
    rcases hlive with hnone | hineligible
    · rw [Option.isSome_eq_false_iff, Option.isNone_iff_eq_none] at hnone
      rw [hnone]
    · simp [hineligible]

/-- The motor runs, or something keeps it off until a time of its own. -/
def Settled (vibration : Vibration) (state : VibrationState) (nowMs : ℕ) : Prop :=
  if vibration.vibrating then wanted vibration state nowMs = true ∧ vibration.pulseCut = false
  else wanted vibration state nowMs = false ∨ vibration.pulseCut = true ∨
    vibration.budgetEmpty = true ∨ gapPending vibration nowMs = true

theorem Advanced.settled (h : Advanced vibration state nowMs vibration') :
    Settled vibration' state nowMs := by
  rw [Settled, h.wanted_eq]
  cases hon : vibration'.vibrating with
  | true =>
    have hboth := h.vibrating.symm.trans hon
    rw [Bool.and_eq_true, Bool.not_eq_true', allowed] at hboth
    simp only [Bool.and_eq_true, Bool.not_eq_true'] at hboth
    obtain ⟨⟨⟨⟨hwanted, hcut⟩, -⟩, -⟩, hshort⟩ := hboth
    refine ⟨hwanted, ?_⟩
    rw [h.pulseCut, hcut, hshort]
    simp
  | false =>
    rw [if_neg (by decide)]
    cases hwanted : wanted vibration state nowMs with
    | false => exact .inl rfl
    | true =>
      right
      cases hallowed : allowed vibration state nowMs with
      | true =>
        -- the pulse is cut at this advance
        have hlong := h.vibrating.symm.trans hon
        rw [hallowed, Bool.true_and, Bool.not_eq_false'] at hlong
        left
        rw [h.pulseCut, hwanted, hallowed, hlong]
        simp
      | false =>
        rw [allowed, hwanted, Bool.true_and] at hallowed
        simp only [Bool.and_eq_false_iff, Bool.not_eq_false'] at hallowed
        rcases hallowed with (hcut | hempty) | hgap
        · left
          rw [h.pulseCut, hwanted, hcut]
          rfl
        · exact .inr (.inl (h.budgetEmpty.trans hempty))
        · -- the gap began before, and goes on
          rw [gapPending, decide_eq_true_iff, Bool.not_eq_true'] at hgap
          refine .inr (.inr ?_)
          rw [gapPending, decide_eq_true_iff, hon, h.vibrated, h.gapMs, hgap.1]
          simpa [hon] using hgap.2

/-! ### Before the deadline -/

theorem consider_spec (earliest : ℕ) {timeMs : ℕ} (htime : timeMs ≠ 0) :
    consider earliest timeMs ≠ 0 ∧ consider earliest timeMs ≤ timeMs ∧
      (earliest ≠ 0 → consider earliest timeMs ≤ earliest) := by
  unfold consider
  split <;> omega

theorem foldl_consider {times : List ℕ} (h : ∀ timeMs ∈ times, timeMs ≠ 0) (earliest : ℕ) :
    (earliest ≠ 0 → times.foldl consider earliest ≠ 0 ∧
      times.foldl consider earliest ≤ earliest) ∧
    ∀ timeMs ∈ times, times.foldl consider earliest ≠ 0 ∧
      times.foldl consider earliest ≤ timeMs := by
  induction times generalizing earliest with
  | nil => exact ⟨fun hne => ⟨hne, Nat.le_refl _⟩, by simp⟩
  | cons first times ih =>
    obtain ⟨hne, hle, hold⟩ := consider_spec earliest (h first List.mem_cons_self)
    obtain ⟨hkeep, hrest⟩ := ih (fun other hmem => h other (List.mem_cons_of_mem _ hmem))
      (consider earliest first)
    obtain ⟨hne', hle'⟩ := hkeep hne
    rw [List.foldl_cons]
    refine ⟨fun hearliest => ⟨hne', Nat.le_trans hle' (hold hearliest)⟩, ?_⟩
    intro timeMs hmem
    rcases List.mem_cons.mp hmem with rfl | htail
    · exact ⟨hne', Nat.le_trans hle' hle⟩
    · exact hrest timeMs htail

/-- The times that `fplinux_session_vibration_deadline` considers, in order. -/
def candidates (vibration : Vibration) (state : VibrationState) (nowMs : ℕ) (on : Bool)
    (endMs : ℕ) : List ℕ :=
  [endMs] ++
    (if vibration.vibrating then
      [Word.add 64 vibration.pulseMs pulseLimitMs, Word.add 64 nowMs vibration.budget]
    else []) ++
    (if on && vibration.budgetEmpty then
      [Word.sub 64 (Word.add 64 nowMs budgetResume) vibration.budget]
    else if on && !vibration.pulseCut && gapPending vibration nowMs then
      [Word.add 64 vibration.gapMs gapLimitMs]
    else []) ++
    if isPresent state nowMs then [Word.add 64 state.activityMs presenceMs] else []

theorem deadline_eq {on : Bool} {endMs : ℕ}
    (hstep : currentStep vibration nowMs = some (on, endMs)) :
    deadline vibration state nowMs =
      (candidates vibration state nowMs on endMs).foldl consider 0 := by
  rw [deadline, hstep, candidates]
  simp only [List.foldl_append]
  cases vibration.vibrating <;> cases on && vibration.budgetEmpty <;>
    cases on && !vibration.pulseCut && gapPending vibration nowMs <;>
      cases isPresent state nowMs <;> rfl

/-- The deadline is not after anything that may change the motor. -/
structure Covers (vibration : Vibration) (state : VibrationState) (nowMs deadlineMs : ℕ) :
    Prop where
  ne_zero : deadlineMs ≠ 0
  step : ∀ on endMs, currentStep vibration nowMs = some (on, endMs) → deadlineMs ≤ endMs
  pulse : vibration.vibrating = true → deadlineMs ≤ vibration.pulseMs + pulseLimitMs
  budget : vibration.vibrating = true → deadlineMs ≤ nowMs + vibration.budget
  resume : wanted vibration state nowMs = true → vibration.budgetEmpty = true →
    deadlineMs ≤ nowMs + budgetResume - vibration.budget
  gap : wanted vibration state nowMs = true → vibration.budgetEmpty = false →
    vibration.pulseCut = false → gapPending vibration nowMs = true →
      deadlineMs ≤ vibration.gapMs + gapLimitMs
  present : isPresent state nowMs = true → deadlineMs ≤ state.activityMs + presenceMs

/-- **The deadline is complete** while a pattern plays. -/
theorem covers_deadline (h : Ready vibration nowMs) (hactivity : state.activityMs < 2 ^ 63)
    {step : Bool × ℕ} (hstep : currentStep vibration nowMs = some step) :
    Covers vibration state nowMs (deadline vibration state nowMs) := by
  obtain ⟨on, endMs⟩ := step
  have hend := (currentStep_stable h.playable h.now_lt hstep).1
  have hnow := h.now_lt
  have hpulse := h.pulse_le
  have hgap := h.gap_le
  have hbudget := h.budget_le
  have hlimits : pulseLimitMs = 3000 ∧ gapLimitMs = 100 ∧ presenceMs = 300000 ∧
      budgetFull = 6000 ∧ budgetResume = 2000 := by decide
  have hon : wanted vibration state nowMs = true → on = true := by
    intro hwanted
    simp only [wanted, hstep, Option.any_some, Bool.and_eq_true] at hwanted
    exact hwanted.1.1.1.1.1
  have hpulse_eq : Word.add 64 vibration.pulseMs pulseLimitMs = vibration.pulseMs + pulseLimitMs :=
    Word.add_eq (by omega)
  have hbudget_eq : Word.add 64 nowMs vibration.budget = nowMs + vibration.budget :=
    Word.add_eq (by omega)
  have hgap_eq : Word.add 64 vibration.gapMs gapLimitMs = vibration.gapMs + gapLimitMs :=
    Word.add_eq (by omega)
  have hpresent_eq : Word.add 64 state.activityMs presenceMs = state.activityMs + presenceMs :=
    Word.add_eq (by omega)
  have hresume : vibration.budgetEmpty = true →
      Word.sub 64 (Word.add 64 nowMs budgetResume) vibration.budget =
        nowMs + budgetResume - vibration.budget ∧ vibration.budget < budgetResume := by
    intro hempty
    have hlow := h.empty hempty
    rw [Word.add_eq (by omega)]
    exact ⟨Word.sub_eq (by omega) (by omega), hlow⟩
  have hne : ∀ timeMs ∈ candidates vibration state nowMs on endMs, timeMs ≠ 0 := by
    intro timeMs hmem
    simp only [candidates, List.mem_append] at hmem
    rcases hmem with ((hmem | hmem) | hmem) | hmem
    · rw [List.mem_singleton] at hmem
      omega
    · split at hmem
      · rename_i hvibrating
        have hlive := (h.live hvibrating).2.1
        simp only [List.mem_cons, List.not_mem_nil, or_false, hpulse_eq, hbudget_eq] at hmem
        omega
      · cases hmem
    · split at hmem
      · rename_i hempty
        obtain ⟨heq, hlow⟩ := hresume (Bool.and_eq_true_iff.mp hempty).2
        rw [List.mem_singleton, heq] at hmem
        omega
      · split at hmem
        · rw [List.mem_singleton, hgap_eq] at hmem
          omega
        · cases hmem
    · split at hmem
      · rw [List.mem_singleton, hpresent_eq] at hmem
        omega
      · cases hmem
  have hall := (foldl_consider hne 0).2
  rw [deadline_eq hstep]
  constructor
  case ne_zero => exact (hall endMs (by simp [candidates])).1
  case step =>
    intro on' endMs' hsame
    obtain ⟨-, rfl⟩ := Prod.mk.inj (Option.some.inj (hstep.symm.trans hsame))
    exact (hall endMs (by simp [candidates])).2
  case pulse =>
    intro hvibrating
    rw [← hpulse_eq]
    exact (hall _ (by simp [candidates, hvibrating])).2
  case budget =>
    intro hvibrating
    rw [← hbudget_eq]
    exact (hall _ (by simp [candidates, hvibrating])).2
  case resume =>
    intro hwanted hempty
    rw [← (hresume hempty).1]
    exact (hall _ (by simp [candidates, hon hwanted, hempty])).2
  case gap =>
    intro hwanted hempty hcut hpending
    rw [← hgap_eq]
    exact (hall _ (by simp [candidates, hon hwanted, hempty, hcut, hpending])).2
  case present =>
    intro hpresent
    rw [← hpresent_eq]
    exact (hall _ (by simp [candidates, hpresent])).2

theorem wanted_stable (h : Ready vibration nowMs) {on : Bool} {endMs deadlineMs laterMs : ℕ}
    (hstep : currentStep vibration nowMs = some (on, endMs))
    (hcovers : Covers vibration state nowMs deadlineMs) (hle : nowMs ≤ laterMs)
    (hlater : laterMs < 2 ^ 63) (hbefore : laterMs < deadlineMs) :
    wanted vibration state laterMs = wanted vibration state nowMs := by
  have hnow := h.now_lt
  have hend := hcovers.step on endMs hstep
  have hsame := (currentStep_stable h.playable h.now_lt hstep).2 laterMs hle (by omega)
  have hpresent : isPresent state laterMs = isPresent state nowMs := by
    have hthen : ∀ timeMs < 2 ^ 63, (isPresent state timeMs = true ↔
        timeMs < state.activityMs + presenceMs) := by
      intro timeMs htime
      have hlimit : 0 < presenceMs := by decide
      rw [isPresent, decide_eq_true_iff]
      rcases Nat.lt_or_ge timeMs state.activityMs with hearly | hlate
      · exact ⟨fun _ => by omega, fun _ => .inl hearly⟩
      · rw [Word.sub_eq (by omega) hlate]
        omega
    rw [Bool.eq_iff_iff, hthen laterMs hlater, hthen nowMs hnow]
    constructor
    · intro hlt
      omega
    · intro hlt
      have hdeadline := hcovers.present ((hthen nowMs hnow).mpr hlt)
      omega
  rw [wanted, wanted, hsame, hstep, hpresent]

/-- **Before the deadline nothing changes**: advancing again, under the same conditions,
leaves the motor as it is. -/
theorem advance_stable (h : Ready vibration lastMs) (hnow : lastMs ≤ nowMs)
    (hactivity : state.activityMs < 2 ^ 63) {laterMs : ℕ} (hle : nowMs ≤ laterMs)
    (hlater : laterMs < 2 ^ 63)
    (hbefore : deadline (advance vibration state nowMs).2 state nowMs = 0 ∨
      laterMs < deadline (advance vibration state nowMs).2 state nowMs) :
    (advance (advance vibration state nowMs).2 state laterMs).2.vibrating =
      (advance vibration state nowMs).2.vibrating := by
  have hadvanced := advanced vibration state nowMs
  have hready := hadvanced.ready h hnow (by omega)
  have hsettled := hadvanced.settled
  have hlive : (advance vibration state nowMs).2.playing = true →
      (currentStep (advance vibration state nowMs).2 nowMs).isSome = true := by
    intro hplaying
    rw [hadvanced.currentStep_eq hplaying]
    exact (Bool.and_eq_true_iff.mp (hadvanced.playing.symm.trans hplaying)).1
  generalize (advance vibration state nowMs).2 = vibration' at *
  have hlast := advanced vibration' state laterMs
  rw [hlast.vibrating]
  cases hstep : currentStep vibration' nowMs with
  | none =>
    -- nothing is played, then or later
    have hstopped : vibration'.playing = false := by
      rw [← Bool.not_eq_true]
      intro hplaying
      have hsome := hlive hplaying
      rw [hstep] at hsome
      cases hsome
    have hno : ∀ timeMs, wanted vibration' state timeMs = false := by
      intro timeMs
      rw [wanted, currentStep_of_stopped hstopped]
      simp
    rw [allowed, hno]
    cases hvibrating : vibration'.vibrating with
    | false => simp
    | true =>
      rw [Settled, hvibrating, if_pos rfl, hno] at hsettled
      cases hsettled.1
  | some step =>
    obtain ⟨on, endMs⟩ := step
    have hcovers := covers_deadline hready hactivity hstep
    have hlt := hbefore.resolve_left hcovers.ne_zero
    have hwanted := wanted_stable hready hstep hcovers hle hlater hlt
    obtain ⟨hbudget, hempty⟩ := spendBudget_spec hready hle
    have hpulse := hready.pulse_le
    have hgapMs := hready.gap_le
    cases hvibrating : vibration'.vibrating with
    | true =>
      rw [Settled, hvibrating, if_pos rfl] at hsettled
      obtain ⟨hfull, -, -⟩ := hready.live hvibrating
      have hpulse_lt := hcovers.pulse hvibrating
      have hbudget_lt := hcovers.budget hvibrating
      rw [hvibrating, if_pos rfl] at hbudget
      have hleft : (spendBudget vibration' laterMs).budgetEmpty = false := by
        rw [hempty, if_neg (by omega), hfull]
        split <;> rfl
      have hgap : gapPending vibration' laterMs = false := by
        rw [gapPending, hvibrating]
        simp
      have hshort : overlong vibration' laterMs = false := by
        rw [overlong, hvibrating, Bool.true_and, decide_eq_false_iff_not,
          Word.sub_eq (by omega) (by omega)]
        omega
      rw [allowed, hwanted, hsettled.1, hsettled.2, hleft, hgap, hshort]
      rfl
    | false =>
      rw [Settled, hvibrating, if_neg (by decide)] at hsettled
      rw [allowed, hwanted]
      cases hwants : wanted vibration' state nowMs with
      | false => simp
      | true =>
        cases hcut : vibration'.pulseCut with
        | true => simp
        | false =>
          cases hemptied : vibration'.budgetEmpty with
          | true =>
            -- the budget is not yet refilled
            have hresume := hcovers.resume hwants hemptied
            have hlow := hready.empty hemptied
            rw [hvibrating, if_neg (by decide)] at hbudget
            have hstill : (spendBudget vibration' laterMs).budgetEmpty = true := by
              rw [hempty, hemptied]
              split
              · rfl
              · rw [if_neg (by omega)]
            simp [hstill]
          | false =>
            -- the gap is not yet over
            have hpending : gapPending vibration' nowMs = true := by
              simpa [hwants, hcut, hemptied] using hsettled
            have hgap := hcovers.gap hwants hemptied hcut hpending
            have hstill : gapPending vibration' laterMs = true := by
              rw [gapPending, decide_eq_true_iff] at hpending ⊢
              refine ⟨hpending.1, hpending.2.1, ?_⟩
              rw [Word.sub_eq (by omega) (by omega)]
              have hlimit : 0 < gapLimitMs := by decide
              omega
            simp [hstill]

end

end SessionVibration
