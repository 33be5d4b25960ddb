/-
The motor over a whole run of the vibration policy (`session-vibration.c`).

The session advances the policy no later than the deadline it was told, and at any other
time it likes; patterns are played and stopped in between.  The motor is a signal with
one value for each millisecond: between two advances it has the value of the first.

Main result:
- `duty_of_trace`: how long the motor runs, how long it rests, and its share of the time.
-/
import Fplinux.Lib.Signal
import Fplinux.Session.Vibration

namespace SessionVibration

open Signal (Limits On Off Bucket IsPause onTime offTime)

/-! ### Runs -/

/-- The policy, when it was last advanced, and the deadline it reported then. -/
structure Player where
  vibration : Vibration
  nowMs : ℕ
  deadlineMs : ℕ
  deriving DecidableEq, Repr

inductive Op
  | play (pattern : List ℕ) (repeats : Bool) (startMs : ℕ)
  | stop
  | advance (state : VibrationState) (nowMs : ℕ)

def perform (player : Player) : Op → Player
  | .play pattern repeats startMs =>
    { player with vibration := play player.vibration pattern repeats startMs }
  | .stop => { player with vibration := stop player.vibration }
  | .advance state nowMs =>
    let vibration := (advance player.vibration state nowMs).2
    ⟨vibration, nowMs, deadline vibration state nowMs⟩

def machine : Machine Player Op where
  start player := ∃ nowMs < 2 ^ 63, player = ⟨init nowMs, nowMs, 0⟩
  step player op player' := perform player op = player'

/-- An advance comes no later than the deadline that the last one reported.  Times are
those of a monotonic clock, and durations are `unsigned int`. -/
def InTime (call : Machine.Step Player Op) : Prop :=
  match call.op with
  | .play pattern _ startMs => (∀ duration ∈ pattern, duration < 2 ^ 32) ∧ startMs < 2 ^ 63
  | .stop => True
  | .advance state nowMs =>
    call.before.nowMs ≤ nowMs ∧ nowMs < 2 ^ 63 ∧ state.activityMs < 2 ^ 63 ∧
      (call.before.deadlineMs = 0 ∨ nowMs ≤ call.before.deadlineMs)

/-- The motor runs at this time because of this call. -/
def runsAt (call : Machine.Step Player Op) (timeMs : ℕ) : Bool :=
  match call.op with
  | .advance _ nowMs =>
    call.before.vibration.vibrating && call.before.nowMs ≤ timeMs && timeMs < nowMs
  | _ => false

/-- The motor, at each millisecond until the last advance. -/
def motor (l : List (Machine.Step Player Op)) (timeMs : ℕ) : Bool :=
  l.any fun call => runsAt call timeMs

/-! ### The invariant -/

def limits : Limits := ⟨0, pulseLimitMs, gapLimitMs, by decide⟩

/-- How the motor stands: it runs since its pulse began, or rests since its gap did. -/
def Stands (motor : ℕ → Bool) (player : Player) : Prop :=
  if player.vibration.vibrating then On limits motor player.nowMs player.vibration.pulseMs
  else ∃ since, Off limits motor player.nowMs since ∧
    (player.vibration.vibrated = true → since = player.vibration.gapMs) ∧
    (player.vibration.vibrated = false → ∀ t < player.nowMs, motor t = false)

structure Held (motor : ℕ → Bool) (player : Player) : Prop where
  ready : Ready player.vibration player.nowMs
  covered : ∀ t, motor t = true → t < player.nowMs
  due : player.vibration.vibrating = true → player.deadlineMs ≠ 0 ∧
    player.deadlineMs ≤ player.vibration.pulseMs + pulseLimitMs ∧
    player.deadlineMs ≤ player.nowMs + player.vibration.budget
  stands : Stands motor player
  bucket : Bucket budgetFull motor player.nowMs player.vibration.budget

variable {nowMs : ℕ} {player : Player} {l : List (Machine.Step Player Op)}

theorem held_start (hnow : nowMs < 2 ^ 63) :
    Held (motor []) ⟨init nowMs, nowMs, 0⟩ where
  ready := ready_init hnow
  covered := nofun
  due := nofun
  stands := ⟨nowMs, Signal.off_of_never fun _ _ => rfl, nofun, fun _ _ _ => rfl⟩
  bucket := Signal.bucket_of_never (fun _ _ => rfl) (Nat.le_refl _)

theorem Held.quiet {motor : ℕ → Bool} (h : Held motor player) {vibration : Vibration}
    (hready : Ready vibration player.nowMs)
    (hsame : vibration.vibrating = player.vibration.vibrating ∧
      vibration.vibrated = player.vibration.vibrated ∧
      vibration.pulseMs = player.vibration.pulseMs ∧ vibration.gapMs = player.vibration.gapMs ∧
      vibration.budget = player.vibration.budget) :
    Held motor { player with vibration := vibration } := by
  obtain ⟨hvibrating, hvibrated, hpulse, hgap, hbudget⟩ := hsame
  refine ⟨hready, h.covered, ?_, ?_, ?_⟩
  · simp only [hvibrating, hpulse, hbudget]
    exact h.due
  · have hstands := h.stands
    rw [Stands] at hstands ⊢
    simp only [hvibrating, hvibrated, hpulse, hgap]
    exact hstands
  · simp only [hbudget]
    exact h.bucket

theorem motor_advance (hcovered : ∀ t, motor l t = true → t < player.nowMs) (state : VibrationState)
    (hle : player.nowMs ≤ nowMs) (after : Player) :
    (∀ t < player.nowMs, motor l t = motor (l ++ [⟨player, .advance state nowMs, after⟩]) t) ∧
    (∀ t, player.nowMs ≤ t → t < nowMs →
      motor (l ++ [⟨player, .advance state nowMs, after⟩]) t = player.vibration.vibrating) ∧
    ∀ t, motor (l ++ [⟨player, .advance state nowMs, after⟩]) t = true → t < nowMs := by
  have happend : ∀ t, motor (l ++ [⟨player, .advance state nowMs, after⟩]) t =
      (motor l t || (player.vibration.vibrating && player.nowMs ≤ t && t < nowMs)) := by
    intro t
    rw [motor, List.any_append]
    simp [motor, runsAt]
  refine ⟨?_, ?_, ?_⟩
  · intro t hlt
    rw [happend]
    have hno : ¬ player.nowMs ≤ t := by omega
    simp [hno]
  · intro t hfrom hlt
    have hnone : motor l t = false := by
      rw [← Bool.not_eq_true]
      intro hon
      have hearly := hcovered t hon
      omega
    rw [happend, hnone]
    simp [hfrom, hlt]
  · intro t hon
    rw [happend, Bool.or_eq_true, Bool.and_eq_true, decide_eq_true_iff] at hon
    rcases hon with hold | hnew
    · have hearly := hcovered t hold
      omega
    · exact hnew.2

/-! ### One advance -/

section

variable {vibration vibration' : Vibration} {state : VibrationState} {lastMs nowMs : ℕ}

theorem gap_over (hready : Ready vibration lastMs) (hle : lastMs ≤ nowMs) (hnow : nowMs < 2 ^ 63)
    (h : Advanced vibration state nowMs vibration') (hoff : vibration.vibrating = false)
    (hon : vibration'.vibrating = true) :
    vibration.vibrated = true → vibration.gapMs + gapLimitMs ≤ nowMs := by
  intro hvibrated
  have hgapMs := hready.gap_le
  have hboth := h.vibrating.symm.trans hon
  rw [Bool.and_eq_true, allowed, Bool.and_eq_true, Bool.not_eq_true', gapPending,
    decide_eq_false_iff_not] at hboth
  by_contra hpending
  refine hboth.1.2 ⟨by rw [hoff]; rfl, hvibrated, ?_⟩
  rw [Word.sub_eq (by omega) (by omega)]
  omega

/-- **An advance in time** keeps the limits of the motor. -/
theorem stands_advance {before after : ℕ → Bool} {deadlineMs : ℕ}
    (hready : Ready vibration lastMs) (hstands : Stands before ⟨vibration, lastMs, deadlineMs⟩)
    (hle : lastMs ≤ nowMs) (hnow : nowMs < 2 ^ 63)
    (hdue : vibration.vibrating = true → nowMs ≤ vibration.pulseMs + pulseLimitMs)
    (hsame : ∀ t < lastMs, before t = after t)
    (hkept : ∀ t, lastMs ≤ t → t < nowMs → after t = vibration.vibrating)
    (h : Advanced vibration state nowMs vibration') (deadlineMs' : ℕ) :
    Stands after ⟨vibration', nowMs, deadlineMs'⟩ := by
  have hsplit : lastMs + (nowMs - lastMs) = nowMs := by omega
  have hpulse := h.pulseMs
  have hgap := h.gapMs
  have hvibrated := h.vibrated
  rw [Stands] at hstands ⊢
  simp only at hstands ⊢
  cases hvibrating : vibration.vibrating with
  | true =>
    rw [hvibrating, if_pos rfl] at hstands
    rw [hvibrating] at hkept hpulse hgap hvibrated
    -- the pulse went on until now
    have hpulse_le := hready.pulse_le
    have hon := (hstands.congr hsame).extend (k := nowMs - lastMs)
      (fun t hfrom hlt => hkept t hfrom (by omega)) (by
        have hlimit := hdue hvibrating
        show lastMs + (nowMs - lastMs) - vibration.pulseMs ≤ pulseLimitMs
        omega)
    rw [hsplit] at hon
    cases hvibrating' : vibration'.vibrating with
    | true =>
      rw [hvibrating'] at hpulse
      rw [if_pos rfl, hpulse, if_neg (by decide)]
      exact hon
    | false =>
      rw [hvibrating'] at hgap hvibrated
      rw [if_neg (by decide)]
      refine ⟨nowMs, hon.stop fun _ => Nat.zero_le _, ?_, ?_⟩
      · intro _
        rw [hgap, if_pos (by decide)]
      · intro hno
        rw [hvibrated] at hno
        simp at hno
  | false =>
    rw [hvibrating, if_neg (by decide)] at hstands
    rw [hvibrating] at hkept hpulse hgap hvibrated
    obtain ⟨since, hsince, hmark, hnever⟩ := hstands
    have hoff := (hsince.congr hsame).extend (k := nowMs - lastMs)
      fun t hfrom hlt => hkept t hfrom (by omega)
    rw [hsplit] at hoff
    have hsilent : vibration.vibrated = false → ∀ t < nowMs, after t = false := by
      intro hno t hlt
      rcases Nat.lt_or_ge t lastMs with hold | hnew
      · rw [← hsame t hold]
        exact hnever hno t hold
      · exact hkept t hnew hlt
    cases hvibrating' : vibration'.vibrating with
    | true =>
      rw [hvibrating'] at hpulse
      rw [if_pos rfl, hpulse, if_pos (by decide)]
      refine hoff.start ?_
      cases hran : vibration.vibrated with
      | true =>
        left
        have hover := gap_over hready hle hnow h hvibrating hvibrating' hran
        rw [hmark hran]
        show gapLimitMs ≤ nowMs - vibration.gapMs
        omega
      | false => exact .inr (hsilent hran)
    | false =>
      rw [hvibrating'] at hgap hvibrated
      rw [if_neg (by decide)] at hgap ⊢
      rw [Bool.and_false, Bool.or_false] at hvibrated
      refine ⟨since, hoff, ?_, ?_⟩
      · intro hran
        rw [hgap]
        exact hmark (hvibrated.symm.trans hran)
      · intro hno
        exact hsilent (hvibrated.symm.trans hno)

/-- **An advance in time** keeps the account of the motor. -/
theorem bucket_advance {before after : ℕ → Bool} (hready : Ready vibration lastMs)
    (hbucket : Bucket budgetFull before lastMs vibration.budget) (hle : lastMs ≤ nowMs)
    (hdue : vibration.vibrating = true → nowMs ≤ lastMs + vibration.budget)
    (hsame : ∀ t < lastMs, before t = after t)
    (hkept : ∀ t, lastMs ≤ t → t < nowMs → after t = vibration.vibrating)
    (h : Advanced vibration state nowMs vibration') :
    Bucket budgetFull after nowMs vibration'.budget := by
  have hsplit : lastMs + (nowMs - lastMs) = nowMs := by omega
  have hbudget := (spendBudget_spec hready hle).1
  have hold := hbucket.congr hsame
  rw [h.budget, hbudget]
  cases hvibrating : vibration.vibrating with
  | true =>
    have hlimit := hdue hvibrating
    have hnew := hold.drain (k := nowMs - lastMs) (by omega)
    rw [hsplit] at hnew
    exact hnew
  | false =>
    rw [hvibrating] at hkept
    have hnew := hold.fill (k := nowMs - lastMs) (fun t hfrom hlt => hkept t hfrom (by omega))
      (Nat.min_le_right budgetFull (vibration.budget + (nowMs - lastMs))) (Nat.min_le_left _ _)
    rw [hsplit] at hnew
    exact hnew

end

theorem held_advance (h : Held (motor l) player) {state : VibrationState}
    (hle : player.nowMs ≤ nowMs) (hnow : nowMs < 2 ^ 63) (hactivity : state.activityMs < 2 ^ 63)
    (hdue : player.deadlineMs = 0 ∨ nowMs ≤ player.deadlineMs) (after : Player) :
    Held (motor (l ++ [⟨player, .advance state nowMs, after⟩]))
      (perform player (.advance state nowMs)) := by
  have hadvanced := advanced player.vibration state nowMs
  have hready := hadvanced.ready h.ready hle hnow
  obtain ⟨hsame, hkept, hcovered⟩ := motor_advance h.covered state hle after
  have hlimit : player.vibration.vibrating = true → nowMs ≤ player.deadlineMs := by
    intro hvibrating
    exact hdue.resolve_left (h.due hvibrating).1
  refine ⟨hready, hcovered, ?_, ?_, ?_⟩
  · intro hvibrating
    change (advance player.vibration state nowMs).2.vibrating = true at hvibrating
    have hsettled := hadvanced.settled
    rw [Settled, if_pos hvibrating] at hsettled
    cases hstep : currentStep (advance player.vibration state nowMs).2 nowMs with
    | none =>
      have hwanted := hsettled.1
      rw [wanted, hstep] at hwanted
      simp at hwanted
    | some step =>
      have hcovers := covers_deadline hready hactivity hstep
      exact ⟨hcovers.ne_zero, hcovers.pulse hvibrating, hcovers.budget hvibrating⟩
  · refine stands_advance h.ready h.stands hle hnow ?_ hsame hkept hadvanced _
    intro hvibrating
    have hpulse := (h.due hvibrating).2.1
    exact Nat.le_trans (hlimit hvibrating) hpulse
  · refine bucket_advance h.ready h.bucket hle ?_ hsame hkept hadvanced
    intro hvibrating
    exact Nat.le_trans (hlimit hvibrating) (h.due hvibrating).2.2

/-! ### Whole runs -/

theorem held_of_trace (h : machine.Trace l player) (hintime : ∀ call ∈ l, InTime call) :
    Held (motor l) player := by
  refine h.invariant (P := fun l player => Held (motor l) player) (K := InTime) ?_ ?_ hintime
  · rintro player ⟨nowMs, hnow, rfl⟩
    exact held_start hnow
  · rintro l player op player' hheld rfl hcall
    have hsilent : (∀ t, runsAt ⟨player, op, perform player op⟩ t = false) →
        motor (l ++ [⟨player, op, perform player op⟩]) = motor l := by
      intro hno
      funext t
      rw [motor, List.any_append]
      simp [motor, hno]
    cases op with
    | play pattern repeats startMs =>
      rw [hsilent fun _ => rfl]
      refine hheld.quiet (ready_play hheld.ready hcall.1 repeats hcall.2) ?_
      rw [play]
      split <;> exact ⟨rfl, rfl, rfl, rfl, rfl⟩
    | stop =>
      rw [hsilent fun _ => rfl]
      exact hheld.quiet (ready_stop hheld.ready) ⟨rfl, rfl, rfl, rfl, rfl⟩
    | advance state nowMs =>
      obtain ⟨hle, hnow, hactivity, hdue⟩ := hcall
      exact held_advance hheld hle hnow hactivity hdue _

theorem Stands.paced {motor : ℕ → Bool} (h : Stands motor player) :
    Signal.Paced limits motor player.nowMs := by
  rw [Stands] at h
  split at h
  · exact h.paced
  · obtain ⟨since, hoff, -, -⟩ := h
    exact hoff.paced

/-- **The duty policy**, on every run that advances in time.  The motor never runs for
more than three seconds, rests a tenth of a second between two pulses, and over any
interval of the run is on for at most six seconds more than it is off; the budget keeps
its bounds; and after an advance, another one before the deadline that was reported, with
nothing else changed, leaves the motor as it is. -/
theorem duty_of_trace {l : List (Machine.Step Player Op)} {player : Player}
    (h : machine.Trace l player) (hintime : ∀ call ∈ l, InTime call) :
    (∀ a n, (∀ t, a ≤ t → t < a + n → motor l t = true) → n ≤ pulseLimitMs) ∧
    (∀ a n, IsPause (motor l) a n → gapLimitMs ≤ n) ∧
    (∀ a n, a + n ≤ player.nowMs →
      onTime (motor l) a n ≤ offTime (motor l) a n + 2 * budgetMs) ∧
    player.vibration.budget ≤ 2 * budgetMs ∧
    ∀ state nowMs laterMs, state.activityMs < 2 ^ 63 → player.nowMs ≤ nowMs → nowMs ≤ laterMs →
      laterMs < 2 ^ 63 →
      let after := (advance player.vibration state nowMs).2
      (deadline after state nowMs = 0 ∨ laterMs < deadline after state nowMs) →
        (advance after state laterMs).2.vibrating = after.vibrating := by
  have hheld := held_of_trace h hintime
  have hpaced := hheld.stands.paced
  refine ⟨?_, ?_, hheld.bucket.bounded, hheld.ready.budget_le, ?_⟩
  · intro a n hon
    by_cases hzero : n = 0
    · omega
    · have hlast := hheld.covered (a + n - 1) (hon _ (by omega) (by omega))
      exact hpaced.longest a n (by omega) hon
  · intro a n hpause
    exact hpaced.apart a n (hheld.covered _ hpause.after) hpause
  · intro state nowMs laterMs hactivity hnow hle hlater after hbefore
    exact advance_stable hheld.ready hnow hactivity hle hlater hbefore

/-- One pulse of a fifth of a second. -/
theorem duty_of_trace_pulse :
    ∃ l player, machine.Trace l player ∧ motor l 0 = true ∧ motor l 199 = true ∧
      ∀ a n, (∀ t, a ≤ t → t < a + n → motor l t = true) → n ≤ pulseLimitMs := by
  let state : VibrationState := ⟨true, true, true, false, 0⟩
  let ops : List Op := [.play [0, 200] false 0, .advance state 0, .advance state 200]
  let fresh : Player := ⟨init 0, 0, 0⟩
  have hstart : machine.Trace [] fresh := .start ⟨0, by decide, rfl⟩
  have htrace := hstart.steps ops fun _ _ _ => rfl
  refine ⟨_, _, htrace, by decide, by decide, (duty_of_trace htrace ?_).1⟩
  intro call hmem
  simp only [List.nil_append, Machine.steps, ops, List.mem_cons, List.not_mem_nil, or_false] at hmem
  rcases hmem with rfl | rfl | rfl
  · exact ⟨by decide, (by decide : 0 < 2 ^ 63)⟩
  · exact ⟨Nat.le_refl 0, (by decide : 0 < 2 ^ 63), (by decide : 0 < 2 ^ 63), .inl rfl⟩
  · exact ⟨Nat.zero_le 200, (by decide : 200 < 2 ^ 63), (by decide : 0 < 2 ^ 63),
      .inr (by decide +kernel)⟩

end SessionVibration
