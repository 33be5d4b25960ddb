/-
The session's power timers are transparent.

Five timers (unlock window, help notice, dimming, display off, auto-lock) are
applied by `advance` and announced a second time by `deadline`.  In every
state reachable at time `t`, for times `t ≤ t₁ ≤ t₂`:

* `advance_advance` — a wakeup at `t₁` cannot be seen at `t₂`;
* `advance_ne_iff` — `advance` changes the state exactly when the deadline is
  set and has come;
* `perform_wakeups` — any number of wakeups before a call changes neither its
  answer nor the state it leaves.

The invariant is `Timely`: the recorded times lie in the past and nothing
wraps around.  Under it `advance` has three forms, one for a dark display
(`advance_off`), one for a display that turns off now (`advance_turnOff`) and
one for a display that stays lit (`advance_lit`); everything is read off these.
-/
import Mathlib.Order.Basic
import Fplinux.Session.Power

namespace Power

/-- The values the settings file can hold: a nonzero screen timeout, and an
auto-lock timeout that is off or not negative. -/
def TimeoutsOk (screenOffSeconds : ℕ) (autoLockSeconds : ℤ) : Prop :=
  0 < screenOffSeconds ∧ screenOffSeconds < 2 ^ 32 ∧
    autoLockOff ≤ autoLockSeconds ∧ autoLockSeconds < 2 ^ 31

/-- What the callers promise of a call made at `nowMs` after one at `lastMs`. -/
def Admissible (call : Call) (lastMs nowMs : ℕ) : Prop :=
  lastMs ≤ nowMs ∧ nowMs < 2 ^ 63 ∧
    match call with
    | .configure screenOff autoLock => TimeoutsOk screenOff autoLock
    | _ => True

/-- States of the power policy with the time of the last call.  Losing a key
source takes no time. -/
inductive ReachableAt : State → ℕ → Prop
  | init {screenOff : ℕ} {autoLock : ℤ} {nowMs : ℕ} : TimeoutsOk screenOff autoLock →
      nowMs < 2 ^ 63 → ReachableAt (init screenOff autoLock nowMs) nowMs
  | call {power : State} {lastMs nowMs : ℕ} {call : Call} : ReachableAt power lastMs →
      Admissible call lastMs nowMs → ReachableAt (perform power call nowMs).2 nowMs
  | cancelSource {power : State} {lastMs : ℕ} {source : KeySource} : ReachableAt power lastMs →
      ReachableAt (cancelSource power source) lastMs

/-- Recorded times lie in the past, and no sum of a time and a timeout wraps. -/
structure Timely (power : State) (t : ℕ) : Prop where
  timeouts : TimeoutsOk power.screenOffSeconds power.autoLockSeconds
  activity_le : power.activityMs ≤ t
  unlock_le : power.unlockArmed = true → power.unlockMs ≤ t
  notice_pos : power.notice = .unlockHelp → 0 < power.noticeUntilMs
  off_pos : power.display = .off → power.locked = false → 0 < power.offMs
  off_le : power.display = .off → power.locked = false → power.offMs ≤ t
  now_lt : t < 2 ^ 63

namespace Timely

variable {power : State} {t : ℕ}

theorem mono (h : Timely power t) {t' : ℕ} (ht : t ≤ t') (hlt : t' < 2 ^ 63) :
    Timely power t' where
  timeouts := h.timeouts
  activity_le := h.activity_le.trans ht
  unlock_le := fun ha => (h.unlock_le ha).trans ht
  notice_pos := h.notice_pos
  off_pos := h.off_pos
  off_le := fun hd hl => (h.off_le hd hl).trans ht
  now_lt := hlt

theorem offAt_eq (h : Timely power t) :
    offAt power = power.activityMs + offTimeoutMs power := by
  obtain ⟨-, hlt, -, -⟩ := h.timeouts
  have hact := h.activity_le
  have hnow := h.now_lt
  refine Word.add_eq ?_
  rw [offTimeoutMs, lockedOffMs]
  split
  · omega
  · omega

theorem offAt_pos (h : Timely power t) : 0 < offAt power := by
  obtain ⟨hpos, -, -, -⟩ := h.timeouts
  rw [h.offAt_eq, offTimeoutMs, lockedOffMs]
  split
  · omega
  · omega

theorem dimAt_bounds (h : Timely power t) (hl : power.locked = false) :
    0 < dimAt power ∧ dimAt power ≤ offAt power := by
  obtain ⟨hpos, hlt, -, -⟩ := h.timeouts
  have hact := h.activity_le
  have hnow := h.now_lt
  have hoff := h.offAt_eq
  rw [offTimeoutMs, if_neg (by simp [hl])] at hoff
  have hlead : dimLeadMs power ≤ power.screenOffSeconds / 5 * 1000 := by
    rw [dimLeadMs]
    split
    · omega
    · omega
  rw [dimAt, Word.sub_eq (by omega) (by omega)]
  omega

theorem autoLockMs_pos (h : Timely power t) (hd : power.display = .off)
    (hauto : hasAutoLock power = true) :
    0 < autoLockMs power := by
  obtain ⟨-, -, hge, hlt⟩ := h.timeouts
  simp only [hasAutoLock, autoLockOff, Bool.and_eq_true, Bool.not_eq_true', bne_iff_ne,
    ne_eq] at hauto
  obtain ⟨hl, hne⟩ := hauto
  have hpos := h.off_pos hd hl
  have hle := h.off_le hd hl
  have hnow := h.now_lt
  rw [autoLockOff] at hge
  have hmod : (power.autoLockSeconds * 1000) % 2 ^ 64 = power.autoLockSeconds * 1000 :=
    Int.emod_eq_of_lt (by omega) (by omega)
  rw [autoLockMs, hmod, Word.add_eq (by omega)]
  omega

theorem unlockWindow_iff (h : Timely power t) (ha : power.unlockArmed = true) {t' : ℕ}
    (ht : t ≤ t') (hlt : t' < 2 ^ 63) :
    Word.sub 64 t' power.unlockMs ≥ unlockWindowMs ↔
      Word.add 64 power.unlockMs unlockWindowMs ≤ t' := by
  have hle := h.unlock_le ha
  rw [Word.sub_eq (by omega) (by omega), Word.add_eq (by rw [unlockWindowMs]; omega)]
  omega

end Timely

/-! ### The three forms of `advance` -/

/-- The display timer runs. -/
def Idles (power : State) : Prop :=
  power.display ≠ .off ∧ (power.locked = true ∨ power.keepScreenOn = false)

/-- The first two timers, which only take back a notice. -/
def expireHints (power : State) (t : ℕ) : State := expireNotice (expireUnlock power t) t

theorem expireHints_eq (power : State) (t : ℕ) : ∃ armed notice,
    expireHints power t = { power with unlockArmed := armed, notice := notice } := by
  rw [expireHints, expireUnlock]
  split
  · rw [expireNotice]
    split
    · exact ⟨_, _, rfl⟩
    · exact ⟨_, _, rfl⟩
  · rw [expireNotice]
    split
    · exact ⟨_, _, rfl⟩
    · exact ⟨_, _, rfl⟩

section Hints

variable (power : State) (t : ℕ)

@[simp] theorem expireHints_display : (expireHints power t).display = power.display := by
  obtain ⟨armed, notice, heq⟩ := expireHints_eq power t
  rw [heq]

@[simp] theorem expireHints_locked : (expireHints power t).locked = power.locked := by
  obtain ⟨armed, notice, heq⟩ := expireHints_eq power t
  rw [heq]

@[simp] theorem expireHints_keepScreenOn :
    (expireHints power t).keepScreenOn = power.keepScreenOn := by
  obtain ⟨armed, notice, heq⟩ := expireHints_eq power t
  rw [heq]

@[simp] theorem offAt_expireHints : offAt (expireHints power t) = offAt power := by
  obtain ⟨armed, notice, heq⟩ := expireHints_eq power t
  rw [heq]; rfl

@[simp] theorem dimAt_expireHints : dimAt (expireHints power t) = dimAt power := by
  obtain ⟨armed, notice, heq⟩ := expireHints_eq power t
  rw [heq]; rfl

@[simp] theorem turnOff_expireHints (at' : ℕ) :
    turnOff (expireHints power t) at' = turnOff power at' := by
  obtain ⟨armed, notice, heq⟩ := expireHints_eq power t
  rw [heq]; rfl

end Hints

theorem advance_eq (power : State) (t : ℕ) :
    advance power t = expireLock (expireDisplay (expireHints power t) t) t := rfl

variable {power : State} {t nowMs : ℕ}

theorem advance_off (hd : power.display = .off) (t : ℕ) :
    advance power t = expireLock (expireHints power t) t := by
  rw [advance_eq, expireDisplay, if_neg (by simp [hd])]

theorem advance_turnOff (hi : Idles power) (ht : offAt power ≤ t) :
    advance power t = expireLock (turnOff power (offAt power)) t := by
  rw [advance_eq, expireDisplay, if_pos (by simpa [Idles] using hi), offAt_expireHints,
    if_pos ht, turnOff_expireHints]

/-- The state with its display dimmed. -/
def dimmed (power : State) : State := { power with display := .dim }

theorem expireHints_dimmed (power : State) (t : ℕ) :
    expireHints (dimmed power) t = dimmed (expireHints power t) := by
  have hunlock : expireUnlock (dimmed power) t = dimmed (expireUnlock power t) := by
    simp only [expireUnlock, apply_ite dimmed]
    rfl
  have hnotice : ∀ q : State, expireNotice (dimmed q) t = dimmed (expireNotice q t) := by
    intro q
    simp only [expireNotice, apply_ite dimmed]
    rfl
  rw [expireHints, hunlock, hnotice, expireHints]

/-- Whether a display that stays lit dims. -/
def Dims (power : State) (t : ℕ) : Prop :=
  Idles power ∧ power.locked = false ∧ power.display = .on ∧ dimAt power ≤ t

theorem advance_dim (hdim : Dims power t) (ht : t < offAt power) :
    advance power t = dimmed (expireHints power t) := by
  obtain ⟨hi, hl, hon, hat⟩ := hdim
  rw [advance_eq, expireDisplay, if_pos (by simpa [Idles] using hi), offAt_expireHints,
    if_neg (Nat.not_le.mpr ht), if_pos (by simp [hl, hon, hat]), expireLock, if_neg (by simp)]
  rfl

theorem advance_lit (hd : power.display ≠ .off) (hoff : Idles power → t < offAt power)
    (hdim : ¬ Dims power t) :
    advance power t = expireHints power t := by
  have hdisplay : expireDisplay (expireHints power t) t = expireHints power t := by
    rw [expireDisplay]
    split
    · rename_i hi
      have hi' : Idles power := by simpa [Idles] using hi
      rw [offAt_expireHints, if_neg (Nat.not_le.mpr (hoff hi')), if_neg]
      rintro ⟨hl, hon, hat⟩
      exact hdim ⟨hi', by simpa using hl, by simpa using hon, by simpa using hat⟩
    · rfl
  rw [advance_eq, hdisplay, expireLock, if_neg (by simp [hd])]

/-! ### Hints and auto-lock over time -/

section Twice

variable {power : State} {t t₁ t₂ : ℕ}

theorem expireUnlock_twice (h : Timely power t) (ht : t ≤ t₁) (h12 : t₁ ≤ t₂)
    (hlt : t₂ < 2 ^ 63) :
    expireUnlock (expireUnlock power t₁) t₂ = expireUnlock power t₂ := by
  by_cases ha : power.unlockArmed = true
  · have hw₁ := h.unlockWindow_iff ha ht (by omega)
    have hw₂ := h.unlockWindow_iff ha (ht.trans h12) hlt
    by_cases hexp : Word.sub 64 t₁ power.unlockMs ≥ unlockWindowMs
    · have hexp₂ : Word.sub 64 t₂ power.unlockMs ≥ unlockWindowMs :=
        hw₂.mpr ((hw₁.mp hexp).trans h12)
      rw [show expireUnlock power t₁ = clearUnlock power from if_pos ⟨ha, hexp⟩,
        show expireUnlock power t₂ = clearUnlock power from if_pos ⟨ha, hexp₂⟩, expireUnlock,
        if_neg (by simp [clearUnlock])]
    · rw [show expireUnlock power t₁ = power from if_neg fun hc => hexp hc.2]
  · rw [show expireUnlock power t₁ = power from if_neg fun hc => ha hc.1]

theorem expireNotice_twice (h12 : t₁ ≤ t₂) :
    expireNotice (expireNotice power t₁) t₂ = expireNotice power t₂ := by
  by_cases hexp : power.notice = .unlockHelp ∧ t₁ ≥ power.noticeUntilMs
  · have hexp₂ : power.notice = .unlockHelp ∧ t₂ ≥ power.noticeUntilMs :=
      ⟨hexp.1, hexp.2.trans h12⟩
    rw [show expireNotice power t₁ = { power with notice := .none } from if_pos hexp,
      show expireNotice power t₂ = { power with notice := .none } from if_pos hexp₂,
      expireNotice, if_neg (by simp)]
  · rw [show expireNotice power t₁ = power from if_neg hexp]

theorem expireNotice_expireUnlock (power : State) (t₁ t₂ : ℕ) :
    expireUnlock (expireNotice power t₁) t₂ = expireNotice (expireUnlock power t₂) t₁ := by
  by_cases ha : power.unlockArmed = true ∧ Word.sub 64 t₂ power.unlockMs ≥ unlockWindowMs
  · by_cases hn : power.notice = .unlockHelp ∧ t₁ ≥ power.noticeUntilMs
    · rw [expireNotice, if_pos hn, expireUnlock, if_pos ha, expireUnlock, if_pos ha]
      rfl
    · rw [expireNotice, if_neg hn, expireUnlock, if_pos ha, expireNotice, if_neg]
      simp [clearUnlock]
  · by_cases hn : power.notice = .unlockHelp ∧ t₁ ≥ power.noticeUntilMs
    · rw [expireNotice, if_pos hn, expireUnlock, if_neg ha, expireUnlock, if_neg ha,
        expireNotice, if_pos hn]
    · rw [expireNotice, if_neg hn, expireUnlock, if_neg ha, expireNotice, if_neg hn]

theorem expireHints_twice (h : Timely power t) (ht : t ≤ t₁) (h12 : t₁ ≤ t₂)
    (hlt : t₂ < 2 ^ 63) :
    expireHints (expireHints power t₁) t₂ = expireHints power t₂ := by
  rw [expireHints, expireHints, expireNotice_expireUnlock, expireUnlock_twice h ht h12 hlt,
    expireNotice_twice h12, expireHints]

theorem expireHints_clear (ha : power.unlockArmed = false) (hn : power.notice = .none) (t : ℕ) :
    expireHints power t = power := by
  rw [expireHints, show expireUnlock power t = power from if_neg (by simp [ha]), expireNotice,
    if_neg (by simp [hn])]

end Twice

@[simp] theorem lock_expireHints (power : State) (t : ℕ) :
    lock (expireHints power t) = lock power := by
  obtain ⟨armed, notice, heq⟩ := expireHints_eq power t
  rw [heq]; rfl

/-- Whether a dark display locks the phone. -/
def Locks (power : State) (t : ℕ) : Prop :=
  power.display = .off ∧ hasAutoLock power = true ∧ autoLockMs power ≤ t

theorem locks_expireHints (power : State) (t t' : ℕ) :
    Locks (expireHints power t) t' ↔ Locks power t' := by
  obtain ⟨armed, notice, heq⟩ := expireHints_eq power t
  rw [heq]; rfl

theorem expireLock_pos (h : Locks power t) : expireLock power t = lock power := if_pos h

theorem expireLock_neg (h : ¬ Locks power t) : expireLock power t = power := if_neg h

@[simp] theorem expireLock_display (power : State) (t : ℕ) :
    (expireLock power t).display = power.display := by
  rw [expireLock]; split <;> rfl

theorem idles_expireHints (power : State) (t : ℕ) :
    Idles (expireHints power t) ↔ Idles power := by
  simp [Idles]

theorem dims_expireHints (power : State) (t t' : ℕ) :
    Dims (expireHints power t) t' ↔ Dims power t' := by
  simp [Dims, idles_expireHints]

section Transparent

variable {power : State} {t t₁ t₂ : ℕ}

theorem advance_advance_off (h : Timely power t) (ht : t ≤ t₁) (h12 : t₁ ≤ t₂)
    (hlt : t₂ < 2 ^ 63) (hd : power.display = .off) :
    advance (advance power t₁) t₂ = advance power t₂ := by
  have hd₁ : (advance power t₁).display = .off := by
    rw [advance_off hd, expireLock_display, expireHints_display, hd]
  rw [advance_off hd₁, advance_off hd, advance_off hd]
  by_cases hlock : Locks power t₁
  · have hlock₂ : Locks power t₂ := ⟨hd, hlock.2.1, hlock.2.2.trans h12⟩
    rw [expireLock_pos ((locks_expireHints _ _ _).mpr hlock),
      expireLock_pos ((locks_expireHints _ _ _).mpr hlock₂), lock_expireHints, lock_expireHints,
      expireHints_clear rfl rfl, expireLock_neg]
    rintro ⟨-, hauto, -⟩
    simp [hasAutoLock, lock, clearUnlock] at hauto
  · rw [expireLock_neg fun hc => hlock ((locks_expireHints _ _ _).mp hc),
      expireHints_twice h ht h12 hlt]

theorem advance_advance_turnOff (hi : Idles power) (h12 : t₁ ≤ t₂) (hoff : offAt power ≤ t₂) :
    advance (advance power t₁) t₂ = advance power t₂ := by
  rw [advance_turnOff hi hoff]
  by_cases hoff₁ : offAt power ≤ t₁
  · -- Already off at `t₁`, with the same back-dated time.
    rw [advance_turnOff hi hoff₁, advance_off (by simp [turnOff, clearUnlock])]
    by_cases hlock : Locks (turnOff power (offAt power)) t₁
    · have hlock₂ : Locks (turnOff power (offAt power)) t₂ :=
        ⟨hlock.1, hlock.2.1, hlock.2.2.trans h12⟩
      rw [expireLock_pos hlock, expireLock_pos hlock₂, expireHints_clear rfl rfl, expireLock_neg]
      rintro ⟨-, hauto, -⟩
      simp [hasAutoLock, lock, clearUnlock] at hauto
    · rw [expireLock_neg hlock, expireHints_clear rfl rfl]
  · -- Still lit at `t₁`: at most the hints and the dimming differ.
    by_cases hdim : Dims power t₁
    · have hi' : Idles (dimmed (expireHints power t₁)) := by
        refine ⟨by simp [dimmed], ?_⟩
        simpa [dimmed] using hi.2
      have hat : offAt (dimmed (expireHints power t₁)) = offAt power :=
        offAt_expireHints power t₁
      rw [advance_dim hdim (by omega), advance_turnOff hi' (by omega), hat,
        show turnOff (dimmed (expireHints power t₁)) (offAt power)
            = turnOff (expireHints power t₁) (offAt power) from rfl, turnOff_expireHints]
    · rw [advance_lit hi.1 (fun _ => by omega) hdim,
        advance_turnOff ((idles_expireHints _ _).mpr hi) (by simpa using hoff),
        offAt_expireHints, turnOff_expireHints]

theorem advance_advance_lit (h : Timely power t) (ht : t ≤ t₁) (h12 : t₁ ≤ t₂)
    (hlt : t₂ < 2 ^ 63) (hd : power.display ≠ .off) (hoff : Idles power → t₂ < offAt power) :
    advance (advance power t₁) t₂ = advance power t₂ := by
  have hoff₁ : Idles power → t₁ < offAt power := fun hi => h12.trans_lt (hoff hi)
  by_cases hdim : Dims power t₁
  · have hdim₂ : Dims power t₂ := ⟨hdim.1, hdim.2.1, hdim.2.2.1, hdim.2.2.2.trans h12⟩
    have hat : offAt (dimmed (expireHints power t₁)) = offAt power := offAt_expireHints power t₁
    rw [advance_dim hdim (hoff₁ hdim.1), advance_dim hdim₂ (hoff hdim.1),
      advance_lit (by simp [dimmed]) (fun _ => by rw [hat]; exact hoff hdim.1)
        (fun hc => by simp [Dims, dimmed] at hc),
      expireHints_dimmed, expireHints_twice h ht h12 hlt]
  · rw [advance_lit hd hoff₁ hdim]
    by_cases hdim₂ : Dims power t₂
    · rw [advance_dim ((dims_expireHints _ _ _).mpr hdim₂) (by simpa using hoff hdim₂.1),
        advance_dim hdim₂ (hoff hdim₂.1), expireHints_twice h ht h12 hlt]
    · rw [advance_lit (by simpa using hd)
          (fun hi => by simpa using hoff ((idles_expireHints _ _).mp hi))
          (fun hc => hdim₂ ((dims_expireHints _ _ _).mp hc)),
        advance_lit hd hoff hdim₂, expireHints_twice h ht h12 hlt]

theorem advance_advance (h : Timely power t) (ht : t ≤ t₁) (h12 : t₁ ≤ t₂)
    (hlt : t₂ < 2 ^ 63) : advance (advance power t₁) t₂ = advance power t₂ := by
  by_cases hd : power.display = .off
  · exact advance_advance_off h ht h12 hlt hd
  · by_cases hoff : Idles power ∧ offAt power ≤ t₂
    · exact advance_advance_turnOff hoff.1 h12 hoff.2
    · exact advance_advance_lit h ht h12 hlt hd fun hi => by
        by_contra hc
        exact hoff ⟨hi, by omega⟩

end Transparent

/-! ### The deadline -/

/-- A deadline that is set and has come. -/
def Due (earliest t : ℕ) : Prop := earliest ≠ 0 ∧ earliest ≤ t

theorem due_consider {earliest timeMs : ℕ} (hpos : 0 < timeMs) :
    Due (consider earliest timeMs) t ↔ Due earliest t ∨ timeMs ≤ t := by
  rw [consider, Due, Due]
  split
  · omega
  · omega

/-- The time at which the display timer acts next. -/
def displayAt (power : State) : ℕ :=
  if power.locked = false ∧ power.display = .on then dimAt power else offAt power

/-- **What the deadline announces**: one of the four pending timers has come. -/
theorem due_deadline_iff (h : Timely power t) :
    Due (deadline power) t ↔
      (power.unlockArmed = true ∧ Word.add 64 power.unlockMs unlockWindowMs ≤ t) ∨
      (power.notice = .unlockHelp ∧ power.noticeUntilMs ≤ t) ∨
      (Idles power ∧ displayAt power ≤ t) ∨ Locks power t := by
  have hnow := h.now_lt
  have hunlock : power.unlockArmed = true → 0 < Word.add 64 power.unlockMs unlockWindowMs := by
    intro ha
    have hle := h.unlock_le ha
    rw [Word.add_eq (by rw [unlockWindowMs]; omega), unlockWindowMs]
    omega
  have hdisplay : 0 < displayAt power := by
    rw [displayAt]
    split
    · rename_i hl
      exact (h.dimAt_bounds hl.1).1
    · exact h.offAt_pos
  have hhelp : ∀ earliest, Due (if power.notice = .unlockHelp then
      consider earliest power.noticeUntilMs else earliest) t ↔
      Due earliest t ∨ (power.notice = .unlockHelp ∧ power.noticeUntilMs ≤ t) := by
    intro earliest
    by_cases hn : power.notice = .unlockHelp
    · simp [hn, due_consider (h.notice_pos hn)]
    · simp [hn]
  have hstage : ∀ earliest, Due (if power.display ≠ .off ∧ (power.locked ∨ !power.keepScreenOn) then
        if !power.locked ∧ power.display = .on then consider earliest (dimAt power)
        else consider earliest (offAt power)
      else earliest) t ↔ Due earliest t ∨ (Idles power ∧ displayAt power ≤ t) := by
    intro earliest
    by_cases hi : Idles power
    · rw [if_pos (by simpa [Idles] using hi), ← apply_ite (consider earliest),
        show (if (!power.locked) = true ∧ power.display = .on then dimAt power else offAt power)
          = displayAt power by simp [displayAt], due_consider hdisplay]
      simp [hi]
    · rw [if_neg (by simpa [Idles] using hi)]
      simp [hi]
  have hlock : ∀ earliest, Due (if power.display = .off ∧ hasAutoLock power then
      consider earliest (autoLockMs power) else earliest) t ↔ Due earliest t ∨ Locks power t := by
    intro earliest
    by_cases hd : power.display = .off ∧ hasAutoLock power = true
    · simp [hd, due_consider (h.autoLockMs_pos hd.1 hd.2), Locks]
    · rw [if_neg hd]
      constructor
      · exact Or.inl
      · rintro (hdue | hlocks)
        · exact hdue
        · exact absurd ⟨hlocks.1, hlocks.2.1⟩ hd
  have harmed : Due (if power.unlockArmed = true then
      consider 0 (Word.add 64 power.unlockMs unlockWindowMs) else 0) t ↔
      power.unlockArmed = true ∧ Word.add 64 power.unlockMs unlockWindowMs ≤ t := by
    by_cases ha : power.unlockArmed = true
    · simp only [ha, if_true, true_and]
      rw [due_consider (hunlock ha)]
      simp [Due]
    · simp [ha, Due]
  rw [deadline, hlock, hstage, hhelp, harmed, or_assoc, or_assoc]

/-! ### Changes -/

theorem advance_of_not_due (h : Timely power t) (hdue : ¬ Due (deadline power) t) :
    advance power t = power := by
  rw [due_deadline_iff h] at hdue
  simp only [not_or, not_and, not_le] at hdue
  obtain ⟨hunlock, hhelp, hdisplay, hlocks⟩ := hdue
  have hhints : expireHints power t = power := by
    rw [expireHints, show expireUnlock power t = power from if_neg ?_, expireNotice, if_neg]
    · rintro ⟨hn, hle⟩
      exact absurd hle (Nat.not_le.mpr (hhelp hn))
    · rintro ⟨ha, hw⟩
      exact absurd ((h.unlockWindow_iff ha le_rfl h.now_lt).mp hw) (Nat.not_le.mpr (hunlock ha))
  by_cases hd : power.display = .off
  · rw [advance_off hd, hhints, expireLock_neg hlocks]
  · rw [advance_lit hd ?_ ?_, hhints]
    · intro hi
      have hat := hdisplay hi
      rw [displayAt] at hat
      split at hat
      · rename_i hl
        exact lt_of_lt_of_le hat (h.dimAt_bounds hl.1).2
      · exact hat
    · rintro ⟨hi, hl, hon, hat⟩
      have hlt := hdisplay hi
      rw [displayAt, if_pos ⟨hl, hon⟩] at hlt
      omega

theorem advance_hints (power : State) (t : ℕ) :
    ((advance power t).unlockArmed = (expireHints power t).unlockArmed ∧
      (advance power t).notice = (expireHints power t).notice) ∨
    ((advance power t).unlockArmed = false ∧ (advance power t).notice = .none) := by
  have hdisplay : ∀ q : State,
      ((expireDisplay q t).unlockArmed = q.unlockArmed ∧ (expireDisplay q t).notice = q.notice) ∨
      ((expireDisplay q t).unlockArmed = false ∧ (expireDisplay q t).notice = .none) := by
    intro q
    rw [expireDisplay]
    split
    · split
      · exact Or.inr ⟨rfl, rfl⟩
      · split
        · exact Or.inl ⟨rfl, rfl⟩
        · exact Or.inl ⟨rfl, rfl⟩
    · exact Or.inl ⟨rfl, rfl⟩
  rw [advance_eq, expireLock]
  split
  · exact Or.inr ⟨rfl, rfl⟩
  · exact hdisplay _

theorem expireHints_unlockArmed (power : State) (t : ℕ) :
    (expireHints power t).unlockArmed = (expireUnlock power t).unlockArmed := by
  rw [expireHints, expireNotice]
  split
  · rfl
  · rfl

theorem advance_ne_of_due (h : Timely power t) (hdue : Due (deadline power) t) :
    advance power t ≠ power := by
  intro heq
  have hhints := advance_hints power t
  rw [heq] at hhints
  rcases (due_deadline_iff h).mp hdue with ⟨ha, hat⟩ | ⟨hn, hat⟩ | ⟨hi, hat⟩ | hlocks
  · have hexpired : (expireHints power t).unlockArmed = false := by
      rw [expireHints_unlockArmed, expireUnlock,
        if_pos ⟨ha, (h.unlockWindow_iff ha le_rfl h.now_lt).mpr hat⟩]
      rfl
    rcases hhints with ⟨harmed, -⟩ | ⟨harmed, -⟩
    · simp [ha, hexpired] at harmed
    · simp [ha] at harmed
  · have hexpired : (expireHints power t).notice ≠ .unlockHelp := by
      rw [expireHints, expireNotice]
      split
      · simp
      · rename_i hc
        intro hn'
        refine hc ⟨hn', ?_⟩
        rw [expireUnlock]
        split
        · exact hat
        · exact hat
    rcases hhints with ⟨-, hnotice⟩ | ⟨-, hnotice⟩
    · exact hexpired (by rw [← hnotice, hn])
    · simp [hn] at hnotice
  · -- The display timer either dims or turns off, and both change the display.
    by_cases hoff : offAt power ≤ t
    · have hdark : (advance power t).display = .off := by
        rw [advance_turnOff hi hoff, expireLock_display]
        rfl
      exact hi.1 (by rw [← hdark, heq])
    · rw [displayAt] at hat
      split at hat
      · rename_i hl
        have hdim := congrArg State.display (advance_dim ⟨hi, hl.1, hl.2, hat⟩ (by omega))
        rw [heq, hl.2] at hdim
        simp [dimmed] at hdim
      · exact hoff hat
  · have hlocked : (advance power t).locked = true := by
      rw [advance_off hlocks.1, expireLock_pos ((locks_expireHints _ _ _).mpr hlocks)]
      rfl
    rw [heq] at hlocked
    have hauto := hlocks.2.1
    simp [hasAutoLock, hlocked] at hauto

theorem advance_ne_iff (h : Timely power t) : advance power t ≠ power ↔ Due (deadline power) t := by
  constructor
  · intro hne
    by_contra hdue
    exact hne (advance_of_not_due h hdue)
  · exact advance_ne_of_due h

/-! ### Every call keeps `Timely` -/

section Preserve

variable {power : State} {t : ℕ}

theorem Timely.clearUnlock (h : Timely power t) : Timely (clearUnlock power) t :=
  { h with
    unlock_le := fun ha => absurd ha (by simp [Power.clearUnlock])
    notice_pos := fun hn => absurd hn (by simp [Power.clearUnlock]) }

theorem Timely.turnOff (h : Timely power t) {at' : ℕ}
    (hat : power.locked = false → 0 < at' ∧ at' ≤ t) : Timely (turnOff power at') t :=
  Timely.clearUnlock
    { h with
      off_pos := fun _ hl => (hat hl).1
      off_le := fun _ hl => (hat hl).2 }

theorem Timely.lock (h : Timely power t) : Timely (lock power) t :=
  Timely.clearUnlock
    { h with
      off_pos := fun _ hl => absurd hl (by simp)
      off_le := fun _ hl => absurd hl (by simp) }

theorem Timely.wake (h : Timely power t) : Timely (wake power t) t :=
  { h with
    activity_le := le_rfl
    off_pos := fun hd => absurd hd (by simp [Power.wake])
    off_le := fun hd => absurd hd (by simp [Power.wake]) }

theorem Timely.touch (h : Timely power t) : Timely (touch power t) t := by
  rw [Power.touch]
  split
  · exact h
  · exact h.wake

theorem Timely.expireHints (h : Timely power t) : Timely (expireHints power t) t := by
  have hunlock : Timely (expireUnlock power t) t := by
    rw [expireUnlock]
    split
    · exact h.clearUnlock
    · exact h
  rw [Power.expireHints, expireNotice]
  split
  · exact { hunlock with notice_pos := fun hn => absurd hn (by simp) }
  · exact hunlock

theorem Timely.advance (h : Timely power t) : Timely (advance power t) t := by
  have hhints := h.expireHints
  have hdisplay : Timely (expireDisplay (Power.expireHints power t) t) t := by
    rw [expireDisplay]
    split
    · split
      · rename_i _ hle
        exact hhints.turnOff fun _ => ⟨hhints.offAt_pos, hle⟩
      · split
        · exact
            { hhints with
              off_pos := fun hd => absurd hd (by simp)
              off_le := fun hd => absurd hd (by simp) }
        · exact hhints
    · exact hhints
  rw [advance_eq, expireLock]
  split
  · exact hdisplay.lock
  · exact hdisplay

theorem Timely.unlockKey (h : Timely power t) (source : KeySource) (code : ℕ)
    (hd : power.display ≠ .off) : Timely (unlockKey power source code t) t := by
  have hnow := h.now_lt
  rw [Power.unlockKey]
  split
  · exact
      { h with
        unlock_le := fun _ => le_rfl
        notice_pos := fun hn => absurd hn (by simp) }
  · split
    · exact Timely.clearUnlock
        { h with
          off_pos := fun hoff => absurd hoff hd
          off_le := fun hoff => absurd hoff hd }
    · exact
        { h with
          unlock_le := fun ha => absurd ha (by simp)
          notice_pos := fun _ => by
            show 0 < Word.add 64 t unlockHelpMs
            rw [unlockHelpMs, Word.add_eq (by omega)]
            omega }

theorem Timely.setKeyState (h : Timely power t) (source : KeySource) (code : ℕ)
    (state : KeyState) : Timely (setKeyState power source code state) t := by
  rw [Power.setKeyState]
  split
  · exact { h with }
  · exact h

theorem touch_display_ne (hd : power.display ≠ .off) : (touch power t).display ≠ .off := by
  rw [touch, if_neg hd]
  simp

theorem Timely.key (h : Timely power t) (source : KeySource) (code : ℕ) (pressed : Bool) :
    Timely (key power source code pressed t).2 t := by
  have hadv := h.advance
  rw [Power.key]
  split
  · split
    · exact hadv.wake.setKeyState _ _ _
    · rename_i hd
      simp only
      split
      · exact hadv.touch
      · split
        · exact (hadv.touch.unlockKey _ _ (touch_display_ne hd)).setKeyState _ _ _
        · exact hadv.touch.setKeyState _ _ _
  · have hrel := (hadv.setKeyState source code .released).touch
    simp only
    split
    · exact hrel
    · split
      · exact hrel
      · exact hrel

theorem Timely.redKey (h : Timely power t) (pressed : Bool) (eventMs : ℕ) (homeView : Bool) :
    Timely (redKey power pressed eventMs homeView t).2 t := by
  have hadv := h.advance
  rw [Power.redKey]
  split
  · exact Timely.touch { hadv with }
  · split
    · exact hadv
    · have hred : Timely { Power.advance power t with redPressed := false } t := { hadv with }
      simp only
      split
      · exact hred
      · split
        · exact hred.wake
        · split
          · rename_i hl
            exact hred.touch.turnOff fun hl' => absurd hl (by simp [hl'])
          · split
            · exact hred.touch.lock.turnOff fun hl' => absurd hl' (by simp [Power.lock, Power.clearUnlock])
            · exact hred.touch

theorem Timely.systemKey (h : Timely power t) : Timely (systemKey power t).2 t := by
  have hadv := h.advance
  rw [Power.systemKey]
  split
  · exact hadv.wake
  · rename_i hd
    simp only
    split
    · exact hadv.touch.unlockKey .keyboard InputCodes.keyEsc (touch_display_ne hd)
    · exact hadv.touch

theorem Timely.activity (h : Timely power t) (wakeDisplay : Bool) :
    Timely (activity power wakeDisplay t) t := by
  rw [Power.activity]
  split
  · split
    · exact h.advance.wake
    · exact h.advance
  · exact h.advance.touch

theorem Timely.setKeepScreenOn (h : Timely power t) (enabled : Bool) :
    Timely (setKeepScreenOn power enabled t) t := by
  rw [Power.setKeepScreenOn]
  split
  · exact h.advance
  · exact Timely.touch { h.advance with }

theorem Timely.configure (h : Timely power t) {screenOff : ℕ} {autoLock : ℤ}
    (hok : TimeoutsOk screenOff autoLock) : Timely (configure power screenOff autoLock t) t :=
  Timely.touch { h.advance with timeouts := hok }

theorem Timely.cancelSource (h : Timely power t) (source : KeySource) :
    Timely (cancelSource power source) t := by
  rw [Power.cancelSource]
  split
  · exact { h with }
  · exact { h with }

end Preserve

theorem Timely.perform {lastMs : ℕ} (h : Timely power lastMs) {call : Call}
    (hadm : Admissible call lastMs nowMs) : Timely (perform power call nowMs).2 nowMs := by
  obtain ⟨hle, hlt, hcall⟩ := hadm
  have hnow := h.mono hle hlt
  cases call with
  | key source code pressed => exact hnow.key source code pressed
  | redKey pressed eventMs homeView => exact hnow.redKey pressed eventMs homeView
  | systemKey => exact hnow.systemKey
  | activity wakeDisplay => exact hnow.activity wakeDisplay
  | configure screenOff autoLock => exact hnow.configure hcall
  | setKeepScreenOn enabled => exact hnow.setKeepScreenOn enabled
  | advance => exact hnow.advance

theorem ReachableAt.timely (h : ReachableAt power t) : Timely power t := by
  induction h with
  | init hok hlt =>
    exact
      { timeouts := hok
        activity_le := le_rfl
        unlock_le := fun ha => absurd ha (by simp [Power.init])
        notice_pos := fun hn => absurd hn (by simp [Power.init])
        off_pos := fun hd => absurd hd (by simp [Power.init])
        off_le := fun hd => absurd hd (by simp [Power.init])
        now_lt := hlt }
  | call _ hadm ih => exact ih.perform hadm
  | cancelSource _ ih => exact ih.cancelSource _

/-! ### Calls and wakeups -/

theorem perform_congr {power' : State} (h : advance power nowMs = advance power' nowMs)
    (call : Call) :
    perform power call nowMs = perform power' call nowMs := by
  cases call with
  | key source code pressed => simp only [perform, key, h]
  | redKey pressed eventMs homeView => simp only [perform, redKey, h]
  | systemKey => simp only [perform, systemKey, h]
  | activity wakeDisplay => simp only [perform, activity, h]
  | configure screenOff autoLock => simp only [perform, configure, h]
  | setKeepScreenOn enabled => simp only [perform, setKeepScreenOn, h]
  | advance => simp only [perform, h]

theorem advance_wakeups (hlt : nowMs < 2 ^ 63) :
    ∀ {wakeups : List ℕ} {power : State} {t : ℕ}, Timely power t → t ≤ nowMs →
      wakeups.Pairwise (· ≤ ·) → (∀ w ∈ wakeups, t ≤ w ∧ w ≤ nowMs) →
      advance (wakeups.foldl advance power) nowMs = advance power nowMs := by
  intro wakeups
  induction wakeups with
  | nil => exact fun _ _ _ _ => rfl
  | cons w ws ih =>
    intro power t h ht hsorted hbounds
    obtain ⟨htw, hwn⟩ := hbounds w (by simp)
    have hw : Timely (advance power w) w := (h.mono htw (by omega)).advance
    rw [List.pairwise_cons] at hsorted
    rw [List.foldl_cons, ih hw hwn hsorted.2
      fun w' hw' => ⟨hsorted.1 w' hw', (hbounds w' (by simp [hw'])).2⟩]
    exact advance_advance h htw hwn hlt

/-- **Power timers are transparent.**  From every reachable state, at times not
before the last call: wakeups compose, a wakeup changes the state exactly when
the deadline has come, and wakeups before a call leave its answer and its
final state as they are without them. -/
theorem timers_transparent {power : State} {lastMs : ℕ} (h : ReachableAt power lastMs) :
    (∀ t₁ t₂, lastMs ≤ t₁ → t₁ ≤ t₂ → t₂ < 2 ^ 63 →
      advance (advance power t₁) t₂ = advance power t₂) ∧
    (∀ t, lastMs ≤ t → t < 2 ^ 63 →
      (advance power t ≠ power ↔ deadline power ≠ 0 ∧ deadline power ≤ t)) ∧
    (∀ (wakeups : List ℕ) (call : Call) (nowMs : ℕ), lastMs ≤ nowMs → nowMs < 2 ^ 63 →
      wakeups.Pairwise (· ≤ ·) → (∀ w ∈ wakeups, lastMs ≤ w ∧ w ≤ nowMs) →
      perform (wakeups.foldl advance power) call nowMs = perform power call nowMs) := by
  refine ⟨?_, ?_, ?_⟩
  · intro t₁ t₂ h₁ h12 hlt
    exact advance_advance h.timely h₁ h12 hlt
  · intro t ht hlt
    exact advance_ne_iff (h.timely.mono ht hlt)
  · intro wakeups call nowMs hnow hlt hsorted hbounds
    exact perform_congr (advance_wakeups hlt h.timely hnow hsorted hbounds) call

/-- The 30 s timeout: a wakeup while dimmed, then one after the auto-lock. -/
theorem timers_transparent_idle :
    advance (advance (init 30 5 1000) 25000) 40000 = advance (init 30 5 1000) 40000 ∧
      (advance (init 30 5 1000) 25000 ≠ init 30 5 1000 ↔
        deadline (init 30 5 1000) ≠ 0 ∧ deadline (init 30 5 1000) ≤ 25000) ∧
      perform ([25000, 31000].foldl advance (init 30 5 1000)) .systemKey 40000
        = perform (init 30 5 1000) .systemKey 40000 := by
  have h : ReachableAt (init 30 5 1000) 1000 :=
    .init ⟨by decide, by decide, by decide, by decide⟩ (by decide)
  obtain ⟨hcompose, hchange, hcall⟩ := timers_transparent h
  exact ⟨hcompose 25000 40000 (by decide) (by decide) (by decide),
    hchange 25000 (by decide) (by decide),
    hcall [25000, 31000] .systemKey 40000 (by decide) (by decide) (by decide) (by decide)⟩

end Power
