/-
Keyguard and gesture safety of the session.

A run is a sequence of calls at non-decreasing times (`machine`).  `gesture`
reads off the steps taken so far whether a key is held and how its first press
was answered; `Safe` says of one step, given the steps before it, that

* a delivered press is made on a lit, unlocked phone;
* the keyguard opens only in a first press of `*` within the unlock window of
  a first press of the left soft key or OK, with nothing in between that
  should have disarmed it (`Armed`);
* every repeat and the release of a gesture is answered as its first press.

`red_key_splits_gesture` is a run that breaks this: a repeat of a key whose
press was delivered before the phone was locked turns the gesture into a
consumed one.  `safe_of_noLateRepeat` shows that this is the only way: in runs
without such repeats (`LateRepeat`) every step is safe.
-/
import Fplinux.Session.Timers

namespace Power

open InputCodes

/-- A call and the time it is made at. -/
structure Timed where
  call : Call
  nowMs : ℕ

/-- Runs of the power policy: the state and the time of the last call. -/
def machine : Machine (State × ℕ) Timed where
  start s := ∃ screenOff autoLock nowMs, s = (init screenOff autoLock nowMs, nowMs)
  step s e s' := s.2 ≤ e.nowMs ∧ e.nowMs < 2 ^ 64 ∧
    s' = ((perform s.1 e.call e.nowMs).2, e.nowMs)

abbrev PowerStep := Machine.Step (State × ℕ) Timed

/-- What a key call of a step returned. -/
def answer (x : PowerStep) (source : KeySource) (code : ℕ) (pressed : Bool) : Bool :=
  (key x.before.1 source code pressed x.op.nowMs).1

/-- The gesture of a key after one more step: the answer its first press got
while it is held, `none` while it is released. -/
def gestureStep (source : KeySource) (code : ℕ) (held : Option Bool) (x : PowerStep) :
    Option Bool :=
  if x.op.call = .key source code true then some (held.getD (answer x source code true))
  else if x.op.call = .key source code false then none
  else held

/-- The gesture of a key after the given steps. -/
def gesture (source : KeySource) (code : ℕ) (l : List PowerStep) : Option Bool :=
  l.foldl (gestureStep source code) none

/-- A press of a key that is not held. -/
def FirstPress (pre : List PowerStep) (x : PowerStep) (source : KeySource) (code : ℕ) : Prop :=
  x.op.call = .key source code true ∧ gesture source code pre = none

/-- The state a call acts on, with the due timers applied. -/
def current (x : PowerStep) : State := advance x.before.1 x.op.nowMs

/-- A first press of the left soft key or OK while lit and locked. -/
def ArmingPress (pre : List PowerStep) (x : PowerStep) : Prop :=
  (FirstPress pre x .phone keyF13 ∨ FirstPress pre x .phone keyOk) ∧
    (current x).display ≠ .off ∧ (current x).locked = true

/-- After the arming press: no first press, no system key and a lit display. -/
def Undisturbed (pre between : List PowerStep) : Prop :=
  ∀ l y l', between = l ++ y :: l' →
    (∀ source code, ¬ FirstPress (pre ++ l) y source code) ∧
      y.op.call ≠ .systemKey ∧ y.after.1.display ≠ .off

/-- The steps end in an arming press at `armMs` that nothing has disturbed. -/
def Armed (pre : List PowerStep) (armMs : ℕ) : Prop :=
  ∃ l x between, pre = l ++ x :: between ∧ ArmingPress l x ∧ x.op.nowMs = armMs ∧
    x.after.1.display ≠ .off ∧ Undisturbed (l ++ [x]) between

/-- What is claimed of one step after the steps `pre`. -/
structure Safe (pre : List PowerStep) (x : PowerStep) : Prop where
  delivered_visible : ∀ source code, x.op.call = .key source code true →
    answer x source code true = true →
      (x.before.1.display ≠ .off ∧ x.before.1.locked = false) ∧
      ((current x).display ≠ .off ∧ (current x).locked = false)
  unlock_armed : x.before.1.locked = true → x.after.1.locked = false →
    FirstPress pre x .phone keyNumericStar ∧ (current x).display ≠ .off ∧
      ∃ armMs, Armed pre armMs ∧ armMs ≤ x.op.nowMs ∧ x.op.nowMs < armMs + unlockWindowMs
  gesture_uniform : ∀ source code pressed first, code < keyCnt →
    x.op.call = .key source code pressed → gesture source code pre = some first →
      answer x source code pressed = first

/-- A repeat of a delivered press that comes when the display is off or the
phone locked. -/
def LateRepeat (x : PowerStep) : Prop :=
  ∃ source code, code < keyCnt ∧ x.op.call = .key source code true ∧
    x.before.1.keys source code = .delivered ∧
    ((current x).display = .off ∨ (current x).locked = true)

/-! ### What the timers leave alone -/

section Frame

variable (power : State) (t : ℕ)

theorem expireDisplay_frame (q : State) :
    (expireDisplay q t).keys = q.keys ∧ (expireDisplay q t).unlockMs = q.unlockMs ∧
      (expireDisplay q t).locked = q.locked ∧
      (q.display = .off → (expireDisplay q t).display = .off) := by
  rw [expireDisplay]
  split
  · rename_i hc
    split
    · exact ⟨rfl, rfl, rfl, fun _ => rfl⟩
    · split
      · exact ⟨rfl, rfl, rfl, fun hd => absurd hd hc.1⟩
      · exact ⟨rfl, rfl, rfl, id⟩
  · exact ⟨rfl, rfl, rfl, id⟩

theorem expireLock_frame (q : State) :
    (expireLock q t).keys = q.keys ∧ (expireLock q t).unlockMs = q.unlockMs ∧
      (q.locked = true → (expireLock q t).locked = true) := by
  rw [expireLock]
  split
  · exact ⟨rfl, rfl, fun _ => rfl⟩
  · exact ⟨rfl, rfl, id⟩

theorem advance_frame :
    (advance power t).keys = power.keys ∧ (advance power t).unlockMs = power.unlockMs ∧
      (power.locked = true → (advance power t).locked = true) ∧
      (power.display = .off → (advance power t).display = .off) := by
  obtain ⟨armed, notice, hhints⟩ := expireHints_eq power t
  obtain ⟨hkeys, hms, hlocked, hoff⟩ := expireDisplay_frame t (expireHints power t)
  obtain ⟨hkeys', hms', hlocked'⟩ := expireLock_frame t (expireDisplay (expireHints power t) t)
  rw [advance_eq]
  refine ⟨?_, ?_, ?_, ?_⟩
  · rw [hkeys', hkeys, hhints]
  · rw [hms', hms, hhints]
  · intro hl
    exact hlocked' (by rw [hlocked, expireHints_locked, hl])
  · intro hd
    rw [expireLock_display]
    exact hoff (by rw [expireHints_display, hd])

theorem advance_keys : (advance power t).keys = power.keys := (advance_frame power t).1

theorem advance_unlockMs : (advance power t).unlockMs = power.unlockMs := (advance_frame power t).2.1

theorem advance_locked (h : power.locked = true) : (advance power t).locked = true :=
  (advance_frame power t).2.2.1 h

theorem advance_dark (h : power.display = .off) : (advance power t).display = .off :=
  (advance_frame power t).2.2.2 h

end Frame

/-! ### The armed keyguard -/

/-- The keyguard is armed only on a lit lock screen. -/
def Guarded (power : State) : Prop :=
  power.unlockArmed = true → power.display ≠ .off ∧ power.locked = true

variable {power : State} {t code : ℕ} {source : KeySource} {x : PowerStep} {l : List PowerStep}

theorem guarded_of_disarmed (h : power.unlockArmed = false) : Guarded power :=
  fun ha => absurd ha (by simp [h])

theorem expireHints_armed (h : (expireHints power t).unlockArmed = true) :
    power.unlockArmed = true ∧ ¬ Word.sub 64 t power.unlockMs ≥ unlockWindowMs := by
  rw [expireHints_unlockArmed, expireUnlock] at h
  split at h
  · simp [clearUnlock] at h
  · rename_i hc
    exact ⟨h, fun hw => hc ⟨h, hw⟩⟩

theorem Guarded.advance (hg : Guarded power) (t : ℕ) : Guarded (advance power t) := by
  have hhints : Guarded (expireHints power t) := by
    intro ha
    simpa using hg (expireHints_armed ha).1
  have hdisplay : Guarded (expireDisplay (expireHints power t) t) := by
    rw [expireDisplay]
    split
    · split
      · exact guarded_of_disarmed rfl
      · split
        · intro ha
          exact ⟨by simp, (hhints ha).2⟩
        · exact hhints
    · exact hhints
  rw [advance_eq, expireLock]
  split
  · exact guarded_of_disarmed rfl
  · exact hdisplay

theorem advance_armed (hle : power.unlockArmed = true → power.unlockMs ≤ t) (hlt : t < 2 ^ 64)
    (ha : (advance power t).unlockArmed = true) :
    power.unlockArmed = true ∧ t < power.unlockMs + unlockWindowMs := by
  rcases advance_hints power t with ⟨harmed, -⟩ | ⟨harmed, -⟩
  · rw [harmed] at ha
    obtain ⟨ha', hw⟩ := expireHints_armed ha
    refine ⟨ha', ?_⟩
    rw [Word.sub_eq hlt (hle ha')] at hw
    have := hle ha'
    omega
  · rw [harmed] at ha
    exact absurd ha (by simp)

@[simp] theorem touch_locked (power : State) (t : ℕ) : (touch power t).locked = power.locked := by
  rw [touch]; split <;> rfl

@[simp] theorem touch_unlockArmed (power : State) (t : ℕ) :
    (touch power t).unlockArmed = power.unlockArmed := by
  rw [touch]; split <;> rfl

@[simp] theorem touch_unlockMs (power : State) (t : ℕ) :
    (touch power t).unlockMs = power.unlockMs := by
  rw [touch]; split <;> rfl

@[simp] theorem touch_keys (power : State) (t : ℕ) : (touch power t).keys = power.keys := by
  rw [touch]; split <;> rfl

section SetKeyState

variable (power : State) (source : KeySource) (code : ℕ) (state : KeyState)

@[simp] theorem setKeyState_locked :
    (setKeyState power source code state).locked = power.locked := by
  rw [setKeyState]; split <;> rfl

@[simp] theorem setKeyState_display :
    (setKeyState power source code state).display = power.display := by
  rw [setKeyState]; split <;> rfl

@[simp] theorem setKeyState_unlockArmed :
    (setKeyState power source code state).unlockArmed = power.unlockArmed := by
  rw [setKeyState]; split <;> rfl

@[simp] theorem setKeyState_unlockMs :
    (setKeyState power source code state).unlockMs = power.unlockMs := by
  rw [setKeyState]; split <;> rfl

end SetKeyState

theorem keyState_touch_advance (power : State) (source : KeySource) (code t : ℕ) :
    keyState (touch (advance power t) t) source code = keyState power source code := by
  simp [keyState, advance_keys]

theorem keyState_advance (power : State) (source : KeySource) (code t : ℕ) :
    keyState (advance power t) source code = keyState power source code := by
  simp [keyState, advance_keys]

/-! ### What one call can do

`key_press` gives the three outcomes of a press; the other calls are simple
enough to be unfolded where they are used. -/

theorem key_press (power : State) (source : KeySource) (code t : ℕ) :
    ((advance power t).display = .off ∧ key power source code true t =
      (false, setKeyState (wake (advance power t) t) source code .consumed)) ∨
    ((advance power t).display ≠ .off ∧ keyState power source code = .consumed ∧
      key power source code true t = (false, touch (advance power t) t)) ∨
    ((advance power t).display ≠ .off ∧ keyState power source code ≠ .consumed ∧
      (advance power t).locked = true ∧ key power source code true t =
      (false, setKeyState (unlockKey (touch (advance power t) t) source code t)
        source code .consumed)) ∨
    ((advance power t).display ≠ .off ∧ keyState power source code ≠ .consumed ∧
      (advance power t).locked = false ∧ key power source code true t =
      (true, setKeyState (touch (advance power t) t) source code .delivered)) := by
  by_cases hd : (advance power t).display = .off
  · exact Or.inl ⟨hd, by simp [key, hd]⟩
  · refine Or.inr ?_
    by_cases hk : keyState power source code = .consumed
    · exact Or.inl ⟨hd, hk, by simp [key, hd, keyState_touch_advance, hk]⟩
    · refine Or.inr ?_
      by_cases hl : (advance power t).locked = true
      · exact Or.inl ⟨hd, hk, hl, by simp [key, hd, keyState_touch_advance, hk, hl]⟩
      · have hl' : (advance power t).locked = false := by simpa using hl
        exact Or.inr ⟨hd, hk, hl', by simp [key, hd, keyState_touch_advance, hk, hl']⟩

theorem key_release (power : State) (source : KeySource) (code t : ℕ) :
    (key power source code false t).2 =
      touch (setKeyState (advance power t) source code .released) t ∧
    (keyState power source code = .consumed → (key power source code false t).1 = false) ∧
    (keyState power source code = .delivered → (key power source code false t).1 = true) := by
  by_cases hc : keyState power source code = .consumed
  · refine ⟨?_, ?_, ?_⟩ <;> simp [key, keyState_advance, hc]
  · by_cases hd : keyState power source code = .delivered
    · refine ⟨?_, ?_, ?_⟩ <;> simp [key, keyState_advance, hd]
    · refine ⟨?_, ?_, ?_⟩ <;> simp [key, keyState_advance, hc, hd]

theorem unlockKey_unlocks (hl : power.locked = true)
    (h : (unlockKey power source code t).locked = false) :
    source = .phone ∧ code = keyNumericStar ∧ power.unlockArmed = true := by
  rw [unlockKey] at h
  split at h
  · simp [hl] at h
  · split at h
    · rename_i hc
      exact hc
    · simp [hl] at h

theorem unlockKey_arms (h : (unlockKey power source code t).unlockArmed = true) :
    source = .phone ∧ (code = keyF13 ∨ code = keyOk) ∧
      (unlockKey power source code t).unlockMs = t ∧
      (unlockKey power source code t).display = power.display ∧
      (unlockKey power source code t).locked = power.locked := by
  rw [unlockKey] at h ⊢
  split
  · rename_i hc
    exact ⟨hc.1, hc.2, rfl, rfl, rfl⟩
  · rename_i hc
    rw [if_neg hc] at h
    split at h
    · simp [clearUnlock] at h
    · simp at h

@[simp] theorem unlockKey_keys (power : State) (source : KeySource) (code t : ℕ) :
    (unlockKey power source code t).keys = power.keys := by
  rw [unlockKey]
  split
  · rfl
  · split
    · rfl
    · rfl

/-- **The keyguard opens only in a press of `*` while armed.** -/
theorem perform_unlocks {call : Call} (hl : power.locked = true)
    (h : (perform power call t).2.locked = false) :
    call = .key .phone keyNumericStar true ∧ (advance power t).display ≠ .off ∧
      (advance power t).unlockArmed = true ∧
      keyState power .phone keyNumericStar ≠ .consumed := by
  have hadv : (advance power t).locked = true := advance_locked power t hl
  cases call with
  | key source code pressed =>
    cases pressed with
    | true =>
      simp only [perform] at h
      rcases key_press power source code t with
        ⟨-, hkey⟩ | ⟨-, -, hkey⟩ | ⟨hd, hk, -, hkey⟩ | ⟨-, -, hl', -⟩
      · simp [hkey, wake, hadv] at h
      · simp [hkey, hadv] at h
      · rw [hkey, setKeyState_locked] at h
        obtain ⟨rfl, rfl, ha⟩ := unlockKey_unlocks (by simp [hadv]) h
        exact ⟨rfl, hd, by simpa using ha, hk⟩
      · simp [hadv] at hl'
    | false =>
      simp only [perform] at h
      simp [(key_release power source code t).1, hadv] at h
  | redKey pressed eventMs homeView =>
    simp only [perform, redKey] at h
    split at h
    · simp [hadv] at h
    · split at h
      · simp [hadv] at h
      · split at h
        · simp [hadv] at h
        · split at h
          · simp [wake, hadv] at h
          · simp [hadv, turnOff, clearUnlock] at h
  | systemKey =>
    simp only [perform, systemKey] at h
    split at h
    · simp [wake, hadv] at h
    · simp only [touch_locked, hadv, if_true] at h
      have := unlockKey_unlocks (by simp [hadv]) h
      simp at this
  | activity wakeDisplay =>
    simp only [perform, activity] at h
    split at h
    · split at h
      · simp [wake, hadv] at h
      · simp [hadv] at h
    · simp [hadv] at h
  | configure screenOff autoLock => simp [perform, configure, hadv] at h
  | setKeepScreenOn enabled =>
    simp only [perform, setKeepScreenOn] at h
    split at h
    · simp [hadv] at h
    · simp [hadv] at h
  | advance => simp [perform, hadv] at h

/-- If `power'` is armed, it has its arming and its lit lock screen from `power`. -/
def KeepsArming (power power' : State) : Prop :=
  power'.unlockArmed = true → power.unlockArmed = true ∧ power'.unlockMs = power.unlockMs ∧
    power'.locked = power.locked ∧ (power.display ≠ .off → power'.display ≠ .off)

theorem keepsArming_refl (power : State) : KeepsArming power power :=
  fun ha => ⟨ha, rfl, rfl, id⟩

theorem keepsArming_disarmed {power' : State} (h : power'.unlockArmed = false) :
    KeepsArming power power' := fun ha => absurd ha (by simp [h])

theorem keepsArming_wake (power : State) (t : ℕ) : KeepsArming power (wake power t) :=
  fun ha => ⟨ha, rfl, rfl, by simp [wake]⟩

theorem keepsArming_touch {power' : State} (t : ℕ) (h : KeepsArming power power') :
    KeepsArming power (touch power' t) := by
  intro ha
  obtain ⟨ha', hms, hl, hd⟩ := h (by simpa using ha)
  exact ⟨ha', by simpa using hms, by simpa using hl, fun hd' => touch_display_ne (hd hd')⟩

theorem keepsArming_redKey (power : State) (pressed : Bool) (eventMs : ℕ) (homeView : Bool)
    (t : ℕ) : KeepsArming (advance power t) (redKey power pressed eventMs homeView t).2 := by
  rw [redKey]
  split
  · exact keepsArming_touch t fun ha => ⟨ha, rfl, rfl, id⟩
  · split
    · exact keepsArming_refl _
    · simp only
      split
      · exact fun ha => ⟨ha, rfl, rfl, id⟩
      · split
        · exact fun ha => ⟨ha, rfl, rfl, by simp [wake]⟩
        · split
          · exact keepsArming_disarmed rfl
          · split
            · exact keepsArming_disarmed rfl
            · exact keepsArming_touch t fun ha => ⟨ha, rfl, rfl, id⟩

theorem keepsArming_activity (power : State) (wakeDisplay : Bool) (t : ℕ) :
    KeepsArming (advance power t) (activity power wakeDisplay t) := by
  rw [activity]
  split
  · split
    · exact keepsArming_wake _ t
    · exact keepsArming_refl _
  · exact keepsArming_touch t (keepsArming_refl _)

theorem keepsArming_setKeepScreenOn (power : State) (enabled : Bool) (t : ℕ) :
    KeepsArming (advance power t) (setKeepScreenOn power enabled t) := by
  rw [setKeepScreenOn]
  split
  · exact keepsArming_refl _
  · exact keepsArming_touch t fun ha => ⟨ha, rfl, rfl, id⟩

/-- What leaves the keyguard armed: a press of an arming key on a lit lock
screen, or a call that neither presses a new key nor is the system key. -/
def ArmedCases (power : State) (call : Call) (t : ℕ) : Prop :=
  (∃ code, (code = keyF13 ∨ code = keyOk) ∧ call = .key .phone code true ∧
    (advance power t).display ≠ .off ∧ (advance power t).locked = true ∧
    keyState power .phone code ≠ .consumed ∧ (perform power call t).2.unlockMs = t) ∨
  ((advance power t).unlockArmed = true ∧
    (perform power call t).2.unlockMs = power.unlockMs ∧ call ≠ .systemKey ∧
    ∀ source code, call = .key source code true → keyState power source code = .consumed)

theorem perform_armed {power : State} {call : Call} {t : ℕ} (hg : Guarded power)
    (h : (perform power call t).2.unlockArmed = true) :
    ArmedCases power call t ∧ (perform power call t).2.display ≠ .off ∧
      (perform power call t).2.locked = true := by
  have hgadv := hg.advance t
  have hms := advance_unlockMs power t
  -- Every call but a press or the system key only passes the arming on.
  have hquiet : ∀ call, KeepsArming (advance power t) (perform power call t).2 →
      (perform power call t).2.unlockArmed = true → call ≠ .systemKey →
      (∀ source code, call ≠ .key source code true) →
      ArmedCases power call t ∧ (perform power call t).2.display ≠ .off ∧
        (perform power call t).2.locked = true := by
    intro call hkeep ha hsys hpress
    obtain ⟨ha', hms', hl, hd⟩ := hkeep ha
    exact ⟨Or.inr ⟨ha', by rw [hms', hms], hsys, fun source code hc => absurd hc (hpress _ _)⟩,
      hd (hgadv ha').1, by rw [hl, (hgadv ha').2]⟩
  cases call with
  | key source code pressed =>
    cases pressed with
    | true =>
      simp only [perform] at h ⊢
      rcases key_press power source code t with
        ⟨hd, hkey⟩ | ⟨hd, hk, hkey⟩ | ⟨hd, hk, hl, hkey⟩ | ⟨hd, hk, hl, hkey⟩
      · have ha : (advance power t).unlockArmed = true := by simpa [hkey, wake] using h
        exact absurd hd (hgadv ha).1
      · have ha : (advance power t).unlockArmed = true := by simpa [hkey] using h
        refine ⟨Or.inr ⟨ha, by simp [perform, hkey, hms], by simp, ?_⟩, ?_, ?_⟩
        · intro source' code' hcall
          cases hcall
          exact hk
        · rw [hkey]
          exact touch_display_ne hd
        · simpa [hkey] using (hgadv ha).2
      · rw [hkey, setKeyState_unlockArmed] at h
        obtain ⟨rfl, hcode, hat, hdisplay, hlocked⟩ := unlockKey_arms h
        refine ⟨Or.inl ⟨code, hcode, rfl, hd, hl, hk, by simp [perform, hkey, hat]⟩, ?_, ?_⟩
        · rw [hkey, setKeyState_display, hdisplay]
          exact touch_display_ne hd
        · rw [hkey, setKeyState_locked, hlocked, touch_locked, hl]
      · have ha : (advance power t).unlockArmed = true := by simpa [hkey] using h
        exact absurd (hgadv ha).2 (by simp [hl])
    | false =>
      refine hquiet _ ?_ h (by simp) (by simp)
      rw [perform, (key_release power source code t).1]
      exact keepsArming_touch t fun ha => ⟨by simpa using ha, by simp, by simp, by simp⟩
  | redKey pressed eventMs homeView =>
    exact hquiet _ (keepsArming_redKey power pressed eventMs homeView t) h (by simp) (by simp)
  | systemKey =>
    exfalso
    simp only [perform, systemKey] at h
    split at h
    · rename_i hd
      exact (hgadv h).1 hd
    · split at h
      · exact absurd (unlockKey_arms h).1 (by simp)
      · rename_i hl
        exact hl (by simpa using (hgadv (by simpa using h)).2)
  | activity wakeDisplay =>
    exact hquiet _ (keepsArming_activity power wakeDisplay t) h (by simp) (by simp)
  | configure screenOff autoLock =>
    refine hquiet _ ?_ h (by simp) (by simp)
    exact keepsArming_touch t fun ha => ⟨ha, rfl, rfl, id⟩
  | setKeepScreenOn enabled =>
    exact hquiet _ (keepsArming_setKeepScreenOn power enabled t) h (by simp) (by simp)
  | advance => exact hquiet _ (keepsArming_refl _) h (by simp) (by simp)

/-! ### Key states follow the gestures -/

/-- The tracked state of a key whose gesture was answered so far by `held`. -/
def stateOf : Option Bool → KeyState
  | none => .released
  | some true => .delivered
  | some false => .consumed

theorem setKeyState_keys_self (power : State) (source : KeySource) (state : KeyState)
    (hcode : code < keyCnt) : (setKeyState power source code state).keys source code = state := by
  simp [setKeyState, hcode]

theorem setKeyState_keys_other (power : State) {source' : KeySource} {code' : ℕ} (state : KeyState)
    (hne : ¬ (source = source' ∧ code = code')) :
    (setKeyState power source' code' state).keys source code = power.keys source code := by
  rw [setKeyState]
  split
  · exact if_neg hne
  · rfl

theorem perform_keys_other {call : Call} (hcall : ∀ pressed, call ≠ .key source code pressed) :
    (perform power call t).2.keys source code = power.keys source code := by
  have hadv := advance_keys power t
  cases call with
  | key source' code' pressed =>
    have hne : ¬ (source = source' ∧ code = code') := by
      rintro ⟨rfl, rfl⟩
      exact hcall pressed rfl
    cases pressed with
    | true =>
      rcases key_press power source' code' t with
        ⟨-, hkey⟩ | ⟨-, -, hkey⟩ | ⟨-, -, -, hkey⟩ | ⟨-, -, -, hkey⟩
      · simp [perform, hkey, setKeyState_keys_other _ _ hne, wake, hadv]
      · simp [perform, hkey, hadv]
      · simp [perform, hkey, setKeyState_keys_other _ _ hne, hadv]
      · simp [perform, hkey, setKeyState_keys_other _ _ hne, hadv]
    | false =>
      simp [perform, (key_release power source' code' t).1, setKeyState_keys_other _ _ hne, hadv]
  | redKey pressed eventMs homeView =>
    simp only [perform, redKey]
    split
    · simp [hadv]
    · split
      · rw [hadv]
      · split
        · simp [hadv]
        · split
          · simp [wake, hadv]
          · split
            · simp [turnOff, clearUnlock, hadv]
            · split
              · simp [turnOff, lock, clearUnlock, hadv]
              · simp [hadv]
  | systemKey =>
    simp only [perform, systemKey]
    split
    · simp [wake, hadv]
    · split
      · simp [hadv]
      · simp [hadv]
  | activity wakeDisplay =>
    simp only [perform, activity]
    split
    · split
      · simp [wake, hadv]
      · rw [hadv]
    · simp [hadv]
  | configure screenOff autoLock => simp [perform, configure, hadv]
  | setKeepScreenOn enabled =>
    simp only [perform, setKeepScreenOn]
    split
    · rw [hadv]
    · simp [hadv]
  | advance => simp [perform, hadv]

/-- **One step of a gesture.**  Outside late repeats the tracked state follows
the gesture, and repeats and releases are answered as the first press. -/
theorem gesture_step (hafter : x.after.1 = (perform x.before.1 x.op.call x.op.nowMs).2)
    (hlate : ¬ LateRepeat x) (hcode : code < keyCnt) {held : Option Bool}
    (hstate : x.before.1.keys source code = stateOf held) :
    x.after.1.keys source code = stateOf (gestureStep source code held x) ∧
      ∀ pressed first, x.op.call = .key source code pressed → held = some first →
        answer x source code pressed = first := by
  have hkeyState : keyState x.before.1 source code = stateOf held := by
    simp [keyState, hcode, hstate]
  by_cases hpress : x.op.call = .key source code true
  · have hgest : gestureStep source code held x = some (held.getD (answer x source code true)) :=
      if_pos hpress
    have hlate' : held = some true →
        (current x).display ≠ .off ∧ (current x).locked = false := by
      rintro rfl
      refine ⟨fun hd => ?_, ?_⟩
      · exact hlate ⟨source, code, hcode, hpress, hstate, Or.inl hd⟩
      · by_contra hl
        exact hlate ⟨source, code, hcode, hpress, hstate, Or.inr (by simpa using hl)⟩
    have hmain : (key x.before.1 source code true x.op.nowMs).2.keys source code =
        stateOf (some (held.getD (answer x source code true))) ∧
        ∀ first, held = some first → answer x source code true = first := by
      rw [answer]
      rcases key_press x.before.1 source code x.op.nowMs with
        ⟨hd, hkey⟩ | ⟨hd, hk, hkey⟩ | ⟨hd, hk, hl, hkey⟩ | ⟨hd, hk, hl, hkey⟩
      · -- The display was dark: the press only wakes it.
        rw [hkey]
        rcases held with _ | _ | _
        · exact ⟨setKeyState_keys_self _ _ _ hcode, by simp⟩
        · exact ⟨setKeyState_keys_self _ _ _ hcode, by simp⟩
        · exact absurd hd (hlate' rfl).1
      · rw [hkey]
        rcases held with _ | _ | _
        · simp [hkeyState, stateOf] at hk
        · exact ⟨by simpa [advance_keys] using hstate, by simp⟩
        · simp [hkeyState, stateOf] at hk
      · rw [hkey]
        rcases held with _ | _ | _
        · exact ⟨setKeyState_keys_self _ _ _ hcode, by simp⟩
        · simp [hkeyState, stateOf] at hk
        · exact absurd hl (by simpa [current] using (hlate' rfl).2)
      · rw [hkey]
        rcases held with _ | _ | _
        · exact ⟨setKeyState_keys_self _ _ _ hcode, by simp⟩
        · simp [hkeyState, stateOf] at hk
        · exact ⟨setKeyState_keys_self _ _ _ hcode, by simp⟩
    refine ⟨?_, ?_⟩
    · rw [hgest, hafter, hpress]
      exact hmain.1
    · intro pressed first hcall hheld
      rw [hpress] at hcall
      cases hcall
      exact hmain.2 first hheld
  · by_cases hrelease : x.op.call = .key source code false
    · have hgest : gestureStep source code held x = none := by
        rw [gestureStep, if_neg hpress, if_pos hrelease]
      obtain ⟨hkey, hconsumed, hdelivered⟩ := key_release x.before.1 source code x.op.nowMs
      refine ⟨?_, ?_⟩
      · rw [hgest, hafter, hrelease, perform, hkey, touch_keys,
          setKeyState_keys_self _ _ _ hcode]
        rfl
      · intro pressed first hcall hheld
        rw [hrelease] at hcall
        cases hcall
        subst hheld
        cases first
        · exact hconsumed hkeyState
        · exact hdelivered hkeyState
    · have hgest : gestureStep source code held x = held := by
        rw [gestureStep, if_neg hpress, if_neg hrelease]
      have hother : ∀ pressed, x.op.call ≠ .key source code pressed := by
        intro pressed
        cases pressed
        · exact hrelease
        · exact hpress
      refine ⟨?_, fun pressed first hcall => absurd hcall (hother pressed)⟩
      rw [hgest, hafter, perform_keys_other hother, hstate]

/-! ### Runs -/

/-- What holds after the steps `l` of a run without late repeats. -/
structure RunInv (l : List PowerStep) (s : State × ℕ) : Prop where
  guarded : Guarded s.1
  unlock_le : s.1.unlockArmed = true → s.1.unlockMs ≤ s.2
  keys : ∀ source code, code < keyCnt → s.1.keys source code = stateOf (gesture source code l)
  armed : s.1.unlockArmed = true → Armed l s.1.unlockMs

theorem gesture_snoc (source : KeySource) (code : ℕ) (l : List PowerStep) (x : PowerStep) :
    gesture source code (l ++ [x]) = gestureStep source code (gesture source code l) x := by
  simp [gesture, List.foldl_append]

theorem firstPress_of_locked (hinv : RunInv l x.before) (hlate : ¬ LateRepeat x)
    (hcode : code < keyCnt) (hcall : x.op.call = .key source code true)
    (hl : (current x).locked = true) (hk : keyState x.before.1 source code ≠ .consumed) :
    FirstPress l x source code := by
  refine ⟨hcall, ?_⟩
  have hstate := hinv.keys source code hcode
  rw [keyState, if_pos hcode] at hk
  rcases hg : gesture source code l with _ | _ | _
  · rfl
  · rw [hg] at hstate
    exact absurd hstate hk
  · rw [hg] at hstate
    exact absurd ⟨source, code, hcode, hcall, hstate, Or.inr hl⟩ hlate

theorem armed_snoc {armMs : ℕ} (h : Armed l armMs)
    (hfirst : ∀ source code, ¬ FirstPress l x source code) (hsys : x.op.call ≠ .systemKey)
    (hd : x.after.1.display ≠ .off) : Armed (l ++ [x]) armMs := by
  obtain ⟨l₁, y, between, rfl, harm, hms, hyd, hun⟩ := h
  refine ⟨l₁, y, between ++ [x], by simp, harm, hms, hyd, ?_⟩
  intro l₂ z l₃ hsplit
  rcases List.eq_nil_or_concat l₃ with rfl | ⟨l₄, w, rfl⟩
  · obtain ⟨rfl, hz⟩ := List.append_inj' hsplit rfl
    simp only [List.cons.injEq, and_true] at hz
    subst hz
    refine ⟨fun source code hf => hfirst source code ?_, hsys, hd⟩
    simpa using hf
  · have hsplit' : between ++ [x] = (l₂ ++ z :: l₄) ++ [w] := by simpa using hsplit
    obtain ⟨hb, -⟩ := List.append_inj' hsplit' rfl
    exact hun l₂ z l₄ hb

theorem runInv_step {s s' : State × ℕ} {e : Timed} (hinv : RunInv l s) (hstep : machine.step s e s')
    (hlate : ¬ LateRepeat ⟨s, e, s'⟩) :
    RunInv (l ++ [⟨s, e, s'⟩]) s' := by
  obtain ⟨hle, hlt, rfl⟩ := hstep
  set x : PowerStep := ⟨s, e, ((perform s.1 e.call e.nowMs).2, e.nowMs)⟩ with hx
  have harmed := @perform_armed _ e.call e.nowMs hinv.guarded
  refine ⟨?_, ?_, ?_, ?_⟩
  · exact fun ha => (harmed ha).2
  · intro ha
    rcases (harmed ha).1 with ⟨-, -, -, -, -, -, hms⟩ | ⟨hadv, hms, -, -⟩
    · exact le_of_eq hms
    · rw [hms]
      have hbefore := (advance_armed (fun ha' => (hinv.unlock_le ha').trans hle) hlt hadv).1
      exact (hinv.unlock_le hbefore).trans hle
  · intro source code hcode
    rw [gesture_snoc]
    exact (gesture_step (x := x) rfl hlate hcode (hinv.keys source code hcode)).1
  · intro ha
    obtain ⟨hcases, hd, -⟩ := harmed ha
    rcases hcases with ⟨code, hcode, hcall, hd', hl, hk, hms⟩ | ⟨hadv, hms, hsys, hrepeat⟩
    · -- The step is the arming press itself.
      have hcnt : code < keyCnt := by
        rcases hcode with rfl | rfl <;> decide
      have hfirst : FirstPress l x .phone code :=
        firstPress_of_locked hinv hlate hcnt hcall hl hk
      refine ⟨l, x, [], by simp, ⟨?_, hd', hl⟩, hms.symm, hd, ?_⟩
      · rcases hcode with rfl | rfl
        · exact Or.inl hfirst
        · exact Or.inr hfirst
      · intro l₁ y l₂ hsplit
        simp at hsplit
    · -- The arming comes from before and nothing has disturbed it.
      have hbefore := (advance_armed (fun ha' => (hinv.unlock_le ha').trans hle) hlt hadv).1
      rw [hms]
      refine armed_snoc (hinv.armed hbefore) ?_ hsys hd
      rintro source code ⟨hcall, hnone⟩
      have hk := hrepeat source code hcall
      by_cases hcode : code < keyCnt
      · rw [keyState, if_pos hcode, hinv.keys source code hcode, hnone] at hk
        simp [stateOf] at hk
      · rw [keyState, if_neg hcode] at hk
        simp at hk

theorem runInv_of_trace {s : State × ℕ} (h : machine.Trace l s) (hlate : ∀ x ∈ l, ¬ LateRepeat x) :
    RunInv l s := by
  refine Machine.Trace.invariant (P := RunInv) (K := fun x => ¬ LateRepeat x) ?_ ?_ h hlate
  · rintro s ⟨screenOff, autoLock, nowMs, rfl⟩
    exact
      { guarded := guarded_of_disarmed rfl
        unlock_le := fun ha => absurd ha (by simp [init])
        keys := fun _ _ _ => rfl
        armed := fun ha => absurd ha (by simp [init]) }
  · intro l s e s' hinv hstep hl
    exact runInv_step hinv hstep hl

theorem delivered_visible_of_key (h : (key power source code true t).1 = true) :
    (power.display ≠ .off ∧ power.locked = false) ∧
      ((advance power t).display ≠ .off ∧ (advance power t).locked = false) := by
  rcases key_press power source code t with
    ⟨-, hkey⟩ | ⟨-, -, hkey⟩ | ⟨-, -, -, hkey⟩ | ⟨hd, -, hl, -⟩
  · simp [hkey] at h
  · simp [hkey] at h
  · simp [hkey] at h
  · refine ⟨⟨fun hoff => hd (advance_dark power t hoff), ?_⟩, hd, hl⟩
    by_contra hlocked
    have := advance_locked power t (by simpa using hlocked)
    simp [hl] at this

/-- **Keyguard and gesture safety.**  In every run without late repeats every
step is safe. -/
theorem safe_of_noLateRepeat {l : List PowerStep} {s : State × ℕ} (h : machine.Trace l s)
    (hlate : ∀ x ∈ l, ¬ LateRepeat x) :
    ∀ pre x post, l = pre ++ x :: post → Safe pre x := by
  intro pre x post hl
  obtain ⟨htrace, hle, hlt, hafter⟩ := h.split hl
  have hinv := runInv_of_trace htrace fun y hy => hlate y (by simp [hl, hy])
  have hx : ¬ LateRepeat x := hlate x (by simp [hl])
  have hafter' : x.after.1 = (perform x.before.1 x.op.call x.op.nowMs).2 := by rw [hafter]
  refine ⟨?_, ?_, ?_⟩
  · intro source code _ hans
    exact delivered_visible_of_key hans
  · intro hlocked hopen
    rw [hafter'] at hopen
    obtain ⟨hcall, hd, harmed, hk⟩ := perform_unlocks hlocked hopen
    obtain ⟨hbefore, hwindow⟩ :=
      advance_armed (fun ha => (hinv.unlock_le ha).trans hle) hlt harmed
    refine ⟨?_, hd, x.before.1.unlockMs, hinv.armed hbefore, (hinv.unlock_le hbefore).trans hle,
      hwindow⟩
    exact firstPress_of_locked hinv hx (by decide) hcall
      (advance_locked x.before.1 x.op.nowMs hlocked) hk
  · intro source code pressed first hcode hcall hheld
    exact (gesture_step hafter' hx hcode (hinv.keys source code hcode)).2 pressed first hcall hheld

/-! ### A gesture that the red key splits -/

/-- The steps that a list of timed calls makes. -/
def steps : State × ℕ → List Timed → List PowerStep
  | _, [] => []
  | s, e :: es =>
    ⟨s, e, ((perform s.1 e.call e.nowMs).2, e.nowMs)⟩ ::
      steps ((perform s.1 e.call e.nowMs).2, e.nowMs) es

theorem trace_steps : ∀ (es : List Timed) {l : List PowerStep} {s : State × ℕ},
    machine.Trace l s → (s.2 :: es.map Timed.nowMs).Pairwise (· ≤ ·) →
    (∀ e ∈ es, e.nowMs < 2 ^ 64) → ∃ s', machine.Trace (l ++ steps s es) s' := by
  intro es
  induction es with
  | nil =>
    intro l s htrace _ _
    exact ⟨s, by simpa [steps] using htrace⟩
  | cons e es ih =>
    intro l s htrace hsorted hlt
    rw [List.map_cons, List.pairwise_cons] at hsorted
    have hstep : machine.step s e ((perform s.1 e.call e.nowMs).2, e.nowMs) :=
      ⟨hsorted.1 _ (by simp), hlt e (by simp), rfl⟩
    obtain ⟨s', hs'⟩ := ih (htrace.step hstep) hsorted.2 fun e' he' => hlt e' (by simp [he'])
    exact ⟨s', by simpa [steps] using hs'⟩

/-- KEY_5 goes down on a lit phone, the red key locks it on the home view, and
the held key repeats. -/
def splitCalls : List Timed :=
  [⟨.key .phone (keyNumeric0 + 5) true, 1000⟩, ⟨.redKey true 2000 true, 2000⟩,
    ⟨.redKey false 2100 true, 2100⟩, ⟨.key .phone (keyNumeric0 + 5) true, 2200⟩]

/-- The repeat is answered `false` although the first press was delivered. -/
theorem red_key_splits_gesture :
    ¬ ∀ (l : List PowerStep) (s : State × ℕ), machine.Trace l s →
      ∀ pre x post, l = pre ++ x :: post → Safe pre x := by
  intro hsafe
  obtain ⟨s', htrace⟩ := trace_steps splitCalls
    (Machine.Trace.start ⟨30, 5, 0, rfl⟩) (by decide) (by decide)
  have hlast := hsafe _ _ htrace ((steps (init 30 5 0, 0) splitCalls).take 3)
    ((steps (init 30 5 0, 0) splitCalls).getLast (by simp [steps, splitCalls])) [] rfl
  have hrepeat := hlast.gesture_uniform .phone (keyNumeric0 + 5) true true (by decide) rfl rfl
  exact absurd hrepeat (by decide)

/-- The same with the release in place of the repeat. -/
def heldCalls : List Timed :=
  [⟨.key .phone (keyNumeric0 + 5) true, 1000⟩, ⟨.redKey true 2000 true, 2000⟩,
    ⟨.redKey false 2100 true, 2100⟩, ⟨.key .phone (keyNumeric0 + 5) false, 2200⟩]

/-- Without the repeat the run is safe, up to the release that comes while the
phone is dark and locked. -/
theorem safe_held_over_lock :
    ∃ s, machine.Trace (steps (init 30 5 0, 0) heldCalls) s ∧
      ∀ pre x post, steps (init 30 5 0, 0) heldCalls = pre ++ x :: post → Safe pre x := by
  obtain ⟨s', htrace⟩ := trace_steps heldCalls
    (Machine.Trace.start ⟨30, 5, 0, rfl⟩) (by decide) (by decide)
  refine ⟨s', htrace, safe_of_noLateRepeat htrace ?_⟩
  intro x hx
  rintro ⟨source, code, hcode, hcall, hkeys, -⟩
  simp only [steps, heldCalls, List.mem_cons, List.not_mem_nil, or_false] at hx
  rcases hx with rfl | rfl | rfl | rfl
  · simp [init] at hkeys
  · simp at hcall
  · simp at hcall
  · simp at hcall

end Power
