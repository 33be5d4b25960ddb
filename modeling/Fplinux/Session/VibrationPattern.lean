/-
The patterns a session accepts, as the vibration policy plays them
(`fplinux-ui-session.c`, `session-vibration.c`).

A pattern is an initial wait, a pulse, and then pauses and pulses in turn.  When it
repeats, its final pause and its initial wait come together; with neither of them the
last pulse runs into the first one of the next repetition.

Main results:
- `shape_of_valid`: what the validator says of a pattern, entry by entry;
- `seam_repeat`: one repetition leaves the signal as the one before did;
- `pattern_limits`: every pulse and every pause of an accepted pattern keeps the limits.
-/
import Fplinux.Lib.Signal
import Fplinux.Session.Vibration

namespace SessionVibration

open List (getD_cons_succ getD_cons_zero length_cons sum_cons)
open UiSession (Message vibrateValid durationValid patternMax vibrationPulseMinMs
  vibrationPulseMaxMs vibrationPauseMinMs)
open Signal (Limits On Off Paced IsPulse IsPause)

/-! ### The shape of a pattern -/

def IsPulseMs (duration : ℕ) : Prop :=
  vibrationPulseMinMs ≤ duration ∧ duration ≤ vibrationPulseMaxMs

/-- Pauses and pulses in turn, and perhaps a final pause of any length. -/
inductive Tail : List ℕ → Prop
  | nil : Tail []
  | final (pause : ℕ) : Tail [pause]
  | cons {pause pulse : ℕ} {rest : List ℕ} :
      vibrationPauseMinMs ≤ pause → IsPulseMs pulse → Tail rest → Tail (pause :: pulse :: rest)

/-- The pause at the end, zero if there is none. -/
def finalPause : List ℕ → ℕ
  | [] => 0
  | [pause] => pause
  | _ :: _ :: rest => finalPause rest

/-- The last pulse, or the one before the tail. -/
def lastPulse : ℕ → List ℕ → ℕ
  | pulse, [] => pulse
  | pulse, [_] => pulse
  | _, _ :: pulse :: rest => lastPulse pulse rest

theorem durationValid_add_two (count i duration : ℕ) :
    durationValid (count + 2) (i + 2) duration = durationValid count i duration := by
  have hparity : (i + 2) % 2 = i % 2 := by omega
  have hlast : (i + 2 + 1 < count + 2) = (i + 1 < count) := by
    rw [eq_iff_iff]
    omega
  simp only [durationValid, hparity, hlast]

theorem tail_of_valid (tail : List ℕ)
    (h : ∀ i < tail.length, durationValid tail.length i (tail.getD i 0) = true) : Tail tail := by
  induction tail using finalPause.induct with
  | case1 => exact .nil
  | case2 pause => exact .final pause
  | case3 pause pulse rest ih =>
    have hpause := h 0 (by simp)
    have hpulse := h 1 (by simp)
    have hmore : 0 + 1 < (pause :: pulse :: rest).length := by simp
    simp only [durationValid, hmore, Nat.zero_mod, zero_ne_one, if_false, if_true,
      getD_cons_zero, Bool.and_eq_true, decide_eq_true_iff] at hpause
    simp only [durationValid, Nat.mod_succ, if_true, getD_cons_succ, getD_cons_zero,
      Bool.and_eq_true, decide_eq_true_iff] at hpulse
    refine .cons hpause.1 hpulse (ih fun i hlt => ?_)
    have hrest := h (i + 2) (by simpa using hlt)
    simp only [length_cons, getD_cons_succ, durationValid_add_two] at hrest
    exact hrest

theorem finalPause_eq (tail : List ℕ) :
    finalPause tail = if tail.length % 2 = 1 then tail.getD (tail.length - 1) 0 else 0 := by
  induction tail using finalPause.induct with
  | case1 => rfl
  | case2 pause => rfl
  | case3 pause pulse rest ih =>
    rw [finalPause, ih]
    cases rest with
    | nil => simp
    | cons first rest =>
      have hparity : (pause :: pulse :: first :: rest).length % 2 = (first :: rest).length % 2 := by
        simp only [length_cons]
        omega
      rw [hparity]
      rfl

theorem lastPulse_eq (pulse : ℕ) (tail : List ℕ) :
    lastPulse pulse tail =
      (pulse :: tail).getD (if tail.length % 2 = 1 then tail.length - 1 else tail.length) 0 := by
  induction pulse, tail using lastPulse.induct with
  | case1 pulse => rfl
  | case2 pulse pause => rfl
  | case3 first pause pulse rest ih =>
    rw [lastPulse, ih]
    have hparity : (pause :: pulse :: rest).length % 2 = rest.length % 2 := by
      simp only [length_cons]
      omega
    rw [hparity]
    split
    · rename_i hodd
      obtain ⟨k, hk⟩ : ∃ k, rest.length = k + 1 := ⟨rest.length - 1, by omega⟩
      simp only [hk, length_cons, Nat.add_sub_cancel, getD_cons_succ]
    · simp only [length_cons, getD_cons_succ]

/-- What the validator says of a pattern that plays. -/
structure Shape (pattern : List ℕ) (repeats : Bool) : Prop where
  parts : ∃ wait pulse tail, pattern = wait :: pulse :: tail ∧ IsPulseMs pulse ∧ Tail tail ∧
    (repeats = true →
      (wait + finalPause tail ≠ 0 → vibrationPauseMinMs ≤ wait + finalPause tail) ∧
      (wait + finalPause tail = 0 → 2 ≤ tail.length ∧
        lastPulse pulse tail + pulse ≤ vibrationPulseMaxMs))

variable {message : Message}

/-- **Validation**, entry by entry. -/
theorem shape_of_valid (h : vibrateValid message = true) (hpattern : message.pattern ≠ []) :
    Shape message.pattern message.repeats := by
  rw [vibrateValid] at h
  simp only at h
  split at h
  · cases h
  split at h
  · rename_i hzero
    exact absurd (List.length_eq_zero_iff.mp hzero) hpattern
  split at h
  · cases h
  rename_i hshort
  split at h
  · cases h
  rename_i hall
  generalize message.pattern = pattern at *
  obtain ⟨wait, pulse, tail, rfl⟩ : ∃ wait pulse tail, pattern = wait :: pulse :: tail := by
    match pattern, hshort with
    | [], hshort => simp at hshort
    | [_], hshort => simp at hshort
    | wait :: pulse :: tail, _ => exact ⟨wait, pulse, tail, rfl⟩
  simp only [Bool.not_eq_true', Bool.not_eq_false, List.all_eq_true, List.mem_range,
    Bool.or_eq_true, beq_iff_eq] at hall
  have hpulse := (hall 1 (by simp)).resolve_left (by decide)
  simp only [durationValid, Nat.mod_succ, if_true, getD_cons_succ, getD_cons_zero,
    Bool.and_eq_true, decide_eq_true_iff] at hpulse
  have htail : Tail tail := by
    refine tail_of_valid tail fun i hlt => ?_
    have hrest := (hall (i + 2) (by simpa using hlt)).resolve_left (by omega)
    simp only [length_cons, getD_cons_succ, durationValid_add_two] at hrest
    exact hrest
  refine ⟨wait, pulse, tail, rfl, hpulse, htail, ?_⟩
  intro hrepeats
  rw [hrepeats] at h
  have hparity : (wait :: pulse :: tail).length % 2 = tail.length % 2 := by
    simp only [length_cons]
    omega
  have hfinal : (if (wait :: pulse :: tail).length % 2 = 1 then
      (wait :: pulse :: tail).getD ((wait :: pulse :: tail).length - 1) 0 else 0) =
        finalPause tail := by
    rw [finalPause_eq, hparity]
    split
    · rename_i hodd
      obtain ⟨k, hk⟩ : ∃ k, tail.length = k + 1 := ⟨tail.length - 1, by omega⟩
      simp only [hk, length_cons, Nat.add_sub_cancel, getD_cons_succ]
    · rfl
  simp only [Bool.not_true, Bool.false_eq_true, if_false, hfinal] at h
  split at h
  · rename_i hpause
    exact ⟨fun _ => by simpa using h, fun hzero => absurd hzero hpause⟩
  · rename_i hnone
    refine ⟨fun hsome => absurd hsome hnone, fun _ => ?_⟩
    have hlast : (wait :: pulse :: tail).getD (if (wait :: pulse :: tail).length % 2 = 1 then
        (wait :: pulse :: tail).length - 2 else (wait :: pulse :: tail).length - 1) 0 =
          lastPulse pulse tail := by
      rw [lastPulse_eq, hparity]
      split
      · rename_i hodd
        obtain ⟨k, hk⟩ : ∃ k, tail.length = k + 1 := ⟨tail.length - 1, by omega⟩
        have hindex : k + 1 + 1 + 1 - 2 = k + 1 := by omega
        simp only [hk, length_cons, hindex, Nat.add_sub_cancel, getD_cons_succ]
      · simp only [length_cons, Nat.add_sub_cancel, getD_cons_succ]
    rw [hparity] at hlast
    simp only [hparity, hlast, getD_cons_succ, getD_cons_zero, Bool.and_eq_true,
      decide_eq_true_iff] at h
    refine ⟨?_, h.2⟩
    have hmany := h.1
    simp only [length_cons] at hmany
    split at hmany <;> omega

/-! ### How a signal follows a pattern -/

/-- The signal follows the entries from an index on: even ones off, odd ones on. -/
def Plays (p : ℕ → Bool) : ℕ → ℕ → List ℕ → Prop
  | _, _, [] => True
  | now, i, duration :: rest =>
    (∀ t, now ≤ t → t < now + duration → p t = decide (i % 2 = 1)) ∧
      Plays p (now + duration) (i + 1) rest

theorem plays_of_findStep {p : ℕ → Bool} {entries : List ℕ} {now i at' : ℕ}
    (h : ∀ elapsed < entries.sum,
      p (now + elapsed) = (findStep entries i at' elapsed).any Prod.fst) :
    Plays p now i entries := by
  induction entries generalizing now i at' with
  | nil => trivial
  | cons duration rest ih =>
    rw [sum_cons] at h
    have hrest : ∀ elapsed < rest.sum, p (now + duration + elapsed) =
        (findStep rest (i + 1) (at' + duration) elapsed).any Prod.fst := by
      intro elapsed hlt
      have hlater := h (duration + elapsed) (by omega)
      rw [findStep, if_neg (by omega), show duration + elapsed - duration = elapsed by omega,
        ← Nat.add_assoc] at hlater
      exact hlater
    refine ⟨?_, ih hrest⟩
    intro t hfrom hlt
    have hentry := h (t - now) (by omega)
    rw [show now + (t - now) = t by omega, findStep, if_pos (by omega)] at hentry
    exact hentry

theorem findStep_none {entries : List ℕ} {i at' elapsed : ℕ} (h : entries.sum ≤ elapsed) :
    findStep entries i at' elapsed = none := by
  induction entries generalizing i at' elapsed with
  | nil => rfl
  | cons duration rest ih =>
    rw [sum_cons] at h
    rw [findStep, if_neg (by omega)]
    exact ih (by omega)

/-- The limits of a pattern that is played as it is. -/
def patternLimits : Limits :=
  ⟨vibrationPulseMinMs, vibrationPulseMaxMs, vibrationPauseMinMs, by decide⟩

/-- On for the last `n` milliseconds, which is long enough. -/
def Sounding (p : ℕ → Bool) (now n : ℕ) : Prop :=
  n ≤ now ∧ vibrationPulseMinMs ≤ n ∧ On patternLimits p now (now - n)

/-- Off for the last `n` milliseconds, or ever. -/
def Quiet (p : ℕ → Bool) (now n : ℕ) : Prop :=
  ∃ since, Off patternLimits p now since ∧ (since + n ≤ now ∨ ∀ t < now, p t = false)

variable {p : ℕ → Bool} {now n duration : ℕ}

theorem Sounding.rest (h : Sounding p now n)
    (hoff : ∀ t, now ≤ t → t < now + duration → p t = false) :
    Quiet p (now + duration) duration := by
  obtain ⟨hle, hleast, hon⟩ := h
  have hstop := hon.stop fun _ => (by
    show vibrationPulseMinMs ≤ now - (now - n)
    omega)
  exact ⟨now, hstop.extend hoff, .inl (Nat.le_refl _)⟩

theorem Quiet.rest (h : Quiet p now n)
    (hoff : ∀ t, now ≤ t → t < now + duration → p t = false) :
    Quiet p (now + duration) (n + duration) := by
  obtain ⟨since, hsince, hlong⟩ := h
  refine ⟨since, hsince.extend hoff, ?_⟩
  rcases hlong with hlong | hnever
  · exact .inl (by omega)
  · right
    intro t hlt
    rcases Nat.lt_or_ge t now with hold | hnew
    · exact hnever t hold
    · exact hoff t hnew hlt

theorem Quiet.pulse (h : Quiet p now n) (hn : vibrationPauseMinMs ≤ n)
    (hon : ∀ t, now ≤ t → t < now + duration → p t = true) (hpulse : IsPulseMs duration) :
    Sounding p (now + duration) duration := by
  obtain ⟨since, hsince, hlong⟩ := h
  have hstart := hsince.start (hlong.imp_left fun hle => by
    show vibrationPauseMinMs ≤ now - since
    omega)
  refine ⟨by omega, hpulse.1, ?_⟩
  rw [Nat.add_sub_cancel]
  refine hstart.extend hon ?_
  rw [Nat.add_sub_cancel_left]
  exact hpulse.2

theorem Sounding.pulse (h : Sounding p now n)
    (hon : ∀ t, now ≤ t → t < now + duration → p t = true)
    (hmost : n + duration ≤ vibrationPulseMaxMs) :
    Sounding p (now + duration) (n + duration) := by
  obtain ⟨hle, hleast, hsince⟩ := h
  refine ⟨by omega, by omega, ?_⟩
  rw [show now + duration - (n + duration) = now - n by omega]
  refine hsince.extend hon ?_
  show now + duration - (now - n) ≤ vibrationPulseMaxMs
  omega

/-- How the signal stands at the end of some entries: at rest in the final pause, or still
in the last pulse. -/
def Ends (p : ℕ → Bool) (now last final : ℕ) : Prop :=
  if final = 0 then Sounding p now last else Quiet p now final

/-- **From one pulse to the end** of the tail after it. -/
theorem Sounding.tail {entries : List ℕ} (h : Sounding p now n) (htail : Tail entries) {i : ℕ}
    (hi : i % 2 = 0) (hplays : Plays p now i entries) :
    Ends p (now + entries.sum) (lastPulse n entries) (finalPause entries) := by
  induction htail generalizing now n i with
  | nil => exact h
  | final pause =>
    have hoff : ∀ t, now ≤ t → t < now + pause → p t = false := by
      intro t hfrom hlt
      rw [hplays.1 t hfrom hlt, hi]
      rfl
    rw [Ends, List.sum_singleton]
    split
    · rename_i hzero
      have hnone : pause = 0 := hzero
      rw [hnone]
      exact h
    · exact h.rest hoff
  | @cons pause pulse rest hpause hpulse _ ih =>
    obtain ⟨hoff, hon, hrest⟩ := hplays
    have hquiet := h.rest fun t hfrom hlt => by
      rw [hoff t hfrom hlt, hi]
      rfl
    have hsounding := hquiet.pulse hpause (fun t hfrom hlt => by
      rw [hon t hfrom hlt, show (i + 1) % 2 = 1 by omega]
      rfl) hpulse
    rw [sum_cons, sum_cons, ← Nat.add_assoc, ← Nat.add_assoc]
    exact ih hsounding (by omega) hrest

/-! ### Repetitions -/

variable {tail : List ℕ}

theorem lastPulse_of_length (h : 2 ≤ tail.length) (n m : ℕ) :
    lastPulse n tail = lastPulse m tail := by
  match tail, h with
  | _ :: _ :: _, _ => rfl

variable {pulse wait : ℕ}

theorem ends_of_quiet (h : Quiet p (now + wait) n) (hn : vibrationPauseMinMs ≤ n)
    (hpulse : IsPulseMs pulse)
    (htail : Tail tail) (hplays : Plays p now 0 (wait :: pulse :: tail)) :
    Ends p (now + (wait :: pulse :: tail).sum) (lastPulse pulse tail) (finalPause tail) := by
  obtain ⟨-, hon, hrest⟩ := hplays
  have hsounding := h.pulse hn (fun t hfrom hlt => hon t hfrom hlt) hpulse
  rw [sum_cons, sum_cons, ← Nat.add_assoc, ← Nat.add_assoc]
  exact hsounding.tail htail rfl hrest

/-- **One repetition** ends as the one before did. -/
theorem seam_repeat (hpulse : IsPulseMs pulse) (htail : Tail tail)
    (hpause : wait + finalPause tail ≠ 0 → vibrationPauseMinMs ≤ wait + finalPause tail)
    (hjoined : wait + finalPause tail = 0 → 2 ≤ tail.length ∧
      lastPulse pulse tail + pulse ≤ vibrationPulseMaxMs)
    (hplays : Plays p now 0 (wait :: pulse :: tail))
    (h : Ends p now (lastPulse pulse tail) (finalPause tail)) :
    Ends p (now + (wait :: pulse :: tail).sum) (lastPulse pulse tail) (finalPause tail) := by
  have hoff : ∀ t, now ≤ t → t < now + wait → p t = false := hplays.1
  by_cases hzero : wait + finalPause tail = 0
  · -- the last pulse runs into the first one
    obtain ⟨hmany, hmost⟩ := hjoined hzero
    have hwait : wait = 0 := by omega
    have hfinal : finalPause tail = 0 := by omega
    rw [Ends, if_pos hfinal] at h
    obtain ⟨-, hon, hrest⟩ := hplays
    rw [hwait, Nat.add_zero] at hon hrest
    have hsounding := h.pulse (fun t hfrom hlt => hon t hfrom hlt) hmost
    have hends := hsounding.tail htail rfl hrest
    rw [lastPulse_of_length hmany _ pulse] at hends
    rw [hwait, sum_cons, sum_cons, Nat.zero_add, ← Nat.add_assoc]
    exact hends
  · have hlong := hpause hzero
    rw [Ends] at h
    split at h
    · rename_i hfinal
      rw [hfinal, Nat.add_zero] at hlong
      exact ends_of_quiet (h.rest hoff) hlong hpulse htail hplays
    · rw [Nat.add_comm] at hlong
      exact ends_of_quiet (h.rest hoff) hlong hpulse htail hplays

theorem quiet_start (p : ℕ → Bool) (n : ℕ) : Quiet p 0 n :=
  ⟨0, Signal.off_of_never nofun, .inr nofun⟩

theorem Ends.paced {last final : ℕ} (h : Ends p now last final) : Paced patternLimits p now := by
  rw [Ends] at h
  split at h
  · exact h.2.2.paced
  · obtain ⟨since, hoff, -⟩ := h
    exact hoff.paced

theorem ends_first (hpulse : IsPulseMs pulse) (htail : Tail tail)
    (hplays : Plays p 0 0 (wait :: pulse :: tail)) :
    Ends p (wait :: pulse :: tail).sum (lastPulse pulse tail) (finalPause tail) := by
  have hquiet : Quiet p (0 + wait) (vibrationPauseMinMs + wait) :=
    (quiet_start p vibrationPauseMinMs).rest hplays.1
  have hends := ends_of_quiet hquiet (Nat.le_add_right _ _) hpulse htail hplays
  rw [Nat.zero_add] at hends
  exact hends

theorem Ends.silence {last final : ℕ} (h : Ends p now last final)
    (hoff : ∀ t, now ≤ t → p t = false) (k : ℕ) : Paced patternLimits p (now + k) := by
  have hquiet : ∃ n, Quiet p (now + k) n := by
    rw [Ends] at h
    split at h
    · exact ⟨k, h.rest fun t hfrom _ => hoff t hfrom⟩
    · exact ⟨final + k, h.rest fun t hfrom _ => hoff t hfrom⟩
  obtain ⟨n, since, hsince, -⟩ := hquiet
  exact hsince.paced

/-! ### The player -/

/-- The pattern that plays has a pulse now. -/
def sounds (vibration : Vibration) (nowMs : ℕ) : Bool :=
  (currentStep vibration nowMs).any Prod.fst

variable {vibration : Vibration}

theorem sounds_eq (hplaying : vibration.playing = true) (elapsedMs : ℕ) :
    sounds vibration (vibration.startMs + elapsedMs) =
      let loops := if vibration.repeats then elapsedMs / vibration.lengthMs else 0
      (findStep vibration.pattern 0 (vibration.startMs + loops * vibration.lengthMs)
        (elapsedMs - loops * vibration.lengthMs)).any Prod.fst := by
  have helapsed : (if vibration.startMs + elapsedMs > vibration.startMs then
      vibration.startMs + elapsedMs - vibration.startMs else 0) = elapsedMs := by
    split <;> omega
  rw [sounds, currentStep]
  simp only [helapsed, hplaying, Bool.not_true, Bool.false_eq_true, if_false]

theorem play_shape {pattern : List ℕ} {repeats : Bool} (hshape : Shape pattern repeats)
    (hlen : pattern.length ≤ patternMax) (vibration : Vibration) (startMs : ℕ) :
    0 < pattern.sum ∧ play vibration pattern repeats startMs =
      { vibration with
        pattern := pattern
        lengthMs := pattern.sum
        playing := true
        repeats := repeats
        startMs := startMs } := by
  obtain ⟨wait, pulse, tail, rfl, hpulse, -, -⟩ := hshape.parts
  have hleast := hpulse.1
  have hpos : 0 < (wait :: pulse :: tail).sum := by
    have hmin : 0 < vibrationPulseMinMs := by decide
    rw [sum_cons, sum_cons]
    omega
  refine ⟨hpos, ?_⟩
  rw [play, if_neg]
  · have hne : ((wait :: pulse :: tail).sum ≠ 0) = True := eq_true (by omega)
    simp only [hne, decide_true, Bool.and_true]
  · rw [not_or]
    exact ⟨by simp, by omega⟩

theorem paced_of_once {on : ℕ → Bool} (hpulse : IsPulseMs pulse) (htail : Tail tail) (startMs : ℕ)
    (hon : ∀ elapsedMs, on elapsedMs =
      (findStep (wait :: pulse :: tail) 0 startMs elapsedMs).any Prod.fst)
    (k : ℕ) :
    Paced patternLimits on ((wait :: pulse :: tail).sum + k) := by
  have hplays : Plays on 0 0 (wait :: pulse :: tail) := by
    refine @plays_of_findStep on _ 0 0 startMs fun elapsedMs _ => ?_
    rw [Nat.zero_add]
    exact hon elapsedMs
  refine (ends_first hpulse htail hplays).silence (fun elapsedMs hover => ?_) k
  rw [hon, findStep_none hover]
  rfl

theorem paced_of_repeats {on : ℕ → Bool} (hpulse : IsPulseMs pulse) (htail : Tail tail)
    (hpause : wait + finalPause tail ≠ 0 → vibrationPauseMinMs ≤ wait + finalPause tail)
    (hjoined : wait + finalPause tail = 0 → 2 ≤ tail.length ∧
      lastPulse pulse tail + pulse ≤ vibrationPulseMaxMs)
    (hplays : ∀ loops, Plays on (loops * (wait :: pulse :: tail).sum) 0 (wait :: pulse :: tail))
    (loops : ℕ) : Paced patternLimits on ((loops + 1) * (wait :: pulse :: tail).sum) := by
  have hends : Ends on ((loops + 1) * (wait :: pulse :: tail).sum) (lastPulse pulse tail)
      (finalPause tail) := by
    induction loops with
    | zero =>
      have hfirst := hplays 0
      rw [Nat.zero_mul] at hfirst
      rw [Nat.zero_add, Nat.one_mul]
      exact ends_first hpulse htail hfirst
    | succ loops ih =>
      rw [Nat.succ_mul]
      exact seam_repeat hpulse htail hpause hjoined (hplays (loops + 1)) ih
  exact hends.paced

theorem paced_of_shape {pattern : List ℕ} {repeats : Bool} (hshape : Shape pattern repeats)
    (hlen : pattern.length ≤ patternMax) (vibration : Vibration) (startMs bound : ℕ) :
    ∃ now > bound, Paced patternLimits (fun elapsedMs =>
      sounds (play vibration pattern repeats startMs) (startMs + elapsedMs)) now := by
  obtain ⟨hpos, hplay⟩ := play_shape hshape hlen vibration startMs
  have hsounds : ∀ elapsedMs,
      sounds (play vibration pattern repeats startMs) (startMs + elapsedMs) =
      (findStep pattern 0 (startMs + (if repeats then elapsedMs / pattern.sum else 0) * pattern.sum)
        (elapsedMs - (if repeats then elapsedMs / pattern.sum else 0) * pattern.sum)).any
          Prod.fst := by
    intro elapsedMs
    rw [hplay]
    exact sounds_eq rfl elapsedMs
  obtain ⟨wait, pulse, tail, rfl, hpulse, htail, hseam⟩ := hshape.parts
  cases repeats with
  | false =>
    refine ⟨(wait :: pulse :: tail).sum + (bound + 1), by omega, ?_⟩
    refine paced_of_once hpulse htail startMs (fun elapsedMs => ?_) (bound + 1)
    simpa only [Bool.false_eq_true, if_false, Nat.zero_mul, Nat.add_zero, Nat.sub_zero] using
      hsounds elapsedMs
  | true =>
    obtain ⟨hpause, hjoined⟩ := hseam rfl
    have hlong : bound + 1 ≤ (bound + 1) * (wait :: pulse :: tail).sum :=
      Nat.le_mul_of_pos_right _ hpos
    refine ⟨(bound + 1) * (wait :: pulse :: tail).sum, hlong, ?_⟩
    refine paced_of_repeats hpulse htail hpause hjoined (fun loops => ?_) bound
    refine @plays_of_findStep _ _ _ 0 (startMs + loops * (wait :: pulse :: tail).sum) ?_
    intro elapsedMs hlt
    have hloops : (loops * (wait :: pulse :: tail).sum + elapsedMs) / (wait :: pulse :: tail).sum =
        loops := by
      rw [Nat.mul_comm, Nat.mul_add_div hpos, Nat.div_eq_of_lt hlt, Nat.add_zero]
    have hnow := hsounds (loops * (wait :: pulse :: tail).sum + elapsedMs)
    rw [hloops, if_pos rfl, Nat.add_sub_cancel_left] at hnow
    exact hnow

/-- Whether the pattern that started then sounds, so many milliseconds later. -/
def sounding (vibration : Vibration) (message : Message) (startMs elapsedMs : ℕ) : Bool :=
  sounds (play vibration message.pattern message.repeats startMs) (startMs + elapsedMs)

theorem pattern_length_le (h : vibrateValid message = true) :
    message.pattern.length ≤ patternMax := by
  rw [vibrateValid] at h
  simp only at h
  split at h
  · cases h
  · omega

theorem sounding_nil (hpattern : message.pattern = []) (hidle : vibration.playing = false)
    (startMs elapsedMs : ℕ) :
    sounding vibration message startMs elapsedMs = false := by
  have hplay : play vibration message.pattern message.repeats startMs = vibration := by
    rw [play, hpattern]
    exact if_pos (.inl rfl)
  rw [sounding, hplay, sounds, currentStep]
  simp only [hidle, Bool.not_false, if_true]
  rfl

theorem paced_of_valid (hvalid : vibrateValid message = true)
    (hidle : message.pattern = [] → vibration.playing = false) (startMs bound : ℕ) :
    ∃ now > bound, Paced patternLimits (sounding vibration message startMs) now := by
  by_cases hpattern : message.pattern = []
  · have hsilent : ∀ elapsedMs < bound + 1, sounding vibration message startMs elapsedMs = false :=
      fun elapsedMs _ => sounding_nil hpattern (hidle hpattern) startMs elapsedMs
    exact ⟨bound + 1, by omega, (Signal.off_of_never hsilent).paced⟩
  · have hshape := shape_of_valid hvalid hpattern
    exact paced_of_shape hshape (pattern_length_le hvalid) vibration startMs bound

/-- **Accepted patterns keep the limits**: at every instant of every repetition, a longest
interval of the motor being on is a pulse of an allowed length, also when the last and the
first entry of the pattern join in it, and between two of them lies an allowed pause. -/
theorem pattern_limits {message : Message} (hvalid : vibrateValid message = true)
    {vibration : Vibration} (hidle : message.pattern = [] → vibration.playing = false)
    (startMs : ℕ) :
    (∀ a n, (∀ t, a ≤ t → t < a + n → sounding vibration message startMs t = true) →
      n ≤ vibrationPulseMaxMs) ∧
    (∀ a n, IsPulse (sounding vibration message startMs) a n →
      vibrationPulseMinMs ≤ n ∧ n ≤ vibrationPulseMaxMs) ∧
    (∀ a n, IsPause (sounding vibration message startMs) a n → vibrationPauseMinMs ≤ n) := by
  have hpaced := paced_of_valid hvalid hidle startMs
  have hlongest : ∀ a n, (∀ t, a ≤ t → t < a + n → sounding vibration message startMs t = true) →
      n ≤ vibrationPulseMaxMs := by
    intro a n hon
    obtain ⟨now, hnow, hlimits⟩ := hpaced (a + n)
    exact hlimits.longest a n (by omega) hon
  refine ⟨hlongest, ?_, ?_⟩
  · intro a n hpulse
    obtain ⟨now, hnow, hlimits⟩ := hpaced (a + n)
    exact ⟨hlimits.shortest a n hnow hpulse, hlongest a n hpulse.on⟩
  · intro a n hpause
    obtain ⟨now, hnow, hlimits⟩ := hpaced (a + n)
    exact hlimits.apart a n hnow hpause

/-- The last and the first pulse of a repeated pattern may join. -/
theorem pattern_limits_joined :
    let message : Message :=
      { type := .vibrate, pattern := [0, 50, 100, 60], repeats := true }
    vibrateValid message = true ∧ sounding (init 0) message 7 150 = true ∧
      sounding (init 0) message 7 259 = true ∧
      ∀ a n, IsPulse (sounding (init 0) message 7) a n → 50 ≤ n ∧ n ≤ 3000 := by
  have hvalid : vibrateValid { type := .vibrate, pattern := [0, 50, 100, 60], repeats := true } =
      true := by decide
  exact ⟨hvalid, by decide, by decide, (pattern_limits hvalid (fun _ => rfl) 7).2.1⟩

end SessionVibration
