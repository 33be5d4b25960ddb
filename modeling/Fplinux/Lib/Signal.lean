/-
Signals that are on or off, with one value for each unit of time.

A pulse is a longest interval in which a signal is on, and a pause one in which it is
off between two pulses.  `Paced` bounds the pulses and the pauses of a signal up to now;
`On` and `Off` add since when the signal has its present value.  `Bucket` is the account
of a signal that may be on for as long as it was off before: time on takes from it, and
time off gives back, up to its capacity.

Main results:
- `On.extend`, `On.stop`, `Off.extend`, `Off.start`: how a paced signal goes on;
- `Bucket.drain`, `Bucket.fill`: how the account goes on;
- `Paced.congr`, `Bucket.congr`: only the signal up to now matters.
-/
import Mathlib.Data.Nat.Count

namespace Signal

/-! ### Pulses and pauses -/

/-- On for `n` units from `a`, and not just before. -/
structure Rise (p : ℕ → Bool) (a n : ℕ) : Prop where
  pos : 0 < n
  on : ∀ t, a ≤ t → t < a + n → p t = true
  before : a = 0 ∨ p (a - 1) = false

structure IsPulse (p : ℕ → Bool) (a n : ℕ) : Prop extends Rise p a n where
  after : p (a + n) = false

structure IsPause (p : ℕ → Bool) (a n : ℕ) : Prop where
  pos : 0 < n
  off : ∀ t, a ≤ t → t < a + n → p t = false
  before : 0 < a ∧ p (a - 1) = true
  after : p (a + n) = true

/-- How long pulses are, and how far apart. -/
structure Limits where
  least : ℕ
  most : ℕ
  gap : ℕ
  gap_pos : 0 < gap

/-- The signal kept the limits until now. -/
structure Paced (limits : Limits) (p : ℕ → Bool) (now : ℕ) : Prop where
  longest : ∀ a n, a + n ≤ now → (∀ t, a ≤ t → t < a + n → p t = true) → n ≤ limits.most
  shortest : ∀ a n, a + n < now → IsPulse p a n → limits.least ≤ n
  apart : ∀ a n, a + n < now → IsPause p a n → limits.gap ≤ n

/-- On since then, after a pause that was long enough. -/
structure On (limits : Limits) (p : ℕ → Bool) (now since : ℕ) : Prop where
  paced : Paced limits p now
  le : since ≤ now
  on : ∀ t, since ≤ t → t < now → p t = true
  rested : ∀ t < since, p t = true → t + limits.gap < since

/-- Off since then, after a pulse that was long enough. -/
structure Off (limits : Limits) (p : ℕ → Bool) (now since : ℕ) : Prop where
  paced : Paced limits p now
  le : since ≤ now
  off : ∀ t, since ≤ t → t < now → p t = false
  ended : ∀ a n, a + n = since → Rise p a n → limits.least ≤ n

variable {limits : Limits} {p q : ℕ → Bool} {now since : ℕ} {a n k : ℕ}

theorem Rise.congr (h : Rise p a n) (hpq : ∀ t < a + n, p t = q t) : Rise q a n := by
  have hpos := h.pos
  refine ⟨hpos, ?_, ?_⟩
  · intro t hat htn
    rw [← hpq t htn]
    exact h.on t hat htn
  · rcases h.before with hzero | hoff
    · exact .inl hzero
    · right
      rw [← hpq (a - 1) (by omega)]
      exact hoff

theorem Paced.congr (h : Paced limits p now) (hpq : ∀ t < now, p t = q t) :
    Paced limits q now := by
  refine ⟨?_, ?_, ?_⟩
  · intro a n hle hon
    refine h.longest a n hle fun t hat htn => ?_
    rw [hpq t (by omega)]
    exact hon t hat htn
  · intro a n hlt hpulse
    refine h.shortest a n hlt ⟨hpulse.toRise.congr fun t ht => (hpq t (by omega)).symm, ?_⟩
    rw [hpq _ hlt]
    exact hpulse.after
  · intro a n hlt hpause
    have hpos := hpause.pos
    refine h.apart a n hlt ⟨hpos, ?_, ⟨hpause.before.1, ?_⟩, ?_⟩
    · intro t hat htn
      rw [hpq t (by omega)]
      exact hpause.off t hat htn
    · rw [hpq _ (by omega)]
      exact hpause.before.2
    · rw [hpq _ hlt]
      exact hpause.after

theorem On.congr (h : On limits p now since) (hpq : ∀ t < now, p t = q t) :
    On limits q now since := by
  have hle := h.le
  refine ⟨h.paced.congr hpq, hle, ?_, ?_⟩
  · intro t hfrom hlt
    rw [← hpq t hlt]
    exact h.on t hfrom hlt
  · intro t hlt hon
    rw [← hpq t (by omega)] at hon
    exact h.rested t hlt hon

theorem Off.congr (h : Off limits p now since) (hpq : ∀ t < now, p t = q t) :
    Off limits q now since := by
  have hle := h.le
  refine ⟨h.paced.congr hpq, hle, ?_, ?_⟩
  · intro t hfrom hlt
    rw [← hpq t hlt]
    exact h.off t hfrom hlt
  · intro a n hend hrise
    exact h.ended a n hend (hrise.congr fun t ht => (hpq t (by omega)).symm)

/-! ### How a paced signal goes on -/

theorem off_of_never (h : ∀ t < now, p t = false) : Off limits p now now := by
  have hnot : ∀ t, t < now → p t ≠ true := by
    intro t hlt hon
    rw [h t hlt] at hon
    cases hon
  refine ⟨⟨?_, ?_, ?_⟩, le_rfl, ?_, ?_⟩
  · intro a n hle hon
    by_contra hlong
    exact hnot a (by omega) (hon a le_rfl (by omega))
  · intro a n hlt hpulse
    have hpos := hpulse.pos
    exact absurd (hpulse.on a le_rfl (by omega)) (hnot a (by omega))
  · intro a n hlt hpause
    exact absurd hpause.after (hnot _ hlt)
  · intro t hfrom hlt
    exact h t hlt
  · intro a n hend hrise
    have hpos := hrise.pos
    exact absurd (hrise.on a le_rfl (by omega)) (hnot a (by omega))

theorem On.before (h : On limits p now since) : since = 0 ∨ p (since - 1) = false := by
  by_cases hzero : since = 0
  · exact .inl hzero
  · right
    have hgap := limits.gap_pos
    cases hp : p (since - 1) with
    | false => rfl
    | true =>
      have hrested := h.rested (since - 1) (by omega) hp
      omega

/-- **A pulse goes on**, as long as it may. -/
theorem On.extend (h : On limits p now since) (hon : ∀ t, now ≤ t → t < now + k → p t = true)
    (hmost : now + k - since ≤ limits.most) :
    On limits p (now + k) since := by
  have hle := h.le
  have hall : ∀ t, since ≤ t → t < now + k → p t = true := by
    intro t hfrom hlt
    rcases Nat.lt_or_ge t now with hold | hnew
    · exact h.on t hfrom hold
    · exact hon t hnew hlt
  refine ⟨⟨?_, ?_, ?_⟩, by omega, hall, h.rested⟩
  · intro a n hend hrun
    rcases Nat.lt_or_ge a since with hearly | hlate
    · -- the run ends before the pulse, or it would cover the pause in front of it
      rcases Nat.lt_or_ge since (a + n) with hover | hbefore
      · have hoff := h.before.resolve_left (by omega)
        rw [hrun (since - 1) (by omega) (by omega)] at hoff
        cases hoff
      · exact h.paced.longest a n (by omega) hrun
    · omega
  · intro a n hend hpulse
    rcases Nat.lt_or_ge (a + n) now with hold | hnew
    · exact h.paced.shortest a n hold hpulse
    · have hafter := hpulse.after
      rw [hon _ hnew hend] at hafter
      cases hafter
  · intro a n hend hpause
    have hpos := hpause.pos
    rcases Nat.lt_or_ge (a + n) now with hold | hnew
    · exact h.paced.apart a n hold hpause
    · have hlast := hpause.off (a + n - 1) (by omega) (by omega)
      rcases Nat.lt_or_ge (a + n - 1) since with hearly | hlate
      · -- the pause that ends where this pulse begins
        have hrested := h.rested (a - 1) (by omega) hpause.before.2
        have hstart := hpause.before.1
        omega
      · rw [hall _ hlate (by omega)] at hlast
        cases hlast

/-- **A pulse ends.** -/
theorem On.stop (h : On limits p now since) (hleast : since < now → limits.least ≤ now - since) :
    Off limits p now now := by
  have hle := h.le
  refine ⟨h.paced, le_rfl, fun t hfrom hlt => by omega, ?_⟩
  intro a n hend hrise
  have hpos := hrise.pos
  rcases Nat.lt_trichotomy a since with hearly | rfl | hlate
  · have hoff := h.before.resolve_left (by omega)
    rw [hrise.on (since - 1) (by omega) (by omega)] at hoff
    cases hoff
  · have hlong := hleast (by omega)
    omega
  · have hoff := hrise.before.resolve_left (by omega)
    rw [h.on (a - 1) (by omega) (by omega)] at hoff
    cases hoff

/-- **A pause goes on.** -/
theorem Off.extend (h : Off limits p now since) (hoff : ∀ t, now ≤ t → t < now + k → p t = false) :
    Off limits p (now + k) since := by
  have hle := h.le
  have hall : ∀ t, since ≤ t → t < now + k → p t = false := by
    intro t hfrom hlt
    rcases Nat.lt_or_ge t now with hold | hnew
    · exact h.off t hfrom hold
    · exact hoff t hnew hlt
  refine ⟨⟨?_, ?_, ?_⟩, by omega, hall, h.ended⟩
  · intro a n hend hrun
    rcases Nat.lt_or_ge now (a + n) with hnew | hold
    · by_contra hlong
      have hlast := hrun (a + n - 1) (by omega) (by omega)
      rw [hoff (a + n - 1) (by omega) (by omega)] at hlast
      cases hlast
    · exact h.paced.longest a n hold hrun
  · intro a n hend hpulse
    have hpos := hpulse.pos
    rcases Nat.lt_or_ge (a + n) now with hold | hnew
    · exact h.paced.shortest a n hold hpulse
    · rcases Nat.lt_or_ge since (a + n) with hover | hbefore
      · have hlast := hpulse.on (a + n - 1) (by omega) (by omega)
        rw [hall (a + n - 1) (by omega) (by omega)] at hlast
        cases hlast
      · exact h.ended a n (by omega) hpulse.toRise
  · intro a n hend hpause
    rcases Nat.lt_or_ge (a + n) now with hold | hnew
    · exact h.paced.apart a n hold hpause
    · have hafter := hpause.after
      rw [hoff _ hnew hend] at hafter
      cases hafter

/-- **A pulse begins** after a pause that was long enough, or none. -/
theorem Off.start (h : Off limits p now since)
    (hgap : limits.gap ≤ now - since ∨ ∀ t < now, p t = false) : On limits p now now := by
  have hle := h.le
  refine ⟨h.paced, le_rfl, fun t hfrom hlt => by omega, ?_⟩
  intro t hlt hon
  rcases hgap with hgap | hnever
  · rcases Nat.lt_or_ge t since with hearly | hlate
    · omega
    · rw [h.off t hlate hlt] at hon
      cases hon
  · rw [hnever t hlt] at hon
    cases hon

/-! ### Time on and time off -/

/-- How much of the `n` units from `a` the signal is on. -/
def onTime (p : ℕ → Bool) (a n : ℕ) : ℕ := Nat.count (fun t => p (a + t) = true) n

def offTime (p : ℕ → Bool) (a n : ℕ) : ℕ := Nat.count (fun t => p (a + t) = false) n

theorem onTime_add_offTime (p : ℕ → Bool) (a n : ℕ) : onTime p a n + offTime p a n = n := by
  induction n with
  | zero => rfl
  | succ n ih =>
    rw [onTime, offTime, Nat.count_succ, Nat.count_succ]
    rw [onTime, offTime] at ih
    cases hp : p (a + n) with
    | false => simp only [Bool.false_eq_true, if_false, if_true]; omega
    | true => simp only [Bool.true_eq_false, if_false, if_true]; omega

theorem onTime_add (p : ℕ → Bool) (a m n : ℕ) :
    onTime p a (m + n) = onTime p a m + onTime p (a + m) n := by
  simp only [onTime, Nat.count_add, Nat.add_assoc]

theorem onTime_congr (hpq : ∀ t < a + n, p t = q t) : onTime p a n = onTime q a n := by
  induction n with
  | zero => rfl
  | succ n ih =>
    have hrest := ih fun t ht => hpq t (by omega)
    rw [onTime, onTime] at hrest
    rw [onTime, onTime, Nat.count_succ, Nat.count_succ, hrest, hpq (a + n) (by omega)]

theorem onTime_of_off (hoff : ∀ t, a ≤ t → t < a + n → p t = false) : onTime p a n = 0 := by
  induction n with
  | zero => rfl
  | succ n ih =>
    have hrest := ih fun t hat htn => hoff t hat (by omega)
    rw [onTime] at hrest
    rw [onTime, Nat.count_succ, hrest, hoff (a + n) (by omega) (by omega)]
    rfl

theorem onTime_le (p : ℕ → Bool) (a n : ℕ) : onTime p a n ≤ n := by
  have hsum := onTime_add_offTime p a n
  omega

/-- The account of a signal: at `level` now, and time on never ahead of time off by more
than the capacity. -/
structure Bucket (capacity : ℕ) (p : ℕ → Bool) (now level : ℕ) : Prop where
  level_le : level ≤ capacity
  owed : ∀ a n, a + n = now → onTime p a n + level ≤ offTime p a n + capacity
  bounded : ∀ a n, a + n ≤ now → onTime p a n ≤ offTime p a n + capacity

variable {capacity level : ℕ}

theorem offTime_congr (hpq : ∀ t < a + n, p t = q t) : offTime p a n = offTime q a n := by
  have hp := onTime_add_offTime p a n
  have hq := onTime_add_offTime q a n
  rw [onTime_congr hpq] at hp
  omega

theorem Bucket.congr (h : Bucket capacity p now level) (hpq : ∀ t < now, p t = q t) :
    Bucket capacity q now level := by
  refine ⟨h.level_le, ?_, ?_⟩
  · intro a n hend
    rw [← onTime_congr (p := p) fun t ht => hpq t (by omega),
      ← offTime_congr (p := p) fun t ht => hpq t (by omega)]
    exact h.owed a n hend
  · intro a n hle
    rw [← onTime_congr (p := p) fun t ht => hpq t (by omega),
      ← offTime_congr (p := p) fun t ht => hpq t (by omega)]
    exact h.bounded a n hle

theorem bucket_of_never (h : ∀ t < now, p t = false) (hlevel : level ≤ capacity) :
    Bucket capacity p now level := by
  refine ⟨hlevel, ?_, ?_⟩
  · intro a n hend
    rw [onTime_of_off fun t hat htn => h t (by omega)]
    omega
  · intro a n hle
    rw [onTime_of_off fun t hat htn => h t (by omega)]
    omega

/-- **Time on takes from the account**, which must hold it. -/
theorem Bucket.drain (h : Bucket capacity p now level) (hk : k ≤ level) :
    Bucket capacity p (now + k) (level - k) := by
  have hlevel := h.level_le
  have howed : ∀ a n, a + n ≤ now + k → now ≤ a + n →
      onTime p a n + (level - (a + n - now)) ≤ offTime p a n + capacity := by
    intro a n hle hge
    have hsum := onTime_add_offTime p a n
    rcases Nat.lt_or_ge a now with hold | hnew
    · have hsplit := onTime_add p a (now - a) (a + n - now)
      have hbefore := h.owed a (now - a) (by omega)
      have hsum' := onTime_add_offTime p a (now - a)
      have hnow := onTime_le p (a + (now - a)) (a + n - now)
      rw [show now - a + (a + n - now) = n by omega] at hsplit
      omega
    · have hn := onTime_le p a n
      omega
  refine ⟨by omega, ?_, ?_⟩
  · intro a n hend
    have hall := howed a n (by omega) (by omega)
    rw [show a + n - now = k by omega] at hall
    exact hall
  · intro a n hle
    rcases Nat.lt_or_ge (a + n) now with hold | hnew
    · exact h.bounded a n (by omega)
    · have hall := howed a n hle hnew
      omega

/-- **Time off gives back**, at most the time itself. -/
theorem Bucket.fill (h : Bucket capacity p now level) {k level' : ℕ}
    (hoff : ∀ t, now ≤ t → t < now + k → p t = false) (hle : level' ≤ level + k)
    (hcapacity : level' ≤ capacity) : Bucket capacity p (now + k) level' := by
  have hlevel := h.level_le
  have howed : ∀ a n, a + n ≤ now + k → now ≤ a + n →
      onTime p a n + min capacity (level + (a + n - now)) ≤ offTime p a n + capacity := by
    intro a n hend hge
    have hsum := onTime_add_offTime p a n
    rcases Nat.lt_or_ge a now with hold | hnew
    · have hsplit := onTime_add p a (now - a) (a + n - now)
      have hbefore := h.owed a (now - a) (by omega)
      have hsum' := onTime_add_offTime p a (now - a)
      have hnow : onTime p (a + (now - a)) (a + n - now) = 0 :=
        onTime_of_off fun t hat htn => hoff t (by omega) (by omega)
      rw [show now - a + (a + n - now) = n by omega] at hsplit
      omega
    · have hn : onTime p a n = 0 := onTime_of_off fun t hat htn => hoff t (by omega) (by omega)
      omega
  refine ⟨hcapacity, ?_, ?_⟩
  · intro a n hend
    have hall := howed a n (by omega) (by omega)
    rw [show a + n - now = k by omega] at hall
    omega
  · intro a n hle
    rcases Nat.lt_or_ge (a + n) now with hold | hnew
    · exact h.bounded a n (by omega)
    · have hall := howed a n hle hnew
      omega

end Signal
