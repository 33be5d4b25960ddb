/-
The next occurrence of a schedule (`clock_model_alarm_next_due`).

A weekly schedule rings at one time of day on some days of the week, counted in
UTC with Thursday, 1970-01-01, as day zero.  The source tries eight days from
the day of `after` on; eight are enough, because the same weekday returns after
seven.

Main results:
- `isLeast_of_alarmNextDue`, `alarmNextDue_eq_none_iff`: an occurrence that is returned
  is the first one, and a schedule that has one returns one;
- `alarmNextDue_weekly`: the weekly case in terms of hours, minutes and weekdays.
-/
import Mathlib.Order.Bounds.Basic
import Fplinux.Clock.Invariant

namespace Clock

/-! ### The calendar -/

def hourOf (utc : ℤ) : ℤ := utc % 86400 / 3600
def minuteOf (utc : ℤ) : ℤ := utc % 3600 / 60
def secondOf (utc : ℤ) : ℤ := utc % 60
/-- Monday is zero; 1970-01-01 was a Thursday. -/
def weekdayOf (utc : ℤ) : ℕ := ((utc / 86400 + 3) % 7).toNat

/-- The instants after `after`, in the supported range, at which a schedule
rings. -/
def Upcoming (spec : AlarmSpec) (after : ℤ) : Set ℤ :=
  {due | after < due ∧ validWall due = true ∧ Occurs spec due}

/-! ### Weekly schedules -/

variable {spec : AlarmSpec} {after : ℤ}

theorem weekly_times (h : validSpec spec = true) (hweekly : spec.schedule = .weekly) :
    spec.hour < 24 ∧ spec.minute < 60 := by
  rw [validSpec, hweekly] at h
  split at h
  · simp at h
  · simp only [decide_eq_true_eq] at h
    exact ⟨h.2.1, h.2.2.1⟩

theorem weeklyTime_day (hhour : spec.hour < 24) (hminute : spec.minute < 60) (localDay : ℤ) :
    weeklyTime spec localDay / 86400 = localDay := by
  rw [weeklyTime, secondsPerDay]
  omega

/-- **A weekly schedule rings at its time of day on its weekdays.** -/
theorem occurs_weekly (h : validSpec spec = true) (hweekly : spec.schedule = .weekly) (due : ℤ) :
    Occurs spec due ↔ hourOf due = spec.hour ∧ minuteOf due = spec.minute ∧ secondOf due = 0 ∧
      spec.repeatDays.testBit (weekdayOf due) = true := by
  obtain ⟨hhour, hminute⟩ := weekly_times h hweekly
  rw [Occurs, hweekly]
  simp only
  constructor
  · rintro ⟨localDay, rfl, hrings⟩
    have hday := weeklyTime_day hhour hminute localDay
    refine ⟨?_, ?_, ?_, ?_⟩
    · rw [hourOf, weeklyTime, secondsPerDay]
      omega
    · rw [minuteOf, weeklyTime, secondsPerDay]
      omega
    · rw [secondOf, weeklyTime, secondsPerDay]
      omega
    · rw [weekdayOf, hday]
      exact hrings
  · rintro ⟨hh, hm, hs, hrings⟩
    refine ⟨due / 86400, ?_, hrings⟩
    rw [hourOf] at hh
    rw [minuteOf] at hm
    rw [secondOf] at hs
    rw [weeklyTime, secondsPerDay]
    omega

theorem ringsOn_week (spec : AlarmSpec) (localDay weeks : ℤ) :
    ringsOn spec (localDay - 7 * weeks) = ringsOn spec localDay := by
  have hmod : (localDay - 7 * weeks + 3) % 7 = (localDay + 3) % 7 := by omega
  rw [ringsOn, ringsOn, hmod]

/-! ### The search -/

theorem findSome_range {α : Type*} {f : ℕ → Option α} {n : ℕ} {value : α}
    (h : (List.range n).findSome? f = some value) :
    ∃ k < n, f k = some value ∧ ∀ j < k, f j = none := by
  induction n with
  | zero => simp at h
  | succ n ih =>
    rw [List.range_succ, List.findSome?_append] at h
    cases hfirst : (List.range n).findSome? f with
    | some first =>
      rw [hfirst] at h ih
      obtain ⟨k, hk, hval, hbefore⟩ := ih h
      exact ⟨k, by omega, hval, hbefore⟩
    | none =>
      rw [hfirst] at h
      refine ⟨n, by omega, by simpa using h, fun j hj => ?_⟩
      exact List.findSome?_eq_none_iff.mp hfirst j (List.mem_range.mpr hj)

/-- One day of the search. -/
def candidate (spec : AlarmSpec) (after : ℤ) (offset : ℕ) : Option ℤ :=
  let localDay := after / secondsPerDay + offset
  if weeklyTime spec localDay > after ∧ validWall (weeklyTime spec localDay) ∧ ringsOn spec localDay
  then some (weeklyTime spec localDay) else none

theorem alarmNextDue_eq (hspec : validSpec spec = true) (hafter : validWall after = true)
    (hweekly : spec.schedule = .weekly) :
    alarmNextDue spec after = (List.range 8).findSome? (candidate spec after) := by
  rw [alarmNextDue, hspec, hafter, hweekly]
  rfl

theorem candidate_of_upcoming {localDay : ℤ} {offset : ℕ}
    (hday : localDay = after / secondsPerDay + offset)
    (hup : after < weeklyTime spec localDay ∧ validWall (weeklyTime spec localDay) = true)
    (hrings : ringsOn spec localDay = true) :
    candidate spec after offset = some (weeklyTime spec localDay) := by
  subst hday
  rw [candidate, if_pos ⟨hup.1, hup.2, hrings⟩]

theorem day_le (hhour : spec.hour < 24) (hminute : spec.minute < 60) {localDay : ℤ}
    (hlt : after < weeklyTime spec localDay) :
    ∃ offset : ℕ, localDay = after / secondsPerDay + offset := by
  refine ⟨(localDay - after / secondsPerDay).toNat, ?_⟩
  rw [weeklyTime, secondsPerDay] at hlt
  rw [secondsPerDay]
  omega

/-- **The occurrence returned is the first.** -/
theorem isLeast_of_alarmNextDue {due : ℤ} (h : alarmNextDue spec after = some due) :
    IsLeast (Upcoming spec after) due := by
  obtain ⟨hwall, hlt, -, hocc⟩ := alarmNextDue_some h
  refine ⟨⟨hlt, hwall, hocc⟩, ?_⟩
  rintro other ⟨hother, hvalid, hoccurs⟩
  cases hsched : spec.schedule with
  | once =>
    rw [Occurs, hsched] at hocc hoccurs
    simp only at hocc hoccurs
    omega
  | weekly =>
    have hinput : validSpec spec = true ∧ validWall after = true := by
      rw [alarmNextDue] at h
      split at h
      · simp at h
      · rename_i hvalid'
        simpa using hvalid'
    obtain ⟨hhour, hminute⟩ := weekly_times hinput.1 hsched
    rw [alarmNextDue_eq hinput.1 hinput.2 hsched] at h
    obtain ⟨k, -, hk, hbefore⟩ := findSome_range h
    rw [Occurs, hsched] at hoccurs
    obtain ⟨localDay, rfl, hrings⟩ := hoccurs
    obtain ⟨offset, hday⟩ := day_le hhour hminute hother
    have hle : k ≤ offset := by
      by_contra hnot
      have hnone := hbefore offset (by omega)
      rw [candidate_of_upcoming hday ⟨hother, hvalid⟩ hrings] at hnone
      simp at hnone
    rw [candidate] at hk
    split at hk
    · obtain rfl := Option.some.inj hk
      rw [hday, weeklyTime, weeklyTime, secondsPerDay]
      omega
    · simp at hk

/-- **A schedule with an upcoming occurrence has a next one.** -/
theorem exists_of_upcoming (hspec : validSpec spec = true) (hafter : validWall after = true)
    (h : (Upcoming spec after).Nonempty) :
    ∃ due, alarmNextDue spec after = some due := by
  obtain ⟨due, hlt, hvalid, hocc⟩ := h
  cases hsched : spec.schedule with
  | once =>
    rw [Occurs, hsched] at hocc
    simp only at hocc
    refine ⟨spec.onceUtc, ?_⟩
    rw [alarmNextDue, hspec, hafter, hsched]
    simp only [Bool.not_true, Bool.or_self, Bool.false_eq_true, if_false]
    rw [if_neg (by omega)]
  | weekly =>
    obtain ⟨hhour, hminute⟩ := weekly_times hspec hsched
    rw [Occurs, hsched] at hocc
    obtain ⟨localDay, rfl, hrings⟩ := hocc
    obtain ⟨offset, hday⟩ := day_le hhour hminute hlt
    rw [alarmNextDue_eq hspec hafter hsched]
    by_contra hnone
    have hall : ∀ j < 8, candidate spec after j = none := by
      intro j hj
      cases hfind : (List.range 8).findSome? (candidate spec after) with
      | none => exact List.findSome?_eq_none_iff.mp hfind j (List.mem_range.mpr hj)
      | some value => exact absurd ⟨value, hfind⟩ hnone
    by_cases hnear : offset < 8
    · have hgone := hall offset hnear
      rw [candidate_of_upcoming hday ⟨hlt, hvalid⟩ hrings] at hgone
      simp at hgone
    · -- The same weekday within a week after the day of `after` is earlier and also rings.
      have hback : localDay - 7 * (((offset - 1) / 7 : ℕ) : ℤ) =
          after / secondsPerDay + (((offset - 1) % 7 + 1 : ℕ) : ℤ) := by
        rw [hday]
        omega
      have hrings' : ringsOn spec (localDay - 7 * (((offset - 1) / 7 : ℕ) : ℤ)) = true := by
        rw [ringsOn_week]
        exact hrings
      have hgone := hall ((offset - 1) % 7 + 1) (by omega)
      rw [validWall_iff] at hvalid hafter
      have htimes : after < weeklyTime spec (localDay - 7 * (((offset - 1) / 7 : ℕ) : ℤ)) ∧
          validWall (weeklyTime spec (localDay - 7 * (((offset - 1) / 7 : ℕ) : ℤ))) = true := by
        rw [validWall_iff]
        rw [hback]
        rw [weeklyTime, secondsPerDay] at hvalid ⊢
        rw [hday, secondsPerDay] at hvalid
        omega
      rw [candidate_of_upcoming hback htimes hrings'] at hgone
      simp at hgone

theorem alarmNextDue_eq_some_iff (hspec : validSpec spec = true) (hafter : validWall after = true)
    (due : ℤ) :
    alarmNextDue spec after = some due ↔ IsLeast (Upcoming spec after) due := by
  constructor
  · exact isLeast_of_alarmNextDue
  · intro hleast
    obtain ⟨first, hfirst⟩ := exists_of_upcoming hspec hafter ⟨due, hleast.1⟩
    rw [hfirst, (isLeast_of_alarmNextDue hfirst).unique hleast]

theorem alarmNextDue_eq_none_iff (hspec : validSpec spec = true) (hafter : validWall after = true) :
    alarmNextDue spec after = none ↔ ¬ (Upcoming spec after).Nonempty := by
  constructor
  · intro hnone hup
    obtain ⟨due, hdue⟩ := exists_of_upcoming hspec hafter hup
    rw [hnone] at hdue
    simp at hdue
  · intro hup
    cases hdue : alarmNextDue spec after with
    | none => rfl
    | some due => exact absurd ⟨due, (isLeast_of_alarmNextDue hdue).1⟩ hup

/-- The instants after `after`, in the supported range, at the hour and minute of
a specification on one of its weekdays. -/
def WeeklyInstants (spec : AlarmSpec) (after : ℤ) : Set ℤ :=
  {due | after < due ∧ wallMin ≤ due ∧ due ≤ wallMax ∧ hourOf due = spec.hour ∧
    minuteOf due = spec.minute ∧ secondOf due = 0 ∧
    spec.repeatDays.testBit (weekdayOf due) = true}

/-- **The next occurrence of a weekly alarm** is the least instant after `after`
at its time of day on one of its weekdays, and there is none exactly when no such
instant is in range. -/
theorem alarmNextDue_weekly {spec : AlarmSpec} {after : ℤ} (hspec : validSpec spec = true)
    (hweekly : spec.schedule = .weekly) (hafter : validWall after = true) :
    (∀ due, alarmNextDue spec after = some due ↔ IsLeast (WeeklyInstants spec after) due) ∧
      (alarmNextDue spec after = none ↔ ¬ (WeeklyInstants spec after).Nonempty) := by
  have hset : Upcoming spec after = WeeklyInstants spec after := by
    ext due
    rw [Upcoming, WeeklyInstants, Set.mem_ofPred_eq, Set.mem_ofPred_eq, validWall_iff,
      occurs_weekly hspec hweekly, and_assoc]
  rw [← hset]
  exact ⟨alarmNextDue_eq_some_iff hspec hafter, alarmNextDue_eq_none_iff hspec hafter⟩

/-- An alarm on Mondays at seven, a minute later on a Monday, waits a week. -/
theorem alarmNextDue_monday :
    IsLeast (WeeklyInstants ⟨[], .weekly, 0, 7, 0, 1, true⟩ 1700463660) 1701068400 :=
  ((alarmNextDue_weekly (by decide) rfl (by decide)).1 1701068400).mp (by decide)

end Clock
