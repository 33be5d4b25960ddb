/-
The date and duration editor of a form (`fplinux-ui-screen-model.c`).

The editor shows a local time, or a duration, as a row of numbers: the parts in
the order of the language's pattern, each after its separator.  One part has the
focus.  Digits fill it from the right and the focus moves on when it is full;
stepping wraps inside the part's range.  The day shown is the day last chosen,
shortened to the month shown.

Main results:
- `editing_real`: whatever is typed and stepped, finishing leaves a real date whose
  day is the day last chosen or the last of the month, and a duration stays below a
  hundred hours and reads back as the numbers it was taken from;
- `dateValue_normal`: no part that is edited is handed to `mktime` with something to carry.
-/
import Mathlib.Data.Finset.Lattice.Lemmas
import Mathlib.Data.List.TakeWhile
import Mathlib.Tactic.Linarith
import Fplinux.Lib.Bytes

namespace DateEdit

open Bytes (byte ascii)

/-! ### The parts and their ranges -/

/-- `enum fplinux_ui_date_part`, without the count. -/
inductive Part
  | day | month | year | hour | minute | second | durationHour
  deriving DecidableEq, Repr

def yearMin : ℤ := 1900
def yearMax : ℤ := 2099
def durationMaxSeconds : ℕ := 359999
def separatorBytes : ℕ := 8
def defaultPattern : List UInt8 := ascii "\x7bdd\x7d.\x7bmm\x7d.\x7byyyy\x7d"

/-- `limits[part][0]` -/
def low : Part → ℤ
  | .day => 1
  | .month => 1
  | .year => yearMin
  | _ => 0

/-- `limits[part][1]` -/
def high : Part → ℤ
  | .day => 31
  | .month => 12
  | .year => yearMax
  | .hour => 23
  | .minute => 59
  | .second => 59
  | .durationHour => 99

def clamp (value low high : ℤ) : ℤ :=
  if value < low then low else if value > high then high else value

def monthDays : List ℤ := [31, 28, 31, 30, 31, 30, 31, 31, 30, 31, 30, 31]

def leap (year : ℤ) : Bool := (year % 4 = 0 ∧ year % 100 ≠ 0) ∨ year % 400 = 0

def daysInMonth (year month : ℤ) : ℤ :=
  if month < 1 ∨ month > 12 then 31
  else if month = 2 ∧ leap year then 29
  else monthDays.getD (month - 1).toNat 0

def partWidth (part : Part) : ℕ := if part = .year then 4 else 2

/-- The fields of `struct tm` that the editor reads or writes. -/
structure Tm where
  sec : ℤ
  min : ℤ
  hour : ℤ
  mday : ℤ
  mon : ℤ
  year : ℤ
  deriving DecidableEq, Repr

/-- `order[i]` and `separator[i]`. -/
structure Entry where
  part : Part
  separator : List UInt8
  deriving DecidableEq, Repr

/-- `struct fplinux_ui_date_edit`; `count` is the number of entries. -/
structure Edit where
  duration : Bool
  time : Tm
  values : Part → ℤ
  day : ℤ
  entries : List Entry
  position : ℕ
  part : Part
  typed : ℕ

namespace Edit

def order (e : Edit) : List Part := e.entries.map Entry.part

def count (e : Edit) : ℕ := e.entries.length

def setValue (e : Edit) (part : Part) (value : ℤ) : Edit :=
  { e with values := Function.update e.values part value }

def partHigh (e : Edit) (part : Part) : ℤ :=
  if part = .day then daysInMonth (e.values .year) (e.values .month) else high part

def fitDay (e : Edit) : Edit :=
  if e.duration then e else e.setValue .day (clamp e.day 1 (e.partHigh .day))

end Edit

/-! ### The layout -/

def placeholderPart (name : List UInt8) : Option Part :=
  if name = ascii "dd" then some .day
  else if name = ascii "day" then some .day
  else if name = ascii "mm" then some .month
  else if name = ascii "month" then some .month
  else if name = ascii "month.genitive" then some .month
  else if name = ascii "yyyy" then some .year
  else none

/-- The row with `part` appended; `none` where the separator does not fit. -/
def addPart (entries : List Entry) (part : Part) (separator : List UInt8) : Option (List Entry) :=
  if separator.length ≥ separatorBytes then none else some (entries ++ [⟨part, separator⟩])

/-- The loop of `add_date_parts`, on what is left of the pattern. -/
def addDatePartsLoop : ℕ → Finset Part → List Entry → List UInt8 → Option (Finset Part × List Entry)
  | _, seen, entries, [] => some (seen, entries)
  | 0, _, _, _ :: _ => none
  | fuel + 1, seen, entries, pattern =>
    let literal := pattern.takeWhile (· ≠ byte '\x7b')
    match pattern.drop literal.length with
    | [] => some (seen, entries)
    | _ :: name =>
      let inner := name.takeWhile (· ≠ byte '\x7d')
      match name.drop inner.length with
      | [] => none
      | _ :: rest =>
        match placeholderPart inner with
        | none => none
        | some part =>
          if part ∈ seen then none
          else
            match addPart entries part (if seen = ∅ then [] else literal) with
            | none => none
            | some entries => addDatePartsLoop fuel (insert part seen) entries rest

/-- Every round takes two bytes at least, so the length is fuel enough.  The
row counts only where the pattern has all three parts. -/
def addDateParts (pattern : Option (List UInt8)) : Option (List Entry) :=
  match addDatePartsLoop (pattern.getD []).length ∅ [] (pattern.getD []) with
  | none => none
  | some (seen, entries) => if seen = {.day, .month, .year} then some entries else none

def dateEntries (pattern : Option (List UInt8)) : List Entry :=
  (addDateParts pattern).getD ((addDateParts (some defaultPattern)).getD [])

def timeEntries (entries : List Entry) : List Entry :=
  let entries := (addPart entries .hour (if entries = [] then [] else ascii " ")).getD entries
  (addPart entries .minute (ascii ":")).getD entries

/-! ### Beginning -/

/-- A C `int`, in two's complement. -/
def toInt (value : ℤ) : ℤ := value.bmod (2 ^ 32)

/-- `(unsigned int)value` -/
def toUnsigned (value : ℤ) : ℕ := (value % 2 ^ 32).toNat

def zeroTm : Tm := ⟨0, 0, 0, 0, 0, 0⟩

/-- What `localtime_r` left in `edit->time`; `none` where it failed. -/
def beginTime : Option Tm → Tm
  | some time => time
  | none => { zeroTm with year := 2000 - 1900, mday := 1 }

def beginValues (time : Tm) : Part → ℤ
  | .month => clamp (toInt (time.mon + 1)) 1 12
  | .year => clamp (toInt (time.year + 1900)) yearMin yearMax
  | .hour => clamp time.hour 0 23
  | .minute => clamp time.min 0 59
  | _ => 0

def beginEntries (date time : Bool) (pattern : Option (List UInt8)) : List Entry :=
  let entries := if date ∨ ¬ time then dateEntries pattern else []
  if time then timeEntries entries else entries

/-- `edit->part = edit->order[0]`; the array is zero behind the parts. -/
def firstPart (entries : List Entry) : Part := (entries.map Entry.part).headD .day

/-- The edit of a time before its day is fitted and its parts are laid out. -/
def beginEdit (tm : Tm) : Edit :=
  { duration := false, time := tm, values := beginValues tm, day := clamp tm.mday 1 31,
    entries := [], position := 0, part := .day, typed := 0 }

/-- `fplinux_ui_date_edit_begin`, with what `localtime_r` answers. -/
def dateBegin (localtime : Option Tm) (date time : Bool) (pattern : Option (List UInt8)) : Edit :=
  let entries := beginEntries date time pattern
  { (beginEdit (beginTime localtime)).fitDay with
    entries := entries, part := firstPart entries }

def durationValues (seconds : ℕ) : Part → ℤ
  | .durationHour => (seconds / 3600 : ℕ)
  | .minute => (seconds / 60 % 60 : ℕ)
  | .second => (seconds % 60 : ℕ)
  | _ => 0

def durationEntries : List Entry :=
  let entries := (addPart [] .durationHour []).getD []
  let entries := (addPart entries .minute (ascii ":")).getD entries
  (addPart entries .second (ascii ":")).getD entries

/-- `fplinux_ui_duration_edit_begin` -/
def durationBegin (seconds : ℕ) : Edit :=
  { duration := true, time := zeroTm,
    values := durationValues (if seconds > durationMaxSeconds then durationMaxSeconds else seconds),
    day := 0, entries := durationEntries, position := 0, part := firstPart durationEntries,
    typed := 0 }

/-! ### Editing -/

namespace Edit

def completePart (e : Edit) : Edit :=
  let value := clamp (e.values e.part) (low e.part) (high e.part)
  fitDay
    { e.setValue e.part value with
      day := if e.part = .day then value else e.day
      typed := 0 }

def finish (e : Edit) : Edit := fitDay (if e.typed = 0 then e else e.completePart)

/-- `delta` is `-1` or `1`; C's remainder takes the sign of the dividend. -/
def step (e : Edit) (delta : ℤ) : Edit :=
  let done := e.finish
  let least := low e.part
  let span := done.partHigh e.part - least + 1
  let value := least + ((done.values e.part - least + delta).tmod span + span).tmod span
  fitDay { done.setValue e.part value with day := if e.part = .day then value else done.day }

/-- `edit->part = edit->order[edit->position]` after the position is set. -/
def focusAt (e : Edit) (position : ℕ) : Edit :=
  { e with position := position, part := e.order.getD position .day }

def move (e : Edit) (delta : ℤ) : Edit :=
  let done := e.finish
  let count : ℤ := e.count
  done.focusAt ((((done.position : ℤ) + delta).tmod count + count).tmod count).toNat

/-- The focused part holds `value` after `typed` digits. -/
def typing (e : Edit) (value : ℤ) (typed : ℕ) : Edit :=
  { e.setValue e.part value with typed := typed }

def digit (e : Edit) (digit : ℕ) : Edit :=
  if digit > 9 then e
  else
    let value := if e.typed = 0 then (digit : ℤ) else e.values e.part * 10 + digit
    let next := e.typing value (e.typed + 1)
    if e.typed + 1 < partWidth e.part then next
    else
      let done := next.completePart
      if done.position + 1 < done.count then done.focusAt (done.position + 1) else done

/-- `fplinux_ui_date_edit_value`: the local time handed to `mktime`. -/
def dateValue (e : Edit) : Tm :=
  let copy := e.finish
  { e.time with
    mday := copy.values .day, mon := copy.values .month - 1, year := copy.values .year - 1900,
    hour := copy.values .hour, min := copy.values .minute }

/-- `fplinux_ui_duration_edit_value` -/
def durationValue (e : Edit) : ℕ :=
  let copy := e.finish
  (toUnsigned (copy.values .durationHour) * 3600 + toUnsigned (copy.values .minute) * 60 +
    toUnsigned (copy.values .second)) % 2 ^ 32

end Edit

/-- What a form does with the editor while a value is edited. -/
inductive Call
  | digit (value : ℕ)
  | step (up : Bool)
  | move (forward : Bool)
  | finish
  deriving DecidableEq, Repr

def delta (up : Bool) : ℤ := if up then 1 else -1

def Edit.call (e : Edit) : Call → Edit
  | .digit value => e.digit value
  | .step up => e.step (delta up)
  | .move forward => e.move (delta forward)
  | .finish => e.finish

def Edit.run (e : Edit) (calls : List Call) : Edit := calls.foldl Edit.call e

/-! ### What was chosen

The editor watched from outside: the digits typed into the focused part since it
was last complete, and the day last completed by typing or stepping. -/

structure History where
  digits : List ℕ
  chosen : ℤ

/-- The number that digits write. -/
def number (digits : List ℕ) : ℤ := digits.foldl (fun value digit => value * 10 + (digit : ℤ)) 0

/-- The day before or after, around the month's end. -/
def neighbour (up : Bool) (day days : ℤ) : ℤ :=
  if up then (if day = days then 1 else day + 1) else (if day = 1 then days else day - 1)

namespace History

/-- The digits typed so far become the part's value. -/
def complete (h : History) (part : Part) : History :=
  { digits := [], chosen := if part = .day then clamp (number h.digits) 1 31 else h.chosen }

def settle (h : History) (part : Part) : History := if h.digits = [] then h else h.complete part

/-- `e` is the editor that the call finds. -/
def observe (h : History) (e : Edit) : Call → History
  | .digit value =>
    if value > 9 then h
    else
      let h := { h with digits := h.digits ++ [value] }
      if h.digits.length < partWidth e.part then h else h.complete e.part
  | .step up =>
    let h := h.settle e.part
    let days := daysInMonth (e.values .year) (e.values .month)
    if e.part = .day then { h with chosen := neighbour up (min h.chosen days) days } else h
  | .move _ => h.settle e.part
  | .finish => h.settle e.part

end History

/-- The history of a run that starts at `e` after `h`. -/
def watch (e : Edit) (h : History) : List Call → History
  | [] => h
  | c :: calls => watch (e.call c) (h.observe e c) calls

/-- The day last chosen in an edit of a time: at first the day of that time. -/
def lastDay (localtime : Option Tm) (date time : Bool) (pattern : Option (List UInt8))
    (calls : List Call) : ℤ :=
  (watch (dateBegin localtime date time pattern)
    ⟨[], clamp (beginTime localtime).mday 1 31⟩ calls).chosen

/-! ### Arithmetic of the ranges -/

variable {value : ℤ} {entries : List Entry} {p : Part} {e : Edit}

theorem clamp_mem {low high : ℤ} (h : low ≤ high) :
    low ≤ clamp value low high ∧ clamp value low high ≤ high := by
  unfold clamp
  split
  · omega
  · split <;> omega

theorem clamp_eq_min {low high : ℤ} (h : low ≤ value) : clamp value low high = min value high := by
  unfold clamp
  split
  · omega
  · split <;> omega

theorem low_le_high (part : Part) : low part ≤ high part := by
  cases part <;> decide

theorem daysInMonth_mem (year month : ℤ) :
    28 ≤ daysInMonth year month ∧ daysInMonth year month ≤ 31 := by
  unfold daysInMonth
  split
  · omega
  · split
    · omega
    · next hmonth _ =>
      have hget : ∀ i < 12, 28 ≤ monthDays.getD i 0 ∧ monthDays.getD i 0 ≤ 31 := by decide
      exact hget _ (by omega)

theorem tmod_add_tmod {n : ℤ} (a : ℤ) (hn : 0 < n) : (a.tmod n + n).tmod n = a % n := by
  have hlow : -n < a.tmod n := Int.lt_tmod_of_pos a hn
  rw [Int.tmod_eq_emod_of_nonneg (by omega), Int.add_emod_right, Int.tmod_def,
    Int.sub_mul_emod_self_left]

theorem emod_delta {n i : ℤ} (up : Bool) (hi : 0 ≤ i) (hlt : i < n) :
    (i + delta up) % n =
      if up then (if i = n - 1 then 0 else i + 1) else (if i = 0 then n - 1 else i - 1) := by
  cases up with
  | true =>
    by_cases hlast : i = n - 1
    · have hsum : i + delta true = n := by simp [delta]; omega
      simp only [hsum, Int.emod_self, if_pos hlast, if_true]
    · rw [if_pos rfl, if_neg hlast]
      exact Int.emod_eq_of_lt (by simp [delta]; omega) (by simp [delta]; omega)
  | false =>
    by_cases hfirst : i = 0
    · have hsum : i + delta false = (n - 1) - n := by simp [delta]; omega
      rw [hsum, Int.sub_emod_right, if_neg (by decide), if_pos hfirst]
      exact Int.emod_eq_of_lt (by omega) (by omega)
    · rw [if_neg (by decide), if_neg hfirst]
      exact Int.emod_eq_of_lt (by simp [delta]; omega) (by simp [delta]; omega)

theorem emod_neighbour {day days : ℤ} (up : Bool) (hday : 1 ≤ day) (hle : day ≤ days) :
    1 + (day - 1 + delta up) % (days - 1 + 1) = neighbour up day days := by
  rw [emod_delta up (by omega) (by omega), neighbour]
  split <;> split <;> split <;> omega

/-! ### Frames -/

namespace Edit

variable {e : Edit}

@[simp] theorem fitDay_entries : e.fitDay.entries = e.entries := by
  unfold fitDay; split <;> rfl

@[simp] theorem fitDay_position : e.fitDay.position = e.position := by
  unfold fitDay; split <;> rfl

@[simp] theorem fitDay_part : e.fitDay.part = e.part := by
  unfold fitDay; split <;> rfl

@[simp] theorem fitDay_typed : e.fitDay.typed = e.typed := by
  unfold fitDay; split <;> rfl

@[simp] theorem fitDay_day : e.fitDay.day = e.day := by
  unfold fitDay; split <;> rfl

@[simp] theorem fitDay_duration : e.fitDay.duration = e.duration := by
  unfold fitDay; split <;> rfl

@[simp] theorem fitDay_time : e.fitDay.time = e.time := by
  unfold fitDay; split <;> rfl

theorem fitDay_values {p : Part} (h : p = .day → e.duration = true) :
    e.fitDay.values p = e.values p := by
  unfold fitDay
  split
  · rfl
  · next hdate =>
    have hp : p ≠ .day := fun hp => hdate (h hp)
    exact Function.update_of_ne hp _ _

theorem fitDay_values_day (h : e.duration = false) :
    e.fitDay.values .day = clamp e.day 1 (daysInMonth (e.values .year) (e.values .month)) := by
  unfold fitDay
  rw [if_neg (by simp [h])]
  exact Function.update_self Part.day _ e.values

@[simp] theorem completePart_entries : e.completePart.entries = e.entries := by
  simp [completePart, setValue]

@[simp] theorem completePart_position : e.completePart.position = e.position := by
  simp [completePart, setValue]

@[simp] theorem completePart_part : e.completePart.part = e.part := by
  simp [completePart, setValue]

@[simp] theorem completePart_typed : e.completePart.typed = 0 := by
  simp [completePart]

@[simp] theorem completePart_duration : e.completePart.duration = e.duration := by
  simp [completePart, setValue]

@[simp] theorem completePart_time : e.completePart.time = e.time := by
  simp [completePart, setValue]

@[simp] theorem finish_time : e.finish.time = e.time := by
  unfold finish; split <;> simp

@[simp] theorem finish_entries : e.finish.entries = e.entries := by
  unfold finish; split <;> simp

@[simp] theorem finish_position : e.finish.position = e.position := by
  unfold finish; split <;> simp

@[simp] theorem finish_part : e.finish.part = e.part := by
  unfold finish; split <;> simp

@[simp] theorem finish_typed : e.finish.typed = 0 := by
  unfold finish
  split
  · next htyped => simpa using htyped
  · simp

@[simp] theorem finish_duration : e.finish.duration = e.duration := by
  unfold finish; split <;> simp

theorem finish_values {p : Part} (hp : p ≠ e.part) (hday : p = .day → e.duration = true) :
    e.finish.values p = e.values p := by
  unfold finish
  split
  · exact fitDay_values hday
  · rw [fitDay_values (by simpa using hday)]
    simp only [completePart, setValue]
    rw [fitDay_values (by simpa using hday)]
    exact Function.update_of_ne hp _ _

/-! ### The invariant -/

/-- The parts that an edit of a time, or of a duration, has values for. -/
def parts (duration : Bool) : List Part :=
  if duration then [.durationHour, .minute, .second] else [.day, .month, .year, .hour, .minute]

def InRange (e : Edit) (p : Part) : Prop := low p ≤ e.values p ∧ e.values p ≤ high p

/-- What holds between calls: only the focused part, while it is typed, may be
out of its range. -/
structure Valid (e : Edit) : Prop where
  focus : e.order[e.position]? = some e.part
  kind : ∀ p ∈ e.order, p ∈ parts e.duration
  typed_lt : e.typed < partWidth e.part
  range : ∀ p ∈ parts e.duration, (p = e.part → e.typed = 0) → e.InRange p
  rest : ∀ p ∉ parts e.duration, e.values p = 0
  day : e.duration = false → 1 ≤ e.day ∧ e.day ≤ 31

namespace Valid

theorem mem_parts (h : Valid e) : e.part ∈ parts e.duration :=
  h.kind _ (List.mem_of_getElem? h.focus)

theorem position_lt (h : Valid e) : e.position < e.count := by
  obtain ⟨hlt, -⟩ := List.getElem?_eq_some_iff.mp h.focus
  simpa [order, count] using hlt

theorem day_mem_fit (h : e.duration = false) : e.fitDay.InRange .day := by
  have hdays := daysInMonth_mem (e.values .year) (e.values .month)
  have hone : 1 ≤ daysInMonth (e.values .year) (e.values .month) := by omega
  have hclamp : 1 ≤ clamp e.day 1 (daysInMonth (e.values .year) (e.values .month)) ∧
      clamp e.day 1 (daysInMonth (e.values .year) (e.values .month)) ≤
        daysInMonth (e.values .year) (e.values .month) := clamp_mem hone
  rw [InRange, fitDay_values_day h]
  exact ⟨hclamp.1, hclamp.2.trans hdays.2⟩

theorem fitDay (h : Valid e) : Valid e.fitDay where
  focus := by simpa [order] using h.focus
  kind := by simpa [order] using h.kind
  typed_lt := by simpa using h.typed_lt
  range := by
    intro p hp htyped
    simp only [fitDay_duration, fitDay_part, fitDay_typed] at hp htyped
    by_cases hday : p = .day ∧ e.duration = false
    · rw [hday.1]
      exact day_mem_fit hday.2
    · rw [InRange, fitDay_values (by grind)]
      exact h.range p hp htyped
  rest := by
    intro p hp
    simp only [fitDay_duration] at hp
    rw [fitDay_values, h.rest p hp]
    intro hday
    rw [hday] at hp
    cases hduration : e.duration with
    | true => rfl
    | false =>
      rw [hduration] at hp
      exact absurd (by decide) hp
  day := by simpa using h.day

theorem completePart (h : Valid e) : Valid e.completePart := by
  have hclamp : low e.part ≤ clamp (e.values e.part) (low e.part) (high e.part) ∧
      clamp (e.values e.part) (low e.part) (high e.part) ≤ high e.part :=
    clamp_mem (low_le_high e.part)
  refine fitDay ⟨h.focus, h.kind, ?_, ?_, ?_, ?_⟩
  · exact Nat.lt_of_le_of_lt (Nat.zero_le _) h.typed_lt
  · intro p hp _
    rw [InRange]
    by_cases hfocus : p = e.part
    · subst hfocus
      simpa [setValue] using hclamp
    · simpa [setValue, hfocus, InRange] using h.range p hp (fun heq => absurd heq hfocus)
  · intro p hp
    have hne : p ≠ e.part := fun heq => hp (heq ▸ h.mem_parts)
    simpa [setValue, hne] using h.rest p hp
  · intro hduration
    by_cases hday : e.part = .day
    · simp only [if_pos hday]
      simpa [hday, low, high] using hclamp
    · simpa only [if_neg hday] using h.day hduration

theorem finish (h : Valid e) : Valid e.finish := by
  unfold Edit.finish
  split
  · exact h.fitDay
  · exact h.completePart.fitDay

theorem inRange_finish (h : Valid e) {p : Part} (hp : p ∈ parts e.duration) :
    e.finish.InRange p :=
  h.finish.range p (by simpa using hp) (fun _ => finish_typed)

theorem step (h : Valid e) (up : Bool) : Valid (e.step (delta up)) := by
  have hdone := h.finish
  have hin := h.inRange_finish h.mem_parts
  have hhigh : e.finish.partHigh e.part ≤ high e.part := by
    unfold partHigh
    split
    · next hday => simpa [hday, high] using (daysInMonth_mem _ _).2
    · exact le_rfl
  have hspan : 0 < e.finish.partHigh e.part - low e.part + 1 := by
    unfold partHigh
    split
    · next hday =>
      have hdays := (daysInMonth_mem (e.finish.values .year) (e.finish.values .month)).1
      simp only [hday, low]
      omega
    · have hle := low_le_high e.part
      omega
  have hrem := tmod_add_tmod (e.finish.values e.part - low e.part + delta up) hspan
  have hnonneg := Int.emod_nonneg (e.finish.values e.part - low e.part + delta up) hspan.ne'
  have hlt := Int.emod_lt_of_pos (e.finish.values e.part - low e.part + delta up) hspan
  refine fitDay ⟨hdone.focus, hdone.kind, hdone.typed_lt, ?_, ?_, ?_⟩
  · intro p hp htyped
    rw [InRange]
    by_cases hfocus : p = e.part
    · subst hfocus
      simp only [setValue, Function.update_self, hrem]
      omega
    · simpa [setValue, hfocus, InRange] using hdone.range p hp htyped
  · intro p hp
    have hne : p ≠ e.part := fun heq => hp (by simpa [setValue, heq] using h.mem_parts)
    simpa [setValue, hne] using hdone.rest p hp
  · intro hduration
    by_cases hday : e.part = .day
    · simp only [if_pos hday, hrem]
      simp only [hday, low, high] at hhigh hnonneg hlt ⊢
      omega
    · simpa only [if_neg hday] using hdone.day hduration

theorem focusAt (h : Valid e) (htyped : e.typed = 0) {position : ℕ} (hlt : position < e.count) :
    Valid (e.focusAt position) := by
  have hlen : position < e.order.length := by simpa [order, count] using hlt
  have hget : e.order[position]? = some (e.order.getD position .day) := by
    simp [List.getD, List.getElem?_eq_getElem hlen]
  refine ⟨hget, h.kind, ?_, ?_, h.rest, h.day⟩
  · simp only [Edit.focusAt, htyped, partWidth]
    split <;> omega
  · intro p hp _
    exact h.range p hp (fun _ => htyped)

theorem move (h : Valid e) (forward : Bool) : Valid (e.move (delta forward)) := by
  have hcount : (0 : ℤ) < e.count := by
    have hlt := h.position_lt
    omega
  have hnonneg := Int.emod_nonneg ((e.finish.position : ℤ) + delta forward) hcount.ne'
  have hlt := Int.emod_lt_of_pos ((e.finish.position : ℤ) + delta forward) hcount
  have hsame : e.finish.count = e.count := by simp [count]
  simp only [Edit.move, tmod_add_tmod _ hcount]
  exact h.finish.focusAt finish_typed (by omega)

theorem typing (h : Valid e) (value : ℤ) {typed : ℕ} (hpos : 0 < typed)
    (hlt : typed < partWidth e.part) : Valid (e.typing value typed) := by
  refine ⟨h.focus, h.kind, hlt, ?_, ?_, h.day⟩
  · intro p hp htyped
    by_cases hfocus : p = e.part
    · exact absurd (htyped hfocus) hpos.ne'
    · simpa [Edit.typing, setValue, hfocus, InRange] using
        h.range p hp (fun heq => absurd heq hfocus)
  · intro p hp
    have hne : p ≠ e.part := fun heq => hp (heq ▸ h.mem_parts)
    simpa [Edit.typing, setValue, hne] using h.rest p hp

theorem completePart_typing (h : Valid e) (value : ℤ) (typed : ℕ) :
    Valid (e.typing value typed).completePart := by
  have hwidth : 1 < partWidth e.part := by
    unfold partWidth
    split <;> omega
  exact (h.typing value Nat.one_pos hwidth).completePart

theorem digit (h : Valid e) (value : ℕ) : Valid (e.digit value) := by
  unfold Edit.digit
  split
  · exact h
  · simp only
    generalize (if e.typed = 0 then (value : ℤ) else e.values e.part * 10 + value) = new
    split
    · next hlt => exact h.typing new (Nat.succ_pos _) hlt
    · have hdone := h.completePart_typing new (e.typed + 1)
      split
      · next hnext => exact hdone.focusAt completePart_typed hnext
      · exact hdone

theorem call (h : Valid e) (c : Call) : Valid (e.call c) := by
  cases c with
  | digit value => exact h.digit value
  | step up => exact h.step up
  | move forward => exact h.move forward
  | finish => exact h.finish

theorem run (h : Valid e) (calls : List Call) : Valid (e.run calls) := by
  induction calls generalizing e with
  | nil => exact h
  | cons c calls ih => exact ih (h.call c)

end Valid

end Edit

/-! ### The beginning is valid -/

theorem addPart_eq_some {row : List Entry} {part : Part} {separator : List UInt8}
    (h : addPart entries part separator = some row) : row = entries ++ [⟨part, separator⟩] := by
  unfold addPart at h
  split at h
  · cases h
  · exact (Option.some.inj h).symm

theorem addDatePartsLoop_seen {fuel : ℕ} {seen seen' : Finset Part} {entries' : List Entry}
    {pattern : List UInt8} (hseen : (entries.map Entry.part).toFinset = seen)
    (h : addDatePartsLoop fuel seen entries pattern = some (seen', entries')) :
    (entries'.map Entry.part).toFinset = seen' := by
  induction fuel generalizing seen entries pattern with
  | zero =>
    cases pattern with
    | nil =>
      simp only [addDatePartsLoop, Option.some.injEq, Prod.mk.injEq] at h
      rw [← h.1, ← h.2, hseen]
    | cons _ _ => simp [addDatePartsLoop] at h
  | succ fuel ih =>
    cases pattern with
    | nil =>
      simp only [addDatePartsLoop, Option.some.injEq, Prod.mk.injEq] at h
      rw [← h.1, ← h.2, hseen]
    | cons c pattern =>
      simp only [addDatePartsLoop] at h
      split at h
      · simp only [Option.some.injEq, Prod.mk.injEq] at h
        rw [← h.1, ← h.2, hseen]
      · split at h
        · cases h
        · split at h
          · cases h
          · next part _ =>
            generalize hsep : (if seen = ∅ then [] else _) = separator at h
            split at h
            · cases h
            · split at h
              · cases h
              · next row hadd =>
                refine ih ?_ h
                rw [addPart_eq_some hadd, List.map_append, List.toFinset_append, hseen,
                  Finset.insert_eq, Finset.union_comm]
                rfl

theorem dateEntries_parts (pattern : Option (List UInt8)) :
    ((dateEntries pattern).map Entry.part).toFinset = {.day, .month, .year} := by
  unfold dateEntries
  cases hadd : addDateParts pattern with
  | none => decide
  | some entries =>
    unfold addDateParts at hadd
    split at hadd
    · cases hadd
    · next seen l hloop =>
      split at hadd
      · next hall =>
        simp only [Option.some.injEq] at hadd
        rw [Option.getD_some, ← hadd, addDatePartsLoop_seen (by rfl) hloop, hall]
      · cases hadd

theorem timeEntries_eq (entries : List Entry) :
    ∃ separator, timeEntries entries =
      entries ++ [⟨.hour, separator⟩, ⟨.minute, ascii ":"⟩] := by
  refine ⟨if entries = [] then [] else ascii " ", ?_⟩
  have hshort : ¬ (if entries = [] then [] else ascii " ").length ≥ separatorBytes := by
    split <;> decide
  have hcolon : ¬ (ascii ":").length ≥ separatorBytes := by decide
  simp [timeEntries, addPart, hshort, hcolon]

theorem beginEntries_spec (date time : Bool) (pattern : Option (List UInt8)) :
    beginEntries date time pattern ≠ [] ∧
      ∀ p ∈ (beginEntries date time pattern).map Entry.part, p ∈ Edit.parts false := by
  have hdate : ∀ p ∈ (dateEntries pattern).map Entry.part, p ∈ Edit.parts false := by
    intro p hp
    have hmem := List.mem_toFinset.mpr hp
    rw [dateEntries_parts] at hmem
    have hall : ∀ q ∈ ({.day, .month, .year} : Finset Part), q ∈ Edit.parts false := by decide
    exact hall p hmem
  have hne : dateEntries pattern ≠ [] := by
    intro hnil
    have hparts := dateEntries_parts pattern
    rw [hnil] at hparts
    exact absurd hparts (by decide)
  unfold beginEntries
  cases time with
  | false => exact ⟨by simpa using hne, by simpa using hdate⟩
  | true =>
    obtain ⟨separator, htime⟩ := timeEntries_eq (if date then dateEntries pattern else [])
    simp only [not_true_eq_false, or_false, if_true, htime]
    refine ⟨by simp, ?_⟩
    intro p hp
    rw [List.map_append, List.mem_append] at hp
    rcases hp with hp | hp
    · split at hp
      · exact hdate p hp
      · exact absurd hp (by simp)
    · have hall : ∀ q ∈ [Part.hour, .minute], q ∈ Edit.parts false := by decide
      exact hall p hp

theorem firstPart_get (h : entries ≠ []) :
    (entries.map Entry.part)[0]? = some (firstPart entries) := by
  cases entries with
  | nil => exact absurd rfl h
  | cons entry entries => rfl

theorem two_le_partWidth (part : Part) : 2 ≤ partWidth part := by
  unfold partWidth
  split <;> omega

theorem inRange_beginValues (time : Tm) (hp : p ≠ .day) :
    low p ≤ beginValues time p ∧ beginValues time p ≤ high p := by
  cases p with
  | day => exact absurd rfl hp
  | month => exact clamp_mem (by decide)
  | year => exact clamp_mem (by decide)
  | hour => exact clamp_mem (by decide)
  | minute => exact clamp_mem (by decide)
  | second => exact ⟨le_rfl, low_le_high .second⟩
  | durationHour => exact ⟨le_rfl, low_le_high .durationHour⟩

theorem not_mem_parts_false (hp : p ∉ Edit.parts false) : p = .second ∨ p = .durationHour := by
  cases p <;> simp [Edit.parts] at hp ⊢

theorem not_mem_parts_true (hp : p ∉ Edit.parts true) :
    p = .day ∨ p = .month ∨ p = .year ∨ p = .hour := by
  cases p <;> simp [Edit.parts] at hp ⊢

theorem dateBegin_valid (localtime : Option Tm) (date time : Bool) (pattern : Option (List UInt8)) :
    (dateBegin localtime date time pattern).Valid := by
  obtain ⟨hne, hkind⟩ := beginEntries_spec date time pattern
  have hwidth := two_le_partWidth (firstPart (beginEntries date time pattern))
  refine ⟨firstPart_get hne, hkind, ?_, ?_, ?_, ?_⟩
  · simp only [dateBegin, Edit.fitDay_typed, beginEdit]
    omega
  · intro p _ _
    by_cases hday : p = .day
    · rw [hday]
      exact Edit.Valid.day_mem_fit (e := beginEdit (beginTime localtime)) rfl
    · rw [Edit.InRange, dateBegin, Edit.fitDay_values (fun heq => absurd heq hday)]
      exact inRange_beginValues _ hday
  · intro p hp
    have hne : p ≠ .day := fun heq => hp (heq ▸ List.mem_cons_self)
    rw [dateBegin, Edit.fitDay_values (fun heq => absurd heq hne)]
    rcases not_mem_parts_false hp with rfl | rfl <;> rfl
  · intro _
    exact clamp_mem (by decide)

theorem durationBegin_valid (seconds : ℕ) : (durationBegin seconds).Valid := by
  have hle : (if seconds > durationMaxSeconds then durationMaxSeconds else seconds) ≤ 359999 := by
    unfold durationMaxSeconds
    split <;> omega
  refine ⟨rfl, (by decide : ∀ p ∈ durationEntries.map Entry.part, p ∈ Edit.parts true),
    Nat.zero_lt_two, ?_, ?_, ?_⟩
  · intro p hp _
    simp only [durationBegin, Edit.parts, if_true, List.mem_cons, List.not_mem_nil, or_false] at hp
    simp only [Edit.InRange, durationBegin]
    rcases hp with rfl | rfl | rfl <;> simp only [durationValues, low, high] <;> omega
  · intro p hp
    rcases not_mem_parts_true hp with rfl | rfl | rfl | rfl <;> rfl
  · intro hdate
    exact absurd hdate (by simp [durationBegin])

/-! ### The day shown -/

/-- The editor agrees with what was seen of it. -/
structure Tracks (e : Edit) (h : History) : Prop where
  typed : e.typed = h.digits.length
  value : h.digits ≠ [] → e.values e.part = number h.digits
  chosen : e.day = h.chosen

namespace Tracks

variable {e : Edit} {h : History}

theorem completePart (ht : Tracks e h) (hdigits : h.digits ≠ []) :
    Tracks e.completePart (h.complete e.part) := by
  refine ⟨by simp [History.complete], fun hne => absurd rfl hne, ?_⟩
  have hvalue := ht.value hdigits
  unfold Edit.completePart History.complete
  simp only [Edit.fitDay_day, ht.chosen]
  by_cases hday : e.part = .day
  · rw [if_pos hday, if_pos hday, hvalue, hday]
    rfl
  · rw [if_neg hday, if_neg hday]

theorem fitDay (ht : Tracks e h) (hdigits : h.digits = []) : Tracks e.fitDay h :=
  ⟨by simpa using ht.typed, fun hne => absurd hdigits hne, by simpa using ht.chosen⟩

theorem settle_digits (h : History) (part : Part) : (h.settle part).digits = [] := by
  unfold History.settle
  split
  · assumption
  · rfl

theorem finish (ht : Tracks e h) : Tracks e.finish (h.settle e.part) := by
  by_cases hdigits : h.digits = []
  · have htyped : e.typed = 0 := by rw [ht.typed, hdigits]; rfl
    rw [Edit.finish, if_pos htyped, History.settle, if_pos hdigits]
    exact ht.fitDay hdigits
  · have htyped : e.typed ≠ 0 := by simpa [ht.typed] using hdigits
    rw [Edit.finish, if_neg htyped, History.settle, if_neg hdigits]
    exact (ht.completePart hdigits).fitDay rfl

theorem focusAt (ht : Tracks e h) (hdigits : h.digits = []) (position : ℕ) :
    Tracks (e.focusAt position) h :=
  ⟨ht.typed, fun hne => absurd hdigits hne, ht.chosen⟩

theorem move (ht : Tracks e h) (forward : Bool) :
    Tracks (e.move (delta forward)) (h.settle e.part) :=
  ht.finish.focusAt (settle_digits h e.part) _

theorem typing (ht : Tracks e h) (value : ℕ) :
    Tracks (e.typing (if e.typed = 0 then (value : ℤ) else e.values e.part * 10 + value)
      (e.typed + 1)) { h with digits := h.digits ++ [value] } := by
  refine ⟨by simp [Edit.typing, ht.typed], ?_, ht.chosen⟩
  intro _
  have hnumber : number (h.digits ++ [value]) = number h.digits * 10 + value := by
    simp [number]
  simp only [Edit.typing, Edit.setValue, Function.update_self, hnumber]
  by_cases hdigits : h.digits = []
  · rw [ht.typed, hdigits]
    simp [number]
  · have htyped : e.typed ≠ 0 := by simpa [ht.typed] using hdigits
    rw [if_neg htyped, ht.value hdigits]

theorem digit (ht : Tracks e h) (value : ℕ) :
    Tracks (e.digit value) (h.observe e (.digit value)) := by
  simp only [Edit.digit, History.observe]
  split
  · exact ht
  · have hnext := ht.typing value
    have hlen : (h.digits ++ [value]).length = e.typed + 1 := by simp [ht.typed]
    simp only [hlen]
    generalize (if e.typed = 0 then (value : ℤ) else e.values e.part * 10 + value) = new at hnext ⊢
    split
    · exact hnext
    · have hdone := hnext.completePart (by simp)
      split
      · exact hdone.focusAt rfl _
      · exact hdone

end Tracks

theorem finish_day (hv : e.Valid) (hdate : e.duration = false) :
    e.finish.values .day =
      min e.finish.day (daysInMonth (e.finish.values .year) (e.finish.values .month)) := by
  have hfit : ∀ d : Edit, d.duration = false → (1 ≤ d.day ∧ d.day ≤ 31) → d.fitDay.values .day =
      min d.fitDay.day (daysInMonth (d.fitDay.values .year) (d.fitDay.values .month)) := by
    intro d hd hday
    rw [Edit.fitDay_values_day hd, Edit.fitDay_values (by simp), Edit.fitDay_values (by simp),
      Edit.fitDay_day, clamp_eq_min hday.1]
  unfold Edit.finish
  split
  · exact hfit e hdate (hv.day hdate)
  · exact hfit _ (by simpa using hdate) (hv.completePart.day (by simpa using hdate))

namespace Tracks

variable {e : Edit} {h : History}

theorem step_day_eq (ht : Tracks e h) (hv : e.Valid) (hdate : e.duration = false) (up : Bool)
    (hday : e.part = .day) :
    (e.step (delta up)).day =
      neighbour up (min (h.settle .day).chosen (daysInMonth (e.values .year) (e.values .month)))
        (daysInMonth (e.values .year) (e.values .month)) := by
  have hyear : e.finish.values .year = e.values .year :=
    Edit.finish_values (by simp [hday]) (by simp)
  have hmonth : e.finish.values .month = e.values .month :=
    Edit.finish_values (by simp [hday]) (by simp)
  have hdays := daysInMonth_mem (e.values .year) (e.values .month)
  have hchosen := hv.finish.day (by simpa using hdate)
  have hshown := finish_day hv hdate
  rw [hyear, hmonth] at hshown
  have hagree := ht.finish.chosen
  rw [hday] at hagree
  simp only [Edit.step, Edit.fitDay_day, hday, if_true, Edit.partHigh, low, hyear, hmonth]
  rw [tmod_add_tmod _ (by omega), emod_neighbour up (by omega) (by omega), hshown, hagree]

theorem step (ht : Tracks e h) (hv : e.Valid) (hdate : e.duration = false) (up : Bool) :
    Tracks (e.step (delta up)) (h.observe e (.step up)) := by
  have hdigits := settle_digits h e.part
  have htyped : (e.step (delta up)).typed = (h.settle e.part).digits.length := by
    simp [Edit.step, Edit.setValue, hdigits]
  simp only [History.observe]
  by_cases hday : e.part = .day
  · rw [if_pos hday]
    refine ⟨htyped, fun hne => absurd hdigits hne, ?_⟩
    simpa [hday] using ht.step_day_eq hv hdate up hday
  · rw [if_neg hday]
    refine ⟨htyped, fun hne => absurd hdigits hne, ?_⟩
    simpa [Edit.step, hday] using ht.finish.chosen

theorem call (ht : Tracks e h) (hv : e.Valid) (hdate : e.duration = false) (c : Call) :
    Tracks (e.call c) (h.observe e c) := by
  cases c with
  | digit value => exact ht.digit value
  | step up => exact ht.step hv hdate up
  | move forward => exact ht.move forward
  | finish => exact ht.finish

end Tracks

namespace Edit

variable {e : Edit}

/-- Editing keeps the kind of the edit and its layout. -/
def SameLayout (e e' : Edit) : Prop :=
  e'.duration = e.duration ∧ e'.entries = e.entries ∧ e'.time = e.time

theorem sameLayout_digit (value : ℕ) : SameLayout e (e.digit value) := by
  simp only [digit]
  split
  · exact ⟨rfl, rfl, rfl⟩
  · generalize (if e.typed = 0 then (value : ℤ) else e.values e.part * 10 + value) = new
    have hdone : SameLayout e (e.typing new (e.typed + 1)).completePart :=
      ⟨completePart_duration, completePart_entries, completePart_time⟩
    split
    · exact ⟨rfl, rfl, rfl⟩
    · split <;> exact hdone

theorem sameLayout_call (c : Call) : SameLayout e (e.call c) := by
  cases c with
  | digit value => exact sameLayout_digit value
  | step up => simp [SameLayout, call, step, setValue]
  | move forward => simp [SameLayout, call, move, focusAt]
  | finish => simp [SameLayout, call]

theorem sameLayout_run (calls : List Call) : SameLayout e (e.run calls) := by
  induction calls generalizing e with
  | nil => exact ⟨rfl, rfl, rfl⟩
  | cons c calls ih =>
    obtain ⟨hduration, hentries, htime⟩ := ih (e := e.call c)
    obtain ⟨hduration', hentries', htime'⟩ := sameLayout_call (e := e) c
    exact ⟨hduration.trans hduration', hentries.trans hentries', htime.trans htime'⟩

theorem run_append (calls calls' : List Call) :
    e.run (calls ++ calls') = (e.run calls).run calls' :=
  List.foldl_append

end Edit

theorem tracks_watch {h : History} (ht : Tracks e h) (hv : e.Valid) (hdate : e.duration = false)
    (calls : List Call) : Tracks (e.run calls) (watch e h calls) := by
  induction calls generalizing e h with
  | nil => exact ht
  | cons c calls ih =>
    exact ih (ht.call hv hdate c) (hv.call c) ((Edit.sameLayout_call c).1.trans hdate)

/-! ### Main results -/

/-- Every date between 1900 and 2099, and every time of the day. -/
def RealDate (e : Edit) : Prop :=
  (∀ p, e.InRange p) ∧ 1 ≤ e.values .day ∧
    e.values .day ≤ daysInMonth (e.values .year) (e.values .month)

/-- The focused part is one of the parts laid out. -/
def Focused (e : Edit) : Prop := e.position < e.count ∧ e.order[e.position]? = some e.part

theorem Edit.Valid.focused (h : e.Valid) : Focused e := ⟨h.position_lt, h.focus⟩

theorem Edit.Valid.real_finish (h : e.Valid) (hdate : e.duration = false) : RealDate e.finish := by
  have hdays := daysInMonth_mem (e.finish.values .year) (e.finish.values .month)
  have hday := h.finish.day (by simpa using hdate)
  have hshown := finish_day h hdate
  refine ⟨?_, by omega, by omega⟩
  intro p
  by_cases hp : p ∈ Edit.parts e.duration
  · exact h.inRange_finish hp
  · have hzero := h.finish.rest p (by simpa using hp)
    rw [hdate] at hp
    rcases not_mem_parts_false hp with rfl | rfl <;>
      simp [Edit.InRange, hzero, low, high]

theorem date_run_real (localtime : Option Tm) (date time : Bool) (pattern : Option (List UInt8))
    (calls : List Call) :
    let e := (dateBegin localtime date time pattern).run calls
    Focused e ∧ Focused e.finish ∧ RealDate e.finish ∧
      e.finish.values .day =
        min (lastDay localtime date time pattern (calls ++ [.finish]))
          (daysInMonth (e.finish.values .year) (e.finish.values .month)) := by
  intro e
  have hbegin := dateBegin_valid localtime date time pattern
  have hv : e.Valid := hbegin.run calls
  have hdate : e.duration = false :=
    (Edit.sameLayout_run (e := dateBegin localtime date time pattern) calls).1
  have hstart : Tracks (dateBegin localtime date time pattern)
      ⟨[], clamp (beginTime localtime).mday 1 31⟩ :=
    ⟨rfl, fun hne => absurd rfl hne, rfl⟩
  have hrun : (dateBegin localtime date time pattern).run (calls ++ [.finish]) = e.finish :=
    Edit.run_append calls [.finish]
  have hchosen := (tracks_watch hstart hbegin rfl (calls ++ [.finish])).chosen
  rw [hrun] at hchosen
  refine ⟨hv.focused, hv.finish.focused, hv.real_finish hdate, ?_⟩
  rw [lastDay, ← hchosen]
  exact finish_day hv hdate

/-- What `fplinux_ui_date_edit_format` writes: every separator and number in turn. -/
def shown (e : Edit) : List (List UInt8 × ℤ) :=
  e.entries.map fun x => (x.separator, e.values x.part)

theorem toUnsigned_eq (h : 0 ≤ value) (hlt : value < 2 ^ 32) : (toUnsigned value : ℤ) = value := by
  rw [toUnsigned, Int.emod_eq_of_lt h hlt, Int.toNat_of_nonneg h]

theorem durationValue_spec (h : e.Valid) (hduration : e.duration = true) :
    e.durationValue ≤ durationMaxSeconds ∧
      (durationBegin e.durationValue).values = e.finish.values := by
  have hmem : ∀ p ∈ Edit.parts true, e.finish.InRange p := by
    intro p hp
    exact h.inRange_finish (hduration ▸ hp)
  have hhour := hmem .durationHour (by decide)
  have hminute := hmem .minute (by decide)
  have hsecond := hmem .second (by decide)
  simp only [Edit.InRange, low, high] at hhour hminute hsecond
  have hvalue : (e.durationValue : ℤ) = e.finish.values .durationHour * 3600 +
      e.finish.values .minute * 60 + e.finish.values .second := by
    have heq := toUnsigned_eq hhour.1 (by omega)
    have heq' := toUnsigned_eq hminute.1 (by omega)
    have heq'' := toUnsigned_eq hsecond.1 (by omega)
    simp only [Edit.durationValue]
    omega
  have hle : e.durationValue ≤ durationMaxSeconds := by
    unfold durationMaxSeconds
    omega
  refine ⟨hle, ?_⟩
  funext p
  simp only [durationBegin, if_neg (show ¬ e.durationValue > durationMaxSeconds by omega)]
  by_cases hp : p ∈ Edit.parts true
  · simp only [Edit.parts, if_true, List.mem_cons, List.not_mem_nil, or_false] at hp
    rcases hp with rfl | rfl | rfl <;> simp only [durationValues] <;> omega
  · rw [h.finish.rest p (by simpa [hduration] using hp)]
    rcases not_mem_parts_true hp with rfl | rfl | rfl | rfl <;> rfl

theorem duration_run_same (seconds : ℕ) (calls : List Call) :
    let e := (durationBegin seconds).run calls
    Focused e ∧ Focused e.finish ∧ e.durationValue ≤ durationMaxSeconds ∧
      shown (durationBegin e.durationValue) = shown e.finish ∧
      (durationBegin e.durationValue).durationValue = e.durationValue := by
  intro e
  have hv : e.Valid := (durationBegin_valid seconds).run calls
  obtain ⟨hduration, hentries, -⟩ := Edit.sameLayout_run (e := durationBegin seconds) calls
  obtain ⟨hle, hvalues⟩ := durationValue_spec hv hduration
  refine ⟨hv.focused, hv.finish.focused, hle, ?_, ?_⟩
  · have hrow : e.finish.entries = durationEntries := Edit.finish_entries.trans hentries
    simp only [shown, hvalues, hrow]
    rfl
  · have hfinish : (durationBegin e.durationValue).finish.values = e.finish.values := by
      rw [← hvalues]
      rfl
    conv_lhs => rw [Edit.durationValue, hfinish]
    rfl

/-- **Editing keeps a real date or duration.**  Whatever is typed, stepped and
moved, finishing an edit of a time leaves every part in its range and a day of
the month shown, which is the day last chosen or the last of the month.  A
duration stays below a hundred hours, and an edit that begins with its value
shows the same numbers.  The focus is always on one of the parts laid out. -/
theorem editing_real :
    (∀ localtime date time pattern calls,
      let e := (dateBegin localtime date time pattern).run calls
      Focused e ∧ Focused e.finish ∧ RealDate e.finish ∧
        e.finish.values .day =
          min (lastDay localtime date time pattern (calls ++ [.finish]))
            (daysInMonth (e.finish.values .year) (e.finish.values .month))) ∧
    (∀ seconds calls,
      let e := (durationBegin seconds).run calls
      Focused e ∧ Focused e.finish ∧ e.durationValue ≤ durationMaxSeconds ∧
        shown (durationBegin e.durationValue) = shown e.finish ∧
        (durationBegin e.durationValue).durationValue = e.durationValue) :=
  ⟨date_run_real, duration_run_same⟩

theorem dateValue_normal (localtime : Option Tm) (date time : Bool) (pattern : Option (List UInt8))
    (calls : List Call) :
    let tm := ((dateBegin localtime date time pattern).run calls).dateValue
    (0 ≤ tm.mon ∧ tm.mon ≤ 11) ∧
      (1 ≤ tm.mday ∧ tm.mday ≤ daysInMonth (tm.year + 1900) (tm.mon + 1)) ∧
      (0 ≤ tm.hour ∧ tm.hour ≤ 23) ∧ (0 ≤ tm.min ∧ tm.min ≤ 59) ∧
      tm.sec = (beginTime localtime).sec := by
  intro tm
  have hv := (dateBegin_valid localtime date time pattern).run calls
  obtain ⟨hdate, -, htime⟩ :=
    Edit.sameLayout_run (e := dateBegin localtime date time pattern) calls
  obtain ⟨hrange, hday⟩ := hv.real_finish hdate
  have hmonth := hrange .month
  simp only [Edit.InRange, low, high] at hmonth
  refine ⟨?_, ?_, hrange .hour, hrange .minute, ?_⟩
  · simp only [tm, Edit.dateValue]
    omega
  · simpa [tm, Edit.dateValue] using hday
  · exact (congrArg Tm.sec htime).trans (by simp [dateBegin, beginEdit])

/-- The day stays chosen through a shorter month: 31, September, then October. -/
example :
    let e := (dateBegin (some ⟨0, 0, 0, 31, 7, 124⟩) true false none).run
      [.move true, .step true, .step true]
    e.values .day = 31 ∧ e.values .month = 10 := by
  decide

end DateEdit
