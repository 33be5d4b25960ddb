/-
Numbers as they are typed (`calculator.c`).

`Entry` lists the typed numbers by their last character, so that typing is one
of its rules and deleting is the way back.  Typing an entry again, character by
character, gives the entry (`retype_entry` of the next module).

Main results:
* `Entry.dropLast`, `Entry.negated`, `Entry.unsigned`: what deleting and a change
  of sign leave;
* `entry_of_printed`: a printed number that is short enough is one;
* `Entry.shape`: an entry is empty, a sign, or a number of at most 14 characters.
-/
import Fplinux.Calculator.Keys

namespace Calculator

open List (append_cons count_append count_eq_zero mem_append mem_cons mem_singleton not_mem_nil)

/-- What the keys can type. -/
inductive Entry : List Char → Prop
  | nil : Entry []
  | minus : Entry ['-']
  | digit {text : List Char} {c : Char} (h : Entry text) (hdigit : c.isDigit = true)
    (hzero : text ≠ ['0']) (hminus : text ≠ ['-', '0']) (hroom : countDigits text < digitCount) :
    Entry (text ++ [c])
  | point {text : List Char} (h : Entry text) (hone : '.' ∉ text) (hsome : 0 < countDigits text)
    (hroom : countDigits text < digitCount) : Entry (text ++ ['.'])

/-- A number: an optional sign, digits, and an optional point with any digits. -/
def Numeral (text : List Char) : Prop :=
  ∃ sign whole fraction, text = sign ++ whole ++ fraction ∧ (sign = [] ∨ sign = ['-']) ∧
    whole ≠ [] ∧ (∀ c ∈ whole, c.isDigit = true) ∧
    (fraction = [] ∨ ∃ digits, fraction = '.' :: digits ∧ ∀ c ∈ digits, c.isDigit = true)

/-- What `%g` prints without an exponent: no leading zero before another digit, and
a digit behind the point. -/
def Printed (text : List Char) : Prop :=
  ∃ sign first whole fraction, text = sign ++ first :: whole ++ fraction ∧
    (sign = [] ∨ sign = ['-']) ∧ first.isDigit = true ∧ (∀ c ∈ whole, c.isDigit = true) ∧
    (first = '0' → whole = []) ∧
    (fraction = [] ∨ ∃ digit digits, fraction = '.' :: digit :: digits ∧
      ∀ c ∈ digit :: digits, c.isDigit = true)

variable {text : List Char} {c : Char}

@[simp] theorem countDigits_append (text other : List Char) :
    countDigits (text ++ other) = countDigits text + countDigits other := List.countP_append

theorem countDigits_cons (c : Char) (text : List Char) :
    countDigits (c :: text) = countDigits text + if c.isDigit then 1 else 0 := List.countP_cons

theorem countDigits_digits {digits : List Char} (h : ∀ c ∈ digits, c.isDigit = true) :
    countDigits digits = digits.length := List.countP_eq_length.mpr h

theorem minus_not_digit : Char.isDigit '-' = false := by decide

theorem point_not_digit : Char.isDigit '.' = false := by decide

theorem ne_of_isDigit {other : Char} (h : c.isDigit = true) (hother : other.isDigit = false) :
    c ≠ other := by
  rintro rfl
  rw [h] at hother
  exact absurd hother nofun

/-! ### Editing -/

theorem Entry.dropLast (h : Entry text) : Entry text.dropLast := by
  cases h with
  | nil => exact .nil
  | minus => exact .nil
  | digit h => rwa [List.dropLast_concat]
  | point h => rwa [List.dropLast_concat]

theorem Entry.minus_not_mem_tail (h : Entry text) : '-' ∉ text.tail := by
  induction h with
  | nil => exact not_mem_nil
  | minus => exact not_mem_nil
  | @digit text c _ hdigit _ _ _ ih =>
    intro hmem
    rcases text with _ | ⟨first, text⟩
    · exact not_mem_nil hmem
    · rcases mem_append.mp (show '-' ∈ text ++ [c] from hmem) with hold | hnew
      · exact ih hold
      · exact ne_of_isDigit hdigit minus_not_digit (mem_singleton.mp hnew).symm
  | @point text _ _ _ _ ih =>
    intro hmem
    rcases text with _ | ⟨first, text⟩
    · exact not_mem_nil hmem
    · rcases mem_append.mp (show '-' ∈ text ++ ['.'] from hmem) with hold | hnew
      · exact ih hold
      · exact absurd (mem_singleton.mp hnew) (by decide)

theorem countDigits_minus (text : List Char) : countDigits ('-' :: text) = countDigits text := by
  rw [countDigits_cons, minus_not_digit]
  rfl

theorem Entry.negated (h : Entry text) (hplain : text.head? ≠ some '-') : Entry ('-' :: text) := by
  induction h with
  | nil => exact .minus
  | minus => exact absurd rfl hplain
  | @digit text c hentry hdigit hzero hminus hroom ih =>
    rcases text with _ | ⟨first, text⟩
    · exact .digit (.minus) hdigit (by decide) (by decide) (by decide)
    · refine .digit (ih hplain) hdigit nofun ?_ (by rw [countDigits_minus]; exact hroom)
      intro hsame
      exact hzero (List.cons.inj hsame).2
  | @point text hentry hone hsome hroom ih =>
    rcases text with _ | ⟨first, text⟩
    · exact absurd hsome (by decide)
    · refine .point (ih hplain) ?_ (by rw [countDigits_minus]; exact hsome)
        (by rw [countDigits_minus]; exact hroom)
      intro hmem
      exact hone ((mem_cons.mp hmem).resolve_left (by decide))

theorem Entry.unsigned (h : Entry ('-' :: text)) : Entry text := by
  generalize hsigned : '-' :: text = signed at h
  induction h generalizing text with
  | nil => exact absurd hsigned nofun
  | minus =>
    obtain rfl : text = [] := (List.cons.inj hsigned).2
    exact .nil
  | @digit front c hentry hdigit hzero hminus hroom ih =>
    rcases front with _ | ⟨first, front⟩
    · exact absurd (List.cons.inj hsigned).1.symm (ne_of_isDigit hdigit minus_not_digit)
    · obtain ⟨rfl, rfl⟩ := List.cons.inj hsigned
      rw [countDigits_minus] at hroom
      refine .digit (ih rfl) hdigit ?_ ?_ hroom
      · intro hsame
        exact hminus (by rw [hsame])
      · intro hsame
        rw [hsame] at hentry
        exact hentry.minus_not_mem_tail (by decide)
  | @point front hentry hone hsome hroom ih =>
    rcases front with _ | ⟨first, front⟩
    · exact absurd (List.cons.inj hsigned).1 (by decide)
    · obtain ⟨rfl, rfl⟩ := List.cons.inj hsigned
      rw [countDigits_minus] at hroom hsome
      exact .point (ih rfl) (fun hmem => hone (List.mem_cons_of_mem _ hmem)) hsome hroom

/-! ### Printed numbers -/

theorem Entry.append_digits {digits : List Char} (h : Entry text) (hsome : 0 < countDigits text)
    (hlead : digits ≠ [] → text ≠ ['0'] ∧ text ≠ ['-', '0'])
    (hdigits : ∀ c ∈ digits, c.isDigit = true)
    (hroom : countDigits text + digits.length ≤ digitCount) : Entry (text ++ digits) := by
  induction digits generalizing text with
  | nil => rwa [List.append_nil]
  | cons c digits ih =>
    obtain ⟨hzero, hminus⟩ := hlead (List.cons_ne_nil _ _)
    have hdigit := hdigits c (List.mem_cons_self ..)
    have hone : countDigits [c] = 1 := by rw [countDigits_cons, hdigit]; rfl
    rw [List.length_cons] at hroom
    have hgrown : Entry (text ++ [c]) := .digit h hdigit hzero hminus (by omega)
    have hcount : countDigits (text ++ [c]) = countDigits text + 1 := by
      rw [countDigits_append, hone]
    rw [append_cons]
    refine ih hgrown (by omega) ?_ (fun c hc => hdigits c (List.mem_cons_of_mem _ hc)) (by omega)
    -- there are two digits by now
    intro _
    constructor
    · intro hsame
      rw [hsame] at hcount
      have hsingle : countDigits ['0'] = 1 := rfl
      omega
    · intro hsame
      rw [hsame] at hcount
      have hsingle : countDigits ['-', '0'] = 1 := rfl
      omega

/-- **A printed number with at most 12 digits can be typed.** -/
theorem entry_of_printed (h : Printed text) (hroom : countDigits text ≤ digitCount) :
    Entry text := by
  obtain ⟨sign, first, whole, fraction, rfl, hsign, hfirst, hwhole, hzero, hfraction⟩ := h
  have hone : countDigits [first] = 1 := by rw [countDigits_cons, hfirst]; rfl
  have hnone : countDigits sign = 0 := by rcases hsign with rfl | rfl <;> rfl
  have hcount : countDigits (sign ++ first :: whole ++ fraction) =
      1 + whole.length + countDigits fraction := by
    rw [countDigits_append, countDigits_append, hnone, ← List.singleton_append, countDigits_append,
      hone, countDigits_digits hwhole, Nat.zero_add]
  rw [hcount] at hroom
  have hstart : Entry (sign ++ [first]) := by
    rcases hsign with rfl | rfl
    · exact .digit .nil hfirst nofun nofun (by decide)
    · exact .digit .minus hfirst (by decide) (by decide) (by decide)
  have hstarted : countDigits (sign ++ [first]) = 1 := by
    rw [countDigits_append, hnone, hone]
  have hnumber : Entry (sign ++ first :: whole) := by
    rw [append_cons]
    refine hstart.append_digits (by omega) ?_ hwhole (by omega)
    intro hmore
    have hnonzero : first ≠ '0' := fun hlead => hmore (hzero hlead)
    rcases hsign with rfl | rfl
    · exact ⟨fun hsame => hnonzero (List.cons.inj hsame).1, nofun⟩
    · exact ⟨nofun, fun hsame => hnonzero (List.cons.inj (List.cons.inj hsame).2).1⟩
  rcases hfraction with rfl | ⟨digit, digits, rfl, hdigits⟩
  · rwa [List.append_nil]
  · have hbehind : countDigits ('.' :: digit :: digits) = digits.length + 1 := by
      rw [countDigits_cons, point_not_digit, countDigits_digits hdigits]
      rfl
    have hbefore : countDigits (sign ++ first :: whole) = 1 + whole.length := by
      rw [append_cons, countDigits_append, hstarted, countDigits_digits hwhole]
    have hnopoint : '.' ∉ sign ++ first :: whole := by
      intro hmem
      rcases mem_append.mp hmem with hin | hin
      · rcases hsign with rfl | rfl
        · exact not_mem_nil hin
        · exact absurd (mem_singleton.mp hin) (by decide)
      · rcases mem_cons.mp hin with rfl | hlater
        · exact absurd hfirst (by decide)
        · exact ne_of_isDigit (hwhole _ hlater) point_not_digit rfl
    rw [hbehind] at hroom
    have hpoint : Entry (sign ++ first :: whole ++ ['.']) :=
      .point hnumber hnopoint (by omega) (by omega)
    have hpointed : countDigits (sign ++ first :: whole ++ ['.']) = 1 + whole.length := by
      rw [countDigits_append, hbefore]
      rfl
    rw [append_cons]
    refine hpoint.append_digits (by omega) ?_ hdigits (by rw [List.length_cons]; omega)
    intro _
    have hlast : '.' ∈ sign ++ first :: whole ++ ['.'] :=
      List.mem_append_right _ (List.mem_singleton_self _)
    constructor
    · intro hsame
      rw [hsame] at hlast
      exact absurd hlast (by decide)
    · intro hsame
      rw [hsame] at hlast
      exact absurd hlast (by decide)

/-! ### The shape of an entry -/

theorem Entry.countDigits_le (h : Entry text) : countDigits text ≤ digitCount := by
  cases h with
  | nil => exact Nat.zero_le _
  | minus => exact Nat.zero_le _
  | @digit text c _ hdigit _ _ hroom =>
    have hone : countDigits [c] = 1 := by rw [countDigits_cons, hdigit]; rfl
    rw [countDigits_append, hone]
    exact hroom
  | @point text _ _ _ hroom =>
    have hnone : countDigits ['.'] = 0 := rfl
    rw [countDigits_append, hnone]
    exact Nat.le_of_lt hroom

theorem Entry.count_point_le (h : Entry text) : text.count '.' ≤ 1 := by
  induction h with
  | nil => decide
  | minus => decide
  | @digit text c _ hdigit _ _ _ ih =>
    have hnone : [c].count '.' = 0 :=
      count_eq_zero.mpr fun hmem =>
        ne_of_isDigit hdigit point_not_digit (mem_singleton.mp hmem).symm
    rw [count_append, hnone]
    exact ih
  | @point text _ hone _ _ _ =>
    rw [count_append, count_eq_zero.mpr hone]
    decide

theorem Entry.length_eq (h : Entry text) :
    text.length = countDigits text + text.count '.' + text.count '-' := by
  induction h with
  | nil => rfl
  | minus => rfl
  | @digit text c _ hdigit _ _ _ ih =>
    have hpoint : [c].count '.' = 0 :=
      count_eq_zero.mpr fun hmem =>
        ne_of_isDigit hdigit point_not_digit (mem_singleton.mp hmem).symm
    have hminus : [c].count '-' = 0 :=
      count_eq_zero.mpr fun hmem =>
        ne_of_isDigit hdigit minus_not_digit (mem_singleton.mp hmem).symm
    have hone : countDigits [c] = 1 := by rw [countDigits_cons, hdigit]; rfl
    rw [countDigits_append, count_append, count_append, hpoint, hminus, hone,
      List.length_append, List.length_singleton, ih]
    omega
  | @point text _ _ _ _ ih =>
    have hnone : countDigits ['.'] = 0 := rfl
    have hpoint : ['.'].count '.' = 1 := rfl
    have hminus : ['.'].count '-' = 0 := rfl
    rw [countDigits_append, count_append, count_append, hnone, hpoint, hminus,
      List.length_append, List.length_singleton, ih]
    omega

theorem Entry.length_le (h : Entry text) : text.length ≤ textChars := by
  have hminus : text.count '-' ≤ 1 := by
    rcases text with _ | ⟨first, text⟩
    · exact Nat.zero_le _
    · have htail : text.count '-' = 0 := count_eq_zero.mpr h.minus_not_mem_tail
      rw [List.count_cons, htail]
      split_ifs
      · decide
      · decide
  have hlength := h.length_eq
  have hdigits := h.countDigits_le
  have hpoint := h.count_point_le
  simp only [digitCount] at hdigits
  simp only [textChars]
  omega

theorem Numeral.append_digit (h : Numeral text) (hdigit : c.isDigit = true) :
    Numeral (text ++ [c]) := by
  have hsnoc : ∀ {digits : List Char}, (∀ d ∈ digits, d.isDigit = true) →
      ∀ d ∈ digits ++ [c], d.isDigit = true := by
    intro digits hdigits d hmem
    rcases mem_append.mp hmem with hold | hnew
    · exact hdigits d hold
    · rwa [mem_singleton.mp hnew]
  obtain ⟨sign, whole, fraction, rfl, hsign, hne, hwhole, rfl | ⟨digits, rfl, hdigits⟩⟩ := h
  · refine ⟨sign, whole ++ [c], [], by simp, hsign, by simp, hsnoc hwhole, .inl rfl⟩
  · exact ⟨sign, whole, '.' :: (digits ++ [c]), by simp, hsign, hne, hwhole,
      .inr ⟨_, rfl, hsnoc hdigits⟩⟩

/-- **An entry is empty, a sign or a number.** -/
theorem Entry.numeral (h : Entry text) : text = [] ∨ text = ['-'] ∨ Numeral text := by
  induction h with
  | nil => exact .inl rfl
  | minus => exact .inr (.inl rfl)
  | @digit text c _ hdigit _ _ _ ih =>
    have hsingle : ∀ d ∈ [c], d.isDigit = true := by
      intro d hmem
      rwa [mem_singleton.mp hmem]
    rcases ih with rfl | rfl | hnumeral
    · exact .inr (.inr ⟨[], [c], [], rfl, .inl rfl, by simp, hsingle, .inl rfl⟩)
    · exact .inr (.inr ⟨['-'], [c], [], rfl, .inr rfl, by simp, hsingle, .inl rfl⟩)
    · exact .inr (.inr (hnumeral.append_digit hdigit))
  | @point text _ hone hsome _ ih =>
    rcases ih with rfl | rfl | ⟨sign, whole, fraction, rfl, hsign, hne, hwhole, hfraction⟩
    · exact absurd hsome (by decide)
    · exact absurd hsome (by decide)
    · rcases hfraction with rfl | ⟨digits, rfl, -⟩
      · exact .inr (.inr ⟨sign, whole, ['.'], by simp, hsign, hne, hwhole,
          .inr ⟨[], rfl, fun _ hmem => absurd hmem not_mem_nil⟩⟩)
      · exact absurd (by simp) hone

end Calculator
