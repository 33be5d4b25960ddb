/-
What a stored calculator restores (`calculator.c`).

A reachable calculator holds an entry that the keys can type, and a number only
while an operation is pending or a result is shown (`Inv`).  So typing the stored
entry again, after the stored number, gives the calculator back.

Main results:
* `Floats.Lawful`: what `%.*g` and `strtod` are relied on for;
* `inv_run`: the invariant, after any keys;
* `entry_and_restore`: the shape of the entry, and the restored calculator.
-/
import Mathlib.Tactic.IntervalCases
import Fplinux.Calculator.Entry

namespace Calculator

variable {D : Type*} {F : Floats D} {c : State D}

/-- **What the C library does.**  `%.17g` and `strtod` give a finite double back;
`%.12g` prints a number without an exponent as digits without a leading zero; and
a number of at most 12 digits stays finite when it is rounded. -/
structure Floats.Lawful (F : Floats D) : Prop where
  zero_isFinite : F.isFinite F.zero = true
  neg_isFinite : ∀ {d : D}, F.isFinite d = true → F.isFinite (F.neg d) = true
  neg_isZero : ∀ {d : D}, F.isZero (F.neg d) = true → F.isZero d = true
  print_length : ∀ {precision : ℕ} {d : D}, precision ≤ 17 → (F.print precision d).length ≤ 24
  print_ne_nil : ∀ {precision : ℕ} {d : D}, F.print precision d ≠ []
  print_printed : ∀ {d : D}, F.isFinite d = true →
    'e' ∈ F.print digitCount d ∨ Printed (F.print digitCount d)
  read_print : ∀ {d : D} (rest : List Char), F.isFinite d = true →
    F.read (F.print 17 d ++ ' ' :: rest) = (d, (F.print 17 d).length)
  read_typed : ∀ {text : List Char}, Entry text →
    F.isFinite (roundDigits F (F.read text).1) = true

/-- What holds after any keys. -/
structure Inv (F : Floats D) (c : State D) : Prop where
  entry : Entry c.entry
  finite : F.isFinite c.accumulator = true
  zero : F.isZero c.accumulator = true → c.accumulator = F.zero
  operation : ∀ operation, c.operation = some operation → operation ∈ ['+', '-', '*', '/']
  result : c.result = true → c.entry = [] ∧ c.operation = none
  plain : c.operation = none → c.result = false → c.accumulator = F.zero
  error : c.error ≠ .noError → c = fail F c.error

/-! ### The functions -/

theorem inv_fail (hF : F.Lawful) (error : Error) : Inv F (fail F error) where
  entry := .nil
  finite := hF.zero_isFinite
  zero _ := rfl
  operation := nofun
  result := nofun
  plain _ _ := rfl
  error _ := rfl

theorem inv_clear (hF : F.Lawful) : Inv F (clear F) := inv_fail hF .noError

theorem roundDigits_zero {value : D} (h : F.isZero (roundDigits F value) = true) :
    roundDigits F value = F.zero := by
  simp only [roundDigits] at h ⊢
  split_ifs with hzero
  · rfl
  · rw [if_neg hzero] at h
    exact absurd h hzero

theorem calculate_cases (F : Floats D) (c : State D) :
    (∃ error, error ≠ Error.noError ∧ calculate F c = (false, fail F error)) ∨
    ∃ value, F.isFinite value = true ∧ (F.isZero value = true → value = F.zero) ∧
      calculate F c = (true, { c with accumulator := value, entry := [] }) := by
  simp only [calculate]
  split
  · exact .inl ⟨.divideByZero, nofun, rfl⟩
  · split_ifs with hfinite
    · exact .inl ⟨.overflow, nofun, rfl⟩
    · exact .inr ⟨_, (Bool.not_eq_false _).mp hfinite, roundDigits_zero, rfl⟩

theorem Inv.startNumber (hF : F.Lawful) (h : Inv F c) : Inv F (startNumber F c) := by
  simp only [Calculator.startNumber]
  split_ifs
  · exact inv_clear hF
  · exact h

theorem startNumber_result : (startNumber F c).result = false := by
  simp only [startNumber]
  split_ifs with hresult
  · rfl
  · exact Bool.eq_false_iff.mpr hresult

theorem startNumber_error (h : c.error = .noError) : (startNumber F c).error = .noError := by
  simp only [startNumber]
  split_ifs
  · rfl
  · exact h

theorem Inv.edit (h : Inv F c) (hresult : c.result = false) (herror : c.error = .noError)
    {text : List Char} (htext : Entry text) : Inv F { c with entry := text } := by
  refine ⟨htext, h.finite, h.zero, h.operation, ?_, h.plain, ?_⟩
  · intro hshown
    rw [show c.result = true from hshown] at hresult
    exact absurd hresult nofun
  · intro hfailed
    exact absurd herror hfailed

theorem Inv.typeDigit (hF : F.Lawful) (h : Inv F c) (herror : c.error = .noError) {digit : Char}
    (hdigit : digit.isDigit = true) : Inv F (typeDigit F c digit).2 := by
  have hstarted := h.startNumber hF
  have hedit := fun {text} => @Inv.edit _ _ _ hstarted startNumber_result (startNumber_error herror)
    text
  simp only [Calculator.typeDigit]
  split_ifs with hlead hzero hfull
  · exact hstarted
  · refine hedit ?_
    rcases hlead with hsame | hsame
    · rw [hsame]
      exact .digit .nil hdigit nofun nofun (by decide)
    · rw [hsame]
      exact .digit .minus hdigit (by decide) (by decide) (by decide)
  · exact hstarted
  · rw [not_or] at hlead
    exact hedit (.digit hstarted.entry hdigit hlead.1 hlead.2 (by omega))

theorem Inv.typeSeparator (hF : F.Lawful) (h : Inv F c) (herror : c.error = .noError) :
    Inv F (typeSeparator F c).2 := by
  have hstarted := h.startNumber hF
  have hedit := fun {text} => @Inv.edit _ _ _ hstarted startNumber_result (startNumber_error herror)
    text
  simp only [Calculator.typeSeparator]
  split_ifs with hpoint hfull hsome
  · exact hstarted
  · exact hstarted
  · exact hedit (.point hstarted.entry hpoint (by omega) (by omega))
  · -- a zero is put in front of the point
    have hnone : countDigits (Calculator.startNumber F c).entry = 0 := not_not.mp hsome
    have hzero : Entry ((Calculator.startNumber F c).entry ++ ['0']) := by
      refine .digit hstarted.entry (by decide) ?_ ?_ (by omega)
      · intro hsame
        rw [hsame] at hnone
        exact absurd hnone (by decide)
      · intro hsame
        rw [hsame] at hnone
        exact absurd hnone (by decide)
    have hone : countDigits ((Calculator.startNumber F c).entry ++ ['0']) = 1 := by
      rw [countDigits_append, hnone]
      rfl
    have hnopoint : '.' ∉ (Calculator.startNumber F c).entry ++ ['0'] := by
      intro hmem
      exact (List.mem_append.mp hmem).elim hpoint fun hin =>
        absurd (List.mem_singleton.mp hin) (by decide)
    have htyped := Entry.point hzero hnopoint (by omega) (by rw [hone]; decide)
    rw [List.append_assoc] at htyped
    exact hedit htyped

theorem Inv.changeSign (hF : F.Lawful) (h : Inv F c) (herror : c.error = .noError) :
    Inv F (changeSign F c).2 := by
  simp only [Calculator.changeSign]
  split_ifs with hresult hzero hminus
  · exact h
  · refine ⟨h.entry, hF.neg_isFinite h.finite, ?_, h.operation, h.result, ?_, ?_⟩
    · intro hneg
      exact absurd (hF.neg_isZero hneg) hzero
    · intro _ hplain
      rw [show c.result = false from hplain] at hresult
      exact absurd hresult nofun
    · intro hfailed
      exact absurd herror hfailed
  · refine h.edit (Bool.eq_false_iff.mpr hresult) herror ?_
    obtain ⟨text, htext⟩ := List.head?_eq_some_iff.mp hminus
    have hentry := h.entry
    rw [htext] at hentry ⊢
    exact hentry.unsigned
  · exact h.edit (Bool.eq_false_iff.mpr hresult) herror (h.entry.negated hminus)

theorem inv_setOperation {operation : Char} (hoperation : operation ∈ ['+', '-', '*', '/'])
    (herror : c.error = .noError) (hfinite : F.isFinite c.accumulator = true)
    (hzero : F.isZero c.accumulator = true → c.accumulator = F.zero) :
    Inv F (setOperation c operation) where
  entry := .nil
  finite := hfinite
  zero := hzero
  operation other hother := by
    rw [← Option.some.inj hother]
    exact hoperation
  result := nofun
  plain := nofun
  error hfailed := absurd herror hfailed

theorem Inv.chooseOperation (hF : F.Lawful) (h : Inv F c) (herror : c.error = .noError)
    {operation : Char} (hoperation : operation ∈ ['+', '-', '*', '/']) :
    Inv F (chooseOperation F c operation).2 := by
  rcases calculate_cases F c with ⟨error, -, hfailed⟩ | ⟨value, hfinite, hzero, hvalue⟩
  · simp only [Calculator.chooseOperation, hfailed, if_true]
    split_ifs
    · exact inv_setOperation hoperation herror (hF.read_typed h.entry) roundDigits_zero
    · exact inv_fail hF error
    · exact inv_setOperation hoperation herror hF.zero_isFinite fun _ => rfl
    · exact h
    · exact inv_setOperation hoperation herror h.finite h.zero
  · simp only [Calculator.chooseOperation, hvalue, Bool.true_eq_false, if_false]
    split_ifs
    · exact inv_setOperation hoperation herror (hF.read_typed h.entry) roundDigits_zero
    · exact inv_setOperation hoperation herror hfinite hzero
    · exact inv_setOperation hoperation herror hF.zero_isFinite fun _ => rfl
    · exact h
    · exact inv_setOperation hoperation herror h.finite h.zero

theorem Inv.evaluate (hF : F.Lawful) (h : Inv F c) (herror : c.error = .noError) :
    Inv F (evaluate F c).2 := by
  rcases calculate_cases F c with ⟨error, -, hfailed⟩ | ⟨value, hfinite, hzero, hvalue⟩
  · simp only [Calculator.evaluate, hfailed, Bool.false_eq_true, if_false]
    split_ifs
    · exact h
    · exact inv_fail hF error
  · simp only [Calculator.evaluate, hvalue, if_true]
    split_ifs
    · exact h
    · exact ⟨.nil, hfinite, hzero, nofun, fun _ => ⟨rfl, rfl⟩, nofun,
        fun hfailed => absurd herror hfailed⟩

theorem truncate_print (hF : F.Lawful) (value : D) :
    truncate 32 (F.print digitCount value) = F.print digitCount value := by
  have hlength := @Floats.Lawful.print_length _ _ hF digitCount value (by decide)
  exact List.take_of_length_le (by omega)

theorem Inv.editAccumulator (hF : F.Lawful) (h : Inv F c) (herror : c.error = .noError)
    (hresult : c.result = false) (hempty : c.entry = []) : Inv F (editAccumulator F c) := by
  simp only [Calculator.editAccumulator, truncate_print hF]
  split_ifs with hzero hlong
  · exact ⟨h.entry, h.finite, h.zero, nofun, fun hshown => ⟨(h.result hshown).1, rfl⟩,
      fun _ _ => h.zero hzero, fun hfailed => absurd herror hfailed⟩
  · exact ⟨h.entry, h.finite, h.zero, nofun, fun _ => ⟨hempty, rfl⟩, nofun,
      fun hfailed => absurd herror hfailed⟩
  · -- the printed number is short enough to be typed
    simp only [not_or, Nat.not_lt, Nat.not_le] at hlong
    obtain ⟨hplain, hroom, -⟩ := hlong
    have hprinted := (hF.print_printed h.finite).resolve_left hplain
    refine ⟨entry_of_printed hprinted hroom, hF.zero_isFinite, fun _ => rfl, nofun, ?_,
      fun _ _ => rfl, fun hfailed => absurd herror hfailed⟩
    intro hshown
    rw [show c.result = true from hshown] at hresult
    exact absurd hresult nofun

theorem Inv.deleteCharacter (hF : F.Lawful) (h : Inv F c) (herror : c.error = .noError) :
    Inv F (deleteCharacter F c).2 := by
  simp only [Calculator.deleteCharacter]
  split_ifs with hresult hentry hoperation
  · exact inv_clear hF
  · exact h.edit (Bool.eq_false_iff.mpr hresult) herror h.entry.dropLast
  · exact h
  · exact h.editAccumulator hF herror (Bool.eq_false_iff.mpr hresult) (not_not.mp hentry)

/-! ### Any keys -/

theorem isDigit_mem {key : Char} (h : key.isDigit = true) :
    key ∈ ['0', '1', '2', '3', '4', '5', '6', '7', '8', '9'] := by
  have hrange : 48 ≤ key.toNat ∧ key.toNat ≤ 57 := by
    simp only [Char.isDigit, Bool.and_eq_true, decide_eq_true_eq] at h
    exact h
  obtain ⟨hlow, hhigh⟩ := hrange
  rw [← Char.ofNat_toNat key]
  generalize key.toNat = n at hlow hhigh
  interval_cases n <;> decide

theorem Inv.press (hF : F.Lawful) (h : Inv F c) (herror : c.error = .noError) {key : Char}
    (hkey : key ∈ keys) (hclear : key ≠ 'C') : Inv F (press F c key).2 := by
  simp only [Calculator.press]
  split_ifs with hdigit hpoint hsign hequals hdelete
  · exact h.typeDigit hF herror hdigit
  · exact h.typeSeparator hF herror
  · exact h.changeSign hF herror
  · exact h.evaluate hF herror
  · exact h.deleteCharacter hF herror
  · refine h.chooseOperation hF herror ?_
    simp only [keys, List.mem_cons, List.not_mem_nil, or_false] at hkey
    rcases hkey with rfl | rfl | rfl | rfl | rfl | rfl | rfl | rfl | rfl | rfl | hkey
    all_goals first | exact absurd rfl hdigit | skip
    simpa [hpoint, hsign, hequals, hdelete, hclear] using hkey

theorem Inv.input (hF : F.Lawful) (h : Inv F c) (key : Char) : Inv F (input F c key).2 := by
  simp only [Calculator.input]
  split_ifs with hkey hclear hfailed
  · exact inv_clear hF
  · rw [not_or] at hclear
    exact (inv_clear hF).press hF rfl hkey hclear.2
  · rw [not_or] at hclear
    exact h.press hF (not_not.mp hfailed) hkey hclear.2
  · exact h

theorem Inv.run (hF : F.Lawful) (h : Inv F c) (pressed : List Char) : Inv F (run F c pressed) := by
  induction pressed generalizing c with
  | nil => exact h
  | cons key pressed ih => exact ih (h.input hF key)

/-- **The invariant, after any keys.** -/
theorem inv_run (hF : F.Lawful) (pressed : List Char) : Inv F (run F (clear F) pressed) :=
  (inv_clear hF).run hF pressed

/-! ### The entry is typed again -/

theorem input_typing (herror : c.error = .noError) {key : Char} (hkey : key ∈ keys)
    (hclear : key ≠ 'C') : input F c key = press F c key := by
  have hnot : ¬((c.error ≠ .noError ∧ ¬(key.isDigit = true ∨ key = '.')) ∨ key = 'C') := by
    rintro (⟨hfailed, -⟩ | hsame)
    · exact hfailed herror
    · exact hclear hsame
  rw [input, if_neg (not_not.mpr hkey), if_neg hnot, if_neg (not_not.mpr herror)]

/-- **Typing an entry gives the entry**, and nothing else changes. -/
theorem retype_entry (hresult : c.result = false) (herror : c.error = .noError) {text : List Char}
    (h : Entry text) : retype F { c with entry := [] } text = { c with entry := text } := by
  have hstart : ∀ text : List Char,
      startNumber F { c with entry := text } = { c with entry := text } := by
    intro text
    exact if_neg (by rw [show c.result = false from hresult]; exact nofun)
  have hinput : ∀ (text : List Char) (key : Char), key ∈ keys → key ≠ 'C' →
      input F { c with entry := text } key = press F { c with entry := text } key :=
    fun text key => @input_typing D F { c with entry := text } herror key
  have hlast : ∀ (text : List Char) (key : Char), retype F { c with entry := [] } (text ++ [key]) =
      (input F (retype F { c with entry := [] } text) (keyOf key)).2 := by
    intro text key
    rw [retype, List.foldl_append]
    rfl
  induction h with
  | nil => rfl
  | minus =>
    show (input F { c with entry := [] } '#').2 = _
    rw [hinput _ _ (by decide) (by decide)]
    show (changeSign F { c with entry := [] }).2 = _
    simp [changeSign, hresult]
  | @digit text key _ hdigit hzero hminus hroom ih =>
    have hnosign : keyOf key = key := if_neg (ne_of_isDigit hdigit minus_not_digit)
    have hkey : key ∈ keys := List.mem_append_left _ (isDigit_mem hdigit)
    have hclear : key ≠ 'C' := ne_of_isDigit hdigit (by decide)
    rw [hlast, ih, hnosign, hinput _ _ hkey hclear, press, if_pos hdigit, typeDigit, hstart,
      if_neg (not_or.mpr ⟨hzero, hminus⟩), if_neg (Nat.not_le.mpr hroom)]
  | @point text _ hone hsome hroom ih =>
    have hpressed : press F { c with entry := text } '.' =
        typeSeparator F { c with entry := text } := rfl
    rw [hlast, ih, show keyOf '.' = '.' from rfl, hinput _ _ (by decide) (by decide),
      hpressed, typeSeparator, hstart, if_neg hone, if_neg (Nat.not_le.mpr hroom),
      if_pos (Nat.ne_of_gt hsome)]

/-! ### The stored text -/

theorem Entry.mem_chars {text : List Char} (h : Entry text) :
    ∀ c ∈ text, c ∈ "0123456789.-".toList := by
  induction h with
  | nil => exact fun _ hmem => absurd hmem List.not_mem_nil
  | minus =>
    intro c hmem
    rw [List.mem_singleton.mp hmem]
    decide +kernel
  | @digit text key _ hdigit _ _ _ ih =>
    intro c hmem
    rcases List.mem_append.mp hmem with hold | hnew
    · exact ih c hold
    · rw [List.mem_singleton.mp hnew]
      exact List.mem_append_left _ (isDigit_mem hdigit)
  | point _ _ _ _ ih =>
    intro c hmem
    rcases List.mem_append.mp hmem with hold | hnew
    · exact ih c hold
    · rw [List.mem_singleton.mp hnew]
      decide

theorem restore_save (hF : F.Lawful) (h : Inv F c) :
    restore F (save F c saveBytes) =
      restoreParts F (modeChar c) (c.operation.getD 'n') c.accumulator c.entry := by
  have hprint := @Floats.Lawful.print_length _ _ hF 17 c.accumulator (Nat.le_refl _)
  have hentry := h.entry.length_le
  have hsome := List.length_pos_iff.mpr (@Floats.Lawful.print_ne_nil _ _ hF 17 c.accumulator)
  have hsave : save F c saveBytes = modeChar c :: ' ' :: c.operation.getD 'n' :: ' ' ::
      (F.print 17 c.accumulator ++ ' ' :: c.entry) := by
    refine List.take_of_length_le ?_
    simp only [textChars] at hentry
    simp only [List.length_append, List.length_cons, List.length_nil, saveBytes]
    omega
  have hlong : ¬(save F c saveBytes).length < 5 := by
    rw [hsave]
    simp only [List.length_append, List.length_cons]
    omega
  have hrest : (F.print 17 c.accumulator ++ ' ' :: c.entry).drop (F.print 17 c.accumulator).length =
      ' ' :: c.entry := List.drop_left
  have hread := hF.read_print c.entry h.finite
  rw [hsave] at hlong ⊢
  have hspaces : ¬((modeChar c :: ' ' :: c.operation.getD 'n' :: ' ' ::
      (F.print 17 c.accumulator ++ ' ' :: c.entry)).length < 5 ∨ some ' ' ≠ some ' ' ∨
      some ' ' ≠ some ' ') := by
    rintro (hshort | hspace | hspace)
    · exact hlong hshort
    · exact hspace rfl
    · exact hspace rfl
  have hcut : restore F (modeChar c :: ' ' :: c.operation.getD 'n' :: ' ' ::
      (F.print 17 c.accumulator ++ ' ' :: c.entry)) = _ := if_neg hspaces
  rw [hcut]
  simp only [List.drop_succ_cons, List.drop_zero, hread, hrest]
  refine if_neg ?_
  rintro (hnone | ⟨-, hspace⟩ | hinfinite)
  · omega
  · exact hspace rfl
  · rw [h.finite] at hinfinite
    cases hinfinite

theorem entry_accepted {text : List Char} (h : Entry text) :
    ¬(textChars < text.length ∨ ¬text.all (· ∈ "0123456789.-".toList)) := by
  rintro (hlong | hother)
  · exact absurd h.length_le (Nat.not_le.mpr hlong)
  · exact hother (List.all_eq_true.mpr fun c hc => decide_eq_true (h.mem_chars c hc))

theorem restoreParts_typing (h : Inv F c) (hresult : c.result = false)
    (herror : c.error = .noError) :
    restoreParts F 'i' (c.operation.getD 'n') c.accumulator c.entry = (true, c) := by
  have hretype := @retype_entry D F { c with entry := [] } hresult herror _ h.entry
  have hallowed : c.operation.getD 'n' ∈ "+-*/n".toList := by
    cases hoperation : c.operation with
    | none => decide
    | some operation => exact List.mem_append_left ['n'] (h.operation operation hoperation)
  have hchosen : (if c.operation.getD 'n' = 'n' then none else some (c.operation.getD 'n')) =
      c.operation := by
    cases hoperation : c.operation with
    | none => rfl
    | some operation =>
      refine if_neg ?_
      rintro hsame
      have hmem := h.operation operation hoperation
      rw [show operation = 'n' from hsame] at hmem
      exact absurd hmem (by decide)
  have hnumber : (if c.operation ≠ none then c.accumulator else F.zero) = c.accumulator := by
    split_ifs with hoperation
    · rfl
    · exact (h.plain (not_not.mp hoperation) hresult).symm
  have hbase : { clear F with operation := c.operation, accumulator := c.accumulator } =
      { c with entry := [] } := by
    rw [clear, ← hresult, ← herror]
  simp only [restoreParts, if_neg (entry_accepted h.entry), hchosen, hnumber, hbase]
  rw [if_pos ⟨trivial, hallowed⟩, hretype]
  simp

theorem restoreParts_done {mode : Char} (hmode : mode ∈ "rdo".toList) (accumulator : D) :
    restoreParts F mode 'n' accumulator [] = (true, { clear F with
      result := mode = 'r'
      error := if mode = 'd' then .divideByZero else if mode = 'o' then .overflow else .noError
      accumulator := if mode = 'r' then accumulator else F.zero }) := by
  have htyping : mode ≠ 'i' := by
    rintro rfl
    exact absurd hmode (by decide +kernel)
  rw [restoreParts, if_neg (by simp), if_neg fun h => htyping h.1, if_pos ⟨hmode, rfl, rfl⟩]

/-- **A stored calculator is restored.** -/
theorem Inv.restored (hF : F.Lawful) (h : Inv F c) : restore F (save F c saveBytes) = (true, c) := by
  rw [restore_save hF h]
  by_cases herror : c.error = .noError
  · by_cases hresult : c.result = true
    · obtain ⟨hempty, hoperation⟩ := h.result hresult
      obtain ⟨entry, accumulator, operation, result, error⟩ := c
      simp only at herror hresult hempty hoperation
      subst herror hresult hempty hoperation
      exact restoreParts_done (show 'r' ∈ _ by decide +kernel) accumulator
    · have hplain : c.result = false := Bool.eq_false_iff.mpr hresult
      have hmode : modeChar c = 'i' := by
        simp [modeChar, herror, hplain]
      rw [hmode]
      exact restoreParts_typing h hplain herror
  · rw [h.error herror]
    cases hfailed : c.error with
    | noError => exact absurd hfailed herror
    | divideByZero => exact restoreParts_done (show 'd' ∈ _ by decide +kernel) _
    | overflow => exact restoreParts_done (show 'o' ∈ _ by decide +kernel) _

/-- **Entry and restore.**  After any keys the entry is empty, a lone sign or a number,
with at most 12 digits, one point and 14 characters; and the stored text gives the
calculator back, so that any further keys show the same. -/
theorem entry_and_restore (hF : F.Lawful) (pressed : List Char) :
    ((run F (clear F) pressed).entry = [] ∨ (run F (clear F) pressed).entry = ['-'] ∨
      Numeral (run F (clear F) pressed).entry) ∧
    countDigits (run F (clear F) pressed).entry ≤ 12 ∧
    (run F (clear F) pressed).entry.count '.' ≤ 1 ∧
    (run F (clear F) pressed).entry.length ≤ 14 ∧
    restore F (save F (run F (clear F) pressed) saveBytes) = (true, run F (clear F) pressed) ∧
    ∀ (more : List Char) (separator : Char) (capacity : ℕ),
      display F (run F (restore F (save F (run F (clear F) pressed) saveBytes)).2 more) separator
        capacity = display F (run F (run F (clear F) pressed) more) separator capacity := by
  have hinv := inv_run hF pressed
  refine ⟨hinv.entry.numeral, hinv.entry.countDigits_le, hinv.entry.count_point_le,
    hinv.entry.length_le, hinv.restored hF, ?_⟩
  intro more separator capacity
  rw [hinv.restored hF]

/-! ### Numbers of one digit -/

/-- The digit that a character is. -/
def digitOf (c : Char) : Fin 10 := Fin.ofNat 10 (c.toNat - 48)

/-- The character of a digit. -/
def charOf (d : Fin 10) : Char := Char.ofNat (48 + d.val)

theorem digitOf_charOf (d : Fin 10) : digitOf (charOf d) = d := by
  revert d
  decide

theorem charOf_isDigit (d : Fin 10) : (charOf d).isDigit = true := by
  revert d
  decide

/-- Doubles of one digit: right as long as the numbers have one. -/
def oneDigit : Floats (Fin 10) where
  zero := 0
  add := (· + ·)
  sub := (· - ·)
  mul := (· * ·)
  div a b := Fin.ofNat 10 (a.val / b.val)
  neg := (- ·)
  isZero := (· = 0)
  isFinite _ := true
  print _ d := [charOf d]
  read
    | [] => (0, 0)
    | c :: _ => (digitOf c, 1)

theorem oneDigit_lawful : oneDigit.Lawful where
  zero_isFinite := rfl
  neg_isFinite _ := rfl
  neg_isZero {d} h := by
    revert d
    decide
  print_length _ := by
    show 1 ≤ 24
    decide
  print_ne_nil := List.cons_ne_nil _ _
  print_printed {d} _ := .inr ⟨[], charOf d, [], [], rfl, .inl rfl, charOf_isDigit d, nofun,
    fun _ => rfl, .inl rfl⟩
  read_print {d} rest _ := by
    show (digitOf (charOf d), 1) = _
    rw [digitOf_charOf]
    rfl
  read_typed _ := rfl

/-- `2`, `+`, `3` and a change of sign: restored, then the sign changed back and
evaluated. -/
theorem entry_and_restore_sample :
    save oneDigit (run oneDigit (clear oneDigit) ['2', '+', '3', '#']) saveBytes =
      ['i', ' ', '+', ' ', '2', ' ', '-', '3'] ∧
    restore oneDigit ['i', ' ', '+', ' ', '2', ' ', '-', '3'] =
      (true, run oneDigit (clear oneDigit) ['2', '+', '3', '#']) ∧
    display oneDigit (run oneDigit (restore oneDigit ['i', ' ', '+', ' ', '2', ' ', '-', '3']).2
      ['#', '=']) ',' 32 = ['5'] := by
  have hsaved : save oneDigit (run oneDigit (clear oneDigit) ['2', '+', '3', '#']) saveBytes =
      ['i', ' ', '+', ' ', '2', ' ', '-', '3'] := by decide
  obtain ⟨-, -, -, -, hrestored, hsame⟩ := entry_and_restore oneDigit_lawful ['2', '+', '3', '#']
  rw [hsaved] at hrestored hsame
  refine ⟨hsaved, hrestored, ?_⟩
  rw [hsame]
  decide

/-- **The entry of a fresh calculator is no number**: it is empty. -/
theorem entry_not_always_numeral :
    ¬∀ pressed : List Char, Numeral (run oneDigit (clear oneDigit) pressed).entry := by
  intro h
  obtain ⟨sign, whole, fraction, htext, -, hne, -⟩ := h []
  have hparts : sign ++ whole ++ fraction = [] := htext.symm
  exact hne (List.append_eq_nil_iff.mp (List.append_eq_nil_iff.mp hparts).1).2

end Calculator
