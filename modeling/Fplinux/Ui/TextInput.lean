/-
Shared numeric-keypad policy (`fplinux-text-input.c`): modes, composition,
physical holds and symbol selection, independent of text storage.

The text belongs to the callbacks.  `emit` inserts a character; it may read the
modes of the input but does not change it.  `erase` deletes backwards and may
drop the pending character.  Times are `uint64_t` milliseconds and wrap.

Main results:
- `encodes_encodeUtf8`: a scalar is encoded as its UTF-8 bytes;
- `press_keeps`, `release_keeps`, `tick_keeps`: callbacks that keep the text in
  order and never block keep the input in order;
- `Kept`: an operation that leaves a character pending has left it as it was.
-/
import Fplinux.Lib.Word
import Fplinux.Ui.Multitap

namespace TextInput

open Bytes (ascii)
open Language (LetterCase Printable)
open Multitap (EmitResult InputLanguage Result handles ok_of_not_pending setLanguage)

def commitMs : ℕ := 1000
def holdMs : ℕ := 500
def repeatMs : ℕ := 100
def defaultColumns : ℕ := 6

/-- The symbols of the picker. -/
def symbols : List ℕ :=
  ".,?!'\"-()@/:;_+=*#%&$<>~[]\x7b\x7d\\|".toList.map Char.toNat ++
    [0xab, 0xbb, 0x2014, 0x2116, 0x20ac, 0xb0, 0x60, 0x5e]

def symbolCount : ℕ := symbols.length

def symbol (index : ℕ) : ℕ := symbols.getD index 0

inductive Gesture
  | undecided | tap | hold
  deriving DecidableEq, Repr

inductive Direction
  | left | right | up | down
  deriving DecidableEq, Repr

/-- `struct fplinux_text_input`. -/
structure State where
  languages : List InputLanguage
  language : ℕ
  letterCase : LetterCase
  numeric : Bool
  allowSentence : Bool
  compose : Multitap.State
  composeMs : ℕ
  /-- ASCII digit held by a physical phone key, or 0. -/
  heldDigit : ℕ
  heldMs : ℕ
  /-- `#` or `*`, or 0; the resolved gesture survives a blocked emission. -/
  heldControl : ℕ
  controlMs : ℕ
  controlGesture : Gesture
  clearing : Bool
  clearMs : ℕ
  pickerOpen : Bool
  pickerIndex : ℕ
  pickerColumns : ℕ

/-! ### Modes -/

def firstCase (input : State) : LetterCase :=
  if input.allowSentence then .sentence else .lower

def cancelHeld (input : State) : State :=
  { input with heldDigit := 0, heldControl := 0, clearing := false, pickerOpen := false }

def resetMode (input : State) (numeric : Bool) : State :=
  let input :=
    cancelHeld { input with language := 0, letterCase := firstCase input, numeric := numeric }
  { input with compose := setLanguage input.compose input.languages[0]? }

def loadLanguages (input : State) (directory : Option Language.Directory)
    (first : Option (List UInt8)) : State :=
  resetMode { input with languages := Multitap.loadLanguages directory first } false

def init (directory : Option Language.Directory) (first : Option (List UInt8))
    (allowSentence : Bool) : State :=
  loadLanguages
    { languages := []
      language := 0
      letterCase := .sentence
      numeric := false
      allowSentence := allowSentence
      compose := Multitap.init none commitMs
      composeMs := 0
      heldDigit := 0
      heldMs := 0
      heldControl := 0
      controlMs := 0
      controlGesture := .undecided
      clearing := false
      clearMs := 0
      pickerOpen := false
      pickerIndex := 0
      pickerColumns := defaultColumns } directory first

def setSentenceCase (input : State) (allowed : Bool) : State :=
  { input with
    allowSentence := allowed
    letterCase :=
      if !allowed ∧ input.letterCase = .sentence then .lower else input.letterCase }

def applyCase (towupper : ℕ → ℕ) (input : State) (character : ℕ) (startsSentence : Bool) : ℕ :=
  if !input.numeric ∧
      (input.letterCase = .upper ∨ (input.letterCase = .sentence ∧ startsSentence)) then
    Multitap.uppercase towupper character
  else character

/-- Which mode indicator is shown; `none` is that of the digits. -/
def indicatorAt (input : State) : Option (ℕ × LetterCase) :=
  if input.numeric then none else some (input.language, input.letterCase)

def indicator (input : State) : List UInt8 :=
  match indicatorAt input with
  | none => ascii "123"
  | some (language, letterCase) =>
    (input.languages[language]?.map fun offered => offered.indicator letterCase).getD []

/-- `letter_case + 1`. -/
def nextCase : LetterCase → LetterCase
  | .sentence => .lower
  | .lower => .upper
  | .upper => .upper

def cancel (input : State) : State :=
  { input with heldDigit := 0, heldControl := 0, compose := Multitap.cancel input.compose }

/-! ### Symbols -/

def closePicker (input : State) : State := { input with pickerOpen := false }

def setPickerColumns (input : State) (columns : ℕ) : State :=
  { input with
    pickerColumns := if columns ≠ 0 ∧ columns ≤ symbolCount then columns else defaultColumns }

/-- The last cell of a column; `fuel` bounds the rows. -/
def lastRow (columns : ℕ) : ℕ → ℕ → ℕ
  | 0, index => index
  | fuel + 1, index =>
    if index + columns < symbolCount then lastRow columns fuel (index + columns) else index

def movePicker (input : State) (direction : Direction) : State :=
  let columns := input.pickerColumns
  let index := input.pickerIndex
  { input with
    pickerIndex :=
      match direction with
      | .left => if index ≠ 0 then index - 1 else symbolCount - 1
      | .right => (index + 1) % symbolCount
      | .up => if index ≥ columns then index - columns else lastRow columns symbolCount index
      | .down => if index + columns < symbolCount then index + columns else index % columns }

/-- The UTF-8 bytes of one scalar value; none for an invalid value. -/
def encodeUtf8 (character : ℕ) : List UInt8 :=
  if character > 0x10ffff ∨ (0xd800 ≤ character ∧ character ≤ 0xdfff) then []
  else if character < 0x80 then [character.toUInt8]
  else if character < 0x800 then
    [(0xc0 + character / 64).toUInt8, (0x80 + character % 64).toUInt8]
  else if character < 0x10000 then
    [(0xe0 + character / 4096).toUInt8, (0x80 + character / 64 % 64).toUInt8,
      (0x80 + character % 64).toUInt8]
  else
    [(0xf0 + character / 262144).toUInt8, (0x80 + character / 4096 % 64).toUInt8,
      (0x80 + character / 64 % 64).toUInt8, (0x80 + character % 64).toUInt8]

/-! ### Keys and deadlines -/

section

variable {γ : Type*} (emit : State → γ → ℕ → EmitResult × γ)
  (erase : State → γ → EmitResult × State × γ)

def commit (input : State) (context : γ) : Result × State × γ :=
  let (result, compose, context) := Multitap.commit (emit input) input.compose context
  let input := { input with compose := compose }
  (result, if result ≠ .blocked then { input with heldDigit := 0 } else input, context)

def openPicker (input : State) (context : γ) : Result × State × γ :=
  let (result, input, context) := commit emit input context
  (result,
    if result ≠ .blocked then { input with heldControl := 0, pickerOpen := true, pickerIndex := 0 }
    else input, context)

/-- The mode change of a held `#` or `*`. -/
def controlMode (input : State) : State :=
  if input.heldControl = 35 then
    if input.controlGesture = .hold then { input with numeric := !input.numeric }
    else if input.numeric then { input with numeric := false }
    else
      { input with
        letterCase :=
          if input.letterCase = .upper then firstCase input else nextCase input.letterCase }
  else
    let language := (input.language + 1) % input.languages.length
    { input with
      language := language
      numeric := false
      compose := setLanguage input.compose input.languages[language]? }

def controlAction (input : State) (context : γ) : Result × State × γ :=
  if input.heldControl = 42 ∧ input.controlGesture = .tap then openPicker emit input context
  else
    let (result, input, context) := commit emit input context
    if result = .blocked then (result, input, context)
    else (result, { controlMode input with heldControl := 0 }, context)

/-- The time since the last press, as a 32-bit number. -/
def elapsedMs (input : State) (nowMs : ℕ) : ℕ :=
  min (if nowMs > input.composeMs then nowMs - input.composeMs else 0) (Word.maxVal 32)

/-- `fplinux_text_input_compose`: composition without a physical digit hold. -/
def compose (input : State) (key nowMs : ℕ) (context : γ) : Result × State × γ :=
  let (result, state, context) :=
    Multitap.press (emit input) input.compose key (elapsedMs input nowMs) context
  let input := { input with compose := state }
  (result, if result ≠ .blocked then { input with composeMs := nowMs } else input, context)

def emitted : EmitResult → Result
  | .accepted => .committed
  | .rejected => .rejected
  | .blocked => .blocked

/-- Digits compose or are emitted; `#` and `*` wait for the release or the hold
deadline. -/
def press (input : State) (key nowMs : ℕ) (context : γ) : Result × State × γ :=
  if key = 35 ∨ key = 42 then
    (.pending,
      { input with
        heldControl := key
        controlMs := nowMs
        controlGesture := .undecided
        heldDigit := 0
        clearing := false }, context)
  else if !handles key then (.ignored, input, context)
  else
    let input := { input with heldControl := 0 }
    if input.numeric then
      match commit emit input context with
      | (.blocked, input, context) => (.blocked, input, context)
      | (_, input, context) =>
        let (answer, context) := emit input context key
        (emitted answer, input, context)
    else
      let (result, input, context) := compose emit input key nowMs context
      (result,
        if result ≠ .blocked ∧ input.compose.pending then
          { input with heldDigit := key, heldMs := nowMs }
        else input, context)

def holdDigit (input : State) (nowMs : ℕ) (context : γ) : Result × State × γ :=
  if input.heldDigit = 0 ∨ nowMs < Word.add 64 input.heldMs holdMs then (.pending, input, context)
  else
    let (result, state, context) := Multitap.hold (emit input) input.compose context
    let input := { input with compose := state }
    (result, if result ≠ .blocked then { input with heldDigit := 0 } else input, context)

/-- A release resolves an overdue hold. -/
def release (input : State) (key nowMs : ℕ) (context : γ) : Result × State × γ :=
  if input.heldControl ≠ 0 ∧ input.heldControl = key then
    controlAction emit
      { input with
        controlGesture :=
          if input.controlGesture = .undecided then
            if nowMs ≥ Word.add 64 input.controlMs holdMs then .hold else .tap
          else input.controlGesture } context
  else if input.heldDigit = 0 ∨ input.heldDigit ≠ key then (.ignored, input, context)
  else
    let (result, input, context) := holdDigit emit input nowMs context
    (result, if result ≠ .blocked then { input with heldDigit := 0 } else input, context)

def clearPress (input : State) (nowMs : ℕ) (context : γ) : EmitResult × State × γ :=
  let (result, input, context) := erase input context
  (result,
    if result ≠ .blocked then
      { input with
        heldDigit := 0
        heldControl := 0
        clearing := result = .accepted
        clearMs := Word.add 64 nowMs holdMs }
    else input, context)

def clearRelease (input : State) : State := { input with clearing := false }

/-! The parts of `fplinux_text_input_tick`, each with the result so far. -/

def tickControl (nowMs : ℕ) (result : Result) (input : State) (context : γ) :
    Result × State × γ :=
  if input.heldControl ≠ 0 ∧ nowMs ≥ Word.add 64 input.controlMs holdMs then
    controlAction emit
      { input with
        controlGesture :=
          if input.controlGesture = .undecided then .hold else input.controlGesture } context
  else (result, input, context)

def tickCompose (nowMs : ℕ) (result : Result) (input : State) (context : γ) :
    Result × State × γ :=
  if input.heldDigit = 0 ∧ input.compose.pending ∧ nowMs ≥ Word.add 64 input.composeMs commitMs then
    commit emit input context
  else (result, input, context)

def tickClear (nowMs : ℕ) (result : Result) (input : State) (context : γ) : Result × State × γ :=
  if input.clearing ∧ nowMs ≥ input.clearMs then
    match erase input context with
    | (.blocked, input, context) => (.blocked, input, context)
    | (erased, input, context) =>
      (result,
        { input with clearing := erased = .accepted, clearMs := Word.add 64 nowMs repeatMs }, context)
  else (result, input, context)

/-- The next part runs unless the last one was blocked. -/
def unlessBlocked (last : Result × State × γ) (next : Result → State → γ → Result × State × γ) :
    Result × State × γ :=
  if last.1 = .blocked then last else next last.1 last.2.1 last.2.2

def tick (input : State) (nowMs : ℕ) (context : γ) : Result × State × γ :=
  let last := holdDigit emit input nowMs context
  let last := unlessBlocked last (tickControl emit nowMs)
  let last := unlessBlocked last (tickCompose emit nowMs)
  unlessBlocked last (tickClear erase nowMs)

def selectSymbol (input : State) (context : γ) : EmitResult × State × γ :=
  let (result, context) := emit input context (symbol input.pickerIndex)
  (result, if result ≠ .blocked then closePicker input else input, context)

end

/-- `fplinux_text_input_deadline`; `none` when nothing is scheduled. -/
def deadline (input : State) : Option ℕ :=
  let time :=
    if input.heldDigit ≠ 0 then Word.add 64 input.heldMs holdMs
    else if input.compose.pending then Word.add 64 input.composeMs commitMs
    else Word.maxVal 64
  let time :=
    if input.heldControl ≠ 0 ∧ Word.add 64 input.controlMs holdMs < time then
      Word.add 64 input.controlMs holdMs
    else time
  let time := if input.clearing ∧ input.clearMs < time then input.clearMs else time
  if time = Word.maxVal 64 then none else some time

/-! ### Encoding -/

theorem toNat_toUInt8 {n : ℕ} (h : n < 256) : n.toUInt8.toNat = n := by
  rw [UInt8.toNat_ofNat']
  omega

theorem next_encodeUtf8 {character : ℕ} (h : Utf8.IsScalar character) :
    Utf8.next (encodeUtf8 character) = some (character, []) := by
  rw [Utf8.IsScalar] at h
  have hcont : ∀ n : ℕ, (0x80 + n % 64).toUInt8.toNat = 0x80 + n % 64 :=
    fun n => toNat_toUInt8 (by omega)
  rw [encodeUtf8, if_neg (by omega)]
  by_cases h1 : character < 0x80
  · have hbyte : character.toUInt8.toNat = character := toNat_toUInt8 (by omega)
    rw [if_pos h1, Utf8.next, if_pos (by omega), hbyte]
  rw [if_neg h1]
  -- In each form the lead byte selects its branch of `next` and the bits add up.
  by_cases h2 : character < 0x800
  · have hlead : (0xc0 + character / 64).toUInt8.toNat = 0xc0 + character / 64 :=
      toNat_toUInt8 (by omega)
    have hvalue : (0xc0 + character / 64) % 32 * 64 + (0x80 + character % 64) % 64 = character := by
      omega
    simp only [if_pos h2, Utf8.next, Utf8.continued, hlead, hcont]
    rw [if_neg (by omega), if_pos (by omega), if_pos (by omega), hvalue]
    exact Option.filter_eq_some_iff.mpr ⟨rfl, by simp [Utf8.next.isScalar]; omega⟩
  rw [if_neg h2]
  by_cases h3 : character < 0x10000
  · have hlead : (0xe0 + character / 4096).toUInt8.toNat = 0xe0 + character / 4096 :=
      toNat_toUInt8 (by omega)
    have hvalue : ((0xe0 + character / 4096) % 16 * 64 + (0x80 + character / 64 % 64) % 64) * 64 +
        (0x80 + character % 64) % 64 = character := by
      omega
    simp only [if_pos h3, Utf8.next, Utf8.continued, hlead, hcont]
    rw [if_neg (by omega), if_neg (by omega), if_pos (by omega), if_pos (by omega),
      if_pos (by omega), hvalue]
    exact Option.filter_eq_some_iff.mpr ⟨rfl, by simp [Utf8.next.isScalar]; omega⟩
  · have hlead : (0xf0 + character / 262144).toUInt8.toNat = 0xf0 + character / 262144 :=
      toNat_toUInt8 (by omega)
    have hvalue : (((0xf0 + character / 262144) % 8 * 64 + (0x80 + character / 4096 % 64) % 64) * 64 +
        (0x80 + character / 64 % 64) % 64) * 64 + (0x80 + character % 64) % 64 = character := by
      omega
    simp only [if_neg h3, Utf8.next, Utf8.continued, hlead, hcont]
    rw [if_neg (by omega), if_neg (by omega), if_neg (by omega), if_pos (by omega),
      if_pos (by omega), if_pos (by omega), if_pos (by omega), hvalue]
    exact Option.filter_eq_some_iff.mpr ⟨rfl, by simp [Utf8.next.isScalar]; omega⟩

/-- **A scalar is encoded as UTF-8.** -/
theorem encodes_encodeUtf8 {character : ℕ} (h : Utf8.IsScalar character) :
    Utf8.Encodes (encodeUtf8 character) character := by
  obtain ⟨char, happ, henc⟩ := Utf8.encodes_of_next (next_encodeUtf8 h)
  rw [List.append_nil] at happ
  rw [happ]
  exact henc

/-! ### The input in order -/

/-- What a field composes, and whether its mode keys work. -/
structure Policy where
  character : ℕ → Prop
  free : Prop
  printable : free → ∀ value, Printable value → character value

/-- The input of a field with a policy, between two operations. -/
structure Ok (R : Policy) (input : State) : Prop where
  language : input.language < input.languages.length
  languages : ∀ offered ∈ input.languages, offered.Ok Printable
  compose : Multitap.Ok R.character input.compose
  composing : (∃ value, R.character value) →
    ∀ chosen ∈ input.compose.language, chosen.Ok R.character
  numeric : ¬ R.free → input.numeric = true
  control : input.heldControl ≠ 0 →
    (input.heldControl = 35 ∨ input.heldControl = 42) ∧ input.controlGesture = .undecided ∧ R.free
  picker : input.pickerOpen = true → input.compose.pending = false ∧ R.free
  index : input.pickerIndex < symbolCount
  columns : 0 < input.pickerColumns ∧ input.pickerColumns ≤ symbolCount

namespace Ok

variable {R : Policy} {input : State}

theorem cancelHeld (h : Ok R input) : Ok R (cancelHeld input) where
  language := h.language
  languages := h.languages
  compose := h.compose
  composing := h.composing
  numeric := h.numeric
  control := by simp [TextInput.cancelHeld]
  picker := by simp [TextInput.cancelHeld]
  index := h.index
  columns := h.columns

theorem cancel (h : Ok R input) : Ok R (cancel input) where
  language := h.language
  languages := h.languages
  compose := ok_of_not_pending rfl
  composing := h.composing
  numeric := h.numeric
  control := by simp [TextInput.cancel]
  picker hopen := ⟨rfl, (h.picker hopen).2⟩
  index := h.index
  columns := h.columns

theorem closePicker (h : Ok R input) : Ok R (closePicker input) where
  language := h.language
  languages := h.languages
  compose := h.compose
  composing := h.composing
  numeric := h.numeric
  control := h.control
  picker := by simp [TextInput.closePicker]
  index := h.index
  columns := h.columns

theorem setCompose (h : Ok R input) {compose : Multitap.State}
    (hok : Multitap.Ok R.character compose) (hlanguage : compose.language = input.compose.language)
    (hclosed : input.pickerOpen = true → compose.pending = false) :
    Ok R { input with compose := compose } where
  language := h.language
  languages := h.languages
  compose := hok
  composing hsome := by
    rw [hlanguage]
    exact h.composing hsome
  numeric := h.numeric
  control := h.control
  picker hopen := ⟨hclosed hopen, (h.picker hopen).2⟩
  index := h.index
  columns := h.columns

theorem setHeld (h : Ok R input) (heldDigit heldMs composeMs clearMs : ℕ) (clearing : Bool) :
    Ok R { input with
      heldDigit := heldDigit
      heldMs := heldMs
      composeMs := composeMs
      clearing := clearing
      clearMs := clearMs } :=
  ⟨h.language, h.languages, h.compose, h.composing, h.numeric, h.control, h.picker, h.index,
    h.columns⟩

theorem releaseControl (h : Ok R input) (gesture : Gesture) :
    Ok R { input with heldControl := 0, controlGesture := gesture } :=
  ⟨h.language, h.languages, h.compose, h.composing, h.numeric, by simp, h.picker, h.index,
    h.columns⟩

theorem setSentenceCase (h : Ok R input) (allowed : Bool) : Ok R (setSentenceCase input allowed) :=
  ⟨h.language, h.languages, h.compose, h.composing, h.numeric, h.control, h.picker, h.index,
    h.columns⟩

theorem setPickerColumns (h : Ok R input) (columns : ℕ) : Ok R (setPickerColumns input columns) := by
  refine ⟨h.language, h.languages, h.compose, h.composing, h.numeric, h.control, h.picker, h.index,
    ?_⟩
  show 0 < (if columns ≠ 0 ∧ columns ≤ symbolCount then columns else defaultColumns) ∧ _
  simp only [TextInput.setPickerColumns]
  split
  · omega
  · decide

end Ok

theorem symbolCount_pos : 0 < symbolCount := by decide

variable {R : Policy}

theorem ok_init (hfree : R.free) (directory : Option Language.Directory)
    (first : Option (List UInt8)) (allowSentence : Bool) :
    Ok R (init directory first allowSentence) := by
  obtain ⟨hne, hall⟩ := Multitap.loadLanguages_ok directory first
  have hcolumns : 0 < defaultColumns ∧ defaultColumns ≤ symbolCount := by decide
  have hclosed : (init directory first allowSentence).pickerOpen = false := rfl
  refine ⟨List.length_pos_of_ne_nil hne, hall, ok_of_not_pending rfl, ?_,
    fun hn => absurd hfree hn, fun hheld => absurd rfl hheld, by simp [hclosed], symbolCount_pos,
    hcolumns⟩
  intro _ chosen hchosen
  exact (hall chosen (List.mem_of_getElem? hchosen)).mono (R.printable hfree)

theorem Ok.select {R' : Policy} {input : State} (h : Ok R input) {numeric : Bool}
    (hnumeric : ¬ R'.free → numeric = true) {language : Option InputLanguage}
    (hlanguage : (∃ value, R'.character value) → ∀ chosen ∈ language, chosen.Ok R'.character) :
    Ok R' { resetMode input numeric with
      pickerOpen := false
      compose := setLanguage (resetMode input numeric).compose language } :=
  ⟨Nat.zero_lt_of_lt h.language, h.languages, ok_of_not_pending rfl, hlanguage, hnumeric,
    fun hheld => absurd rfl hheld, by simp, h.index, h.columns⟩

theorem lastRow_lt (columns fuel index : ℕ) (h : index < symbolCount) :
    lastRow columns fuel index < symbolCount := by
  induction fuel generalizing index with
  | zero => exact h
  | succ fuel ih =>
    rw [lastRow]
    split
    · rename_i hlt
      exact ih _ hlt
    · exact h

theorem Ok.movePicker {input : State} (h : Ok R input) (direction : Direction) :
    Ok R (movePicker input direction) := by
  refine ⟨h.language, h.languages, h.compose, h.composing, h.numeric, h.control, h.picker, ?_,
    h.columns⟩
  have hindex := h.index
  have hcolumns := h.columns
  cases direction with
  | left =>
    simp only [TextInput.movePicker]
    split
    · omega
    · omega
  | right => exact Nat.mod_lt _ (by omega)
  | up =>
    simp only [TextInput.movePicker]
    split
    · omega
    · exact lastRow_lt _ _ _ hindex
  | down =>
    simp only [TextInput.movePicker]
    split
    · assumption
    · exact Nat.lt_of_lt_of_le (Nat.mod_lt _ hcolumns.1) hcolumns.2

theorem printable_symbol {index : ℕ} (h : index < symbolCount) : Printable (symbol index) := by
  have hall : ∀ value ∈ symbols, (value ≤ 0x10ffff ∧ ¬ (0xd800 ≤ value ∧ value ≤ 0xdfff)) ∧
      0x20 ≤ value ∧ ¬ (0x7f ≤ value ∧ value ≤ 0x9f) := by
    decide
  rw [symbol, List.getD_eq_getElem _ _ h]
  obtain ⟨hscalar, hge, hcontrol⟩ := hall _ (List.getElem_mem h)
  exact ⟨hscalar, hge, hcontrol⟩

/-! ### Callbacks that keep the text in order -/

section

variable {γ : Type*} {R : Policy} {J : γ → Prop} {emit : State → γ → ℕ → EmitResult × γ}
  {erase : State → γ → EmitResult × State × γ}

/-- `emit` takes what the field composes and never blocks. -/
structure Emits (R : Policy) (J : γ → Prop) (emit : State → γ → ℕ → EmitResult × γ) : Prop where
  keeps : ∀ input context character, (¬ R.free → input.numeric = true) → J context →
    R.character character → J (emit input context character).2
  answers : ∀ input context character, (emit input context character).1 ≠ .blocked

/-- The state after an operation: in order, and a character that is still pending
is the one that was, with the text and the modes it was typed in. -/
structure Keeps (R : Policy) (J : γ → Prop) (input : State) (context : γ) (after : State)
    (afterContext : γ) : Prop where
  ok : Ok R after
  text : J afterContext
  pending : after.compose.pending = true → after.compose = input.compose ∧
    afterContext = context ∧ after.numeric = input.numeric ∧ after.letterCase = input.letterCase

variable {context : γ} {input : State}

theorem Keeps.refl (h : Ok R input) (hJ : J context) : Keeps R J input context input context :=
  ⟨h, hJ, fun _ => ⟨rfl, rfl, rfl, rfl⟩⟩

theorem Keeps.trans {middle after : State} {middleContext afterContext : γ}
    (h1 : Keeps R J input context middle middleContext)
    (h2 : Keeps R J middle middleContext after afterContext) :
    Keeps R J input context after afterContext := by
  refine ⟨h2.ok, h2.text, fun hpending => ?_⟩
  obtain ⟨hcompose, hcontext, hnumeric, hcase⟩ := h2.pending hpending
  obtain ⟨hcompose', hcontext', hnumeric', hcase'⟩ := h1.pending (by rw [← hcompose, hpending])
  exact ⟨hcompose.trans hcompose', hcontext.trans hcontext', hnumeric.trans hnumeric',
    hcase.trans hcase'⟩

theorem commit_eq (hemit : Emits R J emit) (input : State) (context : γ) :
    (commit emit input context).2 =
      ({ input with
        compose := (Multitap.commit (emit input) input.compose context).2.1
        heldDigit := 0 }, (Multitap.commit (emit input) input.compose context).2.2) := by
  have hresult := Multitap.emitPending_ne_blocked (hemit.answers input) input.compose context
  simp [commit, Multitap.commit, hresult]

theorem commit_ne_blocked (hemit : Emits R J emit) (input : State) (context : γ) :
    (commit emit input context).1 ≠ .blocked :=
  Multitap.emitPending_ne_blocked (hemit.answers input) input.compose context

theorem not_pending_commit (hemit : Emits R J emit) (input : State) (context : γ) :
    (commit emit input context).2.1.compose.pending = false := by
  rw [commit_eq hemit]
  exact Multitap.emitPending_not_pending (hemit.answers input) _ _

theorem commit_keeps (hemit : Emits R J emit) (h : Ok R input) (hJ : J context) :
    Keeps R J input context (commit emit input context).2.1 (commit emit input context).2.2 := by
  have hclosed := not_pending_commit hemit input context
  have hkeeps := Multitap.emitPending_keeps
    (fun context character => hemit.keeps input context character h.numeric) h.compose hJ
  refine ⟨?_, ?_, fun hpending => ?_⟩
  · rw [commit_eq hemit] at hclosed ⊢
    exact (h.setCompose hkeeps.1 (Multitap.language_emitPending _ _) fun _ => hclosed).setHeld 0 _ _
      _ _
  · rw [commit_eq hemit]
    exact hkeeps.2
  · rw [hclosed] at hpending
    exact absurd hpending (by simp)

theorem controlAction_eq (hemit : Emits R J emit) (input : State) (context : γ) :
    (controlAction emit input context).2 =
      (if input.heldControl = 42 ∧ input.controlGesture = .tap then
        { (commit emit input context).2.1 with
          heldControl := 0
          pickerOpen := true
          pickerIndex := 0 }
      else { controlMode (commit emit input context).2.1 with heldControl := 0 },
        (commit emit input context).2.2) := by
  have hresult := commit_ne_blocked hemit input context
  rw [controlAction]
  split
  · simp [openPicker, hresult]
  · simp [hresult]

theorem ok_controlMode (h : Ok R { input with heldControl := 0 }) (hfree : R.free) :
    Ok R { controlMode input with heldControl := 0 } := by
  rw [controlMode]
  split
  · split
    · exact ⟨h.language, h.languages, h.compose, h.composing, fun hn => absurd hfree hn, by simp,
        h.picker, h.index, h.columns⟩
    · split
      · exact ⟨h.language, h.languages, h.compose, h.composing, fun hn => absurd hfree hn, by simp,
          h.picker, h.index, h.columns⟩
      · exact ⟨h.language, h.languages, h.compose, h.composing, h.numeric, by simp, h.picker,
          h.index, h.columns⟩
  · have hlt : input.language < input.languages.length := h.language
    refine ⟨Nat.mod_lt _ (by omega), h.languages, ok_of_not_pending rfl, ?_,
      fun hn => absurd hfree hn, by simp, fun _ => ⟨rfl, hfree⟩, h.index, h.columns⟩
    intro _ chosen hchosen
    exact (h.languages chosen (List.mem_of_getElem? hchosen)).mono (R.printable hfree)

theorem not_pending_controlMode (h : input.compose.pending = false) :
    (controlMode input).compose.pending = false := by
  rw [controlMode]
  split
  · split
    · exact h
    · split
      · exact h
      · exact h
  · rfl

theorem commit_text (hemit : Emits R J emit) {input : State} {context : γ}
    (hnumeric : ¬ R.free → input.numeric = true) (h : Multitap.Ok R.character input.compose)
    (hJ : J context) : J (commit emit input context).2.2 := by
  rw [commit_eq hemit]
  exact (Multitap.emitPending_keeps
    (fun context character => hemit.keeps input context character hnumeric) h hJ).2

/-- **A control key** that is let go, however its gesture is resolved. -/
theorem controlAction_keeps (hemit : Emits R J emit) (h : Ok R input)
    (hheld : input.heldControl ≠ 0) (hJ : J context) (gesture : Gesture) :
    Keeps R J input context
      (controlAction emit { input with controlGesture := gesture } context).2.1
      (controlAction emit { input with controlGesture := gesture } context).2.2 := by
  have hfree := (h.control hheld).2.2
  have htext := @commit_text _ R J emit hemit { input with controlGesture := gesture } context
    h.numeric h.compose hJ
  have hclosed := not_pending_commit hemit { input with controlGesture := gesture } context
  have hcommit := commit_eq hemit { input with controlGesture := gesture } context
  rw [controlAction_eq hemit]
  rw [hcommit] at hclosed htext ⊢
  have hidle : Ok R { input with
      heldControl := 0
      controlGesture := gesture
      compose := (Multitap.commit (emit { input with controlGesture := gesture }) input.compose
        context).2.1
      heldDigit := 0 } :=
    ((h.releaseControl gesture).setCompose (ok_of_not_pending hclosed)
      (Multitap.language_emitPending _ _) fun _ => hclosed).setHeld 0 _ _ _ _
  split
  · refine ⟨?_, htext, fun hpending => ?_⟩
    · exact ⟨hidle.language, hidle.languages, hidle.compose, hidle.composing, hidle.numeric,
        by simp, fun _ => ⟨hclosed, hfree⟩, symbolCount_pos, hidle.columns⟩
    · rw [hclosed] at hpending
      exact absurd hpending (by simp)
  · refine ⟨ok_controlMode hidle hfree, htext, fun hpending => ?_⟩
    rw [not_pending_controlMode hclosed] at hpending
    exact absurd hpending (by simp)

theorem holdDigit_keeps (hemit : Emits R J emit) (h : Ok R input) (hJ : J context) (nowMs : ℕ) :
    Keeps R J input context (holdDigit emit input nowMs context).2.1
      (holdDigit emit input nowMs context).2.2 := by
  rw [holdDigit]
  split
  · exact .refl h hJ
  · have hkeeps := Multitap.hold_keeps
      (fun context character => hemit.keeps input context character h.numeric) h.compose hJ
    have hresult := Multitap.hold_ne_blocked (hemit.answers input) input.compose context
    have hstate := Multitap.hold_eq_or_not_pending (hemit.answers input) input.compose context
    simp only [ne_eq, hresult, not_false_eq_true, if_true]
    refine ⟨?_, hkeeps.2, fun hpending => ?_⟩
    · refine (h.setCompose hkeeps.1 (Multitap.language_hold _ _) fun hopen => ?_).setHeld 0 _ _ _ _
      rcases hstate with heq | hclosed
      · rw [heq]
        exact (h.picker hopen).1
      · exact hclosed
    · rcases hstate with heq | hclosed
      · exact ⟨congrArg Prod.fst heq, congrArg Prod.snd heq, rfl, rfl⟩
      · exact absurd (hclosed.symm.trans hpending) (by simp)

theorem compose_keeps (hemit : Emits R J emit) (h : Ok R input) (hsome : ∃ value, R.character value)
    (hclosed : input.pickerOpen = false) (hJ : J context) (key nowMs : ℕ) :
    Ok R (compose emit input key nowMs context).2.1 ∧
      J (compose emit input key nowMs context).2.2 := by
  have hkeeps := Multitap.press_keeps
    (fun context character => hemit.keeps input context character h.numeric) h.compose
    (h.composing hsome) hJ key (elapsedMs input nowMs)
  refine ⟨?_, hkeeps.2⟩
  simp only [compose]
  have hok := h.setCompose hkeeps.1 (Multitap.language_press _ _ _ _)
    fun hopen => absurd hopen (by simp [hclosed])
  split
  · exact hok.setHeld input.heldDigit input.heldMs nowMs input.clearMs input.clearing
  · exact hok

theorem printable_digit {key : ℕ} (h : handles key = true) : Printable key := by
  rw [handles, decide_eq_true_eq] at h
  exact ⟨⟨by omega, by omega⟩, by omega, by omega⟩

theorem press_control {key : ℕ} (hkey : key = 35 ∨ key = 42) (input : State) (nowMs : ℕ)
    (context : γ) :
    press emit input key nowMs context =
      (.pending,
        { input with
          heldControl := key
          controlMs := nowMs
          controlGesture := .undecided
          heldDigit := 0
          clearing := false }, context) := by
  rw [press, if_pos hkey]

/-- **A press** of a key, in a field whose mode keys work and whose picker is closed. -/
theorem press_keeps (hemit : Emits R J emit) (h : Ok R input) (hfree : R.free)
    (hclosed : input.pickerOpen = false) (hJ : J context) (key nowMs : ℕ) :
    Ok R (press emit input key nowMs context).2.1 ∧ J (press emit input key nowMs context).2.2 := by
  rw [press]
  split
  · rename_i hkey
    exact ⟨⟨h.language, h.languages, h.compose, h.composing, h.numeric,
      fun _ => ⟨hkey, rfl, hfree⟩, h.picker, h.index, h.columns⟩, hJ⟩
  · split
    · exact ⟨h, hJ⟩
    · rename_i hdigit
      have hprintable : Printable key := printable_digit (by simpa using hdigit)
      have hidle := h.releaseControl input.controlGesture
      simp only
      split
      · have hkeeps := commit_keeps hemit hidle hJ
        split
        · rename_i heq
          rw [heq] at hkeeps
          exact ⟨hkeeps.ok, hkeeps.text⟩
        · rename_i heq
          rw [heq] at hkeeps
          exact ⟨hkeeps.ok, hemit.keeps _ _ key hkeeps.ok.numeric hkeeps.text
            (R.printable hfree key hprintable)⟩
      · have hkeeps := compose_keeps hemit hidle ⟨key, R.printable hfree key hprintable⟩ hclosed hJ
          key nowMs
        refine ⟨?_, hkeeps.2⟩
        split
        · exact hkeeps.1.setHeld key nowMs _ _ _
        · exact hkeeps.1

/-- **A release** of a phone key. -/
theorem release_keeps (hemit : Emits R J emit) (h : Ok R input) (hJ : J context) (key nowMs : ℕ) :
    Keeps R J input context (release emit input key nowMs context).2.1
      (release emit input key nowMs context).2.2 := by
  rw [release]
  split
  · rename_i hheld
    exact controlAction_keeps hemit h hheld.1 hJ _
  · split
    · exact .refl h hJ
    · have hkeeps := holdDigit_keeps hemit h hJ nowMs
      simp only
      split
      · exact ⟨hkeeps.ok.setHeld 0 _ _ _ _, hkeeps.text, hkeeps.pending⟩
      · exact hkeeps

theorem selectSymbol_keeps (hemit : Emits R J emit) (h : Ok R input) (hfree : R.free)
    (hJ : J context) :
    Ok R (selectSymbol emit input context).2.1 ∧ J (selectSymbol emit input context).2.2 := by
  refine ⟨?_, hemit.keeps input context _ h.numeric hJ
    (R.printable hfree _ (printable_symbol h.index))⟩
  simp only [selectSymbol]
  split
  · exact h.closePicker
  · exact h

/-- `erase` deletes text or drops the pending character, and never blocks. -/
structure Erases (R : Policy) (J : γ → Prop) (erase : State → γ → EmitResult × State × γ) :
    Prop where
  keeps : ∀ input context, Ok R input → J context →
    Ok R (erase input context).2.1 ∧ J (erase input context).2.2
  answers : ∀ input context, (erase input context).1 ≠ .blocked
  settles : ∀ input context, (erase input context).2.1.compose.pending = false

theorem clearPress_keeps (herase : Erases R J erase) (h : Ok R input) (hJ : J context) (nowMs : ℕ) :
    Keeps R J input context (clearPress erase input nowMs context).2.1
      (clearPress erase input nowMs context).2.2 := by
  have hkeeps := herase.keeps input context h hJ
  have hanswer := herase.answers input context
  have hsettles := herase.settles input context
  simp only [clearPress, ne_eq, hanswer, not_false_eq_true, if_true]
  refine ⟨?_, hkeeps.2, fun hpending => ?_⟩
  · exact (hkeeps.1.releaseControl (erase input context).2.1.controlGesture).setHeld 0 _ _ _ _
  · exact absurd (hsettles.symm.trans hpending) (by simp)

theorem unlessBlocked_induct {Q : State → γ → Prop} {last : Result × State × γ}
    {next : Result → State → γ → Result × State × γ} (hlast : Q last.2.1 last.2.2)
    (hnext : ∀ result input context, Q input context →
      Q (next result input context).2.1 (next result input context).2.2) :
    Q (unlessBlocked last next).2.1 (unlessBlocked last next).2.2 := by
  rw [unlessBlocked]
  split
  · exact hlast
  · exact hnext _ _ _ hlast

theorem unlessBlocked_keeps {last : Result × State × γ}
    {next : Result → State → γ → Result × State × γ}
    (hlast : Keeps R J input context last.2.1 last.2.2)
    (hnext : ∀ result middle middleContext, Ok R middle → J middleContext →
      Keeps R J middle middleContext (next result middle middleContext).2.1
        (next result middle middleContext).2.2) :
    Keeps R J input context (unlessBlocked last next).2.1 (unlessBlocked last next).2.2 :=
  unlessBlocked_induct hlast fun result middle middleContext hmiddle =>
    hmiddle.trans (hnext result middle middleContext hmiddle.ok hmiddle.text)

/-- **The deadlines** due at a time. -/
theorem tick_keeps (hemit : Emits R J emit) (herase : Erases R J erase) (h : Ok R input)
    (hJ : J context) (nowMs : ℕ) :
    Keeps R J input context (tick emit erase input nowMs context).2.1
      (tick emit erase input nowMs context).2.2 := by
  refine unlessBlocked_keeps (unlessBlocked_keeps (unlessBlocked_keeps
    (holdDigit_keeps hemit h hJ nowMs) ?control) ?commit) ?clear
  case control =>
    intro result middle middleContext hok hmiddle
    rw [tickControl]
    split
    · rename_i hheld
      exact controlAction_keeps hemit hok hheld.1 hmiddle _
    · exact .refl hok hmiddle
  case commit =>
    intro result middle middleContext hok hmiddle
    rw [tickCompose]
    split
    · exact commit_keeps hemit hok hmiddle
    · exact .refl hok hmiddle
  case clear =>
    intro result middle middleContext hok hmiddle
    rw [tickClear]
    split
    · have hkeeps := herase.keeps middle middleContext hok hmiddle
      have hsettles := herase.settles middle middleContext
      split
      · rename_i heq
        rw [heq] at hkeeps hsettles
        exact ⟨hkeeps.1, hkeeps.2, fun hpending => absurd (hsettles.symm.trans hpending) (by simp)⟩
      · rename_i heq
        rw [heq] at hkeeps hsettles
        exact ⟨hkeeps.1.setHeld _ _ _ _ _, hkeeps.2,
          fun hpending => absurd (hsettles.symm.trans hpending) (by simp)⟩
    · exact .refl hok hmiddle

/-! ### The picker and the languages -/

/-- The languages offered and the picker stay as they are. -/
structure Steady (input after : State) : Prop where
  languages : after.languages = input.languages
  pickerOpen : after.pickerOpen = input.pickerOpen
  pickerIndex : after.pickerIndex = input.pickerIndex

theorem Steady.trans {middle after : State} (h1 : Steady input middle) (h2 : Steady middle after) :
    Steady input after :=
  ⟨h2.languages.trans h1.languages, h2.pickerOpen.trans h1.pickerOpen,
    h2.pickerIndex.trans h1.pickerIndex⟩

theorem holdDigit_modes (input : State) (nowMs : ℕ) (context : γ) :
    ∃ compose heldDigit, (holdDigit emit input nowMs context).2.1 =
      { input with compose := compose, heldDigit := heldDigit } := by
  rw [holdDigit]
  split
  · exact ⟨input.compose, input.heldDigit, rfl⟩
  · simp only
    split
    · exact ⟨_, 0, rfl⟩
    · exact ⟨_, input.heldDigit, rfl⟩

theorem release_modes {input : State} {key : ℕ} (hkey : input.heldControl ≠ key) (nowMs : ℕ)
    (context : γ) :
    ∃ compose heldDigit, (release emit input key nowMs context).2.1 =
      { input with compose := compose, heldDigit := heldDigit } := by
  rw [release, if_neg fun hheld => hkey hheld.2]
  split
  · exact ⟨input.compose, input.heldDigit, rfl⟩
  · obtain ⟨compose, heldDigit, heq⟩ := @holdDigit_modes _ emit input nowMs context
    simp only
    split
    · exact ⟨compose, 0, by rw [heq]⟩
    · exact ⟨compose, heldDigit, heq⟩

theorem steady_controlMode (input : State) : Steady input (controlMode input) := by
  rw [controlMode]
  split
  · split
    · exact ⟨rfl, rfl, rfl⟩
    · split
      · exact ⟨rfl, rfl, rfl⟩
      · exact ⟨rfl, rfl, rfl⟩
  · exact ⟨rfl, rfl, rfl⟩

theorem steady_commit (hemit : Emits R J emit) (input : State) (context : γ) :
    Steady input (commit emit input context).2.1 := by
  rw [commit_eq hemit]
  exact ⟨rfl, rfl, rfl⟩

/-- **A tick** opens no picker and closes none. -/
theorem tick_steady (hemit : Emits R J emit) (herase : Erases R J erase)
    (hsteady : ∀ input context, Steady input (erase input context).2.1) (h : Ok R input)
    (hJ : J context) (nowMs : ℕ) :
    Steady input (tick emit erase input nowMs context).2.1 := by
  have hhold := holdDigit_keeps hemit h hJ nowMs
  have hpart {last next} := @unlessBlocked_induct γ
    (fun middle middleContext => Ok R middle ∧ J middleContext ∧ Steady input middle) last next
  refine (hpart (hpart (hpart ?hold ?control) ?commit) ?clear).2.2
  case hold =>
    obtain ⟨compose, heldDigit, heq⟩ := @holdDigit_modes _ emit input nowMs context
    refine ⟨hhold.ok, hhold.text, ?_⟩
    rw [heq]
    exact ⟨rfl, rfl, rfl⟩
  case control =>
    rintro result middle middleContext ⟨hok, hmiddle, hsame⟩
    rw [tickControl]
    split
    · rename_i hheld
      have hkeeps := controlAction_keeps hemit hok hheld.1 hmiddle .hold
      rw [(hok.control hheld.1).2.1, if_pos rfl]
      refine ⟨hkeeps.ok, hkeeps.text, hsame.trans ?_⟩
      rw [controlAction_eq hemit, if_neg (by simp)]
      have hcommit := steady_commit hemit { middle with controlGesture := .hold } middleContext
      have hmode := hcommit.trans (steady_controlMode _)
      exact ⟨hmode.languages, hmode.pickerOpen, hmode.pickerIndex⟩
    · exact ⟨hok, hmiddle, hsame⟩
  case commit =>
    rintro result middle middleContext ⟨hok, hmiddle, hsame⟩
    rw [tickCompose]
    split
    · have hkeeps := commit_keeps hemit hok hmiddle
      exact ⟨hkeeps.ok, hkeeps.text, hsame.trans (steady_commit hemit middle middleContext)⟩
    · exact ⟨hok, hmiddle, hsame⟩
  case clear =>
    rintro result middle middleContext ⟨hok, hmiddle, hsame⟩
    rw [tickClear]
    split
    · have hkeeps := herase.keeps middle middleContext hok hmiddle
      have hstill := hsteady middle middleContext
      split
      · rename_i heq
        rw [heq] at hkeeps hstill
        exact ⟨hkeeps.1, hkeeps.2, hsame.trans hstill⟩
      · rename_i heq
        rw [heq] at hkeeps hstill
        exact ⟨hkeeps.1.setHeld _ _ _ _ _, hkeeps.2,
          hsame.trans ⟨hstill.languages, hstill.pickerOpen, hstill.pickerIndex⟩⟩
    · exact ⟨hok, hmiddle, hsame⟩

end

end TextInput
