/-
The editing state of a text field (`fplinux-ui-text-model.c`).

`Field` is the text with its caret, limits and switches; `Model` adds the shared
phone input.  The callbacks of the input edit the field.  Allocations succeed, so
`reserve` only makes the capacity grow and a password always has its mask.
`finish` ends every operation that may have changed something: it redraws the
display and counts the revision when the model is dirty.

The results about the model are in `TextContent`, `TextInvariant` and
`TextRevision`.
-/
import Fplinux.InputCodes
import Fplinux.Ui.TextBoundary
import Fplinux.Ui.TextInput

namespace TextModel

open Bytes (byte ascii)
open InputCodes
open TextBoundary
open Multitap (EmitResult)
open TextInput (Direction applyCase cancel commit commitMs encodeUtf8 holdMs indicatorAt press
  release)

def initialCapacity : ℕ := 64

/-- U+2022 BULLET, which masks a password character. -/
def bullet : List UInt8 := [0xe2, 0x80, 0xa2]

/-- The `*` cycle of a PHONE field, as key 0's map. -/
def phoneStar : Multitap.InputLanguage where
  code := []
  indicator := fun _ => []
  keys := [ascii "*+pw"]

/-- `enum fplinux_ui_text_model_type`. -/
inductive FieldType
  | any | numeric | decimal | phone
  deriving DecidableEq, Repr

/-- `enum fplinux_ui_text_model_result`. -/
inductive KeyResult
  | ignored | consumed | lineUp | lineDown
  deriving DecidableEq, Repr

/-- `errno` of a failed request. -/
inductive Errno
  | e2big | einval
  deriving DecidableEq, Repr

/-- `struct fplinux_ui_text_model_key`. -/
structure Key where
  keyboard : Bool
  code : ℕ
  pressed : Bool
  /-- Control or Alt held: keyboard text is a shortcut, not input. -/
  shortcut : Bool
  /-- Keyboard UTF-8 text, or none. -/
  text : Option (List UInt8)

structure Field where
  /-- The bytes before the final zero. -/
  text : List UInt8
  length : ℕ
  cursor : ℕ
  /-- Unicode code points in text; the limit counts these. -/
  characters : ℕ
  /-- The text as shown: committed text with the pending character. -/
  display : List UInt8
  capacity : ℕ
  limit : ℕ
  multiline : Bool
  focused : Bool
  type : FieldType
  separator : UInt8
  /-- The separator that `*` typed, which a quick second `*` takes back. -/
  separatorTyped : Bool
  separatorRevision : ℕ
  separatorMs : ℕ
  password : Bool
  masked : Option (List UInt8)
  /-- A typed 0 in PHONE waits for its replacement by `+`. -/
  phoneZeroHeld : Bool
  phoneZeroMs : ℕ
  readOnly : Bool
  /-- Releases of consumed presses are consumed too, by source and code. -/
  consumed : Bool → ℕ → Bool
  dirty : Bool
  /-- Incremented on every visible change. -/
  revision : ℕ

structure Model where
  input : TextInput.State
  field : Field

/-! ### The text -/

def fits (field : Field) (characters : ℕ) : Bool := field.limit = 0 ∨ characters ≤ field.limit

/-- Both buffers hold `bytes` of text plus the final zero. -/
def reserve (field : Field) (bytes : ℕ) : Field :=
  if bytes < field.capacity then field
  else
    { field with
      capacity := if field.capacity * 2 ≤ bytes then bytes + 1 else field.capacity * 2 }

/-- Abc mode capitalizes at the start, after a newline or ". ", "! ", "? ". -/
def startsSentence (field : Field) : Bool :=
  let before := (field.text.take field.cursor).reverse
  match before.dropWhile (· = byte ' ') with
  | [] => true
  | previous :: rest =>
    previous = byte '\n' ∨
      (rest.length + 1 ≠ before.length ∧
        (previous = byte '.' ∨ previous = byte '!' ∨ previous = byte '?'))

/-- Whether the bytes fitted, and the field after them. -/
def insertBytes (field : Field) (bytes : List UInt8) : Bool × Field :=
  let added := countCharacters bytes
  if !fits field (field.characters + added) then (false, field)
  else
    let field := reserve field (field.length + bytes.length)
    (true,
      { field with
        text := field.text.take field.cursor ++ bytes ++ field.text.drop field.cursor
        cursor := field.cursor + bytes.length
        length := field.length + bytes.length
        characters := field.characters + added
        dirty := true })

/-- `delete_range`, from `start` up to `stop`. -/
def deleteRange (field : Field) (start stop : ℕ) : Field :=
  { field with
    characters := field.characters - countCharacters ((field.text.drop start).take (stop - start))
    text := field.text.take start ++ field.text.drop stop
    length := field.length - (stop - start)
    cursor := start
    dirty := true }

def isNumber (field : Field) : Bool := field.type = .numeric ∨ field.type = .decimal

/-- Digits and the separator go after a leading minus, never before it. -/
def skipMinus (field : Field) : Field :=
  if isNumber field ∧ field.cursor = 0 ∧ field.length ≠ 0 ∧ field.text.head? = some (byte '-') then
    { field with cursor := 1 }
  else field

/-- The minus counts toward the limit; the caret stays by its character. -/
def toggleMinus (field : Field) : Field :=
  if field.length ≠ 0 ∧ field.text.head? = some (byte '-') then
    { deleteRange field 0 1 with cursor := field.cursor - 1 }
  else
    let (inserted, after) := insertBytes { field with cursor := 0 } [byte '-']
    { after with cursor := if inserted then field.cursor + 1 else field.cursor }

def hasSeparator (field : Field) : Bool := field.separator ∈ field.text

def typeSeparator (field : Field) : Bool × Field :=
  if hasSeparator field then (false, field) else insertBytes (skipMinus field) [field.separator]

/-- A quick second `*` after the separator it typed. -/
def starAgain (field : Field) (nowMs : ℕ) : Bool :=
  field.separatorTyped ∧ field.separatorRevision = field.revision ∧
    nowMs < Word.add 64 field.separatorMs commitMs ∧ field.cursor ≠ 0 ∧
    field.text[field.cursor - 1]? = some field.separator

def decimalStar (field : Field) (nowMs : ℕ) : Field :=
  let again := starAgain field nowMs
  let field := { field with separatorTyped := false }
  if again then toggleMinus (deleteRange field (field.cursor - 1) field.cursor)
  else if hasSeparator field then toggleMinus field
  else
    match typeSeparator field with
    | (false, field) => field
    | (true, field) =>
      -- The revision that `finish` gives this change.
      { field with
        separatorTyped := true
        separatorRevision := Word.add 32 field.revision 1
        separatorMs := nowMs }

/-- A held 0 in a PHONE field becomes the international prefix. -/
def holdPlus (field : Field) : Field :=
  if field.cursor = 0 ∨ field.text[field.cursor - 1]? ≠ some (byte '0') then field
  else { field with text := field.text.set (field.cursor - 1) (byte '+'), dirty := true }

def holdPhoneZero (field : Field) (nowMs : ℕ) : Field :=
  if !field.phoneZeroHeld ∨ nowMs < Word.add 64 field.phoneZeroMs holdMs then field
  else holdPlus { field with phoneZeroHeld := false }

def deleteForward (field : Field) : Field :=
  if field.cursor < field.length then
    deleteRange field field.cursor (nextBoundary field.text field.length field.cursor)
  else field

def moveCursor (field : Field) (cursor : ℕ) : Field :=
  if cursor = field.cursor then field else { field with cursor := cursor, dirty := true }

/-- The end or the start of the line the caret is in. -/
def lineEdge (field : Field) (atEnd : Bool) : ℕ :=
  if atEnd then
    field.cursor + ((field.text.drop field.cursor).takeWhile (· ≠ byte '\n')).length
  else
    field.cursor - ((field.text.take field.cursor).reverse.takeWhile (· ≠ byte '\n')).length

def moveToLineEdge (field : Field) (atEnd : Bool) : Field :=
  moveCursor field (lineEdge field atEnd)

/-- The byte offset of a character index. -/
def caretOffset (text : List UInt8) (length : ℕ) : ℕ → ℕ → ℕ
  | 0, cursor => cursor
  | index + 1, cursor =>
    if cursor < length then caretOffset text length index (nextBoundary text length cursor)
    else cursor

/-- The digits of a number, with at most one separator when it may have one. -/
def suitsDigits (separators : Bool) : List UInt8 → Bool
  | [] => true
  | b :: text =>
    if (b = byte '.' ∨ b = byte ',') ∧ separators then suitsDigits false text
    else if b < byte '0' ∨ b > byte '9' then false
    else suitsDigits separators text

/-- Whether text suits the type; numbers may be unfinished, such as "-". -/
def suits (type : FieldType) (text : List UInt8) : Bool :=
  match type with
  | .any => true
  | .phone => text.all (· ∈ ascii "0123456789+*#pw")
  | .numeric => suitsDigits false (if text.head? = some (byte '-') then text.tail else text)
  | .decimal => suitsDigits true (if text.head? = some (byte '-') then text.tail else text)

/-- The first `.` or `,` becomes the field's own separator. -/
def replaceSeparator (separator : UInt8) : List UInt8 → List UInt8
  | [] => []
  | b :: text =>
    if b = byte '.' ∨ b = byte ',' then separator :: text
    else b :: replaceSeparator separator text

def useSeparator (field : Field) : Field :=
  if field.type ≠ .decimal then field
  else { field with text := replaceSeparator field.separator field.text }

/-! ### The pending character -/

section

variable (towupper : ℕ → ℕ)

/-- The bytes of a character in the case of the mode. -/
def casedBytes (input : TextInput.State) (field : Field) (character : ℕ) : List UInt8 :=
  encodeUtf8 (applyCase towupper input character (startsSentence field))

def pendingBytes (model : Model) : List UInt8 :=
  if model.input.compose.pending then
    casedBytes towupper model.input model.field (Multitap.candidate model.input.compose)
  else []

def emitCharacter (input : TextInput.State) (field : Field) (character : ℕ) :
    EmitResult × Field :=
  let (inserted, field) := insertBytes field (casedBytes towupper input field character)
  (if inserted then .accepted else .rejected, field)

def commitPending (model : Model) : Model :=
  let model : Model :=
    ⟨TextInput.cancelHeld model.input, { model.field with phoneZeroHeld := false }⟩
  if !model.input.compose.pending then model
  else
    let (_, input, field) := commit (emitCharacter towupper) model.input model.field
    ⟨input, { field with dirty := true }⟩

def cancelPending (model : Model) : Model :=
  ⟨cancel model.input, { model.field with phoneZeroHeld := false, dirty := true }⟩

def putBullets (count : ℕ) : List UInt8 := (List.replicate count bullet).flatten

/-- A dot for every committed character around the readable pending one. -/
def refreshMasked (field : Field) (pending : List UInt8) : Field :=
  let before := countCharacters (field.text.take field.cursor)
  let after := field.characters - before
  { field with masked := some (putBullets before ++ pending ++ putBullets after) }

def refreshDisplay (model : Model) : Model :=
  let bytes := pendingBytes towupper model
  let field :=
    if bytes.length ≠ 0 then reserve model.field (model.field.length + bytes.length)
    else model.field
  let field :=
    { field with display := field.text.take field.cursor ++ bytes ++ field.text.drop field.cursor }
  ⟨model.input, if field.password then refreshMasked field bytes else field⟩

def finish (model : Model) : Model :=
  if !model.field.dirty then model
  else
    let model := refreshDisplay towupper model
    { model with
      field :=
        { model.field with dirty := false, revision := Word.add 32 model.field.revision 1 } }

/-- The pending character is dropped when it does not fit. -/
def keepFitting (model : Model) : Bool × Model :=
  if !fits model.field (model.field.characters + 1) then (false, cancelPending model)
  else
    (true,
      { model with
        field :=
          reserve model.field (model.field.length + (pendingBytes towupper model).length) })

/-- `press_multitap`: false when the pending character does not fit. -/
def pressMultitap (model : Model) (key nowMs : ℕ) (hold : Bool) : Bool × Model :=
  let (_, input, field) :=
    if hold then press (emitCharacter towupper) model.input key nowMs model.field
    else TextInput.compose (emitCharacter towupper) model.input key nowMs model.field
  keepFitting towupper ⟨input, { field with dirty := true }⟩

def typeDigit (model : Model) (code digit nowMs : ℕ) : Model :=
  let model := commitPending towupper model
  match insertBytes (skipMinus model.field) [digit.toUInt8] with
  | (false, field) => { model with field := field }
  | (true, field) =>
    if field.type = .phone ∧ code = keyNumeric0 then
      { model with field := { field with phoneZeroHeld := true, phoneZeroMs := nowMs } }
    else { model with field := field }

def deleteBackward (model : Model) : Model :=
  if model.input.compose.pending then cancelPending model
  else if model.field.cursor ≠ 0 then
    { model with
      field :=
        deleteRange model.field (previousBoundary model.field.text model.field.cursor)
          model.field.cursor }
  else model

def eraseCharacter (input : TextInput.State) (field : Field) :
    EmitResult × TextInput.State × Field :=
  let model := deleteBackward ⟨input, field⟩
  (if model.field.cursor ≠ 0 then .accepted else .rejected, model.input, model.field)

/-! ### The symbol picker -/

def closePicker (model : Model) (insert : Bool) : Model :=
  if insert then
    let (_, input, field) :=
      TextInput.selectSymbol (emitCharacter towupper) model.input model.field
    ⟨input, { field with dirty := true }⟩
  else ⟨TextInput.closePicker model.input, { model.field with dirty := true }⟩

/-- The direction of a key in the picker. -/
def pickerDirection (code : ℕ) : Option Direction :=
  if code = keyLeft then some .left
  else if code = keyRight then some .right
  else if code = keyUp then some .up
  else if code = keyDown then some .down
  else none

def movePicker (model : Model) (direction : Direction) : Model :=
  ⟨TextInput.movePicker model.input direction, { model.field with dirty := true }⟩

/-- The picker is modal: other phone keys do nothing while it is open. -/
def pickerPhoneKey (model : Model) (code : ℕ) : Model :=
  match pickerDirection code with
  | some direction => movePicker model direction
  | none =>
    if code = keyOk then closePicker towupper model true
    else if code = keyF14 ∨ code = keyNumericStar then closePicker towupper model false
    else model

/-! ### Keys -/

def isEmpty (model : Model) : Bool := model.field.length = 0 ∧ !model.input.compose.pending

def takesNewline (field : Field) : Bool :=
  field.multiline ∧ field.type = .any ∧ !field.readOnly

def lineMove (field : Field) (up : Bool) : KeyResult :=
  if !field.multiline then .ignored else if up then .lineUp else .lineDown

def insertNewline (field : Field) : KeyResult × Field :=
  if !takesNewline field then (.ignored, field)
  else (.consumed, (insertBytes field [byte '\n']).2)

/-- The phone keys that commit the pending character first. -/
def phoneCommand (model : Model) (code nowMs : ℕ) : KeyResult × Model :=
  let hadPending := model.input.compose.pending
  let model := commitPending towupper model
  let field := model.field
  if code = keyNumericPound then
    if field.type ≠ .phone then (.ignored, model)
    else (.consumed, { model with field := (insertBytes field [byte '#']).2 })
  else if code = keyNumericStar then
    (.consumed,
      { model with
        field := if field.type = .numeric then toggleMinus field else decimalStar field nowMs })
  else if code = keyLeft then
    (.consumed,
      { model with field := moveCursor field (previousBoundary field.text field.cursor) })
  else if code = keyRight then
    -- Right first only commits; the caret already follows it.
    if hadPending then (.consumed, model)
    else
      (.consumed,
        { model with field := moveCursor field (nextBoundary field.text field.length field.cursor) })
  else if code = keyUp ∨ code = keyDown then (lineMove field (code = keyUp), model)
  else if code = keyOk then
    let (result, field) := insertNewline field
    (result, { model with field := field })
  else (.ignored, model)

def phoneKey (model : Model) (code nowMs : ℕ) : KeyResult × Model :=
  if model.input.pickerOpen then (.consumed, pickerPhoneKey towupper model code)
  else if model.field.type = .any ∧ (code = keyNumericPound ∨ code = keyNumericStar) then
    let (_, input, field) :=
      press (emitCharacter towupper) model.input
        (if code = keyNumericPound then 35 else 42) nowMs model.field
    (.consumed, ⟨input, field⟩)
  else if keyNumeric0 ≤ code ∧ code ≤ keyNumeric9 then
    let digit := 48 + (code - keyNumeric0)
    if !model.input.numeric then (.consumed, (pressMultitap towupper model digit nowMs true).2)
    else (.consumed, typeDigit towupper model code digit nowMs)
  else if code = keyNumericStar ∧ model.field.type = .phone then
    -- The `*` cycle steps a pending character instead of committing.
    (.consumed,
      (pressMultitap towupper
        ⟨{ model.input with heldDigit := 0 }, { model.field with phoneZeroHeld := false }⟩ 48 nowMs
        false).2)
  else if code = keyF14 then
    let model : Model :=
      ⟨TextInput.cancelHeld model.input, { model.field with phoneZeroHeld := false }⟩
    if isEmpty model then (.ignored, model)
    else
      let (_, input, field) := TextInput.clearPress eraseCharacter model.input nowMs model.field
      (.consumed, ⟨input, field⟩)
  else phoneCommand towupper model code nowMs

def isPrintable (text : List UInt8) : Bool :=
  text ≠ [] ∧ text.all fun b => 0x20 ≤ b.toNat ∧ b.toNat ≠ 0x7f

/-- Keyboard text in a field of another type than ANY. -/
def typedText (field : Field) (text : List UInt8) : KeyResult × Field :=
  match text with
  | [character] =>
    if byte '0' ≤ character ∧ character ≤ byte '9' then
      (.consumed, (insertBytes (skipMinus field) [character]).2)
    else if isNumber field ∧ character = byte '-' then (.consumed, toggleMinus field)
    else if field.type = .decimal ∧ (character = byte '.' ∨ character = byte ',') then
      (.consumed, (typeSeparator field).2)
    else if field.type = .phone ∧ character ∈ ascii "+*#pPwW" then
      let lower :=
        if character = byte 'P' then byte 'p'
        else if character = byte 'W' then byte 'w'
        else character
      (.consumed, (insertBytes field [lower]).2)
    else (.ignored, field)
  | _ => (.ignored, field)

/-- Printable text of a key without a meaning of its own. -/
def keyboardText (field : Field) (text : Option (List UInt8)) : KeyResult × Field :=
  match text with
  | none => (.ignored, field)
  | some text =>
    if !isPrintable text then (.ignored, field)
    else if field.type ≠ .any then typedText field text
    else (.consumed, (insertBytes field text).2)

/-- The keyboard keys that commit the pending character first. -/
def keyboardCommand (model : Model) (key : Key) : KeyResult × Model :=
  let model := commitPending towupper model
  let field := model.field
  if key.code = keyDelete then (.consumed, { model with field := deleteForward field })
  else if key.code = keyLeft then
    (.consumed,
      { model with field := moveCursor field (previousBoundary field.text field.cursor) })
  else if key.code = keyRight then
    (.consumed,
      { model with field := moveCursor field (nextBoundary field.text field.length field.cursor) })
  else if key.code = keyHome ∨ key.code = keyEnd then
    (.consumed, { model with field := moveToLineEdge field (key.code = keyEnd) })
  else if key.code = keyUp ∨ key.code = keyDown then (lineMove field (key.code = keyUp), model)
  else if key.code = keyEnter ∨ key.code = keyKpEnter then
    let (result, field) := insertNewline field
    (result, { model with field := field })
  else
    let (result, field) := keyboardText field key.text
    (result, { model with field := field })

/-- The keyboard keys of a field whose picker is closed. -/
def keyboardEdit (model : Model) (key : Key) : KeyResult × Model :=
  let model : Model := { model with input := TextInput.cancelHeld model.input }
  if key.code = keyBackspace then
    let model : Model := { model with field := { model.field with phoneZeroHeld := false } }
    if isEmpty model then (.ignored, model) else (.consumed, deleteBackward model)
  else keyboardCommand towupper model key

def keyboardKey (model : Model) (key : Key) : KeyResult × Model :=
  if key.shortcut then (.ignored, model)
  else if model.input.pickerOpen then
    match pickerDirection key.code with
    | some direction => (.consumed, movePicker model direction)
    | none =>
      if key.code = keyEnter ∨ key.code = keyKpEnter ∨ key.code = keyEsc then
        (.consumed, closePicker towupper model (key.code ≠ keyEsc))
      else keyboardEdit towupper (closePicker towupper model false) key
  else keyboardEdit towupper model key

def setConsumed (field : Field) (key : Key) (value : Bool) : Field :=
  { field with
    consumed := fun keyboard code =>
      if keyboard = key.keyboard ∧ code = key.code then value else field.consumed keyboard code }

/-- A held `#` or `*` that is let go. -/
def releaseControl (model : Model) (code nowMs : ℕ) : Model :=
  if model.field.type = .any ∧
      ((code = keyNumericPound ∧ model.input.heldControl = 35) ∨
        (code = keyNumericStar ∧ model.input.heldControl = 42)) then
    let (_, input, field) :=
      release (emitCharacter towupper) model.input
        (if code = keyNumericPound then 35 else 42) nowMs model.field
    ⟨input, { field with dirty := true }⟩
  else model

def releaseDigit (model : Model) (code nowMs : ℕ) : Model :=
  if keyNumeric0 ≤ code ∧ code ≤ keyNumeric9 then
    let (_, input, field) :=
      release (emitCharacter towupper) model.input (48 + (code - keyNumeric0)) nowMs
        model.field
    ⟨input, field⟩
  else model

/-- A held 0 that is let go. -/
def releaseZero (model : Model) (code nowMs : ℕ) : Model :=
  if code = keyNumeric0 then
    { model with field := { holdPhoneZero model.field nowMs with phoneZeroHeld := false } }
  else model

def releaseClear (model : Model) (code : ℕ) : Model :=
  if code = keyF14 then { model with input := TextInput.clearRelease model.input } else model

/-- A pending character that was committed has to be drawn anew. -/
def notePending (model : Model) (hadPending : Bool) : Model :=
  if hadPending ≠ model.input.compose.pending then
    { model with field := { model.field with dirty := true } }
  else model

def releaseKey (model : Model) (key : Key) (nowMs : ℕ) : Model :=
  if key.keyboard then model
  else
    let hadPending := model.input.compose.pending
    let model := releaseControl towupper model key.code nowMs
    let model := releaseDigit towupper model key.code nowMs
    let model := releaseZero model key.code nowMs
    let model := releaseClear model key.code
    notePending model hadPending

/-! ### Operations -/

def init (multiline : Bool) (limit : ℕ) (directory : Option Language.Directory)
    (inputLanguage : Option (List UInt8)) : Model where
  input := TextInput.init directory inputLanguage true
  field :=
    { text := []
      length := 0
      cursor := 0
      characters := 0
      display := []
      capacity := initialCapacity
      limit := limit
      multiline := multiline
      focused := true
      type := .any
      separator := byte '.'
      separatorTyped := false
      separatorRevision := 0
      separatorMs := 0
      password := false
      masked := none
      phoneZeroHeld := false
      phoneZeroMs := 0
      readOnly := false
      consumed := fun _ _ => false
      dirty := false
      revision := 0 }

/-- A press, by its source. -/
def pressKey (model : Model) (key : Key) (nowMs : ℕ) : KeyResult × Model :=
  if key.keyboard then keyboardKey towupper model key
  else phoneKey towupper model key.code nowMs

def key (model : Model) (key : Key) (nowMs : ℕ) : KeyResult × Model :=
  if !model.field.focused ∨ key.code ≥ keyCnt then (.ignored, model)
  else if !key.pressed then
    let consumed := model.field.consumed key.keyboard key.code
    let model : Model := { model with field := setConsumed model.field key false }
    (if consumed then .consumed else .ignored,
      finish towupper (releaseKey towupper model key nowMs))
  else if model.field.readOnly then (.ignored, model)
  else
    let (result, model) := pressKey towupper model key nowMs
    let model : Model :=
      if result = .consumed then { model with field := setConsumed model.field key true } else model
    (result, finish towupper model)

/-- The deadlines due at a time, before the display is refreshed. -/
def runDeadlines (model : Model) (nowMs : ℕ) : Model :=
  let hadPending := model.input.compose.pending
  let indicator := indicatorAt model.input
  let (_, input, field) :=
    TextInput.tick (emitCharacter towupper) eraseCharacter model.input nowMs
      (holdPhoneZero model.field nowMs)
  if hadPending ≠ input.compose.pending ∨ indicator ≠ indicatorAt input then
    ⟨input, { field with dirty := true }⟩
  else ⟨input, field⟩

def tick (model : Model) (nowMs : ℕ) : Model :=
  finish towupper (runDeadlines towupper model nowMs)

def cancelHeld (model : Model) : Model :=
  finish towupper
    ⟨TextInput.cancelHeld model.input,
      { model.field with
        dirty := if model.input.pickerOpen then true else model.field.dirty
        phoneZeroHeld := false }⟩

def deadline (model : Model) : Option ℕ :=
  let scheduled := TextInput.deadline model.input
  let plus := Word.add 64 model.field.phoneZeroMs holdMs
  if model.field.phoneZeroHeld ∧ (scheduled = none ∨ ∃ time ∈ scheduled, plus < time) then some plus
  else scheduled

def setText (model : Model) (text : List UInt8) : Option Errno × Model :=
  let characters := countCharacters text
  if !fits model.field characters then (some .e2big, model)
  else if (!model.field.multiline ∧ byte '\n' ∈ text) ∨ !suits model.field.type text then
    (some .einval, model)
  else
    let model := cancelPending { model with field := reserve model.field text.length }
    let input := { model.input with clearing := false }
    let field := useSeparator { model.field with text := text }
    (none,
      finish towupper
        ⟨input,
          { field with length := text.length, cursor := text.length, characters := characters }⟩)

/-- The field after its type was set, with the pending input committed. -/
def selectType (model : Model) (type : FieldType) (separator : UInt8) : Model :=
  let input := TextInput.resetMode model.input (type ≠ .any)
  let input := { input with pickerOpen := false }
  let field :=
    useSeparator { model.field with type := type, separator := separator, separatorTyped := false }
  ⟨{ input with
      compose := Multitap.setLanguage input.compose
        (if type = .phone then some phoneStar else input.languages[0]?) },
    { field with dirty := true }⟩

/-- `set_type`; `none` is a number that is no type. -/
def setType (model : Model) (type : Option FieldType) (separator : UInt8) :
    Option Errno × Model :=
  match type with
  | none => (some .einval, model)
  | some type =>
    if type = .decimal ∧ separator ≠ byte '.' ∧ separator ≠ byte ',' then (some .einval, model)
    else
      let model := commitPending towupper model
      if !suits type model.field.text then (some .einval, finish towupper model)
      else (none, finish towupper (selectType model type separator))

def setPassword (model : Model) (password : Bool) : Model :=
  if model.field.password = password then model
  else
    finish towupper
      ⟨TextInput.setSentenceCase model.input (!password),
        { model.field with password := password, dirty := true }⟩

/-- Pending input committed, the picker closed and repeats stopped. -/
def stopInput (model : Model) : Model :=
  let model := commitPending towupper model
  { model with input := { model.input with pickerOpen := false, clearing := false } }

def setFocused (model : Model) (focused : Bool) : Model :=
  if model.field.focused = focused then model
  else
    let model : Model :=
      if !focused then
        let model := stopInput towupper model
        { model with field := { model.field with consumed := fun _ _ => false } }
      else model
    finish towupper { model with field := { model.field with focused := focused, dirty := true } }

def cancelPicker (model : Model) : Model :=
  if !model.input.pickerOpen then model else finish towupper (closePicker towupper model false)

def setPickerColumns (model : Model) (columns : ℕ) : Model :=
  { model with input := TextInput.setPickerColumns model.input columns }

def setReadOnly (model : Model) (readOnly : Bool) : Model :=
  if model.field.readOnly = readOnly then model
  else
    let model : Model :=
      if readOnly then
        let model := stopInput towupper model
        { model with field := { model.field with separatorTyped := false } }
      else model
    finish towupper { model with field := { model.field with readOnly := readOnly, dirty := true } }

def setCaret (model : Model) (index : ℕ) : Model :=
  let model := commitPending towupper model
  finish towupper
    { model with
      field :=
        moveCursor model.field (caretOffset model.field.text model.field.length index 0) }

end

/-! ### What is drawn -/

def view (model : Model) : List UInt8 :=
  if !model.field.password then model.field.display else model.field.masked.getD []

/-- The character index of the caret in the display text, after a pending one. -/
def caret (model : Model) : ℕ :=
  countCharacters (model.field.text.take model.field.cursor) +
    if model.input.compose.pending then 1 else 0

/-- The character index of the pending character in the display text. -/
def pending (model : Model) : Option ℕ :=
  if model.input.compose.pending then
    some (countCharacters (model.field.text.take model.field.cursor))
  else none

def indicator (model : Model) : List UInt8 := TextInput.indicator model.input

/-- The operations on a model that change it. -/
inductive Op
  | key (key : Key) (nowMs : ℕ)
  | tick (nowMs : ℕ)
  | cancelHeld
  | setText (text : List UInt8)
  | setType (type : Option FieldType) (separator : UInt8)
  | setPassword (password : Bool)
  | setFocused (focused : Bool)
  | cancelPicker
  | setPickerColumns (columns : ℕ)
  | setReadOnly (readOnly : Bool)
  | setCaret (index : ℕ)

/-- The model after an operation. -/
def apply (towupper : ℕ → ℕ) (model : Model) : Op → Model
  | .key event nowMs => (key towupper model event nowMs).2
  | .tick nowMs => tick towupper model nowMs
  | .cancelHeld => cancelHeld towupper model
  | .setText text => (setText towupper model text).2
  | .setType type separator => (setType towupper model type separator).2
  | .setPassword password => setPassword towupper model password
  | .setFocused focused => setFocused towupper model focused
  | .cancelPicker => cancelPicker towupper model
  | .setPickerColumns columns => setPickerColumns model columns
  | .setReadOnly readOnly => setReadOnly towupper model readOnly
  | .setCaret index => setCaret towupper model index

end TextModel
