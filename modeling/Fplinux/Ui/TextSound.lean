/-
The invariant of the text model (`fplinux-ui-text-model.c`) over its operations.

`Sound` joins the text of the field, the phone input and what ties them: the
policy of the field's type says what the input may compose, and a pending
character always has room.  Every operation keeps it, whatever was typed before.
The case tables of the C library are a parameter that keeps printable characters
printable.

Main results:
- `emits`, `erases`: the callbacks of the input keep the field in order;
- `sound_key`, `sound_tick`, ...: so does every operation (`sound_apply`).
-/
import Fplinux.Ui.TextContent

namespace TextModel

open Bytes (byte ascii)
open InputCodes
open Language (Printable)
open TextBoundary
open TextInput (Emits Erases applyCase cancel clearPress commit ok_init press press_keeps release)
open Utf8 (Decodes)

/-! ### What an edit leaves alone -/

/-- Nothing but the text, the caret, the counters and the typed separator. -/
def Edited (field after : Field) : Prop :=
  after = { field with
    text := after.text
    length := after.length
    cursor := after.cursor
    characters := after.characters
    capacity := after.capacity
    separatorTyped := after.separatorTyped
    separatorRevision := after.separatorRevision
    separatorMs := after.separatorMs
    dirty := after.dirty }

theorem Edited.refl (field : Field) : Edited field field := rfl

variable {after field : Field}

theorem Edited.trans {middle : Field} (h1 : Edited field middle) (h2 : Edited middle after) :
    Edited field after := by
  rw [Edited] at h1 h2 ⊢
  rw [h1] at h2
  exact h2

theorem Edited.type (h : Edited field after) : after.type = field.type := by
  rw [h]

theorem Edited.phoneZeroHeld (h : Edited field after) :
    after.phoneZeroHeld = field.phoneZeroHeld := by
  rw [h]

theorem edited_reserve (field : Field) (bytes : ℕ) : Edited field (reserve field bytes) := by
  rw [Edited, reserve]
  split
  · rfl
  · rfl

theorem edited_insertBytes (field : Field) (bytes : List UInt8) :
    Edited field (insertBytes field bytes).2 := by
  cases hfits : fits field (field.characters + countCharacters bytes) with
  | false =>
    rw [insertBytes_of_not_fits hfits]
    exact .refl field
  | true =>
    rw [insertBytes_eq hfits]
    rfl

theorem edited_deleteRange (field : Field) (start stop : ℕ) :
    Edited field (deleteRange field start stop) := rfl

theorem edited_skipMinus (field : Field) : Edited field (skipMinus field) := by
  rw [Edited, skipMinus]
  split
  · rfl
  · rfl

theorem Edited.setCursor (h : Edited field after) (cursor : ℕ) :
    Edited field { after with cursor := cursor } :=
  h.trans rfl

theorem edited_toggleMinus (field : Field) : Edited field (toggleMinus field) := by
  rw [toggleMinus]
  split
  · exact (edited_deleteRange field 0 1).setCursor _
  · have hstart : Edited field { field with cursor := 0 } := rfl
    exact (hstart.trans (edited_insertBytes _ _)).setCursor _

theorem edited_typeSeparator (field : Field) : Edited field (typeSeparator field).2 := by
  rw [typeSeparator]
  split
  · exact .refl field
  · exact (edited_skipMinus field).trans (edited_insertBytes _ _)

theorem edited_decimalStar (field : Field) (nowMs : ℕ) : Edited field (decimalStar field nowMs) := by
  have hstart : Edited field { field with separatorTyped := false } := rfl
  simp only [decimalStar]
  split
  · exact (hstart.trans (edited_deleteRange _ _ _)).trans (edited_toggleMinus _)
  · split
    · exact hstart.trans (edited_toggleMinus _)
    · have hinsert := edited_typeSeparator { field with separatorTyped := false }
      split
      · rename_i heq
        rw [heq] at hinsert
        exact hstart.trans hinsert
      · rename_i heq
        rw [heq] at hinsert
        exact (hstart.trans hinsert).trans rfl

theorem edited_holdPlus (field : Field) : Edited field (holdPlus field) := by
  rw [holdPlus]
  split
  · rfl
  · rfl

theorem edited_moveCursor (field : Field) (cursor : ℕ) : Edited field (moveCursor field cursor) := by
  rw [moveCursor]
  split
  · rfl
  · rfl

theorem edited_deleteForward (field : Field) : Edited field (deleteForward field) := by
  rw [deleteForward]
  split
  · rfl
  · rfl

theorem edited_typedText (field : Field) (text : List UInt8) :
    Edited field (typedText field text).2 := by
  unfold typedText
  split
  · split
    · exact (edited_skipMinus field).trans (edited_insertBytes _ _)
    · split
      · exact edited_toggleMinus field
      · split
        · exact edited_typeSeparator field
        · split
          · exact edited_insertBytes _ _
          · exact .refl field
  · exact .refl field

theorem edited_keyboardText (field : Field) (text : Option (List UInt8)) :
    Edited field (keyboardText field text).2 := by
  unfold keyboardText
  split
  · exact .refl field
  · split
    · exact .refl field
    · split
      · exact edited_typedText _ _
      · exact edited_insertBytes _ _

theorem edited_insertNewline (field : Field) : Edited field (insertNewline field).2 := by
  rw [insertNewline]
  split
  · exact .refl field
  · exact edited_insertBytes _ _

/-! ### The invariant -/

/-- What the input of a field may compose, and whether its mode keys work. -/
def policy : FieldType → TextInput.Policy
  | .any => ⟨Printable, True, fun _ _ h => h⟩
  | .numeric => ⟨fun _ => False, False, False.elim⟩
  | .decimal => ⟨fun _ => False, False, False.elim⟩
  | .phone => ⟨fun value => value ∈ [42, 43, 112, 119], False, False.elim⟩

variable {type : FieldType}

theorem policy_free (h : (policy type).free) : type = .any := by
  cases type with
  | any => rfl
  | numeric => exact h.elim
  | decimal => exact h.elim
  | phone => exact h.elim

/-- The field of a type. -/
structure FieldOk (type : FieldType) (field : Field) : Prop where
  content : ContentOk field
  type : field.type = type
  zero : field.phoneZeroHeld = true → field.type = .phone

theorem FieldOk.edited (h : FieldOk type field) (hedit : Edited field after)
    (hcontent : ContentOk after) : FieldOk type after := by
  refine ⟨hcontent, hedit.type.trans h.type, fun hheld => ?_⟩
  rw [hedit.phoneZeroHeld] at hheld
  rw [hedit.type]
  exact h.zero hheld

/-- The model between two operations, as far as the text and the input go. -/
structure Sound (model : Model) : Prop where
  content : ContentOk model.field
  zero : model.field.phoneZeroHeld = true → model.field.type = .phone
  input : TextInput.Ok (policy model.field.type) model.input
  /-- A pending character has room. -/
  room : model.input.compose.pending = true →
    fits model.field (model.field.characters + 1) = true

variable {model : Model}

theorem Sound.fieldOk (h : Sound model) : FieldOk model.field.type model.field :=
  ⟨h.content, rfl, h.zero⟩

theorem Sound.any_of_letters (h : Sound model) (hletters : model.input.numeric = false) :
    model.field.type = .any := by
  by_contra hne
  have hnumeric := h.input.numeric fun hfree => hne (policy_free hfree)
  simp [hnumeric] at hletters

theorem sound_of_not_pending {input : TextInput.State} (hfield : FieldOk type field)
    (hinput : TextInput.Ok (policy type) input) (hpending : input.compose.pending = false) :
    Sound ⟨input, field⟩ := by
  obtain ⟨hcontent, rfl, hzero⟩ := hfield
  exact ⟨hcontent, hzero, hinput, by simp [hpending]⟩

theorem Sound.edit {model : Model} (h : Sound model) (hpending : model.input.compose.pending = false)
    {after : Field} (hedit : Edited model.field after) (hcontent : ContentOk after) :
    Sound { model with field := after } :=
  sound_of_not_pending (h.fieldOk.edited hedit hcontent) h.input hpending

theorem Sound.frame (h : Sound model)
    (hcontent : TextModel.content after = TextModel.content model.field)
    (hzero : after.phoneZeroHeld = true → model.field.phoneZeroHeld = true) :
    Sound { model with field := after } := by
  have hok := h.content.frame hcontent
  simp only [TextModel.content, Prod.mk.injEq] at hcontent
  obtain ⟨-, -, -, hcharacters, -, hlimit, -, htype, -⟩ := hcontent
  refine ⟨hok, fun hheld => ?_, ?_, fun hpending => ?_⟩
  · rw [htype]
    exact h.zero (hzero hheld)
  · rw [htype]
    exact h.input
  · have hroom := h.room hpending
    rw [fits] at hroom ⊢
    rw [hcharacters, hlimit]
    exact hroom

theorem Sound.setDirty (h : Sound model) (dirty : Bool) :
    Sound { model with field := { model.field with dirty := dirty } } :=
  h.frame rfl id

theorem Sound.keeps (h : Sound model) {input : TextInput.State}
    (hkeeps : TextInput.Keeps (policy model.field.type) (FieldOk model.field.type) model.input
      model.field input field) :
    Sound ⟨input, field⟩ := by
  obtain ⟨hcontent, htype, hzero⟩ := hkeeps.text
  refine ⟨hcontent, hzero, ?_, fun hpending => ?_⟩
  · show TextInput.Ok (policy field.type) input
    rw [htype]
    exact hkeeps.ok
  · obtain ⟨hcompose, rfl, -, -⟩ := hkeeps.pending hpending
    exact h.room (hcompose ▸ hpending)

/-! ### The callbacks -/

/-- The C library's `towupper`: a letter has an upper case, and what has none is
left alone, so a printable character stays one. -/
def Uppercases (towupper : ℕ → ℕ) : Prop := ∀ value, Printable value → Printable (towupper value)

section

variable {towupper : ℕ → ℕ}

theorem printable_uppercase (hupper : Uppercases towupper) {value : ℕ} (h : Printable value) :
    Printable (Multitap.uppercase towupper value) := by
  rw [Multitap.uppercase]
  split
  · exact ⟨⟨by omega, by omega⟩, by omega, by omega⟩
  · split
    · exact ⟨⟨by omega, by omega⟩, by omega, by omega⟩
    · split
      · exact ⟨⟨by omega, by omega⟩, by omega, by omega⟩
      · split
        · exact h
        · exact hupper value h

theorem printable_applyCase (hupper : Uppercases towupper) (input : TextInput.State) {value : ℕ}
    (h : Printable value) (starts : Bool) :
    Printable (applyCase towupper input value starts) := by
  rw [applyCase]
  split
  · exact printable_uppercase hupper h
  · exact h

variable {field : Field}

theorem contentOk_emit (hupper : Uppercases towupper) (h : ContentOk field)
    {input : TextInput.State} (hnumeric : ¬ (policy field.type).free → input.numeric = true)
    {character : ℕ} (hchar : (policy field.type).character character) :
    ContentOk (emitCharacter towupper input field character).2 := by
  show ContentOk (insertBytes field (casedBytes towupper input field character)).2
  cases htype : field.type with
  | any =>
    rw [htype] at hchar
    have hprintable := printable_applyCase hupper input hchar (startsSentence field)
    have henc := TextInput.encodes_encodeUtf8 hprintable.scalar
    have hdec : Decodes (casedBytes towupper input field character)
        [applyCase towupper input character (startsSentence field)] := by
      have hone := Decodes.cons henc .nil
      rwa [List.append_nil] at hone
    refine contentOk_insertAny h htype hdec (hdec.ge_of_mem fun value hvalue => ?_)
    rw [List.mem_singleton.mp hvalue]
    exact hprintable.ge
  | numeric | decimal =>
    rw [htype] at hchar
    exact hchar.elim
  | phone =>
    rw [htype] at hchar hnumeric
    have hplain : applyCase towupper input character (startsSentence field) =
        character := by
      simp [applyCase, hnumeric id]
    have hall : ∀ value ∈ [42, 43, 112, 119],
        TextInput.encodeUtf8 value = [value.toUInt8] ∧ value.toUInt8 ∈ phoneCharacters := by
      decide
    obtain ⟨hbytes, hmem⟩ := hall character hchar
    rw [casedBytes, hplain, hbytes]
    exact contentOk_insertPhone h htype hmem

theorem answers_emitCharacter (input : TextInput.State) (field : Field) (character : ℕ) :
    (emitCharacter towupper input field character).1 ≠ .blocked := by
  simp only [emitCharacter]
  split
  · simp
  · simp

/-- **The emit callback** keeps the field in order. -/
theorem emits (hupper : Uppercases towupper) (type : FieldType) :
    Emits (policy type) (FieldOk type) (emitCharacter towupper) where
  keeps input field character hnumeric h hchar := by
    obtain ⟨hcontent, rfl, hzero⟩ := h
    have hemit := contentOk_emit hupper hcontent hnumeric hchar
    exact FieldOk.edited ⟨hcontent, rfl, hzero⟩ (edited_insertBytes _ _) hemit
  answers := answers_emitCharacter

variable {type : FieldType}

theorem fieldOk_setZero (h : FieldOk type field) (dirty : Bool) :
    FieldOk type { field with phoneZeroHeld := false, dirty := dirty } :=
  ⟨h.content.frame rfl, h.type, by simp⟩

theorem contentOk_deleteBackward (h : ContentOk field) :
    ContentOk (deleteRange field (previousBoundary field.text field.cursor) field.cursor) :=
  contentOk_deleteRange h h.isBoundary_previous h.boundary (previousBoundary_le _ _)

/-- **The erase callback** too, and nothing is pending after it. -/
theorem erases (type : FieldType) :
    Erases (policy type) (FieldOk type) eraseCharacter where
  keeps input field hinput hfield := by
    simp only [eraseCharacter, deleteBackward]
    split
    · exact ⟨hinput.cancel, fieldOk_setZero hfield true⟩
    · split
      · exact ⟨hinput, hfield.edited (edited_deleteRange _ _ _)
          (contentOk_deleteBackward hfield.content)⟩
      · exact ⟨hinput, hfield⟩
  answers input field := by
    simp only [eraseCharacter]
    split
    · simp
    · simp
  settles input field := by
    simp only [eraseCharacter, deleteBackward]
    split
    · rfl
    · rename_i hpending
      split
      · simpa using hpending
      · simpa using hpending

/-! ### Committing and cancelling -/

variable {model : Model}

theorem Sound.setInput (h : Sound model) {input : TextInput.State}
    (hinput : TextInput.Ok (policy model.field.type) input)
    (hpending : input.compose.pending = true → model.input.compose.pending = true) :
    Sound { model with input := input } :=
  ⟨h.content, h.zero, hinput, fun hp => h.room (hpending hp)⟩

theorem Sound.dropHolds (h : Sound model) :
    Sound ⟨TextInput.cancelHeld model.input, { model.field with phoneZeroHeld := false }⟩ :=
  (h.setInput h.input.cancelHeld id).frame rfl (by simp)

/-- Nothing is pending or held, and the picker is closed. -/
structure Settled (model after : Model) : Prop where
  sound : Sound after
  pending : after.input.compose.pending = false
  picker : after.input.pickerOpen = false
  type : after.field.type = model.field.type
  zero : after.field.phoneZeroHeld = false

theorem emits_edited (towupper : ℕ → ℕ) (R : TextInput.Policy) (field : Field) :
    Emits R (Edited field) (emitCharacter towupper) where
  keeps _ _ _ _ h _ := h.trans (edited_insertBytes _ _)
  answers := answers_emitCharacter

theorem pickerOpen_commit
    (hemit : Emits (policy type) (FieldOk type) (emitCharacter towupper))
    (input : TextInput.State) (field : Field) :
    (commit (emitCharacter towupper) input field).2.1.pickerOpen = input.pickerOpen := by
  rw [TextInput.commit_eq hemit]

/-- **The pending character is committed.** -/
theorem settled_commitPending (hupper : Uppercases towupper) (h : Sound model) :
    Settled model (commitPending towupper model) := by
  have hdrop := h.dropHolds
  have hemit := emits hupper model.field.type
  have hkeeps := TextInput.commit_keeps hemit hdrop.input hdrop.fieldOk
  have hclosed := TextInput.not_pending_commit hemit (TextInput.cancelHeld model.input)
    { model.field with phoneZeroHeld := false }
  have hpicker := pickerOpen_commit hemit (TextInput.cancelHeld model.input)
    { model.field with phoneZeroHeld := false }
  have hedited := TextInput.commit_text (emits_edited towupper (policy model.field.type)
    { model.field with phoneZeroHeld := false }) hdrop.input.numeric hdrop.input.compose
    (.refl _)
  simp only [commitPending]
  split
  · rename_i hpending
    exact ⟨hdrop, by simpa using hpending, rfl, rfl, rfl⟩
  · exact ⟨(hdrop.keeps hkeeps).setDirty true, hclosed, hpicker, hkeeps.text.type,
      hedited.phoneZeroHeld⟩

theorem sound_cancelPending (h : Sound model) : Sound (cancelPending model) :=
  (h.setInput h.input.cancel (by simp [cancel, Multitap.cancel])).frame rfl (by simp)

theorem sound_reserve (h : Sound model) (bytes : ℕ) :
    Sound { model with field := reserve model.field bytes } := by
  have hok := h.content.reserve bytes
  rw [reserve_eq] at hok ⊢
  exact ⟨hok, h.zero, h.input, h.room⟩

theorem sound_finish (h : Sound model) : Sound (finish towupper model) := by
  have hrefresh : Sound (refreshDisplay towupper model) := by
    simp only [refreshDisplay]
    split
    · have hreserve := sound_reserve h
        (model.field.length + (pendingBytes towupper model).length)
      split
      · exact hreserve.frame rfl id
      · exact hreserve.frame rfl id
    · split
      · exact h.frame rfl id
      · exact h.frame rfl id
  rw [finish]
  split
  · exact h
  · exact hrefresh.frame rfl id

/-! ### Keys -/

theorem sound_keepFitting (hfield : FieldOk type model.field)
    (hinput : TextInput.Ok (policy type) model.input) : Sound (keepFitting towupper model).2 := by
  obtain ⟨hcontent, rfl, hzero⟩ := hfield
  rw [keepFitting]
  split
  · exact sound_of_not_pending (fieldOk_setZero ⟨hcontent, rfl, hzero⟩ true) hinput.cancel rfl
  · rename_i hfits
    have hsound : Sound model := ⟨hcontent, hzero, hinput, fun _ => by simpa using hfits⟩
    exact sound_reserve hsound _

theorem FieldOk.setDirty (h : FieldOk type field) (dirty : Bool) :
    FieldOk type { field with dirty := dirty } :=
  ⟨h.content.frame rfl, h.type, h.zero⟩

/-- **A digit** of a field of ANY in a letter mode. -/
theorem sound_pressDigit (hupper : Uppercases towupper) (h : Sound model)
    (htype : model.field.type = .any) (hclosed : model.input.pickerOpen = false) (key nowMs : ℕ) :
    Sound (pressMultitap towupper model key nowMs true).2 := by
  have hfree : (policy model.field.type).free := by
    rw [htype]
    trivial
  obtain ⟨hinput, hfield⟩ := press_keeps (emits hupper model.field.type) h.input hfree
    hclosed h.fieldOk key nowMs
  exact sound_keepFitting (hfield.setDirty true) hinput

theorem phoneStar_ok : phoneStar.Ok (policy .phone).character := by
  intro map hmap
  have hall : ∀ b ∈ ascii "*+pw", b.toNat < 0x80 := by decide +kernel
  have hvalues : ∀ value ∈ (ascii "*+pw").map UInt8.toNat,
      value ≠ 0 ∧ value ∈ [42, 43, 112, 119] := by
    decide
  rw [List.mem_singleton.mp hmap]
  exact ⟨_, Utf8.decodes_ascii hall, hvalues⟩

/-- **The `*`** of a PHONE field. -/
theorem sound_pressStar (hupper : Uppercases towupper) (h : Sound model)
    (htype : model.field.type = .phone) (nowMs : ℕ) :
    Sound (pressMultitap towupper model 48 nowMs false).2 := by
  have hsome : ∃ value, (policy model.field.type).character value := by
    rw [htype]
    exact ⟨42, List.mem_cons_self⟩
  have hclosed : model.input.pickerOpen = false := by
    cases hopen : model.input.pickerOpen with
    | false => rfl
    | true =>
      have hfree := policy_free (h.input.picker hopen).2
      rw [htype] at hfree
      simp at hfree
  obtain ⟨hinput, hfield⟩ := TextInput.compose_keeps (emits hupper model.field.type) h.input hsome
    hclosed h.fieldOk 48 nowMs
  exact sound_keepFitting (hfield.setDirty true) hinput

theorem isDigit_toUInt8 {digit : ℕ} (h : 48 ≤ digit ∧ digit ≤ 57) : IsDigit digit.toUInt8 := by
  have hnat : digit.toUInt8.toNat = digit := TextInput.toNat_toUInt8 (by omega)
  exact ⟨by show 48 ≤ digit.toUInt8.toNat; omega, by show digit.toUInt8.toNat ≤ 57; omega⟩

/-- **A digit typed at once.** -/
theorem sound_typeDigit (hupper : Uppercases towupper) (h : Sound model) {code digit nowMs : ℕ}
    (hdigit : 48 ≤ digit ∧ digit ≤ 57) :
    Sound (typeDigit towupper model code digit nowMs) := by
  obtain ⟨hsound, hpending, -, -, -⟩ := settled_commitPending hupper h
  have hedit := (edited_skipMinus (commitPending towupper model).field).trans
    (edited_insertBytes _ [digit.toUInt8])
  have hcontent := contentOk_insertDigit (contentOk_skipMinus hsound.content)
    (afterMinus_skipMinus hsound.content) (isDigit_toUInt8 hdigit)
  simp only [typeDigit]
  split
  · rename_i heq
    rw [heq] at hedit hcontent
    exact hsound.edit hpending hedit hcontent
  · rename_i heq
    rw [heq] at hedit hcontent
    have hsound' := hsound.edit hpending hedit hcontent
    split
    · rename_i hphone
      exact ⟨hcontent.frame rfl, fun _ => hphone.1, hsound'.input, hsound'.room⟩
    · exact hsound'

theorem sound_deleteBackward (h : Sound model) : Sound (deleteBackward model) := by
  rw [deleteBackward]
  split
  · exact sound_cancelPending h
  · rename_i hpending
    split
    · exact h.edit (by simpa using hpending) (edited_deleteRange _ _ _)
        (contentOk_deleteBackward h.content)
    · exact h

/-! ### The picker -/

theorem sound_closePicker (hupper : Uppercases towupper) (h : Sound model)
    (hopen : model.input.pickerOpen = true) (insert : Bool) :
    Sound (closePicker towupper model insert) := by
  obtain ⟨hpending, hfree⟩ := h.input.picker hopen
  rw [closePicker]
  split
  · obtain ⟨hinput, hfield⟩ := TextInput.selectSymbol_keeps (emits hupper model.field.type) h.input
      hfree h.fieldOk
    refine sound_of_not_pending (hfield.setDirty true) hinput ?_
    simp only
    split
    · exact hpending
    · exact hpending
  · exact (h.setInput h.input.closePicker id).setDirty true

theorem sound_movePicker (h : Sound model) (direction : TextInput.Direction) :
    Sound (movePicker model direction) :=
  (h.setInput (h.input.movePicker direction) id).setDirty true

theorem sound_pickerPhoneKey (hupper : Uppercases towupper) (h : Sound model)
    (hopen : model.input.pickerOpen = true) (code : ℕ) :
    Sound (pickerPhoneKey towupper model code) := by
  rw [pickerPhoneKey]
  split
  · exact sound_movePicker h _
  · split
    · exact sound_closePicker hupper h hopen true
    · split
      · exact sound_closePicker hupper h hopen false
      · exact h

/-! ### Phone keys -/

theorem sound_phoneCommand (hupper : Uppercases towupper) (h : Sound model) {code nowMs : ℕ}
    (htype : code = keyNumericStar → model.field.type = .numeric ∨ model.field.type = .decimal) :
    Sound (phoneCommand towupper model code nowMs).2 := by
  obtain ⟨hsound, hpending, -, hsame, -⟩ := settled_commitPending hupper h
  have hcontent := hsound.content
  rw [← hsame] at htype
  simp only [phoneCommand]
  split
  · split
    · exact hsound
    · rename_i hphone
      exact hsound.edit hpending (edited_insertBytes _ _)
        (contentOk_insertPhone hcontent (by simpa using hphone) (by decide))
  · split
    · rename_i hstar
      refine hsound.edit hpending ?_ ?_
      · split
        · exact edited_toggleMinus _
        · exact edited_decimalStar _ _
      · split
        · rename_i hnumeric
          exact contentOk_toggleMinus hcontent ((isNumber_iff _).mpr (.inl hnumeric))
        · rename_i hnumeric
          exact contentOk_decimalStar hcontent ((htype hstar).resolve_left hnumeric) nowMs
    · split
      · exact hsound.edit hpending (edited_moveCursor _ _)
          (contentOk_moveCursor hcontent hcontent.isBoundary_previous)
      · split
        · split
          · exact hsound
          · exact hsound.edit hpending (edited_moveCursor _ _)
              (contentOk_moveCursor hcontent (hcontent.isBoundary_next hcontent.cursor_le))
        · split
          · exact hsound
          · split
            · exact hsound.edit hpending (edited_insertNewline _)
                (contentOk_insertNewline hcontent)
            · exact hsound

theorem sound_pressControl (hupper : Uppercases towupper) (h : Sound model)
    (htype : model.field.type = .any) (hclosed : model.input.pickerOpen = false) {key : ℕ}
    (hkey : key = 35 ∨ key = 42) (nowMs : ℕ) :
    Sound ⟨(press (emitCharacter towupper) model.input key nowMs model.field).2.1,
      (press (emitCharacter towupper) model.input key nowMs model.field).2.2⟩ := by
  have hfree : (policy model.field.type).free := by
    rw [htype]
    trivial
  have hinput := (press_keeps (emits hupper model.field.type) h.input hfree hclosed
    h.fieldOk key nowMs).1
  rw [TextInput.press_control hkey] at hinput ⊢
  exact h.setInput hinput id

theorem sound_clearPress (h : Sound model) (nowMs : ℕ) :
    Sound ⟨(clearPress eraseCharacter model.input nowMs model.field).2.1,
      (clearPress eraseCharacter model.input nowMs model.field).2.2⟩ :=
  h.keeps (TextInput.clearPress_keeps (erases model.field.type) h.input h.fieldOk nowMs)

/-- **A phone key.** -/
theorem sound_phoneKey (hupper : Uppercases towupper) (h : Sound model) (code nowMs : ℕ) :
    Sound (phoneKey towupper model code nowMs).2 := by
  rw [phoneKey]
  split
  · rename_i hopen
    exact sound_pickerPhoneKey hupper h hopen code
  rename_i hopen
  have hclosed : model.input.pickerOpen = false := by simpa using hopen
  split
  · rename_i hcontrol
    refine sound_pressControl hupper h hcontrol.1 hclosed ?_ nowMs
    split
    · exact .inl rfl
    · exact .inr rfl
  rename_i hcontrol
  split
  · rename_i hdigit
    simp only
    split
    · rename_i hletters
      have htype := h.any_of_letters (by simpa using hletters)
      dsimp only
      exact sound_pressDigit hupper h htype hclosed _ nowMs
    · rw [keyNumeric0, keyNumeric9] at hdigit
      refine sound_typeDigit hupper h ?_
      rw [keyNumeric0]
      omega
  split
  · rename_i hstar
    have hsound : Sound ⟨{ model.input with heldDigit := 0 },
        { model.field with phoneZeroHeld := false }⟩ :=
      (h.setInput (h.input.setHeld 0 _ _ _ _) id).frame rfl (by simp)
    dsimp only
    exact sound_pressStar hupper hsound hstar.2 nowMs
  rename_i hstar
  split
  · simp only
    split
    · exact h.dropHolds
    · exact sound_clearPress h.dropHolds nowMs
  · refine sound_phoneCommand hupper h fun hcode => ?_
    cases htype : model.field.type with
    | any => exact absurd ⟨htype, .inr hcode⟩ hcontrol
    | numeric => exact .inl rfl
    | decimal => exact .inr rfl
    | phone => exact absurd ⟨hcode, htype⟩ hstar

/-! ### Keyboard keys -/

/-- The text of a key is well-formed UTF-8, as a C string. -/
def IsCString (text : List UInt8) : Prop := (∃ values, Decodes text values) ∧ (0 : UInt8) ∉ text

variable {event : Key}

theorem sound_keyboardCommand (hupper : Uppercases towupper) (h : Sound model)
    (htext : ∀ text ∈ event.text, IsCString text) :
    Sound (keyboardCommand towupper model event).2 := by
  obtain ⟨hsound, hpending, -, -, -⟩ := settled_commitPending hupper h
  have hcontent := hsound.content
  simp only [keyboardCommand]
  split
  · exact hsound.edit hpending (edited_deleteForward _) (contentOk_deleteForward hcontent)
  split
  · exact hsound.edit hpending (edited_moveCursor _ _)
      (contentOk_moveCursor hcontent hcontent.isBoundary_previous)
  split
  · exact hsound.edit hpending (edited_moveCursor _ _)
      (contentOk_moveCursor hcontent (hcontent.isBoundary_next hcontent.cursor_le))
  split
  · exact hsound.edit hpending (edited_moveCursor _ _)
      (contentOk_moveCursor hcontent (isBoundary_lineEdge hcontent _))
  split
  · exact hsound
  split
  · exact hsound.edit hpending (edited_insertNewline _) (contentOk_insertNewline hcontent)
  · exact hsound.edit hpending (edited_keyboardText _ _)
      (contentOk_keyboardText hcontent fun text hmem => (htext text hmem).1)

theorem sound_keyboardEdit (hupper : Uppercases towupper) (h : Sound model)
    (htext : ∀ text ∈ event.text, IsCString text) :
    Sound (keyboardEdit towupper model event).2 := by
  have hdrop : Sound { model with input := TextInput.cancelHeld model.input } :=
    h.setInput h.input.cancelHeld id
  simp only [keyboardEdit]
  split
  · split
    · exact h.dropHolds
    · exact sound_deleteBackward h.dropHolds
  · exact sound_keyboardCommand hupper hdrop htext

/-- **A keyboard key.** -/
theorem sound_keyboardKey (hupper : Uppercases towupper) (h : Sound model)
    (htext : ∀ text ∈ event.text, IsCString text) :
    Sound (keyboardKey towupper model event).2 := by
  rw [keyboardKey]
  split
  · exact h
  split
  · rename_i hopen
    split
    · exact sound_movePicker h _
    · split
      · exact sound_closePicker hupper h hopen _
      · exact sound_keyboardEdit hupper (sound_closePicker hupper h hopen false) htext
  · exact sound_keyboardEdit hupper h htext

/-! ### Releases and deadlines -/

theorem sound_release (hupper : Uppercases towupper) (h : Sound model) (key nowMs : ℕ) :
    Sound ⟨(release (emitCharacter towupper) model.input key nowMs model.field).2.1,
      (release (emitCharacter towupper) model.input key nowMs model.field).2.2⟩ :=
  h.keeps (TextInput.release_keeps (emits hupper model.field.type) h.input h.fieldOk key nowMs)

theorem sound_releaseControl (hupper : Uppercases towupper) (h : Sound model) (code nowMs : ℕ) :
    Sound (releaseControl towupper model code nowMs) := by
  rw [releaseControl]
  split
  · exact (sound_release hupper h _ nowMs).setDirty true
  · exact h

theorem sound_releaseDigit (hupper : Uppercases towupper) (h : Sound model) (code nowMs : ℕ) :
    Sound (releaseDigit towupper model code nowMs) := by
  rw [releaseDigit]
  split
  · exact sound_release hupper h _ nowMs
  · exact h

theorem holdPhoneZero_frame (field : Field) (nowMs : ℕ) :
    (holdPhoneZero field nowMs).type = field.type ∧
      (holdPhoneZero field nowMs).characters = field.characters ∧
      (holdPhoneZero field nowMs).limit = field.limit ∧
      ((holdPhoneZero field nowMs).phoneZeroHeld = true → field.phoneZeroHeld = true) := by
  rw [holdPhoneZero]
  split
  · exact ⟨rfl, rfl, rfl, id⟩
  · rw [holdPlus]
    split
    · exact ⟨rfl, rfl, rfl, by simp⟩
    · exact ⟨rfl, rfl, rfl, by simp⟩

theorem sound_holdPhoneZero (h : Sound model) (nowMs : ℕ) :
    Sound { model with field := holdPhoneZero model.field nowMs } := by
  obtain ⟨htype, hcharacters, hlimit, hzero⟩ := holdPhoneZero_frame model.field nowMs
  refine ⟨contentOk_holdPhoneZero h.content h.zero nowMs, fun hheld => ?_, ?_, fun hpending => ?_⟩
  · rw [htype]
    exact h.zero (hzero hheld)
  · rw [htype]
    exact h.input
  · have hroom := h.room hpending
    rw [fits] at hroom ⊢
    rw [hcharacters, hlimit]
    exact hroom

theorem sound_releaseZero (h : Sound model) (code nowMs : ℕ) :
    Sound (releaseZero model code nowMs) := by
  rw [releaseZero]
  split
  · exact (sound_holdPhoneZero h nowMs).frame rfl (by simp)
  · exact h

theorem sound_releaseClear (h : Sound model) (code : ℕ) : Sound (releaseClear model code) := by
  rw [releaseClear]
  split
  · exact h.setInput (h.input.setHeld _ _ _ _ false) id
  · exact h

theorem sound_notePending (h : Sound model) (hadPending : Bool) :
    Sound (notePending model hadPending) := by
  rw [notePending]
  split
  · exact h.setDirty true
  · exact h

theorem sound_releaseKey (hupper : Uppercases towupper) (h : Sound model) (event : Key)
    (nowMs : ℕ) :
    Sound (releaseKey towupper model event nowMs) := by
  rw [releaseKey]
  split
  · exact h
  · have hcontrol := sound_releaseControl hupper h event.code nowMs
    have hdigit := sound_releaseDigit hupper hcontrol event.code nowMs
    have hzero := sound_releaseZero hdigit event.code nowMs
    exact sound_notePending (sound_releaseClear hzero event.code) _

/-- **The deadlines** due at a time. -/
theorem sound_runDeadlines (hupper : Uppercases towupper) (h : Sound model) (nowMs : ℕ) :
    Sound (runDeadlines towupper model nowMs) := by
  have hstart := sound_holdPhoneZero h nowMs
  have htick := hstart.keeps (TextInput.tick_keeps (emits hupper _) (erases _) hstart.input
    hstart.fieldOk nowMs)
  rw [runDeadlines]
  generalize TextInput.tick (emitCharacter towupper) eraseCharacter model.input nowMs
    (holdPhoneZero model.field nowMs) = ticked at htick ⊢
  simp only
  split
  · exact htick.setDirty true
  · exact htick

/-! ### Operations -/

theorem sound_init (multiline : Bool) (limit : ℕ) (directory : Option Language.Directory)
    (inputLanguage : Option (List UInt8)) :
    Sound (init multiline limit directory inputLanguage) := by
  have hinput : TextInput.Ok (policy .any) (TextInput.init directory inputLanguage true) :=
    ok_init trivial directory inputLanguage true
  refine sound_of_not_pending ⟨?_, rfl, by simp⟩ hinput rfl
  have hcapacity : 0 < initialCapacity := by decide
  exact ⟨rfl, hcapacity, ⟨[], .nil, rfl⟩, by simp, isBoundary_zero _, by simp [fits], by simp,
    trivial, by simp⟩

theorem sound_pressKey (hupper : Uppercases towupper) (h : Sound model)
    (htext : ∀ text ∈ event.text, IsCString text) (nowMs : ℕ) :
    Sound (pressKey towupper model event nowMs).2 := by
  rw [pressKey]
  split
  · exact sound_keyboardKey hupper h htext
  · exact sound_phoneKey hupper h event.code nowMs

/-- **A key event.** -/
theorem sound_key (hupper : Uppercases towupper) (h : Sound model)
    (htext : ∀ text ∈ event.text, IsCString text) (nowMs : ℕ) :
    Sound (key towupper model event nowMs).2 := by
  have hconsumed : ∀ {other : Model} (value : Bool), Sound other →
      Sound { other with field := setConsumed other.field event value } :=
    fun value hother => hother.frame rfl id
  rw [key]
  split
  · exact h
  split
  · exact sound_finish (sound_releaseKey hupper (hconsumed false h) event nowMs)
  split
  · exact h
  · have hpress := sound_pressKey hupper h htext nowMs
    refine sound_finish ?_
    split
    · exact hconsumed true hpress
    · exact hpress

theorem sound_tick (hupper : Uppercases towupper) (h : Sound model) (nowMs : ℕ) :
    Sound (tick towupper model nowMs) :=
  sound_finish (sound_runDeadlines hupper h nowMs)

theorem sound_cancelHeld (h : Sound model) : Sound (cancelHeld towupper model) :=
  sound_finish ((h.setInput h.input.cancelHeld id).frame rfl (by simp))

theorem useSeparator_eq (field : Field) :
    useSeparator field = { field with text := ownText field.type field.separator field.text } := by
  rw [useSeparator, ownText]
  split
  · rfl
  · rfl

theorem sound_setText (h : Sound model) {text : List UInt8} (htext : IsCString text) :
    Sound (setText towupper model text).2 := by
  obtain ⟨⟨values, hdec⟩, hnul⟩ := htext
  simp only [setText]
  split
  · exact h
  rename_i hfits
  split
  · exact h
  rename_i hchecks
  have hroom : fits model.field (countCharacters text) = true := by simpa using hfits
  have hline : model.field.multiline = false → byte '\n' ∉ text := by
    intro hsingle hmem
    exact hchecks (.inl ⟨by simp [hsingle], hmem⟩)
  have hsuits : suits model.field.type text = true := by
    cases hcheck : suits model.field.type text with
    | true => rfl
    | false => exact absurd (.inr (by simp [hcheck])) hchecks
  have hcancel := sound_cancelPending (sound_reserve h text.length)
  refine sound_finish ?_
  rw [useSeparator_eq]
  rw [reserve_eq] at hcancel ⊢
  have hcontent := @contentOk_newText (cancelPending { model with
      field := { model.field with capacity := (reserve model.field text.length).capacity } }).field
    text values h.content.separator (reserve_lt _ _) hdec hnul hroom hline hsuits
  exact sound_of_not_pending ⟨hcontent, rfl, by simp [cancelPending]⟩
    (hcancel.input.setHeld _ _ _ _ false) rfl

theorem sound_selectType (h : Sound model) {separator : UInt8}
    (hsep : type = .decimal → IsSeparator separator) (hsuits : suits type model.field.text = true)
    (hzero : model.field.phoneZeroHeld = false) : Sound (selectType model type separator) := by
  have hcontent := contentOk_ownText h.content hsep hsuits
  have hinput : TextInput.Ok (policy type) (selectType model type separator).input := by
    refine h.input.select ?_ ?_
    · intro hfixed
      cases type with
      | any => exact absurd trivial hfixed
      | numeric => rfl
      | decimal => rfl
      | phone => rfl
    · rintro ⟨value, hvalue⟩ chosen hchosen
      cases type with
      | any => exact h.input.languages chosen (List.mem_of_getElem? hchosen)
      | numeric => exact hvalue.elim
      | decimal => exact hvalue.elim
      | phone =>
        rw [Option.mem_def, if_pos rfl, Option.some.injEq] at hchosen
        rw [← hchosen]
        exact phoneStar_ok
  refine sound_of_not_pending ⟨?_, ?_, ?_⟩ hinput rfl
  · rw [useSeparator_eq]
    exact hcontent.frame rfl
  · rw [useSeparator_eq]
  · rw [useSeparator_eq]
    intro hheld
    exact absurd (hzero.symm.trans hheld) (by simp)

theorem sound_setType (hupper : Uppercases towupper) (h : Sound model) (type : Option FieldType)
    (separator : UInt8) :
    Sound (setType towupper model type separator).2 := by
  cases type with
  | none => exact h
  | some type =>
    obtain ⟨hsound, -, -, -, hzero⟩ := settled_commitPending hupper h
    simp only [setType]
    split
    · exact h
    rename_i hsep
    split
    · exact sound_finish hsound
    · rename_i hsuits
      refine sound_finish (sound_selectType hsound (fun hdecimal => ?_) (by simpa using hsuits)
        hzero)
      by_contra hother
      rw [IsSeparator, not_or] at hother
      exact hsep ⟨hdecimal, hother⟩

theorem sound_setPassword (h : Sound model) (password : Bool) :
    Sound (setPassword towupper model password) := by
  rw [setPassword]
  split
  · exact h
  · exact sound_finish ((h.setInput (h.input.setSentenceCase (!password)) id).frame rfl id)

theorem sound_stopInput (hupper : Uppercases towupper) (h : Sound model) :
    Sound (stopInput towupper model) := by
  have hsound := (settled_commitPending hupper h).sound
  exact hsound.setInput (hsound.input.closePicker.setHeld _ _ _ _ false) id

theorem sound_setFocused (hupper : Uppercases towupper) (h : Sound model) (focused : Bool) :
    Sound (setFocused towupper model focused) := by
  rw [setFocused]
  split
  · exact h
  · refine sound_finish ?_
    simp only
    split
    · exact (sound_stopInput hupper h).frame rfl id
    · exact h.frame rfl id

theorem sound_setReadOnly (hupper : Uppercases towupper) (h : Sound model) (readOnly : Bool) :
    Sound (setReadOnly towupper model readOnly) := by
  rw [setReadOnly]
  split
  · exact h
  · refine sound_finish ?_
    simp only
    split
    · exact (sound_stopInput hupper h).frame rfl id
    · exact h.frame rfl id

theorem sound_cancelPicker (hupper : Uppercases towupper) (h : Sound model) :
    Sound (cancelPicker towupper model) := by
  rw [cancelPicker]
  split
  · exact h
  · rename_i hopen
    exact sound_finish (sound_closePicker hupper h (by simpa using hopen) false)

theorem sound_setCaret (hupper : Uppercases towupper) (h : Sound model) (index : ℕ) :
    Sound (setCaret towupper model index) := by
  obtain ⟨hsound, hpending, -, -, -⟩ := settled_commitPending hupper h
  refine sound_finish (hsound.edit hpending (edited_moveCursor _ _) ?_)
  exact contentOk_moveCursor hsound.content
    (isBoundary_caretOffset hsound.content index (isBoundary_zero _))

/-- The texts of keys and of `setText` are well-formed C strings. -/
def Op.Valid : Op → Prop
  | .key event _ => ∀ text ∈ event.text, IsCString text
  | .setText text => IsCString text
  | _ => True

/-- **Every operation** keeps the model in order. -/
theorem sound_apply (hupper : Uppercases towupper) (h : Sound model) {op : Op} (hop : op.Valid) :
    Sound (apply towupper model op) := by
  cases op with
  | key event nowMs => exact sound_key hupper h hop nowMs
  | tick nowMs => exact sound_tick hupper h nowMs
  | cancelHeld => exact sound_cancelHeld h
  | setText text => exact sound_setText h hop
  | setType type separator => exact sound_setType hupper h type separator
  | setPassword password => exact sound_setPassword h password
  | setFocused focused => exact sound_setFocused hupper h focused
  | cancelPicker => exact sound_cancelPicker hupper h
  | setPickerColumns columns => exact h.setInput (h.input.setPickerColumns columns) id
  | setReadOnly readOnly => exact sound_setReadOnly hupper h readOnly
  | setCaret index => exact sound_setCaret hupper h index

end

end TextModel
