/-
What the text model draws, and which changes mark it dirty.

`look` is everything that is drawn of a model or goes into its display.  A step
is `Quiet` when it leaves the look alone unless it marks the model dirty.  The
functions of `fplinux-ui-text-model.c` are quiet, with three exceptions: typing
before the minus of a full number moves the caret all the same (`MinusFull`), and
committing nothing pending closes an open picker.

Main results:
- `quiet_pressKey`: a press is quiet unless it types before the minus of a full
  number;
- `quiet_releaseKey`, `quiet_runDeadlines`: releases and deadlines are quiet.
-/
import Fplinux.Ui.TextSound

namespace TextModel

open Bytes (byte)
open InputCodes
open TextBoundary
open TextInput (Emits Erases Steady applyCase clearPress commit indicatorAt press release
  release_keeps)

/-! ### The field -/

/-- What of a field is drawn. -/
def fieldLook (field : Field) :
    List UInt8 × ℕ × ℕ × List UInt8 × Option (List UInt8) × Bool :=
  (field.text, field.cursor, field.characters, field.display, field.masked, field.password)

/-- A step of a field that changes its look marks it dirty. -/
structure FieldQuiet (field after : Field) : Prop where
  revision : after.revision = field.revision
  look : after.dirty = true ∨ (after.dirty = field.dirty ∧ fieldLook after = fieldLook field)

namespace FieldQuiet

theorem refl (field : Field) : FieldQuiet field field := ⟨rfl, .inr ⟨rfl, rfl⟩⟩

theorem trans {field middle after : Field} (h1 : FieldQuiet field middle)
    (h2 : FieldQuiet middle after) : FieldQuiet field after := by
  refine ⟨h2.revision.trans h1.revision, ?_⟩
  rcases h2.look with hdirty | ⟨hsame, hlook⟩
  · exact .inl hdirty
  · rcases h1.look with hdirty | ⟨hsame', hlook'⟩
    · exact .inl (hsame.trans hdirty)
    · exact .inr ⟨hsame.trans hsame', hlook.trans hlook'⟩

end FieldQuiet

theorem quiet_insertBytes (field : Field) (bytes : List UInt8) :
    FieldQuiet field (insertBytes field bytes).2 := by
  cases hfits : fits field (field.characters + countCharacters bytes) with
  | false =>
    rw [insertBytes_of_not_fits hfits]
    exact .refl field
  | true =>
    rw [insertBytes_eq hfits]
    exact ⟨rfl, .inl rfl⟩

theorem quiet_deleteRange (field : Field) (start stop : ℕ) :
    FieldQuiet field (deleteRange field start stop) :=
  ⟨rfl, .inl rfl⟩

theorem quiet_toggleMinus (field : Field) : FieldQuiet field (toggleMinus field) := by
  rw [toggleMinus]
  split
  · exact ⟨rfl, .inl rfl⟩
  · cases hfits : fits { field with cursor := 0 } (field.characters + countCharacters [byte '-']) with
    | false =>
      rw [insertBytes_of_not_fits hfits]
      exact .refl field
    | true =>
      rw [insertBytes_eq hfits]
      exact ⟨rfl, .inl rfl⟩

theorem quiet_moveCursor (field : Field) (cursor : ℕ) :
    FieldQuiet field (moveCursor field cursor) := by
  rw [moveCursor]
  split
  · exact .refl field
  · exact ⟨rfl, .inl rfl⟩

theorem quiet_deleteForward (field : Field) : FieldQuiet field (deleteForward field) := by
  rw [deleteForward]
  split
  · exact quiet_deleteRange _ _ _
  · exact .refl field

theorem quiet_holdPlus (field : Field) : FieldQuiet field (holdPlus field) := by
  rw [holdPlus]
  split
  · exact .refl field
  · exact ⟨rfl, .inl rfl⟩

theorem quiet_holdPhoneZero (field : Field) (nowMs : ℕ) :
    FieldQuiet field (holdPhoneZero field nowMs) := by
  rw [holdPhoneZero]
  split
  · exact .refl field
  · have hstart : FieldQuiet field { field with phoneZeroHeld := false } :=
      ⟨rfl, .inr ⟨rfl, rfl⟩⟩
    exact hstart.trans (quiet_holdPlus _)

theorem quiet_insertNewline (field : Field) : FieldQuiet field (insertNewline field).2 := by
  rw [insertNewline]
  split
  · exact .refl field
  · exact quiet_insertBytes _ _

/-! ### Before the minus of a full number -/

/-- The caret stands before the minus of a number that is as long as its limit. -/
def MinusFull (field : Field) : Prop :=
  isNumber field = true ∧ field.cursor = 0 ∧ field.text.head? = some (byte '-') ∧
    fits field (field.characters + 1) = false

instance (field : Field) : Decidable (MinusFull field) :=
  inferInstanceAs (Decidable (_ ∧ _ ∧ _ ∧ _))

variable {field : Field}

theorem skipMinus_of_minusFull (h : MinusFull field) (hcontent : ContentOk field) :
    skipMinus field = { field with cursor := 1 } := by
  obtain ⟨hnumber, hcursor, hhead, -⟩ := h
  have hlength : field.length ≠ 0 := by
    intro hempty
    rw [← hcontent.length, List.length_eq_zero_iff] at hempty
    rw [hempty] at hhead
    simp at hhead
  rw [skipMinus, if_pos ⟨hnumber, hcursor, hlength, hhead⟩]

theorem countCharacters_ascii_byte {b : UInt8} (h : b.toNat < 0x80) : countCharacters [b] = 1 :=
  countCharacters_ascii (by simpa using h)

theorem insert_of_minusFull {field : Field} (h : MinusFull field) (hcontent : ContentOk field)
    {b : UInt8} (hb : b.toNat < 0x80) :
    insertBytes (skipMinus field) [b] = (false, { field with cursor := 1 }) := by
  rw [skipMinus_of_minusFull h hcontent]
  refine insertBytes_of_not_fits ?_
  rw [countCharacters_ascii_byte hb]
  exact h.2.2.2

theorem quiet_insert_skipMinus (h : ¬ MinusFull field) {b : UInt8} (hb : b.toNat < 0x80) :
    FieldQuiet field (insertBytes (skipMinus field) [b]).2 := by
  rw [skipMinus]
  split
  · rename_i hskip
    obtain ⟨hnumber, hcursor, -, hhead⟩ := hskip
    have hfits : fits field (field.characters + 1) = true := by
      by_contra hfull
      exact h ⟨hnumber, hcursor, hhead, by simpa using hfull⟩
    have hroom : fits { field with cursor := 1 } (field.characters + countCharacters [b]) = true := by
      rw [countCharacters_ascii_byte hb]
      exact hfits
    rw [insertBytes_eq hroom]
    exact ⟨rfl, .inl rfl⟩
  · exact quiet_insertBytes _ _

theorem quiet_typeSeparator {field : Field} (hsep : IsSeparator field.separator)
    (h : ¬ (MinusFull field ∧ hasSeparator field = false)) :
    FieldQuiet field (typeSeparator field).2 := by
  rw [typeSeparator]
  split
  · exact .refl field
  · rename_i hnone
    refine quiet_insert_skipMinus (fun hfull => h ⟨hfull, by simpa using hnone⟩) ?_
    exact (plain_of_isSeparator hsep).1

theorem quiet_decimalStar (hsep : IsSeparator field.separator)
    (h : ¬ (MinusFull field ∧ hasSeparator field = false)) (nowMs : ℕ) :
    FieldQuiet field (decimalStar field nowMs) := by
  have hstart : FieldQuiet field { field with separatorTyped := false } := ⟨rfl, .inr ⟨rfl, rfl⟩⟩
  simp only [decimalStar]
  split
  · exact (hstart.trans (quiet_deleteRange _ _ _)).trans (quiet_toggleMinus _)
  · split
    · exact hstart.trans (quiet_toggleMinus _)
    · have htype := @quiet_typeSeparator { field with separatorTyped := false } hsep h
      split
      · rename_i heq
        rw [heq] at htype
        exact hstart.trans htype
      · rename_i heq
        rw [heq] at htype
        exact (hstart.trans htype).trans ⟨rfl, .inr ⟨rfl, rfl⟩⟩

/-- Keyboard text that is typed at the caret of a number. -/
def TypesAtCaret (field : Field) (text : List UInt8) : Prop :=
  ∃ character, text = [character] ∧ (IsDigit character ∨
    (field.type = .decimal ∧ IsSeparator character ∧ hasSeparator field = false))

theorem quiet_typedText (hcontent : ContentOk field) {text : List UInt8}
    (h : ¬ (MinusFull field ∧ TypesAtCaret field text)) :
    FieldQuiet field (typedText field text).2 := by
  unfold typedText
  split
  · rename_i character
    split
    · rename_i hdigit
      exact quiet_insert_skipMinus (fun hfull => h ⟨hfull, character, rfl, .inl hdigit⟩)
        (plain_of_isDigit hdigit).1
    · split
      · exact quiet_toggleMinus field
      · split
        · rename_i hpoint
          exact quiet_typeSeparator (hcontent.separator hpoint.1) fun hfull =>
            h ⟨hfull.1, character, rfl, .inr ⟨hpoint.1, hpoint.2, hfull.2⟩⟩
        · split
          · exact quiet_insertBytes _ _
          · exact .refl field
  · exact .refl field

theorem quiet_keyboardText (hcontent : ContentOk field) {text : Option (List UInt8)}
    (h : ¬ (MinusFull field ∧ ∃ bytes ∈ text, TypesAtCaret field bytes)) :
    FieldQuiet field (keyboardText field text).2 := by
  unfold keyboardText
  split
  · exact .refl field
  · rename_i bytes
    split
    · exact .refl field
    · split
      · exact quiet_typedText hcontent fun hfull => h ⟨hfull.1, bytes, rfl, hfull.2⟩
      · exact quiet_insertBytes _ _

/-! ### The model -/

/-- The index of the picker while it is open. -/
def picker (model : Model) : Option ℕ :=
  if model.input.pickerOpen then some model.input.pickerIndex else none

section

variable (towupper : ℕ → ℕ)

/-- What of a model is drawn, or goes into its display. -/
def look (model : Model) :=
  (fieldLook model.field, pendingBytes towupper model, model.input.compose.pending, indicator model,
    picker model)

/-- A step of the model that changes its look marks it dirty. -/
structure Quiet (model after : Model) : Prop where
  revision : after.field.revision = model.field.revision
  look : after.field.dirty = true ∨
    (after.field.dirty = model.field.dirty ∧ look towupper after = look towupper model)

end

section

variable {towupper : ℕ → ℕ}

theorem Quiet.refl (model : Model) : Quiet towupper model model := ⟨rfl, .inr ⟨rfl, rfl⟩⟩

theorem Quiet.trans {model middle after : Model} (h1 : Quiet towupper model middle)
    (h2 : Quiet towupper middle after) : Quiet towupper model after := by
  refine ⟨h2.revision.trans h1.revision, ?_⟩
  rcases h2.look with hdirty | ⟨hsame, hlook⟩
  · exact .inl hdirty
  · rcases h1.look with hdirty | ⟨hsame', hlook'⟩
    · exact .inl (hsame.trans hdirty)
    · exact .inr ⟨hsame.trans hsame', hlook.trans hlook'⟩

variable {after field : Field} {input : TextInput.State} {code : ℕ} {event : Key}

theorem startsSentence_congr (htext : after.text = field.text)
    (hcursor : after.cursor = field.cursor) : startsSentence after = startsSentence field := by
  rw [startsSentence, startsSentence, htext, hcursor]

theorem pendingBytes_congr {model after : Model} (hinput : after.input = model.input)
    (htext : after.field.text = model.field.text)
    (hcursor : after.field.cursor = model.field.cursor) :
    pendingBytes towupper after = pendingBytes towupper model := by
  rw [pendingBytes, pendingBytes, casedBytes, casedBytes, hinput, startsSentence_congr htext hcursor]

theorem look_congr {model after : Model} (hfield : fieldLook after.field = fieldLook model.field)
    (hbytes : pendingBytes towupper after = pendingBytes towupper model)
    (hpending : after.input.compose.pending = model.input.compose.pending)
    (hindicator : indicator after = indicator model) (hpicker : picker after = picker model) :
    look towupper after = look towupper model := by
  rw [look, look, hfield, hbytes, hpending, hindicator, hpicker]

theorem FieldQuiet.model {model : Model} {after : Field} (h : FieldQuiet model.field after) :
    Quiet towupper model { model with field := after } := by
  refine ⟨h.revision, ?_⟩
  rcases h.look with hdirty | ⟨hsame, hlook⟩
  · exact .inl hdirty
  · refine .inr ⟨hsame, ?_⟩
    have hparts := hlook
    simp only [fieldLook, Prod.mk.injEq] at hparts
    have hpending : pendingBytes towupper { model with field := after } =
        pendingBytes towupper model := pendingBytes_congr rfl hparts.1 hparts.2.1
    exact look_congr hlook hpending rfl rfl rfl

/-- A step that leaves everything that is drawn of the input alone. -/
structure SameInput (input after : TextInput.State) : Prop where
  pending : after.compose.pending = input.compose.pending
  compose : after.compose.pending = true → after.compose = input.compose ∧
    after.numeric = input.numeric ∧ after.letterCase = input.letterCase
  indicator : TextInput.indicator after = TextInput.indicator input
  pickerOpen : after.pickerOpen = input.pickerOpen
  pickerIndex : after.pickerIndex = input.pickerIndex

theorem applyCase_congr {after : TextInput.State} (hnumeric : after.numeric = input.numeric)
    (hcase : after.letterCase = input.letterCase) (character : ℕ) (starts : Bool) :
    applyCase towupper after character starts =
      applyCase towupper input character starts := by
  rw [applyCase, applyCase, hnumeric, hcase]

theorem pendingBytes_of_not_pending {model : Model}
    (h : model.input.compose.pending = false) : pendingBytes towupper model = [] := by
  simp [pendingBytes, h]

theorem SameInput.look {model : Model} {input : TextInput.State}
    (h : SameInput model.input input) :
    look towupper { model with input := input } = look towupper model := by
  have hpending : pendingBytes towupper { model with input := input } =
      pendingBytes towupper model := by
    cases hp : input.compose.pending with
    | false =>
      have hboth := h.pending.symm.trans hp
      rw [pendingBytes_of_not_pending hp, pendingBytes_of_not_pending hboth]
    | true =>
      obtain ⟨hcompose, hnumeric, hcase⟩ := h.compose hp
      rw [pendingBytes, pendingBytes, casedBytes, casedBytes, applyCase_congr hnumeric hcase, hcompose]
  have hpicker : picker { model with input := input } = picker model := by
    rw [picker, picker, h.pickerOpen, h.pickerIndex]
  exact look_congr rfl hpending h.pending h.indicator hpicker

theorem SameInput.quiet {model : Model} (h : SameInput model.input input) :
    Quiet towupper model { model with input := input } :=
  ⟨rfl, .inr ⟨rfl, h.look⟩⟩

theorem sameInput_cancelHeld (hclosed : input.pickerOpen = false) :
    SameInput input (TextInput.cancelHeld input) :=
  ⟨rfl, fun _ => ⟨rfl, rfl, rfl⟩, rfl, hclosed.symm, rfl⟩

theorem quiet_dropHolds {model : Model} (hclosed : model.input.pickerOpen = false) :
    Quiet towupper model
      ⟨TextInput.cancelHeld model.input, { model.field with phoneZeroHeld := false }⟩ := by
  have hfield : FieldQuiet model.field { model.field with phoneZeroHeld := false } :=
    ⟨rfl, .inr ⟨rfl, rfl⟩⟩
  exact (sameInput_cancelHeld hclosed).quiet.trans
    (@FieldQuiet.model towupper { model with input := TextInput.cancelHeld model.input } _ hfield)

theorem Edited.revision (h : Edited field after) : after.revision = field.revision := by
  rw [h]

theorem commitPending_of_not_pending {model : Model}
    (h : model.input.compose.pending = false) :
    commitPending towupper model =
      ⟨TextInput.cancelHeld model.input, { model.field with phoneZeroHeld := false }⟩ := by
  have hheld : (TextInput.cancelHeld model.input).compose.pending = false := h
  simp [commitPending, hheld]

theorem commitPending_dirty {model : Model} (h : Sound model)
    (hpending : model.input.compose.pending = true) :
    (commitPending towupper model).field.dirty = true ∧
      (commitPending towupper model).field.revision = model.field.revision := by
  have hdrop := h.dropHolds
  have hedited := TextInput.commit_text (emits_edited towupper (policy model.field.type)
    { model.field with phoneZeroHeld := false }) hdrop.input.numeric hdrop.input.compose (.refl _)
  have hheld : (TextInput.cancelHeld model.input).compose.pending = true := hpending
  have heq : commitPending towupper model =
      ⟨(commit (emitCharacter towupper) (TextInput.cancelHeld model.input)
          { model.field with phoneZeroHeld := false }).2.1,
        { (commit (emitCharacter towupper) (TextInput.cancelHeld model.input)
          { model.field with phoneZeroHeld := false }).2.2 with dirty := true }⟩ := by
    simp [commitPending, hheld]
  rw [heq]
  exact ⟨rfl, hedited.revision⟩

theorem quiet_commitPending {model : Model} (h : Sound model)
    (hclosed : model.input.pickerOpen = false) :
    Quiet towupper model (commitPending towupper model) := by
  cases hpending : model.input.compose.pending with
  | true =>
    obtain ⟨hdirty, hrevision⟩ := commitPending_dirty h hpending
    exact ⟨hrevision, .inl hdirty⟩
  | false =>
    rw [commitPending_of_not_pending hpending]
    exact quiet_dropHolds hclosed

theorem quiet_deleteBackward (model : Model) : Quiet towupper model (deleteBackward model) := by
  rw [deleteBackward]
  split
  · exact ⟨rfl, .inl rfl⟩
  · split
    · exact (quiet_deleteRange _ _ _).model
    · exact .refl model

theorem not_pending_of_isNumber {model : Model} (h : Sound model)
    (hnumber : isNumber model.field = true) : model.input.compose.pending = false := by
  cases hpending : model.input.compose.pending with
  | false => rfl
  | true =>
    have hchar := h.input.compose.candidate hpending
    rcases (isNumber_iff _).mp hnumber with htype | htype
    · rw [htype] at hchar
      exact hchar.elim
    · rw [htype] at hchar
      exact hchar.elim

theorem commitPending_of_isNumber {model : Model} (h : Sound model)
    (hnumber : isNumber model.field = true) :
    commitPending towupper model =
      ⟨TextInput.cancelHeld model.input, { model.field with phoneZeroHeld := false }⟩ :=
  commitPending_of_not_pending (not_pending_of_isNumber h hnumber)

theorem isNumber_commitPending (hupper : Uppercases towupper) {model : Model} (h : Sound model) :
    isNumber (commitPending towupper model).field = isNumber model.field := by
  rw [isNumber, isNumber, (settled_commitPending hupper h).type]

theorem closed_of_isNumber {model : Model} (h : Sound model)
    (hnumber : isNumber model.field = true) : model.input.pickerOpen = false := by
  cases hopen : model.input.pickerOpen with
  | false => rfl
  | true =>
    exact absurd (policy_free (h.input.picker hopen).2) (type_ne_any_of_isNumber hnumber)

/-! ### The picker -/

theorem quiet_closePicker {model : Model} (h : Sound model)
    (hopen : model.input.pickerOpen = true) (insert : Bool) :
    Quiet towupper model (closePicker towupper model insert) := by
  obtain ⟨-, hfree⟩ := h.input.picker hopen
  rw [closePicker]
  split
  · have hedited := (TextInput.selectSymbol_keeps (emits_edited towupper (policy model.field.type)
      model.field) h.input hfree (.refl _)).2
    exact ⟨hedited.revision, .inl rfl⟩
  · exact ⟨rfl, .inl rfl⟩

theorem quiet_pickerPhoneKey {model : Model} (h : Sound model)
    (hopen : model.input.pickerOpen = true) (code : ℕ) :
    Quiet towupper model (pickerPhoneKey towupper model code) := by
  rw [pickerPhoneKey]
  split
  · exact ⟨rfl, .inl rfl⟩
  · split
    · exact quiet_closePicker h hopen true
    · split
      · exact quiet_closePicker h hopen false
      · exact .refl model

/-! ### Phone keys -/

theorem revision_reserve (field : Field) (bytes : ℕ) :
    (reserve field bytes).revision = field.revision ∧
      (reserve field bytes).dirty = field.dirty := by
  rw [reserve_eq]
  exact ⟨rfl, rfl⟩

theorem keepFitting_dirty {model : Model} (h : model.field.dirty = true) :
    (keepFitting towupper model).2.field.dirty = true ∧
      (keepFitting towupper model).2.field.revision = model.field.revision := by
  rw [keepFitting]
  split
  · exact ⟨rfl, rfl⟩
  · obtain ⟨hrevision, hdirty⟩ := revision_reserve model.field
      (model.field.length + (pendingBytes towupper model).length)
    exact ⟨hdirty.trans h, hrevision⟩

theorem quiet_pressDigit {model : Model} (h : Sound model) (htype : model.field.type = .any)
    (hclosed : model.input.pickerOpen = false) (key nowMs : ℕ) :
    Quiet towupper model (pressMultitap towupper model key nowMs true).2 := by
  have hfree : (policy model.field.type).free := by
    rw [htype]
    trivial
  have hedited := (TextInput.press_keeps (emits_edited towupper (policy model.field.type)
    model.field) h.input hfree hclosed (.refl _) key nowMs).2
  obtain ⟨hdirty, hrevision⟩ := @keepFitting_dirty towupper
    ⟨(press (emitCharacter towupper) model.input key nowMs model.field).2.1,
      { (press (emitCharacter towupper) model.input key nowMs model.field).2.2 with
        dirty := true }⟩ rfl
  exact ⟨hrevision.trans hedited.revision, .inl hdirty⟩

theorem quiet_pressStar {model : Model} (h : Sound model) (htype : model.field.type = .phone)
    (hclosed : model.input.pickerOpen = false) (nowMs : ℕ) :
    Quiet towupper model (pressMultitap towupper model 48 nowMs false).2 := by
  have hsome : ∃ value, (policy model.field.type).character value := by
    rw [htype]
    exact ⟨42, List.mem_cons_self⟩
  have hedited := (TextInput.compose_keeps (emits_edited towupper (policy model.field.type)
    model.field) h.input hsome hclosed (.refl _) 48 nowMs).2
  obtain ⟨hdirty, hrevision⟩ := @keepFitting_dirty towupper
    ⟨(TextInput.compose (emitCharacter towupper) model.input 48 nowMs model.field).2.1,
      { (TextInput.compose (emitCharacter towupper) model.input 48 nowMs model.field).2.2 with
        dirty := true }⟩ rfl
  exact ⟨hrevision.trans hedited.revision, .inl hdirty⟩

theorem quiet_typeDigit (hupper : Uppercases towupper) {model : Model} (h : Sound model)
    (hclosed : model.input.pickerOpen = false) (hfull : ¬ MinusFull model.field) {digit nowMs : ℕ}
    (hdigit : 48 ≤ digit ∧ digit ≤ 57) :
    Quiet towupper model (typeDigit towupper model code digit nowMs) := by
  have hcommit := @quiet_commitPending towupper model h hclosed
  have hfull' : ¬ MinusFull (commitPending towupper model).field := by
    intro hminus
    have hnumber := hminus.1
    rw [isNumber_commitPending hupper h] at hnumber
    rw [commitPending_of_isNumber h hnumber] at hminus
    exact hfull hminus
  have hinsert := quiet_insert_skipMinus hfull' (plain_of_isDigit (isDigit_toUInt8 hdigit)).1
  simp only [typeDigit]
  split
  · rename_i heq
    rw [heq] at hinsert
    exact hcommit.trans hinsert.model
  · rename_i heq
    rw [heq] at hinsert
    split
    · exact hcommit.trans (FieldQuiet.model (hinsert.trans ⟨rfl, .inr ⟨rfl, rfl⟩⟩))
    · exact hcommit.trans hinsert.model

/-- A phone key that types at the caret of a number. -/
def PhoneTypes (field : Field) (code : ℕ) : Prop :=
  (keyNumeric0 ≤ code ∧ code ≤ keyNumeric9) ∨
    (code = keyNumericStar ∧ field.type = .decimal ∧ hasSeparator field = false)

theorem quiet_phoneCommand (hupper : Uppercases towupper) {model : Model} (h : Sound model)
    (hclosed : model.input.pickerOpen = false) {nowMs : ℕ}
    (htype : code = keyNumericStar → model.field.type = .numeric ∨ model.field.type = .decimal)
    (hfull : ¬ (MinusFull model.field ∧ PhoneTypes model.field code)) :
    Quiet towupper model (phoneCommand towupper model code nowMs).2 := by
  have hcommit := @quiet_commitPending towupper model h hclosed
  obtain ⟨hsound, -, -, hsame, -⟩ := settled_commitPending hupper h
  simp only [phoneCommand]
  split
  · split
    · exact hcommit
    · exact hcommit.trans (quiet_insertBytes _ _).model
  split
  · rename_i hstar
    refine hcommit.trans (FieldQuiet.model ?_)
    split
    · exact quiet_toggleMinus _
    · rename_i hnumeric
      have hdecimal : model.field.type = .decimal := by
        rw [hsame] at hnumeric
        exact (htype hstar).resolve_left hnumeric
      have hnumber : isNumber model.field = true := (isNumber_iff _).mpr (.inr hdecimal)
      have hsep := hsound.content.separator (hsame.trans hdecimal)
      refine quiet_decimalStar hsep ?_ nowMs
      rw [commitPending_of_isNumber h hnumber]
      exact fun hminus => hfull ⟨hminus.1, .inr ⟨hstar, hdecimal, hminus.2⟩⟩
  split
  · exact hcommit.trans (quiet_moveCursor _ _).model
  split
  · split
    · exact hcommit
    · exact hcommit.trans (quiet_moveCursor _ _).model
  split
  · exact hcommit
  split
  · exact hcommit.trans (quiet_insertNewline _).model
  · exact hcommit

theorem quiet_clearPress (model : Model) (nowMs : ℕ) :
    Quiet towupper model
      ⟨(clearPress eraseCharacter model.input nowMs model.field).2.1,
        (clearPress eraseCharacter model.input nowMs model.field).2.2⟩ := by
  have hdelete := @quiet_deleteBackward towupper model
  have hanswer := (erases model.field.type).answers model.input model.field
  refine hdelete.trans ?_
  simp only [clearPress, ne_eq, hanswer, not_false_eq_true, if_true]
  exact SameInput.quiet ⟨rfl, fun _ => ⟨rfl, rfl, rfl⟩, rfl, rfl, rfl⟩

/-- **A phone key** is quiet, except before the minus of a full number. -/
theorem quiet_phoneKey (hupper : Uppercases towupper) {model : Model} (h : Sound model) (nowMs : ℕ)
    (hfull : ¬ (MinusFull model.field ∧ PhoneTypes model.field code)) :
    Quiet towupper model (phoneKey towupper model code nowMs).2 := by
  rw [phoneKey]
  split
  · rename_i hopen
    exact quiet_pickerPhoneKey h hopen code
  rename_i hopen
  have hclosed : model.input.pickerOpen = false := by simpa using hopen
  split
  · rename_i hcontrol
    have hkey : (if code = keyNumericPound then 35 else 42) = 35 ∨
        (if code = keyNumericPound then 35 else 42) = 42 := by
      split
      · exact .inl rfl
      · exact .inr rfl
    rw [TextInput.press_control hkey]
    exact SameInput.quiet ⟨rfl, fun _ => ⟨rfl, rfl, rfl⟩, rfl, rfl, rfl⟩
  rename_i hcontrol
  split
  · rename_i hdigit
    simp only
    split
    · rename_i hletters
      have htype := h.any_of_letters (by simpa using hletters)
      dsimp only
      exact quiet_pressDigit h htype hclosed _ nowMs
    · refine quiet_typeDigit hupper h hclosed (fun hminus => hfull ⟨hminus, .inl hdigit⟩) ?_
      rw [keyNumeric0, keyNumeric9] at hdigit
      rw [keyNumeric0]
      omega
  split
  · rename_i hstar
    have hidle : Quiet towupper model ⟨{ model.input with heldDigit := 0 },
        { model.field with phoneZeroHeld := false }⟩ := by
      have hinput : SameInput model.input { model.input with heldDigit := 0 } :=
        ⟨rfl, fun _ => ⟨rfl, rfl, rfl⟩, rfl, rfl, rfl⟩
      exact hinput.quiet.trans (@FieldQuiet.model towupper ⟨{ model.input with heldDigit := 0 },
        model.field⟩ _ ⟨rfl, .inr ⟨rfl, rfl⟩⟩)
    have hsound : Sound ⟨{ model.input with heldDigit := 0 },
        { model.field with phoneZeroHeld := false }⟩ :=
      (h.setInput (h.input.setHeld 0 _ _ _ _) id).frame rfl (by simp)
    dsimp only
    exact hidle.trans (quiet_pressStar hsound hstar.2 hclosed nowMs)
  rename_i hstar
  split
  · have hdrop := @quiet_dropHolds towupper model hclosed
    simp only
    split
    · exact hdrop
    · exact hdrop.trans (quiet_clearPress _ nowMs)
  · refine quiet_phoneCommand hupper h hclosed (fun hcode => ?_) hfull
    cases htype : model.field.type with
    | any => exact absurd ⟨htype, .inr hcode⟩ hcontrol
    | numeric => exact .inl rfl
    | decimal => exact .inr rfl
    | phone => exact absurd ⟨hcode, htype⟩ hstar

/-! ### Keyboard keys -/

/-- The keys of a keyboard that have a meaning of their own. -/
def commandKeys : List ℕ :=
  [keyBackspace, keyDelete, keyLeft, keyRight, keyHome, keyEnd, keyUp, keyDown, keyEnter, keyKpEnter]

/-- A keyboard key that types at the caret of a number. -/
def KeyboardTypes (field : Field) (event : Key) : Prop :=
  event.shortcut = false ∧ event.code ∉ commandKeys ∧ ∃ bytes ∈ event.text, TypesAtCaret field bytes

theorem quiet_keyboardCommand (hupper : Uppercases towupper) {model : Model} (h : Sound model)
    (hclosed : model.input.pickerOpen = false)
    (hfull : ¬ (MinusFull model.field ∧ event.code ∉ commandKeys ∧
      ∃ bytes ∈ event.text, TypesAtCaret model.field bytes))
    (hback : event.code ≠ keyBackspace) :
    Quiet towupper model (keyboardCommand towupper model event).2 := by
  have hcommit := @quiet_commitPending towupper model h hclosed
  have hsound := (settled_commitPending hupper h).sound
  simp only [keyboardCommand]
  split
  · exact hcommit.trans (quiet_deleteForward _).model
  rename_i h1
  split
  · exact hcommit.trans (quiet_moveCursor _ _).model
  rename_i h2
  split
  · exact hcommit.trans (quiet_moveCursor _ _).model
  rename_i h3
  split
  · exact hcommit.trans (quiet_moveCursor _ _).model
  rename_i h4
  split
  · exact hcommit
  rename_i h5
  split
  · exact hcommit.trans (quiet_insertNewline _).model
  rename_i h6
  refine hcommit.trans (FieldQuiet.model (quiet_keyboardText hsound.content ?_))
  rintro ⟨hminus, htypes⟩
  have hnumber := hminus.1
  rw [isNumber_commitPending hupper h] at hnumber
  rw [commitPending_of_isNumber h hnumber] at hminus htypes
  refine hfull ⟨hminus, ?_, htypes⟩
  simp only [not_or] at h4 h5 h6
  simp [commandKeys, hback, h1, h2, h3, h4, h5, h6]

theorem quiet_keyboardEdit (hupper : Uppercases towupper) {model : Model} (h : Sound model)
    (hclosed : model.input.pickerOpen = false)
    (hfull : ¬ (MinusFull model.field ∧ event.code ∉ commandKeys ∧
      ∃ bytes ∈ event.text, TypesAtCaret model.field bytes)) :
    Quiet towupper model (keyboardEdit towupper model event).2 := by
  have hdrop := @quiet_dropHolds towupper model hclosed
  simp only [keyboardEdit]
  split
  · split
    · exact hdrop
    · exact hdrop.trans (quiet_deleteBackward _)
  · rename_i hback
    have hsound : Sound { model with input := TextInput.cancelHeld model.input } :=
      h.setInput h.input.cancelHeld id
    exact (sameInput_cancelHeld hclosed).quiet.trans
      (quiet_keyboardCommand hupper hsound rfl hfull hback)

/-- **A keyboard key** is quiet, except before the minus of a full number. -/
theorem quiet_keyboardKey (hupper : Uppercases towupper) {model : Model} (h : Sound model)
    (hfull : ¬ (MinusFull model.field ∧ KeyboardTypes model.field event)) :
    Quiet towupper model (keyboardKey towupper model event).2 := by
  rw [keyboardKey]
  split
  · exact .refl model
  rename_i hshortcut
  split
  · rename_i hopen
    split
    · exact ⟨rfl, .inl rfl⟩
    · split
      · exact quiet_closePicker h hopen _
      · -- The picker is closed first, which is drawn; it is open in no number field.
        have hclose := @quiet_closePicker towupper model h hopen false
        refine hclose.trans (quiet_keyboardEdit hupper (sound_closePicker hupper h hopen false) rfl ?_)
        rintro ⟨hminus, -⟩
        have hclosed := closed_of_isNumber h (show isNumber model.field = true from hminus.1)
        rw [hclosed] at hopen
        exact absurd hopen (by simp)
  · rename_i hopen
    refine quiet_keyboardEdit hupper h (by simpa using hopen) fun hminus => hfull ⟨hminus.1, ?_⟩
    exact ⟨by simpa using hshortcut, hminus.2⟩

/-! ### Releases and deadlines -/

theorem emits_quiet (towupper : ℕ → ℕ) (R : TextInput.Policy) (field : Field) :
    Emits R (FieldQuiet field) (emitCharacter towupper) where
  keeps _ _ _ _ h _ := h.trans (quiet_insertBytes _ _)
  answers := answers_emitCharacter

theorem ok_eraseCharacter {R : TextInput.Policy} (field : Field) (h : TextInput.Ok R input) :
    TextInput.Ok R (eraseCharacter input field).2.1 := by
  simp only [eraseCharacter, deleteBackward]
  split
  · exact h.cancel
  · split
    · exact h
    · exact h

theorem erases_quiet (R : TextInput.Policy) (field : Field) :
    Erases R (FieldQuiet field) eraseCharacter where
  keeps input after hinput h := by
    refine ⟨ok_eraseCharacter after hinput, h.trans ?_⟩
    simp only [eraseCharacter, deleteBackward]
    split
    · exact ⟨rfl, .inl rfl⟩
    · split
      · exact quiet_deleteRange _ _ _
      · exact .refl _
  answers := (erases .any).answers
  settles := (erases .any).settles

theorem steady_eraseCharacter (input : TextInput.State) (field : Field) :
    Steady input (eraseCharacter input field).2.1 := by
  simp only [eraseCharacter, deleteBackward]
  split
  · exact ⟨rfl, rfl, rfl⟩
  · split
    · exact ⟨rfl, rfl, rfl⟩
    · exact ⟨rfl, rfl, rfl⟩

theorem sameInput_of_keeps {R : TextInput.Policy} {next : TextInput.State}
    (hkeeps : TextInput.Keeps R (FieldQuiet field) input field next after)
    (hpending : next.compose.pending = input.compose.pending)
    (hsteady : Steady input next)
    (hindicator : indicatorAt next = indicatorAt input) :
    SameInput input next := by
  refine ⟨hpending, fun hp => ?_, ?_, hsteady.pickerOpen, hsteady.pickerIndex⟩
  · obtain ⟨hcompose, -, hnumeric, hcase⟩ := hkeeps.pending hp
    exact ⟨hcompose, hnumeric, hcase⟩
  · rw [TextInput.indicator, TextInput.indicator, hindicator, hsteady.languages]

/-- **The deadlines** of a model are quiet. -/
theorem quiet_runDeadlines {model : Model} (h : Sound model) (nowMs : ℕ) :
    Quiet towupper model (runDeadlines towupper model nowMs) := by
  have hstart := quiet_holdPhoneZero model.field nowMs
  have hemit := emits_quiet towupper (policy model.field.type) (holdPhoneZero model.field nowMs)
  have herase := erases_quiet (policy model.field.type) (holdPhoneZero model.field nowMs)
  have hkeeps := TextInput.tick_keeps hemit herase h.input (.refl _) nowMs
  have hsteady := TextInput.tick_steady hemit herase steady_eraseCharacter h.input (.refl _) nowMs
  simp only [runDeadlines]
  split
  · exact ⟨hkeeps.text.revision.trans hstart.revision, .inl rfl⟩
  · rename_i hnoted
    rw [not_or, not_not, not_not] at hnoted
    have hsame := sameInput_of_keeps hkeeps hnoted.1.symm hsteady hnoted.2.symm
    exact hsame.quiet.trans (@FieldQuiet.model towupper ⟨_, model.field⟩ _
      (hstart.trans hkeeps.text))

theorem quiet_releaseControl {model : Model} (h : Sound model) (code nowMs : ℕ) :
    Quiet towupper model (releaseControl towupper model code nowMs) := by
  rw [releaseControl]
  split
  · have hkeeps := release_keeps (emits_quiet towupper (policy model.field.type)
      model.field) h.input (.refl _) (if code = keyNumericPound then 35 else 42) nowMs
    exact ⟨hkeeps.text.revision, .inl rfl⟩
  · exact .refl model

theorem releaseControl_eq_or_dirty (model : Model) (code nowMs : ℕ) :
    releaseControl towupper model code nowMs = model ∨
      (releaseControl towupper model code nowMs).field.dirty = true := by
  rw [releaseControl]
  split
  · exact .inr rfl
  · exact .inl rfl

theorem releaseDigit_cases {model : Model} (h : Sound model) (code nowMs : ℕ) :
    FieldQuiet model.field (releaseDigit towupper model code nowMs).field ∧
      ((releaseDigit towupper model code nowMs).input.compose.pending =
          model.input.compose.pending →
        SameInput model.input (releaseDigit towupper model code nowMs).input) := by
  rw [releaseDigit]
  split
  · rename_i hdigit
    have hkeeps := release_keeps (emits_quiet towupper (policy model.field.type)
      model.field) h.input (.refl _) (48 + (code - keyNumeric0)) nowMs
    refine ⟨hkeeps.text, fun hpending => ?_⟩
    have hcontrol : model.input.heldControl ≠ 48 + (code - keyNumeric0) := by
      by_cases hzero : model.input.heldControl = 0
      · omega
      · have hkey := (h.input.control hzero).1
        omega
    obtain ⟨compose, heldDigit, heq⟩ := @TextInput.release_modes _ (emitCharacter towupper)
      model.input _ hcontrol nowMs model.field
    have hsteady : Steady model.input (release (emitCharacter towupper)
        model.input (48 + (code - keyNumeric0)) nowMs model.field).2.1 := by
      rw [heq]
      exact ⟨rfl, rfl, rfl⟩
    have hindicator : indicatorAt (release (emitCharacter towupper)
        model.input (48 + (code - keyNumeric0)) nowMs model.field).2.1 =
        indicatorAt model.input := by
      rw [heq]
      rfl
    exact sameInput_of_keeps hkeeps hpending hsteady hindicator
  · exact ⟨.refl _, fun _ => ⟨rfl, fun _ => ⟨rfl, rfl, rfl⟩, rfl, rfl, rfl⟩⟩

theorem quiet_releaseZero (model : Model) (code nowMs : ℕ) :
    FieldQuiet model.field (releaseZero model code nowMs).field ∧
      (releaseZero model code nowMs).input = model.input := by
  rw [releaseZero]
  split
  · exact ⟨(quiet_holdPhoneZero _ _).trans ⟨rfl, .inr ⟨rfl, rfl⟩⟩, rfl⟩
  · exact ⟨.refl _, rfl⟩

theorem releaseClear_cases (model : Model) (code : ℕ) :
    (releaseClear model code).field = model.field ∧
      SameInput model.input (releaseClear model code).input := by
  rw [releaseClear]
  split
  · exact ⟨rfl, rfl, fun _ => ⟨rfl, rfl, rfl⟩, rfl, rfl, rfl⟩
  · exact ⟨rfl, rfl, fun _ => ⟨rfl, rfl, rfl⟩, rfl, rfl, rfl⟩

theorem SameInput.trans {middle after : TextInput.State} (h1 : SameInput input middle)
    (h2 : SameInput middle after) : SameInput input after := by
  refine ⟨h2.pending.trans h1.pending, fun hp => ?_, h2.indicator.trans h1.indicator,
    h2.pickerOpen.trans h1.pickerOpen, h2.pickerIndex.trans h1.pickerIndex⟩
  obtain ⟨hcompose, hnumeric, hcase⟩ := h2.compose hp
  obtain ⟨hcompose', hnumeric', hcase'⟩ := h1.compose (by rw [← hcompose, hp])
  exact ⟨hcompose.trans hcompose', hnumeric.trans hnumeric', hcase.trans hcase'⟩

/-- **A release** is quiet. -/
theorem quiet_releaseKey (hupper : Uppercases towupper) {model : Model} (h : Sound model)
    (event : Key) (nowMs : ℕ) : Quiet towupper model (releaseKey towupper model event nowMs) := by
  rw [releaseKey]
  split
  · exact .refl model
  have hcontrol := @quiet_releaseControl towupper model h event.code nowMs
  have hsound := sound_releaseControl hupper h event.code nowMs
  have hacted := @releaseControl_eq_or_dirty towupper model event.code nowMs
  set first := releaseControl towupper model event.code nowMs
  obtain ⟨hdigit, hsame⟩ := @releaseDigit_cases towupper first hsound event.code nowMs
  obtain ⟨hzero, hinput⟩ := quiet_releaseZero (releaseDigit towupper first event.code nowMs)
    event.code nowMs
  obtain ⟨hfield, hclear⟩ := releaseClear_cases
    (releaseZero (releaseDigit towupper first event.code nowMs) event.code nowMs) event.code
  have hedit := hdigit.trans hzero
  simp only [notePending]
  split
  · refine ⟨?_, .inl rfl⟩
    show (releaseClear _ _).field.revision = _
    rw [hfield]
    exact hedit.revision.trans hcontrol.revision
  · rename_i hnoted
    rw [not_not] at hnoted
    rcases hacted with hnone | hdirty
    · -- The pending character was noted against the model before the release.
      rw [hinput] at hclear
      have hpending : (releaseDigit towupper first event.code nowMs).input.compose.pending =
          first.input.compose.pending := by
        rw [← hclear.pending, ← hnoted, hnone]
      have hall := (hsame hpending).trans hclear
      have hquiet := hall.quiet.trans (@FieldQuiet.model towupper ⟨_, first.field⟩ _ hedit)
      rw [← hfield] at hquiet
      rw [hnone] at hquiet ⊢
      exact hquiet
    · refine ⟨?_, .inl ?_⟩
      · rw [hfield]
        exact hedit.revision.trans hcontrol.revision
      · rw [hfield]
        rcases hedit.look with hmarked | ⟨hkept, -⟩
        · exact hmarked
        · exact hkept.trans hdirty

/-- A key that types at the caret of a number. -/
def TypesKey (field : Field) (event : Key) : Prop :=
  if event.keyboard then KeyboardTypes field event else PhoneTypes field event.code

/-- **A press** is quiet, except before the minus of a full number. -/
theorem quiet_pressKey (hupper : Uppercases towupper) {model : Model} (h : Sound model)
    {event : Key} (nowMs : ℕ) (hfull : ¬ (MinusFull model.field ∧ TypesKey model.field event)) :
    Quiet towupper model (pressKey towupper model event nowMs).2 := by
  rw [TypesKey] at hfull
  rw [pressKey]
  split
  · rename_i hkeyboard
    rw [if_pos hkeyboard] at hfull
    exact quiet_keyboardKey hupper h hfull
  · rename_i hkeyboard
    rw [if_neg hkeyboard] at hfull
    exact quiet_phoneKey hupper h nowMs hfull

end

end TextModel
