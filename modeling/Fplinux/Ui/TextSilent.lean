/-
The operations of the text model that change what is drawn without marking it.

Every operation ends with `finish`, or leaves the model as it was.  Before that
it is quiet, except in the three cases that `Silent` lists: a digit or separator
before the minus of a full number, a caret placed where it is while the picker is
open, and a type refused while the picker is open.

Main results:
- `draws_apply`: an operation that is not silent is a quiet step and `finish`;
- `silent_apply`: a silent one is a quiet step from the model with its caret
  behind the minus or its picker closed, and leaves the model clean.
-/
import Fplinux.Ui.TextDrawn

namespace TextModel

open Bytes (byte)
open InputCodes
open TextBoundary

/-- The operations that move the caret or close the picker unmarked. -/
def Silent (model : Model) : Op → Prop
  | .key event _ =>
    model.field.focused = true ∧ event.code < keyCnt ∧ event.pressed = true ∧
      model.field.readOnly = false ∧ MinusFull model.field ∧ TypesKey model.field event
  | .setType (some type) separator =>
    model.input.pickerOpen = true ∧ (type = .decimal → IsSeparator separator) ∧
      suits type model.field.text = false
  | .setCaret index =>
    model.input.pickerOpen = true ∧ min index model.field.characters = caret model
  | _ => False

/-- The model that a silent operation leads to, as far as it is drawn. -/
def silentBase (model : Model) : Op → Model
  | .key _ _ => { model with field := { model.field with cursor := 1 } }
  | _ => { model with input := { model.input with pickerOpen := false } }

section

variable {towupper : ℕ → ℕ} {model : Model} {event : Key} {nowMs : ℕ}

theorem finish_of_clean (h : model.field.dirty = false) : finish towupper model = model := by
  simp [finish, h]

/-- A quiet step, then `finish`. -/
def Draws (towupper : ℕ → ℕ) (model after : Model) : Prop :=
  ∃ next, after = finish towupper next ∧ Quiet towupper model next

theorem draws_self (hclean : model.field.dirty = false) : Draws towupper model model :=
  ⟨model, (finish_of_clean hclean).symm, .refl model⟩

theorem not_pending_of_open (h : Sound model) (hopen : model.input.pickerOpen = true) :
    model.input.compose.pending = false :=
  (h.input.picker hopen).1

theorem caret_of_open (h : Sound model) (hopen : model.input.pickerOpen = true) :
    caret model = countCharacters (model.field.text.take model.field.cursor) := by
  rw [caret, not_pending_of_open h hopen]
  rfl

theorem revision_commitPending (h : Sound model) :
    (commitPending towupper model).field.revision = model.field.revision := by
  cases hpending : model.input.compose.pending with
  | true => exact (commitPending_dirty h hpending).2
  | false => rw [commitPending_of_not_pending hpending]

theorem quiet_setConsumed (model : Model) (event : Key) (value : Bool) :
    Quiet towupper model { model with field := setConsumed model.field event value } :=
  FieldQuiet.model ⟨rfl, .inr ⟨rfl, rfl⟩⟩

/-! ### Quiet operations -/

theorem draws_key (hupper : Uppercases towupper) (h : Sound model)
    (hclean : model.field.dirty = false) (hsilent : ¬ Silent model (.key event nowMs)) :
    Draws towupper model (key towupper model event nowMs).2 := by
  rw [key]
  split
  · exact draws_self hclean
  rename_i hfocused
  split
  · have hsound : Sound { model with field := setConsumed model.field event false } :=
      h.frame rfl id
    exact ⟨_, rfl, (quiet_setConsumed model event false).trans
      (quiet_releaseKey hupper hsound event nowMs)⟩
  rename_i hpressed
  split
  · exact draws_self hclean
  rename_i hreadOnly
  have hpress := @quiet_pressKey towupper hupper model h event nowMs fun htypes => by
    simp only [not_or, Bool.not_eq_true', Bool.not_eq_false, ge_iff_le, Nat.not_le] at hfocused
    exact hsilent ⟨hfocused.1, hfocused.2, by simpa using hpressed, by simpa using hreadOnly, htypes⟩
  refine ⟨_, rfl, hpress.trans ?_⟩
  split
  · exact quiet_setConsumed _ event true
  · exact .refl _

theorem draws_setText (hclean : model.field.dirty = false) (text : List UInt8) :
    Draws towupper model (setText towupper model text).2 := by
  simp only [setText]
  split
  · exact draws_self hclean
  split
  · exact draws_self hclean
  · refine ⟨_, rfl, ?_⟩
    rw [useSeparator_eq, reserve_eq]
    exact ⟨rfl, .inl rfl⟩

theorem draws_setType (h : Sound model) (hclean : model.field.dirty = false)
    {type : Option FieldType} {separator : UInt8}
    (hsilent : ¬ Silent model (.setType type separator)) :
    Draws towupper model (setType towupper model type separator).2 := by
  cases type with
  | none => exact draws_self hclean
  | some type =>
    simp only [setType]
    split
    · exact draws_self hclean
    rename_i hsep
    split
    · rename_i hsuits
      refine ⟨_, rfl, quiet_commitPending h ?_⟩
      cases hopen : model.input.pickerOpen with
      | false => rfl
      | true =>
        rw [commitPending_of_not_pending (not_pending_of_open h hopen)] at hsuits
        refine absurd ⟨hopen, fun hdecimal => ?_, by simpa using hsuits⟩ hsilent
        by_contra hother
        rw [IsSeparator, not_or] at hother
        exact hsep ⟨hdecimal, hother⟩
    · refine ⟨selectType (commitPending towupper model) type separator, rfl, ?_, .inl rfl⟩
      rw [selectType, useSeparator_eq]
      exact revision_commitPending h

theorem draws_setCaret (h : Sound model) {index : ℕ} (hsilent : ¬ Silent model (.setCaret index)) :
    Draws towupper model (setCaret towupper model index) := by
  refine ⟨_, rfl, ?_⟩
  cases hopen : model.input.pickerOpen with
  | false => exact (quiet_commitPending h hopen).trans (quiet_moveCursor _ _).model
  | true =>
    -- The caret moves, so that the closed picker is drawn too.
    have hmoves : caretOffset model.field.text model.field.length index 0 ≠ model.field.cursor := by
      intro heq
      refine hsilent ⟨hopen, ?_⟩
      rw [caret_of_open h hopen]
      exact (caretOffset_eq_cursor_iff h.content index).mp heq
    rw [commitPending_of_not_pending (not_pending_of_open h hopen)]
    simp only [moveCursor, hmoves, if_false]
    exact ⟨rfl, .inl rfl⟩

/-- **An operation that is not silent** draws what it changes. -/
theorem draws_apply (hupper : Uppercases towupper) (h : Sound model)
    (hclean : model.field.dirty = false) {op : Op} (hsilent : ¬ Silent model op) :
    Draws towupper model (apply towupper model op) := by
  cases op with
  | key event nowMs => exact draws_key hupper h hclean hsilent
  | tick nowMs => exact ⟨_, rfl, quiet_runDeadlines h nowMs⟩
  | cancelHeld =>
    refine ⟨_, rfl, ?_⟩
    cases hopen : model.input.pickerOpen with
    | true => exact ⟨rfl, .inl rfl⟩
    | false =>
      have hdrop := @quiet_dropHolds towupper model hopen
      exact hdrop
  | setText text => exact draws_setText hclean text
  | setType type separator => exact draws_setType h hclean hsilent
  | setPassword password =>
    simp only [apply, setPassword]
    split
    · exact draws_self hclean
    · exact ⟨_, rfl, rfl, .inl rfl⟩
  | setFocused focused =>
    simp only [apply, setFocused]
    split
    · exact draws_self hclean
    · refine ⟨_, rfl, ?_, .inl rfl⟩
      split
      · exact revision_commitPending h
      · rfl
  | cancelPicker =>
    simp only [apply, cancelPicker]
    split
    · exact draws_self hclean
    · rename_i hopen
      exact ⟨_, rfl, quiet_closePicker h (by simpa using hopen) false⟩
  | setPickerColumns columns =>
    refine ⟨setPickerColumns model columns, Eq.symm (finish_of_clean hclean), ?_⟩
    exact SameInput.quiet ⟨rfl, fun _ => ⟨rfl, rfl, rfl⟩, rfl, rfl, rfl⟩
  | setReadOnly readOnly =>
    simp only [apply, setReadOnly]
    split
    · exact draws_self hclean
    · refine ⟨_, rfl, ?_, .inl rfl⟩
      split
      · exact revision_commitPending h
      · rfl
  | setCaret index => exact draws_setCaret h hsilent

/-! ### Silent operations -/

/-- A step that leaves the holds and moves the caret behind the minus. -/
def Skips (model after : Model) : Prop :=
  ∃ field, after = ⟨TextInput.cancelHeld model.input, field⟩ ∧
    field.dirty = model.field.dirty ∧ field.revision = model.field.revision ∧
    fieldLook field = fieldLook { model.field with cursor := 1 }

theorem skips_typeDigit (h : Sound model) (hfull : MinusFull model.field) {code digit : ℕ}
    (hdigit : 48 ≤ digit ∧ digit ≤ 57) :
    Skips model (typeDigit towupper model code digit nowMs) := by
  have hcommit := @commitPending_of_isNumber towupper model h hfull.1
  have hcontent : ContentOk { model.field with phoneZeroHeld := false } := h.content.frame rfl
  have hinsert := @insert_of_minusFull { model.field with phoneZeroHeld := false } hfull hcontent
    _ (plain_of_isDigit (isDigit_toUInt8 hdigit)).1
  simp only [typeDigit, hcommit, hinsert]
  exact ⟨_, rfl, rfl, rfl, rfl⟩

theorem insert_separator_of_minusFull {field : Field} (h : MinusFull field)
    (hcontent : ContentOk field) (htype : field.type = .decimal)
    (hnone : hasSeparator field = false) :
    typeSeparator field = (false, { field with cursor := 1 }) := by
  have hsep := hcontent.separator htype
  rw [typeSeparator, if_neg (by simp [hnone])]
  exact insert_of_minusFull h hcontent (plain_of_isSeparator hsep).1

theorem skips_decimalStar {field : Field} (h : MinusFull field) (hcontent : ContentOk field)
    (htype : field.type = .decimal) (hnone : hasSeparator field = false) (nowMs : ℕ) :
    decimalStar field nowMs = { field with separatorTyped := false, cursor := 1 } := by
  have hagain : starAgain field nowMs = false := by simp [starAgain, h.2.1]
  have hstart : ContentOk { field with separatorTyped := false } := hcontent.frame rfl
  have hinsert := @insert_separator_of_minusFull { field with separatorTyped := false } h hstart
    htype hnone
  have hnone' : hasSeparator { field with separatorTyped := false } = false := hnone
  simp only [decimalStar, hagain, hnone', hinsert, Bool.false_eq_true, if_false]

theorem keyNumericStar_ne : keyNumericStar ≠ keyNumericPound ∧
    ¬ (keyNumeric0 ≤ keyNumericStar ∧ keyNumericStar ≤ keyNumeric9) ∧ keyNumericStar ≠ keyF14 := by
  decide

theorem skips_phoneKey (h : Sound model) (hfull : MinusFull model.field) {code : ℕ}
    (htypes : PhoneTypes model.field code) (nowMs : ℕ) :
    Skips model (phoneKey towupper model code nowMs).2 := by
  have hclosed := closed_of_isNumber h hfull.1
  have hne := type_ne_any_of_isNumber hfull.1
  have hnumeric : model.input.numeric = true := h.input.numeric fun hfree => hne (policy_free hfree)
  have hcommit := @commitPending_of_isNumber towupper model h hfull.1
  rw [phoneKey, if_neg (by simp [hclosed]), if_neg fun hany => hne hany.1]
  rcases htypes with hdigit | ⟨rfl, hdecimal, hnone⟩
  · rw [if_pos hdigit]
    simp only [hnumeric, Bool.not_true, Bool.false_eq_true, if_false]
    refine skips_typeDigit h hfull ?_
    rw [keyNumeric0, keyNumeric9] at hdigit
    rw [keyNumeric0]
    omega
  · obtain ⟨hpound, hdigit, hclear⟩ := keyNumericStar_ne
    have hstar := @skips_decimalStar { model.field with phoneZeroHeld := false } hfull
      (h.content.frame rfl) hdecimal hnone nowMs
    rw [if_neg hdigit, if_neg (by simp [hdecimal]), if_neg hclear]
    simp only [phoneCommand, hcommit]
    rw [if_neg hpound, if_pos True.intro]
    refine ⟨_, rfl, ?_⟩
    rw [if_neg (by simp [hdecimal]), hstar]
    exact ⟨rfl, rfl, rfl⟩

theorem isPrintable_singleton {b : UInt8} (h : 0x20 ≤ b.toNat ∧ b.toNat ≠ 0x7f) :
    isPrintable [b] = true := by
  simp [isPrintable, h]

theorem skips_keyboardText {field : Field} (h : MinusFull field) (hcontent : ContentOk field)
    {text : List UInt8} (htypes : TypesAtCaret field text) :
    (keyboardText field (some text)).2 = { field with cursor := 1 } := by
  have hne := type_ne_any_of_isNumber h.1
  obtain ⟨character, rfl, hdigit | ⟨htype, hsep, hnone⟩⟩ := htypes
  · have hge : 48 ≤ character.toNat := hdigit.1
    have hle : character.toNat ≤ 57 := hdigit.2
    have hprintable := @isPrintable_singleton character (by omega)
    have hrange : byte '0' ≤ character ∧ character ≤ byte '9' := hdigit
    rw [keyboardText, if_neg (by simp [hprintable]), if_pos hne, typedText, if_pos hrange,
      insert_of_minusFull h hcontent (plain_of_isDigit hdigit).1]
  · have hprintable : isPrintable [character] = true := by
      rcases hsep with rfl | rfl
      · decide
      · decide
    have hminus : character ≠ byte '-' := by
      rcases hsep with rfl | rfl
      · decide
      · decide
    have hrange : ¬ (byte '0' ≤ character ∧ character ≤ byte '9') := not_isDigit_of_isSeparator hsep
    have hpoint : field.type = .decimal ∧ (character = byte '.' ∨ character = byte ',') :=
      ⟨htype, hsep⟩
    rw [keyboardText, if_neg (by simp [hprintable]), if_pos hne, typedText, if_neg hrange,
      if_neg fun hand => hminus hand.2, if_pos hpoint,
      insert_separator_of_minusFull h hcontent htype hnone]

theorem skips_keyboardKey (h : Sound model) (hfull : MinusFull model.field)
    (htypes : KeyboardTypes model.field event) :
    Skips model (keyboardKey towupper model event).2 := by
  obtain ⟨hshortcut, hcommand, bytes, htext, htypes⟩ := htypes
  have hsound : Sound { model with input := TextInput.cancelHeld model.input } :=
    h.setInput h.input.cancelHeld id
  have hcommit := @commitPending_of_isNumber towupper _ hsound hfull.1
  have hcontent : ContentOk { model.field with phoneZeroHeld := false } := h.content.frame rfl
  have hskip := @skips_keyboardText { model.field with phoneZeroHeld := false } hfull hcontent
    bytes htypes
  rw [Option.mem_def] at htext
  simp only [commandKeys, List.mem_cons, List.not_mem_nil, or_false, not_or] at hcommand
  obtain ⟨hback, hdelete, hleft, hright, hhome, hend, hup, hdown, henter, hkpEnter⟩ := hcommand
  rw [keyboardKey, if_neg (by simp [hshortcut]), if_neg (by simp [closed_of_isNumber h hfull.1])]
  simp only [keyboardEdit, if_neg hback]
  simp only [keyboardCommand, hcommit]
  rw [if_neg hdelete, if_neg hleft, if_neg hright, if_neg (by simp [hhome, hend]),
    if_neg (by simp [hup, hdown]), if_neg (by simp [henter, hkpEnter])]
  refine ⟨_, rfl, ?_⟩
  rw [htext, hskip]
  exact ⟨rfl, rfl, rfl⟩

theorem skips_pressKey {model : Model} (h : Sound model) (hfull : MinusFull model.field)
    {event : Key} (htypes : TypesKey model.field event) (nowMs : ℕ) :
    Skips model (pressKey towupper model event nowMs).2 := by
  rw [TypesKey] at htypes
  rw [pressKey]
  split
  · rename_i hkeyboard
    rw [if_pos hkeyboard] at htypes
    exact skips_keyboardKey h hfull htypes
  · rename_i hkeyboard
    rw [if_neg hkeyboard] at htypes
    exact skips_phoneKey h hfull htypes nowMs

/-- What a silent operation leaves: the same revision, and another look. -/
structure Unmarked (towupper : ℕ → ℕ) (model base after : Model) : Prop where
  dirty : after.field.dirty = false
  revision : after.field.revision = model.field.revision
  look : look towupper after = look towupper base

theorem Unmarked.finish {base next : Model} (h : Unmarked towupper model base next) :
    Unmarked towupper model base (finish towupper next) := by
  rw [finish_of_clean h.dirty]
  exact h

theorem Unmarked.setConsumed {base next : Model} (h : Unmarked towupper model base next)
    (event : Key) (value : Bool) :
    Unmarked towupper model base { next with field := setConsumed next.field event value } :=
  ⟨h.dirty, h.revision, h.look⟩

theorem Skips.unmarked {model after : Model} (hskips : Skips model after)
    (hclean : model.field.dirty = false) (hclosed : model.input.pickerOpen = false) :
    Unmarked towupper model { model with field := { model.field with cursor := 1 } } after := by
  obtain ⟨field, rfl, hdirty, hrevision, hlook⟩ := hskips
  have hinput := sameInput_cancelHeld hclosed
  have hparts := hlook
  simp only [fieldLook, Prod.mk.injEq] at hparts
  have hpending := @pendingBytes_congr towupper
    ⟨TextInput.cancelHeld model.input, { model.field with cursor := 1 }⟩
    ⟨TextInput.cancelHeld model.input, field⟩ rfl hparts.1 hparts.2.1
  have hmoved := @SameInput.look towupper { model with field := { model.field with cursor := 1 } } _
    hinput
  refine ⟨hdirty.trans hclean, hrevision, .trans ?_ hmoved⟩
  exact look_congr hlook hpending rfl rfl rfl

theorem silent_key (h : Sound model) (hclean : model.field.dirty = false)
    (hsilent : Silent model (.key event nowMs)) :
    Unmarked towupper model { model with field := { model.field with cursor := 1 } }
      (key towupper model event nowMs).2 := by
  obtain ⟨hfocused, hcode, hpressed, hreadOnly, hfull, htypes⟩ := hsilent
  have hskips := @skips_pressKey towupper model h hfull event htypes nowMs
  have hunmarked := @Skips.unmarked towupper _ _ hskips hclean (closed_of_isNumber h hfull.1)
  have hactive : ¬ (!model.field.focused ∨ event.code ≥ keyCnt) := by
    simp [hfocused, hcode]
  rw [key, if_neg hactive, if_neg (by simp [hpressed]), if_neg (by simp [hreadOnly])]
  refine .finish ?_
  split
  · exact hunmarked.setConsumed event true
  · exact hunmarked

theorem silent_setType (h : Sound model) (hclean : model.field.dirty = false) {type : FieldType}
    {separator : UInt8} (hsilent : Silent model (.setType (some type) separator)) :
    Unmarked towupper model { model with input := { model.input with pickerOpen := false } }
      (setType towupper model (some type) separator).2 := by
  obtain ⟨hopen, hsep, hsuits⟩ := hsilent
  have hother : ¬ (type = .decimal ∧ separator ≠ byte '.' ∧ separator ≠ byte ',') := by
    rintro ⟨hdecimal, hpoint, hcomma⟩
    rcases hsep hdecimal with heq | heq
    · exact hpoint heq
    · exact hcomma heq
  have hcommit := @commitPending_of_not_pending towupper model (not_pending_of_open h hopen)
  simp only [setType, if_neg hother, hcommit, hsuits, Bool.not_false, if_true]
  exact .finish ⟨hclean, rfl, rfl⟩

theorem silent_setCaret (h : Sound model) (hclean : model.field.dirty = false) {index : ℕ}
    (hsilent : Silent model (.setCaret index)) :
    Unmarked towupper model { model with input := { model.input with pickerOpen := false } }
      (setCaret towupper model index) := by
  obtain ⟨hopen, hcaret⟩ := hsilent
  rw [caret_of_open h hopen] at hcaret
  have hoffset := (caretOffset_eq_cursor_iff h.content index).mpr hcaret
  have hcommit := @commitPending_of_not_pending towupper model (not_pending_of_open h hopen)
  simp only [setCaret, hcommit, hoffset, moveCursor, if_true]
  exact .finish ⟨hclean, rfl, rfl⟩

/-- **A silent operation** changes the look all the same. -/
theorem silent_apply {model : Model} (h : Sound model) (hclean : model.field.dirty = false)
    {op : Op} (hsilent : Silent model op) :
    Unmarked towupper model (silentBase model op) (apply towupper model op) := by
  cases op with
  | key event nowMs => exact silent_key h hclean hsilent
  | setType type separator =>
    cases type with
    | none => exact hsilent.elim
    | some type => exact silent_setType h hclean hsilent
  | setCaret index => exact silent_setCaret h hclean hsilent
  | _ => exact hsilent.elim

end

end TextModel
