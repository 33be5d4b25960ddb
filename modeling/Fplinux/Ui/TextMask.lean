/-
What a password field reveals.

The view of a password is dots around the readable pending character.  Two
password models are `Alike` when they have as many committed characters before
and after the cursor and the same pending character, if any; alike models show
the same string.  The case of the pending character says nothing about the text
either: in a password no letter starts a sentence (`Cased`), so what is pending
depends on the keys and the modes only.

Main results:
- `view_of_password`: the view of a reachable password model;
- `caseKept_of_reachable`: the sentence case is off in a password, over runs;
- `password_reveals_counts`: the two-run statement.
-/
import Fplinux.Ui.TextCommit
import Fplinux.Ui.TextDeadline

namespace TextInput

open Language (LetterCase)
open Multitap (EmitResult)

/-! ### The sentence case -/

/-- Whether the sentence case may be used, and that it is not where it may not. -/
structure Cased (allowed : Bool) (input : State) : Prop where
  sentence : input.allowSentence = allowed
  letterCase : input.letterCase = .sentence → allowed = true

section

variable {allowed : Bool} {input : State}

theorem Cased.frame (h : Cased allowed input) {after : State}
    (hallowed : after.allowSentence = input.allowSentence)
    (hcase : after.letterCase = input.letterCase) : Cased allowed after :=
  ⟨hallowed.trans h.sentence, fun hsentence => h.letterCase (hcase.symm.trans hsentence)⟩

theorem Cased.setFirst (h : Cased allowed input) :
    Cased allowed { input with letterCase := firstCase input } := by
  refine ⟨h.sentence, fun hsentence => ?_⟩
  have hcase : firstCase input = .sentence := hsentence
  rw [firstCase, h.sentence] at hcase
  cases allowed with
  | false => simp at hcase
  | true => rfl

theorem Cased.resetMode (h : Cased allowed input) (numeric : Bool) :
    Cased allowed (resetMode input numeric) :=
  h.setFirst.frame rfl rfl

theorem cased_setSentenceCase (input : State) (allowed : Bool) :
    Cased allowed (setSentenceCase input allowed) := by
  refine ⟨rfl, fun hsentence => ?_⟩
  have hcase : (if !allowed ∧ input.letterCase = .sentence then LetterCase.lower
    else input.letterCase) = .sentence := hsentence
  cases allowed with
  | false =>
    split at hcase
    · simp at hcase
    · rename_i hother
      exact absurd ⟨rfl, hcase⟩ hother
  | true => rfl

theorem Cased.controlMode (h : Cased allowed input) : Cased allowed (controlMode input) := by
  rw [TextInput.controlMode]
  split
  · split
    · exact h.frame rfl rfl
    · split
      · exact h.frame rfl rfl
      · by_cases hupper : input.letterCase = .upper
        · simp only [hupper, if_true]
          exact h.setFirst.frame rfl rfl
        · -- The next case is never the sentence case.
          refine ⟨h.sentence, fun hsentence => ?_⟩
          have hcase : nextCase input.letterCase = .sentence := by
            simpa [hupper] using hsentence
          cases hletter : input.letterCase with
          | _ => simp [hletter, nextCase] at hcase
  · exact h.frame rfl rfl

end

section

variable {γ : Type*} {J : γ → Prop} {emit : State → γ → ℕ → EmitResult × γ}
  {erase : State → γ → EmitResult × State × γ} {allowed : Bool} {input : State} {context : γ}

theorem cased_commit (hemit : Emits anyPolicy J emit) (h : Cased allowed input) (hJ : J context) :
    Cased allowed (commit emit input context).2.1 ∧ J (commit emit input context).2.2 := by
  obtain ⟨-, hcontext, compose, heq, -⟩ := commit_done hemit input hJ
  refine ⟨?_, hcontext⟩
  rw [heq]
  exact h.frame rfl rfl

theorem cased_controlAction (hemit : Emits anyPolicy J emit) (h : Cased allowed input)
    (hJ : J context) :
    Cased allowed (controlAction emit input context).2.1 ∧
      J (controlAction emit input context).2.2 := by
  obtain ⟨hcase, hcontext⟩ := cased_commit hemit h hJ
  rw [controlAction_eq hemit]
  refine ⟨?_, hcontext⟩
  simp only
  split
  · exact hcase.frame rfl rfl
  · exact hcase.controlMode.frame rfl rfl

theorem press_context (hemit : Emits anyPolicy J emit) (input : State) (state : Multitap.State)
    (key elapsedMs : ℕ) (hJ : J context) :
    J (Multitap.press (emit input) state key elapsedMs context).2.2 := by
  have hpending := emitPending_context hemit input state hJ
  rw [Multitap.press]
  split
  · exact hJ
  · split
    · exact hJ
    · split
      · exact hJ
      · split
        · split
          · rename_i heq
            rwa [heq] at hpending
          · exact hpending
        · exact hJ

theorem cased_compose (hemit : Emits anyPolicy J emit) (h : Cased allowed input) (hJ : J context)
    (key nowMs : ℕ) :
    Cased allowed (compose emit input key nowMs context).2.1 ∧
      J (compose emit input key nowMs context).2.2 := by
  refine ⟨?_, press_context hemit _ _ _ _ hJ⟩
  simp only [compose]
  split
  · exact h.frame rfl rfl
  · exact h.frame rfl rfl

theorem cased_press (hemit : Emits anyPolicy J emit) (h : Cased allowed input) (hJ : J context)
    (key nowMs : ℕ) :
    Cased allowed (press emit input key nowMs context).2.1 ∧
      J (press emit input key nowMs context).2.2 := by
  rw [press]
  split
  · exact ⟨h.frame rfl rfl, hJ⟩
  · split
    · exact ⟨h, hJ⟩
    · have hidle : Cased allowed { input with heldControl := 0 } := h.frame rfl rfl
      simp only
      split
      · have hcommit := cased_commit hemit hidle hJ
        split
        · rename_i heq
          rwa [heq] at hcommit
        · rename_i heq
          rw [heq] at hcommit
          exact ⟨hcommit.1, hemit.keeps _ _ _ (fun hn => absurd trivial hn) hcommit.2 trivial⟩
      · have hcompose := cased_compose hemit hidle hJ key nowMs
        refine ⟨?_, hcompose.2⟩
        split
        · exact hcompose.1.frame rfl rfl
        · exact hcompose.1

theorem cased_holdDigit (hemit : Emits anyPolicy J emit) (h : Cased allowed input) (hJ : J context)
    (nowMs : ℕ) :
    Cased allowed (holdDigit emit input nowMs context).2.1 ∧
      J (holdDigit emit input nowMs context).2.2 := by
  obtain ⟨compose, heldDigit, heq⟩ := @holdDigit_modes _ emit input nowMs context
  refine ⟨?_, (holdDigit_done hemit input nowMs hJ).2.1⟩
  rw [heq]
  exact h.frame rfl rfl

theorem cased_release (hemit : Emits anyPolicy J emit) (h : Cased allowed input) (hJ : J context)
    (key nowMs : ℕ) :
    Cased allowed (release emit input key nowMs context).2.1 ∧
      J (release emit input key nowMs context).2.2 := by
  rw [release]
  split
  · exact cased_controlAction hemit (h.frame rfl rfl) hJ
  · split
    · exact ⟨h, hJ⟩
    · obtain ⟨hcase, hcontext⟩ := cased_holdDigit hemit h hJ nowMs
      refine ⟨?_, hcontext⟩
      simp only
      split
      · exact hcase.frame rfl rfl
      · exact hcase

/-- Clear keeps the case and the text in order. -/
def ErasesCased (allowed : Bool) (J : γ → Prop) (erase : State → γ → EmitResult × State × γ) :
    Prop :=
  ∀ input context, Cased allowed input → J context →
    Cased allowed (erase input context).2.1 ∧ J (erase input context).2.2

theorem cased_clearPress (herase : ErasesCased allowed J erase) (h : Cased allowed input)
    (hJ : J context) (nowMs : ℕ) :
    Cased allowed (clearPress erase input nowMs context).2.1 ∧
      J (clearPress erase input nowMs context).2.2 := by
  obtain ⟨hcase, hcontext⟩ := herase input context h hJ
  refine ⟨?_, hcontext⟩
  simp only [clearPress]
  split
  · exact hcase.frame rfl rfl
  · exact hcase

/-- **A tick** keeps the case. -/
theorem cased_tick (hemit : Emits anyPolicy J emit) (herase : ErasesCased allowed J erase)
    (h : Cased allowed input) (hJ : J context) (nowMs : ℕ) :
    Cased allowed (tick emit erase input nowMs context).2.1 ∧
      J (tick emit erase input nowMs context).2.2 := by
  have hpart {last next} := @unlessBlocked_induct γ
    (fun middle middleContext => Cased allowed middle ∧ J middleContext) last next
  refine hpart (hpart (hpart (cased_holdDigit hemit h hJ nowMs) ?control) ?commit) ?clear
  case control =>
    rintro result middle middleContext ⟨hcase, hcontext⟩
    rw [tickControl]
    split
    · exact cased_controlAction hemit (hcase.frame rfl rfl) hcontext
    · exact ⟨hcase, hcontext⟩
  case commit =>
    rintro result middle middleContext ⟨hcase, hcontext⟩
    rw [tickCompose]
    split
    · exact cased_commit hemit hcase hcontext
    · exact ⟨hcase, hcontext⟩
  case clear =>
    rintro result middle middleContext ⟨hcase, hcontext⟩
    rw [tickClear]
    split
    · have herased := herase middle middleContext hcase hcontext
      split
      · rename_i heq
        rwa [heq] at herased
      · rename_i heq
        rw [heq] at herased
        exact ⟨herased.1.frame rfl rfl, herased.2⟩
    · exact ⟨hcase, hcontext⟩

end

end TextInput

namespace TextModel

open Bytes (ascii)
open InputCodes
open TextBoundary
open TextInput (Cased cased_commit cased_compose cased_press cased_release cased_clearPress
  cased_tick)
open Utf8 (Decodes)

/-! ### The switch of a password over an operation -/

/-- The field is a password or not, and the case goes with it. -/
structure Masked (password : Bool) (model : Model) : Prop where
  input : Cased (!password) model.input
  field : model.field.password = password

theorem Edited.password {field after : Field} (h : Edited field after) :
    after.password = field.password := by
  rw [h]

section

variable {towupper : ℕ → ℕ} {password : Bool} {model : Model}

theorem Masked.frame (h : Masked password model) {input : TextInput.State} {field : Field}
    (hallowed : input.allowSentence = model.input.allowSentence)
    (hcase : input.letterCase = model.input.letterCase)
    (hpassword : field.password = model.field.password) : Masked password ⟨input, field⟩ :=
  ⟨h.input.frame hallowed hcase, hpassword.trans h.field⟩

theorem Masked.edit (h : Masked password model) {after : Field} (hedited : Edited model.field after) :
    Masked password { model with field := after } :=
  h.frame rfl rfl hedited.password

theorem emits_masked (towupper : ℕ → ℕ) (password : Bool) :
    TextInput.Emits TextInput.anyPolicy (fun field => field.password = password)
      (emitCharacter towupper) :=
  ⟨fun _ _ _ _ h _ => (edited_insertBytes _ _).password.trans h, answers_emitCharacter⟩

theorem masked_finish (h : Masked password model) : Masked password (finish towupper model) := by
  obtain ⟨capacity, masked, heq, -⟩ := @refreshDisplay_eq towupper model
  rw [finish]
  split
  · exact h
  · simp only [heq]
    exact h.frame rfl rfl rfl

theorem masked_commitPending (h : Masked password model) :
    Masked password (commitPending towupper model) := by
  simp only [commitPending]
  split
  · exact h.frame rfl rfl rfl
  · have hheld : Cased (!password) (TextInput.cancelHeld model.input) := h.input.frame rfl rfl
    have hfield : ({ model.field with phoneZeroHeld := false } : Field).password = password :=
      h.field
    obtain ⟨hcase, hpassword⟩ := cased_commit (emits_masked towupper password) hheld hfield
    exact ⟨hcase.frame rfl rfl, hpassword⟩

theorem masked_cancelPending (h : Masked password model) : Masked password (cancelPending model) :=
  h.frame rfl rfl rfl

theorem masked_deleteBackward (h : Masked password model) :
    Masked password (deleteBackward model) := by
  rw [deleteBackward]
  split
  · exact masked_cancelPending h
  · split
    · exact h.edit (edited_deleteRange _ _ _)
    · exact h

theorem erases_masked (password : Bool) :
    TextInput.ErasesCased (!password) (fun field => field.password = password) eraseCharacter := by
  intro input field hinput hfield
  have hdelete := @masked_deleteBackward password ⟨input, field⟩ ⟨hinput, hfield⟩
  exact ⟨hdelete.input, hdelete.field⟩

theorem masked_keepFitting (h : Masked password model) :
    Masked password (keepFitting towupper model).2 := by
  rw [keepFitting]
  split
  · exact masked_cancelPending h
  · exact h.edit (edited_reserve _ _)

theorem masked_pressMultitap (h : Masked password model) (key nowMs : ℕ) (hold : Bool) :
    Masked password (pressMultitap towupper model key nowMs hold).2 := by
  have hemit := emits_masked towupper password
  simp only [pressMultitap]
  refine masked_keepFitting ?_
  cases hold with
  | false =>
    obtain ⟨hcase, hpassword⟩ := cased_compose hemit h.input h.field key nowMs
    exact ⟨hcase, hpassword⟩
  | true =>
    obtain ⟨hcase, hpassword⟩ := cased_press hemit h.input h.field key nowMs
    exact ⟨hcase, hpassword⟩

theorem masked_typeDigit (h : Masked password model) (code digit nowMs : ℕ) :
    Masked password (typeDigit towupper model code digit nowMs) := by
  have hcommit := @masked_commitPending towupper password model h
  have hedited := (edited_skipMinus (commitPending towupper model).field).trans
    (edited_insertBytes (skipMinus (commitPending towupper model).field) [digit.toUInt8])
  simp only [typeDigit]
  split
  · rename_i heq
    rw [heq] at hedited
    exact hcommit.edit hedited
  · rename_i heq
    rw [heq] at hedited
    split
    · exact hcommit.frame rfl rfl hedited.password
    · exact hcommit.edit hedited

theorem masked_closePicker (h : Masked password model) (insert : Bool) :
    Masked password (closePicker towupper model insert) := by
  cases insert with
  | false => exact h.frame rfl rfl rfl
  | true =>
    have hfield := (edited_insertBytes model.field (casedBytes towupper model.input model.field
      (TextInput.symbol model.input.pickerIndex))).password
    simp only [closePicker, TextInput.selectSymbol, if_true]
    split
    · exact h.frame rfl rfl hfield
    · exact h.frame rfl rfl hfield

theorem masked_pickerPhoneKey (h : Masked password model) (code : ℕ) :
    Masked password (pickerPhoneKey towupper model code) := by
  rw [pickerPhoneKey]
  split
  · exact h.frame rfl rfl rfl
  · split
    · exact masked_closePicker h true
    · split
      · exact masked_closePicker h false
      · exact h

theorem masked_phoneCommand (h : Masked password model) (code nowMs : ℕ) :
    Masked password (phoneCommand towupper model code nowMs).2 := by
  have hcommit := @masked_commitPending towupper password model h
  simp only [phoneCommand]
  split
  · split
    · exact hcommit
    · exact hcommit.edit (edited_insertBytes _ _)
  · split
    · refine hcommit.edit ?_
      split
      · exact edited_toggleMinus _
      · exact edited_decimalStar _ _
    · split
      · exact hcommit.edit (edited_moveCursor _ _)
      · split
        · split
          · exact hcommit
          · exact hcommit.edit (edited_moveCursor _ _)
        · split
          · exact hcommit
          · split
            · exact hcommit.edit (edited_insertNewline _)
            · exact hcommit

theorem masked_phoneKey (h : Masked password model) (code nowMs : ℕ) :
    Masked password (phoneKey towupper model code nowMs).2 := by
  have hemit := emits_masked towupper password
  rw [phoneKey]
  split
  · exact masked_pickerPhoneKey h code
  · split
    · obtain ⟨hcase, hpassword⟩ := cased_press hemit h.input h.field
        (if code = keyNumericPound then 35 else 42) nowMs
      exact ⟨hcase, hpassword⟩
    · split
      · simp only
        split
        · dsimp only
          exact masked_pressMultitap h _ nowMs true
        · exact masked_typeDigit h code _ nowMs
      · split
        · have hstar : Masked password ⟨{ model.input with heldDigit := 0 },
              { model.field with phoneZeroHeld := false }⟩ := h.frame rfl rfl rfl
          exact masked_pressMultitap hstar 48 nowMs false
        · split
          · have hdrop : Masked password ⟨TextInput.cancelHeld model.input,
                { model.field with phoneZeroHeld := false }⟩ := h.frame rfl rfl rfl
            simp only
            split
            · exact hdrop
            · obtain ⟨hcase, hpassword⟩ := cased_clearPress (erases_masked password) hdrop.input
                hdrop.field nowMs
              exact ⟨hcase, hpassword⟩
          · exact masked_phoneCommand h code nowMs

theorem masked_keyboardCommand (h : Masked password model) (event : Key) :
    Masked password (keyboardCommand towupper model event).2 := by
  have hcommit := @masked_commitPending towupper password model h
  simp only [keyboardCommand]
  split
  · exact hcommit.edit (edited_deleteForward _)
  · split
    · exact hcommit.edit (edited_moveCursor _ _)
    · split
      · exact hcommit.edit (edited_moveCursor _ _)
      · split
        · exact hcommit.edit (edited_moveCursor _ _)
        · split
          · exact hcommit
          · split
            · exact hcommit.edit (edited_insertNewline _)
            · exact hcommit.edit (edited_keyboardText _ _)

theorem masked_keyboardEdit (h : Masked password model) (event : Key) :
    Masked password (keyboardEdit towupper model event).2 := by
  have hdrop : Masked password { model with input := TextInput.cancelHeld model.input } :=
    h.frame rfl rfl rfl
  simp only [keyboardEdit]
  split
  · split
    · exact hdrop.frame rfl rfl rfl
    · exact masked_deleteBackward (hdrop.frame rfl rfl rfl)
  · exact masked_keyboardCommand hdrop event

theorem masked_pressKey (h : Masked password model) (event : Key) (nowMs : ℕ) :
    Masked password (pressKey towupper model event nowMs).2 := by
  rw [pressKey]
  split
  · rw [keyboardKey]
    split
    · exact h
    · split
      · split
        · exact h.frame rfl rfl rfl
        · split
          · exact masked_closePicker h _
          · exact masked_keyboardEdit (masked_closePicker h false) event
      · exact masked_keyboardEdit h event
  · exact masked_phoneKey h _ _

theorem masked_releaseKey (h : Masked password model) (event : Key) (nowMs : ℕ) :
    Masked password (releaseKey towupper model event nowMs) := by
  have hemit := emits_masked towupper password
  rw [releaseKey]
  split
  · exact h
  · have hcontrol : Masked password (releaseControl towupper model event.code nowMs) := by
      rw [releaseControl]
      split
      · obtain ⟨hcase, hpassword⟩ := cased_release hemit h.input h.field
          (if event.code = keyNumericPound then 35 else 42) nowMs
        exact ⟨hcase, hpassword⟩
      · exact h
    simp only
    generalize releaseControl towupper model event.code nowMs = first at hcontrol
    have hdigit : Masked password (releaseDigit towupper first event.code nowMs) := by
      rw [releaseDigit]
      split
      · obtain ⟨hcase, hpassword⟩ := cased_release hemit hcontrol.input hcontrol.field
          (48 + (event.code - keyNumeric0)) nowMs
        exact ⟨hcase, hpassword⟩
      · exact hcontrol
    generalize releaseDigit towupper first event.code nowMs = second at hdigit
    have hzero : Masked password (releaseZero second event.code nowMs) := by
      rw [releaseZero]
      split
      · refine hdigit.frame rfl rfl ?_
        show (holdPhoneZero second.field nowMs).password = second.field.password
        rw [holdPhoneZero]
        split
        · rfl
        · exact (edited_holdPlus _).password
      · exact hdigit
    generalize releaseZero second event.code nowMs = third at hzero
    have hclear : Masked password (releaseClear third event.code) := by
      rw [releaseClear]
      split
      · exact hzero.frame rfl rfl rfl
      · exact hzero
    rw [notePending]
    split
    · exact hclear.frame rfl rfl rfl
    · exact hclear

theorem masked_runDeadlines (h : Masked password model) (nowMs : ℕ) :
    Masked password (runDeadlines towupper model nowMs) := by
  have hzero : (holdPhoneZero model.field nowMs).password = password := by
    rw [holdPhoneZero]
    split
    · exact h.field
    · exact (edited_holdPlus _).password.trans h.field
  obtain ⟨hcase, hpassword⟩ := cased_tick (emits_masked towupper password)
    (erases_masked password) h.input hzero nowMs
  simp only [runDeadlines]
  split
  · exact ⟨hcase, hpassword⟩
  · exact ⟨hcase, hpassword⟩

theorem masked_stopInput (h : Masked password model) :
    Masked password (stopInput towupper model) :=
  (@masked_commitPending towupper password model h).frame rfl rfl rfl

theorem masked_key (h : Masked password model) (event : Key) (nowMs : ℕ) :
    Masked password (key towupper model event nowMs).2 := by
  rw [key]
  split
  · exact h
  split
  · have hconsumed : Masked password { model with field := setConsumed model.field event false } :=
      h.frame rfl rfl rfl
    exact masked_finish (masked_releaseKey hconsumed event nowMs)
  split
  · exact h
  · have hpress := @masked_pressKey towupper password model h event nowMs
    refine masked_finish ?_
    split
    · exact hpress.frame rfl rfl rfl
    · exact hpress

theorem masked_setText (h : Masked password model) (text : List UInt8) :
    Masked password (setText towupper model text).2 := by
  simp only [setText]
  split
  · exact h
  · split
    · exact h
    · refine masked_finish (h.frame rfl rfl ?_)
      simp only [useSeparator_eq]
      exact (edited_reserve model.field text.length).password

theorem masked_setType (h : Masked password model) (type : Option FieldType) (separator : UInt8) :
    Masked password (setType towupper model type separator).2 := by
  have hcommit := @masked_commitPending towupper password model h
  cases type with
  | none => exact h
  | some type =>
    simp only [setType]
    split
    · exact h
    · split
      · exact masked_finish hcommit
      · have hselect : Masked password
            (selectType (commitPending towupper model) type separator) := by
          refine ⟨(hcommit.input.resetMode (type ≠ .any)).frame rfl rfl, ?_⟩
          simp only [selectType, useSeparator_eq]
          exact hcommit.field
        exact masked_finish hselect

theorem masked_setFocused (h : Masked password model) (focused : Bool) :
    Masked password (setFocused towupper model focused) := by
  have hstop := @masked_stopInput towupper password model h
  simp only [setFocused]
  split
  · exact h
  · split
    · exact masked_finish (hstop.frame rfl rfl rfl)
    · exact masked_finish (h.frame rfl rfl rfl)

theorem masked_setReadOnly (h : Masked password model) (readOnly : Bool) :
    Masked password (setReadOnly towupper model readOnly) := by
  have hstop := @masked_stopInput towupper password model h
  simp only [setReadOnly]
  split
  · exact h
  · split
    · exact masked_finish (hstop.frame rfl rfl rfl)
    · exact masked_finish (h.frame rfl rfl rfl)

/-! ### Every operation -/

/-- The sentence case is off in a password and may be on elsewhere. -/
def CaseKept (model : Model) : Prop := Cased (!model.field.password) model.input

theorem Masked.kept (h : Masked password model) : CaseKept model := by
  rw [CaseKept, h.field]
  exact h.input

theorem caseKept_init (multiline : Bool) (limit : ℕ) (directory : Option Language.Directory)
    (inputLanguage : Option (List UInt8)) :
    CaseKept (init multiline limit directory inputLanguage) :=
  ⟨rfl, fun _ => rfl⟩

theorem caseKept_apply (h : CaseKept model) (op : Op) : CaseKept (apply towupper model op) := by
  have hmodel : Masked model.field.password model := ⟨h, rfl⟩
  cases op with
  | key event nowMs => exact (masked_key hmodel event nowMs).kept
  | tick nowMs => exact (masked_finish (masked_runDeadlines hmodel nowMs)).kept
  | cancelHeld =>
    have hdrop : Masked model.field.password ⟨TextInput.cancelHeld model.input,
        { model.field with
          dirty := if model.input.pickerOpen then true else model.field.dirty
          phoneZeroHeld := false }⟩ := hmodel.frame rfl rfl rfl
    exact (masked_finish hdrop).kept
  | setText text => exact (masked_setText hmodel text).kept
  | setType type separator => exact (masked_setType hmodel type separator).kept
  | setPassword password =>
    rw [apply, setPassword]
    split
    · exact h
    · refine (@masked_finish towupper password _ ⟨?_, rfl⟩).kept
      exact TextInput.cased_setSentenceCase model.input (!password)
  | setFocused focused => exact (masked_setFocused hmodel focused).kept
  | cancelPicker =>
    rw [apply, cancelPicker]
    split
    · exact h
    · exact (masked_finish (masked_closePicker hmodel false)).kept
  | setPickerColumns columns => exact h.frame rfl rfl
  | setReadOnly readOnly => exact (masked_setReadOnly hmodel readOnly).kept
  | setCaret index =>
    exact (masked_finish ((masked_commitPending hmodel).edit (edited_moveCursor _ _))).kept

/-- **No letter starts a sentence in a password**, in every run. -/
theorem caseKept_of_reachable (h : (machine towupper).Reachable model) : CaseKept model := by
  refine h.invariant (P := CaseKept) ?_ ?_
  · rintro _ ⟨multiline, limit, directory, inputLanguage, rfl⟩
    exact caseKept_init multiline limit directory inputLanguage
  · rintro before op _ hkept ⟨-, rfl⟩
    exact caseKept_apply hkept op

/-! ### What is seen -/

/-- The pending character in the case of the mode, which is committed as it is. -/
def pendingCharacter (towupper : ℕ → ℕ) (model : Model) : Option ℕ :=
  if model.input.compose.pending then
    some (TextInput.applyCase towupper model.input (Multitap.candidate model.input.compose)
      (startsSentence model.field))
  else none

/-- As many committed characters before and after the cursor, and the same pending
character or none. -/
structure Alike (towupper : ℕ → ℕ) (model other : Model) : Prop where
  before : countCharacters (model.field.text.take model.field.cursor) =
    countCharacters (other.field.text.take other.field.cursor)
  after : countCharacters (model.field.text.drop model.field.cursor) =
    countCharacters (other.field.text.drop other.field.cursor)
  pending : pendingCharacter towupper model = pendingCharacter towupper other

theorem pendingBytes_eq (model : Model) : pendingBytes towupper model =
    ((pendingCharacter towupper model).map TextInput.encodeUtf8).getD [] := by
  rw [pendingBytes, pendingCharacter]
  split
  · rfl
  · rfl

theorem pendingCharacter_of_caseKept (h : CaseKept model) (hpassword : model.field.password = true)
    (field : Field) :
    pendingCharacter towupper ⟨model.input, field⟩ = pendingCharacter towupper model := by
  have hcase : model.input.letterCase ≠ .sentence := by
    intro hsentence
    have hallowed := h.letterCase hsentence
    rw [hpassword] at hallowed
    exact Bool.false_ne_true hallowed
  simp only [pendingCharacter, TextInput.applyCase, hcase, false_and, or_false]

theorem view_of_password (hupper : Uppercases towupper) (h : (machine towupper).Reachable model)
    (hpassword : model.field.password = true) :
    view model = putBullets (countCharacters (model.field.text.take model.field.cursor)) ++
      pendingBytes towupper model ++
        putBullets (countCharacters (model.field.text.drop model.field.cursor)) := by
  have hcontent := (kept_of_reachable hupper h).sound.content
  have hsplit := congrArg countCharacters
    (List.take_append_drop model.field.cursor model.field.text)
  rw [countCharacters_append, hcontent.countCharacters] at hsplit
  have hafter : countCharacters (model.field.text.drop model.field.cursor) =
      model.field.characters - countCharacters (model.field.text.take model.field.cursor) := by
    omega
  rw [view_of_reachable hupper h, if_pos hpassword, dotted, hafter]

theorem decodes_putBullets (count : ℕ) :
    Decodes (putBullets count) (List.replicate count 0x2022) := by
  have hbullet : bullet = TextInput.encodeUtf8 0x2022 := by decide
  induction count with
  | zero => exact .nil
  | succ count ih =>
    rw [putBullets, List.replicate_succ, List.flatten_cons, List.replicate_succ, hbullet]
    exact .cons (TextInput.encodes_encodeUtf8 ⟨by omega, by omega⟩) ih

theorem decodes_pendingBytes (hupper : Uppercases towupper) (hsound : Sound model) :
    Decodes (pendingBytes towupper model) (pendingCharacter towupper model).toList := by
  rw [pendingBytes_eq, pendingCharacter]
  split
  · rename_i hpending
    have hprintable := printable_applyCase hupper model.input (printable_candidate hsound hpending)
      (startsSentence model.field)
    have hone := Decodes.cons (TextInput.encodes_encodeUtf8 hprintable.scalar) .nil
    rwa [List.append_nil] at hone
  · exact .nil

/-- **A password reveals only counts.**  Two reachable password models that are alike
show the same string.  The string of one has a code point for each committed
character and one for the pending character, which stands at the index that
`pending` gives; and which character is pending does not depend on the text. -/
theorem password_reveals_counts (hupper : Uppercases towupper) {model : Model}
    (h : (machine towupper).Reachable model) (hpassword : model.field.password = true) :
    (∀ other, (machine towupper).Reachable other → other.field.password = true →
      Alike towupper model other → view model = view other) ∧
    (∀ field, pendingCharacter towupper ⟨model.input, field⟩ = pendingCharacter towupper model) ∧
    ∃ values, Decodes (view model) values ∧
      values.length = model.field.characters + (if model.input.compose.pending then 1 else 0) ∧
      ∀ index, pending model = some index → values[index]? = pendingCharacter towupper model := by
  have hsound := (kept_of_reachable hupper h).sound
  refine ⟨fun other hother hotherPassword halike => ?_,
    pendingCharacter_of_caseKept (caseKept_of_reachable h) hpassword, ?_⟩
  · rw [view_of_password hupper h hpassword, view_of_password hupper hother hotherPassword,
      pendingBytes_eq, pendingBytes_eq, halike.before, halike.after, halike.pending]
  · have hdec := ((decodes_putBullets
      (countCharacters (model.field.text.take model.field.cursor))).append
        (decodes_pendingBytes hupper hsound)).append
          (decodes_putBullets (countCharacters (model.field.text.drop model.field.cursor)))
    rw [← view_of_password hupper h hpassword] at hdec
    have hsplit := congrArg countCharacters
      (List.take_append_drop model.field.cursor model.field.text)
    rw [countCharacters_append, hsound.content.countCharacters] at hsplit
    refine ⟨_, hdec, ?_, fun index hindex => ?_⟩
    · have hone : (pendingCharacter towupper model).toList.length =
          if model.input.compose.pending then 1 else 0 := by
        rw [pendingCharacter]
        split
        · rfl
        · rfl
      rw [List.length_append, List.length_append, List.length_replicate, List.length_replicate, hone]
      omega
    · rw [pending] at hindex
      split at hindex
      · rename_i hpending
        -- The dots before the cursor come first.
        obtain rfl := Option.some.inj hindex
        rw [pendingCharacter, if_pos hpending, List.append_assoc,
          List.getElem?_append_right (by simp)]
        simp
      · simp at hindex

end

/-! ### A run -/

/-- Key 2 in an empty password field. -/
def typedSecret : Model :=
  apply asciiUpper (apply asciiUpper (init false 4 none none) (.setPassword true))
    (.key (phonePress (keyNumeric0 + 2)) 0)

theorem reachable_typedSecret : (machine asciiUpper).Reachable typedSecret := by
  have hvalid : (Op.setPassword true).Valid := trivial
  exact ((reachable_init asciiUpper false 4 none none).step ⟨hvalid, rfl⟩).step
    ⟨valid_phonePress (keyNumeric0 + 2) 0, rfl⟩

/-- The letter is readable, and it would be the same letter in any text. -/
theorem password_reveals_letter :
    view typedSecret = ascii "a" ∧
      ∀ field, pendingCharacter asciiUpper ⟨typedSecret.input, field⟩ = some 97 := by
  have hpassword : typedSecret.field.password = true := by decide +kernel
  have hletter : pendingCharacter asciiUpper typedSecret = some 97 := by decide +kernel
  refine ⟨by decide +kernel, fun field => ?_⟩
  rw [← hletter]
  exact (password_reveals_counts uppercases_asciiUpper reachable_typedSecret hpassword).2.1 field

end TextModel
