/-
What a text field shows is what it commits (`fplinux-ui-text-model.c`).

The display of a pending character and its emission compute its case apart from
each other.  `settle` is the model with the pending character in the text exactly
where and as the display shows it.  An operation that commits the character
(`Commits`) does to a reachable model what it does to the settled one, whatever
else it goes on to do to the text; the phone's Right key, which stops after the
commit, just settles it.

Main results:
- `commit_settle`: the input's own commit settles the model;
- `zeroFree_of_reachable`: no typed 0 waits for its `+` beside a pending character;
- `commits_as_shown`: the theorem over runs.
-/
import Fplinux.Ui.TextInvariant

namespace TextModel

open Bytes (byte ascii)
open InputCodes
open Language (Printable)
open TextBoundary
open TextInput (Gesture commit commitMs controlAction controlAction_eq controlMode holdDigit
  holdMs press release tickClear tickCompose tickControl unlessBlocked)
open Utf8 (Decodes)

/-! ### The settled model -/

/-- The display becomes the text; the buffers grow as `reserve` makes them. -/
def settleField (field : Field) : Field :=
  { field with
    text := field.display
    length := field.display.length
    cursor := field.cursor + (field.display.length - field.length)
    characters := field.characters + 1
    capacity :=
      if field.display.length < field.capacity then field.capacity
      else if field.capacity * 2 ≤ field.display.length then field.display.length + 1
      else field.capacity * 2
    dirty := true }

/-- Nothing is composed any more. -/
def settleInput (input : TextInput.State) : TextInput.State :=
  { input with compose := Multitap.cancel input.compose, heldDigit := 0 }

/-- The pending character is in the text as it is displayed. -/
def settle (model : Model) : Model := ⟨settleInput model.input, settleField model.field⟩

theorem settleField_dirty (field : Field) : (settleField field).dirty = true := rfl

theorem not_pending_settle (model : Model) : (settle model).input.compose.pending = false := rfl

section

variable {towupper : ℕ → ℕ}

/-- A pending character that is displayed and has room in the text. -/
structure Showing (towupper : ℕ → ℕ) (model : Model) : Prop where
  pending : model.input.compose.pending = true
  room : fits model.field (model.field.characters + 1) = true
  length : model.field.text.length = model.field.length
  single : countCharacters (pendingBytes towupper model) = 1
  display : model.field.display = shown towupper model

variable {field : Field} {input : TextInput.State} {model : Model} {code nowMs : ℕ} {event : Key}
  {op : Op}

theorem Showing.frame (h : Showing towupper model) (hcompose : input.compose = model.input.compose)
    (hnumeric : input.numeric = model.input.numeric)
    (hcase : input.letterCase = model.input.letterCase) (hfield : field = { model.field with
      consumed := field.consumed
      phoneZeroHeld := field.phoneZeroHeld
      dirty := field.dirty }) :
    Showing towupper ⟨input, field⟩ := by
  obtain ⟨hpending, hroom, hlength, hsingle, hdisplay⟩ := h
  rw [hfield]
  have hbytes : pendingBytes towupper ⟨input, { model.field with
      consumed := field.consumed
      phoneZeroHeld := field.phoneZeroHeld
      dirty := field.dirty }⟩ = pendingBytes towupper model := by
    simp only [pendingBytes, casedBytes, hcompose]
    rw [applyCase_congr hnumeric hcase]
    rfl
  exact ⟨hcompose ▸ hpending, hroom, hlength, hbytes ▸ hsingle, by
    rw [shown, hbytes]
    exact hdisplay⟩

theorem printable_candidate (h : Sound model) (hpending : model.input.compose.pending = true) :
    Printable (Multitap.candidate model.input.compose) := by
  have hchar := h.input.compose.candidate hpending
  cases htype : model.field.type with
  | any =>
    rw [htype] at hchar
    exact hchar
  | numeric | decimal =>
    rw [htype] at hchar
    exact hchar.elim
  | phone =>
    rw [htype] at hchar
    have hall : ∀ value ∈ [42, 43, 112, 119], (value ≤ 0x10ffff ∧
        ¬ (0xd800 ≤ value ∧ value ≤ 0xdfff)) ∧ 0x20 ≤ value ∧ ¬ (0x7f ≤ value ∧ value ≤ 0x9f) := by
      decide
    obtain ⟨hscalar, hge, hcontrol⟩ := hall _ hchar
    exact ⟨hscalar, hge, hcontrol⟩

/-- **A kept model** shows its pending character. -/
theorem Kept.showing (hupper : Uppercases towupper) (h : Kept towupper model)
    (hpending : model.input.compose.pending = true) : Showing towupper model := by
  obtain ⟨hsound, -, hrefreshed⟩ := h
  have hprintable := printable_applyCase hupper model.input (printable_candidate hsound hpending)
    (startsSentence model.field)
  have henc := TextInput.encodes_encodeUtf8 hprintable.scalar
  have hdec := Decodes.cons henc .nil
  rw [List.append_nil] at hdec
  have hbytes : pendingBytes towupper model = TextInput.encodeUtf8 (TextInput.applyCase towupper
      model.input (Multitap.candidate model.input.compose) (startsSentence model.field)) := by
    rw [pendingBytes, if_pos hpending]
    rfl
  refine ⟨hpending, hsound.room hpending, hsound.content.length, ?_, hrefreshed.display⟩
  rw [hbytes, countCharacters_eq hdec]
  rfl

theorem insertBytes_pending (h : Showing towupper model) :
    insertBytes model.field (pendingBytes towupper model) = (true, settleField model.field) := by
  obtain ⟨-, hroom, hlength, hsingle, hdisplay⟩ := h
  have hsize : model.field.display.length =
      model.field.length + (pendingBytes towupper model).length := by
    have htake := congrArg List.length (List.take_append_drop model.field.cursor model.field.text)
    rw [List.length_append, hlength] at htake
    rw [hdisplay, shown, List.length_append, List.length_append]
    omega
  rw [insertBytes_eq (hsingle.symm ▸ hroom), settleField, hsize, Nat.add_sub_cancel_left, hsingle,
    hdisplay]
  have hcapacity : (reserve model.field
      (model.field.length + (pendingBytes towupper model).length)).capacity =
        if model.field.length + (pendingBytes towupper model).length < model.field.capacity then
          model.field.capacity
        else if model.field.capacity * 2 ≤
            model.field.length + (pendingBytes towupper model).length then
          model.field.length + (pendingBytes towupper model).length + 1
        else model.field.capacity * 2 := by
    rw [reserve]
    split
    · rfl
    · rfl
  rw [hcapacity]
  rfl

/-- **Committing settles the model.** -/
theorem commit_settle (h : Showing towupper model) :
    commit (emitCharacter towupper) model.input model.field =
      (.committed, settleInput model.input, settleField model.field) := by
  have hemit : emitCharacter towupper model.input model.field
      (Multitap.candidate model.input.compose) = (.accepted, settleField model.field) := by
    have hbytes : casedBytes towupper model.input model.field
        (Multitap.candidate model.input.compose) = pendingBytes towupper model := by
      rw [pendingBytes, if_pos h.pending]
    rw [emitCharacter, hbytes, insertBytes_pending h]
    rfl
  have hcommit : Multitap.commit (emitCharacter towupper model.input) model.input.compose
      model.field = (.committed, Multitap.cancel model.input.compose, settleField model.field) := by
    rw [Multitap.commit, Multitap.emitPending, if_pos h.pending, hemit]
  rw [commit, hcommit]
  rfl

theorem commit_settled (input : TextInput.State) (field : Field) :
    commit (emitCharacter towupper) (settleInput input) field =
      (.pending, settleInput input, field) := by
  have hcommit : Multitap.commit (emitCharacter towupper (settleInput input))
      (settleInput input).compose field = (.pending, (settleInput input).compose, field) :=
    Multitap.emitPending_of_not_pending rfl field
  rw [commit, hcommit]
  rfl

theorem commitPending_settle (h : Showing towupper model) :
    commitPending towupper model = commitPending towupper (settle model) := by
  have hdrop : Showing towupper
      ⟨TextInput.cancelHeld model.input, { model.field with phoneZeroHeld := false }⟩ :=
    h.frame rfl rfl rfl rfl
  have hcommit := commit_settle hdrop
  have hpending : (TextInput.cancelHeld model.input).compose.pending = true := h.pending
  rw [commitPending_of_not_pending (not_pending_settle model)]
  simp only [commitPending, hpending, Bool.not_true, Bool.false_eq_true, if_false]
  dsimp only at hcommit
  rw [hcommit]
  rfl

/-! ### Phone keys -/

theorem phoneCommand_settle (h : Showing towupper model) (hcode : code ≠ keyRight) (nowMs : ℕ) :
    phoneCommand towupper model code nowMs = phoneCommand towupper (settle model) code nowMs := by
  simp only [phoneCommand, commitPending_settle h, if_neg hcode]

/-- **Right** only commits. -/
theorem phoneCommand_right (h : Showing towupper model) (nowMs : ℕ) :
    phoneCommand towupper model keyRight nowMs =
      (.consumed, commitPending towupper (settle model)) := by
  have hpound : keyRight ≠ keyNumericPound := by decide
  have hstar : keyRight ≠ keyNumericStar := by decide
  have hleft : keyRight ≠ keyLeft := by decide
  simp only [phoneCommand, h.pending, if_neg hpound, if_neg hstar, if_neg hleft, if_true,
    commitPending_settle h]

theorem typeDigit_settle (h : Showing towupper model) (code digit nowMs : ℕ) :
    typeDigit towupper model code digit nowMs =
      typeDigit towupper (settle model) code digit nowMs := by
  simp only [typeDigit, commitPending_settle h]

/-- A press that starts another cycle while a character is pending. -/
def Starts (state : Multitap.State) (key elapsedMs : ℕ) : Prop :=
  (∃ characters, Multitap.charactersFor state key = some characters ∧ characters ≠ []) ∧
    ¬ (state.key = key ∧ elapsedMs < state.timeoutMs)

/-- A cycle at its first character. -/
def started (state : Multitap.State) (key : ℕ) : Multitap.State :=
  { Multitap.cancel state with key := key, pending := true }

theorem compose_starts {model : Model} (h : Showing towupper model) {key nowMs : ℕ}
    (hstarts : Starts model.input.compose key (TextInput.elapsedMs model.input nowMs)) :
    TextInput.compose (emitCharacter towupper) model.input key nowMs model.field =
      (.committed,
        { model.input with compose := started model.input.compose key, composeMs := nowMs },
        settleField model.field) := by
  obtain ⟨⟨characters, hfor, hne⟩, hother⟩ := hstarts
  have hemit : Multitap.emitPending (emitCharacter towupper model.input) model.input.compose
      model.field = (.committed, Multitap.cancel model.input.compose, settleField model.field) := by
    have hsettle := commit_settle h
    simp only [commit, Multitap.commit] at hsettle
    have hresult := congrArg (fun x : Multitap.Result × TextInput.State × Field => x.1) hsettle
    have hfield := congrArg (fun x : Multitap.Result × TextInput.State × Field => x.2.2) hsettle
    have hstate : (Multitap.emitPending (emitCharacter towupper model.input) model.input.compose
        model.field).2.1 = Multitap.cancel model.input.compose :=
      Multitap.emitPending_committed (Prod.ext hresult rfl)
    exact Prod.ext hresult (Prod.ext hstate hfield)
  have hpress : Multitap.press (emitCharacter towupper model.input) model.input.compose key
      (TextInput.elapsedMs model.input nowMs) model.field =
        (.committed, started model.input.compose key, settleField model.field) := by
    simp only [Multitap.press, hfor, if_neg hne, h.pending, if_true, hemit]
    rw [if_neg fun hsame => hother hsame.2]
    rfl
  simp only [TextInput.compose, hpress]
  rfl

theorem compose_settled {input : TextInput.State} {key nowMs : ℕ}
    (hstarts : Starts input.compose key (TextInput.elapsedMs input nowMs)) (field : Field) :
    TextInput.compose (emitCharacter towupper) (settleInput input) key nowMs field =
      (.pending,
        { settleInput input with compose := started input.compose key, composeMs := nowMs },
        field) := by
  obtain ⟨⟨characters, hfor, hne⟩, -⟩ := hstarts
  have hsettled : Multitap.charactersFor (settleInput input).compose key = some characters := hfor
  have hpress : Multitap.press (emitCharacter towupper (settleInput input))
      (settleInput input).compose key (TextInput.elapsedMs (settleInput input) nowMs) field =
        (.pending, started input.compose key, field) := by
    simp only [Multitap.press, hsettled, if_neg hne]
    rfl
  simp only [TextInput.compose, hpress]
  rfl

theorem press_letter {next : TextInput.State} {key : ℕ} {after : Field} {result : Multitap.Result}
    (hkey : Multitap.handles key = true) (hnumeric : input.numeric = false)
    (hcompose : TextInput.compose (emitCharacter towupper) { input with heldControl := 0 } key nowMs
      field = (result, next, after)) (hresult : result ≠ .blocked)
    (hpending : next.compose.pending = true) :
    (press (emitCharacter towupper) input key nowMs field).2 =
      ({ next with heldDigit := key, heldMs := nowMs }, after) := by
  have hcontrol : ¬ (key = 35 ∨ key = 42) := by
    rw [Multitap.handles, decide_eq_true_eq] at hkey
    omega
  rw [press, if_neg hcontrol, if_neg (by simp [hkey])]
  dsimp only
  rw [if_neg (by simp [hnumeric]), hcompose, if_pos ⟨hresult, hpending⟩]

/-- **Another digit** while a character is pending. -/
theorem pressDigit_settle (h : Showing towupper model) {key : ℕ}
    (hkey : Multitap.handles key = true) (hnumeric : model.input.numeric = false)
    (hstarts : Starts model.input.compose key (TextInput.elapsedMs model.input nowMs)) :
    pressMultitap towupper model key nowMs true =
      pressMultitap towupper (settle model) key nowMs true := by
  have hidle : Showing towupper ⟨{ model.input with heldControl := 0 }, model.field⟩ :=
    h.frame rfl rfl rfl rfl
  have hcompose := @compose_starts towupper ⟨{ model.input with heldControl := 0 }, model.field⟩
    hidle _ _ hstarts
  have hsettled := @compose_settled towupper { model.input with heldControl := 0 } _ _ hstarts
    (settleField model.field)
  have hpress := press_letter hkey hnumeric hcompose (by simp) rfl
  have hsettledNumeric : (settleInput model.input).numeric = false := hnumeric
  have hpressed := press_letter hkey hsettledNumeric hsettled (by simp) rfl
  simp only [pressMultitap, if_true, settle, hpress, hpressed]
  rfl

/-- **The `*`** of a PHONE field past the commit timeout. -/
theorem pressStar_settle (h : Showing towupper model) (hheld : model.input.heldDigit = 0)
    (hstarts : Starts model.input.compose 48 (TextInput.elapsedMs model.input nowMs)) :
    pressMultitap towupper model 48 nowMs false =
      pressMultitap towupper (settle model) 48 nowMs false := by
  have hcompose := compose_starts h hstarts
  have hsettled := @compose_settled towupper _ _ _ hstarts (settleField model.field)
  simp only [pressMultitap, Bool.false_eq_true, if_false, settle, hcompose, hsettled]
  have hsame : { settleInput model.input with
      compose := started model.input.compose 48
      composeMs := nowMs } = { model.input with
        compose := started model.input.compose 48
        composeMs := nowMs } := by
    rw [settleInput, ← hheld]
  rw [hsame]

/-! ### Deadlines and mode keys -/

theorem controlMode_clearing (input : TextInput.State) :
    (controlMode input).clearing = input.clearing := by
  rw [controlMode]
  split
  · split
    · rfl
    · split
      · rfl
      · rfl
  · rfl

/-- **A mode key** that is let go or held long enough commits, then changes the mode. -/
theorem controlAction_settle (hupper : Uppercases towupper) (h : Showing towupper model)
    (gesture : Gesture) :
    ∃ next : TextInput.State,
      (next.compose.pending = false ∧ next.clearing = model.input.clearing) ∧
      (controlAction (emitCharacter towupper)
          { model.input with controlGesture := gesture } model.field).2 =
        (next, settleField model.field) ∧
      (controlAction (emitCharacter towupper)
          { settleInput model.input with controlGesture := gesture } (settleField model.field)).2 =
        (next, settleField model.field) := by
  have hgesture : Showing towupper ⟨{ model.input with controlGesture := gesture }, model.field⟩ :=
    h.frame rfl rfl rfl rfl
  have hcommit := commit_settle hgesture
  have hsame : { settleInput model.input with controlGesture := gesture } =
      settleInput { model.input with controlGesture := gesture } := rfl
  dsimp only at hcommit
  rw [controlAction_eq (emits hupper model.field.type),
    controlAction_eq (emits hupper model.field.type), hcommit, hsame, commit_settled]
  refine ⟨_, ?_, rfl, rfl⟩
  dsimp only
  split
  · exact ⟨rfl, rfl⟩
  · exact ⟨TextInput.not_pending_controlMode rfl, controlMode_clearing _⟩

theorem controlAction_ne_blocked (hupper : Uppercases towupper) (type : FieldType)
    (input : TextInput.State) (field : Field) :
    (controlAction (emitCharacter towupper) input field).1 ≠ .blocked := by
  have hcommit := TextInput.commit_ne_blocked (emits hupper type) input field
  rw [controlAction]
  split
  · exact hcommit
  · simp only [hcommit, if_false]
    exact hcommit

theorem tick_rest {last : Multitap.Result × TextInput.State × Field} (hlast : last.1 ≠ .blocked)
    (hpending : last.2.1.compose.pending = false) (nowMs : ℕ) :
    (unlessBlocked (unlessBlocked last
        (tickCompose (emitCharacter towupper) nowMs))
      (tickClear eraseCharacter nowMs)).2 =
        (tickClear eraseCharacter nowMs .pending last.2.1 last.2.2).2 := by
  have hcompose : tickCompose (emitCharacter towupper) nowMs last.1 last.2.1 last.2.2 =
      last := by
    rw [tickCompose, if_neg fun hdue => by simp [hpending] at hdue]
  have hfirst : unlessBlocked last
      (tickCompose (emitCharacter towupper) nowMs) = last := by
    rw [unlessBlocked, if_neg hlast, hcompose]
  rw [hfirst, unlessBlocked, if_neg hlast]
  simp only [tickClear]
  split
  · split
    · rfl
    · rfl
  · rfl

/-- A tick commits: no digit is held, and a mode key or the commit timeout is due.
While a digit key is held its hold deadline stands in for the commit timeout. -/
def TickCommits (input : TextInput.State) (nowMs : ℕ) : Prop :=
  input.heldDigit = 0 ∧
    ((input.heldControl ≠ 0 ∧ nowMs ≥ Word.add 64 input.controlMs holdMs) ∨
      nowMs ≥ Word.add 64 input.composeMs commitMs)

/-- **A tick** that commits goes on from the settled state, with nothing pending. -/
theorem tick_settle (hupper : Uppercases towupper) (h : Showing towupper model)
    (hdue : TickCommits model.input nowMs) :
    ∃ next : TextInput.State,
      (next.compose.pending = false ∧ next.clearing = model.input.clearing) ∧
      (TextInput.tick (emitCharacter towupper) eraseCharacter model.input nowMs model.field).2 =
        (tickClear eraseCharacter nowMs .pending next (settleField model.field)).2 ∧
      (TextInput.tick (emitCharacter towupper) eraseCharacter (settleInput model.input) nowMs
          (settleField model.field)).2 =
        (tickClear eraseCharacter nowMs .pending next (settleField model.field)).2 := by
  obtain ⟨hheld, hdue⟩ := hdue
  have hhold : holdDigit (emitCharacter towupper) model.input nowMs model.field =
      (.pending, model.input, model.field) := by
    rw [holdDigit, if_pos (.inl hheld)]
  have hholdSettled : holdDigit (emitCharacter towupper) (settleInput model.input) nowMs
      (settleField model.field) = (.pending, settleInput model.input, settleField model.field) := by
    rw [holdDigit, if_pos (.inl rfl)]
  simp only [TextInput.tick, hhold, hholdSettled]
  have hidle : ∀ (input : TextInput.State) (field : Field)
      (step : Multitap.Result → TextInput.State → Field →
        Multitap.Result × TextInput.State × Field),
      unlessBlocked (.pending, input, field) step = step .pending input field :=
    fun _ _ _ => if_neg (by simp)
  rw [hidle, hidle]
  by_cases hcontrol :
      model.input.heldControl ≠ 0 ∧ nowMs ≥ Word.add 64 model.input.controlMs holdMs
  · -- The mode key commits first, before it changes the mode or the language.
    have hsettled : (settleInput model.input).heldControl ≠ 0 ∧
        nowMs ≥ Word.add 64 (settleInput model.input).controlMs holdMs := hcontrol
    rw [tickControl, if_pos hcontrol, tickControl, if_pos hsettled]
    obtain ⟨next, hclosed, haction, hactionSettled⟩ := controlAction_settle hupper h
      (if model.input.controlGesture = .undecided then .hold else model.input.controlGesture)
    have hlast := controlAction_ne_blocked hupper model.field.type
    refine ⟨next, hclosed, (tick_rest (hlast _ _) ?_ nowMs).trans ?_,
      (tick_rest (hlast _ _) ?_ nowMs).trans ?_⟩
    · rw [haction]
      exact hclosed.1
    · rw [haction]
    · exact (congrArg (fun last => last.1.compose.pending) hactionSettled).trans hclosed.1
    · exact congrArg
        (fun last => (tickClear eraseCharacter nowMs .pending last.1 last.2).2)
        hactionSettled
  · -- Nothing but the timeout is due.
    have hsettled : ¬ ((settleInput model.input).heldControl ≠ 0 ∧
        nowMs ≥ Word.add 64 (settleInput model.input).controlMs holdMs) := hcontrol
    have htime := hdue.resolve_left hcontrol
    rw [tickControl, if_neg hcontrol, tickControl, if_neg hsettled]
    refine ⟨settleInput model.input, ⟨rfl, rfl⟩, ?_, ?_⟩
    · have hcompose : tickCompose (emitCharacter towupper) nowMs .pending model.input
          model.field = (.committed, settleInput model.input, settleField model.field) := by
        rw [tickCompose, if_pos ⟨hheld, h.pending, htime⟩, commit_settle h]
      rw [hidle, hcompose, unlessBlocked, if_neg (by simp)]
      simp only [tickClear]
      split
      · split
        · rfl
        · rfl
      · rfl
    · rw [tick_rest (by simp) rfl]

theorem dirty_self (h : field.dirty = true) : { field with dirty := true } = field := by
  rw [← h]

theorem tickClear_settled {next : TextInput.State} (hclosed : next.compose.pending = false)
    (hdirty : field.dirty = true) (nowMs : ℕ) :
    (tickClear eraseCharacter nowMs .pending next field).2.2.dirty = true := by
  have herase : (eraseCharacter next field).2.2.dirty = true := by
    simp only [eraseCharacter, deleteBackward, hclosed, Bool.false_eq_true, if_false]
    split
    · rfl
    · exact hdirty
  rw [tickClear]
  split
  · split
    · rename_i heq
      rw [heq] at herase
      exact herase
    · rename_i heq
      rw [heq] at herase
      exact herase
  · exact hdirty

theorem holdPhoneZero_of_not_held (h : field.phoneZeroHeld = false) (nowMs : ℕ) :
    holdPhoneZero field nowMs = field := by
  rw [holdPhoneZero, if_pos (.inl (by simp [h]))]

theorem runDeadlines_eq (hzero : model.field.phoneZeroHeld = false) {last : TextInput.State × Field}
    (htick : (TextInput.tick (emitCharacter towupper) eraseCharacter model.input nowMs
      model.field).2 = last) (hdirty : last.2.dirty = true) :
    runDeadlines towupper model nowMs = ⟨last.1, last.2⟩ := by
  subst htick
  simp only [runDeadlines, holdPhoneZero_of_not_held hzero]
  split
  · rw [dirty_self hdirty]
  · rfl

theorem runDeadlines_settle (hupper : Uppercases towupper) (h : Showing towupper model)
    (hzero : model.field.phoneZeroHeld = false) (hdue : TickCommits model.input nowMs) :
    runDeadlines towupper model nowMs = runDeadlines towupper (settle model) nowMs := by
  obtain ⟨next, ⟨hclosed, -⟩, htick, hsettled⟩ := tick_settle hupper h hdue
  have hdirty := tickClear_settled hclosed (settleField_dirty model.field) nowMs
  have hfield : (settle model).field.phoneZeroHeld = false := hzero
  rw [runDeadlines_eq hzero htick hdirty, runDeadlines_eq hfield hsettled hdirty]

/-- The release of a `#` or `*` that is held. -/
def ReleaseCommits (model : Model) (code : ℕ) : Prop :=
  model.field.type = .any ∧
    ((code = keyNumericPound ∧ model.input.heldControl = 35) ∨
      (code = keyNumericStar ∧ model.input.heldControl = 42))

theorem releaseControl_eq (hcode : ReleaseCommits model code) {gesture : Gesture}
    (hgesture : gesture = if model.input.controlGesture = .undecided then
      if nowMs ≥ Word.add 64 model.input.controlMs holdMs then .hold else .tap
      else model.input.controlGesture) {last : TextInput.State × Field}
    (haction : (controlAction (emitCharacter towupper)
      { model.input with controlGesture := gesture } model.field).2 = last) :
    releaseControl towupper model code nowMs = ⟨last.1, { last.2 with dirty := true }⟩ := by
  have hheld : model.input.heldControl ≠ 0 ∧
      model.input.heldControl = if code = keyNumericPound then 35 else 42 := by
    have hkeys : keyNumericStar ≠ keyNumericPound := by decide
    rcases hcode.2 with ⟨rfl, hheld⟩ | ⟨rfl, hheld⟩
    · simp [hheld]
    · simp [hheld, hkeys]
  subst haction hgesture
  rw [releaseControl, if_pos (show model.field.type = .any ∧ _ from hcode), release,
    if_pos hheld]

theorem releaseControl_settle (hupper : Uppercases towupper) (h : Showing towupper model)
    (hcode : ReleaseCommits model code) (nowMs : ℕ) :
    releaseControl towupper model code nowMs = releaseControl towupper (settle model) code nowMs ∧
      (releaseControl towupper model code nowMs).input.compose.pending = false ∧
      (releaseControl towupper model code nowMs).field.dirty = true := by
  have hsettled : ReleaseCommits (settle model) code := hcode
  obtain ⟨next, ⟨hclosed, -⟩, haction, hactionSettled⟩ := controlAction_settle hupper h
    (if model.input.controlGesture = .undecided then
      if nowMs ≥ Word.add 64 model.input.controlMs holdMs then .hold else .tap
    else model.input.controlGesture)
  rw [releaseControl_eq hcode rfl haction,
    releaseControl_eq hsettled rfl hactionSettled]
  exact ⟨rfl, hclosed, rfl⟩

theorem releaseKey_settle (hupper : Uppercases towupper) (h : Showing towupper model)
    (hphone : event.keyboard = false) (hcode : ReleaseCommits model event.code) (nowMs : ℕ) :
    releaseKey towupper model event nowMs = releaseKey towupper (settle model) event nowMs := by
  obtain ⟨hsame, hclosed, hdirty⟩ := releaseControl_settle hupper h hcode nowMs
  have hnot : (settle model).input.compose.pending = false := rfl
  have hother : ¬ (keyNumeric0 ≤ event.code ∧ event.code ≤ keyNumeric9) ∧
      event.code ≠ keyNumeric0 ∧ event.code ≠ keyF14 := by
    rcases hcode.2 with ⟨heq, -⟩ | ⟨heq, -⟩
    · rw [heq]
      decide
    · rw [heq]
      decide
  simp only [releaseKey, hphone, Bool.false_eq_true, if_false, ← hsame, releaseDigit, hother.1,
    releaseZero, hother.2.1, releaseClear, hother.2.2, notePending, h.pending, hnot, hclosed]
  rw [if_pos (by simp), if_neg (by simp), dirty_self hdirty]

/-! ### A typed 0 does not wait beside a pending character -/

/-- The 0 that may become a `+` is not held while a character is pending. -/
def ZeroFree (model : Model) : Prop :=
  model.input.compose.pending = true → model.field.phoneZeroHeld = false

theorem zeroFree_of_not_pending (h : model.input.compose.pending = false) : ZeroFree model := by
  intro hpending
  rw [h] at hpending
  exact absurd hpending (by simp)

theorem ZeroFree.frame {after : Model} (h : ZeroFree model)
    (hpending : after.input.compose.pending = model.input.compose.pending)
    (hzero : after.field.phoneZeroHeld = model.field.phoneZeroHeld) : ZeroFree after := by
  intro hafter
  rw [hzero]
  exact h (hpending ▸ hafter)

theorem zeroFree_finish (h : ZeroFree model) : ZeroFree (finish towupper model) := by
  obtain ⟨capacity, masked, heq, -⟩ := @refreshDisplay_eq towupper model
  rw [finish]
  split
  · exact h
  · rw [heq]
    exact h.frame rfl rfl

theorem ZeroFree.keeps (h : ZeroFree model) {R : TextInput.Policy} {J : Field → Prop}
    (hkeeps : TextInput.Keeps R J model.input model.field input field) :
    ZeroFree ⟨input, field⟩ := by
  intro hpending
  obtain ⟨hcompose, hfield, -, -⟩ := hkeeps.pending hpending
  show field.phoneZeroHeld = false
  rw [hfield]
  exact h (hcompose ▸ hpending)

theorem zeroFree_closePicker (h : Sound model) (hopen : model.input.pickerOpen = true)
    (insert : Bool) :
    (closePicker towupper model insert).input.compose.pending = false := by
  have hpending := (h.input.picker hopen).1
  rw [closePicker]
  split
  · simp only [TextInput.selectSymbol]
    split
    · exact hpending
    · exact hpending
  · exact hpending

theorem zeroFree_keepFitting (h : model.field.phoneZeroHeld = false) :
    (keepFitting towupper model).2.field.phoneZeroHeld = false := by
  rw [keepFitting]
  split
  · rfl
  · rw [reserve_eq]
    exact h

/-- **A digit** of a letter mode, so of a field of ANY. -/
theorem zeroFree_pressDigit (hupper : Uppercases towupper) (h : Sound model)
    (htype : model.field.type = .any) (hclosed : model.input.pickerOpen = false) (key nowMs : ℕ) :
    ZeroFree (pressMultitap towupper model key nowMs true).2 := by
  have hfree : (policy model.field.type).free := by
    rw [htype]
    trivial
  obtain ⟨-, hfield⟩ := TextInput.press_keeps (emits hupper model.field.type) h.input hfree
    hclosed h.fieldOk key nowMs
  intro _
  refine zeroFree_keepFitting ?_
  cases hheld : (press (emitCharacter towupper) model.input key nowMs
      model.field).2.2.phoneZeroHeld with
  | false => exact hheld
  | true =>
    have hphone := (hfield.type.symm.trans (hfield.zero hheld)).symm.trans htype
    exact absurd hphone (by simp)

/-- **The `*`** of a PHONE field drops the hold itself. -/
theorem zeroFree_pressStar (h : Sound model) (htype : model.field.type = .phone)
    (hclosed : model.input.pickerOpen = false) (hzero : model.field.phoneZeroHeld = false)
    (nowMs : ℕ) :
    ZeroFree (pressMultitap towupper model 48 nowMs false).2 := by
  have hsome : ∃ value, (policy model.field.type).character value := by
    rw [htype]
    exact ⟨42, List.mem_cons_self⟩
  obtain ⟨-, hedited⟩ := TextInput.compose_keeps
    (emits_edited towupper (policy model.field.type) model.field) h.input hsome hclosed
    (.refl model.field) 48 nowMs
  intro _
  exact zeroFree_keepFitting (hedited.phoneZeroHeld.trans hzero)

theorem zeroFree_phoneKey (hupper : Uppercases towupper) (h : Sound model) (hfree : ZeroFree model)
    (code nowMs : ℕ) :
    ZeroFree (phoneKey towupper model code nowMs).2 := by
  have hsettled := (settled_commitPending hupper h).pending
  rw [phoneKey]
  split
  · rename_i hopen
    have hpending := (h.input.picker hopen).1
    refine zeroFree_of_not_pending ?_
    dsimp only [pickerPhoneKey]
    split
    · exact hpending
    · split
      · exact zeroFree_closePicker h hopen true
      · split
        · exact zeroFree_closePicker h hopen false
        · exact hpending
  rename_i hopen
  have hclosed : model.input.pickerOpen = false := by simpa using hopen
  split
  · have hkey : (if code = keyNumericPound then 35 else 42) = 35 ∨
        (if code = keyNumericPound then 35 else 42) = 42 := by
      split
      · exact .inl rfl
      · exact .inr rfl
    dsimp only
    rw [TextInput.press_control hkey]
    exact hfree.frame rfl rfl
  split
  · simp only
    split
    · rename_i hletters
      have htype := h.any_of_letters (by simpa using hletters)
      dsimp only
      exact zeroFree_pressDigit hupper h htype hclosed _ nowMs
    · refine zeroFree_of_not_pending ?_
      simp only [typeDigit]
      split
      · exact hsettled
      · split
        · exact hsettled
        · exact hsettled
  split
  · rename_i hstar
    have hsound : Sound ⟨{ model.input with heldDigit := 0 },
        { model.field with phoneZeroHeld := false }⟩ :=
      (h.setInput (h.input.setHeld 0 _ _ _ _) id).frame rfl (by simp)
    dsimp only
    exact zeroFree_pressStar hsound hstar.2 hclosed rfl nowMs
  split
  · simp only
    split
    · exact fun _ => rfl
    · have hdrop : ZeroFree ⟨TextInput.cancelHeld model.input,
          { model.field with phoneZeroHeld := false }⟩ := fun _ => rfl
      exact hdrop.keeps (TextInput.clearPress_keeps (erases model.field.type) h.dropHolds.input
        h.dropHolds.fieldOk nowMs)
  · refine zeroFree_of_not_pending ?_
    simp only [phoneCommand]
    split_ifs
    all_goals exact hsettled

theorem zeroFree_keyboardEdit (hupper : Uppercases towupper) (h : Sound model) (event : Key) :
    ZeroFree (keyboardEdit towupper model event).2 := by
  have hdrop : Sound { model with input := TextInput.cancelHeld model.input } :=
    h.setInput h.input.cancelHeld id
  have hsettled := (settled_commitPending hupper hdrop).pending
  simp only [keyboardEdit]
  split
  · split
    · exact fun _ => rfl
    · intro _
      simp only [deleteBackward]
      split
      · rfl
      · split
        · rfl
        · rfl
  · refine zeroFree_of_not_pending ?_
    simp only [keyboardCommand]
    split_ifs
    all_goals exact hsettled

theorem zeroFree_pressKey (hupper : Uppercases towupper) (h : Sound model) (hfree : ZeroFree model)
    (event : Key) (nowMs : ℕ) :
    ZeroFree (pressKey towupper model event nowMs).2 := by
  rw [pressKey]
  split
  · rw [keyboardKey]
    split
    · exact hfree
    split
    · rename_i hopen
      split
      · exact hfree.frame rfl rfl
      · split
        · exact zeroFree_of_not_pending (zeroFree_closePicker h hopen _)
        · exact zeroFree_keyboardEdit hupper (sound_closePicker hupper h hopen false) event
    · exact zeroFree_keyboardEdit hupper h event
  · exact zeroFree_phoneKey hupper h hfree event.code nowMs

theorem zeroFree_releaseKey (hupper : Uppercases towupper) (h : Sound model)
    (hfree : ZeroFree model) (event : Key) (nowMs : ℕ) :
    ZeroFree (releaseKey towupper model event nowMs) := by
  have hrelease : ∀ {other : Model} (key : ℕ), Sound other → ZeroFree other →
      ZeroFree ⟨(release (emitCharacter towupper) other.input key nowMs other.field).2.1,
        (release (emitCharacter towupper) other.input key nowMs other.field).2.2⟩ :=
    fun key hother hofree => hofree.keeps (TextInput.release_keeps (emits hupper _) hother.input
      hother.fieldOk key nowMs)
  have hcontrol : ZeroFree (releaseControl towupper model event.code nowMs) := by
    rw [releaseControl]
    split
    · exact (hrelease _ h hfree).frame rfl rfl
    · exact hfree
  have hdigit : ZeroFree (releaseDigit towupper
      (releaseControl towupper model event.code nowMs) event.code nowMs) := by
    rw [releaseDigit]
    split
    · exact hrelease _ (sound_releaseControl hupper h event.code nowMs) hcontrol
    · exact hcontrol
  have hzero : ∀ {other : Model} (code : ℕ), ZeroFree other →
      ZeroFree (releaseClear (releaseZero other code nowMs) code) := by
    intro other code hofree
    have hheld : ZeroFree (releaseZero other code nowMs) := by
      rw [releaseZero]
      split
      · exact fun _ => rfl
      · exact hofree
    rw [releaseClear]
    split
    · exact hheld.frame rfl rfl
    · exact hheld
  rw [releaseKey]
  split
  · exact hfree
  · simp only [notePending]
    split
    · exact (hzero event.code hdigit).frame rfl rfl
    · exact hzero event.code hdigit

theorem zeroFree_key (hupper : Uppercases towupper) (h : Sound model) (hfree : ZeroFree model)
    (event : Key) (nowMs : ℕ) :
    ZeroFree (key towupper model event nowMs).2 := by
  have hconsumed : Sound { model with field := setConsumed model.field event false } :=
    h.frame rfl id
  rw [key]
  split
  · exact hfree
  split
  · exact zeroFree_finish (zeroFree_releaseKey hupper hconsumed (hfree.frame rfl rfl) event nowMs)
  split
  · exact hfree
  · have hpress := zeroFree_pressKey hupper h hfree event nowMs
    refine zeroFree_finish ?_
    split
    · exact hpress.frame rfl rfl
    · exact hpress

theorem zeroFree_tick (hupper : Uppercases towupper) (h : Sound model) (hfree : ZeroFree model)
    (nowMs : ℕ) : ZeroFree (tick towupper model nowMs) := by
  obtain ⟨-, -, -, hheld⟩ := holdPhoneZero_frame model.field nowMs
  have hstart : ZeroFree { model with field := holdPhoneZero model.field nowMs } := by
    intro hpending
    cases hzero : (holdPhoneZero model.field nowMs).phoneZeroHeld with
    | false => rfl
    | true => exact absurd (hheld hzero) (by simp [hfree hpending])
  have hsound := sound_holdPhoneZero h nowMs
  have htick := hstart.keeps (TextInput.tick_keeps (emits hupper _) (erases _) hsound.input
    hsound.fieldOk nowMs)
  refine zeroFree_finish ?_
  simp only [runDeadlines]
  split
  · exact htick.frame rfl rfl
  · exact htick

/-- **Every operation** keeps the hold apart from a pending character. -/
theorem zeroFree_apply (hupper : Uppercases towupper) (h : Sound model) (hfree : ZeroFree model)
    (op : Op) : ZeroFree (apply towupper model op) := by
  have hsettled := (settled_commitPending hupper h).pending
  have hclosed : ∀ {after : Model}, after.input.compose.pending = false →
      ZeroFree (finish towupper after) :=
    fun hafter => zeroFree_finish (zeroFree_of_not_pending hafter)
  cases op with
  | key event nowMs => exact zeroFree_key hupper h hfree event nowMs
  | tick nowMs => exact zeroFree_tick hupper h hfree nowMs
  | cancelHeld => exact zeroFree_finish fun _ => rfl
  | setText text =>
    simp only [apply, setText]
    split
    · exact hfree
    · split
      · exact hfree
      · exact hclosed rfl
  | setType type separator =>
    simp only [apply, setType]
    cases type with
    | none => exact hfree
    | some type =>
      simp only
      split
      · exact hfree
      · split
        · exact hclosed hsettled
        · exact hclosed rfl
  | setPassword password =>
    simp only [apply, setPassword]
    split
    · exact hfree
    · exact zeroFree_finish (hfree.frame rfl rfl)
  | setFocused focused =>
    simp only [apply, setFocused]
    split
    · exact hfree
    · split
      · exact hclosed hsettled
      · exact zeroFree_finish (hfree.frame rfl rfl)
  | cancelPicker =>
    simp only [apply, cancelPicker]
    split
    · exact hfree
    · rename_i hopen
      exact hclosed (zeroFree_closePicker h (by simpa using hopen) false)
  | setPickerColumns columns => exact hfree.frame rfl rfl
  | setReadOnly readOnly =>
    simp only [apply, setReadOnly]
    split
    · exact hfree
    · split
      · exact hclosed hsettled
      · exact zeroFree_finish (hfree.frame rfl rfl)
  | setCaret index => exact hclosed hsettled

/-- **Every run.** -/
theorem zeroFree_of_reachable (hupper : Uppercases towupper)
    (h : (machine towupper).Reachable model) : ZeroFree model := by
  refine (h.invariant (P := fun model => Kept towupper model ∧ ZeroFree model) ?_ ?_).2
  · rintro _ ⟨multiline, limit, directory, inputLanguage, rfl⟩
    exact ⟨kept_init multiline limit directory inputLanguage, fun _ => rfl⟩
  · rintro before op _ ⟨hkept, hfree⟩ ⟨hop, rfl⟩
    exact ⟨kept_apply hupper hkept hop, zeroFree_apply hupper hkept.sound hfree op⟩

/-! ### Operations that commit -/

/-- A press that commits: a keyboard key other than a shortcut or Backspace; a
digit in numeric mode, or one that starts a cycle of its own; the `*` of a PHONE
field past the timeout; any other phone key but the mode keys and Clear. -/
def PressCommits (model : Model) (event : Key) (nowMs : ℕ) : Prop :=
  if event.keyboard then event.shortcut = false ∧ event.code ≠ keyBackspace
  else if keyNumeric0 ≤ event.code ∧ event.code ≤ keyNumeric9 then
    model.input.numeric = true ∨
      Starts model.input.compose (48 + (event.code - keyNumeric0))
        (TextInput.elapsedMs model.input nowMs)
  else if event.code = keyNumericStar ∧ model.field.type = .phone then
    Starts model.input.compose 48 (TextInput.elapsedMs model.input nowMs)
  else
    ¬ (model.field.type = .any ∧ (event.code = keyNumericPound ∨ event.code = keyNumericStar)) ∧
      event.code ≠ keyF14

/-- The operations that commit a pending character. -/
def Commits (model : Model) : Op → Prop
  | .key event nowMs =>
    model.field.focused = true ∧ event.code < keyCnt ∧
      if event.pressed then model.field.readOnly = false ∧ PressCommits model event nowMs
      else event.keyboard = false ∧ ReleaseCommits model event.code
  | .tick nowMs => TickCommits model.input nowMs
  | .setType (some type) separator =>
    ¬ (type = .decimal ∧ separator ≠ byte '.' ∧ separator ≠ byte ',')
  | .setFocused focused => focused = false ∧ model.field.focused = true
  | .setReadOnly readOnly => readOnly = true ∧ model.field.readOnly = false
  | .setCaret _ => True
  | _ => False

/-- A press of the phone's Right key. -/
def IsRight : Op → Prop
  | .key event _ => event.keyboard = false ∧ event.pressed = true ∧ event.code = keyRight
  | _ => False

theorem keyboardKey_settle (h : Showing towupper model) (hclosed : model.input.pickerOpen = false)
    (hplain : event.shortcut = false) (hcode : event.code ≠ keyBackspace) :
    keyboardKey towupper model event = keyboardKey towupper (settle model) event := by
  have hsettled : (settle model).input.pickerOpen = false := hclosed
  have hdrop : Showing towupper { model with input := TextInput.cancelHeld model.input } :=
    h.frame rfl rfl rfl rfl
  simp only [keyboardKey, hplain, hclosed, hsettled, Bool.false_eq_true, if_false, keyboardEdit,
    hcode, keyboardCommand, commitPending_settle hdrop]
  rfl

/-! The branches of `phoneKey` that commit, in a field whose picker is closed. -/

theorem phoneKey_digit (hclosed : model.input.pickerOpen = false)
    (hdigit : keyNumeric0 ≤ code ∧ code ≤ keyNumeric9) (nowMs : ℕ) :
    phoneKey towupper model code nowMs =
      if !model.input.numeric then
        (.consumed, (pressMultitap towupper model (48 + (code - keyNumeric0)) nowMs true).2)
      else (.consumed, typeDigit towupper model code (48 + (code - keyNumeric0)) nowMs) := by
  have hcontrol : ¬ (code = keyNumericPound ∨ code = keyNumericStar) := by
    rw [keyNumeric0, keyNumeric9] at hdigit
    rw [keyNumericPound, keyNumericStar]
    omega
  rw [phoneKey, if_neg (by simp [hclosed]), if_neg fun hmode => hcontrol hmode.2, if_pos hdigit]

theorem phoneKey_star (htype : model.field.type = .phone) (hclosed : model.input.pickerOpen = false)
    (nowMs : ℕ) :
    phoneKey towupper model keyNumericStar nowMs =
      (.consumed, (pressMultitap towupper ⟨{ model.input with heldDigit := 0 },
        { model.field with phoneZeroHeld := false }⟩ 48 nowMs false).2) := by
  have hdigit : ¬ (keyNumeric0 ≤ keyNumericStar ∧ keyNumericStar ≤ keyNumeric9) := by decide
  rw [phoneKey, if_neg (by simp [hclosed]), if_neg (by simp [htype]), if_neg hdigit,
    if_pos ⟨rfl, htype⟩]

theorem phoneKey_command (hclosed : model.input.pickerOpen = false)
    (hdigit : ¬ (keyNumeric0 ≤ code ∧ code ≤ keyNumeric9))
    (hstar : ¬ (code = keyNumericStar ∧ model.field.type = .phone))
    (hmode : ¬ (model.field.type = .any ∧ (code = keyNumericPound ∨ code = keyNumericStar)))
    (hclear : code ≠ keyF14) (nowMs : ℕ) :
    phoneKey towupper model code nowMs = phoneCommand towupper model code nowMs := by
  rw [phoneKey, if_neg (by simp [hclosed]), if_neg hmode, if_neg hdigit, if_neg hstar,
    if_neg hclear]

theorem phoneKey_settle (h : Showing towupper model) (hclosed : model.input.pickerOpen = false)
    (hphone : event.keyboard = false) (hcommits : PressCommits model event nowMs)
    (hright : event.code ≠ keyRight) :
    phoneKey towupper model event.code nowMs =
      phoneKey towupper (settle model) event.code nowMs := by
  have hsettled : (settle model).input.pickerOpen = false := hclosed
  have hmode : (settle model).input.numeric = model.input.numeric := rfl
  have htype : (settle model).field.type = model.field.type := rfl
  rw [PressCommits, if_neg (by simp [hphone])] at hcommits
  split at hcommits
  · rename_i hdigit
    rw [phoneKey_digit hclosed hdigit, phoneKey_digit hsettled hdigit, hmode]
    cases hnumeric : model.input.numeric with
    | true => simp only [Bool.not_true, Bool.false_eq_true, if_false, typeDigit_settle h]
    | false =>
      have hkey : Multitap.handles (48 + (event.code - keyNumeric0)) = true := by
        rw [keyNumeric0, keyNumeric9] at hdigit
        rw [Multitap.handles, decide_eq_true_eq, keyNumeric0]
        omega
      simp only [Bool.not_false, if_true,
        pressDigit_settle h hkey hnumeric (hcommits.resolve_left (by simp [hnumeric]))]
  · rename_i hdigit
    split at hcommits
    · rename_i hstar
      have hidle : Showing towupper ⟨{ model.input with heldDigit := 0 },
          { model.field with phoneZeroHeld := false }⟩ := h.frame rfl rfl rfl rfl
      rw [hstar.1, phoneKey_star hstar.2 hclosed, phoneKey_star (htype.trans hstar.2) hsettled,
        pressStar_settle hidle rfl hcommits]
      rfl
    · rename_i hstar
      rw [phoneKey_command hclosed hdigit hstar hcommits.1 hcommits.2,
        phoneKey_command hsettled hdigit hstar hcommits.1 hcommits.2, phoneCommand_settle h hright]

/-- **An operation that commits** does to the model what it does to the settled one. -/
theorem apply_settle (hupper : Uppercases towupper) (h : Showing towupper model)
    (hclosed : model.input.pickerOpen = false) (hzero : model.field.phoneZeroHeld = false)
    (hop : Commits model op) (hright : ¬ IsRight op) :
    apply towupper model op = apply towupper (settle model) op := by
  cases op with
  | key event nowMs =>
    obtain ⟨hfocused, hcode, hpress⟩ := hop
    have hopen : ¬ ((!model.field.focused) = true ∨ event.code ≥ keyCnt) := by
      simp [hfocused, hcode]
    have hopenSettled : ¬ ((!(settle model).field.focused) = true ∨ event.code ≥ keyCnt) := hopen
    simp only [apply]
    rw [key, if_neg hopen, key, if_neg hopenSettled]
    cases hpressed : event.pressed with
    | false =>
      rw [hpressed] at hpress
      have hreleased : Showing towupper
          { model with field := setConsumed model.field event false } := h.frame rfl rfl rfl rfl
      simp only [Bool.not_false, if_true, releaseKey_settle hupper hreleased hpress.1
        (show ReleaseCommits _ _ from hpress.2)]
      rfl
    | true =>
      rw [hpressed] at hpress
      obtain ⟨hwritable, hcommits⟩ := hpress
      have hwritableSettled : (settle model).field.readOnly = false := hwritable
      have hsame : pressKey towupper model event nowMs =
          pressKey towupper (settle model) event nowMs := by
        rw [pressKey, pressKey]
        cases hkeyboard : event.keyboard with
        | true =>
          rw [PressCommits, if_pos hkeyboard] at hcommits
          simp only [if_true, keyboardKey_settle h hclosed hcommits.1 hcommits.2]
        | false =>
          have hother : event.code ≠ keyRight := fun hcode => hright ⟨hkeyboard, hpressed, hcode⟩
          simp only [Bool.false_eq_true, if_false,
            phoneKey_settle h hclosed hkeyboard hcommits hother]
      simp only [Bool.not_true, Bool.false_eq_true, if_false, hwritable, hwritableSettled, hsame]
  | tick nowMs => exact congrArg (finish towupper) (runDeadlines_settle hupper h hzero hop)
  | setType type separator =>
    cases type with
    | none => exact hop.elim
    | some type =>
      have hvalid : ¬ (type = .decimal ∧ separator ≠ byte '.' ∧ separator ≠ byte ',') := hop
      simp only [apply, setType, if_neg hvalid, commitPending_settle h]
  | setFocused focused =>
    obtain ⟨rfl, hfocused⟩ := hop
    have hsettled : (settle model).field.focused = true := hfocused
    simp only [apply, setFocused, hfocused, hsettled, Bool.true_eq_false, if_false, Bool.not_false,
      if_true, stopInput, commitPending_settle h]
  | setReadOnly readOnly =>
    obtain ⟨rfl, hwritable⟩ := hop
    have hsettled : (settle model).field.readOnly = false := hwritable
    simp only [apply, setReadOnly, hwritable, hsettled, Bool.false_eq_true, if_false, if_true,
      stopInput, commitPending_settle h]
  | setCaret index => simp only [apply, setCaret, commitPending_settle h]
  | cancelHeld => exact hop.elim
  | setText text => exact hop.elim
  | setPassword password => exact hop.elim
  | cancelPicker => exact hop.elim
  | setPickerColumns columns => exact hop.elim

/-! ### The text after the commit -/

theorem finish_text (model : Model) :
    (finish towupper model).field.text = model.field.text ∧
      (finish towupper model).field.cursor = model.field.cursor ∧
      (finish towupper model).input = model.input := by
  obtain ⟨capacity, masked, heq, -⟩ := @refreshDisplay_eq towupper model
  rw [finish]
  split
  · exact ⟨rfl, rfl, rfl⟩
  · rw [heq]
    exact ⟨rfl, rfl, rfl⟩

theorem moveCursor_text (field : Field) (cursor : ℕ) :
    (moveCursor field cursor).text = field.text := by
  rw [moveCursor]
  split
  · rfl
  · rfl

theorem commitPending_settled (model : Model) :
    (commitPending towupper (settle model)).field.text = model.field.display := by
  rw [commitPending_of_not_pending (not_pending_settle model)]
  rfl

/-- Operations that do no more to the text than to commit: the arrow keys, the
mode keys, a tick while Clear is not held, and those that only end the input. -/
def OnlyCommits (model : Model) : Op → Prop
  | .key event _ => event.pressed = true → event.code ∈ [keyLeft, keyRight, keyUp, keyDown]
  | .tick _ => model.input.clearing = false
  | .setType _ _ => False
  | _ => True

theorem keyboardCommand_text (model : Model)
    (hcode : event.code ∈ [keyLeft, keyRight, keyUp, keyDown]) :
    (keyboardCommand towupper model event).2.field.text =
      (commitPending towupper model).field.text := by
  have hother : ∀ code ∈ [keyLeft, keyRight, keyUp, keyDown], code ≠ keyDelete ∧
      ¬ (code = keyHome ∨ code = keyEnd) ∧
      (code = keyLeft ∨ code = keyRight ∨ code = keyUp ∨ code = keyDown) := by
    decide
  obtain ⟨hdelete, hedge, harrow⟩ := hother _ hcode
  simp only [keyboardCommand, if_neg hdelete, if_neg hedge]
  split
  · exact moveCursor_text _ _
  · rename_i hleft
    split
    · exact moveCursor_text _ _
    · rename_i hright
      rw [if_pos ((harrow.resolve_left hleft).resolve_left hright)]

theorem phoneCommand_text (model : Model) (hcode : code ∈ [keyLeft, keyRight, keyUp, keyDown])
    (nowMs : ℕ) :
    (phoneCommand towupper model code nowMs).2.field.text =
      (commitPending towupper model).field.text := by
  have hother : ∀ code ∈ [keyLeft, keyRight, keyUp, keyDown], code ≠ keyNumericPound ∧
      code ≠ keyNumericStar ∧
      (code = keyLeft ∨ code = keyRight ∨ code = keyUp ∨ code = keyDown) := by
    decide
  obtain ⟨hpound, hstar, harrow⟩ := hother _ hcode
  simp only [phoneCommand, if_neg hpound, if_neg hstar]
  split
  · exact moveCursor_text _ _
  · rename_i hleft
    split
    · split
      · rfl
      · exact moveCursor_text _ _
    · rename_i hright
      rw [if_pos ((harrow.resolve_left hleft).resolve_left hright)]

theorem pressKey_text (h : Showing towupper model) (hclosed : model.input.pickerOpen = false)
    (hcommits : PressCommits model event nowMs)
    (hcode : event.code ∈ [keyLeft, keyRight, keyUp, keyDown]) :
    (pressKey towupper model event nowMs).2.field.text = model.field.display := by
  have hother : ∀ code ∈ [keyLeft, keyRight, keyUp, keyDown],
      ¬ (keyNumeric0 ≤ code ∧ code ≤ keyNumeric9) ∧ code ≠ keyNumericStar ∧ code ≠ keyNumericPound ∧
        code ≠ keyF14 := by
    decide
  obtain ⟨hdigit, hstar, hpound, hclear⟩ := hother _ hcode
  have hdrop : Showing towupper { model with input := TextInput.cancelHeld model.input } :=
    h.frame rfl rfl rfl rfl
  rw [pressKey]
  split
  · rename_i hkeyboard
    rw [PressCommits, if_pos hkeyboard] at hcommits
    simp only [keyboardKey, hcommits.1, hclosed, Bool.false_eq_true, if_false, keyboardEdit,
      hcommits.2]
    rw [keyboardCommand_text _ hcode, commitPending_settle hdrop]
    exact commitPending_settled _
  · rw [phoneKey_command hclosed hdigit (fun hphone => hstar hphone.1)
      (fun hmode => hmode.2.elim hpound hstar) hclear, phoneCommand_text _ hcode,
      commitPending_settle h]
    exact commitPending_settled _

/-- **Where nothing follows the commit**, the text is what was displayed. -/
theorem text_of_onlyCommits (hupper : Uppercases towupper) (h : Showing towupper model)
    (hclosed : model.input.pickerOpen = false) (hzero : model.field.phoneZeroHeld = false)
    (hop : Commits model op) (honly : OnlyCommits model op) :
    (apply towupper model op).field.text = model.field.display := by
  cases op with
  | key event nowMs =>
    obtain ⟨hfocused, hcode, hpress⟩ := hop
    have hopen : ¬ ((!model.field.focused) = true ∨ event.code ≥ keyCnt) := by
      simp [hfocused, hcode]
    simp only [apply]
    rw [key, if_neg hopen]
    cases hpressed : event.pressed with
    | false =>
      rw [hpressed] at hpress
      have hreleased : Showing towupper
          { model with field := setConsumed model.field event false } := h.frame rfl rfl rfl rfl
      have hcontrol : ReleaseCommits { model with field := setConsumed model.field event false }
          event.code := hpress.2
      obtain ⟨next, -, haction, -⟩ := controlAction_settle hupper hreleased
        (if model.input.controlGesture = .undecided then
          if nowMs ≥ Word.add 64 model.input.controlMs holdMs then .hold else .tap
        else model.input.controlGesture)
      have hother : ¬ (keyNumeric0 ≤ event.code ∧ event.code ≤ keyNumeric9) ∧
          event.code ≠ keyNumeric0 ∧ event.code ≠ keyF14 := by
        rcases hcontrol.2 with ⟨heq, -⟩ | ⟨heq, -⟩
        · rw [heq]
          decide
        · rw [heq]
          decide
      simp only [Bool.not_false, if_true]
      rw [(finish_text _).1]
      simp only [releaseKey, hpress.1, Bool.false_eq_true, if_false,
        releaseControl_eq hcontrol rfl haction, releaseDigit, hother.1, releaseZero, hother.2.1,
        releaseClear, hother.2.2, notePending]
      split
      · rfl
      · rfl
    | true =>
      rw [hpressed] at hpress
      have htext := pressKey_text h hclosed hpress.2 (honly hpressed)
      simp only [Bool.not_true, Bool.false_eq_true, if_false, hpress.1]
      rw [(finish_text _).1]
      split
      · exact htext
      · exact htext
  | tick nowMs =>
    obtain ⟨next, ⟨hnext, hclearing⟩, htick, -⟩ := tick_settle hupper h hop
    have hdirty := tickClear_settled hnext (settleField_dirty model.field) nowMs
    have hidle : ¬ (next.clearing = true ∧ nowMs ≥ next.clearMs) := by
      simp [hclearing.trans honly]
    simp only [apply, tick]
    rw [(finish_text _).1, runDeadlines_eq hzero htick hdirty, tickClear, if_neg hidle]
    rfl
  | setType type separator => exact honly.elim
  | setFocused focused =>
    obtain ⟨rfl, hfocused⟩ := hop
    simp only [apply, setFocused, hfocused, Bool.true_eq_false, if_false, Bool.not_false, if_true]
    rw [(finish_text _).1]
    simp only [stopInput, commitPending_settle h]
    exact commitPending_settled model
  | setReadOnly readOnly =>
    obtain ⟨rfl, hwritable⟩ := hop
    simp only [apply, setReadOnly, hwritable, Bool.false_eq_true, if_false, if_true]
    rw [(finish_text _).1]
    simp only [stopInput, commitPending_settle h]
    exact commitPending_settled model
  | setCaret index =>
    simp only [apply, setCaret]
    rw [(finish_text _).1]
    simp only [moveCursor_text, commitPending_settle h]
    exact commitPending_settled model
  | cancelHeld => exact hop.elim
  | setText text => exact hop.elim
  | setPassword password => exact hop.elim
  | cancelPicker => exact hop.elim
  | setPickerColumns columns => exact hop.elim

/-! ### Runs -/

/-- What is committed is what was displayed. -/
structure CommitsAsShown (towupper : ℕ → ℕ) (model : Model) (op : Op) : Prop where
  /-- The display has the pending character at the caret, in the case of the mode. -/
  display : model.field.display =
    model.field.text.take model.field.cursor ++ pendingBytes towupper model ++
      model.field.text.drop model.field.cursor
  /-- So do the dots of a password. -/
  masked : model.field.password = true → model.field.masked = some (dotted towupper model)
  /-- The operation goes on as if the displayed text had been committed before it. -/
  settled : ¬ IsRight op → apply towupper model op = apply towupper (settle model) op
  /-- Right stops there, with the caret after the character. -/
  right : IsRight op →
    (apply towupper model op).field.text = model.field.display ∧
      (apply towupper model op).field.cursor =
        model.field.cursor + (pendingBytes towupper model).length ∧
      (apply towupper model op).input.compose.pending = false
  /-- Where nothing else changes the text it is the displayed one. -/
  text : OnlyCommits model op → (apply towupper model op).field.text = model.field.display

theorem apply_right (h : Showing towupper model) (hclosed : model.input.pickerOpen = false)
    (hop : Commits model op) (hright : IsRight op) :
    (apply towupper model op).field.text = model.field.display ∧
      (apply towupper model op).field.cursor =
        model.field.cursor + (pendingBytes towupper model).length ∧
      (apply towupper model op).input.compose.pending = false := by
  cases op with
  | key event nowMs =>
    obtain ⟨hphone, hpressed, hcode⟩ := hright
    obtain ⟨hfocused, hkey, hpress⟩ := hop
    rw [if_pos hpressed] at hpress
    have hopen : ¬ ((!model.field.focused) = true ∨ event.code ≥ keyCnt) := by
      simp [hfocused, hkey]
    have hdigit : ¬ (keyNumeric0 ≤ keyRight ∧ keyRight ≤ keyNumeric9) := by decide
    have hstar : ¬ keyRight = keyNumericStar := by decide
    have hpound : ¬ keyRight = keyNumericPound := by decide
    have hclear : keyRight ≠ keyF14 := by decide
    have hpressKey : pressKey towupper model event nowMs =
        (.consumed, commitPending towupper (settle model)) := by
      rw [pressKey, if_neg (by simp [hphone]), hcode, phoneKey_command hclosed hdigit
        (fun hother => hstar hother.1) (fun hmode => hmode.2.elim hpound hstar) hclear,
        phoneCommand_right h]
    have hsize := congrArg (fun x : Bool × Field => x.2.cursor) (insertBytes_pending h)
    rw [insertBytes_eq (h.single.symm ▸ h.room)] at hsize
    have hsettled := @commitPending_of_not_pending towupper _ (not_pending_settle model)
    simp only [apply]
    rw [key, if_neg hopen, if_neg (by simp [hpressed]), if_neg (by simp [hpress.1]), hpressKey,
      hsettled]
    simp only [if_true]
    rw [(finish_text _).1, (finish_text _).2.1, (finish_text _).2.2]
    exact ⟨rfl, hsize.symm, rfl⟩
  | _ => exact hright.elim

/-- **What is shown is what is committed.** -/
theorem commits_as_shown (hupper : Uppercases towupper) {model : Model}
    (h : (machine towupper).Reachable model) (hpending : model.input.compose.pending = true)
    {op : Op} (hop : Commits model op) : CommitsAsShown towupper model op := by
  have hkept := kept_of_reachable hupper h
  have hshowing := hkept.showing hupper hpending
  have hzero := zeroFree_of_reachable hupper h hpending
  have hclosed : model.input.pickerOpen = false := by
    cases hopen : model.input.pickerOpen with
    | false => rfl
    | true =>
      have hnot := (hkept.sound.input.picker hopen).1
      exact absurd (hnot.symm.trans hpending) (by simp)
  exact
    { display := hkept.refreshed.display
      masked := hkept.refreshed.masked
      settled := apply_settle hupper hshowing hclosed hzero hop
      right := apply_right hshowing hclosed hop
      text := text_of_onlyCommits hupper hshowing hclosed hzero hop }

end

/-! ### A run -/

/-- Key 2 pressed and let go in an empty field: an "A" is pending. -/
def tappedLetter : Model :=
  apply asciiUpper
    (apply asciiUpper (init false 2 none none) (.key (phonePress (keyNumeric0 + 2)) 0))
    (.key { phonePress (keyNumeric0 + 2) with pressed := false } 100)

theorem reachable_tappedLetter : (machine asciiUpper).Reachable tappedLetter := by
  have hrelease : (Op.key { phonePress (keyNumeric0 + 2) with pressed := false } 100).Valid := by
    intro text htext
    simp [phonePress] at htext
  exact ((reachable_init asciiUpper false 2 none none).step ⟨valid_phonePress _ _, rfl⟩).step
    ⟨hrelease, rfl⟩

/-- The commit timeout makes it the text. -/
theorem commits_as_shown_timeout :
    tappedLetter.field.display = ascii "A" ∧ CommitsAsShown asciiUpper tappedLetter (.tick 1000) ∧
      (apply asciiUpper tappedLetter (.tick 1000)).field.text = ascii "A" := by
  have hpending : tappedLetter.input.compose.pending = true := by decide +kernel
  have hheld : tappedLetter.input.heldDigit = 0 := by decide +kernel
  have htime : 1000 ≥ Word.add 64 tappedLetter.input.composeMs commitMs := by
    decide +kernel
  have hcommits : Commits tappedLetter (.tick 1000) := ⟨hheld, .inr htime⟩
  refine ⟨by decide +kernel, ?_, by decide +kernel⟩
  exact commits_as_shown uppercases_asciiUpper reachable_tappedLetter hpending hcommits

end TextModel
