/-
The deadline of a text model and its tick.

Five timers wait for a time: the commit of a letter, the hold of a digit, the
hold of `#` or `*`, the repeats of Clear and the 0 of a PHONE field that becomes
a `+`.  `deadline` names the earliest of them and `tick` runs those that are due;
the two are written apart in the source.  `Rests` says that no timer is due.

Main results:
- `TextInput.rests_iff`, `rests_iff`: the deadline is past now if and only if no
  timer is due;
- `TextInput.tick_of_rests`: a tick does nothing while no timer is due;
- `TextInput.rests_tick`: no timer is due after a tick.
-/
import Fplinux.Ui.TextInvariant

namespace TextInput

open Multitap (EmitResult)

/-- No timer of the input is due. -/
structure Rests (input : State) (nowMs : ℕ) : Prop where
  hold : ¬ (input.heldDigit ≠ 0 ∧ Word.add 64 input.heldMs holdMs ≤ nowMs)
  control : ¬ (input.heldControl ≠ 0 ∧ Word.add 64 input.controlMs holdMs ≤ nowMs)
  /-- While a digit is held its hold stands in for the commit. -/
  commit : ¬ (input.heldDigit = 0 ∧ input.compose.pending = true ∧
    Word.add 64 input.composeMs commitMs ≤ nowMs)
  clear : ¬ (input.clearing = true ∧ input.clearMs ≤ nowMs)

/-- A timer that may come before the others. -/
theorem lt_earlier {held : Prop} [Decidable held] {due others nowMs : ℕ} :
    nowMs < (if held ∧ due < others then due else others) ↔
      nowMs < others ∧ ¬ (held ∧ due ≤ nowMs) := by
  split
  · rename_i hheld
    constructor
    · exact fun hlt => ⟨by omega, fun hdue => by omega⟩
    · exact fun hrest => Nat.lt_of_not_le fun hle => hrest.2 ⟨hheld.1, hle⟩
  · rename_i hheld
    constructor
    · exact fun hlt => ⟨hlt, fun hdue => hheld ⟨hdue.1, by omega⟩⟩
    · exact fun hrest => hrest.1

/-- **The deadline is past now if and only if no timer is due.** -/
theorem rests_iff {input : State} {nowMs : ℕ} (hnow : nowMs < Word.maxVal 64) :
    Rests input nowMs ↔ ∀ time ∈ deadline input, nowMs < time := by
  rw [deadline]
  generalize hcompose : (if input.heldDigit ≠ 0 then Word.add 64 input.heldMs holdMs
    else if input.compose.pending then Word.add 64 input.composeMs commitMs
    else Word.maxVal 64) = composed
  generalize hcontrol : (if input.heldControl ≠ 0 ∧ Word.add 64 input.controlMs holdMs < composed then
    Word.add 64 input.controlMs holdMs else composed) = controlled
  generalize hclear : (if input.clearing ∧ input.clearMs < controlled then input.clearMs
    else controlled) = time
  -- Each stage takes its own timer into account.
  have hcomposed : nowMs < composed ↔
      ¬ (input.heldDigit ≠ 0 ∧ Word.add 64 input.heldMs holdMs ≤ nowMs) ∧
      ¬ (input.heldDigit = 0 ∧ input.compose.pending = true ∧
        Word.add 64 input.composeMs commitMs ≤ nowMs) := by
    rw [← hcompose]
    split
    · rename_i hheld
      constructor
      · exact fun hlt => ⟨fun hdue => by omega, fun hdue => hheld hdue.1⟩
      · exact fun hrest => Nat.lt_of_not_le fun hle => hrest.1 ⟨hheld, hle⟩
    · rename_i hheld
      split
      · rename_i hpending
        constructor
        · exact fun hlt => ⟨fun hdue => hheld hdue.1, fun hdue => by omega⟩
        · exact fun hrest => Nat.lt_of_not_le fun hle =>
            hrest.2 ⟨not_not.mp hheld, hpending, hle⟩
      · rename_i hpending
        exact ⟨fun _ => ⟨fun hdue => hheld hdue.1, fun hdue => hpending hdue.2.1⟩, fun _ => hnow⟩
  have hcontrolled : nowMs < controlled ↔ nowMs < composed ∧
      ¬ (input.heldControl ≠ 0 ∧ Word.add 64 input.controlMs holdMs ≤ nowMs) := by
    rw [← hcontrol]
    exact lt_earlier
  have htime : nowMs < time ↔ nowMs < controlled ∧
      ¬ (input.clearing = true ∧ input.clearMs ≤ nowMs) := by
    rw [← hclear]
    exact lt_earlier
  have hnamed : (∀ due ∈ (if time = Word.maxVal 64 then none else some time), nowMs < due) ↔
      nowMs < time := by
    split
    · rename_i hmax
      exact ⟨fun _ => hmax ▸ hnow, fun _ => by simp⟩
    · simp
  rw [hnamed, htime, hcontrolled, hcomposed]
  constructor
  · exact fun h => ⟨⟨⟨h.hold, h.commit⟩, h.control⟩, h.clear⟩
  · exact fun h => ⟨h.1.1.1, h.1.2, h.1.1.2, h.2⟩

section

variable {γ : Type*} {emit : State → γ → ℕ → EmitResult × γ}
  {erase : State → γ → EmitResult × State × γ}

theorem tick_of_rests {input : State} {nowMs : ℕ} (h : Rests input nowMs) (context : γ) :
    tick emit erase input nowMs context = (.pending, input, context) := by
  have hhold : holdDigit emit input nowMs context = (.pending, input, context) := by
    rw [holdDigit, if_pos]
    by_contra hdue
    rw [not_or, not_lt] at hdue
    exact h.hold hdue
  have hcontrol : tickControl emit nowMs .pending input context = (.pending, input, context) := by
    rw [tickControl, if_neg h.control]
  have hcompose : tickCompose emit nowMs .pending input context = (.pending, input, context) := by
    rw [tickCompose, if_neg h.commit]
  have hclear : tickClear erase nowMs .pending input context = (.pending, input, context) := by
    rw [tickClear, if_neg h.clear]
  simp [tick, unlessBlocked, hhold, hcontrol, hcompose, hclear]

/-! ### After a tick -/

/-- Every field composes anything: what `emit` and `erase` do to the text is all
that matters here. -/
def anyPolicy : Policy := ⟨fun _ => True, True, fun _ _ _ => trivial⟩

variable {J : γ → Prop} {context : γ}

theorem emitPending_context (hemit : Emits anyPolicy J emit) (input : State)
    (state : Multitap.State) (hJ : J context) :
    J (Multitap.emitPending (emit input) state context).2.2 := by
  have hkeeps := hemit.keeps input context (Multitap.candidate state) (fun h => absurd trivial h)
    hJ trivial
  rw [Multitap.emitPending]
  split
  · split
    · rename_i heq
      rwa [heq] at hkeeps
    · rename_i heq
      rwa [heq] at hkeeps
    · rename_i heq
      rwa [heq] at hkeeps
  · exact hJ

theorem hold_context (hemit : Emits anyPolicy J emit) (input : State) (state : Multitap.State)
    (hJ : J context) : J (Multitap.hold (emit input) state context).2.2 := by
  rw [Multitap.hold]
  split
  · exact hJ
  · split
    · exact hJ
    · split
      · exact hJ
      · split
        · simp only
          split
          · rename_i heq
            have hnext := congrArg (fun result => J result.2.2) heq
            exact emitPending_context hemit _ _ (hnext.mp (emitPending_context hemit _ _ hJ))
          · exact emitPending_context hemit _ _ hJ
        · exact emitPending_context hemit _ _ hJ

theorem commit_done (hemit : Emits anyPolicy J emit) (input : State) (hJ : J context) :
    (commit emit input context).1 ≠ .blocked ∧ J (commit emit input context).2.2 ∧
      ∃ compose, (commit emit input context).2.1 =
          { input with compose := compose, heldDigit := 0 } ∧ compose.pending = false := by
  have hclosed := not_pending_commit hemit input context
  have hcommit := commit_eq hemit input context
  refine ⟨commit_ne_blocked hemit input context, ?_, _, congrArg Prod.fst hcommit, ?_⟩
  · rw [hcommit]
    exact emitPending_context hemit _ _ hJ
  · rw [hcommit] at hclosed
    exact hclosed

theorem holdDigit_done (hemit : Emits anyPolicy J emit) (input : State) (nowMs : ℕ)
    (hJ : J context) :
    (holdDigit emit input nowMs context).1 ≠ .blocked ∧
      J (holdDigit emit input nowMs context).2.2 ∧
      ¬ ((holdDigit emit input nowMs context).2.1.heldDigit ≠ 0 ∧
        Word.add 64 (holdDigit emit input nowMs context).2.1.heldMs holdMs ≤ nowMs) := by
  have hresult := Multitap.hold_ne_blocked (hemit.answers input) input.compose context
  have hcontext := hold_context hemit input input.compose hJ
  rw [holdDigit]
  split
  · rename_i hrest
    refine ⟨by simp, hJ, fun hdue => ?_⟩
    rcases hrest with hrest | hrest
    · exact hdue.1 hrest
    · exact Nat.not_le_of_lt hrest hdue.2
  · simp only [if_pos hresult]
    exact ⟨hresult, hcontext, fun hdue => hdue.1 rfl⟩

theorem controlMode_timers (input : State) :
    (controlMode input).heldDigit = input.heldDigit ∧
      (controlMode input).clearing = input.clearing ∧
      (controlMode input).clearMs = input.clearMs := by
  rw [controlMode]
  split
  · split
    · exact ⟨rfl, rfl, rfl⟩
    · split
      · exact ⟨rfl, rfl, rfl⟩
      · exact ⟨rfl, rfl, rfl⟩
  · exact ⟨rfl, rfl, rfl⟩

theorem controlAction_done (hemit : Emits anyPolicy J emit) (input : State) (hJ : J context) :
    (controlAction emit input context).1 ≠ .blocked ∧ J (controlAction emit input context).2.2 ∧
      (controlAction emit input context).2.1.heldControl = 0 ∧
      (controlAction emit input context).2.1.heldDigit = 0 := by
  obtain ⟨hresult, hcontext, compose, hcommit, -⟩ := commit_done hemit input hJ
  have heq := controlAction_eq hemit input context
  refine ⟨?_, by rw [heq]; exact hcontext, ?_⟩
  · rw [controlAction]
    split
    · exact hresult
    · simp only [hresult, if_false]
      exact hresult
  · rw [heq]
    simp only
    split
    · exact ⟨rfl, by rw [hcommit]⟩
    · refine ⟨rfl, ?_⟩
      show (controlMode (commit emit input context).2.1).heldDigit = 0
      rw [(controlMode_timers _).1, hcommit]

/-- Clear drops the pending character and the holds, or leaves the input alone. -/
def ErasesInput (erase : State → γ → EmitResult × State × γ) : Prop :=
  ∀ input context, (erase input context).2.1 = input ∨ (erase input context).2.1 = cancel input

/-- **No timer is due after a tick.** -/
theorem rests_tick (hemit : Emits anyPolicy J emit) (hinput : ErasesInput erase)
    (herase : ∀ input context, (erase input context).1 ≠ .blocked ∧
      (J context → J (erase input context).2.2))
    (input : State) {nowMs : ℕ} (hnow : nowMs + repeatMs < 2 ^ 64) {context : γ} (hJ : J context) :
    Rests (tick emit erase input nowMs context).2.1 nowMs ∧
      J (tick emit erase input nowMs context).2.2 := by
  obtain ⟨hresult, hcontext, hhold⟩ := holdDigit_done hemit input nowMs hJ
  rw [tick]
  generalize holdDigit emit input nowMs context = first at hresult hcontext hhold
  -- A held mode key.
  obtain ⟨second, hsecond, hresult, hcontext, hhold, hcontrol⟩ : ∃ second,
      unlessBlocked first (tickControl emit nowMs) = second ∧ second.1 ≠ .blocked ∧
      J second.2.2 ∧
      ¬ (second.2.1.heldDigit ≠ 0 ∧ Word.add 64 second.2.1.heldMs holdMs ≤ nowMs) ∧
      ¬ (second.2.1.heldControl ≠ 0 ∧ Word.add 64 second.2.1.controlMs holdMs ≤ nowMs) := by
    refine ⟨_, rfl, ?_⟩
    rw [unlessBlocked, if_neg hresult, tickControl]
    split
    · obtain ⟨hdone, hafter, hcontrol, hdigit⟩ := controlAction_done hemit _ hcontext
      exact ⟨hdone, hafter, fun hdue => hdue.1 hdigit, fun hdue => hdue.1 hcontrol⟩
    · rename_i hrest
      exact ⟨hresult, hcontext, hhold, hrest⟩
  rw [hsecond]
  -- A letter that waits for its commit.
  obtain ⟨third, hthird, hresult, hcontext, hhold, hcontrol, hcommit⟩ : ∃ third,
      unlessBlocked second (tickCompose emit nowMs) = third ∧ third.1 ≠ .blocked ∧
      J third.2.2 ∧
      ¬ (third.2.1.heldDigit ≠ 0 ∧ Word.add 64 third.2.1.heldMs holdMs ≤ nowMs) ∧
      ¬ (third.2.1.heldControl ≠ 0 ∧ Word.add 64 third.2.1.controlMs holdMs ≤ nowMs) ∧
      ¬ (third.2.1.heldDigit = 0 ∧ third.2.1.compose.pending = true ∧
        Word.add 64 third.2.1.composeMs commitMs ≤ nowMs) := by
    refine ⟨_, rfl, ?_⟩
    rw [unlessBlocked, if_neg hresult, tickCompose]
    split
    · obtain ⟨hdone, hafter, compose, heq, hclosed⟩ := commit_done hemit second.2.1 hcontext
      refine ⟨hdone, hafter, ?_, ?_, ?_⟩
      · rw [heq]
        exact fun hdue => hdue.1 rfl
      · rw [heq]
        exact hcontrol
      · rw [heq]
        exact fun hdue => Bool.false_ne_true (hclosed.symm.trans hdue.2.1)
    · rename_i hrest
      exact ⟨hresult, hcontext, hhold, hcontrol, hrest⟩
  rw [hthird, unlessBlocked, if_neg hresult, tickClear]
  split
  · -- The next repeat of Clear is later than now.
    obtain ⟨hanswer, hafter⟩ := herase third.2.1 third.2.2
    have hstate := hinput third.2.1 third.2.2
    have hlater : ¬ Word.add 64 nowMs repeatMs ≤ nowMs := by
      rw [Word.add_eq hnow]
      have hrepeat : repeatMs = 100 := rfl
      omega
    split
    · rename_i heq
      rw [heq] at hanswer
      exact absurd rfl hanswer
    · rename_i heq
      rw [heq] at hafter hstate
      refine ⟨?_, hafter hcontext⟩
      rcases hstate with rfl | rfl
      · exact ⟨hhold, hcontrol, hcommit, fun hdue => hlater hdue.2⟩
      · exact ⟨fun hdue => hdue.1 rfl, fun hdue => hdue.1 rfl,
          fun hdue => Bool.false_ne_true hdue.2.1, fun hdue => hlater hdue.2⟩
  · rename_i hrest
    exact ⟨⟨hhold, hcontrol, hcommit, hrest⟩, hcontext⟩

end

end TextInput

namespace TextModel

open InputCodes

section

variable {towupper : ℕ → ℕ}

/-! ### Clean models -/

theorem dirty_finish (model : Model) : (finish towupper model).field.dirty = false := by
  rw [finish]
  split
  · rename_i hclean
    simpa using hclean
  · rfl

variable {model : Model} {nowMs : ℕ}

theorem clean_apply (h : model.field.dirty = false) (op : Op) :
    (apply towupper model op).field.dirty = false := by
  cases op with
  | key event nowMs =>
    rw [apply, key]
    split
    · exact h
    · split
      · exact dirty_finish _
      · split
        · exact h
        · exact dirty_finish _
  | tick nowMs => exact dirty_finish _
  | cancelHeld => exact dirty_finish _
  | setText text =>
    rw [apply, setText]
    simp only
    split
    · exact h
    · split
      · exact h
      · exact dirty_finish _
  | setType type separator =>
    cases type with
    | none => exact h
    | some type =>
      rw [apply, setType]
      simp only
      split
      · exact h
      · split
        · exact dirty_finish _
        · exact dirty_finish _
  | setPassword password =>
    rw [apply, setPassword]
    split
    · exact h
    · exact dirty_finish _
  | setFocused focused =>
    rw [apply, setFocused]
    split
    · exact h
    · exact dirty_finish _
  | cancelPicker =>
    rw [apply, cancelPicker]
    split
    · exact h
    · exact dirty_finish _
  | setPickerColumns columns => exact h
  | setReadOnly readOnly =>
    rw [apply, setReadOnly]
    split
    · exact h
    · exact dirty_finish _
  | setCaret index => exact dirty_finish _

theorem clean_of_reachable (h : (machine towupper).Reachable model) :
    model.field.dirty = false := by
  refine h.invariant (P := fun model => model.field.dirty = false) ?_ ?_
  · rintro _ ⟨multiline, limit, directory, inputLanguage, rfl⟩
    rfl
  · rintro before op _ hclean ⟨-, rfl⟩
    exact clean_apply hclean op

/-! ### The timers of a model -/

/-- No held 0 of a PHONE field is due. -/
def ZeroRests (nowMs : ℕ) (field : Field) : Prop :=
  ¬ (field.phoneZeroHeld = true ∧ Word.add 64 field.phoneZeroMs TextInput.holdMs ≤ nowMs)

/-- No timer of the model is due. -/
structure Rests (model : Model) (nowMs : ℕ) : Prop where
  input : TextInput.Rests model.input nowMs
  zero : ZeroRests nowMs model.field

/-- **The deadline is past now if and only if no timer is due.** -/
theorem rests_iff {model : Model} {nowMs : ℕ} (hnow : nowMs < Word.maxVal 64) :
    Rests model nowMs ↔ ∀ time, deadline model = some time → nowMs < time := by
  have hinput := @TextInput.rests_iff model.input nowMs hnow
  rw [deadline]
  generalize TextInput.deadline model.input = scheduled at hinput
  constructor
  · intro hrests time htime
    split at htime
    · rename_i hheld
      obtain rfl := Option.some.inj htime
      exact Nat.lt_of_not_le fun hle => hrests.zero ⟨hheld.1, hle⟩
    · exact hinput.mp hrests.input time htime
  · intro hlater
    by_cases hheld : model.field.phoneZeroHeld ∧ (scheduled = none ∨
        ∃ time ∈ scheduled, Word.add 64 model.field.phoneZeroMs TextInput.holdMs < time)
    · -- The 0 is the earliest, so the input waits longer.
      rw [if_pos hheld] at hlater
      have hzero := hlater _ rfl
      refine ⟨hinput.mpr fun time htime => ?_, fun hdue => ?_⟩
      · rcases hheld.2 with hnone | ⟨other, hother, hlt⟩
        · rw [hnone] at htime
          exact absurd htime (by simp)
        · obtain rfl := Option.some.inj (hother.symm.trans htime)
          omega
      · exact Nat.not_le_of_lt hzero hdue.2
    · rw [if_neg hheld] at hlater
      refine ⟨hinput.mpr hlater, fun hdue => hheld ⟨hdue.1, ?_⟩⟩
      cases scheduled with
      | none => exact .inl rfl
      | some time => exact .inr ⟨time, rfl, Nat.lt_of_le_of_lt hdue.2 (hlater time rfl)⟩

theorem tick_of_rests (hclean : model.field.dirty = false) (h : Rests model nowMs) :
    tick towupper model nowMs = model := by
  have hzero : holdPhoneZero model.field nowMs = model.field := by
    rw [holdPhoneZero, if_pos]
    by_contra hdue
    rw [not_or, not_lt] at hdue
    exact h.zero ⟨by simpa using hdue.1, hdue.2⟩
  have hdeadlines : runDeadlines towupper model nowMs = model := by
    simp only [runDeadlines, hzero, TextInput.tick_of_rests h.input]
    rw [if_neg (by simp)]
  rw [tick, hdeadlines, finish, if_pos (by simp [hclean])]

theorem zeroRests_edited {field after : Field} (h : ZeroRests nowMs field)
    (hedited : Edited field after) : ZeroRests nowMs after := by
  rw [hedited]
  exact h

theorem zeroRests_holdPhoneZero (field : Field) (nowMs : ℕ) :
    ZeroRests nowMs (holdPhoneZero field nowMs) := by
  rw [holdPhoneZero]
  split
  · rename_i hrest
    intro hdue
    rcases hrest with hrest | hrest
    · simp [hdue.1] at hrest
    · exact Nat.not_le_of_lt hrest hdue.2
  · intro hdue
    rw [(edited_holdPlus _).phoneZeroHeld] at hdue
    exact Bool.false_ne_true hdue.1

theorem erasesInput_eraseCharacter : TextInput.ErasesInput eraseCharacter := by
  intro input field
  simp only [eraseCharacter, deleteBackward]
  split
  · exact .inr rfl
  · split
    · exact .inl rfl
    · exact .inl rfl

theorem zeroRests_eraseCharacter (input : TextInput.State) {field : Field}
    (h : ZeroRests nowMs field) : ZeroRests nowMs (eraseCharacter input field).2.2 := by
  simp only [eraseCharacter, deleteBackward]
  split
  · exact fun hdue => Bool.false_ne_true hdue.1
  · split
    · exact h
    · exact h

theorem rests_finish (h : Rests model nowMs) : Rests (finish towupper model) nowMs := by
  obtain ⟨capacity, masked, heq, -⟩ := @refreshDisplay_eq towupper model
  rw [finish]
  split
  · exact h
  · simp only [heq]
    exact ⟨h.input, h.zero⟩

/-- **No timer is due after a tick.** -/
theorem rests_tick (model : Model) {nowMs : ℕ} (hnow : nowMs + TextInput.repeatMs < 2 ^ 64) :
    Rests (tick towupper model nowMs) nowMs := by
  have hemit : TextInput.Emits TextInput.anyPolicy (ZeroRests nowMs) (emitCharacter towupper) :=
    ⟨fun _ _ _ _ h _ => zeroRests_edited h (edited_insertBytes _ _), answers_emitCharacter⟩
  have herase : ∀ input field, (eraseCharacter input field).1 ≠ .blocked ∧
      (ZeroRests nowMs field → ZeroRests nowMs (eraseCharacter input field).2.2) :=
    fun input field => ⟨(erases .any).answers input field, zeroRests_eraseCharacter input⟩
  obtain ⟨hinput, hzero⟩ := TextInput.rests_tick hemit erasesInput_eraseCharacter herase
    model.input hnow (zeroRests_holdPhoneZero model.field nowMs)
  refine rests_finish ?_
  rw [runDeadlines]
  generalize TextInput.tick (emitCharacter towupper) eraseCharacter model.input nowMs
    (holdPhoneZero model.field nowMs) = ticked at hinput hzero ⊢
  simp only
  split
  · exact ⟨hinput, hzero⟩
  · exact ⟨hinput, hzero⟩

/-- **Deadline and tick agree.**  A tick before the deadline, or without one, changes
nothing; a tick at the deadline or later changes the model; and after a tick the
next deadline is later than the tick. -/
theorem deadline_tick {model : Model} (h : (machine towupper).Reachable model) {nowMs : ℕ}
    (hnow : nowMs < 2 ^ 63) :
    ((∀ time, deadline model = some time → nowMs < time) → tick towupper model nowMs = model) ∧
      ((∃ time, deadline model = some time ∧ time ≤ nowMs) → tick towupper model nowMs ≠ model) ∧
      ∀ time, deadline (tick towupper model nowMs) = some time → nowMs < time := by
  have hmax : nowMs < Word.maxVal 64 := by
    have hvalue : Word.maxVal 64 = 2 ^ 64 - 1 := rfl
    omega
  have hroom : nowMs + TextInput.repeatMs < 2 ^ 64 := by
    have hrepeat : TextInput.repeatMs = 100 := rfl
    omega
  have hafter := @rests_tick towupper model nowMs hroom
  refine ⟨fun hlater => ?_, fun hdue hsame => ?_, (rests_iff hmax).mp hafter⟩
  · exact tick_of_rests (clean_of_reachable h) ((rests_iff hmax).mpr hlater)
  · -- The timers of the model are not at rest, those after the tick are.
    obtain ⟨time, htime, hle⟩ := hdue
    rw [hsame] at hafter
    have hlt := (rests_iff hmax).mp hafter time htime
    omega

end

/-! ### A run -/

/-- Key 2 held in an empty field: its digit replaces the letter after half a
second, and not a millisecond earlier. -/
theorem deadline_tick_held :
    let held := apply asciiUpper (init false 2 none none) (.key (phonePress (keyNumeric0 + 2)) 0)
    tick asciiUpper held 499 = held ∧ tick asciiUpper held 500 ≠ held := by
  have hreachable := (reachable_init asciiUpper false 2 none none).step
    ⟨valid_phonePress (keyNumeric0 + 2) 0, rfl⟩
  have hdeadline : deadline (apply asciiUpper (init false 2 none none)
      (.key (phonePress (keyNumeric0 + 2)) 0)) = some 500 := by
    decide +kernel
  refine ⟨(deadline_tick hreachable (by norm_num)).1 fun time htime => ?_,
    (deadline_tick hreachable (by norm_num)).2.1 ⟨500, hdeadline, le_refl _⟩⟩
  obtain rfl := Option.some.inj (hdeadline.symm.trans htime)
  norm_num

end TextModel
