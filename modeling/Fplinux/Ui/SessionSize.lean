/-
How long the packet of a message gets (`fplinux-ui-session.c`).

A packet that would fill the receiver's buffer is not sent.  A quote, a backslash and a
slash take two bytes in it, so a string without control characters at most doubles.
Each member gets the room for the longest value that its message may give it, and the
rooms of all the members that a message may have stay below the buffer.

Main results:
- `within_value`: every member of a message stays within its room;
- `send_fits`: the messages the session relays and the long results are never too long.
-/
import Fplinux.Ui.SessionRoundTrip

namespace UiSession

open Bytes (ascii)
open Json (Fits FitsMembers)

/-! ### Room -/

/-- Room for the member in messages of this kind only. -/
def roomIf (kind : Bool) (size : ℕ) : Option ℕ := if kind then some size else none

/-- Room for a string of so many bytes, each of them escaped. -/
def stringRoom (bytes : ℕ) : ℕ := 2 * bytes + 2

/-- Room for an array of so many items. -/
def arrayRoom (items size : ℕ) : ℕ := items * (size + 1) + 2

def clockPresentationRoom : ℕ := 600
def taskRoom : ℕ := 620
def choiceRoom : ℕ := 804
def volumeRoom : ℕ := 8484

/-- The room for each field's member; a field without room has no member.  This is about
the four types below. -/
def room (type : MessageType) : Field → Option ℕ
  | .clock => roomIf (type == .active) (stringRoom 16383)
  | .clockPresentation => roomIf (type == .active) clockPresentationRoom
  | .inputLocale => roomIf (type == .active) (stringRoom 7)
  | .token => roomIf (type == .active) 10
  | .tasks => roomIf (type == .tasks) (arrayRoom taskMax taskRoom)
  | .documentChoices =>
    roomIf (type == .documentChoices) (arrayRoom documentChoiceMax choiceRoom)
  | .volumeError => roomIf (type == .storageResult) 11
  | .homePersistent => roomIf (type == .storageResult) 5
  | .volumes => roomIf (type == .storageResult) (arrayRoom volumeMax volumeRoom)
  | .type => some (stringRoom 16)
  | .mode => some (stringRoom 10)
  | .display => some (stringRoom 3)
  | .theme => some (stringRoom 5)
  | .appId | .activeId | .selectedId | .title | .left | .centre | .right | .reason | .value =>
    some (stringRoom 127)
  | .name | .notice => some (stringRoom 31)
  | .locale => some (stringRoom 7)
  | .serial => some 10
  | .screenWidth | .screenHeight | .battery => some 11
  | .locked | .visible | .enabled | .charging => some 5
  | .width | .height | .lifecycle | .audio | .vibration | .pattern | .repeats | .applied
  | .storageState | .storageError | .activation | .path | .documentStatus | .documentError
  | .volumeOperation | .volumeId => none

/-- The messages of a bounded size. -/
def isBounded (type : MessageType) : Bool :=
  type == .active || type == .tasks || type == .documentChoices || type == .storageResult

/-- A member with its name, its colon and its comma. -/
def cost (key : String) : Option ℕ → ℕ
  | none => 0
  | some size => key.length + 4 + size

/-- **The rooms fit the buffer.** -/
theorem sum_cost_lt (type : MessageType) (h : isBounded type = true) :
    ((fieldOrder type).map fun field => cost field.key (room type field)).sum + 2 <
      packetBytes := by
  simp only [isBounded, Bool.or_eq_true, beq_iff_eq] at h
  rcases h with ((rfl | rfl) | rfl) | rfl <;> decide +kernel

/-! ### Members within their room -/

/-- The member, if it is there, has room and stays within it. -/
def Within (depth : ℕ) (size : Option ℕ) (json : Option Json) : Prop :=
  ∀ value, json = some value → ∃ n, size = some n ∧ Fits JsonText value depth n

/-- Slots whose members stay within their room, and what they cost together. -/
inductive FitsSlots (depth : ℕ) : List (String × Option Json) → ℕ → Prop
  | nil : FitsSlots depth [] 0
  | cons {key : String} {json : Option Json} {rest : List (String × Option Json)}
      {size : Option ℕ} {total : ℕ} :
      Json.isName key = true → Within depth size json → FitsSlots depth rest total →
      FitsSlots depth ((key, json) :: rest) (cost key size + total)

variable {depth n : ℕ} {json : Option Json} {kind : Bool} {bytes : List UInt8} {message : Message}

theorem FitsSlots.members {total : ℕ} {slots : List (String × Option Json)}
    (h : FitsSlots depth slots total) :
    ∃ n ≤ total, FitsMembers JsonText (present slots) depth n := by
  induction h with
  | nil => exact ⟨0, le_rfl, .nil⟩
  | @cons key json rest size total hname hwithin _ ih =>
    obtain ⟨n, hle, hrest⟩ := ih
    cases json with
    | none => exact ⟨n, by omega, hrest⟩
    | some value =>
      obtain ⟨size', rfl, hfits⟩ := hwithin value rfl
      refine ⟨key.length + 4 + size' + n, ?_, .cons hname hfits hrest⟩
      show key.length + 4 + size' + n ≤ key.length + 4 + size' + total
      omega

theorem FitsSlots.obj {total : ℕ} {slots : List (String × Option Json)}
    (h : FitsSlots depth slots total) (hnodup : (slots.map Prod.fst).Nodup) (hle : total + 2 ≤ n) :
    Fits JsonText (.obj (present slots)) (depth + 1) n := by
  obtain ⟨size, hsize, hmembers⟩ := h.members
  exact (Fits.obj (hnodup.sublist (sublist_present slots)) hmembers).mono le_rfl (by omega)

theorem within_none {size : Option ℕ} : Within depth size none :=
  fun _ h => by simp at h

theorem within_some {json : Json} (h : Fits JsonText json depth n) :
    Within depth (some n) (some json) := by
  rintro _ ⟨⟩
  exact ⟨n, rfl, h⟩

theorem within_roomIf (h : kind = true → Within depth (some n) json)
    (hnone : kind = false → json = none) :
    Within depth (roomIf kind n) json := by
  cases kind with
  | true => exact h rfl
  | false =>
    rw [hnone rfl]
    exact within_none

theorem within_only (h : kind = true → Within depth (some n) json) :
    Within depth (roomIf kind n) (only kind json) := by
  cases kind with
  | true => exact h rfl
  | false => exact within_none

theorem within_absent {size : Option ℕ} (h : kind = false) :
    Within depth size (only kind json) := by
  rw [h]
  exact within_none

theorem ge_of_controlFree (h : controlFree bytes = true) : ∀ b ∈ bytes, 0x20 ≤ b.toNat := by
  intro b hb
  have hbyte := List.all_eq_true.mp h b hb
  simp only [Bool.and_eq_true, decide_eq_true_iff] at hbyte
  exact hbyte.1

theorem fits_text {capacity : ℕ} (h : Text capacity bytes) (hfree : controlFree bytes = true)
    (hn : capacity ≤ n + 1) :
    Fits JsonText (.str bytes) depth (stringRoom n) := by
  have hlen := h.length_lt
  exact Fits.str h.json (ge_of_controlFree hfree) (by omega)

theorem within_text {capacity : ℕ} (h : Text capacity bytes) (hfree : controlFree bytes = true)
    (hn : capacity ≤ n + 1) :
    Within depth (some (stringRoom n)) (addString bytes) := by
  rw [addString]
  split
  · exact within_none
  · exact within_some (fits_text h hfree hn)

theorem within_name {name : String} (h : isAscii name = true)
    (hfree : controlFree (ascii name) = true) (hlen : (ascii name).length ≤ n) :
    Within depth (some (stringRoom n)) (addString (ascii name)) := by
  rw [addString]
  split
  · exact within_none
  · exact within_some (Fits.str (jsonText_name h) (ge_of_controlFree hfree) hlen)

theorem within_bool {b : Bool} : Within depth (some 5) (some (.bool b)) :=
  within_some (Fits.bool b)

theorem within_nat (h : n < 2 ^ 32) : Within depth (some 10) (some (.int n)) := by
  exact within_some (@Fits.nat _ n 9 (by omega) (by omega) depth)

theorem within_int {n : ℤ} (h : IsInt n) : Within depth (some 11) (some (.int n)) := by
  rw [IsInt] at h
  exact within_some (@Fits.signed _ n 9 (by omega) (by omega) depth)

theorem within_clockNumber (h : n < 2 ^ 64) :
    Within depth (some (stringRoom 20)) (addClockNumber n) := by
  rw [addClockNumber]
  split
  · exact within_none
  · rw [addString]
    split
    · exact within_none
    · refine within_some (Fits.str (jsonText_decimal n) ?_ ?_)
      · intro b hb
        have hdigit := Json.decimal_mem hb
        omega
      · exact Json.decimal_length_le (show n < 10 ^ (19 + 1) by omega)

/-! ### The parts of a message -/

theorem fits_clockPresentation {clock : ClockPresentation} (h : ClockOk clock)
    (hfree : controlFree clock.alarmLabel = true) :
    Fits JsonText (clockPresentationJson clock) 2 clockPresentationRoom := by
  have hutc : clock.alarmUtc.toNat < 2 ^ 64 := by
    have hrange := h.alarmUtc
    omega
  apply FitsSlots.obj
  · exact .cons rfl within_bool <|
      .cons rfl (within_clockNumber hutc) <|
      .cons rfl (within_clockNumber h.snoozeDeadlineMs) <|
      .cons rfl (within_text h.alarmLabel hfree (le_refl (128 + 1))) <|
      .cons rfl (within_clockNumber h.timerDeadlineMs) <|
      .cons rfl (within_clockNumber h.timerRemainingMs) <|
      .cons rfl (within_clockNumber h.missedTotal) .nil
  · show clockNames.Nodup
    decide
  · decide +kernel

theorem fits_task {task : Task} (h : TaskOk task) (hvalid : taskValid task = true) :
    Fits JsonText (taskJson task) 2 taskRoom := by
  simp only [taskValid, Bool.and_eq_true] at hvalid
  obtain ⟨⟨⟨⟨hid, -⟩, -⟩, -⟩, hfree⟩ := hvalid
  have hlifecycle : controlFree (ascii task.lifecycle.name) = true ∧
      (ascii task.lifecycle.name).length ≤ 10 := by
    cases task.lifecycle <;> decide
  apply FitsSlots.obj
  · exact .cons rfl (within_text h.appId (controlFree_id hid) (le_refl (127 + 1))) <|
      .cons rfl (within_text h.title hfree (le_refl (127 + 1))) <|
      .cons rfl (within_name (ascii_lifecycle _) hlifecycle.1 hlifecycle.2) <|
      .cons rfl (within_nat h.token) .nil
  · show ["app_id", "title", "lifecycle", "token"].Nodup
    decide
  · decide +kernel

theorem fits_choice {choice : DocumentChoice} (h : ChoiceOk choice)
    (hid : controlFree choice.appId = true) (htitle : controlFree choice.title = true)
    (hicon : controlFree choice.icon = true) :
    Fits JsonText (documentChoiceJson choice) 2 choiceRoom := by
  rw [documentChoiceJson, ← present_some [_, _, _]]
  simp only [List.map_cons, List.map_nil]
  apply FitsSlots.obj
  · exact .cons rfl (within_some (fits_text h.appId hid (le_refl (127 + 1)))) <|
      .cons rfl (within_some (fits_text h.title htitle (le_refl (127 + 1)))) <|
      .cons rfl (within_some (fits_text h.icon hicon (le_refl (127 + 1)))) .nil
  · show ["app_id", "title", "icon"].Nodup
    decide
  · decide +kernel

theorem fits_volume {volume : Volume} (h : VolumeOk volume) (hvalid : volumeValid volume = true) :
    Fits JsonText (volumeJson volume) 2 volumeRoom := by
  simp only [volumeValid, volumeTextValid, Bool.and_eq_true] at hvalid
  have hlabel := hvalid.1.1.1.2.2
  have hpath := hvalid.1.1.2.2
  have hstate : Fits JsonText (.int volume.state.code) 1 1 := by
    cases volume.state <;> exact Fits.nonneg (by decide) (by decide) (by decide)
  have hprotection : Fits JsonText (.int volume.protection.code) 1 1 := by
    cases volume.protection <;> exact Fits.nonneg (by decide) (by decide) (by decide)
  rw [volumeJson, ← present_some [_, _, _, _, _, _, _]]
  simp only [List.map_cons, List.map_nil]
  apply FitsSlots.obj
  · exact .cons rfl (within_nat h.id) <|
      .cons rfl (within_nat h.mountId) <|
      .cons rfl (within_some hstate) <|
      .cons rfl (within_some hprotection) <|
      .cons rfl within_bool <|
      .cons rfl (within_some (fits_text h.label hlabel (le_refl (95 + 1)))) <|
      .cons rfl (within_some (fits_text h.path hpath (le_refl (4095 + 1)))) .nil
  · show volumeNames.Nodup
    decide
  · decide +kernel

/-! ### The whole packet -/

theorem fits_rows {α : Type} {make : α → Json} {rows : List α} {limit size : ℕ}
    (hlen : rows.length ≤ limit) (h : ∀ row ∈ rows, Fits JsonText (make row) 2 size) :
    Within 3 (some (arrayRoom limit size)) (some (.arr (rows.map make))) := by
  refine within_some (Fits.arr (by simpa using hlen) ?_)
  intro item hitem
  obtain ⟨row, hrow, rfl⟩ := List.mem_map.mp hitem
  exact h row hrow

theorem name_type (type : MessageType) :
    controlFree (ascii type.name) = true ∧ (ascii type.name).length ≤ 16 := by
  cases type <;> decide

theorem name_mode (mode : Mode) :
    controlFree (ascii mode.name) = true ∧ (ascii mode.name).length ≤ 10 := by
  cases mode <;> decide

theorem name_display (display : Power.Display) : controlFree (ascii (displayName display)) = true ∧
    (ascii (displayName display)).length ≤ 3 := by
  cases display <;> decide

theorem name_theme (theme : Theme) :
    controlFree (ascii theme.name) = true ∧ (ascii theme.name).length ≤ 5 := by
  cases theme <;> decide

theorem bounded_cases {type : MessageType} (h : isBounded type = true) :
    type = .active ∨ type = .tasks ∨ type = .documentChoices ∨ type = .storageResult := by
  simpa only [isBounded, Bool.or_eq_true, beq_iff_eq, or_assoc] using h

theorem controlFree_clock {text : List UInt8} (h : clockDataValid text = true) :
    controlFree text = true := by
  rw [clockDataValid, Bool.and_eq_true] at h
  exact h.2

theorem controlFree_label (h : clockPresentationValid message = true) :
    controlFree message.clockPresentation.alarmLabel = true := by
  simp only [clockPresentationValid, Bool.and_eq_true] at h
  exact h.1.2

theorem no_frame (hc : Checked message) (htype : isBounded message.type = true) :
    message.hasFrame = false := by
  cases hframe : message.hasFrame with
  | false => rfl
  | true =>
    have hlaunch := (hc.frame hframe).1
    rw [hlaunch] at htype
    exact absurd htype (by decide)

theorem no_storage (hc : Checked message) (htype : isBounded message.type = true) :
    hasStorage message = false := by
  have hvalid := hc.storage
  have hother : message.type ≠ .setting ∧ message.type ≠ .error := by
    rcases bounded_cases htype with h | h | h | h <;> simp [h]
  rw [storageResultValid] at hvalid
  split at hvalid
  · exact absurd hvalid (by decide)
  · simp only [Bool.and_eq_true, Bool.not_eq_true', beq_iff_eq] at hvalid
    simp [hasStorage, hvalid]

theorem no_path (hc : Checked message) (htype : isBounded message.type = true) :
    message.path = [] := by
  have hvalid := hc.document
  rw [documentFieldsValid] at hvalid
  rcases bounded_cases htype with h | h | h | h
  · simp [h, isDocumentType] at hvalid
    exact hvalid.1.1.1
  · simp [h, isDocumentType] at hvalid
    exact hvalid.1.1.1
  · by_contra hpath
    simp [h, isDocumentType, hpath] at hvalid
  · simp [h, isDocumentType] at hvalid
    exact hvalid.1.1.1

theorem choices_checked (hc : Checked message) (htype : message.type = .documentChoices) :
    message.documentChoices.length ≤ documentChoiceMax ∧
      ∀ choice ∈ message.documentChoices, controlFree choice.appId = true := by
  have hvalid := hc.document
  rw [documentFieldsValid, htype] at hvalid
  simp only [isDocumentType] at hvalid
  split at hvalid
  · rename_i hno
    exact absurd hno (by decide)
  · split at hvalid
    · exact absurd hvalid (by decide)
    · rename_i hcount
      split at hvalid
      · exact absurd hvalid (by decide)
      · split at hvalid
        · exact absurd hvalid (by decide)
        · split at hvalid
          · exact absurd hvalid (by decide)
          · simp only [Bool.and_eq_true, List.all_eq_true] at hvalid
            refine ⟨by omega, ?_⟩
            intro choice hmem
            exact controlFree_id (hvalid.2 choice hmem).1

theorem volumes_checked (hc : Checked message) (htype : message.type = .storageResult) :
    message.volumeResult.volumes.length ≤ volumeMax ∧
      ∀ volume ∈ message.volumeResult.volumes, volumeValid volume = true := by
  have hvalid := hc.volume
  rw [volumeFieldsValid, htype] at hvalid
  simp only [reduceCtorEq, if_false, ne_eq, not_true] at hvalid
  split at hvalid
  · exact absurd hvalid (by decide)
  · simp only [Bool.and_eq_true, decide_eq_true_iff, List.all_eq_true] at hvalid
    exact ⟨hvalid.1.1.2, hvalid.1.2⟩

theorem tasks_checked (hc : Checked message) (htype : message.type = .tasks) :
    message.tasks.length ≤ taskMax ∧ ∀ task ∈ message.tasks, taskValid task = true := by
  have hvalid := hc.tasks htype
  simp only [tasksValid, Bool.and_eq_true, decide_eq_true_iff, List.all_eq_true] at hvalid
  exact ⟨hvalid.1.1.1, hvalid.1.2⟩

theorem within_token (h : Ok message) (hactivate : (message.type == .activate) = false)
    (hclose : (message.type == .closeTask) = false) :
    Within 3 (room message.type .token) (value message .token) := by
  rw [value, hactivate, hclose, Bool.false_or, Bool.false_or]
  refine within_roomIf ?_ ?_
  · intro hactive
    rw [hactive, Bool.true_and, only]
    split
    · exact within_nat h.token
    · exact within_none
  · intro hno
    rw [hno]
    rfl

theorem within_tasks (h : Ok message) (hc : Checked message) :
    Within 3 (room message.type .tasks) (value message .tasks) := by
  refine within_roomIf ?_ ?_
  · intro htasks
    obtain ⟨hlen, hall⟩ := tasks_checked hc (beq_iff_eq.mp htasks)
    rw [value, htasks, Bool.true_and, only]
    split
    · exact fits_rows hlen fun task hmem => fits_task (h.tasks task hmem) (hall task hmem)
    · exact within_none
  · intro hno
    rw [value, hno]
    rfl

theorem within_choices (h : Ok message) (hc : Checked message)
    (hfree : ∀ text ∈ labels message, controlFree text = true) :
    Within 3 (room message.type .documentChoices) (value message .documentChoices) := by
  refine within_only fun hchoices => ?_
  obtain ⟨hlen, hall⟩ := choices_checked hc (beq_iff_eq.mp hchoices)
  refine fits_rows hlen fun choice hmem => ?_
  have hlabel : ∀ text ∈ [choice.title, choice.icon], controlFree text = true :=
    fun text htext => hfree text (List.mem_append_right _ (List.mem_flatMap.mpr
      ⟨choice, hmem, htext⟩))
  exact fits_choice (h.documentChoices choice hmem) (hall choice hmem)
    (hlabel _ (by simp)) (hlabel _ (by simp))

/-- **Every member stays within its room.** -/
theorem within_value (h : Ok message) (hc : Checked message)
    (hfree : ∀ text ∈ labels message, controlFree text = true)
    (htype : isBounded message.type = true) (field : Field) :
    Within 3 (room message.type field) (value message field) := by
  have hcommon : ∀ text ∈ commonLabels message, controlFree text = true :=
    fun text hmem => hfree text (List.mem_append_left _ hmem)
  simp only [commonLabels, List.forall_mem_cons, List.not_mem_nil, false_implies, implies_true,
    and_true] at hcommon
  obtain ⟨happ, hactive, hselected, htitle, hleft, hcentre, hright, hreason, hlocale, hname,
    hvalue, hnotice⟩ := hcommon
  have hframe := no_frame hc htype
  have hstorage := no_storage hc htype
  have hother : ∀ type : MessageType, isBounded type = false → (message.type == type) = false := by
    intro type hno
    rw [beq_eq_false_iff_ne]
    rintro rfl
    rw [hno] at htype
    cases htype
  have hlaunch : (message.type == .launch || message.hasFrame) = false := by
    rw [hother .launch rfl, hframe]
    rfl
  cases field with
  | type => exact within_name (ascii_type _) (name_type _).1 (name_type _).2
  | mode => exact within_name (ascii_mode _) (name_mode _).1 (name_mode _).2
  | display => exact within_name (ascii_display _) (name_display _).1 (name_display _).2
  | theme => exact within_name (ascii_theme _) (name_theme _).1 (name_theme _).2
  | appId => exact within_text h.appId happ (le_refl (127 + 1))
  | activeId => exact within_text h.activeId hactive (le_refl (127 + 1))
  | selectedId => exact within_text h.selectedId hselected (le_refl (127 + 1))
  | title => exact within_text h.title htitle (le_refl (127 + 1))
  | left => exact within_text h.left hleft (le_refl (127 + 1))
  | centre => exact within_text h.centre hcentre (le_refl (127 + 1))
  | right => exact within_text h.right hright (le_refl (127 + 1))
  | reason => exact within_text h.reason hreason (le_refl (127 + 1))
  | value => exact within_text h.value hvalue (le_refl (127 + 1))
  | name => exact within_text h.name hname (le_refl (31 + 1))
  | notice => exact within_text h.notice hnotice (le_refl (31 + 1))
  | locale => exact within_text h.locale hlocale (le_refl (7 + 1))
  | screenWidth => exact within_int h.screenWidth
  | screenHeight => exact within_int h.screenHeight
  | battery => exact within_int h.battery
  | locked => exact within_bool
  | visible => exact within_bool
  | enabled => exact within_bool
  | charging => exact within_bool
  | serial =>
    rw [value, only]
    split
    · exact within_nat h.serial
    · exact within_none
  | clock =>
    refine within_roomIf ?_ ?_
    · intro _
      exact within_text h.clockData (controlFree_clock hc.clockData) (le_refl (16383 + 1))
    · intro hno
      rw [value, hc.clockType (fun hclock => ?_) (beq_eq_false_iff_ne.mp hno)]
      · rfl
      · exact absurd hclock (beq_eq_false_iff_ne.mp (hother .clock rfl))
  | clockPresentation =>
    refine within_only fun _ => within_some ?_
    have hfits := fits_clockPresentation h.clockPresentation (controlFree_label hc.presentation)
    exact hfits.mono (Nat.le_succ 2) le_rfl
  | inputLocale =>
    rw [value, hother .config rfl, Bool.false_or]
    refine within_only fun _ => ?_
    exact within_text h.inputLocale (controlFree_letters hc.inputLocale) (le_refl (7 + 1))
  | token => exact within_token h (hother .activate rfl) (hother .closeTask rfl)
  | tasks => exact within_tasks h hc
  | documentChoices => exact within_choices h hc hfree
  | volumeError => exact within_only fun _ => within_int h.volumeError
  | homePersistent => exact within_only fun _ => within_bool
  | volumes =>
    refine within_only fun hresult => ?_
    obtain ⟨hlen, hall⟩ := volumes_checked hc (beq_iff_eq.mp hresult)
    exact fits_rows hlen fun volume hmem => fits_volume (h.volumes volume hmem) (hall volume hmem)
  | width => exact within_absent hlaunch
  | height => exact within_absent hlaunch
  | lifecycle => exact within_absent (hother .lifecycle rfl)
  | audio => exact within_absent (hother .config rfl)
  | vibration => exact within_absent (hother .config rfl)
  | pattern => exact within_absent (hother .vibrate rfl)
  | repeats => exact within_absent (hother .vibrate rfl)
  | applied => exact within_absent hstorage
  | storageState => exact within_absent hstorage
  | storageError => exact within_absent hstorage
  | activation => exact within_absent (hother .activation rfl)
  | path =>
    rw [value, no_path hc htype, only]
    split
    · exact within_none
    · exact within_none
  | documentStatus => exact within_absent (hother .documentResult rfl)
  | documentError => exact within_absent (hother .documentResult rfl)
  | volumeOperation => exact within_absent (hother .storageRequest rfl)
  | volumeId => exact within_absent (hother .storageRequest rfl)

/-! ### Main result -/

theorem fitsSlots_fields (hroom : ∀ field, Within 3 (room message.type field) (value message field))
    (fields : List Field) :
    FitsSlots 3 (fields.map fun field => (field.key, value message field))
      (fields.map fun field => cost field.key (room message.type field)).sum := by
  induction fields with
  | nil => exact .nil
  | cons field fields ih => exact .cons (isName_key field) (hroom field) ih

/-- **No packet is too long.**  Take a message of one of the four types, with strings
that fit their fields and have no control characters: what passes the sender's checks
prints to fewer bytes than the receiver's buffer has, so a send that fails has failed
one of the checks. -/
theorem send_fits {message : Message} (h : Ok message)
    (hfree : ∀ text ∈ labels message, controlFree text = true)
    (htype : isBounded message.type = true) :
    (sendable message = true → (Json.print (.obj (members message))).length < packetBytes) ∧
      (send message = none ↔ sendable message = false) := by
  have hlen : sendable message = true →
      (Json.print (.obj (members message))).length < packetBytes := by
    intro hsend
    have hslots := fitsSlots_fields (within_value h (checked_of_sendable hsend) hfree htype)
      (fieldOrder message.type)
    have hnodup : (((fieldOrder message.type).map fun field =>
        (field.key, value message field)).map Prod.fst).Nodup := by
      rw [List.map_map]
      exact (fieldOrder_perm message.type).1.map fun a b hab => key_inj hab
    have hfits := hslots.obj hnodup le_rfl
    exact hfits.length_le.trans_lt (sum_cost_lt message.type htype)
  refine ⟨hlen, ?_⟩
  rw [send]
  cases hsend : sendable message with
  | true => simp [hlen hsend]
  | false => simp

theorem Ok.of_type (h : Ok message) (type : MessageType) : Ok { message with type := type } :=
  { appId := h.appId, activeId := h.activeId, selectedId := h.selectedId, title := h.title
    left := h.left, centre := h.centre, right := h.right, reason := h.reason, width := h.width
    height := h.height, screenWidth := h.screenWidth, screenHeight := h.screenHeight
    locale := h.locale, inputLocale := h.inputLocale, name := h.name, value := h.value
    battery := h.battery, notice := h.notice, serial := h.serial, token := h.token
    tasks := h.tasks, clockData := h.clockData, clockPresentation := h.clockPresentation
    pattern := h.pattern, storageError := h.storageError, path := h.path
    documentError := h.documentError, documentChoices := h.documentChoices
    volumeId := h.volumeId, volumeError := h.volumeError, volumes := h.volumes }

/-- A title of letters is relayed. -/
theorem send_fits_notes :
    send { titled (ascii "Notes") with type := .active } ≠ none := by
  have hok := (ok_titled (@text_ascii textBytes (ascii "Notes") (by decide) (by decide +kernel)))
  have hfits := (send_fits (hok.of_type .active) (by decide +kernel) (by decide)).2
  rw [ne_eq, hfits]
  decide

end UiSession
