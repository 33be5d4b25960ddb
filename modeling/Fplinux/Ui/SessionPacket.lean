/-
The packet of a message, as the receiver finds it (`fplinux-ui-session.c`).

json-c is assumed to read back what it printed (`Inverts`).  Then the receiver
finds under each name the member that the sender put there, and the reader of a
member gives back what was written.

Main results:
- `tokener_members`, `lookup_members`: the receiver finds each field as it was sent;
- `getString_addString`, `getChoice_name` and their like: the readers of one member;
- `checked_of_sendable`: what the sender checked.
-/
import Mathlib.Data.List.Nodup
import Fplinux.Lib.JsonReader
import Fplinux.Ui.SessionReceive

namespace UiSession

open Bytes (byte ascii)
open Clock (StorageState storageName)
open List (all_eq_true forall_mem_cons map_cons map_nil mem_cons_self mem_map not_mem_nil)
open Power (Display)

/-! ### Members by name -/

variable {name : String} {slots : List (String × Option Json)} {bytes : List UInt8}
  {capacity depth n : ℕ} {message : Message}

theorem lookup_present_none (h : name ∉ slots.map Prod.fst) :
    (present slots).lookup name = none := by
  rw [List.lookup_eq_none_iff]
  intro entry hentry
  obtain ⟨slot, hslot, hsome⟩ := List.mem_filterMap.mp hentry
  obtain ⟨json, -, rfl⟩ := Option.map_eq_some_iff.mp hsome
  rw [bne_iff_ne]
  rintro rfl
  exact h (List.mem_map_of_mem hslot)

theorem lookup_present (hnodup : (slots.map Prod.fst).Nodup) {json : Option Json}
    (h : (name, json) ∈ slots) :
    (present slots).lookup name = json := by
  induction slots with
  | nil => simp at h
  | cons slot slots ih =>
    obtain ⟨name', json'⟩ := slot
    rw [map_cons, List.nodup_cons] at hnodup
    rcases List.mem_cons.mp h with heq | hmem
    · obtain ⟨rfl, rfl⟩ := Prod.mk.inj heq
      cases json with
      | none =>
        show (present slots).lookup name = none
        exact lookup_present_none hnodup.1
      | some value => exact List.lookup_cons_self
    · have hne : name ≠ name' := by
        rintro rfl
        exact hnodup.1 (mem_map.mpr ⟨_, hmem, rfl⟩)
      cases json' with
      | none => exact ih hnodup.2 hmem
      | some value =>
        show ((name', value) :: present slots).lookup name = json
        rw [List.lookup_cons, beq_eq_false_iff_ne.mpr hne]
        exact ih hnodup.2 hmem

theorem mem_fields (field : Field) : field ∈ fields := by
  cases field <;> decide

theorem nodup_keys : (fields.map Field.key).Nodup := by decide

theorem key_inj {a b : Field} (h : a.key = b.key) : a = b :=
  List.inj_on_of_nodup_map nodup_keys (mem_fields a) (mem_fields b) h

theorem kind_cases (type : MessageType) :
    isStorageType type = true ∧ isDocumentType type = false ∨
      isStorageType type = false ∧ isDocumentType type = true ∨
      isStorageType type = false ∧ isDocumentType type = false := by
  cases type <;> decide

theorem fieldOrder_perm (type : MessageType) :
    (fieldOrder type).Nodup ∧ ∀ field ∈ fields, field ∈ fieldOrder type := by
  rcases kind_cases type with ⟨hs, hd⟩ | ⟨hs, hd⟩ | ⟨hs, hd⟩
  all_goals
    simp only [fieldOrder, hs, hd]
    decide

theorem lookup_members (message : Message) (field : Field) :
    (members message).lookup field.key = value message field := by
  obtain ⟨hnodup, hmem⟩ := fieldOrder_perm message.type
  refine lookup_present ?_ (List.mem_map_of_mem (hmem field (mem_fields field)))
  rw [List.map_map]
  exact hnodup.map fun a b hab => key_inj hab

theorem knows_members (message : Message) : hasOnlyKnownFields (members message) = true := by
  rw [hasOnlyKnownFields, all_eq_true]
  intro entry hentry
  obtain ⟨slot, hslot, hsome⟩ := List.mem_filterMap.mp hentry
  obtain ⟨field, -, rfl⟩ := mem_map.mp hslot
  obtain ⟨json, -, rfl⟩ := Option.map_eq_some_iff.mp hsome
  rw [List.any_eq_true]
  exact ⟨field, mem_fields field, by simp⟩

/-! ### Text -/

/-- The content of a character array: terminated, and valid UTF-8. -/
structure Text (capacity : ℕ) (bytes : List UInt8) : Prop where
  length_lt : bytes.length < capacity
  no_zero : 0 ∉ bytes
  utf8 : ∃ values, Utf8.Decodes bytes values

/-- What json-c is given to print. -/
def JsonText (bytes : List UInt8) : Prop := 0 ∉ bytes ∧ ∃ values, Utf8.Decodes bytes values

/-- json-c reads back the plain text it printed of a value of text, 64-bit
integers and booleans that does not nest too deep. -/
def Inverts (tokener : Tokener) : Prop :=
  ∀ value : Json, value.Plain JsonText → value.height < 32 →
    tokener (Json.print value) = some value

theorem Text.json (h : Text capacity bytes) : JsonText bytes :=
  ⟨h.no_zero, h.utf8⟩

theorem jsonText_of_ascii (h : ∀ b ∈ bytes, 0 < b.toNat ∧ b.toNat < 0x80) : JsonText bytes := by
  constructor
  · intro hzero
    exact absurd (h 0 hzero).1 (by decide)
  · exact ⟨_, Utf8.decodes_ascii fun b hb => (h b hb).2⟩

/-- Every byte is a character of ASCII. -/
def isAscii (name : String) : Bool :=
  (ascii name).all fun b => 0 < b.toNat && b.toNat < 0x80

theorem jsonText_name (h : isAscii name = true) : JsonText (ascii name) := by
  refine jsonText_of_ascii fun b hb => ?_
  simpa using all_eq_true.mp h b hb

theorem jsonText_decimal (n : ℕ) : JsonText (Json.decimal n) := by
  refine jsonText_of_ascii fun b hb => ?_
  have hdigit := Json.decimal_mem hb
  omega

/-! ### What a message may hold -/

def IsInt (n : ℤ) : Prop := -2 ^ 31 ≤ n ∧ n < 2 ^ 31

structure TaskOk (task : Task) : Prop where
  appId : Text idBytes task.appId
  title : Text textBytes task.title
  token : task.token < 2 ^ 32

structure ChoiceOk (choice : DocumentChoice) : Prop where
  appId : Text idBytes choice.appId
  title : Text textBytes choice.title
  icon : Text textBytes choice.icon

structure VolumeOk (volume : Volume) : Prop where
  id : volume.id < 2 ^ 32
  mountId : volume.mountId < 2 ^ 32
  label : Text labelBytes volume.label
  path : Text pathBytes volume.path

structure ClockOk (clock : ClockPresentation) : Prop where
  alarmUtc : -2 ^ 63 ≤ clock.alarmUtc ∧ clock.alarmUtc < 2 ^ 63
  snoozeDeadlineMs : clock.snoozeDeadlineMs < 2 ^ 64
  alarmLabel : Text (textBytes + 1) clock.alarmLabel
  timerDeadlineMs : clock.timerDeadlineMs < 2 ^ 64
  timerRemainingMs : clock.timerRemainingMs < 2 ^ 64
  missedTotal : clock.missedTotal < 2 ^ 64

/-- The record is one of C: its strings are terminated and valid UTF-8, its
numbers are in the range of their types. -/
structure Ok (message : Message) : Prop where
  appId : Text idBytes message.appId
  activeId : Text idBytes message.activeId
  selectedId : Text idBytes message.selectedId
  title : Text textBytes message.title
  left : Text textBytes message.left
  centre : Text textBytes message.centre
  right : Text textBytes message.right
  reason : Text textBytes message.reason
  width : IsInt message.width
  height : IsInt message.height
  screenWidth : IsInt message.screenWidth
  screenHeight : IsInt message.screenHeight
  locale : Text localeBytes message.locale
  inputLocale : Text localeBytes message.inputLocale
  name : Text nameBytes message.name
  value : Text textBytes message.value
  battery : IsInt message.battery
  notice : Text nameBytes message.notice
  serial : message.serial < 2 ^ 32
  token : message.token < 2 ^ 32
  tasks : ∀ task ∈ message.tasks, TaskOk task
  clockData : Text clockBytes message.clockData
  clockPresentation : ClockOk message.clockPresentation
  pattern : ∀ n ∈ message.pattern, n < 2 ^ 32
  storageError : IsInt message.storageError
  path : Text pathBytes message.path
  documentError : IsInt message.documentError
  documentChoices : ∀ choice ∈ message.documentChoices, ChoiceOk choice
  volumeId : message.volumeId < 2 ^ 32
  volumeError : IsInt message.volumeResult.error
  volumes : ∀ volume ∈ message.volumeResult.volumes, VolumeOk volume

/-- The message without the fields that its type does not carry. -/
def carried (message : Message) : Message :=
  { message with
    serial :=
      if isStorageType message.type || isDocumentType message.type || carriesSerial message.type then
        message.serial
      else 0
    width := if message.type = .launch then message.width else 0
    height := if message.type = .launch then message.height else 0
    frameFd := if message.hasFrame then message.frameFd else 0
    lifecycle := if message.type = .lifecycle then message.lifecycle else .foreground
    token :=
      if message.type = .activate ∨ message.type = .closeTask ∨ message.type = .active then
        message.token
      else 0
    hasTasks := message.type = .tasks && message.hasTasks
    tasks := if message.type = .tasks then message.tasks else [] }

/-- The strings that any type may have, but for the language of the keypad. -/
def commonLabels (message : Message) : List (List UInt8) :=
  [message.appId, message.activeId, message.selectedId, message.title, message.left,
   message.centre, message.right, message.reason, message.locale, message.name, message.value,
   message.notice]

/-- The strings of which only the receiver checks that they have no control
characters. -/
def labels (message : Message) : List (List UInt8) :=
  commonLabels message ++
    message.documentChoices.flatMap fun choice => [choice.title, choice.icon]

/-- What the receiver checks and the sender does not. -/
def Readable (message : Message) : Prop :=
  (-1 ≤ message.battery ∧ message.battery ≤ 100) ∧ ∀ text ∈ labels message, controlFree text = true

/-! ### json-c reads the packet back -/

/-- A member, if it is there, is text, 64-bit integers and booleans, and at most
so deep. -/
def Fine (depth : ℕ) (json : Option Json) : Prop :=
  ∀ value, json = some value → value.Plain JsonText ∧ value.height ≤ depth

theorem fine_none : Fine depth none := fun _ h => by simp at h

theorem Fine.mono {depth' : ℕ} {json : Option Json} (h : Fine depth json) (hle : depth ≤ depth') :
    Fine depth' json :=
  fun value hvalue => ⟨(h value hvalue).1, (h value hvalue).2.trans hle⟩

theorem fine_str (h : JsonText bytes) : Fine depth (some (.str bytes)) := by
  rintro _ ⟨⟩
  exact ⟨h, Nat.zero_le _⟩

theorem fine_addString (h : JsonText bytes) : Fine depth (addString bytes) := by
  rw [addString]
  split
  · exact fine_none
  · exact fine_str h

theorem fine_bool {b : Bool} : Fine depth (some (.bool b)) := by
  rintro _ ⟨⟩
  exact ⟨trivial, Nat.zero_le _⟩

theorem fine_nat (h : n < 2 ^ 32) : Fine depth (some (.int n)) := by
  rintro _ ⟨⟩
  refine ⟨?_, Nat.zero_le _⟩
  show -2 ^ 63 ≤ (n : ℤ) ∧ (n : ℤ) < 2 ^ 64
  omega

theorem fine_int {n : ℤ} (h : IsInt n) : Fine depth (some (.int n)) := by
  rintro _ ⟨⟩
  refine ⟨?_, Nat.zero_le _⟩
  show -2 ^ 63 ≤ n ∧ n < 2 ^ 64
  rw [IsInt] at h
  omega

theorem fine_only {kind : Bool} {json : Option Json} (h : Fine depth json) :
    Fine depth (only kind json) := by
  rw [only]
  split
  · exact h
  · exact fine_none

theorem fine_clockNumber : Fine depth (addClockNumber n) := by
  rw [addClockNumber]
  split
  · exact fine_none
  · exact fine_addString (jsonText_decimal n)

theorem fine_arr {items : List Json} (h : ∀ item ∈ items, Fine depth (some item)) :
    Fine (depth + 1) (some (.arr items)) := by
  rintro _ ⟨⟩
  have hall : Json.PlainItems JsonText items ∧ Json.heightItems items ≤ depth := by
    induction items with
    | nil => exact ⟨trivial, Nat.zero_le _⟩
    | cons item items ih =>
      obtain ⟨hplain, hheight⟩ := h item mem_cons_self _ rfl
      obtain ⟨hplains, hheights⟩ := ih fun i hi => h i (List.mem_cons_of_mem _ hi)
      exact ⟨⟨hplain, hplains⟩, Nat.max_le.mpr ⟨hheight, hheights⟩⟩
  refine ⟨hall.1, ?_⟩
  rw [Json.height]
  omega

theorem sublist_present (slots : List (String × Option Json)) :
    ((present slots).map Prod.fst).Sublist (slots.map Prod.fst) := by
  induction slots with
  | nil => exact List.Sublist.refl _
  | cons slot slots ih =>
    obtain ⟨name, json⟩ := slot
    cases json with
    | none => exact ih.cons _
    | some value => exact ih.cons_cons _

theorem fine_obj (hnodup : (slots.map Prod.fst).Nodup)
    (hname : ∀ slot ∈ slots, Json.isName slot.1 = true) (h : ∀ slot ∈ slots, Fine depth slot.2) :
    Fine (depth + 1) (some (.obj (present slots))) := by
  rintro _ ⟨⟩
  have hall : Json.PlainMembers JsonText (present slots) ∧
      Json.heightMembers (present slots) ≤ depth := by
    clear hnodup
    induction slots with
    | nil => exact ⟨trivial, Nat.zero_le _⟩
    | cons slot slots ih =>
      obtain ⟨name, json⟩ := slot
      have hrest := ih (fun s hs => hname s (List.mem_cons_of_mem _ hs))
        fun s hs => h s (List.mem_cons_of_mem _ hs)
      cases json with
      | none => exact hrest
      | some value =>
        obtain ⟨hplain, hheight⟩ := h _ mem_cons_self _ rfl
        exact ⟨⟨hname _ mem_cons_self, hplain, hrest.1⟩, Nat.max_le.mpr ⟨hheight, hrest.2⟩⟩
  refine ⟨⟨hnodup.sublist (sublist_present slots), hall.1⟩, ?_⟩
  rw [Json.height]
  omega

theorem fine_clockPresentation {clock : ClockPresentation} (h : ClockOk clock) :
    Fine 1 (some (clockPresentationJson clock)) := by
  refine fine_obj ?_ ?_ ?_
  · show clockNames.Nodup
    decide
  · show ∀ slot ∈ _, _
    simp only [clockSlots, forall_mem_cons, not_mem_nil, false_implies, implies_true, and_true]
    decide
  · simp only [clockSlots, forall_mem_cons, not_mem_nil, false_implies, implies_true, and_true]
    exact ⟨fine_bool, fine_clockNumber, fine_clockNumber, fine_addString h.alarmLabel.json,
      fine_clockNumber, fine_clockNumber, fine_clockNumber⟩

theorem ascii_lifecycle (lifecycle : Lifecycle) : isAscii lifecycle.name = true := by
  cases lifecycle <;> decide

theorem fine_task {task : Task} (h : TaskOk task) : Fine 1 (some (taskJson task)) := by
  refine fine_obj ?_ ?_ ?_
  · show ["app_id", "title", "lifecycle", "token"].Nodup
    decide
  · simp only [forall_mem_cons, not_mem_nil, false_implies, implies_true, and_true]
    decide
  · simp only [forall_mem_cons, not_mem_nil, false_implies, implies_true, and_true]
    exact ⟨fine_addString h.appId.json, fine_addString h.title.json,
      fine_addString (jsonText_name (ascii_lifecycle _)), fine_nat h.token⟩

theorem present_some (entries : List (String × Json)) :
    present (entries.map fun entry => (entry.1, some entry.2)) = entries := by
  induction entries with
  | nil => rfl
  | cons entry entries ih => exact congrArg (entry :: ·) ih

theorem fine_choice {choice : DocumentChoice} (h : ChoiceOk choice) :
    Fine 1 (some (documentChoiceJson choice)) := by
  rw [documentChoiceJson, ← present_some [_, _, _]]
  refine fine_obj ?_ ?_ ?_
  · show ["app_id", "title", "icon"].Nodup
    decide
  · simp only [map_cons, map_nil, forall_mem_cons, not_mem_nil, false_implies,
      implies_true, and_true]
    decide
  · simp only [map_cons, map_nil, forall_mem_cons, not_mem_nil, false_implies,
      implies_true, and_true]
    exact ⟨fine_str h.appId.json, fine_str h.title.json, fine_str h.icon.json⟩

theorem isInt_state (state : VolumeState) : IsInt state.code := by
  rw [IsInt]
  cases state <;> decide

theorem isInt_protection (protection : VolumeProtection) : IsInt protection.code := by
  rw [IsInt]
  cases protection <;> decide

theorem fine_volume {volume : Volume} (h : VolumeOk volume) : Fine 1 (some (volumeJson volume)) := by
  rw [volumeJson, ← present_some [_, _, _, _, _, _, _]]
  refine fine_obj ?_ ?_ ?_
  · show volumeNames.Nodup
    decide
  · simp only [map_cons, map_nil, forall_mem_cons, not_mem_nil, false_implies,
      implies_true, and_true]
    decide
  · simp only [map_cons, map_nil, forall_mem_cons, not_mem_nil, false_implies,
      implies_true, and_true]
    exact ⟨fine_nat h.id, fine_nat h.mountId, fine_int (isInt_state _),
      fine_int (isInt_protection _), fine_bool, fine_str h.label.json, fine_str h.path.json⟩

theorem ascii_type (type : MessageType) : isAscii type.name = true := by
  cases type <;> decide

theorem ascii_mode (mode : Mode) : isAscii mode.name = true := by
  cases mode <;> decide

theorem ascii_display (display : Display) : isAscii (displayName display) = true := by
  cases display <;> decide

theorem ascii_theme (theme : Theme) : isAscii theme.name = true := by
  cases theme <;> decide

theorem ascii_activation (activation : Activation) : isAscii activation.name = true := by
  cases activation <;> decide

theorem ascii_status (status : DocumentStatus) : isAscii status.name = true := by
  cases status <;> decide

theorem ascii_operation (operation : VolumeOperation) : isAscii operation.name = true := by
  cases operation <;> decide

theorem ascii_storage (state : StorageState) : isAscii (storageName state) = true := by
  cases state <;> decide

theorem fine_name (h : isAscii name = true) : Fine depth (addString (ascii name)) :=
  fine_addString (jsonText_name h)

theorem fine_value (h : Ok message) (field : Field) : Fine 2 (value message field) := by
  cases field with
  | type => exact fine_name (ascii_type _)
  | mode => exact fine_name (ascii_mode _)
  | display => exact fine_name (ascii_display _)
  | theme => exact fine_name (ascii_theme _)
  | lifecycle => exact fine_only (fine_name (ascii_lifecycle _))
  | activation => exact fine_only (fine_name (ascii_activation _))
  | documentStatus => exact fine_only (fine_name (ascii_status _))
  | volumeOperation => exact fine_only (fine_name (ascii_operation _))
  | storageState => exact fine_only (fine_name (ascii_storage _))
  | appId => exact fine_addString h.appId.json
  | activeId => exact fine_addString h.activeId.json
  | selectedId => exact fine_addString h.selectedId.json
  | title => exact fine_addString h.title.json
  | left => exact fine_addString h.left.json
  | centre => exact fine_addString h.centre.json
  | right => exact fine_addString h.right.json
  | reason => exact fine_addString h.reason.json
  | locale => exact fine_addString h.locale.json
  | inputLocale => exact fine_only (fine_addString h.inputLocale.json)
  | name => exact fine_addString h.name.json
  | value => exact fine_addString h.value.json
  | notice => exact fine_addString h.notice.json
  | clock => exact fine_addString h.clockData.json
  | path => exact fine_only (fine_addString h.path.json)
  | width => exact fine_only (fine_int h.width)
  | height => exact fine_only (fine_int h.height)
  | screenWidth => exact fine_int h.screenWidth
  | screenHeight => exact fine_int h.screenHeight
  | battery => exact fine_int h.battery
  | storageError => exact fine_only (fine_int h.storageError)
  | documentError => exact fine_only (fine_int h.documentError)
  | volumeError => exact fine_only (fine_int h.volumeError)
  | serial => exact fine_only (fine_nat h.serial)
  | token => exact fine_only (fine_nat h.token)
  | volumeId => exact fine_only (fine_nat h.volumeId)
  | locked => exact fine_bool
  | visible => exact fine_bool
  | enabled => exact fine_bool
  | charging => exact fine_bool
  | audio => exact fine_only fine_bool
  | vibration => exact fine_only fine_bool
  | repeats => exact fine_only fine_bool
  | applied => exact fine_only fine_bool
  | homePersistent => exact fine_only fine_bool
  | clockPresentation =>
    exact fine_only ((fine_clockPresentation h.clockPresentation).mono (Nat.le_succ 1))
  | tasks =>
    refine fine_only (fine_arr fun item hitem => ?_)
    obtain ⟨task, htask, rfl⟩ := mem_map.mp hitem
    exact fine_task (h.tasks task htask)
  | pattern =>
    refine fine_only (fine_arr fun item hitem => ?_)
    obtain ⟨n, hn, rfl⟩ := mem_map.mp hitem
    exact fine_nat (h.pattern n hn)
  | documentChoices =>
    refine fine_only (fine_arr fun item hitem => ?_)
    obtain ⟨choice, hchoice, rfl⟩ := mem_map.mp hitem
    exact fine_choice (h.documentChoices choice hchoice)
  | volumes =>
    refine fine_only (fine_arr fun item hitem => ?_)
    obtain ⟨volume, hvolume, rfl⟩ := mem_map.mp hitem
    exact fine_volume (h.volumes volume hvolume)

theorem isName_key (field : Field) : Json.isName field.key = true := by
  cases field <;> decide

theorem tokener_members {tokener : Tokener} (hinv : Inverts tokener) (h : Ok message) :
    tokener (Json.print (.obj (members message))) = some (.obj (members message)) := by
  have hfine : Fine 3 (some (.obj (members message))) := by
    refine fine_obj ?_ ?_ ?_
    · rw [List.map_map]
      exact (fieldOrder_perm message.type).1.map fun a b hab => key_inj hab
    · intro slot hslot
      obtain ⟨field, -, rfl⟩ := mem_map.mp hslot
      exact isName_key field
    · intro slot hslot
      obtain ⟨field, -, rfl⟩ := mem_map.mp hslot
      exact fine_value h field
  obtain ⟨hplain, hheight⟩ := hfine _ rfl
  exact hinv _ hplain (by omega)

/-! ### Readers of one member -/

theorem getString_addString (h : Text capacity bytes) :
    getString (addString bytes) capacity = if controlFree bytes then some bytes else none := by
  rw [addString]
  by_cases hnil : bytes = []
  · rw [if_pos hnil, hnil]
    rfl
  · rw [if_neg hnil]
    have hfits : ¬ (capacity ≤ bytes.length ∨ 0 ∈ bytes) := by
      rw [not_or]
      exact ⟨Nat.not_le.mpr h.length_lt, h.no_zero⟩
    rw [getString, if_neg hfits]

theorem getString_clean (h : Text capacity bytes) (hfree : controlFree bytes = true) :
    getString (addString bytes) capacity = some bytes := by
  rw [getString_addString h, if_pos hfree]

theorem getString_str (h : Text capacity bytes) :
    getString (some (.str bytes)) capacity = if controlFree bytes then some bytes else none := by
  have hfits : ¬ (capacity ≤ bytes.length ∨ 0 ∈ bytes) := by
    rw [not_or]
    exact ⟨Nat.not_le.mpr h.length_lt, h.no_zero⟩
  rw [getString, if_neg hfits]

theorem getInt_int {n : ℤ} (h : IsInt n) : getInt (some (.int n)) = some n := by
  rw [IsInt] at h
  rw [getInt, if_neg (by omega)]

theorem getNumber_nat {least : ℤ} (h : n < 2 ^ 32) (hleast : least ≤ n) :
    getNumber (some (.int n)) least = some n := by
  rw [getNumber, if_neg (by omega), Int.toNat_natCast]

theorem parseDecimal_decimal (h : n < 2 ^ 64) : parseDecimal (Json.decimal n) = some n := by
  have hdigits : (Json.decimal n).all (fun d => byte '0' ≤ d && d ≤ byte '9') = true := by
    rw [all_eq_true]
    intro d hd
    have hdigit := Json.decimal_mem hd
    rw [Bool.and_eq_true, decide_eq_true_iff, decide_eq_true_iff, UInt8.le_iff_toNat_le,
      UInt8.le_iff_toNat_le]
    exact hdigit
  rw [parseDecimal]
  simp only [Json.foldl_decimal, hdigits, h, and_self, if_true]

theorem getClockNumber_add (h : n < 2 ^ 64) : getClockNumber (addClockNumber n) = some n := by
  by_cases hn : n = 0
  · rw [hn]
    rfl
  · have hne : Json.decimal n ≠ [] := Json.decimal_ne_nil n
    have hadd : addClockNumber n = some (.str (Json.decimal n)) := by
      rw [addClockNumber, if_neg hn, addString, if_neg hne]
    have hfree : controlFree (Json.decimal n) = true := by
      rw [controlFree, all_eq_true]
      intro d hd
      have hdigit := Json.decimal_mem hd
      rw [Bool.and_eq_true, decide_eq_true_iff, bne_iff_ne]
      omega
    have hlength : (Json.decimal n).length ≤ 19 + 1 := Json.decimal_length_le (by omega)
    have htext : Text 21 (Json.decimal n) := by
      obtain ⟨hzero, hutf8⟩ := jsonText_decimal n
      exact ⟨by omega, hzero, hutf8⟩
    rw [hadd]
    simp only [getClockNumber, getString_str htext, hfree, if_true, Option.bind_eq_bind,
      Option.bind_some, hne, if_false, parseDecimal_decimal h]

section

variable {α : Type}

/-- The names of a table are told apart by their bytes. -/
def isTable (name : α → String) (choices : List α) : Bool :=
  ((choices.map fun choice => ascii (name choice)).Nodup : Bool) &&
    choices.all fun choice => isAscii (name choice) && ascii (name choice) != []

theorem getChoice_name (name : α → String) (choices : List α) (fallback : Option α)
    (h : isTable name choices = true) {choice : α} (hmem : choice ∈ choices) :
    getChoice (addString (ascii (name choice))) name choices fallback = some choice := by
  rw [isTable, Bool.and_eq_true, decide_eq_true_iff, all_eq_true] at h
  have hrow := h.2 choice hmem
  rw [Bool.and_eq_true, bne_iff_ne] at hrow
  have hzero : 0 ∉ ascii (name choice) := (jsonText_name hrow.1).1
  rw [addString, if_neg hrow.2, getChoice, if_neg hzero, if_neg hrow.2]
  cases hfind : choices.find? fun other => ascii (name choice) = ascii (name other) with
  | none =>
    have hno := List.find?_eq_none.mp hfind choice hmem
    simp at hno
  | some other =>
    have hsame : ascii (name choice) = ascii (name other) := by
      simpa using List.find?_some hfind
    rw [List.inj_on_of_nodup_map h.1 (List.mem_of_find?_eq_some hfind) hmem hsame.symm]

end

theorem getString_some {read : List UInt8} (h : Text capacity bytes)
    (hread : getString (addString bytes) capacity = some read) : controlFree bytes = true := by
  rw [getString_addString h] at hread
  split at hread
  · assumption
  · exact nomatch hread

/-! ### What the sender checked -/

/-- `sendable`, field by field. -/
structure Checked (message : Message) : Prop where
  inputLocale : inputLocaleValid message.inputLocale = true
  clockData : clockDataValid message.clockData = true
  presentation : clockPresentationValid message = true
  storage : storageResultValid message = true
  document : documentFieldsValid message = true
  volume : volumeFieldsValid message = true
  media : message.type ≠ .config → message.audio = false ∧ message.vibration = false
  pattern : message.type ≠ .vibrate → message.pattern = [] ∧ message.repeats = false
  vibrate : message.type = .vibrate → vibrateValid message = true
  localeType : message.type ≠ .config → message.type ≠ .active → message.inputLocale = []
  clockType : message.type ≠ .clock → message.type ≠ .active → message.clockData = []
  activation : message.type ≠ .activation → message.activation = .open
  tasks : message.type = .tasks → tasksValid message = true
  task : message.type = .activate ∨ message.type = .closeTask →
    taskIdValid message.appId = true ∧ message.token ≠ 0
  active : message.type = .active → message.token ≠ 0 → taskIdValid message.activeId = true
  frame : message.hasFrame = true →
    message.type = .launch ∧ frameDimensionsValid message = true
  serial : needsSerial message.type = true → message.serial ≠ 0
  reply : message.type = .closeReply → closeResponseValid message.value = true

theorem checked_of_sendable (h : sendable message = true) : Checked message := by
  simp only [sendable, Bool.and_eq_true, Bool.not_eq_true', Bool.and_eq_false_iff,
    Bool.or_eq_false_iff, bne_eq_false_iff_eq, beq_eq_false_iff_ne, Bool.not_eq_false',
    frameMessageValid, beq_iff_eq, decide_eq_false_iff_not] at h
  obtain ⟨⟨⟨⟨⟨⟨⟨⟨⟨⟨⟨⟨⟨⟨⟨⟨⟨h1, h2⟩, h3⟩, h4⟩, h5⟩, h6⟩, h7⟩, h8⟩, h9⟩, h10⟩, h11⟩, h12⟩, h13⟩, h14⟩,
    h15⟩, h16⟩, h17⟩, h18⟩ := h
  constructor
  case inputLocale => exact h1
  case clockData => exact h2
  case presentation => exact h3
  case storage => exact h4
  case document => exact h5
  case volume => exact h6
  case media => exact fun hne => h7.resolve_right hne
  case pattern => exact fun hne => h8.resolve_right hne
  case vibrate => exact fun htype => h9.resolve_left (not_not_intro htype)
  case localeType => exact fun hc ha => (h10.resolve_right ha).resolve_right hc
  case clockType => exact fun hc ha => (h11.resolve_right ha).resolve_right hc
  case activation => exact fun hne => h12.resolve_left hne
  case tasks => exact fun htype => h13.resolve_left (not_not_intro htype)
  case task =>
    intro htype
    refine h14.resolve_left fun hno => ?_
    exact htype.elim hno.1 hno.2
  case active =>
    intro htype htoken
    refine h15.resolve_left fun hno => ?_
    exact hno.elim (fun hne => hne htype) htoken
  case frame =>
    intro hframe
    obtain ⟨⟨htype, -⟩, hdimensions⟩ := h16.resolve_left (by rw [hframe]; decide)
    exact ⟨htype, hdimensions⟩
  case serial => exact fun hneeds => h17.resolve_left (by rw [hneeds]; decide)
  case reply => exact fun htype => h18.resolve_left (not_not_intro htype)

end UiSession
