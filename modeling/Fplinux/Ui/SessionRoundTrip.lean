/-
What is sent is received (`fplinux-ui-session.c`).

`fplinux_ui_session_send` checks most fields as the receiver does.  It does not
check that the battery is a percentage or -1, nor that labels and identifiers have
no control characters, which the receiver rejects.

Main results:
- `receive_send`: a packet is received as the message it was sent for exactly when
  the message is readable in this sense;
- `tab_rejected`: a label with a tab is sent, and rejected.
-/
import Fplinux.Ui.SessionPacket

namespace UiSession

open Bytes (byte ascii)
open Clock (storageName storageStates)
open Json (mapM_make)
open List (all_eq_true forall_mem_cons length_cons length_map length_nil lookup_cons mapM_nil
  map_nil)
open Option (bind_eq_bind bind_eq_some_iff bind_none bind_some isNone_none map_some pure_def)

variable {message : Message}

/-! ### Fields of any type -/

theorem readChoices_value (message : Message) :
    readChoices (value message) =
      some { type := message.type, mode := message.mode, display := message.display
             theme := message.theme } := by
  have htype := getChoice_name MessageType.name messageTypes none (by decide)
    (show message.type ∈ messageTypes by cases message.type <;> decide)
  have hmode := getChoice_name Mode.name modes (some .launcher) (by decide)
    (show message.mode ∈ modes by cases message.mode <;> decide)
  have hdisplay := getChoice_name displayName displays (some .on) (by decide)
    (show message.display ∈ displays by cases message.display <;> decide)
  have htheme := getChoice_name Theme.name themes (some .light) (by decide)
    (show message.theme ∈ themes by cases message.theme <;> decide)
  simp only [readChoices, value, htype, hmode, hdisplay, htheme, bind_eq_bind,
    bind_some, pure_def]

theorem value_inputLocale (h : Checked message) :
    value message .inputLocale = addString message.inputLocale := by
  rw [value, only]
  split
  · rfl
  · rename_i hne
    rw [Bool.or_eq_true, not_or, beq_iff_eq, beq_iff_eq] at hne
    rw [h.localeType hne.1 hne.2]
    rfl

variable {bytes : List UInt8} {read a b : Message} {json : Option Json} {kind : Bool}

theorem controlFree_letters (h : inputLocaleValid bytes = true) : controlFree bytes = true := by
  rw [inputLocaleValid, Bool.or_eq_true, beq_iff_eq, Bool.and_eq_true] at h
  rcases h with rfl | ⟨-, hletters⟩
  · rfl
  · rw [controlFree, all_eq_true]
    intro b hb
    have hletter := all_eq_true.mp hletters b hb
    rw [Bool.and_eq_true, decide_eq_true_iff, decide_eq_true_iff, UInt8.le_iff_toNat_le,
      UInt8.le_iff_toNat_le] at hletter
    have ha : (byte 'a').toNat = 97 := rfl
    have hz : (byte 'z').toNat = 122 := rfl
    rw [Bool.and_eq_true, decide_eq_true_iff, bne_iff_ne]
    omega

theorem readStrings_value (hok : Ok message) (hchecked : Checked message)
    (hfree : ∀ text ∈ commonLabels message, controlFree text = true) (read : Message) :
    readStrings (value message) read =
      some { read with
        appId := message.appId, activeId := message.activeId, selectedId := message.selectedId
        title := message.title, left := message.left, centre := message.centre
        right := message.right, reason := message.reason, locale := message.locale
        inputLocale := message.inputLocale, name := message.name, value := message.value
        notice := message.notice } := by
  have hlocale := getString_clean hok.inputLocale (controlFree_letters hchecked.inputLocale)
  rw [← value_inputLocale hchecked, value] at hlocale
  simp only [commonLabels, forall_mem_cons] at hfree
  obtain ⟨h1, h2, h3, h4, h5, h6, h7, h8, h9, h10, h11, h12, -⟩ := hfree
  simp only [readStrings, hlocale, value, getString_clean hok.appId h1,
    getString_clean hok.activeId h2, getString_clean hok.selectedId h3,
    getString_clean hok.title h4, getString_clean hok.left h5, getString_clean hok.centre h6,
    getString_clean hok.right h7, getString_clean hok.reason h8, getString_clean hok.locale h9,
    getString_clean hok.name h10, getString_clean hok.value h11, getString_clean hok.notice h12,
    hchecked.inputLocale, ensure, if_true, bind_eq_bind, bind_some, pure_def]

theorem controlFree_of_readStrings (hok : Ok message) {read' : Message}
    (h : readStrings (value message) read = some read') :
    ∀ text ∈ commonLabels message, controlFree text = true := by
  obtain ⟨_, h1, h⟩ := bind_eq_some_iff.mp h
  obtain ⟨_, h2, h⟩ := bind_eq_some_iff.mp h
  obtain ⟨_, h3, h⟩ := bind_eq_some_iff.mp h
  obtain ⟨_, h4, h⟩ := bind_eq_some_iff.mp h
  obtain ⟨_, h5, h⟩ := bind_eq_some_iff.mp h
  obtain ⟨_, h6, h⟩ := bind_eq_some_iff.mp h
  obtain ⟨_, h7, h⟩ := bind_eq_some_iff.mp h
  obtain ⟨_, h8, h⟩ := bind_eq_some_iff.mp h
  obtain ⟨_, h9, h⟩ := bind_eq_some_iff.mp h
  -- The language of the keypad, and the check of it.
  obtain ⟨_, -, h⟩ := bind_eq_some_iff.mp h
  obtain ⟨_, -, h⟩ := bind_eq_some_iff.mp h
  obtain ⟨_, h10, h⟩ := bind_eq_some_iff.mp h
  obtain ⟨_, h11, h⟩ := bind_eq_some_iff.mp h
  obtain ⟨_, h12, -⟩ := bind_eq_some_iff.mp h
  simp only [commonLabels, forall_mem_cons, List.not_mem_nil, false_implies, implies_true, and_true]
  exact ⟨getString_some hok.appId h1, getString_some hok.activeId h2,
    getString_some hok.selectedId h3, getString_some hok.title h4, getString_some hok.left h5,
    getString_some hok.centre h6, getString_some hok.right h7, getString_some hok.reason h8,
    getString_some hok.locale h9, getString_some hok.name h10, getString_some hok.value h11,
    getString_some hok.notice h12⟩

theorem launch_frame (h : Checked message) :
    (message.type == .launch || message.hasFrame) = decide (message.type = .launch) := by
  cases hframe : message.hasFrame with
  | false => rw [Bool.or_false, Bool.beq_eq_decide_eq]
  | true =>
    rw [(h.frame hframe).1]
    rfl

theorem getInt_only {n : ℤ} (h : IsInt n) (kind : Bool) :
    getInt (only kind (some (.int n))) = some (if kind then n else 0) := by
  cases kind with
  | false => rfl
  | true => exact getInt_int h

theorem readNumbers_value (hok : Ok message) (hchecked : Checked message)
    (hbattery : -1 ≤ message.battery ∧ message.battery ≤ 100) (read : Message) :
    readNumbers (value message) read =
      some { read with
        width := (carried message).width, height := (carried message).height
        screenWidth := message.screenWidth, screenHeight := message.screenHeight
        locked := message.locked, visible := message.visible, enabled := message.enabled
        battery := message.battery, charging := message.charging } := by
  have hpercent : (decide (-1 ≤ message.battery) && decide (message.battery ≤ 100)) = true := by
    rw [Bool.and_eq_true, decide_eq_true_iff, decide_eq_true_iff]
    exact hbattery
  simp only [readNumbers, value, launch_frame hchecked, getInt_only hok.width,
    getInt_only hok.height, getInt_int hok.screenWidth, getInt_int hok.screenHeight,
    getInt_int hok.battery, getBool, ensure, hpercent, if_true, decide_eq_true_eq, carried,
    bind_eq_bind, bind_some, pure_def]

theorem battery_of_readNumbers (hok : Ok message) {read' : Message}
    (h : readNumbers (value message) read = some read') :
    -1 ≤ message.battery ∧ message.battery ≤ 100 := by
  -- The battery is the eighth number read; its check comes next.
  simp only [readNumbers, bind_eq_bind, bind_eq_some_iff] at h
  obtain ⟨_, -, _, -, _, -, _, -, _, -, _, -, _, -, battery, hread, _, hensure, -⟩ := h
  rw [value, getInt_int hok.battery, Option.some.injEq] at hread
  subst hread
  rw [ensure] at hensure
  split at hensure
  · rename_i hrange
    rw [Bool.and_eq_true, decide_eq_true_iff, decide_eq_true_iff] at hrange
    exact hrange
  · exact nomatch hensure

/-! ### Tasks -/

theorem itemsOf_arr {items : List Json} {most : ℕ} (h : items.length ≤ most) :
    itemsOf (some (.arr items)) most = some items := by
  rw [itemsOf, if_pos h]

theorem controlFree_id (h : taskIdValid bytes = true) : controlFree bytes = true := by
  rw [taskIdValid, Bool.and_eq_true] at h
  rw [controlFree, all_eq_true]
  intro b hb
  have hid := all_eq_true.mp h.2 b hb
  simp only [isIdByte, Bool.or_eq_true, Bool.and_eq_true, decide_eq_true_iff, beq_iff_eq,
    UInt8.le_iff_toNat_le] at hid
  have hbytes : (byte 'a').toNat = 97 ∧ (byte 'z').toNat = 122 ∧ (byte 'A').toNat = 65 ∧
      (byte 'Z').toNat = 90 ∧ (byte '0').toNat = 48 ∧ (byte '9').toNat = 57 := by decide
  obtain ⟨ha, hz, hA, hZ, h0, h9⟩ := hbytes
  rw [Bool.and_eq_true, decide_eq_true_iff, bne_iff_ne]
  rcases hid with ((((hlower | hupper) | hdigit) | rfl) | rfl) | rfl
  · omega
  · omega
  · omega
  · decide
  · decide
  · decide

theorem getLifecycle_name (lifecycle : Lifecycle) :
    getLifecycle (addString (ascii lifecycle.name)) = some lifecycle :=
  getChoice_name Lifecycle.name lifecycles none (by decide)
    (show lifecycle ∈ lifecycles by cases lifecycle <;> decide)

theorem getTask_task {task : Task} (hok : TaskOk task) (h : taskValid task = true) :
    getTask (taskJson task) = some task := by
  simp only [taskValid, Bool.and_eq_true, bne_iff_ne] at h
  obtain ⟨⟨⟨⟨hid, htitle⟩, -⟩, htoken⟩, hfree⟩ := h
  have hne : task.appId ≠ [] := by
    rw [taskIdValid, Bool.and_eq_true, Bool.and_eq_true, bne_iff_ne] at hid
    exact hid.1.1
  have hname : ascii task.lifecycle.name ≠ [] := by
    cases task.lifecycle <;> decide
  have hlifecycle := getLifecycle_name task.lifecycle
  rw [addString, if_neg hname] at hlifecycle
  have hmembers : taskJson task = .obj
      [("app_id", .str task.appId), ("title", .str task.title),
       ("lifecycle", .str (ascii task.lifecycle.name)), ("token", .int task.token)] := by
    rw [taskJson]
    simp only [present, addString, hne, htitle, hname, if_false, List.filterMap_cons,
      List.filterMap_nil, map_some]
  rw [hmembers]
  simp only [getTask, membersOf, ensure, length_cons, length_nil, lookup_cons,
    String.reduceBEq, beq_self_eq_true, getString_str hok.appId, controlFree_id hid,
    getString_str hok.title, hfree, hlifecycle, getToken,
    getNumber_nat hok.token (show (1 : ℤ) ≤ task.token by omega), if_true, bind_eq_bind,
    bind_some, pure_def, Nat.reduceAdd]

theorem getTasks_value (hok : Ok message) (htype : message.type = .tasks)
    (h : tasksValid message = true) (hread : read.hasTasks = false ∧ read.tasks = []) :
    getTasks (value message) read =
      some { read with hasTasks := message.hasTasks, tasks := message.tasks } := by
  have hparts := h
  simp only [tasksValid, Bool.and_eq_true, decide_eq_true_iff, Bool.or_eq_true,
    all_eq_true] at hparts
  obtain ⟨⟨⟨hlength, hhas⟩, hvalid⟩, -⟩ := hparts
  have htasks : (message.tasks.map taskJson).mapM getTask = some message.tasks :=
    mapM_make fun task htask => getTask_task (hok.tasks task htask) (hvalid task htask)
  cases hquery : message.hasTasks with
  | false =>
    rw [hquery] at hhas
    have hnil : message.tasks = [] := by simpa using hhas
    have hnone : value message .tasks = none := by
      rw [value, hquery, Bool.and_false]
      rfl
    rw [getTasks, hnone, hnil, ← hread.1, ← hread.2]
  | true =>
    have hsome : value message .tasks = some (.arr (message.tasks.map taskJson)) := by
      rw [value, hquery, htype]
      rfl
    have hcheck : tasksValid { read with hasTasks := true, tasks := message.tasks } = true := by
      rw [tasksValid, hquery] at h
      exact h
    simp only [getTasks, hsome, itemsOf_arr (show (message.tasks.map taskJson).length ≤ taskMax by
      rw [length_map]; exact hlength), htasks, ensure, hcheck, if_true, bind_eq_bind,
      bind_some, pure_def]

theorem ensure_true : ensure true = some () := rfl

theorem ensure_only {kind' : Bool} (h : kind = true → kind' = true) :
    ensure ((only kind json).isNone || kind') = some () := by
  cases kind with
  | false => rfl
  | true =>
    rw [h rfl, Bool.or_true]
    rfl

theorem getToken_value (hok : Ok message) (h : message.token ≠ 0) :
    getToken (some (.int message.token)) = some message.token :=
  getNumber_nat hok.token (show (1 : ℤ) ≤ message.token by omega)

/-- The message so far, once the fields of any type are read. -/
def afterNumbers (message : Message) : Message :=
  { type := message.type, mode := message.mode, appId := message.appId
    activeId := message.activeId, selectedId := message.selectedId, title := message.title
    left := message.left, centre := message.centre, right := message.right
    reason := message.reason, width := (carried message).width
    height := (carried message).height, screenWidth := message.screenWidth
    screenHeight := message.screenHeight, theme := message.theme, display := message.display
    locked := message.locked, visible := message.visible, enabled := message.enabled
    locale := message.locale, inputLocale := message.inputLocale, name := message.name
    value := message.value, battery := message.battery, charging := message.charging
    notice := message.notice }

@[simp] theorem afterNumbers_type : (afterNumbers message).type = message.type := by
  simp only [afterNumbers]

/-- The message so far, once the fields about tasks are read. -/
def afterTasks (message : Message) : Message :=
  { afterNumbers message with
    activation := message.activation, lifecycle := (carried message).lifecycle
    token := (carried message).token, hasTasks := (carried message).hasTasks
    tasks := (carried message).tasks }

@[simp] theorem afterTasks_type : (afterTasks message).type = message.type := by
  simp only [afterTasks, afterNumbers_type]

theorem getActivation_value (h : Checked message) :
    getActivation (value message) message.type = some message.activation := by
  rw [getActivation]
  split
  · rename_i htype
    rw [value, htype]
    exact getChoice_name Activation.name activations none (by decide)
      (show message.activation ∈ activations by cases message.activation <;> decide)
  · rename_i hne
    rw [h.activation hne]

theorem carried_lifecycle (h : message.type ≠ .lifecycle) :
    (carried message).lifecycle = .foreground := if_neg h

theorem carried_token (h : message.type ≠ .activate) (h' : message.type ≠ .closeTask)
    (h'' : message.type ≠ .active) : (carried message).token = 0 :=
  if_neg (by simp [h, h', h''])

theorem carried_tasks (h : message.type ≠ .tasks) :
    (carried message).hasTasks = false ∧ (carried message).tasks = [] :=
  ⟨by simp [carried, h], if_neg h⟩

theorem token_value (h : message.type = .activate ∨ message.type = .closeTask ∨
    message.type = .active ∧ message.token ≠ 0) :
    value message .token = some (.int message.token) := by
  rw [value, only, if_pos]
  simp only [Bool.or_eq_true, Bool.and_eq_true, beq_iff_eq, bne_iff_ne]
  tauto

theorem afterTasks_token (hlifecycle : message.type ≠ .lifecycle) (htasks : message.type ≠ .tasks) :
    afterTasks message =
      { afterNumbers message with
        activation := message.activation, token := (carried message).token } := by
  obtain ⟨hhas, hlist⟩ := carried_tasks htasks
  rw [afterTasks, carried_lifecycle hlifecycle, hhas, hlist]
  rfl

theorem getTaskFields_value (hok : Ok message) (hchecked : Checked message) :
    getTaskFields (value message) (afterNumbers message) = some (afterTasks message) := by
  have hlifecycle : ensure ((value message .lifecycle).isNone || message.type == .lifecycle) =
      some () := ensure_only id
  have hactivation : ensure ((value message .activation).isNone || message.type == .activation) =
      some () := ensure_only id
  have htasks : ensure ((value message .tasks).isNone || message.type == .tasks) = some () :=
    ensure_only fun h => (Bool.and_eq_true _ _ ▸ h).1
  have htoken : ensure ((value message .token).isNone || message.type == .activate ||
      message.type == .closeTask || message.type == .active) = some () := by
    rw [Bool.or_assoc, Bool.or_assoc]
    refine ensure_only fun h => ?_
    simp only [Bool.or_eq_true, Bool.and_eq_true] at h ⊢
    tauto
  simp only [getTaskFields, afterNumbers_type, hlifecycle, hactivation, getActivation_value hchecked, htasks,
    htoken, bind_eq_bind, bind_some]
  split
  case h_1 htype =>
    have hname : getLifecycle (value message .lifecycle) = some message.lifecycle := by
      rw [value, htype]
      exact getLifecycle_name message.lifecycle
    have hcarried : (carried message).lifecycle = message.lifecycle := if_pos htype
    have hne : message.type ≠ .tasks := by simp [htype]
    obtain ⟨hhas, hlist⟩ := carried_tasks hne
    rw [hname, afterTasks, hcarried, hhas, hlist,
      carried_token (by simp [htype]) (by simp [htype]) (by simp [htype])]
    rfl
  case h_2 htype =>
    have hcarried : (carried message).hasTasks = message.hasTasks ∧
        (carried message).tasks = message.tasks := ⟨by simp [carried, htype], if_pos htype⟩
    rw [getTasks_value hok htype (hchecked.tasks htype) ⟨rfl, rfl⟩, afterTasks, hcarried.1,
      hcarried.2, carried_lifecycle (by simp [htype]),
      carried_token (by simp [htype]) (by simp [htype]) (by simp [htype])]
    rfl
  case h_3 htype =>
    obtain ⟨hid, hne⟩ := hchecked.task (.inl htype)
    have hcarried : (carried message).token = message.token := if_pos (.inl htype)
    have hvalid : taskIdValid (afterNumbers message).appId = true := hid
    rw [token_value (.inl htype), getToken_value hok hne, hvalid,
      afterTasks_token (by simp [htype]) (by simp [htype]), hcarried]
    rfl
  case h_4 htype =>
    obtain ⟨hid, hne⟩ := hchecked.task (.inr htype)
    have hcarried : (carried message).token = message.token := if_pos (.inr (.inl htype))
    have hvalid : taskIdValid (afterNumbers message).appId = true := hid
    rw [token_value (.inr (.inl htype)), getToken_value hok hne, hvalid,
      afterTasks_token (by simp [htype]) (by simp [htype]), hcarried]
    rfl
  case h_5 htype =>
    have hcarried : (carried message).token = message.token := if_pos (.inr (.inr htype))
    rw [afterTasks_token (by simp [htype]) (by simp [htype]), hcarried]
    by_cases hzero : message.token = 0
    · have hnone : value message .token = none := by
        rw [value, htype, hzero]
        rfl
      rw [hnone, hzero]
      rfl
    · have hvalid : taskIdValid (afterNumbers message).activeId = true :=
        hchecked.active htype hzero
      rw [token_value (.inr (.inr ⟨htype, hzero⟩)), getToken_value hok hzero, hvalid]
      rfl
  case h_6 hlifecycle htasks hactivate hclose hactive =>
    rw [afterTasks_token hlifecycle htasks, carried_token hactivate hclose hactive]
    rfl

/-! ### The clock -/

def afterClock (message : Message) : Message :=
  { afterTasks message with clockData := message.clockData }

@[simp] theorem afterClock_type : (afterClock message).type = message.type := by
  simp only [afterClock, afterTasks_type]

theorem getClock_value (hok : Ok message) (hchecked : Checked message) :
    getClock (value message) (afterTasks message) = some (afterClock message) := by
  have hvalid := hchecked.clockData
  rw [clockDataValid, Bool.and_eq_true] at hvalid
  have htype : ensure ((value message .clock).isNone || message.type == .clock ||
      message.type == .active) = some () := by
    by_cases hne : message.type ≠ .clock ∧ message.type ≠ .active
    · have hnone : value message .clock = none := by
        rw [value, hchecked.clockType hne.1 hne.2]
        rfl
      rw [hnone]
      rfl
    · have htrue : (message.type == .clock || message.type == .active) = true := by
        rw [Bool.or_eq_true, beq_iff_eq, beq_iff_eq]
        tauto
      rw [Bool.or_assoc, htrue, Bool.or_true]
      rfl
  have hdata : getString (value message .clock) clockBytes = some message.clockData :=
    getString_clean hok.clockData hvalid.2
  simp only [getClock, afterTasks_type, htype, hdata, bind_eq_bind, bind_some, pure_def]
  rfl

def afterPresentation (message : Message) : Message :=
  { afterClock message with clockPresentation := message.clockPresentation }

@[simp] theorem afterPresentation_type : (afterPresentation message).type = message.type := by
  simp only [afterPresentation, afterClock_type]

theorem lookup_clock {clock : ClockPresentation} {name : String}
    (h : (name, json) ∈ clockSlots clock) : (present (clockSlots clock)).lookup name = json := by
  have hnodup : ((clockSlots clock).map Prod.fst).Nodup := by
    show clockNames.Nodup
    decide
  exact lookup_present hnodup h

theorem knows_clock (clock : ClockPresentation) :
    (present (clockSlots clock)).all (fun entry => clockNames.contains entry.1) = true := by
  rw [all_eq_true]
  intro entry hentry
  rw [List.contains_iff_mem]
  exact (sublist_present (clockSlots clock)).subset (List.mem_map_of_mem hentry)

theorem getClockPresentation_value (hok : Ok message) (hchecked : Checked message) :
    getClockPresentation (value message) (afterClock message) = some (afterPresentation message) := by
  have hvalid := hchecked.presentation
  simp only [clockPresentationValid, Bool.and_eq_true, Bool.not_eq_true', Bool.or_eq_false_iff,
    decide_eq_false_iff_not, Bool.or_eq_true, beq_iff_eq] at hvalid
  obtain ⟨⟨⟨⟨⟨⟨-, hutc⟩, -⟩, -⟩, -⟩, hfree⟩, htype⟩ := hvalid
  by_cases hactive : message.type = .active
  · have hsome : value message .clockPresentation =
        some (.obj (present (clockSlots message.clockPresentation))) := by
      rw [value, hactive]
      rfl
    have hkept : ensure ((afterClock message).type == .active) = some () := by
      rw [afterClock_type, hactive]
      rfl
    have hclock := hok.clockPresentation
    have hnat : message.clockPresentation.alarmUtc.toNat < 2 ^ 63 := by
      have hbound := hclock.alarmUtc
      omega
    have hback : (message.clockPresentation.alarmUtc.toNat : ℤ) =
        message.clockPresentation.alarmUtc := Int.toNat_of_nonneg (by omega)
    simp only [getClockPresentation, hsome, hkept, membersOf, knows_clock,
      lookup_clock (show ("analog", _) ∈ clockSlots _ by simp [clockSlots]; rfl),
      lookup_clock (show ("alarm_utc", _) ∈ clockSlots _ by simp [clockSlots]; rfl),
      lookup_clock (show ("snooze_deadline_ms", _) ∈ clockSlots _ by simp [clockSlots]; rfl),
      lookup_clock (show ("alarm_label", _) ∈ clockSlots _ by simp [clockSlots]; rfl),
      lookup_clock (show ("timer_deadline_ms", _) ∈ clockSlots _ by simp [clockSlots]; rfl),
      lookup_clock (show ("timer_remaining_ms", _) ∈ clockSlots _ by simp [clockSlots]; rfl),
      lookup_clock (show ("missed_total", _) ∈ clockSlots _ by simp [clockSlots]; rfl),
      getBool, getClockNumber_add (hnat.trans (by decide)), getClockNumber_add hclock.snoozeDeadlineMs,
      getString_clean hclock.alarmLabel hfree, getClockNumber_add hclock.timerDeadlineMs,
      getClockNumber_add hclock.timerRemainingMs, getClockNumber_add hclock.missedTotal, hnat, hback,
      ensure_true, decide_true, bind_eq_bind, bind_some, pure_def]
    rfl
  · have hnone : value message .clockPresentation = none := by
      rw [value, only, if_neg]
      rw [beq_iff_eq]
      exact hactive
    rw [getClockPresentation, hnone, afterPresentation, htype.resolve_left hactive]
    rfl

/-! ### Sound, vibration and storage -/

theorem getBool_only {b : Bool} (h : kind = false → b = false) :
    getBool (only kind (some (.bool b))) = some b := by
  cases kind with
  | false =>
    rw [h rfl]
    rfl
  | true => rfl

def afterMedia (message : Message) : Message :=
  { afterPresentation message with
    audio := message.audio, vibration := message.vibration, pattern := message.pattern
    repeats := message.repeats }

@[simp] theorem afterMedia_type : (afterMedia message).type = message.type := by
  simp only [afterMedia, afterPresentation_type]

theorem durationValid_le {count index duration : ℕ} (h : durationValid count index duration = true) :
    duration ≤ vibrationPauseMaxMs := by
  have hpulse : vibrationPulseMaxMs ≤ vibrationPauseMaxMs := by decide
  rw [durationValid] at h
  split at h
  · rw [Bool.and_eq_true, decide_eq_true_iff, decide_eq_true_iff] at h
    exact h.2.trans hpulse
  · rw [Bool.and_eq_true, decide_eq_true_iff, decide_eq_true_iff] at h
    exact h.2

theorem duration_le (h : vibrateValid message = true) :
    message.pattern.length ≤ patternMax ∧ ∀ n ∈ message.pattern, n ≤ vibrationPauseMaxMs := by
  simp only [vibrateValid] at h
  by_cases htype : message.type ≠ .vibrate ∨ patternMax < message.pattern.length
  · rw [if_pos htype] at h
    exact nomatch h
  rw [if_neg htype] at h
  refine ⟨by omega, ?_⟩
  by_cases hempty : message.pattern.length = 0
  · rw [List.length_eq_zero_iff.mp hempty]
    simp
  rw [if_neg hempty] at h
  by_cases hfirst : message.pattern.length < 2 ∨ vibrationPauseMaxMs < message.pattern.getD 0 0
  · rw [if_pos hfirst] at h
    exact nomatch h
  rw [if_neg hfirst] at h
  split at h
  · exact nomatch h
  rename_i hall
  rw [Bool.not_eq_true', Bool.not_eq_false, all_eq_true] at hall
  intro n hn
  obtain ⟨index, hindex, hget⟩ := List.mem_iff_getElem.mp hn
  have hd : message.pattern.getD index 0 = n := by
    rw [List.getD_eq_getElem?_getD, List.getElem?_eq_getElem hindex, hget, Option.getD_some]
  have hduration := hall index (List.mem_range.mpr hindex)
  rw [Bool.or_eq_true, beq_iff_eq] at hduration
  rcases hduration with rfl | hvalid
  · omega
  · rw [← hd]
    exact durationValid_le hvalid

theorem vibrateValid_congr (htype : a.type = b.type) (hpattern : a.pattern = b.pattern)
    (hrepeats : a.repeats = b.repeats) : vibrateValid a = vibrateValid b := by
  simp only [vibrateValid, htype, hpattern, hrepeats]

theorem getMediaFields_value (hchecked : Checked message) :
    getMediaFields (value message) (afterPresentation message) = some (afterMedia message) := by
  have hconfig : ensure (((value message .audio).isNone && (value message .vibration).isNone) ||
      message.type == .config) = some () := by
    rw [value, value]
    cases message.type == .config with
    | false => rfl
    | true => rfl
  have hmedia : ∀ kind, (message.type == kind) = false → message.type ≠ kind := by
    intro kind hkind
    rwa [beq_eq_false_iff_ne] at hkind
  have haudio : getBool (value message .audio) = some message.audio :=
    getBool_only fun hkind => (hchecked.media (hmedia _ hkind)).1
  have hvibration : getBool (value message .vibration) = some message.vibration :=
    getBool_only fun hkind => (hchecked.media (hmedia _ hkind)).2
  have hrepeats : getBool (value message .repeats) = some message.repeats :=
    getBool_only fun hkind => (hchecked.pattern (hmedia _ hkind)).2
  simp only [getMediaFields, afterPresentation_type, hconfig, haudio, hvibration, bind_eq_bind,
    bind_some]
  by_cases htype : message.type = .vibrate
  · have hvalid := hchecked.vibrate htype
    obtain ⟨hlength, hle⟩ := duration_le hvalid
    have hsome : value message .pattern = some (.arr (message.pattern.map fun n : ℕ => .int n)) := by
      rw [value, htype]
      rfl
    have hread : (message.pattern.map fun n : ℕ => Json.int n).mapM getDuration =
        some message.pattern := by
      refine mapM_make fun n hn => ?_
      have hbound := hle n hn
      rw [getDuration, if_neg (by omega), Int.toNat_natCast]
    rw [if_neg (not_not_intro htype), hsome, itemsOf_arr (by rwa [length_map]), hrepeats]
    simp only [bind_some, hread]
    rw [vibrateValid_congr (b := message), hvalid]
    · simp only [ensure_true, bind_some, pure_def, afterMedia, afterPresentation_type]
    · rfl
    · rfl
    · rfl
  · obtain ⟨hpattern, hrepeat⟩ := hchecked.pattern htype
    have hnone : value message .pattern = none ∧ value message .repeats = none := by
      rw [value, value, beq_eq_false_iff_ne.mpr htype]
      exact ⟨rfl, rfl⟩
    rw [if_pos htype, hnone.1, hnone.2]
    simp only [ensure_true, isNone_none, Bool.and_self, bind_some, pure_def,
      afterMedia, afterPresentation_type, hpattern, hrepeat]
    rfl

def afterStorage (message : Message) : Message :=
  { afterMedia message with
    applied := message.applied, storageState := message.storageState
    storageError := message.storageError }

@[simp] theorem afterStorage_type : (afterStorage message).type = message.type := by
  simp only [afterStorage, afterMedia_type]

theorem storageResultValid_congr (htype : a.type = b.type) (happlied : a.applied = b.applied)
    (hstate : a.storageState = b.storageState) (herror : a.storageError = b.storageError) :
    storageResultValid a = storageResultValid b := by
  simp only [storageResultValid, htype, happlied, hstate, herror]

theorem getStorageFields_value (hok : Ok message) (hchecked : Checked message) :
    getStorageFields (value message) (afterMedia message) = some (afterStorage message) := by
  have hvalid := hchecked.storage
  have htype : hasStorage message = true → message.type = .setting ∨ message.type = .error := by
    intro hhas
    by_contra hne
    rw [not_or] at hne
    rw [storageResultValid] at hvalid
    split at hvalid
    · exact nomatch hvalid
    · rw [Bool.and_eq_true, Bool.and_eq_true, Bool.not_eq_true', beq_iff_eq,
        beq_iff_eq] at hvalid
      simp [hasStorage, hvalid] at hhas
  have hensure : ensure (((value message .applied).isNone && (value message .storageState).isNone &&
      (value message .storageError).isNone) || message.type == .setting || message.type == .error) =
        some () := by
    rw [value, value, value]
    cases hhas : hasStorage message with
    | false => rfl
    | true =>
      have hkind : (message.type == .setting || message.type == .error) = true := by
        rw [Bool.or_eq_true, beq_iff_eq, beq_iff_eq]
        exact htype hhas
      rw [Bool.or_assoc, hkind, Bool.or_true]
      rfl
  -- Without anything to say about storage all three fields are zero.
  have hzero : hasStorage message = false →
      message.applied = false ∧ message.storageState = .unpublished ∧ message.storageError = 0 := by
    intro hhas
    rw [hasStorage, Bool.or_eq_false_iff, Bool.or_eq_false_iff, bne_eq_false_iff_eq,
      bne_eq_false_iff_eq] at hhas
    exact ⟨hhas.1.1, hhas.1.2, hhas.2⟩
  have happlied : getBool (value message .applied) = some message.applied :=
    getBool_only fun hhas => (hzero hhas).1
  have herror : getInt (value message .storageError) = some message.storageError := by
    rw [value, getInt_only hok.storageError]
    cases hhas : hasStorage message with
    | false =>
      rw [(hzero hhas).2.2]
      rfl
    | true => rfl
  have hstate : getChoice (value message .storageState) storageName storageStates
      (some .unpublished) = some message.storageState := by
    rw [value]
    cases hhas : hasStorage message with
    | false =>
      rw [(hzero hhas).2.1]
      rfl
    | true =>
      exact getChoice_name storageName storageStates _ (by decide)
        (show message.storageState ∈ storageStates by cases message.storageState <;> decide)
  simp only [getStorageFields, afterMedia_type, hensure, happlied, herror, hstate, bind_eq_bind,
    bind_some]
  rw [storageResultValid_congr (b := message), hvalid]
  · simp only [ensure_true, bind_some, pure_def, afterStorage, afterMedia_type]
  · rfl
  · rfl
  · rfl
  · rfl

/-! ### Documents -/

/-- What `document_fields_valid` leaves of the fields about documents. -/
structure DocumentFacts (message : Message) : Prop where
  path : message.type ≠ .openFile → message.type ≠ .document → message.path = []
  result : message.type ≠ .documentResult →
    message.documentStatus = .accepted ∧ message.documentError = 0
  choices : message.type ≠ .documentChoices → message.documentChoices = []
  length : message.documentChoices.length ≤ documentChoiceMax
  ids : ∀ choice ∈ message.documentChoices, taskIdValid choice.appId = true

theorem documentFacts (h : documentFieldsValid message = true) : DocumentFacts message := by
  rw [documentFieldsValid] at h
  split at h
  · rw [Bool.and_eq_true, Bool.and_eq_true, Bool.and_eq_true, beq_iff_eq, beq_iff_eq, beq_iff_eq,
      beq_iff_eq] at h
    obtain ⟨⟨⟨hpath, herror⟩, hstatus⟩, hchoices⟩ := h
    exact ⟨fun _ _ => hpath, fun _ => ⟨hstatus, herror⟩, fun _ => hchoices, by simp [hchoices],
      by simp [hchoices]⟩
  by_cases hserial : message.serial = 0 ∨ documentChoiceMax < message.documentChoices.length
  · rw [if_pos hserial] at h
    exact nomatch h
  rw [if_neg hserial] at h
  by_cases hresult : message.type ≠ .documentResult ∧
      (message.documentStatus ≠ .accepted ∨ message.documentError ≠ 0)
  · rw [if_pos hresult] at h
    exact nomatch h
  rw [if_neg hresult] at h
  by_cases hchoices : message.type ≠ .documentChoices ∧ message.documentChoices ≠ []
  · rw [if_pos hchoices] at h
    exact nomatch h
  rw [if_neg hchoices] at h
  by_cases hpath : message.type ≠ .openFile ∧ message.type ≠ .document ∧ message.path ≠ []
  · rw [if_pos hpath] at h
    exact nomatch h
  rw [if_neg hpath] at h
  constructor
  case path => tauto
  case result => tauto
  case choices => tauto
  case length => omega
  case ids =>
    by_cases htype : message.type = .documentChoices
    · rw [htype] at h
      simp only [Bool.and_eq_true, all_eq_true] at h
      exact fun choice hchoice => (h.2 choice hchoice).1
    · have hnil : message.documentChoices = [] := by tauto
      simp [hnil]

theorem getDocumentChoice_choice {choice : DocumentChoice} (hok : ChoiceOk choice)
    (hid : taskIdValid choice.appId = true) :
    getDocumentChoice (documentChoiceJson choice) =
      if controlFree choice.title ∧ controlFree choice.icon then some choice else none := by
  simp only [getDocumentChoice, documentChoiceJson, membersOf, length_cons, length_nil,
    Nat.reduceAdd, beq_self_eq_true, ensure_true, lookup_cons, String.reduceBEq,
    getString_str hok.appId, controlFree_id hid, getString_str hok.title, getString_str hok.icon,
    if_true, bind_eq_bind, bind_some, pure_def]
  by_cases htitle : controlFree choice.title = true
  · by_cases hicon : controlFree choice.icon = true
    · simp only [htitle, hicon, and_self, if_true, bind_some]
    · simp only [htitle, hicon, and_false, if_true, if_false, bind_some, bind_none,
        Bool.false_eq_true]
  · simp only [htitle, false_and, if_false, bind_none, Bool.false_eq_true]

/-- The candidates have no control characters in their labels. -/
def ChoicesFree (message : Message) : Prop :=
  ∀ choice ∈ message.documentChoices,
    controlFree choice.title = true ∧ controlFree choice.icon = true

theorem mapM_choices {choices : List DocumentChoice} (hok : ∀ choice ∈ choices, ChoiceOk choice)
    (hid : ∀ choice ∈ choices, taskIdValid choice.appId = true) {read : List DocumentChoice}
    (h : (choices.map documentChoiceJson).mapM getDocumentChoice = some read) :
    ∀ choice ∈ choices, controlFree choice.title = true ∧ controlFree choice.icon = true := by
  induction choices generalizing read with
  | nil => simp
  | cons choice choices ih =>
    rw [List.map_cons, List.mapM_cons] at h
    obtain ⟨_, hfirst, h⟩ := bind_eq_some_iff.mp h
    obtain ⟨_, hrest, -⟩ := bind_eq_some_iff.mp h
    rw [getDocumentChoice_choice (hok _ List.mem_cons_self) (hid _ List.mem_cons_self)] at hfirst
    have hfree : controlFree choice.title = true ∧ controlFree choice.icon = true := by
      split at hfirst
      · assumption
      · exact nomatch hfirst
    rw [forall_mem_cons]
    exact ⟨hfree, ih (fun c hc => hok c (List.mem_cons_of_mem _ hc))
      (fun c hc => hid c (List.mem_cons_of_mem _ hc)) hrest⟩

theorem getDocumentPath_add {capacity : ℕ} (h : Text capacity bytes) :
    getDocumentPath (addString bytes) capacity = some bytes := by
  rw [addString]
  by_cases hnil : bytes = []
  · rw [if_pos hnil, hnil]
    rfl
  · have hfits : ¬ (capacity ≤ bytes.length ∨ 0 ∈ bytes) := by
      rw [not_or]
      exact ⟨Nat.not_le.mpr h.length_lt, h.no_zero⟩
    rw [if_neg hnil, getDocumentPath, if_neg hfits]

/-- The message so far, with the candidates read. -/
def afterDocument (message : Message) (documentChoices : List DocumentChoice) : Message :=
  { afterStorage message with
    path := message.path, documentError := message.documentError
    documentStatus := message.documentStatus, documentChoices }

@[simp] theorem afterDocument_type (documentChoices : List DocumentChoice) :
    (afterDocument message documentChoices).type = message.type := by
  simp only [afterDocument, afterStorage_type]

theorem afterDocument_nil (hpath : message.path = [])
    (hresult : message.documentStatus = .accepted ∧ message.documentError = 0) :
    afterDocument message [] = afterStorage message := by
  rw [afterDocument, hpath, hresult.1, hresult.2]
  simp only [afterStorage, afterMedia, afterPresentation, afterClock, afterTasks, afterNumbers]

theorem getDocumentFields_eq (hok : Ok message) (hchecked : Checked message) :
    getDocumentFields (value message) (afterStorage message) =
      ((message.documentChoices.map documentChoiceJson).mapM getDocumentChoice).map
        (afterDocument message) := by
  have facts := documentFacts hchecked.document
  by_cases hdocument : isDocumentType message.type = true
  · have hpathValue : value message .path = addString message.path := by
      rw [value, hdocument]
      rfl
    have hpathType : ensure ((value message .path).isNone || message.type == .openFile ||
        message.type == .document) = some () := by
      by_cases hne : message.type ≠ .openFile ∧ message.type ≠ .document
      · rw [hpathValue, facts.path hne.1 hne.2]
        rfl
      · have htrue : (message.type == .openFile || message.type == .document) = true := by
          rw [Bool.or_eq_true, beq_iff_eq, beq_iff_eq]
          tauto
        rw [Bool.or_assoc, htrue, Bool.or_true]
        rfl
    have hresultType : ensure (((value message .documentStatus).isNone &&
        (value message .documentError).isNone) || message.type == .documentResult) = some () := by
      rw [value, value]
      cases message.type == .documentResult with
      | false => rfl
      | true => rw [Bool.or_true]; rfl
    have hresultThere : ensure (message.type != .documentResult ||
        (value message .documentStatus).isSome) = some () := by
      rw [value, bne]
      cases message.type == .documentResult with
      | false => rfl
      | true => cases message.documentStatus <;> rfl
    have hpath : getDocumentPath (value message .path) pathBytes = some message.path := by
      rw [hpathValue, getDocumentPath_add hok.path]
    have herror : getInt (value message .documentError) = some message.documentError := by
      rw [value, getInt_only hok.documentError]
      cases hkind : message.type == .documentResult with
      | false => rw [(facts.result (beq_eq_false_iff_ne.mp hkind)).2]; rfl
      | true => rfl
    have hstatus : getChoice (value message .documentStatus) DocumentStatus.name documentStatuses
        (some .accepted) = some message.documentStatus := by
      rw [value]
      cases hkind : message.type == .documentResult with
      | false => rw [(facts.result (beq_eq_false_iff_ne.mp hkind)).1]; rfl
      | true =>
        exact getChoice_name DocumentStatus.name documentStatuses _ (by decide)
          (show message.documentStatus ∈ documentStatuses by cases message.documentStatus <;> decide)
    simp only [getDocumentFields, afterStorage_type, hdocument, Bool.not_true, Bool.false_eq_true,
      if_false, hpathType, hresultType, hresultThere, hpath, herror, hstatus, bind_eq_bind,
      bind_some]
    by_cases htype : message.type = .documentChoices
    · have hsome : value message .documentChoices =
          some (.arr (message.documentChoices.map documentChoiceJson)) := by
        rw [value, htype]
        rfl
      have hkind : (message.type == .documentChoices) = true := by rw [beq_iff_eq]; exact htype
      have hitems : itemsOf (some (.arr (message.documentChoices.map documentChoiceJson)))
          documentChoiceMax = some (message.documentChoices.map documentChoiceJson) :=
        itemsOf_arr (by rw [length_map]; exact facts.length)
      simp only [hsome, hkind, ensure_true, hitems, bind_some, pure_def,
        Option.map_eq_bind]
      refine Option.bind_congr fun choices _ => ?_
      simp only [Function.comp_apply, afterDocument, afterStorage_type]
    · have hnone : value message .documentChoices = none := by
        rw [value, beq_eq_false_iff_ne.mpr htype]
        rfl
      rw [hnone, facts.choices htype]
      simp only [map_nil, mapM_nil, pure_def, map_some]
      simp only [afterDocument, afterStorage, afterMedia, afterPresentation, afterClock, afterTasks,
        afterNumbers]
  · have hne : ∀ kind, isDocumentType kind = true → message.type ≠ kind := by
      rintro kind hkind rfl
      exact hdocument hkind
    have hresult := facts.result (hne _ rfl)
    have hnone : value message .path = none ∧ value message .documentStatus = none ∧
        value message .documentError = none ∧ value message .documentChoices = none := by
      simp only [value, Bool.not_eq_true _ ▸ hdocument,
        beq_eq_false_iff_ne.mpr (hne .documentResult rfl),
        beq_eq_false_iff_ne.mpr (hne .documentChoices rfl), only, Bool.false_eq_true, if_false,
        and_self]
    rw [facts.choices (hne _ rfl)]
    simp only [getDocumentFields, afterStorage_type, Bool.not_eq_true _ ▸ hdocument, Bool.not_false,
      if_true, hnone, isNone_none, Bool.and_self, ensure_true, bind_eq_bind,
      bind_some, pure_def, map_nil, mapM_nil, map_some,
      afterDocument_nil (facts.path (hne _ rfl) (hne _ rfl)) hresult]

theorem getDocumentFields_value (hok : Ok message) (hchecked : Checked message)
    (hfree : ChoicesFree message) :
    getDocumentFields (value message) (afterStorage message) =
      some (afterDocument message message.documentChoices) := by
  have facts := documentFacts hchecked.document
  have hread : (message.documentChoices.map documentChoiceJson).mapM getDocumentChoice =
      some message.documentChoices := by
    refine mapM_make fun choice hchoice => ?_
    rw [getDocumentChoice_choice (hok.documentChoices choice hchoice) (facts.ids choice hchoice),
      if_pos (hfree choice hchoice)]
  rw [getDocumentFields_eq hok hchecked, hread, map_some]

theorem choicesFree_of_read (hok : Ok message) (hchecked : Checked message)
    (h : getDocumentFields (value message) (afterStorage message) = some read) :
    ChoicesFree message := by
  rw [getDocumentFields_eq hok hchecked, Option.map_eq_some_iff] at h
  obtain ⟨choices, hread, -⟩ := h
  exact mapM_choices hok.documentChoices (documentFacts hchecked.document).ids hread

/-! ### Volumes -/

/-- What `volume_fields_valid` leaves of the fields about volumes. -/
structure VolumeFacts (message : Message) : Prop where
  request : message.type ≠ .storageRequest →
    message.volumeId = 0 ∧ message.volumeOperation = .refresh
  result : message.type ≠ .storageResult → message.volumeResult = {}
  serial : message.type = .storageResult → message.volumeResult.requestId = message.serial
  length : message.volumeResult.volumes.length ≤ volumeMax
  volumes : ∀ volume ∈ message.volumeResult.volumes, volumeValid volume = true

theorem volumeResult_eq {result : VolumeResult} (h : result.isEmpty = true) : result = {} := by
  obtain ⟨requestId, error, homePersistent, volumes⟩ := result
  simp only [VolumeResult.isEmpty, Bool.and_eq_true, beq_iff_eq, Bool.not_eq_true'] at h
  obtain ⟨⟨⟨rfl, rfl⟩, rfl⟩, rfl⟩ := h
  rfl

theorem volumeFacts (h : volumeFieldsValid message = true) : VolumeFacts message := by
  simp only [volumeFieldsValid] at h
  by_cases hrequest : message.type = .storageRequest
  · rw [if_pos hrequest, Bool.and_eq_true, Bool.and_eq_true] at h
    have hempty := volumeResult_eq h.2
    constructor
    case request => exact fun hne => absurd hrequest hne
    case result => exact fun _ => hempty
    case serial =>
      rw [hrequest]
      exact fun hno => nomatch hno
    case length => rw [hempty]; exact Nat.zero_le _
    case volumes => rw [hempty]; simp
  · rw [if_neg hrequest] at h
    by_cases hoperation : message.volumeId ≠ 0 ∨ message.volumeOperation ≠ .refresh
    · rw [if_pos hoperation] at h
      exact nomatch h
    rw [if_neg hoperation] at h
    simp only [not_or, not_not] at hoperation
    by_cases hresult : message.type = .storageResult
    · rw [if_neg (not_not_intro hresult)] at h
      simp only [Bool.and_eq_true, beq_iff_eq, decide_eq_true_iff, all_eq_true] at h
      obtain ⟨⟨⟨⟨⟨-, hserial⟩, -⟩, hlength⟩, hvolumes⟩, -⟩ := h
      constructor
      case request => exact fun _ => hoperation
      case result => exact fun hne => absurd hresult hne
      case serial => exact fun _ => hserial
      case length => exact hlength
      case volumes => exact hvolumes
    · rw [if_pos hresult] at h
      have hempty := volumeResult_eq h
      constructor
      case request => exact fun _ => hoperation
      case result => exact fun _ => hempty
      case serial => exact fun htype => absurd htype hresult
      case length => rw [hempty]; exact Nat.zero_le _
      case volumes => rw [hempty]; simp

theorem getVolume_volume {volume : Volume} (hok : VolumeOk volume) (h : volumeValid volume = true) :
    getVolume (volumeJson volume) = some volume := by
  have hlabel : controlFree volume.label = true ∧ controlFree volume.path = true := by
    simp only [volumeValid, volumeTextValid, Bool.and_eq_true] at h
    exact ⟨h.1.1.1.2.2, h.1.1.2.2⟩
  have hstate : ofCode VolumeState.code volumeStates volume.state.code = some volume.state := by
    cases volume.state <;> rfl
  have hprotection : ofCode VolumeProtection.code volumeProtections volume.protection.code =
      some volume.protection := by
    cases volume.protection <;> rfl
  simp only [getVolume, volumeJson, membersOf, volumeNames, length_cons, length_nil,
    Nat.reduceAdd, beq_self_eq_true, ensure_true, lookup_cons, String.reduceBEq, List.all_cons,
    List.all_nil, Option.isSome_some, Bool.and_self, getVolumeId,
    getNumber_nat hok.id (Int.natCast_nonneg _), getNumber_nat hok.mountId (Int.natCast_nonneg _),
    getInt_int (isInt_state _), getInt_int (isInt_protection _), getBool, getString_str hok.label,
    getString_str hok.path, hlabel, hstate, hprotection, h, if_true, bind_eq_bind,
    bind_some, pure_def]

/-- The message so far, with its volumes; the request that they answer is not yet known. -/
def afterVolume (message : Message) : Message :=
  { afterDocument message message.documentChoices with
    volumeOperation := message.volumeOperation, volumeId := message.volumeId
    volumeResult := { message.volumeResult with requestId := 0 } }

@[simp] theorem afterVolume_type : (afterVolume message).type = message.type := by
  simp only [afterVolume, afterDocument_type]

theorem isSome_only (h : json.isSome = true) :
    ensure ((only kind json).isSome == kind) = some () := by
  cases kind with
  | false => rfl
  | true =>
    rw [only, if_pos rfl, h]
    rfl

theorem getVolumeFields_value (hok : Ok message) (hchecked : Checked message) :
    getVolumeFields (value message) (afterDocument message message.documentChoices) =
      some (afterVolume message) := by
  have facts := volumeFacts hchecked.volume
  have hoperation : ensure ((value message .volumeOperation).isSome ==
      (message.type == .storageRequest)) = some () :=
    isSome_only (by cases message.volumeOperation <;> rfl)
  have hid : ensure ((value message .volumeId).isSome == (message.type == .storageRequest)) =
      some () := isSome_only rfl
  have herror : ensure ((value message .volumeError).isSome == (message.type == .storageResult)) =
      some () := isSome_only rfl
  have hhome : ensure ((value message .homePersistent).isSome ==
      (message.type == .storageResult)) = some () := isSome_only rfl
  have hvolumes : ensure ((value message .volumes).isSome == (message.type == .storageResult)) =
      some () := isSome_only rfl
  simp only [getVolumeFields, afterDocument_type, hoperation, hid, herror, hhome, hvolumes,
    bind_eq_bind, bind_some]
  split
  case h_1 htype =>
    have hempty := facts.result (by simp [htype])
    have hchoice : getChoice (value message .volumeOperation) VolumeOperation.name volumeOperations
        none = some message.volumeOperation := by
      rw [value, htype]
      exact getChoice_name VolumeOperation.name volumeOperations _ (by decide)
        (show message.volumeOperation ∈ volumeOperations by cases message.volumeOperation <;> decide)
    have hnumber : getVolumeId (value message .volumeId) = some message.volumeId := by
      rw [value, htype]
      exact getNumber_nat hok.volumeId (Int.natCast_nonneg _)
    simp only [hchoice, hnumber, bind_some, pure_def, afterVolume, hempty,
      afterDocument, afterStorage, afterMedia, afterPresentation, afterClock, afterTasks,
      afterNumbers]
  case h_2 htype =>
    obtain ⟨hid, hrefresh⟩ := facts.request (by simp [htype])
    have hread : (message.volumeResult.volumes.map volumeJson).mapM getVolume =
        some message.volumeResult.volumes :=
      mapM_make fun volume hvolume =>
        getVolume_volume (hok.volumes volume hvolume) (facts.volumes volume hvolume)
    have hitems : itemsOf (value message .volumes) volumeMax =
        some (message.volumeResult.volumes.map volumeJson) := by
      rw [value, htype]
      exact itemsOf_arr (by rw [length_map]; exact facts.length)
    have hint : getInt (value message .volumeError) = some message.volumeResult.error := by
      rw [value, htype]
      exact getInt_int hok.volumeError
    have hbool : getBool (value message .homePersistent) =
        some message.volumeResult.homePersistent := by
      rw [value, htype]
      rfl
    simp only [hint, hbool, hitems, hread, bind_some, pure_def, afterVolume, hid,
      hrefresh, afterDocument, afterStorage, afterMedia, afterPresentation, afterClock, afterTasks,
      afterNumbers]
  case h_3 hrequest hresult =>
    obtain ⟨hid, hrefresh⟩ := facts.request hrequest
    simp only [afterVolume, hid, hrefresh, facts.result hresult, afterDocument, afterStorage,
      afterMedia, afterPresentation, afterClock, afterTasks, afterNumbers]

/-! ### The serial, and the last checks -/

def afterSerial (message : Message) : Message :=
  { afterVolume message with serial := (carried message).serial }

@[simp] theorem afterSerial_type : (afterSerial message).type = message.type := by
  simp only [afterSerial, afterVolume_type]

theorem carried_serial (h : isStorageType message.type = true ∨ isDocumentType message.type = true ∨
    carriesSerial message.type = true) : (carried message).serial = message.serial := by
  show (if _ then message.serial else 0) = message.serial
  rw [if_pos]
  simp only [Bool.or_eq_true]
  tauto

theorem getSerial_value (hok : Ok message) :
    getSerial (value message) (afterVolume message) = some (afterSerial message) := by
  cases hkind : isStorageType message.type || isDocumentType message.type ||
      (carriesSerial message.type && message.serial != 0) with
  | true =>
    have hsome : value message .serial = some (.int message.serial) := by
      rw [value, hkind]
      rfl
    have hcarried : (carried message).serial = message.serial := by
      apply carried_serial
      simp only [Bool.or_eq_true, Bool.and_eq_true] at hkind
      tauto
    simp only [getSerial, hsome, getNumber_nat hok.serial (Int.natCast_nonneg _),
      bind_eq_bind, bind_some, pure_def, afterSerial, hcarried]
  | false =>
    have hnone : value message .serial = none := by
      rw [value, hkind]
      rfl
    have hcarried : (carried message).serial = 0 := by
      simp only [Bool.or_eq_false_iff, Bool.and_eq_false_iff, bne_eq_false_iff_eq] at hkind
      rw [carried]
      show (if _ then message.serial else 0) = 0
      split
      · rename_i hserial
        simp only [hkind, Bool.or_eq_true, Bool.false_eq_true, false_or] at hserial
        exact hkind.2.resolve_left (by rw [hserial]; decide)
      · rfl
    simp only [getSerial, hnone, afterSerial, hcarried, afterVolume, afterDocument, afterStorage,
      afterMedia, afterPresentation, afterClock, afterTasks, afterNumbers]

theorem clockPresentationValid_congr (htype : a.type = b.type)
    (hclock : a.clockPresentation = b.clockPresentation) :
    clockPresentationValid a = clockPresentationValid b := by
  simp only [clockPresentationValid, htype, hclock]

theorem documentFieldsValid_congr (htype : a.type = b.type) (hpath : a.path = b.path)
    (herror : a.documentError = b.documentError) (hstatus : a.documentStatus = b.documentStatus)
    (hchoices : a.documentChoices = b.documentChoices) (happ : a.appId = b.appId)
    (hserial : isDocumentType b.type = true → a.serial = b.serial) :
    documentFieldsValid a = documentFieldsValid b := by
  simp only [documentFieldsValid, htype, hpath, herror, hstatus, hchoices, happ]
  cases hkind : isDocumentType b.type with
  | false => rfl
  | true => rw [hserial hkind]

theorem volumeFieldsValid_congr (htype : a.type = b.type) (hid : a.volumeId = b.volumeId)
    (hoperation : a.volumeOperation = b.volumeOperation) (hresult : a.volumeResult = b.volumeResult)
    (hserial : isStorageType b.type = true → a.serial = b.serial) :
    volumeFieldsValid a = volumeFieldsValid b := by
  simp only [volumeFieldsValid, htype, hid, hoperation, hresult]
  by_cases hkind : isStorageType b.type = true
  · rw [hserial hkind]
  · rw [isStorageType, Bool.or_eq_true, not_or, beq_iff_eq, beq_iff_eq] at hkind
    simp only [hkind, if_false, if_true, not_false_eq_true, ne_eq]

/-- The message without a descriptor. -/
def unframed (message : Message) : Message := { carried message with hasFrame := false, frameFd := 0 }

theorem afterSerial_result (hchecked : Checked message) :
    (if (afterSerial message).type = .storageResult then
      { afterSerial message with
        volumeResult := { (afterSerial message).volumeResult with
          requestId := (afterSerial message).serial } }
     else afterSerial message) = unframed message := by
  have facts := volumeFacts hchecked.volume
  rw [afterSerial_type]
  split
  · rename_i htype
    have hserial : (carried message).serial = message.serial :=
      carried_serial (.inl (by rw [htype]; rfl))
    have hresult : { message.volumeResult with requestId := message.serial } =
        message.volumeResult := by
      rw [← facts.serial htype]
    simp only [afterSerial, afterVolume, afterDocument, afterStorage, afterMedia,
      afterPresentation, afterClock, afterTasks, afterNumbers, hserial, hresult, unframed]
    simp only [carried]
  · rename_i hne
    have hresult := facts.result hne
    simp only [afterSerial, afterVolume, afterDocument, afterStorage, afterMedia,
      afterPresentation, afterClock, afterTasks, afterNumbers, hresult, unframed, carried]

theorem needsSerial_carries {type : MessageType} (h : needsSerial type = true) :
    carriesSerial type = true := by
  cases type <;> first | rfl | exact nomatch h

theorem checkMessage_value (hchecked : Checked message) :
    checkMessage (afterSerial message) = some (unframed message) := by
  have hclock : clockPresentationValid (afterSerial message) = true := by
    rw [clockPresentationValid_congr afterSerial_type, hchecked.presentation]
    simp only [afterSerial, afterVolume, afterDocument, afterStorage, afterMedia,
      afterPresentation]
  have hdocument : documentFieldsValid (unframed message) = true := by
    rw [documentFieldsValid_congr (b := message), hchecked.document]
    case hserial => exact fun hkind => carried_serial (.inr (.inl hkind))
    all_goals rfl
  have hvolume : volumeFieldsValid (unframed message) = true := by
    rw [volumeFieldsValid_congr (b := message), hchecked.volume]
    case hserial => exact fun hkind => carried_serial (.inl hkind)
    all_goals rfl
  have hserial : (!needsSerial (unframed message).type || (unframed message).serial != 0) = true := by
    show (!needsSerial message.type || (carried message).serial != 0) = true
    cases hneeds : needsSerial message.type with
    | false => rfl
    | true =>
      rw [carried_serial (.inr (.inr (needsSerial_carries hneeds))), Bool.not_true, Bool.false_or,
        bne_iff_ne]
      exact hchecked.serial hneeds
  rw [checkMessage]
  simp only [hclock, ensure_true, afterSerial_result hchecked, hdocument, hvolume, hserial,
    bind_eq_bind, bind_some, pure_def]

/-! ### Whole packets -/

theorem choicesFree_iff : ChoicesFree message ↔
    ∀ text ∈ message.documentChoices.flatMap fun choice => [choice.title, choice.icon],
      controlFree text = true := by
  simp only [ChoicesFree, List.forall_mem_flatMap, forall_mem_cons, List.not_mem_nil,
    false_implies, implies_true, and_true]

theorem readable_iff : Readable message ↔
    (-1 ≤ message.battery ∧ message.battery ≤ 100) ∧
      (∀ text ∈ commonLabels message, controlFree text = true) ∧ ChoicesFree message := by
  rw [Readable, labels, List.forall_mem_append, choicesFree_iff]

theorem readMessage_eq (hok : Ok message) (hchecked : Checked message)
    (hbattery : -1 ≤ message.battery ∧ message.battery ≤ 100)
    (hfree : ∀ text ∈ commonLabels message, controlFree text = true) :
    readMessage (value message) =
      (getDocumentFields (value message) (afterStorage message)).bind fun read =>
        (getVolumeFields (value message) read).bind fun read =>
          (ensure (read.type != .closeReply || closeResponseValid read.value)).bind fun _ =>
            (getSerial (value message) read).bind checkMessage := by
  have hlocale : ensure ((value message .inputLocale).isNone || message.type == .config ||
      message.type == .active) = some () := by
    rw [Bool.or_assoc]
    exact ensure_only id
  have hnumbers : readNumbers (value message)
      { type := message.type, mode := message.mode, display := message.display
        theme := message.theme, appId := message.appId, activeId := message.activeId
        selectedId := message.selectedId, title := message.title, left := message.left
        centre := message.centre, right := message.right, reason := message.reason
        locale := message.locale, inputLocale := message.inputLocale, name := message.name
        value := message.value, notice := message.notice } = some (afterNumbers message) :=
    readNumbers_value hok hchecked hbattery _
  simp only [readMessage, readChoices_value, readStrings_value hok hchecked hfree, hnumbers,
    afterNumbers_type, hlocale, getTaskFields_value hok hchecked, getClock_value hok hchecked,
    getClockPresentation_value hok hchecked, getMediaFields_value hchecked,
    getStorageFields_value hok hchecked, bind_eq_bind, bind_some]

theorem readMessage_value (hok : Ok message) (hchecked : Checked message) (h : Readable message) :
    readMessage (value message) = some (unframed message) := by
  obtain ⟨hbattery, hfree, hchoices⟩ := readable_iff.mp h
  have hreply : ensure (message.type != .closeReply || closeResponseValid message.value) =
      some () := by
    by_cases htype : message.type = .closeReply
    · rw [hchecked.reply htype, Bool.or_true]
      rfl
    · rw [bne_iff_ne.mpr htype]
      rfl
  have hvalue : (afterVolume message).value = message.value := by
    simp only [afterVolume, afterDocument, afterStorage, afterMedia, afterPresentation, afterClock,
      afterTasks, afterNumbers]
  rw [readMessage_eq hok hchecked hbattery hfree, getDocumentFields_value hok hchecked hchoices,
    bind_some, getVolumeFields_value hok hchecked, bind_some, afterVolume_type, hvalue,
    hreply, bind_some, getSerial_value hok, bind_some, checkMessage_value hchecked]

theorem readable_of_readMessage (hok : Ok message) (hchecked : Checked message)
    (h : readMessage (value message) = some read) : Readable message := by
  have hread := h
  obtain ⟨choices, -, h⟩ := bind_eq_some_iff.mp h
  obtain ⟨strings, hstrings, h⟩ := bind_eq_some_iff.mp h
  obtain ⟨numbers, hnumbers, -⟩ := bind_eq_some_iff.mp h
  have hbattery := battery_of_readNumbers hok hnumbers
  have hfree := controlFree_of_readStrings hok hstrings
  rw [readMessage_eq hok hchecked hbattery hfree] at hread
  obtain ⟨document, hdocument, -⟩ := bind_eq_some_iff.mp hread
  exact readable_iff.mpr ⟨hbattery, hfree, choicesFree_of_read hok hchecked hdocument⟩

theorem attachFrame_unframed (hchecked : Checked message) :
    attachFrame (if message.hasFrame then [message.frameFd] else []) (unframed message) =
      some (carried message) := by
  cases hframe : message.hasFrame with
  | false =>
    show some (unframed message) = some (carried message)
    simp only [unframed, carried, hframe, Bool.false_eq_true, if_false]
  | true =>
    obtain ⟨htype, hdimensions⟩ := hchecked.frame hframe
    have hkind : frameMessageValid (unframed message) = true := by
      show (message.type == .launch) = true
      rw [htype]
      rfl
    have hsize : frameDimensionsValid (unframed message) = true := by
      have hcarried : (carried message).width = message.width ∧
          (carried message).height = message.height := ⟨if_pos htype, if_pos htype⟩
      rw [frameDimensionsValid] at hdimensions ⊢
      simp only [unframed, hcarried]
      exact hdimensions
    show attachFrame [message.frameFd] (unframed message) = _
    simp only [attachFrame, hkind, hsize, Bool.and_self, ensure_true, bind_eq_bind,
      bind_some, pure_def]
    simp only [unframed, carried, hframe, if_true]

theorem print_obj_ne_nil (members : List (String × Json)) : Json.print (.obj members) ≠ [] := by
  rw [Json.print]
  exact List.cons_ne_nil _ _

theorem receive_eq {tokener : Tokener} (hinv : Inverts tokener) (hok : Ok message) {packet : Packet}
    (hsend : send message = some packet) :
    Checked message ∧
      receive tokener packet = (readMessage (value message)).bind (attachFrame packet.descriptors) := by
  simp only [send] at hsend
  split at hsend
  case isTrue hcond =>
    obtain ⟨hsendable, hlength⟩ := hcond
    rw [Option.some.injEq] at hsend
    subst hsend
    have hsocket : ensure (Json.print (.obj (members message)) != [] &&
        decide ((Json.print (.obj (members message))).length < packetBytes) &&
        decide ((if message.hasFrame then [message.frameFd] else []).length ≤ 1)) = some () := by
      rw [bne_iff_ne.mpr (print_obj_ne_nil _), decide_eq_true hlength]
      cases message.hasFrame with
      | false => rfl
      | true => rfl
    have hlookup : (fun field : Field => (members message).lookup field.key) = value message :=
      funext (lookup_members message)
    refine ⟨checked_of_sendable hsendable, ?_⟩
    simp only [receive, hsocket, tokener_members hinv hok, membersOf, knows_members, ensure_true,
      hlookup, bind_eq_bind, bind_some]
  case isFalse => cases hsend

theorem carried_carried (message : Message) : carried (carried message) = carried message := by
  simp +contextual [carried]

/-- **A packet is received as the message it was sent for**, in all that its type
carries, exactly when the message is readable. -/
theorem receive_send {tokener : Tokener} (hinv : Inverts tokener) (hok : Ok message)
    {packet : Packet} (hsend : send message = some packet) :
    (∃ read, receive tokener packet = some read ∧ carried read = carried message) ↔
      Readable message := by
  obtain ⟨hchecked, hreceive⟩ := receive_eq hinv hok hsend
  constructor
  · rintro ⟨read, hread, -⟩
    rw [hreceive] at hread
    obtain ⟨unattached, hmessage, -⟩ := bind_eq_some_iff.mp hread
    exact readable_of_readMessage hok hchecked hmessage
  · intro hreadable
    have hdescriptors : packet.descriptors = if message.hasFrame then [message.frameFd] else [] := by
      simp only [send] at hsend
      split at hsend
      · rw [← Option.some.inj hsend]
      · exact nomatch hsend
    refine ⟨carried message, ?_, carried_carried message⟩
    rw [hreceive, readMessage_value hok hchecked hreadable, bind_some, hdescriptors,
      attachFrame_unframed hchecked]

theorem receive_none {tokener : Tokener} (hinv : Inverts tokener) (hok : Ok message)
    {packet : Packet} (hsend : send message = some packet) (h : ¬ Readable message) :
    receive tokener packet = none := by
  obtain ⟨hchecked, hreceive⟩ := receive_eq hinv hok hsend
  rw [hreceive]
  cases hread : readMessage (value message) with
  | none => rfl
  | some read => exact absurd (readable_of_readMessage hok hchecked hread) h

/-! ### Two titles -/

/-- A reader of plain text in the place of json-c's. -/
def plainTokener : Tokener := Json.reader 32

theorem inverts_plainTokener : Inverts plainTokener := fun _ hplain hheight =>
  Json.reader_print hplain hheight

def titled (title : List UInt8) : Message := { type := .title, title }

theorem text_nil {capacity : ℕ} (h : 0 < capacity) : Text capacity [] :=
  ⟨h, by simp, [], .nil⟩

theorem ok_titled {title : List UInt8} (h : Text textBytes title) : Ok (titled title) := by
  have hid : Text idBytes [] := text_nil (by decide)
  have htext : Text textBytes [] := text_nil (by decide)
  have hname : Text nameBytes [] := text_nil (by decide)
  have hlocale : Text localeBytes [] := text_nil (by decide)
  have hint : IsInt 0 := by
    rw [IsInt]
    decide
  have hzero : 0 < 2 ^ 32 := by decide
  have hclock : ClockOk {} :=
    ⟨by decide, by decide, text_nil (by decide), by decide, by decide, by decide⟩
  exact
    { appId := hid, activeId := hid, selectedId := hid, title := h, left := htext, centre := htext
      right := htext, reason := htext, width := hint, height := hint, screenWidth := hint
      screenHeight := hint, locale := hlocale, inputLocale := hlocale, name := hname
      value := htext, battery := hint, notice := hname, serial := hzero, token := hzero
      tasks := by simp [titled], clockData := text_nil (by decide), clockPresentation := hclock
      pattern := by simp [titled], storageError := hint, path := text_nil (by decide)
      documentError := hint, documentChoices := by simp [titled], volumeId := hzero
      volumeError := hint, volumes := by simp [titled] }

theorem text_ascii {capacity : ℕ} {bytes : List UInt8} (hlength : bytes.length < capacity)
    (h : ∀ b ∈ bytes, 0 < b.toNat ∧ b.toNat < 0x80) : Text capacity bytes :=
  ⟨hlength, (jsonText_of_ascii h).1, (jsonText_of_ascii h).2⟩

/-- A title of letters arrives. -/
theorem receive_send_notes :
    ∃ packet, send (titled (ascii "Notes")) = some packet ∧
      ∃ read, receive plainTokener packet = some read ∧
        carried read = carried (titled (ascii "Notes")) := by
  refine ⟨_, if_pos ⟨by decide, by decide +kernel⟩, ?_⟩
  refine (receive_send inverts_plainTokener (ok_titled (text_ascii (by decide) (by decide +kernel)))
    (if_pos ⟨by decide, by decide +kernel⟩)).mpr ⟨by decide, by decide⟩

/-- **A title with a tab is sent, and rejected.** -/
theorem tab_rejected :
    Inverts plainTokener ∧ Ok (titled (ascii "a\tb")) ∧
      ∃ packet, send (titled (ascii "a\tb")) = some packet ∧ receive plainTokener packet = none := by
  have hok : Ok (titled (ascii "a\tb")) := ok_titled (text_ascii (by decide) (by decide +kernel))
  have hsend : send (titled (ascii "a\tb")) = some _ := if_pos ⟨by decide, by decide +kernel⟩
  refine ⟨inverts_plainTokener, hok, _, hsend, receive_none inverts_plainTokener hok hsend ?_⟩
  intro hreadable
  exact absurd (hreadable.2 (ascii "a\tb") (by simp [labels, commonLabels, titled])) (by decide)

end UiSession
