/-
Stored preferences (`clock-wire.c`).

The encoder writes the configuration of a model: its settings, its rows and the
next ids.  The decoder reads it into an initialized model and arms every enabled
row again, after the wall time and the last occurrence that rang.

Main results:
- `readPreferences_makePreferences`: what a stored configuration restores;
- `inv_restored`: the restored model keeps the invariant;
- `preferences_roundtrip`: storing and restoring always succeeds.
-/
import Fplinux.Clock.RoundTrip

namespace Clock

open Json (print Fits)

/-! ### Rows -/

/-- An alarm as it comes back: without its snooze, armed again. -/
def restoredAlarm (wallUtc : ℤ) (alarm : Alarm) : Alarm :=
  rearmStored wallUtc ⟨alarm.id, alarm.generation, alarm.spec, 0, alarm.lastDueUtc, false, 0⟩

theorem rearmStored_keeps (wallUtc : ℤ) (alarm : Alarm) :
    (rearmStored wallUtc alarm).id = alarm.id ∧
      (rearmStored wallUtc alarm).generation = alarm.generation ∧
      (rearmStored wallUtc alarm).lastDueUtc = alarm.lastDueUtc := by
  rw [rearmStored]
  split
  · simp only
    split
    · exact ⟨rfl, rfl, rfl⟩
    · exact ⟨rfl, rfl, rfl⟩
  · exact ⟨rfl, rfl, rfl⟩

theorem alarmOk_rearmStored {id generation : ℕ} {spec : AlarmSpec} {lastDueUtc : ℤ} (hid : id ≠ 0)
    (hidlt : id < 2 ^ 32) (hgen : generation ≠ 0) (hgenlt : generation < 2 ^ 32)
    (hspec : SpecOk spec)
    (hlast : lastDueUtc = 0 ∨ validWall lastDueUtc = true ∧ lastDueUtc % 60 = 0) (wallUtc : ℤ) :
    AlarmOk (rearmStored wallUtc ⟨id, generation, spec, 0, lastDueUtc, false, 0⟩) := by
  rw [rearmStored]
  split
  · rename_i hen
    simp only at hen ⊢
    split
    · rename_i due hdue
      obtain ⟨hwall, hlt, -, hocc⟩ := alarmNextDue_some hdue
      refine ⟨hid, hidlt, hgen, hgenlt, hspec, hlast, fun _ => ⟨hwall, ?_, hocc⟩, ?_, by simp⟩
      · simp only
        split at hlt
        · omega
        · omega
      · intro hdis
        exact absurd hen (by simp only at hdis; simp [hdis])
    · exact ⟨hid, hidlt, hgen, hgenlt, ⟨hspec.label, hspec.valid⟩, hlast,
        fun hen' => absurd hen' (by simp), fun _ => rfl, by simp⟩
  · rename_i hdis
    exact ⟨hid, hidlt, hgen, hgenlt, hspec, hlast, fun hen => absurd hen hdis, fun _ => rfl, by simp⟩

variable {alarm : Alarm} {model fresh : Model} {monotonicMs : ℕ} {wallUtc : ℤ}

theorem alarmOk_restored (h : AlarmOk alarm) (wallUtc : ℤ) :
    AlarmOk (restoredAlarm wallUtc alarm) :=
  alarmOk_rearmStored h.id_ne h.id_lt h.generation_ne h.generation_lt h.spec h.last wallUtc

theorem alarmsOk_restored {alarms : List Alarm} {nextAlarmId : ℕ} (h : AlarmsOk alarms nextAlarmId)
    (wallUtc : ℤ) : AlarmsOk (alarms.map (restoredAlarm wallUtc)) nextAlarmId where
  length_le := by
    rw [List.length_map]
    exact h.length_le
  nodup := by
    have hids : (alarms.map (restoredAlarm wallUtc)).map (·.id) = alarms.map (·.id) := by
      rw [List.map_map]
      exact List.map_congr_left fun alarm _ => (rearmStored_keeps wallUtc _).1
    rw [hids]
    exact h.nodup
  each alarm hmem := by
    obtain ⟨old, hold, rfl⟩ := List.mem_map.mp hmem
    exact alarmOk_restored (h.each old hold) wallUtc
  below hne alarm hmem := by
    obtain ⟨old, hold, rfl⟩ := List.mem_map.mp hmem
    rw [restoredAlarm, (rearmStored_keeps wallUtc _).1]
    exact h.below hne old hold
  next_lt := h.next_lt

theorem readStoredAlarm_make (h : AlarmOk alarm) {nextAlarmId : ℕ}
    (hbelow : nextAlarmId ≠ 0 → alarm.id < nextAlarmId) (wallUtc : ℤ) :
    readStoredAlarm wallUtc nextAlarmId (makeStoredAlarm alarm) =
      some (restoredAlarm wallUtc alarm) := by
  have hid : unsignedValue (makeStoredAlarm alarm) "id" (Word.maxVal 32) = some alarm.id :=
    unsignedValue_of_field rfl (le_maxVal h.id_lt)
  have hgen : unsignedValue (makeStoredAlarm alarm) "generation" (Word.maxVal 32) =
      some alarm.generation := unsignedValue_of_field rfl (le_maxVal h.generation_lt)
  have hspec : objectValue (makeStoredAlarm alarm) "spec" = some (makeAlarmSpec alarm.spec) := rfl
  have hlast : wallValue (makeStoredAlarm alarm) "last_due_utc" wallMax true =
      some alarm.lastDueUtc :=
    wallValue_of_field rfl (h.last_wall.imp id fun hzero => ⟨rfl, hzero⟩)
  have hshape : shape (makeStoredAlarm alarm) 4 = true := rfl
  have hminute : alarm.lastDueUtc % 60 = 0 := by
    rcases h.last with hzero | ⟨-, hmod⟩
    · rw [hzero]
      rfl
    · exact hmod
  have hrules : ¬ (alarm.id = 0 ∨ (nextAlarmId ≠ 0 ∧ alarm.id ≥ nextAlarmId) ∨
      alarm.generation = 0 ∨ alarm.lastDueUtc % 60 ≠ 0) := by
    rw [not_or, not_or, not_or]
    refine ⟨h.id_ne, ?_, h.generation_ne, by simp [hminute]⟩
    rintro ⟨hne, hge⟩
    have hlt := hbelow hne
    omega
  simp only [readStoredAlarm, hshape, if_true, hid, hgen, hspec, readAlarmSpec_makeAlarmSpec h.spec,
    hlast, Option.bind_eq_bind, Option.bind_some, if_neg hrules]
  rfl

theorem readStoredWorld_make {world : List WorldEntry} {nextWorldId : ℕ}
    (h : WorldOk world nextWorldId) {entry : WorldEntry} (hmem : entry ∈ world) :
    readStoredWorld nextWorldId (makeWorld entry) = some entry := by
  have hread := readWorld_makeWorld (h.each entry hmem)
  have hbelow : ¬ (nextWorldId ≠ 0 ∧ entry.id ≥ nextWorldId) := by
    rintro ⟨hne, hge⟩
    have hlt := h.below hne entry hmem
    omega
  simp only [readStoredWorld, hread, Option.bind_eq_bind, Option.bind_some, if_neg hbelow]

/-! ### Storing and restoring -/

theorem makePreferences_eq (h : Inv model) :
    makePreferences model = .obj (preferencesMembers model) := by
  have halarms := h.alarms.length_le
  have hworld := h.world.length_le
  rw [makePreferences, if_neg (by omega)]

/-- The configuration of a model in a fresh one. -/
def restored (model fresh : Model) : Model :=
  { fresh with
    view := model.view
    snoozeMinutes := model.snoozeMinutes
    lastAlarmHour := model.lastAlarmHour
    lastAlarmMinute := model.lastAlarmMinute
    timer :=
      { fresh.timer with
        durationSeconds := model.timer.durationSeconds
        remainingMs := model.timer.durationSeconds * 1000 }
    nextAlarmId := model.nextAlarmId
    nextWorldId := model.nextWorldId
    alarms := model.alarms.map (restoredAlarm fresh.wallUtc)
    world := model.world }

/-- **What a stored configuration restores.** -/
theorem readPreferences_makePreferences (h : Inv model) (fresh : Model) :
    readPreferences (.obj (preferencesMembers model)) fresh = some (restored model fresh) := by
  have hview : unsignedValue (.obj (preferencesMembers model)) "view" 1 = some model.view.code :=
    unsignedValue_of_field rfl model.view.code_le
  have hsnooze : unsignedValue (.obj (preferencesMembers model)) "snooze_minutes" 30 =
      some model.snoozeMinutes := unsignedValue_of_field rfl h.snooze.2
  have hhour : unsignedValue (.obj (preferencesMembers model)) "last_alarm_hour" 23 =
      some model.lastAlarmHour := unsignedValue_of_field rfl (Nat.le_of_lt_succ h.lastAlarm.1)
  have hminute : unsignedValue (.obj (preferencesMembers model)) "last_alarm_minute" 59 =
      some model.lastAlarmMinute := unsignedValue_of_field rfl (Nat.le_of_lt_succ h.lastAlarm.2)
  have hduration : unsignedValue (.obj (preferencesMembers model)) "timer_duration_seconds"
      timerMaxSeconds = some model.timer.durationSeconds :=
    unsignedValue_of_field rfl h.timer.duration_le
  have hnextAlarm : unsignedValue (.obj (preferencesMembers model)) "next_alarm_id"
      (Word.maxVal 32) = some model.nextAlarmId :=
    unsignedValue_of_field rfl (le_maxVal h.alarms.next_lt)
  have hnextWorld : unsignedValue (.obj (preferencesMembers model)) "next_world_id"
      (Word.maxVal 32) = some model.nextWorldId :=
    unsignedValue_of_field rfl (le_maxVal h.world.next_lt)
  have halarmItems : arrayValue (.obj (preferencesMembers model)) "alarms" alarmLimit =
      some (model.alarms.map makeStoredAlarm) :=
    arrayValue_of_field rfl (by simpa using h.alarms.length_le)
  have hworldItems : arrayValue (.obj (preferencesMembers model)) "world" worldLimit =
      some (model.world.map makeWorld) :=
    arrayValue_of_field rfl (by simpa using h.world.length_le)
  have halarms : readRows (readStoredAlarm fresh.wallUtc model.nextAlarmId) alarmsClash
      (model.alarms.map makeStoredAlarm) [] =
        some ([] ++ model.alarms.map (restoredAlarm fresh.wallUtc)) := by
    refine readRows_make ?_ (alarms_pairwise h.alarms fun alarm => (rearmStored_keeps _ _).1)
      (by simp)
    intro alarm hmem
    exact readStoredAlarm_make (h.alarms.each alarm hmem) (fun hne => h.alarms.below hne alarm hmem) _
  have hworld : readRows (readStoredWorld model.nextWorldId) worldClash
      (model.world.map makeWorld) [] = some model.world :=
    readWorlds_make h.world fun entry hmem => readStoredWorld_make h.world hmem
  have hshape : shape (.obj (preferencesMembers model)) 9 = true := rfl
  have hzero : ¬ model.snoozeMinutes = 0 := by
    have hge := h.snooze.1
    omega
  simp only [readPreferences, hshape, if_true, hview, hsnooze, hhour, hminute, hduration, hnextAlarm,
    hnextWorld, halarmItems, hworldItems, halarms, hworld, Option.bind_eq_bind, Option.bind_some,
    if_neg hzero, View.ofCode_code, List.nil_append]
  rfl

theorem inv_restored (h : Inv model) (hlt : monotonicMs < 2 ^ 64)
    (hinit : init wallUtc monotonicMs = some fresh) :
    Inv (restored model fresh) := by
  have hfresh := inv_init hlt hinit
  have hduration := h.timer.duration_le
  -- A fresh model has no pending events and its timer does not run.
  rw [init] at hinit
  split at hinit
  · simp at hinit
  · obtain rfl := Option.some.inj hinit
    exact
      { hfresh with
        snooze := h.snooze
        lastAlarm := h.lastAlarm
        alarms := alarmsOk_restored h.alarms _
        ring := ⟨List.Pairwise.nil, by simp [restored, pending, Event.zero],
          by simp [restored, pending, Event.zero], by simp [restored, pending, Event.zero],
          by simp [restored, pending, Event.zero], by simp [restored]⟩
        timer :=
          { hfresh.timer with
            duration_le := hduration
            remaining_le := Nat.mul_le_mul_right 1000 hduration
            running := fun hrun =>
              absurd (show TimerState.stopped = .running from hrun) (by decide) }
        world := h.world }

theorem fits_makeStoredAlarm (h : AlarmOk alarm) {depth : ℕ} :
    Fits TextOk (makeStoredAlarm alarm) (depth + 2) 436 :=
  Fits.obj (by simp) <|
    .cons rfl (fits32 h.id_lt) <|
    .cons rfl (fits32 h.generation_lt) <|
    .cons rfl (fits_makeAlarmSpec h.spec) <|
    .cons rfl (fits_wall h.last_wall) .nil

theorem fits_makePreferences (h : Inv model) {depth : ℕ} :
    Fits TextOk (.obj (preferencesMembers model)) (depth + 4) 4008 :=
  Fits.obj (by simp [preferencesMembers]) <|
    .cons rfl (fits_le 0 model.view.code_le (by decide) (by decide)) <|
    .cons rfl (fits_le 1 h.snooze.2 (by decide) (by decide)) <|
    .cons rfl (fits_le 1 (Nat.le_of_lt h.lastAlarm.1) (by decide) (by decide)) <|
    .cons rfl (fits_le 1 (Nat.le_of_lt h.lastAlarm.2) (by decide) (by decide)) <|
    .cons rfl (fits_le 5 h.timer.duration_le (by decide) (by decide)) <|
    .cons rfl (fits32 h.alarms.next_lt) <|
    .cons rfl (fits32 h.world.next_lt) <|
    .cons rfl (fits_rows h.alarms.length_le fun alarm hmem =>
      fits_makeStoredAlarm (h.alarms.each alarm hmem)) <|
    .cons rfl (fits_rows h.world.length_le fun entry hmem => fits_makeWorld (h.world.each entry hmem)) .nil

theorem preferencesEncode_ok (h : Inv model) {capacity : ℕ} {text : List UInt8}
    (henc : preferencesEncode model capacity = .ok text) :
    text = print (.obj (preferencesMembers model)) ∧ text.length < wireCapacity := by
  rw [preferencesEncode] at henc
  split at henc
  · simp at henc
  · rw [makePreferences_eq h, readPreferences_makePreferences h] at henc
    simp only [writeObject] at henc
    split at henc
    · simp at henc
    · split at henc
      · simp at henc
      · rename_i hfits
        obtain rfl := Except.ok.inj henc
        exact ⟨rfl, by omega⟩

theorem preferencesDecode_print {tokener : Tokener} (hinv : Inverts tokener) (h : Inv model)
    (hinit : init wallUtc monotonicMs = some fresh)
    (hlen : (print (.obj (preferencesMembers model))).length < wireCapacity) :
    preferencesDecode tokener (print (.obj (preferencesMembers model))) fresh =
      some (restored model fresh) := by
  have hfits : Fits TextOk (.obj (preferencesMembers model)) 4 4008 := fits_makePreferences h
  have hparse := parseObject_print hinv hfits.plain
    (Nat.lt_of_le_of_lt hfits.height_le (by decide)) hlen
  have hagain : init fresh.wallUtc fresh.monotonicMs = some fresh := by
    have hcopy := hinit
    rw [init] at hcopy
    split at hcopy
    · simp at hcopy
    · obtain rfl := Option.some.inj hcopy
      exact hinit
  simp only [preferencesDecode, hagain, hparse, Option.bind_eq_bind, Option.bind_some,
    readPreferences_makePreferences h]

/-- **Storing and restoring always succeeds** for a model that keeps the
invariant. -/
theorem preferences_roundtrip {tokener : Tokener} (hinv : Inverts tokener) (h : Inv model)
    (hinit : init wallUtc monotonicMs = some fresh) :
    ∃ text, preferencesEncode model wireCapacity = .ok text ∧
      preferencesDecode tokener text fresh = some (restored model fresh) := by
  have hfits : Fits TextOk (.obj (preferencesMembers model)) 4 4008 := fits_makePreferences h
  have hlen : (print (.obj (preferencesMembers model))).length < wireCapacity :=
    Nat.lt_of_le_of_lt hfits.length_le (by decide)
  refine ⟨_, ?_, preferencesDecode_print hinv h hinit hlen⟩
  obtain ⟨checked, hchecked⟩ : ∃ checked, init model.wallUtc model.monotonicMs = some checked := by
    rw [init, h.wall]
    exact ⟨_, rfl⟩
  rw [preferencesEncode, hchecked]
  simp only [makePreferences_eq h, readPreferences_makePreferences h, writeObject]
  rw [if_neg (by decide), if_neg (by omega)]

end Clock
