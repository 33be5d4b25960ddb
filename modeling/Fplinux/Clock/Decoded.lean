/-
Whatever text the preferences hold (`clock-wire.c`).

The file may have been written by anything, so a restored model is only as good
as the decoder's checks.  They are enough: what is decoded keeps the invariant
of the model.

Main result:
- `inv_preferencesDecode`: a configuration that is accepted, from any text.
-/
import Fplinux.Clock.Preferences
import Fplinux.Clock.RequestRoundTrip

namespace Clock

open Option (bind_eq_bind bind_eq_some_iff)

/-! ### Members -/

variable {name : String} {object : Json} {model : Model}

theorem unsignedValue_le {maximum n : ℕ} (h : unsignedValue object name maximum = some n) :
    n ≤ maximum := by
  rw [unsignedValue] at h
  split at h
  · split at h
    · cases h
    · split at h
      · rename_i hle
        obtain rfl := Option.some.inj h
        exact hle
      · cases h
  · cases h

theorem unsignedValue_lt {w n : ℕ} (h : unsignedValue object name (Word.maxVal w) = some n) :
    n < 2 ^ w := by
  have hle := unsignedValue_le h
  have hpos := Nat.two_pow_pos w
  rw [Word.maxVal] at hle
  omega

theorem signedValue_mem {minimum maximum value : ℤ}
    (h : signedValue object name minimum maximum = some value) :
    minimum ≤ value ∧ value ≤ maximum := by
  rw [signedValue] at h
  split at h
  · split at h
    · cases h
    · split at h
      · rename_i hmem
        obtain rfl := Option.some.inj h
        exact hmem
      · cases h
  · cases h

theorem wallValue_some {value : ℤ} (h : wallValue object name wallMax true = some value) :
    value = 0 ∨ validWall value = true := by
  simp only [wallValue, bind_eq_bind, bind_eq_some_iff] at h
  obtain ⟨read, hread, h⟩ := h
  have hmem := signedValue_mem hread
  split at h
  · rename_i hrule
    obtain rfl := Option.some.inj h
    rcases hrule with hmin | ⟨-, hzero⟩
    · exact .inr (validWall_iff.mpr ⟨hmin, hmem.2⟩)
    · exact .inl hzero
  · cases h

theorem arrayValue_length {maximum : ℕ} {items : List Json}
    (h : arrayValue object name maximum = some items) : items.length ≤ maximum := by
  rw [arrayValue] at h
  split at h
  · split at h
    · rename_i hle
      obtain rfl := Option.some.inj h
      exact hle
    · cases h
  · cases h

/-! ### Records -/

theorem specOk_readAlarmSpec {spec : AlarmSpec} (h : readAlarmSpec object = some spec) :
    SpecOk spec := by
  have hlabel := readAlarmSpec_labelOk h
  refine ⟨hlabel, ?_⟩
  have hstring := hlabel.validateString
  rw [readAlarmSpec] at h
  split at h
  · simp only [bind_eq_bind, bind_eq_some_iff] at h
    obtain ⟨label, -, schedule, -, onceUtc, honce, hour, hhour, minute, hminute, days, hdays,
      enabled, -, h⟩ := h
    have hmax := (signedValue_mem honce).2
    have hhour' := unsignedValue_le hhour
    have hminute' := unsignedValue_le hminute
    have hdays' := unsignedValue_le hdays
    split at h
    · rename_i hschedule
      split at h
      · rename_i hrule
        obtain rfl := Option.some.inj h
        simp only [validSpec, hstring, ne_eq, not_true_eq_false, if_false] at hschedule ⊢
        simp [hschedule, validWall, hrule, hmax]
      · cases h
    · rename_i hschedule
      split at h
      · rename_i hrule
        obtain rfl := Option.some.inj h
        simp only [validSpec, hstring, ne_eq, not_true_eq_false, if_false] at hschedule ⊢
        simp only [hschedule, decide_eq_true_eq]
        omega
      · cases h
  · cases h

theorem alarmOk_readStoredAlarm {wallUtc : ℤ} {nextAlarmId : ℕ} {alarm : Alarm}
    (h : readStoredAlarm wallUtc nextAlarmId object = some alarm) :
    AlarmOk alarm ∧ (nextAlarmId ≠ 0 → alarm.id < nextAlarmId) := by
  rw [readStoredAlarm] at h
  split at h
  · simp only [bind_eq_bind, bind_eq_some_iff] at h
    obtain ⟨id, hid, generation, hgen, object', -, spec, hspec, lastDueUtc, hlast, h⟩ := h
    split at h
    · cases h
    · rename_i hrules
      simp only [not_or, not_and] at hrules
      obtain ⟨hne, hbelow, hgenne, hminute⟩ := hrules
      obtain rfl := Option.some.inj h
      refine ⟨alarmOk_rearmStored hne (unsignedValue_lt hid) hgenne (unsignedValue_lt hgen)
        (specOk_readAlarmSpec hspec) ?_ wallUtc, ?_⟩
      · rcases wallValue_some hlast with hzero | hwall
        · exact .inl hzero
        · exact .inr ⟨hwall, by simpa using hminute⟩
      · intro hnext
        rw [(rearmStored_keeps wallUtc _).1]
        exact Nat.lt_of_not_le (hbelow hnext)
  · cases h

theorem worldOk_readStoredWorld {nextWorldId : ℕ} {entry : WorldEntry}
    (h : readStoredWorld nextWorldId object = some entry) :
    (entry.id ≠ 0 ∧ entry.id < 2 ^ 32 ∧ worldOffsetValid entry.offsetMinutes = true) ∧
      (nextWorldId ≠ 0 → entry.id < nextWorldId) := by
  simp only [readStoredWorld, bind_eq_bind, bind_eq_some_iff] at h
  obtain ⟨read, hread, h⟩ := h
  split at h
  · cases h
  · rename_i hrule
    obtain rfl := Option.some.inj h
    refine ⟨?_, fun hnext => by omega⟩
    rw [readWorld] at hread
    split at hread
    · simp only [bind_eq_bind, bind_eq_some_iff] at hread
      obtain ⟨id, hid, offset, hoffset, hread⟩ := hread
      split at hread
      · cases hread
      · rename_i hne
        obtain rfl := Option.some.inj hread
        refine ⟨hne, unsignedValue_lt hid, ?_⟩
        simp only [offsetValue, bind_eq_bind, bind_eq_some_iff] at hoffset
        obtain ⟨value, -, hoffset⟩ := hoffset
        split at hoffset
        · rename_i hvalid
          obtain rfl := Option.some.inj hoffset
          exact hvalid
        · cases hoffset
    · cases hread

/-! ### Rows -/

theorem readRows_spec {α : Type} {read : Json → Option α} {clash : α → α → Bool} {P : α → Prop}
    (hread : ∀ item row, read item = some row → P row) :
    ∀ {items : List Json} {rows rows' : List α}, readRows read clash items rows = some rows' →
      (∀ row ∈ rows, P row) → rows.Pairwise (fun a b => clash b a = false) →
      (∀ row ∈ rows', P row) ∧ rows'.Pairwise (fun a b => clash b a = false) ∧
        rows'.length = rows.length + items.length := by
  intro items
  induction items with
  | nil =>
    intro rows rows' h hrows hpair
    obtain rfl := Option.some.inj h
    exact ⟨hrows, hpair, rfl⟩
  | cons item items ih =>
    intro rows rows' h hrows hpair
    simp only [readRows, bind_eq_bind, bind_eq_some_iff] at h
    obtain ⟨row, hrow, h⟩ := h
    split at h
    · cases h
    · rename_i hfree
      have hnew : ∀ other ∈ rows ++ [row], P other := by
        intro other hmem
        rcases List.mem_append.mp hmem with hold | hlast
        · exact hrows other hold
        · rw [List.mem_singleton] at hlast
          rw [hlast]
          exact hread item row hrow
      have hapart : (rows ++ [row]).Pairwise (fun a b => clash b a = false) := by
        rw [List.pairwise_append]
        refine ⟨hpair, List.pairwise_singleton _ _, ?_⟩
        intro other hold last hlast
        rw [List.mem_singleton] at hlast
        rw [hlast]
        by_contra hclash
        exact hfree (List.any_eq_true.mpr ⟨other, hold, by simpa using hclash⟩)
      obtain ⟨hall, hpair', hlen⟩ := ih h hnew hapart
      refine ⟨hall, hpair', ?_⟩
      rw [hlen, List.length_append, List.length_singleton, List.length_cons]
      omega

/-! ### The configuration -/

/-- What a stored configuration holds when it is read into a fresh model. -/
inductive ReadFrom (object : Json) (fresh : Model) : Model → Prop
  | read {view snooze lastHour lastMinute duration nextAlarmId nextWorldId : ℕ}
      {alarmItems worldItems : List Json} {alarms : List Alarm} {world : List WorldEntry} :
      unsignedValue object "snooze_minutes" 30 = some snooze →
      unsignedValue object "last_alarm_hour" 23 = some lastHour →
      unsignedValue object "last_alarm_minute" 59 = some lastMinute →
      unsignedValue object "timer_duration_seconds" timerMaxSeconds = some duration →
      unsignedValue object "next_alarm_id" (Word.maxVal 32) = some nextAlarmId →
      unsignedValue object "next_world_id" (Word.maxVal 32) = some nextWorldId →
      arrayValue object "alarms" alarmLimit = some alarmItems →
      arrayValue object "world" worldLimit = some worldItems →
      readRows (readStoredAlarm fresh.wallUtc nextAlarmId) alarmsClash alarmItems [] = some alarms →
      readRows (readStoredWorld nextWorldId) worldClash worldItems [] = some world →
      snooze ≠ 0 →
      ReadFrom object fresh { fresh with
        view := View.ofCode view
        snoozeMinutes := snooze
        lastAlarmHour := lastHour
        lastAlarmMinute := lastMinute
        timer := { fresh.timer with durationSeconds := duration, remainingMs := duration * 1000 }
        nextAlarmId := nextAlarmId
        nextWorldId := nextWorldId
        alarms := alarms
        world := world }

theorem readFrom_of_readPreferences {fresh : Model}
    (h : readPreferences object fresh = some model) :
    ReadFrom object fresh model := by
  rw [readPreferences] at h
  split at h
  · obtain ⟨view, -, h⟩ := bind_eq_some_iff.mp h
    obtain ⟨snooze, hsnooze, h⟩ := bind_eq_some_iff.mp h
    obtain ⟨lastHour, hhour, h⟩ := bind_eq_some_iff.mp h
    obtain ⟨lastMinute, hminute, h⟩ := bind_eq_some_iff.mp h
    obtain ⟨duration, hduration, h⟩ := bind_eq_some_iff.mp h
    obtain ⟨nextAlarmId, hnextAlarm, h⟩ := bind_eq_some_iff.mp h
    obtain ⟨nextWorldId, hnextWorld, h⟩ := bind_eq_some_iff.mp h
    obtain ⟨alarmItems, halarmItems, h⟩ := bind_eq_some_iff.mp h
    obtain ⟨worldItems, hworldItems, h⟩ := bind_eq_some_iff.mp h
    obtain ⟨alarms, halarms, h⟩ := bind_eq_some_iff.mp h
    obtain ⟨world, hworld, h⟩ := bind_eq_some_iff.mp h
    split at h
    · cases h
    · rename_i hzero
      obtain rfl := Option.some.inj h
      exact .read hsnooze hhour hminute hduration hnextAlarm hnextWorld halarmItems hworldItems
        halarms hworld hzero
  · cases h

/-- **What is decoded keeps the invariant**, whatever the text. -/
theorem inv_readPreferences {fresh : Model} {wallUtc : ℤ} {monotonicMs : ℕ}
    (hlt : monotonicMs < 2 ^ 64) (hinit : init wallUtc monotonicMs = some fresh)
    (h : readPreferences object fresh = some model) : Inv model := by
  have hfresh := inv_init hlt hinit
  cases readFrom_of_readPreferences h with
  | @read view snooze lastHour lastMinute duration nextAlarmId nextWorldId alarmItems worldItems
      alarms world hsnooze hhour hminute hduration hnextAlarm hnextWorld halarmItems hworldItems
      halarms hworld hzero =>
    obtain ⟨hrows, hpair, hlen⟩ := readRows_spec
      (fun _ _ hrow => alarmOk_readStoredAlarm hrow) halarms (by simp) List.Pairwise.nil
    obtain ⟨hrows', hpair', hlen'⟩ := readRows_spec
      (fun _ _ hrow => worldOk_readStoredWorld hrow) hworld (by simp) List.Pairwise.nil
    have hcount := arrayValue_length halarmItems
    have hcount' := arrayValue_length hworldItems
    have hsnooze' := unsignedValue_le hsnooze
    have hduration' := unsignedValue_le hduration
    have hids : (alarms.map (·.id)).Nodup := by
      rw [List.Nodup, List.pairwise_map]
      refine hpair.imp fun {a b} hapart heq => ?_
      simp [alarmsClash, heq] at hapart
    have hworldIds : (world.map (·.id)).Nodup := by
      rw [List.Nodup, List.pairwise_map]
      refine hpair'.imp fun {a b} hapart heq => ?_
      simp [worldClash, heq] at hapart
    have hoffsets : (world.map (·.offsetMinutes)).Nodup := by
      rw [List.Nodup, List.pairwise_map]
      refine hpair'.imp fun {a b} hapart heq => ?_
      simp [worldClash, heq] at hapart
    rw [init] at hinit
    split at hinit
    · cases hinit
    · -- a fresh model has no pending events and its timer does not run
      obtain rfl := Option.some.inj hinit
      exact
        { hfresh with
          snooze := ⟨by simp only; omega, hsnooze'⟩
          lastAlarm := ⟨Nat.lt_succ_of_le (unsignedValue_le hhour),
            Nat.lt_succ_of_le (unsignedValue_le hminute)⟩
          alarms := ⟨by simpa [hlen] using hcount, hids, fun alarm ha => (hrows alarm ha).1,
            fun hne alarm ha => (hrows alarm ha).2 hne, unsignedValue_lt hnextAlarm⟩
          ring := ⟨List.Pairwise.nil, by simp [pending, Event.zero], by simp [pending, Event.zero],
            by simp [pending, Event.zero], by simp [pending, Event.zero], by simp⟩
          timer :=
            { hfresh.timer with
              duration_le := hduration'
              remaining_le := Nat.mul_le_mul_right 1000 hduration'
              running := fun hrun =>
                absurd (show TimerState.stopped = .running from hrun) (by decide) }
          world := ⟨by simpa [hlen'] using hcount', fun entry he => (hrows' entry he).1, hworldIds,
            hoffsets, fun hne entry he => (hrows' entry he).2 hne, unsignedValue_lt hnextWorld⟩ }

theorem inv_preferencesDecode {tokener : Tokener} {text : List UInt8} {model' : Model}
    (h : Inv model) (hdecode : preferencesDecode tokener text model = some model') :
    Inv model' := by
  simp only [preferencesDecode, bind_eq_bind, bind_eq_some_iff] at hdecode
  obtain ⟨fresh, hinit, object, -, hread⟩ := hdecode
  exact inv_readPreferences h.monotonic_lt hinit hread

end Clock
