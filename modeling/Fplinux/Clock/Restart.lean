/-
What survives a restart of the owner (`clock-wire.c`).

The preferences of a model are stored and read back into a fresh model.  The
configuration comes back as it was; an alarm keeps its place and what rang last,
and waits for the first occurrence after that and after the fresh wall time.  An
alarm without one is switched off.

Main results:
- `restoredAlarm_survives`: one row;
- `restored_restored`: a second restart at the same time changes nothing;
- `survives_of_reachable`: the whole text, over every run.
-/
import Fplinux.Clock.Replay
import Fplinux.Clock.Schedule

namespace Clock

/-- The time after which a stored alarm rings next. -/
def resumeAfter (wallUtc : ℤ) (alarm : Alarm) : ℤ := max wallUtc alarm.lastDueUtc

/-- A row that came back: the same alarm, enabled when it was and still can ring. -/
structure AlarmSurvives (wallUtc : ℤ) (alarm alarm' : Alarm) : Prop where
  id : alarm'.id = alarm.id
  generation : alarm'.generation = alarm.generation
  spec : { alarm'.spec with enabled := alarm.spec.enabled } = alarm.spec
  last : alarm'.lastDueUtc = alarm.lastDueUtc
  enabled : alarm'.spec.enabled = true ↔
    alarm.spec.enabled = true ∧ (Upcoming alarm.spec (resumeAfter wallUtc alarm)).Nonempty
  armed : alarm'.spec.enabled = true →
    IsLeast (Upcoming alarm.spec (resumeAfter wallUtc alarm)) alarm'.nextDueUtc
  unarmed : alarm'.spec.enabled = false → alarm'.nextDueUtc = 0

/-- A model that came back. -/
structure Survives (model fresh model' : Model) : Prop where
  view : model'.view = model.view
  snooze : model'.snoozeMinutes = model.snoozeMinutes
  lastAlarm : model'.lastAlarmHour = model.lastAlarmHour ∧
    model'.lastAlarmMinute = model.lastAlarmMinute
  duration : model'.timer.durationSeconds = model.timer.durationSeconds
  nextIds : model'.nextAlarmId = model.nextAlarmId ∧ model'.nextWorldId = model.nextWorldId
  world : model'.world = model.world
  alarms : List.Forall₂ (AlarmSurvives fresh.wallUtc) model.alarms model'.alarms

/-! ### One row -/

theorem resumeAfter_valid {wallUtc : ℤ} (hwall : validWall wallUtc = true) {alarm : Alarm}
    (h : AlarmOk alarm) : validWall (resumeAfter wallUtc alarm) = true := by
  rw [validWall_iff] at hwall ⊢
  rw [resumeAfter]
  rcases h.last with hzero | ⟨hlast, -⟩
  · have hmin : (0 : ℤ) ≤ wallMin := by decide
    omega
  · rw [validWall_iff] at hlast
    omega

theorem restoredAlarm_eq (wallUtc : ℤ) (alarm : Alarm) :
    restoredAlarm wallUtc alarm =
      if alarm.spec.enabled then
        match alarmNextDue alarm.spec (resumeAfter wallUtc alarm) with
        | some due => ⟨alarm.id, alarm.generation, alarm.spec, due, alarm.lastDueUtc, false, 0⟩
        | none =>
          ⟨alarm.id, alarm.generation, { alarm.spec with enabled := false }, 0, alarm.lastDueUtc,
            false, 0⟩
      else ⟨alarm.id, alarm.generation, alarm.spec, 0, alarm.lastDueUtc, false, 0⟩ := by
  have hmax : (if wallUtc > alarm.lastDueUtc then wallUtc else alarm.lastDueUtc) =
      resumeAfter wallUtc alarm := by
    rw [resumeAfter]
    split
    · omega
    · omega
  rw [← hmax]
  rfl

theorem restoredAlarm_survives {wallUtc : ℤ} (hwall : validWall wallUtc = true) {alarm : Alarm}
    (h : AlarmOk alarm) : AlarmSurvives wallUtc alarm (restoredAlarm wallUtc alarm) := by
  have hafter := resumeAfter_valid hwall h
  rw [restoredAlarm_eq]
  split
  · rename_i hen
    cases hdue : alarmNextDue alarm.spec (resumeAfter wallUtc alarm) with
    | some due =>
      have hleast := isLeast_of_alarmNextDue hdue
      exact
        { id := rfl
          generation := rfl
          spec := rfl
          last := rfl
          enabled := ⟨fun _ => ⟨hen, due, hleast.1⟩, fun _ => hen⟩
          armed := fun _ => hleast
          unarmed := fun hdis => absurd hen (by simp only at hdis; simp [hdis]) }
    | none =>
      have hnone := (alarmNextDue_eq_none_iff h.spec.valid hafter).mp hdue
      exact
        { id := rfl
          generation := rfl
          spec := rfl
          last := rfl
          enabled := ⟨fun hen' => absurd hen' (by simp), fun hup => absurd hup.2 hnone⟩
          armed := fun hen' => absurd hen' (by simp)
          unarmed := fun _ => rfl }
  · rename_i hdis
    exact
      { id := rfl
        generation := rfl
        spec := rfl
        last := rfl
        enabled := ⟨fun hen => absurd hen hdis, fun hup => absurd hup.1 hdis⟩
        armed := fun hen => absurd hen hdis
        unarmed := fun _ => rfl }

theorem restoredAlarm_idem (wallUtc : ℤ) (alarm : Alarm) :
    restoredAlarm wallUtc (restoredAlarm wallUtc alarm) = restoredAlarm wallUtc alarm := by
  have hlast : resumeAfter wallUtc (restoredAlarm wallUtc alarm) = resumeAfter wallUtc alarm := by
    rw [resumeAfter, restoredAlarm, (rearmStored_keeps wallUtc _).2.2]
    rfl
  rw [restoredAlarm_eq wallUtc (restoredAlarm wallUtc alarm), hlast, restoredAlarm_eq]
  by_cases hen : alarm.spec.enabled = true
  · rw [if_pos hen]
    cases hdue : alarmNextDue alarm.spec (resumeAfter wallUtc alarm) with
    | some due =>
      simp only [hen, if_true, hdue]
    | none =>
      simp only [Bool.false_eq_true, if_false]
  · rw [if_neg hen]
    simp only [hen, Bool.false_eq_true, if_false]

/-! ### The model -/

theorem restored_survives {model fresh : Model} (h : Inv model)
    (hwall : validWall fresh.wallUtc = true) : Survives model fresh (restored model fresh) where
  view := rfl
  snooze := rfl
  lastAlarm := ⟨rfl, rfl⟩
  duration := rfl
  nextIds := ⟨rfl, rfl⟩
  world := rfl
  alarms := by
    rw [restored, List.forall₂_map_right_iff]
    exact List.forall₂_same.mpr fun alarm hmem =>
      restoredAlarm_survives hwall (h.alarms.each alarm hmem)

/-- **A second restart at the same time changes nothing.** -/
theorem restored_restored (model fresh : Model) :
    restored (restored model fresh) fresh = restored model fresh := by
  have hrows : (model.alarms.map (restoredAlarm fresh.wallUtc)).map (restoredAlarm fresh.wallUtc) =
      model.alarms.map (restoredAlarm fresh.wallUtc) := by
    rw [List.map_map]
    exact List.map_congr_left fun alarm _ => restoredAlarm_idem fresh.wallUtc alarm
  simp only [restored, hrows]

/-- **Preferences survive a restart**: over every run with ticks, requests and
restarts, the preferences can be stored, and a model initialized at any wall time
restores them; doing so once more gives the same model. -/
theorem survives_of_reachable {tokener : Tokener} (hinv : Inverts tokener) {owner : Owner}
    (h : (ownerMachine tokener).Reachable owner) {fresh : Model} {wallUtc : ℤ} {monotonicMs : ℕ}
    (hlt : monotonicMs < 2 ^ 64) (hinit : init wallUtc monotonicMs = some fresh) :
    ∃ text model', preferencesEncode owner.model wireCapacity = .ok text ∧
      preferencesDecode tokener text fresh = some model' ∧ Survives owner.model fresh model' ∧
      ∃ text', preferencesEncode model' wireCapacity = .ok text' ∧
        preferencesDecode tokener text' fresh = some model' := by
  have hmodel := (logOk_of_reachable hinv h).1
  have hwall : validWall fresh.wallUtc = true := (inv_init hlt hinit).wall
  obtain ⟨text, hencode, hdecode⟩ := preferences_roundtrip hinv hmodel hinit
  obtain ⟨text', hencode', hdecode'⟩ :=
    preferences_roundtrip hinv (inv_restored hmodel hlt hinit) hinit
  rw [restored_restored] at hdecode'
  exact ⟨text, restored owner.model fresh, hencode, hdecode, restored_survives hmodel hwall, text',
    hencode', hdecode'⟩

/-- The preferences with a daily alarm come back. -/
theorem survives_daily :
    ∃ (owner : Owner) (fresh : Model), init 1700028000 0 = some fresh ∧ owner.model.alarms ≠ [] ∧
      ∃ text model', preferencesEncode owner.model wireCapacity = .ok text ∧
        preferencesDecode plainTokener text fresh = some model' ∧
        Survives owner.model fresh model' ∧
        ∃ text', preferencesEncode model' wireCapacity = .ok text' ∧
          preferencesDecode plainTokener text' fresh = some model' := by
  have hstart : (ownerMachine plainTokener).Reachable ⟨_, []⟩ :=
    .start ⟨⟨1700000040, 0, by decide, rfl⟩, rfl⟩
  have hadded := reachable_call hstart (.request dailyRequest) trivial
  refine ⟨_, _, rfl, ?_, survives_of_reachable inverts_plainTokener hadded
    (show 0 < 2 ^ 64 by decide) (show init 1700028000 0 = some _ from rfl)⟩
  exact List.cons_ne_nil _ _

end Clock
