/-
The order of the events of one tick (`tick_alarms`).

A round of `tickAlarms` takes the ready row with the least key, its due time and
then its id.  With distinct ids the least row does not depend on where the rows
stand, and the row that rang is not ready again in the same tick.

Main results:
- `selectDue_perm`: the selection does not depend on the order of the rows;
- `tickAlarms_reorder`: the rounds commute with every rearrangement of the rows.
-/
import Mathlib.Data.Prod.Lex
import Fplinux.Lib.Rows
import Fplinux.Clock.Replay

namespace Clock

/-! ### The key of a row -/

/-- When a row is due. -/
def dueAt (snoozed : Bool) (alarm : Alarm) : ℤ :=
  if snoozed then alarm.snoozeDeadlineMs else alarm.nextDueUtc

/-- Rows are taken by due time, then by id. -/
def dueKey (snoozed : Bool) (alarm : Alarm) : ℤ ×ₗ ℕ := toLex (dueAt snoozed alarm, alarm.id)

variable {snoozed : Bool} {model : Model} {rows : List Alarm} {order : List ℕ}

theorem dueKey_lt {a b : Alarm} : dueKey snoozed a < dueKey snoozed b ↔
    dueAt snoozed a < dueAt snoozed b ∨ dueAt snoozed a = dueAt snoozed b ∧ a.id < b.id :=
  Prod.Lex.toLex_lt_toLex

theorem dueKey_inj {a b : Alarm} (h : dueKey snoozed a = dueKey snoozed b) :
    a.id = b.id := congrArg (fun key => (ofLex key).2) h

theorem comesBefore_iff (snoozed : Bool) (alarm : Alarm) (due : ℕ × Alarm) :
    comesBefore snoozed alarm (some due) = true ↔ dueKey snoozed alarm < dueKey snoozed due.2 := by
  rw [dueKey_lt]
  cases snoozed with
  | true => simp [comesBefore, dueAt]
  | false => simp [comesBefore, dueAt]

/-! ### The selection -/

theorem selectDue_none {start : ℕ} {due : Option (ℕ × Alarm)}
    (h : selectDue model snoozed rows start due = none) :
    due = none ∧ ∀ alarm ∈ rows, ready model snoozed alarm = false := by
  induction rows generalizing start due with
  | nil => exact ⟨h, by simp⟩
  | cons first rest ih =>
    rw [selectDue] at h
    obtain ⟨hdue, hrest⟩ := ih h
    split at hdue
    · simp at hdue
    · rename_i hnot
      subst hdue
      refine ⟨rfl, List.forall_mem_cons.mpr ⟨?_, hrest⟩⟩
      rw [not_and] at hnot
      exact eq_false_of_ne_true fun hready => hnot hready rfl

theorem selectDue_le {start : ℕ} {due : Option (ℕ × Alarm)} {selected : ℕ × Alarm}
    (h : selectDue model snoozed rows start due = some selected) :
    (∀ other, due = some other → dueKey snoozed selected.2 ≤ dueKey snoozed other.2) ∧
      ∀ alarm ∈ rows, ready model snoozed alarm = true →
        dueKey snoozed selected.2 ≤ dueKey snoozed alarm := by
  induction rows generalizing start due with
  | nil =>
    refine ⟨fun other hother => ?_, by simp⟩
    have heq : some selected = some other := h.symm.trans hother
    rw [Option.some.inj heq]
  | cons first rest ih =>
    rw [selectDue] at h
    obtain ⟨hdue, hrest⟩ := ih h
    split at hdue
    · rename_i hfirst
      have hle := hdue _ rfl
      refine ⟨fun other hother => ?_, List.forall_mem_cons.mpr ⟨fun _ => hle, hrest⟩⟩
      rw [hother, comesBefore_iff] at hfirst
      exact hle.trans hfirst.2.le
    · rename_i hfirst
      refine ⟨hdue, List.forall_mem_cons.mpr ⟨fun hready => ?_, hrest⟩⟩
      cases due with
      | none => exact absurd ⟨hready, rfl⟩ hfirst
      | some other =>
        have hnot : ¬ dueKey snoozed first < dueKey snoozed other.2 := fun hlt =>
          hfirst ⟨hready, (comesBefore_iff snoozed first other).mpr hlt⟩
        exact (hdue other rfl).trans (not_lt.mp hnot)

theorem selectDue_mem {index : ℕ} {alarm : Alarm}
    (h : selectDue model snoozed rows 0 none = some (index, alarm)) :
    rows[index]? = some alarm ∧ ready model snoozed alarm = true := by
  rcases selectDue_some h with hnone | ⟨k, rfl, hget, hready⟩
  · simp at hnone
  · rw [Nat.zero_add]
    exact ⟨hget, hready⟩

theorem selectDue_congr {model model' : Model} {snoozed : Bool}
    (h : ∀ alarm, ready model' snoozed alarm = ready model snoozed alarm) (rows : List Alarm)
    (start : ℕ) (due : Option (ℕ × Alarm)) :
    selectDue model' snoozed rows start due = selectDue model snoozed rows start due := by
  induction rows generalizing start due with
  | nil => rfl
  | cons first rest ih => rw [selectDue, selectDue, h first, ih]

/-- **The selection does not depend on the order of the rows.** -/
theorem selectDue_perm {model : Model} {snoozed : Bool} {rows rows' : List Alarm}
    (hids : (rows.map (·.id)).Nodup) (hperm : rows'.Perm rows) :
    (selectDue model snoozed rows' 0 none).map (·.2) =
      (selectDue model snoozed rows 0 none).map (·.2) := by
  cases h : selectDue model snoozed rows 0 none with
  | none =>
    have hnone := (selectDue_none h).2
    cases h' : selectDue model snoozed rows' 0 none with
    | none => rfl
    | some selected =>
      obtain ⟨hget, hready⟩ := selectDue_mem h'
      rw [hnone _ (hperm.subset (List.mem_of_getElem? hget))] at hready
      simp at hready
  | some selected =>
    obtain ⟨hget, hready⟩ := selectDue_mem h
    have hmem := List.mem_of_getElem? hget
    cases h' : selectDue model snoozed rows' 0 none with
    | none =>
      rw [(selectDue_none h').2 _ (hperm.symm.subset hmem)] at hready
      simp at hready
    | some selected' =>
      obtain ⟨hget', hready'⟩ := selectDue_mem h'
      have hmem' := hperm.subset (List.mem_of_getElem? hget')
      have hle := (selectDue_le h).2 _ hmem' hready'
      have hge := (selectDue_le h').2 _ (hperm.symm.subset hmem) hready
      have heq := List.inj_on_of_nodup_map hids hmem hmem' (dueKey_inj (le_antisymm hle hge))
      simp only [Option.map_some, heq]

/-! ### Rearranged rows -/

def Model.withRows (rows : List Alarm) (model : Model) : Model := { model with alarms := rows }

/-- The model with its rows at the positions of `order`. -/
def Model.reorder (order : List ℕ) (model : Model) : Model :=
  model.withRows (Rows.reorder order model.alarms)

def Round.reorder (order : List ℕ) : Round → Round
  | .idle => .idle
  | .exhausted => .exhausted
  | .created due event model => .created due event (model.reorder order)

theorem submitEvent_withRows (model : Model) (rows : List Alarm) (event : Event) (late : Bool) :
    submitEvent (model.withRows rows) event late =
      (submitEvent model event late).withRows rows := by
  unfold submitEvent Model.withRows
  split_ifs
  all_goals rfl

theorem clearActive_withRows (model : Model) (rows : List Alarm) :
    clearActive (model.withRows rows) = (clearActive model).withRows rows := by
  unfold clearActive promoteEvent Model.withRows
  cases model.queue with
  | nil => rfl
  | cons event queue => rfl

/-- The new times and the stopwatch, before a ring is ended. -/
def advance (model : Model) (wallUtc : ℤ) (monotonicMs : ℕ) : Model :=
  { model with
    wallUtc := wallUtc
    monotonicMs := monotonicMs
    stopwatch :=
      if model.stopwatch.running then
        { model.stopwatch with
          elapsedMs :=
            saturatedAdd model.stopwatch.elapsedMs (monotonicMs - model.monotonicMs) }
      else model.stopwatch }

/-- The active event has rung long enough. -/
def ringOver (model : Model) (monotonicMs : ℕ) : Prop :=
  model.active.kind ≠ .none ∧ Word.sub 64 monotonicMs model.active.ringStartedMs ≥ ringTimeoutMs

instance (model : Model) (monotonicMs : ℕ) : Decidable (ringOver model monotonicMs) :=
  inferInstanceAs (Decidable (_ ∧ _))

theorem tickClock_eq (model : Model) (wallUtc : ℤ) (monotonicMs : ℕ) :
    tickClock model wallUtc monotonicMs =
      if ringOver model monotonicMs then
        clearActive (recordMissed (advance model wallUtc monotonicMs) model.active .expired)
      else advance model wallUtc monotonicMs := by
  unfold tickClock advance
  by_cases hrun : model.stopwatch.running = true
  · simp only [hrun, if_true]
    rfl
  · simp only [hrun]
    rfl

theorem tickClock_withRows (model : Model) (rows : List Alarm) (wallUtc : ℤ) (monotonicMs : ℕ) :
    tickClock (model.withRows rows) wallUtc monotonicMs =
      (tickClock model wallUtc monotonicMs).withRows rows := by
  rw [tickClock_eq, tickClock_eq]
  by_cases hover : ringOver model monotonicMs
  · rw [if_pos hover, if_pos (show ringOver (model.withRows rows) monotonicMs from hover),
      ← clearActive_withRows]
    rfl
  · rw [if_neg hover, if_neg (show ¬ ringOver (model.withRows rows) monotonicMs from hover)]
    rfl

/-- The event of a countdown that reached zero. -/
def timerEvent (model : Model) : Event where
  id := model.nextEventId
  kind := .timer
  sourceId := 0
  generation := model.timer.generation
  label := []
  dueWallUtc := model.wallUtc
  dueMonotonicMs := model.timer.deadlineMs
  ringStartedMs := 0
  snoozed := false
  missedReason := .none

/-- The model with a countdown that reached zero. -/
def finishTimer (model : Model) : Model :=
  { model with
    nextEventId := Word.add 64 model.nextEventId 1
    timer := { model.timer with remainingMs := 0, state := .finished } }

theorem tickTimer_eq (model : Model) :
    tickTimer model =
      if model.timer.state = .running then
        if timerRemaining model = 0 then
          if model.nextEventId = 0 then
            (.exhausted, { model with timer := { model.timer with remainingMs := 0 } })
          else (.ok, submitEvent (finishTimer model) (timerEvent model) false)
        else (.ok, { model with timer := { model.timer with remainingMs := timerRemaining model } })
      else (.ok, model) := by
  by_cases hrun : model.timer.state = .running
  · by_cases hzero : timerRemaining model = 0
    · by_cases hid : model.nextEventId = 0
      · simp only [tickTimer, createEvent, hrun, hzero, hid, if_true]
      · simp only [tickTimer, createEvent, hrun, hzero, hid, if_true, if_false]
        rfl
    · simp only [tickTimer, hrun, hzero, if_true, if_false]
  · simp only [tickTimer, hrun, if_false]

theorem tickTimer_withRows (model : Model) (rows : List Alarm) :
    tickTimer (model.withRows rows) =
      ((tickTimer model).1, (tickTimer model).2.withRows rows) := by
  have hremaining : timerRemaining (model.withRows rows) = timerRemaining model := rfl
  rw [tickTimer_eq, tickTimer_eq model, hremaining]
  by_cases hrun : model.timer.state = .running
  · rw [if_pos hrun, if_pos (show (model.withRows rows).timer.state = .running from hrun)]
    by_cases hzero : timerRemaining model = 0
    · rw [if_pos hzero, if_pos hzero]
      by_cases hid : model.nextEventId = 0
      · rw [if_pos hid, if_pos (show (model.withRows rows).nextEventId = 0 from hid)]
        rfl
      · rw [if_neg hid, if_neg (show ¬ (model.withRows rows).nextEventId = 0 from hid),
          ← submitEvent_withRows]
        rfl
    · rw [if_neg hzero, if_neg hzero]
      rfl
  · rw [if_neg hrun, if_neg (show ¬ (model.withRows rows).timer.state = .running from hrun)]

theorem tickAlarm_ids {model' : Model} {due : Alarm} {event : Event}
    (h : tickAlarm model snoozed = .created due event model') :
    model'.alarms.map (·.id) = model.alarms.map (·.id) := by
  obtain ⟨index, hget, -, -, -, rfl⟩ := tickAlarm_created h
  rw [(submitEvent_rows _ _ _).1]
  exact map_set_same hget (rearm_id model snoozed due).1

theorem length_eq_of_ids {rows' : List Alarm} (h : rows'.map (·.id) = rows.map (·.id)) :
    rows'.length = rows.length := by
  have hlen := congrArg List.length h
  rwa [List.length_map, List.length_map] at hlen

theorem submitEvent_reorder (model : Model) (order : List ℕ) (event : Event) (late : Bool) :
    submitEvent (model.reorder order) event late =
      (submitEvent model event late).reorder order := by
  rw [Model.reorder, submitEvent_withRows, Model.reorder, (submitEvent_rows _ _ _).1]

/-- The model with a due row set for its next time. -/
def fireRow (model : Model) (snoozed : Bool) (index : ℕ) (due : Alarm) : Model :=
  { model with
    nextEventId := Word.add 64 model.nextEventId 1
    alarms := model.alarms.set index (rearm model snoozed due) }

theorem tickAlarm_idle (h : selectDue model snoozed model.alarms 0 none = none) :
    tickAlarm model snoozed = .idle := by
  rw [tickAlarm, h]

theorem tickAlarm_eq {index : ℕ} {due : Alarm}
    (h : selectDue model snoozed model.alarms 0 none = some (index, due)) :
    tickAlarm model snoozed =
      if model.nextEventId = 0 then .exhausted
      else
        .created due (dueEvent model snoozed due)
          (submitEvent (fireRow model snoozed index due) (dueEvent model snoozed due)
            (isLate model snoozed due)) := by
  by_cases hid : model.nextEventId = 0
  · simp only [tickAlarm, h, createEvent, hid, if_true]
  · simp only [tickAlarm, h, createEvent, hid, if_false]
    rfl

/-- **A round commutes with a rearrangement of the rows.** -/
theorem tickAlarm_reorder (hids : (model.alarms.map (·.id)).Nodup)
    (horder : order.Perm (List.range model.alarms.length)) (snoozed : Bool) :
    tickAlarm (model.reorder order) snoozed = (tickAlarm model snoozed).reorder order := by
  have hperm := Rows.reorder_perm horder
  have hids' : ((Rows.reorder order model.alarms).map (·.id)).Nodup :=
    (hperm.map _).nodup_iff.mpr hids
  have hselect := @selectDue_perm model snoozed _ _ hids hperm
  have hsame : selectDue (model.reorder order) snoozed (model.reorder order).alarms 0 none =
      selectDue model snoozed (Rows.reorder order model.alarms) 0 none :=
    @selectDue_congr model (model.reorder order) snoozed (fun _ => rfl) _ 0 none
  cases h : selectDue model snoozed model.alarms 0 none with
  | none =>
    rw [h, Option.map_none, Option.map_eq_none_iff] at hselect
    rw [tickAlarm_idle (hsame.trans hselect), tickAlarm_idle h]
    rfl
  | some selected =>
    obtain ⟨index, due⟩ := selected
    rw [h] at hselect
    obtain ⟨⟨index', due'⟩, hselect', hdue⟩ := Option.map_eq_some_iff.mp hselect
    obtain rfl : due' = due := hdue
    rw [tickAlarm_eq (hsame.trans hselect'), tickAlarm_eq h]
    by_cases hid : model.nextEventId = 0
    · rw [if_pos hid, if_pos (show (model.reorder order).nextEventId = 0 from hid)]
      rfl
    · -- Both replace the row of the same id.
      have hrows := Rows.set_eq_map hids (selectDue_mem h).1 (rearm model snoozed due')
      have hrows' := Rows.set_eq_map hids' (selectDue_mem hselect').1 (rearm model snoozed due')
      have hfire : fireRow (model.reorder order) snoozed index' due' =
          (fireRow model snoozed index due').reorder order := by
        have hset : (Rows.reorder order model.alarms).set index' (rearm model snoozed due') =
            Rows.reorder order (model.alarms.set index (rearm model snoozed due')) := by
          rw [hrows, hrows', Rows.map_reorder]
        have hrearm : rearm (model.reorder order) snoozed due' = rearm model snoozed due' := rfl
        rw [fireRow, hrearm]
        simp only [Model.reorder, Model.withRows, fireRow, hset]
      rw [if_neg hid, if_neg (show ¬ (model.reorder order).nextEventId = 0 from hid), hfire,
        submitEvent_reorder]
      rfl

theorem tickAlarms_reorder (hids : (model.alarms.map (·.id)).Nodup)
    (horder : order.Perm (List.range model.alarms.length)) (snoozed : Bool) (rounds : ℕ) :
    tickAlarms snoozed rounds (model.reorder order) =
      ((tickAlarms snoozed rounds model).1, (tickAlarms snoozed rounds model).2.reorder order) := by
  induction rounds generalizing model with
  | zero => rfl
  | succ rounds ih =>
    rw [tickAlarms, tickAlarms, tickAlarm_reorder hids horder]
    cases hround : tickAlarm model snoozed with
    | idle => rfl
    | exhausted => rfl
    | created due event model' =>
      have hsame := tickAlarm_ids hround
      rw [← hsame] at hids
      rw [← length_eq_of_ids hsame] at horder
      exact ih hids horder

theorem tickAlarms_ids (snoozed : Bool) (rounds : ℕ) (model : Model) :
    (tickAlarms snoozed rounds model).2.alarms.map (·.id) = model.alarms.map (·.id) := by
  induction rounds generalizing model with
  | zero => rfl
  | succ rounds ih =>
    rw [tickAlarms]
    cases hround : tickAlarm model snoozed with
    | idle => rfl
    | exhausted => rfl
    | created due event model' => exact (ih model').trans (tickAlarm_ids hround)

theorem tickClock_rows (model : Model) (wallUtc : ℤ) (monotonicMs : ℕ) :
    (tickClock model wallUtc monotonicMs).alarms = model.alarms := by
  rw [tickClock_eq]
  split
  · exact (clearActive_rows _).1
  · rfl

theorem tickClock_reorder (model : Model) (order : List ℕ) (wallUtc : ℤ) (monotonicMs : ℕ) :
    tickClock (model.reorder order) wallUtc monotonicMs =
      (tickClock model wallUtc monotonicMs).reorder order := by
  rw [Model.reorder, tickClock_withRows, Model.reorder, tickClock_rows]

theorem tickTimer_rows (model : Model) : (tickTimer model).2.alarms = model.alarms := by
  rw [tickTimer_eq]
  split_ifs
  · rfl
  · exact (submitEvent_rows _ _ _).1
  · rfl
  · rfl

theorem tickTimer_reorder (model : Model) (order : List ℕ) :
    tickTimer (model.reorder order) =
      ((tickTimer model).1, (tickTimer model).2.reorder order) := by
  rw [Model.reorder, tickTimer_withRows, Model.reorder, tickTimer_rows]

end Clock
