/-
The ring on its way to the launcher (`clock-wire.c`, `launcher-clock.c`).

The session sends what the encoder has written, whatever its status.

Main results:
- `readRing_makeRing`: the self-check of the encoder passes;
- `ring_shown`: the launcher shows what the owner rings.
-/
import Fplinux.Clock.Replay

namespace Clock

open Bytes (ascii)
open Json (print Fits)

structure Ring where
  event : Event
  snoozeMinutes : ℕ
  missedTotal : ℕ
  deriving Repr, DecidableEq

def ringFromModel (model : Model) : Ring :=
  ⟨model.active, model.snoozeMinutes, model.missedTotal⟩

def readRing (object : Json) : Option (Ring × ℕ) := do
  if shape object 5 ∧ literalValue object "op" "ring" then
    let serial ← unsignedValue object "serial" (Word.maxVal 64)
    let data ← objectValue object "event"
    let event ← readEvent data
    let snooze ← unsignedValue object "snooze_minutes" 30
    let missedTotal ← unsignedValue object "missed_total" (Word.maxVal 64)
    if event.missedReason ≠ .none ∨ snooze = 0 then none
    else some (⟨event, snooze, missedTotal⟩, serial)
  else none

def makeRing (ring : Ring) (serial : ℕ) : Json :=
  .obj
    [("op", .str (ascii "ring")),
     ("serial", .int serial),
     ("event", makeEvent ring.event),
     ("snooze_minutes", .int ring.snoozeMinutes),
     ("missed_total", .int ring.missedTotal)]

def ringEncode (ring : Ring) (serial capacity : ℕ) : Except Status (List UInt8) :=
  match readRing (makeRing ring serial) with
  | none => .error .invalid
  | some _ => writeObject (makeRing ring serial) capacity

def ringDecode (tokener : Tokener) (text : List UInt8) : Option (Ring × ℕ) :=
  (parseObject tokener text).bind readRing

/-- What an update changes of the launcher's clock; `pending` is the serial of the
request without an answer, or zero. -/
structure Launcher where
  ring : Ring
  pending : ℕ
  pendingEventId : ℕ
  actionFailed : Bool

/-- `fplinux_launcher_clock_update`; none where it returns false. -/
def Launcher.update (tokener : Tokener) (clock : Launcher) (data : List UInt8) :
    Option Launcher := do
  let ring ← if data = [] then some ⟨Event.zero, 0, 0⟩ else (ringDecode tokener data).map (·.1)
  let clock := { clock with
    ring
    actionFailed := clock.actionFailed && ring.event.id == clock.ring.event.id }
  if clock.pending ≠ 0 ∧ ring.event.id ≠ clock.pendingEventId then
    some { clock with pending := 0, pendingEventId := 0 }
  else some clock

variable {model : Model} {ring : Ring} {serial : ℕ}

theorem readRing_makeRing (hevent : readEvent (makeEvent ring.event) = some ring.event)
    (hreason : ring.event.missedReason = .none)
    (hsnooze : 1 ≤ ring.snoozeMinutes ∧ ring.snoozeMinutes ≤ 30)
    (htotal : ring.missedTotal < 2 ^ 64) (hserial : serial < 2 ^ 64) :
    readRing (makeRing ring serial) = some (ring, serial) := by
  have hshape : shape (makeRing ring serial) 5 = true := rfl
  have hop : literalValue (makeRing ring serial) "op" "ring" = true := rfl
  have hser : unsignedValue (makeRing ring serial) "serial" (Word.maxVal 64) = some serial :=
    unsignedValue_of_field rfl (le_maxVal hserial)
  have hdata : objectValue (makeRing ring serial) "event" = some (makeEvent ring.event) := rfl
  have hminutes : unsignedValue (makeRing ring serial) "snooze_minutes" 30 =
      some ring.snoozeMinutes := unsignedValue_of_field rfl hsnooze.2
  have hmissed : unsignedValue (makeRing ring serial) "missed_total" (Word.maxVal 64) =
      some ring.missedTotal := unsignedValue_of_field rfl (le_maxVal htotal)
  have hrules : ¬ (ring.event.missedReason ≠ .none ∨ ring.snoozeMinutes = 0) := by
    rw [not_or]
    exact ⟨by simp [hreason], by omega⟩
  simp only [readRing, hshape, hop, and_self, if_true, hser, hdata, hevent, hminutes, hmissed,
    Option.bind_eq_bind, Option.bind_some, if_neg hrules]

theorem readRing_fromModel (h : Inv model) (hserial : serial < 2 ^ 64) :
    readRing (makeRing (ringFromModel model) serial) = some (ringFromModel model, serial) := by
  refine readRing_makeRing ?_ ?_ h.snooze h.missed.total_lt hserial
  · rcases h.slots.active_ok with hok | hzero
    · exact readEvent_makeEvent hok
    · rw [ringFromModel, hzero]
      exact readEvent_zero
  · rcases h.slots.slot with ⟨hzero, -⟩ | ⟨-, hnone⟩
    · rw [ringFromModel, hzero]
      rfl
    · exact hnone

theorem fits_makeRing (h : Inv model) (hserial : serial < 2 ^ 64) :
    Fits TextOk (makeRing (ringFromModel model) serial) 2 603 :=
  Fits.obj (by simp) <|
    .cons rfl (fits_literal (n := 4) rfl (by decide)) <|
    .cons rfl (fits64 hserial) <|
    .cons rfl (fits_makeEvent h.slots.active_ok) <|
    .cons rfl (fits_le 1 h.snooze.2 (by decide) (by decide)) <|
    .cons rfl (fits64 h.missed.total_lt) .nil

/-- The launcher reads the ring from the text, whatever it had, and waits for no answer
to another. -/
structure Shows (tokener : Tokener) (text : List UInt8) (ring : Ring) (serial : ℕ) : Prop where
  nul : 0 ∉ text
  decoded : ringDecode tokener text = some (ring, serial)
  updated : ∀ clock : Launcher, ∃ clock', clock.update tokener text = some clock' ∧
    clock'.ring = ring ∧ (clock'.pending ≠ 0 → clock'.pendingEventId = ring.event.id)

theorem shows_of_decode {tokener : Tokener} {text : List UInt8} (hne : text ≠ []) (hnul : 0 ∉ text)
    (h : ringDecode tokener text = some (ring, serial)) : Shows tokener text ring serial := by
  refine ⟨hnul, h, fun clock => ?_⟩
  simp only [Launcher.update, if_neg hne, h, Option.map_some, Option.bind_eq_bind,
    Option.bind_some]
  split
  · exact ⟨_, rfl, rfl, fun hpending => absurd rfl hpending⟩
  · rename_i hkept
    refine ⟨_, rfl, rfl, fun hpending => ?_⟩
    by_contra hother
    exact hkept ⟨hpending, fun heq => hother heq.symm⟩

/-- **The launcher shows what the owner rings**, in every model the owner reaches, with
restarts, and whatever the serial of the message. -/
theorem ring_shown {tokener : Tokener} (hinv : Inverts tokener) {owner : Owner}
    (howner : (ownerMachine tokener).Reachable owner) {serial : ℕ} (hserial : serial < 2 ^ 64) :
    ∃ text, ringEncode (ringFromModel owner.model) serial wireCapacity = .ok text ∧
      Shows tokener text (ringFromModel owner.model) serial := by
  have h := (logOk_of_reachable hinv howner).1
  generalize owner.model = model at h
  have hread := readRing_fromModel h hserial
  have hfits := fits_makeRing h hserial
  have hlen : (print (makeRing (ringFromModel model) serial)).length < wireCapacity :=
    Nat.lt_of_le_of_lt hfits.length_le (by decide)
  have hparse : parseObject tokener (print (makeRing (ringFromModel model) serial)) =
      some (makeRing (ringFromModel model) serial) :=
    parseObject_print hinv hfits.plain (Nat.lt_of_le_of_lt hfits.height_le (by decide)) hlen
  refine ⟨print (makeRing (ringFromModel model) serial), ?_, shows_of_decode ?_ ?_ ?_⟩
  · rw [ringEncode, hread]
    simp only [writeObject]
    rw [if_neg (by decide), if_neg (by omega)]
  · rw [makeRing, print]
    simp
  · exact fun hzero => absurd (Json.print_ge _ hzero) (by decide)
  · rw [ringDecode, hparse]
    exact hread

/-- A daily alarm rings. -/
theorem ring_shown_daily :
    ∃ owner, (ownerMachine plainTokener).Reachable owner ∧ owner.model.active.id = 1 ∧
      ∃ text, ringEncode (ringFromModel owner.model) 1 wireCapacity = .ok text ∧
        Shows plainTokener text (ringFromModel owner.model) 1 := by
  have hstart : (ownerMachine plainTokener).Reachable ⟨_, []⟩ :=
    .start ⟨⟨1700000040, 0, by decide, rfl⟩, rfl⟩
  have hadded := reachable_call hstart (.request dailyRequest) trivial
  have hrings := reachable_call hadded (.tick 1700031600 1000) (show 1000 < 2 ^ 64 by decide)
  exact ⟨_, hrings, rfl, ring_shown inverts_plainTokener hrings (by decide)⟩

end Clock
