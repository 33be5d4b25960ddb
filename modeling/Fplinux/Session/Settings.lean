/-
The levels among the session settings (`session-settings.c`).

A level is read from a canonical decimal text: no sign, no spaces, no leading
zeros, at most three digits.
-/
import Fplinux.Lib.Bytes

namespace Settings

/-- The brightness and the volume of `struct fplinux_session_settings`, each
with whether the user chose it. -/
structure Levels where
  hasBrightness : Bool := false
  brightness : ℕ := 7
  hasVolume : Bool := false
  volume : ℕ := 10
  deriving DecidableEq, Repr

def isDigit (b : UInt8) : Bool := Bytes.byte '0' ≤ b ∧ b ≤ Bytes.byte '9'

/-- The number a text of digits stands for. -/
def decimalValue (value : List UInt8) : ℕ :=
  value.foldl (fun n b => 10 * n + (b.toNat - 48)) 0

def parseDecimal (value : List UInt8) : Option ℕ :=
  if value.length = 0 ∨ 3 < value.length ∨
      (1 < value.length ∧ value.head? = some (Bytes.byte '0')) then
    none
  else if value.all isDigit then
    some (decimalValue value)
  else
    none

def brightnessMin : ℕ := 1
def brightnessMax : ℕ := 10
def volumeMax : ℕ := 10

/-- The brightness case of `fplinux_session_settings_parse`. -/
def parseBrightness (value : List UInt8) : Option ℕ :=
  (parseDecimal value).filter fun n => brightnessMin ≤ n ∧ n ≤ brightnessMax

/-- The volume case of `fplinux_session_settings_parse`. -/
def parseVolume (value : List UInt8) : Option ℕ :=
  (parseDecimal value).filter fun n => n ≤ volumeMax

theorem parseVolume_le {value : List UInt8} {level : ℕ} (h : parseVolume value = some level) :
    level ≤ volumeMax := by
  rw [parseVolume, Option.filter_eq_some_iff] at h
  exact of_decide_eq_true h.2

example : parseBrightness (Bytes.ascii "10") = some 10 := by decide

example : parseVolume (Bytes.ascii "07") = none := by decide

end Settings
