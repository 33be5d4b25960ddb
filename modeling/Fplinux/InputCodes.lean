/-
Linux input event codes that the session and the text field name.

The values are those of `linux/input-event-codes.h`; both key sources (phone
keypad and keyboard) use them.
-/
import Mathlib.Data.Nat.Notation

namespace InputCodes

def keyEsc : ℕ := 1
def keyBackspace : ℕ := 14
def keyEnter : ℕ := 28
def keyKpEnter : ℕ := 96
def keyHome : ℕ := 102
def keyUp : ℕ := 103
def keyLeft : ℕ := 105
def keyRight : ℕ := 106
def keyEnd : ℕ := 107
def keyDown : ℕ := 108
def keyDelete : ℕ := 111
def keyPower : ℕ := 116
def keyCompose : ℕ := 127
def keyF13 : ℕ := 183
def keyF14 : ℕ := 184
def keyOk : ℕ := 0x160
def keyNumeric0 : ℕ := 0x200
def keyNumeric9 : ℕ := 0x209
def keyNumericStar : ℕ := 0x20a
def keyNumericPound : ℕ := 0x20b

/-- Codes lie below this value. -/
def keyCnt : ℕ := 0x300

end InputCodes
