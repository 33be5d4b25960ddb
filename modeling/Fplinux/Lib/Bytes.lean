/-
Byte strings written as text.
-/
import Mathlib.Data.List.Basic

namespace Bytes

/-- The byte of an ASCII character. -/
def byte (c : Char) : UInt8 := c.toNat.toUInt8

/-- The bytes of an ASCII string. -/
def ascii (s : String) : List UInt8 := s.toList.map byte

theorem toNat_byte {c : Char} (h : c.toNat < 256) : (byte c).toNat = c.toNat := by
  rw [byte, UInt8.toNat_ofNat']
  omega

end Bytes
