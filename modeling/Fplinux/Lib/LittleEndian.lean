/-
Numbers in little-endian byte order.

Main results:
- `value_lt`, `field_lt`: a number of `n` bytes is below `256 ^ n`;
- `bytes_value`: a byte string is the one of its number.
-/
import Mathlib.Algebra.GroupWithZero.Nat
import Mathlib.Data.List.Basic

namespace LittleEndian

/-- The number of a byte string. -/
def value : List UInt8 → ℕ
  | [] => 0
  | byte :: rest => byte.toNat + 256 * value rest

/-- The bytes of an interval; what lies outside the string is left out. -/
def slice (bytes : List UInt8) (offset count : ℕ) : List UInt8 := (bytes.drop offset).take count

/-- The number in `width` bytes at an offset. -/
def field (bytes : List UInt8) (offset width : ℕ) : ℕ := value (slice bytes offset width)

/-- The last bytes of a number, as many as there is room for. -/
def bytes : ℕ → ℕ → List UInt8
  | 0, _ => []
  | width + 1, n => UInt8.ofNat n :: bytes width (n / 256)

theorem value_lt (bytes : List UInt8) : value bytes < 256 ^ bytes.length := by
  induction bytes with
  | nil => simp [value]
  | cons byte rest ih =>
    have hbyte := byte.toNat_lt
    rw [value, List.length_cons, Nat.pow_succ]
    omega

theorem bytes_value (data : List UInt8) : bytes data.length (value data) = data := by
  induction data with
  | nil => rfl
  | cons byte rest ih =>
    have hbyte := byte.toNat_lt
    have hhead : UInt8.ofNat (byte.toNat + 256 * value rest) = byte := by
      refine UInt8.toNat_inj.mp ?_
      rw [UInt8.toNat_ofNat']
      omega
    rw [List.length_cons, bytes, value, hhead]
    congr 1
    rw [show (byte.toNat + 256 * value rest) / 256 = value rest by omega]
    exact ih

theorem length_bytes (width n : ℕ) : (bytes width n).length = width := by
  induction width generalizing n with
  | zero => rfl
  | succ width ih => rw [bytes, List.length_cons, ih]

theorem value_bytes {width n : ℕ} (h : n < 256 ^ width) : value (bytes width n) = n := by
  induction width generalizing n with
  | zero =>
    rw [Nat.pow_zero] at h
    rw [bytes, value]
    omega
  | succ width ih =>
    rw [Nat.pow_succ] at h
    rw [bytes, value, ih (by omega), UInt8.toNat_ofNat']
    omega

theorem length_slice_le (bytes : List UInt8) (offset count : ℕ) :
    (slice bytes offset count).length ≤ count := by
  rw [slice, List.length_take]
  exact Nat.min_le_left _ _

variable {count offset : ℕ}

theorem length_slice {bytes : List UInt8} (h : offset + count ≤ bytes.length) :
    (slice bytes offset count).length = count := by
  rw [slice, List.length_take, List.length_drop]
  omega

theorem field_lt (bytes : List UInt8) (offset width : ℕ) : field bytes offset width < 256 ^ width :=
  Nat.lt_of_lt_of_le (value_lt _)
    (Nat.pow_le_pow_right (by decide) (length_slice_le bytes offset width))

theorem getElem?_slice (bytes : List UInt8) {index : ℕ} (h : index < count) :
    (slice bytes offset count)[index]? = bytes[offset + index]? := by
  rw [slice, List.getElem?_take_of_lt h, List.getElem?_drop]

theorem slice_add (bytes : List UInt8) (offset a b : ℕ) :
    slice bytes offset (a + b) = slice bytes offset a ++ slice bytes (offset + a) b := by
  rw [slice, slice, slice, List.take_add, List.drop_drop]

theorem slice_append (before data after : List UInt8) :
    slice (before ++ (data ++ after)) before.length data.length = data := by
  rw [slice, List.drop_left, List.take_left]

theorem drop_eq_slice (data : List UInt8) (offset count : ℕ) :
    data.drop offset = slice data offset count ++ data.drop (offset + count) := by
  rw [slice, ← List.drop_drop, List.take_append_drop]

theorem bytes_field {data : List UInt8} {width : ℕ} (h : offset + width ≤ data.length) :
    bytes width (field data offset width) = slice data offset width := by
  have hbytes := bytes_value (slice data offset width)
  rwa [length_slice h] at hbytes

end LittleEndian
