/-
Accesses of a loader to a file that is held in memory (`engine.c`, `ads_image.c`).

An access is logged with what it touches (`Access`), and a read gives zeros outside
the file.  Sums of sizes are logged with their exact value.
-/
import Mathlib.Algebra.GroupWithZero.Nat
import Mathlib.Data.List.GetD
import Fplinux.Lib.Traced

namespace Mre

/-- What a loader asks the host for. -/
inductive Resource
  | memory
  | stack
  | resources
  deriving DecidableEq, Repr

/-- What a loader touches: bytes of the file, of the copied resources, of the loaded
image or of a buffer with so much room, a sum or a product with the bound of its
type, a difference, or what the host hands out and takes back. -/
inductive Access
  | file (offset length : ℕ)
  | resource (offset length : ℕ)
  | image (offset length : ℕ)
  | store (offset length room : ℕ)
  | sum (value bound : ℕ)
  | difference (value taken : ℕ)
  | acquire (resource : Resource)
  | release (resource : Resource)
  deriving DecidableEq, Repr

def byteAt (bytes : List UInt8) (offset : ℕ) : ℕ := (bytes.getD offset 0).toNat

/-- `read32` of the engine and `le32` of the ADS loader. -/
def le32 (bytes : List UInt8) (offset : ℕ) : ℕ :=
  byteAt bytes offset + 2 ^ 8 * byteAt bytes (offset + 1) + 2 ^ 16 * byteAt bytes (offset + 2) +
    2 ^ 24 * byteAt bytes (offset + 3)

theorem byteAt_append_left {first : List UInt8} {offset : ℕ} (h : offset < first.length)
    (second : List UInt8) : byteAt (first ++ second) offset = byteAt first offset := by
  rw [byteAt, byteAt, List.getD_append _ _ _ _ h]

theorem byteAt_append_right (first second : List UInt8) (offset : ℕ) :
    byteAt (first ++ second) (first.length + offset) = byteAt second offset := by
  rw [byteAt, byteAt, List.getD_append_right _ _ _ _ (Nat.le_add_right _ _),
    Nat.add_sub_cancel_left]

theorem le32_append_left {first : List UInt8} {offset : ℕ} (h : offset + 4 ≤ first.length)
    (second : List UInt8) : le32 (first ++ second) offset = le32 first offset := by
  simp only [le32]
  rw [byteAt_append_left (by omega), byteAt_append_left (by omega), byteAt_append_left (by omega),
    byteAt_append_left (by omega)]

theorem le32_append_right (first second : List UInt8) (offset : ℕ) :
    le32 (first ++ second) (first.length + offset) = le32 second offset := by
  simp only [le32, Nat.add_assoc, byteAt_append_right]

def read32 (bytes : List UInt8) (offset : ℕ) : Traced Access ℕ :=
  Traced.access (.file offset 4) (le32 bytes offset)

/-- `range` of the ADS loader and `within` of the engine. -/
def range (offset length bound : ℕ) : Bool := offset ≤ bound ∧ length ≤ bound - offset

theorem range_iff {offset length bound : ℕ} :
    range offset length bound = true ↔ offset + length ≤ bound := by
  simp only [range, decide_eq_true_eq]
  omega

/-- A sum of sizes, in a type with so many values. -/
def add (bound a b : ℕ) : Traced Access ℕ := Traced.access (.sum (a + b) bound) (a + b)

@[simp] theorem value?_read32 (bytes : List UInt8) (offset : ℕ) :
    (read32 bytes offset).value? = some (le32 bytes offset) := rfl

@[simp] theorem value?_add (bound a b : ℕ) : (add bound a b).value? = some (a + b) := rfl

end Mre
