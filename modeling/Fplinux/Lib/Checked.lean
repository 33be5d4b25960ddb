/-
C arithmetic with its ranges.

Each operation gives its exact value if the type of the result holds it, and `none`
otherwise: a signed overflow, an unsigned value that would wrap, a division by zero.  A
function written with them that gives a value computed it exactly, with every intermediate
value inside its type.

Main results:
- `int32_eq`, `int64_eq`, `uint32_eq`, `uint64_eq`: values in range are kept;
- `quotient_eq`, `unsignedQuotient_eq`: so is a quotient;
- `mul_tdiv_bounds`: what a truncated division leaves out has the sign of what is divided.
-/
import Mathlib.Algebra.GroupWithZero.Nat
import Mathlib.Algebra.Ring.Int.Defs

namespace Checked

def int32 (value : ℤ) : Option ℤ :=
  if -2147483648 ≤ value ∧ value ≤ 2147483647 then some value else none

def int64 (value : ℤ) : Option ℤ :=
  if -9223372036854775808 ≤ value ∧ value ≤ 9223372036854775807 then some value else none

def uint32 (value : ℕ) : Option ℕ := if value < 2 ^ 32 then some value else none

def uint64 (value : ℕ) : Option ℕ := if value < 2 ^ 64 then some value else none

/-- Division of `int`s: it truncates, and `b` must not be zero. -/
def quotient (a b : ℤ) : Option ℤ := if b = 0 then none else int32 (a.tdiv b)

/-- Unsigned division; `b` must not be zero. -/
def unsignedQuotient (a b : ℕ) : Option ℕ := if b = 0 then none else some (a / b)

theorem int32_eq {value : ℤ} (hlow : -2147483648 ≤ value) (hhigh : value ≤ 2147483647) :
    int32 value = some value := if_pos ⟨hlow, hhigh⟩

theorem int64_eq {value : ℤ} (hlow : -9223372036854775808 ≤ value)
    (hhigh : value ≤ 9223372036854775807) : int64 value = some value := if_pos ⟨hlow, hhigh⟩

theorem uint32_eq {value : ℕ} (h : value < 2 ^ 32) : uint32 value = some value := if_pos h

theorem uint64_eq {value : ℕ} (h : value < 2 ^ 64) : uint64 value = some value := if_pos h

theorem quotient_eq {a b : ℤ} (hb : b ≠ 0) (hlow : -2147483648 < a) (hhigh : a ≤ 2147483647) :
    quotient a b = some (a.tdiv b) := by
  have hle := Int.natAbs_tdiv_le_natAbs a b
  rw [quotient, if_neg hb]
  exact int32_eq (by omega) (by omega)

theorem unsignedQuotient_eq {b : ℕ} (a : ℕ) (hb : b ≠ 0) : unsignedQuotient a b = some (a / b) :=
  if_neg hb

theorem mul_tdiv_bounds (a : ℤ) (b : ℕ) : min a 0 ≤ b * a.tdiv b ∧ b * a.tdiv b ≤ max a 0 := by
  have hpositive : ∀ x : ℤ, 0 ≤ x → 0 ≤ b * x.tdiv b ∧ b * x.tdiv b ≤ x := by
    intro x hx
    rw [Int.tdiv_eq_ediv_of_nonneg hx]
    have hnonneg : 0 ≤ x / (b : ℤ) := Int.ediv_nonneg hx (Int.natCast_nonneg b)
    refine ⟨Int.mul_nonneg (Int.natCast_nonneg b) hnonneg, ?_⟩
    rcases Nat.eq_zero_or_pos b with rfl | hb
    · rwa [Int.natCast_zero, Int.zero_mul]
    · exact Int.mul_ediv_self_le (by omega)
  rcases Int.le_total 0 a with ha | ha
  · have h := hpositive a ha
    omega
  · have h := hpositive (-a) (by omega)
    rw [Int.neg_tdiv, Int.mul_neg] at h
    omega

end Checked
