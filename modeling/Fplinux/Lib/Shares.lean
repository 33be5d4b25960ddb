/-
A total that is shared out by rounding down.

Place `k` gets what lies between the `k`-th and the next multiple of the total, each divided
by the number of places.  The shares differ by at most one, but their order depends on the
remainder.

Main results:
- `share_le_add_one`: no share is more than one larger than another;
- `share_mono_iff`: when the shares never decrease.
-/
import Mathlib.Tactic.Linarith
import Mathlib.Tactic.Ring

namespace Shares

variable {m total r i j k : ℤ}

def share (total m k : ℤ) : ℤ := (k + 1) * total / m - k * total / m

theorem ediv_eq {a q : ℤ} (hm : 0 < m) (hle : q * m ≤ a) (hlt : a < (q + 1) * m) : a / m = q :=
  le_antisymm (Int.lt_add_one_iff.mp (Int.ediv_lt_of_lt_mul hm hlt)) (Int.le_ediv_of_mul_le hm hle)

theorem share_mod (hm : 0 < m) : share total m k = total / m + share (total % m) m k := by
  have hsplit : ∀ n : ℤ, n * total / m = n * (total % m) / m + n * (total / m) := by
    intro n
    rw [← Int.add_mul_ediv_left _ _ hm.ne']
    congr 1
    calc n * total = n * (total % m + m * (total / m)) := by rw [Int.emod_add_mul_ediv]
      _ = n * (total % m) + m * (n * (total / m)) := by ring
  rw [share, share, hsplit, hsplit]
  ring

theorem share_bounds (hr : 0 ≤ r) (hrm : r < m) : 0 ≤ share r m k ∧ share r m k ≤ 1 := by
  have hm : 0 < m := by omega
  have hle : k * r / m ≤ (k + 1) * r / m := Int.ediv_le_ediv hm (by linarith)
  have hlt : (k + 1) * r / m ≤ (k * r + m) / m := Int.ediv_le_ediv hm (by linarith)
  rw [Int.add_ediv_of_dvd_right (dvd_refl m), Int.ediv_self hm.ne'] at hlt
  rw [share]
  omega

/-- **The shares are even.** -/
theorem share_le_add_one (hm : 0 < m) : share total m i ≤ share total m j + 1 := by
  rw [share_mod hm (k := i), share_mod hm (k := j)]
  have hr := Int.emod_nonneg total hm.ne'
  have hrm := Int.emod_lt_of_pos total hm
  have hi := (share_bounds hr hrm (k := i)).2
  have hj := (share_bounds hr hrm (k := j)).1
  omega

theorem share_one (hi : 0 ≤ i) (him : i + 1 < m) : share 1 m i = 0 := by
  rw [share, mul_one, mul_one, Int.ediv_eq_zero_of_lt (by omega) him,
    Int.ediv_eq_zero_of_lt hi (by omega)]
  rfl

theorem share_pred (hj : 0 < j) (hjm : j < m) : share (m - 1) m j = 1 := by
  have hm : 0 < m := by omega
  rw [share, ediv_eq hm (q := j) (by linarith) (by linarith),
    ediv_eq hm (q := j - 1) (by linarith) (by linarith)]
  omega

theorem count_shares (hr : 0 ≤ r) (hrm : r < m) (hi : 0 ≤ i) (hone : 1 ≤ share r m i)
    (hmono : ∀ i j, 0 ≤ i → i < j → j < m → share r m i ≤ share r m j) (n : ℕ)
    (hn : i + 1 + n ≤ m) : 1 + (n : ℤ) ≤ (i + 1 + n) * r / m := by
  induction n with
  | zero =>
    have hnonneg : 0 ≤ i * r / m := Int.ediv_nonneg (Int.mul_nonneg hi hr) (by omega)
    rw [share] at hone
    rw [Nat.cast_zero, add_zero, add_zero]
    omega
  | succ n ih =>
    have hplace := hmono i (i + 1 + n) hi (by omega) (by omega)
    rw [share, share] at hplace
    rw [share] at hone
    have hbelow := ih (by omega)
    rw [Nat.cast_succ, ← add_assoc (i + 1)]
    omega

/-- **The order of the shares**: only a remainder that is next to a multiple keeps it. -/
theorem share_mono_iff (hm : 0 < m) :
    (∀ i j, 0 ≤ i → i < j → j < m → share total m i ≤ share total m j) ↔
      total % m ≤ 1 ∨ total % m = m - 1 := by
  have hr := Int.emod_nonneg total hm.ne'
  have hrm := Int.emod_lt_of_pos total hm
  have hmod : ∀ k, share total m k = total / m + share (total % m) m k := fun k => share_mod hm
  simp only [hmod, add_le_add_iff_left]
  generalize total % m = r at hr hrm
  constructor
  · intro hmono
    by_contra hbad
    -- The first place with a share is `(m - 1) / r`; those behind it have too much together.
    have hle : (m - 1) / r * r ≤ m - 1 := Int.ediv_mul_le _ (by omega)
    have hlt : m - 1 < ((m - 1) / r + 1) * r := Int.lt_ediv_add_one_mul_self _ (by omega)
    have hnonneg : 0 ≤ (m - 1) / r := Int.ediv_nonneg (by omega) hr
    generalize (m - 1) / r = i at hle hlt hnonneg
    have hone : share r m i = 1 := by
      rw [share, ediv_eq hm (q := 1) (by linarith) (by linarith),
        Int.ediv_eq_zero_of_lt (Int.mul_nonneg hnonneg hr) (by omega)]
      rfl
    have him : i + 1 ≤ m := by nlinarith
    have hall := count_shares hr hrm hnonneg hone.ge hmono (m - (i + 1)).toNat (by omega)
    rw [Int.toNat_of_nonneg (by omega), show i + 1 + (m - (i + 1)) = m by ring,
      Int.mul_ediv_cancel_left _ hm.ne'] at hall
    have hbehind : (m - r) * r ≤ i * r := Int.mul_le_mul_of_nonneg_right (by omega) hr
    have hfour : 4 ≤ m := by omega
    have hinner : 0 ≤ (m - r - 2) * (r - 2) := Int.mul_nonneg (by omega) (by omega)
    linarith
  · rintro (hsmall | hlarge) i j hi hij hj
    · rcases (by omega : r = 0 ∨ r = 1) with rfl | rfl
      · simp [share]
      · rw [share_one hi (by omega)]
        exact (share_bounds hr hrm).1
    · rw [hlarge, share_pred (by omega) hj]
      exact (share_bounds (by omega) (by omega)).2

end Shares
