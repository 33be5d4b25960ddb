/-
The rows of a sliding window, indexed by residue.

A window of `n` consecutive numbers `f, …, f + n - 1` meets every residue
class modulo `n` exactly once; `rowOf f n s` is the number of class `s`.  When
the window moves by one, only one class changes its number (`rowOf_succ`).
-/
import Mathlib.Data.Nat.Notation

namespace ModWindow

/-- The number of `f, …, f + n - 1` that is `s` modulo `n`. -/
def rowOf (f n s : ℕ) : ℕ := f + (s + n - f % n) % n

variable {f n s : ℕ}

theorem le_rowOf (f n s : ℕ) : f ≤ rowOf f n s := Nat.le_add_right _ _

theorem rowOf_lt (hn : 0 < n) : rowOf f n s < f + n :=
  Nat.add_lt_add_left (Nat.mod_lt _ hn) f

theorem rowOf_mod (hs : s < n) : rowOf f n s % n = s := by
  have hf : f % n < n := Nat.mod_lt _ (by omega)
  rw [rowOf, Nat.add_mod, Nat.mod_mod, ← Nat.add_mod]
  have hsum : f + (s + n - f % n) = s + n * (f / n + 1) := by
    have hdiv := Nat.div_add_mod f n
    rw [Nat.mul_add, Nat.mul_one]
    omega
  rw [hsum, Nat.add_mul_mod_self_left, Nat.mod_eq_of_lt hs]

theorem eq_of_mod_eq {a b : ℕ} (ha : f ≤ a) (ha' : a < f + n) (hb : f ≤ b) (hb' : b < f + n)
    (h : a % n = b % n) : a = b := by
  have hda := Nat.div_add_mod a n
  have hdb := Nat.div_add_mod b n
  rcases Nat.lt_trichotomy (a / n) (b / n) with hlt | heq | hgt
  · have hmul : n * (a / n) + n ≤ n * (b / n) := by
      rw [← Nat.mul_succ]
      exact Nat.mul_le_mul_left n hlt
    omega
  · rw [heq] at hda
    omega
  · have hmul : n * (b / n) + n ≤ n * (a / n) := by
      rw [← Nat.mul_succ]
      exact Nat.mul_le_mul_left n hgt
    omega

theorem eq_rowOf {r : ℕ} (hr : f ≤ r) (hr' : r < f + n) (hs : r % n = s) : r = rowOf f n s := by
  have hn : 0 < n := by omega
  have hsn : s < n := by
    rw [← hs]
    exact Nat.mod_lt _ hn
  exact eq_of_mod_eq hr hr' (le_rowOf _ _ _) (rowOf_lt hn) (by rw [hs, rowOf_mod hsn])

theorem rowOf_succ (hs : s < n) (hne : s ≠ f % n) : rowOf (f + 1) n s = rowOf f n s := by
  have hn : 0 < n := by omega
  have hmod : rowOf f n s % n = s := rowOf_mod hs
  have hlt : rowOf f n s < f + n := rowOf_lt hn
  have hf : f ≠ rowOf f n s := by
    intro heq
    rw [← heq] at hmod
    exact hne hmod.symm
  have hle := le_rowOf f n s
  exact (eq_rowOf (by omega) (by omega) hmod).symm

end ModWindow
