/-
Unsigned machine words as natural numbers.

A word of width `w` is a natural number below `2 ^ w`.  `Word.add` and
`Word.sub` wrap around, as C's unsigned arithmetic does; `Word.satAdd` stops
at the largest word.  The lemmas say when wrapping cannot be seen.
-/
import Mathlib.Algebra.GroupWithZero.Nat
import Mathlib.Algebra.Ring.Int.Defs

namespace Word

/-- The largest word of width `w`. -/
def maxVal (w : ℕ) : ℕ := 2 ^ w - 1

/-- Wrapping addition. -/
def add (w a b : ℕ) : ℕ := (a + b) % 2 ^ w

/-- Wrapping subtraction. -/
def sub (w a b : ℕ) : ℕ := (a + (2 ^ w - b)) % 2 ^ w

/-- Addition that stops at the largest word. -/
def satAdd (w a b : ℕ) : ℕ := if b > maxVal w - a then maxVal w else a + b

theorem add_lt (w a b : ℕ) : add w a b < 2 ^ w :=
  Nat.mod_lt _ (Nat.two_pow_pos w)

theorem sub_lt (w a b : ℕ) : sub w a b < 2 ^ w :=
  Nat.mod_lt _ (Nat.two_pow_pos w)

variable {a b w : ℕ}

theorem add_eq (h : a + b < 2 ^ w) : add w a b = a + b :=
  Nat.mod_eq_of_lt h

theorem add_one_of_ne_zero (ha : a < 2 ^ w) (h : add w a 1 ≠ 0) : add w a 1 = a + 1 := by
  by_cases hwrap : a + 1 < 2 ^ w
  · exact add_eq hwrap
  · have hmax : a + 1 = 2 ^ w := by omega
    rw [add, hmax, Nat.mod_self] at h
    exact absurd rfl h

theorem add_one_ne (hw : 0 < w) (a : ℕ) : add w a 1 ≠ a := by
  intro h
  have hlt := add_lt w a 1
  rw [h] at hlt
  by_cases hwrap : a + 1 < 2 ^ w
  · rw [add_eq hwrap] at h
    omega
  · have hmax : a + 1 = 2 ^ w := by omega
    have htwo : 2 ^ 1 ≤ 2 ^ w := Nat.pow_le_pow_right (by omega) hw
    rw [add, hmax, Nat.mod_self] at h
    omega

theorem sub_eq (ha : a < 2 ^ w) (hb : b ≤ a) : sub w a b = a - b := by
  have hsum : a + (2 ^ w - b) = (a - b) + 2 ^ w := by omega
  rw [sub, hsum, Nat.add_mod_right]
  exact Nat.mod_eq_of_lt (by omega)

theorem add_mod (w a b : ℕ) : add w (a % 2 ^ w) b = (a + b) % 2 ^ w := by
  rw [add, Nat.mod_add_mod]

theorem sub_mod (hb : b ≤ a) (hlt : a - b < 2 ^ w) : sub w (a % 2 ^ w) (b % 2 ^ w) = a - b := by
  have hpos := Nat.two_pow_pos w
  have hmod : b % 2 ^ w < 2 ^ w := Nat.mod_lt _ hpos
  have hdiv := Nat.div_add_mod b (2 ^ w)
  have hmul : 2 ^ w * (b / 2 ^ w + 1) = 2 ^ w * (b / 2 ^ w) + 2 ^ w := Nat.mul_succ _ _
  have hsum : a + (2 ^ w - b % 2 ^ w) = (a - b) + 2 ^ w * (b / 2 ^ w + 1) := by omega
  rw [sub, Nat.mod_add_mod, hsum, Nat.add_mul_mod_self_left, Nat.mod_eq_of_lt hlt]

theorem sub_mod_of_lt (hab : a < b) (hle : b - a ≤ 2 ^ w) :
    sub w (a % 2 ^ w) (b % 2 ^ w) = 2 ^ w - (b - a) := by
  have hturn : a % 2 ^ w = (a + 2 ^ w) % 2 ^ w := by rw [Nat.add_mod_right]
  rw [hturn, sub_mod (by omega) (by omega)]
  omega

theorem satAdd_lt (ha : a < 2 ^ w) : satAdd w a b < 2 ^ w := by
  have hw := Nat.two_pow_pos w
  rw [satAdd, maxVal]
  split
  · omega
  · omega

theorem satAdd_satAdd (w a b c : ℕ) : satAdd w (satAdd w a b) c = satAdd w a (b + c) := by
  rw [satAdd, satAdd, satAdd]
  generalize maxVal w = m
  by_cases hb : b > m - a
  · rw [if_pos hb, if_pos (show b + c > m - a by omega)]
    split
    · rfl
    · omega
  · rw [if_neg hb]
    by_cases hc : b + c > m - a
    · rw [if_pos hc]
      split
      · rfl
      · omega
    · rw [if_neg hc, if_neg (by omega), Nat.add_assoc]

end Word
