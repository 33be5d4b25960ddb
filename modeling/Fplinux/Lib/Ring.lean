/-
Ring buffers: a window of an endless sequence, kept by position modulo the
number of slots.

`Holds slots lo hi f` says that the slots have the values `f lo, …, f (hi - 1)`
at their positions' places.  Copying a block of positions that follow the
window keeps it as long as the block ends within one turn of `lo`
(`Holds.blit`), and puts the block into the window (`holds_blit`).  A block is
copied in two pieces, up to the last slot (`placed_first`) and on from slot 0
(`placed_rest`).

`Sweep lo l hi` says that a reader that stood at `lo` went through the
positions `l` one after the other, staying or moving on by one, and stands at
`hi` now.
-/
import Mathlib.Algebra.GroupWithZero.Nat
import Mathlib.Data.List.Basic
import Fplinux.Lib.ModWindow

namespace Ring

variable {α : Type*}

/-- Copies `xs` over the slots from `start` on. -/
def blit (slots : List α) (start : ℕ) (xs : List α) : List α :=
  slots.take start ++ (xs ++ slots.drop (start + xs.length))

variable {slots xs : List α} {start i hi lo k : ℕ} {f : ℕ → Option α} {l : List ℕ}

theorem length_blit (h : start + xs.length ≤ slots.length) :
    (blit slots start xs).length = slots.length := by
  simp only [blit, List.length_append, List.length_take, List.length_drop]
  omega

theorem getElem?_blit_inside (h : start + xs.length ≤ slots.length) (hlo : start ≤ i)
    (hhi : i < start + xs.length) :
    (blit slots start xs)[i]? = xs[i - start]? := by
  have htake : (slots.take start).length = start := by
    rw [List.length_take]
    omega
  rw [blit, List.getElem?_append_right (by omega), htake,
    List.getElem?_append_left (by omega)]

theorem getElem?_blit_outside (h : start + xs.length ≤ slots.length)
    (hi : i < start ∨ start + xs.length ≤ i) :
    (blit slots start xs)[i]? = slots[i]? := by
  have htake : (slots.take start).length = start := by
    rw [List.length_take]
    omega
  rcases hi with hi | hi
  · rw [blit, List.getElem?_append_left (by omega), List.getElem?_take_of_lt hi]
  · rw [blit, List.getElem?_append_right (by omega), htake,
      List.getElem?_append_right (by omega), List.getElem?_drop]
    congr 1
    omega

/-- The slots have the values of positions `lo, …, hi - 1`. -/
def Holds (slots : List α) (lo hi : ℕ) (f : ℕ → Option α) : Prop :=
  ∀ n, lo ≤ n → n < hi → slots[n % slots.length]? = f n

theorem Holds.mono {lo' hi' : ℕ} (h : Holds slots lo hi f) (hlo : lo ≤ lo') (hhi : hi' ≤ hi) :
    Holds slots lo' hi' f :=
  fun n hn hn' => h n (Nat.le_trans hlo hn) (Nat.lt_of_lt_of_le hn' hhi)

theorem Holds.congr {g : ℕ → Option α} (h : Holds slots lo hi f)
    (hfg : ∀ n, lo ≤ n → n < hi → f n = g n) : Holds slots lo hi g :=
  fun n hn hn' => (h n hn hn').trans (hfg n hn hn')

theorem Holds.append {mid : ℕ} (h : Holds slots lo mid f) (h' : Holds slots mid hi f) :
    Holds slots lo hi f := by
  intro n hn hn'
  by_cases hmid : n < mid
  · exact h n hn hmid
  · exact h' n (Nat.not_lt.mp hmid) hn'

/-- The places of `len` positions from `k` on are the slots from `p` on, in
order and before the last slot ends. -/
structure Placed (c k p len : ℕ) : Prop where
  place : ∀ i, i < len → (k + i) % c = p + i
  fits : p + len ≤ c

theorem placed_first {c len : ℕ} (h : k % c + len ≤ c) : Placed c k (k % c) len := by
  refine ⟨fun i hi => ?_, h⟩
  have hsum : k + i = (k % c + i) + c * (k / c) := by
    have hdiv := Nat.div_add_mod k c
    omega
  rw [hsum, Nat.add_mul_mod_self_left, Nat.mod_eq_of_lt (by omega)]

theorem placed_rest {c len : ℕ} (hc : 0 < c) (h : len ≤ c) : Placed c (k + (c - k % c)) 0 len := by
  refine ⟨fun i hi => ?_, by omega⟩
  have hmod : k % c < c := Nat.mod_lt _ hc
  have hsum : k + (c - k % c) + i = i + c * (k / c + 1) := by
    have hdiv := Nat.div_add_mod k c
    have hmul : c * (k / c + 1) = c * (k / c) + c := Nat.mul_succ _ _
    omega
  rw [hsum, Nat.add_mul_mod_self_left, Nat.mod_eq_of_lt (by omega), Nat.zero_add]

theorem Holds.blit {p : ℕ} (h : Holds slots lo hi f) (hp : Placed slots.length k p xs.length)
    (hk : hi ≤ k) (hturn : k + xs.length ≤ lo + slots.length) :
    Holds (Ring.blit slots p xs) lo hi f := by
  intro n hn hn'
  rw [length_blit hp.fits, getElem?_blit_outside hp.fits, h n hn hn']
  by_contra hin
  -- The place of `n` would be the place of a copied position.
  have hlo : p ≤ n % slots.length := by omega
  have hi : n % slots.length - p < xs.length := by omega
  have hplace := hp.place _ hi
  rw [Nat.add_sub_cancel' hlo] at hplace
  have heq := ModWindow.eq_of_mod_eq (n := slots.length) (Nat.le_refl n) (by omega)
    (b := k + (n % slots.length - p)) (by omega) (by omega) hplace.symm
  omega

theorem holds_blit {p : ℕ} (hp : Placed slots.length k p xs.length) :
    Holds (Ring.blit slots p xs) k (k + xs.length) (fun n => xs[n - k]?) := by
  intro n hn hn'
  have hplace := hp.place (n - k) (by omega)
  rw [Nat.add_sub_cancel' hn] at hplace
  rw [length_blit hp.fits, hplace, getElem?_blit_inside hp.fits (by omega) (by omega)]
  congr 1
  omega

/-- A reader that stood at `lo` went through these positions, staying or
moving on by one after each, and stands at `hi`. -/
def Sweep (lo : ℕ) : List ℕ → ℕ → Prop
  | [], hi => hi = lo
  | n :: l, hi => n = lo ∧ (Sweep n l hi ∨ Sweep (n + 1) l hi)

theorem Sweep.append {mid : ℕ} {l' : List ℕ} (h : Sweep lo l mid) (h' : Sweep mid l' hi) :
    Sweep lo (l ++ l') hi := by
  induction l generalizing lo with
  | nil =>
    have hmid : mid = lo := h
    subst hmid
    exact h'
  | cons n l ih =>
    obtain ⟨hn, hrest⟩ := h
    exact ⟨hn, hrest.imp ih ih⟩

theorem Sweep.shift (h : Sweep lo l hi) (d : ℕ) : Sweep (d + lo) (l.map (d + ·)) (d + hi) := by
  induction l generalizing lo with
  | nil =>
    have hhi : hi = lo := h
    rw [hhi]
    rfl
  | cons n l ih =>
    obtain ⟨hn, hrest⟩ := h
    exact ⟨by rw [hn], hrest.imp ih ih⟩

theorem Sweep.mem (h : Sweep lo l hi) (hlo : lo ≤ i) (hhi : i < hi) : i ∈ l := by
  induction l generalizing lo with
  | nil =>
    have hend : hi = lo := h
    omega
  | cons n l ih =>
    obtain ⟨rfl, hrest⟩ := h
    by_cases heq : i = n
    · exact List.mem_cons.mpr (.inl heq)
    · refine List.mem_cons_of_mem _ ?_
      rcases hrest with hstay | hmove
      · exact ih hstay hlo
      · exact ih hmove (by omega)

end Ring
