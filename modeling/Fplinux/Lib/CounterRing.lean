/-
Ring buffers whose places come from counters kept in machine words.

A counter of width `w` goes through the natural numbers modulo `2 ^ w`, and
the byte it counts lies at slot `place w size k = k % 2 ^ w % size`.  Where
`size` does not divide `2 ^ w`, the places jump when the counter passes a
multiple of `2 ^ w`, and two counters of one window may share a slot.

* `distinct_of_lap`: up to `size` counters of one lap have places of their own;
* `distinct_of_wrap`: counters on both sides of a multiple have places of
  their own as long as there are at most `2 ^ w % size` of them;
* `consecutive_first`, `consecutive_rest`: the counters of a block that stays
  in its lap are the slots up to the last one, and on from slot 0;
* `HoldsAt.blit`, `holdsAt_blit`, `HoldsAt.slice`: copying such a block into
  the slots and out of them.
-/
import Fplinux.Lib.Ring

namespace CounterRing

/-- The slot of the `k`-th byte, found from its counter of width `w`. -/
def place (w size k : ℕ) : ℕ := k % 2 ^ w % size

/-- No two counters of the window have one place. -/
def Distinct (place : ℕ → ℕ) (lo hi : ℕ) : Prop :=
  ∀ m n, lo ≤ m → m < n → n < hi → place m ≠ place n

/-- The places of `len` counters from `k` on are the slots from `p` on. -/
def Consecutive (place : ℕ → ℕ) (k p len : ℕ) : Prop :=
  ∀ i, i < len → place (k + i) = p + i

/-! ### Windows of counters -/

variable {k w : ℕ}

theorem mod_of_lap {n : ℕ} (hk : k ≤ n) (hlap : k % 2 ^ w + (n - k) < 2 ^ w) :
    n % 2 ^ w = k % 2 ^ w + (n - k) := by
  have hn : n = k + (n - k) := by omega
  rw [hn, Nat.add_mod, Nat.mod_eq_of_lt (a := n - k) (by omega), Nat.mod_eq_of_lt (by omega)]
  omega

variable {hi lo size : ℕ}

theorem distinct_of_lap (hlap : lo % 2 ^ w + (hi - lo) ≤ 2 ^ w) (hsize : hi ≤ lo + size) :
    Distinct (place w size) lo hi := by
  intro m n hm hmn hn heq
  rw [place, place, mod_of_lap hm (by omega), mod_of_lap (k := lo) (n := n) (by omega) (by omega)]
    at heq
  have h := ModWindow.eq_of_mod_eq (n := size) (a := lo % 2 ^ w + (m - lo))
    (b := lo % 2 ^ w + (n - lo)) (Nat.le_refl _) (by omega) (by omega) (by omega) heq
  omega

theorem distinct_of_wrap {q : ℕ} (hsize : 0 < size) (hq : q % 2 ^ w = 0) (hlo : lo < q)
    (hhi : q < hi) (hlen : hi - lo ≤ 2 ^ w % size) :
    Distinct (place w size) lo hi := by
  have hword : 2 ^ w % size ≤ 2 ^ w := Nat.mod_le _ _
  have hrest : 2 ^ w % size < size := Nat.mod_lt _ hsize
  -- Before the multiple the places count down from `2 ^ w % size`, from it on up from 0.
  have hbefore : ∀ m, lo ≤ m → m < q → place w size m = 2 ^ w % size - (q - m) := by
    intro m hm hmq
    have hmod : m % 2 ^ w = 2 ^ w - (q - m) := by
      have hsum : m = q - 2 ^ w + (2 ^ w - (q - m)) := by
        have hle : 2 ^ w ≤ q := Nat.le_of_dvd (by omega) (Nat.dvd_of_mod_eq_zero hq)
        omega
      have hstart : (q - 2 ^ w) % 2 ^ w = 0 := by
        obtain ⟨d, rfl⟩ := Nat.dvd_of_mod_eq_zero hq
        rw [← Nat.mul_sub_one]
        exact Nat.mul_mod_right _ _
      rw [hsum, Nat.add_mod, hstart, Nat.zero_add, Nat.mod_mod, Nat.mod_eq_of_lt (by omega)]
      omega
    have hdiv := Nat.div_add_mod (2 ^ w) size
    have hplace : 2 ^ w - (q - m) = 2 ^ w % size - (q - m) + size * (2 ^ w / size) := by omega
    rw [place, hmod, hplace, Nat.add_mul_mod_self_left, Nat.mod_eq_of_lt (by omega)]
  have hafter : ∀ n, q ≤ n → n < hi → place w size n = n - q := by
    intro n hn hn'
    have hmod := mod_of_lap (w := w) hn (by omega)
    rw [hq, Nat.zero_add] at hmod
    rw [place, hmod, Nat.mod_eq_of_lt (by omega)]
  intro m n hm hmn hn
  by_cases hmq : m < q
  · rw [hbefore m hm hmq]
    by_cases hnq : n < q
    · rw [hbefore n (by omega) hnq]
      omega
    · rw [hafter n (by omega) hn]
      omega
  · rw [hafter m (by omega) (by omega), hafter n (by omega) hn]
    omega

variable {len : ℕ}

theorem consecutive_first (hlap : k % 2 ^ w + len ≤ 2 ^ w) (hsize : place w size k + len ≤ size) :
    Consecutive (place w size) k (place w size k) len := by
  intro i hi
  have hmod := mod_of_lap (w := w) (k := k) (n := k + i) (by omega) (by omega)
  rw [Nat.add_sub_cancel_left] at hmod
  rw [place, hmod, ← Nat.mod_add_mod]
  exact Nat.mod_eq_of_lt (by
    have hfits : k % 2 ^ w % size + len ≤ size := hsize
    omega)

theorem consecutive_rest (hsize : 0 < size)
    (hlap : k % 2 ^ w + (size - place w size k) + len ≤ 2 ^ w) (hlen : len ≤ size) :
    Consecutive (place w size) (k + (size - place w size k)) 0 len := by
  intro i hi
  have hlt : k % 2 ^ w % size < size := Nat.mod_lt _ hsize
  have hmod := mod_of_lap (w := w) (k := k) (n := k + (size - place w size k) + i)
    (by omega) (by omega)
  have hdiv := Nat.div_add_mod (k % 2 ^ w) size
  have hmul : size * (k % 2 ^ w / size + 1) = size * (k % 2 ^ w / size) + size := Nat.mul_succ _ _
  have hsum : k % 2 ^ w + (k + (size - place w size k) + i - k)
      = i + size * (k % 2 ^ w / size + 1) := by
    rw [place]
    omega
  rw [place, hmod, hsum, Nat.add_mul_mod_self_left, Nat.mod_eq_of_lt (by omega), Nat.zero_add]

/-! ### What the slots hold -/

variable {α : Type*}

/-- The slots have the values `f lo, …, f (hi - 1)` at their places. -/
def HoldsAt (place : ℕ → ℕ) (slots : List α) (lo hi : ℕ) (f : ℕ → Option α) : Prop :=
  ∀ n, lo ≤ n → n < hi → slots[place n]? = f n

variable {f : ℕ → Option α} {place : ℕ → ℕ} {slots : List α}

theorem HoldsAt.mono {lo' hi' : ℕ} (h : HoldsAt place slots lo hi f) (hlo : lo ≤ lo')
    (hhi : hi' ≤ hi) :
    HoldsAt place slots lo' hi' f :=
  fun n hn hn' => h n (Nat.le_trans hlo hn) (Nat.lt_of_lt_of_le hn' hhi)

theorem HoldsAt.congr {g : ℕ → Option α} (h : HoldsAt place slots lo hi f)
    (hfg : ∀ n, lo ≤ n → n < hi → f n = g n) :
    HoldsAt place slots lo hi g :=
  fun n hn hn' => (h n hn hn').trans (hfg n hn hn')

theorem HoldsAt.append {mid : ℕ} (h : HoldsAt place slots lo mid f)
    (h' : HoldsAt place slots mid hi f) :
    HoldsAt place slots lo hi f := by
  intro n hn hn'
  by_cases hmid : n < mid
  · exact h n hn hmid
  · exact h' n (Nat.not_lt.mp hmid) hn'

variable {p : ℕ} {xs : List α}

theorem HoldsAt.blit (h : HoldsAt place slots lo hi f) (hfits : p + xs.length ≤ slots.length)
    (hp : Consecutive place k p xs.length) (hk : hi ≤ k)
    (hdistinct : Distinct place lo (k + xs.length)) :
    HoldsAt place (Ring.blit slots p xs) lo hi f := by
  intro n hn hn'
  rw [Ring.getElem?_blit_outside hfits, h n hn hn']
  by_contra hin
  have hi : place n - p < xs.length := by omega
  have hplace := hp _ hi
  refine hdistinct n (k + (place n - p)) hn (by omega) (by omega) ?_
  omega

theorem holdsAt_blit (hfits : p + xs.length ≤ slots.length) (hp : Consecutive place k p xs.length) :
    HoldsAt place (Ring.blit slots p xs) k (k + xs.length) (fun n => xs[n - k]?) := by
  intro n hn hn'
  have hplace := hp (n - k) (by omega)
  rw [Nat.add_sub_cancel' hn] at hplace
  rw [hplace, Ring.getElem?_blit_inside hfits (by omega) (by omega)]
  congr 1
  omega

theorem HoldsAt.slice (h : HoldsAt place slots lo hi (fun n => xs[n]?))
    (hp : Consecutive place k p len) (hlo : lo ≤ k) (hhi : k + len ≤ hi) :
    (slots.drop p).take len = (xs.drop k).take len := by
  refine List.ext_getElem? fun i => ?_
  rw [List.getElem?_take, List.getElem?_take]
  split
  · rename_i hi
    rw [List.getElem?_drop, List.getElem?_drop, ← hp i hi]
    exact h (k + i) (by omega) (by omega)
  · rfl

end CounterRing
