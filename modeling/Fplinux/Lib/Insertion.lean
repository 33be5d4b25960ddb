/-
Insertion into the sorted front of an array.

`place` is the inner loop of an insertion sort that works from the back: it moves
every entry above the new one a place to the right and fills the gap that is left.

Main results:
- `place_spec`: where the new entry ends up, and what is left of it and right of it;
- `take_place_perm`: the front gains the new entry and loses none;
- `pairwise_take_place`: a sorted front stays sorted.
-/
import Mathlib.Data.List.Perm.Basic

namespace Insertion

variable {α : Type*} (lt : α → α → Prop) [DecidableRel lt]

/-- Inserts `x` into the first `n` entries of `xs`; the entry at `n` is overwritten. -/
def place (x : α) : ℕ → List α → List α
  | 0, xs => xs.set 0 x
  | n + 1, xs =>
    match xs[n]? with
    | none => xs
    | some y => if lt x y then place x n (xs.set (n + 1) y) else xs.set (n + 1) x

@[simp] theorem length_place (x : α) (n : ℕ) (xs : List α) :
    (place lt x n xs).length = xs.length := by
  induction n generalizing xs with
  | zero => rw [place, List.length_set]
  | succ n ih =>
    rw [place]
    split
    · rfl
    · split
      · rw [ih, List.length_set]
      · rw [List.length_set]

variable {n : ℕ} {xs : List α}

/-- **Where an entry is placed**: the front splits at the gap, every entry right of
it is above the new one, and the entry left of it is not. -/
theorem place_spec (x : α) (h : n < xs.length) :
    ∃ below above, xs.take n = below ++ above ∧
      place lt x n xs = below ++ x :: (above ++ xs.drop (n + 1)) ∧
      (∀ y ∈ above, lt x y) ∧ ∀ y, below.getLast? = some y → ¬ lt x y := by
  induction n generalizing xs with
  | zero =>
    refine ⟨[], [], rfl, ?_, ?_, ?_⟩
    · cases xs with
      | nil => simp at h
      | cons first rest => rfl
    · intro y hy
      simp at hy
    · intro y hy
      simp at hy
  | succ n ih =>
    have hn : n < xs.length := by omega
    have htake : xs.take (n + 1) = xs.take n ++ [xs[n]] := by
      rw [List.take_add_one, List.getElem?_eq_getElem hn]
      rfl
    rw [place, List.getElem?_eq_getElem hn]
    simp only
    by_cases hlt : lt x xs[n]
    · -- The last entry moves right; the rest of the front decides.
      have hset : n < (xs.set (n + 1) xs[n]).length := by
        rw [List.length_set]
        exact hn
      obtain ⟨below, above, hsplit, hplace, habove, hbelow⟩ := ih hset
      have hfront : (xs.set (n + 1) xs[n]).take n = xs.take n :=
        List.take_set_of_le (by omega)
      have hback : (xs.set (n + 1) xs[n]).drop (n + 1) = xs[n] :: xs.drop (n + 1 + 1) := by
        rw [List.drop_set, if_neg (by omega), Nat.sub_self, List.drop_eq_getElem_cons h,
          List.set_cons_zero]
      rw [hfront] at hsplit
      refine ⟨below, above ++ [xs[n]], ?_, ?_, ?_, hbelow⟩
      · rw [htake, hsplit, List.append_assoc]
      · rw [if_pos hlt, hplace, hback, List.append_assoc]
        rfl
      · intro y hy
        rcases List.mem_append.mp hy with hy | hy
        · exact habove y hy
        · rw [List.mem_singleton.mp hy]
          exact hlt
    · refine ⟨xs.take (n + 1), [], (List.append_nil _).symm, ?_, ?_, ?_⟩
      · rw [if_neg hlt, List.set_eq_take_append_cons_drop, if_pos h]
        rfl
      · intro y hy
        simp at hy
      · intro y hy
        rw [htake, List.getLast?_concat] at hy
        rwa [← Option.some.inj hy]

theorem take_place (x : α) (h : n < xs.length) :
    ∃ below above, xs.take n = below ++ above ∧
      (place lt x n xs).take (n + 1) = below ++ x :: above ∧
      (∀ y ∈ above, lt x y) ∧ ∀ y, below.getLast? = some y → ¬ lt x y := by
  obtain ⟨below, above, hsplit, hplace, habove, hbelow⟩ := place_spec lt x h
  refine ⟨below, above, hsplit, ?_, habove, hbelow⟩
  have hlen : n + 1 = (below ++ x :: above).length := by
    have hfront := congrArg List.length hsplit
    rw [List.length_take, List.length_append] at hfront
    rw [List.length_append, List.length_cons]
    omega
  rw [hplace, hlen, ← List.cons_append, ← List.append_assoc, List.take_left']
  rfl

theorem take_place_perm (x : α) (h : n < xs.length) :
    ((place lt x n xs).take (n + 1)).Perm (x :: xs.take n) := by
  obtain ⟨below, above, hsplit, hplace, -, -⟩ := take_place lt x h
  rw [hplace, hsplit]
  exact List.perm_middle

theorem pairwise_take_place (htrans : ∀ {a b c}, lt a b → lt b c → lt a c)
    (htotal : ∀ {a b}, a ≠ b → ¬ lt a b → lt b a) {x : α} (h : n < xs.length)
    (hsorted : (xs.take n).Pairwise lt) (hx : x ∉ xs.take n) :
    ((place lt x n xs).take (n + 1)).Pairwise lt := by
  obtain ⟨below, above, hsplit, hplace, habove, hlast⟩ := take_place lt x h
  rw [hsplit] at hsorted hx
  obtain ⟨hsortedBelow, hsortedAbove, hcross⟩ := List.pairwise_append.mp hsorted
  -- Everything left of the gap is below its last entry, and that one is below `x`.
  have hbelow : ∀ y ∈ below, lt y x := by
    intro y hy
    obtain ⟨front, last, rfl⟩ := List.eq_nil_or_concat' below |>.resolve_left
      (List.ne_nil_of_mem hy)
    have hne : x ≠ last := by
      rintro rfl
      exact hx (by simp)
    have hlt : lt last x := htotal hne (hlast last List.getLast?_concat)
    rcases List.mem_append.mp hy with hfront | hy
    · have hlt' := (List.pairwise_append.mp hsortedBelow).2.2 y hfront last (by simp)
      exact htrans hlt' hlt
    · rwa [List.mem_singleton.mp hy]
  rw [hplace]
  refine List.pairwise_append.mpr ⟨hsortedBelow, List.pairwise_cons.mpr ⟨habove, hsortedAbove⟩, ?_⟩
  intro y hy z hz
  rcases List.mem_cons.mp hz with rfl | hz
  · exact hbelow y hy
  · exact hcross y hy z hz

end Insertion
