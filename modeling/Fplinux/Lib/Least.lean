/-
The least entries of a stream, kept in order.

`keep r k xs x` puts `x` among the sorted entries `xs` and drops what no longer fits in `k`
places.  What an entry pushes out is above `k` others, so it would not be among the least `k`
at the end either: keeping as one reads is the same as sorting everything and cutting once.

Main results:
- `take_orderedInsert_take`: cutting before an insertion changes nothing that is kept;
- `foldl_keep`: what is kept of a stream is the front of the sorted stream;
- `sorted_perm`: the order of the stream does not matter;
- `take_place_eq`: an insertion into the front of an array is one into a sorted list.
-/
import Mathlib.Data.List.Induction
import Mathlib.Data.List.Sort
import Fplinux.Lib.Insertion

namespace Least

variable {α : Type*} (r : α → α → Prop) [DecidableRel r]

/-- Puts `x` among the entries `xs` and keeps the first `k`. -/
def keep (k : ℕ) (xs : List α) (x : α) : List α := (xs.orderedInsert r x).take k

theorem take_orderedInsert_take (x : α) (k : ℕ) (xs : List α) :
    ((xs.take k).orderedInsert r x).take k = (xs.orderedInsert r x).take k := by
  induction xs generalizing k with
  | nil => rw [List.take_nil]
  | cons y ys ih =>
    cases k with
    | zero => rw [List.take_zero, List.take_zero]
    | succ k =>
      rw [List.take_succ_cons, List.orderedInsert_cons, List.orderedInsert_cons]
      by_cases h : r x y
      · -- everything moves one place, and the last of the kept entries goes
        have hcut : (y :: ys.take k).take k = (y :: ys).take k := by
          rw [← List.take_succ_cons, List.take_take, Nat.min_eq_left (Nat.le_succ k)]
        rw [if_pos h, if_pos h, List.take_succ_cons, List.take_succ_cons, hcut]
      · rw [if_neg h, if_neg h, List.take_succ_cons, List.take_succ_cons, ih k]

variable [Std.Total r] [IsTrans α r] [Std.Antisymm r]

theorem sorted_perm {xs ys : List α} (h : xs.Perm ys) :
    xs.insertionSort r = ys.insertionSort r := by
  have hsort : (xs.insertionSort r).Perm (ys.insertionSort r) :=
    ((List.perm_insertionSort r xs).trans h).trans (List.perm_insertionSort r ys).symm
  exact hsort.eq_of_pairwise' (List.pairwise_insertionSort r xs) (List.pairwise_insertionSort r ys)

theorem orderedInsert_sorted (xs : List α) (x : α) :
    (xs.insertionSort r).orderedInsert r x = (xs ++ [x]).insertionSort r := by
  rw [← List.insertionSort_cons]
  exact sorted_perm r (List.perm_append_singleton x xs).symm

/-- **What is kept of a stream is the front of the sorted stream.** -/
theorem foldl_keep (k : ℕ) (xs : List α) :
    xs.foldl (keep r k) [] = (xs.insertionSort r).take k := by
  induction xs using List.reverseRecOn with
  | nil => rw [List.insertionSort_nil, List.take_nil, List.foldl_nil]
  | append_singleton xs x ih =>
    rw [List.foldl_append, List.foldl_cons, List.foldl_nil, ih, keep, take_orderedInsert_take,
      orderedInsert_sorted]

theorem orderedInsert_eq {xs ys : List α} {x : α} (hxs : xs.Pairwise r) (hys : ys.Pairwise r)
    (hperm : ys.Perm (x :: xs)) : xs.orderedInsert r x = ys :=
  ((List.perm_orderedInsert r x xs).trans hperm.symm).eq_of_pairwise' (hxs.orderedInsert x xs) hys

theorem keep_of_last {front : List α} {last x : α} (h : (front ++ [last]).Pairwise r)
    (hlast : r last x) : keep r (front.length + 1) (front ++ [last]) x = front ++ [last] := by
  have hbelow : ∀ y ∈ front ++ [last], r y x := by
    intro y hy
    rcases List.mem_append.mp hy with hfront | hy
    · exact IsTrans.trans _ _ _ ((List.pairwise_append.mp h).2.2 y hfront last (by simp)) hlast
    · rwa [List.mem_singleton.mp hy]
  have hsorted : (front ++ [last] ++ [x]).Pairwise r := by
    refine List.pairwise_append.mpr ⟨h, List.pairwise_singleton r x, ?_⟩
    intro y hy z hz
    rw [List.mem_singleton.mp hz]
    exact hbelow y hy
  rw [keep, orderedInsert_eq r h hsorted (List.perm_append_singleton x _)]
  exact List.take_left' (by rw [List.length_append, List.length_singleton])

theorem keep_of_not_last {front : List α} {last x : α} (h : (front ++ [last]).Pairwise r)
    (hlast : ¬ r last x) :
    keep r (front.length + 1) (front ++ [last]) x = front.orderedInsert r x := by
  obtain ⟨hfront, -, hcross⟩ := List.pairwise_append.mp h
  have hsorted : (front.orderedInsert r x ++ [last]).Pairwise r := by
    refine List.pairwise_append.mpr ⟨hfront.orderedInsert x front, List.pairwise_singleton r _, ?_⟩
    intro y hy z hz
    rw [List.mem_singleton.mp hz]
    rcases (List.mem_orderedInsert r).mp hy with rfl | hy
    · exact (Std.Total.total y last).resolve_right hlast
    · exact hcross y hy last (by simp)
  have hperm : (front.orderedInsert r x ++ [last]).Perm (x :: (front ++ [last])) :=
    (List.perm_orderedInsert r x front).append_right [last]
  rw [keep, orderedInsert_eq r h hsorted hperm]
  exact List.take_left' (List.orderedInsert_length r front x)

/-- **An insertion into the front of an array is one into a sorted list.**  Entries are moved
while they are not below the new one. -/
theorem take_place_eq {x : α} {n : ℕ} {xs : List α} (h : n < xs.length)
    (hsorted : (xs.take n).Pairwise r) :
    (Insertion.place (fun a b => ¬ r b a) x n xs).take (n + 1) = (xs.take n).orderedInsert r x := by
  obtain ⟨below, above, hsplit, hplace, habove, hlast⟩ :=
    Insertion.take_place (fun a b => ¬ r b a) x h
  have hperm := Insertion.take_place_perm (fun a b => ¬ r b a) x h
  refine (orderedInsert_eq r hsorted ?_ hperm).symm
  rw [hsplit] at hsorted
  obtain ⟨hsortedBelow, hsortedAbove, hcross⟩ := List.pairwise_append.mp hsorted
  -- everything left of the gap is below its last entry, and that one is not above `x`
  have hbelow : ∀ y ∈ below, r y x := by
    intro y hy
    obtain ⟨front, last, rfl⟩ :=
      (List.eq_nil_or_concat' below).resolve_left (List.ne_nil_of_mem hy)
    have hle : r last x := not_not.mp (hlast last List.getLast?_concat)
    rcases List.mem_append.mp hy with hfront | hy
    · have hlt := (List.pairwise_append.mp hsortedBelow).2.2 y hfront last (by simp)
      exact IsTrans.trans _ _ _ hlt hle
    · rwa [List.mem_singleton.mp hy]
  have habove' : ∀ z ∈ above, r x z := by
    intro z hz
    exact (Std.Total.total x z).resolve_right (habove z hz)
  rw [hplace]
  refine List.pairwise_append.mpr
    ⟨hsortedBelow, List.pairwise_cons.mpr ⟨habove', hsortedAbove⟩, ?_⟩
  intro y hy z hz
  rcases List.mem_cons.mp hz with rfl | hz
  · exact hbelow y hy
  · exact hcross y hy z hz

end Least
