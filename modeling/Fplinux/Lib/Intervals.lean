/-
Intervals of numbers in a sorted list.

Main results:
- `pairwise_of_adjacent`: when every interval ends before the next one starts, it ends
  before all that follow;
- `disjoint_of_perm`: then no two of them meet, in whatever order they are listed.
-/
import Mathlib.Data.List.Perm.Basic

namespace Intervals

variable {α : Type*} {first last : α → ℕ}

/-- Every entry with its successor. -/
def adjacent (list : List α) : List (α × α) := list.zip list.tail

theorem adjacent_cons_cons (a b : α) (rest : List α) :
    adjacent (a :: b :: rest) = (a, b) :: adjacent (b :: rest) := rfl

theorem pairwise_of_adjacent {list : List α} (hordered : ∀ x ∈ list, first x ≤ last x)
    (h : ∀ pair ∈ adjacent list, last pair.1 < first pair.2) :
    list.Pairwise fun a b => last a < first b := by
  induction list with
  | nil => exact List.Pairwise.nil
  | cons a rest ih =>
    cases rest with
    | nil => exact List.pairwise_singleton _ _
    | cons b rest =>
      rw [adjacent_cons_cons] at h
      have hab : last a < first b := h (a, b) (List.mem_cons_self ..)
      have hrest := ih (fun x hmem => hordered x (List.mem_cons_of_mem _ hmem))
        fun pair hmem => h pair (List.mem_cons_of_mem _ hmem)
      refine List.pairwise_cons.mpr ⟨fun x hmem => ?_, hrest⟩
      rcases List.mem_cons.mp hmem with rfl | hmem
      · exact hab
      · -- The interval after `a` starts before it ends, and ends before `x` starts.
        have hb : first b ≤ last b := hordered b (by simp)
        have hx : last b < first x := (List.pairwise_cons.mp hrest).1 x hmem
        omega

/-- Neither interval meets the other. -/
def Disjoint (first last : α → ℕ) (a b : α) : Prop := last a < first b ∨ last b < first a

theorem Disjoint.symm {a b : α} (h : Disjoint first last a b) : Disjoint first last b a := Or.symm h

theorem disjoint_of_perm {list sorted : List α} (hperm : sorted.Perm list)
    (hordered : ∀ x ∈ list, first x ≤ last x)
    (h : ∀ pair ∈ adjacent sorted, last pair.1 < first pair.2) :
    list.Pairwise (Disjoint first last) := by
  have hsorted := pairwise_of_adjacent (fun x hmem => hordered x (hperm.mem_iff.mp hmem)) h
  have hdisjoint : sorted.Pairwise (Disjoint first last) := hsorted.imp fun h => Or.inl h
  exact (hperm.pairwise_iff fun h => h.symm).mp hdisjoint

end Intervals
