/-
Tables with slots that are free or hold one entry.

A table is a function from its indices to `Option β`; `entries` lists what the
slots of a list hold.  Filling a free slot adds its entry and freeing a slot
takes one away, in whatever order the slots lie (`entries_fill`,
`entries_free`).
-/
import Mathlib.Data.List.Nodup

namespace Slots

variable {ι β : Type*} {f : ι → Option β} {i : ι} {b : β}

/-- What the slots hold. -/
def entries (l : List ι) (f : ι → Option β) : List β := l.filterMap f

variable {l : List ι}

theorem mem_entries : b ∈ entries l f ↔ ∃ i ∈ l, f i = some b :=
  List.mem_filterMap

theorem entries_cons (i : ι) (l : List ι) (f : ι → Option β) :
    entries (i :: l) f = (f i).toList ++ entries l f := by
  rw [entries, List.filterMap_cons]
  cases f i with
  | none => rfl
  | some b => rfl

variable [DecidableEq ι]

theorem entries_update_of_notMem (hi : i ∉ l) (x : Option β) :
    entries l (Function.update f i x) = entries l f := by
  refine List.filterMap_congr fun j hj => ?_
  rw [Function.update_of_ne]
  rintro rfl
  exact hi hj

theorem entries_fill (hl : l.Nodup) (hi : i ∈ l) (hfree : f i = none) :
    (entries l (Function.update f i (some b))).Perm (b :: entries l f) := by
  induction l with
  | nil => exact absurd hi List.not_mem_nil
  | cons j l ih =>
    obtain ⟨hj, hnodup⟩ := List.nodup_cons.mp hl
    rw [entries_cons, entries_cons]
    by_cases hij : i = j
    · subst hij
      rw [entries_update_of_notMem hj, Function.update_self, hfree]
      exact List.Perm.refl _
    · have hrest := ih hnodup ((List.mem_cons.mp hi).resolve_left hij)
      rw [Function.update_of_ne (Ne.symm hij)]
      exact (hrest.append_left _).trans List.perm_middle

theorem entries_free (hl : l.Nodup) (hi : i ∈ l) (hheld : f i = some b) :
    (entries l f).Perm (b :: entries l (Function.update f i none)) := by
  have hfill := entries_fill (b := b) hl hi (Function.update_self i none f)
  rwa [Function.update_idem, ← hheld, Function.update_eq_self] at hfill

end Slots
