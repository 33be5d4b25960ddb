/-
Tables of rows with distinct keys.

A table is a list of rows; no two rows have the same key.  Replacing one row is
then a map over the table, and a map commutes with every rearrangement of the
rows.

Main results:
- `reorder_perm`, `map_reorder`: rearranging a table by a list of positions;
- `set_eq_map`: replacing the row at a position, as a map;
- `countP_set`, `sum_set`: what a replacement does to a count and to a sum.
-/
import Mathlib.Algebra.GroupWithZero.Nat
import Mathlib.Data.List.Nodup
import Mathlib.Data.List.Perm.Basic

namespace Rows

variable {α β κ : Type*}

/-- The rows at the positions of `order`, in this order. -/
def reorder (order : List ℕ) (rows : List α) : List α := order.filterMap (rows[·]?)

theorem map_reorder (f : α → β) (order : List ℕ) (rows : List α) :
    reorder order (rows.map f) = (reorder order rows).map f := by
  rw [reorder, reorder, List.map_filterMap]
  refine List.filterMap_congr fun index _ => ?_
  rw [List.getElem?_map]

theorem reorder_range (rows : List α) : reorder (List.range rows.length) rows = rows := by
  induction rows with
  | nil => rfl
  | cons first rest ih =>
    rw [reorder, List.length_cons, List.range_succ_eq_map, List.filterMap_cons]
    simp only [List.getElem?_cons_zero, List.filterMap_map]
    congr 1

variable {rows : List α} {index : ℕ} {row : α}

theorem reorder_perm {order : List ℕ} (h : order.Perm (List.range rows.length)) :
    (reorder order rows).Perm rows := by
  have hperm := h.filterMap (rows[·]?)
  rw [← reorder, ← reorder, reorder_range] at hperm
  exact hperm

theorem set_eq_map {key : α → κ} [DecidableEq κ] (h : (rows.map key).Nodup)
    (hget : rows[index]? = some row) (row' : α) :
    rows.set index row' = rows.map fun other => if key other = key row then row' else other := by
  induction rows generalizing index with
  | nil => simp at hget
  | cons first rest ih =>
    rw [List.map_cons, List.nodup_cons] at h
    cases index with
    | zero =>
      obtain rfl : first = row := by simpa using hget
      have hsame : rest.map (fun other => if key other = key first then row' else other) = rest := by
        refine (List.map_congr_left fun other hmem => ?_).trans (List.map_id rest)
        -- No later row has the key of the first.
        rw [if_neg]
        · rfl
        · intro heq
          exact h.1 (heq ▸ List.mem_map_of_mem hmem)
      rw [List.set_cons_zero, List.map_cons, if_pos rfl, hsame]
    | succ index =>
      have hrest : rest[index]? = some row := by simpa using hget
      have hne : key first ≠ key row := by
        intro heq
        exact h.1 (heq ▸ List.mem_map_of_mem (List.mem_of_getElem? hrest))
      rw [List.set_cons_succ, List.map_cons, if_neg hne, ih h.2 hrest]

theorem countP_set {p : α → Bool} {row' : α} (hget : rows[index]? = some row) (hrow : p row = true)
    (hrow' : p row' = false) :
    (rows.set index row').countP p + 1 = rows.countP p := by
  induction rows generalizing index with
  | nil => simp at hget
  | cons first rest ih =>
    cases index with
    | zero =>
      obtain rfl : first = row := by simpa using hget
      rw [List.set_cons_zero, List.countP_cons_of_pos hrow, List.countP_cons_of_neg (by simp [hrow'])]
    | succ index =>
      have hrest := ih (show rest[index]? = some row by simpa using hget)
      rw [List.set_cons_succ, List.countP_cons, List.countP_cons]
      omega

theorem sum_set (f : α → ℕ) (hget : rows[index]? = some row) (row' : α) :
    ((rows.set index row').map f).sum + f row = (rows.map f).sum + f row' := by
  induction rows generalizing index with
  | nil => simp at hget
  | cons first rest ih =>
    cases index with
    | zero =>
      obtain rfl : first = row := by simpa using hget
      rw [List.set_cons_zero, List.map_cons, List.map_cons, List.sum_cons, List.sum_cons]
      omega
    | succ index =>
      have hrest := ih (show rest[index]? = some row by simpa using hget)
      rw [List.set_cons_succ, List.map_cons, List.map_cons, List.sum_cons, List.sum_cons]
      omega

end Rows
