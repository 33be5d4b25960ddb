/-
Indices that follow their elements, and moves of the focus (`fplinux-ui-screen-model.c`).
As in the window of a list, `size_t` and `long` have the 64 bits of a host, not the 32 of a phone.

Main results:
- `getElem?_inserted`, `getElem?_deleted`: an index that is moved still names its element;
- `focusDeleted_names`: so does the focus, and there is one while the list is not empty;
- `focusStep_wrap`, `focusStep_clamp`: a move of the focus, in a circle or up to the ends;
- `index_follows`: all of these together.
-/
import Mathlib.Data.Int.ModEq
import Mathlib.Tactic.Ring
import Fplinux.Lib.Checked
import Fplinux.Ui.VirtualWindow

namespace FocusIndex

open Checked (uint64)
open VirtualWindow (sizeMax indexInserted indexDeleted focusDeleted)

/-! ### Lists that are edited -/

section Edits

variable {α : Type}

/-- A list with new elements before `at'`. -/
def inserted (items new : List α) (at' : ℕ) : List α := items.take at' ++ new ++ items.drop at'

/-- A list without `count` elements from `at'`. -/
def deleted (items : List α) (at' count : ℕ) : List α :=
  items.take at' ++ items.drop (at' + count)

/-- An element that a deletion leaves. -/
def Survives (index at' count : ℕ) : Prop := index < at' ∨ at' + count ≤ index

theorem deleted_length (items : List α) (at' count : ℕ) :
    (deleted items at' count).length =
      min at' items.length + (items.length - (at' + count)) := by
  rw [deleted, List.length_append, List.length_take, List.length_drop]

variable {index at' : ℕ} {items : List α}

/-- **After an insertion** an index names its element; the sum does not wrap. -/
theorem getElem?_inserted {new : List α} (at' : ℕ) (hsize : items.length + new.length ≤ sizeMax)
    (hindex : index < items.length) :
    (inserted items new at')[indexInserted index at' new.length]? = items[index]? := by
  have hmax : sizeMax = 2 ^ 64 - 1 := rfl
  rw [indexInserted, inserted]
  split
  · rename_i hmoved
    have htake : (items.take at').length = at' := by rw [List.length_take]; omega
    rw [Word.add_eq (by omega), List.getElem?_append_right, List.length_append, htake,
      List.getElem?_drop]
    · congr 1
      omega
    · rw [List.length_append, htake]
      omega
  · rename_i hkept
    have hbefore : index < at' := by omega
    rw [List.append_assoc, List.getElem?_append_left (by rw [List.length_take]; omega),
      List.getElem?_take_of_lt hbefore]

/-- **After a deletion** the index of an element that is left names it. -/
theorem getElem?_deleted (at' count : ℕ) (hsize : items.length ≤ sizeMax)
    (hindex : index < items.length) (hleft : Survives index at' count) :
    (deleted items at' count)[indexDeleted index at' count]? = items[index]? := by
  rw [indexDeleted, deleted]
  rw [Survives] at hleft
  split
  · rename_i hkept
    have hbefore : index < at' := by omega
    rw [List.getElem?_append_left (by rw [List.length_take]; omega),
      List.getElem?_take_of_lt hbefore]
  · rename_i hmoved
    have htake : (items.take at').length = at' := by rw [List.length_take]; omega
    rw [if_neg (by omega), List.getElem?_append_right (by omega), htake, List.getElem?_drop]
    congr 1
    omega

theorem indexDeleted_gone {count : ℕ} (hgone : ¬ Survives index at' count) :
    indexDeleted index at' count = sizeMax := by
  rw [Survives] at hgone
  rw [indexDeleted]
  split
  · rename_i h
    omega
  · rw [if_pos (by omega)]

theorem deleted_of_le (h : items.length ≤ at') (count : ℕ) : deleted items at' count = items := by
  rw [deleted, List.take_of_length_le h, List.drop_of_length_le (by omega), List.append_nil]

theorem deleted_min (items : List α) (at' count : ℕ) :
    deleted items at' (min count (items.length - at')) = deleted items at' count := by
  rw [deleted, deleted]
  by_cases h : count ≤ items.length - at'
  · rw [Nat.min_eq_left h]
  · rw [Nat.min_eq_right (by omega), List.drop_of_length_le (by omega),
      List.drop_of_length_le (by omega)]

theorem focusDeleted_eq {focus count size : ℕ} (hat : at' < size) :
    focusDeleted focus at' count size =
      if min count (size - at') = size then sizeMax
      else
        let index := indexDeleted focus at' (min count (size - at'))
        if index ≠ sizeMax ∨ focus = sizeMax then index
        else if at' < size - min count (size - at') then at'
        else size - min count (size - at') - 1 := by
  have hcut : (if count > size - at' then size - at' else count) = min count (size - at') := by
    split <;> omega
  rw [focusDeleted, if_neg (by omega)]
  simp only [hcut]

/-- **The focus after a deletion**: an index of the shorter list, that of the same element where
it is left, and none only of an empty list. -/
theorem focusDeleted_names {focus : ℕ} (at' count : ℕ) (hsize : items.length ≤ sizeMax)
    (hfocus : focus < items.length) :
    (deleted items at' count = [] → focusDeleted focus at' count items.length = sizeMax) ∧
      (deleted items at' count ≠ [] →
        focusDeleted focus at' count items.length < (deleted items at' count).length) ∧
      (Survives focus at' count →
        (deleted items at' count)[focusDeleted focus at' count items.length]? =
          items[focus]?) := by
  have hmax : sizeMax = 2 ^ 64 - 1 := rfl
  by_cases hat : items.length ≤ at'
  · -- nothing is deleted, and the focus stays
    have hkept : focusDeleted focus at' count items.length = focus := by
      rw [focusDeleted, if_pos hat]
    rw [deleted_of_le hat, hkept]
    refine ⟨fun hnil => ?_, fun _ => hfocus, fun _ => rfl⟩
    rw [hnil] at hfocus
    exact absurd hfocus (Nat.not_lt_zero _)
  · rw [focusDeleted_eq (by omega), ← deleted_min items at' count]
    have hlength := deleted_length items at' (min count (items.length - at'))
    split
    · rename_i hall
      refine ⟨fun _ => rfl, fun hne => ?_, fun hleft => ?_⟩
      · exact absurd (List.eq_nil_of_length_eq_zero (by omega)) hne
      · rw [Survives] at hleft
        omega
    · rename_i hsome
      have hne : deleted items at' (min count (items.length - at')) ≠ [] := by
        intro hnil
        rw [hnil, List.length_nil] at hlength
        omega
      refine ⟨fun hnil => absurd hnil hne, fun _ => ?_, fun hleft => ?_⟩
      · -- an index that is left, the one that takes its place, or the new last one
        dsimp only
        by_cases hleft : Survives focus at' (min count (items.length - at'))
        · have hnames := getElem?_deleted at' (min count (items.length - at')) hsize hfocus hleft
          rw [List.getElem?_eq_getElem hfocus] at hnames
          obtain ⟨hlt, -⟩ := List.getElem?_eq_some_iff.1 hnames
          rw [if_pos (Or.inl (by omega))]
          exact hlt
        · rw [indexDeleted_gone hleft, if_neg (by omega)]
          split <;> omega
      · have hleft' : Survives focus at' (min count (items.length - at')) := by
          rw [Survives] at hleft ⊢
          omega
        have hnames := getElem?_deleted at' (min count (items.length - at')) hsize hfocus hleft'
        have hlt : indexDeleted focus at' (min count (items.length - at')) ≠ sizeMax := by
          intro hnone
          rw [hnone, List.getElem?_eq_getElem hfocus, List.getElem?_eq_none (by omega)] at hnames
          cases hnames
        dsimp only
        rw [if_pos (Or.inl hlt)]
        exact hnames

theorem focusDeleted_none (at' count size : ℕ) :
    focusDeleted sizeMax at' count size = sizeMax := by
  by_cases hat : at' < size
  · rw [focusDeleted_eq hat]
    split
    · rfl
    · dsimp only
      rw [if_pos (Or.inr rfl), indexDeleted, if_pos (Or.inl rfl)]
  · rw [focusDeleted, if_pos (by omega)]

end Edits

/-! ### Moves of the focus -/

/-- `enum fplinux_ui_focus_boundary`. -/
inductive FocusBoundary where
  | clamp
  | wrap

/-- A difference of two sizes; it must not wrap. -/
def difference (a b : ℕ) : Option ℕ := if b ≤ a then some (a - b) else none

/-- `fplinux_ui_focus_step`; a `long` has 64 bits. -/
def focusStep (focus count : ℕ) (rows : Int64) (boundary : FocusBoundary) : Option ℕ :=
  if count = 0 then some sizeMax
  else if focus ≥ count then some 0
  else if rows < 0 then
    -- negated as unsigned, which the least `long` survives
    let back := (-rows.toUInt64).toNat
    match boundary with
    | .wrap =>
      if back % count > focus then do
        let behind ← difference (back % count) focus
        difference count behind
      else difference focus (back % count)
    | .clamp => if back ≥ focus then some 0 else difference focus back
  else
    match boundary with
    | .wrap => do
      let left ← difference count focus
      let step := rows.toUInt64.toNat % count
      if step ≥ left then difference step left else uint64 (focus + step)
    | .clamp => do
      let last ← difference count 1
      let left ← difference last focus
      if rows.toUInt64.toNat ≥ left then some last else uint64 (focus + rows.toUInt64.toNat)

theorem difference_eq {a b : ℕ} (h : b ≤ a) : difference a b = some (a - b) := if_pos h

theorem toInt_eq (rows : Int64) :
    rows.toInt = if 2 * rows.toUInt64.toNat < 2 ^ 64 then (rows.toUInt64.toNat : ℤ)
      else (rows.toUInt64.toNat : ℤ) - 2 ^ 64 := BitVec.toInt_eq_toNat_cond rows.toBitVec

theorem toUInt64_nonneg {rows : Int64} (h : ¬ rows < 0) :
    (rows.toUInt64.toNat : ℤ) = rows.toInt := by
  rw [Int64.lt_iff_toInt_lt, Int64.toInt_zero] at h
  have hbits := toInt_eq rows
  have hlt := rows.toUInt64.toNat_lt
  split at hbits <;> omega

theorem neg_toUInt64 {rows : Int64} (h : rows < 0) :
    ((-rows.toUInt64).toNat : ℤ) = -rows.toInt := by
  rw [Int64.lt_iff_toInt_lt, Int64.toInt_zero] at h
  have hbits := toInt_eq rows
  have hlt := rows.toUInt64.toNat_lt
  have hsize : UInt64.size = 2 ^ 64 := rfl
  rw [UInt64.toNat_neg, hsize]
  split at hbits
  · omega
  · rw [Nat.mod_eq_of_lt (by omega)]
    omega

/-- **A move of the focus in a circle**, over any distance. -/
theorem focusStep_wrap {focus count : ℕ} (hcount : count ≤ sizeMax) (hfocus : focus < count)
    (rows : Int64) :
    focusStep focus count rows .wrap = some (((focus : ℤ) + rows.toInt) % count).toNat := by
  have hmax : sizeMax = 2 ^ 64 - 1 := rfl
  have hpos : (0 : ℤ) < count := by omega
  -- a place of the list that is right modulo its length
  have hplace : ∀ (place : ℕ) (turns : ℤ), place < count →
      (place : ℤ) = focus + rows.toInt + count * turns →
      place = (((focus : ℤ) + rows.toInt) % count).toNat := by
    intro place turns hlt heq
    have hmod : ((focus : ℤ) + rows.toInt) % count = place := by
      rw [← Int.add_mul_emod_self_left _ _ turns, ← heq]
      exact Int.emod_eq_of_lt (by omega) (by omega)
    omega
  rw [focusStep, if_neg (by omega), if_neg (by omega)]
  split
  · rename_i hneg
    have hback := neg_toUInt64 hneg
    have hdiv := Nat.div_add_mod (-rows.toUInt64).toNat count
    have hmod := Nat.mod_lt (-rows.toUInt64).toNat (show count > 0 by omega)
    dsimp only
    generalize (-rows.toUInt64).toNat / count = turns at hdiv
    generalize (-rows.toUInt64).toNat % count = back at hdiv hmod ⊢
    have hturns : ((count * turns : ℕ) : ℤ) = count * (turns : ℤ) := Int.natCast_mul _ _
    split
    · rw [difference_eq (by omega), Option.bind_eq_bind, Option.bind_some,
        difference_eq (by omega)]
      refine congrArg some (hplace _ (turns + 1) (by omega) ?_)
      rw [Int.mul_add]
      omega
    · rw [difference_eq (by omega)]
      exact congrArg some (hplace _ turns (by omega) (by omega))
  · rename_i hnonneg
    have hforward := toUInt64_nonneg hnonneg
    have hdiv := Nat.div_add_mod rows.toUInt64.toNat count
    have hmod := Nat.mod_lt rows.toUInt64.toNat (show count > 0 by omega)
    dsimp only
    rw [difference_eq (by omega), Option.bind_eq_bind, Option.bind_some]
    generalize rows.toUInt64.toNat / count = turns at hdiv
    generalize rows.toUInt64.toNat % count = step at hdiv hmod ⊢
    have hturns : ((count * turns : ℕ) : ℤ) = count * (turns : ℤ) := Int.natCast_mul _ _
    split
    · rw [difference_eq (by omega)]
      refine congrArg some (hplace _ (-(turns + 1)) (by omega) ?_)
      rw [Int.mul_neg, Int.mul_add]
      omega
    · rw [Checked.uint64_eq (by omega)]
      refine congrArg some (hplace _ (-turns) (by omega) ?_)
      rw [Int.mul_neg]
      omega

/-- **A move of the focus up to the ends.** -/
theorem focusStep_clamp {focus count : ℕ} (hcount : count ≤ sizeMax) (hfocus : focus < count)
    (rows : Int64) :
    focusStep focus count rows .clamp =
      some (max 0 (min ((count : ℤ) - 1) ((focus : ℤ) + rows.toInt))).toNat := by
  have hmax : sizeMax = 2 ^ 64 - 1 := rfl
  rw [focusStep, if_neg (by omega), if_neg (by omega)]
  split
  · rename_i hneg
    have hback := neg_toUInt64 hneg
    dsimp only
    split
    · congr 1
      omega
    · rw [difference_eq (by omega)]
      congr 1
      omega
  · rename_i hnonneg
    have hforward := toUInt64_nonneg hnonneg
    rw [difference_eq (by omega), Option.bind_eq_bind, Option.bind_some,
      difference_eq (by omega), Option.bind_some]
    split
    · congr 1
      omega
    · rw [Checked.uint64_eq (by omega)]
      congr 1
      omega

/-- **Indices and the focus follow their elements**, and the focus moves in a circle or up to the
ends; without a focus in the list there is none after a deletion, and a move begins anew. -/
theorem index_follows {α : Type} (items new : List α) (at' count index : ℕ) (rows : Int64)
    (boundary : FocusBoundary) (hsize : items.length + new.length ≤ sizeMax)
    (hindex : index < items.length) :
    (inserted items new at')[indexInserted index at' new.length]? = items[index]? ∧
      (Survives index at' count →
        (deleted items at' count)[indexDeleted index at' count]? = items[index]? ∧
        (deleted items at' count)[focusDeleted index at' count items.length]? = items[index]?) ∧
      (¬ Survives index at' count → indexDeleted index at' count = sizeMax) ∧
      (if deleted items at' count = [] then focusDeleted index at' count items.length = sizeMax
        else focusDeleted index at' count items.length < (deleted items at' count).length) ∧
      focusDeleted sizeMax at' count items.length = sizeMax ∧
      focusStep index items.length rows .wrap =
        some (((index : ℤ) + rows.toInt) % items.length).toNat ∧
      focusStep index items.length rows .clamp =
        some (max 0 (min ((items.length : ℤ) - 1) ((index : ℤ) + rows.toInt))).toNat ∧
      (∀ focus ≥ items.length, focusStep focus items.length rows boundary = some 0) ∧
      ∀ focus, focusStep focus 0 rows boundary = some sizeMax := by
  obtain ⟨hempty, hvalid, hnames⟩ :=
    focusDeleted_names at' count (by omega : items.length ≤ sizeMax) hindex
  refine ⟨getElem?_inserted at' hsize hindex, fun hleft => ⟨?_, hnames hleft⟩,
    indexDeleted_gone, ?_, ?_, focusStep_wrap (by omega) hindex rows,
    focusStep_clamp (by omega) hindex rows, ?_, ?_⟩
  · exact getElem?_deleted at' count (by omega) hindex hleft
  · split
    · rename_i hnil
      exact hempty hnil
    · rename_i hne
      exact hvalid hne
  · exact focusDeleted_none at' count items.length
  · intro focus hfocus
    rw [focusStep.eq_def, if_neg (by omega), if_pos hfocus]
  · intro focus
    rw [focusStep.eq_def, if_pos rfl]

/-- The focus on the last of three rows, one of them deleted, and the longest move back. -/
theorem index_follows_last :
    (deleted [1, 2, 3] 0 1)[indexDeleted 2 0 1]? = [1, 2, 3][2]? ∧
      focusStep 2 3 Int64.minValue .wrap = some 0 := by
  obtain ⟨-, hleft, -, -, -, hwrap, -, -, -⟩ :=
    index_follows [1, 2, 3] [] 0 1 2 Int64.minValue .wrap (by decide) (by decide)
  exact ⟨(hleft (Or.inr (by decide))).1, hwrap.trans (by decide)⟩

/-- Without a focus a move gives the first row, and a deletion gives no index of the list. -/
theorem no_focus :
    focusStep sizeMax 10 1 .wrap ≠ some (((sizeMax : ℤ) + (1 : Int64).toInt) % 10).toNat ∧
      ¬ focusDeleted sizeMax 0 1 2 < (deleted [1, 2] 0 1).length := by
  decide

end FocusIndex
