/-
The columns of the launcher's grid (`launcher-layout.c`).

The pixels that the tiles leave go to both screen edges and between the tiles.  The edges
take the even share to the nearest pixel, and the gaps share the rest by rounding down.
An `int` has no bounds here, nor for the rows and the moves: a screen's measures are far
from them.

Main results:
- `gridX_placed`: the tiles lie apart and inside the width, between equal edges;
- `gridX_spaced_iff`: when the larger gaps are on the right.
-/
import Fplinux.Lib.Shares

namespace Launcher

open Shares

def atLeast (value minimum : ℤ) : ℤ := if value > minimum then value else minimum

def centre (extent size : ℤ) : ℤ := (extent - size).tdiv 2

/-- The pixels without the tiles. -/
def spare (width columns size : ℤ) : ℤ := width - columns * size

/-- The gap at a screen edge. -/
def gridEdge (width columns size : ℤ) : ℤ :=
  (2 * spare width columns size + columns).tdiv (2 * (columns + 1))

def gridX (width columns size column : ℤ) : ℤ :=
  if columns < 2 then centre width size
  else
    let edge := gridEdge width columns size
    edge + column * size + (column * (spare width columns size - 2 * edge)).tdiv (columns - 1)

def gridGap (width columns size : ℤ) : ℤ :=
  atLeast
    (if columns < 2 then gridX width columns size 0
    else gridX width columns size 1 - gridX width columns size 0 - size) 0

/-- The gap behind a column. -/
def gap (width columns size column : ℤ) : ℤ :=
  gridX width columns size (column + 1) - gridX width columns size column - size

/-! ### Edges and gaps -/

variable {width columns size : ℤ}

/-- The even share to the nearest pixel, a half rounded down. -/
def Nearest (share total places : ℤ) : Prop :=
  2 * total - places ≤ 2 * places * share ∧ 2 * places * share < 2 * total + places

theorem gridEdge_nearest (hcolumns : 2 ≤ columns) (hfits : columns * size ≤ width) :
    Nearest (gridEdge width columns size) (spare width columns size) (columns + 1) := by
  have hspare : 0 ≤ spare width columns size := Int.sub_nonneg_of_le hfits
  rw [Nearest, gridEdge, Int.tdiv_eq_ediv_of_nonneg (by omega)]
  generalize spare width columns size = rest at hspare
  have hle := Int.mul_ediv_self_le (x := 2 * rest + columns) (k := 2 * (columns + 1)) (by omega)
  have hlt := Int.lt_mul_ediv_self_add (x := 2 * rest + columns) (k := 2 * (columns + 1)) (by omega)
  generalize 2 * (columns + 1) * ((2 * rest + columns) / (2 * (columns + 1))) = taken
    at hle hlt ⊢
  omega

theorem Nearest.nonneg {share total places : ℤ} (h : Nearest share total places)
    (hplaces : 0 < places) (htotal : 0 ≤ total) : 0 ≤ share := by
  by_contra hneg
  have hprod : 2 * places * share ≤ 2 * places * (-1) :=
    Int.mul_le_mul_of_nonneg_left (by omega) (by omega)
  have hlow := h.1
  omega

theorem Nearest.twice_le {share total places : ℤ} (h : Nearest share total places)
    (hplaces : 3 ≤ places) (htotal : 0 ≤ total) : 2 * share ≤ total := by
  by_contra hlarge
  have hhigh := h.2
  have hprod : places * (total + 1) ≤ places * (2 * share) :=
    Int.mul_le_mul_of_nonneg_left (by omega) (by omega)
  have htimes : 3 * total ≤ places * total := Int.mul_le_mul_of_nonneg_right hplaces htotal
  rw [Int.mul_add] at hprod
  rw [show 2 * places * share = places * (2 * share) by ring] at hhigh
  omega

/-- The pixels between the tiles. -/
def between (width columns size : ℤ) : ℤ :=
  spare width columns size - 2 * gridEdge width columns size

theorem between_nonneg (hcolumns : 2 ≤ columns) (hfits : columns * size ≤ width) :
    0 ≤ between width columns size := by
  have hhalf := (gridEdge_nearest hcolumns hfits).twice_le (by omega) (Int.sub_nonneg_of_le hfits)
  rw [between]
  omega

theorem gridX_eq (hcolumns : 2 ≤ columns) (hfits : columns * size ≤ width) {column : ℤ}
    (hcolumn : 0 ≤ column) : gridX width columns size column =
      gridEdge width columns size + column * size +
        column * between width columns size / (columns - 1) := by
  rw [gridX, if_neg (by omega)]
  show _ + _ + (column * between width columns size).tdiv _ = _
  rw [Int.tdiv_eq_ediv_of_nonneg (Int.mul_nonneg hcolumn (between_nonneg hcolumns hfits))]

theorem gap_eq (hcolumns : 2 ≤ columns) (hfits : columns * size ≤ width) {column : ℤ}
    (hcolumn : 0 ≤ column) : gap width columns size column =
      share (between width columns size) (columns - 1) column := by
  rw [gap, gridX_eq hcolumns hfits (by omega), gridX_eq hcolumns hfits hcolumn, share]
  ring

/-- What holds of the columns in every case. -/
structure Placed (width columns size : ℤ) : Prop where
  apart : ∀ i j, 0 ≤ i → i < j → j < columns →
    gridX width columns size i + size ≤ gridX width columns size j
  inside : ∀ i, 0 ≤ i → i < columns →
    0 ≤ gridX width columns size i ∧ gridX width columns size i + size ≤ width
  edges : gridX width columns size 0 = width - (gridX width columns size (columns - 1) + size)
  nearest : Nearest (gridX width columns size 0) (spare width columns size) (columns + 1)
  even : ∀ i j, 0 ≤ i → i + 1 < columns → 0 ≤ j → j + 1 < columns →
    gap width columns size i ≤ gap width columns size j + 1

theorem gridX_placed (hsize : 0 ≤ size) (hcolumns : 2 ≤ columns) (hfits : columns * size ≤ width) :
    Placed width columns size := by
  have hnearest := gridEdge_nearest hcolumns hfits
  have hedge : 0 ≤ gridEdge width columns size :=
    hnearest.nonneg (by omega) (Int.sub_nonneg_of_le hfits)
  have hbetween := between_nonneg hcolumns hfits
  have hfirst : gridX width columns size 0 = gridEdge width columns size := by
    rw [gridX_eq hcolumns hfits (le_refl 0)]
    simp
  have hlast : gridX width columns size (columns - 1) + size =
      width - gridEdge width columns size := by
    rw [gridX_eq hcolumns hfits (by omega), Int.mul_ediv_cancel_left _ (by omega), between, spare]
    ring
  have happart : ∀ i j, 0 ≤ i → i < j → j < columns →
      gridX width columns size i + size ≤ gridX width columns size j := by
    intro i j hi hij hj
    rw [gridX_eq hcolumns hfits hi, gridX_eq hcolumns hfits (by omega)]
    have htiles : (i + 1) * size ≤ j * size := Int.mul_le_mul_of_nonneg_right hij hsize
    have hgaps : i * between width columns size / (columns - 1) ≤
        j * between width columns size / (columns - 1) :=
      Int.ediv_le_ediv (by omega) (Int.mul_le_mul_of_nonneg_right hij.le hbetween)
    linarith
  refine ⟨happart, fun i hi hlt => ⟨?_, ?_⟩, by omega, hfirst ▸ hnearest, fun i j hi _ hj _ => ?_⟩
  · rw [gridX_eq hcolumns hfits hi]
    have htiles := Int.mul_nonneg hi hsize
    have hgaps := Int.ediv_nonneg (Int.mul_nonneg hi hbetween) (by omega : 0 ≤ columns - 1)
    omega
  · rcases (by omega : i = columns - 1 ∨ i < columns - 1) with rfl | hbefore
    · omega
    · have hnext := happart i (columns - 1) hi hbefore (by omega)
      omega
  · rw [gap_eq hcolumns hfits hi, gap_eq hcolumns hfits hj]
    exact share_le_add_one (by omega)

/-! ### The order of the gaps -/

/-- The larger gaps are on the right. -/
def Ordered (width columns size : ℤ) : Prop :=
  ∀ i j, 0 ≤ i → i < j → j + 1 < columns → gap width columns size i ≤ gap width columns size j

/-- What the spare pixels leave when every place of the row has as many as the others. -/
def leftOver (width columns size : ℤ) : ℤ := spare width columns size % (columns + 1)

theorem between_mod (hcolumns : 2 ≤ columns) (hfits : columns * size ≤ width) :
    between width columns size % (columns - 1) =
      (leftOver width columns size -
        2 * if columns + 2 ≤ 2 * leftOver width columns size then 1 else 0) % (columns - 1) := by
  have hspare : 0 ≤ spare width columns size := Int.sub_nonneg_of_le hfits
  rw [between, gridEdge, leftOver, Int.tdiv_eq_ediv_of_nonneg (by omega)]
  generalize spare width columns size = rest at hspare
  have hrest := Int.emod_add_mul_ediv rest (columns + 1)
  have hnonneg := Int.emod_nonneg rest (by omega : columns + 1 ≠ 0)
  have hlt := Int.emod_lt_of_pos rest (by omega : 0 < columns + 1)
  generalize rest % (columns + 1) = left at hrest hnonneg hlt
  generalize rest / (columns + 1) = each at hrest
  have hedge : (2 * rest + columns) / (2 * (columns + 1)) =
      each + if columns + 2 ≤ 2 * left then 1 else 0 := by
    rw [← hrest]
    split_ifs with hup
    · exact ediv_eq (by omega) (by linarith) (by linarith)
    · exact ediv_eq (by omega) (by linarith) (by linarith)
  rw [hedge, ← hrest, show left + (columns + 1) * each -
      2 * (each + if columns + 2 ≤ 2 * left then 1 else 0) =
      left - 2 * (if columns + 2 ≤ 2 * left then 1 else 0) + (columns - 1) * each by ring,
    Int.add_mul_emod_self_left]

/-- **Order of the gaps.** -/
theorem ordered_iff (hcolumns : 2 ≤ columns) (hfits : columns * size ≤ width) :
    Ordered width columns size ↔
      columns ≤ 4 ∨ leftOver width columns size ≤ 1 ∨ leftOver width columns size = columns ∨
        columns = 5 ∧ leftOver width columns size = 3 := by
  have hshares : Ordered width columns size ↔ ∀ i j, 0 ≤ i → i < j → j < columns - 1 →
      share (between width columns size) (columns - 1) i ≤
        share (between width columns size) (columns - 1) j := by
    refine forall₂_congr fun i j => forall₂_congr fun hi hij => ?_
    rw [gap_eq hcolumns hfits hi, gap_eq hcolumns hfits (by omega), ← Int.lt_sub_right_iff_add_lt]
  rw [hshares, share_mono_iff (by omega), between_mod hcolumns hfits]
  have hnonneg : 0 ≤ leftOver width columns size := Int.emod_nonneg _ (by omega)
  have hlt : leftOver width columns size < columns + 1 := Int.emod_lt_of_pos _ (by omega)
  generalize leftOver width columns size = left at hnonneg hlt
  split_ifs with hup
  · rw [Int.emod_eq_of_lt (by omega) (by omega)]
    omega
  · rcases (by omega : left < columns - 1 ∨ columns = 2 ∨ columns = 3) with hsmall | rfl | rfl
    · rw [mul_zero, sub_zero, Int.emod_eq_of_lt hnonneg hsmall]
      omega
    · omega
    · omega

/-- **Spacing of the grid.** -/
theorem gridX_spaced_iff (hsize : 0 ≤ size) (hcolumns : 2 ≤ columns)
    (hfits : columns * size ≤ width) :
    (Placed width columns size ∧ Ordered width columns size) ↔
      columns ≤ 4 ∨ leftOver width columns size ≤ 1 ∨ leftOver width columns size = columns ∨
        columns = 5 ∧ leftOver width columns size = 3 := by
  rw [← ordered_iff hcolumns hfits]
  exact and_iff_right (gridX_placed hsize hcolumns hfits)

theorem gridX_spaced_iff_sample :
    Placed 320 4 60 ∧ Ordered 320 4 60 :=
  (gridX_spaced_iff (by decide) (by decide) (by decide)).mpr (Or.inl (by decide))

/-- Five tiles of ten pixels in 52: the gaps are 0, 1, 0 and 1. -/
theorem gridX_not_ordered :
    ¬ ∀ width columns size : ℤ, 0 ≤ size → 2 ≤ columns → columns * size ≤ width →
      Placed width columns size ∧ Ordered width columns size := by
  intro h
  have hordered := (h 52 5 10 (by decide) (by decide) (by decide)).2 1 2 (by decide) (by decide)
    (by decide)
  exact absurd hordered (by decide)

end Launcher
