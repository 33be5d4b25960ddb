/-
The rows of the launcher's grid (`launcher-layout.c`).

When the viewport would show a thin strip of the next row, the strip's pixels go to the gaps
between the rows and to the paddings.  Every division rounds down, so some may be left over.

Main results:
- `removed_spec`: the spacing that takes the place of a strip;
- `scrollLayout_iff`: when no strip is left.
-/
import Fplinux.Launcher.Grid

namespace Launcher

/-- The measures of a screen profile that the rows depend on. -/
structure ProfileSpec where
  appIconSize : ℤ
  gridColumns : ℤ
  gridRingGap : ℤ
  gridRingWidth : ℤ
  gridTileInset : ℤ
  gapSmall : ℤ

def columns (spec : ProfileSpec) : ℤ := if spec.gridColumns > 0 then spec.gridColumns else 1

/-- `struct fplinux_launcher_scroll`: row `r` starts at `padding + r * pitch`. -/
structure Scroll where
  padding : ℤ
  pitch : ℤ
  item : ℤ
  revealMargin : ℤ

/-- The base gap of a profile. -/
def baseGap (spec : ProfileSpec) (width : ℤ) : ℤ := gridGap width (columns spec) spec.appIconSize

section

variable (spec : ProfileSpec) (width viewport : ℤ)

/-- The rows above a strip. -/
def rowsIn : ℤ := (viewport - baseGap spec width).tdiv (spec.appIconSize + baseGap spec width)

/-- The pixels behind these rows and their gaps. -/
def stripIn : ℤ :=
  viewport - baseGap spec width -
    rowsIn spec width viewport * (spec.appIconSize + baseGap spec width)

/-- The viewport shows a thin strip of the next row. -/
def ThinStrip : Prop :=
  viewport > baseGap spec width ∧ rowsIn spec width viewport > 0 ∧
    stripIn spec width viewport > 0 ∧ 3 * stripIn spec width viewport < spec.appIconSize

instance : Decidable (ThinStrip spec width viewport) := inferInstanceAs (Decidable (_ ∧ _))

/-- The gap between the rows in place of a strip. -/
def adjustedGap : ℤ :=
  let rows := rowsIn spec width viewport
  let adjusted := baseGap spec width + (stripIn spec width viewport + rows).tdiv (rows + 1)
  let fitting := (viewport - rows * spec.appIconSize).tdiv (rows + 1)
  if adjusted < fitting then adjusted else fitting

/-- The padding in place of a strip. -/
def adjustedPadding : ℤ :=
  let rows := rowsIn spec width viewport
  (viewport - rows * spec.appIconSize - (rows - 1) * adjustedGap spec width viewport).tdiv 2

def scrollLayout : Scroll :=
  let gap := baseGap spec width
  { padding := if ThinStrip spec width viewport then adjustedPadding spec width viewport else gap
    pitch := spec.appIconSize +
      if ThinStrip spec width viewport then adjustedGap spec width viewport else gap
    item := spec.appIconSize
    revealMargin := spec.gridRingGap + spec.gridRingWidth - spec.gridTileInset + spec.gapSmall }

end

/-! ### The rows of a viewport -/

variable {spec : ProfileSpec} {width viewport : ℤ}

theorem baseGap_nonneg (spec : ProfileSpec) (width : ℤ) : 0 ≤ baseGap spec width := by
  rw [baseGap, gridGap, atLeast]
  split_ifs <;> omega

/-- A profile with tiles, and a viewport that holds a row of them. -/
structure HoldsRow (spec : ProfileSpec) (width viewport : ℤ) : Prop where
  size_pos : 0 < spec.appIconSize
  row_le : baseGap spec width + spec.appIconSize ≤ viewport

/-- How the viewport is divided. -/
structure Divided (gap size viewport rows strip : ℤ) : Prop where
  rows_nonneg : 0 ≤ rows
  strip_nonneg : 0 ≤ strip
  strip_lt : strip < size + gap
  total : viewport = gap + rows * (size + gap) + strip

theorem divided (h : HoldsRow spec width viewport) :
    Divided (baseGap spec width) spec.appIconSize viewport (rowsIn spec width viewport)
      (stripIn spec width viewport) := by
  obtain ⟨hsize, hrow⟩ := h
  have hgap := baseGap_nonneg spec width
  rw [stripIn, rowsIn, Int.tdiv_eq_ediv_of_nonneg (by omega)]
  generalize baseGap spec width = gap at hgap hrow
  generalize spec.appIconSize = size at hsize hrow
  have hsplit := Int.emod_add_ediv_mul (viewport - gap) (size + gap)
  have hleft := Int.emod_nonneg (viewport - gap) (by omega : size + gap ≠ 0)
  have hlt := Int.emod_lt_of_pos (viewport - gap) (by omega : 0 < size + gap)
  exact ⟨Int.ediv_nonneg (by omega) (by omega), by omega, by omega, by omega⟩

/-- What is left of a strip that is shared out. -/
def remainder (spec : ProfileSpec) (width viewport : ℤ) : ℤ :=
  stripIn spec width viewport % (rowsIn spec width viewport + 1)

theorem remainder_bounds (h : HoldsRow spec width viewport) :
    0 ≤ remainder spec width viewport ∧
      remainder spec width viewport ≤ stripIn spec width viewport := by
  obtain ⟨hrows, hstrip, -, -⟩ := divided h
  rw [remainder]
  generalize rowsIn spec width viewport = rows at hrows
  generalize stripIn spec width viewport = strip at hstrip
  have hsplit := Int.emod_add_mul_ediv strip (rows + 1)
  have heach : 0 ≤ (rows + 1) * (strip / (rows + 1)) :=
    Int.mul_nonneg (by omega) (Int.ediv_nonneg hstrip (by omega))
  have hleft := Int.emod_nonneg strip (by omega : rows + 1 ≠ 0)
  omega

/-- **Spacing in place of a strip**: the rows start half the remainder below the new gap. -/
theorem removed_spec (h : HoldsRow spec width viewport) :
    adjustedGap spec width viewport =
        baseGap spec width + stripIn spec width viewport / (rowsIn spec width viewport + 1) ∧
      adjustedPadding spec width viewport =
        adjustedGap spec width viewport + remainder spec width viewport / 2 := by
  have hgap := baseGap_nonneg spec width
  obtain ⟨hrows, hstrip, -, htotal⟩ := divided h
  rw [adjustedPadding, adjustedGap, remainder]
  generalize rowsIn spec width viewport = rows at hrows htotal
  generalize stripIn spec width viewport = strip at hstrip htotal
  generalize baseGap spec width = gap at hgap htotal
  generalize spec.appIconSize = size at htotal
  have hfitting : (viewport - rows * size).tdiv (rows + 1) = gap + strip / (rows + 1) := by
    have hrest : viewport - rows * size = strip + (rows + 1) * gap := by
      rw [htotal]
      ring
    have hpixels : 0 ≤ (rows + 1) * gap := Int.mul_nonneg (by omega) hgap
    rw [hrest, Int.tdiv_eq_ediv_of_nonneg (by omega), Int.add_mul_ediv_left _ _ (by omega)]
    omega
  have hadjusted : (strip + rows).tdiv (rows + 1) = (strip + rows) / (rows + 1) :=
    Int.tdiv_eq_ediv_of_nonneg (by omega)
  have hle : strip / (rows + 1) ≤ (strip + rows) / (rows + 1) :=
    Int.ediv_le_ediv (by omega) (by omega)
  have hsplit := Int.emod_add_mul_ediv strip (rows + 1)
  have hleft := Int.emod_nonneg strip (by omega : rows + 1 ≠ 0)
  have heach : 0 ≤ strip / (rows + 1) := Int.ediv_nonneg hstrip (by omega)
  simp only [hfitting, hadjusted]
  rw [if_neg (by omega)]
  generalize strip % (rows + 1) = left at hsplit hleft
  generalize strip / (rows + 1) = each at hsplit heach
  have hpixels : viewport - rows * size - (rows - 1) * (gap + each) =
      left + 2 * (gap + each) := by
    rw [htotal, ← hsplit]
    ring
  rw [hpixels, Int.tdiv_eq_ediv_of_nonneg (by omega)]
  omega

/-! ### What the rows show -/

/-- Where a row starts. -/
def rowTop (scroll : Scroll) (row : ℤ) : ℤ := scroll.padding + row * scroll.pitch

theorem rowTop_le (scroll : Scroll) (hpitch : 0 ≤ scroll.pitch) {row next : ℤ} (h : row ≤ next) :
    rowTop scroll row ≤ rowTop scroll next :=
  Int.add_le_add_left (Int.mul_le_mul_of_nonneg_right h hpitch) _

theorem rowTop_succ (scroll : Scroll) (row : ℤ) :
    rowTop scroll (row + 1) = rowTop scroll row + scroll.pitch := by
  rw [rowTop, rowTop, Int.add_mul, one_mul, Int.add_assoc]

/-- Of a row that is cut, nothing is shown or at least a third. -/
def NoStrip (scroll : Scroll) (viewport : ℤ) : Prop :=
  ∀ row, 0 ≤ row → viewport < rowTop scroll row + scroll.item →
    viewport ≤ rowTop scroll row ∨ scroll.item ≤ 3 * (viewport - rowTop scroll row)

theorem noStrip_iff {scroll : Scroll} {rows : ℤ} (hrows : 0 ≤ rows) (hpitch : 0 ≤ scroll.pitch)
    (hlast : rowTop scroll rows + scroll.item ≤ viewport + scroll.pitch)
    (hnext : viewport ≤ rowTop scroll rows + scroll.pitch) :
    NoStrip scroll viewport ↔ (viewport < rowTop scroll rows + scroll.item →
      viewport ≤ rowTop scroll rows ∨ scroll.item ≤ 3 * (viewport - rowTop scroll rows)) := by
  refine ⟨fun h => h rows hrows, fun h row _ hcut => ?_⟩
  rcases lt_trichotomy row rows with hbefore | rfl | hbehind
  · have htop := rowTop_le scroll hpitch hbefore
    have hsucc := rowTop_succ scroll row
    omega
  · exact h hcut
  · have htop := rowTop_le scroll hpitch hbehind
    have hsucc := rowTop_succ scroll rows
    omega

theorem scrollLayout_thin (h : ThinStrip spec width viewport) :
    (scrollLayout spec width viewport).padding = adjustedPadding spec width viewport ∧
      (scrollLayout spec width viewport).pitch =
        spec.appIconSize + adjustedGap spec width viewport :=
  ⟨if_pos h, congrArg (spec.appIconSize + ·) (if_pos h)⟩

theorem scrollLayout_base (h : ¬ ThinStrip spec width viewport) :
    (scrollLayout spec width viewport).padding = baseGap spec width ∧
      (scrollLayout spec width viewport).pitch = spec.appIconSize + baseGap spec width :=
  ⟨if_neg h, congrArg (spec.appIconSize + ·) (if_neg h)⟩

theorem rowTop_next (hholds : HoldsRow spec width viewport) (h : ThinStrip spec width viewport) :
    viewport - rowTop (scrollLayout spec width viewport) (rowsIn spec width viewport) =
      (remainder spec width viewport + 1) / 2 := by
  have hgap := baseGap_nonneg spec width
  obtain ⟨hpadding, hpitch⟩ := scrollLayout_thin h
  obtain ⟨hadjusted, hstart⟩ := removed_spec hholds
  have htotal := (divided hholds).total
  have hsplit := Int.emod_add_mul_ediv (stripIn spec width viewport)
    (rowsIn spec width viewport + 1)
  rw [rowTop, hpadding, hpitch, hstart, hadjusted, remainder]
  generalize rowsIn spec width viewport = rows at hsplit htotal
  generalize stripIn spec width viewport = strip at hsplit htotal
  generalize strip % (rows + 1) = left at hsplit
  generalize strip / (rows + 1) = each at hsplit
  have hends : viewport - rows * (spec.appIconSize + (baseGap spec width + each)) =
      baseGap spec width + each + left := by
    rw [htotal, ← hsplit]
    ring
  omega

/-- The pixels below the last row above a strip. -/
def spaceBelow (spec : ProfileSpec) (width viewport : ℤ) : ℤ :=
  let scroll := scrollLayout spec width viewport
  viewport - (rowTop scroll (rowsIn spec width viewport - 1) + scroll.item)

/-- The rows keep their places in the viewport. -/
structure RowsKept (spec : ProfileSpec) (width viewport : ℤ) (scroll : Scroll) : Prop where
  padding_nonneg : 0 ≤ scroll.padding
  gap_nonneg : 0 ≤ scroll.pitch - scroll.item
  visible : ∀ row, 0 ≤ row →
    baseGap spec width + row * (spec.appIconSize + baseGap spec width) + spec.appIconSize ≤
      viewport →
    rowTop scroll row + scroll.item ≤ viewport
  balanced : ThinStrip spec width viewport → scroll.padding ≤ spaceBelow spec width viewport ∧
    spaceBelow spec width viewport ≤ scroll.padding + 1

theorem scrollLayout_kept (hholds : HoldsRow spec width viewport) :
    RowsKept spec width viewport (scrollLayout spec width viewport) := by
  have hgap := baseGap_nonneg spec width
  have hsize := hholds.size_pos
  have hitem : (scrollLayout spec width viewport).item = spec.appIconSize := rfl
  by_cases hthin : ThinStrip spec width viewport
  · obtain ⟨hpadding, hpitch⟩ := scrollLayout_thin hthin
    obtain ⟨hadjusted, hstart⟩ := removed_spec hholds
    obtain ⟨hrows, hstrip, -, htotal⟩ := divided hholds
    have heach := Int.ediv_nonneg hstrip (by omega : 0 ≤ rowsIn spec width viewport + 1)
    have hleft := (remainder_bounds hholds).1
    have hnext := rowTop_next hholds hthin
    have hlast := rowTop_succ (scrollLayout spec width viewport) (rowsIn spec width viewport - 1)
    rw [Int.sub_add_cancel] at hlast
    refine ⟨by omega, by omega, fun row _ hcomplete => ?_, fun _ => ?_⟩
    · -- The rows above the strip are those that were complete.
      have hbefore : row ≤ rowsIn spec width viewport - 1 := by
        by_contra hlarge
        have hmul : rowsIn spec width viewport * (spec.appIconSize + baseGap spec width) ≤
            row * (spec.appIconSize + baseGap spec width) :=
          Int.mul_le_mul_of_nonneg_right (by omega) (by omega)
        have hshort := hthin.2.2.2
        omega
      have htop := rowTop_le (scrollLayout spec width viewport) (by omega) hbefore
      omega
    · simp only [spaceBelow]
      omega
  · obtain ⟨hpadding, hpitch⟩ := scrollLayout_base hthin
    refine ⟨by omega, by omega, fun row _ hcomplete => ?_, fun h => absurd h hthin⟩
    rw [rowTop, hpadding, hpitch, hitem]
    exact hcomplete

theorem noStrip_base (hholds : HoldsRow spec width viewport) (h : ¬ ThinStrip spec width viewport) :
    NoStrip (scrollLayout spec width viewport) viewport := by
  have hgap := baseGap_nonneg spec width
  have hrow := hholds.row_le
  obtain ⟨hrows, hstrip, hlt, htotal⟩ := divided hholds
  obtain ⟨hpadding, hpitch⟩ := scrollLayout_base h
  have hitem : (scrollLayout spec width viewport).item = spec.appIconSize := rfl
  have hnext : rowTop (scrollLayout spec width viewport) (rowsIn spec width viewport) =
      viewport - stripIn spec width viewport := by
    rw [rowTop, hpadding, hpitch]
    omega
  have hfirst : rowsIn spec width viewport = 0 →
      spec.appIconSize ≤ stripIn spec width viewport := by
    intro hzero
    rw [hzero] at htotal
    omega
  have hsize := hholds.size_pos
  rw [ThinStrip] at h
  rw [noStrip_iff hrows (by omega) (by omega) (by omega)]
  omega

theorem noStrip_thin (hholds : HoldsRow spec width viewport) (h : ThinStrip spec width viewport) :
    NoStrip (scrollLayout spec width viewport) viewport ↔ remainder spec width viewport = 0 ∨
      spec.appIconSize ≤ 3 * ((remainder spec width viewport + 1) / 2) := by
  have hnext := rowTop_next hholds h
  have hsize := hholds.size_pos
  have hgap := (scrollLayout_kept hholds).gap_nonneg
  obtain ⟨hleft, hless⟩ := remainder_bounds hholds
  have hitem : (scrollLayout spec width viewport).item = spec.appIconSize := rfl
  obtain ⟨-, -, -, hthin⟩ := h
  rw [noStrip_iff (divided hholds).rows_nonneg (by omega) (by omega) (by omega)]
  omega

/-- **No thin strip.** -/
theorem scrollLayout_iff (spec : ProfileSpec) (width viewport : ℤ)
    (h : HoldsRow spec width viewport) :
    (RowsKept spec width viewport (scrollLayout spec width viewport) ∧
        NoStrip (scrollLayout spec width viewport) viewport) ↔
      (ThinStrip spec width viewport → remainder spec width viewport = 0 ∨
        spec.appIconSize ≤ 3 * ((remainder spec width viewport + 1) / 2)) := by
  rw [and_iff_right (scrollLayout_kept h)]
  by_cases hthin : ThinStrip spec width viewport
  · rw [noStrip_thin h hthin]
    exact (true_imp_iff.symm.trans (imp_congr_left (iff_of_true trivial hthin)))
  · exact iff_of_true (noStrip_base h hthin) fun h => absurd h hthin

/-- The profile of 320 by 240 pixels. -/
def landscape : ProfileSpec := ⟨60, 4, 2, 2, 0, 3⟩

/-- A strip of three pixels is removed. -/
theorem scrollLayout_iff_sample :
    ThinStrip landscape 320 171 ∧ RowsKept landscape 320 171 (scrollLayout landscape 320 171) ∧
      NoStrip (scrollLayout landscape 320 171) 171 :=
  ⟨by decide, (scrollLayout_iff landscape 320 171 ⟨by decide, by decide⟩).mpr fun _ => by decide⟩

/-- Two rows in 170 pixels leave a strip of one pixel. -/
theorem strip_left :
    ¬ ∀ spec width viewport, HoldsRow spec width viewport →
      RowsKept spec width viewport (scrollLayout spec width viewport) ∧
        NoStrip (scrollLayout spec width viewport) viewport := by
  intro h
  have hnone := (h landscape 320 170 ⟨by decide, by decide⟩).2 2 (by decide) (by decide)
  exact absurd hnone (by decide)

end Launcher
