/-
Moves in the launcher's grid and the rows in view (`launcher-layout.c`).

Main results:
- `up_down`, `down_up`: moves up and down undo each other where the column goes on;
- `Shown.follow`: what a move and the scrolling after it keep;
- `first_visible`: the first row that is not cut at the top;
- `navigation_visible`: all of these, over any sequence of moves.
-/
import Fplinux.Launcher.ScrollLayout

namespace Launcher

/-- `enum fplinux_launcher_move`. -/
inductive Move
  | up
  | down
  | left
  | right
deriving DecidableEq, Repr

/-- The moves from a cell of the grid up to the last one. -/
def moveTo (last selected columns : ℕ) : Move → ℕ
  | .up =>
    if selected ≥ columns then selected - columns
    else if selected < last % columns then last - last % columns + selected
    else last
  | .down =>
    if selected / columns = last / columns then selected % columns
    else if selected + columns < last then selected + columns
    else last
  | .left => if selected = 0 then last else selected - 1
  | .right => if selected = last then 0 else selected + 1

def move (selected count columns : ℕ) (direction : Move) : ℕ :=
  if count = 0 then 0
  else
    let last := count - 1
    moveTo last (if selected > last then last else selected) (if columns = 0 then 1 else columns)
      direction

def contentHeight (scroll : Scroll) (rows : ℕ) : ℤ :=
  if rows = 0 then 0 else 2 * scroll.padding + ((rows : ℤ) - 1) * scroll.pitch + scroll.item

def scrollOffset (scroll : Scroll) (rows : ℕ) (viewport offset : ℤ) (row : ℕ) : ℤ :=
  let last := contentHeight scroll rows - viewport
  let top := scroll.padding + row * scroll.pitch
  let bottom := top + scroll.item + scroll.revealMargin
  if rows = 0 ∨ row = 0 then 0
  else
    let offset := if bottom > offset + viewport then bottom - viewport else offset
    let offset := if top - scroll.revealMargin < offset then top - scroll.revealMargin else offset
    let offset := if offset > last then last else offset
    atLeast offset 0

def firstVisibleRow (scroll : Scroll) (rows : ℕ) (offset : ℤ) : ℕ :=
  let row := if offset > scroll.padding
    then ((offset - scroll.padding + scroll.pitch - 1).tdiv scroll.pitch).toNat else 0
  if rows ≠ 0 ∧ row ≥ rows then rows - 1 else row

/-! ### Moves -/

variable {selected count columns : ℕ}

theorem move_eq (hcolumns : 0 < columns) (h : selected < count) (direction : Move) :
    move selected count columns direction = moveTo (count - 1) selected columns direction := by
  rw [move, if_neg (by omega)]
  show moveTo _ (if selected > count - 1 then _ else _) (if columns = 0 then _ else _) _ = _
  rw [if_neg (by omega : ¬ selected > count - 1), if_neg (by omega : ¬ columns = 0)]

theorem move_lt (hcolumns : 0 < columns) (h : selected < count) (direction : Move) :
    move selected count columns direction < count := by
  rw [move_eq hcolumns h]
  have hmod := Nat.mod_le selected columns
  have hlast := Nat.mod_le (count - 1) columns
  cases direction <;> rw [moveTo] <;> split_ifs <;> omega

/-- **Left and right** undo each other. -/
theorem left_right (hcolumns : 0 < columns) (h : selected < count) :
    move (move selected count columns .left) count columns .right = selected ∧
      move (move selected count columns .right) count columns .left = selected := by
  rw [move_eq hcolumns (move_lt hcolumns h .left), move_eq hcolumns (move_lt hcolumns h .right),
    move_eq hcolumns h, move_eq hcolumns h]
  simp only [moveTo]
  constructor
  · grind
  · grind

/-- The row below, or the first one. -/
def rowBelow (selected count columns : ℕ) : ℕ :=
  if selected / columns = (count - 1) / columns then 0 else selected / columns + 1

/-- The row above, or the last one. -/
def rowAbove (selected count columns : ℕ) : ℕ :=
  if selected / columns = 0 then (count - 1) / columns else selected / columns - 1

/-- The cell of a row in a column, or the last one where the row is shorter. -/
def cellOf (row column count columns : ℕ) : ℕ :=
  if row * columns + column < count then row * columns + column else count - 1

theorem move_down (hcolumns : 0 < columns) (h : selected < count) :
    move selected count columns .down =
      cellOf (rowBelow selected count columns) (selected % columns) count columns := by
  have hselected := Nat.div_add_mod' selected columns
  rw [move_eq hcolumns h, moveTo, rowBelow]
  by_cases hlast : selected / columns = (count - 1) / columns
  · have hmod := Nat.mod_le selected columns
    rw [if_pos hlast, if_pos hlast, cellOf, Nat.zero_mul, Nat.zero_add, if_pos (by omega)]
  · rw [if_neg hlast, if_neg hlast, cellOf, Nat.succ_mul, Nat.add_right_comm, hselected]
    split_ifs <;> omega

theorem move_up (hcolumns : 0 < columns) (h : selected < count) :
    move selected count columns .up =
      cellOf (rowAbove selected count columns) (selected % columns) count columns := by
  have hselected := Nat.div_add_mod' selected columns
  have hlast := Nat.div_add_mod' (count - 1) columns
  rw [move_eq hcolumns h, moveTo, rowAbove]
  by_cases hfirst : selected / columns = 0
  · have hbefore : selected < columns := (Nat.div_eq_zero_iff_lt hcolumns).mp hfirst
    rw [if_neg (by omega), if_pos hfirst, cellOf, Nat.mod_eq_of_lt hbefore]
    split_ifs <;> omega
  · obtain ⟨row, hrow⟩ := Nat.exists_eq_succ_of_ne_zero hfirst
    rw [hrow, Nat.succ_mul] at hselected
    rw [if_pos (by omega), if_neg hfirst, hrow, Nat.succ_sub_one, cellOf, if_pos (by omega)]
    omega

theorem cellOf_div {row column : ℕ} (hcolumn : column < columns)
    (hcell : row * columns + column < count) :
    cellOf row column count columns / columns = row ∧
      cellOf row column count columns % columns = column := by
  rw [cellOf, if_pos hcell, Nat.mul_comm]
  exact ⟨by rw [Nat.mul_add_div (by omega), Nat.div_eq_of_lt hcolumn, Nat.add_zero],
    by rw [Nat.mul_add_mod, Nat.mod_eq_of_lt hcolumn]⟩

theorem cellOf_self (h : selected < count) :
    cellOf (selected / columns) (selected % columns) count columns = selected := by
  rw [cellOf, Nat.div_add_mod', if_pos h]

/-- **Down and up**: the row below has the column, or its last cell is the last of all. -/
theorem down_up (hcolumns : 0 < columns) (h : selected < count) :
    if rowBelow selected count columns * columns + selected % columns < count then
      move (move selected count columns .down) count columns .up = selected
    else move selected count columns .down = count - 1 := by
  rw [move_down hcolumns h]
  split_ifs with hcell
  · obtain ⟨hrow, hcolumn⟩ := cellOf_div (Nat.mod_lt selected hcolumns) hcell
    rw [move_up hcolumns (by rw [cellOf, if_pos hcell]; exact hcell), rowAbove, hrow, hcolumn]
    by_cases hlast : selected / columns = (count - 1) / columns
    · rw [rowBelow, if_pos hlast, if_pos rfl, ← hlast]
      exact cellOf_self h
    · rw [rowBelow, if_neg hlast, if_neg (Nat.succ_ne_zero _), Nat.add_sub_cancel]
      exact cellOf_self h
  · rw [cellOf, if_neg hcell]

/-- **Up and down.** -/
theorem up_down (hcolumns : 0 < columns) (h : selected < count) :
    if rowAbove selected count columns * columns + selected % columns < count then
      move (move selected count columns .up) count columns .down = selected
    else move selected count columns .up = count - 1 := by
  have hle : selected / columns ≤ (count - 1) / columns := Nat.div_le_div_right (by omega)
  rw [move_up hcolumns h]
  split_ifs with hcell
  · obtain ⟨hrow, hcolumn⟩ := cellOf_div (Nat.mod_lt selected hcolumns) hcell
    rw [move_down hcolumns (by rw [cellOf, if_pos hcell]; exact hcell), rowBelow, hrow, hcolumn]
    by_cases hfirst : selected / columns = 0
    · rw [rowAbove, if_pos hfirst, if_pos rfl, ← hfirst]
      exact cellOf_self h
    · have hpos := Nat.pos_of_ne_zero hfirst
      have hnot : ¬ selected / columns - 1 = (count - 1) / columns := by omega
      rw [rowAbove, if_neg hfirst, if_neg hnot,
        Nat.sub_add_cancel hpos]
      exact cellOf_self h
  · rw [cellOf, if_neg hcell]

/-! ### Scrolling -/

/-- The measures of a content with rows. -/
structure Measures (scroll : Scroll) : Prop where
  padding_nonneg : 0 ≤ scroll.padding
  margin_nonneg : 0 ≤ scroll.revealMargin
  item_pos : 0 < scroll.item
  item_le_pitch : scroll.item ≤ scroll.pitch

/-- A row is in view with its margin. -/
def InView (scroll : Scroll) (viewport offset : ℤ) (row : ℕ) : Prop :=
  offset ≤ rowTop scroll row - scroll.revealMargin ∧
    rowTop scroll row + scroll.item + scroll.revealMargin ≤ offset + viewport

/-- The end of the content. -/
def lastOffset (scroll : Scroll) (rows : ℕ) (viewport : ℤ) : ℤ :=
  max 0 (contentHeight scroll rows - viewport)

/-- What scrolling to a row gives. -/
structure Revealed (scroll : Scroll) (rows : ℕ) (viewport offset : ℤ) (row : ℕ) : Prop where
  nonneg : 0 ≤ offset
  le_last : offset ≤ lastOffset scroll rows viewport
  le_top : offset ≤ rowTop scroll row
  visible : scroll.item + max scroll.padding scroll.revealMargin ≤ viewport →
    rowTop scroll row + scroll.item ≤ offset + viewport

variable {scroll : Scroll} {rows row : ℕ} {viewport offset : ℤ}

theorem contentHeight_ge (h : Measures scroll) (hrow : row < rows) :
    rowTop scroll row + scroll.item + scroll.padding ≤ contentHeight scroll rows := by
  obtain ⟨hpadding, -, hitem, hpitch⟩ := h
  have htop := rowTop_le scroll (by omega) (by omega : (row : ℤ) ≤ rows - 1)
  rw [contentHeight, if_neg (by omega)]
  rw [rowTop, rowTop] at htop
  rw [rowTop]
  omega

theorem scrollOffset_revealed (h : Measures scroll) (hrow : row < rows) :
    Revealed scroll rows viewport (scrollOffset scroll rows viewport offset row) row := by
  have hcontent := contentHeight_ge h hrow
  obtain ⟨hpadding, hmargin, hitem, hpitch⟩ := h
  have hfirst := rowTop_le scroll (by omega) (Int.natCast_nonneg row)
  have hzero : rowTop scroll 0 = scroll.padding := by rw [rowTop, Int.zero_mul, Int.add_zero]
  by_cases hrow0 : row = 0
  · subst hrow0
    rw [scrollOffset, if_pos (Or.inr rfl)]
    rw [Nat.cast_zero] at hcontent
    refine ⟨le_refl _, le_max_left _ _, ?_, fun hfits => ?_⟩
    · rw [Nat.cast_zero]
      omega
    · rw [Nat.cast_zero]
      omega
  · simp only [scrollOffset, atLeast]
    rw [if_neg (by omega)]
    change Revealed scroll rows viewport _ row
    rw [show scroll.padding + (row : ℤ) * scroll.pitch = rowTop scroll row from rfl]
    refine ⟨?_, ?_, ?_, fun hfits => ?_⟩
    · split_ifs <;> omega
    · rw [lastOffset]
      split_ifs <;> omega
    · split_ifs <;> omega
    · split_ifs <;> omega

theorem scrollOffset_in_view (hrow0 : row ≠ 0) (hrow : row < rows) (hnonneg : 0 ≤ offset)
    (hlast : offset ≤ lastOffset scroll rows viewport) (hview : InView scroll viewport offset row) :
    scrollOffset scroll rows viewport offset row = offset := by
  obtain ⟨htop, hbottom⟩ := hview
  rw [rowTop] at htop hbottom
  rw [lastOffset] at hlast
  simp only [scrollOffset, atLeast]
  rw [if_neg (by omega)]
  split_ifs <;> omega

/-- The first row that is not cut at the top. -/
structure FirstVisible (scroll : Scroll) (rows : ℕ) (offset : ℤ) (row : ℕ) : Prop where
  visible : offset ≤ rowTop scroll row
  least : ∀ other : ℕ, offset ≤ rowTop scroll other → row ≤ other
  lt_rows : row < rows

theorem first_visible (h : Measures scroll) (hrow : row < rows)
    (htop : offset ≤ rowTop scroll row) :
    FirstVisible scroll rows offset (firstVisibleRow scroll rows offset) := by
  have hpitch : 0 < scroll.pitch := by
    have hitem := h.item_pos
    have hle := h.item_le_pitch
    omega
  -- The row that the division gives is the least one, and so not behind `row`.
  have hdivision : ∃ first : ℕ, firstVisibleRow scroll rows offset =
      (if rows ≠ 0 ∧ first ≥ rows then rows - 1 else first) ∧
      offset ≤ rowTop scroll first ∧
      ∀ other : ℕ, offset ≤ rowTop scroll other → first ≤ other := by
    refine ⟨_, rfl, ?_⟩
    by_cases hbelow : offset > scroll.padding
    · rw [if_pos hbelow, Int.tdiv_eq_ediv_of_nonneg (by omega)]
      have hnonneg := Int.ediv_nonneg (by omega : 0 ≤ offset - scroll.padding + scroll.pitch - 1)
        hpitch.le
      have hlt := Int.lt_ediv_add_one_mul_self (offset - scroll.padding + scroll.pitch - 1) hpitch
      rw [rowTop, Int.toNat_of_nonneg hnonneg]
      rw [Int.add_mul, Int.one_mul] at hlt
      refine ⟨by omega, fun other hother => ?_⟩
      rw [rowTop] at hother
      have hless : offset - scroll.padding + scroll.pitch - 1 < (other + 1) * scroll.pitch := by
        rw [Int.add_mul, Int.one_mul]
        omega
      have hdiv := Int.ediv_lt_of_lt_mul hpitch hless
      omega
    · rw [if_neg hbelow]
      refine ⟨?_, fun other _ => Nat.zero_le _⟩
      rw [rowTop, Nat.cast_zero, Int.zero_mul]
      omega
  obtain ⟨first, heq, hvisible, hleast⟩ := hdivision
  have hbefore := hleast row htop
  rw [if_neg (by omega)] at heq
  rw [heq]
  exact ⟨hvisible, hleast, by omega⟩

/-! ### Runs -/

/-- The selected app and the offset of its rows. -/
structure View where
  selected : ℕ
  offset : ℤ

/-- The rows of some apps. -/
def rowsOf (count columns : ℕ) : ℕ := (count + columns - 1) / columns

/-- A move, and the scrolling to the row of the selected app. -/
def follow (scroll : Scroll) (count columns : ℕ) (viewport : ℤ) (view : View) (direction : Move) :
    View :=
  let selected := move view.selected count columns direction
  ⟨selected, scrollOffset scroll (rowsOf count columns) viewport view.offset (selected / columns)⟩

/-- An app is selected, and the offset is one of the content. -/
structure Shown (scroll : Scroll) (count columns : ℕ) (viewport : ℤ) (view : View) : Prop where
  selected_lt : view.selected < count
  offset_nonneg : 0 ≤ view.offset
  offset_le : view.offset ≤ lastOffset scroll (rowsOf count columns) viewport

theorem row_lt (hcolumns : 0 < columns) (h : selected < count) :
    selected / columns < rowsOf count columns := by
  have hrows : rowsOf count columns = (count - 1) / columns + 1 := by
    rw [rowsOf, show count + columns - 1 = count - 1 + columns by omega,
      Nat.add_div_right _ hcolumns]
  have hle : selected / columns ≤ (count - 1) / columns := Nat.div_le_div_right (by omega)
  omega

/-- **One move**: what it keeps, and what is then in view. -/
theorem Shown.follow {view : View} (h : Measures scroll) (hcolumns : 0 < columns)
    (hview : Shown scroll count columns viewport view) (direction : Move) :
    Shown scroll count columns viewport (follow scroll count columns viewport view direction) ∧
      Revealed scroll (rowsOf count columns) viewport
        (Launcher.follow scroll count columns viewport view direction).offset
        (move view.selected count columns direction / columns) := by
  have hlt := move_lt hcolumns hview.selected_lt direction
  have hrevealed : Revealed scroll (rowsOf count columns) viewport
      (Launcher.follow scroll count columns viewport view direction).offset
      (move view.selected count columns direction / columns) :=
    scrollOffset_revealed h (row_lt hcolumns hlt)
  exact ⟨⟨hlt, hrevealed.nonneg, hrevealed.le_last⟩, hrevealed⟩

/-- **A run of moves.** -/
theorem Shown.run (h : Measures scroll) (hcolumns : 0 < columns) (moves : List Move) {view : View}
    (hview : Shown scroll count columns viewport view) :
    Shown scroll count columns viewport
      (moves.foldl (Launcher.follow scroll count columns viewport) view) := by
  induction moves generalizing view with
  | nil => exact hview
  | cons direction moves ih => exact ih (hview.follow h hcolumns direction).1

/-- **Navigation keeps the selection visible.** -/
theorem navigation_visible (scroll : Scroll) (h : Measures scroll) (count columns : ℕ)
    (hcolumns : 0 < columns) (viewport : ℤ) (start : View)
    (hstart : Shown scroll count columns viewport start) (moves : List Move) (direction : Move) :
    let rows := rowsOf count columns
    let view := moves.foldl (follow scroll count columns viewport) start
    let next := follow scroll count columns viewport view direction
    let row := next.selected / columns
    (Shown scroll count columns viewport view ∧ Shown scroll count columns viewport next) ∧
    Revealed scroll rows viewport next.offset row ∧
    (row ≠ 0 → InView scroll viewport view.offset row → next.offset = view.offset) ∧
    FirstVisible scroll rows next.offset (firstVisibleRow scroll rows next.offset) ∧
    firstVisibleRow scroll rows next.offset ≤ row ∧
    ∀ selected < count,
      (∀ direction, move selected count columns direction < count) ∧
      (move (move selected count columns .left) count columns .right = selected ∧
        move (move selected count columns .right) count columns .left = selected) ∧
      (if rowBelow selected count columns * columns + selected % columns < count then
        move (move selected count columns .down) count columns .up = selected
      else move selected count columns .down = count - 1) ∧
      (if rowAbove selected count columns * columns + selected % columns < count then
        move (move selected count columns .up) count columns .down = selected
      else move selected count columns .up = count - 1) := by
  intro rows view next row
  have hview : Shown scroll count columns viewport view := hstart.run h hcolumns moves
  obtain ⟨hnext, hrevealed⟩ := hview.follow h hcolumns direction
  have hrow : row < rows := row_lt hcolumns hnext.selected_lt
  have hfirst := first_visible h hrow hrevealed.le_top
  refine ⟨⟨hview, hnext⟩, hrevealed, fun hrow0 hin => ?_, hfirst, hfirst.least row hrevealed.le_top,
    fun selected hlt => ⟨move_lt hcolumns hlt, left_right hcolumns hlt, down_up hcolumns hlt,
      up_down hcolumns hlt⟩⟩
  exact scrollOffset_in_view hrow0 hrow hview.offset_nonneg hview.offset_le hin

/-- Ten apps in three columns. -/
theorem navigation_visible_sample :
    Shown ⟨3, 12, 10, 2⟩ 10 3 20 (follow ⟨3, 12, 10, 2⟩ 10 3 20 ⟨0, 0⟩ .down) :=
  (navigation_visible ⟨3, 12, 10, 2⟩ ⟨by decide, by decide, by decide, by decide⟩ 10 3 (by decide)
    20 ⟨0, 0⟩ ⟨by decide, by decide, by decide⟩ [] .down).1.2

end Launcher
