/-
Scrolling of views (`fplinux-ui-screen-model.c`).

`revealScroll` gives the distance to move the content, which the caller bounds to the content;
`lineScroll` gives the new position itself.

Main results:
- `reveal_shows`: the bounded move shows the span, and does nothing where it is in view;
- `lineScroll_forward`, `lineScroll_backward`: a move by one line, with its arithmetic;
- `forward_reaches`, `backward_reaches`: moves by lines reach the edge and leave no line out;
- `scrolling_laws`: all of these together.
-/
import Mathlib.Order.Basic
import Fplinux.Lib.Checked

namespace Scroll

open Checked (int32 int32_eq int64 int64_eq)
open Option (bind_eq_bind bind_some)

/-! ### The functions -/

/-- The distance that shows the span, or its top when it is taller than the view. -/
def leastScroll (viewTop viewBottom top bottom : ℤ) : Option ℤ := do
  let height ← int32 (bottom - top)
  let viewHeight ← int32 (viewBottom - viewTop)
  if top < viewTop ∨ height > viewHeight then int32 (viewTop - top)
  else if bottom > viewBottom then int32 (viewBottom - bottom)
  else some 0

/-- How far the span's other edge may move: up to its side of the view. -/
def room (viewTop viewBottom top bottom least : ℤ) : Option ℤ :=
  if least < 0 then int32 (top - viewTop) else int32 (viewBottom - bottom)

/-- A small distance goes on up to a step, as far as there is room. -/
def extendScroll (viewTop viewBottom top bottom step least : ℤ) : Option ℤ := do
  let size ← if least < 0 then int32 (-least) else some least
  let scaled ← int32 (4 * size)
  if least = 0 ∨ scaled ≥ step then some least
  else do
    let room ← room viewTop viewBottom top bottom least
    let most := if room > step then step else room
    if most < size then some least
    else if least < 0 then int32 (-most)
    else some most

def revealScroll (viewTop viewBottom top bottom step : ℤ) : Option ℤ := do
  let least ← leastScroll viewTop viewBottom top bottom
  extendScroll viewTop viewBottom top bottom step least

/-- A position that the content has. -/
def bounded (last position : ℤ) : ℤ := max 0 (min last position)

/-- The rounding of a move of one line to the grid. -/
def snap (step line target : ℤ) : Option ℤ :=
  if step > 0 then do
    let sum ← int64 (target + line)
    let sum ← int64 (sum - 1)
    int64 (sum.tdiv line * line)
  else int64 (target.tdiv line * line)

def lineScroll (start step last line : ℤ) : Option ℤ := do
  let size ← if step < 0 then int64 (-step) else some step
  let target ← int64 (start + step)
  let line := if line < 1 then 1 else line
  let last := if last < 0 then 0 else last
  let target ← if size = line ∧ target > 0 then snap step line target else some target
  let target := if target < 0 then 0 else target
  let target := if target > last then last else target
  if size = line then
    if target > start ∧ last - target < line then some last
    else if target < start ∧ target < line then some 0
    else some target
  else some target

/-! ### Spans -/

/-- A view over its content, with a span of the content to show; lengths are in pixels. -/
structure Geometry where
  content : ℤ
  view : ℤ
  viewTop : ℤ
  offset : ℤ
  first : ℤ
  last : ℤ
  step : ℤ

/-- The largest offset. -/
def Geometry.edge (g : Geometry) : ℤ := max 0 (g.content - g.view)

/-- The coordinates of the display have less than 29 bits. -/
def coordinateMax : ℤ := 2 ^ 29

/-- What callers pass: a span of the content, under a view that stands within the content. -/
structure Geometry.Admitted (g : Geometry) : Prop where
  first : 0 ≤ g.first
  last : g.first ≤ g.last
  content : g.last < g.content
  contentMax : g.content < coordinateMax
  view : 0 < g.view
  viewTop : 0 ≤ g.viewTop
  viewBottom : g.viewTop + g.view < coordinateMax
  offset : 0 ≤ g.offset
  edge : g.offset ≤ g.edge
  step : 0 ≤ g.step

/-- The call of `reveal`: the span where it stands on the display. -/
def Geometry.reveal (g : Geometry) : Option ℤ :=
  revealScroll g.viewTop (g.viewTop + g.view - 1) (g.viewTop + g.first - g.offset)
    (g.viewTop + g.last - g.offset) g.step

/-- The whole span is in the view at an offset. -/
def Geometry.Shows (g : Geometry) (offset : ℤ) : Prop :=
  offset ≤ g.first ∧ g.last < offset + g.view

/-- What callers pass, as it stands on the display. -/
structure OnDisplay (viewTop viewBottom top bottom step : ℤ) : Prop where
  above : -coordinateMax < top - viewTop ∧ top - viewTop < coordinateMax
  below : -coordinateMax < viewBottom - bottom ∧ viewBottom - bottom < coordinateMax
  span : 0 ≤ bottom - top ∧ bottom - top < coordinateMax
  view : 0 ≤ viewBottom - viewTop ∧ viewBottom - viewTop < coordinateMax
  nonneg : 0 ≤ step

/-- What a distance must do: nothing to a span in view, else show it or its top. -/
structure Reveals (viewTop viewBottom top bottom distance : ℤ) : Prop where
  fits : bottom - top ≤ viewBottom - viewTop →
    viewTop ≤ top + distance ∧ bottom + distance ≤ viewBottom
  taller : viewBottom - viewTop < bottom - top → top + distance = viewTop
  inView : viewTop ≤ top → bottom ≤ viewBottom → distance = 0
  size : -coordinateMax < distance ∧ distance < coordinateMax

variable {step line last start view : ℤ}

theorem leastScroll_reveals {viewTop viewBottom top bottom : ℤ}
    (h : OnDisplay viewTop viewBottom top bottom step) :
    ∃ least, leastScroll viewTop viewBottom top bottom = some least ∧
      Reveals viewTop viewBottom top bottom least := by
  obtain ⟨htop, hbottom, hspan, hview, -⟩ := h
  rw [coordinateMax] at htop hbottom hspan hview
  rw [leastScroll, int32_eq (by omega) (by omega), bind_eq_bind, bind_some,
    int32_eq (by omega) (by omega), bind_some]
  split
  · rw [int32_eq (by omega) (by omega)]
    refine ⟨_, rfl, ?_, ?_, ?_, ?_⟩ <;> first | rw [coordinateMax]; omega | omega
  split
  · rw [int32_eq (by omega) (by omega)]
    refine ⟨_, rfl, ?_, ?_, ?_, ?_⟩ <;> first | rw [coordinateMax]; omega | omega
  · refine ⟨_, rfl, ?_, ?_, ?_, ?_⟩ <;> first | rw [coordinateMax]; omega | omega

theorem extendScroll_reveals {viewTop viewBottom top bottom least : ℤ}
    (h : OnDisplay viewTop viewBottom top bottom step)
    (hleast : Reveals viewTop viewBottom top bottom least) :
    ∃ distance, extendScroll viewTop viewBottom top bottom step least = some distance ∧
      Reveals viewTop viewBottom top bottom distance := by
  obtain ⟨htop, hbottom, hspan, hview, hstep⟩ := h
  have hkept := hleast
  obtain ⟨hfits, htaller, hin, hsize⟩ := hleast
  rw [coordinateMax] at htop hbottom hspan hview hsize
  rw [extendScroll]
  split
  · rename_i hneg
    rw [int32_eq (by omega) (by omega), bind_eq_bind, bind_some]
    dsimp only
    rw [int32_eq (by omega) (by omega), bind_some]
    split
    · exact ⟨least, rfl, hkept⟩
    rw [room, if_pos hneg, int32_eq (by omega) (by omega), bind_some]
    -- the top of the span goes no further than the top of the view
    have hmost : (if top - viewTop > step then step else top - viewTop) ≤ top - viewTop := by
      split <;> omega
    generalize (if top - viewTop > step then step else top - viewTop) = most at hmost ⊢
    split
    · exact ⟨least, rfl, hkept⟩
    · rw [int32_eq (by omega) (by omega)]
      refine ⟨-most, rfl, ?_, ?_, ?_, ?_⟩
      · omega
      · omega
      · omega
      · rw [coordinateMax]
        omega
  · rename_i hnonneg
    rw [bind_eq_bind, bind_some]
    dsimp only
    rw [int32_eq (by omega) (by omega), bind_some]
    split
    · exact ⟨least, rfl, hkept⟩
    rw [room, if_neg hnonneg, int32_eq (by omega) (by omega), bind_some]
    have hmost : (if viewBottom - bottom > step then step else viewBottom - bottom) ≤
        viewBottom - bottom := by split <;> omega
    generalize (if viewBottom - bottom > step then step else viewBottom - bottom) = most
      at hmost ⊢
    split
    · exact ⟨least, rfl, hkept⟩
    · refine ⟨most, rfl, ?_, ?_, ?_, ?_⟩
      · omega
      · omega
      · omega
      · rw [coordinateMax]
        omega

/-- The new offset is in range; it shows the span, or its top when it is taller than the view; and
nothing moves for a span in view. -/
structure Geometry.Revealed (g : Geometry) (distance offset : ℤ) : Prop where
  nonneg : 0 ≤ offset
  atMost : offset ≤ max 0 (g.content - g.view)
  shown : g.last - g.first < g.view → g.Shows offset
  taller : g.view ≤ g.last - g.first → offset = g.first
  kept : g.Shows g.offset → distance = 0 ∧ offset = g.offset

/-- **A move that reveals a span**, once it is bounded to the content. -/
theorem reveal_shows {g : Geometry} (h : g.Admitted) :
    ∃ distance, g.reveal = some distance ∧
      g.Revealed distance (bounded g.edge (g.offset - distance)) := by
  obtain ⟨hfirst, hlast, hcontent, hcontentMax, hview, hviewTop, hviewBottom, hoffset, hedge,
    hstep⟩ := h
  rw [coordinateMax] at hcontentMax hviewBottom
  rw [Geometry.edge] at hedge ⊢
  have hdisplay : OnDisplay g.viewTop (g.viewTop + g.view - 1) (g.viewTop + g.first - g.offset)
      (g.viewTop + g.last - g.offset) g.step := by
    refine ⟨?_, ?_, ?_, ?_, hstep⟩ <;> rw [coordinateMax] <;> omega
  obtain ⟨least, hleast, hreveals⟩ := leastScroll_reveals hdisplay
  obtain ⟨distance, hdistance, hfits, htaller, hin, hsize⟩ :=
    extendScroll_reveals hdisplay hreveals
  refine ⟨distance, ?_, ?_, ?_, ?_, ?_, ?_⟩
  · rw [Geometry.reveal, revealScroll, hleast]
    exact hdistance
  · rw [bounded]
    omega
  · rw [bounded]
    omega
  · intro hspan
    rw [Geometry.Shows, bounded]
    omega
  · intro hspan
    rw [bounded]
    omega
  · rintro ⟨hstart, hend⟩
    have hnone := hin (by omega) (by omega)
    rw [hnone, bounded]
    omega

/-! ### Moves by one line -/

/-- The grid line at least one line further, or the edge. -/
def nextLine (last line start : ℤ) : ℤ :=
  let target := (start + line + line - 1) / line * line
  if last - target < line then last else target

/-- The grid line at least one line back, or the edge. -/
def previousLine (line start : ℤ) : ℤ :=
  if start ≤ line then 0 else (start - line) / line * line

theorem ediv_mul_bounds (a : ℤ) (h : 0 < line) :
    a / line * line ≤ a ∧ a < a / line * line + line := by
  have hhigh := Int.lt_ediv_add_one_mul_self a h
  rw [Int.add_mul, Int.one_mul] at hhigh
  exact ⟨Int.ediv_mul_le a (by omega), hhigh⟩

theorem multiple_eq_zero {a : ℤ} (hline : 0 < line) (ha : 0 ≤ a) (h : a / line * line < line) :
    a / line * line = 0 := by
  have hquotient : a / line < 1 :=
    Int.lt_of_mul_lt_mul_right (by rwa [Int.one_mul]) (Int.le_of_lt hline)
  have hnonneg := Int.ediv_nonneg ha (Int.le_of_lt hline)
  have heq : a / line = 0 := by omega
  rw [heq, Int.zero_mul]

/-- What a view and its content have: a position, the largest one, the height of a line. -/
structure Placed (start last line : ℤ) : Prop where
  nonneg : 0 ≤ start
  atMost : start ≤ last
  lastMax : last < 2 ^ 31
  positive : 0 < line
  lineMax : line < 2 ^ 31

theorem lineScroll_forward (h : Placed start last line) :
    lineScroll start line last line = some (nextLine last line start) := by
  obtain ⟨hnonneg, hlast, hlastMax, hpos, hlineMax⟩ := h
  have hgrid := ediv_mul_bounds (start + line + line - 1) hpos
  rw [lineScroll, if_neg (by omega), bind_eq_bind, bind_some]
  dsimp only
  rw [int64_eq (by omega) (by omega), bind_some, if_neg (by omega : ¬ line < 1),
    if_neg (by omega : ¬ last < 0), if_pos ⟨rfl, by omega⟩]
  rw [snap, if_pos hpos, int64_eq (by omega) (by omega), bind_eq_bind,
    bind_some, int64_eq (by omega) (by omega), bind_some,
    Int.tdiv_eq_ediv_of_nonneg (by omega), int64_eq (by omega) (by omega),
    bind_some, nextLine]
  generalize (start + line + line - 1) / line * line = target at hgrid ⊢
  rw [if_neg (by omega : ¬ target < 0), if_pos rfl]
  by_cases hedge : target > last
  · rw [if_pos hedge, if_pos (by omega : last - target < line)]
    split
    · rfl
    · rw [if_neg (by omega)]
  · rw [if_neg hedge]
    split
    · rw [if_pos (by omega)]
    · rw [if_neg (by omega), if_neg (by omega)]

theorem lineScroll_backward (h : Placed start last line) :
    lineScroll start (-line) last line = some (previousLine line start) := by
  obtain ⟨hnonneg, hlast, hlastMax, hpos, hlineMax⟩ := h
  have hgrid := ediv_mul_bounds (start - line) hpos
  rw [lineScroll, if_pos (by omega), int64_eq (by omega) (by omega), bind_eq_bind,
    bind_some]
  dsimp only
  rw [int64_eq (by omega) (by omega), bind_some, if_neg (by omega : ¬ line < 1),
    if_neg (by omega : ¬ last < 0), Int.neg_neg, ← Int.sub_eq_add_neg, previousLine]
  by_cases hedge : start ≤ line
  · rw [if_neg (by omega), if_pos hedge, bind_some]
    have hzero : (if start - line < 0 then 0 else start - line) = 0 := by
      split <;> omega
    rw [hzero, if_neg (by omega : ¬ (0 : ℤ) > last), if_pos rfl, if_neg (by omega)]
    split <;> rfl
  · rw [if_pos (by omega), if_neg hedge, snap, if_neg (by omega),
      Int.tdiv_eq_ediv_of_nonneg (by omega), int64_eq (by omega) (by omega),
      bind_some]
    have hfirst := fun hlt => multiple_eq_zero hpos (by omega : 0 ≤ start - line) hlt
    generalize (start - line) / line * line = target at hgrid hfirst ⊢
    rw [if_neg (by omega : ¬ target < 0), if_neg (by omega : ¬ target > last), if_pos rfl,
      if_neg (by omega)]
    split
    · rw [hfirst (by omega)]
    · rfl

theorem lineScroll_other (h : Placed start last line)
    (hstep : -2147483648 ≤ step ∧ step ≤ 2147483647) (hother : step.natAbs ≠ line) :
    lineScroll start step last line = some (bounded last (start + step)) := by
  obtain ⟨hnonneg, hlast, hlastMax, hpos, hlineMax⟩ := h
  have hclamp : (if (if start + step < 0 then 0 else start + step) > last then last
      else if start + step < 0 then 0 else start + step) = bounded last (start + step) := by
    rw [bounded]
    split <;> split <;> omega
  rw [lineScroll]
  split
  · rename_i hneg
    rw [int64_eq (by omega) (by omega), bind_eq_bind, bind_some]
    dsimp only
    rw [int64_eq (by omega) (by omega), bind_some,
      if_neg (by omega : ¬ line < 1), if_neg (by omega : ¬ last < 0), if_neg (by omega),
      bind_some, hclamp, if_neg (by omega)]
  · rename_i hnonneg'
    rw [bind_eq_bind, bind_some]
    dsimp only
    rw [int64_eq (by omega) (by omega), bind_some,
      if_neg (by omega : ¬ line < 1), if_neg (by omega : ¬ last < 0), if_neg (by omega),
      bind_some, hclamp, if_neg (by omega)]

theorem nextLine_spec (h : Placed start last line) :
    (start + line ≤ nextLine last line start ∨ nextLine last line start = last) ∧
      (line ∣ nextLine last line start ∨ nextLine last line start = last) ∧
      start ≤ nextLine last line start ∧ nextLine last line start ≤ last ∧
      (start < last → start < nextLine last line start) := by
  obtain ⟨hnonneg, hlast, hlastMax, hpos, hlineMax⟩ := h
  have hgrid := ediv_mul_bounds (start + line + line - 1) hpos
  have hdvd : line ∣ (start + line + line - 1) / line * line := Int.dvd_mul_left ..
  rw [nextLine]
  generalize (start + line + line - 1) / line * line = target at hgrid hdvd ⊢
  split
  · exact ⟨Or.inr rfl, Or.inr rfl, hlast, by omega, fun hlt => hlt⟩
  · exact ⟨Or.inl (by omega), Or.inl hdvd, by omega, by omega, fun _ => by omega⟩

theorem previousLine_spec (h : Placed start last line) :
    (previousLine line start + line ≤ start ∨ previousLine line start = 0) ∧
      line ∣ previousLine line start ∧
      0 ≤ previousLine line start ∧ previousLine line start ≤ start ∧
      (0 < start → previousLine line start < start) ∧
      start < previousLine line start + 2 * line := by
  obtain ⟨hnonneg, hlast, hlastMax, hpos, hlineMax⟩ := h
  rw [previousLine]
  split
  · exact ⟨Or.inr rfl, Int.dvd_zero _, by omega, hnonneg, fun hlt => hlt, by omega⟩
  · have hgrid := ediv_mul_bounds (start - line) hpos
    have hdvd : line ∣ (start - line) / line * line := Int.dvd_mul_left ..
    have hsign := Int.mul_nonneg (Int.ediv_nonneg (by omega : 0 ≤ start - line)
      (Int.le_of_lt hpos)) (Int.le_of_lt hpos)
    generalize (start - line) / line * line = target at hgrid hdvd hsign ⊢
    exact ⟨Or.inl (by omega), hdvd, hsign, by omega, fun _ => by omega, by omega⟩

/-! ### Moves line by line -/

/-- The position after a number of moves by one line. -/
def lines (step last line : ℤ) : ℕ → ℤ → Option ℤ
  | 0, start => some start
  | count + 1, start => (lineScroll start step last line).bind (lines step last line count)

/-- A view at an offset shows a line of the content wholly; the last line may be a part of one. -/
def ShowsLine (last line view offset : ℤ) (index : ℤ) : Prop :=
  offset ≤ index * line ∧ min ((index + 1) * line) (last + view) ≤ offset + view

/-- Moves by lines come to an edge, and every line of some kind is shown on the way. -/
def Reaches (step last line view start edge : ℤ) (passed : ℤ → Prop) : Prop :=
  ∃ count, lines step last line count start = some edge ∧
    ∀ index, passed index → ∃ n ≤ count, ∃ offset,
      lines step last line n start = some offset ∧ ShowsLine last line view offset index

/-- A place from which moves by lines leave none out: two lines fit the view at the grid, or
three lines anywhere. -/
def Roomy (start line view : ℤ) : Prop := (2 * line ≤ view ∧ line ∣ start) ∨ 3 * line ≤ view

theorem multiple_le {a b : ℤ} (hline : 0 < line) (h : a * line < b * line + line) :
    a * line ≤ b * line := by
  have hlt : a < b + 1 := by
    refine Int.lt_of_mul_lt_mul_right ?_ (Int.le_of_lt hline)
    rwa [Int.add_mul, Int.one_mul]
  exact Int.mul_le_mul_of_nonneg_right (by omega) (Int.le_of_lt hline)

theorem nextLine_passes {index : ℤ} (h : Placed start last line) (hroomy : Roomy start line view)
    (hpassed : index * line < nextLine last line start) :
    (index + 1) * line ≤ start + view := by
  have hpos := h.positive
  have hbase := ediv_mul_bounds start hpos
  have hgrid := ediv_mul_bounds (start + line + line - 1) hpos
  -- the move goes to the second grid line after `start`, and at most to the one before the third
  have htarget : (start + line + line - 1) / line * line ≤ (start / line + 2) * line := by
    refine multiple_le hpos ?_
    rw [Int.add_mul]
    omega
  have hindex : index * line ≤ (start + line + line - 1) / line * line := by
    refine multiple_le hpos ?_
    rw [nextLine] at hpassed
    split at hpassed <;> omega
  rw [Int.add_mul, Int.one_mul]
  rw [Int.add_mul] at htarget
  rcases hroomy with ⟨hview, hdvd⟩ | hview
  · have hstart : start / line * line = start := Int.ediv_mul_cancel hdvd
    have htarget' : (start + line + line - 1) / line * line ≤ (start / line + 1) * line := by
      refine multiple_le hpos ?_
      rw [Int.add_mul, Int.one_mul]
      omega
    rw [Int.add_mul, Int.one_mul] at htarget'
    omega
  · omega

theorem roomy_nextLine (h : Placed start last line) (hroomy : Roomy start line view) :
    Roomy (nextLine last line start) line view ∨ nextLine last line start = last := by
  have hpos := h.positive
  obtain ⟨-, hgrid | hedge, -⟩ := nextLine_spec h
  · refine Or.inl ?_
    rcases hroomy with ⟨hview, -⟩ | hview
    · exact Or.inl ⟨hview, hgrid⟩
    · exact Or.inr hview
  · exact Or.inr hedge

theorem showsLine_edge {index : ℤ} (hindex : last ≤ index * line) :
    ShowsLine last line view last index := ⟨hindex, Int.min_le_right _ _⟩

theorem forward_run (view : ℤ) (distance : ℕ) : ∀ start : ℤ,
    Placed start last line → (last - start).toNat = distance →
    Reaches line last line view start last fun index =>
      (Roomy start line view ∨ start = last) ∧ start ≤ index * line ∧
        index * line < last + view := by
  induction distance using Nat.strong_induction_on with
  | _ distance ih =>
    intro start h hdistance
    rcases Int.lt_or_eq_of_le h.atMost with hlt | rfl
    · obtain ⟨-, -, hle, hlast, hprogress⟩ := nextLine_spec h
      have hnext : Placed (nextLine last line start) last line :=
        ⟨by have := h.nonneg; omega, hlast, h.lastMax, h.positive, h.lineMax⟩
      obtain ⟨count, hcount, hshows⟩ := ih _ (by have := hprogress hlt; omega)
        (nextLine last line start) hnext rfl
      have hstep : ∀ n, lines line last line (n + 1) start =
          lines line last line n (nextLine last line start) := by
        intro n
        rw [lines, lineScroll_forward h, bind_some]
      refine ⟨count + 1, (hstep count).trans hcount, ?_⟩
      rintro index ⟨hroomy | hedge, hfirst, hend⟩
      · by_cases hpassed : index * line < nextLine last line start
        · have hview := nextLine_passes h hroomy hpassed
          exact ⟨0, Nat.zero_le _, start, rfl, hfirst, Int.le_trans (Int.min_le_left _ _) hview⟩
        · obtain ⟨n, hn, offset, hoffset, hshown⟩ :=
            hshows index ⟨roomy_nextLine h hroomy, by omega, hend⟩
          exact ⟨n + 1, by omega, offset, (hstep n).trans hoffset, hshown⟩
      · omega
    · refine ⟨0, rfl, ?_⟩
      rintro index ⟨-, hfirst, -⟩
      exact ⟨0, Nat.le_refl _, start, rfl, showsLine_edge hfirst⟩

/-- **Forward moves reach the edge**, and show every line on the way. -/
theorem forward_reaches (view : ℤ) (h : Placed start last line) :
    Reaches line last line view start last fun index =>
      Roomy start line view ∧ start ≤ index * line ∧ index * line < last + view := by
  obtain ⟨count, hcount, hshows⟩ := forward_run view _ start h rfl
  refine ⟨count, hcount, ?_⟩
  rintro index ⟨hroomy, hplace⟩
  exact hshows index ⟨Or.inl hroomy, hplace⟩

theorem backward_run (view : ℤ) (distance : ℕ) : ∀ start : ℤ,
    Placed start last line → start.toNat = distance →
    Reaches (-line) last line view start 0 fun index =>
      2 * line ≤ view ∧ 0 ≤ index ∧
        min ((index + 1) * line) (last + view) ≤ start + view := by
  induction distance using Nat.strong_induction_on with
  | _ distance ih =>
    intro start h hdistance
    have hnonneg := h.nonneg
    have hpos := h.positive
    rcases Int.lt_or_eq_of_le hnonneg with hlt | rfl
    · obtain ⟨-, ⟨quotient, hquotient⟩, hsign, hle, hprogress, hbound⟩ := previousLine_spec h
      have hnext : Placed (previousLine line start) last line :=
        ⟨hsign, Int.le_trans hle h.atMost, h.lastMax, hpos, h.lineMax⟩
      obtain ⟨count, hcount, hshows⟩ := ih _ (by have := hprogress hlt; omega)
        (previousLine line start) hnext rfl
      have hstep : ∀ n, lines (-line) last line (n + 1) start =
          lines (-line) last line n (previousLine line start) := by
        intro n
        rw [lines, lineScroll_backward h, bind_some]
      refine ⟨count + 1, (hstep count).trans hcount, ?_⟩
      rintro index ⟨hview, hindex, hend⟩
      by_cases hlater : min ((index + 1) * line) (last + view) ≤ previousLine line start + view
      · obtain ⟨n, hn, offset, hoffset, hshown⟩ := hshows index ⟨hview, hindex, hlater⟩
        exact ⟨n + 1, by omega, offset, (hstep n).trans hoffset, hshown⟩
      · -- a line that the next view cuts at its end begins below the two lines it holds
        have habove : (quotient + 2) * line ≤ index * line := by
          refine multiple_le hpos ?_
          rw [Int.add_mul, Int.mul_comm quotient, ← hquotient]
          rw [Int.add_mul, Int.one_mul] at hlater
          omega
        rw [Int.add_mul, Int.mul_comm quotient, ← hquotient] at habove
        exact ⟨0, Nat.zero_le _, start, rfl, by omega, hend⟩
    · refine ⟨0, rfl, ?_⟩
      rintro index ⟨-, hindex, hend⟩
      exact ⟨0, Nat.le_refl _, 0, rfl, Int.mul_nonneg hindex (Int.le_of_lt hpos), hend⟩

/-- **Backward moves reach the edge**, and show every line on the way. -/
theorem backward_reaches (view : ℤ) (h : Placed start last line) :
    Reaches (-line) last line view start 0 fun index =>
      2 * line ≤ view ∧ 0 ≤ index ∧
        min ((index + 1) * line) (last + view) ≤ start + view :=
  backward_run view _ start h rfl

/-- **Scrolling.**  A reveal, bounded to the content, stays in range, shows the span where it fits
and its top where it does not, and moves nothing that is in view; a move by one line goes a line
at least, to the grid or the edge, and such moves reach the edge and leave no line out; any other
move covers exactly its step. -/
theorem scrolling_laws {g : Geometry} {start last line step : ℤ} (view : ℤ) (hg : g.Admitted)
    (h : Placed start last line) (hstep : -2147483648 ≤ step ∧ step ≤ 2147483647)
    (hother : step.natAbs ≠ line) :
    (∃ distance, g.reveal = some distance ∧
      g.Revealed distance (bounded g.edge (g.offset - distance))) ∧
    (∃ target, lineScroll start line last line = some target ∧
      (start + line ≤ target ∨ target = last) ∧ (line ∣ target ∨ target = last) ∧
      start ≤ target ∧ target ≤ last) ∧
    (∃ target, lineScroll start (-line) last line = some target ∧
      (target + line ≤ start ∨ target = 0) ∧ line ∣ target ∧ 0 ≤ target ∧ target ≤ start) ∧
    lineScroll start step last line = some (bounded last (start + step)) ∧
    (Reaches line last line view start last fun index =>
      Roomy start line view ∧ start ≤ index * line ∧ index * line < last + view) ∧
    Reaches (-line) last line view start 0 fun index =>
      2 * line ≤ view ∧ 0 ≤ index ∧
        min ((index + 1) * line) (last + view) ≤ start + view := by
  obtain ⟨hfar, hgrid, hle, hlast, -⟩ := nextLine_spec h
  obtain ⟨hback, hdvd, hsign, hbefore, -, -⟩ := previousLine_spec h
  exact ⟨reveal_shows hg, ⟨_, lineScroll_forward h, hfar, hgrid, hle, hlast⟩,
    ⟨_, lineScroll_backward h, hback, hdvd, hsign, hbefore⟩, lineScroll_other h hstep hother,
    forward_reaches view h, backward_reaches view h⟩

/-- A span below a view of 100 pixels, and pages of 84 pixels over lines of 14. -/
theorem scrolling_laws_page : lineScroll 102 (-84) 102 14 = some 18 := by
  obtain ⟨-, -, -, hpage, -, -⟩ := @scrolling_laws ⟨110, 100, 0, 0, 100, 101, 20⟩ 102 102 14 (-84)
    100 (by constructor <;> decide) (by constructor <;> decide) (by decide) (by decide)
  exact hpage

/-- A distance alone leads past the end of the content, a move by a page off the grid, and with
less than two lines in the view moves by one line leave a line out. -/
theorem scroll_unbounded :
    revealScroll 0 99 100 101 20 = some (-20) ∧ ¬ (0 : ℤ) - (-20) ≤ max 0 (110 - 100) ∧
      lineScroll 102 (-84) 102 14 = some 18 ∧ ¬ ((14 : ℤ) ∣ 18 ∨ (18 : ℤ) = 0 ∨ (18 : ℤ) = 102) ∧
      lineScroll 70 14 92 14 = some 92 ∧
      ¬ ShowsLine 92 14 20 70 6 ∧ ¬ ShowsLine 92 14 20 92 6 := by
  refine ⟨by decide, by decide, by decide, by decide, by decide, ?_, ?_⟩
  · rintro ⟨-, h⟩
    exact absurd h (by decide)
  · rintro ⟨h, -⟩
    exact absurd h (by decide)

end Scroll
