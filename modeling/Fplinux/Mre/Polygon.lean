/-
Filled polygons of the guest's graphics (`native-graphics.inc`).

Every row of the surface that meets the clip is crossed with the edges of the polygon.  The
crossings are computed in 16.16 fixed point, truncated towards zero, and sorted; the pixels from
the first to the second, from the third to the fourth and so on are painted.  The outline is
drawn last.

Main results:
- `fixed_lt_iff`, `fixed_eq_iff`: truncated crossings stand where the exact ones do;
- `intersections_eq`, `even_crossings`: what is collected on a row, and that it pairs up;
- `fillSpans_painted`, `fillRows_painted`: what one row and all rows paint;
- `fillPolygon_paints`: what is painted is the even-odd rule and the outline.
-/
import Fplinux.Lib.EvenOdd
import Fplinux.Mre.Line

namespace Polygon

open Checked (int32 int64 int32_eq int64_eq)
open EvenOdd (Covered Inside cycle spans)
open Line (Surface Clip surfacePixel surfaceLine Painted OnLine)
open Option (bind_eq_bind bind_some)

variable {sizeMax : ℕ}

/-- `struct sdk_graphic_point`. -/
structure Point where
  x : Int16
  y : Int16
  deriving DecidableEq, Repr

/-- The arguments of `surface_line`. -/
def Point.toInt32 (p : Point) : Line.Point := ⟨p.x.toInt32, p.y.toInt32⟩

/-- `points[i]` and `points[next]`, for every `i`. -/
def edges (points : List Point) : List (Point × Point) := cycle points

/-! ### The source -/

def surfacePolygon (clip : Clip) (color : UInt16) :
    List (Point × Point) → Surface sizeMax → Option (Surface sizeMax)
  | [], surface => some surface
  | (p, q) :: rest, surface => do
    let painted ← surfaceLine clip surface p.toInt32 q.toInt32 color
    surfacePolygon clip color rest painted

def compareIntersections (a b : ℤ) : ℤ := (if a > b then 1 else 0) - (if a < b then 1 else 0)

/-- Whether an edge crosses a row: each row belongs to the edge's lower end only. -/
def crosses (y : ℤ) (edge : Point × Point) : Bool :=
  (edge.1.y.toInt ≤ y && y < edge.2.y.toInt) || (edge.2.y.toInt ≤ y && y < edge.1.y.toInt)

/-- Where it does, in 16.16 fixed point. -/
def intersection (y : ℤ) (edge : Point × Point) : Option ℤ := do
  let start ← int64 (edge.1.x.toInt * 65536)
  let down ← int32 (y - edge.1.y.toInt)
  let across ← int32 (edge.2.x.toInt - edge.1.x.toInt)
  let product ← int64 (down * across)
  let scaled ← int64 (product * 65536)
  let height ← int32 (edge.2.y.toInt - edge.1.y.toInt)
  let moved ← if height = 0 then none else int64 (scaled.tdiv height)
  int64 (start + moved)

/-- The loop that fills `intersections`. -/
def intersections (y : ℤ) : List (Point × Point) → Option (List ℤ)
  | [] => some []
  | edge :: rest =>
    if crosses y edge then do
      let here ← intersection y edge
      let more ← intersections y rest
      some (here :: more)
    else intersections y rest

/-- `qsort`. -/
def sorted (intersections : List ℤ) : List ℤ :=
  intersections.mergeSort fun a b => compareIntersections a b ≤ 0

/-- The innermost loop: one span, pixel by pixel. -/
def fillSpan (clip : Clip) (y : ℤ) (color : UInt16) (right x : ℤ) (surface : Surface sizeMax) :
    Option (Surface sizeMax) :=
  if x ≤ right then do
    let painted ← surfacePixel clip surface x y color
    let _ ← int64 (x + 1)
    fillSpan clip y color right (x + 1) painted
  else some surface
termination_by (right + 1 - x).toNat

/-- The first column that is not left of a crossing. -/
def firstColumn (left : ℤ) : Option ℤ := do
  let column ←
    if left ≥ 0 then do
      let up ← int64 (left + 65535)
      int64 (up.tdiv 65536)
    else int64 (left.tdiv 65536)
  some (if column < 0 then 0 else column)

/-- The last column that is not right of a crossing. -/
def lastColumn (width : ℕ) (right : ℤ) : Option ℤ := do
  let column ←
    if right ≥ 0 then int64 (right.tdiv 65536)
    else do
      let down ← int64 (right - 65535)
      int64 (down.tdiv 65536)
  some (if column ≥ width then (width : ℤ) - 1 else column)

/-- The loop over the sorted crossings of a row. -/
def fillSpans (clip : Clip) (y : ℤ) (color : UInt16) :
    List ℤ → Surface sizeMax → Option (Surface sizeMax)
  | left :: right :: rest, surface => do
    let first ← firstColumn left
    let last ← lastColumn surface.width right
    let painted ← fillSpan clip y color last first surface
    fillSpans clip y color rest painted
  | _, surface => some surface

/-- What is done for one row. -/
def fillRow (clip : Clip) (points : List Point) (color : UInt16) (y : ℤ)
    (surface : Surface sizeMax) : Option (Surface sizeMax) := do
  let row ← int64 (y - clip.y.toInt)
  if y < clip.y.toInt ∨ row ≥ clip.height.toInt then some surface
  else do
    let used ← intersections y (edges points)
    fillSpans clip y color (sorted used) surface

/-- The loop over the rows, from `y` on. -/
def fillRows (clip : Clip) (points : List Point) (color : UInt16) (height y : ℤ)
    (surface : Surface sizeMax) : Option (Surface sizeMax) :=
  if y < height then do
    let painted ← fillRow clip points color y surface
    let _ ← int32 (y + 1)
    fillRows clip points color height (y + 1) painted
  else some surface
termination_by (height - y).toNat

/-- `host_fill_polygon` on a layer; `malloc` says whether that many bytes can be had. -/
def fillPolygon (malloc : ℕ → Bool) (clip : Clip) (surface : Surface sizeMax)
    (points : List Point) (color : UInt16) : Option (Surface sizeMax) :=
  if points.length < 3 then some surface
  else if points.length > sizeMax / 8 then some surface
  else if !malloc (points.length * 8) then some surface
  else do
    let filled ← fillRows clip points color surface.height 0 surface
    surfacePolygon clip color (edges points) filled

/-! ### The ideal polygon -/

/-- Where the line through an edge crosses a row. -/
def exact (y : ℤ) (edge : Point × Point) : ℚ :=
  edge.1.x.toInt + (y - edge.1.y.toInt) * (edge.2.x.toInt - edge.1.x.toInt) /
    (edge.2.y.toInt - edge.1.y.toInt)

/-- The exact crossings of a row with the edges. -/
def crossings (points : List Point) (y : ℤ) : List ℚ :=
  ((edges points).filter (crosses y)).map (exact y)

/-- The pixels of the closed spans between the exact crossings. -/
def Filled (points : List Point) (x y : ℤ) : Prop :=
  Covered ((crossings points y).mergeSort fun a b => a ≤ b) x

/-- The pixels of its edges. -/
def Outline (points : List Point) (x y : ℤ) : Prop :=
  ∃ edge ∈ edges points, OnLine edge.1.toInt32 edge.2.toInt32 x y

/-! ### Crossings in fixed point -/

theorem fixed_offset {n d k : ℤ} (hd : 0 < d) (hle : d ≤ 65535) :
    ((n * 65536).tdiv d < k * 65536 ↔ n < k * d) ∧
      ((n * 65536).tdiv d = k * 65536 ↔ n = k * d) := by
  have hdivision := Int.mul_tdiv_add_tmod (n * 65536) d
  have hlow := Int.lt_tmod_of_pos (n * 65536) hd
  have hhigh := Int.tmod_lt_of_pos (n * 65536) hd
  obtain ⟨offset, hoffset⟩ : ∃ offset, (n * 65536).tdiv d = k * 65536 + offset :=
    ⟨(n * 65536).tdiv d - k * 65536, by omega⟩
  obtain ⟨rest, hrest⟩ : ∃ rest, n = k * d + rest := ⟨n - k * d, by omega⟩
  have hscaled : rest * 65536 = d * offset + (n * 65536).tmod d := by
    rw [hoffset] at hdivision
    linarith only [hdivision, hrest, mul_comm k d]
  rw [hoffset, hrest]
  -- The remainder is less than `d`, and `d` is less than a pixel.
  rcases lt_trichotomy offset 0 with hneg | rfl | hpos
  · have hproduct : d * offset ≤ d * -1 := Int.mul_le_mul_of_nonneg_left (by omega) hd.le
    constructor <;> omega
  · rw [mul_zero] at hscaled
    constructor <;> omega
  · have hproduct : d * 1 ≤ d * offset := Int.mul_le_mul_of_nonneg_left (by omega) hd.le
    constructor <;> omega

/-- **Truncation moves no crossing over a pixel**: heights are less than 65536. -/
theorem fixed_position {n d k : ℤ} (hd : d ≠ 0) (hle : |d| ≤ 65535) :
    ((n * 65536).tdiv d < k * 65536 ↔ (n : ℚ) / d < k) ∧
      ((n * 65536).tdiv d = k * 65536 ↔ (n : ℚ) / d = k) := by
  have hpositive : ∀ n d : ℤ, 0 < d → d ≤ 65535 →
      ((n * 65536).tdiv d < k * 65536 ↔ (n : ℚ) / d < k) ∧
        ((n * 65536).tdiv d = k * 65536 ↔ (n : ℚ) / d = k) := by
    intro n d hd hle
    have hd' : (0 : ℚ) < d := Int.cast_pos.2 hd
    obtain ⟨hlt, heq⟩ := @fixed_offset n d k hd hle
    rw [hlt, heq, div_lt_iff₀ hd', div_eq_iff hd'.ne']
    norm_cast
  rw [abs_le] at hle
  rcases lt_or_gt_of_ne hd with hneg | hpos
  · have hflip := hpositive (-n) (-d) (by omega) (by omega)
    rw [Int.neg_mul, Int.neg_tdiv_neg, Int.cast_neg, Int.cast_neg, neg_div_neg_eq] at hflip
    exact hflip
  · exact hpositive n d hpos hle.2

/-- The value of `intersection`. -/
def fixed (y : ℤ) (edge : Point × Point) : ℤ :=
  edge.1.x.toInt * 65536 + ((y - edge.1.y.toInt) * (edge.2.x.toInt - edge.1.x.toInt) * 65536).tdiv
    (edge.2.y.toInt - edge.1.y.toInt)

section Crossing

variable {y : ℤ} {edge : Point × Point}

theorem coordinate (v : Int16) : -32768 ≤ v.toInt ∧ v.toInt ≤ 32767 := by
  have hlow := v.le_toInt
  have hhigh := v.toInt_lt
  omega

theorem crosses_cases (h : crosses y edge = true) :
    (edge.1.y.toInt ≤ y ∧ y < edge.2.y.toInt) ∨ (edge.2.y.toInt ≤ y ∧ y < edge.1.y.toInt) := by
  rw [crosses, Bool.or_eq_true, Bool.and_eq_true, Bool.and_eq_true] at h
  simpa only [decide_eq_true_eq] using h

/-- **A row is crossed** where the edge changes from its upper to its lower side. -/
theorem crosses_eq (y : ℤ) (edge : Point × Point) :
    crosses y edge = (decide (edge.1.y.toInt ≤ y) != decide (edge.2.y.toInt ≤ y)) := by
  rw [Bool.eq_iff_iff, crosses, Bool.or_eq_true, Bool.and_eq_true, Bool.and_eq_true, bne_iff_ne]
  simp only [decide_eq_true_eq, ne_eq, decide_eq_decide]
  omega

theorem height_bounds (h : crosses y edge = true) :
    edge.2.y.toInt - edge.1.y.toInt ≠ 0 ∧ |edge.2.y.toInt - edge.1.y.toInt| ≤ 65535 := by
  have hfirst := coordinate edge.1.y
  have hsecond := coordinate edge.2.y
  have hcases := crosses_cases h
  rw [abs_le]
  omega

theorem fixed_lt_iff (h : crosses y edge = true) (x : ℤ) :
    fixed y edge < x * 65536 ↔ exact y edge < x := by
  obtain ⟨hne, hle⟩ := height_bounds h
  have hposition := (@fixed_position ((y - edge.1.y.toInt) * (edge.2.x.toInt - edge.1.x.toInt)) _
    (x - edge.1.x.toInt) hne hle).1
  rw [Int.cast_sub x] at hposition
  push_cast at hposition
  rw [fixed, exact, ← lt_sub_iff_add_lt', ← lt_sub_iff_add_lt', ← Int.sub_mul]
  exact hposition

theorem fixed_eq_iff (h : crosses y edge = true) (x : ℤ) :
    fixed y edge = x * 65536 ↔ exact y edge = x := by
  obtain ⟨hne, hle⟩ := height_bounds h
  have hposition := (@fixed_position ((y - edge.1.y.toInt) * (edge.2.x.toInt - edge.1.x.toInt)) _
    (x - edge.1.x.toInt) hne hle).2
  rw [Int.cast_sub x] at hposition
  push_cast at hposition
  rw [fixed, exact, ← eq_sub_iff_add_eq', ← eq_sub_iff_add_eq', ← Int.sub_mul]
  exact hposition

theorem scaled_bounds (h : crosses y edge = true) :
    ((y - edge.1.y.toInt) * (edge.2.x.toInt - edge.1.x.toInt)).natAbs ≤ 65535 * 65535 := by
  have hy := coordinate edge.1.y
  have hy' := coordinate edge.2.y
  have hx := coordinate edge.1.x
  have hx' := coordinate edge.2.x
  have hcases := crosses_cases h
  rw [Int.natAbs_mul]
  exact Nat.mul_le_mul (by omega) (by omega)

theorem intersection_eq (h : crosses y edge = true) :
    intersection y edge = some (fixed y edge) ∧ |fixed y edge| ≤ 2 ^ 50 := by
  have hy := coordinate edge.1.y
  have hy' := coordinate edge.2.y
  have hx := coordinate edge.1.x
  have hx' := coordinate edge.2.x
  have hcases := crosses_cases h
  have hproduct := scaled_bounds h
  obtain ⟨hne, -⟩ := height_bounds h
  have hquotient := Int.natAbs_tdiv_le_natAbs
    ((y - edge.1.y.toInt) * (edge.2.x.toInt - edge.1.x.toInt) * 65536)
    (edge.2.y.toInt - edge.1.y.toInt)
  rw [fixed]
  constructor
  · have hdown : int32 (y - edge.1.y.toInt) = some (y - edge.1.y.toInt) :=
      int32_eq (by omega) (by omega)
    have hacross : int32 (edge.2.x.toInt - edge.1.x.toInt) =
        some (edge.2.x.toInt - edge.1.x.toInt) := int32_eq (by omega) (by omega)
    have hheight : int32 (edge.2.y.toInt - edge.1.y.toInt) =
        some (edge.2.y.toInt - edge.1.y.toInt) := int32_eq (by omega) (by omega)
    rw [intersection, int64_eq (by omega) (by omega)]
    simp only [hdown, hacross, hheight, bind_eq_bind, bind_some, if_neg hne]
    generalize (y - edge.1.y.toInt) * (edge.2.x.toInt - edge.1.x.toInt) = n at hproduct hquotient ⊢
    rw [int64_eq (by omega) (by omega), bind_some, int64_eq (by omega) (by omega),
      bind_some, int64_eq (by omega) (by omega), bind_some,
      int64_eq (by omega) (by omega)]
  · rw [abs_le]
    omega

end Crossing

/-! ### The crossings of a row -/

/-- **What is collected on a row.** -/
theorem intersections_eq (y : ℤ) (steps : List (Point × Point)) :
    intersections y steps = some ((steps.filter (crosses y)).map (fixed y)) := by
  induction steps with
  | nil => rfl
  | cons edge rest ih =>
    rw [intersections]
    split
    · rename_i h
      rw [(intersection_eq h).1, ih, List.filter_cons_of_pos h, List.map_cons]
      rfl
    · rename_i h
      rw [ih, List.filter_cons_of_neg h]

/-- **The crossings of a row pair up.** -/
theorem even_crossings (points : List Point) (y : ℤ) :
    Even ((edges points).filter (crosses y)).length := by
  have heven := EvenOdd.even_changes (fun p : Point => decide (p.y.toInt ≤ y)) points
  rw [EvenOdd.changes] at heven
  rw [← List.countP_eq_length_filter, edges]
  have hsame : (cycle points).countP (crosses y) = (cycle points).countP
      fun step => decide (step.1.y.toInt ≤ y) != decide (step.2.y.toInt ≤ y) :=
    List.countP_congr fun edge _ => by rw [crosses_eq]
  rw [hsame]
  exact heven

theorem compareIntersections_iff (a b : ℤ) : compareIntersections a b ≤ 0 ↔ a ≤ b := by
  rw [compareIntersections]
  split <;> split <;> omega

theorem sorted_eq (l : List ℤ) : sorted l = l.mergeSort fun a b => a ≤ b := by
  have hsame : (fun a b : ℤ => decide (compareIntersections a b ≤ 0)) = fun a b => decide (a ≤ b) :=
    funext fun a => funext fun b => decide_eq_decide.2 (compareIntersections_iff a b)
  rw [sorted, hsame]

/-- **The pixels inside** by the even-odd rule. -/
theorem filled_iff_inside (points : List Point) (x y : ℤ) :
    Filled points x y ↔ Inside (crossings points y) (x : ℚ) := by
  refine EvenOdd.covered_mergeSort ?_ _
  rw [crossings, List.length_map]
  exact even_crossings points y

/-- **The spans in fixed point cover the pixels inside the polygon.** -/
theorem covered_iff_filled (points : List Point) (x y : ℤ) :
    Covered (sorted (((edges points).filter (crosses y)).map (fixed y))) (x * 65536) ↔
      Filled points x y := by
  have heven : Even (((edges points).filter (crosses y)).map (fixed y)).length := by
    rw [List.length_map]
    exact even_crossings points y
  rw [sorted_eq, EvenOdd.covered_mergeSort heven, filled_iff_inside, crossings]
  refine EvenOdd.inside_map_congr ?_ ?_
  · intro edge hmem
    exact fixed_eq_iff (List.mem_filter.1 hmem).2 x
  · intro edge hmem
    exact fixed_lt_iff (List.mem_filter.1 hmem).2 x

/-! ### Painting -/

section Painting

variable (clip : Clip) (color : UInt16)

theorem firstColumn_eq {left : ℤ} (h : |left| ≤ 2 ^ 50) :
    ∃ first, firstColumn left = some first ∧ 0 ≤ first ∧
      ∀ x : ℤ, 0 ≤ x → (first ≤ x ↔ left ≤ x * 65536) := by
  rw [abs_le] at h
  rw [firstColumn]
  by_cases hleft : left ≥ 0
  · have hdiv := Int.tdiv_eq_ediv_of_nonneg (a := left + 65535) (b := 65536) (by omega)
    rw [if_pos hleft, int64_eq (by omega) (by omega)]
    simp only [bind_eq_bind, bind_some]
    rw [hdiv, int64_eq (by omega) (by omega), bind_some]
    refine ⟨_, rfl, by split <;> omega, fun x hx => ?_⟩
    split <;> omega
  · have hdiv : left.tdiv 65536 = -(-left / 65536) := by
      rw [← Int.tdiv_eq_ediv_of_nonneg (by omega), Int.neg_tdiv, Int.neg_neg]
    rw [if_neg hleft, hdiv, int64_eq (by omega) (by omega)]
    simp only [bind_eq_bind, bind_some]
    refine ⟨_, rfl, by split <;> omega, fun x hx => ?_⟩
    split <;> omega

theorem lastColumn_eq {right : ℤ} {width : ℕ} (hwidth : width < 2 ^ 31) (h : |right| ≤ 2 ^ 50) :
    ∃ last, lastColumn width right = some last ∧ last < width ∧
      ∀ x : ℤ, x < width → (x ≤ last ↔ x * 65536 ≤ right) := by
  rw [abs_le] at h
  rw [lastColumn]
  by_cases hright : right ≥ 0
  · have hdiv := Int.tdiv_eq_ediv_of_nonneg (a := right) (b := 65536) hright
    rw [if_pos hright, hdiv, int64_eq (by omega) (by omega)]
    simp only [bind_eq_bind, bind_some]
    refine ⟨_, rfl, by split <;> omega, fun x hx => ?_⟩
    split <;> omega
  · have hdiv : (right - 65535).tdiv 65536 = -(-(right - 65535) / 65536) := by
      rw [← Int.tdiv_eq_ediv_of_nonneg (by omega), Int.neg_tdiv, Int.neg_neg]
    rw [if_neg hright, int64_eq (by omega) (by omega)]
    simp only [bind_eq_bind, bind_some]
    rw [hdiv, int64_eq (by omega) (by omega), bind_some]
    refine ⟨_, rfl, by split <;> omega, fun x hx => ?_⟩
    split <;> omega

/-- **One span**, from `x` on. -/
theorem fillSpan_painted (y right x : ℤ) (hx : 0 ≤ x) (hright : right < 2 ^ 31)
    (surface : Surface sizeMax) :
    ∃ painted, fillSpan clip y color right x surface = some painted ∧
      Painted surface painted color fun a b => (x ≤ a ∧ a ≤ right) ∧ b = y ∧ clip.Inside a b := by
  induction hcount : (right + 1 - x).toNat generalizing x surface with
  | zero =>
    rw [fillSpan, if_neg (by omega)]
    refine ⟨surface, rfl, (Painted.refl surface color).congr fun a b => ?_⟩
    refine iff_of_false ?_ not_false
    rintro ⟨hspan, -, -⟩
    omega
  | succ count ih =>
    obtain ⟨pixel, hpixel, hpainted⟩ := Line.surfacePixel_painted clip surface x y color
    obtain ⟨painted, heq, hrest⟩ := ih (x + 1) (by omega) pixel (by omega)
    rw [fillSpan, if_pos (by omega), hpixel, bind_eq_bind, bind_some,
      int64_eq (by omega) (by omega), bind_eq_bind, bind_some]
    refine ⟨painted, heq, (hpainted.trans hrest).congr fun a b => ?_⟩
    constructor
    · rintro ⟨⟨hlow, hhigh⟩, hrow, hin⟩
      by_cases hhere : (a.val : ℤ) = x
      · exact .inl ⟨hhere, hrow, hin⟩
      · exact .inr ⟨⟨by omega, hhigh⟩, hrow, hin⟩
    · rintro (⟨hhere, hrow, hin⟩ | ⟨⟨hlow, hhigh⟩, hrow, hin⟩)
      · exact ⟨⟨hhere.ge, by omega⟩, hrow, hin⟩
      · exact ⟨⟨by omega, hhigh⟩, hrow, hin⟩

/-- **The spans of a row.** -/
theorem fillSpans_painted (y : ℤ) (l : List ℤ) : ∀ surface : Surface sizeMax,
    (∀ value ∈ l, |value| ≤ 2 ^ 50) →
    ∃ painted, fillSpans clip y color l surface = some painted ∧
      Painted surface painted color fun a b =>
        Covered l (a * 65536) ∧ b = y ∧ clip.Inside a b := by
  induction l using EvenOdd.spans.induct with
  | case1 left right rest ih =>
    intro surface hbounds
    obtain ⟨first, hfirst, hnonneg, hleft⟩ := firstColumn_eq (hbounds left List.mem_cons_self)
    obtain ⟨last, hlast, hlt, hright⟩ := lastColumn_eq surface.width_lt
      (hbounds right (List.mem_cons_of_mem _ List.mem_cons_self))
    have hwidth := surface.width_lt
    obtain ⟨span, hspan, hpainted⟩ :=
      fillSpan_painted clip color y last first hnonneg (by omega) surface
    obtain ⟨painted, heq, hrest⟩ := ih span fun value hmem =>
      hbounds value (List.mem_cons_of_mem _ (List.mem_cons_of_mem _ hmem))
    rw [fillSpans, hfirst, hlast, bind_eq_bind, bind_some, bind_eq_bind,
      bind_some, hspan, bind_some]
    refine ⟨painted, heq, (hpainted.trans hrest).congr fun a b => ?_⟩
    have ha := a.isLt
    rw [EvenOdd.covered_cons, hleft a.val (by omega), hright a.val (by omega), or_and_right]
  | case2 l hshort =>
    intro surface _
    have hnone : ∀ x : ℤ, ¬ Covered l x := by
      rintro x ⟨span, hmem, -⟩
      rw [spans] at hmem
      · exact absurd hmem List.not_mem_nil
      · exact hshort
    refine ⟨surface, by rw [fillSpans]; exact hshort, ?_⟩
    exact (Painted.refl surface color).congr fun a b =>
      iff_of_false (fun h => hnone _ h.1) not_false

/-- **One row.** -/
theorem fillRow_painted (points : List Point) (y : ℤ) (hy : |y| ≤ 2 ^ 31)
    (surface : Surface sizeMax) :
    ∃ painted, fillRow clip points color y surface = some painted ∧
      Painted surface painted color fun a b => Filled points a b ∧ b = y ∧ clip.Inside a b := by
  have hclip := Line.isCoordinate clip.y
  rw [Line.IsCoordinate] at hclip
  rw [abs_le] at hy
  rw [fillRow, int64_eq (by omega) (by omega), bind_eq_bind, bind_some]
  split
  · rename_i hout
    refine ⟨surface, rfl, (Painted.refl surface color).congr fun a b => ?_⟩
    refine iff_of_false ?_ not_false
    rintro ⟨-, hrow, hin⟩
    rw [Clip.Inside] at hin
    omega
  · have hbounds : ∀ value ∈ sorted (((edges points).filter (crosses y)).map (fixed y)),
        |value| ≤ 2 ^ 50 := by
      intro value hmem
      obtain ⟨edge, hedge, rfl⟩ := List.mem_map.1 (List.mem_mergeSort.1 hmem)
      exact (intersection_eq (List.mem_filter.1 hedge).2).2
    obtain ⟨painted, heq, hpainted⟩ := fillSpans_painted clip color y _ surface hbounds
    rw [intersections_eq, bind_eq_bind, bind_some]
    refine ⟨painted, heq, hpainted.congr fun a b => ?_⟩
    rw [covered_iff_filled]
    constructor
    · rintro ⟨hfilled, hrow, hin⟩
      exact ⟨hrow ▸ hfilled, hrow, hin⟩
    · rintro ⟨hfilled, hrow, hin⟩
      exact ⟨hrow ▸ hfilled, hrow, hin⟩

/-- **The rows from `y` on.** -/
theorem fillRows_painted (points : List Point) (height y : ℤ) (hy : 0 ≤ y)
    (hheight : height < 2 ^ 31) (surface : Surface sizeMax) :
    ∃ painted, fillRows clip points color height y surface = some painted ∧
      Painted surface painted color fun a b =>
        (y ≤ b ∧ b < height) ∧ Filled points a b ∧ clip.Inside a b := by
  induction hcount : (height - y).toNat generalizing y surface with
  | zero =>
    rw [fillRows, if_neg (by omega)]
    refine ⟨surface, rfl, (Painted.refl surface color).congr fun a b => ?_⟩
    refine iff_of_false ?_ not_false
    rintro ⟨hrows, -, -⟩
    omega
  | succ count ih =>
    obtain ⟨row, hrow, hpainted⟩ := fillRow_painted clip color points y (by
      rw [abs_le]
      omega) surface
    obtain ⟨painted, heq, hrest⟩ := ih (y + 1) (by omega) row (by omega)
    rw [fillRows, if_pos (by omega), hrow, bind_eq_bind, bind_some,
      int32_eq (by omega) (by omega), bind_eq_bind, bind_some]
    refine ⟨painted, heq, (hpainted.trans hrest).congr fun a b => ?_⟩
    constructor
    · rintro ⟨⟨hlow, hhigh⟩, hfilled, hin⟩
      by_cases hhere : (b.val : ℤ) = y
      · exact .inl ⟨hfilled, hhere, hin⟩
      · exact .inr ⟨⟨by omega, hhigh⟩, hfilled, hin⟩
    · rintro (⟨hfilled, hhere, hin⟩ | ⟨⟨hlow, hhigh⟩, hfilled, hin⟩)
      · exact ⟨⟨hhere.ge, by omega⟩, hfilled, hin⟩
      · exact ⟨⟨by omega, hhigh⟩, hfilled, hin⟩

/-- **The outline.** -/
theorem surfacePolygon_painted (steps : List (Point × Point)) : ∀ surface : Surface sizeMax,
    ∃ painted, surfacePolygon clip color steps surface = some painted ∧
      Painted surface painted color fun a b =>
        (∃ edge ∈ steps, OnLine edge.1.toInt32 edge.2.toInt32 a b) ∧ clip.Inside a b := by
  induction steps with
  | nil =>
    intro surface
    refine ⟨surface, rfl, (Painted.refl surface color).congr fun a b => ?_⟩
    refine iff_of_false ?_ not_false
    rintro ⟨⟨edge, hmem, -⟩, -⟩
    exact absurd hmem List.not_mem_nil
  | cons edge rest ih =>
    intro surface
    obtain ⟨line, hline, hpainted⟩ :=
      Line.surfaceLine_painted clip surface edge.1.toInt32 edge.2.toInt32 color
    obtain ⟨painted, heq, hrest⟩ := ih line
    rw [surfacePolygon, hline, bind_eq_bind, bind_some]
    refine ⟨painted, heq, (hpainted.trans hrest).congr fun a b => ?_⟩
    constructor
    · rintro ⟨⟨other, hmem, hon⟩, hin⟩
      rcases List.mem_cons.1 hmem with rfl | hmem
      · exact .inl ⟨hon, hin⟩
      · exact .inr ⟨⟨other, hmem, hon⟩, hin⟩
    · rintro (⟨hon, hin⟩ | ⟨⟨other, hmem, hon⟩, hin⟩)
      · exact ⟨⟨edge, List.mem_cons_self, hon⟩, hin⟩
      · exact ⟨⟨other, List.mem_cons_of_mem _ hmem, hon⟩, hin⟩

end Painting

/-- **Filled polygons are exact.**  Of at least three points, the crossings collected on every
row are even in number, and their spans cover the pixels that the closed spans between the exact
crossings cover, which are those inside by the even-odd rule.  If the room for them can be had,
these pixels and the outline are painted, cut to the surface and the clip; otherwise nothing is.
No product and no sum leaves its type on the way. -/
theorem fillPolygon_paints (malloc : ℕ → Bool) (clip : Clip) (surface : Surface sizeMax)
    (points : List Point) (color : UInt16) (hpoints : 3 ≤ points.length) :
    (∀ y, ∃ used, intersections y (edges points) = some used ∧ Even used.length ∧
      ∀ x : ℤ, (Covered (sorted used) (x * 65536) ↔ Filled points x y) ∧
        (Filled points x y ↔ Inside (crossings points y) (x : ℚ))) ∧
    ∃ painted, fillPolygon malloc clip surface points color = some painted ∧
      if points.length ≤ sizeMax / 8 ∧ malloc (points.length * 8) = true then
        Painted surface painted color fun x y =>
          (Filled points x y ∨ Outline points x y) ∧ clip.Inside x y
      else painted = surface := by
  constructor
  · intro y
    refine ⟨_, intersections_eq y _, ?_, fun x =>
      ⟨covered_iff_filled points x y, filled_iff_inside points x y⟩⟩
    rw [List.length_map]
    exact even_crossings points y
  · rw [fillPolygon, if_neg (Nat.not_lt.2 hpoints)]
    by_cases hroom : points.length > sizeMax / 8
    · rw [if_pos hroom]
      exact ⟨surface, rfl, by rw [if_neg fun h => absurd hroom (Nat.not_lt.2 h.1)]⟩
    cases hmalloc : malloc (points.length * 8) with
    | false =>
      rw [if_neg hroom, Bool.not_false, if_pos rfl]
      exact ⟨surface, rfl, by rw [if_neg fun h => Bool.false_ne_true h.2]⟩
    | true =>
      have hheight := surface.height_lt
      obtain ⟨filled, hfilled, hrows⟩ := fillRows_painted clip color points surface.height 0
        (Int.le_refl 0) (by omega) surface
      obtain ⟨painted, heq, hlines⟩ := surfacePolygon_painted clip color (edges points) filled
      rw [if_neg hroom, Bool.not_true, if_neg Bool.false_ne_true, hfilled, bind_eq_bind,
        bind_some]
      refine ⟨painted, heq, ?_⟩
      rw [if_pos ⟨Nat.not_lt.1 hroom, rfl⟩]
      refine (hrows.trans hlines).congr fun x y => ?_
      have hy := y.isLt
      constructor
      · rintro ⟨hfilled | houtline, hin⟩
        · exact .inl ⟨⟨by omega, by omega⟩, hfilled, hin⟩
        · exact .inr ⟨houtline, hin⟩
      · rintro (⟨-, hfilled, hin⟩ | ⟨houtline, hin⟩)
        · exact ⟨.inl hfilled, hin⟩
        · exact ⟨.inr houtline, hin⟩

/-- An empty surface of 5 by 4 pixels. -/
def sampleSurface : Surface (2 ^ 32 - 1) :=
  ⟨5, 4, Array.replicate 20 0, none, by decide, by decide, by decide, by decide, by decide,
    by decide, by simp⟩

/-- A triangle that reaches over the left edge. -/
def sampleTriangle : List Point := [⟨-3, 0⟩, ⟨3, 1⟩, ⟨1, 3⟩]

theorem fillPolygon_paints_triangle :
    ∃ painted, fillPolygon (fun _ => true) ⟨0, 0, 5, 4⟩ sampleSurface sampleTriangle 7 =
        some painted ∧
      Painted sampleSurface painted 7 fun x y =>
        (Filled sampleTriangle x y ∨ Outline sampleTriangle x y) ∧
          (⟨0, 0, 5, 4⟩ : Clip).Inside x y := by
  obtain ⟨-, painted, heq, hpainted⟩ := fillPolygon_paints (fun _ => true) ⟨0, 0, 5, 4⟩
    sampleSurface sampleTriangle 7 (by decide)
  rw [if_pos (by decide)] at hpainted
  exact ⟨painted, heq, hpainted⟩

/-- The second row from column 3 on, and from a third of a column behind column -2 on. -/
example : intersections 1 (edges sampleTriangle) = some [196608, -109226] := by decide

end Polygon
