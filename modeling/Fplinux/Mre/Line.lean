/-
Lines of the guest's graphics (`native-graphics.inc`).

A line is walked along its longer axis, one pixel at a time, and only where that axis meets the
surface.  The other coordinate is computed anew at each pixel from the end where the walk of the
whole line would begin, so that what is not seen does not change what is.

Main results:
- `halfUp_div`: the division of the source rounds half up;
- `Raster.minorAt_eq`: no product and no sum on the way leaves its type;
- `paintFrom_painted`: what the walk paints, from any place on;
- `surfaceLine_paints`: what is painted is the ideal line, cut to the surface and the clip.
-/
import Mathlib.Data.Rat.Floor
import Fplinux.Lib.Checked

namespace Line

open Checked (int64 int64_eq uint64 uint64_eq)
open Option (bind_eq_bind bind_some map_some)

/-! ### Surfaces -/

/-- `struct pixel_surface`, as `graphics_surface` lets it through; `sizeMax` is `SIZE_MAX`. -/
@[ext]
structure Surface (sizeMax : ℕ) where
  width : ℕ
  height : ℕ
  pixels : Array UInt16
  alpha : Option (Array UInt8)
  width_pos : 0 < width
  height_pos : 0 < height
  width_lt : width < 2 ^ 31
  height_lt : height < 2 ^ 31
  width_le : width ≤ sizeMax / 2 / height
  pixels_size : pixels.size = width * height
  alpha_size : ∀ values ∈ alpha, values.size = width * height

/-- `app.clip_x` and the fields after it. -/
structure Clip where
  x : Int32
  y : Int32
  width : Int32
  height : Int32

variable {sizeMax : ℕ}

/-- A `size_t`. -/
def size (sizeMax value : ℕ) : Option ℕ := if value ≤ sizeMax then some value else none

/-- The two writes of `surface_pixel`; there is no pixel outside the buffers. -/
def Surface.write (surface : Surface sizeMax) (pixel : ℕ) (color : UInt16) :
    Option (Surface sizeMax) :=
  if pixel < surface.width * surface.height then
    some { surface with
      pixels := surface.pixels.setIfInBounds pixel color
      alpha := surface.alpha.map fun values => values.setIfInBounds pixel 255
      pixels_size := by rw [Array.size_setIfInBounds, surface.pixels_size]
      alpha_size := by
        intro values hvalues
        obtain ⟨before, hbefore, rfl⟩ := Option.map_eq_some_iff.1 hvalues
        rw [Array.size_setIfInBounds, surface.alpha_size before hbefore] }
  else none

def surfacePixel (clip : Clip) (surface : Surface sizeMax) (x y : ℤ) (color : UInt16) :
    Option (Surface sizeMax) :=
  if 0 ≤ x ∧ x < surface.width ∧ 0 ≤ y ∧ y < surface.height then do
    let right ← int64 (x - clip.x.toInt)
    let down ← int64 (y - clip.y.toInt)
    if clip.x.toInt ≤ x ∧ right < clip.width.toInt ∧
        clip.y.toInt ≤ y ∧ down < clip.height.toInt then do
      let row ← size sizeMax (y.toNat * surface.width)
      let pixel ← size sizeMax (row + x.toNat)
      surface.write pixel color
    else some surface
  else some surface

/-! ### Lines -/

/-- An end of a line. -/
structure Point where
  x : Int32
  y : Int32

/-- `(uint64_t)(d < 0 ? -d : d)`. -/
def magnitude (d : ℤ) : Option ℕ := (int64 (if d < 0 then -d else d)).map Int.toNat

/-- What `surface_line` knows of the line when its loop begins. -/
structure Raster where
  horizontal : Bool
  first : ℤ
  last : ℤ
  minorFirst : ℤ
  majorSpan : ℕ
  minorDelta : ℤ
  minorSpan : ℕ

/-- The spans of a line whose ends are in order. -/
def Raster.measure (horizontal : Bool) (first last minorFirst minorLast : ℤ) :
    Option Raster := do
  let majorSpan ← int64 (last - first)
  let minorDelta ← int64 (minorLast - minorFirst)
  let minorSpan ← magnitude minorDelta
  some ⟨horizontal, first, last, minorFirst, majorSpan.toNat, minorDelta, minorSpan⟩

/-- `surface_line` up to its loop: the longer axis, the order of the ends and the spans. -/
def arrange (p q : Point) : Option Raster := do
  let dx ← int64 (q.x.toInt - p.x.toInt)
  let dy ← int64 (q.y.toInt - p.y.toInt)
  let spanX ← magnitude dx
  let spanY ← magnitude dy
  let horizontal : Bool := spanX ≥ spanY
  let first := if horizontal then p.x.toInt else p.y.toInt
  let last := if horizontal then q.x.toInt else q.y.toInt
  let minorFirst := if horizontal then p.y.toInt else p.x.toInt
  let minorLast := if horizontal then q.y.toInt else q.x.toInt
  if first > last then Raster.measure horizontal last first minorLast minorFirst
  else Raster.measure horizontal first last minorFirst minorLast

/-- The `step` of the loop. -/
def stepAt (majorSpan minorSpan offset : ℕ) : Option ℕ :=
  if majorSpan ≠ 0 then do
    let product ← uint64 (offset * minorSpan)
    let rounded ← uint64 (product + majorSpan / 2)
    some (rounded / majorSpan)
  else some 0

/-- The coordinate across the longer axis, at `major` along it. -/
def Raster.minorAt (line : Raster) (major : ℤ) : Option ℤ := do
  let offset ← int64 (major - line.first)
  let step ← stepAt line.majorSpan line.minorSpan offset.toNat
  let signed ← int64 step
  let moved ← if line.minorDelta < 0 then int64 (-signed) else some signed
  int64 (line.minorFirst + moved)

/-- The loop of `surface_line`, from `major` on. -/
def paintFrom (clip : Clip) (line : Raster) (color : UInt16) (stop major : ℤ)
    (surface : Surface sizeMax) : Option (Surface sizeMax) :=
  if major ≤ stop then do
    let minor ← line.minorAt major
    let painted ← surfacePixel clip surface (if line.horizontal then major else minor)
      (if line.horizontal then minor else major) color
    let _ ← int64 (major + 1)
    paintFrom clip line color stop (major + 1) painted
  else some surface
termination_by (stop + 1 - major).toNat

def surfaceLine (clip : Clip) (surface : Surface sizeMax) (p q : Point) (color : UInt16) :
    Option (Surface sizeMax) := do
  let line ← arrange p q
  let limit : ℤ := if line.horizontal then surface.width else surface.height
  let start := if line.first > 0 then line.first else 0
  let stop := if line.last < limit - 1 then line.last else limit - 1
  paintFrom clip line color stop start surface

/-! ### The ideal line -/

/-- The nearest integer; of two, the upper one. -/
def halfUp (a : ℚ) : ℤ := ⌊a + 1 / 2⌋

/-- The pixels of a line over its longer axis, one for each place of that axis. -/
def OverAxis (first last minorFirst minorLast major minor : ℤ) : Prop :=
  first ≤ major ∧ major ≤ last ∧
    minor = minorFirst + (minorLast - minorFirst).sign *
      halfUp ((major - first) * |minorLast - minorFirst| / (last - first))

/-- The same for ends in either order. -/
def BetweenEnds (a b c d major minor : ℤ) : Prop :=
  if a ≤ b then OverAxis a b c d major minor else OverAxis b a d c major minor

/-- The pixels of the whole line, wherever they are. -/
def OnLine (p q : Point) (x y : ℤ) : Prop :=
  if |q.y.toInt - p.y.toInt| ≤ |q.x.toInt - p.x.toInt| then
    BetweenEnds p.x.toInt q.x.toInt p.y.toInt q.y.toInt x y
  else BetweenEnds p.y.toInt q.y.toInt p.x.toInt q.x.toInt y x

def Clip.Inside (clip : Clip) (x y : ℤ) : Prop :=
  clip.x.toInt ≤ x ∧ x < clip.x.toInt + clip.width.toInt ∧
    clip.y.toInt ≤ y ∧ y < clip.y.toInt + clip.height.toInt

/-- `painted` is `surface` with the pixels of a set in one colour, and nothing else changed. -/
structure Painted (surface painted : Surface sizeMax) (color : UInt16) (set : ℤ → ℤ → Prop) :
    Prop where
  width : painted.width = surface.width
  height : painted.height = surface.height
  hasAlpha : painted.alpha.isSome = surface.alpha.isSome
  inside : ∀ (x : Fin surface.width) (y : Fin surface.height), set x.val y.val →
    painted.pixels[y.val * surface.width + x.val]? = some color ∧
      painted.alpha.map (·[y.val * surface.width + x.val]?) = surface.alpha.map fun _ => some 255
  outside : ∀ (x : Fin surface.width) (y : Fin surface.height), ¬ set x.val y.val →
    painted.pixels[y.val * surface.width + x.val]? =
        surface.pixels[y.val * surface.width + x.val]? ∧
      painted.alpha.map (·[y.val * surface.width + x.val]?) =
        surface.alpha.map (·[y.val * surface.width + x.val]?)

/-! ### Rounding -/

theorem halfUp_div (a : ℕ) {m : ℕ} (hm : 0 < m) :
    halfUp ((a : ℚ) / m) = ((a + m / 2) / m : ℕ) := by
  have hposition := Nat.div_add_mod (a + m / 2) m
  have hmod := Nat.mod_lt (a + m / 2) hm
  set s := (a + m / 2) / m
  -- twice everything, so that half of an odd divisor is exact
  have hlow : 2 * (m * s) ≤ 2 * a + m := by omega
  have hhigh : 2 * a + m < 2 * (m * s) + 2 * m := by omega
  have hpos : (0 : ℚ) < m := by exact_mod_cast hm
  have hlow' : (2 : ℚ) * (m * s) ≤ 2 * a + m := by exact_mod_cast hlow
  have hhigh' : (2 : ℚ) * a + m < 2 * (m * s) + 2 * m := by exact_mod_cast hhigh
  have hsum : (a : ℚ) / m + 1 / 2 = (2 * a + m) / (2 * m) := by field_simp
  rw [halfUp, hsum, Int.floor_eq_iff]
  constructor
  · rw [le_div_iff₀ (by positivity), Int.cast_natCast]
    linarith
  · rw [div_lt_iff₀ (by positivity), Int.cast_natCast]
    linarith

theorem halfUp_zero : halfUp 0 = 0 := by
  rw [halfUp, Int.floor_eq_iff]
  norm_num

theorem stepAt_eq {majorSpan minorSpan offset : ℕ} (hoffset : offset ≤ majorSpan)
    (hminor : minorSpan ≤ majorSpan) (hmajor : majorSpan < 2 ^ 32) :
    ∃ step ≤ minorSpan, stepAt majorSpan minorSpan offset = some step ∧
      (step : ℤ) = halfUp ((offset * minorSpan : ℕ) / majorSpan) := by
  rw [stepAt]
  split
  · rename_i hne
    have hpos := Nat.pos_of_ne_zero hne
    have hmul := Nat.mul_le_mul_right minorSpan hoffset
    have hproduct : offset * minorSpan ≤ 4294967295 * 4294967295 :=
      Nat.mul_le_mul (by omega) (by omega)
    refine ⟨(offset * minorSpan + majorSpan / 2) / majorSpan, ?_, ?_, (halfUp_div _ hpos).symm⟩
    · rw [← Nat.lt_succ_iff, Nat.div_lt_iff_lt_mul hpos, Nat.succ_mul, Nat.mul_comm minorSpan]
      omega
    · rw [uint64_eq (by omega), bind_eq_bind, bind_some,
        uint64_eq (by omega), bind_some]
  · rename_i hzero
    refine ⟨0, Nat.zero_le _, rfl, ?_⟩
    rw [not_not.1 hzero]
    push_cast
    rw [div_zero, halfUp_zero]

/-! ### The arithmetic of a line -/

/-- A coordinate of an end. -/
def IsCoordinate (v : ℤ) : Prop := -2147483648 ≤ v ∧ v < 2147483648

theorem isCoordinate (v : Int32) : IsCoordinate v.toInt := ⟨v.le_toInt, v.toInt_lt⟩

/-- A line with its ends in order, as the loop takes it. -/
structure Ordered (first last minorFirst minorLast : ℤ) : Prop where
  coordinates : IsCoordinate first ∧ IsCoordinate last
  minorCoordinates : IsCoordinate minorFirst ∧ IsCoordinate minorLast
  le : first ≤ last
  major : |minorLast - minorFirst| ≤ last - first

/-- The line that `Raster.measure` finds. -/
@[reducible] def Raster.between (horizontal : Bool) (first last minorFirst minorLast : ℤ) :
    Raster where
  horizontal := horizontal
  first := first
  last := last
  minorFirst := minorFirst
  majorSpan := (last - first).toNat
  minorDelta := minorLast - minorFirst
  minorSpan := (minorLast - minorFirst).natAbs

theorem magnitude_eq {d : ℤ} (h : |d| ≤ 4294967295) : magnitude d = some d.natAbs := by
  have hbounds := abs_le.1 h
  rw [magnitude]
  split
  · rw [int64_eq (by omega) (by omega), map_some]
    congr 1
    omega
  · rw [int64_eq (by omega) (by omega), map_some]
    congr 1
    omega

variable {first last minorFirst minorLast : ℤ} {height width : ℕ}

theorem Raster.measure_eq (horizontal : Bool) (h : Ordered first last minorFirst minorLast) :
    Raster.measure horizontal first last minorFirst minorLast =
      some (Raster.between horizontal first last minorFirst minorLast) := by
  obtain ⟨⟨hf, hl⟩, ⟨hmf, hml⟩, hle, hmajor⟩ := h
  rw [IsCoordinate] at hf hl hmf hml
  have hbounds := abs_le.1 hmajor
  rw [Raster.measure, int64_eq (by omega) (by omega), bind_eq_bind, bind_some,
    int64_eq (by omega) (by omega), bind_eq_bind, bind_some,
    magnitude_eq (by omega)]
  rfl

/-- **No product and no sum leaves its type**, and the coordinate is that of the ideal line. -/
theorem Raster.minorAt_eq {major : ℤ} (horizontal : Bool)
    (h : Ordered first last minorFirst minorLast) (hlow : first ≤ major) (hhigh : major ≤ last) :
    (Raster.between horizontal first last minorFirst minorLast).minorAt major =
      some (minorFirst + (minorLast - minorFirst).sign *
        halfUp ((major - first) * |minorLast - minorFirst| / (last - first))) := by
  obtain ⟨⟨hf, hl⟩, ⟨hmf, hml⟩, hle, hmajor⟩ := h
  rw [IsCoordinate] at hf hl hmf hml
  have hbounds := abs_le.1 hmajor
  obtain ⟨step, hstep, heq, hround⟩ := @stepAt_eq (last - first).toNat
    (minorLast - minorFirst).natAbs (major - first).toNat (by omega) (by omega) (by omega)
  -- the spans of the source, as the differences of the ideal line
  have hideal : ((major : ℚ) - first) * (|minorLast - minorFirst| : ℤ) / (last - first) =
      ((major - first).toNat * (minorLast - minorFirst).natAbs : ℕ) / (last - first).toNat := by
    have hcast : ∀ d : ℤ, 0 ≤ d → (d : ℚ) = (d.toNat : ℕ) := by
      intro d hd
      rw [← Int.cast_natCast, Int.toNat_of_nonneg hd]
    rw [← Int.cast_sub, ← Int.cast_sub, Int.abs_eq_natAbs, hcast (major - first) (by omega),
      hcast (last - first) (by omega), Int.cast_natCast, Nat.cast_mul]
  rw [hideal, ← hround]
  simp only [Raster.minorAt]
  rw [int64_eq (by omega) (by omega), bind_eq_bind, bind_some, heq,
    bind_eq_bind, bind_some, int64_eq (by omega) (by omega),
    bind_some]
  by_cases hneg : minorLast - minorFirst < 0
  · rw [if_pos hneg, int64_eq (by omega) (by omega), bind_some,
      int64_eq (by omega) (by omega), Int.sign_eq_neg_one_of_neg hneg, Int.neg_one_mul]
  · rw [if_neg hneg, bind_some, int64_eq (by omega) (by omega)]
    congr 2
    rcases Int.lt_or_eq_of_le (not_lt.1 hneg) with hpos | hzero
    · rw [Int.sign_eq_one_of_pos hpos, Int.one_mul]
    · have hnone : step = 0 := by omega
      rw [hnone, Int.natCast_zero, Int.mul_zero]

theorem arrange_ends {a b c d : ℤ} (horizontal : Bool) (ha : IsCoordinate a) (hb : IsCoordinate b)
    (hc : IsCoordinate c) (hd : IsCoordinate d) (hmajor : |d - c| ≤ |b - a|) :
    ∃ first last minorFirst minorLast,
      (if a > b then Raster.measure horizontal b a d c else Raster.measure horizontal a b c d) =
        some (Raster.between horizontal first last minorFirst minorLast) ∧
      Ordered first last minorFirst minorLast ∧
      ∀ major minor, BetweenEnds a b c d major minor ↔
        OverAxis first last minorFirst minorLast major minor := by
  by_cases hab : a > b
  · rw [abs_sub_comm d c, abs_of_neg (by omega : b - a < 0)] at hmajor
    have hordered : Ordered b a d c := ⟨⟨hb, ha⟩, ⟨hd, hc⟩, by omega, by omega⟩
    refine ⟨b, a, d, c, ?_, hordered, ?_⟩
    · rw [if_pos hab, Raster.measure_eq horizontal hordered]
    · intro major minor
      rw [BetweenEnds, if_neg (by omega)]
  · rw [abs_of_nonneg (by omega : 0 ≤ b - a)] at hmajor
    have hordered : Ordered a b c d := ⟨⟨ha, hb⟩, ⟨hc, hd⟩, by omega, by omega⟩
    refine ⟨a, b, c, d, ?_, hordered, ?_⟩
    · rw [if_neg hab, Raster.measure_eq horizontal hordered]
    · intro major minor
      rw [BetweenEnds, if_pos (by omega)]

/-- The pixel of a place of the loop. -/
def Raster.OnRaster (horizontal : Bool) (first last minorFirst minorLast x y : ℤ) : Prop :=
  OverAxis first last minorFirst minorLast (if horizontal then x else y)
    (if horizontal then y else x)

theorem arrange_eq (p q : Point) :
    ∃ horizontal first last minorFirst minorLast,
      arrange p q = some (Raster.between horizontal first last minorFirst minorLast) ∧
      Ordered first last minorFirst minorLast ∧
      ∀ x y, OnLine p q x y ↔ Raster.OnRaster horizontal first last minorFirst minorLast x y := by
  have hpx := isCoordinate p.x
  have hpy := isCoordinate p.y
  have hqx := isCoordinate q.x
  have hqy := isCoordinate q.y
  have hdx : |q.x.toInt - p.x.toInt| ≤ 4294967295 := by
    rw [IsCoordinate] at hpx hqx
    exact abs_le.2 ⟨by omega, by omega⟩
  have hdy : |q.y.toInt - p.y.toInt| ≤ 4294967295 := by
    rw [IsCoordinate] at hpy hqy
    exact abs_le.2 ⟨by omega, by omega⟩
  have hx := abs_le.1 hdx
  have hy := abs_le.1 hdy
  have hint64x := int64_eq (by omega : -9223372036854775808 ≤ q.x.toInt - p.x.toInt)
    (by omega)
  have hint64y := int64_eq (by omega : -9223372036854775808 ≤ q.y.toInt - p.y.toInt)
    (by omega)
  simp only [arrange, hint64x, hint64y, magnitude_eq hdx, magnitude_eq hdy, bind_eq_bind,
    bind_some]
  by_cases haxis : |q.y.toInt - p.y.toInt| ≤ |q.x.toInt - p.x.toInt|
  · have hhorizontal : (q.x.toInt - p.x.toInt).natAbs ≥ (q.y.toInt - p.y.toInt).natAbs := by
      rw [Int.abs_eq_natAbs, Int.abs_eq_natAbs] at haxis
      omega
    obtain ⟨first, last, minorFirst, minorLast, heq, hordered, hends⟩ :=
      arrange_ends true hpx hqx hpy hqy haxis
    refine ⟨true, first, last, minorFirst, minorLast, ?_, hordered, ?_⟩
    · simp only [hhorizontal, decide_true, if_true]
      exact heq
    · intro x y
      rw [OnLine, if_pos haxis, hends]
      rfl
  · have hvertical : ¬ (q.x.toInt - p.x.toInt).natAbs ≥ (q.y.toInt - p.y.toInt).natAbs := by
      rw [Int.abs_eq_natAbs, Int.abs_eq_natAbs] at haxis
      omega
    obtain ⟨first, last, minorFirst, minorLast, heq, hordered, hends⟩ :=
      arrange_ends false hpy hqy hpx hqx (not_le.1 haxis).le
    refine ⟨false, first, last, minorFirst, minorLast, ?_, hordered, ?_⟩
    · simp only [hvertical, decide_false, Bool.false_eq_true, if_false]
      exact heq
    · intro x y
      rw [OnLine, if_neg haxis, hends]
      rfl

theorem onLine_comm (p q : Point) (x y : ℤ) : OnLine q p x y ↔ OnLine p q x y := by
  -- two ends at one place of the longer axis are the same point
  have hends : ∀ a b c d major minor : ℤ, |d - c| ≤ |b - a| →
      (BetweenEnds b a d c major minor ↔ BetweenEnds a b c d major minor) := by
    intro a b c d major minor hmajor
    rcases lt_trichotomy a b with hlt | rfl | hgt
    · rw [BetweenEnds, BetweenEnds, if_neg (by omega), if_pos (by omega)]
    · rw [sub_self, abs_zero] at hmajor
      have hcd : d = c := by
        have h := abs_nonpos_iff.1 hmajor
        omega
      rw [hcd]
    · rw [BetweenEnds, BetweenEnds, if_pos (by omega), if_neg (by omega)]
  rw [OnLine, OnLine, abs_sub_comm p.y.toInt, abs_sub_comm p.x.toInt]
  split
  · rename_i haxis
    exact hends _ _ _ _ x y haxis
  · rename_i haxis
    exact hends _ _ _ _ y x (not_le.1 haxis).le

/-! ### What is painted -/

theorem index_lt (x : Fin width) (y : Fin height) : y.val * width + x.val < width * height := by
  have hrow := Nat.mul_le_mul_right width (Nat.succ_le_of_lt y.isLt)
  have hx := x.isLt
  rw [Nat.succ_mul, Nat.mul_comm height] at hrow
  omega

theorem index_inj {x x' : Fin width} {y y' : Fin height}
    (h : y.val * width + x.val = y'.val * width + x'.val) : x = x' ∧ y = y' := by
  have hpos := Fin.pos x
  have hdiv : ∀ (a : Fin width) (b : Fin height), (b.val * width + a.val) / width = b.val := by
    intro a b
    rw [Nat.mul_comm, Nat.mul_add_div hpos, Nat.div_eq_of_lt a.isLt, Nat.add_zero]
  have hrow : y.val = y'.val := by rw [← hdiv x y, ← hdiv x' y', h]
  rw [hrow] at h
  exact ⟨Fin.ext (by omega), Fin.ext hrow⟩

theorem exists_place {index : ℕ} (h : index < width * height) :
    ∃ (x : Fin width) (y : Fin height), y.val * width + x.val = index := by
  have hpos : 0 < width := Nat.pos_of_mul_pos_right (Nat.zero_lt_of_lt h)
  refine ⟨⟨index % width, Nat.mod_lt _ hpos⟩, ⟨index / width, ?_⟩, ?_⟩
  · rwa [Nat.div_lt_iff_lt_mul hpos, Nat.mul_comm]
  · rw [Nat.mul_comm]
    exact Nat.div_add_mod index width

theorem map_const_of_isSome {α : Type} {a b : Option α} (h : a.isSome = b.isSome)
    {value : Option UInt8} : (a.map fun _ => value) = b.map fun _ => value := by
  cases a <;> cases b <;> first | rfl | cases h

namespace Painted

variable {surface painted further : Surface sizeMax} {color : UInt16} {set set' : ℤ → ℤ → Prop}

theorem congr (h : Painted surface painted color set)
    (hset : ∀ (x : Fin surface.width) (y : Fin surface.height),
      set' x.val y.val ↔ set x.val y.val) :
    Painted surface painted color set' where
  width := h.width
  height := h.height
  hasAlpha := h.hasAlpha
  inside x y hin := h.inside x y ((hset x y).1 hin)
  outside x y hout := h.outside x y fun hin => hout ((hset x y).2 hin)

theorem refl (surface : Surface sizeMax) (color : UInt16) :
    Painted surface surface color fun _ _ => False where
  width := rfl
  height := rfl
  hasAlpha := rfl
  inside _ _ hin := hin.elim
  outside _ _ _ := ⟨rfl, rfl⟩

theorem trans (h : Painted surface painted color set) (h' : Painted painted further color set') :
    Painted surface further color fun x y => set x y ∨ set' x y := by
  have hwidth := h.width
  have hheight := h.height
  have hasAlpha := h.hasAlpha
  obtain ⟨width, height, pixels, alpha, hpos, hpos', hlt, hlt', hle, hsize, halpha⟩ := painted
  dsimp only at hwidth hheight
  subst hwidth hheight
  refine ⟨h'.width, h'.height, h'.hasAlpha.trans hasAlpha, ?_, ?_⟩
  · intro x y hin
    by_cases hlater : set' x.val y.val
    · obtain ⟨hpixel, hvalue⟩ := h'.inside x y hlater
      exact ⟨hpixel, hvalue.trans (map_const_of_isSome hasAlpha)⟩
    · have hfirst := h.inside x y (hin.resolve_right hlater)
      obtain ⟨hpixel, hvalue⟩ := h'.outside x y hlater
      exact ⟨hpixel.trans hfirst.1, hvalue.trans hfirst.2⟩
  · intro x y hout
    obtain ⟨hfirst, hlater⟩ := not_or.1 hout
    have hbefore := h.outside x y hfirst
    obtain ⟨hpixel, hvalue⟩ := h'.outside x y hlater
    exact ⟨hpixel.trans hbefore.1, hvalue.trans hbefore.2⟩

theorem unique {other : Surface sizeMax} (h : Painted surface painted color set)
    (h' : Painted surface other color set) : painted = other := by
  have heq : ∀ (x : Fin surface.width) (y : Fin surface.height),
      painted.pixels[y.val * surface.width + x.val]? =
        other.pixels[y.val * surface.width + x.val]? ∧
      painted.alpha.map (·[y.val * surface.width + x.val]?) =
        other.alpha.map (·[y.val * surface.width + x.val]?) := by
    intro x y
    by_cases hin : set x.val y.val
    · have hp := h.inside x y hin
      have ho := h'.inside x y hin
      exact ⟨hp.1.trans ho.1.symm, hp.2.trans ho.2.symm⟩
    · have hp := h.outside x y hin
      have ho := h'.outside x y hin
      exact ⟨hp.1.trans ho.1.symm, hp.2.trans ho.2.symm⟩
  have hwidth : painted.width = other.width := h.width.trans h'.width.symm
  have hheight : painted.height = other.height := h.height.trans h'.height.symm
  have hasAlpha := h.hasAlpha.trans h'.hasAlpha.symm
  have hsize : painted.width * painted.height = surface.width * surface.height := by
    rw [h.width, h.height]
  have hsize' : other.width * other.height = surface.width * surface.height := by
    rw [h'.width, h'.height]
  refine Surface.ext hwidth hheight ?_ ?_
  · refine Array.ext (by rw [painted.pixels_size, other.pixels_size, hsize, hsize']) ?_
    intro index hindex hindex'
    rw [painted.pixels_size, hsize] at hindex
    obtain ⟨x, y, rfl⟩ := exists_place hindex
    have hpixel := (heq x y).1
    rwa [Array.getElem?_eq_getElem, Array.getElem?_eq_getElem, Option.some.injEq] at hpixel
  · have hpainted := painted.alpha_size
    have hother := other.alpha_size
    rw [hsize] at hpainted
    rw [hsize'] at hother
    revert hasAlpha heq hpainted hother
    cases painted.alpha with
    | none =>
      cases other.alpha with
      | none => exact fun _ _ _ _ => rfl
      | some values => exact fun _ h _ _ => nomatch h
    | some values =>
      cases other.alpha with
      | none => exact fun _ h _ _ => nomatch h
      | some values' =>
        intro heq _ hpainted hother
        have hlength := hpainted values rfl
        have hlength' := hother values' rfl
        congr 1
        refine Array.ext (hlength.trans hlength'.symm) ?_
        intro index hindex hindex'
        rw [hlength] at hindex
        obtain ⟨x, y, rfl⟩ := exists_place hindex
        have hvalue := (heq x y).2
        rwa [map_some, map_some, Array.getElem?_eq_getElem,
          Array.getElem?_eq_getElem, Option.some.injEq, Option.some.injEq] at hvalue

end Painted

theorem Surface.write_painted (surface : Surface sizeMax) (x : Fin surface.width)
    (y : Fin surface.height) (color : UInt16) :
    ∃ painted, surface.write (y.val * surface.width + x.val) color = some painted ∧
      Painted surface painted color fun a b => a = x.val ∧ b = y.val := by
  have hlt := index_lt x y
  rw [Surface.write, if_pos hlt]
  refine ⟨_, rfl, rfl, rfl, Option.isSome_map, ?_, ?_⟩
  · rintro x' y' ⟨hx, hy⟩
    have hx' : x' = x := Fin.ext (by exact_mod_cast hx)
    have hy' : y' = y := Fin.ext (by exact_mod_cast hy)
    subst hx' hy'
    constructor
    · rw [Array.getElem?_setIfInBounds_self_of_lt (by rwa [surface.pixels_size])]
    · rw [Option.map_map]
      refine Option.map_congr fun values hvalues => ?_
      exact Array.getElem?_setIfInBounds_self_of_lt
        (by rwa [surface.alpha_size values hvalues])
  · intro x' y' hne
    have hindex : y.val * surface.width + x.val ≠ y'.val * surface.width + x'.val := by
      intro heq
      obtain ⟨rfl, rfl⟩ := index_inj heq
      exact hne ⟨rfl, rfl⟩
    constructor
    · rw [Array.getElem?_setIfInBounds_ne hindex]
    · rw [Option.map_map]
      exact Option.map_congr fun values _ => Array.getElem?_setIfInBounds_ne hindex

theorem Surface.area_le (surface : Surface sizeMax) : surface.width * surface.height ≤ sizeMax := by
  have h := (Nat.le_div_iff_mul_le surface.height_pos).1 surface.width_le
  omega

theorem surfacePixel_painted (clip : Clip) (surface : Surface sizeMax) (x y : ℤ)
    (color : UInt16) :
    ∃ painted, surfacePixel clip surface x y color = some painted ∧
      Painted surface painted color fun a b => a = x ∧ b = y ∧ clip.Inside a b := by
  have hclipx := isCoordinate clip.x
  have hclipy := isCoordinate clip.y
  rw [IsCoordinate] at hclipx hclipy
  have hwidth := surface.width_lt
  have hheight := surface.height_lt
  rw [surfacePixel]
  split
  · rename_i hsurface
    rw [int64_eq (by omega) (by omega), bind_eq_bind, bind_some,
      int64_eq (by omega) (by omega), bind_eq_bind, bind_some]
    -- the place in the buffer of a pixel on the surface
    obtain ⟨column, rfl⟩ : ∃ column : Fin surface.width, x = column.val :=
      ⟨⟨x.toNat, by omega⟩, by simp [hsurface.1]⟩
    obtain ⟨row, rfl⟩ : ∃ row : Fin surface.height, y = row.val :=
      ⟨⟨y.toNat, by omega⟩, by simp [hsurface.2.2.1]⟩
    split
    · rename_i hclip
      have hindex := index_lt column row
      have harea := surface.area_le
      rw [Int.toNat_natCast, Int.toNat_natCast, size, if_pos (by omega), bind_some, size,
        if_pos (by omega), bind_some]
      obtain ⟨painted, heq, hpainted⟩ := surface.write_painted column row color
      refine ⟨painted, heq, hpainted.congr fun a b => ?_⟩
      constructor
      · rintro ⟨ha, hb, -⟩
        exact ⟨ha, hb⟩
      · rintro ⟨ha, hb⟩
        refine ⟨ha, hb, ?_⟩
        rw [ha, hb, Clip.Inside]
        omega
    · rename_i hclip
      refine ⟨surface, rfl, (Painted.refl surface color).congr fun a b => ?_⟩
      refine iff_of_false ?_ not_false
      rintro ⟨ha, hb, hinside⟩
      rw [ha, hb, Clip.Inside] at hinside
      omega
  · rename_i hsurface
    refine ⟨surface, rfl, (Painted.refl surface color).congr fun a b => ?_⟩
    refine iff_of_false ?_ not_false
    rintro ⟨ha, hb, -⟩
    have hcolumn := a.isLt
    have hrow := b.isLt
    omega

/-! ### The loop -/

/-- Where a pixel stands on the longer axis. -/
def major (horizontal : Bool) (x y : ℤ) : ℤ := if horizontal then x else y

theorem onRaster_at {place x y : ℤ} (horizontal : Bool) (hlow : first ≤ place)
    (hhigh : place ≤ last) :
    (major horizontal x y = place ∧
        Raster.OnRaster horizontal first last minorFirst minorLast x y) ↔
      x = (if horizontal then place else minorFirst + (minorLast - minorFirst).sign *
        halfUp ((place - first) * |minorLast - minorFirst| / (last - first))) ∧
      y = if horizontal then minorFirst + (minorLast - minorFirst).sign *
        halfUp ((place - first) * |minorLast - minorFirst| / (last - first)) else place := by
  cases horizontal with
  | true =>
    constructor
    · rintro ⟨rfl, -, -, hminor⟩
      exact ⟨rfl, hminor⟩
    · rintro ⟨rfl, rfl⟩
      exact ⟨rfl, hlow, hhigh, rfl⟩
  | false =>
    constructor
    · rintro ⟨rfl, -, -, hminor⟩
      exact ⟨hminor, rfl⟩
    · rintro ⟨rfl, rfl⟩
      exact ⟨rfl, hlow, hhigh, rfl⟩

/-- **What the loop paints from `start` on**: the line's pixels up to `stop`, inside the clip. -/
theorem paintFrom_painted (clip : Clip) (horizontal : Bool) (color : UInt16)
    (h : Ordered first last minorFirst minorLast) (stop start : ℤ) (hstop : stop ≤ last)
    (hstart : first ≤ start) (surface : Surface sizeMax) :
    ∃ painted,
      paintFrom clip (Raster.between horizontal first last minorFirst minorLast) color stop start
        surface = some painted ∧
      Painted surface painted color fun x y =>
        (start ≤ major horizontal x y ∧ major horizontal x y ≤ stop) ∧
          Raster.OnRaster horizontal first last minorFirst minorLast x y ∧ clip.Inside x y := by
  induction hcount : (stop + 1 - start).toNat generalizing start surface with
  | zero =>
    rw [paintFrom, if_neg (by omega)]
    refine ⟨surface, rfl, (Painted.refl surface color).congr fun x y => ?_⟩
    refine iff_of_false ?_ not_false
    rintro ⟨⟨hlow, hhigh⟩, -, -⟩
    omega
  | succ count ih =>
    have hlast := h.coordinates.2
    have hfirst := h.coordinates.1
    rw [IsCoordinate] at hfirst hlast
    rw [paintFrom, if_pos (by omega), Raster.minorAt_eq horizontal h hstart (by omega),
      bind_eq_bind, bind_some]
    obtain ⟨pixel, hpixel, hpainted⟩ := surfacePixel_painted clip surface _ _ color
    rw [hpixel, bind_eq_bind, bind_some, int64_eq (by omega) (by omega),
      bind_some]
    obtain ⟨painted, heq, hrest⟩ := ih (start + 1) (by omega) pixel (by omega)
    refine ⟨painted, heq, (hpainted.trans hrest).congr fun x y => ?_⟩
    -- the place `start` has one pixel, the rest is what the loop still paints
    constructor
    · rintro ⟨⟨hlow, hhigh⟩, hon, hin⟩
      by_cases hplace : major horizontal x.val y.val = start
      · obtain ⟨hx, hy⟩ := (onRaster_at horizontal hstart (by omega)).1 ⟨hplace, hon⟩
        exact Or.inl ⟨hx, hy, hin⟩
      · exact Or.inr ⟨⟨by omega, hhigh⟩, hon, hin⟩
    · rintro (⟨hx, hy, hin⟩ | ⟨⟨hlow, hhigh⟩, hon, hin⟩)
      · obtain ⟨hplace, hon⟩ := (onRaster_at horizontal hstart (by omega)).2 ⟨hx, hy⟩
        exact ⟨⟨hplace.ge, by omega⟩, hon, hin⟩
      · exact ⟨⟨by omega, hhigh⟩, hon, hin⟩

theorem surfaceLine_painted (clip : Clip) (surface : Surface sizeMax) (p q : Point)
    (color : UInt16) :
    ∃ painted, surfaceLine clip surface p q color = some painted ∧
      Painted surface painted color fun x y => OnLine p q x y ∧ clip.Inside x y := by
  obtain ⟨horizontal, first, last, minorFirst, minorLast, harrange, hordered, honLine⟩ :=
    arrange_eq p q
  rw [surfaceLine, harrange, bind_eq_bind, bind_some]
  obtain ⟨painted, heq, hpainted⟩ := paintFrom_painted clip horizontal color hordered
    (if last < (if horizontal then (surface.width : ℤ) else surface.height) - 1 then last
      else (if horizontal then (surface.width : ℤ) else surface.height) - 1)
    (if first > 0 then first else 0) (by split <;> omega) (by split <;> omega) surface
  refine ⟨painted, heq, hpainted.congr fun x y => ?_⟩
  rw [honLine]
  constructor
  · rintro ⟨hon, hin⟩
    refine ⟨?_, hon, hin⟩
    -- a pixel of the line that is on the surface stands where the loop goes
    have hx := x.isLt
    have hy := y.isLt
    obtain ⟨hlow, hhigh, -⟩ := hon
    cases horizontal with
    | true =>
      simp only [major, if_true] at hlow hhigh ⊢
      constructor <;> split <;> omega
    | false =>
      simp only [major, Bool.false_eq_true, if_false] at hlow hhigh ⊢
      constructor <;> split <;> omega
  · rintro ⟨-, hon, hin⟩
    exact ⟨hon, hin⟩

/-- **A line is the ideal line, cut to the surface and the clip**, whichever of its ends comes
first; and no product and no sum leaves its type on the way. -/
theorem surfaceLine_paints (clip : Clip) (surface : Surface sizeMax) (p q : Point)
    (color : UInt16) :
    ∃ painted, surfaceLine clip surface p q color = some painted ∧
      surfaceLine clip surface q p color = some painted ∧
      Painted surface painted color fun x y => OnLine p q x y ∧ clip.Inside x y := by
  obtain ⟨painted, heq, hpainted⟩ := surfaceLine_painted clip surface p q color
  obtain ⟨other, heq', hother⟩ := surfaceLine_painted clip surface q p color
  have hsame : painted = other :=
    hpainted.unique (hother.congr fun x y => by rw [onLine_comm])
  exact ⟨painted, heq, hsame ▸ heq', hpainted⟩

/-- An empty surface of 3 by 2 pixels, and a line through it between the ends of `int32_t`. -/
example :
    (surfaceLine ⟨0, 0, 3, 2⟩
      (⟨3, 2, Array.replicate 6 0, none, by decide, by decide, by decide, by decide, by decide,
        by decide, by simp⟩ : Surface (2 ^ 32 - 1))
      ⟨-2147483648, -1⟩ ⟨2147483647, 2⟩ 7).map (·.pixels) = some #[0, 0, 0, 7, 7, 7] := by
  decide +kernel

end Line
