/-
Colour keys of decoded images (`gif-image.c`, `resize-image.c`, `set_transparent_color` of
`image-decode.c`).

Fully transparent pixels get an RGB565 colour that no other pixel has.  A GIF's key is outside
its palette, less the transparent entry; a PNG's key is outside the colours of its pixels.  The
GIF library is a parameter: the contexts that it shows and the calls of `render_indexed`.

Main results:
- `isUsed_foldl`: the bitmap of a PNG's colours;
- `renderIndexed_drawn`: opaque pixels have colours of the palette;
- `searchKey_eq_some`: the search for a GIF's key ends;
- `color_keys_separate`: the keys tell transparent pixels from the others.
-/
import Mathlib.Data.List.Nodup
import Mathlib.Data.List.Perm.Subperm
import Mathlib.Data.Nat.Bitwise
import Mathlib.Data.Nat.Find
import Fplinux.Lib.Guards

namespace ColorKey

/-- `rgb565` of three bytes. -/
def rgb565 (bytes : List UInt8) (offset : ℕ) : UInt16 :=
  ((bytes.getD offset 0 >>> 3).toUInt16 <<< 11) |||
    ((bytes.getD (offset + 1) 0 >>> 2).toUInt16 <<< 5) |||
    (bytes.getD (offset + 2) 0 >>> 3).toUInt16

/-- The loop that gives the pixels without opacity their colour. -/
def keyed (pixels : List UInt16) (opacity : List UInt8) (key : UInt16) : List UInt16 :=
  List.zipWith (fun pixel shown => if shown = 0 then key else pixel) pixels opacity

/-! ### PNG images -/

structure Budget where
  used : ℕ
  limit : ℕ

/-- `struct mre_image`; the arrays have an entry for each pixel. -/
structure PngImage where
  width : ℕ
  height : ℕ
  pixels : List UInt16
  alpha : List UInt8
  transparentColor : UInt16
  hasTransparency : Bool
  hasPartialAlpha : Bool

abbrev PngImage.count (image : PngImage) : ℕ := image.width * image.height

def reserveBytes (budget : Budget) (bytes : ℕ) : Option Budget :=
  if bytes > budget.limit - budget.used then none
  else some { budget with used := budget.used + bytes }

/-- A colour's bit in the bitmap of used colours. -/
def mark (used : ℕ → ℕ) (color : UInt16) : ℕ → ℕ :=
  Function.update used (color.toNat / 8) (used (color.toNat / 8) ||| 1 <<< (color.toNat % 8))

def isUsed (used : ℕ → ℕ) (color : UInt16) : Bool :=
  used (color.toNat / 8) &&& 1 <<< (color.toNat % 8) ≠ 0

/-- The loop that fills the bitmap. -/
def markShown (pixels : List UInt16) (alpha : List UInt8) (used : ℕ → ℕ) (i : ℕ) : ℕ → ℕ :=
  if alpha.getD i 0 ≠ 0 then mark used (pixels.getD i 0) else used

/-- The colours in the order of the search. -/
def candidates : List UInt16 :=
  (List.range 65536).map fun candidate => 0xf81f + UInt16.ofNat candidate

/-- `set_transparent_color`: its result, the image and the budget; `calloc` says whether the
bitmap is allocated. -/
def setTransparentColor (calloc : Bool) (image : PngImage) (budget : Budget) :
    Except String Unit × PngImage × Budget :=
  let image :=
    { image with
      hasTransparency := image.hasTransparency || image.alpha.any (· < 255)
      hasPartialAlpha := image.hasPartialAlpha || image.alpha.any fun a => a ≠ 0 ∧ a < 255 }
  if !image.alpha.any (· = 0) then (.ok (), image, budget)
  else
    match reserveBytes budget (65536 / 8) with
    | none => (.error "PNG color key exceeds working limit", image, budget)
    | some reserved =>
      if !calloc then (.error "Cannot allocate PNG color key map", image, reserved)
      else
        let used := (List.range (image.count)).foldl
          (markShown image.pixels image.alpha) fun _ => 0
        match candidates.find? fun color => !isUsed used color with
        | none => (.error "PNG has no unused RGB565 color key", image, budget)
        | some color =>
          (.ok (), { image with
            transparentColor := color
            pixels := keyed image.pixels image.alpha color }, budget)

/-! ### GIF images -/

/-- What is read of a `GIF_Context`. -/
structure Decoder where
  canvasW : ℕ
  canvasH : ℕ
  fw : ℕ
  fh : ℕ
  bgRgb : List UInt8
  apal : List UInt8
  apalN : ℕ
  transparentIndex : ℤ

/-- The arguments of `render_indexed`; `none` is a null pointer. -/
structure Blit where
  x : ℤ
  y : ℤ
  width : ℤ
  height : ℤ
  indices : Option (List UInt8)
  stride : ℤ
  palette : Option (List UInt8)
  paletteColors : ℤ
  transparentIndex : ℤ
  hasTransparency : Bool

/-- `struct mre_gif_image`. -/
structure Image where
  width : ℕ
  height : ℕ
  pixels : List UInt16
  opacity : List UInt8
  transparentIndex : UInt8
  transparentColor : UInt16
  hasTransparency : Bool

abbrev Image.count (image : Image) : ℕ := image.width * image.height

/-- `struct image_renderer`. -/
structure Renderer where
  image : Image
  renderedPixels : ℕ
  initialized : Bool
  invalid : Bool

/-- The arguments that `render_indexed` takes. -/
def admits (image : Image) (blit : Blit) : Bool :=
  1 ≤ blit.paletteColors ∧ blit.paletteColors ≤ 256 ∧ 0 ≤ blit.x ∧ 0 ≤ blit.y ∧
    0 < blit.width ∧ 0 < blit.height ∧ blit.x ≤ image.width ∧ blit.y ≤ image.height ∧
    blit.width ≤ image.width - blit.x ∧ blit.height ≤ image.height - blit.y ∧
    blit.width ≤ blit.stride

/-- The first call fills the image with the background. -/
def fill (decoder : Decoder) (blit : Blit) (image : Image) : Image :=
  { image with
    hasTransparency := blit.hasTransparency
    transparentIndex := UInt8.ofNat (blit.transparentIndex % 256).toNat
    pixels := List.replicate (image.count) (rgb565 decoder.bgRgb 0)
    opacity := List.replicate (image.count) (if blit.hasTransparency then 0 else 1) }

/-- The loop over the rows and columns of a call, and whether every index was valid. -/
def paint (blit : Blit) (indices palette : List UInt8) : List (ℕ × ℕ) → Image → Image × Bool
  | [], image => (image, true)
  | (row, column) :: rest, image =>
    let index := (indices.getD (row * blit.stride.toNat + column) 0).toNat
    let pixel := (blit.y.toNat + row) * image.width + blit.x.toNat + column
    if blit.hasTransparency ∧ index = blit.transparentIndex then
      paint blit indices palette rest { image with opacity := image.opacity.set pixel 0 }
    else if index < blit.paletteColors then
      paint blit indices palette rest
        { image with
          pixels := image.pixels.set pixel (rgb565 palette (index * 3))
          opacity := image.opacity.set pixel 1 }
    else (image, false)

def renderIndexed (renderer : Renderer) (call : Decoder × Blit) : Renderer :=
  let (decoder, blit) := call
  if renderer.invalid then renderer
  else
    match blit.indices, blit.palette with
    | some indices, some palette =>
      if !admits renderer.image blit then { renderer with invalid := true }
      else
        let image := if renderer.initialized then renderer.image else fill decoder blit renderer.image
        let cells := (List.range blit.height.toNat).flatMap fun row =>
          (List.range blit.width.toNat).map fun column => (row, column)
        let (image, valid) := paint blit indices palette cells image
        if valid then
          { image := image, initialized := true, invalid := false,
            renderedPixels := renderer.renderedPixels + blit.width.toNat * blit.height.toNat }
        else { renderer with image := image, initialized := true, invalid := true }
    | _, _ => { renderer with invalid := true }

/-- `unused_transparent_color` from a candidate on, which wraps after 65535; `none` when so
many candidates do not do. -/
def searchKey (decoder : Decoder) : ℕ → UInt16 → Option UInt16
  | 0, _ => none
  | fuel + 1, candidate =>
    if (List.range decoder.apalN).any fun i =>
        (i : ℤ) ≠ decoder.transparentIndex ∧ rgb565 decoder.apal (i * 3) = candidate then
      searchKey decoder fuel (candidate + 1)
    else some candidate

/-- A run of `gif_next_frame_render`: the calls of the renderer with the context that they
see, the result and the context after. -/
structure Frame where
  calls : List (Decoder × Blit)
  result : Except String Unit
  after : Decoder

/-- The GIF library: `gif_init` and `gif_next_frame_render`. -/
structure Library where
  init : List UInt8 → Except String Decoder
  nextFrame : Decoder → Frame

/-- The renderer after the calls of a frame. -/
def render (decoder : Decoder) (frame : Frame) : Renderer :=
  let image : Image :=
    { width := decoder.canvasW, height := decoder.canvasH, pixels := [], opacity := []
      transparentIndex := 0, transparentColor := 0, hasTransparency := false }
  frame.calls.foldl renderIndexed
    { image := image, renderedPixels := 0, initialized := false, invalid := false }

/-- `mre_gif_decode` up to the choice of the key. -/
def firstFrame (library : Library) (scratch buffers : Bool) (data : List UInt8) :
    Except String (Image × Decoder) := do
  if data.length < 13 ∨ data.length > 4 * 1024 * 1024 then throw "Invalid GIF input size"
  if !scratch then throw "Cannot allocate GIF scratch buffer"
  let decoder ← library.init data
  if decoder.canvasW > 2048 ∨ decoder.canvasH > 512 then
    throw "GIF dimensions exceed bounded 1024x512 canvas"
  let count := decoder.canvasW * decoder.canvasH
  if count = 0 ∨ count > 262144 then throw "Invalid GIF pixel count"
  if !buffers then throw "Cannot allocate GIF image buffers"
  let frame := library.nextFrame decoder
  let renderer := render decoder frame
  let rendered := renderer.renderedPixels
  let expected := frame.after.fw * frame.after.fh
  frame.result.mapError fun text => s!"{text} (rendered={rendered} expected={expected})"
  if renderer.invalid ∨ !renderer.initialized ∨ rendered ≠ expected then
    throw "Incomplete or invalid GIF first frame"
  pure (renderer.image, frame.after)

/-- The key and the pixels that get it. -/
def finish (image : Image) (key : UInt16) : Image :=
  { image with
    transparentColor := key
    pixels := keyed image.pixels image.opacity key }

/-- `mre_gif_decode`; `none` while the search for a key has not ended. -/
def mreGifDecode (library : Library) (scratch buffers : Bool) (fuel : ℕ)
    (data : List UInt8) : Option (Except String Image) :=
  match firstFrame library scratch buffers data with
  | .error text => some (.error text)
  | .ok (image, decoder) =>
    if image.hasTransparency then
      (searchKey decoder fuel 0xf81f).map fun key => .ok (finish image key)
    else some (.ok (finish image 0xffff))

/-- The source of a pixel of the resized image, `destination = y * width + x`. -/
def source (image : Image) (width height destination : ℕ) : ℕ :=
  destination / width * image.height / height * image.width +
    destination % width * image.width / width

def mreGifResize (allocates : Bool) (image : Image) (width height : ℤ) : Option Image :=
  if image.width = 0 ∨ image.height = 0 ∨ width ≤ 0 ∨ height ≤ 0 ∨ width > 512 ∨ height > 512 then
    none
  else if width = image.width ∧ height = image.height then some image
  else if !allocates then none
  else
    let (width, height) := (width.toNat, height.toNat)
    let sources := (List.range (width * height)).map (source image width height)
    some
      { image with
        width := width
        height := height
        pixels := sources.map fun s => image.pixels.getD s 0
        opacity := sources.map fun s => image.opacity.getD s 0 }

/-! ### Keys -/

/-- The key is the colour of the pixels without opacity, and of no other. -/
structure Separates (count : ℕ) (pixels : List UInt16) (opacity : List UInt8) (key : UInt16) :
    Prop where
  pixels_length : pixels.length = count
  opacity_length : opacity.length = count
  key_iff : ∀ i < count, pixels.getD i 0 = key ↔ opacity.getD i 0 = 0

variable {count : ℕ} {pixels : List UInt16} {opacity : List UInt8} {key color : UInt16}

theorem getD_keyed (hpixels : pixels.length = count) (hopacity : opacity.length = count) {i : ℕ}
    (hi : i < count) : (keyed pixels opacity key).getD i 0 =
      if opacity.getD i 0 = 0 then key else pixels.getD i 0 := by
  have hp : i < pixels.length := by omega
  have ho : i < opacity.length := by omega
  rw [keyed, List.getD_eq_getElem?_getD, List.getElem?_zipWith, List.getD_eq_getElem?_getD,
    List.getD_eq_getElem?_getD, List.getElem?_eq_getElem hp, List.getElem?_eq_getElem ho]
  rfl

/-- The key separates, and the pixels with opacity are as before. -/
structure Recolored (count : ℕ) (before after : List UInt16) (opacity : List UInt8)
    (key : UInt16) : Prop extends Separates count after opacity key where
  kept : ∀ i < count, opacity.getD i 0 ≠ 0 → after.getD i 0 = before.getD i 0

/-- **A colour that no shown pixel has** separates. -/
theorem keyed_recolored (hpixels : pixels.length = count) (hopacity : opacity.length = count)
    (hfree : ∀ i < count, opacity.getD i 0 ≠ 0 → pixels.getD i 0 ≠ key) :
    Recolored count pixels (keyed pixels opacity key) opacity key where
  pixels_length := by rw [keyed, List.length_zipWith, hpixels, hopacity, Nat.min_self]
  opacity_length := hopacity
  key_iff i hi := by
    rw [getD_keyed hpixels hopacity hi]
    split_ifs with hzero
    · exact iff_of_true rfl hzero
    · exact iff_of_false (hfree i hi hzero) hzero
  kept i hi hshown := by rw [getD_keyed hpixels hopacity hi, if_neg hshown]

/-! ### The key of a PNG -/

theorem isUsed_eq (used : ℕ → ℕ) (color : UInt16) :
    isUsed used color = (used (color.toNat / 8)).testBit (color.toNat % 8) := by
  rw [isUsed, Nat.one_shiftLeft, Nat.and_two_pow]
  have hpos := Nat.two_pow_pos (color.toNat % 8)
  cases (used (color.toNat / 8)).testBit (color.toNat % 8) <;> simp

theorem isUsed_mark (used : ℕ → ℕ) (other : UInt16) :
    isUsed (mark used other) color = true ↔ isUsed used color = true ∨ other = color := by
  have hcell : other = color ↔ color.toNat / 8 = other.toNat / 8 ∧
      other.toNat % 8 = color.toNat % 8 := by
    rw [← UInt16.toNat_inj]
    omega
  rw [mark, isUsed_eq, isUsed_eq, hcell, Function.update_apply]
  by_cases hbyte : color.toNat / 8 = other.toNat / 8
  · rw [if_pos hbyte, Nat.testBit_or, Nat.one_shiftLeft, Nat.testBit_two_pow, hbyte]
    simp
  · simp [hbyte]

/-- **The bitmap** holds the colours of the pixels that are shown. -/
theorem isUsed_foldl (used : ℕ → ℕ) (indices : List ℕ) :
    isUsed (indices.foldl (markShown pixels opacity) used) color = true ↔
      isUsed used color = true ∨
        ∃ i ∈ indices, opacity.getD i 0 ≠ 0 ∧ pixels.getD i 0 = color := by
  induction indices generalizing used with
  | nil => simp
  | cons i indices ih =>
    rw [List.foldl_cons, ih, List.exists_mem_cons_iff, markShown, ← or_assoc]
    split_ifs with hshown
    · rw [isUsed_mark, and_iff_right hshown]
    · have hhidden : ¬ (opacity.getD i 0 ≠ 0 ∧ pixels.getD i 0 = color) := fun h => hshown h.1
      simp only [hhidden, or_false]

theorem isUsed_range (count : ℕ) :
    isUsed ((List.range count).foldl (markShown pixels opacity) fun _ => 0) color = true ↔
      ∃ i < count, opacity.getD i 0 ≠ 0 ∧ pixels.getD i 0 = color := by
  have hnone : isUsed (fun _ => 0) color = false := by
    rw [isUsed_eq, Nat.zero_testBit]
  rw [isUsed_foldl, hnone]
  simp only [Bool.false_eq_true, false_or, List.mem_range]

theorem mem_candidates (color : UInt16) : color ∈ candidates := by
  refine List.mem_map.mpr ⟨(color - 0xf81f).toNat, ?_, ?_⟩
  · exact List.mem_range.mpr (color - 0xf81f).toNat_lt
  · rw [UInt16.ofNat_toNat, UInt16.add_comm, UInt16.sub_add_cancel]

section Png

variable {image image' : PngImage} {budget budget' : Budget} {calloc : Bool}

theorem setTransparentColor_ok (hpixels : image.pixels.length = image.count)
    (halpha : image.alpha.length = image.count)
    (hzero : ∃ i < image.count, image.alpha.getD i 0 = 0)
    (h : setTransparentColor calloc image budget = (.ok (), image', budget')) :
    Recolored (image.count) image.pixels image'.pixels image.alpha
      image'.transparentColor ∧ image'.alpha = image.alpha := by
  have hany : image.alpha.any (· = 0) = true := by
    obtain ⟨i, hi, hzero⟩ := hzero
    rw [List.getD_eq_getElem _ _ (halpha ▸ hi)] at hzero
    exact List.any_eq_true.mpr ⟨_, List.getElem_mem (halpha ▸ hi), decide_eq_true hzero⟩
  rw [setTransparentColor, hany] at h
  simp only [Bool.not_true, Bool.false_eq_true, if_false] at h
  split at h
  · cases h
  split_ifs at h
  · cases h
  split at h
  · cases h
  · rename_i color hfind
    simp only [Prod.mk.injEq, true_and] at h
    obtain ⟨rfl, -⟩ := h
    have hfree := List.find?_some hfind
    rw [Bool.not_eq_true', Bool.eq_false_iff] at hfree
    refine ⟨keyed_recolored hpixels halpha fun i hi hshown heq => ?_, rfl⟩
    exact hfree ((isUsed_range _).mpr ⟨i, hi, hshown, heq⟩)

theorem setTransparentColor_error
    (h : (setTransparentColor calloc image budget).1 =
      .error "PNG has no unused RGB565 color key") (color : UInt16) :
    ∃ i < image.count, image.alpha.getD i 0 ≠ 0 ∧ image.pixels.getD i 0 = color := by
  rw [setTransparentColor] at h
  dsimp only at h
  split at h
  · cases h
  split at h
  · simp at h
  split at h
  · simp at h
  split at h
  · rename_i hfind
    have hused := List.find?_eq_none.mp hfind color (mem_candidates color)
    rw [Bool.not_eq_true, Bool.not_eq_false'] at hused
    exact (isUsed_range _).mp hused
  · cases h

end Png

/-! ### The key of a GIF -/

section Gif

variable {active decoder : Decoder} {blit : Blit} {image : Image} {indices : List UInt8}

/-- A colour of the palette that is not the transparent entry's. -/
def InPalette (active : Decoder) (color : UInt16) : Prop :=
  ∃ k < active.apalN, (k : ℤ) ≠ active.transparentIndex ∧ rgb565 active.apal (k * 3) = color

/-- An image between two calls: what is shown has a colour of the palette. -/
structure Painted (active : Decoder) (image : Image) : Prop where
  pixels_length : image.pixels.length = image.count
  opacity_length : image.opacity.length = image.count
  shown : ∀ i < image.count, image.opacity.getD i 0 ≠ 0 →
    InPalette active (image.pixels.getD i 0)

/-- The call has the active palette and its transparent entry. -/
structure Active (active : Decoder) (blit : Blit) : Prop where
  palette : blit.palette = some active.apal
  colors : blit.paletteColors = active.apalN
  transparent : blit.transparentIndex = active.transparentIndex

theorem getD_set {α : Type*} (l : List α) (p i : ℕ) (a d : α) :
    (l.set p a).getD i d = if p = i ∧ i < l.length then a else l.getD i d := by
  rw [List.getD_eq_getElem?_getD, List.getD_eq_getElem?_getD, List.getElem?_set]
  split_ifs with h1 h2 h3 h3 h3
  all_goals first | rfl | simp_all

theorem fill_painted (ht : blit.hasTransparency = true) (image : Image) :
    Painted active (fill decoder blit image) where
  pixels_length := List.length_replicate
  opacity_length := List.length_replicate
  shown i hi hshown := by
    have hi' : i < image.count := hi
    refine absurd ?_ hshown
    show (List.replicate (image.count)
      (if blit.hasTransparency then (0 : UInt8) else 1)).getD i 0 = 0
    rw [ht, List.getD_replicate _ hi']
    rfl

theorem paint_hasTransparency (blit : Blit) (indices palette : List UInt8) (cells : List (ℕ × ℕ))
    (image : Image) :
    (paint blit indices palette cells image).1.hasTransparency = image.hasTransparency := by
  induction cells generalizing image with
  | nil => rfl
  | cons cell rest ih =>
    rw [paint]
    split_ifs
    · exact ih _
    · exact ih _
    · rfl

theorem paint_painted (hactive : Active active blit) (ht : blit.hasTransparency = true)
    (cells : List (ℕ × ℕ)) (h : Painted active image) :
    Painted active (paint blit indices active.apal cells image).1 := by
  induction cells generalizing image with
  | nil => exact h
  | cons cell rest ih =>
    rw [paint]
    split_ifs with hindex hcolor
    · refine ih { h with opacity_length := ?_, shown := fun i hi => ?_ }
      · rw [List.length_set]
        exact h.opacity_length
      · rw [getD_set]
        split_ifs
        · exact fun hzero => absurd rfl hzero
        · exact h.shown i hi
    · refine ih { pixels_length := ?_, opacity_length := ?_, shown := fun i hi => ?_ }
      · rw [List.length_set]
        exact h.pixels_length
      · rw [List.length_set]
        exact h.opacity_length
      · rw [getD_set, getD_set, h.pixels_length, h.opacity_length]
        split_ifs
        · intro _
          rw [hactive.colors] at hcolor
          rw [ht, hactive.transparent] at hindex
          exact ⟨_, by omega, fun heq => hindex ⟨rfl, heq⟩, rfl⟩
        · exact h.shown i hi
    · exact h

/-- The renderer between two calls of a frame whose transparency is `transparent`. -/
def Drawn (active : Decoder) (transparent : Bool) (renderer : Renderer) : Prop :=
  renderer.initialized = true →
    renderer.image.hasTransparency = transparent ∧
      (transparent = true → Painted active renderer.image ∧ active.apalN ≤ 256)

/-- **A call of the renderer** paints with colours of the palette. -/
theorem renderIndexed_drawn {renderer : Renderer} (hactive : Active active blit)
    (h : Drawn active blit.hasTransparency renderer) :
    Drawn active blit.hasTransparency (renderIndexed renderer (decoder, blit)) := by
  rw [renderIndexed, hactive.palette]
  dsimp only
  split
  · exact h
  split
  · rename_i indices palette _ hpalette
    obtain rfl := Option.some.inj hpalette
    split
    · exact h
    · rename_i hadmits
      have hcolors : active.apalN ≤ 256 := by
        rw [Bool.not_eq_true', Bool.not_eq_false, admits, decide_eq_true_eq, hactive.colors] at hadmits
        omega
      have hstart : ∀ image, image = (if renderer.initialized then renderer.image
          else fill decoder blit renderer.image) → image.hasTransparency = blit.hasTransparency ∧
            (blit.hasTransparency = true → Painted active image) := by
        rintro image rfl
        split_ifs with hinit
        · exact ⟨(h hinit).1, fun ht => ((h hinit).2 ht).1⟩
        · exact ⟨rfl, fun ht => fill_painted ht _⟩
      generalize (if renderer.initialized then renderer.image
        else fill decoder blit renderer.image) = image at hstart ⊢
      obtain ⟨hsame, hpainted⟩ := hstart image rfl
      split_ifs
      all_goals
        exact fun _ => ⟨(paint_hasTransparency _ _ _ _ _).trans hsame,
          fun ht => ⟨paint_painted hactive ht _ (hpainted ht), hcolors⟩⟩
  · exact h

theorem foldl_drawn {transparent : Bool} {renderer : Renderer} (calls : List (Decoder × Blit))
    (hcalls : ∀ call ∈ calls, Active active call.2 ∧ call.2.hasTransparency = transparent)
    (h : Drawn active transparent renderer) :
    Drawn active transparent (calls.foldl renderIndexed renderer) := by
  induction calls generalizing renderer with
  | nil => exact h
  | cons call calls ih =>
    obtain ⟨hactive, rfl⟩ := hcalls call List.mem_cons_self
    exact ih (fun other hmem => hcalls other (List.mem_cons_of_mem _ hmem))
      (renderIndexed_drawn hactive h)

theorem any_eq_true_iff (active : Decoder) (color : UInt16) :
    ((List.range active.apalN).any fun i =>
        (i : ℤ) ≠ active.transparentIndex ∧ rgb565 active.apal (i * 3) = color) = true ↔
      InPalette active color := by
  simp only [List.any_eq_true, List.mem_range, decide_eq_true_eq, InPalette]

theorem searchKey_eq {n : ℕ} {start : UInt16}
    (htaken : ∀ k < n, InPalette active (start + UInt16.ofNat k))
    (hfree : ¬ InPalette active (start + UInt16.ofNat n)) {fuel : ℕ} (hfuel : n < fuel) :
    searchKey active fuel start = some (start + UInt16.ofNat n) := by
  obtain ⟨fuel, rfl⟩ : ∃ m, fuel = m + 1 := ⟨fuel - 1, by omega⟩
  induction n generalizing start fuel with
  | zero =>
    rw [show start + UInt16.ofNat 0 = start by simp] at hfree ⊢
    rw [searchKey, if_neg fun h => hfree ((any_eq_true_iff _ _).mp h)]
  | succ n ih =>
    have hnext : ∀ k, start + UInt16.ofNat (k + 1) = start + 1 + UInt16.ofNat k := by
      intro k
      rw [UInt16.ofNat_add, UInt16.add_comm (UInt16.ofNat k), ← UInt16.add_assoc]
      rfl
    have hfirst := htaken 0 (Nat.succ_pos n)
    rw [show start + UInt16.ofNat 0 = start by simp] at hfirst
    obtain ⟨fuel, rfl⟩ : ∃ m, fuel = m + 1 := ⟨fuel - 1, by omega⟩
    rw [searchKey, if_pos ((any_eq_true_iff _ _).mpr hfirst), hnext]
    refine ih (fun k hk => ?_) (hnext n ▸ hfree) _ (by omega)
    rw [← hnext]
    exact htaken (k + 1) (by omega)

/-- Of 257 colours one is outside a palette of 256. -/
theorem exists_not_inPalette (hcolors : active.apalN ≤ 256) (start : UInt16) :
    ∃ n < 257, ¬ InPalette active (start + UInt16.ofNat n) := by
  by_contra hnone
  have hall : ∀ n < 257, InPalette active (start + UInt16.ofNat n) :=
    fun n hn => by_contra fun hfree => hnone ⟨n, hn, hfree⟩
  have hnodup : ((List.range 257).map fun n => start + UInt16.ofNat n).Nodup := by
    refine List.Nodup.map_on (fun a ha b hb heq => ?_) List.nodup_range
    have hsame := congrArg UInt16.toNat ((UInt16.add_right_inj start).mp heq)
    rw [List.mem_range] at ha hb
    rw [UInt16.toNat_ofNat', UInt16.toNat_ofNat'] at hsame
    omega
  have hsub : ((List.range 257).map fun n => start + UInt16.ofNat n) ⊆
      (List.range active.apalN).map fun k => rgb565 active.apal (k * 3) := by
    intro color hmem
    obtain ⟨n, hn, rfl⟩ := List.mem_map.mp hmem
    obtain ⟨k, hk, -, hcolor⟩ := hall n (List.mem_range.mp hn)
    exact List.mem_map.mpr ⟨k, List.mem_range.mpr hk, hcolor⟩
  have hlen := (List.subperm_of_subset hnodup hsub).length_le
  rw [List.length_map, List.length_map, List.length_range, List.length_range] at hlen
  omega

open Classical in
/-- **The search for the key** ends, on a colour outside the palette. -/
theorem searchKey_eq_some (hcolors : active.apalN ≤ 256) :
    ∃ key, (∀ fuel, 257 ≤ fuel → searchKey active fuel 0xf81f = some key) ∧
      ¬ InPalette active key := by
  have hsome := exists_not_inPalette hcolors 0xf81f
  obtain ⟨hlt, hfree⟩ := Nat.find_spec hsome
  refine ⟨_, fun fuel hfuel => searchKey_eq (fun k hk => ?_) hfree (by omega), hfree⟩
  have hbefore := Nat.find_min hsome hk
  by_contra htaken
  exact hbefore ⟨by omega, htaken⟩

/-- What the development assumes of the GIF library: the calls of a frame have the palette and
the transparent entry of the context after it, and all or none have transparency. -/
def Delivers (library : Library) : Prop :=
  ∀ decoder, ∃ transparent, ∀ call ∈ (library.nextFrame decoder).calls,
    Active (library.nextFrame decoder).after call.2 ∧ call.2.hasTransparency = transparent

theorem firstFrame_painted {library : Library} (hlibrary : Delivers library)
    {scratch buffers : Bool} {data : List UInt8}
    (h : firstFrame library scratch buffers data = .ok (image, decoder))
    (ht : image.hasTransparency = true) : Painted decoder image ∧ decoder.apalN ≤ 256 := by
  simp only [firstFrame] at h
  obtain ⟨-, h⟩ := Guards.check_eq_ok.mp h
  obtain ⟨-, h⟩ := Guards.check_eq_ok.mp h
  obtain ⟨before, -, h⟩ := Guards.bind_eq_ok.mp h
  obtain ⟨-, h⟩ := Guards.check_eq_ok.mp h
  obtain ⟨-, h⟩ := Guards.check_eq_ok.mp h
  obtain ⟨-, h⟩ := Guards.check_eq_ok.mp h
  obtain ⟨-, -, h⟩ := Guards.bind_eq_ok.mp h
  obtain ⟨hdone, h⟩ := Guards.check_eq_ok.mp h
  obtain ⟨rfl, rfl⟩ := Prod.mk.inj (Except.ok.inj h)
  obtain ⟨transparent, hcalls⟩ := hlibrary before
  have hinit : (render before (library.nextFrame before)).initialized = true := by
    by_contra hnot
    exact hdone (.inr (.inl (by simpa using hnot)))
  have hdrawn : Drawn _ transparent (render before (library.nextFrame before)) :=
    foldl_drawn _ hcalls fun hstart => by cases hstart
  obtain ⟨rfl, hpainted⟩ := hdrawn hinit
  exact hpainted ht

theorem finish_recolored (h : Painted active image) (hfree : ¬ InPalette active key) :
    Recolored (image.count) image.pixels (finish image key).pixels image.opacity
      key :=
  keyed_recolored h.pixels_length h.opacity_length fun i hi hshown heq =>
    hfree (heq ▸ h.shown i hi hshown)

/-! ### Sizes -/

theorem source_lt {width height destination : ℕ} (hwidth : 0 < image.width)
    (hheight : 0 < image.height) (h : destination < width * height) :
    source image width height destination < image.count := by
  have hpos : 0 < width := Nat.pos_of_mul_pos_right (Nat.zero_lt_of_lt h)
  have hrow : destination / width * image.height / height < image.height :=
    Nat.div_lt_of_lt_mul (Nat.mul_lt_mul_of_pos_right (Nat.div_lt_of_lt_mul h) hheight)
  have hcolumn : destination % width * image.width / width < image.width :=
    Nat.div_lt_of_lt_mul (Nat.mul_lt_mul_of_pos_right (Nat.mod_lt _ hpos) hwidth)
  calc source image width height destination
      < destination / width * image.height / height * image.width + image.width :=
        Nat.add_lt_add_left hcolumn _
    _ = (destination / width * image.height / height + 1) * image.width :=
        (Nat.succ_mul _ _).symm
    _ ≤ image.height * image.width := Nat.mul_le_mul_right _ hrow
    _ = image.count := Nat.mul_comm _ _

theorem getD_map_range {α : Type*} (f : ℕ → α) {n i : ℕ} (d : α) (hi : i < n) :
    ((List.range n).map f).getD i d = f i := by
  rw [List.getD_eq_getElem?_getD, List.getElem?_map, List.getElem?_range hi]
  rfl

/-- **Resizing** keeps what a colour says of the pixels. -/
theorem mreGifResize_separates {allocates : Bool} {width height : ℤ} {resized : Image}
    (h : Separates (image.count) image.pixels image.opacity key)
    (hresize : mreGifResize allocates image width height = some resized) :
    (resized.width : ℤ) = width ∧ (resized.height : ℤ) = height ∧
      resized.transparentColor = image.transparentColor ∧
      Separates (resized.count) resized.pixels resized.opacity key := by
  rw [mreGifResize] at hresize
  split_ifs at hresize with hrefused hsame
  · obtain rfl := Option.some.inj hresize
    exact ⟨hsame.1.symm, hsame.2.symm, rfl, h⟩
  · obtain rfl := Option.some.inj hresize
    refine ⟨Int.toNat_of_nonneg (by omega), Int.toNat_of_nonneg (by omega), rfl,
      by simp, by simp, fun i hi => ?_⟩
    rw [List.map_map, List.map_map, getD_map_range _ _ hi, getD_map_range _ _ hi]
    exact h.key_iff _ (source_lt (by omega) (by omega) hi)

end Gif

/-! ### All images -/

/-- What colour keys promise. -/
structure Keys (library : Library) : Prop where
  /-- A PNG with a fully transparent pixel whose key was found. -/
  png : ∀ calloc image budget image' budget',
    image.pixels.length = image.count →
    image.alpha.length = image.count →
    (∃ i < image.count, image.alpha.getD i 0 = 0) →
    setTransparentColor calloc image budget = (.ok (), image', budget') →
    Recolored (image.count) image.pixels image'.pixels image.alpha
      image'.transparentColor ∧ image'.alpha = image.alpha
  /-- A PNG without a key uses every colour. -/
  pngError : ∀ calloc image budget,
    (setTransparentColor calloc image budget).1 = .error "PNG has no unused RGB565 color key" →
    ∀ color, ∃ i < image.count,
      image.alpha.getD i 0 ≠ 0 ∧ image.pixels.getD i 0 = color
  /-- The key of an accepted GIF frame with transparency is found. -/
  gif : ∀ scratch buffers data rendered decoder,
    firstFrame library scratch buffers data = .ok (rendered, decoder) →
    rendered.hasTransparency = true →
    ∃ image, (∀ fuel, 257 ≤ fuel →
        mreGifDecode library scratch buffers fuel data = some (.ok image)) ∧
      Recolored (rendered.count) rendered.pixels image.pixels rendered.opacity
        image.transparentColor ∧
      image.opacity = rendered.opacity ∧ image.width = rendered.width ∧
      image.height = rendered.height
  /-- A resized image keeps its key. -/
  resize : ∀ allocates image width height resized key,
    mreGifResize allocates image width height = some resized →
    Separates (image.count) image.pixels image.opacity key →
    (resized.width : ℤ) = width ∧ (resized.height : ℤ) = height ∧
      resized.transparentColor = image.transparentColor ∧
      Separates (resized.count) resized.pixels resized.opacity key

/-- **Colour keys** tell the fully transparent pixels from all others. -/
theorem color_keys_separate {library : Library} (hlibrary : Delivers library) : Keys library where
  png _ _ _ _ _ hpixels halpha hzero h := setTransparentColor_ok hpixels halpha hzero h
  pngError _ _ _ h color := setTransparentColor_error h color
  gif scratch buffers data rendered decoder hframe ht := by
    obtain ⟨hpainted, hcolors⟩ := firstFrame_painted hlibrary hframe ht
    obtain ⟨key, hsearch, hfree⟩ := searchKey_eq_some hcolors
    refine ⟨finish rendered key, fun fuel hfuel => ?_, finish_recolored hpainted hfree, rfl, rfl,
      rfl⟩
    rw [mreGifDecode, hframe]
    dsimp only
    rw [if_pos ht, hsearch fuel hfuel]
    rfl
  resize _ _ _ _ _ _ hresize h := mreGifResize_separates h hresize

/-- Two pixels wide, with magenta and a transparent entry, and a frame of the left one. -/
def sampleGif : List UInt8 :=
  [71, 73, 70, 56, 57, 97, 2, 0, 1, 0, 0x80, 1, 0, 255, 0, 255, 0, 0, 0, 0x21, 0xf9, 4, 1, 0, 0, 1,
    0, 0x2c, 0, 0, 0, 0, 1, 0, 1, 0, 0, 2, 2, 0x44, 1, 0, 0x3b]

/-- A library that decodes this image only. -/
def sampleLibrary : Library :=
  let decoder : Decoder :=
    { canvasW := 2, canvasH := 1, fw := 1, fh := 1, bgRgb := [0, 0, 0]
      apal := [255, 0, 255, 0, 0, 0], apalN := 2, transparentIndex := 1 }
  let blit : Blit :=
    { x := 0, y := 0, width := 1, height := 1, indices := some [0], stride := 1
      palette := some [255, 0, 255, 0, 0, 0], paletteColors := 2, transparentIndex := 1
      hasTransparency := true }
  { init := fun data => if data = sampleGif then .ok decoder else .error "Decode error"
    nextFrame := fun _ => { calls := [(decoder, blit)], result := .ok (), after := decoder } }

theorem color_keys_separate_sample :
    ∃ image, (∀ fuel, 257 ≤ fuel →
        mreGifDecode sampleLibrary true true fuel sampleGif = some (.ok image)) ∧
      Separates 2 image.pixels image.opacity image.transparentColor := by
  have hdelivers : Delivers sampleLibrary := fun _ => ⟨true, by
    simp only [sampleLibrary, List.mem_singleton]
    rintro call rfl
    exact ⟨⟨rfl, rfl, rfl⟩, rfl⟩⟩
  obtain ⟨image, hdecode, hrecolored, hopacity, -⟩ :=
    (color_keys_separate hdelivers).gif true true sampleGif _ _ rfl rfl
  exact ⟨image, hdecode, hopacity ▸ hrecolored.toSeparates⟩

end ColorKey
