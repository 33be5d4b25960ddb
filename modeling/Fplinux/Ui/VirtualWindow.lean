/-
The window of a virtual list (`fplinux-ui-screen-model.c`).

A virtual list draws the data rows that its view shows with a small pool of
rows (slots); data row `r` lies at content `y = r * pitch` and is shown by slot
`r % slots`.  Every operation returns the slots the caller has to fill again.

Sizes are words of 64 bits, as on a host (a phone's `size_t` has 32), with `sizeMax`
for "none"; pixel positions are integers, computed in `int64_t` by the source and
stored in an `int32_t` (`toInt32`).
-/
import Mathlib.Order.Basic
import Fplinux.Lib.ModWindow
import Fplinux.Lib.Run
import Fplinux.Lib.Word

namespace VirtualWindow

/-- `SIZE_MAX`, which stands for no row. -/
def sizeMax : ℕ := Word.maxVal 64

def slotsMax : ℕ := 16

/-- The conversion of an `int64_t` to `int32_t`. -/
def toInt32 (z : ℤ) : ℤ := z.bmod (2 ^ 32)

/-! ### Index rules -/

/-- The index of a row after `count` rows were inserted before `at'`. -/
def indexInserted (index at' count : ℕ) : ℕ :=
  if index ≠ sizeMax ∧ index ≥ at' then Word.add 64 index count else index

/-- An index after `count` rows were deleted from `at'`; `sizeMax` if deleted. -/
def indexDeleted (index at' count : ℕ) : ℕ :=
  if index = sizeMax ∨ index < at' then index
  else if index - at' < count then sizeMax
  else index - count

/-- The focus after a deletion in a list of `size` rows. -/
def focusDeleted (focus at' count size : ℕ) : ℕ :=
  if at' ≥ size then focus
  else
    let count := if count > size - at' then size - at' else count
    if count = size then sizeMax
    else
      let index := indexDeleted focus at' count
      if index ≠ sizeMax ∨ focus = sizeMax then index
      else if at' < size - count then at'
      else size - count - 1

/-! ### The window -/

/-- `struct fplinux_ui_virtual_window`; `bound` has `slotsMax` entries. -/
structure Window where
  count : ℕ
  slots : ℕ
  pitch : ℤ
  view : ℤ
  focus : ℕ
  top : ℤ
  first : ℕ
  bound : ℕ → ℕ

/-- The largest scroll offset. -/
def topMax (window : Window) : ℤ :=
  let excess := (window.count : ℤ) * window.pitch - window.view
  if excess > 0 then excess else 0

/-- Scrolls to `top`, kept within the content, then the least that shows the
focused row wholly. -/
def showFocus (window : Window) (top : ℤ) : Window :=
  let high := topMax window
  let top := if top < 0 then 0 else if top > high then high else top
  let top :=
    if window.focus ≠ sizeMax then
      let row := (window.focus : ℤ) * window.pitch
      if row < top then row
      else if row + window.pitch > top + window.view then row + window.pitch - window.view
      else top
    else top
  { window with top := toInt32 top }

/-- The focused row's place in the view. -/
def focusOffset (window : Window) : ℤ :=
  if window.focus = sizeMax then 0 else (window.focus : ℤ) * window.pitch - window.top

/-- Puts the focused row at `offset` in the view when the content allows. -/
def keepFocus (window : Window) (offset : ℤ) : Window :=
  if window.focus = sizeMax then showFocus window 0
  else showFocus window ((window.focus : ℤ) * window.pitch - offset)

/-- The most rows the view shows in part, with one cut at each end. -/
def poolSize (window : Window) : ℕ :=
  let slots := 1
  let slots :=
    if window.view > 0 then
      slots + ((window.view + window.pitch - 2).tdiv window.pitch).toNat
    else slots
  let slots := if slots > slotsMax then slotsMax else slots
  if slots < window.count then slots else window.count

/-- The first row of the pool: the row at the top of the view, or earlier where
the list ends. -/
def firstRow (window : Window) (slots : ℕ) : ℕ :=
  let first := (window.top.tdiv window.pitch % 2 ^ 64).toNat
  if first > window.count - slots then window.count - slots else first

/-- The row a slot shows. -/
def slotRow (slots first slot : ℕ) : ℕ :=
  if slot < slots then first + (slot + slots - first % slots) % slots else sizeMax

/-- Fits the pool to the view and lists the slots whose row changed or is one
of the changed rows `dirty, …, dirty + changed - 1`. -/
def bind (window : Window) (dirty changed : ℕ) : List ℕ × Window :=
  let slots := poolSize window
  let first := firstRow window slots
  let rebind := (List.range slotsMax).filter fun slot =>
    let row := slotRow slots first slot
    row ≠ window.bound slot ∨ (row ≠ sizeMax ∧ row ≥ dirty ∧ row - dirty < changed)
  (rebind, { window with slots := slots, first := first, bound := slotRow slots first })

def init (count : ℕ) (pitch view : ℤ) : List ℕ × Window :=
  bind
    { count := count
      slots := 0
      pitch := if pitch > 0 then pitch else 1
      view := if view > 0 then view else 0
      focus := if count ≠ 0 then 0 else sizeMax
      top := 0
      first := 0
      bound := fun _ => sizeMax } 0 0

def setFocus (window : Window) (focus : ℕ) : List ℕ × Window :=
  if focus ≥ window.count then ([], window)
  else bind (showFocus { window with focus := focus } window.top) 0 0

def setTop (window : Window) (row : ℕ) : List ℕ × Window :=
  if window.count = 0 then ([], window)
  else
    let row := if row ≥ window.count then window.count - 1 else row
    bind (showFocus window ((row : ℤ) * window.pitch)) 0 0

def inserted (window : Window) (at' count : ℕ) : List ℕ × Window :=
  let offset := focusOffset window
  if count = 0 ∨ at' > window.count then ([], window)
  else
    let window :=
      { window with
        count := Word.add 64 window.count count
        focus :=
          if window.focus = sizeMax then 0 else indexInserted window.focus at' count }
    bind (keepFocus window offset) at' sizeMax

def deleted (window : Window) (at' count : ℕ) : List ℕ × Window :=
  let offset := focusOffset window
  if count = 0 ∨ at' ≥ window.count then ([], window)
  else
    let count := if count > window.count - at' then window.count - at' else count
    let window :=
      { window with
        focus := focusDeleted window.focus at' count window.count
        count := window.count - count }
    bind (keepFocus window offset) at' sizeMax

def invalidate (window : Window) (first count : ℕ) : List ℕ × Window :=
  bind window first count

def resize (window : Window) (pitch view : ℤ) : List ℕ × Window :=
  let offset := focusOffset window
  let pitch := if pitch > 0 then pitch else 1
  let moved := pitch ≠ window.pitch
  let window := { window with pitch := pitch, view := if view > 0 then view else 0 }
  -- A new pitch moves every row.
  bind (keepFocus window offset) 0 (if moved then sizeMax else 0)

/-! ### Operations -/

/-- The operations on an initialised window. -/
inductive Op
  | setFocus (focus : ℕ)
  | setTop (row : ℕ)
  | inserted (at' count : ℕ)
  | deleted (at' count : ℕ)
  | invalidate (first count : ℕ)
  | resize (pitch view : ℤ)

def perform (window : Window) : Op → List ℕ × Window
  | .setFocus focus => setFocus window focus
  | .setTop row => setTop window row
  | .inserted at' count => inserted window at' count
  | .deleted at' count => deleted window at' count
  | .invalidate first count => invalidate window first count
  | .resize pitch view => resize window pitch view

/-- Rows of the data list after an operation. -/
def countAfter (window : Window) : Op → ℕ
  | .inserted at' count => if at' ≤ window.count then window.count + count else window.count
  | .deleted at' count => window.count - min count (window.count - at')
  | _ => window.count

def pitchAfter (window : Window) : Op → ℤ
  | .resize pitch _ => if pitch > 0 then pitch else 1
  | _ => window.pitch

def viewAfter (window : Window) : Op → ℤ
  | .resize _ view => if view > 0 then view else 0
  | _ => window.view

/-- `count * pitch` must fit `int32_t`, as LVGL coordinates do. -/
def Fits (count : ℕ) (pitch : ℤ) : Prop := (count : ℤ) * pitch < 2 ^ 31

/-- A row fits the view and the pool covers the view. -/
def Proportioned (pitch view : ℤ) : Prop :=
  pitch ≤ view ∧ (view + pitch - 2) / pitch + 1 ≤ slotsMax

instance (count : ℕ) (pitch : ℤ) : Decidable (Fits count pitch) :=
  inferInstanceAs (Decidable (_ < _))

instance (pitch view : ℤ) : Decidable (Proportioned pitch view) :=
  inferInstanceAs (Decidable (_ ∧ _))

/-! ### The scroll offset -/

/-- `pitch` and `view` as `init` and `resize` leave them. -/
def Scaled (window : Window) : Prop := 1 ≤ window.pitch ∧ 0 ≤ window.view

/-- The offset `top` shows a row at `row` wholly, or, in a view lower than a
row, has one of its edges at an edge of the view. -/
def Reveals (window : Window) (row top : ℤ) : Prop :=
  (top ≤ row ∧ row + window.pitch ≤ top + window.view) ∨
    (window.view < window.pitch ∧ (top = row ∨ top = row + window.pitch - window.view))

/-- The invariant of count, focus and scroll offset. -/
structure Scrolled (window : Window) : Prop where
  scaled : Scaled window
  fits : Fits window.count window.pitch
  focus_none : window.count = 0 → window.focus = sizeMax
  focus_lt : window.count ≠ 0 → window.focus < window.count
  top_nonneg : 0 ≤ window.top
  top_le : window.top ≤ topMax window
  reveals : window.count ≠ 0 → Reveals window (window.focus * window.pitch) window.top

theorem topMax_eq (window : Window) :
    topMax window = max 0 ((window.count : ℤ) * window.pitch - window.view) := by
  simp only [topMax]
  split
  · omega
  · omega

theorem toInt32_eq {z : ℤ} (h0 : 0 ≤ z) (h : z < 2 ^ 31) : toInt32 z = z :=
  Int.bmod_eq_of_le (by omega) (by omega)

variable {count : ℕ} {pitch : ℤ} {window : Window}

theorem count_lt (hp : 1 ≤ pitch) (h : Fits count pitch) : count < 2 ^ 31 := by
  have hle : (count : ℤ) * 1 ≤ count * pitch := Int.mul_le_mul_of_nonneg_left hp (by omega)
  rw [Fits] at h
  omega

theorem focus_row_le {focus : ℕ} (hp : 1 ≤ pitch) (h : focus < count) :
    0 ≤ (focus : ℤ) * pitch ∧ (focus : ℤ) * pitch + pitch ≤ count * pitch := by
  have hmul : ((focus : ℤ) + 1) * pitch ≤ count * pitch :=
    Int.mul_le_mul_of_nonneg_right (by omega) (by omega)
  rw [Int.add_mul, Int.one_mul] at hmul
  exact ⟨Int.mul_nonneg (by omega) (by omega), hmul⟩

/-- **What `showFocus` does**: only the offset changes; it stays within the
content and reveals the focused row. -/
theorem scrolled_showFocus {window : Window} (hs : Scaled window)
    (hf : Fits window.count window.pitch) (hnone : window.count = 0 → window.focus = sizeMax)
    (hlt : window.count ≠ 0 → window.focus < window.count) (top : ℤ) :
    ∃ t, showFocus window top = { window with top := t } ∧ Scrolled { window with top := t } := by
  obtain ⟨hp, hv⟩ := hs
  have hmax := topMax_eq window
  have hfits : (window.count : ℤ) * window.pitch < 2 ^ 31 := hf
  have hcount := count_lt hp hf
  by_cases hc : window.count = 0
  · -- An empty list: nothing to show, and the content has no height.
    have hz : (window.count : ℤ) * window.pitch = 0 := by simp [hc]
    have htop : ∀ t : ℤ, (if t < 0 then (0 : ℤ) else if t > topMax window then topMax window else t) = 0 := by
      intro t
      rw [hmax, hz]
      split
      · rfl
      · split
        · omega
        · omega
    refine ⟨0, ?_, ⟨⟨hp, hv⟩, hf, hnone, hlt, by simp, ?_, fun h => absurd hc h⟩⟩
    · simp only [showFocus, htop, hnone hc, ne_eq, not_true_eq_false, if_false]
      rfl
    · simp only [topMax]
      split
      · omega
      · omega
  · have hfocus := hlt hc
    have hne : window.focus ≠ sizeMax := by
      rw [sizeMax, Word.maxVal]
      omega
    obtain ⟨hrow, hend⟩ := focus_row_le hp hfocus
    have hmax' : topMax window = max 0 ((window.count : ℤ) * window.pitch - window.view) := hmax
    generalize hclamp :
      (if top < 0 then (0 : ℤ) else if top > topMax window then topMax window else top) = clamped
    have hclamped : 0 ≤ clamped ∧ clamped ≤ topMax window := by
      rw [← hclamp]
      split
      · omega
      · split
        · omega
        · omega
    generalize hreveal :
      (if (window.focus : ℤ) * window.pitch < clamped then (window.focus : ℤ) * window.pitch
        else if (window.focus : ℤ) * window.pitch + window.pitch > clamped + window.view then
          (window.focus : ℤ) * window.pitch + window.pitch - window.view
        else clamped) = t
    have ht : 0 ≤ t ∧ t ≤ topMax window ∧ Reveals window (window.focus * window.pitch) t := by
      rw [← hreveal, Reveals]
      split
      · omega
      · split
        · omega
        · omega
    refine ⟨t, ?_, ⟨⟨hp, hv⟩, hf, hnone, hlt, ht.1, ht.2.1, fun _ => ht.2.2⟩⟩
    have ht32 : toInt32 t = t := toInt32_eq ht.1 (by omega)
    simp only [showFocus, hclamp, hne, ne_eq, not_false_eq_true, if_true, hreveal, ht32]

/-! ### The pool -/

/-- The pool as `bind` leaves it. -/
structure Pooled (window : Window) : Prop where
  slots_eq : window.slots = poolSize window
  first_eq : window.first = firstRow window (poolSize window)
  bound_eq : window.bound = slotRow window.slots window.first

theorem pooled_bind (window : Window) (dirty changed : ℕ) :
    Pooled (bind window dirty changed).2 := ⟨rfl, rfl, rfl⟩

theorem scrolled_bind (h : Scrolled window) (dirty changed : ℕ) :
    Scrolled (bind window dirty changed).2 :=
  { scaled := h.scaled, fits := h.fits, focus_none := h.focus_none, focus_lt := h.focus_lt
    top_nonneg := h.top_nonneg, top_le := h.top_le, reveals := h.reveals }

theorem slotRow_of_lt {slots first slot : ℕ} (h : slot < slots) :
    slotRow slots first slot = ModWindow.rowOf first slots slot := if_pos h

theorem slotRow_of_le {slots first slot : ℕ} (h : slots ≤ slot) :
    slotRow slots first slot = sizeMax := if_neg (by omega)

theorem poolSize_le (window : Window) : poolSize window ≤ window.count ∧
    poolSize window ≤ slotsMax := by
  simp only [poolSize]
  generalize (if window.view > 0 then
      1 + ((window.view + window.pitch - 2).tdiv window.pitch).toNat else 1) = slots
  split
  · split
    · omega
    · omega
  · split
    · omega
    · omega

theorem firstRow_le (window : Window) (slots : ℕ) :
    firstRow window slots ≤ window.count - slots := by
  simp only [firstRow]
  split
  · omega
  · omega

theorem firstRow_eq (h : Scrolled window) (slots : ℕ) :
    (firstRow window slots : ℤ) =
      min (window.top / window.pitch) ((window.count - slots : ℕ) : ℤ) := by
  obtain ⟨hp, hv⟩ := h.scaled
  have h0 := h.top_nonneg
  have hcount := count_lt hp h.fits
  have hfits : (window.count : ℤ) * window.pitch < 2 ^ 31 := h.fits
  have hmax := h.top_le
  rw [topMax_eq] at hmax
  have hq0 : 0 ≤ window.top / window.pitch := Int.ediv_nonneg h0 (by omega)
  have hq1 : window.top / window.pitch ≤ window.top := Int.ediv_le_self _ h0
  have hmod : window.top.tdiv window.pitch % 2 ^ 64 = window.top / window.pitch := by
    rw [Int.tdiv_eq_ediv_of_nonneg h0]
    exact Int.emod_eq_of_lt hq0 (by omega)
  simp only [firstRow, hmod]
  split
  · omega
  · omega

section Rows

variable {window : Window} (h : Pooled window)

include h

theorem Pooled.slots_le : window.slots ≤ window.count := by
  rw [h.slots_eq]
  exact (poolSize_le window).1

theorem Pooled.first_add_le : window.first + window.slots ≤ window.count := by
  have hle := firstRow_le window (poolSize window)
  have hpool := (poolSize_le window).1
  rw [h.first_eq, h.slots_eq]
  omega

variable {slot : ℕ}

theorem Pooled.bound_spec (hslot : slot < window.slots) :
    window.first ≤ window.bound slot ∧ window.bound slot < window.first + window.slots ∧
      window.bound slot % window.slots = slot := by
  rw [h.bound_eq, slotRow_of_lt hslot]
  exact ⟨ModWindow.le_rowOf _ _ _, ModWindow.rowOf_lt (by omega), ModWindow.rowOf_mod hslot⟩

theorem Pooled.bound_unique {row : ℕ} (hrow : window.first ≤ row)
    (hrow' : row < window.first + window.slots) (hmod : row % window.slots = slot) :
    row = window.bound slot := by
  have hslot : slot < window.slots := by
    rw [← hmod]
    exact Nat.mod_lt _ (by omega)
  rw [h.bound_eq, slotRow_of_lt hslot]
  exact ModWindow.eq_rowOf hrow hrow' hmod

theorem Pooled.bound_none (hslot : window.slots ≤ slot) : window.bound slot = sizeMax := by
  rw [h.bound_eq, slotRow_of_le hslot]

theorem Pooled.bound_lt (hslot : slot < window.slots) : window.bound slot < window.count := by
  have hspec := h.bound_spec hslot
  have hadd := h.first_add_le
  omega

end Rows

theorem covered_of_visible (hs : Scrolled window) (hb : Pooled window)
    (hprop : Proportioned window.pitch window.view) {row : ℕ} (hrow : row < window.count)
    (hbelow : (row : ℤ) * window.pitch < window.top + window.view)
    (habove : window.top < ((row : ℤ) + 1) * window.pitch) :
    window.first ≤ row ∧ row < window.first + window.slots := by
  obtain ⟨hp, hv⟩ := hs.scaled
  obtain ⟨hpv, hslots⟩ := hprop
  have hfirst := firstRow_eq hs (poolSize window)
  -- The first row at the top of the view, and where the view ends.
  have hq : window.top / window.pitch < row + 1 := Int.ediv_lt_of_lt_mul (by omega) habove
  have hlast : (row : ℤ) ≤
      window.top / window.pitch + (window.view + window.pitch - 2) / window.pitch := by
    have hdm := Int.mul_ediv_add_emod window.top window.pitch
    have hdm' := Int.mul_ediv_add_emod (window.view + window.pitch - 2) window.pitch
    have hm := Int.emod_lt_of_pos window.top (by omega : 0 < window.pitch)
    have hm' := Int.emod_lt_of_pos (window.view + window.pitch - 2) (by omega : 0 < window.pitch)
    by_contra hc
    have hge : window.top / window.pitch + (window.view + window.pitch - 2) / window.pitch + 1
        ≤ (row : ℤ) := by omega
    have hmul : window.pitch * (window.top / window.pitch +
        (window.view + window.pitch - 2) / window.pitch + 1) ≤ window.pitch * row :=
      Int.mul_le_mul_of_nonneg_left hge (by omega)
    rw [Int.mul_add, Int.mul_add, Int.mul_one] at hmul
    rw [Int.mul_comm (row : ℤ)] at hbelow
    omega
  have hpool : poolSize window = min (1 + ((window.view + window.pitch - 2) / window.pitch).toNat)
      window.count := by
    have hq0 : 0 ≤ (window.view + window.pitch - 2) / window.pitch :=
      Int.ediv_nonneg (by omega) (by omega)
    have hrows : (if window.view > 0 then
        1 + ((window.view + window.pitch - 2).tdiv window.pitch).toNat else 1) =
        1 + ((window.view + window.pitch - 2) / window.pitch).toNat := by
      rw [if_pos (by omega), Int.tdiv_eq_ediv_of_nonneg (by omega)]
    have hcut : ¬ 1 + ((window.view + window.pitch - 2) / window.pitch).toNat > slotsMax := by
      rw [slotsMax] at hslots ⊢
      omega
    simp only [poolSize, hrows, hcut, if_false]
    split
    · omega
    · omega
  rw [hb.first_eq, hb.slots_eq]
  have hfle := firstRow_le window (poolSize window)
  omega

/-! ### Operations keep the invariant -/

theorem scrolled_keepFocus (hs : Scaled window) (hf : Fits window.count window.pitch)
    (hnone : window.count = 0 → window.focus = sizeMax)
    (hlt : window.count ≠ 0 → window.focus < window.count) (offset : ℤ) :
    Scrolled (keepFocus window offset) := by
  rw [keepFocus]
  split
  · obtain ⟨t, heq, ht⟩ := scrolled_showFocus hs hf hnone hlt 0
    rw [heq]
    exact ht
  · obtain ⟨t, heq, ht⟩ :=
      scrolled_showFocus hs hf hnone hlt ((window.focus : ℤ) * window.pitch - offset)
    rw [heq]
    exact ht

theorem focusDeleted_lt {focus at' size : ℕ} (hfocus : focus < size) (hsize : size < 2 ^ 31)
    (hat : at' < size) (hcount : count ≤ size - at') :
    (size - count = 0 → focusDeleted focus at' count size = sizeMax) ∧
      (size - count ≠ 0 → focusDeleted focus at' count size < size - count) := by
  have hmax : sizeMax = 2 ^ 64 - 1 := rfl
  have hidx : indexDeleted focus at' count =
      if focus < at' then focus else if focus - at' < count then sizeMax else focus - count := by
    have hne : focus ≠ sizeMax := by omega
    simp only [indexDeleted, hne, false_or]
  generalize hindex : indexDeleted focus at' count = index at hidx
  have hcut : ¬ count > size - at' := by omega
  simp only [focusDeleted, hcut, if_false, hindex]
  rw [if_neg (by omega)]
  by_cases hall : count = size
  · rw [if_pos hall]
    exact ⟨fun _ => rfl, fun hne => absurd hall (by omega)⟩
  · rw [if_neg hall]
    refine ⟨fun hz => absurd hall (by omega), fun _ => ?_⟩
    by_cases hbefore : focus < at'
    · rw [if_pos hbefore] at hidx
      rw [if_pos (Or.inl (by omega))]
      omega
    · rw [if_neg hbefore] at hidx
      by_cases hin : focus - at' < count
      · rw [if_pos hin] at hidx
        rw [if_neg (by omega)]
        split
        · omega
        · omega
      · rw [if_neg hin] at hidx
        rw [if_pos (Or.inl (by omega))]
        omega

/-- What the callers promise: the content of the edited list fits. -/
def FitsAfter (window : Window) (op : Op) : Prop :=
  Fits (countAfter window op) (pitchAfter window op)

instance (window : Window) (op : Op) : Decidable (FitsAfter window op) :=
  inferInstanceAs (Decidable (Fits _ _))

theorem scrolled_init {view : ℤ} (hf : Fits count (if pitch > 0 then pitch else 1)) :
    Scrolled (init count pitch view).2 := by
  refine scrolled_bind ?_ 0 0
  have hp : (1 : ℤ) ≤ if pitch > 0 then pitch else 1 := by split <;> omega
  have hv : (0 : ℤ) ≤ if view > 0 then view else 0 := by split <;> omega
  refine ⟨⟨hp, hv⟩, hf, ?_, ?_, Int.le_refl 0, ?_, ?_⟩
  · intro hc
    exact if_neg (by simpa using hc)
  · intro hc
    show (if count ≠ 0 then 0 else sizeMax) < count
    rw [if_pos hc]
    exact Nat.pos_of_ne_zero hc
  · rw [topMax_eq]
    exact Int.le_max_left _ _
  · intro hc
    have hfocus : (if count ≠ 0 then 0 else sizeMax) = 0 := if_pos hc
    simp only [Reveals, hfocus]
    omega

theorem scrolled_perform (h : Scrolled window) {op : Op} (hf : FitsAfter window op) :
    Scrolled (perform window op).2 := by
  obtain ⟨hp, hv⟩ := h.scaled
  have hcount := count_lt hp h.fits
  cases op with
  | setFocus focus =>
    simp only [perform, setFocus]
    split
    · exact h
    · rename_i hfocus
      obtain ⟨t, heq, ht⟩ := @scrolled_showFocus { window with focus := focus }
        h.scaled h.fits (fun hc => absurd hc (by simp; omega)) (fun _ => by simpa using hfocus)
        window.top
      rw [heq]
      exact scrolled_bind ht 0 0
  | setTop row =>
    simp only [perform, setTop]
    split
    · exact h
    · obtain ⟨t, heq, ht⟩ := scrolled_showFocus h.scaled h.fits h.focus_none h.focus_lt
        (((if row ≥ window.count then window.count - 1 else row : ℕ) : ℤ) * window.pitch)
      rw [heq]
      exact scrolled_bind ht 0 0
  | inserted at' count =>
    simp only [perform, inserted]
    split
    · exact h
    · rename_i hc
      have hat : at' ≤ window.count := by omega
      have hf' : Fits (window.count + count) window.pitch := by
        simpa [FitsAfter, countAfter, pitchAfter, hat] using hf
      have hcount' := count_lt hp hf'
      have hadd : Word.add 64 window.count count = window.count + count :=
        Word.add_eq (by omega)
      refine scrolled_bind (scrolled_keepFocus ?_ ?_ ?_ ?_ _) _ _
      · exact h.scaled
      · simpa [hadd] using hf'
      · intro hz
        simp only [hadd] at hz
        omega
      · intro _
        simp only [hadd, indexInserted]
        by_cases hnone : window.focus = sizeMax
        · rw [if_pos hnone]
          omega
        · have hlt := h.focus_lt fun hz => hnone (h.focus_none hz)
          rw [if_neg hnone]
          split
          · rw [Word.add_eq (by omega)]
            omega
          · omega
  | deleted at' count =>
    simp only [perform, deleted]
    split
    · exact h
    · rename_i hc
      have hat : at' < window.count := by omega
      set n := if count > window.count - at' then window.count - at' else count with hn
      have hmin : n = min count (window.count - at') := by
        rw [hn]
        split <;> omega
      have hf' : Fits (window.count - n) window.pitch := by
        simpa [FitsAfter, countAfter, pitchAfter, hmin] using hf
      have hfocus := focusDeleted_lt (h.focus_lt (by omega)) hcount hat (by omega : n ≤ _)
      refine scrolled_bind (scrolled_keepFocus ?_ ?_ ?_ ?_ _) _ _
      · exact h.scaled
      · exact hf'
      · exact hfocus.1
      · exact hfocus.2
  | invalidate first count => exact scrolled_bind h first count
  | resize pitch view =>
    simp only [FitsAfter, countAfter, pitchAfter] at hf
    simp only [perform, resize]
    refine scrolled_bind (scrolled_keepFocus ?_ ?_ ?_ ?_ _) _ _
    · refine ⟨?_, ?_⟩
      · show (1 : ℤ) ≤ if pitch > 0 then pitch else 1
        split <;> omega
      · show (0 : ℤ) ≤ if view > 0 then view else 0
        split <;> omega
    · exact hf
    · exact h.focus_none
    · exact h.focus_lt

theorem pooled_perform (h : Pooled window) (op : Op) : Pooled (perform window op).2 := by
  cases op with
  | setFocus focus =>
    simp only [perform, setFocus]
    split
    · exact h
    · exact pooled_bind _ _ _
  | setTop row =>
    simp only [perform, setTop]
    split
    · exact h
    · exact pooled_bind _ _ _
  | inserted at' count =>
    simp only [perform, inserted]
    split
    · exact h
    · exact pooled_bind _ _ _
  | deleted at' count =>
    simp only [perform, deleted]
    split
    · exact h
    · exact pooled_bind _ _ _
  | invalidate first count => exact pooled_bind _ _ _
  | resize pitch view => exact pooled_bind _ _ _

/-! ### The window invariant -/

/-- What the callers promise before an operation: the content of the edited
list fits, and its rows and the pool suit the view. -/
def Admits (window : Window) (op : Op) : Prop :=
  FitsAfter window op ∧ Proportioned (pitchAfter window op) (viewAfter window op)

/-- The windows of a virtual list: set up by `init`, then changed by any
operations whose promise holds. -/
def machine : Machine Window Op where
  start window := ∃ count pitch view,
    Fits count (if pitch > 0 then pitch else 1) ∧
      Proportioned (if pitch > 0 then pitch else 1) (if view > 0 then view else 0) ∧
      window = (init count pitch view).2
  step window op window' := Admits window op ∧ window' = (perform window op).2

theorem keepFocus_view (window : Window) (offset : ℤ) :
    (keepFocus window offset).pitch = window.pitch ∧
      (keepFocus window offset).view = window.view := by
  rw [keepFocus]
  split
  · exact ⟨rfl, rfl⟩
  · exact ⟨rfl, rfl⟩

theorem perform_view (window : Window) (op : Op) :
    (perform window op).2.pitch = pitchAfter window op ∧
      (perform window op).2.view = viewAfter window op := by
  cases op with
  | setFocus focus =>
    simp only [perform, setFocus]
    split
    · exact ⟨rfl, rfl⟩
    · exact ⟨rfl, rfl⟩
  | setTop row =>
    simp only [perform, setTop]
    split
    · exact ⟨rfl, rfl⟩
    · exact ⟨rfl, rfl⟩
  | inserted at' count =>
    simp only [perform, inserted]
    split
    · exact ⟨rfl, rfl⟩
    · exact keepFocus_view _ _
  | deleted at' count =>
    simp only [perform, deleted]
    split
    · exact ⟨rfl, rfl⟩
    · exact keepFocus_view _ _
  | invalidate first count => exact ⟨rfl, rfl⟩
  | resize pitch view => exact keepFocus_view _ _

theorem reachable_spec (h : machine.Reachable window) :
    Scrolled window ∧ Pooled window ∧ Proportioned window.pitch window.view := by
  refine h.invariant (P := fun window =>
    Scrolled window ∧ Pooled window ∧ Proportioned window.pitch window.view) ?_ ?_
  · rintro _ ⟨count, pitch, view, hf, hp, rfl⟩
    exact ⟨scrolled_init hf, pooled_bind _ _ _, hp⟩
  · rintro window op _ ⟨hs, hb, -⟩ ⟨⟨hf, hp⟩, rfl⟩
    refine ⟨scrolled_perform hs hf, pooled_perform hb op, ?_⟩
    rw [(perform_view window op).1, (perform_view window op).2]
    exact hp

/-- What a window promises to the code that draws it. -/
structure Sound (window : Window) : Prop where
  focus_lt : window.count ≠ 0 → window.focus < window.count
  focus_none : window.focus = sizeMax ↔ window.count = 0
  top_nonneg : 0 ≤ window.top
  top_le : window.top ≤ max 0 ((window.count : ℤ) * window.pitch - window.view)
  focus_shown : window.count ≠ 0 → window.top ≤ window.focus * window.pitch ∧
    window.focus * window.pitch + window.pitch ≤ window.top + window.view
  slots_le : window.slots ≤ window.count
  bound_row : ∀ slot < window.slots,
    (window.first ≤ window.bound slot ∧ window.bound slot < window.first + window.slots ∧
      window.bound slot % window.slots = slot) ∧
    ∀ row, window.first ≤ row → row < window.first + window.slots →
      row % window.slots = slot → row = window.bound slot
  bound_none : ∀ slot, window.slots ≤ slot → window.bound slot = sizeMax
  covered : ∀ row < window.count, (row : ℤ) * window.pitch < window.top + window.view →
    window.top < ((row : ℤ) + 1) * window.pitch →
    ∃ slot < window.slots, window.bound slot = row

/-- **The window invariant** holds after every sequence of operations. -/
theorem sound_of_reachable {window : Window} (h : machine.Reachable window) : Sound window := by
  obtain ⟨hs, hb, hprop⟩ := reachable_spec h
  have hmax : sizeMax = 2 ^ 64 - 1 := rfl
  have hcount := count_lt hs.scaled.1 hs.fits
  refine
    { focus_lt := hs.focus_lt
      focus_none := ⟨fun hf => ?_, hs.focus_none⟩
      top_nonneg := hs.top_nonneg
      top_le := ?_
      focus_shown := fun hc => ?_
      slots_le := hb.slots_le
      bound_row := fun slot hslot => ⟨hb.bound_spec hslot, fun row h1 h2 h3 =>
        hb.bound_unique h1 h2 h3⟩
      bound_none := fun slot hslot => hb.bound_none hslot
      covered := fun row hrow hbelow habove => ?_ }
  · by_contra hc
    have hlt := hs.focus_lt hc
    omega
  · have hle := hs.top_le
    rwa [topMax_eq] at hle
  · rcases hs.reveals hc with hshown | ⟨hlow, -⟩
    · exact hshown
    · have hfit := hprop.1
      omega
  · obtain ⟨h1, h2⟩ := covered_of_visible hs hb hprop hrow hbelow habove
    exact ⟨row % window.slots, Nat.mod_lt _ (by omega), (hb.bound_unique h1 h2 rfl).symm⟩

/-- A list of 40 rows scrolled to its end, after its last row was deleted. -/
theorem sound_tail_deleted :
    Sound (perform (perform (init 40 20 105).2 (.setFocus 39)).2 (.deleted 39 1)).2 := by
  refine sound_of_reachable (.step (.step (.start ?_) ⟨?_, rfl⟩) ⟨?_, rfl⟩)
  · exact ⟨40, 20, 105, by decide, by decide, rfl⟩
  · exact ⟨by decide, by decide⟩
  · exact ⟨by decide, by decide⟩

end VirtualWindow
