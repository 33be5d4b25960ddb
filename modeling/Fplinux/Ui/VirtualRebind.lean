/-
The slots a virtual list has to fill again (`fplinux-ui-screen-model.c`).

The caller of a virtual window keeps one drawn row for each slot.  It edits its
data, tells the window, and fills exactly the slots the window lists.  This
module runs the window, the data and the drawn rows side by side.

Main results:
- `Shows`: every slot of the pool shows its row's current data at the row's
  current place;
- `shows_bind`: what a call of `bind` must know about the edit to keep that;
- `shows_of_reachable`: it holds after every call, and a step of the focus to an
  adjacent row fills at most one slot.
-/
import Mathlib.Data.List.Perm.Subperm
import Fplinux.Ui.VirtualWindow

namespace VirtualWindow

/-- A window, the data it shows and what its slots show: the data of a row at
its content `y`, or nothing. -/
structure View (α : Type*) where
  window : Window
  data : List α
  screen : ℕ → Option (α × ℤ)

/-- What the caller did to the data before it told the window. -/
def Edited {α : Type*} (data data' : List α) : Op → Prop
  | .inserted at' count =>
    if at' ≤ data.length then
      ∃ rows : List α, rows.length = count ∧ data' = data.take at' ++ rows ++ data.drop at'
    else data' = data
  | .deleted at' count => data' = data.take at' ++ data.drop (at' + count)
  | .invalidate first count =>
    data'.length = data.length ∧
      ∀ row, ¬ (first ≤ row ∧ row < first + count) → data'[row]? = data[row]?
  | _ => data' = data

/-- The caller fills the slots in `rebind` from the row callback and leaves the
others as they are. -/
def refill {α : Type*} (call : List ℕ × Window) (data : List α) (screen : ℕ → Option (α × ℤ)) :
    View α where
  window := call.2
  data := data
  screen slot :=
    if slot ∈ call.1 then
      data[call.2.bound slot]?.map fun row => (row, (call.2.bound slot : ℤ) * call.2.pitch)
    else screen slot

/-- A virtual list in use: before `init` the slots show anything. -/
def viewMachine (α : Type*) : Machine (View α) Op where
  start view := ∃ data pitch height screen,
    Fits data.length (if pitch > 0 then pitch else 1) ∧
      view = refill (init data.length pitch height) data screen
  step view op view' := FitsAfter view.window op ∧
    ∃ data', Edited view.data data' op ∧
      view' = refill (perform view.window op) data' view.screen

/-! ### Slots that keep their row -/

/-- Every slot of the pool shows its row as it is. -/
def Shows {α : Type*} (view : View α) : Prop :=
  ∀ slot < view.window.slots,
    ∃ row, view.data[view.window.bound slot]? = some row ∧
      view.screen slot = some (row, (view.window.bound slot : ℤ) * view.window.pitch)

variable {changed dirty focus : ℕ} {window : Window} {α : Type*}

theorem not_mem_bind {slot : ℕ} (hslot : slot < slotsMax)
    (h : slot ∉ (bind window dirty changed).1) :
    (bind window dirty changed).2.bound slot = window.bound slot ∧
      (window.bound slot ≠ sizeMax →
        ¬ (dirty ≤ window.bound slot ∧ window.bound slot - dirty < changed)) := by
  simp only [bind, List.mem_filter, List.mem_range, hslot, true_and, decide_eq_true_eq,
    not_or, not_and, ne_eq, not_not] at h
  refine ⟨h.1, ?_⟩
  rintro hne ⟨hle, hlt⟩
  rw [← h.1] at hne hle hlt
  exact h.2 hne hle hlt

theorem shows_of_clean {data : List α} {screen : ℕ → Option (α × ℤ)}
    (hlen : data.length = window.count) (hcount : window.count < 2 ^ 31)
    (hclean : ∀ slot, window.bound slot < window.count →
      ¬ (dirty ≤ window.bound slot ∧ window.bound slot - dirty < changed) →
      ∃ row, data[window.bound slot]? = some row ∧
        screen slot = some (row, (window.bound slot : ℤ) * window.pitch)) :
    Shows (refill (bind window dirty changed) data screen) := by
  intro slot hslot
  have hmax : sizeMax = 2 ^ 64 - 1 := rfl
  have hlt := (pooled_bind window dirty changed).bound_lt hslot
  have h16 : slot < slotsMax := Nat.lt_of_lt_of_le hslot (poolSize_le window).2
  change (bind window dirty changed).2.bound slot < window.count at hlt
  simp only [refill]
  by_cases hmem : slot ∈ (bind window dirty changed).1
  · obtain ⟨row, hrow⟩ : ∃ row, data[(bind window dirty changed).2.bound slot]? = some row :=
      ⟨_, List.getElem?_eq_getElem (by omega)⟩
    refine ⟨row, hrow, ?_⟩
    rw [if_pos hmem, hrow]
    rfl
  · obtain ⟨hkeep, hdirty⟩ := not_mem_bind h16 hmem
    rw [hkeep] at hlt ⊢
    rw [if_neg hmem]
    exact hclean slot hlt (hdirty (by omega))

/-- **One call of `bind`** keeps the slots right, when the rows it takes as clean
have kept their data and their place. -/
theorem shows_bind {view : View α} (h : Shows view) (hb : Pooled view.window) {data' : List α}
    (hbound : window.bound = view.window.bound) (hlen : data'.length = window.count)
    (hcount : window.count < 2 ^ 31)
    (hclean : ∀ row < window.count, ¬ (dirty ≤ row ∧ row - dirty < changed) →
      window.pitch = view.window.pitch ∧ data'[row]? = view.data[row]?) :
    Shows (refill (bind window dirty changed) data' view.screen) := by
  refine shows_of_clean hlen hcount fun slot hlt hdirty => ?_
  obtain ⟨hpitch, hdata⟩ := hclean _ hlt hdirty
  have hold : slot < view.window.slots := by
    by_contra hge
    have hmax : sizeMax = 2 ^ 64 - 1 := rfl
    have hnone : view.window.bound slot = sizeMax := hb.bound_none (by omega)
    rw [hbound, hnone] at hlt
    omega
  obtain ⟨row, hrow, hscreen⟩ := h slot hold
  rw [← hbound] at hrow hscreen
  refine ⟨row, hdata.trans hrow, ?_⟩
  rw [hscreen, hpitch]

theorem shows_idle {view : View α} (h : Shows view) :
    Shows (refill ([], view.window) view.data view.screen) := by
  intro slot hslot
  obtain ⟨row, hrow, hscreen⟩ := h slot hslot
  exact ⟨row, hrow, by simpa [refill] using hscreen⟩

/-- The invariant of a virtual list in use. -/
structure Tracked {α : Type*} (view : View α) : Prop where
  scrolled : Scrolled view.window
  pooled : Pooled view.window
  length_eq : view.data.length = view.window.count
  shows : Shows view

theorem shows_keepFocus {view : View α} (h : Shows view) (hb : Pooled view.window) {data' : List α}
    (offset : ℤ) (hbound : window.bound = view.window.bound) (hlen : data'.length = window.count)
    (hcount : window.count < 2 ^ 31)
    (hclean : ∀ row < window.count, ¬ (dirty ≤ row ∧ row - dirty < changed) →
      window.pitch = view.window.pitch ∧ data'[row]? = view.data[row]?) :
    data'.length = (bind (keepFocus window offset) dirty changed).2.count ∧
      Shows (refill (bind (keepFocus window offset) dirty changed) data' view.screen) := by
  rw [keepFocus]
  split
  · exact ⟨hlen, shows_bind h hb hbound hlen hcount hclean⟩
  · exact ⟨hlen, shows_bind h hb hbound hlen hcount hclean⟩

theorem getElem?_inserted {data rows : List α} {at' row : ℕ} (hat : at' ≤ data.length)
    (h : row < at') : (data.take at' ++ rows ++ data.drop at')[row]? = data[row]? := by
  rw [List.append_assoc, List.getElem?_append_left (by simp; omega), List.getElem?_take_of_lt h]

theorem getElem?_deleted {data : List α} {at' count row : ℕ} (hat : at' ≤ data.length)
    (h : row < at') : (data.take at' ++ data.drop (at' + count))[row]? = data[row]? := by
  rw [List.getElem?_append_left (by simp; omega), List.getElem?_take_of_lt h]

/-- **One call keeps the slots right.** -/
theorem tracked_perform {view : View α} (h : Tracked view) {op : Op} (hf : FitsAfter view.window op)
    {data' : List α} (hed : Edited view.data data' op) :
    Tracked (refill (perform view.window op) data' view.screen) := by
  obtain ⟨hs, hb, hlen, hshow⟩ := h
  have hs' := scrolled_perform hs hf
  have hb' := pooled_perform hb op
  have hcount := count_lt hs.scaled.1 hs.fits
  -- A bound on the rows that are not marked as changed to the end of the list.
  have hbefore : ∀ {at' row : ℕ}, row < 2 ^ 31 → ¬ (at' ≤ row ∧ row - at' < sizeMax) →
      row < at' := by
    intro at' row hrow hclean
    have hmax : sizeMax = 2 ^ 64 - 1 := rfl
    omega
  suffices hsuff : data'.length = (perform view.window op).2.count ∧
      Shows (refill (perform view.window op) data' view.screen) from
    ⟨hs', hb', hsuff.1, hsuff.2⟩
  cases op with
  | setFocus focus =>
    obtain rfl : data' = view.data := hed
    simp only [perform, setFocus]
    split
    · exact ⟨hlen, shows_idle hshow⟩
    · exact ⟨hlen, shows_bind hshow hb rfl hlen hcount fun _ _ _ => ⟨rfl, rfl⟩⟩
  | setTop row =>
    obtain rfl : data' = view.data := hed
    simp only [perform, setTop]
    split
    · exact ⟨hlen, shows_idle hshow⟩
    · exact ⟨hlen, shows_bind hshow hb rfl hlen hcount fun _ _ _ => ⟨rfl, rfl⟩⟩
  | inserted at' count =>
    simp only [Edited, hlen] at hed
    simp only [perform, inserted]
    split at hed
    · obtain ⟨rows, hrows, rfl⟩ := hed
      rename_i hat
      split
      · rename_i hc
        obtain rfl : rows = [] := List.eq_nil_of_length_eq_zero (by omega)
        simp only [List.append_nil, List.take_append_drop]
        exact ⟨hlen, shows_idle hshow⟩
      · rename_i hc
        have hf' : Fits (view.window.count + count) view.window.pitch := by
          simpa [FitsAfter, countAfter, pitchAfter, hat] using hf
        have hlt := count_lt hs.scaled.1 hf'
        have hadd : Word.add 64 view.window.count count = view.window.count + count :=
          Word.add_eq (by omega)
        have hlen' : (view.data.take at' ++ rows ++ view.data.drop at').length =
            Word.add 64 view.window.count count := by
          rw [hadd]
          simp only [List.length_append, List.length_take, List.length_drop]
          omega
        refine shows_keepFocus hshow hb _ rfl hlen' (by rw [hadd]; exact hlt) ?_
        intro row hrow hclean
        simp only [hadd] at hrow
        have hrow' := hbefore (by omega) hclean
        exact ⟨rfl, getElem?_inserted (by omega) hrow'⟩
    · obtain rfl := hed
      rename_i hat
      rw [if_pos (by omega)]
      exact ⟨hlen, shows_idle hshow⟩
  | deleted at' count =>
    obtain rfl : data' = view.data.take at' ++ view.data.drop (at' + count) := hed
    simp only [perform, deleted]
    split
    · rename_i hc
      have hsame : view.data.take at' ++ view.data.drop (at' + count) = view.data := by
        rcases hc with rfl | hge
        · rw [Nat.add_zero, List.take_append_drop]
        · rw [List.take_of_length_le (by omega), List.drop_of_length_le (by omega),
            List.append_nil]
      rw [hsame]
      exact ⟨hlen, shows_idle hshow⟩
    · rename_i hc
      have hlen' : (view.data.take at' ++ view.data.drop (at' + count)).length =
          view.window.count - if count > view.window.count - at' then
            view.window.count - at' else count := by
        simp only [List.length_append, List.length_take, List.length_drop]
        split
        · omega
        · omega
      refine shows_keepFocus hshow hb _ rfl hlen' (by simp only; omega) ?_
      intro row hrow hclean
      simp only at hrow
      have hrow' := hbefore (by omega) hclean
      exact ⟨rfl, getElem?_deleted (by omega) hrow'⟩
  | invalidate first count =>
    obtain ⟨hlen', hsame⟩ := hed
    refine ⟨hlen'.trans hlen, shows_bind hshow hb rfl (hlen'.trans hlen) hcount ?_⟩
    intro row hrow hclean
    exact ⟨rfl, hsame row (by omega)⟩
  | resize pitch height =>
    obtain rfl : data' = view.data := hed
    refine shows_keepFocus hshow hb _ rfl hlen hcount ?_
    intro row hrow hclean
    refine ⟨?_, rfl⟩
    by_contra hmoved
    rw [if_pos hmoved] at hclean
    have hlt := hbefore (Nat.lt_trans hrow hcount) hclean
    omega

/-! ### A step of the focus -/

theorem slotRow_succ {slots first slot : ℕ}
    (h : slotRow slots (first + 1) slot ≠ slotRow slots first slot) : slot = first % slots := by
  by_cases hslot : slot < slots
  · by_contra hne
    rw [slotRow_of_lt hslot, slotRow_of_lt hslot] at h
    exact h (ModWindow.rowOf_succ hslot hne)
  · rw [slotRow_of_le (by omega), slotRow_of_le (by omega)] at h
    exact absurd rfl h

theorem length_filter_range_le_one {n k : ℕ} {p : ℕ → Bool} (h : ∀ i, p i = true → i = k) :
    ((List.range n).filter p).length ≤ 1 := by
  have hnodup : ((List.range n).filter p).Nodup := List.nodup_range.filter _
  have hsub : (List.range n).filter p ⊆ [k] := by
    intro i hi
    rw [List.mem_singleton]
    exact h i (List.mem_filter.mp hi).2
  exact (List.subperm_of_subset hnodup hsub).length_le

theorem bind_length_le_one {f : ℕ} (hbound : window.bound = slotRow (poolSize window) f)
    (hstep : poolSize window ≤ 1 ∨ firstRow window (poolSize window) = f ∨
      firstRow window (poolSize window) = f + 1 ∨ f = firstRow window (poolSize window) + 1) :
    (bind window 0 0).1.length ≤ 1 := by
  have hpick : ∃ k, ∀ slot, slotRow (poolSize window) (firstRow window (poolSize window)) slot ≠
      slotRow (poolSize window) f slot → slot = k := by
    rcases hstep with hone | hsame | hdown | hup
    · refine ⟨0, fun slot hne => ?_⟩
      by_contra hslot
      rw [slotRow_of_le (by omega), slotRow_of_le (by omega)] at hne
      exact hne rfl
    · rw [hsame]
      exact ⟨0, fun slot hne => absurd rfl hne⟩
    · rw [hdown]
      exact ⟨f % poolSize window, fun slot hne => slotRow_succ hne⟩
    · rw [hup]
      exact ⟨firstRow window (poolSize window) % poolSize window, fun slot hne =>
        slotRow_succ (Ne.symm hne)⟩
  obtain ⟨k, hk⟩ := hpick
  refine length_filter_range_le_one (k := k) fun slot hslot => hk slot ?_
  simpa [hbound] using hslot

theorem ediv_step {top top' pitch : ℤ} (hp : 1 ≤ pitch) (hle : top ≤ top')
    (hnear : top' ≤ top + pitch) :
    top / pitch ≤ top' / pitch ∧ top' / pitch ≤ top / pitch + 1 := by
  refine ⟨Int.ediv_le_ediv (by omega) hle, ?_⟩
  calc top' / pitch ≤ (top + pitch) / pitch := Int.ediv_le_ediv (by omega) hnear
    _ = top / pitch + 1 := Int.add_ediv_of_dvd_right (Int.dvd_refl _) |>.trans (by
        rw [Int.ediv_self (by omega)])

/-- The offset after a focus move: the least change that reveals the row. -/
def revealed (window : Window) (focus : ℕ) : ℤ :=
  if (focus : ℤ) * window.pitch < window.top then (focus : ℤ) * window.pitch
  else if (focus : ℤ) * window.pitch + window.pitch > window.top + window.view then
    (focus : ℤ) * window.pitch + window.pitch - window.view
  else window.top

theorem showFocus_revealed (hs : Scrolled window) (hlt : focus < window.count) :
    showFocus { window with focus := focus } window.top =
      { window with focus := focus, top := revealed window focus } := by
  obtain ⟨hp, hv⟩ := hs.scaled
  have hcount := count_lt hp hs.fits
  have hfits : (window.count : ℤ) * window.pitch < 2 ^ 31 := hs.fits
  have h0 := hs.top_nonneg
  have hle := hs.top_le
  have hmax := topMax_eq window
  obtain ⟨hrow, hend⟩ := focus_row_le hp hlt
  have hne : focus ≠ sizeMax := by
    rw [sizeMax, Word.maxVal]
    omega
  have hclamp : (if window.top < 0 then 0
      else if window.top > topMax { window with focus := focus } then
        topMax { window with focus := focus } else window.top) = window.top := by
    change (if window.top < 0 then 0
      else if window.top > topMax window then topMax window else window.top) = window.top
    rw [if_neg (by omega), if_neg (by omega)]
  have h32 : toInt32 (revealed window focus) = revealed window focus := by
    refine toInt32_eq ?_ ?_
    · rw [revealed]
      split
      · exact hrow
      · split
        · omega
        · exact h0
    · rw [revealed]
      split
      · omega
      · split
        · omega
        · omega
  simp only [showFocus, hclamp, ne_eq, hne, not_false_eq_true, if_true]
  rw [← revealed, h32]

theorem revealed_adjacent (hs : Scrolled window) (hc : window.count ≠ 0) (hview : 0 < window.view)
    (hadj : focus = window.focus + 1 ∨ focus + 1 = window.focus) :
    window.top / window.pitch ≤ revealed window focus / window.pitch + 1 ∧
      revealed window focus / window.pitch ≤ window.top / window.pitch + 1 := by
  obtain ⟨hp, -⟩ := hs.scaled
  have hreveal := hs.reveals hc
  have hrow : (focus : ℤ) * window.pitch = window.focus * window.pitch + window.pitch ∨
      (focus : ℤ) * window.pitch = window.focus * window.pitch - window.pitch := by
    rcases hadj with rfl | hadj
    · left
      rw [Int.natCast_add, Int.natCast_one, Int.add_mul, Int.one_mul]
    · right
      rw [← hadj, Int.natCast_add, Int.natCast_one, Int.add_mul, Int.one_mul]
      omega
  -- Either the offset moves by at most a row, or the view is lower than a row.
  have hmove : (window.top - window.pitch ≤ revealed window focus ∧
        revealed window focus ≤ window.top + window.pitch) ∨
      ((window.focus : ℤ) * window.pitch ≤ window.top ∧
        window.top < window.focus * window.pitch + window.pitch ∧
        (focus : ℤ) * window.pitch ≤ revealed window focus ∧
        revealed window focus < focus * window.pitch + window.pitch) := by
    rw [Reveals] at hreveal
    rw [revealed]
    generalize (focus : ℤ) * window.pitch = row at *
    generalize (window.focus : ℤ) * window.pitch = row0 at *
    split
    · omega
    · split
      · omega
      · omega
  have hquot : ∀ {t : ℤ} {n : ℕ}, (n : ℤ) * window.pitch ≤ t → t < n * window.pitch + window.pitch →
      t / window.pitch = n := by
    intro t n hlow hhigh
    refine Int.le_antisymm ?_ (Int.le_ediv_of_mul_le (by omega) hlow)
    refine Int.le_of_lt_add_one (Int.ediv_lt_of_lt_mul (by omega) ?_)
    rw [Int.add_mul, Int.one_mul]
    exact hhigh
  rcases hmove with ⟨hlow, hhigh⟩ | ⟨h1, h2, h3, h4⟩
  · rcases Int.le_total window.top (revealed window focus) with hle | hle
    · have hdiv := ediv_step hp hle hhigh
      omega
    · have hdiv := ediv_step hp hle (by omega)
      omega
  · rw [hquot h1 h2, hquot h3 h4]
    omega

theorem first_step {a b last : ℕ} {x y : ℤ} (ha : (a : ℤ) = min x last) (hb : (b : ℤ) = min y last)
    (h : x ≤ y + 1 ∧ y ≤ x + 1) : b = a ∨ b = a + 1 ∨ a = b + 1 := by
  omega

theorem poolSize_le_one (hview : ¬ 0 < window.view) : poolSize window ≤ 1 := by
  have hone : ¬ 1 > slotsMax := by decide
  simp only [poolSize, gt_iff_lt, if_neg hview, if_neg hone]
  split
  · exact Nat.le_refl 1
  · omega

/-- **One row up or down rebinds at most one slot.** -/
theorem setFocus_adjacent (hs : Scrolled window) (hb : Pooled window)
    (hadj : focus = window.focus + 1 ∨ focus + 1 = window.focus) :
    (setFocus window focus).1.length ≤ 1 := by
  rw [setFocus]
  split
  · exact Nat.zero_le _
  · rename_i hge
    have hlt : focus < window.count := by omega
    obtain ⟨t, heq, ht⟩ := @scrolled_showFocus { window with focus := focus }
      hs.scaled hs.fits (fun hc => absurd hlt (by simp only at hc; omega)) (fun _ => hlt) window.top
    rw [showFocus_revealed hs hlt] at heq ⊢
    obtain rfl : revealed window focus = t := congrArg Window.top heq
    have hfirst := firstRow_eq hs (poolSize window)
    have hfirst' := firstRow_eq ht (poolSize window)
    have hbound : window.bound = slotRow (poolSize window) window.first := by
      rw [hb.bound_eq, hb.slots_eq]
    refine bind_length_le_one (f := window.first) hbound ?_
    by_cases hview : 0 < window.view
    · right
      have hstep := revealed_adjacent hs (by omega) hview hadj
      rw [hb.first_eq]
      simp only at hfirst'
      exact first_step hfirst hfirst' hstep
    · left
      exact poolSize_le_one hview

/-! ### The drawn rows of a run -/

theorem tracked_of_reachable {view : View α} (h : (viewMachine α).Reachable view) :
    Tracked view := by
  refine h.invariant (P := Tracked) ?_ ?_
  · rintro _ ⟨data, pitch, height, screen, hf, rfl⟩
    refine ⟨scrolled_init hf, pooled_bind _ 0 0, rfl, ?_⟩
    have hp : (1 : ℤ) ≤ if pitch > 0 then pitch else 1 := by split <;> omega
    refine shows_of_clean rfl (count_lt hp hf) fun slot hlt _ => ?_
    -- Before `init` no slot has a row.
    have hcount := count_lt hp hf
    change sizeMax < data.length at hlt
    rw [sizeMax, Word.maxVal] at hlt
    omega
  · rintro view op _ htr ⟨hf, data', hed, rfl⟩
    exact tracked_perform htr hf hed

/-- **The rebind list is complete.**  After every call each slot of the pool
shows its row's current data at its current place, and one row up or down
fills at most one slot. -/
theorem shows_of_reachable {α : Type*} {view : View α} (h : (viewMachine α).Reachable view) :
    Shows view ∧ ∀ focus, focus = view.window.focus + 1 ∨ focus + 1 = view.window.focus →
      (setFocus view.window focus).1.length ≤ 1 := by
  have htr := tracked_of_reachable h
  exact ⟨htr.shows, fun focus hadj => setFocus_adjacent htr.scrolled htr.pooled hadj⟩

/-- Five rows in a view of three and a half, with one row inserted at the top. -/
theorem shows_row_inserted :
    Shows (refill (perform (init 5 10 35).2 (.inserted 0 1)) [0, 1, 2, 3, 4, 5]
      (refill (init 5 10 35) [1, 2, 3, 4, 5] fun _ => none).screen) := by
  have hstart : (viewMachine ℕ).Reachable (refill (init 5 10 35) [1, 2, 3, 4, 5] fun _ => none) :=
    .start ⟨[1, 2, 3, 4, 5], 10, 35, fun _ => none, by decide, rfl⟩
  have hfits : FitsAfter (init 5 10 35).2 (.inserted 0 1) := by decide
  have hed : Edited [1, 2, 3, 4, 5] [0, 1, 2, 3, 4, 5] (.inserted 0 1) := ⟨[0], rfl, rfl⟩
  exact (shows_of_reachable (hstart.step (a := .inserted 0 1) ⟨hfits, _, hed, rfl⟩)).1

end VirtualWindow
