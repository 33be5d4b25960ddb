/-
Scans of UTF-8 (`fplinux-utf8.c`, `fplinux_text_input_encode_utf8`).

A caller reads a text with repeated calls of `fplinux_utf8_next`.  Strict callers stop at the
first failure; the search goes on behind the byte that begins no scalar.

Main results:
- `eq_encodeUtf8_of_next`: the bytes of a scalar are those the encoder writes;
- `scan_iff`: the accepted texts are the concatenated encodings of their scalars;
- `scans_accept_utf8`: with what a failed call leaves and how a scan ends.
-/
import Fplinux.Ui.TextInput
import Fplinux.Utf8Search

namespace Utf8

open TextInput (encodeUtf8 encodes_encodeUtf8)

/-- `fplinux_utf8_next` with its results in place: whether it read a scalar, the bytes from
the cursor on, and `*value`. -/
def nextAt (text : List UInt8) (value : ℕ) : Bool × List UInt8 × ℕ :=
  match next text with
  | some (codepoint, rest) => (true, rest, codepoint)
  | none => (false, text, value)

variable {text rest : List UInt8} {value : ℕ}

theorem length_of_next (h : next text = some (value, rest)) : rest.length < text.length := by
  obtain ⟨char, happ, henc⟩ := encodes_of_next h
  have hpos := List.length_pos_of_ne_nil henc.ne_nil
  rw [happ, List.length_append]
  omega

/-- Repeated calls until the end of the text: the scalars, unless a call fails. -/
def scan (text : List UInt8) : Option (List ℕ) :=
  if text = [] then some []
  else
    match _ : next text with
    | some read => (scan read.2).map (read.1 :: ·)
    | none => none
termination_by text.length
decreasing_by exact length_of_next ‹_›

/-- The cursor after a step of the search, which takes a malformed byte by itself. -/
def skip : List UInt8 → List UInt8
  | [] => []
  | byte :: text => (foldedNext byte text).2

/-! ### The bytes of a scalar -/

theorem continued_succ_eq_some {count codepoint : ℕ}
    (h : continued (count + 1) codepoint text = some (value, rest)) :
    ∃ byte tail, text = byte :: tail ∧ byte.toNat / 64 = 2 ∧
      continued count (codepoint * 64 + byte.toNat % 64) tail = some (value, rest) := by
  cases text with
  | nil => simp [continued] at h
  | cons byte tail =>
    by_cases hbyte : byte.toNat / 64 = 2
    · rw [continued, if_pos hbyte] at h
      exact ⟨byte, tail, rfl, hbyte, h⟩
    · rw [continued, if_neg hbyte] at h
      cases h

theorem eq_toUInt8 {byte : UInt8} {n : ℕ} (h : byte.toNat = n) : byte = n.toUInt8 := by
  rw [← h]
  exact UInt8.ofNat_toNat.symm

theorem isScalar_bounds {minimum codepoint : ℕ} (h : next.isScalar minimum codepoint = true) :
    minimum ≤ codepoint ∧ IsScalar codepoint := by
  rw [next.isScalar, decide_eq_true_eq] at h
  exact h

/-- **No second encoding**: the bytes read as a scalar are those the encoder writes for it. -/
theorem eq_encodeUtf8_of_next (h : next text = some (value, rest)) :
    text = encodeUtf8 value ++ rest := by
  cases text with
  | nil => simp [next] at h
  | cons byte text =>
    by_cases h1 : byte.toNat < 0x80
    · simp only [next, h1, if_true, Option.some.injEq, Prod.mk.injEq] at h
      obtain ⟨rfl, rfl⟩ := h
      rw [encodeUtf8, if_neg (by omega), if_pos h1, ← eq_toUInt8 rfl]
      rfl
    -- The value gives each byte back, and the minimum excludes the shorter forms.
    by_cases h2 : 0xc2 ≤ byte.toNat ∧ byte.toNat ≤ 0xdf
    · rw [next, if_neg h1, if_pos h2, Option.filter_eq_some_iff] at h
      obtain ⟨b, tail, rfl, hb, hend⟩ := continued_succ_eq_some h.1
      obtain ⟨-, hle, hsurrogate⟩ := isScalar_bounds h.2
      simp only [continued, Option.some.injEq, Prod.mk.injEq] at hend
      obtain ⟨hvalue, rfl⟩ := hend
      have hlead : byte = (0xc0 + value / 64).toUInt8 := eq_toUInt8 (by omega)
      have hlast : b = (0x80 + value % 64).toUInt8 := eq_toUInt8 (by omega)
      rw [encodeUtf8, if_neg (by omega), if_neg (by omega), if_pos (by omega), ← hlead, ← hlast]
      rfl
    by_cases h3 : 0xe0 ≤ byte.toNat ∧ byte.toNat ≤ 0xef
    · rw [next, if_neg h1, if_neg h2, if_pos h3, Option.filter_eq_some_iff] at h
      obtain ⟨b, tail, rfl, hb, hread⟩ := continued_succ_eq_some h.1
      obtain ⟨c, tail, rfl, hc, hend⟩ := continued_succ_eq_some hread
      obtain ⟨hmin, hle, hsurrogate⟩ := isScalar_bounds h.2
      simp only [continued, Option.some.injEq, Prod.mk.injEq] at hend
      obtain ⟨hvalue, rfl⟩ := hend
      have hlead : byte = (0xe0 + value / 4096).toUInt8 := eq_toUInt8 (by omega)
      have hmiddle : b = (0x80 + value / 64 % 64).toUInt8 := eq_toUInt8 (by omega)
      have hlast : c = (0x80 + value % 64).toUInt8 := eq_toUInt8 (by omega)
      rw [encodeUtf8, if_neg (by omega), if_neg (by omega), if_neg (by omega), if_pos (by omega),
        ← hlead, ← hmiddle, ← hlast]
      rfl
    by_cases h4 : 0xf0 ≤ byte.toNat ∧ byte.toNat ≤ 0xf4
    · rw [next, if_neg h1, if_neg h2, if_neg h3, if_pos h4, Option.filter_eq_some_iff] at h
      obtain ⟨b, tail, rfl, hb, hread⟩ := continued_succ_eq_some h.1
      obtain ⟨c, tail, rfl, hc, hread⟩ := continued_succ_eq_some hread
      obtain ⟨d, tail, rfl, hd, hend⟩ := continued_succ_eq_some hread
      obtain ⟨hmin, hle, hsurrogate⟩ := isScalar_bounds h.2
      simp only [continued, Option.some.injEq, Prod.mk.injEq] at hend
      obtain ⟨hvalue, rfl⟩ := hend
      have hlead : byte = (0xf0 + value / 262144).toUInt8 := eq_toUInt8 (by omega)
      have hsecond : b = (0x80 + value / 4096 % 64).toUInt8 := eq_toUInt8 (by omega)
      have hthird : c = (0x80 + value / 64 % 64).toUInt8 := eq_toUInt8 (by omega)
      have hlast : d = (0x80 + value % 64).toUInt8 := eq_toUInt8 (by omega)
      rw [encodeUtf8, if_neg (by omega), if_neg (by omega), if_neg (by omega), if_neg (by omega),
        ← hlead, ← hsecond, ← hthird, ← hlast]
      rfl
    · simp [next, h1, h2, h3, h4] at h

/-! ### Scans -/

theorem scan_nil : scan [] = some [] := by
  rw [scan, if_pos rfl]

theorem scan_of_next (h : next text = some (value, rest)) :
    scan text = (scan rest).map (value :: ·) := by
  have hne : text ≠ [] := by
    rintro rfl
    cases h
  rw [scan, if_neg hne]
  split
  · rename_i read hread
    rw [h] at hread
    obtain rfl := Option.some.inj hread
    rfl
  · rename_i hnone
    rw [h] at hnone
    cases hnone

theorem scan_flatMap {values : List ℕ} (h : ∀ value ∈ values, IsScalar value) :
    scan (values.flatMap encodeUtf8) = some values := by
  induction values with
  | nil => exact scan_nil
  | cons value values ih =>
    rw [List.flatMap_cons, scan_of_next ((encodes_encodeUtf8 (h value (by simp))).next_eq _),
      ih fun v hv => h v (by simp [hv])]
    rfl

/-- **What a scan accepts**: the encodings of its scalars, one after the other. -/
theorem scan_iff (text : List UInt8) (values : List ℕ) :
    scan text = some values ↔
      (∀ value ∈ values, IsScalar value) ∧ text = values.flatMap encodeUtf8 := by
  refine ⟨fun h => ?_, fun h => h.2 ▸ scan_flatMap h.1⟩
  induction values generalizing text with
  | nil =>
    rw [scan] at h
    split_ifs at h with hnil
    · exact ⟨by simp, hnil⟩
    · split at h
      · obtain ⟨values, -, heq⟩ := Option.map_eq_some_iff.mp h
        cases heq
      · cases h
  | cons value values ih =>
    rw [scan] at h
    split_ifs at h with hnil
    · cases h
    split at h
    · rename_i read hread
      obtain ⟨found, rest⟩ := read
      obtain ⟨rest', hrest, heq⟩ := Option.map_eq_some_iff.mp h
      obtain ⟨rfl, rfl⟩ := List.cons.inj heq
      obtain ⟨hscalars, htext⟩ := ih rest hrest
      obtain ⟨char, -, henc⟩ := encodes_of_next hread
      refine ⟨?_, by rw [eq_encodeUtf8_of_next hread, htext, List.flatMap_cons]⟩
      intro other hmem
      rcases List.mem_cons.mp hmem with rfl | hrest'
      · exact henc.scalar
      · exact hscalars other hrest'
    · cases h

theorem skip_length (text : List UInt8) : (skip text).length ≤ text.length - 1 := by
  cases text with
  | nil => exact Nat.le_refl _
  | cons byte text => exact nextCode_length byte text

theorem skip_iterate (n : ℕ) (text : List UInt8) : (skip^[n] text).length ≤ text.length - n := by
  induction n generalizing text with
  | zero => exact Nat.le_refl _
  | succ n ih =>
    have hstep := skip_length text
    have hrest := ih (skip text)
    rw [Function.iterate_succ_apply]
    omega

/-- **Scans of UTF-8**: what they accept and decode; what a call that fails leaves; that a
call that succeeds moves the cursor; and that the search, which takes one byte where a call
fails, ends. -/
theorem scans_accept_utf8 :
    (∀ text values, scan text = some values ↔
      (∀ value ∈ values, IsScalar value) ∧ text = values.flatMap encodeUtf8) ∧
    (∀ text value, (nextAt text value).1 = false → nextAt text value = (false, text, value)) ∧
    (∀ text value, (nextAt text value).1 = true →
      (nextAt text value).2.1.length < text.length) ∧
    (∀ byte text value, (nextAt (byte :: text) value).1 = false → skip (byte :: text) = text) ∧
    (∀ text, skip^[text.length] text = []) := by
  refine ⟨scan_iff, fun text value h => ?_, fun text value h => ?_, fun byte text value h => ?_,
    fun text => ?_⟩
  · rw [nextAt] at h ⊢
    split at h
    · cases h
    · rfl
  · rw [nextAt] at h ⊢
    split at h
    · rename_i hnext
      exact length_of_next hnext
    · cases h
  · rw [nextAt] at h
    split at h
    · cases h
    · rename_i hnext
      rw [skip, foldedNext, nextCode, hnext]
  · have hlen := skip_iterate text.length text
    rw [Nat.sub_self] at hlen
    exact List.eq_nil_of_length_eq_zero (Nat.le_zero.mp hlen)

/-- A continuation byte in front: the call fails and consumes nothing. -/
theorem nextAt_malformed : ¬ ∀ text value, text ≠ [] → (nextAt text value).1 = false →
    (nextAt text value).2.1.length + 1 = text.length :=
  fun h => absurd (h [0x80] 0 (by decide) (by decide)) (by decide)

end Utf8
