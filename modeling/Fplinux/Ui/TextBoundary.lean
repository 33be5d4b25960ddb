/-
Code-point boundaries of UTF-8 text, as `fplinux-ui-text-model.c` finds them.

A caret is a byte offset.  It lies on a boundary when the bytes before it are
well-formed by themselves; then so are the bytes after it.  The code looks at
one byte at a time: an offset is a boundary when the byte there is no
continuation byte.

Main results:
- `isBoundary_of_lead`: so it is;
- `isBoundary_succ_of_ascii`: the offset after an ASCII byte is a boundary;
- `isBoundary_previousBoundary`, `isBoundary_nextBoundary`: the offsets a caret
  moves to;
- `countCharacters_eq`: the characters counted are the scalars.
-/
import Fplinux.Utf8

namespace TextBoundary

open Utf8

/-- `(byte & 0xc0) == 0x80`. -/
def isContinuation (b : UInt8) : Bool := b.toNat / 64 = 2

def countCharacters (bytes : List UInt8) : ℕ := bytes.countP fun b => !isContinuation b

def previousBoundary (text : List UInt8) : ℕ → ℕ
  | 0 => 0
  | offset + 1 =>
    if offset ≠ 0 ∧ isContinuation (text.getD offset 0) then previousBoundary text offset
    else offset

/-- The loop of `nextBoundary`; `fuel` bounds the bytes left. -/
def skipContinuation (text : List UInt8) (length : ℕ) : ℕ → ℕ → ℕ
  | 0, offset => offset
  | fuel + 1, offset =>
    if offset < length ∧ isContinuation (text.getD offset 0) then
      skipContinuation text length fuel (offset + 1)
    else offset

def nextBoundary (text : List UInt8) (length offset : ℕ) : ℕ :=
  if offset ≥ length then length else skipContinuation text length (length - offset) (offset + 1)

/-! ### Well-formed prefixes -/

theorem decodes_of_append {a b : List UInt8} {xs zs : List ℕ} (ha : Decodes a xs)
    (h : Decodes (a ++ b) zs) : ∃ ys, Decodes b ys ∧ zs = xs ++ ys := by
  induction ha generalizing zs with
  | nil => exact ⟨zs, h, rfl⟩
  | @cons char bytes value values hchar _ ih =>
    -- The first scalar is the same one, whichever way it is read.
    have hnext : next (char ++ (bytes ++ b)) = some (value, bytes ++ b) := hchar.next_eq _
    rw [List.append_assoc] at h
    generalize hwhole : char ++ (bytes ++ b) = whole at h hnext
    cases h with
    | nil => simp [next] at hnext
    | @cons char' rest value' values' hchar' hrest =>
      rw [hchar'.next_eq, Option.some.injEq, Prod.mk.injEq] at hnext
      obtain ⟨rfl, rfl⟩ := hnext
      obtain ⟨ys, hys, rfl⟩ := ih hrest
      exact ⟨ys, hys, rfl⟩

/-- An offset of the text that does not divide a scalar. -/
structure IsBoundary (text : List UInt8) (offset : ℕ) : Prop where
  le : offset ≤ text.length
  decodes : ∃ values, Decodes (text.take offset) values

theorem isBoundary_zero (text : List UInt8) : IsBoundary text 0 :=
  ⟨Nat.zero_le _, [], .nil⟩

variable {text : List UInt8} {values : List ℕ} {offset : ℕ}

theorem isBoundary_length (h : Decodes text values) : IsBoundary text text.length :=
  ⟨Nat.le_refl _, values, by rw [List.take_length]; exact h⟩

theorem IsBoundary.split (hb : IsBoundary text offset) (h : Decodes text values) :
    ∃ before after, Decodes (text.take offset) before ∧ Decodes (text.drop offset) after ∧
      values = before ++ after := by
  obtain ⟨before, hbefore⟩ := hb.decodes
  rw [← List.take_append_drop offset text] at h
  obtain ⟨after, hafter, rfl⟩ := decodes_of_append hbefore h
  exact ⟨before, after, hbefore, hafter, rfl⟩

theorem isBoundary_prepend {char bytes : List UInt8} {value : ℕ} (hchar : Encodes char value)
    (hle : char.length ≤ offset) (h : IsBoundary bytes (offset - char.length)) :
    IsBoundary (char ++ bytes) offset := by
  obtain ⟨values, hvalues⟩ := h.decodes
  have hle' := h.le
  refine ⟨by rw [List.length_append]; omega, value :: values, ?_⟩
  rw [List.take_append, List.take_of_length_le hle]
  exact .cons hchar hvalues

/-- **A byte that is no continuation byte** stands on a boundary. -/
theorem isBoundary_of_lead (h : Decodes text values) (hle : offset ≤ text.length)
    (hlead : ∀ b, text[offset]? = some b → isContinuation b = false) : IsBoundary text offset := by
  induction h generalizing offset with
  | nil =>
    obtain rfl : offset = 0 := Nat.le_zero.mp hle
    exact isBoundary_zero []
  | @cons char bytes value values hchar hrest ih =>
    by_cases hoffset : char.length ≤ offset
    · refine isBoundary_prepend hchar hoffset (ih ?_ fun b hb => hlead b ?_)
      · rw [List.length_append] at hle
        omega
      · rw [List.getElem?_append_right hoffset]
        exact hb
    · -- Inside a scalar only the lead byte is no continuation byte.
      obtain ⟨lead, tail, rfl, -, htail⟩ := hchar.lead
      cases offset with
      | zero => exact isBoundary_zero _
      | succ offset =>
        have hlt : offset < tail.length := by
          rw [List.length_cons] at hoffset
          omega
        have hcont := hlead tail[offset] (by simp [List.getElem?_append, hlt])
        rw [isContinuation, htail _ (List.getElem_mem hlt)] at hcont
        simp at hcont

/-- **After an ASCII byte** there is a boundary. -/
theorem isBoundary_succ_of_ascii (h : Decodes text values) {b : UInt8} (hb : text[offset]? = some b)
    (hascii : b.toNat < 0x80) :
    IsBoundary text (offset + 1) := by
  induction h generalizing offset with
  | nil => simp at hb
  | @cons char bytes value values hchar hrest ih =>
    by_cases hoffset : char.length ≤ offset
    · rw [List.getElem?_append_right hoffset] at hb
      refine isBoundary_prepend hchar (by omega) ?_
      rw [Nat.sub_add_comm hoffset]
      exact ih hb
    · rw [List.getElem?_append_left (by omega)] at hb
      have hmem : b ∈ char := List.mem_of_getElem? hb
      rcases hchar.ascii with ⟨-, single, rfl, -⟩ | ⟨-, hall⟩
      · rw [List.length_singleton] at hoffset
        refine isBoundary_prepend hchar (by simp) ?_
        have hzero : offset + 1 - [single].length = 0 := by
          rw [List.length_singleton]
          omega
        rw [hzero]
        exact isBoundary_zero _
      · have hge := hall b hmem
        omega

/-! ### The offsets a caret moves to -/

theorem previousBoundary_le (text : List UInt8) (offset : ℕ) :
    previousBoundary text offset ≤ offset := by
  induction offset with
  | zero => exact Nat.le_refl 0
  | succ offset ih =>
    rw [previousBoundary]
    split
    · omega
    · omega

theorem isBoundary_previousBoundary (h : Decodes text values) (hle : offset ≤ text.length) :
    IsBoundary text (previousBoundary text offset) := by
  induction offset with
  | zero => exact isBoundary_zero text
  | succ offset ih =>
    rw [previousBoundary]
    split
    · exact ih (by omega)
    · rename_i hstop
      by_cases hzero : offset = 0
      · rw [hzero]
        exact isBoundary_zero text
      · refine isBoundary_of_lead h (by omega) fun b hb => ?_
        rw [List.getD_eq_getElem?_getD, hb] at hstop
        simpa [hzero] using hstop

theorem skipContinuation_le (text : List UInt8) (length fuel offset : ℕ) (h : offset ≤ length) :
    offset ≤ skipContinuation text length fuel offset ∧
      skipContinuation text length fuel offset ≤ length := by
  induction fuel generalizing offset with
  | zero => exact ⟨Nat.le_refl _, h⟩
  | succ fuel ih =>
    rw [skipContinuation]
    split
    · rename_i hgo
      obtain ⟨h1, h2⟩ := ih (offset + 1) (by omega)
      exact ⟨by omega, h2⟩
    · exact ⟨Nat.le_refl _, h⟩

theorem lead_skipContinuation (text : List UInt8) (fuel offset : ℕ)
    (h : text.length ≤ offset + fuel) :
    ∀ b, text[skipContinuation text text.length fuel offset]? = some b →
      isContinuation b = false := by
  induction fuel generalizing offset with
  | zero =>
    intro b hb
    rw [skipContinuation, List.getElem?_eq_none (by omega)] at hb
    simp at hb
  | succ fuel ih =>
    rw [skipContinuation]
    split
    · exact ih (offset + 1) (by omega)
    · rename_i hstop
      intro b hb
      obtain ⟨hlt, -⟩ := List.getElem?_eq_some_iff.mp hb
      rw [List.getD_eq_getElem?_getD, hb] at hstop
      simpa [hlt] using hstop

theorem le_nextBoundary (h : offset ≤ text.length) :
    offset ≤ nextBoundary text text.length offset ∧
      nextBoundary text text.length offset ≤ text.length := by
  rw [nextBoundary]
  split
  · exact ⟨h, Nat.le_refl _⟩
  · obtain ⟨h1, h2⟩ := skipContinuation_le text text.length (text.length - offset) (offset + 1)
      (by omega)
    exact ⟨by omega, h2⟩

theorem isBoundary_nextBoundary (h : Decodes text values) (hle : offset ≤ text.length) :
    IsBoundary text (nextBoundary text text.length offset) := by
  refine isBoundary_of_lead h (le_nextBoundary hle).2 ?_
  rw [nextBoundary]
  split
  · intro b hb
    simp at hb
  · exact lead_skipContinuation text _ _ (by omega)

/-! ### Counting -/

theorem countCharacters_append (a b : List UInt8) :
    countCharacters (a ++ b) = countCharacters a + countCharacters b :=
  List.countP_append

/-- **The characters counted** are the scalars of the text. -/
theorem countCharacters_eq {bytes : List UInt8} (h : Decodes bytes values) :
    countCharacters bytes = values.length := by
  induction h with
  | nil => rfl
  | @cons char bytes value values hchar _ ih =>
    obtain ⟨lead, tail, rfl, hlead, htail⟩ := hchar.lead
    have hone : countCharacters (lead :: tail) = 1 := by
      have hrest : tail.countP (fun b => !isContinuation b) = 0 := by
        rw [List.countP_eq_zero]
        intro b hb
        simp [isContinuation, htail b hb]
      rw [countCharacters, List.countP_cons, hrest]
      simp [isContinuation, hlead]
    rw [countCharacters_append, ih, hone, List.length_cons, Nat.add_comm]

theorem IsBoundary.lead (hb : IsBoundary text offset) (h : Decodes text values) :
    ∀ b, text[offset]? = some b → isContinuation b = false := by
  intro b hget
  obtain ⟨before, after, -, hafter, -⟩ := hb.split h
  have hhead : (text.drop offset)[0]? = some b := by
    rw [List.getElem?_drop, Nat.add_zero]
    exact hget
  generalize text.drop offset = rest at hafter hhead
  cases hafter with
  | nil => simp at hhead
  | cons hchar _ =>
    obtain ⟨lead, tail, rfl, hlead, -⟩ := hchar.lead
    simp only [List.cons_append, List.getElem?_cons_zero, Option.some.injEq] at hhead
    rw [← hhead, isContinuation]
    simpa using hlead

theorem countCharacters_take_succ (text : List UInt8) {b : UInt8} (h : text[offset]? = some b) :
    countCharacters (text.take (offset + 1)) =
      countCharacters (text.take offset) + if isContinuation b then 0 else 1 := by
  rw [List.take_add_one, h, countCharacters_append]
  cases hb : isContinuation b with
  | true => simp [countCharacters, hb]
  | false => simp [countCharacters, hb]

theorem countCharacters_skipContinuation (text : List UInt8) (fuel offset : ℕ) :
    countCharacters (text.take (skipContinuation text text.length fuel offset)) =
      countCharacters (text.take offset) := by
  induction fuel generalizing offset with
  | zero => rfl
  | succ fuel ih =>
    rw [skipContinuation]
    split
    · rename_i hgo
      have hget : text[offset]? = some (text.getD offset 0) := by
        rw [List.getD_eq_getElem?_getD, List.getElem?_eq_getElem hgo.1]
        rfl
      rw [ih, countCharacters_take_succ text hget, hgo.2, if_pos rfl, Nat.add_zero]
    · rfl

theorem countCharacters_nextBoundary (h : Decodes text values) (hb : IsBoundary text offset)
    (hlt : offset < text.length) :
    countCharacters (text.take (nextBoundary text text.length offset)) =
      countCharacters (text.take offset) + 1 := by
  have hget : text[offset]? = some text[offset] := List.getElem?_eq_getElem hlt
  rw [nextBoundary, if_neg (by omega), countCharacters_skipContinuation,
    countCharacters_take_succ text hget, hb.lead h _ hget]
  rfl

theorem IsBoundary.eq_of_count {p q : ℕ} (hp : IsBoundary text p) (hq : IsBoundary text q)
    (hcount : countCharacters (text.take p) = countCharacters (text.take q)) : p = q := by
  have hle : ∀ {p q : ℕ}, IsBoundary text p → IsBoundary text q → p ≤ q →
      countCharacters (text.take p) = countCharacters (text.take q) → p = q := by
    intro p q hp hq hpq heq
    obtain ⟨before, hbefore⟩ := hp.decodes
    obtain ⟨upto, hupto⟩ := hq.decodes
    have hsplit : text.take q = text.take p ++ (text.drop p).take (q - p) := by
      rw [← List.take_add]
      congr 1
      omega
    rw [hsplit] at hupto heq
    obtain ⟨between, hbetween, rfl⟩ := decodes_of_append hbefore hupto
    -- No scalar lies between them, so no byte does.
    rw [countCharacters_append, countCharacters_eq hbetween] at heq
    have hnone : between = [] := List.length_eq_zero_iff.mp (by omega)
    rw [hnone] at hbetween
    generalize hbytes : (text.drop p).take (q - p) = bytes at hbetween
    have hzero : bytes = [] := by
      cases hbetween with
      | nil => rfl
    rw [hzero] at hbytes
    have hlength := congrArg List.length hbytes
    rw [List.length_take, List.length_drop, List.length_nil] at hlength
    have hbound := hq.le
    omega
  rcases Nat.le_total p q with hpq | hqp
  · exact hle hp hq hpq hcount
  · exact (hle hq hp hqp hcount.symm).symm

/-! ### Text of ASCII characters -/

theorem isBoundary_ascii (h : ∀ b ∈ text, b.toNat < 0x80) (hle : offset ≤ text.length) :
    IsBoundary text offset :=
  ⟨hle, _, decodes_ascii fun b hb => h b (List.mem_of_mem_take hb)⟩

theorem countCharacters_ascii (h : ∀ b ∈ text, b.toNat < 0x80) :
    countCharacters text = text.length := by
  rw [countCharacters_eq (decodes_ascii h), List.length_map]

end TextBoundary
