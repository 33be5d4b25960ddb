/-
The text of a field stays well-formed under every edit of
`fplinux-ui-text-model.c`.

`ContentOk` is everything that the text, the caret and the counters of a field
satisfy; each edit has one lemma.

Main results:
- `contentOk_insertBytes`, `contentOk_deleteRange`: the two edits of the text;
- `contentOk_insertDigit`, `contentOk_toggleMinus`, `contentOk_decimalStar`,
  `contentOk_holdPlus`: the edits of the typed fields;
- `contentOk_newText`, `contentOk_ownText`: another text and another type.
-/
import Fplinux.Ui.TextGrammar

namespace TextModel

open Bytes (byte ascii)
open List (length_append length_drop length_take mem_append mem_of_mem_drop mem_of_mem_take)
open TextBoundary
open Utf8 (Decodes)
open scoped List

/-! ### The content of a field -/

/-- The text of a field with its caret and its counters. -/
structure ContentOk (field : Field) : Prop where
  length : field.text.length = field.length
  capacity : field.length < field.capacity
  decodes : ∃ values, Decodes field.text values ∧ field.characters = values.length
  no_nul : (0 : UInt8) ∉ field.text
  boundary : IsBoundary field.text field.cursor
  limit : fits field field.characters = true
  newline : field.multiline = false → byte '\n' ∉ field.text
  suits : Suits field.type field.separator field.text
  separator : field.type = .decimal → IsSeparator field.separator

/-- What `ContentOk` reads of a field. -/
def content (field : Field) :
    List UInt8 × ℕ × ℕ × ℕ × ℕ × ℕ × Bool × FieldType × UInt8 :=
  (field.text, field.length, field.cursor, field.characters, field.capacity, field.limit,
    field.multiline, field.type, field.separator)

variable {field : Field} {cursor : ℕ} {bytes : List UInt8}

theorem ContentOk.frame {after : Field} (h : ContentOk field)
    (hsame : content after = content field) : ContentOk after := by
  simp only [content, Prod.mk.injEq] at hsame
  obtain ⟨h1, h2, h3, h4, h5, h6, h7, h8, h9⟩ := hsame
  refine ⟨?_, ?_, ?_, ?_, ?_, ?_, ?_, ?_, ?_⟩
  · rw [h1, h2]
    exact h.length
  · rw [h2, h5]
    exact h.capacity
  · rw [h1, h4]
    exact h.decodes
  · rw [h1]
    exact h.no_nul
  · rw [h1, h3]
    exact h.boundary
  · rw [fits, h6, h4]
    exact h.limit
  · rw [h7, h1]
    exact h.newline
  · rw [h8, h9, h1]
    exact h.suits
  · rw [h8, h9]
    exact h.separator

theorem reserve_lt (field : Field) (bytes : ℕ) : bytes < (reserve field bytes).capacity := by
  rw [reserve]
  split
  · assumption
  · show bytes < if field.capacity * 2 ≤ bytes then bytes + 1 else field.capacity * 2
    split
    · omega
    · omega

theorem reserve_eq (field : Field) (bytes : ℕ) :
    reserve field bytes = { field with capacity := (reserve field bytes).capacity } := by
  rw [reserve]
  split
  · rfl
  · rfl

theorem le_reserve (field : Field) (bytes : ℕ) :
    field.capacity ≤ (reserve field bytes).capacity := by
  rw [reserve]
  split
  · exact Nat.le_refl _
  · show field.capacity ≤ if field.capacity * 2 ≤ bytes then bytes + 1 else field.capacity * 2
    split
    · omega
    · omega

theorem ContentOk.reserve (h : ContentOk field) (bytes : ℕ) : ContentOk (reserve field bytes) := by
  have hlt := Nat.lt_of_lt_of_le h.capacity (le_reserve field bytes)
  rw [reserve_eq]
  exact ⟨h.length, hlt, h.decodes, h.no_nul, h.boundary, h.limit, h.newline, h.suits,
    h.separator⟩

theorem ContentOk.setCursor (h : ContentOk field) (hb : IsBoundary field.text cursor) :
    ContentOk { field with cursor := cursor } :=
  ⟨h.length, h.capacity, h.decodes, h.no_nul, hb, h.limit, h.newline, h.suits, h.separator⟩

theorem ContentOk.cursor_le (h : ContentOk field) : field.cursor ≤ field.length :=
  h.length ▸ h.boundary.le

theorem ContentOk.plain (h : ContentOk field) (htype : field.type ≠ .any) :
    ∀ b ∈ field.text, b.toNat < 0x80 ∧ b ≠ 0 ∧ b ≠ byte '\n' :=
  plain_of_suits htype h.separator h.suits

theorem insertBytes_eq (h : fits field (field.characters + countCharacters bytes) = true) :
    insertBytes field bytes = (true,
      { field with
        text := field.text.take field.cursor ++ bytes ++ field.text.drop field.cursor
        cursor := field.cursor + bytes.length
        length := field.length + bytes.length
        characters := field.characters + countCharacters bytes
        capacity := (reserve field (field.length + bytes.length)).capacity
        dirty := true }) := by
  simp only [insertBytes, h, Bool.not_true, Bool.false_eq_true, if_false]
  rw [reserve_eq]

theorem insertBytes_of_not_fits
    (h : fits field (field.characters + countCharacters bytes) = false) :
    insertBytes field bytes = (false, field) := by
  simp [insertBytes, h]

/-- **An insertion** at the caret. -/
theorem contentOk_insertBytes (h : ContentOk field) {values : List ℕ}
    (hbytes : Decodes bytes values) (hnul : (0 : UInt8) ∉ bytes)
    (hline : field.multiline = false → byte '\n' ∉ bytes)
    (hsuits : Suits field.type field.separator
      (field.text.take field.cursor ++ bytes ++ field.text.drop field.cursor)) :
    ContentOk (insertBytes field bytes).2 := by
  cases hfits : fits field (field.characters + countCharacters bytes) with
  | false =>
    rw [insertBytes_of_not_fits hfits]
    exact h
  | true =>
    rw [insertBytes_eq hfits]
    obtain ⟨whole, hwhole, hcount⟩ := h.decodes
    obtain ⟨before, after, hbefore, hafter, rfl⟩ := h.boundary.split hwhole
    have hle := h.boundary.le
    have hcap := reserve_lt field (field.length + bytes.length)
    refine ⟨?_, hcap, ⟨before ++ values ++ after, (hbefore.append hbytes).append hafter, ?_⟩, ?_,
      ⟨?_, before ++ values, ?_⟩, hfits, ?_, hsuits, h.separator⟩
    · show (field.text.take field.cursor ++ bytes ++ field.text.drop field.cursor).length =
        field.length + bytes.length
      rw [← h.length]
      simp only [length_append, length_take, length_drop]
      omega
    · show field.characters + countCharacters bytes = _
      rw [hcount, countCharacters_eq hbytes]
      simp only [length_append]
      omega
    · intro hmem
      simp only [mem_append] at hmem
      rcases hmem with (hmem | hmem) | hmem
      · exact h.no_nul (mem_of_mem_take hmem)
      · exact hnul hmem
      · exact h.no_nul (mem_of_mem_drop hmem)
    · simp only [length_append, length_take, length_drop]
      omega
    · -- The caret stands after the bytes.
      have htake : (field.text.take field.cursor ++ bytes ++ field.text.drop field.cursor).take
          (field.cursor + bytes.length) = field.text.take field.cursor ++ bytes := by
        have hlen : (field.text.take field.cursor ++ bytes).length = field.cursor + bytes.length := by
          rw [length_append, length_take, Nat.min_eq_left hle]
        rw [List.take_append_of_le_length (Nat.le_of_eq hlen.symm)]
        exact List.take_of_length_le (Nat.le_of_eq hlen)
      rw [htake]
      exact hbefore.append hbytes
    · intro hsingle hmem
      simp only [mem_append] at hmem
      rcases hmem with (hmem | hmem) | hmem
      · exact h.newline hsingle (mem_of_mem_take hmem)
      · exact hline hsingle hmem
      · exact h.newline hsingle (mem_of_mem_drop hmem)

theorem sublist_take_drop (text : List UInt8) {start stop : ℕ} (h : start ≤ stop) :
    text.take start ++ text.drop stop <+ text := by
  have hdrop : text.drop stop <+ text.drop start := by
    rw [show stop = start + (stop - start) by omega, ← List.drop_drop]
    exact List.drop_sublist _ _
  calc text.take start ++ text.drop stop <+ text.take start ++ text.drop start :=
        hdrop.append_left _
    _ = text := List.take_append_drop start text

/-- **A deletion** between two boundaries; the caret goes to the first. -/
theorem contentOk_deleteRange (h : ContentOk field) {start stop : ℕ}
    (hstart : IsBoundary field.text start)
    (hstop : IsBoundary field.text stop) (hle : start ≤ stop) :
    ContentOk (deleteRange field start stop) := by
  obtain ⟨whole, hwhole, hcount⟩ := h.decodes
  obtain ⟨upto, after, hupto, hafter, rfl⟩ := hstop.split hwhole
  have hsub := sublist_take_drop field.text hle
  have hbound := hstop.le
  -- The scalars before `stop` are those before `start` and those deleted.
  have hsplit : field.text.take stop =
      field.text.take start ++ (field.text.drop start).take (stop - start) := by
    rw [← List.take_add]
    congr 1
    omega
  obtain ⟨before, hbefore⟩ := hstart.decodes
  rw [hsplit] at hupto
  obtain ⟨gone, hgone, rfl⟩ := decodes_of_append hbefore hupto
  refine ⟨?_, ?_, ⟨before ++ after, hbefore.append hafter, ?_⟩, ?_, ⟨?_, before, ?_⟩, ?_, ?_,
    h.suits.sublist hsub, h.separator⟩
  · show (field.text.take start ++ field.text.drop stop).length = field.length - (stop - start)
    rw [← h.length]
    simp only [length_append, length_take, length_drop]
    omega
  · exact Nat.lt_of_le_of_lt (Nat.sub_le _ _) h.capacity
  · show field.characters - countCharacters ((field.text.drop start).take (stop - start)) = _
    rw [hcount, countCharacters_eq hgone]
    simp only [length_append]
    omega
  · exact fun hmem => h.no_nul (hsub.subset hmem)
  · show start ≤ (field.text.take start ++ field.text.drop stop).length
    simp only [length_append, length_take, length_drop]
    omega
  · show Decodes ((field.text.take start ++ field.text.drop stop).take start) before
    rw [List.take_append_of_le_length (by simp; omega), List.take_take, Nat.min_self]
    exact hbefore
  · have hlimit := h.limit
    simp only [fits, decide_eq_true_eq] at hlimit ⊢
    show field.limit = 0 ∨ field.characters - _ ≤ field.limit
    omega
  · exact fun hsingle hmem => h.newline hsingle (hsub.subset hmem)

/-! ### The edits -/

theorem contentOk_moveCursor (h : ContentOk field) (hb : IsBoundary field.text cursor) :
    ContentOk (moveCursor field cursor) := by
  rw [moveCursor]
  split
  · exact h
  · exact (h.setCursor hb).frame rfl

theorem ContentOk.isBoundary_previous (h : ContentOk field) :
    IsBoundary field.text (previousBoundary field.text field.cursor) := by
  obtain ⟨values, hdec, -⟩ := h.decodes
  exact isBoundary_previousBoundary hdec h.boundary.le

theorem ContentOk.isBoundary_next (h : ContentOk field) (hle : cursor ≤ field.length) :
    IsBoundary field.text (nextBoundary field.text field.length cursor) := by
  obtain ⟨values, hdec, -⟩ := h.decodes
  rw [← h.length] at hle ⊢
  exact isBoundary_nextBoundary hdec hle

theorem contentOk_deleteForward (h : ContentOk field) : ContentOk (deleteForward field) := by
  rw [deleteForward]
  split
  · refine contentOk_deleteRange h h.boundary (h.isBoundary_next h.cursor_le) ?_
    rw [← h.length]
    exact (le_nextBoundary h.boundary.le).1
  · exact h

theorem isBoundary_caretOffset (h : ContentOk field) (index : ℕ)
    (hb : IsBoundary field.text cursor) :
    IsBoundary field.text (caretOffset field.text field.length index cursor) := by
  induction index generalizing cursor with
  | zero => exact hb
  | succ index ih =>
    rw [caretOffset]
    split
    · exact ih (h.isBoundary_next (h.length ▸ hb.le))
    · exact hb

theorem ContentOk.countCharacters (h : ContentOk field) :
    countCharacters field.text = field.characters := by
  obtain ⟨values, hdec, hcount⟩ := h.decodes
  rw [countCharacters_eq hdec, hcount]

theorem ContentOk.countCharacters_le (h : ContentOk field) (offset : ℕ) :
    TextBoundary.countCharacters (field.text.take offset) ≤ field.characters := by
  have hsplit := congrArg TextBoundary.countCharacters (List.take_append_drop offset field.text)
  rw [countCharacters_append, h.countCharacters] at hsplit
  omega

theorem countCharacters_caretOffset (h : ContentOk field) (index : ℕ)
    (hb : IsBoundary field.text cursor) :
    countCharacters (field.text.take (caretOffset field.text field.length index cursor)) =
      min (countCharacters (field.text.take cursor) + index) field.characters := by
  induction index generalizing cursor with
  | zero =>
    have hle := h.countCharacters_le cursor
    show countCharacters (field.text.take cursor) = _
    omega
  | succ index ih =>
    rw [caretOffset]
    split
    · rename_i hlt
      obtain ⟨values, hdec, -⟩ := h.decodes
      have hnext := h.isBoundary_next (Nat.le_of_lt hlt)
      rw [ih hnext]
      rw [← h.length] at hlt ⊢
      rw [countCharacters_nextBoundary hdec hb hlt]
      congr 1
      omega
    · rename_i hend
      have hall : field.text.take cursor = field.text :=
        List.take_of_length_le (by rw [h.length]; omega)
      rw [hall, h.countCharacters]
      omega

/-- **A character index** and the caret. -/
theorem caretOffset_eq_cursor_iff (h : ContentOk field) (index : ℕ) :
    caretOffset field.text field.length index 0 = field.cursor ↔
      min index field.characters = countCharacters (field.text.take field.cursor) := by
  have hcount := countCharacters_caretOffset h index (isBoundary_zero field.text)
  rw [List.take_zero] at hcount
  have hzero : countCharacters [] + index = index := Nat.zero_add index
  rw [hzero] at hcount
  constructor
  · intro heq
    rw [← hcount, heq]
  · intro heq
    exact (isBoundary_caretOffset h index (isBoundary_zero _)).eq_of_count h.boundary
      (hcount.trans heq)

theorem getElem?_takeWhile_length (p : UInt8 → Bool) (l : List UInt8) :
    ∀ b, l[(l.takeWhile p).length]? = some b → p b = false := by
  induction l with
  | nil => simp
  | cons c l ih =>
    intro b hb
    by_cases hc : p c = true
    · rw [List.takeWhile_cons_of_pos hc, List.length_cons, List.getElem?_cons_succ] at hb
      exact ih b hb
    · rw [List.takeWhile_cons_of_neg hc, List.length_nil, List.getElem?_cons_zero] at hb
      rw [← Option.some.inj hb]
      simpa using hc

theorem isContinuation_newline : isContinuation (byte '\n') = false := by decide

theorem isBoundary_lineEdge (h : ContentOk field) (atEnd : Bool) :
    IsBoundary field.text (lineEdge field atEnd) := by
  obtain ⟨values, hdec, -⟩ := h.decodes
  have hcursor := h.boundary.le
  cases atEnd with
  | true =>
    -- The caret stops before a newline, which is no continuation byte.
    rw [lineEdge, if_pos rfl]
    set line := (field.text.drop field.cursor).takeWhile (· ≠ byte '\n') with hline
    have hlen : line.length ≤ (field.text.drop field.cursor).length :=
      (List.takeWhile_sublist _).length_le
    rw [length_drop] at hlen
    refine isBoundary_of_lead hdec (by omega) fun b hb => ?_
    rw [← List.getElem?_drop] at hb
    have hstop := getElem?_takeWhile_length (· ≠ byte '\n') (field.text.drop field.cursor) b hb
    have hb' : b = byte '\n' := by simpa using hstop
    rw [hb']
    exact isContinuation_newline
  | false =>
    -- The caret stops after a newline, which is ASCII.
    rw [lineEdge, if_neg (by simp)]
    set before := field.text.take field.cursor with hbefore
    set line := before.reverse.takeWhile (· ≠ byte '\n') with hline
    have hlength : before.length = field.cursor := by
      rw [hbefore, length_take]
      omega
    have hlen : line.length ≤ before.reverse.length := (List.takeWhile_sublist _).length_le
    rw [List.length_reverse] at hlen
    by_cases hall : line.length = field.cursor
    · rw [hall, Nat.sub_self]
      exact isBoundary_zero _
    · have hlt : line.length < before.reverse.length := by
        rw [List.length_reverse]
        omega
      have hstop := getElem?_takeWhile_length (· ≠ byte '\n') before.reverse
        (before.reverse[line.length]) (by rw [List.getElem?_eq_getElem hlt])
      have hb : before.reverse[line.length]? = some (byte '\n') := by
        rw [List.getElem?_eq_getElem hlt]
        simpa using hstop
      rw [List.getElem?_reverse (by omega), hlength, hbefore, List.getElem?_take_of_lt (by omega)]
        at hb
      have hget : field.text[field.cursor - line.length - 1]? = some (byte '\n') := by
        rw [show field.cursor - line.length - 1 = field.cursor - 1 - line.length by omega]
        exact hb
      have hnext := isBoundary_succ_of_ascii hdec hget (by decide)
      rwa [show field.cursor - line.length - 1 + 1 = field.cursor - line.length by omega] at hnext

/-! ### Typed fields -/

theorem contentOk_insertByte (h : ContentOk field) {b : UInt8}
    (hb : b.toNat < 0x80 ∧ b ≠ 0 ∧ b ≠ byte '\n')
    (hsuits : Suits field.type field.separator
      (field.text.take field.cursor ++ [b] ++ field.text.drop field.cursor)) :
    ContentOk (insertBytes field [b]).2 := by
  refine contentOk_insertBytes h (@Utf8.decodes_ascii [b] ?_) ?_ (fun _ => ?_) hsuits
  · simpa using hb.1
  · simpa using hb.2.1.symm
  · simpa using hb.2.2.symm

theorem ContentOk.setTypedCursor (h : ContentOk field) (htype : field.type ≠ .any)
    (hle : cursor ≤ field.length) : ContentOk { field with cursor := cursor } :=
  h.setCursor (isBoundary_ascii (fun b hb => (h.plain htype b hb).1) (h.length.symm ▸ hle))

theorem isNumber_iff (field : Field) :
    isNumber field = true ↔ field.type = .numeric ∨ field.type = .decimal := by
  simp [isNumber]

theorem type_ne_any_of_isNumber (h : isNumber field = true) : field.type ≠ .any := by
  rcases (isNumber_iff field).mp h with htype | htype
  · simp [htype]
  · simp [htype]

theorem type_skipMinus (field : Field) : (skipMinus field).type = field.type := by
  rw [skipMinus]
  split
  · rfl
  · rfl

theorem contentOk_skipMinus (h : ContentOk field) : ContentOk (skipMinus field) := by
  rw [skipMinus]
  split
  · rename_i hskip
    obtain ⟨hnumber, -, hlength, -⟩ := hskip
    exact h.setTypedCursor (type_ne_any_of_isNumber hnumber) (by omega)
  · exact h

/-- The caret of a number stands after its minus. -/
def AfterMinus (field : Field) : Prop :=
  isNumber field = true → field.cursor = 0 → field.text.head? ≠ some (byte '-')

theorem afterMinus_skipMinus (h : ContentOk field) : AfterMinus (skipMinus field) := by
  intro hnumber hcursor hhead
  rw [skipMinus] at hnumber hcursor hhead
  split at hnumber
  · rename_i hskip
    rw [if_pos hskip] at hcursor
    simp at hcursor
  · rename_i hskip
    rw [if_neg hskip] at hcursor hhead
    refine hskip ⟨hnumber, hcursor, ?_, hhead⟩
    intro hzero
    rw [← h.length, List.length_eq_zero_iff] at hzero
    rw [hzero] at hhead
    simp at hhead

theorem suits_insert_number (h : ContentOk field) (hafter : AfterMinus field)
    (hnumber : isNumber field = true)
    (hbody : ∀ separator before after, IsNumberSeparator separator →
      (separator = none ∨ separator = some field.separator) → before ++ after <+ field.text →
      IsBody separator (before ++ after) → IsBody separator (before ++ bytes ++ after)) :
    Suits field.type field.separator
      (field.text.take field.cursor ++ bytes ++ field.text.drop field.cursor) := by
  have hsuits := h.suits
  have hsep := h.separator
  have hhead := hafter hnumber
  rcases (isNumber_iff field).mp hnumber with htype | htype
  · rw [htype] at hsuits ⊢
    exact IsNumberText.insert hsuits hhead fun before after hsub hb =>
      hbody none before after (by simp [IsNumberSeparator]) (.inl rfl) hsub hb
  · rw [htype] at hsuits ⊢
    exact IsNumberText.insert hsuits hhead fun before after hsub hb =>
      hbody (some field.separator) before after (by simpa [IsNumberSeparator] using hsep htype)
        (.inr rfl) hsub hb

/-- **A digit** at the caret, after the minus of a number. -/
theorem contentOk_insertDigit (h : ContentOk field) (hafter : AfterMinus field) {d : UInt8}
    (hd : IsDigit d) : ContentOk (insertBytes field [d]).2 := by
  refine contentOk_insertByte h (plain_of_isDigit hd) ?_
  cases hnumber : isNumber field with
  | true =>
    refine suits_insert_number h hafter hnumber fun separator before after hsep _ _ hb => ?_
    exact hb.insert_digit hd fun heq => not_isDigit_of_isSeparator (hsep d heq.symm) hd
  | false =>
    have hsuits := h.suits
    revert hsuits hnumber
    rw [isNumber]
    cases field.type with
    | any => exact fun _ _ => trivial
    | numeric => simp
    | decimal => simp
    | phone =>
      intro _ hphone b hb
      simp only [mem_append, List.mem_singleton] at hb
      rcases hb with (hb | rfl) | hb
      · exact hphone b (mem_of_mem_take hb)
      · exact mem_phoneCharacters_of_isDigit hd
      · exact hphone b (mem_of_mem_drop hb)

/-- **The separator** of a number that has none. -/
theorem contentOk_typeSeparator (h : ContentOk field) (htype : field.type = .decimal) :
    ContentOk (typeSeparator field).2 := by
  rw [typeSeparator]
  split
  · exact h
  · rename_i hnone
    have hskip := contentOk_skipMinus h
    have hafter := afterMinus_skipMinus h
    have hsame : (skipMinus field).separator = field.separator ∧
        (skipMinus field).text = field.text := by
      rw [skipMinus]
      split
      · exact ⟨rfl, rfl⟩
      · exact ⟨rfl, rfl⟩
    have hown := h.separator htype
    refine contentOk_insertByte hskip (plain_of_isSeparator hown) ?_
    have hdecimal : (skipMinus field).type = .decimal := (type_skipMinus field).trans htype
    have hnumber : isNumber (skipMinus field) = true := by simp [isNumber, hdecimal]
    have hsuits := hskip.suits
    rw [hdecimal] at hsuits ⊢
    refine IsNumberText.insert hsuits (hafter hnumber) fun before after hsub hb => ?_
    rw [hsame.1] at hb ⊢
    refine hb.insert_separator fun hmem => ?_
    rw [hasSeparator, decide_eq_true_eq] at hnone
    exact hnone (hsame.2 ▸ hsub.subset hmem)

/-- **The minus** of a number, typed or taken back. -/
theorem contentOk_toggleMinus (h : ContentOk field) (hnumber : isNumber field = true) :
    ContentOk (toggleMinus field) := by
  have htype := type_ne_any_of_isNumber hnumber
  have hcursor := h.cursor_le
  rw [toggleMinus]
  split
  · rename_i hminus
    have hone : IsBoundary field.text 1 :=
      isBoundary_ascii (fun b hb => (h.plain htype b hb).1) (by rw [h.length]; omega)
    have hdelete := contentOk_deleteRange h (isBoundary_zero _) hone (by omega)
    refine hdelete.setTypedCursor htype ?_
    show field.cursor - 1 ≤ field.length - (1 - 0)
    omega
  · rename_i hminus
    have hzero := h.setTypedCursor htype (Nat.zero_le _)
    cases hfits : fits { field with cursor := 0 } (field.characters + countCharacters [byte '-']) with
    | false =>
      rw [insertBytes_of_not_fits hfits]
      exact h.frame rfl
    | true =>
      have hinsert : ContentOk (insertBytes { field with cursor := 0 } [byte '-']).2 := by
        refine contentOk_insertByte hzero (by decide) ?_
        have hhead : field.text.head? ≠ some (byte '-') := by
          intro heq
          refine hminus ⟨?_, heq⟩
          intro hempty
          rw [← h.length, List.length_eq_zero_iff] at hempty
          rw [hempty] at heq
          simp at heq
        have hsuits := h.suits
        show Suits field.type field.separator (byte '-' :: field.text)
        rcases (isNumber_iff field).mp hnumber with hkind | hkind
        · rw [hkind] at hsuits ⊢
          exact .inr ⟨_, rfl, IsNumberText.isBody hsuits hhead⟩
        · rw [hkind] at hsuits ⊢
          exact .inr ⟨_, rfl, IsNumberText.isBody hsuits hhead⟩
      rw [insertBytes_eq hfits] at hinsert ⊢
      refine hinsert.setTypedCursor htype ?_
      show field.cursor + 1 ≤ field.length + [byte '-'].length
      rw [List.length_singleton]
      omega

theorem contentOk_decimalStar (h : ContentOk field) (htype : field.type = .decimal) (nowMs : ℕ) :
    ContentOk (decimalStar field nowMs) := by
  have hnumber : isNumber field = true := by simp [isNumber, htype]
  have hstart : ContentOk { field with separatorTyped := false } := h.frame rfl
  simp only [decimalStar]
  split
  · have hne : field.type ≠ .any := by simp [htype]
    have hcursor := h.boundary.le
    refine contentOk_toggleMinus (contentOk_deleteRange hstart ?_ h.boundary (Nat.sub_le _ _))
      hnumber
    have hle : field.cursor - 1 ≤ field.text.length := by omega
    exact isBoundary_ascii (fun b hb => (h.plain hne b hb).1) hle
  · split
    · exact contentOk_toggleMinus hstart hnumber
    · have hinsert := contentOk_typeSeparator hstart htype
      split
      · rename_i heq
        rw [heq] at hinsert
        exact hinsert
      · rename_i heq
        rw [heq] at hinsert
        exact hinsert.frame rfl

/-- **A held 0** of a PHONE field that becomes `+`. -/
theorem contentOk_holdPlus (h : ContentOk field) (htype : field.type = .phone) :
    ContentOk (holdPlus field) := by
  have hne : field.type ≠ .any := by simp [htype]
  rw [holdPlus]
  split
  · exact h
  · obtain ⟨values, hdec, hcount⟩ := h.decodes
    have hplain := h.plain hne
    have hlen : (field.text.set (field.cursor - 1) (byte '+')).length = field.text.length :=
      List.length_set
    have hmem : ∀ b ∈ field.text.set (field.cursor - 1) (byte '+'),
        b ∈ field.text ∨ b = byte '+' := fun b hb => List.mem_or_eq_of_mem_set hb
    have hascii : ∀ b ∈ field.text.set (field.cursor - 1) (byte '+'), b.toNat < 0x80 := by
      intro b hb
      rcases hmem b hb with hold | rfl
      · exact (hplain b hold).1
      · decide
    refine ⟨hlen.trans h.length, h.capacity, ⟨_, Utf8.decodes_ascii hascii, ?_⟩, ?_,
      isBoundary_ascii hascii (by rw [hlen]; exact h.boundary.le), h.limit, fun hsingle hb => ?_, ?_,
      h.separator⟩
    · show field.characters = _
      rw [hcount, List.length_map, hlen, ← countCharacters_eq hdec]
      exact countCharacters_ascii fun b hb => (hplain b hb).1
    · intro hb
      rcases hmem 0 hb with hold | heq
      · exact h.no_nul hold
      · exact absurd heq (by decide)
    · rcases hmem _ hb with hold | heq
      · exact h.newline hsingle hold
      · exact absurd heq (by decide)
    · have hsuits := h.suits
      show Suits field.type field.separator (field.text.set (field.cursor - 1) (byte '+'))
      rw [htype] at hsuits ⊢
      intro b hb
      rcases hmem b hb with hold | rfl
      · exact hsuits b hold
      · decide

theorem contentOk_holdPhoneZero (h : ContentOk field)
    (htype : field.phoneZeroHeld = true → field.type = .phone) (nowMs : ℕ) :
    ContentOk (holdPhoneZero field nowMs) := by
  rw [holdPhoneZero]
  split
  · exact h
  · rename_i hheld
    have hphone : field.type = .phone := by
      refine htype ?_
      cases hzero : field.phoneZeroHeld with
      | true => rfl
      | false => simp [hzero] at hheld
    exact contentOk_holdPlus (h.frame rfl) hphone

theorem contentOk_insertPhone (h : ContentOk field) (htype : field.type = .phone) {b : UInt8}
    (hb : b ∈ phoneCharacters) : ContentOk (insertBytes field [b]).2 := by
  have hall : ∀ b ∈ phoneCharacters, b.toNat < 0x80 ∧ b ≠ 0 ∧ b ≠ byte '\n' := by
    decide +kernel
  refine contentOk_insertByte h (hall b hb) ?_
  have hsuits := h.suits
  rw [htype] at hsuits ⊢
  intro other hother
  simp only [mem_append, List.mem_singleton] at hother
  rcases hother with (hother | rfl) | hother
  · exact hsuits other (mem_of_mem_take hother)
  · exact hb
  · exact hsuits other (mem_of_mem_drop hother)

theorem contentOk_insertAny (h : ContentOk field) (htype : field.type = .any) {values : List ℕ}
    (hbytes : Decodes bytes values) (hge : ∀ b ∈ bytes, 0x20 ≤ b.toNat) :
    ContentOk (insertBytes field bytes).2 := by
  refine contentOk_insertBytes h hbytes ?_ (fun _ hmem => ?_) (by rw [htype]; trivial)
  · intro hmem
    exact absurd (hge 0 hmem) (by decide)
  · exact absurd (hge _ hmem) (by decide)

theorem contentOk_typedText (h : ContentOk field) (text : List UInt8) :
    ContentOk (typedText field text).2 := by
  unfold typedText
  split
  · rename_i character
    split
    · rename_i hdigit
      exact contentOk_insertDigit (contentOk_skipMinus h) (afterMinus_skipMinus h) hdigit
    · split
      · rename_i hminus
        exact contentOk_toggleMinus h hminus.1
      · split
        · rename_i hpoint
          exact contentOk_typeSeparator h hpoint.1
        · split
          · rename_i hphone
            refine contentOk_insertPhone h hphone.1 ?_
            have hall : ∀ b ∈ ascii "+*#pPwW", (if b = byte 'P' then byte 'p'
                else if b = byte 'W' then byte 'w' else b) ∈ phoneCharacters := by
              decide +kernel
            exact hall character hphone.2
          · exact h
  · exact h

theorem contentOk_keyboardText (h : ContentOk field) {text : Option (List UInt8)}
    (hvalid : ∀ bytes ∈ text, ∃ values, Decodes bytes values) :
    ContentOk (keyboardText field text).2 := by
  unfold keyboardText
  split
  · exact h
  · rename_i bytes
    split
    · exact h
    · rename_i hprintable
      split
      · exact contentOk_typedText h bytes
      · rename_i htype
        obtain ⟨values, hdec⟩ := hvalid bytes rfl
        refine contentOk_insertAny h (by simpa using htype) hdec fun b hb => ?_
        simp only [isPrintable, Bool.not_eq_true', decide_eq_false_iff_not, not_not,
          List.all_eq_true, decide_eq_true_eq] at hprintable
        exact (hprintable.2 b hb).1

theorem contentOk_insertNewline (h : ContentOk field) : ContentOk (insertNewline field).2 := by
  rw [insertNewline]
  split
  · exact h
  · rename_i htakes
    have hmulti : field.multiline = true ∧ field.type = .any ∧ field.readOnly = false := by
      simpa [takesNewline] using htakes
    refine contentOk_insertBytes h (@Utf8.decodes_ascii [byte '\n'] (by decide +kernel)) (by decide)
      (fun hsingle => ?_) (by rw [hmulti.2.1]; trivial)
    rw [hmulti.1] at hsingle
    exact absurd hsingle (by simp)

/-! ### A new text and a new type -/

theorem countCharacters_replaceSeparator {separator : UInt8} (hsep : IsSeparator separator)
    (text : List UInt8) :
    countCharacters (replaceSeparator separator text) = countCharacters text := by
  have hpoint : ∀ b : UInt8, IsSeparator b → isContinuation b = false := by
    rintro b (rfl | rfl)
    · decide
    · decide
  induction text with
  | nil => rfl
  | cons b text ih =>
    rw [replaceSeparator]
    split
    · rename_i hb
      simp [countCharacters, hpoint separator hsep, hpoint b hb]
    · simp only [countCharacters, List.countP_cons] at ih ⊢
      rw [ih]

/-- **Another type** for a text that suits it, with the field's own separator. -/
theorem contentOk_ownText (h : ContentOk field) {type : FieldType} {separator : UInt8}
    (hsep : type = .decimal → IsSeparator separator) (hsuits : suits type field.text = true) :
    ContentOk { field with
      type := type, separator := separator, text := ownText type separator field.text } := by
  have hown := suits_ownText hsep hsuits
  by_cases hdecimal : type = .decimal
  · obtain ⟨values, hdec, hcount⟩ := h.decodes
    have hne : type ≠ .any := by simp [hdecimal]
    have hplain := plain_of_suits hne hsep hown
    have hascii := fun b hb => (hplain b hb).1
    have htext : ownText type separator field.text = replaceSeparator separator field.text := by
      simp [ownText, hdecimal]
    have hlen : (ownText type separator field.text).length = field.text.length := by
      rw [htext, length_replaceSeparator]
    refine ⟨hlen.trans h.length, h.capacity, ⟨_, Utf8.decodes_ascii hascii, ?_⟩,
      fun hmem => (hplain 0 hmem).2.1 rfl, isBoundary_ascii hascii (by rw [hlen]; exact h.boundary.le),
      h.limit, fun _ hmem => (hplain _ hmem).2.2 rfl, hown, hsep⟩
    show field.characters = _
    rw [hcount, List.length_map, ← countCharacters_eq hdec, ← countCharacters_ascii hascii, htext,
      countCharacters_replaceSeparator (hsep hdecimal)]
  · have htext : ownText type separator field.text = field.text := by simp [ownText, hdecimal]
    rw [htext] at hown ⊢
    exact ⟨h.length, h.capacity, h.decodes, h.no_nul, h.boundary, h.limit, h.newline, hown, hsep⟩

/-- **A new text** that passed the checks of `setText`. -/
theorem contentOk_newText {field : Field} {text : List UInt8} {values : List ℕ}
    (hsep : field.type = .decimal → IsSeparator field.separator)
    (hcapacity : text.length < field.capacity) (hdec : Decodes text values)
    (hnul : (0 : UInt8) ∉ text) (hfits : fits field (countCharacters text) = true)
    (hline : field.multiline = false → byte '\n' ∉ text) (hsuits : suits field.type text = true) :
    ContentOk { field with
      text := ownText field.type field.separator text
      length := text.length
      cursor := text.length
      characters := countCharacters text } := by
  have hany : ContentOk { field with
      type := .any
      text := text
      length := text.length
      cursor := text.length
      characters := countCharacters text } :=
    ⟨rfl, hcapacity, ⟨values, hdec, countCharacters_eq hdec⟩, hnul, isBoundary_length hdec, hfits,
      hline, trivial, by simp⟩
  exact contentOk_ownText hany hsep hsuits

end TextModel
