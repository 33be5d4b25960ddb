/-
What a field of a type may hold (`suits` of `fplinux-ui-text-model.c`).

`Suits` is the grammar of a field type with the field's own separator: an
optional leading minus, digits and at most one separator for a number, the
characters of a dial string for PHONE.

Main results:
- `Suits.sublist`: the grammar is closed under deletions;
- `IsNumberText.insert`: what a number takes at the caret;
- `suits_of_suits`, `suits_ownText`: the grammar and the check of the code;
- `plain_of_suits`: the text of a typed field is ASCII.
-/
import Mathlib.Tactic.IntervalCases
import Fplinux.Ui.TextModel

namespace TextModel

open Bytes (byte ascii)
open scoped List

/-! ### The grammar of a type -/

/-- A digit of a number. -/
def IsDigit (b : UInt8) : Prop := byte '0' ≤ b ∧ b ≤ byte '9'

instance (b : UInt8) : Decidable (IsDigit b) := inferInstanceAs (Decidable (_ ∧ _))

/-- Digits with at most one separator, when there is one. -/
structure IsBody (separator : Option UInt8) (body : List UInt8) : Prop where
  mem : ∀ b ∈ body, IsDigit b ∨ some b = separator
  count : body.countP (fun b => some b = separator) ≤ 1

/-- A number, perhaps unfinished: an optional minus and a body. -/
def IsNumberText (separator : Option UInt8) (text : List UInt8) : Prop :=
  IsBody separator text ∨ ∃ body, text = byte '-' :: body ∧ IsBody separator body

/-- The characters of a PHONE field. -/
def phoneCharacters : List UInt8 := ascii "0123456789+*#pw"

/-- The texts a field of a type may hold. -/
def Suits (type : FieldType) (separator : UInt8) (text : List UInt8) : Prop :=
  match type with
  | .any => True
  | .numeric => IsNumberText none text
  | .decimal => IsNumberText (some separator) text
  | .phone => ∀ b ∈ text, b ∈ phoneCharacters

/-- `.` or `,`. -/
def IsSeparator (separator : UInt8) : Prop := separator = byte '.' ∨ separator = byte ','

variable {body shorter text : List UInt8} {separator b : UInt8} {type : FieldType}

theorem IsBody.sublist {separator : Option UInt8} (h : IsBody separator body)
    (hs : shorter <+ body) :
    IsBody separator shorter :=
  ⟨fun b hb => h.mem b (hs.subset hb), Nat.le_trans hs.countP_le h.count⟩

theorem IsNumberText.sublist {separator : Option UInt8} (h : IsNumberText separator text)
    (hs : shorter <+ text) : IsNumberText separator shorter := by
  rcases h with hbody | ⟨body, rfl, hbody⟩
  · exact .inl (hbody.sublist hs)
  · rcases List.sublist_cons_iff.mp hs with hrest | ⟨rest, rfl, hrest⟩
    · exact .inl (hbody.sublist hrest)
    · exact .inr ⟨rest, rfl, hbody.sublist hrest⟩

/-- **Deleting** keeps a text in the grammar. -/
theorem Suits.sublist (h : Suits type separator text) (hs : shorter <+ text) :
    Suits type separator shorter := by
  cases type with
  | any => trivial
  | numeric => exact IsNumberText.sublist h hs
  | decimal => exact IsNumberText.sublist h hs
  | phone => exact fun b hb => h b (hs.subset hb)

theorem IsBody.insert_digit {separator : Option UInt8} {before after : List UInt8} {d : UInt8}
    (h : IsBody separator (before ++ after)) (hd : IsDigit d) (hne : some d ≠ separator) :
    IsBody separator (before ++ [d] ++ after) := by
  refine ⟨?_, ?_⟩
  · intro b hb
    simp only [List.mem_append, List.mem_singleton] at hb
    rcases hb with (hb | rfl) | hb
    · exact h.mem b (by simp [hb])
    · exact .inl hd
    · exact h.mem b (by simp [hb])
  · have hcount := h.count
    simp only [List.countP_append, List.countP_singleton] at hcount ⊢
    simp only [hne, decide_false, Bool.false_eq_true, if_false]
    omega

theorem IsBody.insert_separator {before after : List UInt8} {separator : UInt8}
    (h : IsBody (some separator) (before ++ after)) (hnone : separator ∉ before ++ after) :
    IsBody (some separator) (before ++ [separator] ++ after) := by
  refine ⟨?_, ?_⟩
  · intro b hb
    simp only [List.mem_append, List.mem_singleton] at hb
    rcases hb with (hb | rfl) | hb
    · exact h.mem b (by simp [hb])
    · exact .inr rfl
    · exact h.mem b (by simp [hb])
  · have hzero : (before ++ after).countP (fun b => some b = some separator) = 0 := by
      rw [List.countP_eq_zero]
      intro b hb heq
      simp only [Option.some.injEq, decide_eq_true_eq] at heq
      exact hnone (heq ▸ hb)
    simp only [List.countP_append, List.countP_singleton] at hzero ⊢
    simp only [decide_true, if_true]
    omega

theorem not_isDigit_minus : ¬ IsDigit (byte '-') := by decide

theorem not_isDigit_of_isSeparator (h : IsSeparator separator) : ¬ IsDigit separator := by
  rcases h with rfl | rfl
  · decide
  · decide

/-- The separator of a number type: none, or `.` or `,`. -/
def IsNumberSeparator (separator : Option UInt8) : Prop := ∀ b ∈ separator, IsSeparator b

theorem minus_notMem_body {separator : Option UInt8} (hsep : IsNumberSeparator separator)
    (h : IsBody separator body) : byte '-' ∉ body := by
  intro hmem
  rcases h.mem _ hmem with hdigit | heq
  · exact not_isDigit_minus hdigit
  · rcases hsep (byte '-') heq.symm with hdot | hcomma
    · exact absurd hdot (by decide)
    · exact absurd hcomma (by decide)

theorem IsNumberText.isBody {separator : Option UInt8} (h : IsNumberText separator text)
    (hhead : text.head? ≠ some (byte '-')) :
    IsBody separator text := by
  rcases h with hbody | ⟨body, rfl, -⟩
  · exact hbody
  · simp at hhead

theorem IsNumberText.tail {separator : Option UInt8} (hsep : IsNumberSeparator separator)
    {rest : List UInt8} (h : IsNumberText separator (byte '-' :: rest)) : IsBody separator rest := by
  rcases h with hbody | ⟨body, hcons, hbody⟩
  · exact absurd (List.mem_cons_self) (minus_notMem_body hsep hbody)
  · rw [List.cons.injEq] at hcons
    rw [hcons.2]
    exact hbody

theorem IsNumberText.insert {separator : Option UInt8} {cursor : ℕ} {bytes : List UInt8}
    (h : IsNumberText separator text) (hafter : cursor = 0 → text.head? ≠ some (byte '-'))
    (hbody : ∀ before after, before ++ after <+ text → IsBody separator (before ++ after) →
      IsBody separator (before ++ bytes ++ after)) :
    IsNumberText separator (text.take cursor ++ bytes ++ text.drop cursor) := by
  rcases h with hwhole | ⟨body, rfl, hrest⟩
  · refine .inl (hbody _ _ (by rw [List.take_append_drop]) ?_)
    rw [List.take_append_drop]
    exact hwhole
  · cases cursor with
    | zero => simp at hafter
    | succ cursor =>
      refine .inr ⟨body.take cursor ++ bytes ++ body.drop cursor, by simp, ?_⟩
      refine hbody _ _ ?_ ?_
      · rw [List.take_append_drop]
        exact List.sublist_cons_self _ _
      · rw [List.take_append_drop]
        exact hrest

/-! ### The check of the code -/

theorem isDigit_iff (b : UInt8) : IsDigit b ↔ ¬ (b < byte '0' ∨ b > byte '9') := by
  rw [IsDigit, not_or, UInt8.not_lt, gt_iff_lt, UInt8.not_lt]

theorem not_separator_of_isDigit (h : IsDigit b) : ¬ (b = byte '.' ∨ b = byte ',') := by
  rintro (rfl | rfl)
  · exact absurd h (by decide)
  · exact absurd h (by decide)

theorem suitsDigits_cons_digit (h : IsDigit b) (separators : Bool) (text : List UInt8) :
    suitsDigits separators (b :: text) = suitsDigits separators text := by
  have hrange := (isDigit_iff b).mp h
  have hne := not_separator_of_isDigit h
  simp only [suitsDigits, hne, false_and, if_false, hrange]

theorem suitsDigits_of_digits (h : ∀ b ∈ body, IsDigit b) (separators : Bool) :
    suitsDigits separators body = true := by
  induction body with
  | nil => rfl
  | cons b body ih =>
    rw [suitsDigits_cons_digit (h b (by simp))]
    exact ih fun other hother => h other (by simp [hother])

theorem digits_of_suitsDigits (h : suitsDigits false body = true) : ∀ b ∈ body, IsDigit b := by
  induction body with
  | nil => simp
  | cons b body ih =>
    rw [suitsDigits] at h
    simp only [Bool.false_eq_true, and_false, if_false] at h
    split at h
    · simp at h
    · rename_i hrange
      intro other hother
      rcases List.mem_cons.mp hother with rfl | hrest
      · exact (isDigit_iff other).mpr hrange
      · exact ih h other hrest

theorem isBody_none_iff (body : List UInt8) : IsBody none body ↔ ∀ b ∈ body, IsDigit b := by
  constructor
  · intro h b hb
    rcases h.mem b hb with hdigit | heq
    · exact hdigit
    · simp at heq
  · exact fun h => ⟨fun b hb => .inl (h b hb), by simp⟩

theorem isBody_cons_digit {separator : Option UInt8} (hb : IsDigit b) (h : IsBody separator body)
    (hsep : IsNumberSeparator separator) :
    IsBody separator (b :: body) := by
  refine @IsBody.insert_digit separator [] body b h hb fun heq => ?_
  exact not_isDigit_of_isSeparator (hsep b heq.symm) hb

theorem isBody_cons_separator (hsep : IsSeparator separator) (h : ∀ b ∈ body, IsDigit b) :
    IsBody (some separator) (separator :: body) := by
  refine @IsBody.insert_separator [] body separator ?_ ?_
  · exact ⟨fun b hb => .inl (h b hb), by
      rw [List.nil_append, List.countP_eq_zero.mpr]
      · exact Nat.zero_le 1
      · intro b hb heq
        simp only [Option.some.injEq, decide_eq_true_eq] at heq
        exact not_isDigit_of_isSeparator hsep (heq ▸ h b hb)⟩
  · intro hmem
    exact not_isDigit_of_isSeparator hsep (h separator hmem)

theorem isBody_replaceSeparator (hsep : IsSeparator separator) (h : suitsDigits true body = true) :
    IsBody (some separator) (replaceSeparator separator body) := by
  induction body with
  | nil => exact ⟨by simp [replaceSeparator], by simp [replaceSeparator]⟩
  | cons b body ih =>
    rw [suitsDigits] at h
    rw [replaceSeparator]
    split at h
    · rename_i hpoint
      rw [if_pos hpoint.1]
      exact isBody_cons_separator hsep (digits_of_suitsDigits h)
    · rename_i hpoint
      split at h
      · simp at h
      · rename_i hrange
        have hdigit := (isDigit_iff b).mpr hrange
        rw [if_neg (not_separator_of_isDigit hdigit)]
        exact isBody_cons_digit hdigit (ih h) fun other hother => by
          rw [← Option.some.inj hother]
          exact hsep

theorem suitsDigits_of_isBody (hsep : IsSeparator separator) (h : IsBody (some separator) body) :
    suitsDigits true body = true := by
  induction body with
  | nil => rfl
  | cons b body ih =>
    have hrest : IsBody (some separator) body := h.sublist (List.sublist_cons_self b body)
    rcases h.mem b (by simp) with hdigit | heq
    · rw [suitsDigits_cons_digit hdigit]
      exact ih hrest
    · obtain rfl := Option.some.inj heq
      have hpoint : (b = byte '.' ∨ b = byte ',') ∧ true = true := ⟨hsep, rfl⟩
      rw [suitsDigits, if_pos hpoint]
      -- The one separator is used up, so what follows are digits.
      refine suitsDigits_of_digits (fun other hother => ?_) false
      rcases hrest.mem other hother with hdigit | hsame
      · exact hdigit
      · have hcount := h.count
        rw [List.countP_cons_of_pos (by simp)] at hcount
        have hpos : 0 < body.countP (fun c => some c = some b) :=
          List.countP_pos_iff.mpr ⟨other, hother, by simpa using hsame⟩
        omega

/-- **A text in the grammar passes the check.** -/
theorem suits_of_suits (hsep : type = .decimal → IsSeparator separator)
    (h : Suits type separator text) :
    suits type text = true := by
  cases type with
  | any => rfl
  | phone => simpa [suits, phoneCharacters, Suits] using h
  | numeric =>
    have hnone : IsNumberSeparator none := by simp [IsNumberSeparator]
    rw [suits]
    split
    · rename_i hhead
      obtain ⟨rest, rfl⟩ := List.head?_eq_some_iff.mp hhead
      exact suitsDigits_of_digits ((isBody_none_iff rest).mp (IsNumberText.tail hnone h)) false
    · rename_i hhead
      exact suitsDigits_of_digits ((isBody_none_iff text).mp (IsNumberText.isBody h hhead)) false
  | decimal =>
    have hown : IsNumberSeparator (some separator) := by
      simpa [IsNumberSeparator] using hsep rfl
    rw [suits]
    split
    · rename_i hhead
      obtain ⟨rest, rfl⟩ := List.head?_eq_some_iff.mp hhead
      exact suitsDigits_of_isBody (hsep rfl) (IsNumberText.tail hown h)
    · rename_i hhead
      exact suitsDigits_of_isBody (hsep rfl) (IsNumberText.isBody h hhead)

/-- The text that `useSeparator` leaves. -/
def ownText (type : FieldType) (separator : UInt8) (text : List UInt8) : List UInt8 :=
  if type ≠ .decimal then text else replaceSeparator separator text

/-- **A text that passes the check** is in the grammar with the field's separator. -/
theorem suits_ownText (hsep : type = .decimal → IsSeparator separator)
    (h : suits type text = true) :
    Suits type separator (ownText type separator text) := by
  cases type with
  | any => trivial
  | phone => simpa [suits, phoneCharacters, Suits, ownText] using h
  | numeric =>
    rw [suits] at h
    split at h
    · rename_i hhead
      obtain ⟨rest, rfl⟩ := List.head?_eq_some_iff.mp hhead
      exact .inr ⟨rest, rfl, (isBody_none_iff rest).mpr (digits_of_suitsDigits h)⟩
    · exact .inl ((isBody_none_iff text).mpr (digits_of_suitsDigits h))
  | decimal =>
    rw [suits] at h
    split at h
    · rename_i hhead
      obtain ⟨rest, rfl⟩ := List.head?_eq_some_iff.mp hhead
      have hminus : ¬ (byte '-' = byte '.' ∨ byte '-' = byte ',') := by decide
      have htext : ownText .decimal separator (byte '-' :: rest) =
          byte '-' :: replaceSeparator separator rest := by
        simp [ownText, replaceSeparator, hminus]
      rw [htext]
      exact .inr ⟨_, rfl, isBody_replaceSeparator (hsep rfl) h⟩
    · exact .inl (isBody_replaceSeparator (hsep rfl) h)

theorem length_replaceSeparator (separator : UInt8) (text : List UInt8) :
    (replaceSeparator separator text).length = text.length := by
  induction text with
  | nil => rfl
  | cons b text ih =>
    rw [replaceSeparator]
    split
    · rfl
    · simp [ih]

/-! ### Typed text is ASCII -/

theorem plain_of_isDigit (h : IsDigit b) : b.toNat < 0x80 ∧ b ≠ 0 ∧ b ≠ byte '\n' := by
  have hge : 48 ≤ b.toNat := h.1
  have hle : b.toNat ≤ 57 := h.2
  refine ⟨by omega, ?_, ?_⟩
  · rintro rfl
    simp at hge
  · rintro rfl
    exact absurd hge (by decide)

theorem mem_phoneCharacters_of_isDigit (h : IsDigit b) : b ∈ phoneCharacters := by
  have hge : 48 ≤ b.toNat := h.1
  have hle : b.toNat ≤ 57 := h.2
  have hall : ∀ n, 48 ≤ n → n ≤ 57 → n.toUInt8 ∈ phoneCharacters := by
    intro n hn1 hn2
    interval_cases n
    all_goals decide
  have hb : b = b.toNat.toUInt8 := by simp
  rw [hb]
  exact hall b.toNat hge hle

theorem plain_of_isSeparator (h : IsSeparator b) : b.toNat < 0x80 ∧ b ≠ 0 ∧ b ≠ byte '\n' := by
  rcases h with rfl | rfl
  · decide
  · decide

theorem plain_of_isNumberText {separator : Option UInt8} (hsep : IsNumberSeparator separator)
    (h : IsNumberText separator text) :
    ∀ b ∈ text, b.toNat < 0x80 ∧ b ≠ 0 ∧ b ≠ byte '\n' := by
  have hbody : ∀ body, IsBody separator body →
      ∀ b ∈ body, b.toNat < 0x80 ∧ b ≠ 0 ∧ b ≠ byte '\n' := by
    intro body hb b hmem
    rcases hb.mem b hmem with hdigit | heq
    · exact plain_of_isDigit hdigit
    · exact plain_of_isSeparator (hsep b heq.symm)
  rcases h with hwhole | ⟨body, rfl, hrest⟩
  · exact hbody text hwhole
  · intro b hmem
    rcases List.mem_cons.mp hmem with rfl | hmem
    · decide
    · exact hbody body hrest b hmem

theorem plain_of_suits (htype : type ≠ .any) (hsep : type = .decimal → IsSeparator separator)
    (h : Suits type separator text) : ∀ b ∈ text, b.toNat < 0x80 ∧ b ≠ 0 ∧ b ≠ byte '\n' := by
  cases type with
  | any => exact absurd rfl htype
  | phone =>
    have hall : ∀ b ∈ phoneCharacters, b.toNat < 0x80 ∧ b ≠ 0 ∧ b ≠ byte '\n' := by
      decide +kernel
    exact fun b hb => hall b (h b hb)
  | numeric => exact plain_of_isNumberText (by simp [IsNumberSeparator]) h
  | decimal => exact plain_of_isNumberText (by simpa [IsNumberSeparator] using hsep rfl) h

end TextModel
