/-
The lines of the keyboard channel (`fplinux-usb-keyboard.c`).

A stream of whole lines can be read in one way only, so it has one set of pressed keys.

Main results:
- `length_format_le`: a line of an event is short;
- `Reads.unique`: a stream has one set of keys.
-/
import Fplinux.Lib.Json

namespace UsbKeyboard

open Json (decimal printInt)

def keyCnt : ℕ := 768

/-- `bool pressed[KEY_CNT]`. -/
abbrev KeySet := Fin keyCnt → Bool

def evSyn : ℕ := 0

def evKey : ℕ := 1

/-- A line: `reset`, the empty one of a poll without events, or an event. -/
inductive Line
  | reset
  | blank
  | event (type code : ℕ) (value : ℤ)
deriving DecidableEq, Repr

/-- A line without its end. -/
def body : Line → List UInt8
  | .reset => [114, 101, 115, 101, 116]
  | .blank => []
  | .event type code value => decimal type ++ 32 :: (decimal code ++ 32 :: printInt value)

/-- The bytes of a line; `format_keyboard_event` for an event. -/
def format (line : Line) : List UInt8 := body line ++ [10]

/-- What a line does to the pressed keys; presses and releases of keys that exist count. -/
def act (keys : KeySet) : Line → KeySet
  | .reset => fun _ => false
  | .blank => keys
  | .event type code value =>
    if h : type = evKey ∧ code < keyCnt ∧ (value = 0 ∨ value = 1)
    then Function.update keys ⟨code, h.2.1⟩ (value = 1) else keys

/-- The keys that a stream of whole lines leaves pressed. -/
def Reads (stream : List UInt8) (keys : KeySet) : Prop :=
  ∃ lines : List Line, stream = lines.flatMap format ∧ lines.foldl act (fun _ => false) = keys

theorem Reads.append {stream : List UInt8} {keys : KeySet} (h : Reads stream keys)
    (lines : List Line) : Reads (stream ++ lines.flatMap format) (lines.foldl act keys) := by
  obtain ⟨before, rfl, rfl⟩ := h
  exact ⟨before ++ lines, List.flatMap_append.symm, List.foldl_append⟩

/-! ### One way to read a stream -/

theorem split_unique {a b rest rest' : List UInt8} {mark : UInt8} (ha : mark ∉ a) (hb : mark ∉ b)
    (h : a ++ mark :: rest = b ++ mark :: rest') : a = b ∧ rest = rest' := by
  induction a generalizing b with
  | nil =>
    cases b with
    | nil => exact ⟨rfl, (List.cons.inj h).2⟩
    | cons y b => exact absurd (List.mem_cons.mpr (Or.inl (List.cons.inj h).1)) hb
  | cons x a ih =>
    cases b with
    | nil => exact absurd (List.mem_cons.mpr (Or.inl (List.cons.inj h).1.symm)) ha
    | cons y b =>
      obtain ⟨rfl, htail⟩ := List.cons.inj h
      obtain ⟨rfl, hrest⟩ := ih (fun hmem => ha (List.mem_cons_of_mem _ hmem))
        (fun hmem => hb (List.mem_cons_of_mem _ hmem)) htail
      exact ⟨rfl, hrest⟩

theorem not_mem_decimal {mark : UInt8} (hmark : mark.toNat < 48) (n : ℕ) : mark ∉ decimal n :=
  fun h => absurd (Json.decimal_mem h).1 (by omega)

theorem not_mem_printInt {mark : UInt8} (hmark : mark.toNat < 45) (value : ℤ) :
    mark ∉ printInt value :=
  fun h => absurd (Json.printInt_mem h).1 (by omega)

theorem decimal_inj {a b : ℕ} (h : decimal a = decimal b) : a = b := by
  rw [← Json.foldl_decimal a, h, Json.foldl_decimal]

theorem printInt_inj {a b : ℤ} (h : printInt a = printInt b) : a = b := by
  have hminus : ∀ n m : ℕ, Bytes.byte '-' :: decimal n ≠ decimal m := fun n m heq =>
    not_mem_decimal (by decide : (Bytes.byte '-').toNat < 48) m (heq ▸ List.mem_cons_self)
  rw [printInt, printInt] at h
  split_ifs at h with ha hb hb
  · have habs := decimal_inj (List.cons.inj h).2
    omega
  · exact absurd h (hminus _ _)
  · exact absurd h.symm (hminus _ _)
  · have hnat := decimal_inj h
    omega

theorem newline_not_mem (line : Line) : (10 : UInt8) ∉ body line := by
  cases line with
  | reset => decide
  | blank => exact List.not_mem_nil
  | event type code value =>
    have hdecimal := not_mem_decimal (by decide : (10 : UInt8).toNat < 48)
    have hvalue := not_mem_printInt (by decide : (10 : UInt8).toNat < 45) value
    simp [body, hdecimal, hvalue]

theorem body_inj {a b : Line} (h : body a = body b) : a = b := by
  have hspace : ∀ type code value, (32 : UInt8) ∈ body (.event type code value) := by
    intro type code value
    simp [body]
  cases a with
  | event type code value =>
    cases b with
    | event type' code' value' =>
      obtain ⟨htype, hrest⟩ := split_unique (not_mem_decimal (by decide) type)
        (not_mem_decimal (by decide) type') h
      obtain ⟨hcode, hvalue⟩ := split_unique (not_mem_decimal (by decide) code)
        (not_mem_decimal (by decide) code') hrest
      rw [decimal_inj htype, decimal_inj hcode, printInt_inj hvalue]
    | reset => exact absurd (h ▸ hspace type code value) (by decide)
    | blank => exact absurd (h ▸ hspace type code value) (by decide)
  | reset =>
    cases b with
    | event type code value => exact absurd (h ▸ hspace type code value) (by decide)
    | reset => rfl
    | blank => cases h
  | blank =>
    cases b with
    | event type code value => exact absurd (h ▸ hspace type code value) (by decide)
    | reset => cases h
    | blank => rfl

theorem format_inj {lines lines' : List Line} (h : lines.flatMap format = lines'.flatMap format) :
    lines = lines' := by
  induction lines generalizing lines' with
  | nil =>
    cases lines' with
    | nil => rfl
    | cons line lines' => simp [format] at h
  | cons line lines ih =>
    cases lines' with
    | nil => simp [format] at h
    | cons line' lines' =>
      simp only [List.flatMap_cons, format, List.append_assoc, List.singleton_append] at h
      obtain ⟨hbody, hrest⟩ := split_unique (newline_not_mem line) (newline_not_mem line') h
      rw [body_inj hbody, ih hrest]

/-- **A stream has one set of keys.** -/
theorem Reads.unique {stream : List UInt8} {keys keys' : KeySet} (h : Reads stream keys)
    (h' : Reads stream keys') : keys = keys' := by
  obtain ⟨lines, hlines, rfl⟩ := h
  obtain ⟨lines', hlines', rfl⟩ := h'
  rw [format_inj (hlines.symm.trans hlines')]

theorem length_format_le {type code : ℕ} {value : ℤ} (htype : type < 10 ^ 5) (hcode : code < 10 ^ 5)
    (hvalue : value.natAbs < 10 ^ 10) : (format (.event type code value)).length ≤ 24 := by
  have htypes := Json.decimal_length_le (k := 4) htype
  have hcodes := Json.decimal_length_le (k := 4) hcode
  have hvalues : (printInt value).length ≤ 11 := by
    rw [printInt]
    split_ifs with hneg
    · exact Nat.succ_le_succ (Json.decimal_length_le (k := 9) hvalue)
    · exact Nat.le_trans (Json.decimal_length_le (k := 9) (by omega)) (by decide)
  simp only [format, body, List.length_append, List.length_cons, List.length_nil]
  omega

end UsbKeyboard
