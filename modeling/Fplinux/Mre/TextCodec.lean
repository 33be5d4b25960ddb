/-
UTF-8 and 16-bit text (`text-codec.c`).

Both converters know the characters of one to three bytes.  A size is at most `sizeMax`, and
an output of capacity `n` holds `n` units or bytes with the terminator.

Main results:
- `encodeUnit_eq`: a unit is written as its standard encoding;
- `takeUnit_encodeUnit`, `encodeUnit_of_takeUnit`: what is read is one unit in front of the rest;
- `decode_text`, `decode_broken`: decoding any byte string into any output;
- `codec_exact`: the converters are inverse, and how they fail.
-/
import Mathlib.Data.List.Infix

namespace TextCodec

open List (append_assoc append_nil cons_ne_nil flatMap_cons flatMap_nil length_cons mem_cons
  mem_cons_self not_mem_nil)

/-- The errors of the converters. -/
inductive Errno
  | einval
  | enospc
  deriving DecidableEq, Repr

def textUnitValid (value : ℕ) : Bool :=
  value ≠ 0 ∧ (0x20 ≤ value ∨ value = 9 ∨ value = 10 ∨ value = 13) ∧
    (value < 0x7f ∨ 0x9f < value) ∧ (value < 0xd800 ∨ 0xdfff < value)

/-- A byte of the form `10xxxxxx`. -/
def isContinuation (b : UInt8) : Bool := b.toNat / 64 = 2

/-- The first unit of a text and the bytes after it. -/
def takeUnit (first : UInt8) (rest : List UInt8) : Option (ℕ × List UInt8) :=
  if first.toNat < 0x80 then some (first.toNat, rest)
  else if 0xc2 ≤ first.toNat ∧ first.toNat ≤ 0xdf then
    match rest with
    | [] => none
    | second :: rest =>
      if isContinuation second then some (first.toNat % 32 * 64 + second.toNat % 64, rest)
      else none
  else if 0xe0 ≤ first.toNat ∧ first.toNat ≤ 0xef then
    match rest with
    | second :: third :: rest =>
      if !isContinuation second ∨ !isContinuation third ∨
          (first.toNat = 0xe0 ∧ second.toNat < 0xa0) ∨
          (first.toNat = 0xed ∧ 0xa0 ≤ second.toNat) then none
      else
        some (first.toNat % 16 * 4096 + second.toNat % 64 * 64 + third.toNat % 64, rest)
    | _ => none
  else none

theorem takeUnit_length {first : UInt8} {rest : List UInt8} {read : ℕ × List UInt8}
    (h : takeUnit first rest = some read) : read.2.length ≤ rest.length := by
  rw [takeUnit.eq_def] at h
  split at h
  · obtain rfl := Option.some.inj h
    exact Nat.le_refl _
  split at h
  · split at h
    · cases h
    · split at h
      · obtain rfl := Option.some.inj h
        exact Nat.le_succ _
      · cases h
  split at h
  · split at h
    · split at h
      · cases h
      · obtain rfl := Option.some.inj h
        exact Nat.le_of_lt (Nat.lt_succ_of_lt (Nat.lt_succ_self _))
    · cases h
  · cases h

/-- Whether the output has room for `count` units and the terminator; `none` is no output. -/
def holds : Option ℕ → ℕ → Bool
  | none, _ => true
  | some capacity, count => count < capacity

/-- The loop of `mre_utf8_decode` after `count` units. -/
def decodeLoop (output : Option ℕ) (count : ℕ) : List UInt8 → Except Errno (List UInt16)
  | [] => if holds output count then .ok [] else .error .enospc
  | first :: rest =>
    match _h : takeUnit first rest with
    | none => .error .einval
    | some read =>
      if !textUnitValid read.1 then .error .einval
      else if !holds output (count + 1) then .error .enospc
      else (decodeLoop output (count + 1) read.2).map (UInt16.ofNat read.1 :: ·)
termination_by text => text.length
decreasing_by exact Nat.lt_succ_of_le (takeUnit_length _h)

/-- `mre_utf8_decode`: the units before the terminator.  Without an output the text is only
checked and counted. -/
def decode (input : List UInt8) (output : Option ℕ) : Except Errno (List UInt16) :=
  decodeLoop output 0 input

/-- The bytes of one unit. -/
def encodeUnit (unit : UInt16) : List UInt8 :=
  let value := unit.toNat
  if value < 0x80 then [UInt8.ofNat value]
  else if value < 0x800 then [UInt8.ofNat (0xc0 + value / 64), UInt8.ofNat (0x80 + value % 64)]
  else
    [UInt8.ofNat (0xe0 + value / 4096), UInt8.ofNat (0x80 + value / 64 % 64),
      UInt8.ofNat (0x80 + value % 64)]

def unitLength (value : ℕ) : ℕ := if value < 0x80 then 1 else if value < 0x800 then 2 else 3

/-- The first loop of `mre_utf8_encode`: the bytes required. -/
def requiredBytes (sizeMax : ℕ) : ℕ → List UInt16 → Except Errno ℕ
  | required, [] => .ok required
  | required, unit :: units =>
    if !textUnitValid unit.toNat then .error .einval
    else if required > sizeMax - unitLength unit.toNat then .error .enospc
    else requiredBytes sizeMax (required + unitLength unit.toNat) units

/-- `mre_utf8_encode`: the bytes before the terminator. -/
def encode (sizeMax : ℕ) (input : List UInt16) (capacity : ℕ) : Except Errno (List UInt8) :=
  match requiredBytes sizeMax 0 input with
  | .error error => .error error
  | .ok required =>
    if capacity ≤ required then .error .enospc else .ok (input.flatMap encodeUnit)

/-! ### One unit -/

/-- The units that a text may hold. -/
def Accepted (units : List UInt16) : Prop := ∀ unit ∈ units, textUnitValid unit.toNat = true

/-- The standard encoding of a text. -/
def utf8 (units : List UInt16) : List UInt8 :=
  (units.map fun unit => Char.ofNat unit.toNat).flatMap String.utf8EncodeChar

theorem toNat_byte {n : ℕ} (h : n < 256) : (UInt8.ofNat n).toNat = n := by
  rw [UInt8.toNat_ofNat']
  exact Nat.mod_eq_of_lt h

theorem textUnitValid_iff (value : ℕ) :
    textUnitValid value = true ↔
      value ≠ 0 ∧ (0x20 ≤ value ∨ value = 9 ∨ value = 10 ∨ value = 13) ∧
        (value < 0x7f ∨ 0x9f < value) ∧ (value < 0xd800 ∨ 0xdfff < value) :=
  decide_eq_true_iff

/-- **A unit** is written as its standard encoding. -/
theorem encodeUnit_eq {unit : UInt16} (h : textUnitValid unit.toNat = true) :
    encodeUnit unit = String.utf8EncodeChar (Char.ofNat unit.toNat) := by
  have hlt : unit.toNat < 65536 := unit.toNat_lt
  have hvalid := (textUnitValid_iff _).mp h
  have hscalar : unit.toNat.isValidChar := by
    rw [Nat.isValidChar]
    omega
  have hval : (Char.ofNat unit.toNat).val.toNat = unit.toNat := by
    rw [Char.ofNat, dif_pos hscalar]
    rfl
  rw [encodeUnit, String.utf8EncodeChar]
  simp only [hval]
  by_cases hone : unit.toNat < 0x80
  · rw [if_pos hone, if_pos (Nat.le_of_lt_succ hone)]
  by_cases htwo : unit.toNat < 0x800
  · have hhigh : unit.toNat / 64 % 32 = unit.toNat / 64 := Nat.mod_eq_of_lt (by omega)
    rw [if_neg hone, if_pos htwo, if_neg (by omega), if_pos (Nat.le_of_lt_succ htwo), hhigh,
      Nat.add_comm 0xc0, Nat.add_comm 0x80]
  · have hhigh : unit.toNat / 4096 % 16 = unit.toNat / 4096 := Nat.mod_eq_of_lt (by omega)
    rw [if_neg hone, if_neg htwo, if_neg (by omega), if_neg (by omega), if_pos (by omega), hhigh,
      Nat.add_comm 0xe0, Nat.add_comm 0x80 (_ % 64), Nat.add_comm 0x80 (_ % 64)]

theorem flatMap_encodeUnit {units : List UInt16} (h : Accepted units) :
    units.flatMap encodeUnit = utf8 units := by
  rw [utf8, List.flatMap_map]
  exact List.flatMap_congr fun unit hunit => encodeUnit_eq (h unit hunit)

theorem length_encodeUnit (unit : UInt16) : (encodeUnit unit).length = unitLength unit.toNat := by
  rw [encodeUnit, unitLength]
  split
  · rfl
  · split
    · rfl
    · rfl

theorem isContinuation_low (n : ℕ) : isContinuation (UInt8.ofNat (0x80 + n % 64)) = true := by
  rw [isContinuation, toNat_byte (by omega)]
  exact decide_eq_true (by omega)

theorem takeUnit_encodeUnit {unit : UInt16} (h : textUnitValid unit.toNat = true)
    (rest : List UInt8) :
    ∃ first tail, encodeUnit unit ++ rest = first :: tail ∧
      takeUnit first tail = some (unit.toNat, rest) := by
  have hlt : unit.toNat < 65536 := unit.toNat_lt
  obtain ⟨-, -, -, hsurrogate⟩ := (textUnitValid_iff _).mp h
  rw [encodeUnit]
  by_cases hone : unit.toNat < 0x80
  · refine ⟨UInt8.ofNat unit.toNat, rest, by rw [if_pos hone]; rfl, ?_⟩
    rw [takeUnit.eq_def, toNat_byte (by omega), if_pos hone]
  by_cases htwo : unit.toNat < 0x800
  · refine ⟨UInt8.ofNat (0xc0 + unit.toNat / 64), UInt8.ofNat (0x80 + unit.toNat % 64) :: rest,
      by rw [if_neg hone, if_pos htwo]; rfl, ?_⟩
    rw [takeUnit.eq_def, toNat_byte (by omega), if_neg (by omega), if_pos (by omega)]
    simp only
    rw [if_pos (isContinuation_low _), toNat_byte (by omega)]
    congr 2
    omega
  · refine ⟨UInt8.ofNat (0xe0 + unit.toNat / 4096),
      UInt8.ofNat (0x80 + unit.toNat / 64 % 64) :: UInt8.ofNat (0x80 + unit.toNat % 64) :: rest,
      by rw [if_neg hone, if_neg htwo]; rfl, ?_⟩
    rw [takeUnit.eq_def, toNat_byte (by omega), if_neg (by omega), if_neg (by omega),
      if_pos (by omega)]
    simp only
    rw [isContinuation_low, isContinuation_low,
      toNat_byte (n := 0x80 + unit.toNat / 64 % 64) (by omega),
      toNat_byte (n := 0x80 + unit.toNat % 64) (by omega), if_neg]
    · congr 2
      omega
    · simp only [Bool.not_true, Bool.false_eq_true, false_or]
      omega

/-- **What is read** is the encoding of a unit in front of the rest. -/
theorem encodeUnit_of_takeUnit {first : UInt8} {tail rest : List UInt8} {value : ℕ}
    (h : takeUnit first tail = some (value, rest)) :
    ∃ unit : UInt16, unit.toNat = value ∧ first :: tail = encodeUnit unit ++ rest := by
  have hfirst : first.toNat < 256 := first.toNat_lt
  have hunit : ∀ n < 65536, (UInt16.ofNat n).toNat = n := by
    intro n hn
    rw [UInt16.toNat_ofNat']
    exact Nat.mod_eq_of_lt hn
  have hbyte : ∀ (b : UInt8) (n : ℕ), b.toNat = n → UInt8.ofNat n = b := by
    rintro b n rfl
    exact UInt8.ofNat_toNat
  rw [takeUnit.eq_def] at h
  split at h
  · rename_i hone
    obtain ⟨rfl, rfl⟩ := Prod.mk.inj (Option.some.inj h)
    refine ⟨UInt16.ofNat first.toNat, hunit _ (by omega), ?_⟩
    rw [encodeUnit, hunit _ (by omega)]
    rw [if_pos hone, hbyte first _ rfl]
    rfl
  split at h
  · rename_i htwo
    split at h
    · cases h
    · rename_i second tail
      split at h
      · rename_i hsecond
        have hcont : second.toNat / 64 = 2 := of_decide_eq_true hsecond
        obtain ⟨rfl, rfl⟩ := Prod.mk.inj (Option.some.inj h)
        refine ⟨UInt16.ofNat _, hunit _ (by omega), ?_⟩
        rw [encodeUnit, hunit _ (by omega)]
        rw [if_neg (by omega), if_pos (by omega), hbyte first _ (by omega),
          hbyte second _ (by omega)]
        rfl
      · cases h
  split at h
  · rename_i hthree
    split at h
    · rename_i second third tail
      split at h
      · cases h
      · rename_i hgood
        simp only [Bool.not_eq_true', not_or, Bool.not_eq_false] at hgood
        have hsecond : second.toNat / 64 = 2 := of_decide_eq_true hgood.1
        have hthird : third.toNat / 64 = 2 := of_decide_eq_true hgood.2.1
        obtain ⟨rfl, rfl⟩ := Prod.mk.inj (Option.some.inj h)
        refine ⟨UInt16.ofNat _, hunit _ (by omega), ?_⟩
        rw [encodeUnit, hunit _ (by omega)]
        rw [if_neg (by omega), if_neg (by omega), hbyte first _ (by omega),
          hbyte second _ (by omega), hbyte third _ (by omega)]
        rfl
    · cases h
  · cases h

/-! ### Decoding -/

section Decode

variable {units : List UInt16} {text tail : List UInt8}

theorem holds_of_le {output : Option ℕ} {m n : ℕ} (hle : m ≤ n) (h : holds output n = true) :
    holds output m = true := by
  cases output with
  | none => rfl
  | some capacity => exact decide_eq_true (Nat.lt_of_le_of_lt hle (of_decide_eq_true h))

theorem decodeLoop_unit {unit : UInt16} (h : textUnitValid unit.toNat = true) (output : Option ℕ)
    (count : ℕ) (rest : List UInt8) :
    decodeLoop output count (encodeUnit unit ++ rest) =
      if holds output (count + 1) then (decodeLoop output (count + 1) rest).map (unit :: ·)
      else .error .enospc := by
  obtain ⟨first, more, hcons, htake⟩ := takeUnit_encodeUnit h rest
  rw [hcons, decodeLoop]
  split
  · rename_i hnone
    rw [htake] at hnone
    cases hnone
  · rename_i read hread
    rw [htake] at hread
    obtain rfl := Option.some.inj hread
    rw [h, Bool.not_true, if_neg Bool.false_ne_true, UInt16.ofNat_toNat]
    cases hroom : holds output (count + 1) with
    | true => rfl
    | false => rfl

/-- A text whose first bytes are no unit that a text may hold. -/
def Broken (text : List UInt8) : Prop :=
  ∃ first tail, text = first :: tail ∧
    ∀ value rest, takeUnit first tail = some (value, rest) → textUnitValid value = false

theorem decodeLoop_broken (h : Broken text) (output : Option ℕ) (count : ℕ) :
    decodeLoop output count text = .error .einval := by
  obtain ⟨first, more, rfl, hbad⟩ := h
  rw [decodeLoop]
  split
  · rfl
  · rename_i read hread
    rw [hbad read.1 read.2 hread]
    rfl

theorem exists_accepted (text : List UInt8) :
    ∃ units tail, Accepted units ∧ text = units.flatMap encodeUnit ++ tail ∧
      (tail = [] ∨ Broken tail) := by
  -- Every unit takes a byte, so the text left gets shorter.
  induction hn : text.length using Nat.strongRecOn generalizing text with
  | ind n ih =>
    cases text with
    | nil => exact ⟨[], [], fun _ hmem => absurd hmem not_mem_nil, rfl, .inl rfl⟩
    | cons first more =>
      by_cases hbad : ∀ value rest, takeUnit first more = some (value, rest) →
          textUnitValid value = false
      · exact ⟨[], first :: more, fun _ hmem => absurd hmem not_mem_nil, rfl,
          .inr ⟨first, more, rfl, hbad⟩⟩
      · push Not at hbad
        obtain ⟨value, rest, htake, hvalid⟩ := hbad
        rw [ne_eq, Bool.not_eq_false] at hvalid
        obtain ⟨unit, rfl, hcons⟩ := encodeUnit_of_takeUnit htake
        have hshort : rest.length < n := by
          have hle := takeUnit_length htake
          rw [← hn, length_cons]
          exact Nat.lt_succ_of_le hle
        obtain ⟨units, tail, haccepted, hrest, htail⟩ := ih rest.length hshort rest rfl
        refine ⟨unit :: units, tail, ?_, ?_, htail⟩
        · intro other hmem
          rcases mem_cons.mp hmem with rfl | hmem
          · exact hvalid
          · exact haccepted other hmem
        · rw [hcons, hrest, flatMap_cons, append_assoc]

theorem Accepted.of_cons {unit : UInt16} (h : Accepted (unit :: units)) : Accepted units :=
  fun other hmem => h other (List.mem_cons_of_mem _ hmem)

theorem decodeLoop_text (output : Option ℕ) : ∀ {units : List UInt16}, Accepted units → ∀ count,
    decodeLoop output count (units.flatMap encodeUnit) =
      if holds output (count + units.length) then .ok units else .error .enospc := by
  intro units
  induction units with
  | nil =>
    intro _ count
    rw [flatMap_nil, decodeLoop]
    rfl
  | cons unit units ih =>
    intro h count
    have hlength : count + (unit :: units).length = count + 1 + units.length := by
      rw [length_cons]
      omega
    rw [flatMap_cons, decodeLoop_unit (h unit mem_cons_self), ih h.of_cons, hlength]
    by_cases hall : holds output (count + 1 + units.length) = true
    · rw [if_pos (holds_of_le (Nat.le_add_right _ _) hall), if_pos hall, if_pos hall]
      rfl
    · rw [if_neg hall, if_neg hall]
      split
      · rfl
      · rfl

theorem decodeLoop_append_broken (output : Option ℕ) (htail : Broken tail) :
    ∀ {units : List UInt16}, Accepted units → ∀ count,
      decodeLoop output count (units.flatMap encodeUnit ++ tail) =
        if units ≠ [] ∧ holds output (count + units.length) = false then .error .enospc
        else .error .einval := by
  intro units
  induction units with
  | nil =>
    intro _ count
    rw [flatMap_nil, List.nil_append, decodeLoop_broken htail, if_neg fun h => h.1 rfl]
  | cons unit units ih =>
    intro h count
    have hlength : count + (unit :: units).length = count + 1 + units.length := by
      rw [length_cons]
      omega
    rw [flatMap_cons, append_assoc, decodeLoop_unit (h unit mem_cons_self),
      ih h.of_cons, hlength]
    by_cases hone : holds output (count + 1) = true
    · rw [if_pos hone]
      cases units with
      | nil =>
        rw [if_neg fun h => h.1 rfl, if_neg fun h => Bool.false_ne_true (h.2.symm.trans hone)]
        rfl
      | cons other units =>
        by_cases hall : holds output (count + 1 + (other :: units).length) = false
        · rw [if_pos ⟨cons_ne_nil _ _, hall⟩, if_pos ⟨cons_ne_nil _ _, hall⟩]
          rfl
        · rw [if_neg fun h => hall h.2, if_neg fun h => hall h.2]
          rfl
    · have hall : holds output (count + 1 + units.length) = false := by
        by_contra hnot
        exact hone (holds_of_le (Nat.le_add_right _ _) (Bool.of_not_eq_false hnot))
      rw [if_neg hone, if_pos ⟨cons_ne_nil _ _, hall⟩]

/-- **Decoding a text**: the units, if they fit with the terminator. -/
theorem decode_text (h : Accepted units) (output : Option ℕ) :
    decode (utf8 units) output =
      if holds output units.length then .ok units else .error .enospc := by
  rw [← flatMap_encodeUnit h, decode, decodeLoop_text output h, Nat.zero_add]

/-- **Decoding what is no text** is refused. -/
theorem decode_broken (h : Accepted units) (htail : Broken tail) (output : Option ℕ) :
    decode (utf8 units ++ tail) output =
      if units ≠ [] ∧ holds output units.length = false then .error .enospc
      else .error .einval := by
  rw [← flatMap_encodeUnit h, decode, decodeLoop_append_broken output htail h, Nat.zero_add]

theorem decodeLoop_full (output : Option ℕ) (rest : List UInt8) :
    ∀ {units : List UInt16}, Accepted units → units ≠ [] → ∀ count,
      holds output (count + units.length) = false →
        decodeLoop output count (units.flatMap encodeUnit ++ rest) = .error .enospc := by
  intro units
  induction units with
  | nil => exact fun _ hne => absurd rfl hne
  | cons unit units ih =>
    intro h _ count hfull
    rw [flatMap_cons, append_assoc, decodeLoop_unit (h unit mem_cons_self)]
    by_cases hempty : units = []
    · subst hempty
      exact if_neg fun hone => Bool.false_ne_true (hfull.symm.trans hone)
    · have hlength : count + (unit :: units).length = count + 1 + units.length := by
        rw [length_cons]
        omega
      rw [ih h.of_cons hempty (count + 1) (hlength ▸ hfull)]
      split
      · rfl
      · rfl

/-- **What the decoder accepts.** -/
theorem decode_eq_ok_iff (text : List UInt8) (output : Option ℕ) (units : List UInt16) :
    decode text output = .ok units ↔
      Accepted units ∧ text = utf8 units ∧ holds output units.length = true := by
  constructor
  · intro hdecode
    obtain ⟨read, tail, haccepted, htext, htail⟩ := exists_accepted text
    rw [flatMap_encodeUnit haccepted] at htext
    rcases htail with rfl | hbroken
    · rw [append_nil] at htext
      rw [htext, decode_text haccepted] at hdecode
      split at hdecode
      · rename_i hroom
        obtain rfl := Except.ok.inj hdecode
        exact ⟨haccepted, htext, hroom⟩
      · cases hdecode
    · rw [htext, decode_broken haccepted hbroken] at hdecode
      split at hdecode
      · cases hdecode
      · cases hdecode
  · rintro ⟨haccepted, rfl, hroom⟩
    rw [decode_text haccepted, if_pos hroom]

/-- **When the decoder fails for capacity**: the text begins with units that do not fit. -/
theorem decode_enospc_iff (text : List UInt8) (output : Option ℕ) :
    decode text output = .error .enospc ↔
      ∃ units tail, Accepted units ∧ text = utf8 units ++ tail ∧ (units = [] → tail = []) ∧
        holds output units.length = false := by
  constructor
  · intro hdecode
    obtain ⟨read, tail, haccepted, htext, htail⟩ := exists_accepted text
    rw [flatMap_encodeUnit haccepted] at htext
    refine ⟨read, tail, haccepted, htext, ?_⟩
    rcases htail with rfl | hbroken
    · rw [htext, append_nil, decode_text haccepted] at hdecode
      split at hdecode
      · cases hdecode
      · rename_i hroom
        exact ⟨fun _ => rfl, Bool.of_not_eq_true hroom⟩
    · rw [htext, decode_broken haccepted hbroken] at hdecode
      split at hdecode
      · rename_i hfull
        exact ⟨fun hempty => absurd hempty hfull.1, hfull.2⟩
      · cases hdecode
  · rintro ⟨units, tail, haccepted, rfl, htail, hfull⟩
    by_cases hempty : units = []
    · subst hempty
      rw [htail rfl, append_nil, decode_text haccepted, hfull]
      rfl
    · rw [← flatMap_encodeUnit haccepted]
      exact decodeLoop_full output tail haccepted hempty 0 (by rw [Nat.zero_add]; exact hfull)

end Decode

/-! ### Encoding -/

section Encode

variable {units : List UInt16} {sizeMax capacity : ℕ}

theorem requiredBytes_text (sizeMax : ℕ) : ∀ {units : List UInt16}, Accepted units →
    ∀ required, requiredBytes sizeMax required units =
        .ok (required + (units.flatMap encodeUnit).length) ∨
      requiredBytes sizeMax required units = .error .enospc ∧
        sizeMax < required + (units.flatMap encodeUnit).length := by
  intro units
  induction units with
  | nil => exact fun _ required => .inl rfl
  | cons unit units ih =>
    intro h required
    have hlength : required + ((unit :: units).flatMap encodeUnit).length =
        required + unitLength unit.toNat + (units.flatMap encodeUnit).length := by
      rw [flatMap_cons, List.length_append, length_encodeUnit, Nat.add_assoc]
    have hvalid : ¬ (!textUnitValid unit.toNat) = true := by
      rw [h unit mem_cons_self]
      exact Bool.false_ne_true
    rw [requiredBytes, if_neg hvalid, hlength]
    split
    · exact .inr ⟨rfl, by omega⟩
    · exact ih h.of_cons _

theorem requiredBytes_invalid (sizeMax : ℕ) : ∀ {units : List UInt16}, ¬ Accepted units →
    ∀ required, requiredBytes sizeMax required units = .error .einval ∨
      requiredBytes sizeMax required units = .error .enospc ∧
        ∃ first, first <+: units ∧ Accepted first ∧
          sizeMax < required + (first.flatMap encodeUnit).length := by
  intro units
  induction units with
  | nil => exact fun h => absurd (fun _ hmem => absurd hmem not_mem_nil) h
  | cons unit units ih =>
    intro h required
    rw [requiredBytes]
    cases hvalid : textUnitValid unit.toNat with
    | false => exact .inl rfl
    | true =>
      rw [Bool.not_true, if_neg Bool.false_ne_true]
      have hunit : ∀ {first}, Accepted first → Accepted (unit :: first) := by
        intro first hfirst other hmem
        rcases mem_cons.mp hmem with rfl | hmem
        · exact hvalid
        · exact hfirst other hmem
      split
      · rename_i hfull
        refine .inr ⟨rfl, [unit], ⟨units, rfl⟩,
          hunit fun _ hmem => absurd hmem not_mem_nil, ?_⟩
        rw [flatMap_cons, flatMap_nil, append_nil, length_encodeUnit]
        omega
      · rcases ih (fun hunits => h (hunit hunits)) (required + unitLength unit.toNat) with
          hinvalid | ⟨hfull, first, hprefix, haccepted, hlarge⟩
        · exact .inl hinvalid
        · refine .inr ⟨hfull, unit :: first, List.cons_prefix_cons.mpr ⟨rfl, hprefix⟩,
            hunit haccepted, ?_⟩
          rw [flatMap_cons, List.length_append, length_encodeUnit, ← Nat.add_assoc]
          exact hlarge

/-- **Encoding a text**: its bytes, if they fit with the terminator. -/
theorem encode_text (h : Accepted units) (hcapacity : capacity ≤ sizeMax) :
    encode sizeMax units capacity =
      if (utf8 units).length < capacity then .ok (utf8 units) else .error .enospc := by
  rw [← flatMap_encodeUnit h, encode]
  rcases requiredBytes_text sizeMax h 0 with hrequired | ⟨hrequired, hlarge⟩
  · rw [hrequired, Nat.zero_add]
    by_cases hroom : (units.flatMap encodeUnit).length < capacity
    · rw [if_pos hroom]
      exact if_neg (Nat.not_le.mpr hroom)
    · rw [if_neg hroom]
      exact if_pos (Nat.not_lt.mp hroom)
  · rw [hrequired, if_neg (by omega)]

/-- **Encoding what is no text** is refused. -/
theorem encode_invalid (h : ¬ Accepted units) (hcapacity : capacity ≤ sizeMax) :
    encode sizeMax units capacity = .error .einval ∨
      encode sizeMax units capacity = .error .enospc ∧
        ∃ first, first <+: units ∧ Accepted first ∧ capacity ≤ (utf8 first).length := by
  rw [encode]
  rcases requiredBytes_invalid sizeMax h 0 with hrequired |
    ⟨hrequired, first, hprefix, haccepted, hlarge⟩
  · rw [hrequired]
    exact .inl rfl
  · rw [hrequired]
    refine .inr ⟨rfl, first, hprefix, haccepted, ?_⟩
    rw [← flatMap_encodeUnit haccepted]
    omega

/-- **What the encoder accepts.** -/
theorem encode_eq_ok_iff (hcapacity : capacity ≤ sizeMax) (bytes : List UInt8) :
    encode sizeMax units capacity = .ok bytes ↔
      Accepted units ∧ bytes = utf8 units ∧ bytes.length < capacity := by
  constructor
  · intro hencode
    by_cases h : Accepted units
    · rw [encode_text h hcapacity] at hencode
      split at hencode
      · rename_i hroom
        obtain rfl := Except.ok.inj hencode
        exact ⟨h, rfl, hroom⟩
      · cases hencode
    · rcases encode_invalid h hcapacity with hinvalid | ⟨hfull, -⟩
      · rw [hinvalid] at hencode
        cases hencode
      · rw [hfull] at hencode
        cases hencode
  · rintro ⟨h, rfl, hroom⟩
    rw [encode_text h hcapacity, if_pos hroom]

end Encode

/-! ### Both -/

/-- **The converters are inverse and exact.**  Each result of one is taken back by the other,
where its output has room; the decoder accepts the standard encodings of the units that a text
may hold and nothing else; the result of a success fits with its terminator, and a text with a
result that does not fit fails for capacity. What fails for capacity without being a text begins
with one that does not fit. -/
theorem codec_exact {sizeMax capacity : ℕ} (hcapacity : capacity ≤ sizeMax)
    (units : List UInt16) (text : List UInt8) (output : Option ℕ) :
    (encode sizeMax units capacity = .ok text → holds output units.length = true →
      decode text output = .ok units) ∧
    (decode text output = .ok units → text.length < capacity →
      encode sizeMax units capacity = .ok text) ∧
    (decode text output = .ok units ↔
      Accepted units ∧ text = utf8 units ∧ holds output units.length = true) ∧
    (encode sizeMax units capacity = .ok text ↔
      Accepted units ∧ text = utf8 units ∧ text.length < capacity) ∧
    (decode text none = .ok units →
      (decode text output = .error .enospc ↔ holds output units.length = false)) ∧
    (Accepted units →
      (encode sizeMax units capacity = .error .enospc ↔ capacity < (utf8 units).length + 1)) ∧
    (decode text output = .error .enospc → ∃ first tail, Accepted first ∧
      text = utf8 first ++ tail ∧ holds output first.length = false) ∧
    (encode sizeMax units capacity = .error .enospc → ∃ first, first <+: units ∧
      Accepted first ∧ capacity < (utf8 first).length + 1) := by
  have hdecode := decode_eq_ok_iff text output units
  have hencode := @encode_eq_ok_iff units _ _ hcapacity text
  refine ⟨?_, ?_, hdecode, hencode, ?_, ?_, ?_, ?_⟩
  · intro hok hroom
    obtain ⟨haccepted, htext, -⟩ := hencode.mp hok
    exact hdecode.mpr ⟨haccepted, htext, hroom⟩
  · intro hok hroom
    obtain ⟨haccepted, htext, -⟩ := hdecode.mp hok
    exact hencode.mpr ⟨haccepted, htext, hroom⟩
  · intro hok
    obtain ⟨haccepted, rfl, -⟩ := (decode_eq_ok_iff text none units).mp hok
    rw [decode_text haccepted]
    cases holds output units.length with
    | true => exact iff_of_false (fun h => by cases h) (fun h => by cases h)
    | false => exact iff_of_true rfl rfl
  · intro haccepted
    rw [encode_text haccepted hcapacity]
    split
    · rename_i hroom
      exact iff_of_false (fun h => by cases h) (by omega)
    · rename_i hroom
      exact iff_of_true rfl (by omega)
  · intro hfull
    obtain ⟨first, tail, haccepted, htext, -, hroom⟩ := (decode_enospc_iff text output).mp hfull
    exact ⟨first, tail, haccepted, htext, hroom⟩
  · intro hfull
    by_cases h : Accepted units
    · rw [encode_text h hcapacity] at hfull
      split at hfull
      · cases hfull
      · rename_i hroom
        exact ⟨units, List.prefix_rfl, h, by omega⟩
    · rcases encode_invalid h hcapacity with hinvalid | ⟨-, first, hprefix, haccepted, hlarge⟩
      · rw [hinvalid] at hfull
        cases hfull
      · exact ⟨first, hprefix, haccepted, Nat.lt_succ_of_le hlarge⟩

/-- A text with characters of one, two and three bytes. -/
theorem codec_exact_mixed :
    decode (utf8 [0x41, 0x416, 0x20ac]) (some 4) = .ok [0x41, 0x416, 0x20ac] := by
  have haccepted : Accepted [0x41, 0x416, 0x20ac] :=
    List.forall_mem_cons.mpr ⟨by decide, List.forall_mem_cons.mpr
      ⟨by decide, List.forall_mem_singleton.mpr (by decide)⟩⟩
  have hcapacity : 7 ≤ 65535 := by omega
  have hroom : (utf8 [0x41, 0x416, 0x20ac]).length < 7 := by decide +kernel
  have hencode : encode 65535 [0x41, 0x416, 0x20ac] 7 = .ok (utf8 [0x41, 0x416, 0x20ac]) :=
    (encode_text haccepted hcapacity).trans (if_pos hroom)
  obtain ⟨hinverse, -⟩ := codec_exact hcapacity [0x41, 0x416, 0x20ac]
    (utf8 [0x41, 0x416, 0x20ac]) (some 4)
  exact hinverse hencode rfl

end TextCodec
