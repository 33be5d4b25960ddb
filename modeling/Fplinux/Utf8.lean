/-
UTF-8 scalars (`fplinux-utf8.c`).

`next` decodes one scalar from the front of a byte string, as
`fplinux_utf8_next` does; bit operations are written as arithmetic on the byte's
value.  `Decodes bytes values` says that `bytes` is well-formed UTF-8 with the
scalars `values`.

Main results:
- `encodes_of_next`: `next` splits the encoding of one scalar off the text;
- `Decodes.append`: the scalars of a concatenation;
- `decodes_of_loop`: a loop over the scalars accepts well-formed text only;
- `Decodes.forall_mem`, `Decodes.ge_of_mem`: what the scalars of a text say of its bytes;
- `Encodes.length_tail`: a character is as long as its first byte says;
- `IsText.uncons`, `IsText.cut`: texts taken apart.
-/
import Mathlib.Algebra.GroupWithZero.Nat
import Mathlib.Data.List.Basic

namespace Utf8

/-- Reads `count` continuation bytes into the scalar. -/
def continued : ℕ → ℕ → List UInt8 → Option (ℕ × List UInt8)
  | 0, codepoint, text => some (codepoint, text)
  | _ + 1, _, [] => none
  | count + 1, codepoint, byte :: text =>
    if byte.toNat / 64 = 2 then continued count (codepoint * 64 + byte.toNat % 64) text
    else none

/-- `fplinux_utf8_next`: the first scalar and the bytes after it. -/
def next : List UInt8 → Option (ℕ × List UInt8)
  | [] => none
  | byte :: text =>
    if byte.toNat < 0x80 then some (byte.toNat, text)
    else if 0xc2 ≤ byte.toNat ∧ byte.toNat ≤ 0xdf then
      (continued 1 (byte.toNat % 32) text).filter fun read => isScalar 0 read.1
    else if 0xe0 ≤ byte.toNat ∧ byte.toNat ≤ 0xef then
      (continued 2 (byte.toNat % 16) text).filter fun read => isScalar 0x800 read.1
    else if 0xf0 ≤ byte.toNat ∧ byte.toNat ≤ 0xf4 then
      (continued 3 (byte.toNat % 8) text).filter fun read => isScalar 0x10000 read.1
    else none
where
  /-- The scalar is one, and not written with more bytes than it needs. -/
  isScalar (minimum codepoint : ℕ) : Bool :=
    minimum ≤ codepoint ∧ codepoint ≤ 0x10ffff ∧ ¬ (0xd800 ≤ codepoint ∧ codepoint ≤ 0xdfff)

/-! ### One scalar -/

/-- A Unicode scalar value. -/
def IsScalar (value : ℕ) : Prop := value ≤ 0x10ffff ∧ ¬ (0xd800 ≤ value ∧ value ≤ 0xdfff)

/-- `char` is the encoding of the scalar `value`, wherever it stands. -/
structure Encodes (char : List UInt8) (value : ℕ) : Prop where
  next_eq : ∀ rest, next (char ++ rest) = some (value, rest)
  /-- A lead byte, then continuation bytes. -/
  lead : ∃ byte tail, char = byte :: tail ∧ byte.toNat / 64 ≠ 2 ∧
    ∀ cont ∈ tail, cont.toNat / 64 = 2
  /-- A byte below `0x80` is its own scalar. -/
  ascii : value < 0x80 ∧ (∃ byte, char = [byte] ∧ byte.toNat = value) ∨
    0x80 ≤ value ∧ ∀ byte ∈ char, 0x80 ≤ byte.toNat
  length_le : char.length ≤ 4
  scalar : IsScalar value

variable {rest text char : List UInt8} {value : ℕ} {byte : UInt8}

theorem continued_eq_some {count codepoint : ℕ}
    (h : continued count codepoint text = some (value, rest)) :
    ∃ char, text = char ++ rest ∧ char.length = count ∧
      (∀ after, continued count codepoint (char ++ after) = some (value, after)) ∧
      (∀ byte ∈ char, byte.toNat / 64 = 2) ∧ codepoint * 64 ^ count ≤ value := by
  induction count generalizing codepoint text with
  | zero =>
    simp only [continued, Option.some.injEq, Prod.mk.injEq] at h
    obtain ⟨rfl, rfl⟩ := h
    exact ⟨[], rfl, rfl, fun _ => rfl, by simp, by simp⟩
  | succ count ih =>
    cases text with
    | nil => simp [continued] at h
    | cons byte text =>
      by_cases hbyte : byte.toNat / 64 = 2
      · simp only [continued, hbyte, if_true] at h
        obtain ⟨char, rfl, hlen, hread, hcont, hle⟩ := ih h
        refine ⟨byte :: char, rfl, by simp [hlen], fun after => ?_, ?_, ?_⟩
        · simp only [List.cons_append, continued, hbyte, if_true]
          exact hread after
        · intro other hother
          rcases List.mem_cons.mp hother with rfl | hmem
          · exact hbyte
          · exact hcont other hmem
        · calc codepoint * 64 ^ (count + 1) = (codepoint * 64) * 64 ^ count := by
                rw [Nat.pow_succ, Nat.mul_assoc, Nat.mul_comm 64]
            _ ≤ (codepoint * 64 + byte.toNat % 64) * 64 ^ count :=
                Nat.mul_le_mul_right _ (Nat.le_add_right _ _)
            _ ≤ value := hle
      · simp [continued, hbyte] at h

theorem encodes_of_continued (count codepoint minimum : ℕ)
    (hnext : ∀ tail, next (byte :: tail) =
      (continued count codepoint tail).filter fun read => next.isScalar minimum read.1)
    (hlead : 0xc2 ≤ byte.toNat) (hcount : count ≤ 3)
    (hmin : 0x80 ≤ minimum ∨ 0x80 ≤ codepoint * 64 ^ count)
    (h : next (byte :: text) = some (value, rest)) :
    ∃ char, byte :: text = char ++ rest ∧ Encodes char value := by
  rw [hnext, Option.filter_eq_some_iff] at h
  obtain ⟨hread, hscalar⟩ := h
  obtain ⟨char, rfl, hlen, hafter, hcont, hle⟩ := continued_eq_some hread
  have hbounds := hscalar
  simp only [next.isScalar, decide_eq_true_eq] at hbounds
  refine ⟨byte :: char, rfl, ?_⟩
  refine
    { next_eq := fun after => ?_
      lead := ⟨byte, char, rfl, by omega, hcont⟩
      ascii := .inr ⟨by omega, ?_⟩
      length_le := by simp [hlen]; omega
      scalar := hbounds.2 }
  · rw [List.cons_append, hnext, hafter]
    simp only [Option.filter, hscalar, if_true]
  · intro other hother
    rcases List.mem_cons.mp hother with rfl | hmem
    · omega
    · have h2 := hcont other hmem
      omega

theorem encodes_ascii (h : byte.toNat < 0x80) : Encodes [byte] byte.toNat where
  next_eq after := by simp [next, h]
  lead := ⟨byte, [], rfl, by omega, by simp⟩
  ascii := .inl ⟨h, byte, rfl, rfl⟩
  length_le := by simp
  scalar := by rw [IsScalar]; omega

/-- **What `next` reads** is the encoding of one scalar in front of the rest. -/
theorem encodes_of_next (h : next text = some (value, rest)) :
    ∃ char, text = char ++ rest ∧ Encodes char value := by
  cases text with
  | nil => simp [next] at h
  | cons byte text =>
    have hlt := byte.toNat_lt
    by_cases h1 : byte.toNat < 0x80
    · simp only [next, h1, if_true, Option.some.injEq, Prod.mk.injEq] at h
      obtain ⟨rfl, rfl⟩ := h
      exact ⟨[byte], rfl, encodes_ascii h1⟩
    · by_cases h2 : 0xc2 ≤ byte.toNat ∧ byte.toNat ≤ 0xdf
      · exact encodes_of_continued 1 (byte.toNat % 32) 0 (fun tail => by simp [next, h1, h2]) h2.1
          (by omega) (.inr (by omega)) h
      · by_cases h3 : 0xe0 ≤ byte.toNat ∧ byte.toNat ≤ 0xef
        · exact encodes_of_continued 2 (byte.toNat % 16) 0x800
            (fun tail => by simp [next, h1, h2, h3]) (by omega) (by omega) (.inl (by omega)) h
        · by_cases h4 : 0xf0 ≤ byte.toNat ∧ byte.toNat ≤ 0xf4
          · exact encodes_of_continued 3 (byte.toNat % 8) 0x10000
              (fun tail => by simp [next, h1, h2, h3, h4]) (by omega) (by omega) (.inl (by omega)) h
          · simp [next, h1, h2, h3, h4] at h

/-! ### Well-formed text -/

/-- `bytes` is well-formed UTF-8 with the scalars `values`. -/
inductive Decodes : List UInt8 → List ℕ → Prop
  | nil : Decodes [] []
  | cons {char bytes : List UInt8} {value : ℕ} {values : List ℕ} :
      Encodes char value → Decodes bytes values → Decodes (char ++ bytes) (value :: values)

theorem Decodes.append {a b : List UInt8} {xs ys : List ℕ} (ha : Decodes a xs)
    (hb : Decodes b ys) : Decodes (a ++ b) (xs ++ ys) := by
  induction ha with
  | nil => exact hb
  | cons hc _ ih =>
    rw [List.append_assoc]
    exact .cons hc ih

theorem decodes_ascii {bytes : List UInt8} (h : ∀ byte ∈ bytes, byte.toNat < 0x80) :
    Decodes bytes (bytes.map UInt8.toNat) := by
  induction bytes with
  | nil => exact .nil
  | cons byte bytes ih =>
    exact .cons (encodes_ascii (h byte (by simp))) (ih fun b hb => h b (by simp [hb]))

theorem Encodes.ne_nil (h : Encodes char value) : char ≠ [] := by
  obtain ⟨byte, tail, rfl, -, -⟩ := h.lead
  exact List.cons_ne_nil _ _

/-- What holds of every scalar and of every byte from `0x80` on holds of every byte. -/
theorem Decodes.forall_mem {P : ℕ → Prop} {bytes : List UInt8} {values : List ℕ}
    (h : Decodes bytes values) (hv : ∀ value ∈ values, P value) (hhigh : ∀ n, 0x80 ≤ n → P n) :
    ∀ byte ∈ bytes, P byte.toNat := by
  induction h with
  | nil => simp
  | @cons char bytes value values hc _ ih =>
    intro byte hbyte
    rcases List.mem_append.mp hbyte with hmem | hmem
    · rcases hc.ascii with ⟨-, b, rfl, hb⟩ | ⟨-, hge⟩
      · rw [List.mem_singleton] at hmem
        rw [hmem, hb]
        exact hv value (by simp)
      · exact hhigh _ (hge byte hmem)
    · exact ih (fun v hvm => hv v (by simp [hvm])) byte hmem

theorem Decodes.ge_of_mem {bytes : List UInt8} {values : List ℕ} (h : Decodes bytes values)
    (hv : ∀ value ∈ values, 0x20 ≤ value) : ∀ byte ∈ bytes, 0x20 ≤ byte.toNat :=
  h.forall_mem hv fun n hn => by omega

/-- A loop that reads a scalar and goes on with the rest: what it accepts is
well-formed, and `P` holds of every scalar it checks. -/
theorem decodes_of_loop {σ : Type*} {accepts : σ → List UInt8 → Prop} {P : ℕ → Prop}
    (hstep : ∀ s b bytes, accepts s (b :: bytes) →
      ∃ s' value rest, next (b :: bytes) = some (value, rest) ∧ P value ∧ accepts s' rest)
    {s : σ} {text : List UInt8} (h : accepts s text) :
    ∃ values, Decodes text values ∧ ∀ value ∈ values, P value := by
  -- Every scalar takes a byte, so the text left gets shorter.
  induction hn : text.length using Nat.strongRecOn generalizing s text with
  | ind n ih =>
    cases text with
    | nil => exact ⟨[], .nil, by simp⟩
    | cons b bytes =>
      obtain ⟨s', value, rest, hnext, hP, hrest⟩ := hstep s b bytes h
      obtain ⟨char, happ, henc⟩ := encodes_of_next hnext
      have hlt : rest.length < n := by
        have hpos := List.length_pos_of_ne_nil henc.ne_nil
        have hlen := congrArg List.length happ
        rw [List.length_append] at hlen
        omega
      obtain ⟨values, hdec, hall⟩ := ih rest.length hlt hrest rfl
      rw [happ]
      refine ⟨value :: values, .cons henc hdec, ?_⟩
      intro other hmem
      rcases List.mem_cons.mp hmem with rfl | hrest'
      · exact hP
      · exact hall other hrest'

/-! ### Characters of a text -/

/-- A byte of the form `10xxxxxx`. -/
def isContinuation (byte : UInt8) : Bool := byte.toNat / 64 = 2

/-- Text that does not begin inside a character. -/
def Starts (text : List UInt8) : Prop :=
  ∀ byte rest, text = byte :: rest → isContinuation byte = false

/-- Well-formed text. -/
def IsText (text : List UInt8) : Prop := ∃ values, Decodes text values

/-- How many continuation bytes follow a lead byte. -/
def tailLength (byte : UInt8) : ℕ :=
  if byte.toNat < 0x80 then 0 else if byte.toNat ≤ 0xdf then 1 else if byte.toNat ≤ 0xef then 2
  else 3

/-- The characters that begin in a text. -/
def characters (text : List UInt8) : ℕ := text.countP fun byte => !isContinuation byte

theorem Encodes.length_tail {tail : List UInt8} (h : Encodes (byte :: tail) value) :
    tail.length = tailLength byte := by
  have hread : ∀ count codepoint minimum, ((continued count codepoint tail).filter
      fun read => next.isScalar minimum read.1) = some (value, []) → tail.length = count := by
    intro count codepoint minimum hsome
    rw [Option.filter_eq_some_iff] at hsome
    obtain ⟨char, rfl, hlen, -⟩ := continued_eq_some hsome.1
    rw [List.append_nil, hlen]
  have hnext := h.next_eq []
  rw [List.append_nil] at hnext
  rw [tailLength]
  by_cases h1 : byte.toNat < 0x80
  · simp only [next, h1, if_true, Option.some.injEq, Prod.mk.injEq] at hnext
    rw [if_pos h1, hnext.2, List.length_nil]
  rw [if_neg h1]
  by_cases h2 : 0xc2 ≤ byte.toNat ∧ byte.toNat ≤ 0xdf
  · simp only [next, h1, h2] at hnext
    rw [if_pos h2.2]
    exact hread _ _ _ hnext
  by_cases h3 : 0xe0 ≤ byte.toNat ∧ byte.toNat ≤ 0xef
  · simp only [next, h1, h2, h3] at hnext
    rw [if_neg (by omega), if_pos h3.2]
    exact hread _ _ _ hnext
  by_cases h4 : 0xf0 ≤ byte.toNat ∧ byte.toNat ≤ 0xf4
  · simp only [next, h1, h2, h3, h4] at hnext
    rw [if_neg (by omega), if_neg (by omega)]
    exact hread _ _ _ hnext
  · simp [next, h1, h2, h3, h4] at hnext

theorem Encodes.split (h : Encodes char value) :
    ∃ byte tail, char = byte :: tail ∧ isContinuation byte = false ∧
      (∀ cont ∈ tail, isContinuation cont = true) := by
  obtain ⟨byte, tail, hchar, hlead, htail⟩ := h.lead
  exact ⟨byte, tail, hchar, decide_eq_false hlead,
    fun cont hmem => decide_eq_true (htail cont hmem)⟩

theorem Encodes.characters (h : Encodes char value) : characters char = 1 := by
  obtain ⟨byte, tail, rfl, hlead, htail⟩ := h.split
  have hnone : tail.countP (fun byte => !isContinuation byte) = 0 :=
    List.countP_eq_zero.mpr fun cont hmem => by rw [htail cont hmem]; exact Bool.false_ne_true
  rw [Utf8.characters, List.countP_cons, hnone, hlead]
  rfl

theorem characters_append (a b : List UInt8) :
    characters (a ++ b) = characters a + characters b := List.countP_append

section IsText

variable {a b char text : List UInt8} {byte : UInt8} {value : ℕ}

theorem isText_nil : IsText [] := ⟨[], .nil⟩

theorem IsText.append (ha : IsText a) (hb : IsText b) : IsText (a ++ b) := by
  obtain ⟨xs, hxs⟩ := ha
  obtain ⟨ys, hys⟩ := hb
  exact ⟨xs ++ ys, hxs.append hys⟩

theorem Encodes.isText (h : Encodes char value) : IsText char := by
  have hone := Decodes.cons h .nil
  rw [List.append_nil] at hone
  exact ⟨[value], hone⟩

theorem IsText.uncons (h : IsText (byte :: text)) :
    ∃ tail rest value, text = tail ++ rest ∧ Encodes (byte :: tail) value ∧ IsText rest := by
  obtain ⟨values, hvalues⟩ := h
  generalize hall : byte :: text = all at hvalues
  cases hvalues with
  | nil => cases hall
  | cons hchar hrest =>
    obtain ⟨first, tail, rfl, -, -⟩ := hchar.lead
    rw [List.cons_append] at hall
    obtain ⟨rfl, rfl⟩ := List.cons.inj hall
    exact ⟨tail, _, _, rfl, hchar, _, hrest⟩

theorem starts_nil : Starts [] := fun _ _ h => by cases h

theorem starts_cons (h : isContinuation byte = false) (text : List UInt8) :
    Starts (byte :: text) := fun _ _ heq => (List.cons.inj heq).1 ▸ h

theorem IsText.starts (h : IsText text) : Starts text := by
  rintro byte rest rfl
  obtain ⟨tail, more, value, -, hchar, -⟩ := h.uncons
  obtain ⟨first, conts, heq, hlead, -⟩ := hchar.split
  rw [(List.cons.inj heq).1]
  exact hlead

theorem IsText.cut (h : IsText (a ++ b)) (hb : Starts b) : IsText a ∧ IsText b := by
  induction hn : a.length using Nat.strongRecOn generalizing a with
  | ind n ih =>
    cases a with
    | nil => exact ⟨isText_nil, h⟩
    | cons byte a =>
      obtain ⟨tail, rest, value, hsplit, hchar, hrest⟩ := IsText.uncons h
      obtain ⟨first, conts, heq, -, hconts⟩ := hchar.split
      obtain ⟨-, rfl⟩ := List.cons.inj heq
      rcases List.append_eq_append_iff.mp hsplit with ⟨more, htail, hmore⟩ | ⟨more, ha, hrest'⟩
      · -- what is left of the character would be the start of `b`
        cases more with
        | nil =>
          rw [List.append_nil] at htail
          rw [List.nil_append] at hmore
          exact ⟨htail ▸ hchar.isText, hmore ▸ hrest⟩
        | cons cont more =>
          have hcont := hconts cont (htail ▸ List.mem_append_right _ List.mem_cons_self)
          rw [hb cont (more ++ rest) hmore] at hcont
          cases hcont
      · rw [hrest'] at hrest
        have hshort : more.length < n := by
          rw [← hn, ha, List.length_cons, List.length_append]
          omega
        obtain ⟨hmore, hbtext⟩ := ih more.length hshort hrest rfl
        have hfirst := hchar.isText.append hmore
        rw [List.cons_append, ← ha] at hfirst
        exact ⟨hfirst, hbtext⟩

theorem IsText.characters_pos (h : IsText text) (hne : text ≠ []) : 0 < characters text := by
  cases text with
  | nil => exact absurd rfl hne
  | cons byte text =>
    rw [characters, List.countP_cons, h.starts byte text rfl]
    exact Nat.succ_pos _

end IsText

end Utf8
