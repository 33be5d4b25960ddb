/-
A reader of plain JSON text.

`readValue` is a recursive descent over the plain text that `Json.print` writes:
no blanks, decimal integers, and in strings the escapes that it writes.  The
position in the text is the list of bytes left.

Main results:
- `readValue_print`: the reader gives a plain value back from its text;
- `reader_print`: so does the reader of whole documents.
-/
import Mathlib.Tactic.IntervalCases
import Fplinux.Lib.Json

namespace Json

open Bytes (byte ascii toNat_byte)
open List (append_assoc append_nil cons_append cons_ne_nil length_cons map_cons singleton_append)
open Option (bind_eq_bind bind_some map_some)

/-! ### Tokens -/

def hexValue (b : UInt8) : ℕ := if b ≤ byte '9' then b.toNat - 48 else b.toNat - 87

/-- The byte that an escape of one letter stands for. -/
def unescape (b : UInt8) : Option UInt8 :=
  if b = byte '"' ∨ b = byte '\\' ∨ b = byte '/' then some b
  else if b = byte 'b' then some 8
  else if b = byte 'n' then some 10
  else if b = byte 'r' then some 13
  else if b = byte 't' then some 9
  else if b = byte 'f' then some 12
  else none

/-- A string after its opening quote, or after a backslash in it, and the bytes
after the closing quote. -/
def readBody : Bool → List UInt8 → Option (List UInt8 × List UInt8)
  | _, [] => none
  | true, b :: rest =>
    match unescape b, rest with
    | some c, rest => (readBody false rest).map fun read => (c :: read.1, read.2)
    | none, zero :: zero' :: high :: low :: rest =>
      if b = byte 'u' ∧ zero = byte '0' ∧ zero' = byte '0' then
        (readBody false rest).map fun read =>
          ((16 * hexValue high + hexValue low).toUInt8 :: read.1, read.2)
      else none
    | none, _ => none
  | false, b :: rest =>
    if b = byte '"' then some ([], rest)
    else if b = byte '\\' then readBody true rest
    else (readBody false rest).map fun read => (b :: read.1, read.2)

/-- The name a key spells. -/
def nameOf (bytes : List UInt8) : String := String.ofList (bytes.map fun b => Char.ofNat b.toNat)

def isDecimal (b : UInt8) : Bool := 48 ≤ b.toNat ∧ b.toNat ≤ 57

/-- The digits in front of a text. -/
def readNat (text : List UInt8) : Option (ℕ × List UInt8) :=
  let digits := text.takeWhile isDecimal
  if digits = [] then none
  else some (digits.foldl (fun n d => n * 10 + (d.toNat - 48)) 0, text.dropWhile isDecimal)

/-- A number, `true` or `false`. -/
def readScalar : List UInt8 → Option (Json × List UInt8)
  | [] => none
  | b :: rest =>
    if b = byte 't' then if ascii "rue" <+: rest then some (.bool true, rest.drop 3) else none
    else if b = byte 'f' then
      if ascii "alse" <+: rest then some (.bool false, rest.drop 4) else none
    else if b = byte '-' then (readNat rest).map fun read => (.int (-read.1), read.2)
    else (readNat (b :: rest)).map fun read => (.int read.1, read.2)

/-! ### Values -/

section

variable (read : List UInt8 → Option (Json × List UInt8))

/-- The items of an array that is not empty, up to the closing bracket. -/
def readItems : ℕ → List UInt8 → Option (List Json × List UInt8)
  | 0, _ => none
  | fuel + 1, text => do
    let (item, rest) ← read text
    match rest with
    | [] => none
    | b :: rest =>
      if b = byte ',' then (readItems fuel rest).map fun more => (item :: more.1, more.2)
      else if b = byte ']' then some ([item], rest)
      else none

/-- The members of an object that is not empty, up to the closing brace. -/
def readMembers : ℕ → List UInt8 → Option (List (String × Json) × List UInt8)
  | 0, _ => none
  | _, [] => none
  | fuel + 1, quote :: text => do
    let (name, rest) ← readBody false text
    match rest with
    | [] => none
    | colon :: rest =>
      if quote ≠ byte '"' ∨ colon ≠ byte ':' then none
      else do
        let (value, rest) ← read rest
        match rest with
        | [] => none
        | b :: rest =>
          if b = byte ',' then
            (readMembers fuel rest).map fun more => ((nameOf name, value) :: more.1, more.2)
          else if b = byte '\x7d' then some ([(nameOf name, value)], rest)
          else none

end

/-- A value at most as deep as the levels allow, and the bytes after it. -/
def readValue : ℕ → List UInt8 → Option (Json × List UInt8)
  | 0, _ => none
  | _, [] => none
  | levels + 1, b :: rest =>
    if b = byte '\x7b' then
      if rest.head? = some (byte '\x7d') then some (.obj [], rest.drop 1)
      else (readMembers (readValue levels) rest.length rest).map fun read => (.obj read.1, read.2)
    else if b = byte '[' then
      if rest.head? = some (byte ']') then some (.arr [], rest.drop 1)
      else (readItems (readValue levels) rest.length rest).map fun read => (.arr read.1, read.2)
    else if b = byte '"' then (readBody false rest).map fun read => (.str read.1, read.2)
    else readScalar (b :: rest)

/-- A whole document. -/
def reader (levels : ℕ) (text : List UInt8) : Option Json :=
  match readValue levels text with
  | some (value, []) => some value
  | _ => none

/-! ### Printed tokens -/

theorem readBody_letter {b c : UInt8} (h : unescape b = some c) (rest : List UInt8) :
    readBody true (b :: rest) = (readBody false rest).map fun read => (c :: read.1, read.2) := by
  rw [readBody.eq_def]
  simp only [h]

theorem readBody_control {b : UInt8} (h : b.toNat < 0x20) (rest : List UInt8) :
    readBody false (escape b ++ rest) =
      (readBody false rest).map fun read => (b :: read.1, read.2) := by
  obtain ⟨n, hn, rfl⟩ : ∃ n < 0x20, b = n.toUInt8 := ⟨b.toNat, h, by simp⟩
  interval_cases n
  all_goals rfl

theorem readBody_escaped (bytes rest : List UInt8) :
    readBody false (bytes.flatMap escape ++ byte '"' :: rest) = some (bytes, rest) := by
  induction bytes with
  | nil => rfl
  | cons b bytes ih =>
    rw [List.flatMap_cons, List.append_assoc]
    by_cases hb : b.toNat < 0x20
    · rw [readBody_control hb, ih, Option.map_some]
    · rcases escape_eq (Nat.le_of_not_lt hb) with ⟨hspecial, heq⟩ | ⟨⟨hquote, hslash⟩, heq⟩
      · have hne : byte '\\' ≠ byte '"' := by decide
        have hletter : unescape b = some b := by rw [unescape, if_pos hspecial]
        rw [heq, cons_append, singleton_append, readBody, if_neg hne, if_pos rfl,
          readBody_letter hletter, ih, map_some]
      · rw [heq]
        simp only [cons_append, List.nil_append, readBody, hquote, hslash, if_false, ih,
          map_some]

theorem nameOf_ascii {name : String} (h : isName name = true) : nameOf (ascii name) = name := by
  have hid : ∀ chars : List Char, (∀ c ∈ chars, c.toNat < 256) →
      (chars.map byte).map (fun b => Char.ofNat b.toNat) = chars := by
    intro chars hchars
    induction chars with
    | nil => rfl
    | cons c chars ih =>
      rw [map_cons, map_cons, toNat_byte (hchars c (by simp)), Char.ofNat_toNat,
        ih fun d hd => hchars d (by simp [hd])]
  rw [nameOf, ascii, hid, String.ofList_toList]
  intro c hc
  have hchar := name_char h hc
  omega

/-- The text after a value does not go on with digits. -/
def Ended (rest : List UInt8) : Prop := ∀ b ∈ rest.head?, isDecimal b = false

section

variable {digits rest : List UInt8}

theorem readNat_digits (hne : digits ≠ []) (hall : ∀ b ∈ digits, isDecimal b = true)
    (h : Ended rest) :
    readNat (digits ++ rest) =
      some (digits.foldl (fun n d => n * 10 + (d.toNat - 48)) 0, rest) := by
  have hhead : rest.takeWhile isDecimal = [] ∧ rest.dropWhile isDecimal = rest := by
    cases rest with
    | nil => exact ⟨rfl, rfl⟩
    | cons b rest =>
      have hb : isDecimal b = false := h b (by simp)
      simp [hb]
  have htake : (digits ++ rest).takeWhile isDecimal = digits := by
    rw [List.takeWhile_append_of_pos hall, hhead.1, append_nil]
  have hdrop : (digits ++ rest).dropWhile isDecimal = rest := by
    rw [List.dropWhile_append_of_pos hall, hhead.2]
  simp only [readNat, htake, hdrop, hne, if_false]

theorem readScalar_digits (hne : digits ≠ []) (hall : ∀ b ∈ digits, isDecimal b = true)
    (h : Ended rest) :
    readScalar (digits ++ rest) =
      some (.int (digits.foldl (fun n d => n * 10 + (d.toNat - 48)) 0 : ℕ), rest) := by
  have hread := readNat_digits hne hall h
  obtain ⟨b, text, rfl⟩ := List.exists_cons_of_ne_nil hne
  have hb : ∀ c : UInt8, isDecimal c = false → b ≠ c := by
    rintro c hc rfl
    exact absurd (hall b List.mem_cons_self) (by simp [hc])
  rw [cons_append] at hread ⊢
  rw [readScalar, if_neg (hb _ (by decide)), if_neg (hb _ (by decide)), if_neg (hb _ (by decide)),
    hread, map_some]

end

theorem isDecimal_decimal (n : ℕ) : ∀ b ∈ decimal n, isDecimal b = true := fun _ hb =>
  decide_eq_true (decimal_mem hb)

theorem readScalar_bool (value : Bool) (rest : List UInt8) :
    readScalar (print (.bool value) ++ rest) = some (.bool value, rest) := by
  cases value with
  | true =>
    have hpre : ascii "rue" <+: ascii "rue" ++ rest := List.prefix_append _ _
    show readScalar (byte 't' :: (ascii "rue" ++ rest)) = _
    rw [readScalar, if_pos rfl, if_pos hpre]
    rfl
  | false =>
    have hpre : ascii "alse" <+: ascii "alse" ++ rest := List.prefix_append _ _
    show readScalar (byte 'f' :: (ascii "alse" ++ rest)) = _
    rw [readScalar, if_neg (by decide), if_pos rfl, if_pos hpre]
    rfl

theorem readScalar_int {value : ℤ} {rest : List UInt8} (h : Ended rest) :
    readScalar (print (.int value) ++ rest) = some (.int value, rest) := by
  rw [print, printInt]
  split
  · rename_i hneg
    rw [cons_append, readScalar, if_neg (by decide), if_neg (by decide), if_pos rfl,
      readNat_digits (decimal_ne_nil _) (isDecimal_decimal _) h, foldl_decimal, map_some,
      show -((value.natAbs : ℕ) : ℤ) = value by omega]
  · rename_i hneg
    rw [readScalar_digits (decimal_ne_nil _) (isDecimal_decimal _) h, foldl_decimal,
      show ((value.toNat : ℕ) : ℤ) = value by omega]

/-! ### Printed values -/

section

variable {text : List UInt8 → Prop}

theorem ended_cons {b : UInt8} (h : isDecimal b = false) (rest : List UInt8) : Ended (b :: rest) := by
  intro c hc
  simp only [List.head?_cons, Option.mem_def, Option.some.injEq] at hc
  rw [← hc]
  exact h

theorem readValue_scalar {levels : ℕ} {token rest : List UInt8} {value : Json}
    (h : ∀ b ∈ token.head?, b ≠ byte '\x7b' ∧ b ≠ byte '[' ∧ b ≠ byte '"') (hne : token ≠ [])
    (hread : readScalar (token ++ rest) = some (value, rest)) :
    readValue (levels + 1) (token ++ rest) = some (value, rest) := by
  obtain ⟨b, tail, rfl⟩ := List.exists_cons_of_ne_nil hne
  obtain ⟨h1, h2, h3⟩ := h b (by simp)
  rw [cons_append] at hread ⊢
  rw [readValue, if_neg h1, if_neg h2, if_neg h3, hread]

mutual

/-- **The reader gives a plain value back** from its text, and leaves what
stands after it. -/
theorem readValue_print :
    ∀ (value : Json) (levels : ℕ) (rest : List UInt8), value.Plain text → value.height < levels →
    Ended rest →
    readValue levels (print value ++ rest) = some (value, rest)
  | .null, _, _, hplain, _, _ => absurd hplain (by simp [Plain])
  | .bool value, levels, rest, _, hlevels, _ => by
    obtain ⟨levels, rfl⟩ : ∃ n, levels = n + 1 := ⟨levels - 1, by omega⟩
    refine readValue_scalar ?_ ?_ (readScalar_bool value rest)
    · cases value with
      | true => decide +kernel
      | false => decide +kernel
    · cases value with
      | true => decide +kernel
      | false => decide +kernel
  | .int value, levels, rest, _, hlevels, hrest => by
    obtain ⟨levels, rfl⟩ : ∃ n, levels = n + 1 := ⟨levels - 1, by omega⟩
    obtain ⟨b, tail, htail⟩ := List.exists_cons_of_ne_nil (printInt_ne_nil value)
    have hmem : 45 ≤ b.toNat ∧ b.toNat ≤ 57 ∧ b.toNat ≠ 44 :=
      printInt_mem (by rw [htail]; exact List.mem_cons_self)
    refine readValue_scalar ?_ (printInt_ne_nil value) (readScalar_int hrest)
    intro c hc
    rw [print, htail, List.head?_cons, Option.mem_some_iff] at hc
    subst hc
    refine ⟨?_, ?_, ?_⟩
    all_goals
      rintro rfl
      exact absurd hmem (by decide)
  | .str bytes, levels, rest, hplain, hlevels, _ => by
    obtain ⟨levels, rfl⟩ : ∃ n, levels = n + 1 := ⟨levels - 1, by omega⟩
    have hbody := readBody_escaped bytes rest
    rw [print, quoted, cons_append, append_assoc]
    rw [readValue, if_neg (by decide), if_neg (by decide), if_pos rfl]
    rw [singleton_append, hbody, map_some]
  | .arr [], levels, rest, _, hlevels, _ => by
    obtain ⟨levels, rfl⟩ : ∃ n, levels = n + 1 := ⟨levels - 1, by omega⟩
    rfl
  | .arr (item :: items), levels, rest, hplain, hlevels, _ => by
    obtain ⟨levels, rfl⟩ : ∃ n, levels = n + 1 := ⟨levels - 1, by omega⟩
    rw [height] at hlevels
    obtain ⟨b, tail, hb, -, hne, -⟩ := print_cons hplain.1
    have hread := readItems_print (item :: items) levels
      (printItems (item :: items) ++ byte ']' :: rest).length rest (cons_ne_nil _ _) hplain
      (by omega) (by
        have hlen := length_le_printItemsRest items
        simp only [printItems, List.length_append, length_cons]
        omega)
    rw [print, cons_append, append_assoc, singleton_append]
    rw [readValue, if_neg (by decide), if_pos rfl, if_neg ?_, hread, map_some]
    rw [printItems, hb]
    simpa using hne
  | .obj [], levels, rest, _, hlevels, _ => by
    obtain ⟨levels, rfl⟩ : ∃ n, levels = n + 1 := ⟨levels - 1, by omega⟩
    rfl
  | .obj ((name, value) :: members), levels, rest, hplain, hlevels, _ => by
    obtain ⟨levels, rfl⟩ : ∃ n, levels = n + 1 := ⟨levels - 1, by omega⟩
    rw [height] at hlevels
    have hread := readMembers_print ((name, value) :: members) levels
      (printMembers ((name, value) :: members) ++ byte '\x7d' :: rest).length rest
      (cons_ne_nil _ _) hplain.2 (by omega) (by
        have hlen := length_le_printMembersRest members
        simp only [printMembers, List.length_append, length_cons]
        omega)
    rw [print, cons_append, append_assoc, singleton_append]
    rw [readValue, if_pos rfl, if_neg ?_, hread, map_some]
    rw [printMembers, quoted]
    exact fun heq => absurd (Option.some.inj heq) (by decide)

theorem readItems_print :
    ∀ (items : List Json) (levels fuel : ℕ) (rest : List UInt8), items ≠ [] →
    PlainItems text items → heightItems items < levels → items.length ≤ fuel →
    readItems (readValue levels) fuel (printItems items ++ byte ']' :: rest) = some (items, rest)
  | [], _, _, _, hne, _, _, _ => absurd rfl hne
  | [item], levels, fuel, rest, _, hplain, hlevels, hfuel => by
    obtain ⟨fuel, rfl⟩ : ∃ n, fuel = n + 1 := ⟨fuel - 1, by simp at hfuel; omega⟩
    rw [heightItems] at hlevels
    have hread := readValue_print item levels (byte ']' :: rest) hplain.1 (by omega)
      (ended_cons (by decide) _)
    have hsep : byte ']' ≠ byte ',' := by decide
    rw [printItems, printItemsRest, append_nil, readItems, hread]
    simp only [bind_eq_bind, bind_some, hsep, if_false, if_true]
  | item :: item' :: items, levels, fuel, rest, _, hplain, hlevels, hfuel => by
    obtain ⟨fuel, rfl⟩ : ∃ n, fuel = n + 1 := ⟨fuel - 1, by simp at hfuel; omega⟩
    rw [heightItems] at hlevels
    have hnext := readItems_print (item' :: items) levels fuel rest (cons_ne_nil _ _) hplain.2
      (by omega) (by simp only [length_cons] at hfuel ⊢; omega)
    have hread := readValue_print item levels
      (byte ',' :: (printItems (item' :: items) ++ byte ']' :: rest)) hplain.1 (by omega)
      (ended_cons (by decide) _)
    have hrest : printItemsRest (item' :: items) = byte ',' :: printItems (item' :: items) := by
      rw [printItemsRest, printItems]
    rw [printItems, hrest, append_assoc, cons_append, readItems, hread]
    simp only [bind_eq_bind, bind_some, if_true, hnext, map_some]

theorem readMembers_print :
    ∀ (members : List (String × Json)) (levels fuel : ℕ) (rest : List UInt8), members ≠ [] →
    PlainMembers text members → heightMembers members < levels → members.length ≤ fuel →
    readMembers (readValue levels) fuel (printMembers members ++ byte '\x7d' :: rest) =
      some (members, rest)
  | [], _, _, _, hne, _, _, _ => absurd rfl hne
  | [(name, value)], levels, fuel, rest, _, hplain, hlevels, hfuel => by
    obtain ⟨fuel, rfl⟩ : ∃ n, fuel = n + 1 := ⟨fuel - 1, by simp at hfuel; omega⟩
    rw [heightMembers] at hlevels
    have hbody := readBody_escaped (ascii name)
      (byte ':' :: (print value ++ byte '\x7d' :: rest))
    have hread := readValue_print value levels (byte '\x7d' :: rest) hplain.2.1 (by omega)
      (ended_cons (by decide) _)
    have hsep : byte '\x7d' ≠ byte ',' := by decide
    rw [printMembers, printMembersRest, append_nil, quoted, append_assoc,
      cons_append, cons_append, append_assoc, singleton_append]
    simp only [readMembers, hbody, bind_eq_bind, bind_some, ne_eq, not_true_eq_false,
      or_self, if_false, hread, hsep, if_true, nameOf_ascii hplain.1]
  | (name, value) :: (name', value') :: members, levels, fuel, rest, _, hplain, hlevels, hfuel => by
    obtain ⟨fuel, rfl⟩ : ∃ n, fuel = n + 1 := ⟨fuel - 1, by simp at hfuel; omega⟩
    rw [heightMembers] at hlevels
    have hnext := readMembers_print ((name', value') :: members) levels fuel rest
      (cons_ne_nil _ _) hplain.2.2 (by omega) (by simp only [length_cons] at hfuel ⊢; omega)
    set next := printMembers ((name', value') :: members) ++ byte '\x7d' :: rest with hnextdef
    have hrest : printMembersRest ((name', value') :: members) ++ byte '\x7d' :: rest =
        byte ',' :: next := by
      rw [hnextdef, printMembersRest, printMembers]
      rfl
    have hbody := readBody_escaped (ascii name)
      (byte ':' :: (print value ++ byte ',' :: next))
    have hread := readValue_print value levels (byte ',' :: next) hplain.2.1 (by omega)
      (ended_cons (by decide) _)
    rw [printMembers, append_assoc, cons_append, append_assoc, hrest, quoted,
      cons_append, append_assoc, singleton_append]
    simp only [readMembers, hbody, bind_eq_bind, bind_some, ne_eq, not_true_eq_false,
      or_self, if_false, hread, if_true, hnext, map_some, nameOf_ascii hplain.1]

end

theorem reader_print {value : Json} {levels : ℕ} (hplain : value.Plain text)
    (hlevels : value.height < levels) : reader levels (print value) = some value := by
  have hread := readValue_print value levels [] hplain hlevels (by intro b hb; simp at hb)
  rw [append_nil] at hread
  simp only [reader, hread]

end

end Json
