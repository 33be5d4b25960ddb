/-
The lexical check beside json-c's parser (`scan_tree` of `clock-wire.c`).

json-c parses a document and validates its UTF-8, but replaces duplicate keys
and saturates integers; the scan walks the original tokens alongside json-c's
tree and keeps the strict grammar.  The position in the text is the list of
bytes left; `none` stands for `false`.  json-c's tokener is not part of this
repository: it is the parameter `tokener`, with its depth limit, its UTF-8 flag
and the text.

Main results:
- `scanString_quoted`: the scan takes a printed string;
- `scanTree_print`: the scan takes the plain text of every plain value;
- `parseObject_print`: so the whole check accepts what the writer prints.
-/
import Fplinux.Clock.Wire

namespace Clock

open Bytes (byte ascii)
open Json (quoted print)
open List (append_assoc cons_append cons_ne_nil length_append length_cons nil_append)

def wireCapacity : ℕ := 16384

/-- `json_tokener_parse_ex` on a new tokener: depth, UTF-8 validation, text. -/
abbrev Tokener := ℕ → Bool → List UInt8 → Option Json

/-! ### Tokens -/

def isSpace (b : UInt8) : Bool := b = byte ' ' ∨ b = byte '\t' ∨ b = byte '\r' ∨ b = byte '\n'

def skipSpace (text : List UInt8) : List UInt8 := text.dropWhile isSpace

def hexValue (b : UInt8) : Option ℕ :=
  if byte '0' ≤ b ∧ b ≤ byte '9' then some (b.toNat - 48)
  else if byte 'a' ≤ b ∧ b ≤ byte 'f' then some (b.toNat - 97 + 10)
  else if byte 'A' ≤ b ∧ b ≤ byte 'F' then some (b.toNat - 65 + 10)
  else none

/-- Four hexadecimal digits and the bytes after them. -/
def unicodeEscape : List UInt8 → Option (ℕ × List UInt8)
  | a :: b :: c :: d :: rest => do
    let a ← hexValue a
    let b ← hexValue b
    let c ← hexValue c
    let d ← hexValue d
    some (((a * 16 + b) * 16 + c) * 16 + d, rest)
  | _ => none

/-- The bytes after `\u`: a surrogate must be a pair. -/
def scanUnicode (text : List UInt8) : Option (List UInt8) := do
  let (codepoint, rest) ← unicodeEscape text
  if 0xdc00 ≤ codepoint ∧ codepoint ≤ 0xdfff then none
  else if 0xd800 ≤ codepoint ∧ codepoint ≤ 0xdbff then
    match rest with
    | slash :: u :: rest =>
      if slash = byte '\\' ∧ u = byte 'u' then do
        let (low, rest) ← unicodeEscape rest
        if low < 0xdc00 ∨ low > 0xdfff then none else some rest
      else none
    | _ => none
  else some rest

def isEscape (b : UInt8) : Bool := b ∈ ascii "\"\\/bfnrtu"

/-- The loop of `scan_string` after the opening quote: the bytes left after the
closing one. -/
def scanBody : ℕ → List UInt8 → Option (List UInt8)
  | 0, _ => none
  | _ + 1, [] => none
  | fuel + 1, b :: rest =>
    if b.toNat < 0x20 then none
    else if b = byte '\\' then
      match rest with
      | [] => none
      | escape :: rest =>
        if !isEscape escape then none
        else if escape = byte 'u' then (scanUnicode rest).bind (scanBody fuel)
        else scanBody fuel rest
    else if b = byte '"' then some rest
    else scanBody fuel rest

/-- A string token with its quotes, and the bytes after it. -/
def scanString (text : List UInt8) : Option (List UInt8 × List UInt8) :=
  match text with
  | [] => none
  | b :: body =>
    if b = byte '"' then
      (scanBody (body.length + 1) body).map fun rest => (text.take (text.length - rest.length), rest)
    else none

/-- A byte that ends a number or a literal. -/
def isDelimiter (b : UInt8) : Bool := b = byte ',' ∨ b = byte '\x7d' ∨ b = byte ']' ∨ isSpace b

def isDigit (b : UInt8) : Bool := byte '0' ≤ b ∧ b ≤ byte '9'

/-- The value of a run of digits, as `strtoull` reads it. -/
def digitsValue (digits : List UInt8) : ℕ := digits.foldl (fun n d => n * 10 + (d.toNat - 48)) 0

/-- An integer token within the 64-bit range of its sign, without a leading zero. -/
def scanInt (token : List UInt8) : Bool :=
  let negative := token.head? = some (byte '-')
  let digits := if negative then token.drop 1 else token
  token.length < 32 ∧ digits ≠ [] ∧ digits.all isDigit ∧
    (digits.head? = some (byte '0') → digits.length = 1) ∧
    (if negative then digitsValue digits ≤ 2 ^ 63 else digitsValue digits < 2 ^ 64)

/-! ### Trees -/

/-- The member of a key, by the key's bytes. -/
def memberOf (members : List (String × Json)) (key : List UInt8) : Option Json :=
  (members.find? fun member => ascii member.1 = key).map (·.2)

section

variable (tokener : Tokener)

/-- The key of a member, read by a tokener of its own: a string without zero
bytes that the object has. -/
def scanKey (members : List (String × Json)) (token : List UInt8) : Option Json :=
  match tokener 4 false token with
  | some (.str key) => if key.all (· ≠ 0) then memberOf members key else none
  | _ => none

/-- The loop over the members of an object, `count` of which were scanned. -/
def scanMembers (scan : List UInt8 → Json → Option (List UInt8)) (members : List (String × Json)) :
    ℕ → ℕ → List UInt8 → Option (List UInt8)
  | 0, _, _ => none
  | _ + 1, _, [] => none
  | fuel + 1, count, text@(first :: after) =>
    if first = byte '\x7d' then if count = members.length then some after else none
    else do
      let (token, rest) ← scanString text
      let value ← scanKey tokener members token
      match skipSpace rest with
      | [] => none
      | colon :: rest =>
        if colon ≠ byte ':' then none
        else do
          let rest ← scan rest value
          match skipSpace rest with
          | [] => none
          | next :: rest =>
            if next = byte ',' then
              match skipSpace rest with
              | [] => none
              | b :: rest =>
                if b = byte '\x7d' then none
                else scanMembers scan members fuel (count + 1) (b :: rest)
            else if next = byte '\x7d' ∧ count + 1 = members.length then some rest
            else none

/-- The loop over the items of an array that are left. -/
def scanItems (scan : List UInt8 → Json → Option (List UInt8)) :
    ℕ → List Json → List UInt8 → Option (List UInt8)
  | 0, _, _ => none
  | _ + 1, _, [] => none
  | fuel + 1, items, text@(first :: after) =>
    if first = byte ']' then if items = [] then some after else none
    else
      match items with
      | [] => none
      | item :: items => do
        let rest ← scan text item
        match skipSpace rest with
        | [] => none
        | next :: rest =>
          if next = byte ',' then
            match skipSpace rest with
            | [] => none
            | b :: rest => if b = byte ']' then none else scanItems scan fuel items (b :: rest)
          else if next = byte ']' ∧ items = [] then some rest
          else none

/-- `scan_tree` with the levels left: the bytes after the value. -/
def scanTree : ℕ → List UInt8 → Json → Option (List UInt8)
  | 0, _, _ => none
  | levels + 1, text, object =>
    match skipSpace text with
    | [] => none
    | first :: rest =>
      if first = byte '\x7b' then
        match object with
        | .obj members =>
          let rest := skipSpace rest
          scanMembers tokener (scanTree levels) members (rest.length + 1) 0 rest
        | _ => none
      else if first = byte '[' then
        match object with
        | .arr items =>
          let rest := skipSpace rest
          scanItems (scanTree levels) (rest.length + 1) items rest
        | _ => none
      else if first = byte '"' then
        match object with
        | .str _ => (scanString (first :: rest)).map (·.2)
        | _ => none
      else
        let token := (first :: rest).takeWhile (!isDelimiter ·)
        let rest := (first :: rest).dropWhile (!isDelimiter ·)
        match object with
        | .int _ => if scanInt token then some rest else none
        | .bool _ => if token = ascii "true" ∨ token = ascii "false" then some rest else none
        | _ => none

/-- `parse_object`: the tokener's tree of a document that the scan accepts. -/
def parseObject (text : List UInt8) : Option Json :=
  if text.length = 0 ∨ text.length ≥ wireCapacity ∨ text.contains 0 then none
  else
    match tokener 16 true text with
    | some (.obj members) =>
      match scanTree tokener 17 text (.obj members) with
      | some rest => if skipSpace rest = [] then some (.obj members) else none
      | none => none
    | _ => none

end

/-- `write_object`: the plain text, when it fits. -/
def writeObject (object : Json) (capacity : ℕ) : Except Status (List UInt8) :=
  if capacity = 0 then .error .invalid
  else
    let text := print object
    if text.length ≥ capacity ∨ text.length ≥ wireCapacity then .error .full else .ok text

/-! ### Printed tokens -/

/-- Valid UTF-8 without control bytes. -/
def TextOk (bytes : List UInt8) : Prop :=
  (∃ values, Utf8.Decodes bytes values) ∧ ∀ b ∈ bytes, 0x20 ≤ b.toNat

variable {bytes : List UInt8} {name : String} {value : Json} {members : List (String × Json)}

theorem scanBody_escaped {rest : List UInt8} (h : ∀ b ∈ bytes, 0x20 ≤ b.toNat) {fuel : ℕ}
    (hfuel : (bytes.flatMap Json.escape).length < fuel) :
    scanBody fuel (bytes.flatMap Json.escape ++ byte '"' :: rest) = some rest := by
  induction bytes generalizing fuel with
  | nil =>
    obtain ⟨fuel, rfl⟩ : ∃ n, fuel = n + 1 := ⟨fuel - 1, by simp at hfuel; omega⟩
    rfl
  | cons b bytes ih =>
    obtain ⟨fuel, rfl⟩ : ∃ n, fuel = n + 1 := ⟨fuel - 1, by omega⟩
    have hb := h b (by simp)
    have hrest : ∀ c ∈ bytes, 0x20 ≤ c.toNat := fun c hc => h c (by simp [hc])
    rw [List.flatMap_cons, append_assoc]
    rw [List.flatMap_cons, length_append] at hfuel
    rcases Json.escape_eq hb with ⟨hspecial, heq⟩ | ⟨⟨hquote, hslash⟩, heq⟩
    · -- The scan reads the backslash and the byte in one step.
      rw [heq] at hfuel ⊢
      have hlt : ¬ (byte '\\').toNat < 0x20 := by decide
      have hesc : isEscape b = true ∧ b ≠ byte 'u' := by
        rcases hspecial with rfl | rfl | rfl
        · decide
        · decide
        · decide
      simp only [cons_append, nil_append, scanBody, hlt, if_false, if_true, hesc.1,
        hesc.2, Bool.not_true, Bool.false_eq_true]
      refine ih hrest ?_
      simp only [length_cons, List.length_nil] at hfuel
      omega
    · rw [heq] at hfuel ⊢
      have hlt : ¬ b.toNat < 0x20 := by omega
      simp only [cons_append, nil_append, scanBody, hlt, hslash, hquote, if_false]
      refine ih hrest ?_
      simp only [length_cons, List.length_nil] at hfuel
      omega

theorem scanString_quoted (h : ∀ b ∈ bytes, 0x20 ≤ b.toNat) (rest : List UInt8) :
    scanString (quoted bytes ++ rest) = some (quoted bytes, rest) := by
  have hbody : scanBody ((bytes.flatMap Json.escape ++ byte '"' :: rest).length + 1)
      (bytes.flatMap Json.escape ++ byte '"' :: rest) = some rest := by
    refine scanBody_escaped h ?_
    rw [length_append]
    omega
  have happ : quoted bytes ++ rest =
      byte '"' :: (bytes.flatMap Json.escape ++ byte '"' :: rest) := by
    simp [quoted]
  have hlen : (byte '"' :: (bytes.flatMap Json.escape ++ byte '"' :: rest)).length - rest.length =
      (quoted bytes).length := by
    rw [← happ, length_append]
    omega
  rw [happ, scanString]
  simp only [if_true, hbody, Option.map_some, hlen]
  rw [← happ, List.take_left]

theorem scanInt_printInt {value : ℤ} (h : -2 ^ 63 ≤ value ∧ value < 2 ^ 64) :
    scanInt (Json.printInt value) = true := by
  have hdigit : ∀ n, (Json.decimal n).all isDigit = true := by
    intro n
    rw [List.all_eq_true]
    intro b hb
    have hmem := Json.decimal_mem hb
    simp only [isDigit, decide_eq_true_eq]
    exact ⟨UInt8.le_iff_toNat_le.mpr hmem.1, UInt8.le_iff_toNat_le.mpr hmem.2⟩
  have hzero : ∀ n, (Json.decimal n).head? = some (byte '0') → (Json.decimal n).length = 1 := by
    intro n hhead
    rw [Json.head_decimal hhead (by decide), Json.decimal_of_lt (by omega)]
    rfl
  have hlen : ∀ n < 2 ^ 64, (Json.decimal n).length ≤ 20 := by
    intro n hn
    exact Json.decimal_length_le (Nat.lt_trans hn (by decide))
  rw [Json.printInt]
  split
  · rename_i hneg
    have hn : value.natAbs ≤ 2 ^ 63 := by omega
    have hl := hlen value.natAbs (by omega)
    have hne := Json.decimal_ne_nil value.natAbs
    have hd := hdigit value.natAbs
    have hz := hzero value.natAbs
    have hv : digitsValue (Json.decimal value.natAbs) = value.natAbs := Json.foldl_decimal _
    simp only [scanInt, List.head?_cons, if_true, List.drop_succ_cons, List.drop_zero,
      length_cons, decide_eq_true_eq]
    refine ⟨by omega, hne, hd, hz, ?_⟩
    rw [hv]
    exact hn
  · rename_i hneg
    have hn : value.toNat < 2 ^ 64 := by omega
    have hl := hlen value.toNat hn
    have hne := Json.decimal_ne_nil value.toNat
    have hd := hdigit value.toNat
    have hz := hzero value.toNat
    have hv : digitsValue (Json.decimal value.toNat) = value.toNat := Json.foldl_decimal _
    have hhead : (Json.decimal value.toNat).head? ≠ some (byte '-') := by
      intro heq
      have hmem := Json.decimal_mem (List.mem_of_mem_head? heq)
      have hminus : (byte '-').toNat = 45 := by decide
      omega
    simp only [scanInt, hhead, if_false, decide_eq_true_eq]
    refine ⟨by omega, hne, hd, hz, ?_⟩
    rw [hv]
    exact hn

/-! ### Printed trees -/

/-- What the code relies on of json-c: its tokener gives back a document or a
string that was printed plainly, as deep as its depth allows. -/
def Inverts (tokener : Tokener) : Prop :=
  ∀ depth validate value, ((∃ members, value = .obj members) ∨ ∃ bytes, value = .str bytes) →
    value.Plain TextOk → value.height < depth → tokener depth validate (print value) = some value

theorem textOk_name (h : Json.isName name = true) : TextOk (ascii name) := by
  refine ⟨⟨_, Utf8.decodes_ascii ?_⟩, ?_⟩
  · intro b hb
    have hmem := Json.mem_ascii h hb
    omega
  · intro b hb
    have hmem := Json.mem_ascii h hb
    omega

theorem skipSpace_cons {b : UInt8} (h : isSpace b = false) (text : List UInt8) :
    skipSpace (b :: text) = b :: text := by
  rw [skipSpace, List.dropWhile_cons_of_neg (by simp [h])]

theorem print_head (h : value.Plain TextOk) :
    ∃ b text, print value = b :: text ∧ isSpace b = false ∧ b ≠ byte ']' ∧ b ≠ byte '\x7d' := by
  obtain ⟨b, text, htext, hgt, hbracket, hbrace⟩ := Json.print_cons h
  refine ⟨b, text, htext, ?_, hbracket, hbrace⟩
  simp only [isSpace, decide_eq_false_iff_not]
  rintro (rfl | rfl | rfl | rfl)
  all_goals exact absurd hgt (by decide)

/-- The text after a value: the end, or a byte that ends a scalar. -/
def Delimited (rest : List UInt8) : Prop := ∀ b ∈ rest.head?, isDelimiter b = true

theorem takeWhile_token {token rest : List UInt8} (h : ∀ b ∈ token, isDelimiter b = false)
    (hrest : Delimited rest) :
    (token ++ rest).takeWhile (!isDelimiter ·) = token ∧
      (token ++ rest).dropWhile (!isDelimiter ·) = rest := by
  induction token with
  | nil =>
    cases rest with
    | nil => exact ⟨rfl, rfl⟩
    | cons b rest =>
      have hb : isDelimiter b = true := hrest b (by simp)
      simp [hb]
  | cons b token ih =>
    have hb := h b (by simp)
    obtain ⟨htake, hdrop⟩ := ih fun c hc => h c (by simp [hc])
    simp [hb, htake, hdrop]

theorem memberOf_eq (hnodup : (members.map (·.1)).Nodup)
    (hnames : ∀ member ∈ members, Json.isName member.1 = true) (h : (name, value) ∈ members) :
    memberOf members (ascii name) = some value := by
  induction members with
  | nil => simp at h
  | cons member members ih =>
    rw [List.map_cons, List.nodup_cons] at hnodup
    have hname := hnames _ h
    rw [memberOf, List.find?_cons]
    rcases List.mem_cons.mp h with rfl | hmem
    · simp
    · have hne : ascii member.1 ≠ ascii name := by
        intro heq
        have hsame := Json.ascii_inj (hnames member (by simp)) hname heq
        exact hnodup.1 (by rw [hsame]; exact List.mem_map.mpr ⟨_, hmem, rfl⟩)
      simp only [hne, decide_false]
      exact ih hnodup.2 (fun m hm => hnames m (by simp [hm])) hmem

theorem scanKey_name {tokener : Tokener} (hinv : Inverts tokener)
    (hnodup : (members.map (·.1)).Nodup) (hnames : ∀ member ∈ members, Json.isName member.1 = true)
    (h : (name, value) ∈ members) : scanKey tokener members (quoted (ascii name)) = some value := by
  have hname : Json.isName name = true := hnames _ h
  have htext := textOk_name hname
  have hread : tokener 4 false (quoted (ascii name)) = some (.str (ascii name)) := by
    have hplain := hinv 4 false (.str (ascii name)) (.inr ⟨_, rfl⟩) htext
      (by simp [Json.height])
    rw [print] at hplain
    exact hplain
  have hnul : (ascii name).all (· ≠ 0) = true := by
    rw [List.all_eq_true]
    intro b hb
    have hmem := Json.mem_ascii hname hb
    simp only [ne_eq, decide_eq_true_eq]
    rintro rfl
    exact absurd hmem (by decide)
  simp only [scanKey, hread, hnul, if_true]
  exact memberOf_eq hnodup hnames h

theorem plainMembers_mem (h : Json.PlainMembers TextOk members) {member : String × Json}
    (hmem : member ∈ members) : Json.isName member.1 = true := by
  induction members with
  | nil => simp at hmem
  | cons first members ih =>
    obtain ⟨name, value⟩ := first
    obtain ⟨hname, -, hrest⟩ := h
    rcases List.mem_cons.mp hmem with rfl | hmem'
    · exact hname
    · exact ih hrest hmem'

theorem scanTree_scalar {tokener : Tokener} {levels : ℕ} {value : Json} {b : UInt8}
    {text token rest : List UInt8} (htoken : token = b :: text) (hspace : isSpace b = false)
    (hb : b ≠ byte '\x7b' ∧ b ≠ byte '[' ∧ b ≠ byte '"')
    (hdelim : ∀ c ∈ token, isDelimiter c = false) (hrest : Delimited rest)
    (hvalue : (∃ n, value = .int n) ∧ scanInt token = true ∨
      (∃ v, value = .bool v) ∧ (token = ascii "true" ∨ token = ascii "false")) :
    scanTree tokener (levels + 1) (token ++ rest) value = some rest := by
  obtain ⟨htake, hdrop⟩ := takeWhile_token hdelim hrest
  subst htoken
  rw [List.cons_append] at htake hdrop ⊢
  simp only [scanTree, skipSpace_cons hspace, hb.1, hb.2.1, hb.2.2, if_false, htake, hdrop]
  rcases hvalue with ⟨⟨n, rfl⟩, hscan⟩ | ⟨⟨v, rfl⟩, hlit⟩
  · simp only [hscan, if_true]
  · simp only [hlit, if_true]

theorem isDelimiter_digit {b : UInt8} (h : 45 ≤ b.toNat ∧ b.toNat ≤ 57 ∧ b.toNat ≠ 44) :
    isDelimiter b = false ∧ isSpace b = false := by
  simp only [isDelimiter, isSpace, decide_eq_false_iff_not, decide_eq_true_eq]
  refine ⟨?_, ?_⟩
  · rintro (rfl | rfl | rfl | rfl | rfl | rfl | rfl)
    all_goals exact absurd h (by decide)
  · rintro (rfl | rfl | rfl | rfl)
    all_goals exact absurd h (by decide)

/-! ### The whole scan -/

mutual

/-- **The scan takes the plain text of every plain value**, and leaves what
stands after it. -/
theorem scanTree_print {tokener : Tokener} (hinv : Inverts tokener) : ∀ (value : Json) (levels : ℕ) (rest : List UInt8),
    value.Plain TextOk → value.height < levels → Delimited rest →
    scanTree tokener levels (print value ++ rest) value = some rest
  | .null, _, _, hplain, _, _ => absurd hplain (by simp [Json.Plain])
  | .bool value, levels, rest, _, hlevels, hrest => by
    obtain ⟨levels, rfl⟩ : ∃ n, levels = n + 1 := ⟨levels - 1, by omega⟩
    rw [print]
    cases value with
    | true =>
      exact scanTree_scalar rfl (by decide) (by decide) (by decide +kernel) hrest
        (.inr ⟨⟨_, rfl⟩, .inl rfl⟩)
    | false =>
      exact scanTree_scalar rfl (by decide) (by decide) (by decide +kernel) hrest
        (.inr ⟨⟨_, rfl⟩, .inr rfl⟩)
  | .int value, levels, rest, hplain, hlevels, hrest => by
    obtain ⟨levels, rfl⟩ : ∃ n, levels = n + 1 := ⟨levels - 1, by omega⟩
    obtain ⟨b, text, htext, hspace, -, -⟩ := print_head hplain
    rw [print] at htext ⊢
    have hmem : 45 ≤ b.toNat ∧ b.toNat ≤ 57 ∧ b.toNat ≠ 44 :=
      Json.printInt_mem (by rw [htext]; exact List.mem_cons_self)
    refine scanTree_scalar htext hspace ⟨?_, ?_, ?_⟩
      (fun c hc => (isDelimiter_digit (Json.printInt_mem hc)).1) hrest
      (.inl ⟨⟨_, rfl⟩, scanInt_printInt hplain⟩)
    · rintro rfl
      exact absurd hmem (by decide)
    · rintro rfl
      exact absurd hmem (by decide)
    · rintro rfl
      exact absurd hmem (by decide)
  | .str bytes, levels, rest, hplain, hlevels, _ => by
    obtain ⟨levels, rfl⟩ : ∃ n, levels = n + 1 := ⟨levels - 1, by omega⟩
    have hscan := scanString_quoted hplain.2 rest
    rw [print]
    have hcons : quoted bytes ++ rest =
        byte '"' :: (bytes.flatMap Json.escape ++ [byte '"'] ++ rest) := by
      simp [quoted]
    rw [hcons] at hscan ⊢
    have hspace : isSpace (byte '"') = false := by decide
    have hb : byte '"' ≠ byte '\x7b' ∧ byte '"' ≠ byte '[' := by decide
    simp only [scanTree, skipSpace_cons hspace, hb.1, hb.2, if_false, if_true, hscan,
      Option.map_some]
  | .arr items, levels, rest, hplain, hlevels, _ => by
    obtain ⟨levels, rfl⟩ : ∃ n, levels = n + 1 := ⟨levels - 1, by omega⟩
    have hspace : isSpace (byte '[') = false := by decide
    have hb : byte '[' ≠ byte '\x7b' := by decide
    rw [Json.height] at hlevels
    rw [print, cons_append, append_assoc]
    simp only [scanTree, skipSpace_cons hspace, hb, if_false, if_true]
    cases items with
    | nil =>
      simp only [Json.printItems, nil_append, List.singleton_append]
      rw [skipSpace_cons (by decide)]
      rfl
    | cons item items =>
      obtain ⟨b, text, htext, hb', hne, -⟩ := print_head hplain.1
      have hskip : skipSpace (Json.printItems (item :: items) ++ ([byte ']'] ++ rest)) =
          Json.printItems (item :: items) ++ byte ']' :: rest := by
        rw [Json.printItems, htext, cons_append, cons_append, skipSpace_cons hb']
        rfl
      rw [hskip]
      refine scanItems_print hinv (item :: items) levels _ rest (cons_ne_nil _ _) hplain
        (by omega) ?_
      have hlen := Json.length_le_printItemsRest items
      simp only [Json.printItems, length_append, length_cons]
      omega
  | .obj members, levels, rest, hplain, hlevels, _ => by
    obtain ⟨levels, rfl⟩ : ∃ n, levels = n + 1 := ⟨levels - 1, by omega⟩
    have hspace : isSpace (byte '\x7b') = false := by decide
    rw [Json.height] at hlevels
    rw [print, cons_append, append_assoc]
    simp only [scanTree, skipSpace_cons hspace, if_true]
    cases members with
    | nil =>
      simp only [Json.printMembers, nil_append, List.singleton_append]
      rw [skipSpace_cons (by decide)]
      rfl
    | cons member members =>
      obtain ⟨name, value⟩ := member
      have hskip : skipSpace (Json.printMembers ((name, value) :: members) ++
          ([byte '\x7d'] ++ rest)) =
          Json.printMembers ((name, value) :: members) ++ byte '\x7d' :: rest := by
        rw [Json.printMembers, quoted, cons_append, cons_append,
          skipSpace_cons (by decide)]
        rfl
      rw [hskip]
      have hlen := Json.length_le_printMembersRest members
      refine scanMembers_print hinv ((name, value) :: members) levels _ 0 rest (cons_ne_nil _ _)
        hplain.2 (by omega) hplain.1 (fun member hmem => plainMembers_mem hplain.2 hmem)
        (fun member hmem => hmem) (by rw [Nat.zero_add]) ?_
      simp only [Json.printMembers, length_append, length_cons]
      omega

theorem scanItems_print {tokener : Tokener} (hinv : Inverts tokener) :
    ∀ (items : List Json) (levels fuel : ℕ) (rest : List UInt8),
    items ≠ [] → Json.PlainItems TextOk items → Json.heightItems items < levels →
    items.length ≤ fuel →
    scanItems (scanTree tokener levels) fuel items (Json.printItems items ++ byte ']' :: rest) =
      some rest
  | [], _, _, _, hne, _, _, _ => absurd rfl hne
  | [item], levels, fuel, rest, _, hplain, hlevels, hfuel => by
    obtain ⟨fuel, rfl⟩ : ∃ n, fuel = n + 1 := ⟨fuel - 1, by simp at hfuel; omega⟩
    rw [Json.heightItems] at hlevels
    have hscan := scanTree_print hinv item levels (byte ']' :: rest) hplain.1 (by omega)
      (by rintro b ⟨⟩; decide)
    obtain ⟨b, text, htext, -, hne, -⟩ := print_head hplain.1
    rw [Json.printItems, Json.printItemsRest, List.append_nil]
    rw [htext, cons_append] at hscan ⊢
    have hsep : byte ']' ≠ byte ',' := by decide
    simp only [scanItems, hne, if_false, Option.bind_eq_bind, hscan, Option.bind_some,
      skipSpace_cons (show isSpace (byte ']') = false by decide), hsep, true_and, if_true]
  | item :: item' :: items, levels, fuel, rest, _, hplain, hlevels, hfuel => by
    obtain ⟨fuel, rfl⟩ : ∃ n, fuel = n + 1 := ⟨fuel - 1, by simp at hfuel; omega⟩
    rw [Json.heightItems] at hlevels
    have hnext := scanItems_print hinv (item' :: items) levels fuel rest (cons_ne_nil _ _) hplain.2
      (by omega) (by simp only [length_cons] at hfuel ⊢; omega)
    have hscan := scanTree_print hinv item levels
      (byte ',' :: (Json.printItems (item' :: items) ++ byte ']' :: rest)) hplain.1 (by omega)
      (by rintro b ⟨⟩; decide)
    obtain ⟨b, text, htext, -, hne, -⟩ := print_head hplain.1
    obtain ⟨b', text', htext', hspace', hne', -⟩ := print_head hplain.2.1
    have hrest : Json.printItemsRest (item' :: items) = byte ',' :: Json.printItems (item' :: items) := by
      rw [Json.printItemsRest, Json.printItems]
    rw [Json.printItems, hrest, append_assoc, cons_append]
    rw [Json.printItems, htext', cons_append, cons_append] at hscan hnext ⊢
    rw [htext, cons_append] at hscan ⊢
    simp only [scanItems, hne, if_false, Option.bind_eq_bind, hscan, Option.bind_some,
      skipSpace_cons (show isSpace (byte ',') = false by decide), if_true, skipSpace_cons hspace',
      hne', hnext]

theorem scanMembers_print {tokener : Tokener} (hinv : Inverts tokener) :
    ∀ (members : List (String × Json)) {all : List (String × Json)} (levels fuel count : ℕ) (rest : List UInt8),
    members ≠ [] → Json.PlainMembers TextOk members → Json.heightMembers members < levels →
    (all.map (·.1)).Nodup → (∀ member ∈ all, Json.isName member.1 = true) →
    (∀ member ∈ members, member ∈ all) → count + members.length = all.length →
    members.length ≤ fuel →
    scanMembers tokener (scanTree tokener levels) all fuel count
      (Json.printMembers members ++ byte '\x7d' :: rest) = some rest
  | [], _, _, _, _, _, hne, _, _, _, _, _, _, _ => absurd rfl hne
  | [(name, value)], all, levels, fuel, count, rest, _, hplain, hlevels, hnodup, hnames, hall,
      hcount, hfuel => by
    obtain ⟨fuel, rfl⟩ : ∃ n, fuel = n + 1 := ⟨fuel - 1, by simp at hfuel; omega⟩
    rw [Json.heightMembers] at hlevels
    have hstring := scanString_quoted (textOk_name hplain.1).2
      (byte ':' :: (print value ++ byte '\x7d' :: rest))
    have hkey := scanKey_name hinv hnodup hnames (hall (name, value) (by simp))
    have hscan := scanTree_print hinv value levels (byte '\x7d' :: rest) hplain.2.1 (by omega)
      (by rintro b ⟨⟩; decide)
    have hfirst : byte '"' ≠ byte '\x7d' := by decide
    have hsep : byte '\x7d' ≠ byte ',' := by decide
    have hlast : count + 1 = all.length := hcount
    rw [Json.printMembers, Json.printMembersRest, List.append_nil, List.append_assoc,
      List.cons_append]
    rw [quoted] at hstring hkey ⊢
    rw [List.cons_append] at hstring ⊢
    simp only [scanMembers, hfirst, if_false, Option.bind_eq_bind, hstring, Option.bind_some, hkey,
      skipSpace_cons (show isSpace (byte ':') = false by decide), ne_eq, not_true_eq_false, hscan,
      skipSpace_cons (show isSpace (byte '\x7d') = false by decide), hsep, hlast, and_self, if_true]
  | (name, value) :: (name', value') :: members, all, levels, fuel, count, rest, _, hplain, hlevels,
      hnodup, hnames, hall, hcount, hfuel => by
    obtain ⟨fuel, rfl⟩ : ∃ n, fuel = n + 1 := ⟨fuel - 1, by simp at hfuel; omega⟩
    rw [Json.heightMembers] at hlevels
    simp only [List.length_cons] at hcount hfuel
    have hnext := scanMembers_print hinv ((name', value') :: members) levels fuel (count + 1) rest
      (List.cons_ne_nil _ _) hplain.2.2 (by omega) hnodup hnames
      (fun member hmem => hall member (List.mem_cons_of_mem _ hmem))
      (by simp only [List.length_cons]; omega) (by simp only [List.length_cons]; omega)
    set next := Json.printMembers ((name', value') :: members) ++ byte '\x7d' :: rest with hnextdef
    have htext : Json.printMembersRest ((name', value') :: members) ++ byte '\x7d' :: rest =
        byte ',' :: next := by
      rw [hnextdef, Json.printMembersRest, Json.printMembers]
      rfl
    have hstring := scanString_quoted (textOk_name hplain.1).2
      (byte ':' :: (print value ++ byte ',' :: next))
    have hkey := scanKey_name hinv hnodup hnames (hall (name, value) (by simp))
    have hscan := scanTree_print hinv value levels (byte ',' :: next) hplain.2.1 (by omega)
      (by rintro b ⟨⟩; decide)
    have hfirst : byte '"' ≠ byte '\x7d' := by decide
    obtain ⟨tail, htail⟩ : ∃ tail, next = byte '"' :: tail := by
      rw [hnextdef, Json.printMembers, quoted]
      exact ⟨_, rfl⟩
    rw [Json.printMembers, List.append_assoc, List.cons_append, List.append_assoc, htext]
    rw [quoted] at hstring hkey ⊢
    rw [List.cons_append] at hstring ⊢
    rw [htail] at hstring hscan hnext ⊢
    simp only [scanMembers, hfirst, if_false, Option.bind_eq_bind, hstring, Option.bind_some, hkey,
      skipSpace_cons (show isSpace (byte ':') = false by decide), ne_eq, not_true_eq_false, hscan,
      skipSpace_cons (show isSpace (byte ',') = false by decide), if_true,
      skipSpace_cons (show isSpace (byte '"') = false by decide), hnext]

end

/-- **The check accepts what the writer prints**, when it fits. -/
theorem parseObject_print {tokener : Tokener} (hinv : Inverts tokener)
    (hplain : (Json.obj members).Plain TextOk) (hheight : (Json.obj members).height < 16)
    (hlen : (print (.obj members)).length < wireCapacity) :
    parseObject tokener (print (.obj members)) = some (.obj members) := by
  have hscan := scanTree_print hinv (.obj members) 17 [] hplain (by omega) (by rintro b ⟨⟩)
  rw [List.append_nil] at hscan
  have hread := hinv 16 true (.obj members) (.inl ⟨members, rfl⟩) hplain hheight
  have hfits : ¬ ((print (.obj members)).length = 0 ∨
      (print (.obj members)).length ≥ wireCapacity ∨ (print (.obj members)).contains 0 = true) := by
    rw [not_or, not_or]
    refine ⟨by rw [print]; simp, by omega, ?_⟩
    intro hzero
    exact absurd (Json.print_ge _ (List.contains_iff_mem.mp hzero)) (by decide)
  rw [parseObject, if_neg hfits, hread]
  simp only [hscan]
  rfl

end Clock
