/-
JSON values and their plain text.

`Json` has exact integers, byte strings, and objects as lists of members in
order.  `print` is the compact form json-c calls plain: no blanks, decimal
integers, and strings that escape the quote, the backslash, the slash and the
control bytes.

Main results:
- `decimal_length_le`: how long the digits of a number get;
- `quoted_length_le`: how long a string without control bytes gets;
- `Fits.obj`, `Fits.arr`: how deep and how long a container gets.
-/
import Mathlib.Algebra.GroupWithZero.Nat
import Mathlib.Algebra.Ring.Int.Defs
import Fplinux.Lib.Bytes

/-- A JSON value. -/
inductive Json
  | null
  | bool (value : Bool)
  | int (value : ℤ)
  | str (bytes : List UInt8)
  | arr (items : List Json)
  | obj (members : List (String × Json))

namespace Json

open Bytes (byte ascii toNat_byte)
open List (length_append length_cons length_singleton mem_cons mem_singleton)

/-! ### Printing -/

/-- The digits of a number. -/
def decimal (n : ℕ) : List UInt8 :=
  if n < 10 then [(48 + n).toUInt8] else decimal (n / 10) ++ [(48 + n % 10).toUInt8]
termination_by n
decreasing_by omega

def printInt (value : ℤ) : List UInt8 :=
  if value < 0 then byte '-' :: decimal value.natAbs else decimal value.toNat

def hexDigit (n : ℕ) : UInt8 := if n < 10 then (48 + n).toUInt8 else (87 + n).toUInt8

/-- A byte of a string, escaped where it must be. -/
def escape (b : UInt8) : List UInt8 :=
  if b = byte '"' ∨ b = byte '\\' ∨ b = byte '/' then [byte '\\', b]
  else if b.toNat = 8 then ascii "\\b"
  else if b.toNat = 10 then ascii "\\n"
  else if b.toNat = 13 then ascii "\\r"
  else if b.toNat = 9 then ascii "\\t"
  else if b.toNat = 12 then ascii "\\f"
  else if b.toNat < 0x20 then ascii "\\u00" ++ [hexDigit (b.toNat / 16), hexDigit (b.toNat % 16)]
  else [b]

def quoted (bytes : List UInt8) : List UInt8 :=
  byte '"' :: (bytes.flatMap escape ++ [byte '"'])

mutual

/-- The plain text of a value. -/
def print : Json → List UInt8
  | .null => ascii "null"
  | .bool value => ascii (if value then "true" else "false")
  | .int value => printInt value
  | .str bytes => quoted bytes
  | .arr items => byte '[' :: (printItems items ++ [byte ']'])
  | .obj members => byte '\x7b' :: (printMembers members ++ [byte '\x7d'])

def printItems : List Json → List UInt8
  | [] => []
  | item :: rest => print item ++ printItemsRest rest

def printItemsRest : List Json → List UInt8
  | [] => []
  | item :: rest => byte ',' :: (print item ++ printItemsRest rest)

def printMembers : List (String × Json) → List UInt8
  | [] => []
  | (name, value) :: rest =>
    quoted (ascii name) ++ byte ':' :: (print value ++ printMembersRest rest)

def printMembersRest : List (String × Json) → List UInt8
  | [] => []
  | (name, value) :: rest =>
    byte ',' :: (quoted (ascii name) ++ byte ':' :: (print value ++ printMembersRest rest))

end

/-! ### Plain values -/

/-- A member name of lower-case letters and `_`. -/
def isName (name : String) : Bool := name.toList.all fun c => c.isLower || c = '_'

mutual

/-- How deep containers nest. -/
def height : Json → ℕ
  | .arr items => 1 + heightItems items
  | .obj members => 1 + heightMembers members
  | _ => 0

def heightItems : List Json → ℕ
  | [] => 0
  | item :: rest => max (height item) (heightItems rest)

def heightMembers : List (String × Json) → ℕ
  | [] => 0
  | (_, value) :: rest => max (height value) (heightMembers rest)

end

section Plain

variable (text : List UInt8 → Prop)

mutual

/-- Objects with distinct names, arrays, strings that satisfy `text`, 64-bit
integers and booleans. -/
def Plain : Json → Prop
  | .null => False
  | .bool _ => True
  | .int value => -2 ^ 63 ≤ value ∧ value < 2 ^ 64
  | .str bytes => text bytes
  | .arr items => PlainItems items
  | .obj members => (members.map (·.1)).Nodup ∧ PlainMembers members

def PlainItems : List Json → Prop
  | [] => True
  | item :: rest => Plain item ∧ PlainItems rest

def PlainMembers : List (String × Json) → Prop
  | [] => True
  | (name, value) :: rest => isName name ∧ Plain value ∧ PlainMembers rest

end

end Plain

/-! ### Names -/

variable {name : String} {b : UInt8} {n : ℕ}

theorem name_char (h : isName name = true) {c : Char} (hc : c ∈ name.toList) :
    95 ≤ c.toNat ∧ c.toNat ≤ 122 := by
  have hall : (decide ('a'.val ≤ c.val) && decide (c.val ≤ 'z'.val) || decide (c = '_')) = true :=
    List.all_eq_true.mp h c hc
  simp only [Bool.or_eq_true, Bool.and_eq_true, decide_eq_true_eq] at hall
  rcases hall with ⟨hlow, hhigh⟩ | rfl
  · exact ⟨Nat.le_trans (by decide) (UInt32.le_iff_toNat_le.mp hlow),
      UInt32.le_iff_toNat_le.mp hhigh⟩
  · decide

theorem mem_ascii (h : isName name = true) (hb : b ∈ ascii name) :
    95 ≤ b.toNat ∧ b.toNat ≤ 122 := by
  obtain ⟨c, hc, rfl⟩ := List.mem_map.mp hb
  have hchar := name_char h hc
  rw [toNat_byte (by omega)]
  exact hchar

theorem ascii_inj {a b : String} (ha : isName a = true) (hb : isName b = true)
    (h : ascii a = ascii b) : a = b := by
  have hlist : ∀ {l m : List Char}, (∀ c ∈ l, c.toNat < 256) → (∀ c ∈ m, c.toNat < 256) →
      l.map byte = m.map byte → l = m := by
    intro l
    induction l with
    | nil =>
      intro m _ _ heq
      cases m with
      | nil => rfl
      | cons c m => simp at heq
    | cons c l ih =>
      intro m hl hm heq
      cases m with
      | nil => simp at heq
      | cons d m =>
        simp only [List.map_cons, List.cons.injEq] at heq
        have hcd : c = d := by
          apply Char.ext
          apply UInt32.toNat_inj.mp
          have hnat := congrArg UInt8.toNat heq.1
          rw [toNat_byte (hl c (by simp)), toNat_byte (hm d (by simp))] at hnat
          exact hnat
        rw [hcd, ih (fun e he => hl e (by simp [he])) (fun e he => hm e (by simp [he])) heq.2]
  apply String.toList_inj.mp
  refine hlist ?_ ?_ h
  · intro c hc
    have hchar := name_char ha hc
    omega
  · intro c hc
    have hchar := name_char hb hc
    omega

/-! ### Digits -/

theorem toNat_digit (h : n < 10) : ((48 + n).toUInt8).toNat = 48 + n := by
  rw [UInt8.toNat_ofNat']
  omega

theorem decimal_of_lt (h : n < 10) : decimal n = [(48 + n).toUInt8] := by
  rw [decimal, if_pos h]

theorem decimal_of_le (h : 10 ≤ n) : decimal n = decimal (n / 10) ++ [(48 + n % 10).toUInt8] := by
  rw [decimal, if_neg (by omega)]

theorem decimal_mem (h : b ∈ decimal n) : 48 ≤ b.toNat ∧ b.toNat ≤ 57 := by
  induction n using Nat.strongRecOn with
  | ind n ih =>
    by_cases hn : n < 10
    · rw [decimal_of_lt hn, List.mem_singleton] at h
      rw [h, toNat_digit hn]
      omega
    · rw [decimal_of_le (by omega)] at h
      rcases List.mem_append.mp h with hmem | hlast
      · exact ih (n / 10) (by omega) hmem
      · rw [List.mem_singleton] at hlast
        rw [hlast, toNat_digit (by omega)]
        omega

theorem decimal_ne_nil (n : ℕ) : decimal n ≠ [] := by
  by_cases hn : n < 10
  · rw [decimal_of_lt hn]
    exact List.cons_ne_nil _ _
  · rw [decimal_of_le (by omega)]
    simp

theorem foldl_decimal (n : ℕ) :
    (decimal n).foldl (fun acc d => acc * 10 + (d.toNat - 48)) 0 = n := by
  induction n using Nat.strongRecOn with
  | ind n ih =>
    by_cases hn : n < 10
    · rw [decimal_of_lt hn]
      simp only [List.foldl_cons, List.foldl_nil, toNat_digit hn]
      omega
    · rw [decimal_of_le (by omega), List.foldl_append, ih (n / 10) (by omega)]
      simp only [List.foldl_cons, List.foldl_nil, toNat_digit (show n % 10 < 10 by omega)]
      omega

theorem head_decimal (h : (decimal n).head? = some b) (hb : b.toNat = 48) : n = 0 := by
  induction n using Nat.strongRecOn with
  | ind n ih =>
    by_cases hn : n < 10
    · rw [decimal_of_lt hn] at h
      simp only [List.head?_cons, Option.some.injEq] at h
      rw [← h, toNat_digit hn] at hb
      omega
    · rw [decimal_of_le (by omega), List.head?_append_of_ne_nil _ (decimal_ne_nil _)] at h
      have hz := ih (n / 10) (by omega) h
      omega

theorem printInt_mem {value : ℤ} (h : b ∈ printInt value) :
    45 ≤ b.toNat ∧ b.toNat ≤ 57 ∧ b.toNat ≠ 44 := by
  rw [printInt] at h
  split at h
  · rcases List.mem_cons.mp h with rfl | hmem
    · decide
    · have hdigit := decimal_mem hmem
      omega
  · have hdigit := decimal_mem h
    omega

theorem printInt_ne_nil (value : ℤ) : printInt value ≠ [] := by
  rw [printInt]
  split
  · exact List.cons_ne_nil _ _
  · exact decimal_ne_nil _

theorem print_cons {text : List UInt8 → Prop} {value : Json} (h : value.Plain text) :
    ∃ b rest, print value = b :: rest ∧ 0x20 < b.toNat ∧ b ≠ byte ']' ∧ b ≠ byte '\x7d' := by
  cases value with
  | null => exact absurd h (by simp [Plain])
  | bool value =>
    cases value with
    | true => exact ⟨_, _, rfl, by decide, by decide, by decide⟩
    | false => exact ⟨_, _, rfl, by decide, by decide, by decide⟩
  | int value =>
    obtain ⟨b, rest, heq⟩ := List.exists_cons_of_ne_nil (printInt_ne_nil value)
    have hmem := printInt_mem (b := b) (by rw [heq]; exact List.mem_cons_self)
    refine ⟨b, rest, heq, by omega, ?_, ?_⟩
    · rintro rfl
      exact absurd hmem (by decide)
    · rintro rfl
      exact absurd hmem (by decide)
  | str bytes => exact ⟨_, _, rfl, by decide, by decide, by decide⟩
  | arr items => exact ⟨_, _, rfl, by decide, by decide, by decide⟩
  | obj members => exact ⟨_, _, rfl, by decide, by decide, by decide⟩

/-! ### No control byte is printed -/

theorem hexDigit_ge (h : n < 16) : 0x20 ≤ (hexDigit n).toNat := by
  have hall : ∀ n < 16, 0x20 ≤ (hexDigit n).toNat := by decide
  exact hall n h

theorem escape_ge {c : UInt8} (h : c ∈ escape b) : 0x20 ≤ c.toNat := by
  have hquoted : 0x20 ≤ (byte '\\').toNat ∧ 0x20 ≤ (byte '"').toNat ∧ 0x20 ≤ (byte '/').toNat := by
    decide
  have hletters : ∀ s ∈ ["\\b", "\\n", "\\r", "\\t", "\\f", "\\u00"],
      ∀ d ∈ ascii s, 0x20 ≤ d.toNat := by decide +kernel
  rw [escape] at h
  split_ifs at h with hquote h8 h10 h13 h9 h12 hlow
  · rcases mem_cons.mp h with rfl | hb
    · exact hquoted.1
    · rw [mem_singleton] at hb
      subst hb
      rcases hquote with rfl | rfl | rfl
      · exact hquoted.2.1
      · exact hquoted.1
      · exact hquoted.2.2
  · exact hletters "\\b" (by simp) c h
  · exact hletters "\\n" (by simp) c h
  · exact hletters "\\r" (by simp) c h
  · exact hletters "\\t" (by simp) c h
  · exact hletters "\\f" (by simp) c h
  · rcases List.mem_append.mp h with hu | hdigits
    · exact hletters "\\u00" (by simp) c hu
    · simp only [mem_cons, List.not_mem_nil, or_false] at hdigits
      rcases hdigits with rfl | rfl
      · exact hexDigit_ge (by omega)
      · exact hexDigit_ge (Nat.mod_lt _ (by decide))
  · rw [mem_singleton] at h
    subst h
    omega

theorem quoted_ge {bytes : List UInt8} {c : UInt8} (h : c ∈ quoted bytes) : 0x20 ≤ c.toNat := by
  rw [quoted, mem_cons, List.mem_append, mem_singleton] at h
  have hquote : 0x20 ≤ (byte '"').toNat := by decide
  rcases h with rfl | hbody | rfl
  · exact hquote
  · obtain ⟨b, -, hb⟩ := List.mem_flatMap.mp hbody
    exact escape_ge hb
  · exact hquote

mutual

theorem print_ge : ∀ (value : Json) {c : UInt8}, c ∈ print value → 0x20 ≤ c.toNat
  | .null, c, h => by
    have hall : ∀ d ∈ ascii "null", 0x20 ≤ d.toNat := by decide +kernel
    exact hall c h
  | .bool value, c, h => by
    have hall : ∀ v : Bool, ∀ d ∈ ascii (if v then "true" else "false"), 0x20 ≤ d.toNat := by
      decide +kernel
    exact hall value c h
  | .int value, c, h => by
    have hdigit := printInt_mem h
    omega
  | .str bytes, c, h => quoted_ge h
  | .arr items, c, h => by
    rw [print, List.mem_cons, List.mem_append, List.mem_singleton] at h
    rcases h with rfl | hitems | rfl
    · decide
    · exact printItems_ge items hitems
    · decide
  | .obj members, c, h => by
    rw [print, List.mem_cons, List.mem_append, List.mem_singleton] at h
    rcases h with rfl | hmembers | rfl
    · decide
    · exact printMembers_ge members hmembers
    · decide

theorem printItems_ge : ∀ (items : List Json) {c : UInt8}, c ∈ printItems items → 0x20 ≤ c.toNat
  | item :: rest, c, h => by
    rw [printItems, List.mem_append] at h
    exact h.elim (fun hitem => print_ge item hitem) fun hrest => printItemsRest_ge rest hrest

theorem printItemsRest_ge : ∀ (items : List Json) {c : UInt8}, c ∈ printItemsRest items →
    0x20 ≤ c.toNat
  | item :: rest, c, h => by
    rw [printItemsRest, List.mem_cons, List.mem_append] at h
    rcases h with rfl | hitem | hrest
    · decide
    · exact print_ge item hitem
    · exact printItemsRest_ge rest hrest

theorem printMembers_ge : ∀ (members : List (String × Json)) {c : UInt8},
    c ∈ printMembers members → 0x20 ≤ c.toNat
  | (name, value) :: rest, c, h => by
    rw [printMembers, List.mem_append, List.mem_cons, List.mem_append] at h
    rcases h with hname | rfl | hvalue | hrest
    · exact quoted_ge hname
    · decide
    · exact print_ge value hvalue
    · exact printMembersRest_ge rest hrest

theorem printMembersRest_ge : ∀ (members : List (String × Json)) {c : UInt8},
    c ∈ printMembersRest members → 0x20 ≤ c.toNat
  | (name, value) :: rest, c, h => by
    rw [printMembersRest, List.mem_cons, List.mem_append, List.mem_cons, List.mem_append] at h
    rcases h with rfl | hname | rfl | hvalue | hrest
    · decide
    · exact quoted_ge hname
    · decide
    · exact print_ge value hvalue
    · exact printMembersRest_ge rest hrest

end

theorem mapM_make {α : Type} {read : Json → Option α} {make : α → Json} {rows : List α}
    (h : ∀ row ∈ rows, read (make row) = some row) : (rows.map make).mapM read = some rows := by
  induction rows with
  | nil => rfl
  | cons row rows ih =>
    rw [List.map_cons, List.mapM_cons, h row (by simp), ih fun other hmem => h other (by simp [hmem])]
    rfl

theorem escape_eq (h : 0x20 ≤ b.toNat) :
    (b = byte '"' ∨ b = byte '\\' ∨ b = byte '/') ∧ escape b = [byte '\\', b] ∨
      (b ≠ byte '"' ∧ b ≠ byte '\\') ∧ escape b = [b] := by
  by_cases hb : b = byte '"' ∨ b = byte '\\' ∨ b = byte '/'
  · left
    exact ⟨hb, by rw [escape, if_pos hb]⟩
  · right
    simp only [not_or] at hb
    refine ⟨⟨hb.1, hb.2.1⟩, ?_⟩
    rw [escape, if_neg (by simp [hb]), if_neg (by omega), if_neg (by omega), if_neg (by omega),
      if_neg (by omega), if_neg (by omega), if_neg (by omega)]

/-! ### Lengths -/

theorem decimal_length_le {k : ℕ} (h : n < 10 ^ (k + 1)) : (decimal n).length ≤ k + 1 := by
  induction k generalizing n with
  | zero =>
    rw [decimal, if_pos (by simpa using h)]
    simp
  | succ k ih =>
    rw [decimal]
    split
    · simp
    · have hdiv : n / 10 < 10 ^ (k + 1) := by
        rw [Nat.div_lt_iff_lt_mul (by omega), ← Nat.pow_succ]
        exact h
      have hlen := ih hdiv
      rw [length_append, length_singleton]
      omega

theorem escape_length_le (h : 0x20 ≤ b.toNat) : (escape b).length ≤ 2 := by
  rcases escape_eq h with ⟨-, heq⟩ | ⟨-, heq⟩
  · rw [heq]
    exact Nat.le_refl _
  · rw [heq]
    exact Nat.le_succ _

theorem quoted_length_le {bytes : List UInt8} (h : ∀ b ∈ bytes, 0x20 ≤ b.toNat) :
    (quoted bytes).length ≤ 2 * bytes.length + 2 := by
  have hflat : (bytes.flatMap escape).length ≤ 2 * bytes.length := by
    induction bytes with
    | nil => simp
    | cons b bytes ih =>
      have hb := escape_length_le (h b (by simp))
      have hrest := ih fun c hc => h c (by simp [hc])
      rw [List.flatMap_cons, length_append, length_cons]
      omega
  rw [quoted, length_cons, length_append, length_singleton]
  omega

theorem quoted_name_length (h : isName name = true) :
    (quoted (ascii name)).length = name.length + 2 := by
  -- No byte of a name is escaped.
  have hflat : (ascii name).flatMap escape = ascii name := by
    have heach : ∀ b ∈ ascii name, escape b = [b] := by
      intro b hb
      have hmem := mem_ascii h hb
      rcases escape_eq (show 0x20 ≤ b.toNat by omega) with ⟨hspecial, -⟩ | ⟨-, heq⟩
      · rcases hspecial with rfl | rfl | rfl
        all_goals exact absurd hmem (by decide)
      · exact heq
    generalize ascii name = bytes at heach
    induction bytes with
    | nil => rfl
    | cons b bytes ih =>
      rw [List.flatMap_cons, heach b (by simp), ih fun c hc => heach c (by simp [hc])]
      rfl
  rw [quoted, hflat, length_cons, length_append, length_singleton, ascii,
    List.length_map, String.length_toList]

theorem length_le_printItemsRest (items : List Json) :
    items.length ≤ (printItemsRest items).length := by
  induction items with
  | nil => simp
  | cons item items ih =>
    rw [printItemsRest, length_cons, length_cons, length_append]
    omega

theorem length_le_printMembersRest (members : List (String × Json)) :
    members.length ≤ (printMembersRest members).length := by
  induction members with
  | nil => simp
  | cons member members ih =>
    obtain ⟨name, value⟩ := member
    simp only [printMembersRest, length_cons, length_append]
    omega

/-! ### Values of a bounded size -/

section Fits

variable {text : List UInt8 → Prop}

/-- A plain value at most `depth` containers deep and `size` bytes long. -/
structure Fits (text : List UInt8 → Prop) (value : Json) (depth size : ℕ) : Prop where
  plain : value.Plain text
  height_le : value.height ≤ depth
  length_le : (print value).length ≤ size

/-- Members that fit, with their names, colons and commas. -/
inductive FitsMembers (text : List UInt8 → Prop) : List (String × Json) → ℕ → ℕ → Prop
  | nil {depth : ℕ} : FitsMembers text [] depth 0
  | cons {name : String} {value : Json} {rest : List (String × Json)} {depth size size' : ℕ} :
      isName name = true → Fits text value depth size → FitsMembers text rest depth size' →
      FitsMembers text ((name, value) :: rest) depth (name.length + 4 + size + size')

variable {depth size : ℕ} {members : List (String × Json)}

theorem Fits.mono {value : Json} {depth' size' : ℕ} (h : Fits text value depth size)
    (hd : depth ≤ depth') (hs : size ≤ size') : Fits text value depth' size' :=
  ⟨h.plain, Nat.le_trans h.height_le hd, Nat.le_trans h.length_le hs⟩

theorem Fits.bool (value : Bool) : Fits text (.bool value) depth 5 := by
  refine ⟨trivial, Nat.zero_le _, ?_⟩
  cases value with
  | true => decide
  | false => decide

theorem Fits.nat {n k : ℕ} (h : n < 10 ^ (k + 1)) (h64 : n < 2 ^ 64) {depth : ℕ} :
    Fits text (.int n) depth (k + 1) := by
  refine ⟨⟨by omega, by omega⟩, Nat.zero_le _, ?_⟩
  rw [print, printInt, if_neg (by omega), Int.toNat_natCast]
  exact decimal_length_le h

theorem Fits.nonneg {value : ℤ} {k : ℕ} (h0 : 0 ≤ value) (h : value < 10 ^ (k + 1))
    (h64 : value < 2 ^ 64) : Fits text (.int value) depth (k + 1) := by
  obtain ⟨n, rfl⟩ := Int.eq_ofNat_of_zero_le h0
  exact Fits.nat (by exact_mod_cast h) (by exact_mod_cast h64)

theorem Fits.signed {value : ℤ} {k : ℕ} (h : value.natAbs < 10 ^ (k + 1))
    (h63 : value.natAbs < 2 ^ 63) {depth : ℕ} : Fits text (.int value) depth (k + 2) := by
  refine ⟨⟨by omega, by omega⟩, Nat.zero_le _, ?_⟩
  rw [print, printInt]
  split
  · rw [length_cons]
    exact Nat.succ_le_succ (decimal_length_le h)
  · have hlen := decimal_length_le (show value.toNat < 10 ^ (k + 1) by omega)
    omega

theorem Fits.str {bytes : List UInt8} {n : ℕ} (h : text bytes) (hge : ∀ b ∈ bytes, 0x20 ≤ b.toNat)
    (hlen : bytes.length ≤ n) : Fits text (.str bytes) depth (2 * n + 2) := by
  refine ⟨h, Nat.zero_le _, ?_⟩
  rw [print]
  have hquoted := quoted_length_le hge
  omega

theorem FitsMembers.plain (h : FitsMembers text members depth size) :
    PlainMembers text members := by
  induction h with
  | nil => trivial
  | cons hname hvalue _ ih => exact ⟨hname, hvalue.plain, ih⟩

theorem FitsMembers.height_le (h : FitsMembers text members depth size) :
    heightMembers members ≤ depth := by
  induction h with
  | nil => exact Nat.zero_le _
  | cons _ hvalue _ ih => exact Nat.max_le.mpr ⟨hvalue.height_le, ih⟩

theorem FitsMembers.length_le (h : FitsMembers text members depth size) :
    (printMembersRest members).length ≤ size := by
  induction h with
  | nil => exact Nat.zero_le _
  | cons hname hvalue _ ih =>
    have hlen := hvalue.length_le
    rw [printMembersRest, length_cons, length_append, length_cons,
      length_append, quoted_name_length hname]
    omega

theorem Fits.obj (hnodup : (members.map (·.1)).Nodup) (h : FitsMembers text members depth size) :
    Fits text (.obj members) (depth + 1) (size + 2) := by
  refine ⟨⟨hnodup, h.plain⟩, ?_, ?_⟩
  · have hheight := h.height_le
    rw [height]
    omega
  · have hrest := h.length_le
    rw [print, length_cons, length_append, length_singleton]
    cases members with
    | nil => simp [printMembers]
    | cons member members =>
      -- The first member has no comma before it.
      obtain ⟨name, value⟩ := member
      rw [printMembersRest, length_cons] at hrest
      rw [printMembers]
      omega

theorem fitsItems {items : List Json} (h : ∀ item ∈ items, Fits text item depth size) :
    PlainItems text items ∧ heightItems items ≤ depth ∧
      (printItemsRest items).length ≤ items.length * (size + 1) := by
  induction items with
  | nil => exact ⟨trivial, Nat.zero_le _, Nat.zero_le _⟩
  | cons item items ih =>
    have hitem := h item (by simp)
    obtain ⟨hplain, hheight, hlen⟩ := ih fun other hmem => h other (by simp [hmem])
    refine ⟨⟨hitem.plain, hplain⟩, Nat.max_le.mpr ⟨hitem.height_le, hheight⟩, ?_⟩
    have hfirst := hitem.length_le
    rw [printItemsRest, length_cons, length_append, length_cons, Nat.add_one_mul]
    omega

theorem Fits.arr {items : List Json} {limit : ℕ} (hlen : items.length ≤ limit)
    (h : ∀ item ∈ items, Fits text item depth size) :
    Fits text (.arr items) (depth + 1) (limit * (size + 1) + 2) := by
  obtain ⟨hplain, hheight, hrest⟩ := fitsItems h
  refine ⟨hplain, ?_, ?_⟩
  · rw [height]
    omega
  · have hle := Nat.le_trans hrest (Nat.mul_le_mul_right (size + 1) hlen)
    rw [print, length_cons, length_append, length_singleton]
    cases items with
    | nil => simp [printItems]
    | cons item items =>
      rw [printItemsRest, length_cons] at hle
      rw [printItems]
      omega

end Fits

end Json
