/-
The strict grammar of JSON text.

A `Doc` is a document as it is written: objects with all their members in order,
also those with equal keys, and integers of any size.  Strings and keys are
decoded.  `Value doc text` says that `text` is `doc` in the grammar of
objects, arrays, strings, booleans and integers, with blanks where they may
stand; there is no `null`, fraction or exponent.

A lenient parser reads a document as its `tree`: of the members with one key the
last value stays, a key ends at a zero byte, and an integer past the 64-bit range
becomes the nearest one in it.  The `meaning` of a document is what it says.

Main results:
- `keys_of_length`: a lenient object with as many members as were written has
  distinct keys;
- `tree_of_strict`: the tree of a strict document is its meaning;
- `readValue_value`, `reader_element`: a text without blanks says one thing.
-/
import Mathlib.Data.List.TakeWhile
import Fplinux.Lib.JsonReader

namespace Json

open Bytes (byte ascii)
open List (append_assoc cons_append)

/-- A document as it is written. -/
inductive Doc
  | bool (value : Bool)
  | int (value : ℤ)
  | str (bytes : List UInt8)
  | arr (items : List Doc)
  | obj (members : List (List UInt8 × Doc))

/-! ### Tokens -/

def isBlank (b : UInt8) : Bool := b = byte ' ' ∨ b = byte '\t' ∨ b = byte '\r' ∨ b = byte '\n'

def Blank (text : List UInt8) : Prop := ∀ b ∈ text, isBlank b = true

/-- A hexadecimal digit. -/
inductive Hex : UInt8 → ℕ → Prop
  | digit {n : ℕ} : n < 10 → Hex (48 + n).toUInt8 n
  | lower {n : ℕ} : n < 6 → Hex (97 + n).toUInt8 (10 + n)
  | upper {n : ℕ} : n < 6 → Hex (65 + n).toUInt8 (10 + n)

/-- Four hexadecimal digits. -/
inductive Hex4 : List UInt8 → ℕ → Prop
  | mk {a b c d : UInt8} {x y z w : ℕ} : Hex a x → Hex b y → Hex c z → Hex d w →
      Hex4 [a, b, c, d] (((x * 16 + y) * 16 + z) * 16 + w)

/-- The UTF-8 bytes of a scalar. -/
def utf8 (scalar : ℕ) : List UInt8 :=
  if scalar < 0x80 then [scalar.toUInt8]
  else if scalar < 0x800 then [(0xc0 + scalar / 64).toUInt8, (0x80 + scalar % 64).toUInt8]
  else if scalar < 0x10000 then
    [(0xe0 + scalar / 4096).toUInt8, (0x80 + scalar / 64 % 64).toUInt8, (0x80 + scalar % 64).toUInt8]
  else
    [(0xf0 + scalar / 262144).toUInt8, (0x80 + scalar / 4096 % 64).toUInt8,
      (0x80 + scalar / 64 % 64).toUInt8, (0x80 + scalar % 64).toUInt8]

def IsHigh (unit : ℕ) : Prop := 0xd800 ≤ unit ∧ unit ≤ 0xdbff
def IsLow (unit : ℕ) : Prop := 0xdc00 ≤ unit ∧ unit ≤ 0xdfff

/-- The characters between the quotes of a string, and the bytes they spell. -/
inductive Chars : List UInt8 → List UInt8 → Prop
  | nil : Chars [] []
  | plain {b : UInt8} {raw bytes : List UInt8} : 0x20 ≤ b.toNat → b ≠ byte '"' → b ≠ byte '\\' →
      Chars raw bytes → Chars (b :: raw) (b :: bytes)
  | escape {e b : UInt8} {raw bytes : List UInt8} : unescape e = some b → Chars raw bytes →
      Chars (byte '\\' :: e :: raw) (b :: bytes)
  | unicode {digits raw bytes : List UInt8} {unit : ℕ} : Hex4 digits unit → ¬ IsHigh unit →
      ¬ IsLow unit → Chars raw bytes →
      Chars (byte '\\' :: byte 'u' :: (digits ++ raw)) (utf8 unit ++ bytes)
  /-- A surrogate pair. -/
  | pair {digits digits' raw bytes : List UInt8} {high low : ℕ} : Hex4 digits high →
      Hex4 digits' low → IsHigh high → IsLow low → Chars raw bytes →
      Chars (byte '\\' :: byte 'u' :: (digits ++ byte '\\' :: byte 'u' :: (digits' ++ raw)))
        (utf8 (0x10000 + (high - 0xd800) * 0x400 + (low - 0xdc00)) ++ bytes)

/-- A string with its quotes. -/
def StringToken (token bytes : List UInt8) : Prop :=
  ∃ raw, token = byte '"' :: (raw ++ [byte '"']) ∧ Chars raw bytes

/-- The number a run of digits spells. -/
def digitsNat (digits : List UInt8) : ℕ := digits.foldl (fun n d => n * 10 + (d.toNat - 48)) 0

/-- Digits without a leading zero. -/
def IsDigits (digits : List UInt8) : Prop :=
  digits ≠ [] ∧ digits.all isDecimal = true ∧ (digits.head? = some (byte '0') → digits.length = 1)

/-- An integer: neither a fraction nor an exponent. -/
inductive IntToken : List UInt8 → ℤ → Prop
  | nonneg {digits : List UInt8} : IsDigits digits → IntToken digits (digitsNat digits)
  | neg {digits : List UInt8} : IsDigits digits → IntToken (byte '-' :: digits) (-digitsNat digits)

/-! ### The grammar -/

mutual

inductive Value : Doc → List UInt8 → Prop
  | literalTrue : Value (.bool true) (ascii "true")
  | literalFalse : Value (.bool false) (ascii "false")
  | int {token : List UInt8} {value : ℤ} : IntToken token value → Value (.int value) token
  | str {token bytes : List UInt8} : StringToken token bytes → Value (.str bytes) token
  | noItems {blank : List UInt8} : Blank blank → Value (.arr []) (byte '[' :: (blank ++ [byte ']']))
  | arr {items : List Doc} {text : List UInt8} : Items items text →
      Value (.arr items) (byte '[' :: (text ++ [byte ']']))
  | noMembers {blank : List UInt8} : Blank blank →
      Value (.obj []) (byte '\x7b' :: (blank ++ [byte '\x7d']))
  | obj {members : List (List UInt8 × Doc)} {text : List UInt8} : Members members text →
      Value (.obj members) (byte '\x7b' :: (text ++ [byte '\x7d']))

/-- A value between blanks. -/
inductive Element : Doc → List UInt8 → Prop
  | mk {doc : Doc} {before text after : List UInt8} : Blank before → Value doc text → Blank after →
      Element doc (before ++ text ++ after)

inductive Items : List Doc → List UInt8 → Prop
  | one {doc : Doc} {text : List UInt8} : Element doc text → Items [doc] text
  | more {doc : Doc} {docs : List Doc} {text rest : List UInt8} : Element doc text → Items docs rest →
      Items (doc :: docs) (text ++ byte ',' :: rest)

inductive Member : List UInt8 × Doc → List UInt8 → Prop
  | mk {key : List UInt8} {doc : Doc} {before token after text : List UInt8} : Blank before →
      StringToken token key → Blank after → Element doc text →
      Member (key, doc) (before ++ token ++ after ++ byte ':' :: text)

inductive Members : List (List UInt8 × Doc) → List UInt8 → Prop
  | one {member : List UInt8 × Doc} {text : List UInt8} : Member member text → Members [member] text
  | more {member : List UInt8 × Doc} {members : List (List UInt8 × Doc)} {text rest : List UInt8} :
      Member member text → Members members rest →
      Members (member :: members) (text ++ byte ',' :: rest)

end

theorem Blank.append {a b : List UInt8} (ha : Blank a) (hb : Blank b) : Blank (a ++ b) := by
  intro c hc
  rcases List.mem_append.mp hc with hc | hc
  · exact ha c hc
  · exact hb c hc

/-! Blanks may stand in front of an element or of a member. -/

variable {doc : Doc} {text rest : List UInt8} {members : List (List UInt8 × Doc)}

theorem Element.blank {blank : List UInt8} (h : Element doc text) (hblank : Blank blank) :
    Element doc (blank ++ text) := by
  cases h with
  | mk hbefore hvalue hafter =>
    rw [← List.append_assoc, ← List.append_assoc]
    exact .mk (hblank.append hbefore) hvalue hafter

theorem Items.blank {items : List Doc} {blank : List UInt8} (h : Items items text)
    (hblank : Blank blank) : Items items (blank ++ text) := by
  cases h with
  | one helement => exact .one (helement.blank hblank)
  | more helement hrest =>
    rw [← List.append_assoc]
    exact .more (helement.blank hblank) hrest

theorem Member.blank {member : List UInt8 × Doc} {blank : List UInt8} (h : Member member text)
    (hblank : Blank blank) : Member member (blank ++ text) := by
  cases h with
  | mk hbefore htoken hafter helement =>
    rw [← List.append_assoc, ← List.append_assoc, ← List.append_assoc]
    exact .mk (hblank.append hbefore) htoken hafter helement

theorem Members.blank {blank : List UInt8} (h : Members members text) (hblank : Blank blank) :
    Members members (blank ++ text) := by
  cases h with
  | one hmember => exact .one (hmember.blank hblank)
  | more hmember hrest =>
    rw [← List.append_assoc]
    exact .more (hmember.blank hblank) hrest

/-! ### Readings -/

/-- The nearest integer of 64 bits, signed below zero. -/
def saturate (value : ℤ) : ℤ := max (-2 ^ 63) (min value (2 ^ 64 - 1))

/-- A C string ends at a zero byte. -/
def cString (bytes : List UInt8) : List UInt8 := bytes.takeWhile (· ≠ 0)

/-- A member takes the place of one with its key. -/
def addMember (members : List (String × Json)) (name : String) (value : Json) :
    List (String × Json) :=
  if name ∈ members.map (·.1) then
    members.map fun member => if member.1 = name then (name, value) else member
  else members ++ [(name, value)]

mutual

/-- What a lenient parser reads. -/
def Doc.tree : Doc → Json
  | .bool value => .bool value
  | .int value => .int (saturate value)
  | .str bytes => .str bytes
  | .arr items => .arr (treeItems items)
  | .obj members => .obj (treeMembers [] members)

def treeItems : List Doc → List Json
  | [] => []
  | item :: rest => item.tree :: treeItems rest

def treeMembers (read : List (String × Json)) : List (List UInt8 × Doc) → List (String × Json)
  | [] => read
  | (key, doc) :: rest => treeMembers (addMember read (nameOf (cString key)) doc.tree) rest

end

mutual

/-- What a document says. -/
def Doc.meaning : Doc → Json
  | .bool value => .bool value
  | .int value => .int value
  | .str bytes => .str bytes
  | .arr items => .arr (meaningItems items)
  | .obj members => .obj (meaningMembers members)

def meaningItems : List Doc → List Json
  | [] => []
  | item :: rest => item.meaning :: meaningItems rest

def meaningMembers : List (List UInt8 × Doc) → List (String × Json)
  | [] => []
  | (key, doc) :: rest => (nameOf key, doc.meaning) :: meaningMembers rest

end

mutual

/-- Integers of 64 bits, and in each object distinct keys without zero bytes. -/
def Doc.Strict : Doc → Prop
  | .bool _ => True
  | .int value => -2 ^ 63 ≤ value ∧ value < 2 ^ 64
  | .str _ => True
  | .arr items => StrictItems items
  | .obj members => (members.map (·.1)).Nodup ∧ StrictMembers members

def StrictItems : List Doc → Prop
  | [] => True
  | item :: rest => item.Strict ∧ StrictItems rest

def StrictMembers : List (List UInt8 × Doc) → Prop
  | [] => True
  | (key, doc) :: rest => 0 ∉ key ∧ doc.Strict ∧ StrictMembers rest

end

/-! ### Keys -/

theorem ascii_nameOf (bytes : List UInt8) : ascii (nameOf bytes) = bytes := by
  rw [ascii, nameOf, String.toList_ofList]
  induction bytes with
  | nil => rfl
  | cons b bytes ih =>
    have hlt : b.toNat < 256 := b.toNat_lt
    have hchar : (Char.ofNat b.toNat).toNat = b.toNat := by
      rw [Char.ofNat, dif_pos (.inl (by omega))]
      rfl
    rw [List.map_cons, List.map_cons, ih, byte, hchar]
    congr 1
    exact UInt8.ofNat_toNat

theorem nameOf_injective : Function.Injective nameOf := by
  intro a b h
  rw [← ascii_nameOf a, h, ascii_nameOf]

theorem cString_of_not_mem {bytes : List UInt8} (h : 0 ∉ bytes) : cString bytes = bytes := by
  rw [cString, List.takeWhile_eq_self_iff]
  intro b hb
  simp only [ne_eq, decide_eq_true_eq]
  rintro rfl
  exact h hb

theorem addMember_of_not_mem {members : List (String × Json)} {name : String}
    (h : name ∉ members.map (·.1)) (value : Json) :
    addMember members name value = members ++ [(name, value)] := if_neg h

theorem length_addMember_of_mem {members : List (String × Json)} {name : String}
    (h : name ∈ members.map (·.1)) (value : Json) :
    (addMember members name value).length = members.length := by
  rw [addMember, if_pos h, List.length_map]

theorem length_treeMembers_le (members : List (List UInt8 × Doc)) (read : List (String × Json)) :
    (treeMembers read members).length ≤ read.length + members.length := by
  induction members generalizing read with
  | nil => simp [treeMembers]
  | cons member members ih =>
    obtain ⟨key, doc⟩ := member
    rw [treeMembers, List.length_cons]
    refine (ih _).trans ?_
    by_cases hmem : nameOf (cString key) ∈ read.map (·.1)
    · rw [length_addMember_of_mem hmem]
      omega
    · rw [addMember_of_not_mem hmem, List.length_append, List.length_singleton]
      omega

/-- The members of an object whose keys are distinct C strings. -/
def plainTree : List (List UInt8 × Doc) → List (String × Json)
  | [] => []
  | (key, doc) :: rest => (nameOf key, doc.tree) :: plainTree rest

/-- **No key is written twice** in an object that has as many members as were
written. -/
theorem keys_of_length {read : List (String × Json)} (hplain : ∀ member ∈ members, 0 ∉ member.1)
    (h : (treeMembers read members).length = read.length + members.length) :
    (members.map (·.1)).Nodup ∧ ∀ member ∈ members, nameOf member.1 ∉ read.map (·.1) := by
  induction members generalizing read with
  | nil => simp
  | cons member members ih =>
    obtain ⟨key, doc⟩ := member
    have hkey : cString key = key := cString_of_not_mem (hplain (key, doc) (by simp))
    have hrest : ∀ member ∈ members, 0 ∉ member.1 := fun member hmem => hplain member (by simp [hmem])
    rw [treeMembers, hkey, List.length_cons] at h
    have hle := length_treeMembers_le members (addMember read (nameOf key) doc.tree)
    by_cases hmem : nameOf key ∈ read.map (·.1)
    · -- A key that is there already would leave a member too few.
      rw [length_addMember_of_mem hmem] at hle
      omega
    · rw [addMember_of_not_mem hmem, List.length_append, List.length_singleton] at hle
      rw [addMember_of_not_mem hmem] at h
      have hlength : (treeMembers (read ++ [(nameOf key, doc.tree)]) members).length =
          (read ++ [(nameOf key, doc.tree)]).length + members.length := by
        rw [List.length_append, List.length_singleton]
        omega
      obtain ⟨hnodup, hnew⟩ := ih hrest hlength
      refine ⟨?_, ?_⟩
      · rw [List.map_cons, List.nodup_cons]
        refine ⟨fun hin => ?_, hnodup⟩
        obtain ⟨other, hother, heq⟩ := List.mem_map.mp hin
        refine hnew other hother ?_
        rw [heq]
        simp
      · intro other hother
        rcases List.mem_cons.mp hother with rfl | hother
        · exact hmem
        · intro hin
          refine hnew other hother ?_
          rw [List.map_append]
          exact List.mem_append_left _ hin

theorem treeMembers_of_nodup {read : List (String × Json)}
    (hplain : ∀ member ∈ members, 0 ∉ member.1) (hnodup : (members.map (·.1)).Nodup)
    (hnew : ∀ member ∈ members, nameOf member.1 ∉ read.map (·.1)) :
    treeMembers read members = read ++ plainTree members := by
  induction members generalizing read with
  | nil => simp [treeMembers, plainTree]
  | cons member members ih =>
    obtain ⟨key, doc⟩ := member
    have hkey : cString key = key := cString_of_not_mem (hplain (key, doc) (by simp))
    rw [List.map_cons, List.nodup_cons] at hnodup
    rw [treeMembers, hkey, addMember_of_not_mem (hnew (key, doc) (by simp)),
      ih (fun member hmem => hplain member (by simp [hmem])) hnodup.2, plainTree, List.append_assoc]
    · rfl
    · intro other hother
      rw [List.map_append, List.mem_append, not_or]
      refine ⟨hnew other (by simp [hother]), fun hin => ?_⟩
      have heq : nameOf other.1 = nameOf key := by simpa using hin
      exact hnodup.1 (nameOf_injective heq ▸ List.mem_map.mpr ⟨other, hother, rfl⟩)

/-! ### Strict documents -/

theorem StrictMembers.plain (h : StrictMembers members) : ∀ member ∈ members, 0 ∉ member.1 := by
  induction members with
  | nil => simp
  | cons member members ih =>
    obtain ⟨key, doc⟩ := member
    rw [StrictMembers] at h
    intro other hother
    rcases List.mem_cons.mp hother with rfl | hother
    · exact h.1
    · exact ih h.2.2 other hother

theorem strictMembers_of_forall (h : ∀ member ∈ members, 0 ∉ member.1 ∧ member.2.Strict) :
    StrictMembers members := by
  induction members with
  | nil => trivial
  | cons member members ih =>
    obtain ⟨key, doc⟩ := member
    have hfirst := h (key, doc) (by simp)
    exact ⟨hfirst.1, hfirst.2, ih fun other hother => h other (by simp [hother])⟩

theorem saturate_eq {value : ℤ} (h : -2 ^ 63 ≤ value ∧ value < 2 ^ 64) : saturate value = value := by
  rw [saturate]
  omega

mutual

/-- **A lenient parser reads a strict document as what it says.** -/
theorem tree_of_strict : ∀ (doc : Doc), doc.Strict → doc.tree = doc.meaning
  | .bool _, _ => rfl
  | .int value, h => by
    rw [Doc.tree, Doc.meaning, saturate_eq h]
  | .str _, _ => rfl
  | .arr items, h => by
    rw [Doc.tree, Doc.meaning, treeItems_of_strict items h]
  | .obj members, h => by
    rw [Doc.Strict] at h
    rw [Doc.tree, Doc.meaning, treeMembers_of_nodup h.2.plain h.1 (by simp), List.nil_append,
      plainTree_of_strict members h.2]

theorem treeItems_of_strict : ∀ (items : List Doc), StrictItems items →
    treeItems items = meaningItems items
  | [], _ => rfl
  | item :: rest, h => by
    rw [StrictItems] at h
    rw [treeItems, meaningItems, tree_of_strict item h.1, treeItems_of_strict rest h.2]

theorem plainTree_of_strict : ∀ (members : List (List UInt8 × Doc)), StrictMembers members →
    plainTree members = meaningMembers members
  | [], _ => rfl
  | (key, doc) :: rest, h => by
    rw [StrictMembers] at h
    rw [plainTree, meaningMembers, tree_of_strict doc h.2.1, plainTree_of_strict rest h.2.2]

end

/-! ### Bare text -/

/-- Text without blanks, and without `u`, so that no escape in it is a code. -/
def Bare (text : List UInt8) : Prop := ∀ b ∈ text, isBlank b = false ∧ b ≠ byte 'u'

instance : Decidable (Bare text) := List.decidableBAll _ _

theorem Bare.sub (h : Bare text) (hsub : ∀ b ∈ rest, b ∈ text) : Bare rest :=
  fun b hb => h b (hsub b hb)

theorem Blank.eq_nil (h : Blank text) (hbare : Bare text) : text = [] := by
  refine List.eq_nil_iff_forall_not_mem.mpr fun b hb => ?_
  exact absurd (h b hb) (by simp [(hbare b hb).1])

theorem readBody_chars {raw bytes : List UInt8} (h : Chars raw bytes) (hbare : Bare raw) (rest : List UInt8) :
    readBody false (raw ++ byte '"' :: rest) = some (bytes, rest) := by
  induction h with
  | nil => rfl
  | plain _ hquote hslash _ ih =>
    rw [cons_append, readBody, if_neg hquote, if_neg hslash,
      ih (hbare.sub (by grind)), Option.map_some]
  | escape hletter _ ih =>
    rw [cons_append, readBody, if_neg (by decide), if_pos rfl, cons_append,
      readBody_letter hletter, ih (hbare.sub (by grind)), Option.map_some]
  | unicode => exact absurd rfl (hbare (byte 'u') (by simp)).2
  | pair => exact absurd rfl (hbare (byte 'u') (by simp)).2

theorem readScalar_token {token : List UInt8} {value : ℤ} (h : IntToken token value)
    (hrest : Ended rest) :
    readScalar (token ++ rest) = some (.int value, rest) ∧
      ∃ first tail, token = first :: tail ∧ (first = byte '-' ∨ isDecimal first = true) := by
  cases h with
  | neg hdigits =>
    have hread := readNat_digits hdigits.1 (List.all_eq_true.mp hdigits.2.1) hrest
    refine ⟨?_, _, _, rfl, .inl rfl⟩
    rw [cons_append, readScalar, if_neg (by decide), if_neg (by decide), if_pos rfl, hread,
      Option.map_some, digitsNat]
  | nonneg hdigits =>
    have hall := List.all_eq_true.mp hdigits.2.1
    have hread := readScalar_digits hdigits.1 hall hrest
    obtain ⟨first, tail, rfl⟩ := List.exists_cons_of_ne_nil hdigits.1
    exact ⟨hread, _, _, rfl, .inr (hall first List.mem_cons_self)⟩

/-- A value does not begin with a closing bracket. -/
theorem Value.first (h : Value doc text) :
    ∃ first tail, text = first :: tail ∧ first ≠ byte ']' ∧ first ≠ byte '\x7d' := by
  cases h with
  | int htoken =>
    obtain ⟨-, first, tail, rfl, hfirst⟩ := @readScalar_token [] _ _ htoken (by simp [Ended])
    refine ⟨first, tail, rfl, ?_, ?_⟩
    all_goals
      rintro rfl
      exact absurd hfirst (by decide)
  | str htoken =>
    obtain ⟨raw, rfl, -⟩ := htoken
    exact ⟨_, _, rfl, by decide, by decide⟩
  | _ => exact ⟨_, _, rfl, by decide, by decide⟩

theorem Element.value (h : Element doc text) (hbare : Bare text) : Value doc text := by
  cases h with
  | @mk _ before text after hbefore hvalue hafter =>
    rw [hbefore.eq_nil (hbare.sub (by grind)), hafter.eq_nil (hbare.sub (by grind))]
    simpa using hvalue

theorem Member.bare {key : List UInt8} (h : Member (key, doc) text) (hbare : Bare text) :
    ∃ raw value, text = byte '"' :: (raw ++ byte '"' :: byte ':' :: value) ∧ Chars raw key ∧
      Value doc value := by
  cases h with
  | @mk _ _ before token after value hbefore htoken hafter helement =>
    obtain ⟨raw, rfl, hchars⟩ := htoken
    obtain rfl := hbefore.eq_nil (hbare.sub (by grind))
    obtain rfl := hafter.eq_nil (hbare.sub (by grind))
    exact ⟨raw, value, by simp, hchars, helement.value (hbare.sub (by grind))⟩

/-! What has items or members does not close at once. -/

theorem Items.head_ne {items : List Doc} (h : Items items text) (hbare : Bare text)
    (rest : List UInt8) : (text ++ rest).head? ≠ some (byte ']') := by
  cases h with
  | one helement =>
    obtain ⟨first, tail, rfl, hfirst, -⟩ := (helement.value hbare).first
    exact fun heq => hfirst (Option.some.inj heq)
  | more helement _ =>
    obtain ⟨first, tail, rfl, hfirst, -⟩ :=
      (helement.value (hbare.sub (by grind))).first
    exact fun heq => hfirst (Option.some.inj heq)

theorem Members.head_ne (h : Members members text) (hbare : Bare text) (rest : List UInt8) :
    (text ++ rest).head? ≠ some (byte '\x7d') := by
  cases h with
  | @one member _ hmember =>
    obtain ⟨raw, value, rfl, -⟩ := hmember.bare hbare
    exact fun heq => absurd (Option.some.inj heq) (by decide)
  | @more member _ _ _ hmember _ =>
    obtain ⟨raw, value, rfl, -⟩ := hmember.bare (hbare.sub (by grind))
    exact fun heq => absurd (Option.some.inj heq) (by decide)

section

variable {levels fuel : ℕ} {read : List UInt8 → Option (Json × List UInt8)}

theorem readItems_items (ih : ∀ {doc text rest got}, Value doc text → Bare text → Ended rest →
      read (text ++ rest) = some got → got = (doc.meaning, rest)) {items : List Doc}
    {got : List Json × List UInt8} (h : Items items text) (hbare : Bare text)
    (hread : readItems read fuel (text ++ byte ']' :: rest) = some got) :
    got = (meaningItems items, rest) := by
  induction items generalizing text fuel got with
  | nil => cases h
  | cons doc docs more =>
    cases fuel with
    | zero => cases hread
    | succ fuel =>
      obtain ⟨⟨item, left⟩, hitem, hread⟩ := Option.bind_eq_some_iff.mp hread
      cases h with
      | one helement =>
        cases ih (helement.value hbare) hbare (ended_cons (by decide) _) hitem
        exact (Option.some.inj hread).symm
      | @more _ _ text others helement hrest =>
        have hfront : Bare text := hbare.sub (by grind)
        rw [append_assoc, cons_append] at hitem
        cases ih (helement.value hfront) hfront (ended_cons (by decide) _) hitem
        obtain ⟨got, hrest', rfl⟩ := Option.map_eq_some_iff.mp hread
        rw [more hrest (hbare.sub (by grind)) hrest', meaningItems]

theorem readMembers_members (ih : ∀ {doc text rest got}, Value doc text → Bare text → Ended rest →
      read (text ++ rest) = some got → got = (doc.meaning, rest))
    {got : List (String × Json) × List UInt8} (h : Members members text) (hbare : Bare text)
    (hread : readMembers read fuel (text ++ byte '\x7d' :: rest) = some got) :
    got = (meaningMembers members, rest) := by
  induction members generalizing text fuel got with
  | nil => cases h
  | cons member members more =>
    obtain ⟨key, doc⟩ := member
    cases fuel with
    | zero => cases hread
    | succ fuel =>
      cases h with
      | one hmember =>
        obtain ⟨raw, value, rfl, hchars, hvalue⟩ := hmember.bare hbare
        have hraw : Bare raw := hbare.sub (by grind)
        simp only [cons_append, append_assoc, readMembers, readBody_chars hchars hraw,
          Option.bind_eq_bind, Option.bind_some, ne_eq, not_true_eq_false, or_self, if_false] at hread
        obtain ⟨⟨item, left⟩, hitem, hread⟩ := Option.bind_eq_some_iff.mp hread
        cases ih hvalue (hbare.sub (by grind)) (ended_cons (by decide) _) hitem
        exact (Option.some.inj hread).symm
      | @more _ _ text others hmember hrest =>
        obtain ⟨raw, value, rfl, hchars, hvalue⟩ := hmember.bare (hbare.sub (by grind))
        have hraw : Bare raw := hbare.sub (by grind)
        simp only [cons_append, append_assoc, readMembers, readBody_chars hchars hraw,
          Option.bind_eq_bind, Option.bind_some, ne_eq, not_true_eq_false, or_self, if_false] at hread
        obtain ⟨⟨item, left⟩, hitem, hread⟩ := Option.bind_eq_some_iff.mp hread
        cases ih hvalue (hbare.sub (by grind)) (ended_cons (by decide) _) hitem
        obtain ⟨got, hrest', rfl⟩ := Option.map_eq_some_iff.mp hread
        rw [more hrest (hbare.sub (by grind)) hrest', meaningMembers]

end

/-- **Bare text has one reading**: what the reader reads of a value is what it says. -/
theorem readValue_value {levels : ℕ} {got : Json × List UInt8} (h : Value doc text)
    (hbare : Bare text) (hrest : Ended rest) (hread : readValue levels (text ++ rest) = some got) :
    got = (doc.meaning, rest) := by
  induction levels generalizing doc text rest got with
  | zero => cases hread
  | succ levels ih =>
    cases h with
    | literalTrue => exact absurd hbare (by decide)
    | literalFalse =>
      have hkind : ∀ b ∈ (print (.bool false)).head?,
          b ≠ byte '\x7b' ∧ b ≠ byte '[' ∧ b ≠ byte '"' := by
        intro b hb
        obtain rfl := Option.some.inj hb
        decide
      change readValue _ (print (.bool false) ++ rest) = _ at hread
      rw [readValue_scalar hkind (List.cons_ne_nil _ _) (readScalar_bool false rest)] at hread
      exact (Option.some.inj hread).symm
    | int htoken =>
      obtain ⟨hscalar, first, tail, rfl, hfirst⟩ := readScalar_token htoken hrest
      have hkind : ∀ b ∈ (first :: tail).head?, b ≠ byte '\x7b' ∧ b ≠ byte '[' ∧ b ≠ byte '"' := by
        intro b hb
        obtain rfl := Option.some.inj hb
        refine ⟨?_, ?_, ?_⟩
        all_goals
          rintro rfl
          exact absurd hfirst (by decide)
      rw [readValue_scalar hkind (by simp) hscalar] at hread
      exact (Option.some.inj hread).symm
    | str htoken =>
      obtain ⟨raw, rfl, hchars⟩ := htoken
      have hraw : Bare raw := hbare.sub (by grind)
      rw [cons_append, append_assoc, readValue, if_neg (by decide), if_neg (by decide),
        if_pos rfl, List.singleton_append, readBody_chars hchars hraw] at hread
      exact (Option.some.inj hread).symm
    | noItems hblank | noMembers hblank =>
      obtain rfl := hblank.eq_nil (hbare.sub (by grind))
      exact (Option.some.inj hread).symm
    | @arr _ text hitems =>
      have htext : Bare text := hbare.sub (by grind)
      rw [cons_append, append_assoc, List.singleton_append, readValue, if_neg (by decide),
        if_pos rfl, if_neg (hitems.head_ne htext _)] at hread
      obtain ⟨got, hgot, rfl⟩ := Option.map_eq_some_iff.mp hread
      rw [readItems_items ih hitems htext hgot, Doc.meaning]
    | @obj _ text hmembers =>
      have htext : Bare text := hbare.sub (by grind)
      rw [cons_append, append_assoc, List.singleton_append, readValue, if_pos rfl,
        if_neg (hmembers.head_ne htext _)] at hread
      obtain ⟨got, hgot, rfl⟩ := Option.map_eq_some_iff.mp hread
      rw [readMembers_members ih hmembers htext hgot, Doc.meaning]

/-! No two documents say the same. -/

mutual

/-- The document that says a value; none says `null`. -/
def Doc.ofJson : Json → Doc
  | .null => .arr []
  | .bool value => .bool value
  | .int value => .int value
  | .str bytes => .str bytes
  | .arr items => .arr (ofItems items)
  | .obj members => .obj (ofMembers members)

def ofItems : List Json → List Doc
  | [] => []
  | item :: rest => Doc.ofJson item :: ofItems rest

def ofMembers : List (String × Json) → List (List UInt8 × Doc)
  | [] => []
  | (name, value) :: rest => (ascii name, Doc.ofJson value) :: ofMembers rest

end

mutual

theorem ofJson_meaning : ∀ doc : Doc, Doc.ofJson doc.meaning = doc
  | .bool _ | .int _ | .str _ => rfl
  | .arr items => by rw [Doc.meaning, Doc.ofJson, ofItems_meaning items]
  | .obj members => by rw [Doc.meaning, Doc.ofJson, ofMembers_meaning members]

theorem ofItems_meaning : ∀ items : List Doc, ofItems (meaningItems items) = items
  | [] => rfl
  | item :: rest => by rw [meaningItems, ofItems, ofJson_meaning item, ofItems_meaning rest]

theorem ofMembers_meaning :
    ∀ members : List (List UInt8 × Doc), ofMembers (meaningMembers members) = members
  | [] => rfl
  | (key, doc) :: rest => by
    rw [meaningMembers, ofMembers, ascii_nameOf, ofJson_meaning doc, ofMembers_meaning rest]

end

/-- **Bare text is one document.** -/
theorem reader_element {levels : ℕ} {value : Json} (h : Element doc text) (hbare : Bare text)
    (hread : reader levels text = some value) : doc = Doc.ofJson value := by
  rw [reader] at hread
  split at hread
  · rename_i hvalue
    obtain rfl := Option.some.inj hread
    rw [← List.append_nil text] at hvalue
    cases readValue_value (h.value hbare) hbare (by simp [Ended]) hvalue
    rw [ofJson_meaning]
  · cases hread

end Json
