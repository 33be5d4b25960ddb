/-
Language definitions (`fplinux-language.c`).

A file holds `key=value` lines; a line starting with `#` is a comment and empty
lines are skipped.  Values are UTF-8 without control characters and use the
preferences escapes.  Unknown keys are ignored; a repeated known key makes the
file invalid.  Texts are byte strings without the final zero, and a reading
error is a file that is not there.

Main results:
- `decodes_of_isText`: what a value of a file is;
- `load_isText`: so are the key maps of a loaded language.
-/
import Fplinux.Lib.Bytes
import Fplinux.Utf8

namespace Language

open Bytes (byte ascii)

def textBytes : ℕ := 64
/-- `sizeof(xkb)`. -/
def xkbBytes : ℕ := 16
def keyCount : ℕ := 10

inductive LetterCase
  | sentence | lower | upper
  deriving DecidableEq, Repr

/-- `struct fplinux_language`. -/
structure Definition where
  code : List UInt8
  name : List UInt8
  lang : List UInt8
  system : Bool
  input : Bool
  decimal : UInt8
  dateLong : List UInt8
  dateShort : List UInt8
  weekday : List (List UInt8)
  month : List (List UInt8)
  monthGenitive : List (List UInt8)
  indicator : LetterCase → List UInt8
  /-- UTF-8 characters cycled by keys 0-9, in order; empty if none. -/
  multitap : List (List UInt8)
  xkb : List UInt8

/-! ### Keys -/

/-- Where a key's value is stored. -/
inductive Slot
  | name | lang | system | input | decimal | dateLong | dateShort | xkb
  | indicator (letterCase : LetterCase)
  | weekday (index : ℕ)
  | month (index : ℕ)
  | monthGenitive (index : ℕ)
  | multitap (index : ℕ)
  deriving DecidableEq, Repr

/-- The bytes a slot has room for, the final zero included. -/
def Slot.size : Slot → ℕ
  | .xkb => xkbBytes
  | _ => textBytes

def isLower (b : UInt8) : Bool := byte 'a' ≤ b ∧ b ≤ byte 'z'
def isUpper (b : UInt8) : Bool := byte 'A' ≤ b ∧ b ≤ byte 'Z'
def isDigit (b : UInt8) : Bool := byte '0' ≤ b ∧ b ≤ byte '9'

/-- Two or three lower-case letters: a language code is also a file name. -/
def isCode (code : List UInt8) : Bool :=
  (code.length = 2 ∨ code.length = 3) ∧ code.all isLower

/-- ASCII letters, digits, `.`, `_` and `-`, as preference keys. -/
def isKey (key : List UInt8) : Bool :=
  key ≠ [] ∧ key.all fun b =>
    isLower b || isUpper b || isDigit b || b = byte '.' || b = byte '_' || b = byte '-'

/-- The loop of `isText`; every scalar takes a byte. -/
def textScalars : ℕ → List UInt8 → Bool
  | _, [] => true
  | 0, _ :: _ => false
  | fuel + 1, text@(_ :: _) =>
    match Utf8.next text with
    | none => false
    | some (code, rest) =>
      if code < 0x20 ∨ (0x7f ≤ code ∧ code ≤ 0x9f) then false else textScalars fuel rest

/-- Language text excludes C0, DEL and C1 controls. -/
def isText (text : List UInt8) : Bool := textScalars text.length text

/-- Undoes the preferences escapes; the flag says that a backslash was read. -/
def unescape : Bool → List UInt8 → Option (List UInt8)
  | false, [] => some []
  | true, [] => none
  | false, b :: rest =>
    if b = byte '\\' then unescape true rest else (unescape false rest).map (b :: ·)
  | true, b :: rest =>
    if b = byte 'n' then (unescape false rest).map (byte '\n' :: ·)
    else if b = byte 'r' then (unescape false rest).map (byte '\r' :: ·)
    else if b = byte '\\' then (unescape false rest).map (byte '\\' :: ·)
    else none

/-- The digits of an index; a value above 100 takes no further digit. -/
def indexValue : List UInt8 → ℕ → Option ℕ
  | [], value => some value
  | b :: rest, value =>
    if !isDigit b ∨ value > 100 then none else indexValue rest (value * 10 + (b.toNat - 48))

/-- The decimal index after a prefix, without leading zeros, from `first` on. -/
def keyIndex (key : List UInt8) (before : String) (first count : ℕ) : Option ℕ :=
  if ascii before <+: key then
    let digits := key.drop before.length
    if digits = [] ∨ (digits.head? = some (byte '0') ∧ digits.length ≠ 1) then none
    else
      (indexValue digits 0).bind fun value =>
        if value < first ∨ value - first ≥ count then none else some (value - first)
  else none

/-- The slot of a key; `none` for a key that this reader does not know. -/
def findTarget (key : List UInt8) : Option Slot :=
  if key = ascii "name" then some .name
  else if key = ascii "lang" then some .lang
  else if key = ascii "system" then some .system
  else if key = ascii "input" then some .input
  else if key = ascii "decimal" then some .decimal
  else if key = ascii "date.long" then some .dateLong
  else if key = ascii "date.short" then some .dateShort
  else if key = ascii "xkb" then some .xkb
  else if key = ascii "input.indicator.sentence" then some (.indicator .sentence)
  else if key = ascii "input.indicator.lower" then some (.indicator .lower)
  else if key = ascii "input.indicator.upper" then some (.indicator .upper)
  else
    match keyIndex key "weekday." 0 7 with
    | some index => some (.weekday index)
    | none =>
      match keyIndex key "month.genitive." 1 12 with
      | some index => some (.monthGenitive index)
      | none =>
        match keyIndex key "month." 1 12 with
        | some index => some (.month index)
        | none => (keyIndex key "multitap." 0 keyCount).map .multitap

/-! ### Files -/

/-- The values read so far; a slot that was not seen is empty. -/
abbrev Reader := List (Slot × List UInt8)

def Reader.text (reader : Reader) (slot : Slot) : List UInt8 := (reader.lookup slot).getD []

def readLine (reader : Reader) (line : List UInt8) : Option Reader :=
  if byte '=' ∈ line then
    let key := line.takeWhile (· ≠ byte '=')
    match unescape false (line.drop (key.length + 1)) with
    | none => none
    | some value =>
      if !isKey key ∨ !isText value then none
      else
        match findTarget key with
        | none => some reader
        | some slot =>
          if (reader.lookup slot).isSome ∨ value.length ≥ slot.size then none
          else some ((slot, value) :: reader)
  else none

/-- The loop of `read_file` over the lines. -/
def readLines : List (List UInt8) → Reader → Option Reader
  | [], reader => some reader
  | line :: lines, reader =>
    if (0 : UInt8) ∈ line then none
    else if line = [] ∨ line.head? = some (byte '#') then readLines lines reader
    else (readLine reader line).bind (readLines lines)

/-- Placeholders of the date patterns. -/
def dateFields : List (List UInt8) :=
  ["weekday", "day", "dd", "month", "month.genitive", "mm", "yyyy"].map ascii

/-- Literal text and the placeholders in braces, with the pattern left. -/
def datePattern : ℕ → List UInt8 → Bool
  | _, [] => true
  | 0, _ :: _ => false
  | fuel + 1, b :: rest =>
    if b = byte '\x7d' then false
    else if b ≠ byte '\x7b' then datePattern fuel rest
    else if byte '\x7d' ∈ rest then
      let name := rest.takeWhile (· ≠ byte '\x7d')
      name ∈ dateFields && datePattern fuel (rest.drop (name.length + 1))
    else false

def isDatePattern (pattern : List UInt8) : Bool :=
  pattern ≠ [] && datePattern pattern.length pattern

/-- `none` for a text that is no flag. -/
def readFlag (text : List UInt8) : Option Bool :=
  if text = ascii "yes" then some true
  else if text = [] ∨ text = ascii "no" then some false
  else none

/-- A LANG value such as `ru_RU.UTF-8` or `sr_RS@latin`. -/
def isLang (lang : List UInt8) : Bool :=
  lang ≠ [] ∧ lang.all fun b =>
    isLower b || isUpper b || isDigit b || b = byte '.' || b = byte '_' || b = byte '@' || b = byte '-'

def isXkbLayout (layout : List UInt8) : Bool :=
  layout.all fun b => isLower b || isDigit b || b = byte '_' || b = byte '-'

def readDecimal (decimal : List UInt8) (system : Bool) : Option UInt8 :=
  if decimal = [] ∧ !system then some (byte '.')
  else if decimal = ascii "." then some (byte '.')
  else if decimal = ascii "," then some (byte ',')
  else none

def weekdays (reader : Reader) : List (List UInt8) :=
  (List.range 7).map fun index => reader.text (.weekday index)

def months (reader : Reader) : List (List UInt8) :=
  (List.range 12).map fun index => reader.text (.month index)

def monthsGenitive (reader : Reader) : List (List UInt8) :=
  (List.range 12).map fun index => reader.text (.monthGenitive index)

/-- A system language needs everything that formats dates and numbers. -/
def systemComplete (reader : Reader) : Bool :=
  isLang (reader.text .lang) && isDatePattern (reader.text .dateLong) &&
    isDatePattern (reader.text .dateShort) && (weekdays reader).all (· ≠ []) &&
    (months reader).all (· ≠ []) && (monthsGenitive reader).all (· ≠ [])

/-- An input language needs its mode indicators. -/
def inputComplete (reader : Reader) : Bool :=
  reader.text (.indicator .sentence) ≠ [] && reader.text (.indicator .lower) ≠ [] &&
    reader.text (.indicator .upper) ≠ []

def finish (code : List UInt8) (reader : Reader) : Option Definition := do
  let system ← readFlag (reader.text .system)
  let input ← readFlag (reader.text .input)
  let decimal ← readDecimal (reader.text .decimal) system
  if reader.text .name = [] ∨ !isXkbLayout (reader.text .xkb) ∨ (system ∧ !systemComplete reader) ∨
      (input ∧ !inputComplete reader) then none
  else
    some
      { code := code
        name := reader.text .name
        lang := reader.text .lang
        system := system
        input := input
        decimal := decimal
        dateLong := reader.text .dateLong
        dateShort := reader.text .dateShort
        weekday := weekdays reader
        month := months reader
        monthGenitive := monthsGenitive reader
        indicator := fun letterCase => reader.text (.indicator letterCase)
        multitap := (List.range keyCount).map fun key => reader.text (.multitap key)
        xkb := reader.text .xkb }

/-- A directory: its entries in the order of `readdir`, and the file of a name. -/
structure Directory where
  entries : List (List UInt8)
  file : List UInt8 → Option (List UInt8)

def load (directory : Directory) (code : List UInt8) : Option Definition :=
  if !isCode code then none
  else
    (directory.file code).bind fun content =>
      (readLines (content.splitOn (byte '\n')) []).bind (finish code)

/-- A code among the codes listed so far, in byte order; the last drops out past
the capacity. -/
def insertCode (capacity : ℕ) (codes : List (List UInt8)) (code : List UInt8) :
    List (List UInt8) :=
  let after := codes.reverse.takeWhile (code < ·)
  let before := codes.take (codes.length - after.length)
  (before ++ code :: after.reverse).take capacity

/-- `fplinux_language_list`: the codes whose files load. -/
def list (directory : Directory) (capacity : ℕ) : List (List UInt8) :=
  (directory.entries.filter fun name => (load directory name).isSome).foldl (insertCode capacity) []

/-- The built-in English definition. -/
def english : Definition where
  code := ascii "en"
  name := ascii "English"
  lang := ascii "en_US.UTF-8"
  system := true
  input := true
  decimal := byte '.'
  dateLong := ascii "\x7bweekday\x7d, \x7bmonth\x7d \x7bday\x7d"
  dateShort := ascii "\x7bmm\x7d/\x7bdd\x7d/\x7byyyy\x7d"
  weekday := ["Sunday", "Monday", "Tuesday", "Wednesday", "Thursday", "Friday", "Saturday"].map ascii
  month := ["January", "February", "March", "April", "May", "June", "July", "August", "September",
    "October", "November", "December"].map ascii
  monthGenitive := ["January", "February", "March", "April", "May", "June", "July", "August",
    "September", "October", "November", "December"].map ascii
  indicator := fun
    | .sentence => ascii "Abc"
    | .lower => ascii "abc"
    | .upper => ascii "ABC"
  multitap := [" 0", ".,?!1@'\"-()/:_;+&%*=$#^", "abc2", "def3", "ghi4", "jkl5", "mno6", "pqrs7",
    "tuv8", "wxyz9"].map ascii
  xkb := ascii "us"

/-! ### Texts of a file -/

/-- A scalar that is no C0, DEL or C1 control. -/
structure Printable (value : ℕ) : Prop where
  scalar : Utf8.IsScalar value
  ge : 0x20 ≤ value
  no_control : ¬ (0x7f ≤ value ∧ value ≤ 0x9f)

theorem decodes_of_isText {text : List UInt8} (h : isText text = true) :
    ∃ values, Utf8.Decodes text values ∧ ∀ value ∈ values, Printable value := by
  refine @Utf8.decodes_of_loop ℕ (fun fuel text => textScalars fuel text = true) _ ?_ text.length
    text h
  intro fuel b bytes htext
  cases fuel with
  | zero => simp [textScalars] at htext
  | succ fuel =>
    rw [textScalars] at htext
    cases hnext : Utf8.next (b :: bytes) with
    | none => simp [hnext] at htext
    | some read =>
      obtain ⟨code, rest⟩ := read
      simp only [hnext] at htext
      split at htext
      · simp at htext
      · rename_i hcontrol
        obtain ⟨char, -, henc⟩ := Utf8.encodes_of_next hnext
        exact ⟨fuel, code, rest, rfl, ⟨henc.scalar, by omega, by omega⟩, htext⟩

/-- Every value a reader holds is text. -/
def ReaderOk (reader : Reader) : Prop := ∀ entry ∈ reader, isText entry.2 = true

theorem readerOk_readLine {reader reader' : Reader} {line : List UInt8} (h : ReaderOk reader)
    (hread : readLine reader line = some reader') : ReaderOk reader' := by
  rw [readLine] at hread
  split at hread
  · simp only at hread
    split at hread
    · simp at hread
    · rename_i value _
      split at hread
      · simp at hread
      · rename_i hvalid
        split at hread
        · obtain rfl := Option.some.inj hread
          exact h
        · split at hread
          · simp at hread
          · obtain rfl := Option.some.inj hread
            intro entry hentry
            rcases List.mem_cons.mp hentry with rfl | hold
            · cases htext : isText value with
              | true => rfl
              | false => simp [htext] at hvalid
            · exact h entry hold
  · simp at hread

theorem readerOk_readLines {lines : List (List UInt8)} {reader reader' : Reader}
    (h : ReaderOk reader) (hread : readLines lines reader = some reader') : ReaderOk reader' := by
  induction lines generalizing reader with
  | nil =>
    obtain rfl := Option.some.inj hread
    exact h
  | cons line lines ih =>
    rw [readLines] at hread
    split at hread
    · simp at hread
    · split at hread
      · exact ih h hread
      · obtain ⟨next, hnext, hrest⟩ := Option.bind_eq_some_iff.mp hread
        exact ih (readerOk_readLine h hnext) hrest

theorem ReaderOk.text {reader : Reader} (h : ReaderOk reader) (slot : Slot) :
    isText (reader.text slot) = true := by
  rw [Reader.text]
  cases hlookup : reader.lookup slot with
  | none => rfl
  | some value =>
    obtain ⟨before, after, rfl, -⟩ := List.lookup_eq_some_iff.mp hlookup
    exact h (slot, value) (by simp)

/-- **The key maps of a loaded language are text.** -/
theorem load_isText {directory : Directory} {code : List UInt8} {language : Definition}
    (h : load directory code = some language) : ∀ map ∈ language.multitap, isText map = true := by
  rw [load] at h
  split at h
  · simp at h
  · obtain ⟨content, -, hread⟩ := Option.bind_eq_some_iff.mp h
    obtain ⟨reader, hlines, hfinish⟩ := Option.bind_eq_some_iff.mp hread
    have hreader : ReaderOk reader := readerOk_readLines (by intro entry hentry; simp at hentry) hlines
    simp only [finish, Option.bind_eq_bind, Option.bind_eq_some_iff] at hfinish
    obtain ⟨system, -, input, -, decimal, -, hfinish⟩ := hfinish
    split at hfinish
    · simp at hfinish
    · obtain rfl := Option.some.inj hfinish
      intro map hmap
      obtain ⟨key, -, rfl⟩ := List.mem_map.mp hmap
      exact hreader.text _

end Language
