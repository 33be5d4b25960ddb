/-
Stored preferences (`fplinux-ui-prefs.c`).

The preferences are key and value pairs in insertion order, kept in memory and
published as one file of `key=value` lines.  Saving has three ends: the file was
not replaced, it was replaced but its directory not synchronized, or both.

Main results:
- `load_writeItems`: a published file reads back as the items it was written from;
- `set_spec`, `save_spec`: what a change and a save do to the items and the file.
-/
import Mathlib.Data.List.TakeWhile
import Fplinux.Clock.Codec

namespace Prefs

open Bytes (byte)
open Clock (StorageState)
open List (append_assoc cons_append map_cons mem_cons nil_append nodup_nil singleton_append)

def keyMaxBytes : ℕ := 63
def valueMaxBytes : ℕ := 65535
def lineMaxBytes : ℕ := keyMaxBytes + 1 + 2 * valueMaxBytes

/-- ASCII letters, digits, `.`, `_` and `-`. -/
def keyByte (b : UInt8) : Bool :=
  (byte 'a' ≤ b ∧ b ≤ byte 'z') ∨ (byte 'A' ≤ b ∧ b ≤ byte 'Z') ∨ (byte '0' ≤ b ∧ b ≤ byte '9') ∨
    b = byte '.' ∨ b = byte '_' ∨ b = byte '-'

def validKey (key : List UInt8) : Bool := key ≠ [] ∧ key.length ≤ keyMaxBytes ∧ key.all keyByte

def validUtf8Loop : ℕ → List UInt8 → Bool
  | _, [] => true
  | 0, _ :: _ => false
  | fuel + 1, text =>
    match Utf8.next text with
    | none => false
    | some (_, rest) => validUtf8Loop fuel rest

/-- Every character takes a byte at least, so the length is fuel enough. -/
def validUtf8 (text : List UInt8) : Bool := validUtf8Loop text.length text

/-- `struct preference`, with what was checked before it was stored. -/
structure Item where
  key : List UInt8
  value : List UInt8
  key_valid : validKey key = true
  value_le : value.length ≤ valueMaxBytes
  value_nul : 0 ∉ value
  value_utf8 : validUtf8 value = true

/-- `struct fplinux_ui_prefs` and the file it stands for. -/
structure State where
  items : List Item
  changed : Bool
  pendingSync : Bool
  /-- The bytes at `path`; `none` while there is no file. -/
  file : Option (List UInt8)

/-- What goes wrong during one call. -/
structure Faults where
  /-- Whether memory for a copy of the value can be had. -/
  allocate : Bool
  /-- The error that keeps the new file from replacing the old one. -/
  publish : Option ℕ
  /-- The error of the directory synchronization. -/
  sync : Option ℕ
  deriving DecidableEq, Repr

/-- `struct fplinux_storage_result`. -/
structure Storage where
  state : StorageState
  error : ℕ
  deriving DecidableEq, Repr

def eInval : ℕ := 22
def e2Big : ℕ := 7
def eIlSeq : ℕ := 84
def eNoMem : ℕ := 12

/-! ### Items -/

def find (items : List Item) (key : List UInt8) : Option Item := items.find? (·.key = key)

/-- The items with one replaced at its place, or added at the end. -/
def put (item : Item) : List Item → List Item
  | [] => [item]
  | old :: rest => if old.key = item.key then item :: rest else old :: put item rest

/-- Storing the value that is there already changes nothing. -/
def store (prefs : State) (item : Item) (allocate : Bool) : Option State :=
  if (find prefs.items item.key).map (·.value) = some item.value then some prefs
  else if allocate then some { prefs with items := put item prefs.items, changed := true }
  else none

def get (prefs : State) (key : List UInt8) : Option (List UInt8) :=
  if validKey key then (find prefs.items key).map (·.value) else none

/-- The text of a C string. -/
def cString (text : List UInt8) : List UInt8 := text.takeWhile (· ≠ 0)

theorem cString_nul (text : List UInt8) : 0 ∉ cString text := by
  intro hmem
  have h := List.mem_takeWhile_imp hmem
  simp at h

theorem cString_eq {text : List UInt8} (h : 0 ∉ text) : cString text = text := by
  rw [cString, List.takeWhile_eq_self_iff]
  intro b hb
  have hne : b ≠ 0 := fun h0 => h (h0 ▸ hb)
  simpa using hne

/-- `fplinux_ui_prefs_set`: the preferences with the value, or an errno. -/
def set (prefs : State) (key value : List UInt8) (allocate : Bool) : Except ℕ State :=
  if hkey : validKey key = true then
    if hle : (cString value).length ≤ valueMaxBytes then
      if hutf8 : validUtf8 (cString value) = true then
        match store prefs ⟨key, cString value, hkey, hle, cString_nul value, hutf8⟩ allocate with
        | some prefs' => .ok prefs'
        | none => .error eNoMem
      else .error eIlSeq
    else .error e2Big
  else .error eInval

/-! ### The file -/

def writeByte (b : UInt8) : List UInt8 :=
  if b = byte '\\' then [byte '\\', byte '\\']
  else if b = byte '\n' then [byte '\\', byte 'n']
  else if b = byte '\r' then [byte '\\', byte 'r']
  else [b]

def writeValue (value : List UInt8) : List UInt8 := value.flatMap writeByte

def writeLine (item : Item) : List UInt8 := item.key ++ byte '=' :: writeValue item.value

def writeItems (items : List Item) : List UInt8 :=
  items.flatMap fun item => writeLine item ++ [byte '\n']

/-- `none` for an unknown or unfinished escape. -/
def unescape : List UInt8 → Option (List UInt8)
  | [] => some []
  | [b] => if b = byte '\\' then none else some [b]
  | b :: c :: rest =>
    if b = byte '\\' then
      if c = byte 'n' then (unescape rest).map (byte '\n' :: ·)
      else if c = byte 'r' then (unescape rest).map (byte '\r' :: ·)
      else if c = byte '\\' then (unescape rest).map (byte '\\' :: ·)
      else none
    else (unescape (c :: rest)).map (b :: ·)

/-- `parse_line`: `none` for a malformed line. -/
def parseLine (line : List UInt8) : Option Item :=
  let key := line.takeWhile (· ≠ byte '=')
  let value := (line.dropWhile (· ≠ byte '=')).tail
  if byte '=' ∉ line ∨ line.length > lineMaxBytes ∨ 0 ∈ line then none
  else
    match unescape value with
    | none => none
    | some text =>
      -- no byte of a line without NUL unescapes to one
      if h : validKey key = true ∧ text.length ≤ valueMaxBytes ∧ 0 ∉ text ∧
          validUtf8 text = true then
        some ⟨key, text, h.1, h.2.1, h.2.2.1, h.2.2.2⟩
      else none

/-- One turn of the loop of `load`: an empty or malformed line is skipped. -/
def loadLine (prefs : State) (line : List UInt8) : State :=
  match parseLine line with
  | none => prefs
  | some item => (store prefs item true).getD prefs

/-- `load`: a missing file is empty, and the file as loaded is the saved state. -/
def load (file : Option (List UInt8)) : State :=
  { (((file.getD []).splitOn (byte '\n')).foldl loadLine ⟨[], false, false, file⟩) with
    changed := false }

/-- `sync_publication` and what follows it. -/
def synchronize (prefs : State) (faults : Faults) : Storage × State :=
  match faults.sync with
  | some error => (⟨.publishedUnsynced, error⟩, prefs)
  | none => (⟨.durable, 0⟩, { prefs with pendingSync := false })

def save (prefs : State) (faults : Faults) : Storage × State :=
  if prefs.changed = false then
    if prefs.pendingSync then synchronize prefs faults else (⟨.durable, 0⟩, prefs)
  else
    match faults.publish with
    | some error => (⟨.unpublished, error⟩, prefs)
    | none =>
      synchronize
        { prefs with
          changed := false
          pendingSync := true
          file := some (writeItems prefs.items) } faults

/-! ### What a file reads back as -/

variable {b : UInt8} {item : Item} {items : List Item} {prefs : State}

theorem unescape_cons (hb : b ≠ byte '\\') (text : List UInt8) :
    unescape (b :: text) = (unescape text).map (b :: ·) := by
  cases text with
  | nil => simp [unescape, hb]
  | cons c rest => rw [unescape, if_neg hb]

theorem unescape_writeValue (value : List UInt8) : unescape (writeValue value) = some value := by
  induction value with
  | nil => rfl
  | cons b rest ih =>
    show unescape (writeByte b ++ writeValue rest) = some (b :: rest)
    rw [writeByte]
    by_cases hslash : b = byte '\\'
    · rw [if_pos hslash, cons_append, cons_append, nil_append, unescape, if_pos rfl,
        if_neg (by decide), if_neg (by decide), if_pos rfl, ih, hslash]
      rfl
    rw [if_neg hslash]
    by_cases hline : b = byte '\n'
    · rw [if_pos hline, cons_append, cons_append, nil_append, unescape, if_pos rfl,
        if_pos rfl, ih, hline]
      rfl
    rw [if_neg hline]
    by_cases hreturn : b = byte '\r'
    · rw [if_pos hreturn, cons_append, cons_append, nil_append, unescape, if_pos rfl,
        if_neg (by decide), if_pos rfl, ih, hreturn]
      rfl
    rw [if_neg hreturn, singleton_append, unescape_cons hslash, ih]
    rfl

theorem mem_writeByte {c : UInt8} (h : c ∈ writeByte b) :
    c ∈ [byte '\\', byte 'n', byte 'r'] ∨ (c = b ∧ b ≠ byte '\n') := by
  rw [writeByte] at h
  split_ifs at h with hslash hline hreturn
  · have hsub : [byte '\\', byte '\\'] ⊆ [byte '\\', byte 'n', byte 'r'] := by simp
    exact .inl (hsub h)
  · have hsub : [byte '\\', byte 'n'] ⊆ [byte '\\', byte 'n', byte 'r'] := by simp
    exact .inl (hsub h)
  · have hsub : [byte '\\', byte 'r'] ⊆ [byte '\\', byte 'n', byte 'r'] := by simp
    exact .inl (hsub h)
  · exact .inr ⟨List.mem_singleton.mp h, hline⟩

theorem mem_writeValue {value : List UInt8} {c : UInt8} (h : c ∈ writeValue value) :
    c ≠ byte '\n' ∧ (c = 0 → 0 ∈ value) := by
  obtain ⟨b, hmem, hb⟩ := List.mem_flatMap.mp h
  rcases mem_writeByte hb with hletter | ⟨rfl, hline⟩
  · have hall : ∀ d ∈ [byte '\\', byte 'n', byte 'r'], d ≠ byte '\n' ∧ d ≠ 0 := by
      decide +kernel
    exact ⟨(hall c hletter).1, fun h0 => absurd h0 (hall c hletter).2⟩
  · exact ⟨hline, fun h0 => h0 ▸ hmem⟩

theorem writeByte_length_le (b : UInt8) : (writeByte b).length ≤ 2 := by
  rw [writeByte]
  split_ifs <;> simp

theorem writeValue_length_le (value : List UInt8) :
    (writeValue value).length ≤ 2 * value.length := by
  induction value with
  | nil => simp [writeValue]
  | cons b rest ih =>
    have hb := writeByte_length_le b
    rw [writeValue] at ih
    rw [writeValue, List.flatMap_cons, List.length_append, List.length_cons]
    omega

theorem keyByte_ne (h : keyByte b = true) : b ≠ 0 ∧ b ≠ byte '\n' ∧ b ≠ byte '=' := by
  refine ⟨?_, ?_, ?_⟩
  · rintro rfl
    exact absurd h (by decide)
  · rintro rfl
    exact absurd h (by decide)
  · rintro rfl
    exact absurd h (by decide)

theorem Item.key_ne (item : Item) (hb : b ∈ item.key) : b ≠ 0 ∧ b ≠ byte '\n' ∧ b ≠ byte '=' := by
  have hvalid := item.key_valid
  simp only [validKey, decide_eq_true_eq, List.all_eq_true] at hvalid
  exact keyByte_ne (hvalid.2.2 b hb)

theorem writeLine_newline (item : Item) : byte '\n' ∉ writeLine item := by
  intro h
  rw [writeLine, List.mem_append, mem_cons] at h
  rcases h with hkey | heq | hvalue
  · exact (item.key_ne hkey).2.1 rfl
  · exact absurd heq (by decide)
  · exact (mem_writeValue hvalue).1 rfl

theorem writeLine_nul (item : Item) : 0 ∉ writeLine item := by
  intro h
  rw [writeLine, List.mem_append, mem_cons] at h
  rcases h with hkey | heq | hvalue
  · exact (item.key_ne hkey).1 rfl
  · exact absurd heq (by decide)
  · exact item.value_nul ((mem_writeValue hvalue).2 rfl)

theorem writeLine_length_le (item : Item) : (writeLine item).length ≤ lineMaxBytes := by
  have hvalid := item.key_valid
  simp only [validKey, decide_eq_true_eq] at hvalid
  have hkey := hvalid.2.1
  have hvalue := writeValue_length_le item.value
  have hle := item.value_le
  rw [writeLine, List.length_append, List.length_cons, lineMaxBytes]
  omega

theorem parseLine_writeLine (item : Item) : parseLine (writeLine item) = some item := by
  have hkey : ∀ b ∈ item.key, decide (b ≠ byte '=') = true := by
    intro b hb
    simpa using (item.key_ne hb).2.2
  have htake : (writeLine item).takeWhile (· ≠ byte '=') = item.key := by
    rw [writeLine, List.takeWhile_append_of_pos hkey, List.takeWhile_cons_of_neg (by simp),
      List.append_nil]
  have hdrop : (writeLine item).dropWhile (· ≠ byte '=') = byte '=' :: writeValue item.value := by
    rw [writeLine, List.dropWhile_append_of_pos hkey, List.dropWhile_cons_of_neg (by simp)]
  have hwell : ¬ (byte '=' ∉ writeLine item ∨ (writeLine item).length > lineMaxBytes ∨
      0 ∈ writeLine item) := by
    have hmem : byte '=' ∈ writeLine item := by simp [writeLine]
    have hle := writeLine_length_le item
    have hnul := writeLine_nul item
    rintro (hnot | hlong | h0)
    · exact hnot hmem
    · omega
    · exact hnul h0
  simp only [parseLine, htake, hdrop, List.tail_cons, unescape_writeValue]
  rw [if_neg hwell, dif_pos ⟨item.key_valid, item.value_le, item.value_nul, item.value_utf8⟩]

theorem put_of_not_mem (h : item.key ∉ items.map (·.key)) : put item items = items ++ [item] := by
  induction items with
  | nil => rfl
  | cons old rest ih =>
    rw [map_cons, mem_cons, not_or] at h
    rw [put, if_neg (Ne.symm h.1), ih h.2]
    rfl

theorem find_eq_none {key : List UInt8} (h : key ∉ items.map (·.key)) : find items key = none := by
  rw [find, List.find?_eq_none]
  intro item hmem
  have hne : item.key ≠ key := fun heq => h (heq ▸ List.mem_map_of_mem hmem)
  simpa using hne

theorem loadLine_writeLine (h : item.key ∉ prefs.items.map (·.key)) :
    (loadLine prefs (writeLine item)).items = prefs.items ++ [item] := by
  rw [loadLine, parseLine_writeLine]
  simp only [store, find_eq_none h, Option.map_none, reduceCtorEq, if_false, if_true,
    Option.getD_some, put_of_not_mem h]

theorem loadLines_writeItems (items : List Item) : ∀ prefs : State,
    ((prefs.items ++ items).map (·.key)).Nodup →
    (((writeItems items).splitOn (byte '\n')).foldl loadLine prefs).items =
      prefs.items ++ items := by
  induction items with
  | nil =>
    intro prefs _
    -- the piece after the last line feed is empty, hence malformed
    have hempty : parseLine [] = none := rfl
    simp [writeItems, loadLine, hempty]
  | cons item rest ih =>
    intro prefs hnodup
    have hsplit : (writeItems (item :: rest)).splitOn (byte '\n') =
        writeLine item :: (writeItems rest).splitOn (byte '\n') := by
      show (writeLine item ++ [byte '\n'] ++ writeItems rest).splitOn (byte '\n') = _
      rw [append_assoc, singleton_append,
        List.splitOn_append_cons_self_of_not_mem (writeLine_newline item)]
    have hnew : item.key ∉ prefs.items.map (·.key) := by
      intro hmem
      rw [List.map_append, map_cons] at hnodup
      exact (List.nodup_append.mp hnodup).2.2 _ hmem _ (List.mem_cons_self ..) rfl
    have hstep := loadLine_writeLine hnew
    rw [hsplit, List.foldl_cons, ih, hstep, append_assoc, singleton_append]
    rw [hstep, append_assoc, singleton_append]
    exact hnodup

/-- **A published file reads back as the items it was written from.** -/
theorem load_writeItems (h : (items.map (·.key)).Nodup) :
    (load (some (writeItems items))).items = items := by
  have hlines := loadLines_writeItems items ⟨[], false, false, some (writeItems items)⟩ h
  rw [load]
  exact hlines

/-! ### Changes and saves -/

/-- Keys are distinct, and preferences without changes are those of the file. -/
structure Ok (prefs : State) : Prop where
  nodup : (prefs.items.map (·.key)).Nodup
  saved : prefs.changed = false → (load prefs.file).items = prefs.items

theorem put_keys (item : Item) (items : List Item) (h : item.key ∈ items.map (·.key)) :
    (put item items).map (·.key) = items.map (·.key) := by
  induction items with
  | nil => simp at h
  | cons old rest ih =>
    rw [put]
    split
    · rename_i heq
      rw [map_cons, map_cons, heq]
    · rename_i hne
      rw [map_cons, mem_cons] at h
      rw [map_cons, map_cons, ih (h.resolve_left (Ne.symm hne))]

theorem nodup_put (h : (items.map (·.key)).Nodup) (item : Item) :
    ((put item items).map (·.key)).Nodup := by
  by_cases hmem : item.key ∈ items.map (·.key)
  · rw [put_keys item items hmem]
    exact h
  · rw [put_of_not_mem hmem, List.map_append]
    refine List.nodup_append.mpr ⟨h, by simp, ?_⟩
    rintro key hkey _ hsingle rfl
    rw [List.map_singleton, List.mem_singleton] at hsingle
    exact hmem (hsingle ▸ hkey)

theorem find_put (item : Item) (items : List Item) :
    find (put item items) item.key = some item := by
  induction items with
  | nil => simp [put, find]
  | cons old rest ih =>
    rw [put]
    split
    · simp [find]
    · rename_i hne
      rw [find] at ih
      simp [find, hne, ih]

/-- What storing an item leaves: it is found, the file is as it was. -/
structure Stored (prefs : State) (key value : List UInt8) (prefs' : State) : Prop where
  ok : Ok prefs'
  found : get prefs' key = some value
  file : prefs'.file = prefs.file
  pendingSync : prefs'.pendingSync = prefs.pendingSync

theorem store_spec {prefs' : State} (h : Ok prefs) {allocate : Bool}
    (hstore : store prefs item allocate = some prefs') :
    Stored prefs item.key item.value prefs' := by
  rw [store] at hstore
  split at hstore
  · rename_i hfound
    obtain rfl := Option.some.inj hstore
    exact ⟨h, by rw [get, if_pos item.key_valid, hfound], rfl, rfl⟩
  split at hstore
  · obtain rfl := Option.some.inj hstore
    refine ⟨⟨nodup_put h.nodup item, fun hchanged => absurd hchanged (by simp)⟩, ?_, rfl, rfl⟩
    rw [get, if_pos item.key_valid]
    show (find (put item prefs.items) item.key).map (·.value) = some item.value
    rw [find_put]
    rfl
  · exact absurd hstore (by simp)

/-- **A set that succeeds.** -/
theorem set_spec {prefs' : State} (h : Ok prefs) {key value : List UInt8} {allocate : Bool}
    (hset : set prefs key value allocate = .ok prefs') :
    Stored prefs key (cString value) prefs' := by
  rw [set] at hset
  split at hset
  · split at hset
    · split at hset
      · split at hset
        · rename_i hstore
          obtain rfl := Except.ok.inj hset
          exact store_spec h hstore
        · cases hset
      · cases hset
    · cases hset
  · cases hset

/-- What a save leaves, by the state it reports. -/
structure Saved (prefs : State) (outcome : Storage × State) : Prop where
  ok : Ok outcome.2
  items : outcome.2.items = prefs.items
  unpublished : outcome.1.state = .unpublished →
    outcome.2.file = prefs.file ∧ outcome.2.pendingSync = prefs.pendingSync
  published : outcome.1.state ≠ .unpublished → (load outcome.2.file).items = prefs.items
  durable : outcome.1.state = .durable → outcome.2.pendingSync = false

theorem synchronize_spec (h : Ok prefs) (hsaved : prefs.changed = false) (faults : Faults) :
    Saved prefs (synchronize prefs faults) := by
  rw [synchronize]
  split
  · exact ⟨h, rfl, by simp, fun _ => h.saved hsaved, by simp⟩
  · exact ⟨⟨h.nodup, h.saved⟩, rfl, by simp, fun _ => h.saved hsaved, by simp⟩

/-- **A save, whatever fails.** -/
theorem save_spec (h : Ok prefs) (faults : Faults) : Saved prefs (save prefs faults) := by
  rw [save]
  split
  · rename_i hsaved
    split
    · exact synchronize_spec h hsaved faults
    · rename_i hpending
      exact ⟨h, rfl, fun hstate => absurd hstate (by simp), fun _ => h.saved hsaved,
        fun _ => by simpa using hpending⟩
  · split
    · exact ⟨h, rfl, fun _ => ⟨rfl, rfl⟩, fun hne => absurd rfl hne,
        fun hstate => absurd hstate (by simp)⟩
    · -- the rename has happened: the rest is the synchronization of what is on disk
      have hnew : Ok { prefs with
          changed := false
          pendingSync := true
          file := some (writeItems prefs.items) } :=
        ⟨h.nodup, fun _ => load_writeItems h.nodup⟩
      obtain ⟨hok, hitems, -, hpublished, hdurable⟩ := synchronize_spec hnew rfl faults
      refine ⟨hok, hitems, ?_, hpublished, hdurable⟩
      intro hstate
      rw [synchronize] at hstate
      split at hstate
      · cases hstate
      · cases hstate

theorem save_changed (prefs : State) (faults : Faults)
    (h : (save prefs faults).1.state ≠ .unpublished) : (save prefs faults).2.changed = false := by
  have hsync : ∀ state : State, (synchronize state faults).2.changed = state.changed := by
    intro state
    rw [synchronize]
    split
    · rfl
    · rfl
  rw [save] at h ⊢
  split
  · rename_i hsaved
    split
    · rw [hsync, hsaved]
    · exact hsaved
  · rename_i hchanged
    rw [if_neg hchanged] at h
    split
    · rename_i herror
      rw [herror] at h
      exact absurd rfl h
    · exact hsync _

theorem nodup_loadLine (h : (prefs.items.map (·.key)).Nodup) (line : List UInt8) :
    ((loadLine prefs line).items.map (·.key)).Nodup := by
  rw [loadLine]
  split
  · exact h
  · rename_i item _
    rw [store]
    split
    · exact h
    · exact nodup_put h item

theorem foldl_loadLine (lines : List (List UInt8)) : ∀ prefs : State,
    (prefs.items.map (·.key)).Nodup →
      ((lines.foldl loadLine prefs).items.map (·.key)).Nodup ∧
        (lines.foldl loadLine prefs).file = prefs.file ∧
        (lines.foldl loadLine prefs).pendingSync = prefs.pendingSync := by
  induction lines with
  | nil => exact fun _ h => ⟨h, rfl, rfl⟩
  | cons line rest ih =>
    intro prefs h
    obtain ⟨hnodup, hfile, hsync⟩ := ih (loadLine prefs line) (nodup_loadLine h line)
    have hkept : (loadLine prefs line).file = prefs.file ∧
        (loadLine prefs line).pendingSync = prefs.pendingSync := by
      rw [loadLine]
      split
      · exact ⟨rfl, rfl⟩
      · rw [store]
        split
        · exact ⟨rfl, rfl⟩
        · exact ⟨rfl, rfl⟩
    exact ⟨hnodup, hfile.trans hkept.1, hsync.trans hkept.2⟩

theorem load_file (file : Option (List UInt8)) : (load file).file = file :=
  (foldl_loadLine _ ⟨[], false, false, file⟩ nodup_nil).2.1

theorem load_pendingSync (file : Option (List UInt8)) : (load file).pendingSync = false :=
  (foldl_loadLine _ ⟨[], false, false, file⟩ nodup_nil).2.2

theorem ok_load (file : Option (List UInt8)) : Ok (load file) := by
  refine ⟨(foldl_loadLine _ ⟨[], false, false, file⟩ nodup_nil).1, fun _ => ?_⟩
  rw [load_file]

end Prefs
