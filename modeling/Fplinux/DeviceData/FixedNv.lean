/-
Streams of fixed NV records (`formats.py`).

A stream is a generation word, records with ascending identifiers, each padded to four bytes,
a terminator and whatever follows it.

Main results:
- `loop_of_encodes`: an encoding is read as the records it was made of;
- `encodes_of_loop`: what is read to the end is an encoding;
- `fixed_nv_streams`: both, for whole streams.
-/
import Fplinux.Lib.LittleEndian

namespace FixedNv

open LittleEndian

/-- A dictionary of records. -/
abbrev Records := ℕ → Option (List UInt8)

/-- Identifiers with the size that each record has to have. -/
abbrev Required := List (ℕ × ℕ)

/-- `(length + 3) & ~3`. -/
def padded (length : ℕ) : ℕ := (length + 3) / 4 * 4

/-- The check at the terminator. -/
def finish (required : Required) (records : Records) : Except String Records :=
  match required.find? fun entry => (records entry.1).map List.length ≠ some entry.2 with
  | some entry =>
    .error ("fixed NV record " ++ toString entry.1 ++ " is missing or has the wrong size")
  | none => .ok records

/-- The record of an identifier is kept when it is required. -/
def keep (required : Required) (records : Records) (identifier : ℕ) (payload : List UInt8) :
    Records :=
  if identifier ∈ required.map (·.1) then Function.update records identifier (some payload)
  else records

/-- The loop of `fixed_nv_records`. -/
def loop (partition : List UInt8) (required : Required) (cursor previous : ℕ)
    (records : Records) : Except String Records :=
  if cursor + 4 ≤ partition.length then
    let identifier := field partition cursor 2
    let length := field partition (cursor + 2) 2
    if identifier = 0xFFFF ∧ length = 0xFFFF then finish required records
    else if identifier ≤ previous ∨ identifier = 0xFFFF then
      .error "damaged fixed NV record ordering"
    else if cursor + 4 + padded length > partition.length then .error "truncated fixed NV record"
    else loop partition required (cursor + 4 + padded length) identifier
      (keep required records identifier (slice partition (cursor + 4) length))
  else .error "fixed NV stream has no complete terminator"
termination_by partition.length - cursor

def fixedNvRecords (partition : List UInt8) (required : Required) : Except String Records :=
  if partition.length < 8 then .error "incomplete fixed NV stream"
  else loop partition required 4 0 fun _ => none

/-! ### The format -/

/-- A record with its padding. -/
def encodeRecord (identifier : ℕ) (payload padding : List UInt8) : List UInt8 :=
  bytes 2 identifier ++ (bytes 2 payload.length ++ (payload ++ padding))

/-- Records with identifiers above `previous`, the terminator, and what follows it. -/
inductive Encodes : ℕ → List (ℕ × List UInt8) → List UInt8 → Prop
  | done (previous : ℕ) (trailing : List UInt8) :
    Encodes previous [] ([0xFF, 0xFF, 0xFF, 0xFF] ++ trailing)
  | record {previous identifier : ℕ} {payload padding : List UInt8} {rest : List (ℕ × List UInt8)}
    {body : List UInt8} (habove : previous < identifier) (hidentifier : identifier < 0xFFFF)
    (hlength : payload.length ≤ 0xFFFF)
    (hpadding : payload.length + padding.length = padded payload.length)
    (hrest : Encodes identifier rest body) :
    Encodes previous ((identifier, payload) :: rest)
      (encodeRecord identifier payload padding ++ body)

/-- The required ones of some records. -/
def collect (required : Required) (list : List (ℕ × List UInt8)) (records : Records) : Records :=
  list.foldl (fun records record => keep required records record.1 record.2) records

variable {required : Required} {previous cursor : ℕ} {records : Records}

/-! ### Reading an encoding -/

theorem length_encodeRecord (identifier : ℕ) (payload padding : List UInt8) :
    (encodeRecord identifier payload padding).length = 4 + (payload.length + padding.length) := by
  simp only [encodeRecord, List.length_append, length_bytes]
  omega

variable {body : List UInt8} {list : List (ℕ × List UInt8)}

/-- **An encoding is read as its records.** -/
theorem loop_of_encodes (h : Encodes previous list body) (before : List UInt8) (records : Records) :
    loop (before ++ body) required before.length previous records =
      finish required (collect required list records) := by
  induction h generalizing before records with
  | done previous trailing =>
    have hidentifier : field (before ++ ([0xFF, 0xFF, 0xFF, 0xFF] ++ trailing)) before.length 2 =
        0xFFFF := congrArg value (slice_append before [0xFF, 0xFF] (0xFF :: 0xFF :: trailing))
    have hlength : field (before ++ ([0xFF, 0xFF, 0xFF, 0xFF] ++ trailing)) (before.length + 2) 2 =
        0xFFFF := by
      have hslice := slice_append (before ++ [0xFF, 0xFF]) [0xFF, 0xFF] trailing
      rw [List.append_assoc, List.length_append] at hslice
      exact congrArg value hslice
    rw [loop, if_pos (by simp), if_pos ⟨hidentifier, hlength⟩]
    rfl
  | @record previous identifier payload padding rest body habove hbound hlength hpadding hrest ih =>
    have hsplit : before ++ (encodeRecord identifier payload padding ++ body) =
        before ++ (bytes 2 identifier ++
          (bytes 2 payload.length ++ (payload ++ (padding ++ body)))) := by
      simp only [encodeRecord, List.append_assoc]
    have hfirst := slice_append before (bytes 2 identifier)
      (bytes 2 payload.length ++ (payload ++ (padding ++ body)))
    have hsecond := slice_append (before ++ bytes 2 identifier) (bytes 2 payload.length)
      (payload ++ (padding ++ body))
    have hdata := slice_append (before ++ bytes 2 identifier ++ bytes 2 payload.length) payload
      (padding ++ body)
    simp only [List.append_assoc, List.length_append, length_bytes, Nat.reduceAdd, ← hsplit]
      at hfirst hsecond hdata
    have hid : field (before ++ (encodeRecord identifier payload padding ++ body)) before.length 2 =
        identifier := (congrArg value hfirst).trans (value_bytes (by omega))
    have hcount : field (before ++ (encodeRecord identifier payload padding ++ body))
        (before.length + 2) 2 = payload.length :=
      (congrArg value hsecond).trans (value_bytes (by omega))
    have hlast : (before ++ encodeRecord identifier payload padding).length =
        before.length + 4 + padded payload.length := by
      rw [List.length_append, length_encodeRecord]
      omega
    have hwhole : (before ++ (encodeRecord identifier payload padding ++ body)).length =
        before.length + 4 + padded payload.length + body.length := by
      rw [← List.append_assoc, List.length_append, hlast]
    rw [loop, if_pos (by omega)]
    simp only [hid, hcount]
    rw [if_neg (by omega), if_neg (by omega), if_neg (by omega), hdata, ← hlast,
      ← List.append_assoc, ih]
    rfl

/-! ### What is accepted -/

theorem drop_two_fields {partition : List UInt8} (h : cursor + 4 ≤ partition.length) :
    partition.drop cursor = bytes 2 (field partition cursor 2) ++
      (bytes 2 (field partition (cursor + 2) 2) ++ partition.drop (cursor + 4)) := by
  rw [bytes_field (by omega), bytes_field (by omega), drop_eq_slice _ _ 2,
    drop_eq_slice _ (cursor + 2) 2]

/-- **What is read to the end is an encoding.** -/
theorem encodes_of_loop {partition : List UInt8} {result : Records}
    (h : loop partition required cursor previous records = .ok result) :
    ∃ list, Encodes previous list (partition.drop cursor) := by
  fun_induction loop partition required cursor previous records with
  | case1 cursor previous records hroom identifier length hend =>
    rw [drop_two_fields hroom]
    show ∃ list, Encodes previous list (bytes 2 identifier ++ (bytes 2 length ++ _))
    rw [hend.1, hend.2]
    exact ⟨[], Encodes.done previous _⟩
  | case2 => cases h
  | case3 => cases h
  | case4 cursor previous records hroom identifier length hmore horder hfits ih =>
    obtain ⟨list, hlist⟩ := ih h
    have hlt : length < 256 ^ 2 := field_lt partition (cursor + 2) 2
    have hpayload : (slice partition (cursor + 4) length).length = length :=
      length_slice (by rw [padded] at hfits; omega)
    have hpadding : (slice partition (cursor + 4 + length) (padded length - length)).length =
        padded length - length := length_slice (by rw [padded] at hfits ⊢; omega)
    refine ⟨(identifier, slice partition (cursor + 4) length) :: list, ?_⟩
    have hdrop : partition.drop cursor = encodeRecord identifier
        (slice partition (cursor + 4) length)
        (slice partition (cursor + 4 + length) (padded length - length)) ++
          partition.drop (cursor + 4 + padded length) := by
      rw [drop_two_fields hroom, encodeRecord, hpayload,
        drop_eq_slice partition (cursor + 4) length,
        drop_eq_slice partition (cursor + 4 + length) (padded length - length)]
      have hnext : cursor + 4 + length + (padded length - length) = cursor + 4 + padded length := by
        rw [padded]
        omega
      rw [hnext]
      simp only [List.append_assoc]
      rfl
    rw [hdrop]
    refine Encodes.record (by omega) ?_ (by omega) ?_ hlist
    · have hidentifier : identifier < 256 ^ 2 := field_lt partition cursor 2
      omega
    · rw [hpayload, hpadding, padded]
      omega
  | case5 => cases h

/-! ### Whole streams -/

theorem Encodes.above (h : Encodes previous list body) : ∀ record ∈ list, previous < record.1 := by
  induction h with
  | done => exact nofun
  | record habove _ _ _ _ ih =>
    intro record hmem
    rcases List.mem_cons.mp hmem with rfl | hmem
    · exact habove
    · exact Nat.lt_trans habove (ih record hmem)

theorem Encodes.four_le (h : Encodes previous list body) : 4 ≤ body.length := by
  cases h with
  | done => simp
  | record =>
    rw [List.length_append, length_encodeRecord]
    omega

theorem lookup_eq_none {key : ℕ} (h : ∀ record ∈ list, record.1 ≠ key) :
    list.lookup key = none := by
  refine List.lookup_eq_none_iff.mpr fun record hmem => ?_
  simpa using (h record hmem).symm

theorem collect_eq (h : Encodes previous list body) (records : Records) (key : ℕ) :
    collect required list records key =
      if key ∈ required.map (·.1) then (list.lookup key).or (records key) else records key := by
  induction h generalizing records with
  | done =>
    rw [List.lookup_nil, Option.none_or, ite_self]
    rfl
  | @record previous identifier payload padding rest body _ _ _ _ hrest ih =>
    show collect required rest (keep required records identifier payload) key = _
    rw [ih, List.lookup_cons]
    by_cases hkey : key = identifier
    · subst hkey
      rw [lookup_eq_none fun record hmem => Nat.ne_of_gt (hrest.above record hmem), keep,
        beq_self_eq_true]
      split_ifs with hrequired
      · rw [Function.update_self]
        rfl
      · rfl
    · have hsame : keep required records identifier payload key = records key := by
        rw [keep]
        split_ifs
        · exact Function.update_of_ne hkey _ _
        · rfl
      rw [hsame, beq_eq_false_iff_ne.mpr hkey]

/-- Every required record is in the list with its size. -/
def HasRequired (required : Required) (list : List (ℕ × List UInt8)) : Prop :=
  ∀ entry ∈ required, ∃ payload, list.lookup entry.1 = some payload ∧ payload.length = entry.2

/-- The required ones of a list. -/
def selected (required : Required) (list : List (ℕ × List UInt8)) : Records :=
  fun key => if key ∈ required.map (·.1) then list.lookup key else none

theorem finish_selected (required : Required) (list : List (ℕ × List UInt8)) :
    (HasRequired required list →
      finish required (selected required list) = .ok (selected required list)) ∧
    (¬ HasRequired required list →
      ∃ error, finish required (selected required list) = .error error) := by
  have hentry : ∀ entry ∈ required, selected required list entry.1 = list.lookup entry.1 :=
    fun entry hmem => if_pos (List.mem_map_of_mem hmem)
  rw [finish]
  cases hfind : required.find? fun entry =>
      (selected required list entry.1).map List.length ≠ some entry.2 with
  | none =>
    refine ⟨fun _ => rfl, fun hmissing => absurd (fun entry hmem => ?_) hmissing⟩
    have hsize := List.find?_eq_none.mp hfind entry hmem
    rw [hentry entry hmem, decide_eq_true_eq, not_not, Option.map_eq_some_iff] at hsize
    exact hsize
  | some entry =>
    have hmem := List.mem_of_find?_eq_some hfind
    have hsize := of_decide_eq_true (List.find?_some hfind :)
    refine ⟨fun hall => absurd ?_ hsize, fun _ => ⟨_, rfl⟩⟩
    obtain ⟨payload, hpayload, hlength⟩ := hall entry hmem
    rw [hentry entry hmem, hpayload, ← hlength]
    rfl

/-- **Fixed NV streams.** -/
theorem fixed_nv_streams (required : Required) :
    (∀ generation list body, generation.length = 4 → Encodes 0 list body →
      (HasRequired required list →
        fixedNvRecords (generation ++ body) required = .ok (selected required list)) ∧
      (¬ HasRequired required list →
        ∃ error, fixedNvRecords (generation ++ body) required = .error error)) ∧
    ∀ partition result, fixedNvRecords partition required = .ok result →
      ∃ generation list body, generation.length = 4 ∧ Encodes 0 list body ∧
        partition = generation ++ body := by
  constructor
  · intro generation list body hgeneration h
    have hlong := h.four_le
    have hcollect : (collect required list fun _ => none) = selected required list := by
      funext key
      rw [collect_eq h, Option.or_none]
      rfl
    have hloop : loop (generation ++ body) required generation.length 0 (fun _ => none) =
        finish required (collect required list fun _ => none) := loop_of_encodes h generation _
    rw [hgeneration, hcollect] at hloop
    rw [fixedNvRecords, if_neg (by rw [List.length_append]; omega), hloop]
    exact finish_selected required list
  · intro partition result h
    rw [fixedNvRecords] at h
    split_ifs at h with hshort
    obtain ⟨list, hlist⟩ := encodes_of_loop h
    exact ⟨partition.take 4, list, partition.drop 4, List.length_take_of_le (by omega), hlist,
      (List.take_append_drop 4 partition).symm⟩

end FixedNv
