/-
The partition table of the user area.

Both copies of the table are read: the header with its checksum and the bounds of its
layout, then the array of entries.  The two copies must describe the same layout, and
the partitions of the first are returned under their names.  The checksum and the
digest are parameters of the model.

An offset in the image is that of a 512-byte sector.
-/
import Fplinux.DeviceData.PartitionReader
import Fplinux.Lib.Bytes
import Fplinux.Lib.Intervals
import Mathlib.Data.List.Sort

namespace Gpt

open Bytes (ascii)
open Emmc
open LittleEndian (field slice)

def sectorBytes : ℕ := 512

/-- The size of the header that is unpacked. -/
def headerSize : ℕ := 92

/-- The fields of a header that are kept. -/
structure Header where
  current : ℕ
  alternate : ℕ
  first : ℕ
  last : ℕ
  guid : List UInt8
  entriesLba : ℕ
  entriesCount : ℕ
  entrySize : ℕ
  entriesCrc : ℕ
deriving DecidableEq

/-! ### Names -/

/-- The 16-bit units of the bytes. -/
def units : List UInt8 → List ℕ
  | low :: high :: rest => (low.toNat + 256 * high.toNat) :: units rest
  | _ => []

/-- The characters of UTF-16 units; a surrogate without its partner is an error. -/
def decodeUnits : List ℕ → Option (List Char)
  | [] => some []
  | unit :: rest =>
    if unit < 0xD800 ∨ 0xE000 ≤ unit then (Char.ofNat unit :: ·) <$> decodeUnits rest
    else if 0xDC00 ≤ unit then none
    else
      match rest with
      | [] => none
      | low :: rest =>
        if 0xDC00 ≤ low ∧ low < 0xE000 then
          (Char.ofNat (0x10000 + (unit - 0xD800) * 0x400 + (low - 0xDC00)) :: ·)
            <$> decodeUnits rest
        else none

/-- The name in an entry, up to its first zero. -/
def entryName (entry : List UInt8) : Option (List Char) :=
  (decodeUnits (units (slice entry 56 72))).map fun text => text.takeWhile (· ≠ '\x00')

/-! ### The header -/

/-- `_read_at`. -/
def readAt (source : Source) (offset length : ℕ) : Except String (List UInt8) :=
  let data := ((source.seek offset).read length).1
  if data.length ≠ length then .error "eMMC GPT is truncated" else .ok data

/-- `header.entries_lba * _SECTOR_BYTES`. -/
def Header.entryStart (header : Header) : ℕ := header.entriesLba * sectorBytes

def Header.entryEnd (header : Header) : ℕ :=
  header.entryStart + header.entriesCount * header.entrySize

/-- The entries lie in the region that is reserved for them. -/
def EntriesPlaced (header : Header) (lba : ℕ) : Prop :=
  if lba = 1 then
    2 * sectorBytes ≤ header.entryStart ∧ header.entryStart < header.entryEnd ∧
      header.entryEnd ≤ header.first * sectorBytes
  else
    (header.last + 1) * sectorBytes ≤ header.entryStart ∧ header.entryStart < header.entryEnd ∧
      header.entryEnd ≤ lba * sectorBytes

instance (header : Header) (lba : ℕ) : Decidable (EntriesPlaced header lba) := by
  unfold EntriesPlaced
  infer_instance

/-- The kept fields of the header, as they are unpacked. -/
def unpackHeader (data : List UInt8) : Header where
  current := field data 24 8
  alternate := field data 32 8
  first := field data 40 8
  last := field data 48 8
  guid := slice data 56 16
  entriesLba := field data 72 8
  entriesCount := field data 80 4
  entrySize := field data 84 4
  entriesCrc := field data 88 4

variable (crc32 : List UInt8 → ℕ → ℕ)

/-- `_header`. -/
def readHeader (source : Source) (lba sectors : ℕ) : Except String Header := do
  let data ← readAt source (lba * sectorBytes) sectorBytes
  let size := field data 12 4
  if slice data 0 8 ≠ ascii "EFI PART" ∨ field data 8 4 ≠ 0x10000 ∨
      ¬ (headerSize ≤ size ∧ size ≤ sectorBytes) ∨ field data 20 4 ≠ 0 then
    throw "eMMC GPT header is invalid"
  -- The checksum is taken with its own field zero.
  let zeroed := data.take 16 ++ List.replicate 4 0 ++ data.drop 20
  if crc32 (zeroed.take size) 0 ≠ field data 16 4 then
    throw "eMMC GPT header CRC does not match"
  let header := unpackHeader data
  if header.current ≠ lba ∨ header.alternate ≠ (if lba = 1 then sectors - 1 else 1) ∨
      ¬ (2 ≤ header.first ∧ header.first ≤ header.last ∧ header.last < sectors - 1) ∨
      header.guid = List.replicate 16 0 ∨ header.entriesCount < 1 ∨ header.entrySize < 128 ∨
      header.entrySize > sectorBytes ∨ header.entrySize % 128 ≠ 0 then
    throw "eMMC GPT header layout is invalid"
  if ¬ EntriesPlaced header lba then
    throw "eMMC GPT entries overlap storage outside their reserved region"
  return header

/-! ### The entries -/

/-- What the loop over the entries has gathered. -/
structure Gathered where
  checksum : ℕ
  digested : List UInt8
  partitions : List Partition
  intervals : List (ℕ × ℕ)

/-- The body of the loop, once the entry is read. -/
def admitEntry (header : Header) (gathered : Gathered) (entry : List UInt8) :
    Except String Gathered := do
  let gathered := { gathered with
    checksum := crc32 entry gathered.checksum
    digested := gathered.digested ++ entry }
  if slice entry 0 16 = List.replicate 16 0 then return gathered
  let first := field entry 32 8
  let last := field entry 40 8
  if ¬ (header.first ≤ first ∧ first ≤ last ∧ last ≤ header.last) then
    throw "eMMC GPT partition extent is invalid"
  let gathered := { gathered with intervals := gathered.intervals ++ [(first, last)] }
  match entryName entry with
  | none => throw "eMMC GPT partition name is invalid"
  | some name =>
    if name = [] then return gathered
    if name ∈ gathered.partitions.map Partition.name then
      throw ("eMMC GPT repeats partition name " ++ String.ofList name)
    let offset : ℕ := first * sectorBytes
    let size : ℕ := (last - first + 1) * sectorBytes
    return { gathered with partitions := gathered.partitions ++ [⟨name, offset, size⟩] }

/-- The loop over the entries that are left. -/
def entriesLoop (header : Header) : ℕ → Source → Gathered → Except String Gathered
  | 0, _, gathered => .ok gathered
  | count + 1, source, gathered => do
    let (entry, source) := source.read header.entrySize
    if entry.length ≠ header.entrySize then throw "eMMC GPT entries are truncated"
    let gathered ← admitEntry crc32 header gathered entry
    entriesLoop header count source gathered

/-- The order of pairs of numbers. -/
def pairLe (a b : ℕ × ℕ) : Prop := a.1 < b.1 ∨ a.1 = b.1 ∧ a.2 ≤ b.2

instance : DecidableRel pairLe := fun a b =>
  inferInstanceAs (Decidable (a.1 < b.1 ∨ a.1 = b.1 ∧ a.2 ≤ b.2))

variable (sha256 : List UInt8 → List UInt8)

/-- `_entries`: the named partitions and the digest of the array. -/
def readEntries (source : Source) (header : Header) :
    Except String (List Partition × List UInt8) := do
  let gathered ← entriesLoop crc32 header header.entriesCount (source.seek header.entryStart)
    ⟨0, [], [], []⟩
  if gathered.checksum ≠ header.entriesCrc then
    throw "eMMC GPT partition-array CRC does not match"
  let intervals := gathered.intervals.insertionSort pairLe
  if ∃ pair ∈ Intervals.adjacent intervals, pair.1.2 ≥ pair.2.1 then
    throw "eMMC GPT partitions overlap"
  return (gathered.partitions, sha256 gathered.digested)

/-- The fields that both headers share. -/
def Header.layout (header : Header) : ℕ × ℕ × List UInt8 × ℕ × ℕ × ℕ :=
  (header.first, header.last, header.guid, header.entriesCount, header.entrySize,
    header.entriesCrc)

/-- `read_gpt`: the partitions of the first copy, each under its name. -/
def readGpt (source : Source) : Except String (List Partition) := do
  let size := source.image.length
  if size % sectorBytes ≠ 0 ∨ size < 6 * sectorBytes then
    throw "eMMC user-area image must contain complete 512-byte sectors"
  let sectors := size / sectorBytes
  let primary ← readHeader crc32 source 1 sectors
  let backup ← readHeader crc32 source (sectors - 1) sectors
  if primary.layout ≠ backup.layout then
    throw "eMMC primary and backup GPT describe different layouts"
  let (partitions, digest) ← readEntries crc32 sha256 source primary
  let (_, backupDigest) ← readEntries crc32 sha256 source backup
  if digest ≠ backupDigest then
    throw "eMMC primary and backup GPT partition arrays differ"
  return partitions

end Gpt
