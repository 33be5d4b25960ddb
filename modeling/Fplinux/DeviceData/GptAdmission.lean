/-
What an admitted partition table guarantees.

The loop over the entries reads the array in pieces; the pieces are those of one slice
of the image, and the digest is taken of that slice.  Equal digests therefore mean equal
arrays, and the second copy gives the same partitions as the first.

Main results:
- `readHeader_spec`: the layout that a header is checked for;
- `readEntries_spec`: extents, names and order of the partitions;
- `readEntries_copy`: equal arrays and layouts give equal partitions;
- `gpt_admission`: what `readGpt` admits, and what a reader of a partition delivers.
-/
import Fplinux.DeviceData.Gpt
import Fplinux.Lib.Guards
import Mathlib.Data.List.Pairwise

namespace Gpt

open Guards
open Emmc
open LittleEndian (slice)

variable (crc32 : List UInt8 → ℕ → ℕ) (sha256 : List UInt8 → List UInt8)

/-! ### The header -/

/-- The layout of an admitted header. -/
structure HeaderOk (header : Header) (lba sectors : ℕ) : Prop where
  two_le_first : 2 ≤ header.first
  first_le_last : header.first ≤ header.last
  last_lt : header.last < sectors - 1
  placed : EntriesPlaced header lba

variable {header : Header} {source : Source} {gathered : Gathered}

theorem readHeader_spec {lba sectors : ℕ} (h : readHeader crc32 source lba sectors = .ok header) :
    HeaderOk header lba sectors := by
  rw [readHeader] at h
  obtain ⟨data, -, h⟩ := bind_eq_ok.mp h
  obtain ⟨-, h⟩ := check_eq_ok.mp h
  obtain ⟨-, h⟩ := check_eq_ok.mp h
  obtain ⟨hlayout, h⟩ := check_eq_ok.mp h
  obtain ⟨hplaced, h⟩ := check_eq_ok.mp h
  cases h
  push Not at hlayout
  obtain ⟨-, -, ⟨htwo, hle, hlt⟩, -⟩ := hlayout
  exact ⟨htwo, hle, hlt, not_not.mp hplaced⟩

/-! ### The loop -/

/-- The pieces of the array. -/
def chunks (size : ℕ) : ℕ → List UInt8 → List (List UInt8)
  | 0, _ => []
  | count + 1, bytes => bytes.take size :: chunks size count (bytes.drop size)

theorem flatten_chunks (size count : ℕ) (bytes : List UInt8) :
    (chunks size count bytes).flatten = bytes.take (count * size) := by
  induction count generalizing bytes with
  | zero => simp [chunks]
  | succ count ih =>
    rw [chunks, List.flatten_cons, ih, Nat.succ_mul, Nat.add_comm (count * size), List.take_add]

theorem chunks_take (size count : ℕ) (bytes : List UInt8) :
    chunks size count (bytes.take (count * size)) = chunks size count bytes := by
  induction count generalizing bytes with
  | zero => rfl
  | succ count ih =>
    have hsum : (count + 1) * size = size + count * size := by
      rw [Nat.succ_mul, Nat.add_comm]
    rw [chunks, chunks, hsum, List.take_take, Nat.min_eq_left (Nat.le_add_right _ _),
      List.drop_take, Nat.add_sub_cancel_left, ih]

theorem entriesLoop_eq {count : ℕ}
    (h : source.position + count * header.entrySize ≤ source.image.length) :
    entriesLoop crc32 header count source gathered
      = (chunks header.entrySize count (source.image.drop source.position)).foldlM
        (admitEntry crc32 header) gathered := by
  induction count generalizing source gathered with
  | zero => rfl
  | succ count ih =>
    rw [Nat.succ_mul] at h
    have hlength : (source.read header.entrySize).1.length = header.entrySize :=
      LittleEndian.length_slice (by omega)
    have hnext : (source.read header.entrySize).2
        = ⟨source.image, source.position + header.entrySize⟩ := by
      show Source.mk source.image (source.position + (source.read header.entrySize).1.length) = _
      rw [hlength]
    have hstep : entriesLoop crc32 header (count + 1) source gathered
        = admitEntry crc32 header gathered (source.read header.entrySize).1 >>=
          fun gathered => entriesLoop crc32 header count (source.read header.entrySize).2 gathered :=
      if_neg (not_not.mpr hlength)
    rw [hstep, hnext, chunks, List.foldlM_cons, List.drop_drop]
    refine congrArg (_ >>= ·) (funext fun gathered => ?_)
    refine ih ?_
    show source.position + header.entrySize + count * header.entrySize ≤ source.image.length
    omega

theorem admitEntry_spec {gathered' : Gathered} {entry : List UInt8}
    (h : admitEntry crc32 header gathered entry = .ok gathered') :
    gathered'.digested = gathered.digested ++ entry ∧
    (gathered'.intervals = gathered.intervals ∧ gathered'.partitions = gathered.partitions ∨
      ∃ first last, header.first ≤ first ∧ first ≤ last ∧ last ≤ header.last ∧
        gathered'.intervals = gathered.intervals ++ [(first, last)] ∧
        (gathered'.partitions = gathered.partitions ∨
          ∃ name, name ≠ [] ∧ name ∉ gathered.partitions.map Partition.name ∧
            gathered'.partitions = gathered.partitions ++
              [⟨name, (first * sectorBytes : ℕ), ((last - first + 1) * sectorBytes : ℕ)⟩])) := by
  rw [admitEntry] at h
  simp only at h
  split at h
  · cases h
    exact ⟨rfl, .inl ⟨rfl, rfl⟩⟩
  · obtain ⟨hextent, h⟩ := check_eq_ok.mp h
    obtain ⟨hfirst, hle, hlast⟩ := not_not.mp hextent
    split at h
    · cases h
    · rename_i name hname
      split at h
      · cases h
        exact ⟨rfl, .inr ⟨_, _, hfirst, hle, hlast, rfl, .inl rfl⟩⟩
      · rename_i hne
        obtain ⟨hfresh, h⟩ := check_eq_ok.mp h
        cases h
        exact ⟨rfl, .inr ⟨_, _, hfirst, hle, hlast, rfl, .inr ⟨name, hne, hfresh, rfl⟩⟩⟩

theorem admitEntry_congr {header' : Header} (hfirst : header.first = header'.first)
    (hlast : header.last = header'.last) : admitEntry crc32 header = admitEntry crc32 header' := by
  funext gathered entry
  rw [admitEntry, admitEntry, hfirst, hlast]

/-- The sectors of a partition, first and last. -/
def extent (partition : Partition) : ℕ × ℕ :=
  (partition.offset.toNat / sectorBytes,
    (partition.offset + partition.size).toNat / sectorBytes - 1)

theorem extent_mk {first last : ℕ} (h : first ≤ last) (name : List Char) :
    extent ⟨name, (first * sectorBytes : ℕ), ((last - first + 1) * sectorBytes : ℕ)⟩
      = (first, last) := by
  have hstart : ((first * sectorBytes : ℕ) : ℤ).toNat / sectorBytes = first := by
    rw [Int.toNat_natCast, sectorBytes]
    omega
  have hend : (((first * sectorBytes : ℕ) : ℤ) + ((last - first + 1) * sectorBytes : ℕ)).toNat
      / sectorBytes - 1 = last := by
    rw [sectorBytes]
    omega
  exact Prod.ext hstart hend

/-- What the loop keeps. -/
structure Sound (header : Header) (gathered : Gathered) : Prop where
  intervals : ∀ interval ∈ gathered.intervals,
    header.first ≤ interval.1 ∧ interval.1 ≤ interval.2 ∧ interval.2 ≤ header.last
  names : (gathered.partitions.map Partition.name).Nodup
  named : ∀ partition ∈ gathered.partitions, partition.name ≠ []
  extents : (gathered.partitions.map extent).Sublist gathered.intervals
  exact : ∀ partition ∈ gathered.partitions,
    partition.offset = (extent partition).1 * sectorBytes ∧
      partition.offset + partition.size = ((extent partition).2 + 1) * sectorBytes

/-- **One entry.** -/
theorem Sound.step {header : Header} {gathered gathered' : Gathered} {entry : List UInt8}
    (hsound : Sound header gathered) (h : admitEntry crc32 header gathered entry = .ok gathered') :
    Sound header gathered' := by
  obtain ⟨-, ⟨hi, hp⟩ | ⟨first, last, hfirst, hle, hlast, hi, hp⟩⟩ := admitEntry_spec crc32 h
  · constructor
    case intervals => rw [hi]; exact hsound.intervals
    case names => rw [hp]; exact hsound.names
    case named => rw [hp]; exact hsound.named
    case extents => rw [hi, hp]; exact hsound.extents
    case exact => rw [hp]; exact hsound.exact
  · have hintervals : ∀ interval ∈ gathered'.intervals,
        header.first ≤ interval.1 ∧ interval.1 ≤ interval.2 ∧ interval.2 ≤ header.last := by
      rw [hi]
      intro interval hmem
      rcases List.mem_append.mp hmem with hmem | hmem
      · exact hsound.intervals interval hmem
      · obtain rfl := List.mem_singleton.mp hmem
        exact ⟨hfirst, hle, hlast⟩
    rcases hp with hp | ⟨name, hne, hfresh, hp⟩
    · constructor
      case intervals => exact hintervals
      case names => rw [hp]; exact hsound.names
      case named => rw [hp]; exact hsound.named
      case extents => rw [hi, hp]; exact hsound.extents.trans (List.sublist_append_left _ _)
      case exact => rw [hp]; exact hsound.exact
    · have hextent := extent_mk hle name
      constructor
      case intervals => exact hintervals
      case names =>
        rw [hp, List.map_append, List.nodup_append]
        refine ⟨hsound.names, List.nodup_singleton _, ?_⟩
        rintro a ha b hb rfl
        obtain rfl := List.mem_singleton.mp hb
        exact hfresh ha
      case named =>
        rw [hp]
        intro partition hmem
        rcases List.mem_append.mp hmem with hmem | hmem
        · exact hsound.named partition hmem
        · obtain rfl := List.mem_singleton.mp hmem
          exact hne
      case extents =>
        rw [hi, hp, List.map_append, List.map_singleton, hextent]
        exact hsound.extents.append (List.Sublist.refl _)
      case exact =>
        rw [hp]
        intro partition hmem
        rcases List.mem_append.mp hmem with hmem | hmem
        · exact hsound.exact partition hmem
        · obtain rfl := List.mem_singleton.mp hmem
          rw [hextent]
          show ((first * sectorBytes : ℕ) : ℤ) = (first : ℤ) * sectorBytes ∧
            ((first * sectorBytes : ℕ) : ℤ) + ((last - first + 1) * sectorBytes : ℕ)
              = ((last : ℤ) + 1) * sectorBytes
          rw [sectorBytes]
          omega

/-! ### One copy -/

/-- The bytes of the array. -/
def Header.array (header : Header) (image : List UInt8) : List UInt8 :=
  slice image header.entryStart (header.entriesCount * header.entrySize)

theorem digested_of_foldlM {entries : List (List UInt8)} {gathered' : Gathered}
    (h : entries.foldlM (admitEntry crc32 header) gathered = .ok gathered') :
    gathered'.digested = gathered.digested ++ entries.flatten := by
  induction entries generalizing gathered with
  | nil =>
    cases h
    rw [List.flatten_nil, List.append_nil]
  | cons entry entries ih =>
    rw [List.foldlM_cons] at h
    obtain ⟨middle, hmiddle, h⟩ := bind_eq_ok.mp h
    rw [ih h, (admitEntry_spec crc32 hmiddle).1, List.flatten_cons, List.append_assoc]

theorem entriesLoop_array (h : header.entryEnd ≤ source.image.length) (gathered : Gathered) :
    entriesLoop crc32 header header.entriesCount (source.seek header.entryStart) gathered
      = (chunks header.entrySize header.entriesCount (header.array source.image)).foldlM
        (admitEntry crc32 header) gathered := by
  rw [Header.array, slice, chunks_take]
  exact entriesLoop_eq crc32 h

/-- A table whose entries are sound and do not overlap. -/
structure TableOk (header : Header) (partitions : List Partition) : Prop where
  names : (partitions.map Partition.name).Nodup
  named : ∀ partition ∈ partitions, partition.name ≠ []
  inside : ∀ partition ∈ partitions, 0 < partition.size ∧
    ((header.first * sectorBytes : ℕ) : ℤ) ≤ partition.offset ∧
    partition.offset + partition.size ≤ ((header.last + 1) * sectorBytes : ℕ)
  disjoint : partitions.Pairwise fun a b =>
    a.offset + a.size ≤ b.offset ∨ b.offset + b.size ≤ a.offset

/-- **The entries** of one copy. -/
theorem readEntries_spec {partitions : List Partition} {digest : List UInt8}
    (hin : header.entryEnd ≤ source.image.length)
    (h : readEntries crc32 sha256 source header = .ok (partitions, digest)) :
    TableOk header partitions ∧ digest = sha256 (header.array source.image) := by
  rw [readEntries] at h
  obtain ⟨gathered, hloop, h⟩ := bind_eq_ok.mp h
  obtain ⟨-, h⟩ := check_eq_ok.mp h
  obtain ⟨hoverlap, h⟩ := check_eq_ok.mp h
  cases h
  rw [entriesLoop_array crc32 hin] at hloop
  have hsound : Sound header gathered := by
    refine foldlM_induction (P := Sound header)
      (fun s entry s' _ hs hstep => hs.step crc32 hstep) ?_ hloop
    constructor
    case intervals => simp
    case names => exact List.nodup_nil
    case named => simp
    case extents => exact List.Sublist.refl _
    case exact => simp
  constructor
  · -- The sorted intervals do not meet, so the extents of the partitions do not.
    have hsorted : gathered.intervals.Pairwise (Intervals.Disjoint Prod.fst Prod.snd) := by
      refine Intervals.disjoint_of_perm (List.perm_insertionSort pairLe gathered.intervals)
        (fun interval hmem => (hsound.intervals interval hmem).2.1) fun pair hmem => ?_
      by_contra hge
      exact hoverlap ⟨pair, hmem, not_lt.mp hge⟩
    have hextents : (gathered.partitions.map extent).Pairwise
        (Intervals.Disjoint Prod.fst Prod.snd) := hsorted.sublist hsound.extents
    have hmem : ∀ partition ∈ gathered.partitions,
        header.first ≤ (extent partition).1 ∧ (extent partition).1 ≤ (extent partition).2 ∧
          (extent partition).2 ≤ header.last := fun partition hmem =>
      hsound.intervals _ (hsound.extents.subset (List.mem_map_of_mem hmem))
    constructor
    case names => exact hsound.names
    case named => exact hsound.named
    case inside =>
      intro partition hpartition
      obtain ⟨hfirst, hle, hlast⟩ := hmem partition hpartition
      obtain ⟨hoffset, hsize⟩ := hsound.exact partition hpartition
      rw [sectorBytes] at hoffset hsize ⊢
      omega
    case disjoint =>
      refine (List.pairwise_map.mp hextents).imp_of_mem ?_
      intro a b ha hb hdisjoint
      obtain ⟨haOffset, haSize⟩ := hsound.exact a ha
      obtain ⟨hbOffset, hbSize⟩ := hsound.exact b hb
      rw [sectorBytes] at haOffset haSize hbOffset hbSize
      rcases hdisjoint with h | h
      · left
        omega
      · right
        omega
  · rw [digested_of_foldlM crc32 hloop, List.nil_append, flatten_chunks, Header.array, slice,
      List.take_take, Nat.min_self]

/-- **The second copy**: equal arrays under equal layouts give equal results. -/
theorem readEntries_copy {header' : Header} (hin : header.entryEnd ≤ source.image.length)
    (hin' : header'.entryEnd ≤ source.image.length) (hlayout : header.layout = header'.layout)
    (harray : header.array source.image = header'.array source.image) :
    readEntries crc32 sha256 source header = readEntries crc32 sha256 source header' := by
  simp only [Header.layout, Prod.mk.injEq] at hlayout
  obtain ⟨hfirst, hlast, -, hcount, hsize, hcrc⟩ := hlayout
  rw [readEntries, readEntries, entriesLoop_array crc32 hin, entriesLoop_array crc32 hin', harray,
    hcount, hsize, hcrc, admitEntry_congr crc32 hfirst hlast]

/-! ### Both copies -/

/-- What an admitted table guarantees. -/
structure Admitted (source : Source) (partitions : List Partition) (primary backup : Header) :
    Prop where
  primaryHeader : readHeader crc32 source 1 (source.image.length / sectorBytes) = .ok primary
  backupHeader : readHeader crc32 source (source.image.length / sectorBytes - 1)
    (source.image.length / sectorBytes) = .ok backup
  layout : primary.layout = backup.layout
  arrays : primary.array source.image = backup.array source.image
  primaryTable : ∃ digest, readEntries crc32 sha256 source primary = .ok (partitions, digest)
  backupTable : ∃ digest, readEntries crc32 sha256 source backup = .ok (partitions, digest)
  primaryOutside : 2 * sectorBytes ≤ primary.entryStart ∧
    primary.entryEnd ≤ primary.first * sectorBytes
  backupOutside : (primary.last + 1) * sectorBytes ≤ backup.entryStart ∧
    backup.entryEnd ≤ (source.image.length / sectorBytes - 1) * sectorBytes
  names : (partitions.map Partition.name).Nodup
  inside : ∀ partition ∈ partitions, 0 < partition.size ∧
    ((primary.first * sectorBytes : ℕ) : ℤ) ≤ partition.offset ∧
    partition.offset + partition.size ≤ ((primary.last + 1) * sectorBytes : ℕ)
  between : ∀ partition ∈ partitions, ((2 * sectorBytes : ℕ) : ℤ) ≤ partition.offset ∧
    partition.offset + partition.size + sectorBytes ≤ source.image.length
  disjoint : ∀ a ∈ partitions, ∀ b ∈ partitions, a.name ≠ b.name →
    a.offset + a.size ≤ b.offset ∨ b.offset + b.size ≤ a.offset

/-- **Admission.** -/
theorem readGpt_spec (hsha : Function.Injective sha256) {partitions : List Partition}
    (h : readGpt crc32 sha256 source = .ok partitions) :
    ∃ primary backup, Admitted crc32 sha256 source partitions primary backup := by
  rw [readGpt] at h
  obtain ⟨hsize, h⟩ := check_eq_ok.mp h
  obtain ⟨primary, hprimary, h⟩ := bind_eq_ok.mp h
  obtain ⟨backup, hbackup, h⟩ := bind_eq_ok.mp h
  obtain ⟨hlayout, h⟩ := check_eq_ok.mp h
  obtain ⟨⟨partitions', digest⟩, hentries, h⟩ := bind_eq_ok.mp h
  obtain ⟨⟨partitions'', digest'⟩, hentries', h⟩ := bind_eq_ok.mp h
  obtain ⟨hdigest, h⟩ := check_eq_ok.mp h
  cases h
  rw [not_not] at hlayout hdigest
  push Not at hsize
  obtain ⟨haligned, hlong⟩ := hsize
  have hpOk := readHeader_spec crc32 hprimary
  have hbOk := readHeader_spec crc32 hbackup
  have hfields := hlayout
  simp only [Header.layout, Prod.mk.injEq] at hfields
  obtain ⟨hfirst, hlast, -⟩ := hfields
  obtain ⟨hpStart, -, hpEnd⟩ : 2 * sectorBytes ≤ primary.entryStart ∧
      primary.entryStart < primary.entryEnd ∧ primary.entryEnd ≤ primary.first * sectorBytes := by
    have hplaced := hpOk.placed
    rwa [EntriesPlaced, if_pos rfl] at hplaced
  obtain ⟨hbStart, -, hbEnd⟩ : (backup.last + 1) * sectorBytes ≤ backup.entryStart ∧
      backup.entryStart < backup.entryEnd ∧
        backup.entryEnd ≤ (source.image.length / sectorBytes - 1) * sectorBytes := by
    have hplaced := hbOk.placed
    rwa [EntriesPlaced, if_neg (by rw [sectorBytes] at hlong ⊢; omega)] at hplaced
  have hpTwo := hpOk.two_le_first
  have hpLe := hpOk.first_le_last
  have hpLt := hpOk.last_lt
  simp only [sectorBytes] at hpStart hpEnd hbStart hbEnd hpLt haligned hlong
  have hpIn : primary.entryEnd ≤ source.image.length := by omega
  have hbIn : backup.entryEnd ≤ source.image.length := by omega
  obtain ⟨htable, hpDigest⟩ := readEntries_spec crc32 sha256 hpIn hentries
  obtain ⟨-, hbDigest⟩ := readEntries_spec crc32 sha256 hbIn hentries'
  have harray : primary.array source.image = backup.array source.image := by
    apply hsha
    rw [← hpDigest, ← hbDigest, hdigest]
  refine ⟨primary, backup, ?_⟩
  constructor
  case primaryHeader => exact hprimary
  case backupHeader => exact hbackup
  case layout => exact hlayout
  case arrays => exact harray
  case primaryTable => exact ⟨digest, hentries⟩
  case backupTable =>
    exact ⟨digest, (readEntries_copy crc32 sha256 hpIn hbIn hlayout harray) ▸ hentries⟩
  case primaryOutside => exact ⟨hpStart, hpEnd⟩
  case backupOutside => exact ⟨by rw [hlast, sectorBytes]; exact hbStart, hbEnd⟩
  case names => exact htable.names
  case inside => exact htable.inside
  case between =>
    intro partition hmem
    obtain ⟨-, hlow, hhigh⟩ := htable.inside partition hmem
    simp only [sectorBytes] at hlow hhigh ⊢
    omega
  case disjoint =>
    intro a ha b hb hne
    have hsymm : Std.Symm fun a b : Partition =>
        a.offset + a.size ≤ b.offset ∨ b.offset + b.size ≤ a.offset :=
      ⟨fun _ _ => Or.symm⟩
    exact htable.disjoint.forall ha hb fun heq => hne (congrArg Partition.name heq)

/-! ### Admission and reading -/

/-- What any run of calls on a reader of a partition delivers. -/
def ReaderOk (source : Source) (partition : Partition) : Prop :=
  ∀ reader, PartitionReader.new partition = .ok reader → ∀ calls calls',
    (∀ entry ∈ PartitionReader.run source reader calls,
      PartitionReader.Faithful source.image entry ∧ entry.before.partition = partition) ∧
    -- After any calls, further calls without a successful seek deliver consecutive bytes.
    ((∀ entry ∈ PartitionReader.run (PartitionReader.state source reader calls).1
        (PartitionReader.state source reader calls).2 calls',
        ∀ position, entry.outcome ≠ .moved position) →
      PartitionReader.delivered (PartitionReader.run (PartitionReader.state source reader calls).1
          (PartitionReader.state source reader calls).2 calls')
        = slice source.image
          (partition.offset + (PartitionReader.state source reader calls).2.position).toNat
          (PartitionReader.delivered (PartitionReader.run
            (PartitionReader.state source reader calls).1
            (PartitionReader.state source reader calls).2 calls')).length)

theorem readerOk (source : Source) (partition : Partition) : ReaderOk source partition := by
  intro reader hnew calls calls'
  have hpartition : reader.partition = partition := by
    rw [PartitionReader.new] at hnew
    split at hnew
    · cases hnew
    · cases hnew
      rfl
  constructor
  · intro entry hmem
    obtain ⟨hfaithful, hbefore⟩ := PartitionReader.run_spec source reader calls entry hmem
    exact ⟨hfaithful, hbefore.trans hpartition⟩
  · intro hmoves
    obtain ⟨himage, hkept⟩ := PartitionReader.state_spec source reader calls
    have hrun := (PartitionReader.run_delivered _ _ calls' hmoves).1
    rwa [himage, hkept, hpartition] at hrun

/-- **GPT admission.**  With an injective digest, whatever `readGpt` returns is named once,
disjoint, inside the image and described by both copies; and a reader of any partition
delivers only bytes of the partition, from its position on, and none twice. -/
theorem gpt_admission (hsha : Function.Injective sha256) :
    (∀ source partitions, readGpt crc32 sha256 source = .ok partitions →
      ∃ primary backup, Admitted crc32 sha256 source partitions primary backup) ∧
    ∀ source partition, ReaderOk source partition :=
  ⟨fun _ _ h => readGpt_spec crc32 sha256 hsha h, readerOk⟩

/-! ### An image with two partitions -/

/-- CRC-32 of one more byte. -/
def crcByte (crc : ℕ) (byte : UInt8) : ℕ :=
  (List.range 8).foldl
    (fun crc _ => if crc % 2 = 1 then (crc / 2) ^^^ 0xEDB88320 else crc / 2)
    (crc ^^^ byte.toNat)

/-- CRC-32 of the bytes that are left; the match has each byte evaluated in its turn. -/
def crcBytes : List UInt8 → ℕ → ℕ
  | [], crc => crc
  | byte :: rest, crc =>
    match crcByte crc byte with
    | 0 => crcBytes rest 0
    | next + 1 => crcBytes rest (next + 1)

/-- CRC-32, continued from the checksum of the bytes before. -/
def crcOf (data : List UInt8) (before : ℕ) : ℕ :=
  crcBytes data (before ^^^ 0xFFFFFFFF) ^^^ 0xFFFFFFFF

/-- A number in little-endian bytes. -/
def bytesOf (width number : ℕ) : List UInt8 :=
  (List.range width).map fun index => (number / 256 ^ index).toUInt8

/-- An entry with a name of one letter and one sector. -/
def sampleEntry (tag : UInt8) (sector letter : ℕ) : List UInt8 :=
  List.replicate 16 tag ++ List.replicate 16 (tag + 16) ++ bytesOf 8 sector ++ bytesOf 8 sector
    ++ bytesOf 8 0 ++ bytesOf 72 letter

def sampleArray : List UInt8 := sampleEntry 1 3 97 ++ sampleEntry 2 4 98

/-- The SHA-256 digest of the array. -/
def sampleDigest : List UInt8 :=
  [151, 66, 25, 47, 59, 79, 247, 184, 211, 56, 67, 175, 145, 133, 186, 180, 34, 87, 189, 75, 98,
    111, 231, 68, 58, 18, 132, 39, 60, 141, 36, 202]

/-- An injective function with the right digest of the array. -/
def sampleSha : List UInt8 → List UInt8 := Equiv.swap sampleArray sampleDigest

def sampleHeader (crc current alternate entriesLba : ℕ) : List UInt8 :=
  Bytes.ascii "EFI PART" ++ bytesOf 4 0x10000 ++ bytesOf 4 92 ++ bytesOf 4 crc ++ bytesOf 4 0
    ++ bytesOf 8 current ++ bytesOf 8 alternate ++ bytesOf 8 3 ++ bytesOf 8 4
    ++ List.replicate 16 7 ++ bytesOf 8 entriesLba ++ bytesOf 4 2 ++ bytesOf 4 128
    ++ bytesOf 4 0x259b6767

def sampleSector (contents : List UInt8) : List UInt8 :=
  contents ++ List.replicate (512 - contents.length) 0

def sampleImage : List UInt8 :=
  sampleSector [] ++ sampleSector (sampleHeader 0xa9fbf850 1 6 2) ++ sampleSector sampleArray
    ++ List.replicate 512 65 ++ List.replicate 512 66
    ++ sampleSector sampleArray ++ sampleSector (sampleHeader 0xb1d73302 6 1 5)

/-- Two partitions of one sector each are admitted. -/
theorem gpt_admission_sample :
    ∃ primary backup, Admitted crcOf sampleSha ⟨sampleImage, 0⟩
      [⟨['a'], 1536, 512⟩, ⟨['b'], 2048, 512⟩] primary backup := by
  have hread : readGpt crcOf sampleSha ⟨sampleImage, 0⟩
      = .ok [⟨['a'], 1536, 512⟩, ⟨['b'], 2048, 512⟩] := by
    decide +kernel
  exact (gpt_admission crcOf sampleSha (Equiv.injective _)).1 _ _ hread

end Gpt
