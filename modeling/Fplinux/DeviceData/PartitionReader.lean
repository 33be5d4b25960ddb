/-
Reading one partition of a disk image.

A reader borrows the handle of an image and moves its own position inside one
partition.  The handle is shared: the reader places it before it reads, and its other
users may leave it anywhere in between.

Main results:
- `step_spec`: what one call does to the position and which bytes it delivers;
- `run_delivered`: between two seeks the delivered bytes are consecutive;
- `run_spec`: the same facts about every call of a run.
-/
import Fplinux.Lib.LittleEndian

namespace Emmc

open LittleEndian (slice)

/-! ### The image -/

/-- A seekable image and the position of its handle. -/
structure Source where
  image : List UInt8
  position : ℕ

namespace Source

def seek (source : Source) (position : ℕ) : Source := { source with position }

/-- The next bytes; fewer than asked for at the end of the image. -/
def read (source : Source) (count : ℕ) : List UInt8 × Source :=
  let data := slice source.image source.position count
  (data, { source with position := source.position + data.length })

end Source

/-- One named interval of the image. -/
structure Partition where
  name : List Char
  offset : ℤ
  size : ℤ
deriving DecidableEq

/-! ### The reader -/

/-- A reader of one partition, inside which its position stays. -/
structure PartitionReader where
  partition : Partition
  position : ℤ
  offset_nonneg : 0 ≤ partition.offset
  size_pos : 0 < partition.size
  position_nonneg : 0 ≤ position
  position_le : position ≤ partition.size

namespace PartitionReader

/-- `__init__`. -/
def new (partition : Partition) : Except String PartitionReader :=
  if h : partition.offset < 0 ∨ partition.size ≤ 0 then
    .error "eMMC partition must have a positive bounded extent"
  else
    .ok {
      partition
      position := 0
      offset_nonneg := by omega
      size_pos := by omega
      position_nonneg := by omega
      position_le := by omega }

/-- `io.SEEK_SET`, `io.SEEK_CUR` and `io.SEEK_END`. -/
def seekSet : ℤ := 0

def seekCur : ℤ := 1

def seekEnd : ℤ := 2

/-- The position that a seek asks for. -/
def target (reader : PartitionReader) (offset whence : ℤ) : Except String ℤ :=
  if whence = seekCur then .ok (offset + reader.position)
  else if whence = seekEnd then .ok (offset + reader.partition.size)
  else if whence ≠ seekSet then .error "unsupported eMMC partition seek mode"
  else .ok offset

def seek (reader : PartitionReader) (offset whence : ℤ) : Except String PartitionReader :=
  match reader.target offset whence with
  | .error message => .error message
  | .ok offset =>
    if h : 0 ≤ offset ∧ offset ≤ reader.partition.size then
      .ok { reader with position := offset, position_nonneg := h.1, position_le := h.2 }
    else .error "seek is outside the eMMC partition"

/-- The bytes that a read asks for. -/
def readSize (reader : PartitionReader) (buffer : List UInt8) : ℤ :=
  min (buffer.length : ℤ) (reader.partition.size - reader.position)

theorem readSize_bounds (reader : PartitionReader) (buffer : List UInt8) :
    0 ≤ reader.readSize buffer ∧ reader.position + reader.readSize buffer ≤ reader.partition.size ∧
      reader.readSize buffer ≤ buffer.length := by
  have hpos := reader.position_le
  rw [readSize]
  omega

/-- The reader after a read. -/
def advance (reader : PartitionReader) (buffer : List UInt8) : PartitionReader where
  partition := reader.partition
  position := reader.position + reader.readSize buffer
  offset_nonneg := reader.offset_nonneg
  size_pos := reader.size_pos
  position_nonneg := by
    have h := reader.readSize_bounds buffer
    have hpos := reader.position_nonneg
    omega
  position_le := (reader.readSize_bounds buffer).2.1

/-- Fills the front of the buffer, and gives the bytes read with it. -/
def readinto (source : Source) (reader : PartitionReader) (buffer : List UInt8) :
    Source × Except String (ℤ × List UInt8 × PartitionReader) :=
  let size := reader.readSize buffer
  let source := source.seek (reader.partition.offset + reader.position).toNat
  let (data, source) := source.read size.toNat
  if (data.length : ℤ) ≠ size then (source, .error "eMMC partition is truncated")
  else (source, .ok (size, data ++ buffer.drop size.toNat, reader.advance buffer))

/-- The bytes of the image that a read asks for. -/
def wanted (source : Source) (reader : PartitionReader) (buffer : List UInt8) : List UInt8 :=
  slice source.image (reader.partition.offset + reader.position).toNat
    (reader.readSize buffer).toNat

/-- **A read** gives all the bytes it asks for, or it fails. -/
theorem readinto_cases (source : Source) (reader : PartitionReader) (buffer : List UInt8) :
    ∃ source', source'.image = source.image ∧
      (readinto source reader buffer = (source', .error "eMMC partition is truncated") ∨
        ((wanted source reader buffer).length : ℤ) = reader.readSize buffer ∧
          readinto source reader buffer = (source', .ok (reader.readSize buffer,
            wanted source reader buffer ++ buffer.drop (reader.readSize buffer).toNat,
            reader.advance buffer))) := by
  refine ⟨((source.seek (reader.partition.offset + reader.position).toNat).read
    (reader.readSize buffer).toNat).2, rfl, ?_⟩
  by_cases hshort : ((wanted source reader buffer).length : ℤ) ≠ reader.readSize buffer
  · left
    exact if_pos hshort
  · right
    exact ⟨not_not.mp hshort, if_neg hshort⟩

/-! ### Calls -/

/-- A call of the reader, or a move of the handle by another user of the image. -/
inductive Call
  | seek (offset whence : ℤ)
  | readinto (buffer : List UInt8)
  | borrowed (position : ℕ)

/-- What a call reports. -/
inductive Outcome
  | moved (position : ℤ)
  | delivered (size : ℤ) (buffer : List UInt8)
  | failed (message : String)
  | none

/-- The bytes that a call delivers. -/
def Outcome.bytes : Outcome → List UInt8
  | .delivered size buffer => buffer.take size.toNat
  | _ => []

def step (source : Source) (reader : PartitionReader) : Call → Source × PartitionReader × Outcome
  | .seek offset whence =>
    match reader.seek offset whence with
    | .ok reader' => (source, reader', .moved reader'.position)
    | .error message => (source, reader, .failed message)
  | .readinto buffer =>
    match readinto source reader buffer with
    | (source', .ok (size, buffer', reader')) => (source', reader', .delivered size buffer')
    | (source', .error message) => (source', reader, .failed message)
  | .borrowed position => (source.seek position, reader, .none)

/-- One call of a run, with the reader before and after it. -/
structure Entry where
  before : PartitionReader
  call : Call
  outcome : Outcome
  after : PartitionReader

/-- The calls in order. -/
def run (source : Source) (reader : PartitionReader) : List Call → List Entry
  | [] => []
  | call :: calls =>
    let (source', reader', outcome) := step source reader call
    ⟨reader, call, outcome, reader'⟩ :: run source' reader' calls

theorem run_cons (source : Source) (reader : PartitionReader) (call : Call) (calls : List Call) :
    run source reader (call :: calls)
      = ⟨reader, call, (step source reader call).2.2, (step source reader call).2.1⟩
        :: run (step source reader call).1 (step source reader call).2.1 calls := rfl

/-- The handle and the reader after the calls. -/
def state (source : Source) (reader : PartitionReader) : List Call → Source × PartitionReader
  | [] => (source, reader)
  | call :: calls => state (step source reader call).1 (step source reader call).2.1 calls

/-- What may be said of a call: it stays in the partition, delivers its bytes from the
position on, and a failure leaves the position where it was. -/
structure Faithful (image : List UInt8) (entry : Entry) : Prop where
  partition : entry.after.partition = entry.before.partition
  inside : entry.before.position + entry.outcome.bytes.length ≤ entry.before.partition.size
  bytes : ∀ index < entry.outcome.bytes.length,
    entry.before.position + index < entry.before.partition.size ∧
    entry.outcome.bytes[index]?
      = image[(entry.before.partition.offset + entry.before.position).toNat + index]?
  position : (∀ position, entry.outcome ≠ .moved position) →
    entry.after.position = entry.before.position + entry.outcome.bytes.length
  failed : ∀ message, entry.outcome = .failed message → entry.after = entry.before

/-- **One call.** -/
theorem step_spec (source : Source) (reader : PartitionReader) (call : Call) :
    (step source reader call).1.image = source.image ∧
      Faithful source.image
        ⟨reader, call, (step source reader call).2.2, (step source reader call).2.1⟩ ∧
      (step source reader call).2.2.bytes
        = slice source.image (reader.partition.offset + reader.position).toNat
          (step source reader call).2.2.bytes.length := by
  have hpos := reader.position_le
  cases call with
  | seek offset whence =>
    rw [step]
    cases hseek : reader.seek offset whence with
    | error message =>
      refine ⟨rfl, ⟨rfl, ?_, ?_, ?_, fun _ _ => rfl⟩, rfl⟩
      · simpa [Outcome.bytes] using hpos
      · intro index hindex
        simp [Outcome.bytes] at hindex
      · intro _
        simp [Outcome.bytes]
    | ok reader' =>
      have hpartition : reader'.partition = reader.partition := by
        rw [PartitionReader.seek] at hseek
        split at hseek
        · cases hseek
        · split at hseek
          · cases hseek
            rfl
          · cases hseek
      refine ⟨rfl, ⟨hpartition, ?_, ?_, ?_, ?_⟩, rfl⟩
      · simpa [Outcome.bytes] using hpos
      · intro index hindex
        simp [Outcome.bytes] at hindex
      · intro hmoved
        exact absurd rfl (hmoved reader'.position)
      · intro message h
        cases h
  | readinto buffer =>
    have hsize := reader.readSize_bounds buffer
    obtain ⟨source', himage, hfailed | ⟨hlength, hread⟩⟩ :=
      readinto_cases source reader buffer
    · rw [step, hfailed]
      refine ⟨himage, ⟨rfl, ?_, ?_, ?_, fun _ _ => rfl⟩, rfl⟩
      · simpa [Outcome.bytes] using hpos
      · intro index hindex
        simp [Outcome.bytes] at hindex
      · intro _
        simp [Outcome.bytes]
    · rw [step, hread]
      have hcount : (wanted source reader buffer).length = (reader.readSize buffer).toNat := by
        omega
      have hbytes : (Outcome.delivered (reader.readSize buffer) (wanted source reader buffer
          ++ buffer.drop (reader.readSize buffer).toNat)).bytes = wanted source reader buffer := by
        rw [Outcome.bytes, ← hcount, List.take_left]
      refine ⟨himage, ⟨rfl, ?_, ?_, ?_, ?_⟩, ?_⟩
      · simp only [hbytes]
        omega
      · simp only [hbytes]
        intro index hindex
        refine ⟨by omega, ?_⟩
        exact LittleEndian.getElem?_slice _ (by omega)
      · intro _
        simp only [hbytes]
        show reader.position + reader.readSize buffer = _
        omega
      · intro message h
        cases h
      · simp only [hbytes]
        rw [hcount]
        rfl
  | borrowed position =>
    refine ⟨rfl, ⟨rfl, ?_, ?_, ?_, fun _ _ => rfl⟩, rfl⟩
    · simpa [step, Outcome.bytes] using hpos
    · intro index hindex
      simp [step, Outcome.bytes] at hindex
    · intro _
      simp [step, Outcome.bytes]

/-- **Every call of a run.** -/
theorem run_spec (source : Source) (reader : PartitionReader) (calls : List Call) :
    ∀ entry ∈ run source reader calls, Faithful source.image entry ∧
      entry.before.partition = reader.partition := by
  induction calls generalizing source reader with
  | nil =>
    intro entry hmem
    cases hmem
  | cons call calls ih =>
    obtain ⟨himage, hstep, -⟩ := step_spec source reader call
    intro entry hmem
    rw [run_cons, List.mem_cons] at hmem
    rcases hmem with rfl | hmem
    · exact ⟨hstep, rfl⟩
    · have hrest := ih (step source reader call).1 (step source reader call).2.1 entry hmem
      rw [himage] at hrest
      exact ⟨hrest.1, hrest.2.trans hstep.partition⟩

theorem state_spec (source : Source) (reader : PartitionReader) (calls : List Call) :
    (state source reader calls).1.image = source.image ∧
      (state source reader calls).2.partition = reader.partition := by
  induction calls generalizing source reader with
  | nil => exact ⟨rfl, rfl⟩
  | cons call calls ih =>
    obtain ⟨himage, hstep, -⟩ := step_spec source reader call
    obtain ⟨himage', hpartition'⟩ := ih (step source reader call).1 (step source reader call).2.1
    exact ⟨himage'.trans himage, hpartition'.trans hstep.partition⟩

/-- The bytes that the calls deliver, in order. -/
def delivered (entries : List Entry) : List UInt8 := entries.flatMap fun entry => entry.outcome.bytes

/-- **Consecutive bytes.**  While no seek succeeds, the delivered bytes are those of the
image from the position of the reader on, and the position counts them. -/
theorem run_delivered (source : Source) (reader : PartitionReader) (calls : List Call)
    (h : ∀ entry ∈ run source reader calls, ∀ position, entry.outcome ≠ .moved position) :
    delivered (run source reader calls)
      = slice source.image (reader.partition.offset + reader.position).toNat
        (delivered (run source reader calls)).length ∧
    (state source reader calls).2.position
      = reader.position + (delivered (run source reader calls)).length := by
  induction calls generalizing source reader with
  | nil => exact ⟨rfl, by simp [state, run, delivered]⟩
  | cons call calls ih =>
    obtain ⟨himage, hstep, hbytes⟩ := step_spec source reader call
    rw [run_cons] at h ⊢
    have hposition := hstep.position (h _ (List.mem_cons_self ..))
    obtain ⟨hrest, hend⟩ := ih (step source reader call).1 (step source reader call).2.1
      fun entry hmem => h entry (List.mem_cons_of_mem _ hmem)
    set first := (step source reader call).2.2.bytes with hfirst
    set rest := delivered (run (step source reader call).1 (step source reader call).2.1 calls)
      with hrestDef
    have hdelivered : delivered (⟨reader, call, (step source reader call).2.2,
        (step source reader call).2.1⟩ ::
          run (step source reader call).1 (step source reader call).2.1 calls) = first ++ rest := by
      rw [delivered, List.flatMap_cons]
      rfl
    simp only at hposition
    have hoffset : (reader.partition.offset
        + (step source reader call).2.1.position).toNat
        = (reader.partition.offset + reader.position).toNat + first.length := by
      have h1 := reader.offset_nonneg
      have h2 := reader.position_nonneg
      rw [hposition]
      omega
    rw [hdelivered, List.length_append]
    constructor
    · rw [LittleEndian.slice_add, ← hbytes]
      rw [himage, hstep.partition, hoffset] at hrest
      rw [← hrest]
    · rw [state, hend, hposition]
      push_cast
      omega

end PartitionReader

end Emmc
