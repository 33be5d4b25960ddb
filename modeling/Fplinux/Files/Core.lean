/-
File operations (`files-core.c`).

An operation is run until it is done: it publishes its file by a rename or as a
synchronised copy, synchronises the destination directory, removes the source of
a copy that was a move, and synchronises the source directory.  A run that fails
is taken up where it failed by the next one.

The functions are programs that call the kernel (`Lib.Calls`); every call may
fail with any error, and reads and writes may be short.
-/
import Mathlib.Algebra.GroupWithZero.Nat
import Fplinux.Files.Disk
import Fplinux.Lib.Calls

namespace Files

open Calls (Prog)
open Calls.Prog (attempt fail modify state)

inductive Action
  | mkdir
  | rename
  | remove
  | copy
  | move
  deriving DecidableEq, Repr

inductive StorageState
  | unpublished
  | publishedUnsynced
  | durable
  deriving DecidableEq, Repr

inductive SourceState
  | intact
  | removedUnsynced
  | removedDurable
  deriving DecidableEq, Repr

inductive FileStep
  | execute
  | syncDestination
  | unlinkSource
  | syncSource
  | done
  deriving DecidableEq, Repr

/-- `struct fplinux_files_operation`. -/
structure Operation where
  action : Action
  step : FileStep := .execute
  error : ℕ := 0
  state : StorageState := .unpublished
  sourceState : SourceState := .intact
  sourceParent : ℕ
  destinationParent : ℕ
  sourceName : String
  destinationName : String
  sourceMetadata : Stat
  crossDevice : Bool := false
  deriving DecidableEq, Repr

/-- The disk, the operation, the process and the next temporary name.  `leftover`
says whether a call that cleans up has failed. -/
structure World where
  disk : Disk
  operation : Operation
  pid : ℕ
  nextId : ℕ
  leftover : Bool := false

/-- The kernel's answer to a call: an error, or that it does it, `count` bytes of
it where it moves bytes.  A cancellation is asked for when `count` is not zero,
and a directory is empty when it is zero. -/
inductive Answer
  | error (errno : ℕ)
  | done (count : ℕ)
  deriving DecidableEq, Repr

abbrev Sys := Prog World Answer ℕ

/-! ### Calls -/

/-- A call that looks at the disk. -/
def look {α : Type} (f : Disk → ℕ → Except ℕ α) : Sys α :=
  Prog.call fun answer w => match answer with
    | .error errno => (.error errno, w)
    | .done count => (f w.disk count, w)

/-- A call that changes the disk. -/
def act {α : Type} (f : Disk → ℕ → Except ℕ α × Disk) : Sys α :=
  Prog.call fun answer w => match answer with
    | .error errno => (.error errno, w)
    | .done count => ((f w.disk count).1, { w with disk := (f w.disk count).2 })

def fstatat (dir : ℕ) (name : String) : Sys Stat := look fun disk _ => disk.fstatat dir name

def fstat (ino : ℕ) : Sys Stat := look fun disk _ => disk.stat ino

def openat (dir : ℕ) (name : String) : Sys ℕ := look fun disk _ => disk.openat dir name

def close : Sys Unit := look fun _ _ => .ok ()

def read (ino offset capacity : ℕ) : Sys (List UInt8) :=
  look fun disk count => .ok (disk.read ino offset (min count capacity))

/-- `write`, which says how many bytes it took. -/
def write (ino : ℕ) (bytes : List UInt8) : Sys ℕ :=
  act fun disk count =>
    (.ok (min count bytes.length), disk.append ino (bytes.take (min count bytes.length)))

def fsyncFile (ino : ℕ) : Sys Unit := act fun disk _ => (.ok (), disk.syncFile ino)

def fsyncDir (dir : ℕ) : Sys Unit := act fun disk _ => (.ok (), disk.syncDir dir)

def create (dir : ℕ) (name : String) : Sys ℕ := act fun disk _ => disk.create dir name

def mkdirat (dir : ℕ) (name : String) : Sys Unit := act fun disk _ => disk.mkdirat dir name

def unlinkat (dir : ℕ) (name : String) (removeDir : Bool) : Sys Unit :=
  act fun disk count => disk.unlinkat dir name removeDir (count = 0)

/-! ### The functions -/

def setOperation (f : Operation → Operation) : Sys Unit :=
  modify fun w => { w with operation := f w.operation }

def supportedType (metadata : Stat) (allowDirectory : Bool) : Sys Unit :=
  match metadata.kind with
  | .regular => pure ()
  | .directory => if allowDirectory then pure () else fail eIsDir
  | .symlink => fail eLoop
  | .other => fail eOpNotSupp

def renameNoReplace (sourceDir : ℕ) (sourceName : String) (dir : ℕ) (name : String) : Sys Unit :=
  (act fun disk _ => disk.renameNoReplace sourceDir sourceName dir name).handle fun errno =>
    fail (if errno = eNoSys ∨ errno = eInval then eOpNotSupp else errno)

def setMetadata (metadata : Stat) : Sys Unit :=
  setOperation fun operation => { operation with sourceMetadata := metadata }

/-- `open_regular_file` for `source_metadata`. -/
def openRegularFile (parent : ℕ) (name : String) : Sys ℕ := do
  let metadata ← fstatat parent name
  setMetadata metadata
  supportedType metadata false
  let descriptor ← openat parent name
  (do
    let metadata ← fstat descriptor
    setMetadata metadata
    supportedType metadata false
    return descriptor).handle fun errno => do
      let _ ← attempt close
      fail errno

/-- A clean-up call of which the failure is only noted. -/
def cleanUp (p : Sys Unit) : Sys Unit :=
  p.handle fun _ => modify fun w => { w with leftover := true }

def removeCreatedFile (parent : ℕ) (name : String) (created : Stat) : Sys Unit :=
  cleanUp do
    let current ← fstatat parent name
    if current.ino = created.ino then unlinkat parent name false else pure ()

def checkCancelled : Sys Unit :=
  Prog.call fun answer w => match answer with
    | .done 0 => (.ok (), w)
    | _ => (.error eCanceled, w)

/-- The name that `snprintf` makes. -/
def temporaryName (pid id : ℕ) : String := ".fplinux-copy-" ++ toString pid ++ "-" ++ toString id

/-- `create_temporary_file`: the name and the descriptor, after at most `attempts`. -/
def createTemporaryFile (parent : ℕ) (destinationName : String) : ℕ → Sys (String × ℕ)
  | 0 => fail eExist
  | attempts + 1 => do
    let w ← state
    modify fun w => { w with nextId := (w.nextId + 1) % 2 ^ 32 }
    let name := temporaryName w.pid w.nextId
    if name = destinationName then createTemporaryFile parent destinationName attempts
    else
      match ← attempt (create parent name) with
      | .ok descriptor => return (name, descriptor)
      | .error errno =>
        if errno = eExist then createTemporaryFile parent destinationName attempts else fail errno

/-- The inner loop of `copy_open_file`: writes the bytes of a buffer. -/
def writeAll (destination : ℕ) (buffer : List UInt8) : Sys Unit :=
  Prog.repeat' (fun bytes : List UInt8 =>
    if bytes = [] then return .inr ()
    else do
      match ← attempt (write destination bytes) with
      | .error errno => if errno = eIntr then return .inl bytes else fail errno
      | .ok output => if output = 0 then fail eIo else return .inl (bytes.drop output)) buffer

/-- The outer loop: copies from an offset to the end. -/
def copyData (source destination : ℕ) : Sys Unit :=
  Prog.repeat' (fun offset : ℕ => do
    checkCancelled
    match ← attempt (read source offset (64 * 1024)) with
    | .error errno => if errno = eIntr then return .inl offset else fail errno
    | .ok bytes =>
      if bytes = [] then return .inr ()
      else do
        writeAll destination bytes
        return .inl (offset + bytes.length)) 0

/-- The `fsync` of the copy, again when it is interrupted. -/
def syncCopy (destination : ℕ) : Sys Unit :=
  Prog.repeat' (fun _ : Unit => do
    match ← attempt (fsyncFile destination) with
    | .ok () => return .inr ()
    | .error errno =>
      if errno ≠ eIntr then fail errno
      else do
        checkCancelled
        return .inl ()) ()

/-- Fails unless there is no such file. -/
def checkAbsent (dir : ℕ) (name : String) : Sys Unit := do
  match ← attempt (fstatat dir name) with
  | .ok _ => fail eExist
  | .error errno => if errno = eNoEnt then pure () else fail errno

def copyOpenFile (source destinationParent : ℕ) (destinationName : String) : Sys Unit := do
  checkCancelled
  checkAbsent destinationParent destinationName
  let (name, destination) ← createTemporaryFile destinationParent destinationName 32
  let created ← (fstat destination).handle fun errno => do
    let _ ← attempt close
    cleanUp (unlinkat destinationParent name false)
    fail errno
  (do
    copyData source destination
    checkCancelled
    syncCopy destination).handle fun errno => do
      let _ ← attempt close
      removeCreatedFile destinationParent name created
      fail errno
  close.handle fun errno => do
    removeCreatedFile destinationParent name created
    fail errno
  (do
    checkCancelled
    renameNoReplace destinationParent name destinationParent destinationName).handle fun errno => do
      removeCreatedFile destinationParent name created
      fail errno

/-- The end of `execute_operation`: copies the file. -/
def copyFile (operation : Operation) : Sys Unit := do
  let input ← openRegularFile operation.sourceParent operation.sourceName
  let result ← attempt
    (copyOpenFile input operation.destinationParent operation.destinationName)
  let _ ← attempt close
  match result with
  | .ok () => pure ()
  | .error errno => fail errno

def executeOperation : Sys Unit := do
  let operation := (← state).operation
  checkCancelled
  match operation.action with
  | .mkdir => mkdirat operation.destinationParent operation.destinationName
  | .remove =>
    unlinkat operation.sourceParent operation.sourceName
      (operation.sourceMetadata.kind = .directory)
    setOperation fun operation => { operation with sourceState := .removedUnsynced }
  | .copy => copyFile operation
  | .rename | .move =>
    match ← attempt (renameNoReplace operation.sourceParent operation.sourceName
        operation.destinationParent operation.destinationName) with
    | .ok () => setOperation fun operation => { operation with sourceState := .removedUnsynced }
    | .error errno =>
      if operation.action ≠ .move ∨ errno ≠ eXDev then fail errno
      else do
        setOperation fun operation => { operation with crossDevice := true }
        copyFile operation

def syncDirectory (dir : ℕ) : Sys Unit :=
  Prog.repeat' (fun _ : Unit => do
    match ← attempt (fsyncDir dir) with
    | .ok () => return .inr ()
    | .error errno => if errno = eIntr then return .inl () else fail errno) ()

/-- The step of `fplinux_files_operation_run` that executes the operation. -/
def runExecute : Sys Unit := do
  executeOperation
  setOperation fun operation => { operation with
    state := .publishedUnsynced
    step := if operation.action = .remove then .syncSource else .syncDestination }

/-- The step that synchronises the destination directory. -/
def runSyncDestination : Sys Unit := do
  let operation := (← state).operation
  syncDirectory operation.destinationParent
  setOperation fun operation => { operation with
    state := .durable
    step := if operation.crossDevice then .unlinkSource
      else if operation.action = .move ∨ operation.action = .rename then .syncSource else .done }

/-- The step that removes the source of a copy. -/
def runUnlinkSource : Sys Unit := do
  let operation := (← state).operation
  checkCancelled
  let current ← fstatat operation.sourceParent operation.sourceName
  if operation.sourceMetadata.ino ≠ current.ino then fail eStale
  else do
    unlinkat operation.sourceParent operation.sourceName false
    setOperation fun operation => { operation with
      sourceState := .removedUnsynced
      step := .syncSource }

/-- The step that synchronises the source directory. -/
def runSyncSource : Sys Unit := do
  let operation := (← state).operation
  syncDirectory operation.sourceParent
  setOperation fun operation => { operation with
    sourceState := .removedDurable
    state := .durable
    step := .done }

/-- Does a step when the operation has come to it. -/
def whenAt (step : FileStep) (run : Sys Unit) : Sys Unit := do
  if (← state).operation.step = step then run else pure ()

def operationRun : Sys Unit := do
  setOperation fun operation => { operation with error := 0 }
  (do
    whenAt .execute runExecute
    whenAt .syncDestination runSyncDestination
    whenAt .unlinkSource runUnlinkSource
    whenAt .syncSource runSyncSource).handle fun errno => do
      setOperation fun operation => { operation with error := errno }
      fail errno

/-- Any number of runs, whatever they return. -/
def operationRuns : ℕ → Sys Unit
  | 0 => pure ()
  | n + 1 => do
    let _ ← attempt operationRun
    operationRuns n

end Files
