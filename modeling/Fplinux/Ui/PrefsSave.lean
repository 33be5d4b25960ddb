/-
Saving preferences, call by call (`fplinux-ui-prefs.c`).

A save makes the directories that are missing, writes the items to a temporary file, and
renames it over the old one.  The rename is durable once the directory is synchronized, and
with it the directories above, as far up as new ones were made.

The functions are programs that call the kernel (`Lib.Calls`).  Every call may fail with any
error, and before every call others may make directories; nobody removes one.  `history`
remembers what the calls did and what the saves returned, newest first.  A `close` whose
result is ignored is no call here.
-/
import Fplinux.Lib.Calls
import Fplinux.Lib.Run
import Fplinux.Ui.PrefsChanges
import Fplinux.Ui.PrefsPaths

namespace PrefsSave

open Calls (Prog)
open Calls.Prog (attempt fail modify state)
open Clock (StorageState)
open Prefs (State Storage Change writeItems)
open PrefsPaths

abbrev Path := List UInt8

def eNoEnt : ℕ := 2
def eIo : ℕ := 5
def eAccess : ℕ := 13
def eExist : ℕ := 17
def eNotDir : ℕ := 20
def eNameTooLong : ℕ := 36

def pathMax : ℕ := 4096

/-- The directory of preferences, with what `fplinux_ui_prefs_open` checks of it. -/
structure Directory where
  path : Path
  ne : path ≠ []
  /-- `/preferences` fits behind it. -/
  fits : path.length + 12 < pathMax

inductive Event
  /-- A `mkdir` of the first `length` bytes of the directory. -/
  | made (length : ℕ)
  | fileSynced (text : List UInt8)
  | published (text : List UInt8)
  | directorySynced (path : Path)
  | returned (state : StorageState)
  deriving DecidableEq, Repr

/-- `struct fplinux_ui_prefs` with the file it stands for, the paths that exist, the bytes of
the temporary file, and what has happened. -/
structure Store where
  prefs : State
  parentsUnsynced : Bool
  parentSyncStop : ℕ
  present : List Path
  temporary : Option (List UInt8)
  history : List Event

/-- The kernel's answer to a call. -/
structure Answer where
  /-- The error the call fails with. -/
  error : Option ℕ
  /-- The paths that have come to exist since the last call. -/
  appeared : List Path
  /-- `S_ISDIR(status.st_mode)`. -/
  isDirectory : Bool
  /-- `status.st_uid == geteuid()`. -/
  owned : Bool
  /-- `status.st_mode & 07777`. -/
  mode : ℕ
  /-- How many bytes a write that fails has written. -/
  written : ℕ

abbrev Sys := Prog Store Answer ℕ

/-! ### Calls -/

/-- Others make directories. -/
def Store.arrive (s : Store) (appeared : List Path) : Store :=
  { s with present := appeared ++ s.present }

def Store.log (s : Store) (event : Event) : Store := { s with history := event :: s.history }

/-- A call that changes nothing when it fails. -/
def sysCall {α : Type} (f : Answer → Store → Except ℕ α × Store) : Sys α :=
  Prog.call fun answer s =>
    match answer.error with
    | some errno => (.error errno, s.arrive answer.appeared)
    | none => f answer (s.arrive answer.appeared)

/-- Whether there is a directory: `S_ISDIR` of the status. -/
def stat (path : Path) : Sys Bool :=
  sysCall fun answer s =>
    if s.present.contains path then (.ok answer.isDirectory, s) else (.error eNoEnt, s)

/-- `mkdir` of the first `length` bytes. -/
def mkdir (path : Path) (length : ℕ) : Sys Unit :=
  sysCall fun _ s =>
    if s.present.contains (path.take length) then (.error eExist, s)
    else (.ok (), { s.log (.made length) with present := path.take length :: s.present })

/-- A call that does nothing the store can see: `open`, `fchmod`, `fdopen`, `fclose`. -/
def plain : Sys Unit := sysCall fun _ s => (.ok (), s)

/-- Whether the caller owns the directory, and its mode. -/
def fstat : Sys (Bool × ℕ) := sysCall fun answer s => (.ok (answer.owned, answer.mode), s)

def mkostemp : Sys Unit := sysCall fun _ s => (.ok (), { s with temporary := some [] })

def unlink : Sys Unit := sysCall fun _ s => (.ok (), { s with temporary := none })

/-- `write_items`, as far as it gets. -/
def writeFile (text : List UInt8) : Sys Unit :=
  Prog.call fun answer s =>
    match answer.error with
    | some errno =>
      (.error errno,
        { s.arrive answer.appeared with temporary := some (text.take answer.written) })
    | none => (.ok (), { s.arrive answer.appeared with temporary := some text })

def fsyncFile : Sys Unit := sysCall fun _ s => (.ok (), s.log (.fileSynced (s.temporary.getD [])))

/-- The temporary file replaces the preferences. -/
def renameFile : Sys Unit :=
  sysCall fun _ s =>
    match s.temporary with
    | none => (.error eNoEnt, s)
    | some text =>
      (.ok (), { s.log (.published text) with
        prefs := { s.prefs with file := some text }
        temporary := none })

def fsyncDirectory (path : Path) : Sys Unit :=
  sysCall fun _ s => (.ok (), s.log (.directorySynced path))

/-! ### The source -/

def syncDirectory (path : Path) : Sys Unit := do
  plain
  fsyncDirectory path

/-- Remembers how far up the first directory that is made needs synchronizing. -/
def rememberParent (path : Path) (length : ℕ) (s : Store) : Store :=
  if s.parentsUnsynced then s
  else { s with parentSyncStop := parentLength path length, parentsUnsynced := true }

/-- Somebody else may have made the directory in between. -/
def createDirectory (path : Path) (length : ℕ) : Sys Unit := do
  match ← attempt (mkdir path length) with
  | .ok () => modify (rememberParent path length)
  | .error errno => if errno = eExist then pure () else fail errno

def checkDirectory (isDirectory : Bool) : Sys Unit :=
  if isDirectory then pure () else fail eNotDir

def prepareComponent (path : Path) (length : ℕ) : Sys Unit := do
  let isDirectory ← (stat (path.take length)).handle fun errno => do
    if errno ≠ eNoEnt then fail errno
    else
      createDirectory path length
      stat (path.take length)
  checkDirectory isDirectory

/-- One turn of the loop of `prepare_directory`. -/
def prepareAt (path : Path) (length : ℕ) : Sys Unit :=
  if Boundary path length then prepareComponent path length else pure ()

/-- The loop: from a length on, as many as are left. -/
def prepareComponents (path : Path) : ℕ → ℕ → Sys Unit
  | _, 0 => pure ()
  | length, left + 1 => do
    prepareAt path length
    prepareComponents path (length + 1) left

def checkOwner (status : Bool × ℕ) : Sys Unit :=
  if status.1 = false then fail eAccess
  else if status.2 ≠ 0o700 then plain else pure ()

def prepareDirectory (path : Path) : Sys Unit := do
  prepareComponents path 1 path.length
  plain
  let status ← fstat
  checkOwner status

/-- The path that the walk synchronizes at a length. -/
def ancestorPath (path : Path) (length : ℕ) : Path :=
  if length = 0 then [Bytes.byte '.'] else path.take length

/-- One turn of the loop of `sync_publication`: where it goes on, or that it is done. -/
def syncTurn (path : Path) (length : ℕ) : Sys (ℕ ⊕ Unit) := do
  syncDirectory (ancestorPath path length)
  let s ← state
  if s.parentsUnsynced = false ∨ length = s.parentSyncStop then pure (.inr ())
  else if parentLength path length = 0 then do
    syncDirectory (ancestorPath path 0)
    pure (.inr ())
  else pure (.inl (parentLength path length))

def syncPublication (path : Path) : Sys Unit :=
  Prog.repeat' (syncTurn path) (dropSlashes path path.length)

/-- The end of a save, from the label `synchronize` on. -/
def synchronize (path : Path) : Sys Storage := do
  match ← attempt (syncPublication path) with
  | .error errno => pure ⟨.publishedUnsynced, errno⟩
  | .ok () =>
    modify fun s =>
      { s with prefs := { s.prefs with pendingSync := false }, parentsUnsynced := false }
    pure ⟨.durable, 0⟩

/-- A failed stream need not have set `errno`. -/
def orIo (errno : ℕ) : ℕ := if errno = 0 then eIo else errno

/-- Fills the temporary file and renames it. -/
def replaceFile : Sys Unit := do
  -- `fchmod` and `fdopen`
  plain
  plain
  let s ← state
  (do
    writeFile (writeItems s.prefs.items)
    fsyncFile).handle fun errno => fail (orIo errno)
  -- `fclose`
  plain
  renameFile

def discard (errno : ℕ) : Sys Unit := do
  let _ ← attempt unlink
  fail errno

/-- The name is `/.preferences.XXXXXX` behind the directory. -/
def makeTemporary (d : Directory) : Sys Unit :=
  if d.path.length + 20 ≥ pathMax then fail eNameTooLong else mkostemp

/-- Everything up to the rename. -/
def publish (d : Directory) : Sys Unit := do
  prepareDirectory d.path
  makeTemporary d
  replaceFile.handle discard
  modify fun s => { s with prefs := { s.prefs with changed := false, pendingSync := true } }

def save (d : Directory) : Sys Storage := do
  let s ← state
  if s.prefs.changed = false then
    if s.prefs.pendingSync then synchronize d.path else pure ⟨.durable, 0⟩
  else
    match ← attempt (publish d) with
    | .error errno => pure ⟨.unpublished, errno⟩
    | .ok () => synchronize d.path

/-- A save, noted in the history. -/
def callSave (d : Directory) : Sys Storage := do
  let result ← save d
  modify fun s => s.log (.returned result.state)
  pure result

/-! ### Runs -/

inductive Step
  | change (change : Change)
  | save (answers : List Answer)

/-- A save whose answers end before it does is no step: the process has ended in it. -/
def step (d : Directory) (s : Store) : Step → Option Store
  | .change change => some { s with prefs := change.apply s.prefs }
  | .save answers =>
    match callSave d answers s with
    | (.returned _ _, s') => some s'
    | (.failed _ _, _) => none
    | (.stopped, _) => none

/-- Preferences as they are opened. -/
def opened (file : Option (List UInt8)) (present : List Path) : Store where
  prefs := Prefs.load file
  parentsUnsynced := false
  parentSyncStop := 0
  present := present
  temporary := none
  history := []

def machine (d : Directory) : Machine Store Step where
  start s := ∃ file present, s = opened file present
  step s a s' := step d s a = some s'

end PrefsSave
