/-
Directories, files and the system calls on them.

A file is known by its number, which stands for the device and inode numbers of
its metadata, and a directory by its descriptor; the entries of a directory are
the names that are taken.  Beside what programs see the disk keeps what is
stable: what of a file and of the entries of a directory was there when it was
last synchronised.

A call that the kernel refuses changes nothing.  What the kernel does otherwise
is a function of the disk here; whether it does it comes with its answer.
-/
import Mathlib.Data.Nat.Notation
import Mathlib.Logic.Function.Basic

namespace Files

/-! Values of `errno`. -/

def eNoEnt : ℕ := 2
def eIntr : ℕ := 4
def eIo : ℕ := 5
def eExist : ℕ := 17
def eXDev : ℕ := 18
def eIsDir : ℕ := 21
def eInval : ℕ := 22
def eNoSys : ℕ := 38
def eNotEmpty : ℕ := 39
def eLoop : ℕ := 40
def eOpNotSupp : ℕ := 95
def eStale : ℕ := 116
def eCanceled : ℕ := 125

inductive Kind
  | regular
  | directory
  | symlink
  | other
  deriving DecidableEq, Repr

/-- A file, and what of it is stable. -/
structure File where
  kind : Kind
  content : List UInt8 := []
  stable : List UInt8 := []
  deriving DecidableEq, Repr

/-- A directory: its device, its entries and those that are stable. -/
structure Dir where
  device : ℕ
  entries : String → Option ℕ
  stable : String → Option ℕ

/-- What `fstat` and `fstatat` say of a file (`struct stat`). -/
structure Stat where
  ino : ℕ
  kind : Kind
  size : ℕ
  deriving DecidableEq, Repr

/-- The files by number and the directories by descriptor. -/
structure Disk where
  files : List File
  dirs : ℕ → Dir

namespace Disk

def lookup (disk : Disk) (dir : ℕ) (name : String) : Option ℕ := (disk.dirs dir).entries name

def addFile (disk : Disk) (kind : Kind) : Disk :=
  { disk with files := disk.files ++ [{ kind := kind }] }

def setEntry (disk : Disk) (dir : ℕ) (name : String) (entry : Option ℕ) : Disk :=
  { disk with
    dirs := Function.update disk.dirs dir
      { disk.dirs dir with entries := Function.update (disk.dirs dir).entries name entry } }

def stat (disk : Disk) (ino : ℕ) : Except ℕ Stat :=
  match disk.files[ino]? with
  | some file => .ok ⟨ino, file.kind, file.content.length⟩
  | none => .error eNoEnt

/-- `fstatat` with `AT_SYMLINK_NOFOLLOW`. -/
def fstatat (disk : Disk) (dir : ℕ) (name : String) : Except ℕ Stat :=
  match disk.lookup dir name with
  | some ino => disk.stat ino
  | none => .error eNoEnt

/-- `openat` with `O_RDONLY | O_NOFOLLOW`. -/
def openat (disk : Disk) (dir : ℕ) (name : String) : Except ℕ ℕ :=
  match disk.lookup dir name with
  | none => .error eNoEnt
  | some ino => if (disk.files[ino]?.map (·.kind)) = some .symlink then .error eLoop else .ok ino

/-- `openat` with `O_CREAT | O_EXCL`. -/
def create (disk : Disk) (dir : ℕ) (name : String) : Except ℕ ℕ × Disk :=
  if (disk.lookup dir name).isSome then (.error eExist, disk)
  else
    (.ok disk.files.length, (disk.addFile .regular).setEntry dir name (some disk.files.length))

def mkdirat (disk : Disk) (dir : ℕ) (name : String) : Except ℕ Unit × Disk :=
  if (disk.lookup dir name).isSome then (.error eExist, disk)
  else
    (.ok (), (disk.addFile .directory).setEntry dir name (some disk.files.length))

/-- `read` of at most `count` bytes, and of at least one before the end. -/
def read (disk : Disk) (ino offset count : ℕ) : List UInt8 :=
  (((disk.files[ino]?.map (·.content)).getD []).drop offset).take (max 1 count)

/-- `write` of bytes at the end. -/
def append (disk : Disk) (ino : ℕ) (bytes : List UInt8) : Disk :=
  { disk with
    files := disk.files.modify ino fun file => { file with content := file.content ++ bytes } }

/-- `fsync` of a file. -/
def syncFile (disk : Disk) (ino : ℕ) : Disk :=
  { disk with files := disk.files.modify ino fun file => { file with stable := file.content } }

/-- `fsync` of a directory. -/
def syncDir (disk : Disk) (dir : ℕ) : Disk :=
  { disk with
    dirs := Function.update disk.dirs dir
      { disk.dirs dir with stable := (disk.dirs dir).entries } }

/-- `renameat2` with `RENAME_NOREPLACE`. -/
def renameNoReplace (disk : Disk) (sourceDir : ℕ) (sourceName : String) (dir : ℕ)
    (name : String) : Except ℕ Unit × Disk :=
  if (disk.dirs sourceDir).device ≠ (disk.dirs dir).device then (.error eXDev, disk)
  else
    match disk.lookup sourceDir sourceName with
    | none => (.error eNoEnt, disk)
    | some ino =>
      if (disk.lookup dir name).isSome then (.error eExist, disk)
      else (.ok (), (disk.setEntry sourceDir sourceName none).setEntry dir name (some ino))

/-- `unlinkat`; `empty` says whether a directory may be removed. -/
def unlinkat (disk : Disk) (dir : ℕ) (name : String) (removeDir empty : Bool) :
    Except ℕ Unit × Disk :=
  match disk.lookup dir name with
  | none => (.error eNoEnt, disk)
  | some ino =>
    if (disk.files[ino]?.map (·.kind)) = some .directory then
      if removeDir = false then (.error eIsDir, disk)
      else if empty = false then (.error eNotEmpty, disk)
      else (.ok (), disk.setEntry dir name none)
    else if removeDir then (.error eInval, disk)
    else (.ok (), disk.setEntry dir name none)

end Disk

end Files
