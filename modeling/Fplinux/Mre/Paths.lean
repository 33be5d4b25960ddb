/-
Paths of documents (`runtime-paths.c`).

A document is told from others by the normal form of its path: the form's digest names the
saved state, and its last component is the program.

Main results:
- `normalizePath_eq_ok_iff`: what is accepted, and that its result is the lexical normal form;
- `normalizePath_idem`, `normalizePath_length`: normal forms are kept, and no form is longer;
- `prepare_same`, `state_of_prepare`: what the saved state depends on;
- `documents_by_path`: all of this for two paths.
-/
import Mathlib.Data.List.DropRight
import Fplinux.Lib.Bytes
import Fplinux.Mre.TextCodec

namespace MrePaths

open Bytes (ascii byte)
open List (append_assoc append_nil cons_ne_nil dropWhile_cons_of_pos dropWhile_suffix flatMap_cons
  flatMap_nil length_append length_cons mem_cons_self not_mem_nil)

def pathMax : ℕ := 4096
def nameMax : ℕ := 255
def vfsPathBytes : ℕ := 260

def executableBytes : ℕ := 8 * 1024 * 1024

def eIntr : ℕ := 4
def eIo : ℕ := 5
def eNoExec : ℕ := 8
def eInval : ℕ := 22
def eStale : ℕ := 116

def slash : UInt8 := byte '/'
def dot : List UInt8 := [byte '.']
def dots : List UInt8 := [byte '.', byte '.']

/-! ### `normalize_path` -/

/-- Goes back from `used` bytes to behind the last slash. -/
def lastSlash (normalized : List UInt8) : ℕ → ℕ
  | used + 2 =>
    if normalized[used + 1]? = some slash then used + 2 else lastSlash normalized (used + 1)
  | used => used

/-- `..`: without the last component. -/
def pop (normalized : List UInt8) : List UInt8 :=
  let used := lastSlash normalized normalized.length
  normalized.take (if used > 1 then used - 1 else used)

/-- A component that can be kept. -/
def nameValid (name : List UInt8) : Bool :=
  name.length ≤ nameMax && !name.contains (byte '\\') && !name.contains (byte ':') &&
    (match TextCodec.decode name none with
      | .ok _ => true
      | .error _ => false) &&
    name.all fun b => !(b.toNat < 32 || b.toNat = 127)

/-- Another component. -/
def push (normalized name : List UInt8) : List UInt8 :=
  (if normalized.length > 1 then normalized ++ [slash] else normalized) ++ name

/-- The text behind its slashes is cut at the next one. -/
def component (path : List UInt8) : List UInt8 :=
  (path.dropWhile (· = slash)).takeWhile (· ≠ slash)

def behind (path : List UInt8) : List UInt8 :=
  (path.dropWhile (· = slash)).dropWhile (· ≠ slash)

theorem behind_length (b : UInt8) (path : List UInt8) :
    (behind (b :: path)).length < (b :: path).length := by
  have hrest : ∀ l : List UInt8, (l.dropWhile (· ≠ slash)).length ≤ l.length := fun l =>
    (dropWhile_suffix _).length_le
  rw [behind]
  by_cases hb : b = slash
  · have hdrop : (b :: path).dropWhile (· = slash) = path.dropWhile (· = slash) :=
      dropWhile_cons_of_pos (decide_eq_true hb)
    have hle := (dropWhile_suffix (p := (· = slash)) (l := path)).length_le
    rw [hdrop]
    exact Nat.lt_succ_of_le (Nat.le_trans (hrest _) hle)
  · have hdrop : (b :: path).dropWhile (· = slash) = b :: path :=
      List.dropWhile_cons_of_neg (by simpa using hb)
    have hstep : (b :: path).dropWhile (· ≠ slash) = path.dropWhile (· ≠ slash) :=
      dropWhile_cons_of_pos (by simpa using hb)
    rw [hdrop, hstep]
    exact Nat.lt_succ_of_le (hrest _)

/-- The loop of `normalize_path`. -/
def normalizeLoop (normalized : List UInt8) : List UInt8 → Except ℕ (List UInt8)
  | [] => .ok normalized
  | b :: path =>
    let name := component (b :: path)
    if name = [] ∨ name = dot then normalizeLoop normalized (behind (b :: path))
    else if name = dots then normalizeLoop (pop normalized) (behind (b :: path))
    else if !nameValid name then .error eInval
    else normalizeLoop (push normalized name) (behind (b :: path))
termination_by path => path.length
decreasing_by all_goals exact behind_length b path

/-- `normalize_path`: the normal form, or an errno. -/
def normalizePath (path : List UInt8) : Except ℕ (List UInt8) :=
  if path.head? ≠ some slash ∨ path.length ≥ pathMax then .error eInval
  else normalizeLoop [slash] path

/-! ### `snapshot_executable` -/

/-- What is read of `struct stat`; the times are seconds and nanoseconds. -/
structure Stat where
  regular : Bool
  size : ℤ
  device : ℕ
  inode : ℕ
  mtim : ℤ × ℕ
  ctim : ℤ × ℕ
  deriving DecidableEq, Repr

def sameSnapshotInput (first second : Stat) : Bool :=
  { second with regular := first.regular } = first

/-- What the calls of `snapshot_executable` give.  `counts` is for `read` and `write` in their
order; the calls behind its end fail with `EIO`. -/
structure Program where
  openAt : Except ℕ Unit
  before : Except ℕ Stat
  memfdCreate : Except ℕ ℕ
  counts : List (Except ℕ ℕ)
  after : Except ℕ Stat
  addSeals : Except ℕ Unit

/-- The loops of the copy: `remaining` bytes are still to be read, `unwritten` bytes of the block
to be written.  Gives `errno` and the counts left. -/
def copyProgram (errno : ℕ) : ℕ → ℕ → List (Except ℕ ℕ) → Except ℕ (ℕ × List (Except ℕ ℕ))
  | 0, 0, counts => .ok (errno, counts)
  | _, _, [] => .error eIo
  | remaining, unwritten, .error error :: counts =>
    if error = eIntr then copyProgram error remaining unwritten counts else .error error
  | remaining, 0, .ok count :: counts =>
    if count = 0 then .error eStale
    else
      let count := min count (min remaining 16384)
      copyProgram errno (remaining - count) count counts
  | remaining, unwritten, .ok part :: counts =>
    -- `errno` is what an earlier call left
    if part = 0 then .error errno else copyProgram errno remaining (unwritten - part) counts

/-- A program that has grown is refused with whatever `errno` is. -/
def readTail (errno : ℕ) : List (Except ℕ ℕ) → Except ℕ Unit
  | [] => .error eIo
  | .error error :: counts => if error = eIntr then readTail error counts else .error error
  | .ok tail :: _ => if tail = 0 then .ok () else .error errno

/-- `snapshot_executable`: the sealed copy of a program, or an errno. -/
def snapshotExecutable (errno : ℕ) (program : Program) : Except ℕ ℕ := do
  program.openAt
  let before ← program.before
  if !before.regular || before.size < 12 || executableBytes < before.size then throw eNoExec
  let snapshot ← program.memfdCreate
  let (errno, counts) ← copyProgram errno before.size.toNat 0 program.counts
  readTail errno counts
  let after ← program.after
  if !sameSnapshotInput before after then throw eStale
  program.addSeals
  return snapshot

/-! ### `mre_document_prepare` -/

/-- What the calls of `mre_document_prepare` give: the digest, the root directory, a directory
in a directory, and the program of a name there, with `errno` as it is before the copy. -/
structure Host where
  digest : List UInt8 → Option (List UInt8)
  openRoot : Except ℕ ℕ
  openAt : ℕ → List UInt8 → Except ℕ ℕ
  errno : ℕ
  program : ℕ → List UInt8 → Program

/-- `struct mre_document`. -/
structure Document where
  directoryFd : ℕ
  snapshotFd : ℕ
  path : List UInt8
  name : List UInt8
  stateKey : List UInt8
  deriving DecidableEq, Repr

/-- What `strrchr` finds the start of. -/
def leaf (path : List UInt8) : List UInt8 := path.rtakeWhile (· ≠ slash)

/-- The path without its last component. -/
def folder (path : List UInt8) : List UInt8 :=
  let parentBytes := path.length - (leaf path).length - 1
  path.take (if parentBytes = 0 then 1 else parentBytes)

def lower (b : UInt8) : UInt8 := if byte 'A' ≤ b ∧ b ≤ byte 'Z' then b + 32 else b

/-- The name of a program that fits with what is put behind it. -/
def isProgram (name : List UInt8) : Bool :=
  5 ≤ name.length && name.length + 4 ≤ vfsPathBytes &&
    (name.drop (name.length - 4)).map lower = ascii ".vxp"

/-- `%02x`. -/
def hexDigit (n : ℕ) : UInt8 := if n < 10 then UInt8.ofNat (0x30 + n) else UInt8.ofNat (0x57 + n)

def hex (bytes : List UInt8) : List UInt8 :=
  bytes.flatMap fun b => [hexDigit (b.toNat / 16), hexDigit (b.toNat % 16)]

theorem behindName_length (b : UInt8) (path : List UInt8) :
    ((b :: path).dropWhile (· ≠ slash)).tail.length < (b :: path).length := by
  have hle : ((b :: path).dropWhile (· ≠ slash)).length ≤ (b :: path).length :=
    (dropWhile_suffix _).length_le
  rw [List.length_tail]
  rw [length_cons] at hle ⊢
  omega

/-- Opens the directories of a path, one in the other. -/
def openFolder (host : Host) (directory : ℕ) : List UInt8 → Except ℕ ℕ
  | [] => .ok directory
  | b :: path =>
    match host.openAt directory ((b :: path).takeWhile (· ≠ slash)) with
    | .error error => .error error
    | .ok child => openFolder host child ((b :: path).dropWhile (· ≠ slash)).tail
termination_by path => path.length
decreasing_by exact behindName_length b path

def prepare (host : Host) (path : List UInt8) : Except ℕ Document :=
  match normalizePath path with
  | .error error => .error error
  | .ok normalized =>
    if !isProgram (leaf normalized) then .error eNoExec
    else
      match host.digest normalized with
      | none => .error eIo
      | some digest =>
        if digest.length ≠ 32 then .error eIo
        else
          match host.openRoot with
          | .error error => .error error
          | .ok root =>
            match openFolder host root ((folder normalized).drop 1) with
            | .error error => .error error
            | .ok directory =>
              match snapshotExecutable host.errno (host.program directory (leaf normalized)) with
              | .error error => .error error
              | .ok snapshot =>
                .ok
                  { directoryFd := directory
                    snapshotFd := snapshot
                    path := normalized
                    name := leaf normalized
                    stateKey := hex digest }

/-! ### The lexical normal form -/

/-- One component of a path, on the stack of the components kept before it. -/
def keep (stack : List (List UInt8)) (name : List UInt8) : List (List UInt8) :=
  if name = [] ∨ name = dot then stack else if name = dots then stack.dropLast else stack ++ [name]

/-- The components kept of a path that goes on from a stack. -/
def folded (stack : List (List UInt8)) (path : List UInt8) : List (List UInt8) :=
  (path.splitOn slash).foldl keep stack

/-- The components kept of a path from the root. -/
def lexical (path : List UInt8) : List (List UInt8) := folded [] path

/-- The path with the given components. -/
def render (names : List (List UInt8)) : List UInt8 :=
  if names = [] then [slash] else names.flatMap (slash :: ·)

/-- A component of a normal form. -/
structure IsName (name : List UInt8) : Prop where
  nonempty : name ≠ []
  ne_dot : name ≠ dot
  ne_dots : name ≠ dots
  no_slash : slash ∉ name

def Names (names : List (List UInt8)) : Prop := ∀ name ∈ names, IsName name

/-- A component that is dropped or can be kept. -/
def Fine (name : List UInt8) : Prop :=
  name = [] ∨ name = dot ∨ name = dots ∨ nameValid name = true

def Accepts (path : List UInt8) : Prop := ∀ name ∈ path.splitOn slash, Fine name

section Components

variable {path name rest : List UInt8} {stack names : List (List UInt8)}

theorem splitOn_slash (path : List UInt8) :
    (slash :: path).splitOn slash = [] :: path.splitOn slash :=
  List.splitOn_append_cons_self_of_not_mem not_mem_nil path

theorem folded_slash (stack : List (List UInt8)) (path : List UInt8) :
    folded stack (slash :: path) = folded stack path := by
  rw [folded, splitOn_slash, List.foldl_cons]
  rfl

theorem accepts_slash (path : List UInt8) : Accepts (slash :: path) ↔ Accepts path := by
  rw [Accepts, splitOn_slash, List.forall_mem_cons]
  exact ⟨fun h => h.2, fun h => ⟨.inl rfl, h⟩⟩

/-- What follows a component is nothing or begins with a slash. -/
def Ends (rest : List UInt8) : Prop := rest = [] ∨ ∃ more, rest = slash :: more

theorem folded_name (stack : List (List UInt8)) (hname : slash ∉ name) (hrest : Ends rest) :
    folded stack (name ++ rest) = folded (keep stack name) rest := by
  rcases hrest with rfl | ⟨more, rfl⟩
  · rw [folded, folded, append_nil, List.splitOn_eq_singleton hname, List.splitOn_nil]
    rfl
  · rw [folded_slash, folded, List.splitOn_append_cons_self_of_not_mem hname]
    rfl

theorem accepts_name (hname : slash ∉ name) (hrest : Ends rest) :
    Accepts (name ++ rest) ↔ Fine name ∧ Accepts rest := by
  rcases hrest with rfl | ⟨more, rfl⟩
  · rw [Accepts, Accepts, append_nil, List.splitOn_eq_singleton hname, List.splitOn_nil,
      List.forall_mem_singleton, List.forall_mem_singleton]
    exact ⟨fun h => ⟨h, .inl rfl⟩, fun h => h.1⟩
  · rw [accepts_slash, Accepts, List.splitOn_append_cons_self_of_not_mem hname,
      List.forall_mem_cons]
    rfl

theorem component_no_slash (path : List UInt8) : slash ∉ component path := by
  intro hmem
  have h := List.mem_takeWhile_imp hmem
  simp at h

theorem ends_behind (path : List UInt8) : Ends (behind path) := by
  have hends : ∀ l : List UInt8, Ends (l.dropWhile (· ≠ slash)) := by
    intro l
    induction l with
    | nil => exact .inl rfl
    | cons b l ih =>
      by_cases hb : b = slash
      · subst hb
        exact .inr ⟨l, List.dropWhile_cons_of_neg (by simp)⟩
      · rw [dropWhile_cons_of_pos (by simpa using hb)]
        exact ih
  exact hends _

theorem component_append_behind (path : List UInt8) :
    component path ++ behind path = path.dropWhile (· = slash) :=
  List.takeWhile_append_dropWhile

theorem folded_dropWhile (stack : List (List UInt8)) (path : List UInt8) :
    folded stack (path.dropWhile (· = slash)) = folded stack path ∧
      (Accepts (path.dropWhile (· = slash)) ↔ Accepts path) := by
  induction path with
  | nil => exact ⟨rfl, Iff.rfl⟩
  | cons b path ih =>
    by_cases hb : b = slash
    · subst hb
      have hdrop : (slash :: path).dropWhile (· = slash) = path.dropWhile (· = slash) :=
        dropWhile_cons_of_pos (decide_eq_true rfl)
      rw [hdrop, folded_slash, accepts_slash]
      exact ih
    · have hdrop : (b :: path).dropWhile (· = slash) = b :: path :=
        List.dropWhile_cons_of_neg (by simpa using hb)
      rw [hdrop]
      exact ⟨rfl, Iff.rfl⟩

/-- **One turn of the loop** takes one component off the path. -/
theorem folded_path (stack : List (List UInt8)) (path : List UInt8) :
    folded stack path = folded (keep stack (component path)) (behind path) := by
  rw [← (folded_dropWhile stack path).1, ← component_append_behind,
    folded_name stack (component_no_slash path) (ends_behind path)]

theorem accepts_path (path : List UInt8) :
    Accepts path ↔ Fine (component path) ∧ Accepts (behind path) := by
  rw [← (folded_dropWhile [] path).2, ← component_append_behind,
    accepts_name (component_no_slash path) (ends_behind path)]

theorem Names.keep (h : Names stack) (hname : slash ∉ name) : Names (keep stack name) := by
  rw [MrePaths.keep]
  split
  · exact h
  rename_i hskip
  split
  · exact fun other hmem => h other (List.dropLast_subset _ hmem)
  · rename_i hdots
    rw [not_or] at hskip
    intro other hmem
    rcases List.mem_append.mp hmem with hmem | hmem
    · exact h other hmem
    · rw [List.mem_singleton.mp hmem]
      exact ⟨hskip.1, hskip.2, hdots, hname⟩

end Components

/-! ### The buffer -/

section Buffer

variable {path name result : List UInt8} {stack names : List (List UInt8)}

theorem lastSlash_eq (front : List UInt8) (hname : slash ∉ name) :
    ∀ k ≤ name.length, lastSlash (front ++ slash :: name) (front.length + 1 + k) =
      front.length + 1 := by
  intro k
  induction k with
  | zero =>
    intro _
    cases hfront : front.length with
    | zero => rfl
    | succ n =>
      have hat : (front ++ slash :: name)[n + 1]? = some slash := by
        rw [← hfront, List.getElem?_append_right (Nat.le_refl _), Nat.sub_self]
        rfl
      show lastSlash _ (n + 2) = n + 2
      rw [lastSlash, if_pos hat]
  | succ k ih =>
    intro hk
    have hat : (front ++ slash :: name)[front.length + k + 1]? ≠ some slash := by
      have hindex : front.length + k + 1 - front.length = k + 1 := by omega
      rw [List.getElem?_append_right (by omega), hindex, List.getElem?_cons_succ]
      exact fun h => hname (List.mem_of_getElem? h)
    have hsum : front.length + 1 + (k + 1) = front.length + k + 2 := by omega
    have hback : front.length + k + 1 = front.length + 1 + k := by omega
    rw [hsum, lastSlash, if_neg hat, hback]
    exact ih (Nat.le_of_succ_le hk)

theorem pop_eq (front : List UInt8) (hname : slash ∉ name) :
    pop (front ++ slash :: name) = if front = [] then [slash] else front := by
  have hlength : (front ++ slash :: name).length = front.length + 1 + name.length := by
    rw [length_append, length_cons]
    omega
  rw [pop, hlength, lastSlash_eq front hname _ (Nat.le_refl _)]
  cases front with
  | nil => rfl
  | cons b front =>
    rw [if_neg (cons_ne_nil _ _)]
    show List.take (if (b :: front).length + 1 > 1 then _ else _) _ = _
    rw [if_pos (by simp)]
    exact List.take_left

theorem render_concat (names : List (List UInt8)) (name : List UInt8) :
    render (names ++ [name]) = names.flatMap (slash :: ·) ++ slash :: name := by
  rw [render, if_neg (by simp), List.flatMap_append, flatMap_cons, flatMap_nil,
    append_nil]

theorem pop_render (h : Names stack) : pop (render stack) = render stack.dropLast := by
  rcases List.eq_nil_or_concat stack with rfl | ⟨front, name, rfl⟩
  · rfl
  · rw [List.concat_eq_append] at h ⊢
    have hname := (h name (List.mem_append_right _ mem_cons_self)).no_slash
    rw [render_concat, pop_eq _ hname, List.dropLast_concat, render]
    cases front with
    | nil => rfl
    | cons other front => rw [if_neg (by simp), if_neg (cons_ne_nil _ _)]

theorem push_render (h : Names stack) (name : List UInt8) :
    push (render stack) name = render (stack ++ [name]) := by
  rw [render_concat, push, render]
  cases stack with
  | nil => rfl
  | cons other stack =>
    have hnonempty := List.length_pos_of_ne_nil (h other mem_cons_self).nonempty
    have hlong : ((other :: stack).flatMap (slash :: ·)).length > 1 := by
      rw [flatMap_cons, length_append, length_cons]
      omega
    rw [if_neg (cons_ne_nil _ _), if_pos hlong, append_assoc, List.singleton_append]

/-- **The loop** computes the lexical normal form of what it accepts. -/
theorem normalizeLoop_eq_ok_iff : ∀ {path : List UInt8} {stack : List (List UInt8)}, Names stack →
    (normalizeLoop (render stack) path = .ok result ↔
      Accepts path ∧ result = render (folded stack path)) := by
  intro path
  -- The path gets shorter with every component.
  induction hn : path.length using Nat.strongRecOn generalizing path with
  | ind n ih =>
    intro stack h
    cases path with
    | nil =>
      rw [normalizeLoop, Except.ok.injEq, eq_comm]
      exact ⟨fun heq => ⟨fun name hmem => .inl (List.mem_singleton.mp hmem), heq⟩, fun heq => heq.2⟩
    | cons b path =>
      have hshort : (behind (b :: path)).length < n := hn ▸ behind_length b path
      have hnext := fun {next : List (List UInt8)} (hnext : Names next) =>
        ih _ hshort rfl hnext
      have hslash := component_no_slash (b :: path)
      have hkept := h.keep hslash
      rw [normalizeLoop, accepts_path, folded_path]
      generalize hname : component (b :: path) = name at hslash hkept ⊢
      rw [keep] at hkept ⊢
      by_cases hskip : name = [] ∨ name = dot
      · rw [if_pos hskip] at hkept ⊢
        rw [if_pos hskip, hnext hkept]
        have hfine : Fine name := hskip.elim .inl fun hdot => .inr (.inl hdot)
        exact ⟨fun heq => ⟨⟨hfine, heq.1⟩, heq.2⟩, fun heq => ⟨heq.1.2, heq.2⟩⟩
      rw [if_neg hskip] at hkept ⊢
      by_cases hdots : name = dots
      · rw [if_pos hdots] at hkept ⊢
        rw [if_neg hskip, if_pos hdots, pop_render h, hnext hkept]
        have hfine : Fine name := .inr (.inr (.inl hdots))
        exact ⟨fun heq => ⟨⟨hfine, heq.1⟩, heq.2⟩, fun heq => ⟨heq.1.2, heq.2⟩⟩
      rw [if_neg hdots] at hkept ⊢
      rw [if_neg hskip, if_neg hdots]
      rw [not_or] at hskip
      cases hvalid : nameValid name with
      | false =>
        refine iff_of_false (fun heq => by cases heq) fun heq => ?_
        rcases heq.1.1 with hempty | hdot | hback | hgood
        · exact hskip.1 hempty
        · exact hskip.2 hdot
        · exact hdots hback
        · exact Bool.false_ne_true (hvalid.symm.trans hgood)
      | true =>
        rw [Bool.not_true, if_neg Bool.false_ne_true, push_render h, hnext hkept]
        have hfine : Fine name := .inr (.inr (.inr hvalid))
        exact ⟨fun heq => ⟨⟨hfine, heq.1⟩, heq.2⟩, fun heq => ⟨heq.1.2, heq.2⟩⟩

/-- **What is accepted** has its lexical normal form. -/
theorem normalizePath_eq_ok_iff (path result : List UInt8) :
    normalizePath path = .ok result ↔
      (path.head? = some slash ∧ path.length < pathMax ∧ Accepts path) ∧
        result = render (lexical path) := by
  have hloop := @normalizeLoop_eq_ok_iff result path [] fun _ hmem => absurd hmem not_mem_nil
  rw [normalizePath]
  by_cases hbad : path.head? ≠ some slash ∨ path.length ≥ pathMax
  · rw [if_pos hbad]
    refine iff_of_false (fun heq => by cases heq) fun h => ?_
    rcases hbad with hhead | hlong
    · exact hhead h.1.1
    · exact absurd h.1.2.1 (Nat.not_lt.mpr hlong)
  · rw [if_neg hbad]
    rw [not_or, not_not, Nat.not_le] at hbad
    refine hloop.trans ⟨fun h => ⟨⟨hbad.1, hbad.2, h.1⟩, h.2⟩, fun h => ⟨h.1.2.2, h.2⟩⟩

end Buffer

/-! ### Normal forms -/

section NormalForm

variable {path result : List UInt8} {stack names : List (List UInt8)}

theorem names_folded : ∀ {path : List UInt8} {stack : List (List UInt8)}, Names stack →
    Names (folded stack path) := by
  intro path
  induction hn : path.length using Nat.strongRecOn generalizing path with
  | ind n ih =>
    intro stack h
    cases path with
    | nil => exact h
    | cons b path =>
      rw [folded_path]
      exact ih _ (hn ▸ behind_length b path) rfl (h.keep (component_no_slash _))

theorem names_lexical (path : List UInt8) : Names (lexical path) :=
  names_folded fun _ hmem => absurd hmem not_mem_nil

theorem keep_of_isName {name : List UInt8} (h : IsName name) (stack : List (List UInt8)) :
    keep stack name = stack ++ [name] := by
  rw [keep, if_neg (not_or.mpr ⟨h.nonempty, h.ne_dot⟩), if_neg h.ne_dots]

theorem ends_flatMap (names : List (List UInt8)) : Ends (names.flatMap (slash :: ·)) := by
  cases names with
  | nil => exact .inl rfl
  | cons name names => exact .inr ⟨_, flatMap_cons⟩

theorem folded_names : ∀ {names : List (List UInt8)}, Names names → ∀ stack,
    folded stack (names.flatMap (slash :: ·)) = stack ++ names ∧
      (Accepts (names.flatMap (slash :: ·)) ↔ ∀ name ∈ names, Fine name) := by
  intro names
  induction names with
  | nil =>
    intro _ stack
    refine ⟨(append_nil stack).symm, ?_⟩
    exact iff_of_true (fun name hmem => .inl (List.mem_singleton.mp hmem))
      fun name hmem => absurd hmem not_mem_nil
  | cons name names ih =>
    intro h stack
    have hname := h name mem_cons_self
    obtain ⟨hfolded, haccepts⟩ := ih (fun other hmem => h other (List.mem_cons_of_mem _ hmem))
      (stack ++ [name])
    rw [flatMap_cons, List.cons_append, folded_slash, accepts_slash,
      folded_name stack hname.no_slash (ends_flatMap names), keep_of_isName hname, hfolded,
      accepts_name hname.no_slash (ends_flatMap names), haccepts, append_assoc,
      List.forall_mem_cons]
    exact ⟨rfl, Iff.rfl⟩

theorem folded_render (h : Names names) :
    lexical (render names) = names ∧ (Accepts (render names) ↔ ∀ name ∈ names, Fine name) := by
  obtain ⟨hfolded, haccepts⟩ := folded_names h []
  cases names with
  | nil =>
    rw [render, if_pos rfl, lexical, folded_slash, accepts_slash]
    exact ⟨hfolded, haccepts⟩
  | cons name names =>
    rw [render, if_neg (cons_ne_nil _ _)]
    exact ⟨hfolded, haccepts⟩

theorem fine_folded : ∀ {path : List UInt8} {stack : List (List UInt8)}, Accepts path →
    (∀ name ∈ stack, Fine name) → ∀ name ∈ folded stack path, Fine name := by
  intro path
  induction hn : path.length using Nat.strongRecOn generalizing path with
  | ind n ih =>
    intro stack haccepts hstack
    cases path with
    | nil => exact hstack
    | cons b path =>
      obtain ⟨hfine, hrest⟩ := (accepts_path _).mp haccepts
      rw [folded_path]
      refine ih _ (hn ▸ behind_length b path) rfl hrest ?_
      rw [keep]
      split
      · exact hstack
      split
      · exact fun name hmem => hstack name (List.dropLast_subset _ hmem)
      · intro name hmem
        rcases List.mem_append.mp hmem with hmem | hmem
        · exact hstack name hmem
        · rw [List.mem_singleton.mp hmem]
          exact hfine

theorem length_keep (stack : List (List UInt8)) (name : List UInt8) :
    ((keep stack name).flatMap (slash :: ·)).length ≤
      (stack.flatMap (slash :: ·)).length + (name.length + 1) := by
  rw [keep]
  split
  · exact Nat.le_add_right _ _
  split
  · rcases List.eq_nil_or_concat stack with rfl | ⟨front, last, rfl⟩
    · exact Nat.le_add_right _ _
    · rw [List.concat_eq_append, List.dropLast_concat, List.flatMap_append, length_append,
        Nat.add_assoc]
      exact Nat.le_add_right _ _
  · rw [List.flatMap_append, length_append, flatMap_cons, flatMap_nil,
      append_nil, length_cons]

theorem length_folded : ∀ {path : List UInt8}, Ends path → ∀ stack,
    ((folded stack path).flatMap (slash :: ·)).length ≤
      (stack.flatMap (slash :: ·)).length + path.length := by
  intro path
  induction hn : path.length using Nat.strongRecOn generalizing path with
  | ind n ih =>
    intro hends stack
    rcases hends with rfl | ⟨more, rfl⟩
    · exact Nat.le_add_right _ _
    · have hdrop : (slash :: more).dropWhile (· = slash) = more.dropWhile (· = slash) :=
        dropWhile_cons_of_pos (decide_eq_true rfl)
      have hsuffix := (dropWhile_suffix (p := (· = slash)) (l := more)).length_le
      have hsplit := congrArg List.length (component_append_behind (slash :: more))
      rw [length_append, hdrop] at hsplit
      have hkeep := length_keep stack (component (slash :: more))
      have hrest := ih _ (hn ▸ behind_length slash more) rfl (ends_behind _)
        (keep stack (component (slash :: more)))
      rw [folded_path]
      rw [length_cons] at hn
      omega

/-- **No normal form is longer** than the path. -/
theorem normalizePath_length (h : normalizePath path = .ok result) :
    result.length ≤ path.length := by
  obtain ⟨⟨hhead, -, -⟩, rfl⟩ := (normalizePath_eq_ok_iff _ _).mp h
  obtain ⟨more, rfl⟩ := List.head?_eq_some_iff.mp hhead
  have hle := @length_folded (slash :: more) (.inr ⟨more, rfl⟩) []
  rw [flatMap_nil, List.length_nil, Nat.zero_add] at hle
  rw [render]
  split
  · exact Nat.succ_le_succ (Nat.zero_le _)
  · exact hle

/-- **Normal forms are kept.** -/
theorem normalizePath_idem (h : normalizePath path = .ok result) :
    normalizePath result = .ok result := by
  have hlength := normalizePath_length h
  obtain ⟨⟨hhead, hlong, haccepts⟩, rfl⟩ := (normalizePath_eq_ok_iff _ _).mp h
  obtain ⟨hsame, hfine⟩ := folded_render (names_lexical path)
  refine (normalizePath_eq_ok_iff _ _).mpr ⟨⟨?_, Nat.lt_of_le_of_lt hlength hlong, ?_⟩, ?_⟩
  · rw [render]
    split
    · rfl
    · rename_i hne
      obtain ⟨name, names, hnames⟩ := List.exists_cons_of_ne_nil hne
      rw [hnames]
      rfl
  · exact hfine.mpr (fine_folded haccepts fun _ hmem => absurd hmem not_mem_nil)
  · rw [hsame]

theorem render_injective {other : List (List UInt8)} (h : Names names) (hother : Names other)
    (heq : render names = render other) : names = other := by
  rw [← (folded_render h).1, heq, (folded_render hother).1]

theorem leaf_render (h : Names names) : leaf (render names) = names.getLast?.getD [] := by
  rcases List.eq_nil_or_concat names with rfl | ⟨front, name, rfl⟩
  · rfl
  · rw [List.concat_eq_append] at h ⊢
    have hslash := (h name (List.mem_append_right _ mem_cons_self)).no_slash
    rw [render_concat, List.getLast?_concat, leaf, List.rtakeWhile, List.reverse_append,
      List.reverse_cons, append_assoc, List.takeWhile_append_of_pos]
    · rw [List.singleton_append, List.takeWhile_cons_of_neg (by simp), append_nil,
        List.reverse_reverse]
      rfl
    · intro b hb
      have hne : b ≠ slash := fun hsame => hslash (hsame ▸ List.mem_reverse.mp hb)
      simpa using hne

end NormalForm

/-! ### Documents -/

/-- **What a document depends on** is the normal form of its path. -/
theorem prepare_same (host : Host) {path other normalized : List UInt8}
    (h : normalizePath path = .ok normalized) (hother : normalizePath other = .ok normalized) :
    prepare host other = prepare host path := by
  rw [prepare, prepare, h, hother]

/-- **The saved state** is named by the digest of the normal form. -/
theorem state_of_prepare {host : Host} {path : List UInt8} {document : Document}
    (h : prepare host path = .ok document) :
    ∃ digest, normalizePath path = .ok document.path ∧ document.name = leaf document.path ∧
      host.digest document.path = some digest ∧ document.stateKey = hex digest := by
  rw [prepare] at h
  split at h
  · cases h
  rename_i normalized hnormalized
  split at h
  · cases h
  split at h
  · cases h
  rename_i digest hdigest
  split at h
  · cases h
  split at h
  · cases h
  split at h
  · cases h
  split at h
  · cases h
  · obtain rfl := Except.ok.inj h
    exact ⟨digest, hnormalized, rfl, hdigest, rfl⟩

/-- **Documents by their paths.**  The normal form of an accepted path is the lexical one: its
components are those of the path without the empty ones and `.`, with each `..` taking the one
before it away.  It is its own normal form and no longer than the path.  Two spellings of one
lexical path are one document; the documents of two lexical paths have distinct paths, and the
path is what is digested. -/
theorem documents_by_path {path normalized : List UInt8}
    (h : normalizePath path = .ok normalized) :
    normalized = render (lexical path) ∧
    Names (lexical path) ∧
    normalizePath normalized = .ok normalized ∧
    normalized.length ≤ path.length ∧
    (∀ other result, normalizePath other = .ok result →
      (result = normalized ↔ lexical other = lexical path)) ∧
    (∀ host other result, normalizePath other = .ok result → lexical other = lexical path →
      prepare host other = prepare host path) ∧
    (∀ host document, prepare host path = .ok document →
      document.path = normalized ∧ document.name = (lexical path).getLast?.getD [] ∧
        ∃ digest, host.digest normalized = some digest ∧ document.stateKey = hex digest) := by
  obtain ⟨-, hrender⟩ := (normalizePath_eq_ok_iff _ _).mp h
  have hnames := names_lexical path
  refine ⟨hrender, hnames, normalizePath_idem h, normalizePath_length h, ?_, ?_, ?_⟩
  · intro other result hother
    obtain ⟨-, hresult⟩ := (normalizePath_eq_ok_iff _ _).mp hother
    rw [hresult, hrender]
    exact ⟨render_injective (names_lexical other) hnames, congrArg render⟩
  · intro host other result hother hsame
    obtain ⟨-, hresult⟩ := (normalizePath_eq_ok_iff _ _).mp hother
    rw [hsame, ← hrender] at hresult
    exact prepare_same host h (hresult ▸ hother)
  · intro host document hdocument
    obtain ⟨digest, hnormalized, hname, hdigest, hkey⟩ := state_of_prepare hdocument
    obtain rfl := Except.ok.inj (h.symm.trans hnormalized)
    refine ⟨rfl, ?_, digest, hdigest, hkey⟩
    rw [hname, hrender, leaf_render hnames]

/-- A path with everything that is dropped. -/
theorem documents_by_path_game :
    lexical (ascii "//mre/./a/..//game.vxp") =
      [ascii "mre", ascii "game.vxp"] ∧
    normalizePath (ascii "/mre/game.vxp") = .ok (ascii "/mre/game.vxp") := by
  have hlexical : lexical (ascii "//mre/./a/..//game.vxp") =
      [ascii "mre", ascii "game.vxp"] := by decide +kernel
  have haccepts : Accepts (ascii "//mre/./a/..//game.vxp") := by
    unfold Accepts Fine
    decide +kernel
  have h : normalizePath (ascii "//mre/./a/..//game.vxp") =
      .ok (ascii "/mre/game.vxp") :=
    (normalizePath_eq_ok_iff _ _).mpr
      ⟨⟨by decide +kernel, by decide +kernel, haccepts⟩, by rw [hlexical]; decide +kernel⟩
  exact ⟨hlexical, (documents_by_path h).2.2.1⟩

end MrePaths
