/-
A copy loses no data (`files-core.c`).

`Safe` says what holds between any two system calls of any number of runs of an
operation, however the calls answer.  Until a file is published the disk is as
at the start, but for new files under temporary names (`Pending`).

Main results:
- `ensures_copyData`, `ensures_syncCopy`: the copy holds what the source holds, and it is stable;
- `ensures_copyOpenFile`: the copy is in place, or nothing is and the temporary file is gone.
-/
import Fplinux.Files.Core

namespace Files

open Calls.Prog
open Function (update_of_ne update_self)

/-! ### The disk -/

namespace Disk

variable {disk : Disk} {dir dir' ino : ℕ} {name name' : String}

theorem lookup_setEntry (entry : Option ℕ) :
    (disk.setEntry dir name entry).lookup dir' name' =
      if dir' = dir ∧ name' = name then entry else disk.lookup dir' name' := by
  simp only [lookup, setEntry]
  by_cases hdir : dir' = dir
  · subst hdir
    rw [update_self]
    show Function.update (disk.dirs dir').entries name entry name' = _
    by_cases hname : name' = name
    · subst hname
      rw [update_self, if_pos ⟨rfl, rfl⟩]
    · rw [update_of_ne hname, if_neg fun h => hname h.2]
  · rw [update_of_ne hdir, if_neg fun h => hdir h.1]

theorem device_setEntry (entry : Option ℕ) :
    ((disk.setEntry dir name entry).dirs dir').device = (disk.dirs dir').device := by
  simp only [setEntry]
  by_cases hdir : dir' = dir
  · subst hdir
    rw [update_self]
  · rw [update_of_ne hdir]

theorem stable_setEntry (entry : Option ℕ) :
    ((disk.setEntry dir name entry).dirs dir').stable = (disk.dirs dir').stable := by
  simp only [setEntry]
  by_cases hdir : dir' = dir
  · subst hdir
    rw [update_self]
  · rw [update_of_ne hdir]

theorem lookup_syncDir : (disk.syncDir dir).lookup dir' name' = disk.lookup dir' name' := by
  simp only [lookup, syncDir]
  by_cases hdir : dir' = dir
  · subst hdir
    rw [update_self]
  · rw [update_of_ne hdir]

theorem stable_syncDir :
    ((disk.syncDir dir).dirs dir').stable =
      if dir' = dir then (disk.dirs dir').entries else (disk.dirs dir').stable := by
  simp only [syncDir]
  by_cases hdir : dir' = dir
  · subst hdir
    rw [update_self, if_pos rfl]
  · rw [update_of_ne hdir, if_neg hdir]

theorem prefix_modify {files : List File} (h : files <+: disk.files) (hino : files.length ≤ ino)
    (f : File → File) : files <+: disk.files.modify ino f := by
  rw [List.prefix_iff_getElem?] at h ⊢
  intro i hi
  rw [List.getElem?_modify, h i hi]
  exact congrArg some (if_neg (by omega))

end Disk

/-! ### The calls -/

variable {α : Type} {Q : α → World → Prop} {E : ℕ → World → Prop} {C : World → Prop} {w : World}

theorem ensures_look {f : Disk → ℕ → Except ℕ α} (hstop : C w) (herror : ∀ errno, E errno w)
    (hdone : ∀ count value, f w.disk count = .ok value → Q value w) :
    (look f).Ensures Q E C w := by
  refine ensures_call hstop fun answer => ?_
  cases answer with
  | error errno => exact herror errno
  | done count =>
    cases hf : f w.disk count with
    | error errno =>
      simp only [hf]
      exact herror errno
    | ok value =>
      simp only [hf]
      exact hdone count value hf

theorem ensures_act {f : Disk → ℕ → Except ℕ α × Disk} (hstop : C w)
    (herror : ∀ errno, E errno w)
    (hdone : ∀ count, match f w.disk count with
      | (.ok value, disk) => Q value { w with disk := disk }
      | (.error errno, disk) => E errno { w with disk := disk }) : (act f).Ensures Q E C w := by
  refine ensures_call hstop fun answer => ?_
  cases answer with
  | error errno => exact herror errno
  | done count =>
    have hrun := hdone count
    cases hf : f w.disk count with
    | mk result disk =>
    rw [hf] at hrun
    cases result with
    | error errno =>
      simp only [hf]
      exact hrun
    | ok value =>
      simp only [hf]
      exact hrun

theorem ensures_checkCancelled {Q : Unit → World → Prop} (hstop : C w)
    (herror : ∀ errno, E errno w) (hgoes : Q () w) : checkCancelled.Ensures Q E C w := by
  refine ensures_call hstop fun answer => ?_
  split
  · rename_i value w' heq
    split at heq
    · obtain ⟨-, rfl⟩ := Prod.mk.inj heq
      exact hgoes
    · exact absurd (Prod.mk.inj heq).1 nofun
  · rename_i errno w' heq
    split at heq
    · exact absurd (Prod.mk.inj heq).1 nofun
    · obtain ⟨-, rfl⟩ := Prod.mk.inj heq
      exact herror errno

theorem ensures_attempt_close {Q : Except ℕ Unit → World → Prop} (hstop : C w)
    (hgoes : ∀ result, Q result w) : (attempt close).Ensures Q E C w :=
  ensures_attempt (ensures_look hstop (fun _ => hgoes _) fun _ _ _ => hgoes _)

theorem ensures_setOperation {f : Operation → Operation} {Q : Unit → World → Prop}
    (h : Q () { w with operation := f w.operation }) : (setOperation f).Ensures Q E C w :=
  ensures_modify h

theorem ensures_supportedType {metadata : Stat} {allow : Bool} {Q : Unit → World → Prop}
    (herror : ∀ errno, E errno w) (hgoes : Q () w) :
    (supportedType metadata allow).Ensures Q E C w := by
  rw [supportedType]
  split
  · exact ensures_pure hgoes
  · split
    · exact ensures_pure hgoes
    · exact ensures_fail (herror _)
  · exact ensures_fail (herror _)
  · exact ensures_fail (herror _)

/-! ### What holds at every point -/

/-- The operation as it is when it has been opened on a file. -/
structure Opened (w : World) (ino : ℕ) (file : File) : Prop where
  action : w.operation.action = .copy ∨ w.operation.action = .move ∨ w.operation.action = .rename
  source : w.disk.lookup w.operation.sourceParent w.operation.sourceName = some ino
  file : w.disk.files[ino]? = some file
  step : w.operation.step = .execute
  state : w.operation.state = .unpublished
  sourceState : w.operation.sourceState = .intact
  /-- Only a move crosses devices; a fresh operation has not. -/
  crossDevice : w.operation.crossDevice = true → w.operation.action = .move

/-- The file of a copy, with its data synchronised. -/
def copyOf (file : File) : File where
  kind := .regular
  content := file.content
  stable := file.content

/-- **Between any two calls**, for an operation opened in `w₀` on a file. -/
structure Safe (w₀ : World) (ino : ℕ) (file : File) (w : World) : Prop where
  /-- The source is there, or the destination is the file or a copy of it. -/
  noLoss : w.disk.lookup w₀.operation.sourceParent w₀.operation.sourceName = some ino ∨
    ∃ k file', w.disk.lookup w₀.operation.destinationParent w₀.operation.destinationName = some k ∧
      w.disk.files[k]? = some file' ∧ file'.content = file.content
  /-- Across devices the source goes only when the copy is stable under its name. -/
  crossDevice : (w₀.disk.dirs w₀.operation.sourceParent).device ≠
      (w₀.disk.dirs w₀.operation.destinationParent).device →
    w.disk.lookup w₀.operation.sourceParent w₀.operation.sourceName = some ino ∨
      ∃ k, w.disk.lookup w₀.operation.destinationParent w₀.operation.destinationName = some k ∧
        (w.disk.dirs w₀.operation.destinationParent).stable w₀.operation.destinationName = some k ∧
        w.disk.files[k]? = some (copyOf file)
  /-- No file that was there is written. -/
  files : w₀.disk.files <+: w.disk.files
  /-- No name but the source's is taken from its file. -/
  replaced : ∀ dir name k, w₀.disk.lookup dir name = some k →
    w.disk.lookup dir name = some k ∨
      (dir = w₀.operation.sourceParent ∧ name = w₀.operation.sourceName ∧
        w₀.disk.lookup w₀.operation.destinationParent w₀.operation.destinationName = none)
  published : w.operation.state ≠ .unpublished →
    ∃ k file', w.disk.lookup w₀.operation.destinationParent w₀.operation.destinationName = some k ∧
      w.disk.files[k]? = some file' ∧ file'.content = file.content
  durable : w.operation.state = .durable →
    ∃ k, w.disk.lookup w₀.operation.destinationParent w₀.operation.destinationName = some k ∧
      (w.disk.dirs w₀.operation.destinationParent).stable w₀.operation.destinationName = some k ∧
      (k = ino ∨ w.disk.files[k]? = some (copyOf file))
  removed : w.operation.sourceState ≠ .intact →
    w.disk.lookup w₀.operation.sourceParent w₀.operation.sourceName = none
  removedDurable : w.operation.sourceState = .removedDurable →
    (w.disk.dirs w₀.operation.sourceParent).stable w₀.operation.sourceName = none

/-- No name is taken that was free, but for the destination's, unless a clean-up failed. -/
def Clean (w₀ w : World) : Prop :=
  w.leftover = false → ∀ dir name, w₀.disk.lookup dir name = none →
    w.disk.lookup dir name = none ∨
      (dir = w₀.operation.destinationParent ∧ name = w₀.operation.destinationName)

/-- The operation still has its files. -/
structure SameTarget (operation operation' : Operation) : Prop where
  action : operation'.action = operation.action
  sourceParent : operation'.sourceParent = operation.sourceParent
  sourceName : operation'.sourceName = operation.sourceName
  destinationParent : operation'.destinationParent = operation.destinationParent
  destinationName : operation'.destinationName = operation.destinationName
  crossDevice : operation'.crossDevice = true → operation'.action = .move
  crossed : operation.crossDevice = true → operation'.crossDevice = true

/-- **Nothing is published**: the disk is as at the start, but for new files and
perhaps a temporary name. -/
structure Pending (w₀ : World) (temporary : Option String) (w : World) : Prop where
  target : SameTarget w₀.operation w.operation
  step : w.operation.step = .execute
  state : w.operation.state = .unpublished
  sourceState : w.operation.sourceState = .intact
  files : w₀.disk.files <+: w.disk.files
  device : ∀ dir, (w.disk.dirs dir).device = (w₀.disk.dirs dir).device
  kept : ∀ dir name k, w₀.disk.lookup dir name = some k → w.disk.lookup dir name = some k
  absent : w₀.disk.lookup w₀.operation.destinationParent w₀.operation.destinationName = none →
    w.disk.lookup w₀.operation.destinationParent w₀.operation.destinationName = none
  clean : w.leftover = false → ∀ dir name, w₀.disk.lookup dir name = none →
    w.disk.lookup dir name = none ∨
      (dir = w₀.operation.destinationParent ∧ some name = temporary)

variable {w₀ : World} {ino : ℕ} {file : File} {temporary : Option String}
  {k : ℕ} {copied : File → Prop} {name : String}

theorem getElem?_of_prefix {files files' : List File} (h : files <+: files') {f : File}
    (hk : files[k]? = some f) : files'[k]? = some f := by
  obtain ⟨hlt, heq⟩ := List.getElem?_eq_some_iff.mp hk
  rw [List.prefix_iff_getElem?.mp h k hlt, heq]

/-- As long as every name keeps its file, nothing is lost. -/
theorem safe_of_kept (hopen : Opened w₀ ino file) (hstate : w.operation.state = .unpublished)
    (hsource : w.operation.sourceState = .intact) (hfiles : w₀.disk.files <+: w.disk.files)
    (hkept : ∀ dir name j, w₀.disk.lookup dir name = some j → w.disk.lookup dir name = some j) :
    Safe w₀ ino file w where
  noLoss := .inl (hkept _ _ _ hopen.source)
  crossDevice _ := .inl (hkept _ _ _ hopen.source)
  files := hfiles
  replaced _ _ _ hk := .inl (hkept _ _ _ hk)
  published hne := absurd hstate hne
  durable hdurable := absurd (hstate.symm.trans hdurable) nofun
  removed hne := absurd hsource hne
  removedDurable hremoved := absurd (hsource.symm.trans hremoved) nofun

theorem Pending.safe (h : Pending w₀ temporary w) (hopen : Opened w₀ ino file) :
    Safe w₀ ino file w :=
  safe_of_kept hopen h.state h.sourceState h.files h.kept

theorem Pending.clean_none (h : Pending w₀ none w) : Clean w₀ w := by
  intro hleft dir name hfree
  rcases h.clean hleft dir name hfree with hnone | ⟨-, hname⟩
  · exact .inl hnone
  · exact absurd hname nofun

/-- **The copy is under way**: a new file under the temporary name. -/
structure Copying (w₀ : World) (name : String) (k : ℕ) (copied : File → Prop) (w : World) :
    Prop where
  pending : Pending w₀ (some name) w
  fresh : w₀.disk.lookup w₀.operation.destinationParent name = none
  name_ne : name ≠ w₀.operation.destinationName
  entry : w.disk.lookup w₀.operation.destinationParent name = some k
  number : w₀.disk.files.length ≤ k
  copied : ∃ file, w.disk.files[k]? = some file ∧ file.kind = .regular ∧ copied file

theorem Copying.safe (h : Copying w₀ name k copied w) (hopen : Opened w₀ ino file) :
    Safe w₀ ino file w :=
  h.pending.safe hopen

theorem Copying.modify {copied' : File → Prop} (h : Copying w₀ name k copied w) (f : File → File)
    (hkind : ∀ g, (f g).kind = g.kind) (hcopied : ∀ g, copied g → copied' (f g)) :
    Copying w₀ name k copied'
      { w with disk := { w.disk with files := w.disk.files.modify k f } } := by
  obtain ⟨g, hg, hregular, hdone⟩ := h.copied
  refine ⟨⟨h.pending.target, h.pending.step, h.pending.state, h.pending.sourceState, ?_,
    h.pending.device, h.pending.kept, h.pending.absent, h.pending.clean⟩, h.fresh, h.name_ne,
    h.entry, h.number, f g, ?_, (hkind g).trans hregular, hcopied g hdone⟩
  · exact Disk.prefix_modify h.pending.files h.number f
  · rw [List.getElem?_modify, hg]
    exact congrArg some (if_pos rfl)

theorem Copying.mono {copied' : File → Prop} (h : Copying w₀ name k copied w)
    (hcopied : ∀ g, copied g → copied' g) :
    Copying w₀ name k copied' w := by
  obtain ⟨g, hg, hregular, hdone⟩ := h.copied
  exact ⟨h.pending, h.fresh, h.name_ne, h.entry, h.number, g, hg, hregular, hcopied g hdone⟩

/-! ### Copying -/

section Copy

variable (hopen : Opened w₀ ino file) {name : String} {k : ℕ}
include hopen

/-- **The inner loop writes the whole buffer**, in as many calls as it takes. -/
theorem ensures_writeAll {base : List UInt8} (buffer : List UInt8)
    (h : Copying w₀ name k (·.content = base) w) :
    (writeAll k buffer).Ensures (fun _ => Copying w₀ name k (·.content = base ++ buffer))
      (fun _ => Copying w₀ name k fun _ => True) (Safe w₀ ino file) w := by
  rw [writeAll]
  refine ensures_repeat (I := fun bytes w => ∃ written, buffer = written ++ bytes ∧
    Copying w₀ name k (·.content = base ++ written) w) ?_ ?_ ⟨[], rfl, by simpa using h⟩
  · rintro bytes w ⟨written, -, hw⟩
    exact hw.safe hopen
  · rintro bytes w ⟨written, rfl, hw⟩
    split
    · rename_i hnil
      refine ensures_pure ?_
      rw [hnil, List.append_nil]
      exact hw
    · refine ensures_bind (ensures_attempt (ensures_act (hw.safe hopen) ?_ ?_))
      · intro errno
        simp only
        split
        · exact ensures_pure ⟨written, rfl, hw⟩
        · exact ensures_fail (hw.mono fun _ _ => trivial)
      · intro count
        have hnext : Copying w₀ name k
            (·.content = base ++ (written ++ bytes.take (min count bytes.length)))
            { w with disk := w.disk.append k (bytes.take (min count bytes.length)) } := by
          refine hw.modify _ (fun _ => rfl) ?_
          intro g hg
          rw [hg, List.append_assoc]
        simp only
        split
        · exact ensures_fail (hnext.mono fun _ _ => trivial)
        · refine ensures_pure ⟨_, ?_, hnext⟩
          rw [List.append_assoc, List.take_append_drop]

/-- **The outer loop copies to the end**: what is read is what the source holds. -/
theorem ensures_copyData (h : Copying w₀ name k (·.content = []) w) :
    (copyData ino k).Ensures (fun _ => Copying w₀ name k (·.content = file.content))
      (fun _ => Copying w₀ name k fun _ => True) (Safe w₀ ino file) w := by
  rw [copyData]
  refine ensures_repeat
    (I := fun offset w => Copying w₀ name k (·.content = file.content.take offset) w) ?_ ?_ h
  · intro offset w hw
    exact hw.safe hopen
  · intro offset w hw
    have hfails : Copying w₀ name k (fun _ => True) w := hw.mono fun _ _ => trivial
    refine ensures_bind (ensures_checkCancelled (hw.safe hopen) (fun _ => hfails) ?_)
    refine ensures_bind (ensures_attempt (ensures_look (hw.safe hopen) ?_ ?_))
    · intro errno
      simp only
      split
      · exact ensures_pure hw
      · exact ensures_fail hfails
    · intro count bytes hread
      have hsource : w.disk.files[ino]? = some file :=
        getElem?_of_prefix hw.pending.files hopen.file
      have hbytes : bytes = (file.content.drop offset).take (max 1 (min count (64 * 1024))) := by
        rw [← Except.ok.inj hread, Disk.read, hsource]
        rfl
      simp only
      split
      · rename_i hnil
        refine ensures_pure ?_
        -- nothing is read at the end only
        have hend : file.content.drop offset = [] := by
          rw [hnil] at hbytes
          rcases List.take_eq_nil_iff.mp hbytes.symm with hzero | hend
          · omega
          · exact hend
        refine hw.mono fun g hg => ?_
        rw [hg, List.take_of_length_le (List.drop_eq_nil_iff.mp hend)]
      · refine ensures_bind ((ensures_writeAll hopen bytes hw).mono ?_ (fun _ _ he => he)
          fun _ hc => hc)
        intro _ w' hw'
        refine ensures_pure (hw'.mono fun g hg => ?_)
        rw [hg, hbytes, List.take_add, List.length_take, ← List.take_eq_take_min]

theorem ensures_syncCopy (h : Copying w₀ name k (·.content = file.content) w) :
    (syncCopy k).Ensures (fun _ => Copying w₀ name k (· = copyOf file))
      (fun _ => Copying w₀ name k fun _ => True) (Safe w₀ ino file) w := by
  rw [syncCopy]
  refine ensures_repeat (I := fun _ w => Copying w₀ name k (·.content = file.content) w) ?_ ?_ h
  · intro _ w hw
    exact hw.safe hopen
  · intro _ w hw
    have hfails : Copying w₀ name k (fun _ => True) w := hw.mono fun _ _ => trivial
    refine ensures_bind (ensures_attempt (ensures_act (hw.safe hopen) ?_ ?_))
    · intro errno
      simp only
      split
      · exact ensures_fail hfails
      · refine ensures_bind (ensures_checkCancelled (hw.safe hopen) (fun _ => hfails) ?_)
        exact ensures_pure hw
    · intro count
      refine ensures_pure ?_
      obtain ⟨g, hg, hregular, hcontent⟩ := hw.copied
      have hsync : Copying w₀ name k (fun _ => True) _ :=
        hw.modify (fun g => { g with stable := g.content }) (fun _ => rfl) fun _ _ => trivial
      refine ⟨hsync.pending, hsync.fresh, hsync.name_ne, hsync.entry, hsync.number,
        { g with stable := g.content }, ?_, hregular, ?_⟩
      · show (w.disk.files.modify k _)[k]? = _
        rw [List.getElem?_modify, hg]
        exact congrArg some (if_pos rfl)
      · rw [copyOf, ← hcontent, ← hregular]

end Copy

theorem Pending.congr {w' : World} (h : Pending w₀ temporary w) (hdisk : w'.disk = w.disk)
    (htarget : SameTarget w₀.operation w'.operation)
    (hstep : w'.operation.step = w.operation.step)
    (hstate : w'.operation.state = w.operation.state)
    (hsource : w'.operation.sourceState = w.operation.sourceState)
    (hleft : w'.leftover = false → w.leftover = false) : Pending w₀ temporary w' := by
  refine ⟨htarget, hstep.trans h.step, hstate.trans h.state, hsource.trans h.sourceState, ?_, ?_,
    ?_, ?_, ?_⟩
  · rw [hdisk]
    exact h.files
  · rw [hdisk]
    exact h.device
  · rw [hdisk]
    exact h.kept
  · rw [hdisk]
    exact h.absent
  · rw [hdisk]
    exact fun hclean => h.clean (hleft hclean)

theorem Pending.free (h : Pending w₀ temporary w) {dir : ℕ}
    (hfree : w.disk.lookup dir name = none) :
    w₀.disk.lookup dir name = none := by
  by_contra hne
  obtain ⟨k, hk⟩ := Option.ne_none_iff_exists'.mp hne
  exact absurd (hfree.symm.trans (h.kept dir name k hk)) nofun

theorem Pending.create (h : Pending w₀ none w) (hne : name ≠ w₀.operation.destinationName)
    (hfree : w.disk.lookup w₀.operation.destinationParent name = none) :
    Copying w₀ name w.disk.files.length (·.content = [])
      { w with
        disk := (w.disk.addFile .regular).setEntry w₀.operation.destinationParent name
          (some w.disk.files.length) } := by
  have hfresh := h.free hfree
  refine ⟨⟨h.target, h.step, h.state, h.sourceState, ?_, ?_, ?_, ?_, ?_⟩, hfresh, hne, ?_,
    h.files.length_le, { kind := .regular }, ?_, rfl, rfl⟩
  · exact h.files.trans (List.prefix_append _ _)
  · intro dir
    rw [Disk.device_setEntry]
    exact h.device dir
  · intro dir other j hj
    rw [Disk.lookup_setEntry, if_neg]
    · exact h.kept dir other j hj
    · rintro ⟨rfl, rfl⟩
      exact absurd (hfresh.symm.trans hj) nofun
  · intro habsent
    rw [Disk.lookup_setEntry, if_neg fun hsame => hne hsame.2.symm]
    exact h.absent habsent
  · intro hleft dir other hother
    rw [Disk.lookup_setEntry]
    split
    · rename_i hsame
      exact .inr ⟨hsame.1, congrArg some hsame.2⟩
    · exact .inl ((h.clean hleft dir other hother).resolve_right fun hnone => absurd hnone.2 nofun)
  · rw [Disk.lookup_setEntry, if_pos ⟨rfl, rfl⟩]
  · show (w.disk.files ++ [{ kind := .regular }])[w.disk.files.length]? = _
    rw [List.getElem?_append_right (Nat.le_refl _), Nat.sub_self]
    rfl

theorem Copying.leftover (h : Copying w₀ name k copied w) :
    Pending w₀ none { w with leftover := true } :=
  ⟨h.pending.target, h.pending.step, h.pending.state, h.pending.sourceState, h.pending.files,
    h.pending.device, h.pending.kept, h.pending.absent, fun hclean => absurd hclean nofun⟩

theorem Copying.unlink (h : Copying w₀ name k copied w) :
    Pending w₀ none
      { w with disk := w.disk.setEntry w₀.operation.destinationParent name none } := by
  refine ⟨h.pending.target, h.pending.step, h.pending.state, h.pending.sourceState,
    h.pending.files, ?_, ?_, ?_, ?_⟩
  · intro dir
    rw [Disk.device_setEntry]
    exact h.pending.device dir
  · intro dir other j hj
    rw [Disk.lookup_setEntry, if_neg]
    · exact h.pending.kept dir other j hj
    · rintro ⟨rfl, rfl⟩
      exact absurd (h.fresh.symm.trans hj) nofun
  · intro habsent
    rw [Disk.lookup_setEntry, if_neg fun hsame => h.name_ne hsame.2.symm]
    exact h.pending.absent habsent
  · intro hleft dir other hother
    rw [Disk.lookup_setEntry]
    split
    · exact .inl rfl
    · rename_i hdiffer
      rcases h.pending.clean hleft dir other hother with hfree | ⟨hdir, hname⟩
      · exact .inl hfree
      · exact absurd ⟨hdir, Option.some.inj hname⟩ hdiffer

section Temporary

variable (hopen : Opened w₀ ino file)
include hopen

/-- **A temporary file is new**, under a name that was free. -/
theorem ensures_createTemporaryFile (attempts : ℕ) (h : Pending w₀ none w) :
    (createTemporaryFile w₀.operation.destinationParent w₀.operation.destinationName
      attempts).Ensures (fun made => Copying w₀ made.1 made.2 (·.content = []))
      (fun _ => Pending w₀ none) (Safe w₀ ino file) w := by
  induction attempts generalizing w with
  | zero => exact ensures_fail h
  | succ attempts ih =>
    rw [createTemporaryFile]
    refine ensures_bind (ensures_state (ensures_bind (ensures_modify ?_)))
    have hnext : Pending w₀ none { w with nextId := (w.nextId + 1) % 2 ^ 32 } :=
      h.congr rfl h.target rfl rfl rfl id
    simp only
    split
    · exact ih hnext
    · rename_i hne
      refine ensures_bind (ensures_attempt (ensures_act (hnext.safe hopen) ?_ ?_))
      · intro errno
        simp only
        split
        · exact ih hnext
        · exact ensures_fail hnext
      · intro count
        by_cases hused : (w.disk.lookup w₀.operation.destinationParent
            (temporaryName w.pid w.nextId)).isSome = true
        · rw [Disk.create, if_pos hused]
          simp only
          split
          · exact ih hnext
          · exact ensures_fail hnext
        · rw [Disk.create, if_neg hused]
          exact ensures_pure (hnext.create hne (Option.not_isSome_iff_eq_none.mp hused))

theorem ensures_cleanUp_unlinkat {name : String} {k : ℕ} {copied : File → Prop}
    (h : Copying w₀ name k copied w) :
    (unlinkat w₀.operation.destinationParent name false).Ensures (fun _ => Pending w₀ none)
      (fun _ w => Pending w₀ none { w with leftover := true }) (Safe w₀ ino file) w := by
  refine ensures_act (h.safe hopen) (fun _ => h.leftover) fun count => ?_
  obtain ⟨g, hg, hregular, -⟩ := h.copied
  rw [Disk.unlinkat, h.entry]
  simp only [hg, Option.map_some, hregular, Option.some.injEq, reduceCtorEq, if_false]
  exact h.unlink

/-- **`remove_created_file` removes the temporary file**, or notes that it could not. -/
theorem ensures_removeCreatedFile {name : String} {k : ℕ} {copied : File → Prop}
    (h : Copying w₀ name k copied w) {created : Stat} (hcreated : created.ino = k) :
    (removeCreatedFile w₀.operation.destinationParent name created).Ensures
      (fun _ => Pending w₀ none) E (Safe w₀ ino file) w := by
  rw [removeCreatedFile, cleanUp]
  refine ensures_handle (Ensures.mono (E := fun _ w => Pending w₀ none { w with leftover := true })
    ?_ (fun _ _ hq => hq) (fun _ _ he => ensures_modify he) fun _ hc => hc)
  refine ensures_bind (ensures_look (h.safe hopen) (fun _ => h.leftover) ?_)
  intro count current hstat
  obtain ⟨g, hg, -, -⟩ := h.copied
  have hino : current.ino = k := by
    rw [Disk.fstatat, h.entry] at hstat
    simp only [Disk.stat, hg] at hstat
    rw [← Except.ok.inj hstat]
  rw [if_pos (hino.trans hcreated.symm)]
  exact ensures_cleanUp_unlinkat hopen h

end Temporary

/-- **The copy is in place** under its name, and the operation does not know yet. -/
structure Landed (w₀ : World) (file : File) (k : ℕ) (w : World) : Prop where
  target : SameTarget w₀.operation w.operation
  step : w.operation.step = .execute
  state : w.operation.state = .unpublished
  sourceState : w.operation.sourceState = .intact
  files : w₀.disk.files <+: w.disk.files
  device : ∀ dir, (w.disk.dirs dir).device = (w₀.disk.dirs dir).device
  kept : ∀ dir name j, w₀.disk.lookup dir name = some j → w.disk.lookup dir name = some j
  free : w₀.disk.lookup w₀.operation.destinationParent w₀.operation.destinationName = none
  destination :
    w.disk.lookup w₀.operation.destinationParent w₀.operation.destinationName = some k
  copy : w.disk.files[k]? = some (copyOf file)
  clean : Clean w₀ w

theorem Landed.safe (h : Landed w₀ file k w) (hopen : Opened w₀ ino file) :
    Safe w₀ ino file w :=
  safe_of_kept hopen h.state h.sourceState h.files h.kept

theorem Copying.land (h : Copying w₀ name k (· = copyOf file) w)
    (hfree : w.disk.lookup w₀.operation.destinationParent w₀.operation.destinationName = none) :
    Landed w₀ file k
      { w with
        disk := (w.disk.setEntry w₀.operation.destinationParent name none).setEntry
          w₀.operation.destinationParent w₀.operation.destinationName (some k) } := by
  have hfree₀ := h.pending.free hfree
  obtain ⟨g, hg, -, rfl⟩ := h.copied
  refine ⟨h.pending.target, h.pending.step, h.pending.state, h.pending.sourceState,
    h.pending.files, ?_, ?_, hfree₀, ?_, hg, ?_⟩
  · intro dir
    rw [Disk.device_setEntry, Disk.device_setEntry]
    exact h.pending.device dir
  · intro dir other j hj
    rw [Disk.lookup_setEntry, if_neg, Disk.lookup_setEntry, if_neg]
    · exact h.pending.kept dir other j hj
    · rintro ⟨rfl, rfl⟩
      exact absurd (h.fresh.symm.trans hj) nofun
    · rintro ⟨rfl, rfl⟩
      exact absurd (hfree₀.symm.trans hj) nofun
  · rw [Disk.lookup_setEntry, if_pos ⟨rfl, rfl⟩]
  · intro hleft dir other hother
    rw [Disk.lookup_setEntry, Disk.lookup_setEntry]
    by_cases hdestination :
        dir = w₀.operation.destinationParent ∧ other = w₀.operation.destinationName
    · exact .inr hdestination
    · rw [if_neg hdestination]
      split
      · exact .inl rfl
      · rename_i hdiffer
        rcases h.pending.clean hleft dir other hother with hnone | ⟨hdir, hname⟩
        · exact .inl hnone
        · exact absurd ⟨hdir, Option.some.inj hname⟩ hdiffer

section Publish

variable (hopen : Opened w₀ ino file)
include hopen

variable {name : String}

theorem ensures_renameCopy {k : ℕ} (h : Copying w₀ name k (· = copyOf file) w) :
    (renameNoReplace w₀.operation.destinationParent name w₀.operation.destinationParent
      w₀.operation.destinationName).Ensures (fun _ => Landed w₀ file k)
      (fun _ => Copying w₀ name k fun _ => True) (Safe w₀ ino file) w := by
  have hfails : Copying w₀ name k (fun _ => True) w := h.mono fun _ _ => trivial
  refine ensures_handle (ensures_act (h.safe hopen) (fun _ => ensures_fail hfails) fun count => ?_)
  rw [Disk.renameNoReplace, if_neg (not_not.mpr rfl), h.entry]
  simp only
  by_cases hused : (w.disk.lookup w₀.operation.destinationParent
      w₀.operation.destinationName).isSome = true
  · rw [if_pos hused]
    exact ensures_fail hfails
  · rw [if_neg hused]
    exact h.land (Option.not_isSome_iff_eq_none.mp hused)

theorem ensures_checkAbsent {dir : ℕ} (h : Pending w₀ none w) :
    (checkAbsent dir name).Ensures (fun _ => Pending w₀ none) (fun _ => Pending w₀ none)
      (Safe w₀ ino file) w := by
  refine ensures_bind (ensures_attempt (ensures_look (h.safe hopen) ?_ fun _ _ _ => ?_))
  · intro errno
    simp only
    split
    · exact ensures_pure h
    · exact ensures_fail h
  · exact ensures_fail h

theorem ensures_removed {Q : α → World → Prop} {k : ℕ} {copied : File → Prop}
    (h : Copying w₀ name k copied w) {created : Stat} (hcreated : created.ino = k) (errno : ℕ) :
    (do
      removeCreatedFile w₀.operation.destinationParent name created
      fail errno : Sys α).Ensures Q (fun _ => Pending w₀ none) (Safe w₀ ino file) w :=
  ensures_bind ((ensures_removeCreatedFile hopen h hcreated).mono
    (fun _ _ hpending => ensures_fail hpending) (fun _ _ he => he) fun _ hc => hc)

/-- **`copy_open_file`**: the copy is in place with its data synchronised, or
nothing is and the temporary file is gone. -/
theorem ensures_copyOpenFile (h : Pending w₀ none w) :
    (copyOpenFile ino w₀.operation.destinationParent w₀.operation.destinationName).Ensures
      (fun _ w => ∃ k, Landed w₀ file k w) (fun _ => Pending w₀ none) (Safe w₀ ino file) w := by
  rw [copyOpenFile]
  refine ensures_bind (ensures_checkCancelled (h.safe hopen) (fun _ => h) ?_)
  refine ensures_bind ((ensures_checkAbsent hopen h).mono ?_ (fun _ _ he => he) fun _ hc => hc)
  intro _ w h
  refine ensures_bind ((ensures_createTemporaryFile hopen 32 h).mono ?_ (fun _ _ he => he)
    fun _ hc => hc)
  rintro ⟨name, k⟩ w hmade
  -- the metadata of the new file
  refine ensures_bind (ensures_handle (ensures_look (hmade.safe hopen) ?_ ?_))
  · intro errno
    refine ensures_bind (ensures_attempt_close (hmade.safe hopen) fun _ => ?_)
    refine ensures_bind (ensures_handle ((ensures_cleanUp_unlinkat hopen hmade).mono ?_ ?_
      fun _ hc => hc))
    · exact fun _ _ hpending => ensures_fail hpending
    · exact fun _ _ hleft => ensures_modify (ensures_fail hleft)
  intro count created hstat
  have hcreated : created.ino = k := by
    obtain ⟨g, hg, -, -⟩ := hmade.copied
    simp only [Disk.stat, hg] at hstat
    rw [← Except.ok.inj hstat]
  -- the data
  refine ensures_bind (ensures_handle (Ensures.mono
    (Q := fun _ => Copying w₀ name k (· = copyOf file))
    (E := fun _ => Copying w₀ name k fun _ => True) ?_ ?_ ?_ fun _ hc => hc))
  · refine ensures_bind ((ensures_copyData hopen hmade).mono ?_ (fun _ _ he => he) fun _ hc => hc)
    intro _ w hdata
    refine ensures_bind (ensures_checkCancelled (hdata.safe hopen)
      (fun _ => hdata.mono fun _ _ => trivial) ?_)
    exact ensures_syncCopy hopen hdata
  · intro _ w hsynced
    have hfails : Copying w₀ name k (fun _ => True) w := hsynced.mono fun _ _ => trivial
    -- the name
    refine ensures_bind (ensures_handle (ensures_look (hsynced.safe hopen) ?_ fun _ _ _ => ?_))
    · exact fun errno => ensures_removed hopen hfails hcreated errno
    · refine ensures_handle (Ensures.mono (Q := fun _ w => ∃ k, Landed w₀ file k w)
        (E := fun _ => Copying w₀ name k fun _ => True) ?_ (fun _ _ hq => hq) ?_ fun _ hc => hc)
      · refine ensures_bind (ensures_checkCancelled (hsynced.safe hopen) (fun _ => hfails) ?_)
        exact (ensures_renameCopy hopen hsynced).mono (fun _ _ hlanded => ⟨k, hlanded⟩)
          (fun _ _ he => he) fun _ hc => hc
      · exact fun errno _ hfailed => ensures_removed hopen hfailed hcreated errno
  · intro errno w hfailed
    refine ensures_bind (ensures_attempt_close (hfailed.safe hopen) fun _ => ?_)
    exact ensures_removed hopen hfailed hcreated errno

end Publish

end Files
