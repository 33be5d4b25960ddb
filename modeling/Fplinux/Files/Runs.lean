/-
Any number of runs of a file operation (`files-core.c`).

A run takes the operation up at the step it has come to.  Once the destination is in place
(`Placed`) a step only synchronizes, removes the source when the copy is stable, or says that
it has done so (`Published`).

Main results:
- `ensures_executeOperation`: the destination is in place, or nothing has happened;
- `ensures_operationRun`: a run, from whichever step it starts;
- `operationRuns_safe`: any number of runs, stopped between any two calls.
-/
import Fplinux.Files.NoLoss

namespace Files

open Calls.Prog

variable {w w' w₀ : World} {ino k dir : ℕ} {file : File}

/-! ### The destination in place -/

/-- What has become of the source. -/
inductive Source (w₀ : World) (ino : ℕ) (file : File) (k : ℕ) (w : World) : Prop
  | copied : w.disk.lookup w₀.operation.sourceParent w₀.operation.sourceName = some ino →
      w.operation.sourceState = .intact →
      w.operation.action = .copy ∨ w.operation.crossDevice = true →
      w.disk.files[k]? = some (copyOf file) → Source w₀ ino file k w
  | renamed : w.disk.lookup w₀.operation.sourceParent w₀.operation.sourceName = none →
      w.operation.sourceState ≠ .intact →
      (w₀.disk.dirs w₀.operation.sourceParent).device =
        (w₀.disk.dirs w₀.operation.destinationParent).device →
      k = ino → Source w₀ ino file k w
  | removed : w.disk.lookup w₀.operation.sourceParent w₀.operation.sourceName = none →
      w.operation.sourceState ≠ .intact →
      (w.disk.dirs w₀.operation.destinationParent).stable w₀.operation.destinationName = some k →
      w.disk.files[k]? = some (copyOf file) → Source w₀ ino file k w

/-- **The destination is in place**, as the renamed source or as a copy of it. -/
structure Placed (w₀ : World) (ino : ℕ) (file : File) (k : ℕ) (w : World) : Prop where
  target : SameTarget w₀.operation w.operation
  files : w₀.disk.files <+: w.disk.files
  kept : ∀ dir name j, w₀.disk.lookup dir name = some j → w.disk.lookup dir name = some j ∨
    (dir = w₀.operation.sourceParent ∧ name = w₀.operation.sourceName)
  free : w₀.disk.lookup w₀.operation.destinationParent w₀.operation.destinationName = none
  destination :
    w.disk.lookup w₀.operation.destinationParent w₀.operation.destinationName = some k
  source : Source w₀ ino file k w
  clean : Clean w₀ w

/-- The name of the destination is stable. -/
def Stable (w₀ : World) (k : ℕ) (w : World) : Prop :=
  (w.disk.dirs w₀.operation.destinationParent).stable w₀.operation.destinationName = some k

/-- What has been done when the operation has come to a step. -/
def Phase (w₀ : World) (k : ℕ) (w : World) : Prop :=
  match w.operation.step with
  | .execute => False
  | .syncDestination =>
    w.operation.state = .publishedUnsynced ∧ w.operation.sourceState ≠ .removedDurable
  | .unlinkSource =>
    Stable w₀ k w ∧ w.operation.state = .durable ∧ w.operation.sourceState ≠ .removedDurable
  | .syncSource =>
    Stable w₀ k w ∧ w.operation.state = .durable ∧ w.operation.sourceState = .removedUnsynced
  | .done =>
    Stable w₀ k w ∧ w.operation.state = .durable ∧
      (w.operation.sourceState = .removedDurable →
        (w.disk.dirs w₀.operation.sourceParent).stable w₀.operation.sourceName = none)

theorem phase_syncDestination (h : w.operation.step = .syncDestination) :
    Phase w₀ k w ↔
      w.operation.state = .publishedUnsynced ∧ w.operation.sourceState ≠ .removedDurable := by
  rw [Phase, h]

theorem phase_unlinkSource (h : w.operation.step = .unlinkSource) :
    Phase w₀ k w ↔
      Stable w₀ k w ∧ w.operation.state = .durable ∧ w.operation.sourceState ≠ .removedDurable := by
  rw [Phase, h]

theorem phase_syncSource (h : w.operation.step = .syncSource) :
    Phase w₀ k w ↔
      Stable w₀ k w ∧ w.operation.state = .durable ∧
        w.operation.sourceState = .removedUnsynced := by
  rw [Phase, h]

theorem phase_done (h : w.operation.step = .done) :
    Phase w₀ k w ↔
      Stable w₀ k w ∧ w.operation.state = .durable ∧
        (w.operation.sourceState = .removedDurable →
          (w.disk.dirs w₀.operation.sourceParent).stable w₀.operation.sourceName = none) := by
  rw [Phase, h]

/-- **The operation knows that it has published.** -/
def Published (w₀ : World) (ino : ℕ) (file : File) (w : World) : Prop :=
  ∃ k, Placed w₀ ino file k w ∧ Phase w₀ k w

theorem Source.copy (h : Source w₀ ino file k w) :
    k = ino ∨ w.disk.files[k]? = some (copyOf file) := by
  cases h with
  | copied _ _ _ hcopy => exact .inr hcopy
  | renamed _ _ _ hino => exact .inl hino
  | removed _ _ _ hcopy => exact .inr hcopy

theorem Source.gone (h : Source w₀ ino file k w) (hstate : w.operation.sourceState ≠ .intact) :
    w.disk.lookup w₀.operation.sourceParent w₀.operation.sourceName = none := by
  cases h with
  | copied _ hintact _ _ => exact absurd hintact hstate
  | renamed hgone _ _ _ => exact hgone
  | removed hgone _ _ _ => exact hgone

theorem Placed.content (h : Placed w₀ ino file k w) (hopen : Opened w₀ ino file) :
    ∃ file', w.disk.files[k]? = some file' ∧ file'.content = file.content := by
  rcases h.source.copy with rfl | hcopy
  · exact ⟨file, getElem?_of_prefix h.files hopen.file, rfl⟩
  · exact ⟨copyOf file, hcopy, rfl⟩

theorem Phase.stable (h : Phase w₀ k w) (hstate : w.operation.state = .durable) :
    Stable w₀ k w := by
  rw [Phase] at h
  split at h
  · exact h.elim
  · exact absurd (h.1.symm.trans hstate) nofun
  · exact h.1
  · exact h.1
  · exact h.1

theorem Phase.removed (h : Phase w₀ k w) (hstate : w.operation.sourceState = .removedDurable) :
    (w.disk.dirs w₀.operation.sourceParent).stable w₀.operation.sourceName = none := by
  rw [Phase] at h
  split at h
  · exact h.elim
  · exact absurd hstate h.2
  · exact absurd hstate h.2.2
  · exact absurd (h.2.2.symm.trans hstate) nofun
  · exact h.2.2 hstate

/-- **Nothing is lost once the destination is in place.** -/
theorem Published.safe (h : Published w₀ ino file w) (hopen : Opened w₀ ino file) :
    Safe w₀ ino file w := by
  obtain ⟨k, hplaced, hphase⟩ := h
  obtain ⟨file', hfile', hcontent⟩ := hplaced.content hopen
  have hthere : ∃ k file',
      w.disk.lookup w₀.operation.destinationParent w₀.operation.destinationName = some k ∧
        w.disk.files[k]? = some file' ∧ file'.content = file.content :=
    ⟨k, file', hplaced.destination, hfile', hcontent⟩
  refine ⟨.inr hthere, ?_, hplaced.files, ?_, fun _ => hthere, ?_, hplaced.source.gone,
    hphase.removed⟩
  · intro hdevice
    cases hplaced.source with
    | copied hsource _ _ _ => exact .inl hsource
    | renamed _ _ hsame _ => exact absurd hsame hdevice
    | removed _ _ hstable hcopy => exact .inr ⟨k, hplaced.destination, hstable, hcopy⟩
  · intro dir name j hj
    rcases hplaced.kept dir name j hj with hkept | ⟨hdir, hname⟩
    · exact .inl hkept
    · exact .inr ⟨hdir, hname, hplaced.free⟩
  · intro hstate
    exact ⟨k, hplaced.destination, hphase.stable hstate, hplaced.source.copy⟩

/-! ### Executing -/

theorem Pending.setMetadata (h : Pending w₀ none w) (metadata : Stat) :
    Pending w₀ none
      { w with operation := { w.operation with sourceMetadata := metadata } } :=
  h.congr rfl ⟨h.target.action, h.target.sourceParent, h.target.sourceName,
    h.target.destinationParent, h.target.destinationName, h.target.crossDevice,
    h.target.crossed⟩ rfl rfl rfl id

/-- The world with devices crossed. -/
def World.cross (w : World) : World :=
  { w with operation := { w.operation with crossDevice := true } }

theorem Pending.cross (h : Pending w₀ none w) (hmove : w.operation.action = .move) :
    Pending w₀.cross none w.cross :=
  ⟨⟨h.target.action, h.target.sourceParent, h.target.sourceName, h.target.destinationParent,
    h.target.destinationName, fun _ => hmove, fun _ => rfl⟩, h.step, h.state, h.sourceState,
    h.files, h.device, h.kept, h.absent, h.clean⟩

theorem SameTarget.uncross {operation : Operation}
    (h : SameTarget w₀.cross.operation operation) : SameTarget w₀.operation operation :=
  ⟨h.action, h.sourceParent, h.sourceName, h.destinationParent, h.destinationName, h.crossDevice,
    fun _ => h.crossed rfl⟩

theorem Pending.uncross (h : Pending w₀.cross none w) : Pending w₀ none w :=
  ⟨h.target.uncross, h.step, h.state, h.sourceState, h.files, h.device, h.kept, h.absent, h.clean⟩

theorem Landed.uncross (h : Landed w₀.cross file k w) : Landed w₀ file k w :=
  ⟨h.target.uncross, h.step, h.state, h.sourceState, h.files, h.device, h.kept, h.free,
    h.destination, h.copy, h.clean⟩

theorem Opened.cross (h : Opened w₀ ino file) (hmove : w₀.operation.action = .move) :
    Opened w₀.cross ino file :=
  ⟨h.action, h.source, h.file, h.step, h.state, h.sourceState, fun _ => hmove⟩

theorem Safe.uncross (h : Safe w₀.cross ino file w) : Safe w₀ ino file w :=
  ⟨h.noLoss, h.crossDevice, h.files, h.replaced, h.published, h.durable, h.removed,
    h.removedDurable⟩

theorem Landed.placed (h : Landed w₀ file k w) (hopen : Opened w₀ ino file)
    (hkeeps : w.operation.action = .copy ∨ w.operation.crossDevice = true) :
    Placed w₀ ino file k w :=
  ⟨h.target, h.files, fun dir name j hj => .inl (h.kept dir name j hj), h.free, h.destination,
    .copied (h.kept _ _ _ hopen.source) h.sourceState hkeeps h.copy, h.clean⟩

theorem Pending.rename (h : Pending w₀ none w) (hopen : Opened w₀ ino file)
    (hdevice : (w.disk.dirs w₀.operation.sourceParent).device =
      (w.disk.dirs w₀.operation.destinationParent).device)
    (hfree : w.disk.lookup w₀.operation.destinationParent w₀.operation.destinationName = none) :
    Placed w₀ ino file ino
      { w with
        disk := (w.disk.setEntry w₀.operation.sourceParent w₀.operation.sourceName none).setEntry
          w₀.operation.destinationParent w₀.operation.destinationName (some ino)
        operation := { w.operation with sourceState := .removedUnsynced } } := by
  have hfree₀ := h.free hfree
  have hsource := hopen.source
  refine ⟨⟨h.target.action, h.target.sourceParent, h.target.sourceName,
    h.target.destinationParent, h.target.destinationName, h.target.crossDevice,
    h.target.crossed⟩, h.files, ?_, hfree₀, ?_, .renamed ?_ nofun ?_ rfl, ?_⟩
  · intro dir name j hj
    show Disk.lookup _ dir name = some j ∨ _
    rw [Disk.lookup_setEntry, if_neg, Disk.lookup_setEntry]
    · split
      · rename_i hsame
        exact .inr hsame
      · exact .inl (h.kept dir name j hj)
    · rintro ⟨rfl, rfl⟩
      exact absurd (hfree₀.symm.trans hj) nofun
  · show Disk.lookup _ _ _ = _
    rw [Disk.lookup_setEntry, if_pos ⟨rfl, rfl⟩]
  · show Disk.lookup _ _ _ = _
    rw [Disk.lookup_setEntry, if_neg, Disk.lookup_setEntry, if_pos ⟨rfl, rfl⟩]
    -- the source had a file, the destination none
    rintro ⟨hdir, hname⟩
    rw [hdir, hname, hfree₀] at hsource
    cases hsource
  · rw [← h.device, ← h.device]
    exact hdevice
  · intro hleft dir name hnone
    show Disk.lookup _ dir name = none ∨ _
    rw [Disk.lookup_setEntry, Disk.lookup_setEntry]
    by_cases hdestination :
        dir = w₀.operation.destinationParent ∧ name = w₀.operation.destinationName
    · exact .inr hdestination
    · rw [if_neg hdestination]
      split
      · exact .inl rfl
      · exact .inl ((h.clean hleft dir name hnone).resolve_right fun hsome =>
          absurd hsome.2 nofun)

section Execute

variable (hopen : Opened w₀ ino file)
include hopen

theorem ensures_openRegularFile (h : Pending w₀ none w) :
    (openRegularFile w₀.operation.sourceParent w₀.operation.sourceName).Ensures
      (fun descriptor w' => descriptor = ino ∧ Pending w₀ none w') (fun _ => Pending w₀ none)
      (Safe w₀ ino file) w := by
  rw [openRegularFile]
  refine ensures_bind (ensures_look (h.safe hopen) (fun _ => h) fun _ metadata _ => ?_)
  refine ensures_bind (ensures_setOperation ?_)
  have h₁ := h.setMetadata metadata
  refine ensures_bind (ensures_supportedType (fun _ => h₁) ?_)
  refine ensures_bind (ensures_look (h₁.safe hopen) (fun _ => h₁) fun _ descriptor hopenat => ?_)
  have hino : descriptor = ino := by
    have hsource := h₁.kept _ _ _ hopen.source
    rw [Disk.openat, hsource] at hopenat
    simp only at hopenat
    split at hopenat
    · cases hopenat
    · exact (Except.ok.inj hopenat).symm
  -- the metadata of what was opened
  have hclose : ∀ errno w, Pending w₀ none w → (do
      let _ ← attempt close
      fail errno : Sys ℕ).Ensures (fun descriptor w' => descriptor = ino ∧ Pending w₀ none w')
        (fun _ => Pending w₀ none) (Safe w₀ ino file) w := by
    intro errno w hw
    exact ensures_bind (ensures_attempt_close (hw.safe hopen) fun _ => ensures_fail hw)
  refine ensures_handle (ensures_bind (ensures_look (h₁.safe hopen) (fun _ => hclose _ _ h₁)
    fun _ metadata' _ => ?_))
  refine ensures_bind (ensures_setOperation ?_)
  have h₂ := h₁.setMetadata metadata'
  exact ensures_bind (ensures_supportedType (fun _ => hclose _ _ h₂) (ensures_pure ⟨hino, h₂⟩))

theorem ensures_copyFile {operation : Operation} (htarget : SameTarget w₀.operation operation)
    (h : Pending w₀ none w) :
    (copyFile operation).Ensures (fun _ w' => ∃ k, Landed w₀ file k w') (fun _ => Pending w₀ none)
      (Safe w₀ ino file) w := by
  rw [copyFile, htarget.sourceParent, htarget.sourceName, htarget.destinationParent,
    htarget.destinationName]
  refine ensures_bind ((ensures_openRegularFile hopen h).mono ?_ (fun _ _ he => he) fun _ hc => hc)
  rintro descriptor w ⟨rfl, h⟩
  refine ensures_bind (ensures_attempt ((ensures_copyOpenFile hopen h).mono ?_ ?_ fun _ hc => hc))
  · rintro _ w ⟨k, hlanded⟩
    exact ensures_bind (ensures_attempt_close (hlanded.safe hopen) fun _ =>
      ensures_pure ⟨k, hlanded⟩)
  · intro errno w hpending
    exact ensures_bind (ensures_attempt_close (hpending.safe hopen) fun _ => ensures_fail hpending)

/-- `execute_operation` has published, as far as the operation is concerned. -/
def Executed (w₀ : World) (ino : ℕ) (file : File) (w : World) : Prop :=
  (∃ k, Placed w₀ ino file k w) ∧ w.operation.sourceState ≠ .removedDurable

theorem ensures_renameSource (h : Pending w₀ none w) :
    (renameNoReplace w₀.operation.sourceParent w₀.operation.sourceName
      w₀.operation.destinationParent w₀.operation.destinationName).Ensures
      (fun _ w' => Placed w₀ ino file ino
        { w' with operation := { w'.operation with sourceState := .removedUnsynced } })
      (fun _ w' => w' = w) (Safe w₀ ino file) w := by
  refine ensures_handle (ensures_act (h.safe hopen) (fun _ => ensures_fail rfl) fun count => ?_)
  rw [Disk.renameNoReplace]
  by_cases hdevice : (w.disk.dirs w₀.operation.sourceParent).device =
      (w.disk.dirs w₀.operation.destinationParent).device
  · rw [if_neg (not_not.mpr hdevice), h.kept _ _ _ hopen.source]
    simp only
    by_cases hused : (w.disk.lookup w₀.operation.destinationParent
        w₀.operation.destinationName).isSome = true
    · rw [if_pos hused]
      exact ensures_fail rfl
    · rw [if_neg hused]
      exact h.rename hopen hdevice (Option.not_isSome_iff_eq_none.mp hused)
  · rw [if_pos hdevice]
    exact ensures_fail rfl

theorem ensures_copyAcross {operation : Operation} (htarget : SameTarget w₀.operation operation)
    (hmove : w₀.operation.action = .move) (h : Pending w₀ none w) :
    (copyFile operation).Ensures (fun _ => Executed w₀ ino file) (fun _ => Pending w₀ none)
      (Safe w₀ ino file) w.cross := by
  have hcross := h.cross (h.target.action.trans hmove)
  have htarget' : SameTarget w₀.cross.operation { operation with crossDevice := true } :=
    ⟨htarget.action, htarget.sourceParent, htarget.sourceName, htarget.destinationParent,
      htarget.destinationName, fun _ => htarget.action.trans hmove, fun _ => rfl⟩
  refine (ensures_copyFile (hopen.cross hmove) htarget' hcross).mono ?_ ?_ ?_
  · rintro _ w ⟨k, hlanded⟩
    refine ⟨⟨k, hlanded.uncross.placed hopen (.inr (hlanded.target.crossed rfl))⟩, ?_⟩
    rw [hlanded.sourceState]
    nofun
  · exact fun _ _ hpending => hpending.uncross
  · exact fun _ hsafe => hsafe.uncross

/-- **`execute_operation`**: the destination is in place, or nothing has happened. -/
theorem ensures_renameOrCopy (h : Pending w₀ none w) :
    (do
      match ← attempt (renameNoReplace w.operation.sourceParent w.operation.sourceName
          w.operation.destinationParent w.operation.destinationName) with
      | .ok () => setOperation fun operation => { operation with sourceState := .removedUnsynced }
      | .error errno =>
        if w.operation.action ≠ .move ∨ errno ≠ eXDev then fail errno
        else do
          setOperation fun operation => { operation with crossDevice := true }
          copyFile w.operation : Sys Unit).Ensures (fun _ => Executed w₀ ino file)
      (fun _ => Pending w₀ none) (Safe w₀ ino file) w := by
  have hcall := ensures_renameSource hopen h
  rw [← h.target.sourceParent, ← h.target.sourceName, ← h.target.destinationParent,
    ← h.target.destinationName] at hcall
  refine ensures_bind (ensures_attempt (hcall.mono ?_ ?_ fun _ hc => hc))
  · intro _ w' hplaced
    refine ensures_setOperation ⟨⟨ino, hplaced⟩, ?_⟩
    intro hremoved
    cases hremoved
  · rintro errno w' rfl
    simp only
    split
    · exact ensures_fail h
    · rename_i hcross
      have hmove : w'.operation.action = .move := by
        by_contra hne
        exact hcross (.inl hne)
      refine ensures_bind (ensures_setOperation ?_)
      exact ensures_copyAcross hopen h.target (h.target.action.symm.trans hmove) h

theorem ensures_executeOperation (h : Pending w₀ none w) :
    executeOperation.Ensures (fun _ => Executed w₀ ino file) (fun _ => Pending w₀ none)
      (Safe w₀ ino file) w := by
  have hrename := ensures_renameOrCopy hopen h
  rw [executeOperation]
  refine ensures_bind (ensures_state (ensures_bind
    (ensures_checkCancelled (h.safe hopen) (fun _ => h) ?_)))
  have haction := h.target.action
  rcases hopen.action with hcopy | hmove | hren
  · simp only [haction, hcopy]
    refine (ensures_copyFile hopen h.target h).mono ?_ (fun _ _ he => he) fun _ hc => hc
    rintro _ w' ⟨k, hlanded⟩
    refine ⟨⟨k, hlanded.placed hopen (.inl (hlanded.target.action.trans hcopy))⟩, ?_⟩
    rw [hlanded.sourceState]
    intro hremoved
    cases hremoved
  · simp only [haction, hmove] at hrename ⊢
    exact hrename
  · simp only [haction, hren] at hrename ⊢
    exact hrename

end Execute

/-! ### The steps after it -/

theorem SameTarget.advance {operation operation' : Operation} (h : SameTarget operation operation')
    (step : FileStep) (state : StorageState) (sourceState : SourceState) (error : ℕ) :
    SameTarget operation { operation' with
      step := step, state := state, sourceState := sourceState, error := error } :=
  ⟨h.action, h.sourceParent, h.sourceName, h.destinationParent, h.destinationName, h.crossDevice,
    h.crossed⟩

theorem Placed.advance (h : Placed w₀ ino file k w) (step : FileStep) (state : StorageState)
    (sourceState : SourceState) (error : ℕ)
    (hsource : sourceState = .intact ↔ w.operation.sourceState = .intact) :
    Placed w₀ ino file k { w with operation := { w.operation with
      step := step, state := state, sourceState := sourceState, error := error } } := by
  refine ⟨h.target.advance step state sourceState error, h.files, h.kept, h.free, h.destination,
    ?_, h.clean⟩
  have hmoved : w.operation.sourceState ≠ .intact → sourceState ≠ .intact :=
    fun hne heq => hne (hsource.mp heq)
  cases h.source with
  | copied hthere hintact hkeeps hcopy => exact .copied hthere (hsource.mpr hintact) hkeeps hcopy
  | renamed hgone hstate hdevice hino => exact .renamed hgone (hmoved hstate) hdevice hino
  | removed hgone hstate hstable hcopy => exact .removed hgone (hmoved hstate) hstable hcopy

theorem Placed.syncDir (h : Placed w₀ ino file k w) (dir : ℕ) :
    Placed w₀ ino file k { w with disk := w.disk.syncDir dir } := by
  have hlookup : ∀ dir' name, (w.disk.syncDir dir).lookup dir' name = w.disk.lookup dir' name :=
    fun _ _ => Disk.lookup_syncDir
  refine ⟨h.target, h.files, ?_, h.free, (hlookup _ _).trans h.destination, ?_, ?_⟩
  · intro dir' name j hj
    rw [hlookup]
    exact h.kept dir' name j hj
  · cases h.source with
    | copied hsource hintact hkeeps hcopy =>
      exact .copied ((hlookup _ _).trans hsource) hintact hkeeps hcopy
    | renamed hgone hstate hdevice hino =>
      exact .renamed ((hlookup _ _).trans hgone) hstate hdevice hino
    | removed hgone hstate hstable hcopy =>
      refine .removed ((hlookup _ _).trans hgone) hstate ?_ hcopy
      rw [Disk.stable_syncDir]
      split
      · exact h.destination
      · exact hstable
  · intro hleft dir' name hnone
    rw [hlookup]
    exact h.clean hleft dir' name hnone

theorem Placed.stable_syncDir (h : Placed w₀ ino file k w)
    (hdir : dir = w₀.operation.destinationParent ∨ Stable w₀ k w) :
    Stable w₀ k { w with disk := w.disk.syncDir dir } := by
  rw [Stable, Disk.stable_syncDir]
  split
  · exact h.destination
  · rename_i hne
    exact hdir.resolve_left fun heq => hne heq.symm

theorem Placed.unlink (h : Placed w₀ ino file k w) (hopen : Opened w₀ ino file)
    (hstable : Stable w₀ k w)
    (hthere : w.disk.lookup w₀.operation.sourceParent w₀.operation.sourceName ≠ none) :
    Placed w₀ ino file k
      { w with
        disk := w.disk.setEntry w₀.operation.sourceParent w₀.operation.sourceName none
        operation := { w.operation with
          sourceState := .removedUnsynced
          step := .syncSource } } := by
  have hcopy : w.disk.files[k]? = some (copyOf file) := by
    cases h.source with
    | copied _ _ _ hcopy => exact hcopy
    | renamed hgone _ _ _ => exact absurd hgone hthere
    | removed _ _ _ hcopy => exact hcopy
  have hsource := hopen.source
  refine ⟨h.target.advance .syncSource w.operation.state .removedUnsynced w.operation.error,
    h.files, ?_, h.free, ?_, .removed ?_ nofun ?_ hcopy, ?_⟩
  · intro dir name j hj
    show Disk.lookup _ dir name = some j ∨ _
    rw [Disk.lookup_setEntry]
    split
    · rename_i hsame
      exact .inr hsame
    · exact h.kept dir name j hj
  · show Disk.lookup _ _ _ = _
    rw [Disk.lookup_setEntry, if_neg]
    · exact h.destination
    · rintro ⟨hdir, hname⟩
      rw [← hdir, ← hname, h.free] at hsource
      cases hsource
  · show Disk.lookup _ _ _ = _
    rw [Disk.lookup_setEntry, if_pos ⟨rfl, rfl⟩]
  · show ((w.disk.setEntry _ _ _).dirs _).stable _ = _
    rw [Disk.stable_setEntry]
    exact hstable
  · intro hleft dir name hnone
    show Disk.lookup _ dir name = none ∨ _
    rw [Disk.lookup_setEntry]
    split
    · exact .inl rfl
    · exact h.clean hleft dir name hnone

/-- Between two runs: nothing is published, or the operation knows that something is. -/
def Rest (w₀ : World) (ino : ℕ) (file : File) (w : World) : Prop :=
  Pending w₀ none w ∨ Published w₀ ino file w

theorem Rest.safe (h : Rest w₀ ino file w) (hopen : Opened w₀ ino file) :
    Safe w₀ ino file w := by
  rcases h with hpending | hpublished
  · exact hpending.safe hopen
  · exact hpublished.safe hopen

theorem Rest.clean (h : Rest w₀ ino file w) : Clean w₀ w := by
  rcases h with hpending | ⟨k, hplaced, -⟩
  · exact hpending.clean_none
  · exact hplaced.clean

theorem Rest.setError (h : Rest w₀ ino file w) (error : ℕ) :
    Rest w₀ ino file { w with operation := { w.operation with error := error } } := by
  rcases h with hpending | ⟨k, hplaced, hphase⟩
  · exact .inl (hpending.congr rfl (hpending.target.advance w.operation.step w.operation.state
      w.operation.sourceState error) rfl rfl rfl id)
  · exact .inr ⟨k, hplaced.advance w.operation.step w.operation.state w.operation.sourceState
      error Iff.rfl, hphase⟩

theorem ensures_syncDirectory (dir : ℕ) :
    (syncDirectory dir).Ensures (fun _ w' => w' = { w with disk := w.disk.syncDir dir })
      (fun _ w' => w' = w) (fun w' => w' = w) w := by
  rw [syncDirectory]
  refine ensures_repeat (I := fun _ w' => w' = w) (fun _ _ h => h) ?_ rfl
  rintro _ w' rfl
  refine ensures_bind (ensures_attempt (ensures_act rfl ?_ fun count => ?_))
  · intro errno
    simp only
    split
    · exact ensures_pure rfl
    · exact ensures_fail rfl
  · exact ensures_pure rfl

theorem ensures_whenAt {step : FileStep} {run : Sys Unit} (h : Published w₀ ino file w)
    (hrun : ∀ w, Published w₀ ino file w → w.operation.step = step →
      run.Ensures (fun _ => Published w₀ ino file) (fun _ => Rest w₀ ino file)
        (Safe w₀ ino file) w) :
    (whenAt step run).Ensures (fun _ => Published w₀ ino file) (fun _ => Rest w₀ ino file)
      (Safe w₀ ino file) w := by
  refine ensures_bind (ensures_state ?_)
  split
  · rename_i hstep
    exact hrun w h hstep
  · exact ensures_pure h

section Steps

variable (hopen : Opened w₀ ino file)
include hopen

theorem ensures_runExecute (h : Pending w₀ none w) :
    runExecute.Ensures (fun _ => Published w₀ ino file) (fun _ => Rest w₀ ino file)
      (Safe w₀ ino file) w := by
  rw [runExecute]
  refine ensures_bind ((ensures_executeOperation hopen h).mono ?_ (fun _ _ he => .inl he)
    fun _ hc => hc)
  rintro _ w' ⟨⟨k, hplaced⟩, hstate⟩
  have haction : w'.operation.action ≠ .remove := by
    rw [hplaced.target.action]
    rcases hopen.action with hcopy | hmove | hrename
    · rw [hcopy]
      nofun
    · rw [hmove]
      nofun
    · rw [hrename]
      nofun
  exact ensures_setOperation ⟨k, hplaced.advance _ _ w'.operation.sourceState
    w'.operation.error Iff.rfl, (phase_syncDestination (if_neg haction)).mpr ⟨rfl, hstate⟩⟩

theorem ensures_runSyncDestination (h : Published w₀ ino file w)
    (hstep : w.operation.step = .syncDestination) :
    runSyncDestination.Ensures (fun _ => Published w₀ ino file) (fun _ => Rest w₀ ino file)
      (Safe w₀ ino file) w := by
  have hrest : Rest w₀ ino file w := .inr h
  obtain ⟨k, hplaced, hphase⟩ := h
  have hnot := ((phase_syncDestination hstep).mp hphase).2
  rw [runSyncDestination]
  refine ensures_bind (ensures_state (ensures_bind ((ensures_syncDirectory _).mono ?_ ?_ ?_)))
  · rintro _ w' rfl
    have hsynced := hplaced.syncDir w.operation.destinationParent
    have hstable := hplaced.stable_syncDir (.inl hplaced.target.destinationParent)
    refine ensures_setOperation ⟨k, hsynced.advance _ _ w.operation.sourceState w.operation.error
      Iff.rfl, ?_⟩
    by_cases hcross : w.operation.crossDevice = true
    · exact (phase_unlinkSource (if_pos hcross)).mpr ⟨hstable, rfl, hnot⟩
    · by_cases hmoves : w.operation.action = .move ∨ w.operation.action = .rename
      · refine (phase_syncSource ((if_neg hcross).trans (if_pos hmoves))).mpr ⟨hstable, rfl, ?_⟩
        -- it was renamed: the source is gone
        have hgone : w.operation.sourceState ≠ .intact := by
          cases hplaced.source with
          | copied _ _ hkeeps _ =>
            rcases hkeeps with hcopy | hcrossed
            · simp [hcopy] at hmoves
            · exact absurd hcrossed hcross
          | renamed _ hstate _ _ => exact hstate
          | removed _ hstate _ _ => exact hstate
        show w.operation.sourceState = .removedUnsynced
        cases hstate : w.operation.sourceState with
        | intact => exact absurd hstate hgone
        | removedUnsynced => rfl
        | removedDurable => exact absurd hstate hnot
      · exact (phase_done ((if_neg hcross).trans (if_neg hmoves))).mpr
          ⟨hstable, rfl, fun hremoved => absurd hremoved hnot⟩
  · rintro _ w' rfl
    exact hrest
  · rintro w' rfl
    exact hrest.safe hopen

theorem ensures_runUnlinkSource (h : Published w₀ ino file w)
    (hstep : w.operation.step = .unlinkSource) :
    runUnlinkSource.Ensures (fun _ => Published w₀ ino file) (fun _ => Rest w₀ ino file)
      (Safe w₀ ino file) w := by
  have hrest : Rest w₀ ino file w := .inr h
  have hsafe := hrest.safe hopen
  obtain ⟨k, hplaced, hphase⟩ := h
  obtain ⟨hstable, hdurable, -⟩ := (phase_unlinkSource hstep).mp hphase
  rw [runUnlinkSource]
  refine ensures_bind (ensures_state (ensures_bind
    (ensures_checkCancelled hsafe (fun _ => hrest) ?_)))
  refine ensures_bind (ensures_look hsafe (fun _ => hrest) fun _ current _ => ?_)
  split
  · exact ensures_fail hrest
  · rw [hplaced.target.sourceParent, hplaced.target.sourceName]
    refine ensures_bind (ensures_act hsafe (fun _ => hrest) fun count => ?_)
    rw [Disk.unlinkat]
    cases hthere : w.disk.lookup w₀.operation.sourceParent w₀.operation.sourceName with
    | none => exact hrest
    | some j =>
      have hunlinked := hplaced.unlink hopen hstable (by rw [hthere]; exact Option.some_ne_none j)
      by_cases hkind : w.disk.files[j]?.map (·.kind) = some .directory
      · simp only [hkind, if_true]
        exact hrest
      · simp only [hkind, if_false, Bool.false_eq_true]
        refine ensures_setOperation ⟨k, hunlinked, (phase_syncSource rfl).mpr ⟨?_, hdurable, rfl⟩⟩
        show ((w.disk.setEntry _ _ _).dirs _).stable _ = _
        rw [Disk.stable_setEntry]
        exact hstable

theorem ensures_runSyncSource (h : Published w₀ ino file w)
    (hstep : w.operation.step = .syncSource) :
    runSyncSource.Ensures (fun _ => Published w₀ ino file) (fun _ => Rest w₀ ino file)
      (Safe w₀ ino file) w := by
  have hrest : Rest w₀ ino file w := .inr h
  obtain ⟨k, hplaced, hphase⟩ := h
  obtain ⟨hstable, hdurable, hsource⟩ := (phase_syncSource hstep).mp hphase
  have hgone := hplaced.source.gone (by rw [hsource]; nofun)
  rw [runSyncSource]
  refine ensures_bind (ensures_state (ensures_bind ((ensures_syncDirectory _).mono ?_ ?_ ?_)))
  · rintro _ w' rfl
    have hsynced := hplaced.syncDir w.operation.sourceParent
    have hstill : Stable w₀ k { w with disk := w.disk.syncDir w.operation.sourceParent } :=
      hplaced.stable_syncDir (.inr hstable)
    refine ensures_setOperation ⟨k, hsynced.advance _ _ _ w.operation.error ?_, ?_⟩
    · simp [hsource]
    · refine (phase_done rfl).mpr ⟨hstill, rfl, fun _ => ?_⟩
      show ((w.disk.syncDir _).dirs _).stable _ = none
      rw [Disk.stable_syncDir, hplaced.target.sourceParent, if_pos rfl]
      exact hgone
  · rintro _ w' rfl
    exact hrest
  · rintro w' rfl
    exact hrest.safe hopen

/-- **A run**, from whichever step it starts: when it returns, the operation is published. -/
theorem ensures_operationRun (h : Rest w₀ ino file w) :
    operationRun.Ensures (fun _ => Published w₀ ino file) (fun _ => Rest w₀ ino file)
      (Safe w₀ ino file) w := by
  rw [operationRun]
  refine ensures_bind (ensures_setOperation ?_)
  have h₁ := h.setError 0
  generalize { w with operation := { w.operation with error := 0 } } = w₁ at h₁ ⊢
  have hexecute : (whenAt .execute runExecute).Ensures (fun _ => Published w₀ ino file)
      (fun _ => Rest w₀ ino file) (Safe w₀ ino file) w₁ := by
    refine ensures_bind (ensures_state ?_)
    rcases h₁ with hpending | ⟨k, hplaced, hphase⟩
    · rw [if_pos hpending.step]
      exact ensures_runExecute hopen hpending
    · split
      · rename_i hstep
        rw [Phase, hstep] at hphase
        exact hphase.elim
      · exact ensures_pure ⟨k, hplaced, hphase⟩
  refine ensures_handle ((ensures_bind (hexecute.mono ?_ (fun _ _ he => he) fun _ hc => hc)).mono
    (fun _ _ hq => hq) ?_ fun _ hc => hc)
  · intro _ w₂ h₂
    refine ensures_bind ((ensures_whenAt h₂ fun _ => ensures_runSyncDestination hopen).mono ?_
      (fun _ _ he => he) fun _ hc => hc)
    intro _ w₃ h₃
    refine ensures_bind ((ensures_whenAt h₃ fun _ => ensures_runUnlinkSource hopen).mono ?_
      (fun _ _ he => he) fun _ hc => hc)
    intro _ w₄ h₄
    exact ensures_whenAt h₄ fun _ => ensures_runSyncSource hopen
  · intro errno w₂ h₂
    exact ensures_bind (ensures_setOperation (ensures_fail (h₂.setError errno)))

theorem ensures_operationRuns (n : ℕ) : ∀ w, Rest w₀ ino file w →
    (operationRuns n).Ensures (fun _ => Rest w₀ ino file) (fun _ _ => False)
      (Safe w₀ ino file) w := by
  induction n with
  | zero => exact fun w h => ensures_pure h
  | succ n ih =>
    intro w h
    refine ensures_bind (ensures_attempt ((ensures_operationRun hopen h).mono ?_ ?_ fun _ hc => hc))
    · exact fun _ w' hpublished => ih w' (.inr hpublished)
    · exact fun _ w' hrest => ih w' hrest

/-- **No file operation loses data.**  However the calls of any number of runs answer, and
wherever they are stopped, nothing is lost or claimed too soon; and between runs no temporary
file is left, unless a clean-up failed. -/
theorem operationRuns_safe (n : ℕ) :
    (operationRuns n).Ensures (fun _ w => Safe w₀ ino file w ∧ Clean w₀ w) (fun _ _ => False)
      (Safe w₀ ino file) w₀ := by
  have hstart : Pending w₀ none w₀ :=
    ⟨⟨rfl, rfl, rfl, rfl, rfl, hopen.crossDevice, id⟩, hopen.step, hopen.state, hopen.sourceState,
      List.prefix_refl _, fun _ => rfl, fun _ _ _ hk => hk, id, fun _ _ _ hfree => .inl hfree⟩
  exact (ensures_operationRuns hopen n w₀ (.inl hstart)).mono
    (fun _ _ hrest => ⟨hrest.safe hopen, hrest.clean⟩) (fun _ _ he => he) fun _ hc => hc

end Steps

/-! ### A move across devices -/

/-- A file `a` on one device, to be moved to `b` on another. -/
def exampleWorld : World where
  disk :=
    { files := [{ kind := .regular, content := [104, 105] }]
      dirs := fun dir =>
        { device := dir
          entries := fun name => if dir = 1 ∧ name = "a" then some 0 else none
          stable := fun name => if dir = 1 ∧ name = "a" then some 0 else none } }
  operation :=
    { action := .move
      sourceParent := 1
      destinationParent := 2
      sourceName := "a"
      destinationName := "b"
      sourceMetadata := ⟨0, .regular, 2⟩ }
  pid := 7
  nextId := 0

theorem exampleWorld_opened : Opened exampleWorld 0 { kind := .regular, content := [104, 105] } :=
  ⟨.inr (.inl rfl), rfl, rfl, rfl, rfl, rfl, nofun⟩

/-- `operationRuns_safe` for three runs of the move. -/
theorem operationRuns_safe_move :
    (operationRuns 3).Ensures
      (fun _ w => Safe exampleWorld 0 { kind := .regular, content := [104, 105] } w ∧
        Clean exampleWorld w) (fun _ _ => False)
      (Safe exampleWorld 0 { kind := .regular, content := [104, 105] }) exampleWorld :=
  operationRuns_safe exampleWorld_opened 3

end Files
