/-
How a save ends (`fplinux-ui-prefs.c`).

Main results:
- `ensures_save`: the four ways a save ends, and the file when it is stopped between two calls;
- `takes_save`: every save ends, within calls in proportion to the length of the directory;
- `Ends.refines`: a save that ends is a save of the preferences with some faults.
-/
import Fplinux.Ui.PrefsCalls

namespace PrefsSave

open Calls.Prog
open Prefs (State Storage writeItems)
open PrefsPaths

variable {path : Path} {d : Directory} {s s₀ s₁ : Store}

/-! ### The new file -/

/-- The temporary file holds the items, and is synchronized. -/
structure Filled (path : Path) (s₀ s : Store) : Prop where
  prefs : s.prefs = s₀.prefs
  parents : Parents path s
  temporary : s.temporary = some (writeItems s₀.prefs.items)
  history : ∃ added, s.history = .fileSynced (writeItems s₀.prefs.items) :: (added ++ s₀.history) ∧
    ∀ event ∈ added, Preparing event

theorem Filled.prepared (h : Filled path s₀ s) : Prepared path s₀ s := by
  obtain ⟨added, hadded, hall⟩ := h.history
  refine ⟨h.prefs, h.parents, .fileSynced (writeItems s₀.prefs.items) :: added, hadded, ?_⟩
  intro event hevent
  rcases List.mem_cons.mp hevent with rfl | hmem
  · exact .inr ⟨_, rfl⟩
  · exact hall event hmem

theorem Filled.arrive (h : Filled path s₀ s) (appeared : List Path) :
    Filled path s₀ (s.arrive appeared) :=
  ⟨h.prefs, (h.prepared.arrive appeared).parents, h.temporary, h.history⟩

/-- The old file has been replaced. -/
structure Replaced (path : Path) (s₀ : Store) (prefs : State) (s : Store) : Prop where
  prefs : s.prefs = prefs
  parents : Parents path s
  history : ∃ added,
    s.history = .published (writeItems s₀.prefs.items) ::
      .fileSynced (writeItems s₀.prefs.items) :: (added ++ s₀.history) ∧
    ∀ event ∈ added, Preparing event

theorem ensures_writeFile (h : Prepared path s₀ s) :
    (writeFile (writeItems s₀.prefs.items)).Ensures
      (fun _ s' => Prepared path s₀ s' ∧ s'.temporary = some (writeItems s₀.prefs.items))
      (fun _ s' => Prepared path s₀ s') (Intact s₀) s := by
  refine ensures_call h.intact ?_
  intro answer
  have harrive := h.arrive answer.appeared
  have hkept : ∀ temporary, Prepared path s₀
      { s.arrive answer.appeared with temporary := temporary } :=
    fun _ => harrive.congr rfl rfl rfl rfl fun _ hp => hp
  split
  · rename_i hrun
    split at hrun
    · cases hrun
    · cases hrun
      exact ⟨hkept _, rfl⟩
  · rename_i hrun
    split at hrun
    · cases hrun
      exact hkept _
    · cases hrun

theorem ensures_fsyncFile (h : Prepared path s₀ s)
    (htemp : s.temporary = some (writeItems s₀.prefs.items)) :
    fsyncFile.Ensures (fun _ s' => Filled path s₀ s') (fun _ s' => Prepared path s₀ s')
      (Intact s₀) s := by
  refine ensures_sysCall h.intact (fun _ l => h.arrive l) fun answer => ?_
  have hkept := h.arrive answer.appeared
  obtain ⟨added, hadded, hall⟩ := hkept.history
  have htext : (s.arrive answer.appeared).temporary.getD [] = writeItems s₀.prefs.items := by
    show s.temporary.getD [] = _
    rw [htemp]
    rfl
  refine ⟨hkept.prefs, (hkept.fileSynced _).parents, htemp, added, ?_, hall⟩
  show _ :: (s.arrive answer.appeared).history = _
  rw [htext, hadded]

theorem ensures_renameFile (h : Filled path s₀ s) :
    renameFile.Ensures
      (fun _ s' => Replaced path s₀
        { s₀.prefs with file := some (writeItems s₀.prefs.items) } s')
      (fun _ s' => Prepared path s₀ s') (Intact s₀) s := by
  refine ensures_sysCall h.prepared.intact (fun _ l => h.prepared.arrive l) fun answer => ?_
  have hkept := h.arrive answer.appeared
  obtain ⟨added, hadded, hall⟩ := hkept.history
  have htemp := hkept.temporary
  have hprefs := hkept.prefs
  split
  · rename_i hrun
    rw [htemp] at hrun
    cases hrun
    refine ⟨?_, hkept.parents.congr rfl rfl rfl fun _ hp => hp, added, ?_, hall⟩
    · dsimp only
      rw [hprefs]
    · show _ :: (s.arrive answer.appeared).history = _
      rw [hadded]
  · rename_i hrun
    rw [htemp] at hrun
    cases hrun

theorem ensures_replaceFile (h : Prepared path s₀ s) :
    replaceFile.Ensures
      (fun _ s' => Replaced path s₀
        { s₀.prefs with file := some (writeItems s₀.prefs.items) } s')
      (fun _ s' => Prepared path s₀ s') (Intact s₀) s := by
  refine ensures_bind (ensures_plain h.intact (fun _ l => h.arrive l) fun l₁ => ?_)
  have h₁ := h.arrive l₁
  refine ensures_bind (ensures_plain h₁.intact (fun _ l => h₁.arrive l) fun l₂ => ?_)
  have h₂ := h₁.arrive l₂
  refine ensures_bind (ensures_state ?_)
  rw [h₂.prefs]
  refine ensures_bind (ensures_handle (ensures_bind ((ensures_writeFile h₂).mono ?_ ?_
    fun _ hc => hc)))
  · intro _ s₃ h₃
    refine (ensures_fsyncFile h₃.1 h₃.2).mono ?_ (fun _ _ he => ensures_fail he) fun _ hc => hc
    intro _ s₄ h₄
    refine ensures_bind (ensures_plain h₄.prepared.intact (fun _ l => h₄.prepared.arrive l) ?_)
    intro l₅
    exact ensures_renameFile (h₄.arrive l₅)
  · intro errno s₃ h₃
    exact ensures_fail h₃

theorem ensures_discard {Q : Unit → Store → Prop} (h : Prepared path s₀ s) (errno : ℕ) :
    (discard errno).Ensures Q (fun _ s' => Prepared path s₀ s') (Intact s₀) s := by
  refine ensures_bind (ensures_attempt (ensures_sysCall h.intact
    (fun _ l => ensures_fail (h.arrive l)) fun answer => ensures_fail ?_))
  exact (h.arrive answer.appeared).congr rfl rfl rfl rfl fun _ hp => hp

/-- The preferences after the rename. -/
def afterRename (prefs : State) : State :=
  { prefs with
    changed := false
    pendingSync := true
    file := some (writeItems prefs.items) }

theorem ensures_publish (h : Parents d.path s₀) :
    (publish d).Ensures (fun _ s' => Replaced d.path s₀ (afterRename s₀.prefs) s')
      (fun _ s' => Prepared d.path s₀ s') (Intact s₀) s₀ := by
  refine ensures_bind ((ensures_prepareDirectory (Prepared.refl h)).mono ?_ (fun _ _ he => he)
    fun _ hc => hc)
  intro _ s₁ h₁
  have htemporary : (makeTemporary d).Ensures (fun _ s' => Prepared d.path s₀ s')
      (fun _ s' => Prepared d.path s₀ s') (Intact s₀) s₁ := by
    rw [makeTemporary]
    split
    · exact ensures_fail h₁
    · refine ensures_sysCall h₁.intact (fun _ l => h₁.arrive l) fun answer => ?_
      exact (h₁.arrive answer.appeared).congr rfl rfl rfl rfl fun _ hp => hp
  refine ensures_bind (htemporary.mono ?_ (fun _ _ he => he) fun _ hc => hc)
  intro _ s₂ h₂
  refine ensures_bind (ensures_handle ((ensures_replaceFile h₂).mono ?_
    (fun errno _ he => ensures_discard he errno) fun _ hc => hc))
  intro _ s₃ h₃
  refine ensures_modify ⟨?_, h₃.parents.congr rfl rfl rfl fun _ hp => hp, h₃.history⟩
  show { s₃.prefs with changed := false, pendingSync := true } = _
  rw [h₃.prefs]
  rfl

/-! ### The ends of a save -/

/-- The published file waits to be synchronized: from before, or since just now. -/
def Awaits (path : Path) (s₀ s : Store) : Prop :=
  (s₀.prefs.changed = false ∧ s₀.prefs.pendingSync = true ∧ s = s₀) ∨
    (s₀.prefs.changed = true ∧ Replaced path s₀ (afterRename s₀.prefs) s)

/-- The ways a save ends. -/
inductive Ends (path : Path) (s₀ : Store) : Storage → Store → Prop
  | quiet : s₀.prefs.changed = false → s₀.prefs.pendingSync = false →
      Ends path s₀ ⟨.durable, 0⟩ s₀
  | unpublished {errno : ℕ} {s : Store} : s₀.prefs.changed = true → Prepared path s₀ s →
      Ends path s₀ ⟨.unpublished, errno⟩ s
  | unsynced {errno : ℕ} {s₁ s : Store} : Awaits path s₀ s₁ → Walked path s₁ (fun _ => False) s →
      Ends path s₀ ⟨.publishedUnsynced, errno⟩ s
  | durable {s₁ s : Store} : Awaits path s₀ s₁ → Walked path s₁ (Due path s₁) s →
      Ends path s₀ ⟨.durable, 0⟩
        { s with prefs := { s.prefs with pendingSync := false }, parentsUnsynced := false }

theorem Parents.stop (h : Parents path s) (hunsynced : s.parentsUnsynced = true) :
    Ancestor path s.parentSyncStop := by
  obtain ⟨first, hbound, hstop, -⟩ := h.first_made hunsynced
  rw [hstop]
  exact ancestor_parentLength hbound

theorem Awaits.parents (h : Awaits path s₀ s) (h₀ : Parents path s₀) : Parents path s := by
  rcases h with ⟨-, -, rfl⟩ | ⟨-, hreplaced⟩
  · exact h₀
  · exact hreplaced.parents

theorem Awaits.intact (h : Awaits path s₀ s) : Intact s₀ s := by
  rcases h with ⟨-, -, rfl⟩ | ⟨-, hreplaced⟩
  · exact .inl rfl
  · exact .inr (by rw [hreplaced.prefs]; rfl)

theorem ensures_synchronize (h₀ : Parents d.path s₀) (h : Awaits d.path s₀ s) :
    (synchronize d.path).Ensures (Ends d.path s₀) (fun _ _ => False) (Intact s₀) s := by
  refine ensures_bind (ensures_attempt ((ensures_syncPublication d.ne (h.parents h₀).stop).mono
    ?_ ?_ ?_))
  · intro _ s' hwalked
    exact ensures_bind (ensures_modify (ensures_pure (.durable h hwalked)))
  · intro errno s' hwalked
    exact ensures_pure (.unsynced h hwalked)
  · intro s' hfile
    rcases h.intact with hold | hnew
    · exact .inl (hfile.trans hold)
    · exact .inr (hfile.trans hnew)

/-- **The four ways a save ends**, and the file when it is stopped. -/
theorem ensures_save (h : Parents d.path s₀) :
    (save d).Ensures (Ends d.path s₀) (fun _ _ => False) (Intact s₀) s₀ := by
  refine ensures_bind (ensures_state ?_)
  split
  · rename_i hsaved
    split
    · rename_i hpending
      exact ensures_synchronize h (.inl ⟨hsaved, hpending, rfl⟩)
    · rename_i hpending
      exact ensures_pure (.quiet hsaved (eq_false_of_ne_true hpending))
  · rename_i hchanged
    have hchanged' : s₀.prefs.changed = true := eq_true_of_ne_false hchanged
    refine ensures_bind (ensures_attempt ((ensures_publish h).mono ?_ ?_ fun _ hc => hc))
    · intro _ s' hreplaced
      exact ensures_synchronize h (.inr ⟨hchanged', hreplaced⟩)
    · intro errno s' hprepared
      exact ensures_pure (.unpublished hchanged' hprepared)

theorem Awaits.save (h : Awaits path s₀ s) (error : Option ℕ) :
    Prefs.save s₀.prefs ⟨true, none, error⟩ = Prefs.synchronize s.prefs ⟨true, none, error⟩ := by
  rcases h with ⟨hsaved, hpending, rfl⟩ | ⟨hchanged, hreplaced⟩
  · rw [Prefs.save, if_pos hsaved, if_pos hpending]
  · rw [Prefs.save, if_neg (by simp [hchanged]), hreplaced.prefs]
    rfl

/-- **A save that ends is a save of the preferences**, with the faults it met. -/
theorem Ends.refines {result : Storage} (h : Ends path s₀ result s) :
    ∃ faults, Prefs.save s₀.prefs faults = (result, s.prefs) := by
  cases h with
  | quiet hsaved hpending =>
    refine ⟨⟨true, none, none⟩, ?_⟩
    rw [Prefs.save, if_pos hsaved, hpending]
    rfl
  | @unpublished errno s hchanged hprepared =>
    refine ⟨⟨true, some errno, none⟩, ?_⟩
    rw [Prefs.save, if_neg (by simp [hchanged]), hprepared.prefs]
  | @unsynced errno s₁ s hawaits hwalked =>
    refine ⟨⟨true, none, some errno⟩, ?_⟩
    rw [hwalked.prefs, hawaits.save]
    rfl
  | @durable s₁ s hawaits hwalked =>
    refine ⟨⟨true, none, none⟩, ?_⟩
    show _ = (_, { s.prefs with pendingSync := false })
    rw [hwalked.prefs, hawaits.save]
    rfl

/-! ### The calls of a save -/

theorem takes_prepareAt (length : ℕ) : (prepareAt path length).Takes 3 s := by
  rw [prepareAt]
  split
  · have hcreate : ∀ t, (createDirectory path length).Takes (1 + 0) t := by
      intro t
      refine takes_seq (takes_attempt takes_sysCall) ?_
      intro made _
      cases made with
      | ok _ => exact takes_modify
      | error errno =>
        show (if errno = eExist then pure () else fail errno : Sys Unit).Takes 0 _
        split
        · exact takes_pure
        · exact takes_fail
    have hfound : ∀ errno t, (if errno ≠ eNoEnt then fail errno else do
        createDirectory path length
        stat (path.take length) : Sys Bool).Takes 2 t := by
      intro errno t
      split
      · exact takes_fail.mono (by omega)
      · exact takes_seq (hcreate t) (fun _ _ => takes_sysCall)
    have hstat : ((stat (path.take length)).handle fun errno =>
        if errno ≠ eNoEnt then fail errno else do
          createDirectory path length
          stat (path.take length)).Takes (1 + 2) s :=
      takes_rescue takes_sysCall hfound
    refine takes_seq (n := 0) hstat ?_
    intro isDirectory _
    rw [checkDirectory]
    split
    · exact takes_pure
    · exact takes_fail
  · exact takes_pure.mono (by omega)

theorem takes_prepareComponents (left : ℕ) : ∀ (length : ℕ) (s : Store),
    (prepareComponents path length left).Takes (3 * left) s := by
  induction left with
  | zero => exact fun _ _ => takes_pure
  | succ left ih =>
    intro length s
    refine (takes_seq (takes_prepareAt length) (fun _ _ => ih _ _)).mono (by omega)

theorem takes_prepareDirectory : (prepareDirectory path).Takes (3 * path.length + 3) s := by
  refine takes_seq (takes_prepareComponents _ _ _) ?_
  intro _ _
  refine takes_seq (n := 2) takes_plain ?_
  intro _ _
  refine takes_seq (n := 1) takes_sysCall ?_
  intro status _
  rw [checkOwner]
  split
  · exact takes_fail.mono (by omega)
  · split
    · exact takes_plain
    · exact takes_pure.mono (by omega)

theorem takes_replaceFile : replaceFile.Takes 6 s := by
  refine takes_seq (n := 5) takes_plain ?_
  intro _ _
  refine takes_seq (n := 4) takes_plain ?_
  intro _ t
  refine takes_bind (n := 4) takes_state (ensures_state ?_)
  have hfill : (do
      writeFile (writeItems t.prefs.items)
      fsyncFile : Sys Unit).Takes (1 + 1) t :=
    takes_seq takes_call (fun _ _ => takes_sysCall)
  refine takes_seq (n := 2) (takes_rescue (n := 0) hfill (fun _ _ => takes_fail)) ?_
  intro _ _
  exact takes_seq takes_plain (fun _ _ => takes_sysCall)

theorem takes_publish : (publish d).Takes (3 * d.path.length + 11) s := by
  refine takes_seq (n := 8) takes_prepareDirectory ?_
  intro _ s₁
  have htemporary : (makeTemporary d).Takes 1 s₁ := by
    rw [makeTemporary]
    split
    · exact takes_fail.mono (by omega)
    · exact takes_sysCall
  refine takes_seq (n := 7) htemporary ?_
  intro _ s₂
  have hdiscard : ∀ errno t, (discard errno).Takes (1 + 0) t := by
    intro errno t
    exact takes_seq (takes_attempt takes_sysCall) (fun _ _ => takes_fail)
  exact takes_seq (n := 0) (takes_rescue takes_replaceFile hdiscard) (fun _ _ => takes_modify)

theorem takes_synchronize (h : Parents d.path s) :
    (synchronize d.path).Takes (4 * (d.path.length + 1)) s := by
  refine takes_seq (n := 0) (takes_attempt (takes_syncPublication d.ne h.stop))
    ?_
  intro synced _
  cases synced with
  | ok _ =>
    exact takes_seq takes_modify (fun _ _ => takes_pure)
  | error errno => exact takes_pure

/-- **Every save ends.** -/
theorem takes_save (h : Parents d.path s) : (save d).Takes (7 * d.path.length + 15) s := by
  have hsync : ∀ t, Parents d.path t →
      (synchronize d.path).Takes (4 * d.path.length + 4) t := by
    intro t ht
    exact (takes_synchronize ht).mono (by omega)
  refine (takes_bind (n := 7 * d.path.length + 15) takes_state (ensures_state ?_)).mono (by omega)
  split
  · split
    · exact (hsync s h).mono (by omega)
    · exact takes_pure.mono (by omega)
  · refine Takes.mono (takes_bind (n := 4 * d.path.length + 4) (takes_attempt takes_publish)
      (ensures_attempt ((ensures_publish h).mono ?_ ?_ fun _ _ => trivial))) (by omega)
    · intro _ s' hreplaced
      exact hsync s' hreplaced.parents
    · intro errno s' _
      exact takes_pure.mono (by omega)

end PrefsSave
