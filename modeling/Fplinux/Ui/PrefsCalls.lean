/-
What a save does, whatever its calls answer (`fplinux-ui-prefs.c`).

Main results:
- `ensures_save`: the four ways a save ends, and what the file is when it is stopped between two
  calls;
- `takes_syncPublication`, `takes_save`: the walk up the ancestors ends, and with it every save.
-/
import Fplinux.Ui.PrefsSave

namespace PrefsSave

open Calls.Prog
open Prefs (writeItems)
open PrefsPaths

variable {α : Type} {path : Path} {s s₀ s₁ : Store} {length : ℕ} {Q : α → Store → Prop}
  {E : ℕ → Store → Prop} {C : Store → Prop}

/-! ### Calls -/

theorem ensures_sysCall {f : Answer → Store → Except ℕ α × Store} (hstop : C s)
    (herror : ∀ errno appeared, E errno (s.arrive appeared))
    (hdone : ∀ answer, match f answer (s.arrive answer.appeared) with
      | (.ok value, s') => Q value s'
      | (.error errno, s') => E errno s') : (sysCall f).Ensures Q E C s := by
  refine ensures_call hstop ?_
  intro answer
  split
  · rename_i hrun
    split at hrun
    · cases hrun
    · have hmatch := hdone answer
      rw [hrun] at hmatch
      exact hmatch
  · rename_i hrun
    split at hrun
    · cases hrun
      exact herror _ _
    · have hmatch := hdone answer
      rw [hrun] at hmatch
      exact hmatch

theorem ensures_plain {Q : Unit → Store → Prop} (hstop : C s)
    (herror : ∀ errno appeared, E errno (s.arrive appeared))
    (hdone : ∀ appeared, Q () (s.arrive appeared)) : plain.Ensures Q E C s :=
  ensures_sysCall hstop herror fun answer => hdone answer.appeared

theorem takes_sysCall {f : Answer → Store → Except ℕ α × Store} : (sysCall f).Takes 1 s :=
  takes_call

/-! ### Directories that are made -/

/-- The directories made since a save last returned `DURABLE`. -/
def outstanding : List Event → List ℕ
  | [] => []
  | event :: rest =>
    match event with
    | .made length => length :: outstanding rest
    | .returned state => if state = .durable then [] else outstanding rest
    | .fileSynced _ => outstanding rest
    | .published _ => outstanding rest
    | .directorySynced _ => outstanding rest

/-- What the store remembers of the directories it made: the first of them is the topmost. -/
structure Parents (path : Path) (s : Store) : Prop where
  none_made : s.parentsUnsynced = false → outstanding s.history = []
  first_made : s.parentsUnsynced = true → ∃ first, Boundary path first ∧
    s.parentSyncStop = parentLength path first ∧
    (∀ n ∈ outstanding s.history, first ≤ n) ∧
    ∀ i, Boundary path i → i < first → path.take i ∈ s.present

theorem Parents.mono (h : Parents path s) (hunsynced : s₁.parentsUnsynced = s.parentsUnsynced)
    (hstop : s₁.parentSyncStop = s.parentSyncStop)
    (hmade : outstanding s₁.history ⊆ outstanding s.history)
    (hpresent : ∀ p ∈ s.present, p ∈ s₁.present) : Parents path s₁ := by
  constructor
  · intro hnone
    rw [h.none_made (hunsynced ▸ hnone)] at hmade
    exact List.subset_nil.mp hmade
  · intro hsome
    obtain ⟨first, hbound, heq, hle, hbelow⟩ := h.first_made (hunsynced ▸ hsome)
    refine ⟨first, hbound, hstop.trans heq, fun n hn => hle n (hmade hn), ?_⟩
    intro i hi hlt
    exact hpresent _ (hbelow i hi hlt)

theorem Parents.congr (h : Parents path s) (hunsynced : s₁.parentsUnsynced = s.parentsUnsynced)
    (hstop : s₁.parentSyncStop = s.parentSyncStop)
    (hmade : outstanding s₁.history = outstanding s.history)
    (hpresent : ∀ p ∈ s.present, p ∈ s₁.present) : Parents path s₁ :=
  h.mono hunsynced hstop (hmade ▸ List.Subset.refl _) hpresent

/-- What happens before the rename. -/
def Preparing (event : Event) : Prop :=
  (∃ length, event = .made length) ∨ ∃ text, event = .fileSynced text

/-- A save before its rename. -/
structure Prepared (path : Path) (s₀ s : Store) : Prop where
  prefs : s.prefs = s₀.prefs
  parents : Parents path s
  history : ∃ added, s.history = added ++ s₀.history ∧ ∀ event ∈ added, Preparing event

/-- The old file or the new one. -/
def Intact (s₀ s : Store) : Prop :=
  s.prefs.file = s₀.prefs.file ∨ s.prefs.file = some (writeItems s₀.prefs.items)

theorem Prepared.refl (h : Parents path s) : Prepared path s s :=
  ⟨rfl, h, [], rfl, by simp⟩

theorem Prepared.intact (h : Prepared path s₀ s) : Intact s₀ s := .inl (by rw [h.prefs])

theorem Prepared.congr (h : Prepared path s₀ s) (hprefs : s₁.prefs = s.prefs)
    (hunsynced : s₁.parentsUnsynced = s.parentsUnsynced)
    (hstop : s₁.parentSyncStop = s.parentSyncStop) (hhistory : s₁.history = s.history)
    (hpresent : ∀ p ∈ s.present, p ∈ s₁.present) : Prepared path s₀ s₁ :=
  ⟨hprefs.trans h.prefs, h.parents.congr hunsynced hstop (congrArg _ hhistory) hpresent,
    hhistory ▸ h.history⟩

theorem Prepared.arrive (h : Prepared path s₀ s) (appeared : List Path) :
    Prepared path s₀ (s.arrive appeared) :=
  h.congr rfl rfl rfl rfl fun _ hp => List.mem_append_right _ hp

theorem Prepared.fileSynced (h : Prepared path s₀ s) (text : List UInt8) :
    Prepared path s₀ (s.log (.fileSynced text)) := by
  obtain ⟨added, hadded, hall⟩ := h.history
  refine ⟨h.prefs, h.parents.congr rfl rfl rfl fun _ hp => hp, .fileSynced text :: added,
    ?_, ?_⟩
  · show _ :: s.history = _
    rw [hadded]
    rfl
  · intro event hevent
    rcases List.mem_cons.mp hevent with rfl | hmem
    · exact .inr ⟨text, rfl⟩
    · exact hall event hmem

/-- The components before a length have been found. -/
def Below (path : Path) (length : ℕ) (s : Store) : Prop :=
  ∀ i, Boundary path i → i < length → path.take i ∈ s.present

theorem Below.arrive (h : Below path length s) (appeared : List Path) :
    Below path length (s.arrive appeared) :=
  fun i hi hlt => List.mem_append_right _ (h i hi hlt)

theorem Prepared.made (h : Prepared path s₀ s) (hbound : Boundary path length)
    (hbelow : Below path length s) (hnew : path.take length ∉ s.present) :
    Prepared path s₀ (rememberParent path length
      { s.log (.made length) with present := path.take length :: s.present }) := by
  obtain ⟨added, hadded, hall⟩ := h.history
  have hprefs : ∀ t : Store, (rememberParent path length t).prefs = t.prefs ∧
      (rememberParent path length t).history = t.history := by
    intro t
    rw [rememberParent]
    split
    · exact ⟨rfl, rfl⟩
    · exact ⟨rfl, rfl⟩
  refine ⟨(hprefs _).1.trans h.prefs, ?_, .made length :: added, ?_, ?_⟩
  · rw [rememberParent]
    split
    · rename_i hunsynced
      refine ⟨fun hnone => absurd (hunsynced.symm.trans hnone) (by simp), fun _ => ?_⟩
      obtain ⟨first, hfirst, hstop, hle, hfound⟩ := h.parents.first_made hunsynced
      -- what lies above the first directory is there, so this one lies below it
      have hlow : first ≤ length := by
        by_contra hlt
        exact hnew (hfound length hbound (by omega))
      refine ⟨first, hfirst, hstop, ?_, fun i hi hlt => List.mem_cons_of_mem _ (hfound i hi hlt)⟩
      intro n hn
      rcases List.mem_cons.mp hn with rfl | hmem
      · exact hlow
      · exact hle n hmem
    · rename_i hunsynced
      have hnone : outstanding s.history = [] := h.parents.none_made (eq_false_of_ne_true hunsynced)
      refine ⟨fun hfalse => absurd hfalse (by simp), fun _ => ?_⟩
      refine ⟨length, hbound, rfl, ?_, fun i hi hlt => List.mem_cons_of_mem _ (hbelow i hi hlt)⟩
      intro n hn
      have hn' : n ∈ length :: outstanding s.history := hn
      rw [hnone, List.mem_singleton] at hn'
      exact Nat.le_of_eq hn'.symm
  · rw [(hprefs _).2]
    show _ :: s.history = _
    rw [hadded]
    rfl
  · intro event hevent
    rcases List.mem_cons.mp hevent with rfl | hmem
    · exact .inl ⟨length, rfl⟩
    · exact hall event hmem

/-! ### Preparing the directory -/

theorem ensures_stat (h : Prepared path s₀ s) (hbelow : Below path length s) :
    (stat (path.take length)).Ensures
      (fun _ s' => Prepared path s₀ s' ∧ Below path (length + 1) s')
      (fun _ s' => Prepared path s₀ s' ∧ Below path length s') (Intact s₀) s := by
  refine ensures_sysCall h.intact (fun _ appeared => ⟨h.arrive appeared, hbelow.arrive appeared⟩) ?_
  intro answer
  by_cases hmem : path.take length ∈ (s.arrive answer.appeared).present
  · rw [if_pos (List.contains_iff_mem.mpr hmem)]
    refine ⟨h.arrive _, ?_⟩
    intro i hi hlt
    by_cases heq : i = length
    · rw [heq]
      exact hmem
    · exact hbelow.arrive _ i hi (by omega)
  · rw [if_neg (mt List.contains_iff_mem.mp hmem)]
    exact ⟨h.arrive _, hbelow.arrive _⟩

theorem ensures_createDirectory (h : Prepared path s₀ s) (hbound : Boundary path length)
    (hbelow : Below path length s) :
    (createDirectory path length).Ensures (fun _ s' => Prepared path s₀ s' ∧ Below path length s')
      (fun _ s' => Prepared path s₀ s') (Intact s₀) s := by
  -- between the call and what is remembered of it the two do not agree
  have hmkdir : (mkdir path length).Ensures
      (fun _ s' => Prepared path s₀ (rememberParent path length s') ∧
        Below path length (rememberParent path length s'))
      (fun _ s' => Prepared path s₀ s' ∧ Below path length s') (Intact s₀) s := by
    refine ensures_sysCall h.intact (fun _ appeared => ⟨h.arrive appeared, hbelow.arrive _⟩) ?_
    intro answer
    by_cases hmem : path.take length ∈ (s.arrive answer.appeared).present
    · rw [if_pos (List.contains_iff_mem.mpr hmem)]
      exact ⟨h.arrive _, hbelow.arrive _⟩
    · rw [if_neg (mt List.contains_iff_mem.mp hmem)]
      refine ⟨(h.arrive _).made hbound (hbelow.arrive _) hmem, ?_⟩
      intro i hi hlt
      have hfound := hbelow.arrive answer.appeared i hi hlt
      rw [rememberParent]
      split
      · exact List.mem_cons_of_mem _ hfound
      · exact List.mem_cons_of_mem _ hfound
  refine ensures_bind (ensures_attempt (hmkdir.mono ?_ ?_ fun _ hc => hc))
  · intro _ s' hmade
    exact ensures_modify hmade
  · intro errno s' hkept
    show (if errno = eExist then pure () else fail errno : Sys Unit).Ensures _ _ _ _
    split
    · exact ensures_pure hkept
    · exact ensures_fail hkept.1

theorem ensures_prepareComponent (h : Prepared path s₀ s) (hbound : Boundary path length)
    (hbelow : Below path length s) :
    (prepareComponent path length).Ensures
      (fun _ s' => Prepared path s₀ s' ∧ Below path (length + 1) s')
      (fun _ s' => Prepared path s₀ s') (Intact s₀) s := by
  refine ensures_bind (ensures_handle ((ensures_stat h hbelow).mono ?_ ?_ fun _ hc => hc))
  · intro isDirectory s' hfound
    rw [checkDirectory]
    split
    · exact ensures_pure hfound
    · exact ensures_fail hfound.1
  · intro errno s' hkept
    split
    · exact ensures_fail hkept.1
    · refine ensures_bind ((ensures_createDirectory hkept.1 hbound hkept.2).mono ?_
        (fun _ _ he => he) fun _ hc => hc)
      intro _ t hmade
      refine (ensures_stat hmade.1 hmade.2).mono ?_ (fun _ _ he => he.1) fun _ hc => hc
      intro isDirectory t' hfound
      rw [checkDirectory]
      split
      · exact ensures_pure hfound
      · exact ensures_fail hfound.1

theorem ensures_prepareComponents (left : ℕ) : ∀ (length : ℕ) (s : Store),
    Prepared path s₀ s → Below path length s →
      (prepareComponents path length left).Ensures (fun _ s' => Prepared path s₀ s')
        (fun _ s' => Prepared path s₀ s') (Intact s₀) s := by
  induction left with
  | zero => exact fun _ _ h _ => ensures_pure h
  | succ left ih =>
    intro length s h hbelow
    have hat : (prepareAt path length).Ensures
        (fun _ s' => Prepared path s₀ s' ∧ Below path (length + 1) s')
        (fun _ s' => Prepared path s₀ s') (Intact s₀) s := by
      rw [prepareAt]
      split
      · rename_i hbound
        exact ensures_prepareComponent h hbound hbelow
      · rename_i hbound
        refine ensures_pure ⟨h, fun i hi hlt => hbelow i hi ?_⟩
        by_contra hge
        obtain rfl : i = length := by omega
        exact hbound hi
    refine ensures_bind (hat.mono ?_ (fun _ _ he => he) fun _ hc => hc)
    intro _ s' hfound
    exact ih _ _ hfound.1 hfound.2

theorem ensures_prepareDirectory (h : Prepared path s₀ s) :
    (prepareDirectory path).Ensures (fun _ s' => Prepared path s₀ s')
      (fun _ s' => Prepared path s₀ s') (Intact s₀) s := by
  have hbelow : Below path 1 s := by
    intro i hi hlt
    have hpos := hi.1
    omega
  refine ensures_bind ((ensures_prepareComponents _ _ _ h hbelow).mono ?_ (fun _ _ he => he)
    fun _ hc => hc)
  intro _ s₁ h₁
  refine ensures_bind (ensures_plain h₁.intact (fun _ l => h₁.arrive l) fun l₂ => ?_)
  have h₂ := h₁.arrive l₂
  refine ensures_bind (ensures_sysCall h₂.intact (fun _ l => h₂.arrive l) fun answer => ?_)
  have h₃ := h₂.arrive answer.appeared
  show (checkOwner (answer.owned, answer.mode)).Ensures _ _ _ _
  rw [checkOwner]
  split
  · exact ensures_fail h₃
  · split
    · exact ensures_plain h₃.intact (fun _ l => h₃.arrive l) fun l => h₃.arrive l
    · exact ensures_pure h₃

/-! ### The walk up the ancestors -/

/-- A walk that has synchronized the directories in `done`. -/
structure Walked (path : Path) (s₀ : Store) (done : ℕ → Prop) (s : Store) : Prop where
  prefs : s.prefs = s₀.prefs
  unsynced : s.parentsUnsynced = s₀.parentsUnsynced
  stop : s.parentSyncStop = s₀.parentSyncStop
  present : ∀ p ∈ s₀.present, p ∈ s.present
  history : ∃ added, s.history = added ++ s₀.history ∧
    (∀ event ∈ added, ∃ p, event = .directorySynced p) ∧
    ∀ a, done a → .directorySynced (ancestorPath path a) ∈ added

variable {done done' : ℕ → Prop}

theorem Walked.refl (s₀ : Store) : Walked path s₀ (fun _ => False) s₀ :=
  ⟨rfl, rfl, rfl, fun _ hp => hp, [], rfl, by simp, fun _ h => h.elim⟩

theorem Walked.mono (h : Walked path s₀ done s) (hsub : ∀ a, done' a → done a) :
    Walked path s₀ done' s := by
  obtain ⟨added, hadded, hall, hdone⟩ := h.history
  exact ⟨h.prefs, h.unsynced, h.stop, h.present, added, hadded, hall,
    fun a ha => hdone a (hsub a ha)⟩

theorem Walked.arrive (h : Walked path s₀ done s) (appeared : List Path) :
    Walked path s₀ done (s.arrive appeared) :=
  ⟨h.prefs, h.unsynced, h.stop, fun p hp => List.mem_append_right _ (h.present p hp), h.history⟩

theorem Walked.file (h : Walked path s₀ done s) : s.prefs.file = s₀.prefs.file := by
  rw [h.prefs]

theorem Walked.log (h : Walked path s₀ done s) (length : ℕ) :
    Walked path s₀ (fun a => done a ∨ a = length)
      (s.log (.directorySynced (ancestorPath path length))) := by
  obtain ⟨added, hadded, hall, hdone⟩ := h.history
  refine ⟨h.prefs, h.unsynced, h.stop, h.present,
    .directorySynced (ancestorPath path length) :: added, ?_, ?_, ?_⟩
  · show _ :: s.history = _
    rw [hadded]
    rfl
  · intro event hevent
    rcases List.mem_cons.mp hevent with rfl | hmem
    · exact ⟨_, rfl⟩
    · exact hall event hmem
  · rintro a (ha | rfl)
    · exact List.mem_cons_of_mem _ (hdone a ha)
    · exact List.mem_cons_self ..

theorem ensures_syncDirectory (h : Walked path s₀ done s) (length : ℕ) :
    (syncDirectory (ancestorPath path length)).Ensures
      (fun _ s' => Walked path s₀ (fun a => done a ∨ a = length) s')
      (fun _ s' => Walked path s₀ done s') (fun s' => s'.prefs.file = s₀.prefs.file) s := by
  refine ensures_bind (ensures_plain h.file (fun _ l => h.arrive l) fun l => ?_)
  have hopen := h.arrive l
  exact ensures_sysCall hopen.file (fun _ l' => hopen.arrive l') fun answer =>
    (hopen.arrive answer.appeared).log length

/-- What a publication has to synchronize: the directory, and what lies above as far as
directories were made. -/
def Due (path : Path) (s : Store) (a : ℕ) : Prop :=
  Ancestor path a ∧
    (a = dropSlashes path path.length ∨ (s.parentsUnsynced = true ∧ s.parentSyncStop ≤ a))

/-- Where the walk is at the start of a turn. -/
structure At (path : Path) (s₀ : Store) (length : ℕ) (s : Store) : Prop where
  ancestor : Ancestor path length
  pos : 0 < length
  stop_le : s₀.parentsUnsynced = true → s₀.parentSyncStop ≤ length
  walked : Walked path s₀ (fun a => Ancestor path a ∧ length < a) s

/-- **A turn of the walk** that does not stop goes on at the next directory above. -/
theorem At.next (h : At path s₀ length s)
    (hstop : s₀.parentsUnsynced = true → Ancestor path s₀.parentSyncStop)
    (hunsynced : s₀.parentsUnsynced = true) (hne : length ≠ s₀.parentSyncStop) :
    parentLength path length < length ∧ Ancestor path (parentLength path length) ∧
      s₀.parentSyncStop ≤ parentLength path length ∧
      ∀ a, Ancestor path a → parentLength path length < a → length ≤ a := by
  have hle := h.stop_le hunsynced
  have hanc := hstop hunsynced
  have hpos := h.pos
  -- at the root the remembered length is the root's
  have hroot : ¬ (length = 1 ∧ path[0]? = some slash) := by
    rintro ⟨hone, hslash⟩
    have hstop1 := hanc.one_le hslash
    omega
  have hbound := h.ancestor.boundary h.pos hroot
  refine ⟨parentLength_lt h.ancestor h.pos hroot, ancestor_parentLength hbound,
    le_parentLength hbound.2.1 hanc (h.ancestor.above hroot (by omega)), ?_⟩
  intro a ha hlt
  by_contra hge
  have hup := le_parentLength hbound.2.1 ha (h.ancestor.above hroot (by omega))
  omega

theorem ensures_syncTurn (hpath : path ≠ [])
    (hstop : s₀.parentsUnsynced = true → Ancestor path s₀.parentSyncStop)
    (h : At path s₀ length s) :
    (syncTurn path length).Ensures
      (fun next s' => match next with
        | .inl length' => At path s₀ length' s' ∧ length' < length
        | .inr () => Walked path s₀ (Due path s₀) s')
      (fun _ s' => Walked path s₀ (fun _ => False) s')
      (fun s' => s'.prefs.file = s₀.prefs.file) s := by
  refine ensures_bind ((ensures_syncDirectory h.walked length).mono ?_
    (fun _ _ he => he.mono fun _ hfalse => hfalse.elim) fun _ hc => hc)
  intro _ t ht
  have hupto : ∀ a, Ancestor path a → length ≤ a →
      (Ancestor path a ∧ length < a) ∨ a = length := by
    intro a ha hle
    rcases Nat.lt_or_ge length a with hlt | hge
    · exact .inl ⟨ha, hlt⟩
    · exact .inr (Nat.le_antisymm hge hle)
  have htop := le_dropSlashes h.ancestor hpath
  refine ensures_bind (ensures_state ?_)
  split
  · -- it stops here
    rename_i hend
    rw [ht.unsynced, ht.stop] at hend
    refine ensures_pure (ht.mono ?_)
    rintro a ⟨ha, rfl | ⟨hunsynced, hle⟩⟩
    · exact hupto _ ha htop
    · rcases hend with hnone | heq
      · exact absurd (hunsynced.symm.trans hnone) (by simp)
      · exact hupto a ha (heq ▸ hle)
  · rename_i hgo
    rw [not_or, ht.unsynced, ht.stop] at hgo
    have hunsynced : s₀.parentsUnsynced = true := eq_true_of_ne_false hgo.1
    obtain ⟨hlt, hparent, hle, hnext⟩ := h.next hstop hunsynced hgo.2
    split
    · -- the working directory is the last
      rename_i hzero
      refine ensures_bind ((ensures_syncDirectory ht 0).mono ?_
        (fun _ _ he => he.mono fun _ hfalse => hfalse.elim) fun _ hc => hc)
      intro _ t' ht'
      refine ensures_pure (ht'.mono ?_)
      rintro a ⟨ha, -⟩
      by_cases h0 : a = 0
      · exact .inr h0
      · exact .inl (hupto a ha (hnext a ha (by omega)))
    · rename_i hzero
      refine ensures_pure ⟨⟨hparent, by omega, fun _ => hle, ht.mono ?_⟩, hlt⟩
      rintro a ⟨ha, hlta⟩
      exact hupto a ha (hnext a ha hlta)

theorem at_start (hpath : path ≠ [])
    (hstop : s₀.parentsUnsynced = true → Ancestor path s₀.parentSyncStop) :
    At path s₀ (dropSlashes path path.length) s₀ := by
  have hbound := boundary_length hpath
  refine ⟨boundary_dropSlashes hbound, (dropSlashes_spec path path.length).pos hbound.1,
    fun hunsynced => le_dropSlashes (hstop hunsynced) hpath, (Walked.refl s₀).mono ?_⟩
  rintro a ⟨ha, hlt⟩
  have hle := le_dropSlashes ha hpath
  omega

/-- **A publication that is synchronized has all of it synchronized.** -/
theorem ensures_syncPublication (hpath : path ≠ [])
    (hstop : s₀.parentsUnsynced = true → Ancestor path s₀.parentSyncStop) :
    (syncPublication path).Ensures (fun _ s' => Walked path s₀ (Due path s₀) s')
      (fun _ s' => Walked path s₀ (fun _ => False) s')
      (fun s' => s'.prefs.file = s₀.prefs.file) s₀ := by
  refine ensures_repeat (fun _ _ h => h.walked.file) ?_ (at_start hpath hstop)
  intro length s h
  refine (ensures_syncTurn hpath hstop h).mono ?_ (fun _ _ he => he) fun _ hc => hc
  intro next s' hnext
  cases next with
  | inl length' => exact hnext.1
  | inr _ => exact hnext

theorem takes_plain : plain.Takes 1 s := takes_sysCall

theorem takes_syncDirectory (p : Path) : (syncDirectory p).Takes 2 s :=
  takes_seq takes_plain (fun _ _ => takes_sysCall)

theorem takes_syncTurn : (syncTurn path length).Takes 4 s := by
  show (syncTurn path length).Takes (2 + (0 + 2)) s
  refine takes_seq (takes_syncDirectory _) ?_
  intro _ t
  refine takes_bind takes_state (ensures_state ?_)
  split
  · exact takes_pure.mono (by omega)
  · split
    · exact takes_seq (takes_syncDirectory _) (fun _ _ => takes_pure)
    · exact takes_pure.mono (by omega)

/-- **The walk up the ancestors ends**, after four calls for every byte at most. -/
theorem takes_syncPublication (hpath : path ≠ [])
    (hstop : s₀.parentsUnsynced = true → Ancestor path s₀.parentSyncStop) :
    (syncPublication path).Takes (4 * (path.length + 1)) s₀ := by
  have hle := (dropSlashes_spec path path.length).le
  refine Takes.mono (takes_repeat id (by omega) (fun _ _ _ => takes_syncTurn) ?_
    (at_start hpath hstop)) (Nat.mul_le_mul_left 4 (Nat.succ_le_succ hle))
  intro length s h
  refine (ensures_syncTurn hpath hstop h).mono ?_ (fun _ _ _ => trivial) fun _ _ => trivial
  intro next s' hnext
  cases next with
  | inl length' => exact hnext
  | inr _ => trivial

end PrefsSave
