/-
Saves that report honestly (`fplinux-ui-prefs.c`).

The history is newest first.  `after ++ .published text :: before` cuts it at the last rename:
`before` is what led to it, `after` what has happened since.

Main results:
- `Inv.save`: what a save keeps, whichever way it ends;
- `reports_honestly`: in every run, what a save returns is so.
-/
import Fplinux.Ui.PrefsDurable

namespace PrefsSave

open Calls.Prog
open Clock (StorageState)
open List (mem_append mem_append_right mem_cons mem_cons_self)
open Prefs (Storage Change)
open PrefsPaths

variable {path : Path} {d : Directory} {s s₀ s₁ : Store}

/-! ### Histories -/

variable {after before : List Event}

theorem cut_append {event : Event} {added history : List Event}
    (h : added ++ history = after ++ event :: before) (hadded : event ∉ added) :
    ∃ after', after = added ++ after' ∧ history = after' ++ event :: before := by
  rcases List.append_eq_append_iff.mp h with ⟨rest, rfl, hrest⟩ | ⟨rest, hafter, hrest⟩
  · exact ⟨rest, rfl, hrest⟩
  · cases rest with
    | nil => exact ⟨[], by simpa using hafter.symm, by simpa using hrest.symm⟩
    | cons first rest =>
      obtain ⟨rfl, -⟩ := List.cons.inj hrest
      exact absurd (hafter ▸ mem_append_right _ (mem_cons_self ..)) hadded

theorem outstanding_append {n : ℕ} (h : n ∈ outstanding before) (after : List Event)
    (hafter : .returned .durable ∉ after) :
    n ∈ outstanding (after ++ before) := by
  induction after with
  | nil => exact h
  | cons event rest ih =>
    rw [mem_cons, not_or] at hafter
    have hrest := ih hafter.2
    cases event with
    | made length => exact List.mem_cons_of_mem _ hrest
    | returned state =>
      rw [List.cons_append, outstanding, if_neg]
      · exact hrest
      · rintro rfl
        exact hafter.1 rfl
    | fileSynced text => exact hrest
    | published text => exact hrest
    | directorySynced p => exact hrest

/-! ### Durability -/

/-- A directory of the path that lies at the parent of the first `n` bytes or below it. -/
def UpToParent (path : Path) (n a : ℕ) : Prop :=
  Ancestor path a ∧ ∀ b, Ancestor path b → Above path b n → b ≤ a

/-- Since a rename the directory has been synchronized, and with it every directory up to the
parent of each that was made before the rename and not reported durable by then. -/
structure Settled (path : Path) (after before : List Event) : Prop where
  directory : .directorySynced (ancestorPath path (dropSlashes path path.length)) ∈ after
  parents : ∀ n ∈ outstanding before, ∀ a, UpToParent path n a →
    .directorySynced (ancestorPath path a) ∈ after

theorem Settled.append (h : Settled path after before) (added : List Event) :
    Settled path (added ++ after) before :=
  ⟨mem_append_right _ h.directory,
    fun n hn a ha => mem_append_right _ (h.parents n hn a ha)⟩

/-- What is known of the last file that was published. -/
structure Last (path : Path) (s : Store) (text : List UInt8) (after before : List Event) :
    Prop where
  file : s.prefs.file = some text
  synced : ∃ rest, before = .fileSynced text :: rest
  quiet : s.prefs.changed = false → ∀ n, .made n ∉ after
  pending : s.prefs.pendingSync = true → .returned .durable ∉ after
  settled : s.prefs.pendingSync = false → Settled path after before

/-- The history ends in a rename with something after it. -/
def Cut (s : Store) (text : List UInt8) (after before : List Event) : Prop :=
  s.history = after ++ .published text :: before ∧ ∀ text', .published text' ∉ after

/-- What holds between two calls of the interface. -/
structure Inv (path : Path) (s : Store) : Prop where
  ok : Prefs.Ok s.prefs
  parents : Parents path s
  fresh : (∀ text, .published text ∉ s.history) →
    s.prefs.pendingSync = false ∧ (s.prefs.changed = false → ∀ n, .made n ∉ s.history)
  last : ∀ text after before, Cut s text after before → Last path s text after before

theorem inv_opened (file : Option (List UInt8)) (present : List Path) :
    Inv path (opened file present) := by
  refine ⟨Prefs.ok_load file, ⟨fun _ => rfl, fun h => absurd h (by simp [opened])⟩, ?_, ?_⟩
  · intro _
    exact ⟨Prefs.load_pendingSync file, fun _ n hn => absurd hn (by simp [opened])⟩
  · intro text after before hcut
    exact absurd hcut.1 (by simp [opened])

/-- **A change** leaves the published file as it is. -/
theorem Inv.change (h : Inv path s) (change : Change) :
    Inv path { s with prefs := change.apply s.prefs } := by
  have hparents : Parents path { s with prefs := change.apply s.prefs } :=
    h.parents.congr rfl rfl rfl fun _ hp => hp
  have hnodup := change.apply_nodup h.ok.nodup
  have hcases : change.apply s.prefs = s.prefs ∨
      ∃ items, change.apply s.prefs = { s.prefs with items := items, changed := true } := by
    rcases change.apply_cases s.prefs with hsame | ⟨item, hput⟩ | ⟨index, herase⟩
    · exact .inl hsame
    · exact .inr ⟨_, hput⟩
    · exact .inr ⟨_, herase⟩
  rcases hcases with hsame | ⟨items, hchanged⟩
  · rw [hsame]
    exact h
  · rw [hchanged] at hnodup hparents ⊢
    refine ⟨⟨hnodup, fun hsaved => absurd hsaved (by simp)⟩, hparents, ?_, ?_⟩
    · intro hfresh
      exact ⟨(h.fresh hfresh).1, fun hsaved => absurd hsaved (by simp)⟩
    · intro text after before hcut
      have hlast := h.last text after before hcut
      exact ⟨hlast.file, hlast.synced, fun hsaved => absurd hsaved (by simp), hlast.pending,
        hlast.settled⟩

/-- **Something happens**, and neither the preferences change nor what is owed. -/
theorem Inv.extend (h : Inv path s) (hprefs : s₁.prefs = s.prefs) (hparents : Parents path s₁)
    (added : List Event) (hhistory : s₁.history = added ++ s.history)
    (hpublished : ∀ text, .published text ∉ added)
    (hmade : s.prefs.changed = false → ∀ n, .made n ∉ added)
    (hdurable : s.prefs.pendingSync = true → .returned .durable ∉ added) : Inv path s₁ := by
  refine ⟨hprefs ▸ h.ok, hparents, ?_, ?_⟩
  · intro hfresh
    rw [hhistory] at hfresh ⊢
    obtain ⟨hpending, hquiet⟩ := h.fresh fun text ht => hfresh text (mem_append_right _ ht)
    rw [hprefs]
    refine ⟨hpending, fun hsaved n hn => ?_⟩
    rcases mem_append.mp hn with hnew | hold
    · exact hmade hsaved n hnew
    · exact hquiet hsaved n hold
  · rintro text after before ⟨hcut, hafter⟩
    obtain ⟨after', rfl, hold⟩ := cut_append (hhistory.symm.trans hcut) (hpublished text)
    have hlast := h.last text after' before
      ⟨hold, fun text' ht => hafter text' (mem_append_right _ ht)⟩
    refine ⟨hprefs ▸ hlast.file, hlast.synced, ?_, ?_, ?_⟩
    · intro hsaved n hn
      rw [hprefs] at hsaved
      rcases mem_append.mp hn with hnew | hmem
      · exact hmade hsaved n hnew
      · exact hlast.quiet hsaved n hmem
    · intro hpending hmem
      rw [hprefs] at hpending
      rcases mem_append.mp hmem with hnew | hmem'
      · exact hdurable hpending hnew
      · exact hlast.pending hpending hmem'
    · intro hpending
      exact (hlast.settled (hprefs ▸ hpending)).append added

theorem Awaits.inv (h₀ : Inv path s₀) (h : Awaits path s₀ s) :
    Inv path s ∧ s.prefs.changed = false ∧ s.prefs.pendingSync = true := by
  rcases h with ⟨hsaved, hpending, rfl⟩ | ⟨-, hprefs, hparents, added, hadded, -⟩
  · exact ⟨h₀, hsaved, hpending⟩
  · refine ⟨⟨?_, hparents, ?_, ?_⟩, by rw [hprefs]; rfl, by rw [hprefs]; rfl⟩
    · rw [hprefs]
      exact ⟨h₀.ok.nodup, fun _ => Prefs.load_writeItems h₀.ok.nodup⟩
    · intro hfresh
      exact absurd (hadded ▸ mem_cons_self ..) (hfresh _)
    · rintro text after before ⟨hcut, hafter⟩
      rw [hadded] at hcut
      cases after with
      | nil =>
        obtain ⟨htext, rfl⟩ := List.cons.inj hcut
        cases htext
        refine ⟨by rw [hprefs]; rfl, ⟨_, rfl⟩, fun _ n hn => absurd hn (by simp),
          fun _ hn => absurd hn (by simp), fun hpending => ?_⟩
        rw [hprefs] at hpending
        cases hpending
      | cons event rest =>
        obtain ⟨rfl, -⟩ := List.cons.inj hcut
        exact absurd (mem_cons_self ..) (hafter _)

theorem Walked.parents {done : ℕ → Prop} (h : Walked path s₁ done s) (h₁ : Parents path s₁) :
    Parents path s := by
  obtain ⟨added, hadded, hall, -⟩ := h.history
  refine h₁.mono h.unsynced h.stop ?_ h.present
  rw [hadded]
  clear hadded
  induction added with
  | nil => exact List.Subset.refl _
  | cons event rest ih =>
    obtain ⟨p, rfl⟩ := hall event (mem_cons_self ..)
    exact ih fun event' hevent => hall event' (List.mem_cons_of_mem _ hevent)

/-- **A walk that ends settles what was published.** -/
theorem Walked.settled (h₁ : Inv path s₁) (hpending : s₁.prefs.pendingSync = true)
    (hpath : path ≠ []) (h : Walked path s₁ (Due path s₁) s) {text : List UInt8}
    (hcut : Cut s text after before) : Settled path after before := by
  obtain ⟨added, hadded, hall, hdone⟩ := h.history
  have hpublished : .published text ∉ added := by
    intro hmem
    obtain ⟨p, hp⟩ := hall _ hmem
    cases hp
  obtain ⟨after', rfl, hold⟩ := cut_append (hadded.symm.trans hcut.1) hpublished
  have hlast := h₁.last text after' before
    ⟨hold, fun text' ht => hcut.2 text' (mem_append_right _ ht)⟩
  constructor
  · exact List.mem_append_left _
      (hdone _ ⟨boundary_dropSlashes (boundary_length hpath), .inl rfl⟩)
  · intro n hn a ha
    -- no save has returned `DURABLE` since the rename
    have hn₁ : n ∈ outstanding s₁.history := by
      rw [hold]
      have hrest : n ∈ outstanding (.published text :: before) := hn
      exact outstanding_append hrest _ (hlast.pending hpending)
    have hunsynced : s₁.parentsUnsynced = true := by
      by_contra hne
      rw [h₁.parents.none_made (eq_false_of_ne_true hne)] at hn₁
      simp at hn₁
    obtain ⟨first, hbound, hstop, hfirst, -⟩ := h₁.parents.first_made hunsynced
    have hle := parentLength_le hbound (hfirst n hn₁) ha.1 ha.2
    exact List.mem_append_left _ (hdone a ⟨ha.1, .inr ⟨hunsynced, hstop ▸ hle⟩⟩)

theorem Parents.returned (h : Parents path s) (state : StorageState) :
    Parents path (s.log (.returned state)) := by
  refine h.mono rfl rfl ?_ fun _ hp => hp
  show outstanding (.returned state :: s.history) ⊆ outstanding s.history
  rw [outstanding]
  split
  · exact List.nil_subset _
  · exact List.Subset.refl _

/-- **Whichever way a save ends, the invariant is kept.** -/
theorem Inv.save (h : Inv path s₀) (hpath : path ≠ []) {result : Storage}
    (hends : Ends path s₀ result s) : Inv path (s.log (.returned result.state)) := by
  cases hends with
  | quiet hsaved hpending =>
    exact h.extend rfl (h.parents.returned _) [.returned .durable] rfl (by simp) (by simp)
      fun hfalse => absurd (hpending.symm.trans hfalse) (by simp)
  | @unpublished errno s hchanged hprepared =>
    obtain ⟨added, hadded, hall⟩ := hprepared.history
    have hother : ∀ event ∈ Event.returned .unpublished :: added,
        event = .returned .unpublished ∨ Preparing event := by
      intro event hevent
      rcases mem_cons.mp hevent with rfl | hmem
      · exact .inl rfl
      · exact .inr (hall event hmem)
    refine h.extend hprepared.prefs (hprepared.parents.returned _)
      (.returned .unpublished :: added) (congrArg _ hadded) ?_ ?_ ?_
    · intro text ht
      rcases hother _ ht with hcase | ⟨n, hcase⟩ | ⟨t, hcase⟩
      · cases hcase
      · cases hcase
      · cases hcase
    · intro hsaved
      exact absurd (hchanged.symm.trans hsaved) (by simp)
    · intro _ hmem
      rcases hother _ hmem with hcase | ⟨n, hcase⟩ | ⟨t, hcase⟩
      · cases hcase
      · cases hcase
      · cases hcase
  | @unsynced errno s₁ s hawaits hwalked =>
    obtain ⟨h₁, -, -⟩ := hawaits.inv h
    obtain ⟨added, hadded, hall, -⟩ := hwalked.history
    have hother : ∀ event ∈ Event.returned .publishedUnsynced :: added,
        event = .returned .publishedUnsynced ∨ ∃ p, event = .directorySynced p := by
      intro event hevent
      rcases mem_cons.mp hevent with rfl | hmem
      · exact .inl rfl
      · exact .inr (hall event hmem)
    refine h₁.extend hwalked.prefs ((hwalked.parents h₁.parents).returned _)
      (.returned .publishedUnsynced :: added) (congrArg _ hadded) ?_ ?_ ?_
    · intro text ht
      rcases hother _ ht with hcase | ⟨p, hcase⟩
      · cases hcase
      · cases hcase
    · intro _ n hn
      rcases hother _ hn with hcase | ⟨p, hcase⟩
      · cases hcase
      · cases hcase
    · intro _ hmem
      rcases hother _ hmem with hcase | ⟨p, hcase⟩
      · cases hcase
      · cases hcase
  | @durable s₁ s hawaits hwalked =>
    obtain ⟨h₁, hsaved, hpending⟩ := hawaits.inv h
    obtain ⟨added, hadded, hall, -⟩ := hwalked.history
    have hprefs := hwalked.prefs
    refine ⟨?_, ⟨fun _ => rfl, fun hfalse => absurd hfalse (by simp [Store.log])⟩, ?_, ?_⟩
    · show Prefs.Ok { s.prefs with pendingSync := false }
      rw [hprefs]
      exact ⟨h₁.ok.nodup, h₁.ok.saved⟩
    · intro hfresh
      have hold : ∀ text, .published text ∉ s₁.history := by
        intro text ht
        refine hfresh text (List.mem_cons_of_mem _ ?_)
        show _ ∈ s.history
        rw [hadded]
        exact mem_append_right _ ht
      exact absurd (hpending.symm.trans (h₁.fresh hold).1) (by simp)
    · rintro text after before ⟨hcut, hafter⟩
      -- what the walk did comes before what is reported of it
      have hcut' : [Event.returned .durable] ++ s.history = after ++ .published text :: before :=
        hcut
      obtain ⟨after', rfl, hold⟩ := cut_append hcut' (by simp)
      have hcuts : Cut s text after' before :=
        ⟨hold, fun text' ht => hafter text' (mem_append_right _ ht)⟩
      have hsettled := hwalked.settled h₁ hpending hpath hcuts
      obtain ⟨after'', rfl, hold₁⟩ := cut_append (hadded.symm.trans hold) (by
        intro hmem
        obtain ⟨p, hp⟩ := hall _ hmem
        cases hp)
      have hlast := h₁.last text after'' before
        ⟨hold₁, fun text' ht => hcuts.2 text' (mem_append_right _ ht)⟩
      refine ⟨?_, hlast.synced, ?_, fun hfalse => absurd hfalse (by simp [Store.log]),
        fun _ => hsettled.append _⟩
      · show s.prefs.file = some text
        rw [hprefs]
        exact hlast.file
      · intro _ n hn
        rcases mem_append.mp hn with hcase | hmem
        · simp at hcase
        · rcases mem_append.mp hmem with hnew | hmem'
          · obtain ⟨p, hp⟩ := hall _ hnew
            cases hp
          · exact hlast.quiet hsaved n hmem'

/-! ### Reports -/

/-- What `DURABLE` promises: nothing was published or made, or the file is the one renamed
last, it was synchronized first, and the rename has been settled. -/
structure Durable (path : Path) (s : Store) : Prop where
  fresh : (∀ text, .published text ∉ s.history) → ∀ n, .made n ∉ s.history
  last : ∀ text after before, Cut s text after before →
    s.prefs.file = some text ∧ (∃ rest, before = .fileSynced text :: rest) ∧
      (∀ n, .made n ∉ after) ∧ Settled path after before

/-- What a save that returns says of the store before and after. -/
structure Honest (path : Path) (s₀ : Store) (result : Storage) (s : Store) : Prop where
  unpublished : result.state = .unpublished → s.prefs.file = s₀.prefs.file
  published : result.state ≠ .unpublished →
    s.prefs.changed = false ∧ (Prefs.load s.prefs.file).items = s₀.prefs.items
  durable : result.state = .durable → Durable path s

theorem Inv.durable (h : Inv path s) (hsaved : s.prefs.changed = false)
    (hpending : s.prefs.pendingSync = false) : Durable path s := by
  refine ⟨fun hfresh => (h.fresh hfresh).2 hsaved, ?_⟩
  intro text after before hcut
  have hlast := h.last text after before hcut
  exact ⟨hlast.file, hlast.synced, hlast.quiet hsaved, hlast.settled hpending⟩

/-- **A save reports honestly**, whichever way it ends. -/
theorem Ends.honest (h : Inv path s₀) (hpath : path ≠ []) {result : Storage}
    (hends : Ends path s₀ result s) : Honest path s₀ result (s.log (.returned result.state)) := by
  obtain ⟨faults, hsave⟩ := hends.refines
  have hspec := Prefs.save_spec h.ok faults
  have hchanged := Prefs.save_changed s₀.prefs faults
  rw [hsave] at hspec hchanged
  refine ⟨fun hstate => (hspec.unpublished hstate).1, fun hstate => ?_, fun hstate => ?_⟩
  · exact ⟨hchanged hstate, hspec.published hstate⟩
  · exact (h.save hpath hends).durable (hchanged (by rw [hstate]; simp)) (hspec.durable hstate)

theorem ensures_callSave (h : Inv d.path s) :
    (callSave d).Ensures (fun result s' => Inv d.path s' ∧ Honest d.path s result s')
      (fun _ _ => False) (Intact s) s := by
  refine ensures_bind ((ensures_save h.parents).mono ?_ (fun _ _ he => he) fun _ hc => hc)
  intro result s' hends
  exact ensures_bind (ensures_modify (ensures_pure ⟨h.save d.ne hends, hends.honest h d.ne⟩))

theorem takes_callSave (h : Parents d.path s) :
    (callSave d).Takes (7 * d.path.length + 15) s := by
  have hlog : ∀ result t, (do
      modify fun s => s.log (.returned result.state)
      pure result : Sys Storage).Takes 0 t :=
    fun _ _ => takes_seq (n := 0) takes_modify fun _ _ => takes_pure
  exact takes_seq (n := 0) (takes_save h) hlog

/-- **The invariant holds in every run.** -/
theorem inv_reachable (h : (machine d).Reachable s) : Inv d.path s := by
  refine h.invariant ?_ ?_
  · rintro s ⟨file, present, rfl⟩
    exact inv_opened file present
  · intro s a s' hinv hstep
    cases a with
    | change change =>
      obtain rfl := Option.some.inj hstep
      exact hinv.change change
    | save answers =>
      have hrun := ensures_callSave hinv answers
      have hstep' : step d s (.save answers) = some s' := hstep
      rw [step] at hstep'
      cases hcall : callSave d answers s with
      | mk outcome t =>
      rw [hcall] at hrun hstep'
      cases outcome with
      | returned result rest =>
        obtain rfl := Option.some.inj hstep'
        exact hrun.1
      | failed errno rest => cases hstep'
      | stopped => cases hstep'

/-- **Saves report honestly.**  In every run, preferences without changes are those of the file;
a save that returns says what is so; one that is stopped between two calls leaves the old file
or the new one; and with enough answers every save returns. -/
theorem reports_honestly (h : (machine d).Reachable s) :
    (s.prefs.changed = false → (Prefs.load s.prefs.file).items = s.prefs.items) ∧
    (callSave d).Ensures (Honest d.path s) (fun _ _ => False) (Intact s) s ∧
    (callSave d).Takes (7 * d.path.length + 15) s := by
  have hinv := inv_reachable h
  refine ⟨hinv.ok.saved, ?_, takes_callSave hinv.parents⟩
  exact (ensures_callSave hinv).mono (fun _ _ hq => hq.2) (fun _ _ he => he) fun _ hc => hc

/-! ### A run -/

/-- The directory `a`, not there yet. -/
def exampleDirectory : Directory where
  path := [Bytes.byte 'a']
  ne := by simp
  fits := by decide

/-- Calls that do not fail. -/
def exampleAnswers : List Answer := List.replicate 22 ⟨none, [], true, true, 0o700, 0⟩

def exampleSteps : List Step :=
  [.change (.set [Bytes.byte 'k'] [Bytes.byte '1'] true), .save exampleAnswers,
    .change (.set [Bytes.byte 'k'] [Bytes.byte '2'] true)]

def exampleStart : Store := opened none []

/-- What the first save of the run did. -/
def exampleHistory : List Event :=
  [.returned .durable, .directorySynced [Bytes.byte '.'], .directorySynced [Bytes.byte 'a'],
    .published [107, 61, 49, 10], .fileSynced [107, 61, 49, 10], .made 1]

/-- What the example's save reports, and the history before and after it. -/
def exampleReport (s : Store) : Option (List Event × Storage × List Event) :=
  match callSave exampleDirectory exampleAnswers s with
  | (.returned result _, s') => some (s.history, result, s'.history)
  | (.failed _ _, _) => none
  | (.stopped, _) => none

theorem exists_exampleRun :
    ∃ s, (machine exampleDirectory).Reachable s ∧ s.history = exampleHistory ∧
      ∃ rest s', callSave exampleDirectory exampleAnswers s = (.returned ⟨.durable, 0⟩ rest, s') ∧
        s'.history = [.returned .durable, .directorySynced [Bytes.byte 'a']] ++
          .published [107, 61, 50, 10] :: .fileSynced [107, 61, 50, 10] :: exampleHistory := by
  have hruns : ((Machine.runOps (step exampleDirectory) exampleSteps exampleStart).bind
      exampleReport) =
      some (exampleHistory, ⟨.durable, 0⟩,
        [.returned .durable, .directorySynced [Bytes.byte 'a']] ++
          .published [107, 61, 50, 10] :: .fileSynced [107, 61, 50, 10] :: exampleHistory) := by
    decide +kernel
  obtain ⟨s, hrun, hcall⟩ := Option.bind_eq_some_iff.mp hruns
  have hreach : (machine exampleDirectory).Reachable s :=
    Machine.Reachable.runOps (fun _ _ _ hstep => hstep) (.start ⟨none, [], rfl⟩) hrun
  rw [exampleReport] at hcall
  cases hsave : callSave exampleDirectory exampleAnswers s with
  | mk outcome s' =>
  rw [hsave] at hcall
  cases outcome with
  | returned result rest =>
    have hfields := Option.some.inj hcall
    simp only [Prod.mk.injEq] at hfields
    obtain ⟨hhistory, rfl, hafter⟩ := hfields
    exact ⟨s, hreach, hhistory, rest, s', hsave, hafter⟩
  | failed errno rest => cases hcall
  | stopped => cases hcall

/-- `reports_honestly` at the end of the run. -/
theorem reports_honestly_example :
    ∃ s, s.history = exampleHistory ∧
      (s.prefs.changed = false → (Prefs.load s.prefs.file).items = s.prefs.items) ∧
      (callSave exampleDirectory).Ensures (Honest exampleDirectory.path s) (fun _ _ => False)
        (Intact s) s ∧
      (callSave exampleDirectory).Takes 22 s := by
  obtain ⟨s, hreach, hhistory, -⟩ := exists_exampleRun
  exact ⟨s, hhistory, reports_honestly hreach⟩

/-- `DURABLE` does not say that a file was published, nor, when directories were made in an
earlier save, that the parent of the topmost was synchronized since the last rename. -/
theorem durable_promises_less :
    (callSave exampleDirectory [] exampleStart =
        (.returned ⟨.durable, 0⟩ [], exampleStart.log (.returned .durable)) ∧
      ∀ text, .published text ∉ (exampleStart.log (.returned .durable)).history) ∧
    ∃ s rest s' text after before, (machine exampleDirectory).Reachable s ∧
      callSave exampleDirectory exampleAnswers s = (.returned ⟨.durable, 0⟩ rest, s') ∧
      Cut s' text after before ∧ .made 1 ∈ before ∧ UpToParent exampleDirectory.path 1 0 ∧
      .directorySynced (ancestorPath exampleDirectory.path 0) ∉ after := by
  refine ⟨⟨rfl, by simp [exampleStart, opened, Store.log]⟩, ?_⟩
  obtain ⟨s, hreach, -, rest, s', hsave, hhistory⟩ := exists_exampleRun
  refine ⟨s, rest, s', _, _, _, hreach, hsave, ⟨hhistory, by simp⟩, ?_, ⟨?_, ?_⟩, ?_⟩
  · simp [exampleHistory]
  · show exampleDirectory.path[0]? ≠ some slash
    decide
  · rintro b - ⟨k, hk, hlt, -⟩
    omega
  · decide

end PrefsSave
