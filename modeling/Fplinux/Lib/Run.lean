/-
Transition machines, their runs and their reachable states.

`Machine σ α` has start states and a step relation labelled by operations.
`Reachable` collects the states of finite runs; `Trace` keeps the steps of a
run, oldest first, for statements about what happened before a step.  The
proof rules are `Reachable.invariant` (a property of the start states that
every step keeps holds in every reachable state) and `Trace.invariant`, its
form for properties that look back at the whole run.
-/
import Mathlib.Data.List.Basic

/-- A transition machine: its start states and its labelled steps. -/
structure Machine (σ α : Type*) where
  start : σ → Prop
  step : σ → α → σ → Prop

namespace Machine

variable {σ α : Type*} (S : Machine σ α)

/-- The states of finite runs. -/
inductive Reachable : σ → Prop
  | start {s : σ} : S.start s → Reachable s
  | step {s s' : σ} {a : α} : Reachable s → S.step s a s' → Reachable s'

/-- One step of a run: the state before, the operation, the state after. -/
structure Step (σ α : Type*) where
  before : σ
  op : α
  after : σ

/-- A run that ends in the given state, as its steps in order. -/
inductive Trace : List (Step σ α) → σ → Prop
  | start {s : σ} : S.start s → Trace [] s
  | step {l : List (Step σ α)} {s s' : σ} {a : α} :
      Trace l s → S.step s a s' → Trace (l ++ [⟨s, a, s'⟩]) s'

variable {S} {s s' : σ} {l : List α} {step : σ → α → Option σ}

/-- **Invariant rule.** -/
theorem Reachable.invariant {P : σ → Prop} (hstart : ∀ s, S.start s → P s)
    (hstep : ∀ s a s', P s → S.step s a s' → P s') (h : S.Reachable s) : P s := by
  induction h with
  | start h0 => exact hstart _ h0
  | step _ hs ih => exact hstep _ _ _ ih hs

/-- **Invariant rule for whole runs.**  `K` restricts the steps taken. -/
theorem Trace.invariant {P : List (Step σ α) → σ → Prop} {K : Step σ α → Prop}
    (hstart : ∀ s, S.start s → P [] s)
    (hstep : ∀ l s a s', P l s → S.step s a s' → K ⟨s, a, s'⟩ → P (l ++ [⟨s, a, s'⟩]) s') :
    ∀ {l : List (Step σ α)} {s : σ}, S.Trace l s → (∀ x ∈ l, K x) → P l s := by
  intro l s h
  induction h with
  | start h0 => exact fun _ => hstart _ h0
  | step _ hs ih =>
    intro hk
    exact hstep _ _ _ _ (ih fun x hx => hk x (List.mem_append_left _ hx)) hs
      (hk _ (by simp))

theorem Trace.split : ∀ {l : List (Step σ α)} {s : σ}, S.Trace l s →
    ∀ {pre post : List (Step σ α)} {x : Step σ α}, l = pre ++ x :: post →
      S.Trace pre x.before ∧ S.step x.before x.op x.after := by
  intro l s h
  induction h with
  | start _ =>
    intro pre post x hl
    simp at hl
  | @step l s s' a htr hs ih =>
    intro pre post x hl
    rcases List.eq_nil_or_concat post with rfl | ⟨post', y, rfl⟩
    · obtain ⟨rfl, hx⟩ := List.append_inj' hl rfl
      simp only [List.cons.injEq, and_true] at hx
      subst hx
      exact ⟨htr, hs⟩
    · have hl' : l ++ [(⟨s, a, s'⟩ : Step σ α)] = (pre ++ x :: post') ++ [y] := by simpa using hl
      obtain ⟨hl'', -⟩ := List.append_inj' hl' rfl
      exact ih hl''

/-- **Response rule.**  What a step raises waits (`W`) until a later step
handles it. -/
theorem Trace.response {ι : Type*} {R H : Step σ α → ι → Prop} {W : σ → ι → Prop}
    (hraise : ∀ s a s' i, S.step s a s' → R ⟨s, a, s'⟩ i → W s' i)
    (hkeep : ∀ l s a s' i, S.Trace l s → S.step s a s' → W s i → H ⟨s, a, s'⟩ i ∨ W s' i) :
    ∀ {l : List (Step σ α)} {s : σ}, S.Trace l s → ∀ pre x post i, l = pre ++ x :: post →
      R x i → (∃ y ∈ post, H y i) ∨ W s i := by
  intro l s h
  induction h with
  | start _ =>
    intro pre x post i hl
    simp at hl
  | @step l s s' a htr hs ih =>
    intro pre x post i hl hraised
    rcases List.eq_nil_or_concat post with rfl | ⟨post', y, rfl⟩
    · obtain ⟨-, hx⟩ := List.append_inj' hl rfl
      simp only [List.cons.injEq, and_true] at hx
      subst hx
      exact .inr (hraise _ _ _ _ hs hraised)
    · rw [List.concat_eq_append] at hl ⊢
      have hl' : l ++ [(⟨s, a, s'⟩ : Step σ α)] = (pre ++ x :: post') ++ [y] := by simpa using hl
      obtain ⟨hl'', hy⟩ := List.append_inj' hl' rfl
      simp only [List.cons.injEq, and_true] at hy
      subst hy
      rcases ih pre x post' i hl'' hraised with ⟨z, hz, hhandled⟩ | hwaits
      · exact .inl ⟨z, List.mem_append_left _ hz, hhandled⟩
      · rcases hkeep _ _ _ _ _ htr hs hwaits with hhandled | hwaits'
        · exact .inl ⟨_, List.mem_append_right _ (List.mem_singleton_self _), hhandled⟩
        · exact .inr hwaits'

/-- Makes the given steps one after the other. -/
def runOps (step : σ → α → Option σ) : List α → σ → Option σ
  | [], s => some s
  | a :: l, s => (step s a).bind (runOps step l)

theorem runOps_append {l' : List α} (h : Machine.runOps step l s = some s') :
    Machine.runOps step (l ++ l') s = Machine.runOps step l' s' := by
  induction l generalizing s with
  | nil =>
    rw [← Option.some.inj h]
    rfl
  | cons a l ih =>
    obtain ⟨t, ht, hrest⟩ := Option.bind_eq_some_iff.mp h
    rw [List.cons_append, Machine.runOps, ht, Option.bind_some]
    exact ih hrest

theorem exists_of_runOps_append {l' : List α} (h : Machine.runOps step (l ++ l') s = some s') :
    ∃ t, Machine.runOps step l s = some t ∧ Machine.runOps step l' t = some s' := by
  induction l generalizing s with
  | nil => exact ⟨s, rfl, h⟩
  | cons a l ih =>
    obtain ⟨t, ht, hrest⟩ := Option.bind_eq_some_iff.mp h
    obtain ⟨u, hu, hu'⟩ := ih hrest
    refine ⟨u, ?_, hu'⟩
    rw [Machine.runOps, ht, Option.bind_some, hu]

/-- **Invariant rule for computed runs.** -/
theorem runOps_invariant {P : σ → Prop} (hstep : ∀ s a s', P s → step s a = some s' → P s')
    (hs : P s) (h : Machine.runOps step l s = some s') : P s' := by
  induction l generalizing s with
  | nil =>
    rw [← Option.some.inj h]
    exact hs
  | cons a l ih =>
    obtain ⟨t, ht, hrest⟩ := Option.bind_eq_some_iff.mp h
    exact ih (hstep _ _ _ hs ht) hrest

theorem Reachable.runOps (hstep : ∀ s a s', step s a = some s' → S.step s a s') :
    ∀ {l : List α} {s s' : σ}, S.Reachable s → Machine.runOps step l s = some s' →
      S.Reachable s' := by
  intro l
  induction l with
  | nil =>
    intro s s' h hrun
    rw [← Option.some.inj hrun]
    exact h
  | cons a l ih =>
    intro s s' h hrun
    obtain ⟨t, ht, hrest⟩ := Option.bind_eq_some_iff.mp hrun
    exact ih (h.step (hstep _ _ _ ht)) hrest

/-- The steps of a run whose steps are computed and may not be allowed. -/
def runSteps (step : σ → α → Option σ) : σ → List α → List (Step σ α)
  | _, [] => []
  | s, a :: l => (step s a).elim [] fun s' => ⟨s, a, s'⟩ :: runSteps step s' l

theorem Trace.runOps (hstep : ∀ s a s', step s a = some s' → S.step s a s') :
    ∀ {ops : List α} {l : List (Step σ α)} {s s' : σ}, S.Trace l s →
      Machine.runOps step ops s = some s' → S.Trace (l ++ runSteps step s ops) s' := by
  intro ops
  induction ops with
  | nil =>
    intro l s s' h hrun
    rw [← Option.some.inj hrun, runSteps, List.append_nil]
    exact h
  | cons a ops ih =>
    intro l s s' h hrun
    obtain ⟨t, ht, hrest⟩ := Option.bind_eq_some_iff.mp hrun
    have htrace := ih (h.step (hstep _ _ _ ht)) hrest
    rw [List.append_assoc] at htrace
    rw [runSteps, ht]
    exact htrace

/-- The steps of a run whose steps are computed. -/
def steps (perform : σ → α → σ) : σ → List α → List (Step σ α)
  | _, [] => []
  | s, a :: l => ⟨s, a, perform s a⟩ :: steps perform (perform s a) l

theorem Trace.steps {perform : σ → α → σ} {l : List (Step σ α)} (h : S.Trace l s) :
    ∀ ops : List α, (∀ s, ∀ a ∈ ops, S.step s a (perform s a)) →
      S.Trace (l ++ Machine.steps perform s ops) (ops.foldl perform s) := by
  intro ops
  induction ops generalizing l s with
  | nil =>
    intro _
    rw [Machine.steps, List.append_nil]
    exact h
  | cons a ops ih =>
    intro hstep
    have hrest := ih (h.step (hstep s a (List.mem_cons_self ..)))
      fun t b hb => hstep t b (List.mem_cons_of_mem _ hb)
    rw [List.append_assoc] at hrest
    exact hrest

theorem op_mem_of_mem_steps {perform : σ → α → σ} {ops : List α} {x : Step σ α}
    (h : x ∈ Machine.steps perform s ops) : x.op ∈ ops := by
  induction ops generalizing s with
  | nil => cases h
  | cons a ops ih =>
    rcases List.mem_cons.mp h with rfl | hrest
    · exact List.mem_cons_self ..
    · exact List.mem_cons_of_mem _ (ih hrest)

end Machine
