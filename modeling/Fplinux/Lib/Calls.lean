/-
Programs that call the outside, fail, and may be stopped before any call.

A `Prog` runs on a state and on the answers that the outside gives to its calls
in turn.  It returns, it fails with an error, or it is stopped at a call because
the answers end there: the states it is stopped in are the states between two
calls.  `Ensures` says what holds of each of the three, and has one rule for
each way to build a program; `ensures_repeat` is the rule of loops, which need
not end.  `Takes` bounds the calls of a program, hence says that it ends;
`takes_repeat` is its rule for loops with a measure.
-/
import Mathlib.Data.List.Basic

namespace Calls

variable {σ ω ε α β : Type}

/-- How a run ends, with the answers that are left. -/
inductive Outcome (ω ε α : Type)
  | returned (value : α) (rest : List ω)
  | failed (error : ε) (rest : List ω)
  | stopped
  deriving DecidableEq, Repr

/-- A program: states `σ`, answers `ω`, errors `ε`. -/
def Prog (σ ω ε α : Type) := List ω → σ → Outcome ω ε α × σ

namespace Prog

protected def pure (value : α) : Prog σ ω ε α := fun answers s => (.returned value answers, s)

protected def bind (p : Prog σ ω ε α) (f : α → Prog σ ω ε β) : Prog σ ω ε β := fun answers s =>
  match p answers s with
  | (.returned value rest, s') => f value rest s'
  | (.failed error rest, s') => (.failed error rest, s')
  | (.stopped, s') => (.stopped, s')

instance : Monad (Prog σ ω ε) where
  pure := Prog.pure
  bind := Prog.bind

def fail (error : ε) : Prog σ ω ε α := fun answers s => (.failed error answers, s)

/-- Runs the handler when the program fails. -/
def handle (p : Prog σ ω ε α) (handler : ε → Prog σ ω ε α) : Prog σ ω ε α := fun answers s =>
  match p answers s with
  | (.failed error rest, s') => handler error rest s'
  | result => result

/-- Whether the program fails, and with what. -/
def attempt (p : Prog σ ω ε α) : Prog σ ω ε (Except ε α) := fun answers s =>
  match p answers s with
  | (.returned value rest, s') => (.returned (.ok value) rest, s')
  | (.failed error rest, s') => (.returned (.error error) rest, s')
  | (.stopped, s') => (.stopped, s')

/-- The state, without a call. -/
def state : Prog σ ω ε σ := fun answers s => (.returned s answers, s)

def modify (f : σ → σ) : Prog σ ω ε Unit := fun answers s => (.returned () answers, f s)

/-- A call: what it does depends on the answer. -/
def call (f : ω → σ → Except ε α × σ) : Prog σ ω ε α := fun answers s =>
  match answers with
  | [] => (.stopped, s)
  | answer :: rest =>
    match f answer s with
    | (.ok value, s') => (.returned value rest, s')
    | (.error error, s') => (.failed error rest, s')

/-- The body at most `n` times. -/
def repeatN (body : β → Prog σ ω ε (β ⊕ α)) : ℕ → β → Prog σ ω ε α
  | 0, _ => fun _ s => (.stopped, s)
  | n + 1, b => do
    match ← body b with
    | .inl b' => repeatN body n b'
    | .inr value => pure value

/-- The body until it gives a result.  A body that calls at least once runs as
often as there are answers for. -/
def repeat' (body : β → Prog σ ω ε (β ⊕ α)) (b : β) : Prog σ ω ε α := fun answers s =>
  repeatN body (answers.length + 1) b answers s

/-- What a program ensures: `Q` when it returns, `E` when it fails, `C` when it
is stopped. -/
def Ensures (p : Prog σ ω ε α) (Q : α → σ → Prop) (E : ε → σ → Prop) (C : σ → Prop) (s : σ) :
    Prop :=
  ∀ answers, match p answers s with
    | (.returned value _, s') => Q value s'
    | (.failed error _, s') => E error s'
    | (.stopped, s') => C s'

variable {Q Q' : α → σ → Prop} {E E' : ε → σ → Prop} {C C' : σ → Prop} {s : σ}
  {p : Prog σ ω ε α} {f : α → Prog σ ω ε β} {handler : ε → Prog σ ω ε α} {m n : ℕ}

theorem Ensures.mono (h : p.Ensures Q E C s) (hQ : ∀ a s, Q a s → Q' a s)
    (hE : ∀ e s, E e s → E' e s) (hC : ∀ s, C s → C' s) : p.Ensures Q' E' C' s := by
  intro answers
  have hrun := h answers
  split at hrun
  · exact hQ _ _ hrun
  · exact hE _ _ hrun
  · exact hC _ hrun

theorem ensures_pure {value : α} (h : Q value s) :
    (pure value : Prog σ ω ε α).Ensures Q E C s := fun _ => h

theorem ensures_fail {error : ε} (h : E error s) :
    (fail error : Prog σ ω ε α).Ensures Q E C s := fun _ => h

theorem ensures_state {Q : σ → σ → Prop} (h : Q s s) :
    (state : Prog σ ω ε σ).Ensures Q E C s := fun _ => h

theorem ensures_modify {f : σ → σ} {Q : Unit → σ → Prop} (h : Q () (f s)) :
    (modify f : Prog σ ω ε Unit).Ensures Q E C s := fun _ => h

theorem ensures_bind {Q : β → σ → Prop} (h : p.Ensures (fun a => (f a).Ensures Q E C) E C s) :
    (p >>= f).Ensures Q E C s := by
  intro answers
  have hrun := h answers
  show match Prog.bind p f answers s with
    | (.returned value _, s') => Q value s'
    | (.failed error _, s') => E error s'
    | (.stopped, s') => C s'
  rw [Prog.bind]
  cases hp : p answers s with
  | mk outcome s' =>
  rw [hp] at hrun
  cases outcome with
  | returned value rest => exact hrun rest
  | failed error rest => exact hrun
  | stopped => exact hrun

theorem ensures_handle (h : p.Ensures Q (fun e => (handler e).Ensures Q E C) C s) :
    (p.handle handler).Ensures Q E C s := by
  intro answers
  have hrun := h answers
  rw [handle]
  cases hp : p answers s with
  | mk outcome s' =>
  rw [hp] at hrun
  cases outcome with
  | returned value rest => exact hrun
  | failed error rest => exact hrun rest
  | stopped => exact hrun

theorem ensures_attempt {Q : Except ε α → σ → Prop}
    (h : p.Ensures (fun a => Q (.ok a)) (fun e => Q (.error e)) C s) :
    (attempt p).Ensures Q E C s := by
  intro answers
  have hrun := h answers
  rw [attempt]
  cases hp : p answers s with
  | mk outcome s' =>
  rw [hp] at hrun
  cases outcome with
  | returned value rest => exact hrun
  | failed error rest => exact hrun
  | stopped => exact hrun

/-- **A call** may be the point where the program is stopped. -/
theorem ensures_call {f : ω → σ → Except ε α × σ} (hstop : C s)
    (hanswer : ∀ answer, match f answer s with
      | (.ok value, s') => Q value s'
      | (.error error, s') => E error s') : (call f).Ensures Q E C s := by
  intro answers
  cases answers with
  | nil => exact hstop
  | cons answer rest =>
    have hrun := hanswer answer
    rw [call]
    cases hf : f answer s with
    | mk result s' =>
    rw [hf] at hrun
    cases result with
    | ok value => exact hrun
    | error error => exact hrun

/-- **A loop keeps its invariant.** -/
theorem ensures_repeat {body : β → Prog σ ω ε (β ⊕ α)} {I : β → σ → Prop}
    (hstop : ∀ b s, I b s → C s)
    (hbody : ∀ b s, I b s → (body b).Ensures
      (fun next s' => match next with
        | .inl b' => I b' s'
        | .inr value => Q value s') E C s)
    {b : β} (h : I b s) : (repeat' body b).Ensures Q E C s := by
  have htimes : ∀ n b s, I b s → (repeatN body n b).Ensures Q E C s := by
    intro n
    induction n with
    | zero =>
      intro b s hb _
      exact hstop b s hb
    | succ n ih =>
      intro b s hb
      refine ensures_bind ((hbody b s hb).mono ?_ (fun _ _ he => he) fun _ hc => hc)
      intro next s' hnext
      cases next with
      | inl b' => exact ih b' s' hnext
      | inr value => exact ensures_pure hnext
  intro answers
  exact htimes (answers.length + 1) b s h answers

/-! ### How many answers a program takes -/

/-- With `n` answers the program comes to an end, and it leaves all but `n`. -/
def Takes (p : Prog σ ω ε α) (n : ℕ) (s : σ) : Prop :=
  ∀ answers, n ≤ answers.length → match p answers s with
    | (.returned _ rest, _) => answers.length ≤ rest.length + n
    | (.failed _ rest, _) => answers.length ≤ rest.length + n
    | (.stopped, _) => False

theorem Takes.mono (h : p.Takes m s) (hle : m ≤ n) : p.Takes n s := by
  intro answers hlen
  have hrun := h answers (Nat.le_trans hle hlen)
  split at hrun
  · exact Nat.le_trans hrun (Nat.add_le_add_left hle _)
  · exact Nat.le_trans hrun (Nat.add_le_add_left hle _)
  · exact hrun

theorem takes_pure {value : α} : (pure value : Prog σ ω ε α).Takes 0 s :=
  fun _ _ => Nat.le_refl _

theorem takes_fail {error : ε} : (fail error : Prog σ ω ε α).Takes 0 s :=
  fun _ _ => Nat.le_refl _

theorem takes_state : (state : Prog σ ω ε σ).Takes 0 s := fun _ _ => Nat.le_refl _

theorem takes_modify {f : σ → σ} : (modify f : Prog σ ω ε Unit).Takes 0 s :=
  fun _ _ => Nat.le_refl _

theorem takes_call {f : ω → σ → Except ε α × σ} : (call f).Takes 1 s := by
  intro answers hlen
  cases answers with
  | nil => exact absurd hlen (by simp)
  | cons answer rest =>
    rw [call]
    cases hf : f answer s with
    | mk result s' =>
    cases result with
    | ok value => exact Nat.le_refl _
    | error error => exact Nat.le_refl _

theorem takes_bind (h : p.Takes m s)
    (hnext : p.Ensures (fun a s' => (f a).Takes n s') (fun _ _ => True) (fun _ => True) s) :
    (p >>= f).Takes (m + n) s := by
  intro answers hlen
  have hrun := h answers (by omega)
  have hpost := hnext answers
  show match Prog.bind p f answers s with
    | (.returned _ rest, _) => answers.length ≤ rest.length + (m + n)
    | (.failed _ rest, _) => answers.length ≤ rest.length + (m + n)
    | (.stopped, _) => False
  rw [Prog.bind]
  cases hp : p answers s with
  | mk outcome s' =>
  rw [hp] at hrun hpost
  cases outcome with
  | returned value rest =>
    dsimp only at hrun hpost ⊢
    have hrest := hpost rest (by omega)
    split at hrest
    · omega
    · omega
    · exact hrest
  | failed error rest =>
    dsimp only at hrun ⊢
    omega
  | stopped => exact hrun

theorem takes_handle (h : p.Takes m s)
    (hnext : p.Ensures (fun _ _ => True) (fun e s' => (handler e).Takes n s') (fun _ => True) s) :
    (p.handle handler).Takes (m + n) s := by
  intro answers hlen
  have hrun := h answers (by omega)
  have hpost := hnext answers
  rw [handle]
  cases hp : p answers s with
  | mk outcome s' =>
  rw [hp] at hrun hpost
  cases outcome with
  | returned value rest =>
    dsimp only at hrun ⊢
    omega
  | failed error rest =>
    dsimp only at hrun hpost ⊢
    have hrest := hpost rest (by omega)
    split at hrest
    · omega
    · omega
    · exact hrest
  | stopped => exact hrun

theorem takes_attempt (h : p.Takes n s) : (attempt p).Takes n s := by
  intro answers hlen
  have hrun := h answers hlen
  rw [attempt]
  cases hp : p answers s with
  | mk outcome s' =>
  rw [hp] at hrun
  cases outcome with
  | returned value rest => exact hrun
  | failed error rest => exact hrun
  | stopped => exact hrun

theorem ensures_of_forall (hQ : ∀ a s, Q a s) (hE : ∀ e s, E e s) (hC : ∀ s, C s) :
    p.Ensures Q E C s := by
  intro answers
  split
  · exact hQ _ _
  · exact hE _ _
  · exact hC _

theorem takes_seq (h : p.Takes m s) (hnext : ∀ a s', (f a).Takes n s') :
    (p >>= f).Takes (m + n) s :=
  takes_bind h (ensures_of_forall hnext (fun _ _ => trivial) fun _ => trivial)

theorem takes_rescue (h : p.Takes m s) (hnext : ∀ e s', (handler e).Takes n s') :
    (p.handle handler).Takes (m + n) s :=
  takes_handle h (ensures_of_forall (fun _ _ => trivial) hnext fun _ => trivial)

/-- **A loop with a measure comes to an end.**  Each turn that goes on makes the measure
smaller. -/
theorem takes_repeat {body : β → Prog σ ω ε (β ⊕ α)} {I : β → σ → Prop} (measure : β → ℕ)
    {k : ℕ} (hk : 0 < k) (hturn : ∀ b s, I b s → (body b).Takes k s)
    (hbody : ∀ b s, I b s → (body b).Ensures
      (fun next s' => match next with
        | .inl b' => I b' s' ∧ measure b' < measure b
        | .inr _ => True) (fun _ _ => True) (fun _ => True) s)
    {b : β} (h : I b s) : (repeat' body b).Takes (k * (measure b + 1)) s := by
  have htimes : ∀ n b s, I b s → measure b < n →
      (repeatN body n b).Takes (k * (measure b + 1)) s := by
    intro n
    induction n with
    | zero =>
      intro b s _ hlt
      exact absurd hlt (Nat.not_lt_zero _)
    | succ n ih =>
      intro b s hb hlt
      have hnext : (body b).Ensures
          (fun next s' => (match next with
            | .inl b' => repeatN body n b'
            | .inr value => pure value : Prog σ ω ε α).Takes (k * measure b) s')
          (fun _ _ => True) (fun _ => True) s := by
        refine (hbody b s hb).mono ?_ (fun _ _ he => he) fun _ hc => hc
        intro next s' hgo
        cases next with
        | inl b' =>
          have hle : k * (measure b' + 1) ≤ k * measure b := Nat.mul_le_mul_left k hgo.2
          exact (ih b' s' hgo.1 (by have hless := hgo.2; omega)).mono hle
        | inr value => exact takes_pure.mono (Nat.zero_le _)
      have hbind := takes_bind (hturn b s hb) hnext
      rw [Nat.mul_succ, Nat.add_comm (k * measure b) k]
      exact hbind
  intro answers hlen
  have hle : measure b + 1 ≤ k * (measure b + 1) := Nat.le_mul_of_pos_left _ hk
  exact htimes (answers.length + 1) b s h (by omega) answers hlen

end Prog

end Calls
