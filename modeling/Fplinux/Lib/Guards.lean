/-
Computations that stop at the first failed check.

A function in `Except` that checks and then goes on succeeds only if the check holds and
the rest succeeds.  The rules take a successful run apart, one step of the function at a
time.

Main results:
- `bind_eq_ok`: a sequence succeeds when both parts do;
- `check_eq_ok`: a check that throws when its condition holds;
- `foldlM_induction`: what every step keeps, a loop keeps.
-/
import Mathlib.Data.List.Basic

namespace Guards

variable {ε α β σ : Type} {b : β} {items : List α}

theorem bind_eq_ok {x : Except ε α} {f : α → Except ε β} :
    (x >>= f) = .ok b ↔ ∃ a, x = .ok a ∧ f a = .ok b := by
  cases x with
  | error e =>
    constructor
    · intro h
      cases h
    · rintro ⟨a, h, -⟩
      cases h
  | ok a =>
    constructor
    · intro h
      exact ⟨a, rfl, h⟩
    · rintro ⟨a', h, hf⟩
      cases h
      exact hf

theorem check_eq_ok {c : Prop} [Decidable c] {e : ε} {rest : Unit → Except ε β} :
    (if c then (throw e >>= rest) else rest ()) = .ok b ↔ ¬ c ∧ rest () = .ok b := by
  by_cases hc : c
  · rw [if_pos hc]
    constructor
    · intro h
      cases h
    · rintro ⟨h, -⟩
      exact absurd hc h
  · rw [if_neg hc]
    exact ⟨fun h => ⟨hc, h⟩, fun h => h.2⟩

/-- **Loop rule.** -/
theorem foldlM_induction {P : σ → Prop} {step : σ → α → Except ε σ} {s s' : σ}
    (hstep : ∀ s item s', item ∈ items → P s → step s item = .ok s' → P s') (hs : P s)
    (h : items.foldlM step s = .ok s') : P s' := by
  induction items generalizing s with
  | nil =>
    cases h
    exact hs
  | cons item items ih =>
    rw [List.foldlM_cons] at h
    obtain ⟨middle, hmiddle, h⟩ := bind_eq_ok.mp h
    exact ih (fun s item s' hmem => hstep s item s' (List.mem_cons_of_mem _ hmem))
      (hstep s item middle (List.mem_cons_self ..) hs hmiddle) h

end Guards
