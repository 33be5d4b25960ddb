/-
Computations that touch memory and may fail.

A `Traced` computation gives a value or fails with a text, and lists the accesses
it made up to there, also when it fails.  What is read does not depend on whether
the access is allowed.
-/
import Mathlib.Data.List.Basic

/-- The accesses of a computation and how it ends. -/
structure Traced (ρ α : Type) where
  accesses : List ρ
  result : Except String α

namespace Traced

variable {ρ α β : Type}

protected def pure (value : α) : Traced ρ α := ⟨[], .ok value⟩

protected def bind (x : Traced ρ α) (f : α → Traced ρ β) : Traced ρ β :=
  match x.result with
  | .ok value => ⟨x.accesses ++ (f value).accesses, (f value).result⟩
  | .error text => ⟨x.accesses, .error text⟩

instance : Monad (Traced ρ) where
  pure := Traced.pure
  bind := Traced.bind

def fail (text : String) : Traced ρ α := ⟨[], .error text⟩

/-- One access and the value that it gives. -/
def access (r : ρ) (value : α) : Traced ρ α := ⟨[r], .ok value⟩

/-- The value of a computation that does not fail. -/
def value? (x : Traced ρ α) : Option α := x.result.toOption

/-! ### Values -/

@[simp] theorem value?_pure (value : α) : (pure value : Traced ρ α).value? = some value := rfl

@[simp] theorem value?_bind (x : Traced ρ α) (f : α → Traced ρ β) :
    (x >>= f).value? = x.value?.bind fun value => (f value).value? := by
  obtain ⟨accesses, result⟩ := x
  cases result with
  | error text => rfl
  | ok value => rfl

end Traced
