/-
Rings that remember what was pushed last.

A ring has a fixed number of slots and a cursor.  A push fills the slot at the cursor and moves
it on; an erasure blanks the slots whose values it names.  What was pushed and not erased since
is still there while there were fewer later pushes than slots.

Main results:
- `Kept.push`, `Kept.erase`: what a ring keeps after one more event.
-/
import Mathlib.Algebra.GroupWithZero.Nat
import Mathlib.Data.Fin.Basic

namespace Recent

variable {α : Type*} {n : ℕ} [NeZero n]

structure Ring (α : Type*) (n : ℕ) where
  slots : Fin n → α
  cursor : Fin n

/-- Fills the slot at the cursor. -/
def Ring.push (ring : Ring α n) (a : α) : Ring α n where
  slots := Function.update ring.slots ring.cursor a
  cursor := Fin.ofNat n (ring.cursor + 1)

/-- Blanks the slots with certain values. -/
def Ring.erase (ring : Ring α n) (gone : α → Prop) [DecidablePred gone] (blank : α) :
    Ring α n where
  slots i := if gone (ring.slots i) then blank else ring.slots i
  cursor := ring.cursor

/-- The slot that was filled `age` pushes before the last one. -/
def Ring.place (ring : Ring α n) (age : ℕ) : Fin n := Fin.ofNat n (ring.cursor + (n - 1 - age))

/-- What happened to a ring. -/
inductive Event (α : Type*) where
  | pushed (a : α)
  | erased (gone : α → Prop)

/-- The number of pushes. -/
def pushes : List (Event α) → ℕ
  | [] => 0
  | .pushed _ :: events => pushes events + 1
  | .erased _ :: events => pushes events

/-- No event erased a value. -/
def Spares (a : α) (events : List (Event α)) : Prop :=
  ∀ gone, Event.erased gone ∈ events → ¬ gone a

/-- The ring still has what was pushed and not erased since, in the order of the pushes. -/
def Kept (ring : Ring α n) (events : List (Event α)) : Prop :=
  ∀ before a after, events = before ++ .pushed a :: after → pushes after < n → Spares a after →
    ring.slots (ring.place (pushes after)) = a

theorem pushes_append (l r : List (Event α)) : pushes (l ++ r) = pushes l + pushes r := by
  induction l with
  | nil => exact (Nat.zero_add _).symm
  | cons event l ih =>
    cases event with
    | pushed a =>
      rw [List.cons_append, pushes, pushes, ih]
      omega
    | erased gone =>
      rw [List.cons_append, pushes, pushes, ih]

theorem kept_nil (ring : Ring α n) : Kept ring [] := by
  intro before a after hevents
  exact absurd hevents (by simp)

theorem concat_eq {events before after : List (Event α)} {event last : Event α}
    (h : events ++ [last] = before ++ event :: after) :
    (after = [] ∧ last = event) ∨
      ∃ rest, after = rest ++ [last] ∧ events = before ++ event :: rest := by
  rcases List.eq_nil_or_concat after with rfl | ⟨rest, final, rfl⟩
  · have hlast := List.append_inj' h rfl
    exact Or.inl ⟨rfl, List.singleton_inj.1 hlast.2⟩
  · rw [List.concat_eq_append, ← List.cons_append, ← List.append_assoc] at h
    obtain ⟨hevents, hfinal⟩ := List.append_inj' h rfl
    rw [List.singleton_inj.1 hfinal]
    exact Or.inr ⟨rest, by rw [List.concat_eq_append], hevents⟩

theorem Ring.place_push_zero (ring : Ring α n) (b : α) : (ring.push b).place 0 = ring.cursor := by
  have hpos := Nat.pos_of_neZero n
  have hlt := ring.cursor.isLt
  apply Fin.ext
  show ((ring.cursor + 1) % n + (n - 1 - 0)) % n = ring.cursor
  rw [Nat.mod_add_mod, show (ring.cursor : ℕ) + 1 + (n - 1 - 0) = ring.cursor + n by omega,
    Nat.add_mod_right, Nat.mod_eq_of_lt hlt]

theorem Ring.place_push_succ (ring : Ring α n) (b : α) {age : ℕ} (h : age + 1 < n) :
    (ring.push b).place (age + 1) = ring.place age := by
  apply Fin.ext
  show ((ring.cursor + 1) % n + (n - 1 - (age + 1))) % n = (ring.cursor + (n - 1 - age)) % n
  rw [Nat.mod_add_mod]
  congr 1
  omega

theorem Ring.place_ne (ring : Ring α n) {age : ℕ} (h : age + 1 < n) :
    ring.place age ≠ ring.cursor := by
  intro heq
  have hlt := ring.cursor.isLt
  have hval : (ring.cursor + (n - 1 - age)) % n = ring.cursor := congrArg Fin.val heq
  rcases Nat.lt_or_ge (ring.cursor + (n - 1 - age)) n with hsmall | hwrap
  · rw [Nat.mod_eq_of_lt hsmall] at hval
    omega
  · rw [Nat.mod_eq_sub_mod hwrap, Nat.mod_eq_of_lt (by omega)] at hval
    omega

/-- **One more push** leaves all but the oldest value. -/
theorem Kept.push {ring : Ring α n} {events : List (Event α)} (h : Kept ring events) (b : α) :
    Kept (ring.push b) (events ++ [.pushed b]) := by
  intro before a after hevents hcount hspares
  rcases concat_eq hevents with ⟨rfl, hlast⟩ | ⟨rest, rfl, hrest⟩
  · cases hlast
    rw [pushes, Ring.place_push_zero]
    exact Function.update_self ..
  · rw [pushes_append] at hcount ⊢
    have hone : pushes [Event.pushed b] = 1 := rfl
    rw [hone] at hcount ⊢
    have hkept := h before a rest hrest (by omega) fun gone hgone =>
      hspares gone (List.mem_append_left _ hgone)
    rw [Ring.place_push_succ ring b hcount]
    exact (Function.update_of_ne (ring.place_ne hcount) ..).trans hkept

/-- **One more erasure** leaves what it does not name. -/
theorem Kept.erase {ring : Ring α n} {events : List (Event α)} (h : Kept ring events)
    (gone : α → Prop) [DecidablePred gone] (blank : α) :
    Kept (ring.erase gone blank) (events ++ [.erased gone]) := by
  intro before a after hevents hcount hspares
  rcases concat_eq hevents with ⟨rfl, hlast⟩ | ⟨rest, rfl, hrest⟩
  · cases hlast
  · rw [pushes_append] at hcount ⊢
    have hkept := h before a rest hrest hcount fun named hnamed =>
      hspares named (List.mem_append_left _ hnamed)
    have hspared : ¬ gone a := hspares gone (by simp)
    show (if gone (ring.slots (ring.place (pushes rest))) then blank
      else ring.slots (ring.place (pushes rest))) = a
    rw [hkept, if_neg hspared]

end Recent
