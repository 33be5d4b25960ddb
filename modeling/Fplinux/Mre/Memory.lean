/-
The pool of the guest's memory (`mre-memory.c`).

The pool counts the blocks that the host's allocator gave for the guest.  Addresses that were
freed stay known for a while, so that a second release of one is harmless.

Main results:
- `Inv.calloc`, `Inv.realloc`, `Inv.free`: the totals are exact, and no address that was freed
  lies in a live block;
- `calloc_some`, `realloc_some`: within the limit only the host refuses;
- `calloc_fails`, `realloc_fails`, `free_fails`: a call that fails changes nothing.
-/
import Mathlib.Algebra.BigOperators.Group.List.Basic
import Fplinux.Lib.Recent

namespace MreMemory

/-! ### The pool -/

/-- `struct mre_memory_allocation`; a vacant slot has the null pointer. -/
structure Allocation where
  pointer : ℕ
  bytes : ℕ
  deriving DecidableEq, Repr

def Allocation.vacant : Allocation := ⟨0, 0⟩

/-- `struct mre_memory`; `retired` has the ring with its cursor, and zero stands for no address. -/
structure Pool where
  allocations : List Allocation
  limit : ℕ
  bytes : ℕ
  count : ℕ
  retired : Recent.Ring ℕ 256

def Pool.capacity (pool : Pool) : ℕ := pool.allocations.length

/-- An address lies in a block. -/
def Within (address bytes r : ℕ) : Prop := address ≤ r ∧ r - address < bytes

instance (address bytes : ℕ) : DecidablePred (Within address bytes) := fun r =>
  inferInstanceAs (Decidable (address ≤ r ∧ r - address < bytes))

def Pool.forgetRetired (pool : Pool) (address bytes : ℕ) : Pool :=
  { pool with retired := pool.retired.erase (Within address bytes) 0 }

/-- The ring with one more address, unless it is there. -/
def retireAddress (ring : Recent.Ring ℕ 256) (address : ℕ) : Recent.Ring ℕ 256 :=
  if ∃ i, ring.slots i = address then ring else ring.push address

def Pool.retire (pool : Pool) (address : ℕ) : Pool :=
  { pool with retired := retireAddress pool.retired address }

/-- What the processor has: `SIZE_MAX` and the size of a slot. -/
structure Target where
  sizeMax : ℕ
  slotBytes : ℕ

variable (target : Target)

/-- `vacant_slot`; `table` says whether the host gives a larger table. -/
def Pool.vacantSlot (pool : Pool) (table : Bool) : Option (ℕ × Pool) :=
  match pool.allocations.findIdx? (·.pointer = 0) with
  | some slot => some (slot, pool)
  | none =>
    if pool.capacity ≥ pool.limit then none
    else
      let capacity := if pool.capacity > pool.limit - pool.capacity then pool.limit
        else pool.capacity * 2
      if capacity > target.sizeMax / target.slotBytes then none
      else if table then
        some (pool.capacity, { pool with
          allocations := pool.allocations ++
            List.replicate (capacity - pool.capacity) Allocation.vacant })
      else none

/-- `mre_memory_init`, where the host gives the table. -/
def Pool.init (limit : ℕ) : Pool where
  allocations := List.replicate (if limit < 256 then limit else 256) Allocation.vacant
  limit := limit
  bytes := 0
  count := 0
  retired := ⟨fun _ => 0, 0⟩

/-- `mre_memory_calloc`; `host` is what the host's `calloc` gives. -/
def Pool.calloc (pool : Pool) (bytes : Int32) (host : Option ℕ) (table : Bool) :
    Option ℕ × Pool :=
  if bytes.toInt ≤ 0 ∨ bytes.toInt.toNat > pool.limit - pool.bytes then (none, pool)
  else
    match host with
    | none => (none, pool)
    | some pointer =>
      match pool.vacantSlot target table with
      | none => (none, pool)
      | some (slot, grown) =>
        let forgotten := grown.forgetRetired pointer bytes.toInt.toNat
        (some pointer, { forgotten with
          allocations := forgotten.allocations.set slot ⟨pointer, bytes.toInt.toNat⟩
          bytes := forgotten.bytes + bytes.toInt.toNat
          count := forgotten.count + 1 })

/-- `mre_memory_realloc`; `host` is what the host's `realloc` (or `calloc`) gives. -/
def Pool.realloc (pool : Pool) (pointer : ℕ) (bytes : Int32) (host : Option ℕ) (table : Bool) :
    Option ℕ × Pool :=
  if bytes.toInt ≤ 0 then (none, pool)
  else if pointer = 0 then pool.calloc target bytes host table
  else
    match pool.allocations.findIdx? (·.pointer = pointer) with
    | none => (none, pool)
    | some slot =>
      let oldBytes := (pool.allocations.getD slot Allocation.vacant).bytes
      if bytes.toInt.toNat > pool.limit - (pool.bytes - oldBytes) then (none, pool)
      else
        match host with
        | none => (none, pool)
        | some replacement =>
          let moved := if replacement ≠ pointer then pool.retire pointer else pool
          let forgotten := moved.forgetRetired replacement bytes.toInt.toNat
          (some replacement, { forgotten with
            allocations := forgotten.allocations.set slot ⟨replacement, bytes.toInt.toNat⟩
            bytes := forgotten.bytes - oldBytes + bytes.toInt.toNat })

/-- `mre_memory_owner`: the block that an address lies in. -/
def Pool.owner (pool : Pool) (address : ℕ) : Option Allocation :=
  pool.allocations.find? fun a => a.pointer ≠ 0 ∧ Within a.pointer a.bytes address

def Pool.contains (pool : Pool) (address bytes : ℕ) : Bool :=
  pool.allocations.any fun a =>
    a.pointer ≠ 0 ∧ a.pointer ≤ address ∧ address - a.pointer ≤ a.bytes ∧
      bytes ≤ a.bytes - (address - a.pointer)

/-- `enum mre_memory_release`. -/
inductive Release where
  | unknown
  | interior
  | released
  | retired
  deriving DecidableEq, Repr

/-- `mre_memory_free`: the result, `*released_bytes` and the pool. -/
def Pool.free (pool : Pool) (pointer : ℕ) : Release × ℕ × Pool :=
  if pointer = 0 then (.released, 0, pool)
  else
    match pool.allocations.findIdx? (·.pointer = pointer) with
    | some slot =>
      let bytes := (pool.allocations.getD slot Allocation.vacant).bytes
      let retired := ({ pool with
        bytes := pool.bytes - bytes
        count := pool.count - 1 } : Pool).retire pointer
      (.released, bytes, { retired with
        allocations := retired.allocations.set slot Allocation.vacant })
    | none =>
      if (pool.owner pointer).isSome then (.interior, 0, pool)
      else if ∃ i, pool.retired.slots i = pointer then (.retired, 0, pool)
      else (.unknown, 0, pool)

/-! ### Live blocks -/

/-- The blocks that the guest has. -/
def live (allocations : List Allocation) : List Allocation :=
  allocations.filter fun a => a.pointer ≠ 0

/-- A number of each live block, added up. -/
def total (f : Allocation → ℕ) (allocations : List Allocation) : ℕ :=
  ((live allocations).map f).sum

/-- What a slot adds to a total. -/
def share (f : Allocation → ℕ) (a : Allocation) : ℕ := if a.pointer ≠ 0 then f a else 0

/-- Two blocks do not overlap. -/
def Apart (a b : Allocation) : Prop :=
  a.pointer + a.bytes ≤ b.pointer ∨ b.pointer + b.bytes ≤ a.pointer

variable {a old : Allocation} {pool : Pool} {slot pointer : ℕ} {table : Bool} {bytes : Int32}
  {host : Option ℕ}

theorem mem_live {allocations : List Allocation} :
    a ∈ live allocations ↔ ∃ i : ℕ, allocations[i]? = some a ∧ a.pointer ≠ 0 := by
  rw [live, List.mem_filter, List.mem_iff_getElem?, decide_eq_true_eq, exists_and_right]

theorem total_cons (f : Allocation → ℕ) (a : Allocation) (allocations : List Allocation) :
    total f (a :: allocations) = share f a + total f allocations := by
  rw [total, live, List.filter_cons, share]
  split
  · rename_i ha
    rw [if_pos (by simpa using ha), List.map_cons, List.sum_cons]
    rfl
  · rename_i ha
    rw [if_neg (by simpa using ha), Nat.zero_add]
    rfl

theorem total_set (f : Allocation → ℕ) (a : Allocation) :
    ∀ {allocations : List Allocation} {slot : ℕ}, allocations[slot]? = some old →
      total f (allocations.set slot a) + share f old = total f allocations + share f a := by
  intro allocations
  induction allocations with
  | nil => exact fun h => nomatch h
  | cons first rest ih =>
    intro slot h
    cases slot with
    | zero =>
      rw [List.getElem?_cons_zero, Option.some.injEq] at h
      rw [List.set_cons_zero, total_cons, total_cons, h]
      omega
    | succ slot =>
      have hrest := ih (by rwa [List.getElem?_cons_succ] at h)
      rw [List.set_cons_succ, total_cons, total_cons]
      omega

theorem total_append_vacant (f : Allocation → ℕ) (allocations : List Allocation) (more : ℕ) :
    total f (allocations ++ List.replicate more Allocation.vacant) = total f allocations := by
  have hvacant : live (List.replicate more Allocation.vacant) = [] := by
    rw [live, List.filter_eq_nil_iff]
    intro a ha
    rw [List.eq_of_mem_replicate ha]
    decide
  rw [total, live, List.filter_append]
  rw [live] at hvacant
  rw [hvacant, List.append_nil]
  rfl

theorem total_one (allocations : List Allocation) :
    total (fun _ => 1) allocations = (live allocations).length := by
  rw [total, List.map_const', List.sum_replicate_nat, Nat.mul_one]

/-! ### The invariant -/

/-- The totals are exact, the blocks lie apart, and no address that was freed lies in one. -/
structure Inv (pool : Pool) : Prop where
  capacity : pool.capacity ≤ pool.limit
  slots : pool.capacity = 0 → pool.limit = 0
  bytes : pool.bytes = total (·.bytes) pool.allocations
  atMost : pool.bytes ≤ pool.limit
  count : pool.count = total (fun _ => 1) pool.allocations
  block : ∀ a ∈ live pool.allocations, 0 < a.bytes ∧ a.pointer + a.bytes ≤ target.sizeMax + 1
  apart : ∀ (i j : ℕ) (a b : Allocation), i ≠ j → pool.allocations[i]? = some a →
    pool.allocations[j]? = some b → a.pointer ≠ 0 → b.pointer ≠ 0 → Apart a b
  retired : ∀ i, pool.retired.slots i ≠ 0 → ∀ a ∈ live pool.allocations,
    ¬ Within a.pointer a.bytes (pool.retired.slots i)

/-- What a slot may be overwritten with: nothing, or a block apart from the other ones. -/
structure Fits (pool : Pool) (slot : ℕ) (a : Allocation) : Prop where
  positive : a.pointer ≠ 0 → 0 < a.bytes
  inside : a.pointer ≠ 0 → a.pointer + a.bytes ≤ target.sizeMax + 1
  apart : ∀ (i : ℕ) (b : Allocation), i ≠ slot → pool.allocations[i]? = some b →
    a.pointer ≠ 0 → b.pointer ≠ 0 → Apart a b

variable {target}

/-- **A slot is overwritten**, and the totals and the ring follow. -/
theorem Inv.replace (h : Inv target pool) (hslot : pool.allocations[slot]? = some old)
    (hfits : Fits target pool slot a) {retired : Recent.Ring ℕ 256} {bytes count : ℕ}
    (hretired : ∀ i, retired.slots i ≠ 0 →
      (a.pointer ≠ 0 → ¬ Within a.pointer a.bytes (retired.slots i)) ∧
      ∀ (j : ℕ) (b : Allocation), j ≠ slot → pool.allocations[j]? = some b → b.pointer ≠ 0 →
        ¬ Within b.pointer b.bytes (retired.slots i))
    (hbytes : bytes + share (·.bytes) old = pool.bytes + share (·.bytes) a)
    (hatMost : bytes ≤ pool.limit)
    (hcount : count + share (fun _ => 1) old = pool.count + share (fun _ => 1) a) :
    Inv target ⟨pool.allocations.set slot a, pool.limit, bytes, count, retired⟩ := by
  obtain ⟨hlt, -⟩ := List.getElem?_eq_some_iff.1 hslot
  have hget : ∀ (i : ℕ) (b : Allocation), (pool.allocations.set slot a)[i]? = some b →
      (i = slot ∧ b = a) ∨ (i ≠ slot ∧ pool.allocations[i]? = some b) := by
    intro i b hb
    by_cases hi : i = slot
    · rw [hi, List.getElem?_set_self hlt, Option.some.injEq] at hb
      exact Or.inl ⟨hi, hb.symm⟩
    · rw [List.getElem?_set_ne (Ne.symm hi)] at hb
      exact Or.inr ⟨hi, hb⟩
  have hlength : (pool.allocations.set slot a).length = pool.allocations.length :=
    List.length_set
  constructor
  · rw [Pool.capacity, hlength]
    exact h.capacity
  · rw [Pool.capacity, hlength]
    exact h.slots
  · have hset := total_set (·.bytes) a hslot
    have hbefore := h.bytes
    dsimp only at hset ⊢
    omega
  · exact hatMost
  · have hset := total_set (fun _ => 1) a hslot
    have hbefore := h.count
    dsimp only at hset ⊢
    omega
  · intro b hb
    obtain ⟨i, hi, hpointer⟩ := mem_live.1 hb
    rcases hget i b hi with ⟨-, rfl⟩ | ⟨-, hkept⟩
    · exact ⟨hfits.positive hpointer, hfits.inside hpointer⟩
    · exact h.block b (mem_live.2 ⟨i, hkept, hpointer⟩)
  · intro i j b c hij hb hc hbp hcp
    rcases hget i b hb with ⟨rfl, rfl⟩ | ⟨hi, hkept⟩
    · rcases hget j c hc with ⟨rfl, -⟩ | ⟨hj, hkept'⟩
      · exact absurd rfl hij
      · exact hfits.apart j c hj hkept' hbp hcp
    · rcases hget j c hc with ⟨rfl, rfl⟩ | ⟨hj, hkept'⟩
      · exact (hfits.apart i b hi hkept hcp hbp).symm
      · exact h.apart i j b c hij hkept hkept' hbp hcp
  · intro i hi b hb
    obtain ⟨j, hj, hpointer⟩ := mem_live.1 hb
    rcases hget j b hj with ⟨-, rfl⟩ | ⟨hne, hkept⟩
    · exact (hretired i hi).1 hpointer
    · exact (hretired i hi).2 j b hne hkept hpointer

/-! ### Slots and the ring -/

variable (target) in
/-- A pool with room for one more block: the same pool, or one with more vacant slots. -/
structure Grown (pool : Pool) (slot : ℕ) (grown : Pool) : Prop where
  inv : Inv target grown
  vacant : ∃ a, grown.allocations[slot]? = some a ∧ a.pointer = 0
  blocks : ∀ (i : ℕ) (b : Allocation), grown.allocations[i]? = some b → b.pointer ≠ 0 →
    pool.allocations[i]? = some b
  limit : grown.limit = pool.limit
  bytes : grown.bytes = pool.bytes
  count : grown.count = pool.count
  retired : grown.retired = pool.retired

theorem Inv.grow (h : Inv target pool) (more : ℕ) (hmore : pool.capacity + more ≤ pool.limit) :
    Inv target { pool with
      allocations := pool.allocations ++ List.replicate more Allocation.vacant } ∧
    ∀ (i : ℕ) (b : Allocation),
      (pool.allocations ++ List.replicate more Allocation.vacant)[i]? = some b →
      b.pointer ≠ 0 → pool.allocations[i]? = some b := by
  have hget : ∀ (i : ℕ) (b : Allocation),
      (pool.allocations ++ List.replicate more Allocation.vacant)[i]? = some b →
      b.pointer ≠ 0 → pool.allocations[i]? = some b := by
    intro i b hb hpointer
    rcases Nat.lt_or_ge i pool.allocations.length with hlt | hge
    · rwa [List.getElem?_append_left hlt] at hb
    · rw [List.getElem?_append_right hge] at hb
      have hvacant := List.eq_of_mem_replicate (List.mem_of_getElem? hb)
      rw [hvacant] at hpointer
      exact absurd rfl hpointer
  have hlive : ∀ b ∈ live (pool.allocations ++ List.replicate more Allocation.vacant),
      b ∈ live pool.allocations := by
    intro b hb
    obtain ⟨i, hi, hpointer⟩ := mem_live.1 hb
    exact mem_live.2 ⟨i, hget i b hi hpointer, hpointer⟩
  have hlength : (pool.allocations ++ List.replicate more Allocation.vacant).length =
      pool.capacity + more := by
    rw [List.length_append, List.length_replicate]
    rfl
  refine ⟨?_, hget⟩
  constructor
  · rw [Pool.capacity, hlength]
    exact hmore
  · intro hzero
    rw [Pool.capacity, hlength] at hzero
    exact h.slots (by omega)
  · rw [total_append_vacant]
    exact h.bytes
  · exact h.atMost
  · rw [total_append_vacant]
    exact h.count
  · exact fun b hb => h.block b (hlive b hb)
  · intro i j a b hij ha hb hap hbp
    exact h.apart i j a b hij (hget i a ha hap) (hget j b hb hbp) hap hbp
  · exact fun i hi b hb => h.retired i hi b (hlive b hb)

theorem vacantSlot_grown {grown : Pool} (h : Inv target pool)
    (heq : pool.vacantSlot target table = some (slot, grown)) : Grown target pool slot grown := by
  rw [Pool.vacantSlot] at heq
  split at heq
  · rename_i found hfound
    obtain ⟨rfl, rfl⟩ := Prod.mk.inj (Option.some.inj heq)
    obtain ⟨hlt, hpointer, -⟩ := List.findIdx?_eq_some_iff_getElem.1 hfound
    exact ⟨h, ⟨_, List.getElem?_eq_getElem hlt, by simpa using hpointer⟩, fun _ _ hb _ => hb, rfl,
      rfl, rfl, rfl⟩
  · split at heq
    · cases heq
    rename_i hroom
    dsimp only at heq
    have hcapacity : pool.capacity < (if pool.capacity > pool.limit - pool.capacity then pool.limit
        else pool.capacity * 2) ∧ (if pool.capacity > pool.limit - pool.capacity then pool.limit
        else pool.capacity * 2) ≤ pool.limit := by
      have hslots := h.slots
      split <;> omega
    generalize (if pool.capacity > pool.limit - pool.capacity then pool.limit
        else pool.capacity * 2) = capacity at heq hcapacity
    split at heq
    · cases heq
    split at heq
    · obtain ⟨rfl, rfl⟩ := Prod.mk.inj (Option.some.inj heq)
      obtain ⟨hinv, hblocks⟩ := h.grow (capacity - pool.capacity) (by omega)
      refine ⟨hinv, ⟨Allocation.vacant, ?_, rfl⟩, hblocks, rfl, rfl, rfl, rfl⟩
      show (pool.allocations ++ List.replicate (capacity - pool.capacity) Allocation.vacant)[
        pool.allocations.length]? = _
      rw [List.getElem?_append_right (Nat.le_refl _), Nat.sub_self, List.getElem?_replicate,
        if_pos (by omega)]
    · cases heq

theorem erase_slots {ring : Recent.Ring ℕ 256} {address bytes : ℕ} {i : Fin 256}
    (h : (ring.erase (Within address bytes) 0).slots i ≠ 0) :
    (ring.erase (Within address bytes) 0).slots i = ring.slots i ∧
      ¬ Within address bytes (ring.slots i) := by
  have hslot : (ring.erase (Within address bytes) 0).slots i =
      if Within address bytes (ring.slots i) then 0 else ring.slots i := rfl
  rw [hslot] at h ⊢
  split at h
  · exact absurd rfl h
  · rename_i hout
    exact ⟨if_neg hout, hout⟩

theorem retireAddress_slots (ring : Recent.Ring ℕ 256) (address : ℕ) (i : Fin 256) :
    (retireAddress ring address).slots i = address ∨
      (retireAddress ring address).slots i = ring.slots i := by
  rw [retireAddress]
  split
  · exact Or.inr rfl
  · by_cases hi : i = ring.cursor
    · rw [hi]
      exact Or.inl (Function.update_self ..)
    · exact Or.inr (Function.update_of_ne hi ..)

/-! ### The operations -/

variable (target) in
/-- What the host's allocator may give: a block in the address space, apart from the live blocks
except the one it replaces. -/
structure Fresh (pool : Pool) (replaced pointer bytes : ℕ) : Prop where
  notNull : pointer ≠ 0
  inside : pointer + bytes ≤ target.sizeMax + 1
  apart : ∀ b ∈ live pool.allocations, b.pointer ≠ replaced → Apart ⟨pointer, bytes⟩ b

theorem Inv.init (limit : ℕ) : Inv target (Pool.init limit) := by
  have hvacant : ∀ more, live (List.replicate more Allocation.vacant) = [] := by
    intro more
    rw [live, List.filter_eq_nil_iff]
    intro a ha
    rw [List.eq_of_mem_replicate ha]
    decide
  have htotal : ∀ f more, total f (List.replicate more Allocation.vacant) = 0 := by
    intro f more
    rw [total, hvacant]
    rfl
  have hcapacity : (Pool.init limit).capacity = if limit < 256 then limit else 256 :=
    List.length_replicate
  have hlimit : (Pool.init limit).limit = limit := rfl
  constructor
  · rw [hcapacity, hlimit]
    split <;> omega
  · rw [hcapacity, hlimit]
    split <;> omega
  · exact (htotal _ _).symm
  · exact Nat.zero_le _
  · exact (htotal _ _).symm
  · intro a ha
    rw [Pool.init, hvacant] at ha
    cases ha
  · intro i j a b hij ha hb hap
    rw [List.eq_of_mem_replicate (List.mem_of_getElem? ha)] at hap
    exact absurd rfl hap
  · exact fun i hi => absurd rfl hi

/-- **An allocation.** -/
theorem Inv.calloc (h : Inv target pool) (table : Bool)
    (hhost : ∀ pointer ∈ host, 0 < bytes.toInt → Fresh target pool 0 pointer bytes.toInt.toNat) :
    Inv target (pool.calloc target bytes host table).2 := by
  rw [Pool.calloc.eq_def]
  split
  · exact h
  rename_i hroom
  split
  · exact h
  rename_i pointer
  split
  · exact h
  rename_i slot grown hslot
  obtain ⟨hinv, ⟨old, hold, hnull⟩, hblocks, hlimit, hbytes, hcount, hring⟩ :=
    vacantSlot_grown h hslot
  obtain ⟨hpointer, hinside, hapart⟩ := hhost pointer rfl (by omega)
  have hatMost := h.atMost
  have hshare : ∀ f, share f old = 0 := fun f => if_neg (not_not.2 hnull)
  have hshare' : ∀ f, share f ⟨pointer, bytes.toInt.toNat⟩ = f ⟨pointer, bytes.toInt.toNat⟩ :=
    fun f => if_pos hpointer
  refine hinv.replace hold ⟨fun _ => ?_, fun _ => hinside, ?_⟩ ?_ ?_ ?_ ?_
  · show 0 < bytes.toInt.toNat
    omega
  · intro i b _ hb _ hbp
    exact hapart b (mem_live.2 ⟨i, hblocks i b hb hbp, hbp⟩) hbp
  · intro i hi
    obtain ⟨hkept, hout⟩ := erase_slots hi
    dsimp only [Pool.forgetRetired] at hi ⊢
    rw [hkept] at hi ⊢
    exact ⟨fun _ => hout, fun j b _ hb hbp => hinv.retired i hi b (mem_live.2 ⟨j, hb, hbp⟩)⟩
  · rw [hshare, hshare']
    rfl
  · show grown.bytes + bytes.toInt.toNat ≤ grown.limit
    omega
  · rw [hshare, hshare']
    rfl

theorem findIdx?_pointer (h : pool.allocations.findIdx? (·.pointer = pointer) = some slot) :
    ∃ old, pool.allocations[slot]? = some old ∧ old.pointer = pointer ∧
      pool.allocations.getD slot Allocation.vacant = old := by
  obtain ⟨hlt, hpointer, -⟩ := List.findIdx?_eq_some_iff_getElem.1 h
  exact ⟨_, List.getElem?_eq_getElem hlt, by simpa using hpointer,
    by rw [List.getD_eq_getElem?_getD, List.getElem?_eq_getElem hlt]; rfl⟩

theorem bytes_le_total (h : Inv target pool) (hold : pool.allocations[slot]? = some old)
    (hpointer : old.pointer ≠ 0) :
    old.bytes ≤ pool.bytes ∧ 1 ≤ pool.count := by
  have hbytes := total_set (·.bytes) Allocation.vacant hold
  have hcount := total_set (fun _ => 1) Allocation.vacant hold
  have hshare : ∀ f, share f Allocation.vacant = 0 := fun f => if_neg (by decide)
  have hshare' : ∀ f, share f old = f old := fun f => if_pos hpointer
  rw [hshare, hshare'] at hbytes hcount
  rw [h.bytes, h.count]
  omega

theorem Inv.base_outside (h : Inv target pool) {j : ℕ} {b : Allocation}
    (hold : pool.allocations[slot]? = some old) (hpointer : old.pointer ≠ 0) (hj : j ≠ slot)
    (hb : pool.allocations[j]? = some b) (hbp : b.pointer ≠ 0) :
    ¬ Within b.pointer b.bytes old.pointer := by
  have hpositive := (h.block old (mem_live.2 ⟨slot, hold, hpointer⟩)).1
  have hapart := h.apart slot j old b (Ne.symm hj) hold hb hpointer hbp
  rw [Apart] at hapart
  rw [Within]
  omega

theorem Inv.retire_outside (h : Inv target pool) (hold : pool.allocations[slot]? = some old)
    (hpointer : old.pointer ≠ 0) (i : Fin 256)
    (hi : (retireAddress pool.retired old.pointer).slots i ≠ 0) {j : ℕ} {b : Allocation}
    (hj : j ≠ slot) (hb : pool.allocations[j]? = some b) (hbp : b.pointer ≠ 0) :
    ¬ Within b.pointer b.bytes ((retireAddress pool.retired old.pointer).slots i) := by
  rcases retireAddress_slots pool.retired old.pointer i with heq | heq
  · rw [heq]
    exact h.base_outside hold hpointer hj hb hbp
  · rw [heq] at hi ⊢
    exact h.retired i hi b (mem_live.2 ⟨j, hb, hbp⟩)

/-- **A reallocation.** -/
theorem Inv.realloc (h : Inv target pool) (pointer : ℕ) (table : Bool)
    (hhost : ∀ replacement ∈ host, 0 < bytes.toInt →
      Fresh target pool pointer replacement bytes.toInt.toNat) :
    Inv target (pool.realloc target pointer bytes host table).2 := by
  rw [Pool.realloc.eq_def]
  split
  · exact h
  rename_i hpositive
  split
  · rename_i hnull
    rw [hnull] at hhost
    exact h.calloc table hhost
  rename_i hnull
  split
  · exact h
  rename_i slot hslot
  obtain ⟨old, hold, rfl, hgetD⟩ := findIdx?_pointer hslot
  rw [hgetD]
  dsimp only
  split
  · exact h
  rename_i hroom
  split
  · exact h
  rename_i replacement
  obtain ⟨hpointer, hinside, hapart⟩ := hhost replacement rfl (by omega)
  obtain ⟨hle, -⟩ := bytes_le_total h hold hnull
  have hatMost := h.atMost
  have hshare : ∀ f, share f old = f old := fun f => if_pos hnull
  have hshare' : ∀ f, share f ⟨replacement, bytes.toInt.toNat⟩ =
      f ⟨replacement, bytes.toInt.toNat⟩ := fun f => if_pos hpointer
  -- whether the block moved or not, only the ring differs
  obtain ⟨ring, hmoved, hring⟩ : ∃ ring : Recent.Ring ℕ 256,
      (if replacement ≠ old.pointer then pool.retire old.pointer else pool) =
        { pool with retired := ring } ∧
      ∀ i, ring.slots i ≠ 0 → ∀ (j : ℕ) (b : Allocation), j ≠ slot →
        pool.allocations[j]? = some b → b.pointer ≠ 0 →
        ¬ Within b.pointer b.bytes (ring.slots i) := by
    split
    · exact ⟨_, rfl, fun i hi j b hj hb hbp =>
        h.retire_outside hold hnull i hi hj hb hbp⟩
    · exact ⟨pool.retired, rfl, fun i hi j b _ hb hbp =>
        h.retired i hi b (mem_live.2 ⟨j, hb, hbp⟩)⟩
  rw [hmoved]
  refine h.replace hold ⟨fun _ => ?_, fun _ => hinside, ?_⟩ ?_ ?_ ?_ ?_
  · show 0 < bytes.toInt.toNat
    omega
  · intro i b hi hb _ hbp
    refine hapart b (mem_live.2 ⟨i, hb, hbp⟩) fun heq => ?_
    -- another block at the address of the one that is replaced
    have hother := h.base_outside hold hnull hi hb hbp
    have hpositive' := (h.block b (mem_live.2 ⟨i, hb, hbp⟩)).1
    rw [Within] at hother
    omega
  · intro i hi
    obtain ⟨hkept, hout⟩ := erase_slots hi
    dsimp only [Pool.forgetRetired] at hi ⊢
    rw [hkept] at hi ⊢
    exact ⟨fun _ => hout, fun j b hj hb hbp => hring i hi j b hj hb hbp⟩
  · rw [hshare, hshare']
    show pool.bytes - old.bytes + bytes.toInt.toNat + old.bytes =
      pool.bytes + bytes.toInt.toNat
    omega
  · show pool.bytes - old.bytes + bytes.toInt.toNat ≤ pool.limit
    omega
  · rw [hshare, hshare']
    rfl

/-- **A release.** -/
theorem Inv.free (h : Inv target pool) (pointer : ℕ) : Inv target (pool.free pointer).2.2 := by
  rw [Pool.free]
  split
  · exact h
  rename_i hnull
  split
  · rename_i slot hslot
    obtain ⟨old, hold, rfl, hgetD⟩ := findIdx?_pointer hslot
    rw [hgetD]
    obtain ⟨hle, hcount⟩ := bytes_le_total h hold hnull
    have hatMost := h.atMost
    have hshare : ∀ f, share f old = f old := fun f => if_pos hnull
    have hshare' : ∀ f, share f Allocation.vacant = 0 := fun f => if_neg (by decide)
    dsimp only [Pool.retire]
    refine h.replace hold ⟨fun hp => absurd rfl hp, fun hp => absurd rfl hp,
      fun _ _ _ _ hp => absurd rfl hp⟩ ?_ ?_ ?_ ?_
    · intro i hi
      exact ⟨fun hp => absurd rfl hp, fun j b hj hb hbp =>
        h.retire_outside hold hnull i hi hj hb hbp⟩
    · rw [hshare, hshare']
      show pool.bytes - old.bytes + old.bytes = pool.bytes + 0
      omega
    · show pool.bytes - old.bytes ≤ pool.limit
      omega
    · rw [hshare, hshare']
      show pool.count - 1 + 1 = pool.count + 0
      omega
  · split
    · exact h
    split
    · exact h
    · exact h

/-! ### Calls that fail -/

/-- **Within the limit only the host refuses** an allocation. -/
theorem calloc_some (h : Inv target pool) (hlimit : pool.limit ≤ target.sizeMax / target.slotBytes)
    (hpositive : 0 < bytes.toInt) (hroom : bytes.toInt.toNat ≤ pool.limit - pool.bytes)
    (pointer : ℕ) (htable : table = true ∨ ∃ a ∈ pool.allocations, a.pointer = 0) :
    (pool.calloc target bytes (some pointer) table).1 = some pointer := by
  have hslot : ∃ slot grown, pool.vacantSlot target table = some (slot, grown) := by
    rw [Pool.vacantSlot]
    split
    · exact ⟨_, _, rfl⟩
    rename_i hnone
    -- every slot has a block, and every block at least one byte
    have hall : ∀ a ∈ pool.allocations, a.pointer ≠ 0 := by
      intro a ha
      simpa using List.findIdx?_eq_none_iff.1 hnone a ha
    have hasked : table = true := by
      rcases htable with htrue | ⟨a, ha, hvacant⟩
      · exact htrue
      · exact absurd hvacant (hall a ha)
    have hlive : live pool.allocations = pool.allocations :=
      List.filter_eq_self.2 fun a ha => by simpa using hall a ha
    have hsum : pool.capacity ≤ pool.bytes := by
      have hle := List.length_le_sum_of_one_le (pool.allocations.map (·.bytes)) (by
        intro n hn
        obtain ⟨a, ha, rfl⟩ := List.mem_map.1 hn
        exact (h.block a (by rwa [hlive])).1)
      rw [List.length_map] at hle
      rw [h.bytes, total, hlive]
      exact hle
    have hatMost := h.atMost
    rw [if_neg (by omega)]
    have hcapacity : (if pool.capacity > pool.limit - pool.capacity then pool.limit
        else pool.capacity * 2) ≤ pool.limit := by
      split <;> omega
    dsimp only
    rw [if_neg (by omega), if_pos hasked]
    exact ⟨_, _, rfl⟩
  obtain ⟨slot, grown, hgrown⟩ := hslot
  rw [Pool.calloc.eq_def, if_neg (by omega)]
  dsimp only
  rw [hgrown]

theorem realloc_some (h : Inv target pool) (hpositive : 0 < bytes.toInt)
    (ha : a ∈ live pool.allocations)
    (hroom : bytes.toInt.toNat ≤ pool.limit - (pool.bytes - a.bytes)) (replacement : ℕ)
    (table : Bool) :
    (pool.realloc target a.pointer bytes (some replacement) table).1 = some replacement := by
  obtain ⟨i, hi, hpointer⟩ := mem_live.1 ha
  rw [Pool.realloc.eq_def, if_neg (by omega), if_neg hpointer]
  split
  · rename_i hnone
    have hne := List.findIdx?_eq_none_iff.1 hnone a (List.mem_of_getElem? hi)
    exact absurd hne (by simp)
  · rename_i slot hslot
    obtain ⟨old, hold, heq, hgetD⟩ := findIdx?_pointer hslot
    have hsame : i = slot := by
      by_contra hne
      have houtside := h.base_outside hi hpointer (Ne.symm hne) hold (by rwa [heq])
      have hblock := (h.block old (mem_live.2 ⟨slot, hold, by rwa [heq]⟩)).1
      rw [Within] at houtside
      omega
    rw [hsame, hold, Option.some.injEq] at hi
    rw [hgetD, hi]
    dsimp only
    rw [if_neg (by omega)]

/-- **A call that fails** leaves the pool as it was. -/
theorem calloc_fails (h : (pool.calloc target bytes host table).1 = none) :
    (pool.calloc target bytes host table).2 = pool := by
  rw [Pool.calloc.eq_def] at h ⊢
  split at h
  · rename_i hlimit
    rw [if_pos hlimit]
  rename_i hlimit
  rw [if_neg hlimit]
  split at h
  · rfl
  split at h
  · rfl
  · cases h

theorem realloc_fails (h : (pool.realloc target pointer bytes host table).1 = none) :
    (pool.realloc target pointer bytes host table).2 = pool := by
  rw [Pool.realloc.eq_def] at h ⊢
  split at h
  · rename_i hsize
    rw [if_pos hsize]
  rename_i hsize
  rw [if_neg hsize]
  split at h
  · rename_i hnull
    rw [if_pos hnull]
    exact calloc_fails h
  rename_i hnull
  rw [if_neg hnull]
  split at h
  · rfl
  rename_i slot hslot
  dsimp only at h ⊢
  split at h
  · rename_i hroom
    rw [if_pos hroom]
  rename_i hroom
  rw [if_neg hroom]
  split at h
  · rfl
  · cases h

theorem free_fails (h : (pool.free pointer).1 ≠ .released) : (pool.free pointer).2.2 = pool := by
  rw [Pool.free] at h ⊢
  split at h
  · exact absurd rfl h
  rename_i hnull
  rw [if_neg hnull]
  split at h
  · exact absurd rfl h
  split
  · rfl
  split
  · rfl
  · rfl

end MreMemory
