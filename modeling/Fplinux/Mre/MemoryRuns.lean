/-
Runs of the guest's memory pool (`mre-memory.c`).

Any calls of the guest, with any answers of the host's allocator that keep its blocks disjoint.

Main results:
- `kept_run`: the ring knows the last addresses that were freed;
- `pool_accounting`: the accounts of the pool after any calls.
-/
import Fplinux.Lib.Run
import Fplinux.Mre.Memory

namespace MreMemory

variable {target : Target}

/-! ### Runs -/

/-- A call, with what the host's allocator answers if it is asked. -/
inductive Call where
  | calloc (bytes : Int32) (host : Option ℕ) (table : Bool)
  | realloc (pointer : ℕ) (bytes : Int32) (host : Option ℕ) (table : Bool)
  | free (pointer : ℕ)
  | owner (address : ℕ)
  | contains (address bytes : ℕ)

variable (target) in
def Call.run (pool : Pool) : Call → Pool
  | .calloc bytes host table => (pool.calloc target bytes host table).2
  | .realloc pointer bytes host table => (pool.realloc target pointer bytes host table).2
  | .free pointer => (pool.free pointer).2.2
  | .owner _ => pool
  | .contains _ _ => pool

variable (target) in
/-- The host's blocks are disjoint from the live ones. -/
def Call.Honest (pool : Pool) : Call → Prop
  | .calloc bytes host _ => ∀ pointer ∈ host, 0 < bytes.toInt →
      Fresh target pool 0 pointer bytes.toInt.toNat
  | .realloc replaced bytes host _ => ∀ pointer ∈ host, 0 < bytes.toInt →
      Fresh target pool replaced pointer bytes.toInt.toNat
  | .free _ => True
  | .owner _ => True
  | .contains _ _ => True

variable (target) in
/-- What a call retires, and then what the block it gives covers. -/
def Call.events (pool : Pool) : Call → List (Recent.Event ℕ)
  | .calloc bytes host table =>
    match (pool.calloc target bytes host table).1 with
    | none => []
    | some pointer => [.erased (Within pointer bytes.toInt.toNat)]
  | .realloc replaced bytes host table =>
    match (pool.realloc target replaced bytes host table).1 with
    | none => []
    | some pointer =>
      (if replaced ≠ 0 ∧ pointer ≠ replaced then [.pushed replaced] else []) ++
        [.erased (Within pointer bytes.toInt.toNat)]
  | .free pointer =>
    if pointer ≠ 0 ∧ (pool.free pointer).1 = .released then [.pushed pointer] else []
  | .owner _ => []
  | .contains _ _ => []

variable {pool : Pool} {pointer : ℕ}

theorem Inv.run (h : Inv target pool) {call : Call} (hhonest : call.Honest target pool) :
    Inv target (call.run target pool) := by
  cases call with
  | calloc bytes host table => exact h.calloc table hhonest
  | realloc pointer bytes host table => exact h.realloc pointer table hhonest
  | free pointer => exact h.free pointer
  | owner address => exact h
  | contains address bytes => exact h

theorem Inv.retireAddress_eq (h : Inv target pool) {slot : ℕ} {old : Allocation}
    (hold : pool.allocations[slot]? = some old) (hpointer : old.pointer ≠ 0) :
    retireAddress pool.retired old.pointer = pool.retired.push old.pointer := by
  refine if_neg ?_
  rintro ⟨i, hi⟩
  have hlive := mem_live.2 ⟨slot, hold, hpointer⟩
  have hblock := (h.block old hlive).1
  refine h.retired i (by rwa [hi]) old hlive ?_
  rw [hi, Within]
  omega

theorem calloc_retired (h : Inv target pool) {bytes : Int32} {host : Option ℕ} {table : Bool}
    (hsome : (pool.calloc target bytes host table).1 = some pointer) :
    (pool.calloc target bytes host table).2.retired =
      pool.retired.erase (Within pointer bytes.toInt.toNat) 0 := by
  rw [Pool.calloc.eq_def] at hsome ⊢
  split at hsome
  · cases hsome
  rename_i hroom
  rw [if_neg hroom]
  split at hsome
  · cases hsome
  split at hsome
  · cases hsome
  rename_i slot grown hslot
  obtain rfl := Option.some.inj hsome
  show grown.retired.erase _ 0 = _
  rw [(vacantSlot_grown h hslot).retired]

theorem realloc_retired (h : Inv target pool) {replaced : ℕ} (hnull : replaced ≠ 0) {bytes : Int32}
    {host : Option ℕ} {table : Bool}
    (hsome : (pool.realloc target replaced bytes host table).1 = some pointer) :
    (pool.realloc target replaced bytes host table).2.retired =
      (if pointer ≠ replaced then pool.retired.push replaced else pool.retired).erase
        (Within pointer bytes.toInt.toNat) 0 := by
  rw [Pool.realloc.eq_def] at hsome ⊢
  split at hsome
  · cases hsome
  rename_i hpositive
  rw [if_neg hpositive, if_neg hnull]
  split at hsome
  · cases hsome
  rename_i slot hslot
  obtain ⟨old, hold, rfl, -⟩ := findIdx?_pointer hslot
  dsimp only at hsome ⊢
  split at hsome
  · cases hsome
  rename_i hroom
  rw [if_neg hroom]
  split at hsome
  · cases hsome
  rename_i replacement
  obtain rfl : replacement = pointer := Option.some.inj hsome
  rw [← h.retireAddress_eq hold hnull]
  dsimp only [Pool.forgetRetired]
  by_cases hmoved : replacement ≠ old.pointer
  · rw [if_pos hmoved, if_pos hmoved, Pool.retire]
  · rw [if_neg hmoved, if_neg hmoved]

theorem free_retired (h : Inv target pool) (hnull : pointer ≠ 0)
    (hreleased : (pool.free pointer).1 = .released) :
    (pool.free pointer).2.2.retired = pool.retired.push pointer := by
  rw [Pool.free] at hreleased ⊢
  rw [if_neg hnull] at hreleased ⊢
  split at hreleased
  · rename_i slot hslot
    obtain ⟨old, hold, rfl, -⟩ := findIdx?_pointer hslot
    dsimp only [Pool.retire]
    exact h.retireAddress_eq hold hnull
  · split at hreleased
    · cases hreleased
    split at hreleased
    · cases hreleased
    · cases hreleased

/-- **The ring keeps what was retired**, call by call. -/
theorem kept_run (h : Inv target pool) {events : List (Recent.Event ℕ)}
    (hkept : Recent.Kept pool.retired events) (call : Call) :
    Recent.Kept (call.run target pool).retired (events ++ call.events target pool) := by
  cases call with
  | calloc bytes host table =>
    rw [Call.run, Call.events]
    split
    · rename_i hnone
      rw [calloc_fails hnone, List.append_nil]
      exact hkept
    · rename_i pointer hsome
      rw [calloc_retired h hsome]
      exact hkept.erase _ 0
  | realloc replaced bytes host table =>
    rw [Call.run, Call.events]
    split
    · rename_i hnone
      rw [realloc_fails hnone, List.append_nil]
      exact hkept
    · rename_i pointer hsome
      by_cases hnull : replaced = 0
      · -- a reallocation of nothing is an allocation
        have hcalloc : pool.realloc target replaced bytes host table =
            pool.calloc target bytes host table := by
          rw [Pool.realloc.eq_def] at hsome ⊢
          split at hsome
          · cases hsome
          · rename_i hpositive
            rw [if_neg hpositive, if_pos hnull]
        rw [hcalloc] at hsome ⊢
        rw [if_neg (fun hboth => hboth.1 hnull), List.nil_append, calloc_retired h hsome]
        exact hkept.erase _ 0
      · rw [realloc_retired h hnull hsome, ← List.append_assoc]
        refine Recent.Kept.erase ?_ _ 0
        by_cases hmoved : pointer ≠ replaced
        · rw [if_pos hmoved, if_pos ⟨hnull, hmoved⟩]
          exact hkept.push replaced
        · rw [if_neg hmoved, if_neg (fun hboth => hmoved hboth.2), List.append_nil]
          exact hkept
  | free pointer =>
    rw [Call.run, Call.events]
    split
    · rename_i hreleased
      rw [free_retired h hreleased.1 hreleased.2]
      exact hkept.push pointer
    · rename_i hkeeps
      rw [List.append_nil]
      by_cases hnull : pointer = 0
      · rw [Pool.free, if_pos hnull]
        exact hkept
      · rw [free_fails fun hreleased => hkeeps ⟨hnull, hreleased⟩]
        exact hkept
  | owner _ | contains _ _ =>
    rw [Call.events, List.append_nil]
    exact hkept

theorem calloc_limit (h : Inv target pool) (bytes : Int32) (host : Option ℕ) (table : Bool) :
    (pool.calloc target bytes host table).2.limit = pool.limit := by
  rw [Pool.calloc.eq_def]
  split
  · rfl
  split
  · rfl
  split
  · rfl
  · rename_i slot grown hslot
    exact (vacantSlot_grown h hslot).limit

theorem run_limit (h : Inv target pool) (call : Call) :
    (call.run target pool).limit = pool.limit := by
  cases call with
  | calloc bytes host table => exact calloc_limit h bytes host table
  | realloc replaced bytes host table =>
    rw [Call.run, Pool.realloc.eq_def]
    split
    · rfl
    split
    · exact calloc_limit h bytes host table
    split
    · rfl
    dsimp only
    split
    · rfl
    split
    · rfl
    · dsimp only [Pool.forgetRetired, Pool.retire]
      split
      · rfl
      · rfl
  | free pointer =>
    rw [Call.run, Pool.free]
    split
    · rfl
    split
    · rfl
    split
    · rfl
    split
    · rfl
    · rfl
  | owner address => rfl
  | contains address bytes => rfl

variable (target) in
/-- The pool of a guest, from its start on. -/
def system (limit : ℕ) : Machine Pool Call where
  start pool := pool = Pool.init limit
  step pool call pool' := call.Honest target pool ∧ pool' = call.run target pool

variable (target) in
/-- What a run retired and covered, in its order. -/
def history (run : List (Machine.Step Pool Call)) : List (Recent.Event ℕ) :=
  run.flatMap fun step => step.op.events target step.before

theorem events_ne_zero {call : Call} {address : ℕ}
    (h : Recent.Event.pushed address ∈ call.events target pool) : address ≠ 0 := by
  cases call with
  | calloc bytes host table =>
    rw [Call.events] at h
    split at h
    · cases h
    · cases List.mem_singleton.1 h
  | realloc replaced bytes host table =>
    rw [Call.events] at h
    split at h
    · cases h
    · rcases List.mem_append.1 h with hpushed | herased
      · split at hpushed
        · rename_i hmoved
          cases List.mem_singleton.1 hpushed
          exact hmoved.1
        · cases hpushed
      · cases List.mem_singleton.1 herased
  | free pointer =>
    rw [Call.events] at h
    split at h
    · rename_i hreleased
      cases List.mem_singleton.1 h
      exact hreleased.1
    · cases h
  | owner address => cases h
  | contains address bytes => cases h

variable (target) in
/-- What every run keeps. -/
structure Accounted (limit : ℕ) (run : List (Machine.Step Pool Call)) (pool : Pool) : Prop where
  inv : Inv target pool
  limit : pool.limit = limit
  kept : Recent.Kept pool.retired (history target run)
  notNull : ∀ address, Recent.Event.pushed address ∈ history target run → address ≠ 0

theorem accounted_run {limit : ℕ} {run : List (Machine.Step Pool Call)}
    (h : (system target limit).Trace run pool) : Accounted target limit run pool := by
  induction h with
  | start hstart =>
    obtain rfl := hstart
    exact ⟨Inv.init limit, rfl, Recent.kept_nil _, fun _ hmem => nomatch hmem⟩
  | @step run pool pool' call htrace hstep ih =>
    obtain ⟨hhonest, rfl⟩ := hstep
    have hhistory : history target (run ++ [⟨pool, call, call.run target pool⟩]) =
        history target run ++ call.events target pool := by
      rw [history, history, List.flatMap_append, List.flatMap_singleton]
    refine ⟨ih.inv.run hhonest, (run_limit ih.inv call).trans ih.limit, ?_, ?_⟩
    · rw [hhistory]
      exact kept_run ih.inv ih.kept call
    · intro address hmem
      rw [hhistory, List.mem_append] at hmem
      rcases hmem with hbefore | hnow
      · exact ih.notNull address hbefore
      · exact events_ne_zero hnow

theorem free_retired_again (h : Inv target pool) {address : ℕ} (hnull : address ≠ 0) {i : Fin 256}
    (hi : pool.retired.slots i = address) :
    pool.free address = (.retired, 0, pool) := by
  have hout : ∀ a ∈ live pool.allocations, ¬ Within a.pointer a.bytes address := by
    intro a ha
    rw [← hi]
    exact h.retired i (by rwa [hi]) a ha
  rw [Pool.free, if_neg hnull]
  split
  · rename_i slot hslot
    obtain ⟨old, hold, rfl, -⟩ := findIdx?_pointer hslot
    have hlive := mem_live.2 ⟨slot, hold, hnull⟩
    have hblock := (h.block old hlive).1
    refine absurd ?_ (hout old hlive)
    rw [Within]
    omega
  · have howner : pool.owner address = none := by
      rw [Pool.owner, List.find?_eq_none]
      intro a ha hinside
      rw [decide_eq_true_eq] at hinside
      exact hout a (List.mem_filter.2 ⟨ha, by simpa using hinside.1⟩) hinside.2
    rw [howner, if_neg (by decide), if_pos ⟨i, hi⟩]

variable (target) in
/-- The accounts of a pool with a limit, after a run. -/
structure Accounts (limit : ℕ) (run : List (Machine.Step Pool Call)) (pool : Pool) : Prop where
  bytes : pool.bytes = ((live pool.allocations).map (·.bytes)).sum
  atMost : pool.bytes ≤ limit
  count : pool.count = (live pool.allocations).length
  /-- Within the limit an allocation fails only where the host refuses the block, or the larger
  table that it is asked for. -/
  allocates : limit ≤ target.sizeMax / target.slotBytes → ∀ (bytes : Int32) host table,
    0 < bytes.toInt → bytes.toInt.toNat ≤ limit - pool.bytes →
    (pool.calloc target bytes host table).1 = none →
    host = none ∨ (table = false ∧ ∀ a ∈ pool.allocations, a.pointer ≠ 0)
  reallocates : ∀ (bytes : Int32) host table, 0 < bytes.toInt → ∀ a ∈ live pool.allocations,
    bytes.toInt.toNat ≤ limit - (pool.bytes - a.bytes) →
    (pool.realloc target a.pointer bytes host table).1 = none → host = none
  outside : ∀ i, pool.retired.slots i ≠ 0 → ∀ a ∈ live pool.allocations,
    ¬ Within a.pointer a.bytes (pool.retired.slots i)
  /-- An address that was retired within the last 256 retirements, and that no block covered
  since. -/
  known : ∀ before address after, history target run = before ++ .pushed address :: after →
    Recent.pushes after < 256 → Recent.Spares address after →
    (pool.free address).1 = .retired
  callocFails : ∀ bytes host table, (pool.calloc target bytes host table).1 = none →
    (pool.calloc target bytes host table).2 = pool
  reallocFails : ∀ pointer bytes host table,
    (pool.realloc target pointer bytes host table).1 = none →
    (pool.realloc target pointer bytes host table).2 = pool
  freeFails : ∀ pointer, (pool.free pointer).1 ≠ .released → (pool.free pointer).2.2 = pool

/-- **The accounts of the pool** after any calls, with any answers of a host that gives disjoint
blocks. -/
theorem pool_accounting {limit : ℕ} {run : List (Machine.Step Pool Call)} {pool : Pool}
    (h : (system target limit).Trace run pool) : Accounts target limit run pool := by
  obtain ⟨hinv, rfl, hkept, hnull⟩ := accounted_run h
  refine ⟨hinv.bytes, hinv.atMost, hinv.count.trans (total_one _), ?_, ?_, hinv.retired, ?_,
    fun _ _ _ => calloc_fails, fun _ _ _ _ => realloc_fails, fun _ => free_fails⟩
  · intro hlimit bytes host table hpositive hroom hfails
    cases host with
    | none => exact Or.inl rfl
    | some pointer =>
      refine Or.inr ?_
      by_contra hgiven
      have htable : table = true ∨ ∃ a ∈ pool.allocations, a.pointer = 0 := by
        rw [not_and_or, Bool.not_eq_false] at hgiven
        rcases hgiven with htrue | hvacant
        · exact Or.inl htrue
        · push Not at hvacant
          exact Or.inr hvacant
      rw [calloc_some hinv hlimit hpositive hroom pointer htable] at hfails
      cases hfails
  · intro bytes host table hpositive a ha hroom hfails
    cases host with
    | none => rfl
    | some replacement =>
      rw [realloc_some hinv hpositive ha hroom replacement table] at hfails
      cases hfails
  · intro before address after hhistory hcount hspares
    have haddress : address ≠ 0 := by
      refine hnull address ?_
      rw [hhistory]
      simp
    rw [free_retired_again hinv haddress (hkept before address after hhistory hcount hspares)]

/-- One block is allocated and freed; its address stays known. -/
theorem pool_accounting_freed :
    (((Call.free 4096).run ⟨2 ^ 32 - 1, 8⟩ ((Call.calloc 16 (some 4096) true).run ⟨2 ^ 32 - 1, 8⟩
      (Pool.init 1024))).free 4096).1 = .retired := by
  have hstart : (system ⟨2 ^ 32 - 1, 8⟩ 1024).Trace [] (Pool.init 1024) := .start rfl
  have hhonest : (Call.calloc 16 (some 4096) true).Honest ⟨2 ^ 32 - 1, 8⟩ (Pool.init 1024) := by
    intro pointer hpointer _
    cases hpointer
    have hempty : live (Pool.init 1024).allocations = [] := by decide
    refine ⟨by decide, by decide, fun b hb => ?_⟩
    rw [hempty] at hb
    cases hb
  have hallocated := hstart.step (a := Call.calloc 16 (some 4096) true) ⟨hhonest, rfl⟩
  have hfreed := hallocated.step (a := Call.free 4096) ⟨trivial, rfl⟩
  exact (pool_accounting hfreed).known [.erased (Within 4096 16)] 4096 [] rfl (by decide)
    fun gone hgone => nomatch hgone

end MreMemory
