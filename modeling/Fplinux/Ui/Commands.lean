/-
The keys of a screen's commands (`fplinux-ui-screen-model.c`).

A screen has a list of commands, each with a role and a priority.  One goes to
the right soft key, one to OK, and the rest to the left soft key: a single one
directly, several through the options menu.

An index is a natural number, and `none` stands for `FPLINUX_UI_COMMAND_NONE`.
The menu is the caller's array, which holds at least as many entries as there
are commands; only its first `menuCount` entries mean anything.

Main results:
- `firstWithRole_eq_some_iff`: the search finds the least command of a role;
- `Filled.step`: the menu loop keeps a sorted list of the commands that are left;
- `Partition.collapse`: the collapse moves one command and loses none.
-/
import Mathlib.Data.List.Range
import Fplinux.Lib.Insertion

namespace Commands

/-- `enum fplinux_ui_command_role`. -/
inductive Role
  | back | ok | help | other
  deriving DecidableEq, Repr

/-- `struct fplinux_ui_command_entry`. -/
structure Entry where
  role : Role
  priority : ℤ
  deriving DecidableEq, Repr

/-- `struct fplinux_ui_command_keys`. -/
structure Keys where
  right : Option ℕ
  ok : Option ℕ
  left : Option ℕ
  /-- The left soft key opens the options menu with `menuCount` commands. -/
  options : Bool
  menuCount : ℕ
  deriving DecidableEq, Repr

/-! ### The assignment -/

/-- The role at an index; every index of the source is in range. -/
def roleAt (commands : List Entry) (index : ℕ) : Option Role := commands[index]?.map Entry.role

/-- The priority at an index. -/
def priorityAt (commands : List Entry) (index : ℕ) : ℤ :=
  (commands[index]?.map Entry.priority).getD 0

/-- Command `a` comes before command `b`. -/
def Before (commands : List Entry) (a b : ℕ) : Prop :=
  priorityAt commands a < priorityAt commands b ∨
    (priorityAt commands a = priorityAt commands b ∧ a < b)

instance (commands : List Entry) : DecidableRel (Before commands) :=
  fun _ _ => inferInstanceAs (Decidable (_ ∨ _))

/-- The first command with a role, by priority and then by index. -/
def firstWithRole (commands : List Entry) (role : Role) : Option ℕ :=
  (List.range commands.length).foldl (fun found i =>
    if roleAt commands i = some role ∧ ∀ best ∈ found, Before commands i best then some i
    else found) none

/-- The menu as the loop fills it: the array, how many entries it has, and
whether one of them is a HELP command. -/
structure Menu where
  entries : List ℕ
  remaining : ℕ
  help : Bool

/-- One round of the loop over the commands. -/
def addCommand (commands : List Entry) (rightTaken : Bool) (right ok : Option ℕ) (menu : Menu)
    (i : ℕ) : Menu :=
  if (rightTaken = false ∧ some i = right) ∨ some i = ok then menu
  else
    { entries := Insertion.place (Before commands) i menu.remaining menu.entries
      remaining := menu.remaining + 1
      help := menu.help || roleAt commands i = some .help }

def keysAssign (commands : List Entry) (elementActs rightTaken : Bool) (entries : List ℕ) :
    Keys × List ℕ :=
  let right := firstWithRole commands .back
  let ok := if elementActs then none else firstWithRole commands .ok
  let keys : Keys :=
    { right := if rightTaken then none else right
      ok := ok
      left := none
      options := false
      menuCount := 0 }
  let menu := (List.range commands.length).foldl (addCommand commands rightTaken right ok)
    { entries := entries, remaining := 0, help := false }
  -- Clear displaces Back into the options, never out of the command set.
  if menu.remaining = 1 ∧ menu.help = false ∧ ¬ (rightTaken = true ∧ right ≠ none) then
    ({ keys with left := menu.entries[0]? }, menu.entries)
  else if menu.remaining ≠ 0 then
    ({ keys with options := true, menuCount := menu.remaining }, menu.entries)
  else (keys, menu.entries)

/-- A left legend that does not fit moves its command to the front of the menu. -/
def keysCollapse (keys : Keys) (entries : List ℕ) : Keys × List ℕ :=
  match keys.left with
  | none => (keys, entries)
  | some left =>
    ({ keys with left := none, options := true, menuCount := keys.menuCount + 1 },
      left :: (entries.take keys.menuCount ++ entries.drop (keys.menuCount + 1)))

/-! ### The order of the commands -/

variable {commands : List Entry} {a b : ℕ} {role : Role}

theorem Before.trans {c : ℕ} (hab : Before commands a b) (hbc : Before commands b c) :
    Before commands a c := by
  rw [Before] at *
  omega

theorem before_of_not (hne : a ≠ b) (h : ¬ Before commands a b) : Before commands b a := by
  rw [Before] at *
  omega

/-- The first of the commands with a role, by priority and then by index. -/
structure IsFirst (commands : List Entry) (role : Role) (index : ℕ) : Prop where
  here : roleAt commands index = some role
  first : ∀ other, roleAt commands other = some role → other ≠ index →
    Before commands index other

theorem lt_length_of_roleAt {index : ℕ} (h : roleAt commands index = some role) :
    index < commands.length := by
  by_contra hle
  rw [roleAt, List.getElem?_eq_none (by omega)] at h
  simp at h

theorem IsFirst.unique (ha : IsFirst commands role a) (hb : IsFirst commands role b) : a = b := by
  by_contra hne
  have hab := ha.first b hb.here (Ne.symm hne)
  have hba := hb.first a ha.here hne
  rw [Before] at hab hba
  omega

/-- What the search has found among the first `n` commands. -/
def FoundIn (commands : List Entry) (role : Role) (n : ℕ) : Option ℕ → Prop
  | none => ∀ other < n, roleAt commands other ≠ some role
  | some index => index < n ∧ roleAt commands index = some role ∧
      ∀ other < n, roleAt commands other = some role → other ≠ index → Before commands index other

theorem foundIn_firstWithRole (commands : List Entry) (role : Role) :
    FoundIn commands role commands.length (firstWithRole commands role) := by
  rw [firstWithRole]
  generalize commands.length = n
  induction n with
  | zero =>
    intro other hother
    omega
  | succ n ih =>
    rw [List.range_succ, List.foldl_append, List.foldl_cons, List.foldl_nil]
    generalize (List.range n).foldl _ none = found at ih
    split
    · rename_i h
      obtain ⟨hrole, hbest⟩ := h
      refine ⟨by omega, hrole, fun other hother hrole' hne => ?_⟩
      cases found with
      | none => exact absurd hrole' (ih other (by omega))
      | some best =>
        -- The new command is before the best so far, and that one before the others.
        have hlt := hbest best rfl
        by_cases heq : other = best
        · rwa [heq]
        · exact hlt.trans (ih.2.2 other (by omega) hrole' heq)
    · rename_i h
      cases found with
      | none =>
        intro other hother hrole
        rcases Nat.lt_succ_iff_lt_or_eq.mp hother with hlt | rfl
        · exact ih other hlt hrole
        · exact h ⟨hrole, by simp⟩
      | some best =>
        refine ⟨by have := ih.1; omega, ih.2.1, fun other hother hrole hne => ?_⟩
        rcases Nat.lt_succ_iff_lt_or_eq.mp hother with hlt | rfl
        · exact ih.2.2 other hlt hrole hne
        · refine before_of_not hne fun hbefore => h ⟨hrole, fun best' hbest' => ?_⟩
          rwa [← Option.some.inj hbest']

/-- **The search finds the least command of a role.** -/
theorem firstWithRole_eq_some_iff {index : ℕ} :
    firstWithRole commands role = some index ↔ IsFirst commands role index := by
  have hfound := foundIn_firstWithRole commands role
  constructor
  · intro h
    rw [h] at hfound
    exact ⟨hfound.2.1, fun other hother => hfound.2.2 other (lt_length_of_roleAt hother) hother⟩
  · intro hfirst
    cases hsearch : firstWithRole commands role with
    | none =>
      rw [hsearch] at hfound
      exact absurd hfirst.here (hfound index (lt_length_of_roleAt hfirst.here))
    | some found =>
      rw [hsearch] at hfound
      have hfirst' : IsFirst commands role found :=
        ⟨hfound.2.1, fun other hother => hfound.2.2 other (lt_length_of_roleAt hother) hother⟩
      rw [hfirst'.unique hfirst]

theorem firstWithRole_eq_none_iff {role : Role} :
    firstWithRole commands role = none ↔ ∀ index, roleAt commands index ≠ some role := by
  have hfound := foundIn_firstWithRole commands role
  constructor
  · intro h index hrole
    rw [h] at hfound
    exact hfound index (lt_length_of_roleAt hrole) hrole
  · intro h
    cases hsearch : firstWithRole commands role with
    | none => rfl
    | some found => exact absurd (firstWithRole_eq_some_iff.mp hsearch).here (h found)

/-! ### The menu -/

section Filling

variable {rightTaken : Bool} {right ok : Option ℕ} {menu : Menu} {n size : ℕ}

/-- The commands that the loop puts into the menu. -/
def kept (rightTaken : Bool) (right ok : Option ℕ) (i : ℕ) : Bool :=
  ¬ ((rightTaken = false ∧ some i = right) ∨ some i = ok)

theorem kept_iff {i : ℕ} : kept rightTaken right ok i = true ↔
    ¬ ((rightTaken = false ∧ some i = right) ∨ some i = ok) := decide_eq_true_iff

/-- The menu after the first `n` commands, in an array of `size` entries. -/
structure Filled (commands : List Entry) (rightTaken : Bool) (right ok : Option ℕ)
    (size n : ℕ) (menu : Menu) : Prop where
  length : menu.entries.length = size
  count : menu.remaining = ((List.range n).filter (kept rightTaken right ok)).length
  perm : (menu.entries.take menu.remaining).Perm
    ((List.range n).filter (kept rightTaken right ok))
  sorted : (menu.entries.take menu.remaining).Pairwise (Before commands)
  help : menu.help = true ↔
    ∃ i < n, kept rightTaken right ok i = true ∧ roleAt commands i = some .help

theorem Filled.step (h : Filled commands rightTaken right ok size n menu) (hn : n < size) :
    Filled commands rightTaken right ok size (n + 1)
      (addCommand commands rightTaken right ok menu n) := by
  have hremaining : menu.remaining < menu.entries.length := by
    have hle := List.length_filter_le (kept rightTaken right ok) (List.range n)
    rw [List.length_range] at hle
    rw [h.count, h.length]
    omega
  rw [addCommand]
  split
  · -- The command has a key of its own.
    rename_i hkey
    have hkept : kept rightTaken right ok n = false := by
      rw [← Bool.not_eq_true, kept_iff, not_not]
      exact hkey
    have hfilter : (List.range (n + 1)).filter (kept rightTaken right ok) =
        (List.range n).filter (kept rightTaken right ok) := by
      rw [List.range_succ, List.filter_append, List.filter_cons_of_neg (by simp [hkept])]
      simp
    refine ⟨h.length, by rw [hfilter, h.count], by rw [hfilter]; exact h.perm, h.sorted, ?_⟩
    rw [h.help]
    constructor
    · rintro ⟨i, hi, hrest⟩
      exact ⟨i, by omega, hrest⟩
    · rintro ⟨i, hi, hkept', hrole⟩
      have hne : i ≠ n := by
        rintro rfl
        simp [hkept] at hkept'
      exact ⟨i, by omega, hkept', hrole⟩
  · rename_i hkey
    have hkept : kept rightTaken right ok n = true := kept_iff.mpr hkey
    have hfilter : (List.range (n + 1)).filter (kept rightTaken right ok) =
        (List.range n).filter (kept rightTaken right ok) ++ [n] := by
      rw [List.range_succ, List.filter_append, List.filter_cons_of_pos hkept, List.filter_nil]
    have hnew : n ∉ menu.entries.take menu.remaining := by
      rw [h.perm.mem_iff]
      simp
    refine ⟨?_, ?_, ?_, ?_, ?_⟩
    · rw [Insertion.length_place, h.length]
    · rw [hfilter, List.length_append, h.count]
      rfl
    · rw [hfilter]
      have hplace := Insertion.take_place_perm (Before commands) n hremaining
      exact (hplace.trans (h.perm.cons n)).trans (List.perm_append_singleton _ _).symm
    · exact Insertion.pairwise_take_place (Before commands) (fun hab hbc => hab.trans hbc)
        (fun hne hnot => before_of_not hne hnot) hremaining h.sorted hnew
    · rw [Bool.or_eq_true, h.help, decide_eq_true_iff]
      constructor
      · rintro (⟨i, hi, hrest⟩ | hrole)
        · exact ⟨i, by omega, hrest⟩
        · exact ⟨n, by omega, hkept, hrole⟩
      · rintro ⟨i, hi, hkept', hrole⟩
        by_cases heq : i = n
        · exact .inr (heq ▸ hrole)
        · exact .inl ⟨i, by omega, hkept', hrole⟩

theorem filled_commands (rightTaken : Bool) (right ok : Option ℕ) {entries : List ℕ}
    (h : commands.length ≤ entries.length) :
    Filled commands rightTaken right ok entries.length commands.length
      ((List.range commands.length).foldl (addCommand commands rightTaken right ok)
        { entries := entries, remaining := 0, help := false }) := by
  generalize commands.length = n at h
  induction n with
  | zero => exact ⟨rfl, rfl, .refl _, .nil, by simp⟩
  | succ n ih =>
    rw [List.range_succ, List.foldl_append]
    exact (ih (by omega)).step (by omega)

end Filling

/-! ### The partition -/

/-- Every command is on exactly one key or in the menu once. -/
def Partition (commands : List Entry) (keys : Keys) (entries : List ℕ) : Prop :=
  (keys.right.toList ++ keys.ok.toList ++ keys.left.toList ++
    entries.take keys.menuCount).Perm (List.range commands.length)

theorem perm_kept {rightTaken : Bool} {right ok : Option ℕ}
    (hright : ∀ i ∈ right, roleAt commands i = some .back)
    (hok : ∀ i ∈ ok, roleAt commands i = some .ok) :
    ((if rightTaken then none else right).toList ++ ok.toList ++
      (List.range commands.length).filter (kept rightTaken right ok)).Perm
        (List.range commands.length) := by
  have hkey : ∀ i, (if rightTaken then none else right) = some i ↔
      rightTaken = false ∧ some i = right := by
    intro i
    cases rightTaken <;> simp [eq_comm]
  refine (List.perm_ext_iff_of_nodup ?_ List.nodup_range).mpr fun i => ?_
  · refine List.nodup_append.mpr ⟨List.nodup_append.mpr ⟨?_, ?_, ?_⟩, ?_, ?_⟩
    · cases (if rightTaken then none else right) <;> simp
    · cases ok <;> simp
    · -- No command has two roles.
      rintro i hi j hj rfl
      have hback := hright i ((hkey i).mp (Option.mem_toList.mp hi)).2.symm
      have hrole := hok i (Option.mem_toList.mp hj)
      rw [hback] at hrole
      simp at hrole
    · exact List.nodup_range.filter _
    · rintro i hi j hj rfl
      have hkept := kept_iff.mp (List.mem_filter.mp hj).2
      rcases List.mem_append.mp hi with hi | hi
      · exact hkept (.inl ((hkey i).mp (Option.mem_toList.mp hi)))
      · exact hkept (.inr (Option.mem_toList.mp hi).symm)
  · rw [List.mem_append, List.mem_append, Option.mem_toList, Option.mem_toList, hkey,
      List.mem_filter, List.mem_range, kept_iff]
    constructor
    · rintro ((⟨-, hi⟩ | hi) | ⟨hi, -⟩)
      · exact lt_length_of_roleAt (hright i hi.symm)
      · exact lt_length_of_roleAt (hok i hi)
      · exact hi
    · intro hi
      by_cases h : (rightTaken = false ∧ some i = right) ∨ some i = ok
      · exact .inl (h.imp_right Eq.symm)
      · exact .inr ⟨hi, h⟩

/-- **The collapse keeps the partition**: the command of the left key becomes the
first of the menu. -/
theorem Partition.collapse {keys : Keys} {entries : List ℕ} (h : Partition commands keys entries)
    (hroom : keys.left.isSome = true → keys.menuCount < entries.length) :
    Partition commands (keysCollapse keys entries).1 (keysCollapse keys entries).2 := by
  rw [keysCollapse]
  split
  · exact h
  · rename_i left hleft
    have hlt := hroom (by rw [hleft]; rfl)
    have htake : (left :: (entries.take keys.menuCount ++ entries.drop (keys.menuCount + 1))).take
        (keys.menuCount + 1) = left :: entries.take keys.menuCount := by
      rw [List.take_succ_cons, List.take_left' (by rw [List.length_take]; omega)]
    rw [Partition] at h ⊢
    simp only [htake, Option.toList_none, List.append_nil]
    rw [hleft] at h
    simpa using h

/-- What an assignment gives. -/
structure Assigned (commands : List Entry) (elementActs rightTaken : Bool) (keys : Keys)
    (entries : List ℕ) : Prop where
  partition : Partition commands keys entries
  sorted : (entries.take keys.menuCount).Pairwise (Before commands)
  right : ∀ i, keys.right = some i ↔ rightTaken = false ∧ IsFirst commands .back i
  ok : ∀ i, keys.ok = some i ↔ elementActs = false ∧ IsFirst commands .ok i
  left : ∀ i, keys.left = some i → keys.menuCount = 0 ∧
    roleAt commands i ≠ some .help ∧ (rightTaken = true → roleAt commands i ≠ some .back)
  options : keys.options = true ↔ keys.menuCount ≠ 0
  room : ∀ i, keys.left = some i → 0 < entries.length

theorem assigned_keysAssign (elementActs rightTaken : Bool) {entries : List ℕ}
    (h : commands.length ≤ entries.length) :
    Assigned commands elementActs rightTaken (keysAssign commands elementActs rightTaken entries).1
      (keysAssign commands elementActs rightTaken entries).2 := by
  rw [keysAssign]
  have hback : ∀ i, firstWithRole commands .back = some i ↔ IsFirst commands .back i :=
    fun i => firstWithRole_eq_some_iff
  have hnone := @firstWithRole_eq_none_iff commands .back
  have hok : ∀ i, (if elementActs then none else firstWithRole commands .ok) = some i ↔
      elementActs = false ∧ IsFirst commands .ok i := by
    intro i
    rw [← firstWithRole_eq_some_iff]
    cases elementActs <;> simp
  generalize firstWithRole commands .back = right at hback hnone
  generalize (if elementActs then none else firstWithRole commands .ok) = ok at hok
  have hright : ∀ i, (if rightTaken then none else right) = some i ↔
      rightTaken = false ∧ IsFirst commands .back i := by
    intro i
    rw [← hback]
    cases rightTaken <;> simp
  have hperm : ((if rightTaken then none else right).toList ++ ok.toList ++
      (List.range commands.length).filter (kept rightTaken right ok)).Perm
        (List.range commands.length) :=
    perm_kept (fun i hi => ((hback i).mp hi).here) (fun i hi => ((hok i).mp hi).2.here)
  have hfilled := filled_commands rightTaken right ok h
  simp only
  generalize (List.range commands.length).foldl _ _ = menu at hfilled
  obtain ⟨hlength, hcount, hmenu, hsorted, hhelp⟩ := hfilled
  split
  · -- A single command is left.
    rename_i hsingle
    obtain ⟨hone, hnohelp, hnoback⟩ := hsingle
    obtain ⟨i, hi⟩ := List.length_eq_one_iff.mp (hcount.symm.trans hone)
    have htake : menu.entries.take 1 = [i] := by
      rw [hone, hi] at hmenu
      exact List.perm_singleton.mp hmenu
    have hentry : menu.entries[0]? = some i := by
      rw [← List.getElem?_take_of_lt (Nat.zero_lt_one), htake]
      rfl
    obtain ⟨hrange, hkept⟩ := List.mem_filter.mp (show i ∈ _ by rw [hi]; exact List.mem_singleton_self i)
    refine ⟨?_, List.Pairwise.nil, hright, hok, ?_, ?_, ?_⟩
    · rw [hi] at hperm
      rw [Partition, hentry]
      simpa using hperm
    · intro j hj
      obtain rfl : i = j := Option.some.inj (hentry.symm.trans hj)
      refine ⟨rfl, fun hrole => ?_, fun htaken => ?_⟩
      · have hsome := hhelp.mpr ⟨i, List.mem_range.mp hrange, hkept, hrole⟩
        rw [hnohelp] at hsome
        exact Bool.false_ne_true hsome
      · -- With Clear on the right key, no BACK command is there to be displaced.
        exact hnone.mp (by_contra fun hne => hnoback ⟨htaken, hne⟩) i
    · simp
    · intro j hj
      exact (List.getElem?_eq_some_iff.mp hj).1
  · split
    · refine ⟨?_, hsorted, hright, hok, ?_, ?_, ?_⟩
      · rw [Partition]
        simp only [Option.toList_none, List.append_nil]
        exact (hmenu.append_left _).trans hperm
      · intro i hi
        simp at hi
      · rename_i hne
        exact ⟨fun _ => hne, fun _ => rfl⟩
      · intro i hi
        simp at hi
    · rename_i hzero
      rw [not_not] at hzero
      refine ⟨?_, ?_, hright, hok, ?_, ?_, ?_⟩
      · have hempty : (List.range commands.length).filter (kept rightTaken right ok) = [] := by
          rw [← List.length_eq_zero_iff, ← hcount, hzero]
        rw [hempty] at hperm
        rw [Partition]
        simpa using hperm
      · exact List.Pairwise.nil
      · intro i hi
        simp at hi
      · simp
      · intro i hi
        simp at hi

/-- **Command assignment is a partition.**  Every command is on exactly one key or
in the menu once, whatever the commands, and stays so when the left key's legend
does not fit.  The menu is ordered.  The right key has the first BACK command
unless Clear uses the key, OK the first OK command unless the element acts.  The
left key has a command only where this is the one that is left, it is no HELP
command, and it is no BACK command that Clear displaced. -/
theorem keysAssign_partition (commands : List Entry) (elementActs rightTaken : Bool)
    (entries : List ℕ) (h : commands.length ≤ entries.length) :
    let assigned := keysAssign commands elementActs rightTaken entries
    let collapsed := keysCollapse assigned.1 assigned.2
    Partition commands assigned.1 assigned.2 ∧
      (assigned.2.take assigned.1.menuCount).Pairwise (Before commands) ∧
      (∀ i, assigned.1.right = some i ↔ rightTaken = false ∧ IsFirst commands .back i) ∧
      (∀ i, assigned.1.ok = some i ↔ elementActs = false ∧ IsFirst commands .ok i) ∧
      (∀ i, assigned.1.left = some i → assigned.1.menuCount = 0 ∧
        roleAt commands i ≠ some .help ∧ (rightTaken = true → roleAt commands i ≠ some .back)) ∧
      (assigned.1.options = true ↔ assigned.1.menuCount ≠ 0) ∧
      Partition commands collapsed.1 collapsed.2 ∧
      (collapsed.2.take collapsed.1.menuCount).Pairwise (Before commands) := by
  intro assigned collapsed
  obtain ⟨hpartition, hsorted, hright, hok, hleft, hoptions, hroom⟩ :=
    assigned_keysAssign elementActs rightTaken h
  refine ⟨hpartition, hsorted, hright, hok, hleft, hoptions,
    hpartition.collapse ?_, ?_⟩
  · intro hsome
    obtain ⟨i, hi⟩ := Option.isSome_iff_exists.mp hsome
    rw [(hleft i hi).1]
    exact hroom i hi
  · change ((keysCollapse assigned.1 assigned.2).2.take _).Pairwise _
    rw [show collapsed = keysCollapse assigned.1 assigned.2 from rfl, keysCollapse]
    split
    · exact hsorted
    · rename_i i hi
      -- The menu was empty, so it has one command now.
      rw [(hleft i hi).1]
      exact List.pairwise_singleton _ _

/-- Two commands for the right key, the later one first by priority. -/
theorem keysAssign_partition_back :
    Partition [⟨.back, 5⟩, ⟨.help, 7⟩, ⟨.back, 1⟩]
      (keysAssign [⟨.back, 5⟩, ⟨.help, 7⟩, ⟨.back, 1⟩] false false [0, 0, 0]).1
      (keysAssign [⟨.back, 5⟩, ⟨.help, 7⟩, ⟨.back, 1⟩] false false [0, 0, 0]).2 ∧
    keysAssign [⟨.back, 5⟩, ⟨.help, 7⟩, ⟨.back, 1⟩] false false [0, 0, 0] =
      ({ right := some 2, ok := none, left := none, options := true, menuCount := 2 },
        [0, 1, 0]) :=
  ⟨(keysAssign_partition [⟨.back, 5⟩, ⟨.help, 7⟩, ⟨.back, 1⟩] false false [0, 0, 0] (by decide)).1,
    by decide⟩

end Commands
