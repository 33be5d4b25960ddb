/-
The Snake game (`snake.c` of `fplinux-snake`).

A cell is `y * columns + x`.  The body array has its head first and is read up to `length`;
`segments` is that part.  Every operation of the application is an `Op`, and a run begins
with `start` on any memory.

Main results:
- `placeFood_ok`: food goes to a free cell, or the body covers the board;
- `tick_ok`: a tick keeps the body distinct, connected and on the board;
- `sound_of_run`: the invariant of all runs.
-/
import Mathlib.Data.List.Chain
import Mathlib.Data.List.Perm.Subperm
import Fplinux.Lib.Run

namespace Snake

def maxCells : ℕ := 512
def minSide : ℕ := 5

inductive Direction
  | up | right | down | left
  deriving DecidableEq, Repr, Inhabited

/-- The enumerator's value. -/
def Direction.code : Direction → ℕ
  | .up => 0
  | .right => 1
  | .down => 2
  | .left => 3

/-- `struct fplinux_snake`. -/
structure State where
  body : List ℕ
  columns : ℕ
  rows : ℕ
  length : ℕ
  score : ℕ
  best : ℕ
  food : ℕ
  random : BitVec 32
  direction : Direction
  pending : Direction
  paused : Bool
  dead : Bool
  won : Bool
  deriving DecidableEq, Repr, Inhabited

namespace State

/-- The cells of the board. -/
def cells (snake : State) : ℕ := snake.columns * snake.rows

/-- The part of the array that the body takes up. -/
def segments (snake : State) : List ℕ := snake.body.take snake.length

end State

def clamp (value low high : ℕ) : ℕ :=
  if value < low then low else if value > high then high else value

/-- The three shifts of the generator. -/
def nextRandom (random : BitVec 32) : BitVec 32 :=
  let random := random ^^^ (random <<< 13)
  let random := random ^^^ (random >>> 17)
  random ^^^ (random <<< 5)

/-- The free cell with `chosen` free cells before it. -/
def freeCell (segments : List ℕ) : ℕ → List ℕ → Option ℕ
  | _, [] => none
  | chosen, cell :: cells =>
    if cell ∈ segments then freeCell segments chosen cells
    else if chosen = 0 then some cell
    else freeCell segments (chosen - 1) cells

def placeFood (snake : State) : State :=
  let available := snake.cells - snake.length
  if available = 0 then { snake with won := true, paused := true }
  else
    let random := nextRandom snake.random
    match freeCell snake.segments (random.toNat % available) (List.range snake.cells) with
    | some cell => { snake with random := random, food := cell }
    | none => { snake with random := random }

/-- `fplinux_snake_start`; of the memory only `best` is kept. -/
def start (snake : State) (seed : BitVec 32) (columns rows : ℕ) : State :=
  let columns := clamp columns minSide (maxCells / minSide)
  let rows := clamp rows minSide (maxCells / columns)
  -- the head at the centre, the body to its left in the same row
  let center := columns * (rows / 2) + columns / 2
  placeFood
    { body := [center, center - 1, center - 2] ++ List.replicate (maxCells - 3) 0
      columns := columns
      rows := rows
      length := 3
      score := 0
      best := snake.best
      food := 0
      random := if seed ≠ 0 then seed else 1
      direction := .right
      pending := .right
      paused := true
      dead := false
      won := false }

def turn (snake : State) (direction : Direction) : State :=
  if snake.pending = snake.direction ∧ (direction.code + 2) % 4 ≠ snake.direction.code then
    { snake with pending := direction }
  else snake

/-- One step on the plane. -/
def moved : Direction → ℤ × ℤ → ℤ × ℤ
  | .up, (x, y) => (x, y - 1)
  | .right, (x, y) => (x + 1, y)
  | .down, (x, y) => (x, y + 1)
  | .left, (x, y) => (x - 1, y)

/-- The column and the row of a cell. -/
def position (columns cell : ℕ) : ℤ × ℤ := ((cell % columns : ℕ), (cell / columns : ℕ))

/-- The cell ahead of another, unless the board ends there. -/
def ahead (snake : State) (direction : Direction) (cell : ℕ) : Option ℕ :=
  let (x, y) := moved direction (position snake.columns cell)
  if x < 0 ∨ x ≥ snake.columns ∨ y < 0 ∨ y ≥ snake.rows then none
  else some (y * snake.columns + x).toNat

/-- The pending turn is made. -/
def face (snake : State) : State := { snake with direction := snake.pending }

/-- The label `collision`. -/
def collide (snake : State) : State := { snake with dead := true, paused := true }

/-- The food is eaten. -/
def grow (snake : State) : State :=
  { snake with
    length := snake.length + 1
    score := snake.score + 1
    best := if snake.score + 1 > snake.best then snake.score + 1 else snake.best }

/-- The body moves up in the array, `next` becomes its head. -/
def advance (snake : State) (next : ℕ) : State :=
  { snake with
    body := next :: (snake.body.take (snake.length - 1) ++ snake.body.drop snake.length) }

/-- The head enters `next`; the snake grows if the food is there. -/
def enter (snake : State) (next : ℕ) : State :=
  advance (if next = snake.food then grow snake else snake) next

/-- `fplinux_snake_tick`: whether anything changed, and the snake. -/
def tick (snake : State) : Bool × State :=
  if snake.paused ∨ snake.dead ∨ snake.won then (false, snake)
  else
    let snake := face snake
    match ahead snake snake.direction (snake.body.getD 0 0) with
    | none => (true, collide snake)
    | some next =>
      -- the tail leaves its cell unless the snake grows
      let occupied := snake.length - if next = snake.food then 0 else 1
      if next ∈ snake.body.take occupied then (true, collide snake)
      else (true, if next = snake.food then placeFood (enter snake next) else enter snake next)

/-- What the application does with the snake. -/
inductive Op
  | start (seed : BitVec 32) (columns rows : ℕ)
  | turn (direction : Direction)
  | pause (paused : Bool)
  | tick

def apply (snake : State) : Op → State
  | .start seed columns rows => start snake seed columns rows
  | .turn direction => turn snake direction
  | .pause paused => { snake with paused := paused }
  | .tick => (tick snake).2

/-- The game: a first start on any memory, then any operations. -/
def machine : Machine State Op where
  start snake := ∃ memory seed columns rows, snake = start memory seed columns rows
  step snake op snake' := snake' = apply snake op

/-! ### The random numbers -/

/-- A shift that ends in zero moves every other number. -/
theorem xor_ne_zero {f : BitVec 32 → BitVec 32} {x : BitVec 32} (n : ℕ) (hf : f^[n] x = 0)
    (hx : x ≠ 0) : x ^^^ f x ≠ 0 := by
  intro h
  have hfix : f x = x := (BitVec.xor_eq_zero_iff.mp h).symm
  rw [Function.iterate_fixed hfix] at hf
  exact hx hf

theorem iterate_shiftLeft (n k : ℕ) (x : BitVec 32) :
    (fun y : BitVec 32 => y <<< n)^[k] x = x <<< (n * k) := by
  induction k with
  | zero => exact (BitVec.shiftLeft_zero x).symm
  | succ k ih => rw [Function.iterate_succ_apply', ih, Nat.mul_succ, BitVec.shiftLeft_add]

theorem nextRandom_ne_zero {random : BitVec 32} (h : random ≠ 0) : nextRandom random ≠ 0 := by
  have hleft : ∀ n k, 32 ≤ n * k → ∀ x : BitVec 32, x ≠ 0 → x ^^^ (x <<< n) ≠ 0 :=
    fun n k hn x hx => xor_ne_zero k
      ((iterate_shiftLeft n k x).trans (BitVec.shiftLeft_eq_zero hn)) hx
  have hright : ∀ x : BitVec 32, x ≠ 0 → x ^^^ (x >>> 17) ≠ 0 := by
    intro x hx
    refine xor_ne_zero (f := fun y => y >>> 17) 2 ?_ hx
    show x >>> 17 >>> 17 = 0
    rw [← BitVec.shiftRight_add]
    exact BitVec.ushiftRight_eq_zero (by decide)
  exact hleft 5 7 (by decide) _ (hright _ (hleft 13 3 (by decide) _ h))

/-! ### The board -/

/-- Two cells of which one is above, below or beside the other. -/
def Adjacent (columns a b : ℕ) : Prop :=
  ((position columns a).1 - (position columns b).1).natAbs +
    ((position columns a).2 - (position columns b).2).natAbs = 1

variable {snake : State} {columns rows cell next : ℕ} {direction turned : Direction}

theorem adjacent_of_moved {a b : ℕ}
    (h : position columns a = moved direction (position columns b)) : Adjacent columns a b := by
  rw [Adjacent, h]
  generalize position columns b = at'
  obtain ⟨x, y⟩ := at'
  cases direction <;> simp only [moved] <;> omega

theorem opposite_of_moved {at' : ℤ × ℤ} (h : moved turned (moved direction at') = at') :
    (direction.code + 2) % 4 = turned.code := by
  obtain ⟨x, y⟩ := at'
  cases direction <;> cases turned <;> simp only [moved, Prod.mk.injEq] at h <;>
    first | rfl | omega

theorem position_mul_add {x : ℕ} (y : ℕ) (hx : x < columns) :
    position columns (y * columns + x) = ((x : ℤ), (y : ℤ)) := by
  have hpos : 0 < columns := by omega
  have hdiv : (y * columns + x) / columns = y := by
    rw [Nat.add_comm, Nat.add_mul_div_right _ _ hpos, Nat.div_eq_of_lt hx, Nat.zero_add]
  rw [position, Nat.mul_add_mod_of_lt hx, hdiv]

theorem mul_add_lt {x y : ℕ} (hx : x < columns) (hy : y < rows) :
    y * columns + x < columns * rows := by
  calc y * columns + x < y * columns + columns := by omega
    _ = (y + 1) * columns := (Nat.succ_mul y columns).symm
    _ ≤ rows * columns := Nat.mul_le_mul_right _ hy
    _ = columns * rows := Nat.mul_comm _ _

theorem ahead_eq_some (h : ahead snake direction cell = some next) :
    next < snake.cells ∧
      position snake.columns next = moved direction (position snake.columns cell) := by
  rw [ahead] at h
  generalize moved direction (position snake.columns cell) = target at h ⊢
  obtain ⟨x, y⟩ := target
  simp only at h
  split_ifs at h with hout
  obtain ⟨x, rfl⟩ := Int.eq_ofNat_of_zero_le (show 0 ≤ x by omega)
  obtain ⟨y, rfl⟩ := Int.eq_ofNat_of_zero_le (show 0 ≤ y by omega)
  have hnext : y * snake.columns + x = next := by
    have heq := Option.some.inj h
    exact_mod_cast heq
  have hx : x < snake.columns := by omega
  have hy : y < snake.rows := by omega
  rw [← hnext]
  exact ⟨mul_add_lt hx hy, position_mul_add y hx⟩

/-! ### The invariant -/

/-- The body on the board. -/
structure Shape (snake : State) : Prop where
  columns_pos : 0 < snake.columns
  cells_le : snake.cells ≤ maxCells
  array : snake.body.length = maxCells
  score : snake.length = snake.score + 3
  length_le : snake.length ≤ snake.cells
  board : ∀ cell ∈ snake.segments, cell < snake.cells
  nodup : snake.segments.Nodup
  connected : snake.segments.IsChain (Adjacent snake.columns)
  random : snake.random ≠ 0
  best : snake.score ≤ snake.best

/-- A living snake has moved in its direction and does not turn back. -/
def Heading (snake : State) : Prop :=
  snake.dead = false →
    position snake.columns (snake.body.getD 0 0) =
        moved snake.direction (position snake.columns (snake.body.getD 1 0)) ∧
      (snake.direction.code + 2) % 4 ≠ snake.pending.code

/-- The invariant between two operations. -/
structure Ok (snake : State) : Prop extends Shape snake where
  heading : Heading snake
  food : snake.won = false → snake.food < snake.cells ∧ snake.food ∉ snake.segments
  won : snake.won = true ↔ snake.length = snake.cells

theorem Shape.length_segments (h : Shape snake) : snake.segments.length = snake.length := by
  have hcells := h.cells_le
  have hle := h.length_le
  rw [State.segments, List.length_take, h.array]
  omega

theorem Shape.segments_subset (h : Shape snake) : snake.segments ⊆ List.range snake.cells :=
  fun cell hcell => List.mem_range.mpr (h.board cell hcell)

theorem Shape.covers_iff (h : Shape snake) :
    (∀ cell < snake.cells, cell ∈ snake.segments) ↔ snake.length = snake.cells := by
  have hlen := h.length_segments
  constructor
  · intro hall
    have hsub : List.range snake.cells ⊆ snake.segments :=
      fun cell hcell => hall cell (List.mem_range.mp hcell)
    have hle := (List.subperm_of_subset List.nodup_range hsub).length_le
    rw [List.length_range] at hle
    exact Nat.le_antisymm h.length_le (hlen ▸ hle)
  · intro heq cell hcell
    have hperm := (List.subperm_of_subset h.nodup h.segments_subset).perm_of_length_le
      (by rw [List.length_range, hlen, heq])
    exact hperm.mem_iff.mpr (List.mem_range.mpr hcell)

/-! ### Food -/

theorem freeCell_spec {segments cells : List ℕ} {chosen : ℕ}
    (h : chosen < cells.countP (· ∉ segments)) :
    ∃ cell ∈ cells, cell ∉ segments ∧ freeCell segments chosen cells = some cell := by
  induction cells generalizing chosen with
  | nil => simp at h
  | cons first cells ih =>
    by_cases hfirst : first ∈ segments
    · rw [List.countP_cons_of_neg (by simpa using hfirst)] at h
      obtain ⟨cell, hmem, hfree, heq⟩ := ih h
      exact ⟨cell, List.mem_cons_of_mem _ hmem, hfree, by rw [freeCell, if_pos hfirst, heq]⟩
    · rw [List.countP_cons_of_pos (by simpa using hfirst)] at h
      by_cases hzero : chosen = 0
      · exact ⟨first, List.mem_cons_self, hfirst, by rw [freeCell, if_neg hfirst, if_pos hzero]⟩
      · obtain ⟨cell, hmem, hfree, heq⟩ := ih (show chosen - 1 < _ by omega)
        exact ⟨cell, List.mem_cons_of_mem _ hmem, hfree,
          by rw [freeCell, if_neg hfirst, if_neg hzero, heq]⟩

theorem Shape.available_le (h : Shape snake) :
    snake.cells - snake.length ≤ (List.range snake.cells).countP (· ∉ snake.segments) := by
  have hsplit := List.length_eq_countP_add_countP (· ∈ snake.segments)
    (l := List.range snake.cells)
  have hused : (List.range snake.cells).countP (· ∈ snake.segments) ≤ snake.length := by
    rw [← h.length_segments, List.countP_eq_length_filter]
    refine (List.subperm_of_subset (List.nodup_range.filter _) fun cell hcell => ?_).length_le
    simpa using (List.mem_filter.mp hcell).2
  rw [List.length_range] at hsplit
  simp only [decide_eq_true_eq] at hsplit
  omega

/-- **Food is placed on a free cell**, or the board is covered. -/
theorem placeFood_ok (h : Shape snake) (hheading : Heading snake) (hwon : snake.won = false) :
    Ok (placeFood snake) := by
  have hle := h.length_le
  rw [placeFood]
  by_cases hfull : snake.cells - snake.length = 0
  · rw [if_pos hfull]
    have hcovered : snake.length = snake.cells := by omega
    exact
      { toShape := { h with }
        heading := hheading
        food := fun hno => by cases hno
        won := iff_of_true rfl hcovered }
  · rw [if_neg hfull]
    have hchosen := Nat.mod_lt (nextRandom snake.random).toNat (Nat.pos_of_ne_zero hfull)
    obtain ⟨cell, hmem, hfree, heq⟩ := freeCell_spec (hchosen.trans_le h.available_le)
    have hopen : snake.length ≠ snake.cells := by omega
    simp only [heq]
    exact
      { toShape := { h with random := nextRandom_ne_zero h.random }
        heading := hheading
        food := fun _ => ⟨List.mem_range.mp hmem, hfree⟩
        won := iff_of_false (by rw [hwon]; exact Bool.false_ne_true) hopen }

theorem placeFood_best (snake : State) : (placeFood snake).best = snake.best := by
  rw [placeFood]
  split
  · rfl
  · dsimp only
    split <;> rfl

/-! ### Operations -/

theorem clamp_bounds {value low high : ℕ} (h : low ≤ high) :
    low ≤ clamp value low high ∧ clamp value low high ≤ high := by
  rw [clamp]
  split_ifs <;> omega

theorem start_ok (memory : State) (seed : BitVec 32) (columns rows : ℕ) :
    Ok (start memory seed columns rows) := by
  rw [start]
  obtain ⟨hcolumns, hwide⟩ : minSide ≤ clamp columns minSide (maxCells / minSide) ∧ _ :=
    clamp_bounds (by decide)
  generalize clamp columns minSide (maxCells / minSide) = columns at hcolumns hwide ⊢
  have hroom : minSide ≤ maxCells / columns := by
    rw [minSide] at hcolumns ⊢
    rw [Nat.le_div_iff_mul_le (by omega), Nat.mul_comm]
    exact (Nat.le_div_iff_mul_le (by decide)).mp hwide
  obtain ⟨hrows, hhigh⟩ : minSide ≤ clamp rows minSide (maxCells / columns) ∧ _ :=
    clamp_bounds hroom
  generalize clamp rows minSide (maxCells / columns) = rows at hrows hhigh ⊢
  have hcells : columns * rows ≤ maxCells :=
    (Nat.mul_le_mul_left _ hhigh).trans (Nat.mul_div_le _ _)
  rw [minSide] at hcolumns hrows
  -- the three cells stand in one row of the board
  have hrow : rows / 2 < rows := by omega
  obtain ⟨x, hx⟩ : ∃ x, columns / 2 = x + 2 := ⟨columns / 2 - 2, by omega⟩
  have hcell : ∀ k ≤ 2, columns * (rows / 2) + columns / 2 - k =
      rows / 2 * columns + (x + 2 - k) := by
    intro k hk
    rw [Nat.mul_comm columns, hx]
    omega
  have hhead : columns * (rows / 2) + columns / 2 = rows / 2 * columns + (x + 2) :=
    hcell 0 (by omega)
  rw [hcell 1 (by omega), hcell 2 (by omega), hhead]
  generalize rows / 2 = y at hrow
  have hright : ∀ k ≤ 1, position columns (y * columns + (x + k + 1)) =
      moved .right (position columns (y * columns + (x + k))) := by
    intro k hk
    rw [position_mul_add y (show x + k + 1 < columns by omega),
      position_mul_add y (show x + k < columns by omega)]
    rfl
  have hmem : ∀ k ≤ 2, y * columns + (x + k) < columns * rows :=
    fun k hk => mul_add_lt (by omega) hrow
  have hheading : (Direction.right.code + 2) % 4 ≠ Direction.right.code := by decide
  refine placeFood_ok ?_ (fun _ => ⟨hright 1 (by omega), hheading⟩) rfl
  exact
    { columns_pos := by show 0 < columns; omega
      cells_le := hcells
      array := by
        show ([_, _, _] ++ List.replicate (maxCells - 3) 0).length = maxCells
        rw [List.length_append, List.length_replicate]
        rfl
      score := rfl
      length_le := (show 3 ≤ 5 * 5 by decide).trans (Nat.mul_le_mul hcolumns hrows)
      board := fun cell hcell => by
        have hthree : cell ∈ [y * columns + (x + 2), y * columns + (x + 1), y * columns + x] := hcell
        simp only [List.mem_cons, List.not_mem_nil, or_false] at hthree
        rcases hthree with rfl | rfl | rfl
        · exact hmem 2 (by omega)
        · exact hmem 1 (by omega)
        · exact hmem 0 (by omega)
      nodup := by
        show [y * columns + (x + 2), y * columns + (x + 1), y * columns + x].Nodup
        simp only [List.nodup_cons, List.mem_cons, List.not_mem_nil, or_false, List.nodup_nil,
          not_or, not_false_eq_true, and_true]
        omega
      connected := .cons_cons (adjacent_of_moved (hright 1 (by omega)))
        (.cons_cons (adjacent_of_moved (hright 0 (by omega))) (.singleton _))
      random := by
        show (if seed ≠ 0 then seed else 1) ≠ 0
        split_ifs with hseed
        · exact hseed
        · decide
      best := Nat.zero_le _ }

theorem turn_ok (h : Ok snake) (direction : Direction) : Ok (turn snake direction) := by
  rw [turn]
  split_ifs with hturn
  · have hkeep : (snake.direction.code + 2) % 4 ≠ direction.code := by
      have hne := hturn.2
      generalize snake.direction = old at hne ⊢
      cases old <;> cases direction <;> simp_all [Direction.code]
    exact
      { toShape := { h.toShape with }
        heading := fun hdead => ⟨(h.heading hdead).1, hkeep⟩
        food := h.food
        won := h.won }
  · exact h

theorem enter_segments (h : Shape snake) :
    (enter snake next).segments =
      next :: snake.body.take (snake.length - if next = snake.food then 0 else 1) := by
  have hcells := h.cells_le
  have hle := h.length_le
  have hscore := h.score
  have harray := h.array
  have htake : ∀ (k : ℕ) (rest : List ℕ), k ≤ snake.body.length →
      (next :: (snake.body.take k ++ rest)).take (k + 1) = next :: snake.body.take k := by
    intro k rest hk
    rw [List.take_succ_cons, List.take_left' (List.length_take_of_le hk)]
  rw [enter]
  split_ifs
  · exact htake snake.length _ (by omega)
  · obtain ⟨k, hk⟩ : ∃ k, snake.length = k + 1 := ⟨snake.length - 1, by omega⟩
    rw [State.segments]
    show (next :: (snake.body.take (snake.length - 1) ++ _)).take snake.length = _
    rw [hk]
    exact htake k _ (by omega)

theorem getD_enter_one (h : Shape snake) :
    (enter snake next).body.getD 1 0 = snake.body.getD 0 0 := by
  have hscore := h.score
  have harray := h.array
  obtain ⟨head, tail, hbody⟩ := List.exists_cons_of_length_pos
    (show 0 < snake.body.length by rw [harray]; decide)
  rw [enter]
  split_ifs
  · simp only [advance, grow, hbody, Nat.add_sub_cancel]
    rw [hscore]
    rfl
  · simp only [advance, hbody]
    rw [hscore]
    rfl

/-- What changes when the head enters a cell. -/
theorem enter_eq (h : Shape snake) (hopen : snake.length ≠ snake.cells) (next : ℕ) :
    ∃ body length score best, enter snake next =
        { snake with body := body, length := length, score := score, best := best } ∧
      body.length = maxCells ∧ length = score + 3 ∧ length ≤ snake.cells ∧ score ≤ best ∧
      snake.best ≤ best := by
  have hscore := h.score
  have hbest := h.best
  have harray := h.array
  have hle := h.length_le
  have hcells := h.cells_le
  rw [enter]
  split_ifs
  · simp only [grow, advance]
    refine ⟨_, _, _, _, rfl, ?_, by omega, by omega, by split_ifs <;> omega, by split_ifs <;> omega⟩
    simp only [List.length_cons, List.length_append, List.length_take, List.length_drop]
    omega
  · refine ⟨_, _, _, _, rfl, ?_, hscore, hle, hbest, Nat.le_refl _⟩
    simp only [List.length_cons, List.length_append, List.length_take, List.length_drop]
    omega

section enter

variable (h : Shape snake) (hopen : snake.length ≠ snake.cells) (hnext : next < snake.cells)
  (hfree : next ∉ snake.body.take (snake.length - if next = snake.food then 0 else 1))
  (hmoved : position snake.columns next =
    moved snake.direction (position snake.columns (snake.body.getD 0 0)))

include h hopen hmoved

theorem enter_heading (hturn : snake.pending = snake.direction) : Heading (enter snake next) := by
  have hkeep : (snake.direction.code + 2) % 4 ≠ snake.pending.code := by
    rw [hturn]
    generalize snake.direction = direction
    cases direction <;> decide
  have hneck : (enter snake next).body.getD 1 0 = _ := getD_enter_one h
  have hhead : (enter snake next).body.getD 0 0 = next := rfl
  obtain ⟨body, length, score, best, heq, -⟩ := enter_eq h hopen next
  rw [Heading, hneck, hhead, heq]
  exact fun _ => ⟨hmoved, hkeep⟩

include hnext hfree

/-- **A step of the head** to a cell that the rest of the body leaves free. -/
theorem enter_shape : Shape (enter snake next) := by
  have hscore := h.score
  have hsegments : (enter snake next).segments = _ := enter_segments h
  have hpos : (snake.length - if next = snake.food then 0 else 1) ≠ 0 := by
    split_ifs <;> omega
  -- what the body keeps is the front of what it was
  have hrest : snake.body.take (snake.length - if next = snake.food then 0 else 1) =
      snake.segments.take (snake.length - if next = snake.food then 0 else 1) := by
    rw [State.segments, List.take_take, Nat.min_eq_left (Nat.sub_le _ _)]
  generalize snake.length - (if next = snake.food then 0 else 1) = occupied at *
  rw [hrest] at hsegments hfree
  have hboard : ∀ cell ∈ next :: snake.segments.take occupied, cell < snake.cells := by
    intro cell hcell
    rcases List.mem_cons.mp hcell with rfl | hmem
    · exact hnext
    · exact h.board cell (List.mem_of_mem_take hmem)
  have hnodup : (next :: snake.segments.take occupied).Nodup :=
    List.nodup_cons.mpr ⟨hfree, h.nodup.sublist (List.take_sublist _ _)⟩
  have hconnected : (next :: snake.segments.take occupied).IsChain (Adjacent snake.columns) := by
    refine (h.connected.take occupied).cons fun cell hcell => ?_
    rw [← hrest, List.head?_take, if_neg hpos] at hcell
    have hfirst : snake.body.getD 0 0 = cell := by
      rw [List.getD_eq_getElem?_getD, ← List.head?_eq_getElem?, Option.mem_def.mp hcell]
      rfl
    rw [← hfirst]
    exact adjacent_of_moved hmoved
  obtain ⟨body, length, score, best, heq, harray, hscore', hle, hbest, -⟩ := enter_eq h hopen next
  rw [heq] at hsegments ⊢
  exact
    { h with
      array := harray
      score := hscore'
      length_le := hle
      board := hsegments ▸ hboard
      nodup := hsegments ▸ hnodup
      connected := hsegments ▸ hconnected
      best := hbest }

end enter

/-- What a tick can do. -/
theorem tick_cases (snake : State) :
    (tick snake).2 = snake ∨
    snake.won = false ∧ ((tick snake).2 = collide (face snake) ∨
      ∃ next, ahead (face snake) snake.pending (snake.body.getD 0 0) = some next ∧
        next ∉ snake.body.take (snake.length - if next = snake.food then 0 else 1) ∧
        (tick snake).2 = if next = snake.food then placeFood (enter (face snake) next)
          else enter (face snake) next) := by
  rw [tick]
  split_ifs with hidle
  · exact .inl rfl
  refine .inr ⟨Bool.eq_false_iff.mpr fun hw => hidle (.inr (.inr hw)), ?_⟩
  dsimp only
  split
  · exact .inl rfl
  · rename_i next hahead
    by_cases hhit : next ∈ snake.body.take (snake.length - if next = snake.food then 0 else 1)
    · exact .inl (congrArg Prod.snd (if_pos hhit))
    · exact .inr ⟨next, hahead, hhit, congrArg Prod.snd (if_neg hhit)⟩

theorem Shape.face (h : Shape snake) : Shape (face snake) := { h with }

theorem Ok.collide (h : Ok snake) : Ok (collide (Snake.face snake)) where
  toShape := { h.toShape with }
  heading hdead := by cases hdead
  food := h.food
  won := h.won

theorem Ok.open (h : Ok snake) (hwon : snake.won = false) : snake.length ≠ snake.cells := by
  intro heq
  rw [h.won.mpr heq] at hwon
  cases hwon

/-- **A tick keeps the invariant.** -/
theorem tick_ok (h : Ok snake) : Ok (tick snake).2 := by
  obtain htick | ⟨hwon, htick | ⟨next, hahead, hfree, htick⟩⟩ := tick_cases snake
  · rwa [htick]
  · rw [htick]
    exact h.collide
  obtain ⟨hnext, hmoved⟩ := ahead_eq_some hahead
  have hshape := enter_shape h.toShape.face (h.open hwon) hnext hfree hmoved
  have hheading := enter_heading h.toShape.face (h.open hwon) hmoved rfl
  rw [htick]
  split_ifs with heat
  · refine placeFood_ok hshape hheading ?_
    obtain ⟨body, length, score, best, heq, -⟩ := enter_eq h.toShape.face (h.open hwon) next
    rw [heq]
    exact hwon
  · have hsegments : (enter (face snake) next).segments = _ := enter_segments h.toShape.face
    have hnot : ¬ next = (face snake).food := heat
    rw [if_neg hnot] at hsegments
    obtain ⟨hfood, hoff⟩ := h.food hwon
    refine { toShape := hshape, heading := hheading, food := fun _ => ?_, won := ?_ }
    · rw [hsegments, enter, if_neg hnot]
      refine ⟨hfood, fun hmem => ?_⟩
      rcases List.mem_cons.mp hmem with heq | htail
      · exact heat heq.symm
      · exact hoff (List.take_subset_take_left _ (Nat.sub_le _ _) htail)
    · rw [enter, if_neg hnot]
      exact h.won

theorem apply_ok (h : Ok snake) (op : Op) : Ok (apply snake op) := by
  cases op with
  | start seed columns rows => exact start_ok snake seed columns rows
  | turn direction => exact turn_ok h direction
  | pause paused =>
    exact
      { toShape := { h.toShape with }
        heading := h.heading
        food := h.food
        won := h.won }
  | tick => exact tick_ok h

theorem ok_of_reachable (h : machine.Reachable snake) : Ok snake := by
  refine h.invariant ?_ ?_
  · rintro s ⟨memory, seed, columns, rows, rfl⟩
    exact start_ok memory seed columns rows
  · rintro s op s' hs rfl
    exact apply_ok hs op

theorem Ok.best_le (h : Ok snake) (op : Op) : snake.best ≤ (apply snake op).best := by
  cases op with
  | start seed columns rows =>
    rw [apply, start, placeFood_best]
  | turn direction =>
    rw [apply, turn]
    split_ifs <;> exact Nat.le_refl _
  | pause paused => exact Nat.le_refl _
  | tick =>
    rw [apply]
    obtain htick | ⟨hwon, htick | ⟨next, -, -, htick⟩⟩ := tick_cases snake
    · rw [htick]
    · rw [htick]
      exact Nat.le_refl _
    obtain ⟨body, length, score, best, heq, -, -, -, -, hbest⟩ :=
      enter_eq h.toShape.face (h.open hwon) next
    rw [htick, apply_ite State.best, placeFood_best, ite_self, heq]
    exact hbest

theorem Ok.ahead_ne (h : Ok snake) (hdead : snake.dead = false) :
    ahead snake snake.pending (snake.body.getD 0 0) ≠ some (snake.body.getD 1 0) := by
  intro hahead
  obtain ⟨hhead, hkeep⟩ := h.heading hdead
  obtain ⟨-, hback⟩ := ahead_eq_some hahead
  rw [hhead] at hback
  exact hkeep (opposite_of_moved hback.symm)

/-- What holds between any two operations of a game. -/
structure Sound (snake : State) : Prop extends Shape snake where
  /-- `body[0..length)` is in the array. -/
  length_segments : snake.segments.length = snake.length
  food : snake.won = false → snake.food < snake.cells ∧ snake.food ∉ snake.segments
  best_le : ∀ op, snake.best ≤ (apply snake op).best
  /-- A snake that can still move never has `body[1]` ahead. -/
  ahead_ne : snake.dead = false →
    ahead snake snake.pending (snake.body.getD 0 0) ≠ some (snake.body.getD 1 0)
  won : snake.won = true ↔ ∀ cell < snake.cells, cell ∈ snake.segments

/-- **The game's invariant**, in every state of every run. -/
theorem sound_of_run (h : machine.Reachable snake) : Sound snake := by
  have hok := ok_of_reachable h
  exact
    { hok.toShape with
      length_segments := hok.length_segments
      food := hok.food
      best_le := hok.best_le
      ahead_ne := hok.ahead_ne
      won := hok.won.trans hok.covers_iff.symm }

theorem sound_of_run_sample :
    Sound (apply (apply (start default 99 8 5) (.pause false)) .tick) :=
  sound_of_run (.step (.step (.start ⟨default, 99, 8, 5, rfl⟩) rfl) rfl)

end Snake
