/-
Changes of stored preferences, and the file read line by line (`fplinux-ui-prefs.c`).

The reader takes one line at a time, undoes its escapes in the buffer of the line and reports
the lines it cannot use by their numbers.

Main results:
- `unescapeInPlace_eq`: what is written into the buffer never overtakes what is read from it;
- `loadFrom_eq`: reading line by line is splitting at the line feeds;
- `changes_round_trip`: whatever the changes were, the file of the items reads back as they are.
-/
import Mathlib.Data.List.GetD
import Fplinux.Ui.Prefs

namespace Prefs

open Bytes (byte)

/-! ### Changes -/

/-- `fplinux_ui_prefs_set_int`: the text of the number, in a buffer of 32 bytes. -/
def setInt (prefs : State) (key : List UInt8) (value : Int64) (allocate : Bool) :
    Except ℕ State :=
  set prefs key ((Json.printInt value.toInt).take 31) allocate

/-- `fplinux_ui_prefs_remove`: removing a key that is not there succeeds. -/
def remove (prefs : State) (key : List UInt8) : Except ℕ State :=
  if validKey key then
    match prefs.items.findIdx? (·.key = key) with
    | none => .ok prefs
    | some index => .ok { prefs with items := prefs.items.eraseIdx index, changed := true }
  else .error eInval

/-- A call that changes preferences, with whether its memory can be had. -/
inductive Change where
  | set (key value : List UInt8) (allocate : Bool)
  | setInt (key : List UInt8) (value : Int64) (allocate : Bool)
  | remove (key : List UInt8)

/-- A call that fails leaves the preferences alone. -/
def Change.apply (prefs : State) : Change → State
  | .set key value allocate => (Prefs.set prefs key value allocate).toOption.getD prefs
  | .setInt key value allocate => (Prefs.setInt prefs key value allocate).toOption.getD prefs
  | .remove key => (Prefs.remove prefs key).toOption.getD prefs

theorem set_cases {prefs prefs' : State} {key value : List UInt8} {allocate : Bool}
    (h : set prefs key value allocate = .ok prefs') :
    prefs' = prefs ∨
      ∃ item, prefs' = { prefs with items := put item prefs.items, changed := true } := by
  rw [set] at h
  split at h
  · split at h
    · split at h
      · split at h
        · rename_i hstore
          cases h
          rw [store] at hstore
          split at hstore
          · exact .inl (Option.some.inj hstore).symm
          · split at hstore
            · exact .inr ⟨_, (Option.some.inj hstore).symm⟩
            · cases hstore
        · cases h
      · cases h
    · cases h
  · cases h

/-- **What a change can do**: nothing, put an item, or take one out. -/
theorem Change.apply_cases (change : Change) (prefs : State) :
    change.apply prefs = prefs ∨
      (∃ item, change.apply prefs =
        { prefs with items := put item prefs.items, changed := true }) ∨
      ∃ index, change.apply prefs =
        { prefs with items := prefs.items.eraseIdx index, changed := true } := by
  have hset : ∀ key value allocate,
      (Prefs.set prefs key value allocate).toOption.getD prefs = prefs ∨
        ∃ item, (Prefs.set prefs key value allocate).toOption.getD prefs =
          { prefs with items := put item prefs.items, changed := true } := by
    intro key value allocate
    cases hrun : Prefs.set prefs key value allocate with
    | ok prefs' => exact set_cases hrun
    | error errno => exact .inl rfl
  cases change with
  | set key value allocate =>
    rcases hset key value allocate with hsame | hput
    · exact .inl hsame
    · exact .inr (.inl hput)
  | setInt key value allocate =>
    rcases hset key ((Json.printInt value.toInt).take 31) allocate with hsame | hput
    · exact .inl hsame
    · exact .inr (.inl hput)
  | remove key =>
    rw [Change.apply, Prefs.remove]
    split
    · split
      · exact .inl rfl
      · exact .inr (.inr ⟨_, rfl⟩)
    · exact .inl rfl

theorem Change.apply_nodup {prefs : State} (h : (prefs.items.map (·.key)).Nodup)
    (change : Change) : ((change.apply prefs).items.map (·.key)).Nodup := by
  rcases change.apply_cases prefs with hsame | ⟨item, hput⟩ | ⟨index, herase⟩
  · rw [hsame]
    exact h
  · rw [hput]
    exact nodup_put h item
  · rw [herase]
    exact h.sublist ((List.eraseIdx_sublist ..).map _)

theorem changes_nodup (changes : List Change) : ∀ prefs : State,
    (prefs.items.map (·.key)).Nodup →
      ((changes.foldl Change.apply prefs).items.map (·.key)).Nodup := by
  induction changes with
  | nil => exact fun _ h => h
  | cons change rest ih =>
    intro prefs h
    exact ih (change.apply prefs) (change.apply_nodup h)

/-! ### Escapes, undone in place -/

/-- What an escaped letter stands for. -/
def letter (b : UInt8) : Option UInt8 :=
  if b = byte 'n' then some (byte '\n')
  else if b = byte 'r' then some (byte '\r')
  else if b = byte '\\' then some (byte '\\')
  else none

/-- The loop of `unescape`: the byte at `source` goes to `target` of the same buffer. -/
def unescapeFrom (text : List UInt8) (length source target : ℕ) : Option (List UInt8 × ℕ) :=
  if source < length then
    if text.getD source 0 = byte '\\' then
      if source + 1 = length then none
      else
        match letter (text.getD (source + 1) 0) with
        | none => none
        | some b => unescapeFrom (text.set target b) length (source + 2) (target + 1)
    else
      unescapeFrom (text.set target (text.getD source 0)) length (source + 1) (target + 1)
  else some (text.set target 0, target)
termination_by length - source

/-- The text before the NUL that `unescape` leaves. -/
def unescapeInPlace (text : List UInt8) : Option (List UInt8) :=
  (unescapeFrom (text ++ [0]) text.length 0 0).map fun result => result.1.take result.2

theorem set_gap (done gap left : List UInt8) (b c : UInt8) :
    ∃ gap' : List UInt8, gap'.length = gap.length ∧
      (done ++ gap ++ b :: left).set done.length c = (done ++ [c]) ++ gap' ++ left := by
  refine ⟨(gap ++ [b]).tail, by simp, ?_⟩
  rw [List.append_assoc, List.set_append_right _ _ (Nat.le_refl _), Nat.sub_self]
  cases gap with
  | nil => simp
  | cons a gap => simp

theorem getD_gap (done gap left : List UInt8) (b : UInt8) :
    (done ++ gap ++ b :: left).getD (done.length + gap.length) 0 = b := by
  rw [← List.length_append, List.getD_append_right _ _ _ _ (Nat.le_refl _), Nat.sub_self]
  rfl

theorem unescape_letter (c : UInt8) (left : List UInt8) :
    unescape (byte '\\' :: c :: left) =
      (letter c).bind fun b => (unescape left).map (b :: ·) := by
  rw [unescape, if_pos rfl, letter]
  split
  · rfl
  split
  · rfl
  split
  · rfl
  · rfl

theorem unescapeFrom_eq (left : List UInt8) (done gap : List UInt8) :
    (unescapeFrom (done ++ gap ++ (left ++ [0])) (done.length + gap.length + left.length)
        (done.length + gap.length) done.length).map (fun result => result.1.take result.2) =
      (unescape left).map (done ++ ·) := by
  induction hlength : left.length using Nat.strong_induction_on generalizing left done gap with
  | _ length ih =>
  subst hlength
  rw [unescapeFrom]
  cases left with
  | nil =>
    obtain ⟨gap', -, hset⟩ := set_gap done gap [] 0 0
    rw [if_neg (by simp), List.nil_append, hset, Option.map_some, List.append_assoc,
      List.append_assoc, List.take_left, unescape]
    simp
  | cons b left =>
    rw [if_pos (by simp), List.cons_append, getD_gap]
    by_cases hslash : b = byte '\\'
    · subst hslash
      rw [if_pos rfl]
      cases left with
      | nil => rw [if_pos (by simp)]; rfl
      | cons c left =>
        have hsecond : (done ++ gap ++ byte '\\' :: (c :: left ++ [0])).getD
            (done.length + gap.length + 1) 0 = c := by
          have h := getD_gap done (gap ++ [byte '\\']) (left ++ [0]) c
          rwa [List.length_append, List.length_singleton, ← Nat.add_assoc, ← List.append_assoc,
            List.append_assoc _ [byte '\\']] at h
        rw [if_neg (by simp), hsecond, unescape_letter]
        cases letter c with
        | none => rfl
        | some d =>
          -- two bytes are read for one that is written
          obtain ⟨gap', hgap, hset⟩ := set_gap done gap (c :: left ++ [0]) (byte '\\') d
          have hshorter : left.length < (byte '\\' :: c :: left).length := by
            rw [List.length_cons, List.length_cons]
            omega
          have hrest := ih left.length hshorter left (done ++ [d]) (gap' ++ [c]) rfl
          have htext : done ++ [d] ++ gap' ++ (c :: left ++ [0]) =
              done ++ [d] ++ (gap' ++ [c]) ++ (left ++ [0]) := by simp
          have hsource : done.length + gap.length + 2 =
              (done ++ [d]).length + (gap' ++ [c]).length := by simp [hgap]; omega
          have hend : done.length + gap.length + (byte '\\' :: c :: left).length =
              (done ++ [d]).length + (gap' ++ [c]).length + left.length := by
            simp [hgap]; omega
          have htarget : done.length + 1 = (done ++ [d]).length := by simp
          dsimp only
          rw [hset, htext, hsource, hend, htarget, hrest, Option.bind_some, Option.map_map]
          exact congrArg (Option.map · (unescape left)) (funext fun text => by simp)
    · rw [if_neg hslash, unescape_cons hslash]
      obtain ⟨gap', hgap, hset⟩ := set_gap done gap (left ++ [0]) b b
      have hrest := ih left.length (by simp) left (done ++ [b]) gap' rfl
      have hsource : done.length + gap.length + 1 = (done ++ [b]).length + gap'.length := by
        simp [hgap]; omega
      have hend : done.length + gap.length + (b :: left).length =
          (done ++ [b]).length + gap'.length + left.length := by simp [hgap]; omega
      have htarget : done.length + 1 = (done ++ [b]).length := by simp
      rw [hset, hsource, hend, htarget, hrest, Option.map_map]
      exact congrArg (Option.map · (unescape left)) (funext fun text => by simp)

/-- **Undoing the escapes in place** gives what they stand for. -/
theorem unescapeInPlace_eq (text : List UInt8) : unescapeInPlace text = unescape text := by
  have h := unescapeFrom_eq text [] []
  simp only [List.nil_append, List.length_nil, Nat.zero_add, Option.map_id'] at h
  exact h

/-! ### Line by line -/

/-- `getline`: a line with its line feed, and what comes after it. -/
def getline : List UInt8 → List UInt8 × List UInt8
  | [] => ([], [])
  | b :: rest =>
    if b = byte '\n' then ([b], rest)
    else
      let (line, after) := getline rest
      (b :: line, after)

theorem getline_length (b : UInt8) (rest : List UInt8) :
    (getline (b :: rest)).2.length ≤ rest.length := by
  induction rest generalizing b with
  | nil =>
    rw [getline]
    split
    · exact Nat.le_refl _
    · exact Nat.le_refl _
  | cons c rest ih =>
    rw [getline]
    split
    · exact Nat.le_refl _
    · exact Nat.le_succ_of_le (ih c)

/-- The line without its line feed. -/
def chomp (line : List UInt8) : List UInt8 :=
  if line.getLast? = some (byte '\n') then line.dropLast else line

/-- The loop of `load`, with the numbers of the lines it reports; an empty line is no error. -/
def loadFrom (prefs : State) (number : ℕ) : List UInt8 → State × List ℕ
  | [] => (prefs, [])
  | b :: rest =>
    let line := chomp (getline (b :: rest)).1
    if line = [] then loadFrom prefs (number + 1) (getline (b :: rest)).2
    else
      match parseLine line with
      | none =>
        let (loaded, reported) := loadFrom prefs (number + 1) (getline (b :: rest)).2
        (loaded, (number + 1) :: reported)
      | some item =>
        loadFrom ((store prefs item true).getD prefs) (number + 1) (getline (b :: rest)).2
termination_by bytes => bytes.length
decreasing_by
  all_goals
    have h := getline_length b rest
    rw [List.length_cons]
    omega

theorem getline_append {line : List UInt8} (h : byte '\n' ∉ line) (after : List UInt8) :
    getline (line ++ byte '\n' :: after) = (line ++ [byte '\n'], after) := by
  induction line with
  | nil => rw [List.nil_append, getline, if_pos rfl]; rfl
  | cons b line ih =>
    rw [List.mem_cons, not_or] at h
    rw [List.cons_append, getline, if_neg (Ne.symm h.1), ih h.2]
    rfl

theorem getline_of_not_mem {bytes : List UInt8} (h : byte '\n' ∉ bytes) :
    getline bytes = (bytes, []) := by
  induction bytes with
  | nil => rfl
  | cons b bytes ih =>
    rw [List.mem_cons, not_or] at h
    rw [getline, if_neg (Ne.symm h.1), ih h.2]

theorem chomp_append (line : List UInt8) : chomp (line ++ [byte '\n']) = line := by
  rw [chomp, if_pos (by simp), List.dropLast_concat]

theorem chomp_of_not_mem {line : List UInt8} (h : byte '\n' ∉ line) : chomp line = line := by
  rw [chomp, if_neg]
  intro hlast
  exact h (List.mem_of_getLast? hlast)

theorem loadFrom_step (prefs : State) (number : ℕ) {bytes : List UInt8} (h : bytes ≠ []) :
    (loadFrom prefs number bytes).1 =
      (loadFrom (loadLine prefs (chomp (getline bytes).1)) (number + 1) (getline bytes).2).1 := by
  cases bytes with
  | nil => exact absurd rfl h
  | cons b rest =>
    rw [loadFrom]
    split
    · rename_i hempty
      rw [hempty]
      rfl
    · rw [loadLine]
      cases parseLine (chomp (getline (b :: rest)).1) with
      | none => rfl
      | some item => rfl

/-- **Reading line by line is splitting at the line feeds.** -/
theorem loadFrom_eq (prefs : State) (number : ℕ) (bytes : List UInt8) :
    (loadFrom prefs number bytes).1 = (bytes.splitOn (byte '\n')).foldl loadLine prefs := by
  induction hlength : bytes.length using Nat.strong_induction_on
    generalizing prefs number bytes with
  | _ length ih =>
  subst hlength
  by_cases hnil : bytes = []
  · subst hnil
    rw [loadFrom]
    rfl
  · rw [loadFrom_step prefs number hnil]
    by_cases hmem : byte '\n' ∈ bytes
    · obtain ⟨line, after, rfl, hline⟩ := List.eq_append_cons_of_mem hmem
      rw [getline_append hline, chomp_append, List.splitOn_append_cons_self_of_not_mem hline,
        List.foldl_cons]
      exact ih after.length (by simp; omega) _ _ after rfl
    · rw [getline_of_not_mem hmem, chomp_of_not_mem hmem, List.splitOn_eq_singleton hmem, loadFrom]
      rfl

theorem loadFrom_line {line : List UInt8} {item : Item} (hline : byte '\n' ∉ line)
    (hparse : parseLine line = some item) (prefs : State) (number : ℕ) (after : List UInt8) :
    loadFrom prefs number (line ++ byte '\n' :: after) =
      loadFrom ((store prefs item true).getD prefs) (number + 1) after := by
  cases line with
  | nil => exact nomatch hparse
  | cons b line =>
    have hread := getline_append hline after
    rw [List.cons_append] at hread ⊢
    rw [loadFrom, hread, chomp_append]
    simp only [reduceCtorEq, if_false, hparse]

theorem reported_writeItems (items : List Item) : ∀ (prefs : State) (number : ℕ),
    (loadFrom prefs number (writeItems items)).2 = [] := by
  induction items with
  | nil =>
    intro prefs number
    show (loadFrom prefs number []).2 = []
    rw [loadFrom]
  | cons item rest ih =>
    intro prefs number
    have hbytes : writeItems (item :: rest) =
        writeLine item ++ byte '\n' :: writeItems rest := by
      rw [writeItems, List.flatMap_cons, List.append_assoc]
      rfl
    rw [hbytes, loadFrom_line (writeLine_newline item) (parseLine_writeLine item)]
    exact ih _ _

/-- **Whatever the changes were, the file of the items reads back as they are**, in their order,
with no key twice and no line reported. -/
theorem changes_round_trip (file : Option (List UInt8)) (changes : List Change) :
    let items := (changes.foldl Change.apply (load file)).items
    let bytes := writeItems items
    (items.map (·.key)).Nodup ∧
      (loadFrom ⟨[], false, false, some bytes⟩ 0 bytes).1.items = items ∧
      (loadFrom ⟨[], false, false, some bytes⟩ 0 bytes).2 = [] := by
  have hnodup := changes_nodup changes (load file) (ok_load file).nodup
  refine ⟨hnodup, ?_, reported_writeItems _ _ _⟩
  rw [loadFrom_eq]
  exact loadLines_writeItems _ _ hnodup

end Prefs
