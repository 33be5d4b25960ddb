/-
Paths of the file manager (`files-core.c`).

A folder is entered and left by its path: `fplinux_files_child_path` puts a name behind the
normal form of a folder, `fplinux_files_parent_path` takes the last name away.  Both build
their result in a buffer of their own and store it last, so that the buffer they store it in
may be one they read from.

Main results:
- `normalizePath_eq_ok_iff`: what is accepted, and that its result is the rendered components;
- `normalizePath_idem`, `normalizePath_canonical`: the form of the results;
- `childPath_eq`, `parentPath_eq`: one step down, one step up;
- `navigation`: the steps are inverse to each other, and the way up ends at the root.
-/
import Fplinux.Mre.Paths

namespace FilesPaths

open Bytes (ascii)
open List (append_nil cons_append cons_ne_nil dropLast_subset flatMap_cons length_append
  length_cons mem_cons_self not_mem_nil)
open MrePaths (Ends IsName Names behind dot dots eInval ends_flatMap leaf leaf_render nameMax
  pathMax push push_render render render_concat slash splitOn_slash)

def eNameTooLong : ℕ := 36

def validName : Option (List UInt8) → Except ℕ (List UInt8)
  | none => .error eInval
  | some name =>
    if name = [] ∨ slash ∈ name ∨ name = dot ∨ name = dots then .error eInval
    else if name.length > nameMax then .error eNameTooLong
    else .ok name

/-! ### `normalize_path` -/

theorem rest_length (b : UInt8) (path : List UInt8) (hb : b ≠ slash) :
    ((b :: path).dropWhile (· ≠ slash)).length < (b :: path).length := by
  have hstep : (b :: path).dropWhile (· ≠ slash) = path.dropWhile (· ≠ slash) :=
    List.dropWhile_cons_of_pos (by simpa using hb)
  rw [hstep]
  exact Nat.lt_succ_of_le (List.dropWhile_suffix _).length_le

/-- The loop of `normalize_path`. -/
def normalizeLoop (normalized : List UInt8) : List UInt8 → Except ℕ (List UInt8)
  | [] => .ok normalized
  | b :: path =>
    if b = slash then normalizeLoop normalized path
    else
      let component := (b :: path).takeWhile (· ≠ slash)
      if component = dot ∨ component = dots then .error eInval
      else if component.length > nameMax then .error eNameTooLong
      else normalizeLoop (push normalized component) ((b :: path).dropWhile (· ≠ slash))
termination_by path => path.length
decreasing_by
  · exact Nat.lt_succ_self _
  · exact rest_length b path ‹_›

/-- `normalize_path`: the normal form, or an errno. -/
def normalizePath : Option (List UInt8) → Except ℕ (List UInt8)
  | none => .error eInval
  | some path =>
    if path.head? ≠ some slash then .error eInval
    else if path.length ≥ pathMax then .error eNameTooLong
    else normalizeLoop [slash] path.tail

/-! ### The functions on memory -/

/-- The string at an address. -/
def text (memory : List UInt8) (address : ℕ) : List UInt8 :=
  (memory.drop address).takeWhile (· ≠ 0)

/-- `memmove` of a string with its terminator to an address. -/
def store (memory : List UInt8) (address : ℕ) (string : List UInt8) : List UInt8 :=
  memory.take address ++ (string ++ [0] ++ memory.drop (address + (string.length + 1)))

/-- `fplinux_files_child_path`: the memory behind the call, or an errno. -/
def childPath (memory : List UInt8) (parent name out : Option ℕ) (capacity : ℕ) :
    Except ℕ (List UInt8) :=
  match out with
  | none => .error eInval
  | some out =>
    match validName (name.map (text memory)) with
    | .error error => .error error
    | .ok name =>
      match normalizePath (parent.map (text memory)) with
      | .error error => .error error
      | .ok normalized =>
        let separator := if normalized.length = 1 then 0 else 1
        let required := normalized.length + separator + name.length + 1
        if required > capacity ∨ required > pathMax then .error eNameTooLong
        else
          .ok (store memory out
            ((if separator ≠ 0 then normalized ++ [slash] else normalized) ++ name))

/-- What is left when the text is cut at its last slash; the root keeps it. -/
def cutLast (normalized : List UInt8) : List UInt8 :=
  let separator := normalized.length - (leaf normalized).length - 1
  normalized.take (if separator = 0 then 1 else separator)

/-- `fplinux_files_parent_path`: the memory behind the call, or an errno. -/
def parentPath (memory : List UInt8) (path out : Option ℕ) (capacity : ℕ) :
    Except ℕ (List UInt8) :=
  match out with
  | none => .error eInval
  | some out =>
    match normalizePath (path.map (text memory)) with
    | .error error => .error error
    | .ok normalized =>
      let parent := cutLast normalized
      if parent.length + 1 > capacity then .error eNameTooLong
      else .ok (store memory out parent)

/-- The parent is taken again and again, each time in the buffer itself. -/
def parents (address capacity : ℕ) : ℕ → List UInt8 → Except ℕ (List UInt8)
  | 0, memory => .ok memory
  | steps + 1, memory =>
    match parentPath memory (some address) (some address) capacity with
    | .error error => .error error
    | .ok memory => parents address capacity steps memory

/-! ### Components -/

/-- The components of a path: what stands between its slashes and is not empty. -/
def components (path : List UInt8) : List (List UInt8) :=
  (path.splitOn slash).filter (· ≠ [])

/-- A component that is accepted. -/
structure Fits (name : List UInt8) : Prop where
  ne_dot : name ≠ dot
  ne_dots : name ≠ dots
  length_le : name.length ≤ nameMax

def Accepts (path : List UInt8) : Prop := ∀ name ∈ components path, Fits name

/-- An absolute path whose components are names: none is empty, so that no slash follows
another or stands at the end, and none is `.` or `..`. -/
def Canonical (path : List UInt8) : Prop :=
  path = [slash] ∨ ∃ rest, path = slash :: rest ∧ ∀ name ∈ rest.splitOn slash, IsName name

section Components

variable {path name rest : List UInt8} {names : List (List UInt8)}

@[simp] theorem components_nil : components [] = [] := rfl

@[simp] theorem components_slash (path : List UInt8) :
    components (slash :: path) = components path := by
  rw [components, splitOn_slash, List.filter_cons_of_neg (by simp)]
  rfl

theorem components_name (hname : name ≠ []) (hslash : slash ∉ name)
    (hrest : Ends rest) : components (name ++ rest) = name :: components rest := by
  rcases hrest with rfl | ⟨more, rfl⟩
  · rw [components, append_nil, List.splitOn_eq_singleton hslash,
      List.filter_cons_of_pos (by simpa using hname)]
    rfl
  · rw [components_slash, components, List.splitOn_append_cons_self_of_not_mem hslash,
      List.filter_cons_of_pos (by simpa using hname)]
    rfl

theorem split_at_slash {b : UInt8} (hb : b ≠ slash) (path : List UInt8) :
    (b :: path).takeWhile (· ≠ slash) ≠ [] ∧
    slash ∉ (b :: path).takeWhile (· ≠ slash) ∧
    Ends ((b :: path).dropWhile (· ≠ slash)) := by
  have hdrop : (b :: path).dropWhile (· = slash) = b :: path :=
    List.dropWhile_cons_of_neg (by simpa using hb)
  have hslash := MrePaths.component_no_slash (b :: path)
  have hends := MrePaths.ends_behind (b :: path)
  rw [MrePaths.component, hdrop] at hslash
  rw [behind, hdrop] at hends
  refine ⟨?_, hslash, hends⟩
  rw [List.takeWhile_cons_of_pos (by simpa using hb)]
  exact cons_ne_nil _ _

/-- **Induction along a path**: a slash, or a component up to the next slash. -/
theorem path_induction {motive : List UInt8 → Prop} (nil : motive [])
    (cons_slash : ∀ path, motive path → motive (slash :: path))
    (name : ∀ name rest, name ≠ [] → slash ∉ name → Ends rest → motive rest →
      motive (name ++ rest)) : ∀ path, motive path := by
  intro path
  induction hn : path.length using Nat.strongRecOn generalizing path with
  | ind n ih =>
    cases path with
    | nil => exact nil
    | cons b path =>
      by_cases hb : b = slash
      · subst hb
        exact cons_slash path (ih _ (hn ▸ Nat.lt_succ_self _) path rfl)
      · obtain ⟨hname, hslash, hends⟩ := split_at_slash hb path
        have hrest := ih _ (hn ▸ rest_length b path hb) _ rfl
        have happend : (b :: path).takeWhile (· ≠ slash) ++ (b :: path).dropWhile (· ≠ slash) =
            b :: path := List.takeWhile_append_dropWhile
        rw [← happend]
        exact name _ _ hname hslash hends hrest

theorem mem_components (path : List UInt8) :
    ∀ name ∈ components path, name ≠ [] ∧ slash ∉ name ∧ ∀ b ∈ name, b ∈ path := by
  induction path using path_induction with
  | nil => exact fun name hmem => absurd hmem not_mem_nil
  | cons_slash path ih =>
    intro name hmem
    rw [components_slash] at hmem
    obtain ⟨hname, hslash, hbytes⟩ := ih name hmem
    exact ⟨hname, hslash, fun b hb => List.mem_cons_of_mem _ (hbytes b hb)⟩
  | name name rest hname hslash hends ih =>
    intro other hmem
    rw [components_name hname hslash hends] at hmem
    rcases List.mem_cons.mp hmem with rfl | hmem
    · exact ⟨hname, hslash, fun b hb => List.mem_append_left _ hb⟩
    · obtain ⟨hother, hsep, hbytes⟩ := ih other hmem
      exact ⟨hother, hsep, fun b hb => List.mem_append_right _ (hbytes b hb)⟩

theorem names_components (h : Accepts path) : Names (components path) := by
  intro name hmem
  obtain ⟨hname, hslash, -⟩ := mem_components path name hmem
  exact ⟨hname, (h name hmem).ne_dot, (h name hmem).ne_dots, hslash⟩

theorem components_flatMap (h : Names names) : components (names.flatMap (slash :: ·)) = names := by
  induction names with
  | nil => rfl
  | cons name names ih =>
    have hname := h name mem_cons_self
    rw [flatMap_cons, cons_append, components_slash,
      components_name hname.nonempty hname.no_slash (ends_flatMap names),
      ih fun other hmem => h other (List.mem_cons_of_mem _ hmem)]

theorem components_render (h : Names names) : components (render names) = names := by
  rw [render]
  split
  · rename_i hnil
    rw [hnil]
    rfl
  · exact components_flatMap h

theorem length_components (path : List UInt8) :
    ((components path).flatMap (slash :: ·)).length ≤ path.length + 1 ∧
      (Ends path → ((components path).flatMap (slash :: ·)).length ≤ path.length) := by
  induction path using path_induction with
  | nil => exact ⟨Nat.zero_le _, fun _ => Nat.le_refl _⟩
  | cons_slash path ih =>
    rw [components_slash]
    exact ⟨Nat.le_succ_of_le ih.1, fun _ => ih.1⟩
  | name name rest hname hslash hends ih =>
    have hrest := ih.2 hends
    rw [components_name hname hslash hends, flatMap_cons, length_append,
      length_append, length_cons]
    refine ⟨by omega, fun hcontra => ?_⟩
    -- A path that begins with a name does not begin with a slash.
    obtain ⟨b, name, rfl⟩ := List.exists_cons_of_ne_nil hname
    rcases hcontra with hnil | ⟨more, hmore⟩
    · exact absurd hnil (cons_ne_nil _ _)
    · exact absurd (List.cons.inj hmore).1 fun hb => hslash (hb ▸ mem_cons_self)

end Components

/-! ### What is accepted -/

section Normal

variable {path result : List UInt8} {stack names : List (List UInt8)}

/-- **The loop** puts every component behind those it has. -/
theorem normalizeLoop_eq_ok_iff : ∀ path : List UInt8, ∀ {stack : List (List UInt8)}, Names stack →
    (normalizeLoop (render stack) path = .ok result ↔
      Accepts path ∧ result = render (stack ++ components path)) := by
  intro path
  induction hn : path.length using Nat.strongRecOn generalizing path with
  | ind n ih =>
    intro stack h
    cases path with
    | nil =>
      rw [normalizeLoop, Except.ok.injEq, components_nil, append_nil, eq_comm]
      exact ⟨fun heq => ⟨fun name hmem => absurd hmem not_mem_nil, heq⟩, fun heq => heq.2⟩
    | cons b path =>
      by_cases hb : b = slash
      · subst hb
        rw [normalizeLoop, if_pos rfl, ih _ (hn ▸ Nat.lt_succ_self _) path rfl h, Accepts, Accepts,
          components_slash]
      · obtain ⟨hname, hslash, hends⟩ := split_at_slash hb path
        have happend : (b :: path).takeWhile (· ≠ slash) ++ (b :: path).dropWhile (· ≠ slash) =
            b :: path := List.takeWhile_append_dropWhile
        have hcomponents := components_name hname hslash hends
        have hrest := fun {next : List (List UInt8)} (hnext : Names next) =>
          ih _ (hn ▸ rest_length b path hb) _ rfl hnext
        rw [happend] at hcomponents
        rw [normalizeLoop, if_neg hb, Accepts, hcomponents, List.forall_mem_cons]
        generalize (b :: path).takeWhile (· ≠ slash) = name at hname hslash ⊢
        generalize (b :: path).dropWhile (· ≠ slash) = rest at hrest ⊢
        simp only []
        by_cases hdot : name = dot ∨ name = dots
        · rw [if_pos hdot]
          refine iff_of_false (fun heq => by cases heq) fun heq => ?_
          exact hdot.elim heq.1.1.ne_dot heq.1.1.ne_dots
        rw [if_neg hdot]
        by_cases hlong : name.length > nameMax
        · rw [if_pos hlong]
          exact iff_of_false (fun heq => by cases heq) fun heq =>
            absurd hlong (Nat.not_lt.mpr heq.1.1.length_le)
        · rw [not_or] at hdot
          have hkeep : IsName name := ⟨hname, hdot.1, hdot.2, hslash⟩
          have hstack : Names (stack ++ [name]) := by
            intro other hmem
            rcases List.mem_append.mp hmem with hmem | hmem
            · exact h other hmem
            · rw [List.mem_singleton.mp hmem]
              exact hkeep
          have hfits : Fits name := ⟨hdot.1, hdot.2, Nat.not_lt.mp hlong⟩
          rw [if_neg hlong, push_render h, hrest hstack, List.append_assoc]
          exact ⟨fun heq => ⟨⟨hfits, heq.1⟩, heq.2⟩, fun heq => ⟨heq.1.2, heq.2⟩⟩

/-- **What is accepted** is absolute and fits; its normal form is its components. -/
theorem normalizePath_eq_ok_iff (path : Option (List UInt8)) (result : List UInt8) :
    normalizePath path = .ok result ↔
      ∃ string, path = some string ∧
        (string.head? = some slash ∧ string.length < pathMax ∧ Accepts string) ∧
        result = render (components string) := by
  cases path with
  | none => exact iff_of_false (fun heq => by cases heq) fun ⟨_, hsome, _⟩ => by cases hsome
  | some path =>
    have hunique : ∀ P : List UInt8 → Prop, (∃ string, some path = some string ∧ P string) ↔
        P path := fun P =>
      ⟨fun ⟨string, hsome, hP⟩ => Option.some.inj hsome ▸ hP, fun hP => ⟨path, rfl, hP⟩⟩
    rw [hunique, normalizePath]
    by_cases hhead : path.head? = some slash
    · obtain ⟨more, rfl⟩ := List.head?_eq_some_iff.mp hhead
      have hloop := @normalizeLoop_eq_ok_iff result more [] fun _ hmem =>
        absurd hmem not_mem_nil
      rw [if_neg (not_not.mpr hhead)]
      by_cases hlong : (slash :: more).length ≥ pathMax
      · rw [if_pos hlong]
        exact iff_of_false (fun heq => by cases heq) fun heq =>
          absurd hlong (Nat.not_le.mpr heq.1.2.1)
      · rw [if_neg hlong, Accepts, components_slash]
        refine hloop.trans ⟨fun heq => ⟨⟨rfl, Nat.not_le.mp hlong, heq.1⟩, heq.2⟩,
          fun heq => ⟨heq.1.2.2, heq.2⟩⟩
    · rw [if_pos hhead]
      exact iff_of_false (fun heq => by cases heq) fun heq => hhead heq.1.1

theorem normalizePath_length (h : normalizePath (some path) = .ok result) :
    result.length ≤ path.length := by
  obtain ⟨_, hsame, ⟨hhead, -, -⟩, rfl⟩ := (normalizePath_eq_ok_iff _ _).mp h
  obtain rfl := Option.some.inj hsame
  obtain ⟨more, rfl⟩ := List.head?_eq_some_iff.mp hhead
  have hle := (length_components more).1
  rw [components_slash, render]
  split
  · exact Nat.succ_le_succ (Nat.zero_le _)
  · exact hle

theorem head?_render (names : List (List UInt8)) : (render names).head? = some slash := by
  rw [render]
  split
  · rfl
  · rename_i hne
    obtain ⟨name, names, rfl⟩ := List.exists_cons_of_ne_nil hne
    rfl

theorem normalizePath_render (h : normalizePath (some path) = .ok result) :
    Accepts path ∧ Names (components path) ∧ result = render (components path) ∧
      components result = components path ∧ result.length < pathMax := by
  have hlength := normalizePath_length h
  obtain ⟨_, hsame, ⟨-, hlong, haccepts⟩, rfl⟩ := (normalizePath_eq_ok_iff _ _).mp h
  obtain rfl := Option.some.inj hsame
  exact ⟨haccepts, (names_components haccepts), rfl, components_render (names_components haccepts),
    Nat.lt_of_le_of_lt hlength hlong⟩

theorem normalizePath_names (h : Names names) (hfits : ∀ name ∈ names, name.length ≤ nameMax)
    (hlong : (render names).length < pathMax) :
    normalizePath (some (render names)) = .ok (render names) := by
  refine (normalizePath_eq_ok_iff _ _).mpr ⟨_, rfl, ⟨head?_render names, hlong, ?_⟩, ?_⟩
  · intro name hmem
    rw [components_render h] at hmem
    exact ⟨(h name hmem).ne_dot, (h name hmem).ne_dots, hfits name hmem⟩
  · rw [components_render h]

/-- **Normal forms are kept.** -/
theorem normalizePath_idem (h : normalizePath (some path) = .ok result) :
    normalizePath (some result) = .ok result := by
  obtain ⟨haccepts, hnames, rfl, -, hlong⟩ := normalizePath_render h
  exact normalizePath_names hnames (fun name hmem => (haccepts name hmem).length_le) hlong

end Normal

/-! ### The form of the results -/

section Form

variable {path result : List UInt8} {names : List (List UInt8)}

theorem splitOn_flatMap (h : Names names) :
    (names.flatMap (slash :: ·)).splitOn slash = [] :: names := by
  induction names with
  | nil => rfl
  | cons name names ih =>
    have hname := (h name mem_cons_self).no_slash
    have hrest := ih fun other hmem => h other (List.mem_cons_of_mem _ hmem)
    rw [flatMap_cons, cons_append, splitOn_slash]
    rcases ends_flatMap names with hnil | ⟨more, hmore⟩
    · rw [hnil] at hrest ⊢
      rw [append_nil, List.splitOn_eq_singleton hname, ← (List.cons.inj hrest).2]
    · rw [hmore, splitOn_slash] at hrest
      rw [hmore, List.splitOn_append_cons_self_of_not_mem hname, (List.cons.inj hrest).2]

theorem canonical_render (h : Names names) : Canonical (render names) := by
  cases names with
  | nil => exact .inl rfl
  | cons name names =>
    have hsplit := splitOn_flatMap h
    rw [flatMap_cons, cons_append, splitOn_slash] at hsplit
    refine .inr ⟨name ++ names.flatMap (slash :: ·), ?_, ?_⟩
    · rw [render, if_neg (cons_ne_nil _ _), flatMap_cons, cons_append]
    · rw [(List.cons.inj hsplit).2]
      exact h

/-- **The results are canonical.** -/
theorem normalizePath_canonical (h : normalizePath (some path) = .ok result) :
    Canonical result := by
  obtain ⟨-, hnames, rfl, -, -⟩ := normalizePath_render h
  exact canonical_render hnames

theorem render_eq_root_iff (h : Names names) : render names = [slash] ↔ names = [] := by
  constructor
  · intro hroot
    rw [← components_render h, hroot]
    rfl
  · intro hnil
    rw [hnil]
    rfl

theorem cutLast_render (h : Names names) : cutLast (render names) = render names.dropLast := by
  rcases List.eq_nil_or_concat names with rfl | ⟨front, name, rfl⟩
  · decide
  · rw [List.concat_eq_append] at h ⊢
    have hlength : (render (front ++ [name])).length - name.length - 1 =
        (front.flatMap (slash :: ·)).length := by
      rw [render_concat, length_append, length_cons]
      omega
    rw [cutLast, leaf_render h, List.getLast?_concat, Option.getD_some, hlength,
      List.dropLast_concat, render_concat]
    cases front with
    | nil => rfl
    | cons other front =>
      have hne : ((other :: front).flatMap (slash :: ·)).length ≠ 0 := by
        rw [flatMap_cons, cons_append, length_cons]
        exact Nat.succ_ne_zero _
      rw [if_neg hne, List.take_left, render, if_neg (cons_ne_nil _ _)]

theorem length_dropLast (names : List (List UInt8)) :
    (render names.dropLast).length ≤ (render names).length := by
  rcases List.eq_nil_or_concat names with rfl | ⟨front, name, rfl⟩
  · exact Nat.le_refl _
  · rw [List.concat_eq_append, List.dropLast_concat, render_concat, length_append,
      length_cons, render]
    split
    · rw [List.length_singleton]
      omega
    · omega

theorem zero_not_mem_text (memory : List UInt8) (address : ℕ) : 0 ∉ text memory address := by
  intro hmem
  have hne := List.mem_takeWhile_imp hmem
  simp at hne

theorem zero_not_mem_render (h : ∀ name ∈ names, (0 : UInt8) ∉ name) : 0 ∉ render names := by
  rw [render]
  split
  · decide
  · intro hmem
    obtain ⟨name, hname, hzero⟩ := List.mem_flatMap.mp hmem
    rcases List.mem_cons.mp hzero with hslash | hzero
    · exact absurd hslash (by decide)
    · exact h name hname hzero

end Form

/-! ### Strings in memory -/

section Memory

variable {memory string : List UInt8} {address capacity : ℕ}

theorem text_store (hzero : 0 ∉ string) (haddress : address ≤ memory.length) :
    text (store memory address string) address = string := by
  have hpos : ∀ b ∈ string, decide (b ≠ 0) = true := fun b hb =>
    decide_eq_true fun hsame => hzero (hsame ▸ hb)
  rw [text, store, List.drop_left' (List.length_take_of_le haddress), List.append_assoc,
    List.takeWhile_append_of_pos hpos, List.singleton_append, List.takeWhile_cons_of_neg (by simp),
    append_nil]

theorem length_store (h : address + (string.length + 1) ≤ memory.length) :
    (store memory address string).length = memory.length := by
  simp only [store, length_append, List.length_take, List.length_drop, List.length_singleton]
  omega

end Memory

/-! ### One step down and one step up -/

section Steps

variable {memory p n : List UInt8} {parent name address out capacity : ℕ}

/-- The bytes a child's path needs with its terminator. -/
def required (p n : List UInt8) : ℕ := p.length + (if p.length = 1 then 0 else 1) + n.length + 1

theorem validName_eq_ok_iff (name result : List UInt8) :
    validName (some name) = .ok result ↔
      (IsName name ∧ name.length ≤ nameMax) ∧ result = name := by
  rw [validName]
  by_cases hbad : name = [] ∨ slash ∈ name ∨ name = dot ∨ name = dots
  · rw [if_pos hbad]
    refine iff_of_false (fun heq => by cases heq) fun heq => ?_
    obtain ⟨hnonempty, hdot, hdots, hslash⟩ := heq.1.1
    rcases hbad with h | h | h | h
    · exact hnonempty h
    · exact hslash h
    · exact hdot h
    · exact hdots h
  · rw [if_neg hbad]
    simp only [not_or] at hbad
    by_cases hlong : name.length > nameMax
    · rw [if_pos hlong]
      exact iff_of_false (fun heq => by cases heq) fun heq =>
        absurd hlong (Nat.not_lt.mpr heq.1.2)
    · rw [if_neg hlong, Except.ok.injEq, eq_comm]
      have hname : IsName name := ⟨hbad.1, hbad.2.2.1, hbad.2.2.2, hbad.2.1⟩
      exact ⟨fun heq => ⟨⟨hname, Nat.not_lt.mp hlong⟩, heq⟩, fun heq => heq.2⟩

/-- **One step down** stores the folder's components with the name behind them. -/
theorem childPath_eq (hparent : normalizePath (some (text memory parent)) = .ok p)
    (hname : validName (some (text memory name)) = .ok n) (hroom : required p n ≤ capacity)
    (hlong : required p n ≤ pathMax) :
    childPath memory (some parent) (some name) (some out) capacity =
      .ok (store memory out (render (components p ++ [n]))) := by
  obtain ⟨-, hnames, hrender, hsame, -⟩ := normalizePath_render hparent
  have hpush := push_render hnames n
  rw [← hrender, ← hsame, push] at hpush
  have hpos : 0 < p.length := by
    have hhead := head?_render (components (text memory parent))
    rw [← hrender] at hhead
    exact List.length_pos_of_ne_nil fun hnil => by rw [hnil] at hhead; cases hhead
  rw [← hpush]
  simp only [childPath, Option.map_some, hname, hparent]
  rw [required] at hroom hlong
  rw [if_neg (not_or.mpr ⟨Nat.not_lt.mpr hroom, Nat.not_lt.mpr hlong⟩)]
  by_cases hone : p.length = 1
  · rw [if_pos hone, if_neg (not_not.mpr rfl), if_neg (by omega)]
  · rw [if_neg hone, if_pos Nat.one_ne_zero, if_pos (by omega)]

theorem length_child {names : List (List UInt8)} (h : Names names) (n : List UInt8) :
    (render (names ++ [n])).length + 1 = required (render names) n := by
  rw [required, render_concat, length_append, length_cons]
  cases names with
  | nil =>
    show 0 + (n.length + 1) + 1 = 1 + 0 + n.length + 1
    omega
  | cons other names =>
    have hpos := List.length_pos_of_ne_nil (h other mem_cons_self).nonempty
    have hlong : (render (other :: names)).length =
        ((other :: names).flatMap (slash :: ·)).length := by
      rw [render, if_neg (cons_ne_nil _ _)]
    have hmany : (render (other :: names)).length ≠ 1 := by
      rw [hlong, flatMap_cons, length_append, length_cons]
      omega
    rw [if_neg hmany, hlong]
    omega

/-- **One step up** stores the components without the last one. -/
theorem parentPath_eq (hpath : normalizePath (some (text memory address)) = .ok p)
    (hroom : (render (components p).dropLast).length < capacity) :
    parentPath memory (some address) (some out) capacity =
      .ok (store memory out (render (components p).dropLast)) := by
  obtain ⟨-, hnames, hrender, hsame, -⟩ := normalizePath_render hpath
  rw [← hsame] at hnames hrender
  have hcut := cutLast_render hnames
  rw [← hrender] at hcut
  simp only [parentPath, Option.map_some, hpath, hcut]
  rw [if_neg (by omega)]

end Steps

/-! ### Up to the root -/

section Root

variable {memory p : List UInt8} {address capacity : ℕ}

/-- A normal form in memory, with room for it. -/
structure Stands (memory : List UInt8) (address capacity : ℕ) (p : List UInt8) : Prop where
  normal : normalizePath (some (text memory address)) = .ok p
  fits : p.length < capacity
  inside : address + capacity ≤ memory.length

theorem Stands.parent (h : Stands memory address capacity p) :
    ∃ above, parentPath memory (some address) (some address) capacity = .ok above ∧
      text above address = render (components p).dropLast ∧
      Stands above address capacity (render (components p).dropLast) := by
  obtain ⟨haccepts, hnames, hrender, hsame, hlong⟩ := normalizePath_render h.normal
  have hle := length_dropLast (components p)
  have hfits := h.fits
  rw [hsame, ← hrender] at hle
  have hstep : parentPath memory (some address) (some address) capacity =
      .ok (store memory address (render (components p).dropLast)) :=
    parentPath_eq h.normal (by
      rw [hsame]
      omega)
  rw [hsame] at hstep ⊢
  have hinside := h.inside
  have hupper : Names (components (text memory address)).dropLast := fun name hmem =>
    hnames name (dropLast_subset _ hmem)
  have hzero : 0 ∉ render (components (text memory address)).dropLast :=
    zero_not_mem_render fun name hmem hzero =>
      zero_not_mem_text memory address
        ((mem_components _ name (dropLast_subset _ hmem)).2.2 0 hzero)
  have htext := @text_store memory _ address hzero (by omega)
  refine ⟨_, hstep, htext, ?_, by omega, ?_⟩
  · rw [htext]
    exact normalizePath_names hupper
      (fun name hmem => (haccepts name (dropLast_subset _ hmem)).length_le) (by omega)
  · rw [length_store (by omega)]
    exact hinside

/-- **The way up**: after `steps` steps as many components are gone. -/
theorem Stands.parents (steps : ℕ) : ∀ {memory p : List UInt8},
    Stands memory address capacity p →
    ∃ above, parents address capacity steps memory = .ok above ∧
      (0 < steps → text above address =
        render ((components p).take ((components p).length - steps))) ∧
      Stands above address capacity
        (render ((components p).take ((components p).length - steps))) := by
  induction steps with
  | zero =>
    intro memory p h
    obtain ⟨-, -, hrender, hsame, -⟩ := normalizePath_render h.normal
    rw [Nat.sub_zero, List.take_length, hsame, ← hrender]
    exact ⟨memory, rfl, fun hpos => absurd hpos (Nat.lt_irrefl 0), h⟩
  | succ steps ih =>
    intro memory p h
    obtain ⟨-, hnames, -, hsame, -⟩ := normalizePath_render h.normal
    obtain ⟨middle, hmiddle, htext, hstands⟩ := h.parent
    obtain ⟨above, habove, hmore, hlast⟩ := ih hstands
    have hupper : Names (components p).dropLast := fun name hmem =>
      hnames name (hsame ▸ dropLast_subset _ hmem)
    have hcount : (components p).dropLast.length - steps =
        (components p).length - (steps + 1) := by
      rw [List.length_dropLast]
      omega
    have htake : (components p).dropLast.take ((components p).length - (steps + 1)) =
        (components p).take ((components p).length - (steps + 1)) := by
      rw [List.dropLast_eq_take, List.take_take, Nat.min_eq_left (by omega)]
    rw [components_render hupper, hcount, htake] at hmore hlast
    refine ⟨above, ?_, fun _ => ?_, hlast⟩
    · rw [FilesPaths.parents, hmiddle]
      exact habove
    · cases steps with
      | zero =>
        obtain rfl := Except.ok.inj (show Except.ok middle = .ok above from habove)
        rw [htext, List.dropLast_eq_take]
      | succ steps => exact hmore (Nat.succ_pos steps)

end Root

/-- **Up and down.**  What `normalize_path` accepts becomes a canonical path that it keeps.  For
a parent that is accepted and a valid name that fit, the child's path is the parent's components
with the name as the last one, and its parent is the normal form of the parent, wherever in
memory the strings stand and the results are put.  From an accepted path the way up loses one
component with each step, and is at the root as soon as it has made as many steps as there were
components. -/
theorem navigation (memory : List UInt8) (address capacity : ℕ) (p : List UInt8)
    (hpath : normalizePath (some (text memory address)) = .ok p) :
    Canonical p ∧
    normalizePath (some p) = .ok p ∧
    (∀ name out n, validName (some (text memory name)) = .ok n →
      required p n ≤ capacity → required p n ≤ pathMax → out + capacity ≤ memory.length →
      ∃ below, childPath memory (some address) (some name) (some out) capacity = .ok below ∧
        normalizePath (some (text below out)) = .ok (text below out) ∧
        components (text below out) = components p ++ [n] ∧
        n = text memory name ∧
        ∀ back room, p.length < room → back + room ≤ below.length →
          ∃ above, parentPath below (some out) (some back) room = .ok above ∧
            text above back = p) ∧
    (p.length < capacity → address + capacity ≤ memory.length → ∀ steps,
      ∃ above, parents address capacity steps memory = .ok above ∧
        (0 < steps → text above address =
          render ((components p).take ((components p).length - steps))) ∧
        (normalizePath (some (text above address)) = .ok [slash] ↔
          (components p).length ≤ steps)) := by
  obtain ⟨haccepts, hnames, hrender, hsame, hlong⟩ := normalizePath_render hpath
  refine ⟨normalizePath_canonical hpath, normalizePath_idem hpath, ?_, ?_⟩
  · intro name out n hname hroom hmax hinside
    have hstep : childPath memory (some address) (some name) (some out) capacity =
        .ok (store memory out (render (components p ++ [n]))) :=
      childPath_eq hpath hname hroom hmax
    obtain ⟨⟨hvalid, hshort⟩, hn⟩ := (validName_eq_ok_iff _ _).mp hname
    have hlength := length_child hnames n
    rw [hsame] at hstep ⊢
    rw [← hrender] at hlength
    rw [← hn] at hvalid hshort
    have hlower : Names (components (text memory address) ++ [n]) := by
      intro other hmem
      rcases List.mem_append.mp hmem with hmem | hmem
      · exact hnames other hmem
      · rw [List.mem_singleton.mp hmem]
        exact hvalid
    have hshorts : ∀ other ∈ components (text memory address) ++ [n],
        other.length ≤ nameMax := by
      intro other hmem
      rcases List.mem_append.mp hmem with hmem | hmem
      · exact (haccepts other hmem).length_le
      · rw [List.mem_singleton.mp hmem]
        exact hshort
    have hzeros : ∀ other ∈ components (text memory address), (0 : UInt8) ∉ other :=
      fun other hmem hzero =>
        zero_not_mem_text memory address ((mem_components _ other hmem).2.2 0 hzero)
    have hzero : 0 ∉ render (components (text memory address) ++ [n]) := by
      refine zero_not_mem_render fun other hmem => ?_
      rcases List.mem_append.mp hmem with hmem | hmem
      · exact hzeros other hmem
      · rw [List.mem_singleton.mp hmem, hn]
        exact zero_not_mem_text memory name
    have htext := @text_store memory _ out hzero (by omega)
    have hnormal := normalizePath_names hlower hshorts (by omega)
    refine ⟨_, hstep, ?_, ?_, hn, ?_⟩
    · rw [htext]
      exact hnormal
    · rw [htext]
      exact components_render hlower
    · intro back room hfits hback
      have hcomponents := components_render hlower
      have hup : render (components (render (components (text memory address) ++ [n]))).dropLast =
          p := by
        rw [hcomponents, List.dropLast_concat, ← hrender]
      nth_rewrite 1 [← htext] at hnormal
      have hparent : parentPath _ (some out) (some back) room = .ok (store _ back _) :=
        parentPath_eq hnormal (by rw [hup]; exact hfits)
      rw [hup] at hparent
      refine ⟨_, hparent, text_store ?_ (by omega)⟩
      rw [hrender]
      exact zero_not_mem_render hzeros
  · intro hfits hinside steps
    obtain ⟨above, habove, htext, hstands⟩ :=
      Stands.parents steps ⟨hpath, hfits, hinside⟩
    have htaken : Names ((components p).take ((components p).length - steps)) := fun name hmem =>
      hnames name (hsame ▸ List.mem_of_mem_take hmem)
    refine ⟨above, habove, htext, ?_⟩
    rw [hstands.normal, Except.ok.injEq, render_eq_root_iff htaken, List.take_eq_nil_iff,
      Nat.sub_eq_zero_iff_le]
    exact ⟨fun h => h.elim id fun hnil => hnil ▸ Nat.zero_le _, .inl⟩

/-- The folder `//home//a/`, the name `Files`, and room behind them. -/
def sampleMemory : List UInt8 :=
  ascii "//home//a/" ++ [0] ++ ascii "Files" ++ List.replicate 40 0

theorem sampleMemory_path :
    normalizePath (some (text sampleMemory 0)) = .ok (ascii "/home/a") := by
  have hcomponents : components (text sampleMemory 0) = [ascii "home", ascii "a"] := by
    decide
  refine (normalizePath_eq_ok_iff _ _).mpr ⟨_, rfl, ⟨by decide, by decide, ?_⟩, ?_⟩
  · have hfits : ∀ name ∈ components (text sampleMemory 0),
        name ≠ dot ∧ name ≠ dots ∧ name.length ≤ nameMax := by decide
    intro name hmem
    exact ⟨(hfits name hmem).1, (hfits name hmem).2.1, (hfits name hmem).2.2⟩
  · rw [hcomponents]
    decide

/-- Into `Files` in the buffer that names the folder, and two steps up from there. -/
theorem navigation_sample :
    Canonical (ascii "/home/a") ∧
    (∃ below, childPath sampleMemory (some 0) (some 11) (some 0) 40 = .ok below ∧
      components (text below 0) = [ascii "home", ascii "a", ascii "Files"]) ∧
    (∃ above, parents 0 40 2 sampleMemory = .ok above ∧ text above 0 = [slash]) := by
  obtain ⟨hcanonical, -, hdown, hup⟩ :=
    navigation sampleMemory 0 40 (ascii "/home/a") sampleMemory_path
  refine ⟨hcanonical, ?_, ?_⟩
  · obtain ⟨below, hbelow, -, hcomponents, -⟩ :=
      hdown 11 0 (ascii "Files") (by decide) (by decide) (by decide) (by decide)
    exact ⟨below, hbelow, hcomponents.trans (by decide)⟩
  · obtain ⟨above, habove, htext, -⟩ := hup (by decide) (by decide) 2
    exact ⟨above, habove, (htext (by decide)).trans (by decide)⟩

end FilesPaths
