/-
The directories above a directory (`fplinux-ui-prefs.c`).

A directory is named by a path, absolute or relative, with any number of slashes between and
after its components.  The directories above it are named by beginnings of that path:
`Ancestor path n` says that the first `n` bytes name one, written without trailing slashes.
Zero bytes stand for the working directory.

Main results:
- `ancestor_parentLength`, `le_parentLength`: `parentLength` finds the next directory above;
- `parentLength_lt`: it gets somewhere from every directory below the root;
- `parentLength_le`: of two directories on one path the shorter has the shorter parent.
-/
import Fplinux.Lib.Bytes

namespace PrefsPaths

open Bytes (byte)

def slash : UInt8 := byte '/'

/-- `while (length > 1 && path[length - 1] == '/') --length;` -/
def dropSlashes (path : List UInt8) : ℕ → ℕ
  | 0 => 0
  | 1 => 1
  | n + 2 => if path[n + 1]? = some slash then dropSlashes path (n + 1) else n + 2

/-- `while (length && path[length - 1] != '/') --length;` -/
def dropName (path : List UInt8) : ℕ → ℕ
  | 0 => 0
  | n + 1 => if path[n]? = some slash then n + 1 else dropName path n

/-- `parent_length`: zero denotes the current directory for a relative first component. -/
def parentLength (path : List UInt8) (length : ℕ) : ℕ :=
  dropSlashes path (dropName path (dropSlashes path length))

/-- The first `n` bytes are a path of their own: a slash or nothing follows. -/
def Boundary (path : List UInt8) (n : ℕ) : Prop :=
  0 < n ∧ n ≤ path.length ∧ (n = path.length ∨ path[n]? = some slash)

instance (path : List UInt8) (n : ℕ) : Decidable (Boundary path n) := by
  unfold Boundary
  infer_instance

/-- The first `n` bytes name a directory that the path leads through, or the path itself. -/
def Ancestor (path : List UInt8) : ℕ → Prop
  | 0 => path[0]? ≠ some slash
  | n + 1 => (n = 0 ∧ path[0]? = some slash) ∨ (path[n]? ≠ some slash ∧ Boundary path (n + 1))

/-- A component lies between the first `a` and the first `n` bytes. -/
def Above (path : List UInt8) (a n : ℕ) : Prop := ∃ k, a ≤ k ∧ k < n ∧ path[k]? ≠ some slash

/-! ### The three loops -/

/-- What is left after slashes were dropped. -/
structure Trimmed (path : List UInt8) (n m : ℕ) : Prop where
  le : m ≤ n
  pos : 0 < n → 0 < m
  slashes : ∀ k, m ≤ k → k < n → path[k]? = some slash
  last : ∀ k, m = k + 1 → 0 < k → path[k]? ≠ some slash

theorem dropSlashes_spec (path : List UInt8) (n : ℕ) : Trimmed path n (dropSlashes path n) := by
  induction n using dropSlashes.induct path with
  | case1 =>
    rw [dropSlashes]
    exact ⟨Nat.le_refl _, id, fun k _ hlt => absurd hlt (by omega), fun k h _ => by omega⟩
  | case2 =>
    rw [dropSlashes]
    exact ⟨Nat.le_refl _, id, fun k _ _ => by omega, fun k h hk => by omega⟩
  | case3 n hslash ih =>
    rw [dropSlashes, if_pos hslash]
    refine ⟨Nat.le_succ_of_le ih.le, fun _ => ih.pos (by omega), ?_, ih.last⟩
    intro k hle hlt
    -- the byte that goes, or one that went after it
    by_cases hk : k = n + 1
    · rw [hk]
      exact hslash
    · exact ih.slashes k hle (by omega)
  | case4 n hslash =>
    rw [dropSlashes, if_neg hslash]
    refine ⟨Nat.le_refl _, id, fun k _ _ => by omega, ?_⟩
    intro k hk _
    obtain rfl : k = n + 1 := by omega
    exact hslash

/-- What is left after a name was dropped. -/
structure Unnamed (path : List UInt8) (n m : ℕ) : Prop where
  le : m ≤ n
  name : ∀ k, m ≤ k → k < n → path[k]? ≠ some slash
  last : ∀ k, m = k + 1 → path[k]? = some slash

theorem dropName_spec (path : List UInt8) (n : ℕ) : Unnamed path n (dropName path n) := by
  induction n with
  | zero => exact ⟨Nat.le_refl _, fun k _ _ => by omega, fun k h => by simp [dropName] at h⟩
  | succ n ih =>
    rw [dropName]
    split
    · rename_i hslash
      refine ⟨Nat.le_refl _, fun k _ _ => by omega, ?_⟩
      intro k hk
      obtain rfl : k = n := by omega
      exact hslash
    · rename_i hslash
      refine ⟨Nat.le_succ_of_le ih.le, ?_, ih.last⟩
      intro k hle hlt
      by_cases hk : k = n
      · rw [hk]
        exact hslash
      · exact ih.name k hle (by omega)

/-! ### The next directory above -/

variable {path : List UInt8} {a b n : ℕ}

theorem Ancestor.le (h : Ancestor path n) : n ≤ path.length := by
  cases n with
  | zero => exact Nat.zero_le _
  | succ n =>
    rcases h with ⟨rfl, hroot⟩ | ⟨-, hbound⟩
    · have hlt := (List.getElem?_eq_some_iff.mp hroot).1
      omega
    · exact hbound.2.1

theorem Ancestor.last (h : Ancestor path (n + 1)) (hslash : path[n]? = some slash) : n = 0 := by
  rcases h with ⟨hn, -⟩ | ⟨hne, -⟩
  · exact hn
  · exact absurd hslash hne

theorem Ancestor.next (h : Ancestor path n) (hpos : 0 < n) (hlt : n < path.length)
    (hname : path[n]? ≠ some slash) : n = 1 ∧ path[0]? = some slash := by
  cases n with
  | zero => exact absurd hpos (Nat.lt_irrefl 0)
  | succ n =>
    rcases h with ⟨rfl, hroot⟩ | ⟨-, hbound⟩
    · exact ⟨rfl, hroot⟩
    · rcases hbound.2.2 with heq | hslash
      · omega
      · exact absurd hslash hname

theorem Ancestor.one_le (h : Ancestor path n) (hroot : path[0]? = some slash) : 1 ≤ n := by
  cases n with
  | zero => exact absurd hroot h
  | succ n => omega

theorem boundary_dropSlashes (h : Boundary path n) : Ancestor path (dropSlashes path n) := by
  obtain ⟨hle, hpos, hslashes, hlast⟩ := dropSlashes_spec path n
  generalize hm : dropSlashes path n = m at hle hpos hslashes hlast
  cases m with
  | zero => exact absurd (hpos h.1) (Nat.lt_irrefl 0)
  | succ m =>
    by_cases hslash : path[m]? = some slash
    · by_cases h0 : m = 0
      · subst h0
        exact .inl ⟨rfl, hslash⟩
      · exact absurd hslash (hlast m rfl (by omega))
    · refine .inr ⟨hslash, by omega, Nat.le_trans hle h.2.1, ?_⟩
      by_cases heq : m + 1 = n
      · rw [heq]
        exact h.2.2
      · exact .inr (hslashes (m + 1) (Nat.le_refl _) (by omega))

/-- The two runs of slashes and the name between them. -/
theorem parentLength_spec (path : List UInt8) (n : ℕ) : ∃ m d,
    Trimmed path n m ∧ Unnamed path m d ∧ Trimmed path d (parentLength path n) :=
  ⟨_, _, dropSlashes_spec path n, dropName_spec path _, dropSlashes_spec path _⟩

/-- **The parent is a directory of the path.** -/
theorem ancestor_parentLength (h : Boundary path n) : Ancestor path (parentLength path n) := by
  obtain ⟨m, d, htrim, hname, hup⟩ := parentLength_spec path n
  have hfirst := htrim.pos h.1
  generalize parentLength path n = c at hup ⊢
  cases c with
  | zero =>
    -- all of the path was one name
    have hd : d = 0 := by
      by_contra hne
      exact absurd (hup.pos (by omega)) (Nat.lt_irrefl 0)
    subst hd
    exact hname.name 0 (Nat.le_refl _) hfirst
  | succ c =>
    by_cases hslash : path[c]? = some slash
    · by_cases h0 : c = 0
      · subst h0
        exact .inl ⟨rfl, hslash⟩
      · exact absurd hslash (hup.last c rfl (by omega))
    · -- a slash was dropped here, as the name began behind one
      have hlt : c + 1 ≠ d := by
        intro heq
        exact hslash (hname.last c heq.symm)
      have hle := hup.le
      have hnle := hname.le
      have htle := htrim.le
      have hn := h.2.1
      exact .inr ⟨hslash, by omega, by omega, .inr (hup.slashes (c + 1) (Nat.le_refl _) (by omega))⟩

/-- **No directory lies between one and its parent.** -/
theorem le_parentLength (hn : n ≤ path.length) (ha : Ancestor path a) (habove : Above path a n) :
    a ≤ parentLength path n := by
  obtain ⟨m, d, htrim, hname, hup⟩ := parentLength_spec path n
  obtain ⟨k, hak, hkn, hk⟩ := habove
  generalize parentLength path n = c at hup ⊢
  have hkm : k < m := by
    by_contra hge
    exact hk (htrim.slashes k (by omega) hkn)
  have hmn := htrim.le
  by_contra hlt
  by_cases had : a ≤ d
  · -- among the slashes only the root's is the end of a directory
    cases a with
    | zero => omega
    | succ a =>
      have h0 := ha.last (hup.slashes a (by omega) (by omega))
      have hpos := hup.pos (by omega)
      omega
  · -- within the name there is no end
    have hinside := hname.name a (by omega) (by omega)
    have hroot := (ha.next (by omega) (by omega) hinside).2
    have h1 := (ha.next (by omega) (by omega) hinside).1
    have hd : d = 0 := by omega
    exact hname.name 0 (by omega) (by omega) hroot

theorem parentLength_above (h : Boundary path n) :
    Above path (parentLength path n) n ∨ (parentLength path n = 1 ∧ path[0]? = some slash) := by
  obtain ⟨m, d, htrim, hname, hup⟩ := parentLength_spec path n
  have hfirst := htrim.pos h.1
  generalize parentLength path n = c at hup ⊢
  have hcd := hup.le
  have hdm := hname.le
  have hmn := htrim.le
  cases m with
  | zero => exact absurd hfirst (Nat.lt_irrefl 0)
  | succ m =>
    by_cases hslash : path[m]? = some slash
    · have h0 : m = 0 := by
        by_contra hne
        exact htrim.last m rfl (by omega) hslash
      subst h0
      -- a lone slash has no name to drop
      have hd : d = 1 := by
        by_contra hne
        exact hname.name 0 (by omega) (by omega) hslash
      subst hd
      have hpos := hup.pos (by omega)
      exact .inr ⟨by omega, hslash⟩
    · have hd : d ≠ m + 1 := fun heq => hslash (hname.last m heq)
      exact .inl ⟨m, by omega, by omega, hslash⟩

/-- **Directories on one path have their parents in order.**  What lies at or below every
directory above `n` lies at or below the parent of a beginning of `n`. -/
theorem parentLength_le {first : ℕ} (h : Boundary path first) (hle : first ≤ n)
    (ha : Ancestor path a) (hbelow : ∀ b, Ancestor path b → Above path b n → b ≤ a) :
    parentLength path first ≤ a := by
  rcases parentLength_above h with habove | ⟨hone, hroot⟩
  · obtain ⟨k, hk, hlt, hname⟩ := habove
    exact hbelow _ (ancestor_parentLength h) ⟨k, hk, by omega, hname⟩
  · rw [hone]
    exact ha.one_le hroot

/-! ### Walking up -/

theorem Ancestor.boundary (h : Ancestor path n) (hpos : 0 < n)
    (hroot : ¬ (n = 1 ∧ path[0]? = some slash)) : Boundary path n := by
  cases n with
  | zero => exact absurd hpos (Nat.lt_irrefl 0)
  | succ n =>
    rcases h with ⟨rfl, hslash⟩ | ⟨-, hbound⟩
    · exact absurd ⟨rfl, hslash⟩ hroot
    · exact hbound

theorem Ancestor.above (h : Ancestor path n) (hroot : ¬ (n = 1 ∧ path[0]? = some slash))
    (hlt : a < n) : Above path a n := by
  cases n with
  | zero => omega
  | succ n =>
    rcases h with ⟨rfl, hslash⟩ | ⟨hname, -⟩
    · exact absurd ⟨rfl, hslash⟩ hroot
    · exact ⟨n, by omega, by omega, hname⟩

/-- **From every directory below the root the walk gets somewhere.** -/
theorem parentLength_lt (h : Ancestor path n) (hpos : 0 < n)
    (hroot : ¬ (n = 1 ∧ path[0]? = some slash)) : parentLength path n < n := by
  rcases parentLength_above (h.boundary hpos hroot) with ⟨k, hk, hlt, -⟩ | ⟨hone, hslash⟩
  · omega
  · rw [hone]
    by_contra hge
    exact hroot ⟨by omega, hslash⟩

theorem le_dropSlashes (ha : Ancestor path a) (hpath : path ≠ []) :
    a ≤ dropSlashes path path.length := by
  have htrim := dropSlashes_spec path path.length
  have hlen := List.length_pos_iff.mpr hpath
  have hle := ha.le
  have hpos := htrim.pos hlen
  by_contra hlt
  cases a with
  | zero => omega
  | succ a =>
    have h0 := ha.last (htrim.slashes a (by omega) (by omega))
    omega

theorem boundary_length (hpath : path ≠ []) : Boundary path path.length :=
  ⟨List.length_pos_iff.mpr hpath, Nat.le_refl _, .inl rfl⟩

example : parentLength "a//b/".toUTF8.toList 5 = 1 ∧ parentLength "a//b/".toUTF8.toList 1 = 0 ∧
    parentLength "//a".toUTF8.toList 3 = 1 := by
  decide +kernel

end PrefsPaths
