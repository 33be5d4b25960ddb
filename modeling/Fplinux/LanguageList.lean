/-
The list of language codes (`fplinux_language_list`).

The directory is read once.  A code that loads is put among those found so far, in byte order,
from the end of the array on; once the array is full the last code drops out.  The array is the
caller's: what it holds past the codes found is not looked at.

Main results:
- `listEntry_lists`: what one entry of the directory does to the array;
- `codes_eq_list`: the array ends with the codes of `Language.list`;
- `list_sorted`: these are the first of all codes that load, whatever order `readdir` has.
-/
import Mathlib.Data.List.TakeWhile
import Fplinux.Lib.Least
import Fplinux.Language

namespace Language

open Bytes (ascii)

/-- The caller's array and the number of codes found. -/
structure Listing where
  codes : List (List UInt8)
  count : ℕ
  deriving DecidableEq, Repr

/-- The inner loop: moves the codes above `name` a place to the right, as far as the array goes,
and gives the place that is left. -/
def makeRoom (capacity : ℕ) (name : List UInt8) : ℕ → List (List UInt8) → ℕ × List (List UInt8)
  | 0, codes => (0, codes)
  | place + 1, codes =>
    match codes[place]? with
    | none => (place + 1, codes)
    | some last =>
      if name < last then
        makeRoom capacity name place
          (if place + 1 < capacity then codes.set (place + 1) last else codes)
      else (place + 1, codes)

/-- The body of the outer loop, for an entry whose file loads. -/
def listEntry (capacity : ℕ) (listing : Listing) (name : List UInt8) : Listing :=
  let place := if listing.count < capacity then listing.count else capacity
  let room := makeRoom capacity name place listing.codes
  { codes := if room.1 < capacity then room.2.set room.1 name else room.2
    count := listing.count + 1 }

/-- The entries of a directory that are codes and load, in the order of `readdir`. -/
def loadable (directory : Directory) : List (List UInt8) :=
  directory.entries.filter fun name => isCode name && (load directory name).isSome

/-- `fplinux_language_list`; `none` is a directory that cannot be opened.  The array has
`codes.length` places. -/
def languageList (directory : Option Directory) (codes : List (List UInt8)) : Listing :=
  match directory with
  | none => ⟨codes, 0⟩
  | some directory => (loadable directory).foldl (listEntry codes.length) ⟨codes, 0⟩

/-! ### One entry -/

/-- The order of `strcmp`. -/
abbrev Before (a b : List UInt8) : Prop := a ≤ b

theorem lt_iff_not_before (a b : List UInt8) : a < b ↔ ¬ Before b a := List.not_le.symm

variable {capacity : ℕ} {listing : Listing}

theorem set_makeRoom (name : List UInt8) {place : ℕ} {codes : List (List UInt8)}
    (hlen : codes.length = capacity) (hplace : place < capacity) :
    (makeRoom capacity name place codes).1 < capacity ∧
      (makeRoom capacity name place codes).2.set (makeRoom capacity name place codes).1 name =
        Insertion.place (fun a b => ¬ Before b a) name place codes := by
  induction place generalizing codes with
  | zero => exact ⟨hplace, rfl⟩
  | succ place ih =>
    have hget : codes[place]? = some codes[place] := List.getElem?_eq_getElem (by omega)
    rw [makeRoom, Insertion.place, hget]
    simp only
    by_cases h : name < codes[place]
    · have hset : (codes.set (place + 1) codes[place]).length = capacity := by
        rw [List.length_set, hlen]
      rw [if_pos h, if_pos hplace, if_pos ((lt_iff_not_before _ _).mp h)]
      exact ih hset (by omega)
    · rw [if_neg h, if_neg fun hle => h ((lt_iff_not_before _ _).mpr hle)]
      exact ⟨hplace, rfl⟩

theorem listEntry_codes (listing : Listing) (name : List UInt8) {place : ℕ}
    (h : (if listing.count < capacity then listing.count else capacity) = place) :
    (listEntry capacity listing name).codes =
      if (makeRoom capacity name place listing.codes).1 < capacity then
        (makeRoom capacity name place listing.codes).2.set
          (makeRoom capacity name place listing.codes).1 name
      else (makeRoom capacity name place listing.codes).2 := by
  subst h
  rfl

theorem listEntry_free (name : List UInt8) (hlen : listing.codes.length = capacity)
    (hfree : listing.count < capacity) :
    (listEntry capacity listing name).codes =
      Insertion.place (fun a b => ¬ Before b a) name listing.count listing.codes := by
  obtain ⟨hlt, hset⟩ := set_makeRoom name hlen hfree
  rw [listEntry_codes listing name (if_pos hfree), if_pos hlt, hset]

theorem listEntry_full (name : List UInt8) (hlen : listing.codes.length = capacity)
    (hfull : ¬ listing.count < capacity) (hsorted : listing.codes.Pairwise Before) :
    (listEntry capacity listing name).codes = Least.keep Before capacity listing.codes name := by
  rw [listEntry_codes listing name (if_neg hfull)]
  rcases List.eq_nil_or_concat' listing.codes with hnil | ⟨front, last, hcodes⟩
  · -- an array without places
    have hzero : capacity = 0 := by
      rw [← hlen, hnil, List.length_nil]
    subst hzero
    rw [if_neg (Nat.not_lt_zero _), Least.keep, List.take_zero]
    exact hnil
  · rw [hcodes] at hlen hsorted ⊢
    have hcapacity : capacity = front.length + 1 := by
      rw [← hlen, List.length_append, List.length_singleton]
    subst hcapacity
    rw [makeRoom, List.getElem?_concat_length]
    simp only
    by_cases hlt : name < last
    · obtain ⟨hroom, hset⟩ := set_makeRoom name hlen (Nat.lt_succ_self _)
      have hfront : (front ++ [last]).take front.length = front := List.take_left
      have hplace := @Least.take_place_eq _ Before _ _ _ _ name front.length (front ++ [last])
        (by omega) (hsorted.sublist (List.take_sublist _ _))
      rw [hfront, List.take_of_length_le (by rw [Insertion.length_place]; omega)] at hplace
      rw [if_pos hlt, if_neg (Nat.lt_irrefl _), if_pos hroom, hset, hplace,
        Least.keep_of_not_last Before hsorted ((lt_iff_not_before _ _).mp hlt)]
    · have hbefore : Before last name := not_not.mp fun hnot => hlt ((lt_iff_not_before _ _).mpr hnot)
      rw [if_neg hlt, if_neg (Nat.lt_irrefl _), Least.keep_of_last Before hsorted hbefore]

/-! ### The whole directory -/

/-- The array after some entries: the least of them in order, as many as it has places for. -/
structure Lists (capacity : ℕ) (names : List (List UInt8)) (listing : Listing) : Prop where
  length : listing.codes.length = capacity
  count : listing.count = names.length
  codes : listing.codes.take listing.count = (names.insertionSort Before).take capacity

/-- **What one entry of the directory does to the array.** -/
theorem listEntry_lists {names : List (List UInt8)} (h : Lists capacity names listing)
    (name : List UInt8) :
    Lists capacity (names ++ [name]) (listEntry capacity listing name) := by
  obtain ⟨hlen, hcount, hcodes⟩ := h
  have hsorted : (listing.codes.take listing.count).Pairwise Before := by
    rw [hcodes]
    exact (List.pairwise_insertionSort Before names).sublist (List.take_sublist _ _)
  -- the sorted codes with one more, cut before or after
  have hmore : ((names ++ [name]).insertionSort Before).take capacity =
      ((listing.codes.take listing.count).orderedInsert Before name).take capacity := by
    rw [hcodes, Least.take_orderedInsert_take, Least.orderedInsert_sorted]
  have hcount' : (listEntry capacity listing name).count = (names ++ [name]).length := by
    rw [List.length_append, List.length_singleton, ← hcount]
    rfl
  by_cases hfree : listing.count < capacity
  · have hentry := listEntry_free name hlen hfree
    have hplace := Least.take_place_eq Before (x := name) (by omega) hsorted
    constructor
    · rw [hentry, Insertion.length_place, hlen]
    · exact hcount'
    · show List.take (listing.count + 1) _ = _
      rw [hmore, hentry, hplace]
      refine (List.take_of_length_le ?_).symm
      rw [List.orderedInsert_length, List.length_take]
      omega
  · have hall : listing.codes.take listing.count = listing.codes :=
      List.take_of_length_le (by omega)
    rw [hall] at hsorted hmore
    have hentry := listEntry_full name hlen hfree hsorted
    have hlen' : (listEntry capacity listing name).codes.length = capacity := by
      rw [hentry, Least.keep, List.length_take, List.orderedInsert_length]
      omega
    constructor
    · exact hlen'
    · exact hcount'
    · show List.take (listing.count + 1) _ = _
      rw [List.take_of_length_le (by omega), hentry, hmore, Least.keep]

theorem languageList_lists (directory : Directory) (codes : List (List UInt8)) :
    Lists codes.length (loadable directory) (languageList (some directory) codes) := by
  have hfold : ∀ entries names listing, Lists codes.length names listing →
      Lists codes.length (names ++ entries) (entries.foldl (listEntry codes.length) listing) := by
    intro entries
    induction entries with
    | nil =>
      intro names listing h
      rwa [List.append_nil]
    | cons name entries ih =>
      intro names listing h
      have hrest := ih (names ++ [name]) _ (listEntry_lists h name)
      rwa [List.append_assoc] at hrest
  refine hfold (loadable directory) [] ⟨codes, 0⟩ ?_
  constructor
  · rfl
  · rfl
  · rw [List.take_zero, List.insertionSort_nil, List.take_nil]

/-- The codes that the caller finds in the array. -/
def Listing.listed (listing : Listing) : List (List UInt8) := listing.codes.take listing.count

theorem listed_languageList (directory : Directory) (codes : List (List UInt8)) :
    (languageList (some directory) codes).listed =
      ((loadable directory).insertionSort Before).take codes.length :=
  (languageList_lists directory codes).codes

theorem insertCode_eq {codes : List (List UInt8)} (capacity : ℕ) (code : List UInt8)
    (h : codes.Pairwise Before) :
    insertCode capacity codes code = Least.keep Before capacity codes code := by
  set after := codes.reverse.takeWhile (code < ·) with hafter
  set rest := codes.reverse.dropWhile (code < ·) with hrest
  have hsplit : codes = rest.reverse ++ after.reverse := by
    rw [← List.reverse_append, hafter, hrest, List.takeWhile_append_dropWhile, List.reverse_reverse]
  have hbefore : codes.take (codes.length - after.length) = rest.reverse := by
    have hlength : codes.length = rest.reverse.length + after.length := by
      rw [hsplit, List.length_append, @List.length_reverse _ after]
    rw [hlength, Nat.add_sub_cancel, hsplit, List.take_left]
  have habove : ∀ z ∈ after.reverse, Before code z := by
    intro z hz
    have hlt := List.mem_takeWhile_imp (List.mem_reverse.mp hz)
    exact List.le_of_lt (of_decide_eq_true hlt)
  obtain ⟨hsortedRest, hsortedAfter, hcross⟩ := List.pairwise_append.mp (hsplit ▸ h)
  -- the last code that is not above `code` bounds the others
  have hbelow : ∀ y ∈ rest.reverse, Before y code := by
    intro y hy
    cases hcase : rest with
    | nil =>
      rw [hcase] at hy
      cases hy
    | cons last others =>
      have hlast : Before last code := by
        have hhead := List.head_dropWhile_not (fun x => decide (code < x)) (l := codes.reverse)
          (by rw [← hrest, hcase]; exact List.cons_ne_nil _ _)
        simp only [← hrest, hcase, List.head_cons, decide_eq_false_iff_not] at hhead
        exact List.not_lt.mp hhead
      rw [hcase, List.reverse_cons] at hy hsortedRest
      rcases List.mem_append.mp hy with hothers | hy
      · have hle := (List.pairwise_append.mp hsortedRest).2.2 y hothers last (by simp)
        exact List.le_trans hle hlast
      · rwa [List.mem_singleton.mp hy]
  have hsorted : (rest.reverse ++ code :: after.reverse).Pairwise Before := by
    refine List.pairwise_append.mpr
      ⟨hsortedRest, List.pairwise_cons.mpr ⟨habove, hsortedAfter⟩, ?_⟩
    intro y hy z hz
    rcases List.mem_cons.mp hz with rfl | hz
    · exact hbelow y hy
    · exact hcross y hy z hz
  have hperm : (rest.reverse ++ code :: after.reverse).Perm (code :: codes) := by
    rw [hsplit]
    exact List.perm_middle
  show (codes.take (codes.length - after.length) ++ code :: after.reverse).take capacity = _
  rw [hbefore, Least.keep, Least.orderedInsert_eq Before h hsorted hperm]

/-- **The array ends with the codes of `Language.list`.** -/
theorem codes_eq_list (directory : Directory) (codes : List (List UInt8)) :
    (languageList (some directory) codes).listed = list directory codes.length := by
  have hloads : (directory.entries.filter fun name => (load directory name).isSome) =
      loadable directory := by
    refine List.filter_congr ?_
    intro name _
    rw [load]
    cases isCode name <;> simp
  have hfold : ∀ names kept : List (List UInt8), kept.Pairwise Before →
      names.foldl (insertCode codes.length) kept =
        names.foldl (Least.keep Before codes.length) kept := by
    intro names
    induction names with
    | nil =>
      intro kept _
      rfl
    | cons name names ih =>
      intro kept hkept
      rw [List.foldl_cons, List.foldl_cons, insertCode_eq _ _ hkept]
      exact ih _ ((hkept.orderedInsert name kept).sublist (List.take_sublist _ _))
  rw [listed_languageList, list, hloads, hfold _ [] List.Pairwise.nil, Least.foldl_keep]

/-- **The list does not depend on the order of the directory.**  The call returns the number of
codes that load, and leaves the first of them in byte order, as many as the array has places for,
sorted and without duplicates; any other order of the same entries, and any other content of the
array, gives the same. -/
theorem list_sorted (directory : Directory) (hset : directory.entries.Nodup)
    (codes : List (List UInt8)) :
    let listing := languageList (some directory) codes
    listing.count = (loadable directory).length ∧
      listing.listed = ((loadable directory).insertionSort Before).take codes.length ∧
      listing.listed.Pairwise Before ∧ listing.listed.Nodup ∧
      ∀ entries : List (List UInt8), entries.Perm directory.entries →
        ∀ codes' : List (List UInt8), codes'.length = codes.length →
          let other := languageList (some { directory with entries := entries }) codes'
          other.count = listing.count ∧ other.listed = listing.listed := by
  intro listing
  have hlisted := listed_languageList directory codes
  have hcount := (languageList_lists directory codes).count
  refine ⟨hcount, hlisted, ?_, ?_, ?_⟩
  · rw [hlisted]
    exact (List.pairwise_insertionSort Before _).sublist (List.take_sublist _ _)
  · rw [hlisted]
    have hnodup : (loadable directory).Nodup := hset.filter _
    exact ((List.perm_insertionSort Before _).nodup_iff.mpr hnodup).sublist (List.take_sublist _ _)
  · intro entries hperm codes' hlen other
    -- whether a name loads depends on the files alone
    have hloadable : (loadable { directory with entries := entries }).Perm (loadable directory) :=
      hperm.filter _
    constructor
    · rw [(languageList_lists { directory with entries := entries } codes').count, hcount]
      exact hloadable.length_eq
    · rw [listed_languageList, hlisted, Least.sorted_perm Before hloadable, hlen]

/-- A directory with two languages: their files need a name only. -/
def sampleDirectory : Directory where
  entries := [ascii "ru", ascii ".", ascii "de", ascii "broken"]
  file := fun name =>
    if name = ascii "ru" ∨ name = ascii "de" then some (ascii "name=x\n") else none

theorem list_sorted_sample :
    (languageList (some sampleDirectory) [[]]).count = 2 ∧
      (languageList (some sampleDirectory) [[]]).listed = [ascii "de"] ∧
      (languageList (some { sampleDirectory with
          entries := [ascii "de", ascii "broken", ascii "ru", ascii "."] }) [ascii "xx"]).listed =
        (languageList (some sampleDirectory) [[]]).listed := by
  have h := list_sorted sampleDirectory (by decide) [[]]
  refine ⟨by rw [h.1]; decide, by decide, ?_⟩
  exact (h.2.2.2.2 _ (by decide) [ascii "xx"] rfl).2

end Language
