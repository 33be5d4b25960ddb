/-
Search in text (`fplinux_utf8_contains_casefold` of `fplinux-utf8.c`).

The search decodes both byte strings a scalar at a time while it compares them, and begins
again at every scalar of the text.  A byte that begins no scalar is read by itself, as a code
above the scalars.

Main results:
- `matchesAt_iff`: a match at one place is a common beginning of the folded codes;
- `containsCasefold_iff`: the search finds the folded codes of the query among those of the text.
-/
import Mathlib.Data.List.Infix
import Fplinux.Utf8

namespace Utf8

/-- The first code of a text that is not empty: its scalar, or its first byte by itself. -/
def nextCode (byte : UInt8) (text : List UInt8) : ℕ × List UInt8 :=
  match next (byte :: text) with
  | some read => read
  | none => (0x110000 + byte.toNat, text)

/-- ASCII and Russian capital letters as small ones. -/
def fold (value : ℕ) : ℕ :=
  if 0x41 ≤ value ∧ value ≤ 0x5a then value + 0x20
  else if 0x410 ≤ value ∧ value ≤ 0x42f then value + 0x20
  else if value = 0x401 then 0x451 else value

def foldedNext (byte : UInt8) (text : List UInt8) : ℕ × List UInt8 :=
  (fold (nextCode byte text).1, (nextCode byte text).2)

theorem nextCode_length (byte : UInt8) (text : List UInt8) :
    (nextCode byte text).2.length ≤ text.length := by
  rw [nextCode]
  split
  · rename_i read hnext
    obtain ⟨value, rest⟩ := read
    obtain ⟨char, happ, henc⟩ := encodes_of_next hnext
    have hpos := List.length_pos_of_ne_nil henc.ne_nil
    have hlen := congrArg List.length happ
    rw [List.length_cons, List.length_append] at hlen
    show rest.length ≤ text.length
    omega
  · exact Nat.le_refl _

/-- The codes of a text. -/
def decoding : List UInt8 → List ℕ
  | [] => []
  | byte :: text => (nextCode byte text).1 :: decoding (nextCode byte text).2
termination_by text => text.length
decreasing_by exact Nat.lt_succ_of_le (nextCode_length byte text)

/-- The inner loop: whether the text from `candidate` on begins with the rest of the query. -/
def matchesAt : List UInt8 → List UInt8 → Bool
  | _, [] => true
  | [], _ :: _ => false
  | c :: candidate, p :: part =>
    if (foldedNext c candidate).1 = (foldedNext p part).1 then
      matchesAt (foldedNext c candidate).2 (foldedNext p part).2
    else false
termination_by candidate => candidate.length
decreasing_by exact Nat.lt_succ_of_le (nextCode_length c candidate)

/-- The outer loop: a match at `start` or at a later code. -/
def search (start query : List UInt8) : Bool :=
  if matchesAt start query then true
  else
    match start with
    | [] => false
    | byte :: text => search (foldedNext byte text).2 query
termination_by start.length
decreasing_by exact Nat.lt_succ_of_le (nextCode_length byte text)

/-- `fplinux_utf8_contains_casefold`; `none` is a null pointer. -/
def containsCasefold : Option (List UInt8) → Option (List UInt8) → Bool
  | some text, some query => search text query
  | _, _ => false

/-- The codes of a text with the case folded. -/
def foldedDecoding (text : List UInt8) : List ℕ := (decoding text).map fold

theorem foldedDecoding_nil : foldedDecoding [] = [] := by
  rw [foldedDecoding, decoding, List.map_nil]

theorem foldedDecoding_cons (byte : UInt8) (text : List UInt8) :
    foldedDecoding (byte :: text) =
      (foldedNext byte text).1 :: foldedDecoding (foldedNext byte text).2 := by
  rw [foldedDecoding, decoding, List.map_cons]
  rfl

/-- **A match at one place** is a common beginning of the folded codes. -/
theorem matchesAt_iff (candidate part : List UInt8) :
    matchesAt candidate part = true ↔ foldedDecoding part <+: foldedDecoding candidate := by
  induction candidate, part using matchesAt.induct with
  | case1 candidate =>
    rw [matchesAt, foldedDecoding_nil]
    exact iff_of_true rfl List.nil_prefix
  | case2 p part =>
    rw [matchesAt, foldedDecoding_nil, foldedDecoding_cons, List.prefix_nil]
    exact iff_of_false Bool.false_ne_true (List.cons_ne_nil _ _)
  | case3 c candidate p part hsame ih =>
    rw [matchesAt, if_pos hsame, ih, foldedDecoding_cons p, foldedDecoding_cons c,
      List.cons_prefix_cons]
    exact ⟨fun h => ⟨hsame.symm, h⟩, fun h => h.2⟩
  | case4 c candidate p part hother =>
    rw [matchesAt, if_neg hother, foldedDecoding_cons p, foldedDecoding_cons c,
      List.cons_prefix_cons]
    exact iff_of_false Bool.false_ne_true fun h => hother h.1.symm

theorem search_iff (start query : List UInt8) :
    search start query = true ↔ foldedDecoding query <:+: foldedDecoding start := by
  induction start using search.induct query with
  | case1 start hmatch =>
    rw [search.eq_def, if_pos hmatch]
    exact iff_of_true rfl ((matchesAt_iff start query).mp hmatch).isInfix
  | case2 hmatch =>
    rw [search.eq_def, if_neg hmatch]
    rw [matchesAt_iff, foldedDecoding_nil, List.prefix_nil] at hmatch
    rw [foldedDecoding_nil, List.infix_nil]
    exact iff_of_false Bool.false_ne_true hmatch
  | case3 byte text hmatch ih =>
    rw [search.eq_def, if_neg hmatch]
    rw [matchesAt_iff, foldedDecoding_cons] at hmatch
    rw [foldedDecoding_cons, List.infix_cons_iff]
    exact ih.trans ⟨Or.inr, fun h => h.resolve_left hmatch⟩

/-- **The search** finds the folded codes of the query among those of the text. -/
theorem containsCasefold_iff (text query : List UInt8) :
    containsCasefold (some text) (some query) = true ↔
      (decoding query).map fold <:+: (decoding text).map fold :=
  search_iff text query

end Utf8
