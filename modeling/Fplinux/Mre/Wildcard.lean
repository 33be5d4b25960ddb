/-
Wildcards of the guest's file searches (`vfs-broker.c`).

The matcher compares bytes, but `?` and `*` move by whole characters.  It keeps one place to
go back to: behind the last star, with one character more for the star than before.

Main results:
- `utf8Valid_iff`: the broker's texts are well-formed UTF-8;
- `Glob.last`: a later star makes up for every earlier one;
- `matchLoop_result`: the loop ends, and what its result says;
- `nameMatches_iff`: the matcher decides whether the pattern matches.
-/
import Mathlib.Data.List.Infix
import Fplinux.Lib.Bytes
import Fplinux.Utf8

namespace Wildcard

open Bytes (byte)
open Utf8 (isContinuation IsText Starts Encodes characters)

/-! ### Names and patterns -/

def nameBytes : ℕ := 256
def stagingPrefix : List UInt8 := Bytes.ascii ".mre-vfs-"

/-- One scalar of `utf8_valid` and the bytes after it. -/
def takeScalar (first : UInt8) (text : List UInt8) : Option (ℕ × List UInt8) :=
  if first.toNat < 0x80 then some (first.toNat, text)
  else if 0xc2 ≤ first.toNat ∧ first.toNat ≤ 0xdf then
    (Utf8.continued 1 (first.toNat % 32) text).filter fun read => inRange 0x80 read.1
  else if 0xe0 ≤ first.toNat ∧ first.toNat ≤ 0xef then
    (Utf8.continued 2 (first.toNat % 16) text).filter fun read => inRange 0x800 read.1
  else if 0xf0 ≤ first.toNat ∧ first.toNat ≤ 0xf4 then
    (Utf8.continued 3 (first.toNat % 8) text).filter fun read => inRange 0x10000 read.1
  else none
where
  inRange (minimum scalar : ℕ) : Bool :=
    minimum ≤ scalar ∧ scalar ≤ 0x10ffff ∧ ¬ (0xd800 ≤ scalar ∧ scalar ≤ 0xdfff)

theorem takeScalar_eq (first : UInt8) (text : List UInt8) :
    takeScalar first text = Utf8.next (first :: text) := by
  rw [takeScalar, Utf8.next]
  split
  · rfl
  split
  · -- two bytes never hold a scalar below 0x80
    rename_i hrange
    cases hread : Utf8.continued 1 (first.toNat % 32) text with
    | none => rfl
    | some read =>
      obtain ⟨scalar, rest⟩ := read
      obtain ⟨char, -, -, -, -, hle⟩ := Utf8.continued_eq_some hread
      have hminimum : 0x80 ≤ scalar := by omega
      have hsame : takeScalar.inRange 0x80 scalar = Utf8.next.isScalar 0 scalar := by
        rw [takeScalar.inRange, Utf8.next.isScalar]
        simp [hminimum]
      rw [Option.filter_some, Option.filter_some, hsame]
  split
  · rfl
  split
  · rfl
  · rfl

def utf8Valid : List UInt8 → Bool
  | [] => true
  | first :: text =>
    match _h : takeScalar first text with
    | none => false
    | some read => utf8Valid read.2
termination_by text => text.length
decreasing_by
  rw [takeScalar_eq] at _h
  obtain ⟨scalar, rest⟩ := read
  obtain ⟨char, happ, henc⟩ := Utf8.encodes_of_next _h
  have hpos := List.length_pos_of_ne_nil henc.ne_nil
  have hlen := congrArg List.length happ
  rw [List.length_append] at hlen
  show rest.length < (first :: text).length
  omega

/-- A byte that a name may hold; a pattern may also hold the wildcards. -/
def byteValid (pattern : Bool) (value : UInt8) : Bool :=
  !(value < 32 || value = 127 || value = byte '/' || value = byte '\\' || value = byte ':' ||
    value = byte '"' || value = byte '<' || value = byte '>' || value = byte '|' ||
    !pattern && (value = byte '*' || value = byte '?'))

def asciiFold (value : UInt8) : UInt8 :=
  if byte 'A' ≤ value ∧ value ≤ byte 'Z' then value + 32 else value

def componentValid (name : List UInt8) (pattern : Bool) : Bool :=
  name ≠ [] && name.length < nameBytes && name ≠ [byte '.'] && name ≠ [byte '.', byte '.'] &&
    name.getLast? ≠ some (byte '.') && name.getLast? ≠ some (byte ' ') && utf8Valid name &&
    name.all (byteValid pattern) &&
    !((name.take stagingPrefix.length).map asciiFold = stagingPrefix)

/-- Well-formed text of bytes that may stand in it. -/
structure Plain (pattern : Bool) (text : List UInt8) : Prop where
  utf8 : utf8Valid text = true
  bytes : text.all (byteValid pattern) = true

/-! ### The matcher -/

/-- The text behind its first character. -/
def nextCharacter (text : List UInt8) : List UInt8 := text.tail.dropWhile isContinuation

/-- The loop of `name_matches`: `star` holds the pattern behind the last star and the name to
try it on.  `none` while the fuel does not reach. -/
def matchLoop : ℕ → List UInt8 → List UInt8 → Option (List UInt8 × List UInt8) → Option Bool
  | 0, _, _, _ => none
  | _ + 1, pattern, [], _ => some (pattern.dropWhile (· = byte '*') = [])
  | fuel + 1, pattern, c :: name, star =>
    if pattern.head? = some (byte '?') then
      matchLoop fuel pattern.tail (nextCharacter (c :: name)) star
    else if pattern.head?.map asciiFold = some (asciiFold c) then
      matchLoop fuel pattern.tail name star
    else if pattern.head? = some (byte '*') then
      matchLoop fuel pattern.tail (c :: name) (some (pattern.tail, c :: name))
    else
      match star with
      | some (behind, retry) =>
        matchLoop fuel behind (nextCharacter retry) (some (behind, nextCharacter retry))
      | none => some false

def nameMatches (fuel : ℕ) (pattern name : List UInt8) : Option Bool :=
  matchLoop fuel (if pattern = Bytes.ascii "*.*" then Bytes.ascii "*" else pattern) name none

/-! ### What a pattern means -/

/-- The name can be split for the pattern: `*` takes any characters, `?` one character, and any
other byte a byte that is equal up to ASCII case. -/
inductive Glob : List UInt8 → List UInt8 → Prop
  | nil : Glob [] []
  | star {pattern taken name : List UInt8} : IsText taken → Glob pattern name →
      Glob (byte '*' :: pattern) (taken ++ name)
  | any {pattern char name : List UInt8} {value : ℕ} : Encodes char value → Glob pattern name →
      Glob (byte '?' :: pattern) (char ++ name)
  | literal {b c : UInt8} {pattern name : List UInt8} : b ≠ byte '*' → b ≠ byte '?' →
      asciiFold b = asciiFold c → Glob pattern name → Glob (b :: pattern) (c :: name)

/-! ### Texts -/

section Text

variable {text name : List UInt8} {b c : UInt8}

theorem utf8Valid_cons (first : UInt8) (text : List UInt8) :
    utf8Valid (first :: text) = true ↔
      ∃ value rest, Utf8.next (first :: text) = some (value, rest) ∧ utf8Valid rest = true := by
  rw [utf8Valid]
  split
  · rename_i hnone
    rw [takeScalar_eq] at hnone
    rw [hnone]
    exact iff_of_false Bool.false_ne_true fun ⟨value, rest, h, _⟩ => by cases h
  · rename_i read hread
    rw [takeScalar_eq] at hread
    rw [hread]
    refine ⟨fun h => ⟨read.1, read.2, rfl, h⟩, ?_⟩
    rintro ⟨value, rest, hsame, h⟩
    obtain rfl := Option.some.inj hsame
    exact h

/-- **The broker's texts** are well-formed UTF-8. -/
theorem utf8Valid_iff (text : List UInt8) : utf8Valid text = true ↔ IsText text := by
  constructor
  · intro h
    have hstep : ∀ (s : Unit) first text, utf8Valid (first :: text) = true →
        ∃ (s' : Unit) (value : ℕ) (rest : List UInt8), Utf8.next (first :: text) =
          some (value, rest) ∧ True ∧ utf8Valid rest = true := by
      intro s first text hvalid
      obtain ⟨value, rest, hnext, hrest⟩ := (utf8Valid_cons first text).mp hvalid
      exact ⟨s, value, rest, hnext, trivial, hrest⟩
    obtain ⟨values, hvalues, -⟩ := @Utf8.decodes_of_loop Unit (fun _ text => utf8Valid text = true)
      (fun _ => True) hstep () text h
    exact ⟨values, hvalues⟩
  · rintro ⟨values, hvalues⟩
    induction hvalues with
    | nil => rw [utf8Valid]
    | @cons char rest value values hchar _ ih =>
      obtain ⟨first, tail, rfl, -, -⟩ := hchar.lead
      exact (utf8Valid_cons first (tail ++ rest)).mpr ⟨value, rest, hchar.next_eq rest, ih⟩

theorem asciiFold_toNat (b : UInt8) :
    (asciiFold b).toNat = if 65 ≤ b.toNat ∧ b.toNat ≤ 90 then b.toNat + 32 else b.toNat := by
  have hA : (byte 'A').toNat = 65 := rfl
  have hZ : (byte 'Z').toNat = 90 := rfl
  rw [asciiFold]
  by_cases h : byte 'A' ≤ b ∧ b ≤ byte 'Z'
  · have hrange : 65 ≤ b.toNat ∧ b.toNat ≤ 90 := h
    have h32 : (32 : UInt8).toNat = 32 := rfl
    rw [if_pos h, if_pos hrange, UInt8.toNat_add, h32]
    exact Nat.mod_eq_of_lt (by omega)
  · have hrange : ¬ (65 ≤ b.toNat ∧ b.toNat ≤ 90) := h
    rw [if_neg h, if_neg hrange]

theorem fold_place (h : asciiFold b = asciiFold c) :
    isContinuation b = isContinuation c ∧ Utf8.tailLength b = Utf8.tailLength c := by
  have hsame := congrArg UInt8.toNat h
  rw [asciiFold_toNat, asciiFold_toNat] at hsame
  have hcase : b.toNat = c.toNat ∨ b.toNat < 0x80 ∧ c.toNat < 0x80 := by
    split at hsame
    · split at hsame
      · omega
      · omega
    · split at hsame
      · omega
      · omega
  rcases hcase with heq | ⟨hb, hc⟩
  · rw [isContinuation, isContinuation, Utf8.tailLength, Utf8.tailLength, heq]
    exact ⟨rfl, rfl⟩
  · rw [Utf8.tailLength, Utf8.tailLength, if_pos hb, if_pos hc]
    exact ⟨(decide_eq_false (by omega)).trans (decide_eq_false (by omega)).symm, rfl⟩

theorem fold_star (h : asciiFold (byte '*') = asciiFold c) : c = byte '*' := by
  have hsame := congrArg UInt8.toNat h
  have hvalue : (byte '*').toNat = 42 := rfl
  rw [asciiFold_toNat, asciiFold_toNat, hvalue, if_neg (by omega)] at hsame
  split at hsame
  · omega
  · exact UInt8.toNat_inj.mp (hsame.symm.trans hvalue.symm)

/-- The continuation bytes in front of a text that may begin inside a character. -/
def owed (text : List UInt8) : ℕ := (text.takeWhile isContinuation).length

/-- A text from inside a character on. -/
def Half (text : List UInt8) : Prop := IsText (text.dropWhile isContinuation)

theorem half_of_isText (h : IsText text) : Half text ∧ owed text = 0 := by
  cases text with
  | nil => exact ⟨h, rfl⟩
  | cons b text =>
    have hlead := h.starts b text rfl
    rw [Half, owed, List.dropWhile_cons_of_neg (by rw [hlead]; exact Bool.false_ne_true),
      List.takeWhile_cons_of_neg (by rw [hlead]; exact Bool.false_ne_true)]
    exact ⟨h, rfl⟩

theorem isText_of_owed (h : Half text) (howed : owed text = 0) : IsText text := by
  cases text with
  | nil => exact h
  | cons b text =>
    by_cases hb : isContinuation b = true
    · rw [owed, List.takeWhile_cons_of_pos hb] at howed
      cases howed
    · rwa [Half, List.dropWhile_cons_of_neg hb] at h

theorem half_tail (h : IsText (b :: text)) : Half text ∧ owed text = Utf8.tailLength b := by
  obtain ⟨tail, rest, value, rfl, hchar, hrest⟩ := h.uncons
  obtain ⟨first, conts, heq, -, hconts⟩ := hchar.split
  obtain ⟨-, rfl⟩ := List.cons.inj heq
  obtain ⟨hhalf, howed⟩ := half_of_isText hrest
  rw [Half, owed, List.dropWhile_append_of_pos hconts, List.takeWhile_append_of_pos hconts,
    List.length_append, hchar.length_tail]
  exact ⟨hhalf, congrArg (Utf8.tailLength b + ·) howed⟩

theorem half_cont (hb : isContinuation b = true) (h : Half (b :: text)) :
    Half text ∧ owed (b :: text) = owed text + 1 := by
  rw [Half, List.dropWhile_cons_of_pos hb] at h
  rw [owed, List.takeWhile_cons_of_pos hb]
  exact ⟨h, rfl⟩

theorem nextCharacter_eq (h : IsText (c :: name)) :
    ∃ char value, c :: name = char ++ nextCharacter (c :: name) ∧ Encodes char value ∧
      IsText (nextCharacter (c :: name)) := by
  obtain ⟨tail, rest, value, rfl, hchar, hrest⟩ := h.uncons
  obtain ⟨first, conts, heq, -, hconts⟩ := hchar.split
  obtain ⟨-, rfl⟩ := List.cons.inj heq
  have hnext : nextCharacter (c :: (tail ++ rest)) = rest := by
    rw [nextCharacter, List.tail_cons, List.dropWhile_append_of_pos hconts]
    cases rest with
    | nil => rfl
    | cons b rest =>
      have hlead := hrest.starts b rest rfl
      exact List.dropWhile_cons_of_neg (by rw [hlead]; exact Bool.false_ne_true)
  rw [hnext]
  exact ⟨c :: tail, value, rfl, hchar, hrest⟩

end Text

/-! ### Matches -/

section Matches

variable {pattern front taken name rest : List UInt8} {b c : UInt8}

theorem star_ne_any : byte '*' ≠ byte '?' := by decide

theorem glob_nil_iff (name : List UInt8) : Glob [] name ↔ name = [] := by
  constructor
  · intro h
    cases h
    rfl
  · rintro rfl
    exact .nil

theorem glob_star_iff (pattern name : List UInt8) :
    Glob (byte '*' :: pattern) name ↔
      ∃ taken rest, name = taken ++ rest ∧ IsText taken ∧ Glob pattern rest := by
  constructor
  · intro h
    generalize hall : byte '*' :: pattern = all at h
    cases h with
    | nil => cases hall
    | star htaken hrest =>
      obtain ⟨-, rfl⟩ := List.cons.inj hall
      exact ⟨_, _, rfl, htaken, hrest⟩
    | any hchar hrest => exact absurd (List.cons.inj hall).1 star_ne_any
    | literal hstar hany hfold hrest => exact absurd (List.cons.inj hall).1.symm hstar
  · rintro ⟨taken, rest, rfl, htaken, hrest⟩
    exact .star htaken hrest

theorem glob_any_iff (pattern name : List UInt8) :
    Glob (byte '?' :: pattern) name ↔
      ∃ char value rest, name = char ++ rest ∧ Encodes char value ∧ Glob pattern rest := by
  constructor
  · intro h
    generalize hall : byte '?' :: pattern = all at h
    cases h with
    | nil => cases hall
    | star htaken hrest => exact absurd (List.cons.inj hall).1.symm star_ne_any
    | any hchar hrest =>
      obtain ⟨-, rfl⟩ := List.cons.inj hall
      exact ⟨_, _, _, rfl, hchar, hrest⟩
    | literal hstar hany hfold hrest => exact absurd (List.cons.inj hall).1.symm hany
  · rintro ⟨char, value, rest, rfl, hchar, hrest⟩
    exact .any hchar hrest

theorem glob_literal_iff (hstar : b ≠ byte '*') (hany : b ≠ byte '?') (pattern name : List UInt8) :
    Glob (b :: pattern) name ↔
      ∃ c rest, name = c :: rest ∧ asciiFold b = asciiFold c ∧ Glob pattern rest := by
  constructor
  · intro h
    generalize hall : b :: pattern = all at h
    cases h with
    | nil => cases hall
    | star htaken hrest => exact absurd (List.cons.inj hall).1 hstar
    | any hchar hrest => exact absurd (List.cons.inj hall).1 hany
    | literal _ _ hfold hrest =>
      obtain ⟨rfl, rfl⟩ := List.cons.inj hall
      exact ⟨_, _, rfl, hfold, hrest⟩
  · rintro ⟨c, rest, rfl, hfold, hrest⟩
    exact .literal hstar hany hfold hrest

theorem glob_empty_iff (pattern : List UInt8) :
    Glob pattern [] ↔ pattern.dropWhile (· = byte '*') = [] := by
  induction pattern with
  | nil => exact iff_of_true .nil rfl
  | cons b pattern ih =>
    by_cases hstar : b = byte '*'
    · subst hstar
      have hdrop : (byte '*' :: pattern).dropWhile (· = byte '*') =
          pattern.dropWhile (· = byte '*') := List.dropWhile_cons_of_pos (decide_eq_true rfl)
      rw [hdrop, ← ih, glob_star_iff]
      constructor
      · rintro ⟨taken, rest, hsplit, -, hrest⟩
        rwa [(List.append_eq_nil_iff.mp hsplit.symm).2] at hrest
      · exact fun hrest => ⟨[], [], rfl, Utf8.isText_nil, hrest⟩
    · rw [List.dropWhile_cons_of_neg (by simpa using hstar)]
      refine iff_of_false ?_ (List.cons_ne_nil _ _)
      by_cases hany : b = byte '?'
      · subst hany
        rw [glob_any_iff]
        rintro ⟨char, value, rest, hsplit, hchar, -⟩
        exact hchar.ne_nil (List.append_eq_nil_iff.mp hsplit.symm).1
      · rw [glob_literal_iff hstar hany]
        rintro ⟨c, rest, hsplit, -⟩
        cases hsplit

theorem isText_behind (h : IsText (b :: pattern)) (hb : b.toNat < 0x80) : IsText pattern := by
  obtain ⟨hhalf, howed⟩ := half_tail h
  rw [Utf8.tailLength, if_pos hb] at howed
  exact isText_of_owed hhalf howed

theorem Glob.starts (h : Glob pattern name) (hpattern : IsText pattern) : Starts name := by
  induction h with
  | nil => exact Utf8.starts_nil
  | @star pattern taken name htaken _ ih =>
    cases taken with
    | nil => exact ih (isText_behind hpattern (by decide))
    | cons first taken => exact Utf8.starts_cons (htaken.starts first taken rfl) _
  | any hchar _ _ =>
    obtain ⟨first, conts, rfl, hlead, -⟩ := hchar.split
    exact Utf8.starts_cons hlead _
  | literal _ _ hfold _ _ =>
    exact Utf8.starts_cons ((fold_place hfold).1 ▸ hpattern.starts _ _ rfl) _

theorem Glob.split (hfront : byte '*' ∉ front) : ∀ {name : List UInt8},
    Glob (front ++ pattern) name → ∃ taken rest, name = taken ++ rest ∧
      characters taken = characters front ∧ Glob pattern rest := by
  induction front with
  | nil => exact fun {name} h => ⟨[], name, rfl, rfl, h⟩
  | cons b front ih =>
    intro name h
    rw [List.mem_cons, not_or] at hfront
    by_cases hany : b = byte '?'
    · subst hany
      obtain ⟨char, value, more, rfl, hchar, hmore⟩ := (glob_any_iff _ _).mp h
      obtain ⟨taken, rest, rfl, hcount, hrest⟩ := ih hfront.2 hmore
      refine ⟨char ++ taken, rest, (List.append_assoc _ _ _).symm, ?_, hrest⟩
      have hone : characters [byte '?'] = 1 := by decide
      rw [Utf8.characters_append, hchar.characters, hcount, ← hone, ← Utf8.characters_append]
      rfl
    · obtain ⟨c, more, rfl, hfold, hmore⟩ :=
        (glob_literal_iff (Ne.symm hfront.1) hany _ _).mp h
      obtain ⟨taken, rest, rfl, hcount, hrest⟩ := ih hfront.2 hmore
      refine ⟨c :: taken, rest, rfl, ?_, hrest⟩
      rw [characters, List.countP_cons, ← (fold_place hfold).1]
      rw [characters, characters] at hcount
      rw [hcount, characters, List.countP_cons]

/-- **A later star makes up for an earlier one**: what more characters for the earlier star
would match, more characters for the later one match too. -/
theorem Glob.last {more other : List UInt8} (hfront : byte '*' ∉ front)
    (hcount : characters front = characters taken) (hname : IsText name)
    (hpattern : IsText pattern) (hmore : IsText more) (hne : more ≠ [])
    (hsame : taken ++ name = more ++ other) (h : Glob (front ++ byte '*' :: pattern) other) :
    Glob (byte '*' :: pattern) name := by
  obtain ⟨taken', rest', rfl, hcount', hrest'⟩ := h.split hfront
  obtain ⟨stars, rest, rfl, -, hrest⟩ := (glob_star_iff _ _).mp hrest'
  have hpos := hmore.characters_pos hne
  rw [← List.append_assoc, ← List.append_assoc] at hsame
  rcases List.append_eq_append_iff.mp hsame with ⟨piece, -, hpiece⟩ | ⟨piece, htaken, -⟩
  · rw [hpiece] at hname
    rw [hpiece]
    exact .star (hname.cut (hrest.starts hpattern)).1 hrest
  · -- the earlier star would have to give characters back
    have htotal := congrArg characters htaken
    rw [Utf8.characters_append, Utf8.characters_append, Utf8.characters_append] at htotal
    omega

end Matches

/-! ### The loop -/

/-- The place to go back to: since the last star the pattern without stars took as many
characters as it has. -/
structure Kept (pattern name behind retry : List UInt8) : Prop where
  behind_text : IsText behind
  retry_text : IsText retry
  no_star : byte '*' ∉ retry
  since : ∃ front taken, behind = front ++ pattern ∧ retry = taken ++ name ∧ byte '*' ∉ front ∧
    characters front = characters taken

/-- Pattern and name are at the same place of a character. -/
structure Inv (pattern name : List UInt8) (star : Option (List UInt8 × List UInt8)) : Prop where
  half_pattern : Half pattern
  half_name : Half name
  owed : owed pattern = owed name
  no_star : byte '*' ∉ name
  kept : ∀ behind retry, star = some (behind, retry) → Kept pattern name behind retry

/-- The last star can take more characters. -/
def Later (star : Option (List UInt8 × List UInt8)) : Prop :=
  ∃ behind retry, star = some (behind, retry) ∧
    ∃ more rest, retry = more ++ rest ∧ IsText more ∧ more ≠ [] ∧ Glob behind rest

/-- The loop ends, with the right result. -/
def Settled (pattern name : List UInt8) (star : Option (List UInt8 × List UInt8)) : Prop :=
  ∃ fuel result, matchLoop fuel pattern name star = some result ∧
    (result = true ↔ Glob pattern name ∨ Later star)

section Loop

variable {pattern name behind retry : List UInt8} {b c : UInt8}
  {star : Option (List UInt8 × List UInt8)}

theorem matchLoop_cons (fuel : ℕ) (pattern : List UInt8) (c : UInt8) (name : List UInt8)
    (star : Option (List UInt8 × List UInt8)) :
    matchLoop (fuel + 1) pattern (c :: name) star =
      if pattern.head? = some (byte '?') then
        matchLoop fuel pattern.tail (nextCharacter (c :: name)) star
      else if pattern.head?.map asciiFold = some (asciiFold c) then
        matchLoop fuel pattern.tail name star
      else if pattern.head? = some (byte '*') then
        matchLoop fuel pattern.tail (c :: name) (some (pattern.tail, c :: name))
      else
        match star with
        | some (behind, retry) =>
          matchLoop fuel behind (nextCharacter retry) (some (behind, nextCharacter retry))
        | none => some false := rfl

theorem not_later_none : ¬ Later none := by
  rintro ⟨behind, retry, h, -⟩
  cases h

theorem later_some (behind retry : List UInt8) :
    Later (some (behind, retry)) ↔
      ∃ more rest, retry = more ++ rest ∧ IsText more ∧ more ≠ [] ∧ Glob behind rest := by
  constructor
  · rintro ⟨behind', retry', hsame, h⟩
    obtain ⟨rfl, rfl⟩ := Prod.mk.inj (Option.some.inj hsame)
    exact h
  · exact fun h => ⟨behind, retry, rfl, h⟩

theorem Inv.texts (h : Inv pattern name star) (hpattern : IsText pattern) : IsText name :=
  isText_of_owed h.half_name (h.owed.symm.trans (half_of_isText hpattern).2)

theorem Inv.isText (h : Inv (b :: pattern) name star) (hb : isContinuation b = false) :
    IsText (b :: pattern) := by
  have hhalf := h.half_pattern
  rwa [Half, List.dropWhile_cons_of_neg (by rw [hb]; exact Bool.false_ne_true)] at hhalf

theorem Kept.push {name' : List UInt8} (piece : List UInt8)
    (h : Kept (b :: pattern) name behind retry) (hb : b ≠ byte '*') (hname : name = piece ++ name')
    (hcount : characters [b] = characters piece) : Kept pattern name' behind retry := by
  obtain ⟨front, taken, hbehind, hretry, hfront, hsame⟩ := h.since
  refine ⟨h.behind_text, h.retry_text, h.no_star, front ++ [b], taken ++ piece, ?_, ?_, ?_, ?_⟩
  · rw [hbehind, List.append_assoc, List.singleton_append]
  · rw [hretry, hname, List.append_assoc]
  · rw [List.mem_append, List.mem_singleton, not_or]
    exact ⟨hfront, Ne.symm hb⟩
  · rw [Utf8.characters_append, Utf8.characters_append, hsame, hcount]

/-- **At the end of the name** the last star has nothing more to take. -/
theorem settled_end (h : Inv pattern [] star) : Settled pattern [] star := by
  refine ⟨1, _, rfl, ?_⟩
  rw [decide_eq_true_iff, ← glob_empty_iff]
  refine ⟨Or.inl, fun hresult => hresult.resolve_right ?_⟩
  rintro ⟨behind, retry, hstar, more, rest, hretry, hmore, hne, hglob⟩
  obtain ⟨front, taken, rfl, htaken, hfront, hcount⟩ := (h.kept behind retry hstar).since
  obtain ⟨taken', rest', rfl, hcount', -⟩ := hglob.split hfront
  have hpos := hmore.characters_pos hne
  have htotal := congrArg characters (htaken.symm.trans hretry)
  rw [Utf8.characters_append, Utf8.characters_append, Utf8.characters_append] at htotal
  have hzero : characters ([] : List UInt8) = 0 := rfl
  omega

/-- **`?`** takes a character. -/
theorem settled_any (h : Inv (byte '?' :: pattern) (c :: name) star) :
    Inv pattern (nextCharacter (c :: name)) star ∧
      (Settled pattern (nextCharacter (c :: name)) star →
        Settled (byte '?' :: pattern) (c :: name) star) := by
  have hlow : (byte '?').toNat < 0x80 := by decide
  have hquestion : IsText (byte '?' :: pattern) := h.isText (by decide)
  obtain ⟨char, value, hsplit, hchar, hrest⟩ := nextCharacter_eq (h.texts hquestion)
  obtain ⟨hhalf, howed⟩ := half_of_isText (isText_behind hquestion hlow)
  obtain ⟨hhalf', howed'⟩ := half_of_isText hrest
  have hone : characters [byte '?'] = 1 := by decide
  constructor
  · refine ⟨hhalf, hhalf', howed.trans howed'.symm, ?_, fun behind retry hstar => ?_⟩
    · exact fun hmem => h.no_star (hsplit ▸ List.mem_append_right _ hmem)
    · exact (h.kept behind retry hstar).push char (by decide) hsplit
        (hone.trans hchar.characters.symm)
  · rintro ⟨fuel, result, hloop, hresult⟩
    refine ⟨fuel + 1, result, ?_, hresult.trans ?_⟩
    · rw [matchLoop_cons, List.head?_cons, if_pos rfl]
      exact hloop
    · rw [glob_any_iff]
      refine or_congr_left ⟨fun hglob => ⟨char, value, _, hsplit, hchar, hglob⟩, ?_⟩
      -- the name has one first character
      rintro ⟨char', value', rest', hsplit', hchar', hglob⟩
      have hfirst := hchar.next_eq (nextCharacter (c :: name))
      have hsecond := hchar'.next_eq rest'
      rw [← hsplit] at hfirst
      rw [← hsplit'] at hsecond
      obtain ⟨-, hsame⟩ := Prod.mk.inj (Option.some.inj (hfirst.symm.trans hsecond))
      rwa [hsame]

/-- **A byte** takes one that is equal up to case. -/
theorem settled_literal (h : Inv (b :: pattern) (c :: name) star) (hany : b ≠ byte '?')
    (hfold : asciiFold b = asciiFold c) :
    Inv pattern name star ∧
      (Settled pattern name star → Settled (b :: pattern) (c :: name) star) := by
  obtain ⟨hplace, hlength⟩ := fold_place hfold
  have hstar : b ≠ byte '*' := by
    rintro rfl
    exact h.no_star (fold_star hfold ▸ List.mem_cons_self)
  constructor
  · have hhalves : Half pattern ∧ Half name ∧ owed pattern = owed name := by
      have howed := h.owed
      cases hb : isContinuation b with
      | true =>
        obtain ⟨hhalf, hone⟩ := half_cont hb h.half_pattern
        obtain ⟨hhalf', hone'⟩ := half_cont (hplace ▸ hb) h.half_name
        exact ⟨hhalf, hhalf', by omega⟩
      | false =>
        have htext := h.isText hb
        obtain ⟨hhalf, hone⟩ := half_tail htext
        obtain ⟨hhalf', hone'⟩ := half_tail (h.texts htext)
        exact ⟨hhalf, hhalf', hone.trans (hlength.trans hone'.symm)⟩
    refine ⟨hhalves.1, hhalves.2.1, hhalves.2.2,
      fun hmem => h.no_star (List.mem_cons_of_mem _ hmem),
      fun behind retry hkept => (h.kept behind retry hkept).push [c] hstar rfl ?_⟩
    rw [characters, characters, List.countP_singleton, List.countP_singleton, hplace]
  · rintro ⟨fuel, result, hloop, hresult⟩
    refine ⟨fuel + 1, result, ?_, hresult.trans ?_⟩
    · have hquestion : some b ≠ some (byte '?') := fun hsame => hany (Option.some.inj hsame)
      rw [matchLoop_cons, List.head?_cons, Option.map_some, if_neg hquestion,
        if_pos (congrArg some hfold)]
      exact hloop
    · rw [glob_literal_iff hstar hany]
      refine or_congr_left ⟨fun hglob => ⟨c, name, rfl, hfold, hglob⟩, ?_⟩
      rintro ⟨c', rest', hsplit', -, hglob⟩
      rwa [(List.cons.inj hsplit').2]

/-- **`*`** is kept, and takes nothing yet. -/
theorem settled_star (h : Inv (byte '*' :: pattern) (c :: name) star) :
    Inv pattern (c :: name) (some (pattern, c :: name)) ∧
      (Settled pattern (c :: name) (some (pattern, c :: name)) →
        Settled (byte '*' :: pattern) (c :: name) star) := by
  have hlow : (byte '*').toNat < 0x80 := by decide
  have hstarText : IsText (byte '*' :: pattern) := h.isText (by decide)
  have hpattern := isText_behind hstarText hlow
  have hname := h.texts hstarText
  obtain ⟨hhalf, howed⟩ := half_of_isText hpattern
  obtain ⟨hhalf', howed'⟩ := half_of_isText hname
  constructor
  · refine ⟨hhalf, hhalf', howed.trans howed'.symm, h.no_star, fun behind retry hsame => ?_⟩
    obtain ⟨rfl, rfl⟩ := Prod.mk.inj (Option.some.inj hsame)
    exact ⟨hpattern, hname, h.no_star, [], [], rfl, rfl, List.not_mem_nil, rfl⟩
  · rintro ⟨fuel, result, hloop, hresult⟩
    have hquestion : some (byte '*') ≠ some (byte '?') :=
      fun hsame => star_ne_any (Option.some.inj hsame)
    have hother : some (asciiFold (byte '*')) ≠ some (asciiFold c) := by
      intro hsame
      exact h.no_star (fold_star (Option.some.inj hsame) ▸ List.mem_cons_self)
    refine ⟨fuel + 1, result, ?_, hresult.trans ?_⟩
    · rw [matchLoop_cons, List.head?_cons, Option.map_some, if_neg hquestion, if_neg hother,
        if_pos rfl]
      exact hloop
    · rw [later_some, glob_star_iff]
      constructor
      · rintro (hglob | ⟨more, rest, hsplit, hmore, -, hglob⟩)
        · exact .inl ⟨[], _, rfl, Utf8.isText_nil, hglob⟩
        · exact .inl ⟨more, rest, hsplit, hmore, hglob⟩
      · rintro (⟨taken, rest, hsplit, htaken, hglob⟩ | hlater)
        · cases taken with
          | nil => exact .inl (hsplit ▸ hglob)
          | cons first taken => exact .inr ⟨_, rest, hsplit, htaken, List.cons_ne_nil _ _, hglob⟩
        · -- a star before this one
          obtain ⟨behind, retry, hkept, more, rest, hretry, hmore, hne, hglob⟩ := hlater
          obtain ⟨front, taken, rfl, htaken, hfront, hcount⟩ := (h.kept behind retry hkept).since
          have hlast := hglob.last hfront hcount hname hpattern hmore hne (htaken.symm.trans hretry)
          obtain ⟨stars, rest', hsplit, hstars, hrest'⟩ := (glob_star_iff _ _).mp hlast
          cases stars with
          | nil => exact .inl (hsplit ▸ hrest')
          | cons first stars => exact .inr ⟨_, rest', hsplit, hstars, List.cons_ne_nil _ _, hrest'⟩

/-- **Nothing fits**: the last star takes one character more, or there is none. -/
theorem settled_retry (h : Inv pattern (c :: name) star) (hany : pattern.head? ≠ some (byte '?'))
    (hfold : pattern.head?.map asciiFold ≠ some (asciiFold c))
    (hstar : pattern.head? ≠ some (byte '*')) :
    (star = none → Settled pattern (c :: name) star) ∧
    (∀ behind retry, star = some (behind, retry) →
      Inv behind (nextCharacter retry) (some (behind, nextCharacter retry)) ∧
      (nextCharacter retry).length < retry.length ∧
      (Settled behind (nextCharacter retry) (some (behind, nextCharacter retry)) →
        Settled pattern (c :: name) star)) := by
  have hnone : ¬ Glob pattern (c :: name) := by
    cases pattern with
    | nil => exact fun hglob => List.cons_ne_nil _ _ ((glob_nil_iff _).mp hglob)
    | cons b pattern =>
      rw [List.head?_cons, ne_eq, Option.some.injEq] at hany hstar
      rw [glob_literal_iff hstar hany]
      rintro ⟨c', rest', hsplit, hsame, -⟩
      rw [List.head?_cons, Option.map_some, (List.cons.inj hsplit).1, hsame] at hfold
      exact hfold rfl
  constructor
  · rintro rfl
    refine ⟨1, false, ?_, ?_⟩
    · rw [matchLoop_cons, if_neg hany, if_neg hfold, if_neg hstar]
    · exact iff_of_false Bool.false_ne_true (not_or.mpr ⟨hnone, not_later_none⟩)
  · rintro behind retry rfl
    have hkept := h.kept behind retry rfl
    obtain ⟨front, taken, -, hretry, -, -⟩ := hkept.since
    obtain ⟨first, more, rfl⟩ : ∃ first more, retry = first :: more := by
      cases retry with
      | nil => exact absurd hretry.symm (by simp)
      | cons first more => exact ⟨first, more, rfl⟩
    obtain ⟨char, value, hsplit, hchar, hrest⟩ := nextCharacter_eq hkept.retry_text
    obtain ⟨hhalf, howed⟩ := half_of_isText hkept.behind_text
    obtain ⟨hhalf', howed'⟩ := half_of_isText hrest
    have hfree : byte '*' ∉ nextCharacter (first :: more) :=
      fun hmem => hkept.no_star (hsplit ▸ List.mem_append_right _ hmem)
    refine ⟨⟨hhalf, hhalf', howed.trans howed'.symm, hfree, fun behind' retry' hsame => ?_⟩, ?_, ?_⟩
    · obtain ⟨rfl, rfl⟩ := Prod.mk.inj (Option.some.inj hsame)
      exact ⟨hkept.behind_text, hrest, hfree, [], [], rfl, rfl, List.not_mem_nil, rfl⟩
    · have hlength := congrArg List.length hsplit
      have hpos := List.length_pos_of_ne_nil hchar.ne_nil
      rw [List.length_append] at hlength
      omega
    · rintro ⟨fuel, result, hloop, hresult⟩
      refine ⟨fuel + 1, result, ?_, hresult.trans ?_⟩
      · rw [matchLoop_cons, if_neg hany, if_neg hfold, if_neg hstar]
        exact hloop
      · rw [later_some, later_some]
        constructor
        · rintro (hglob | ⟨taken', rest', hsplit', htaken, -, hglob⟩)
          · exact .inr ⟨char, _, hsplit, hchar.isText, hchar.ne_nil, hglob⟩
          · refine .inr ⟨char ++ taken', rest', ?_, hchar.isText.append htaken, ?_, hglob⟩
            · rw [hsplit, hsplit', List.append_assoc]
            · exact fun hnil => hchar.ne_nil (List.append_eq_nil_iff.mp hnil).1
        · rintro (hglob | ⟨taken', rest', hsplit', htaken, hne, hglob⟩)
          · exact absurd hglob hnone
          · -- what the star takes begins with the next character
            obtain ⟨b, taken', rfl⟩ := List.exists_cons_of_ne_nil hne
            obtain ⟨tail, others, value', rfl, hchar', hothers⟩ := htaken.uncons
            have hfirst := hchar.next_eq (nextCharacter (first :: more))
            have hsecond := hchar'.next_eq (others ++ rest')
            have hwhole : first :: more = b :: tail ++ (others ++ rest') := by
              rw [hsplit', List.cons_append, List.cons_append, List.append_assoc]
            rw [← hsplit] at hfirst
            rw [← hwhole] at hsecond
            obtain ⟨-, hsame⟩ := Prod.mk.inj (Option.some.inj (hfirst.symm.trans hsecond))
            rw [hsame]
            cases others with
            | nil => exact .inl hglob
            | cons other others =>
              exact .inr ⟨_, rest', rfl, hothers, List.cons_ne_nil _ _, hglob⟩

/-- **The loop ends**, and its result says whether the rest of the pattern matches, or the last
star can take more. -/
theorem matchLoop_result (h : Inv pattern name star) : Settled pattern name star := by
  -- A new star leaves less of the pattern behind it, a retry less of the name, and every other
  -- step less of the pattern with the same star.
  induction hbehind : star.elim (pattern.length + 1) (·.1.length) using Nat.strongRecOn
    generalizing pattern name star with
  | ind m ihbehind =>
  induction hretry : star.elim 0 (·.2.length) using Nat.strongRecOn
    generalizing pattern name star with
  | ind k ihretry =>
  induction hlength : pattern.length using Nat.strongRecOn generalizing pattern name star with
  | ind n ihlength =>
  have hpop : ∀ pattern' name', pattern'.length < pattern.length → Inv pattern' name' star →
      Settled pattern' name' star := by
    intro pattern' name' hshort hinv
    cases star with
    | none =>
      refine ihbehind (pattern'.length + 1) ?_ hinv rfl
      rw [← hbehind]
      exact Nat.succ_lt_succ hshort
    | some kept => exact ihlength _ (hlength ▸ hshort) hinv hbehind hretry rfl
  cases name with
  | nil => exact settled_end h
  | cons c rest =>
    by_cases hany : pattern.head? = some (byte '?')
    · obtain ⟨pattern, rfl⟩ := List.head?_eq_some_iff.mp hany
      obtain ⟨hinv, hsettled⟩ := settled_any h
      exact hsettled (hpop _ _ (Nat.lt_succ_self _) hinv)
    by_cases hfold : pattern.head?.map asciiFold = some (asciiFold c)
    · obtain ⟨b, hb, hsame⟩ := Option.map_eq_some_iff.mp hfold
      obtain ⟨pattern, rfl⟩ := List.head?_eq_some_iff.mp hb
      obtain ⟨hinv, hsettled⟩ := settled_literal h (fun hb => hany (congrArg some hb)) hsame
      exact hsettled (hpop _ _ (Nat.lt_succ_self _) hinv)
    by_cases hstar : pattern.head? = some (byte '*')
    · obtain ⟨pattern, rfl⟩ := List.head?_eq_some_iff.mp hstar
      obtain ⟨hinv, hsettled⟩ := settled_star h
      refine hsettled (ihbehind pattern.length ?_ hinv rfl)
      rw [← hbehind]
      cases star with
      | none => exact Nat.lt_succ_of_lt (Nat.lt_succ_self _)
      | some kept =>
        obtain ⟨front, taken, hkept, -⟩ := (h.kept kept.1 kept.2 rfl).since
        have hlen := congrArg List.length hkept
        rw [List.length_append, List.length_cons] at hlen
        show pattern.length < kept.1.length
        omega
    · obtain ⟨hnone, hsome⟩ := settled_retry h hany hfold hstar
      cases star with
      | none => exact hnone rfl
      | some kept =>
        obtain ⟨hinv, hshort, hsettled⟩ := hsome kept.1 kept.2 rfl
        exact hsettled (ihretry _ (hretry ▸ hshort) hinv hbehind rfl)

end Loop

theorem matchLoop_succ {fuel : ℕ} : ∀ {pattern name : List UInt8}
    {star : Option (List UInt8 × List UInt8)} {result : Bool},
    matchLoop fuel pattern name star = some result →
      matchLoop (fuel + 1) pattern name star = some result := by
  induction fuel with
  | zero =>
    intro pattern name star result h
    cases h
  | succ fuel ih =>
    intro pattern name star result h
    cases name with
    | nil => exact h
    | cons c name =>
      rw [matchLoop_cons] at h ⊢
      by_cases hany : pattern.head? = some (byte '?')
      · rw [if_pos hany] at h ⊢
        exact ih h
      by_cases hfold : pattern.head?.map asciiFold = some (asciiFold c)
      · rw [if_neg hany, if_pos hfold] at h ⊢
        exact ih h
      by_cases hstar : pattern.head? = some (byte '*')
      · rw [if_neg hany, if_neg hfold, if_pos hstar] at h ⊢
        exact ih h
      · rw [if_neg hany, if_neg hfold, if_neg hstar] at h ⊢
        cases star with
        | none => exact h
        | some kept => exact ih h

theorem matchLoop_unique {fuel fuel' : ℕ} {pattern name : List UInt8}
    {star : Option (List UInt8 × List UInt8)} {result result' : Bool}
    (h : matchLoop fuel pattern name star = some result)
    (h' : matchLoop fuel' pattern name star = some result') : result = result' := by
  have hmore : ∀ {fuel : ℕ} {result : Bool}, matchLoop fuel pattern name star = some result →
      ∀ extra, matchLoop (fuel + extra) pattern name star = some result := by
    intro fuel result h extra
    induction extra with
    | zero => exact h
    | succ extra ih => exact matchLoop_succ ih
  have hboth := hmore h fuel'
  rw [Nat.add_comm, hmore h' fuel] at hboth
  exact (Option.some.inj hboth).symm

/-- **The matcher**: it ends, and the result says whether the name can be split for the
pattern.  `*.*` stands for `*`. -/
theorem nameMatches_iff {pattern name : List UInt8} (hpattern : Plain true pattern)
    (hname : Plain false name) :
    (∃ fuel result, nameMatches fuel pattern name = some result) ∧
    ∀ fuel result, nameMatches fuel pattern name = some result →
      (result = true ↔
        Glob (if pattern = Bytes.ascii "*.*" then Bytes.ascii "*" else pattern) name) := by
  have hglob : IsText (if pattern = Bytes.ascii "*.*" then Bytes.ascii "*" else pattern) := by
    split
    · exact (utf8Valid_iff _).mp (by decide +kernel)
    · exact (utf8Valid_iff _).mp hpattern.utf8
  have htext := (utf8Valid_iff _).mp hname.utf8
  have hstar : byte '*' ∉ name := by
    intro hmem
    have hvalid := List.all_eq_true.mp hname.bytes _ hmem
    revert hvalid
    decide
  obtain ⟨hhalf, howed⟩ := half_of_isText hglob
  obtain ⟨hhalf', howed'⟩ := half_of_isText htext
  have hinv : Inv _ name none :=
    ⟨hhalf, hhalf', howed.trans howed'.symm, hstar, fun _ _ h => by cases h⟩
  obtain ⟨fuel, result, hloop, hresult⟩ := matchLoop_result hinv
  have hmeans := hresult.trans (or_iff_left not_later_none)
  refine ⟨⟨fuel, result, hloop⟩, fun fuel' result' hloop' => ?_⟩
  rw [← matchLoop_unique hloop hloop']
  exact hmeans

/-- The first star goes back three times. -/
theorem nameMatches_iff_retried : Glob (Bytes.ascii "*n?.T*") (Bytes.ascii "banana.txt") := by
  have hpattern : Plain true (Bytes.ascii "*n?.T*") := ⟨by decide +kernel, by decide +kernel⟩
  have hname : Plain false (Bytes.ascii "banana.txt") := ⟨by decide +kernel, by decide +kernel⟩
  have hrun : nameMatches 30 (Bytes.ascii "*n?.T*") (Bytes.ascii "banana.txt") = some true := by
    decide +kernel
  have hglob := ((nameMatches_iff hpattern hname).2 30 true hrun).mp rfl
  rwa [if_neg (by decide +kernel)] at hglob

end Wildcard
