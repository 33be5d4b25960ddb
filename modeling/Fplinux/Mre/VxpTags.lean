/-
The tag table of a VXP file, parsed twice (`native-loader.inc`, `ads_image.c`).

The engine parses the table to choose a loader, and the ADS loader parses it
again.  Both walk the entries from the offset in the trailer to an entry with
number zero.  They read the same values, but the engine takes 256 entries and the
ADS loader 128.

Main results:
* `tagLoops_agree`: what the second walk does where the first one ends;
* `tags_agree_iff`: an accepted table is accepted by both, with the same values,
  exactly when its end is among the first 128 entries.
-/
import Fplinux.Mre.FileBytes

namespace Mre

open Option (bind_some)
open Traced (value?_bind value?_pure)

def imageCap : ℕ := 8 * 1024 * 1024

def adsMaxTags : ℕ := 128

def uint32Max : ℕ := 2 ^ 32 - 1

/-! ### The engine -/

/-- `struct native_vxp_tags`. -/
structure NativeTags where
  type : ℕ := uint32Max
  compiler : ℕ := uint32Max
  compressed : ℕ := 0
  ramKib : ℕ := 0
  resolution : ℕ := 0
  payloadBytes : ℕ := 0
  deriving DecidableEq, Repr

/-- What `native_load_tags` returns and leaves in `app`; a screen without a size
stays as it was. -/
structure LoadedTags where
  tags : NativeTags
  ramLimit : ℕ
  screen : Option (ℕ × ℕ)
  deriving DecidableEq, Repr

/-- The numeric tags of the engine. -/
def nativeNumeric : List ℕ := [0x21, 0x15, 0x22, 0x0f, 0x10]

def NativeTags.set (tags : NativeTags) (id value : ℕ) : NativeTags :=
  { tags with
    type := if id = 0x21 then value else tags.type
    compiler := if id = 0x15 then value else tags.compiler
    compressed := if id = 0x22 then value else tags.compressed
    ramKib := if id = 0x0f then value else tags.ramKib
    resolution := if id = 0x10 then value else tags.resolution }

/-- The end of the table. -/
def finishTags (tags : NativeTags) (bytes : ℕ) : Traced Access LoadedTags :=
  if bytes ≠ 0 then .fail "VXP terminator has a nonzero length"
  else if 1 < tags.compressed ∨ imageCap / 1024 < tags.ramKib then
    .fail "VXP compression or requested RAM exceeds the native contract"
  else
    let width := tags.resolution / 2 ^ 16
    let height := tags.resolution % 2 ^ 16
    pure {
      tags := tags
      ramLimit := (if tags.ramKib < 512 then 512 else tags.ramKib) * 1024
      screen :=
        if 32 ≤ width ∧ width ≤ 1024 ∧ 32 ≤ height ∧ height ≤ 1024 then some (width, height)
        else none }

/-- The loop of `native_load_tags` for so many more entries.  `seen` has the numeric
tags that were read. -/
def nativeTagLoop (file : List UInt8) : ℕ → ℕ → List ℕ → NativeTags → Traced Access LoadedTags
  | 0, _, _, _ => .fail "VXP tag table has too many entries or no terminator"
  | count + 1, cursor, seen, tags =>
    if file.length - 12 < cursor ∨ file.length - 12 - cursor < 8 then
      .fail "truncated VXP tag header"
    else do
      let id ← read32 file cursor
      let bytes ← read32 file (cursor + 4)
      let cursor ← add (2 ^ 32) cursor 8
      if file.length - 12 - cursor < bytes then .fail "VXP tag value exceeds the file"
      else if id = 0 then finishTags tags bytes
      else if id ∈ nativeNumeric then
        if bytes ≠ 4 ∨ id ∈ seen then
          .fail ("duplicate or malformed numeric VXP tag 0x" ++ String.ofList (Nat.toDigits 16 id))
        else do
          let value ← read32 file cursor
          let cursor ← add (2 ^ 32) cursor bytes
          nativeTagLoop file count cursor (id :: seen) (tags.set id value)
      else do
        let cursor ← add (2 ^ 32) cursor bytes
        nativeTagLoop file count cursor seen tags

def nativeLoadTags (file : List UInt8) : Traced Access LoadedTags :=
  if file.length < 12 then .fail "VXP is too short for its trailer"
  else do
    let payloadBytes ← read32 file (file.length - 12)
    if file.length - 12 ≤ payloadBytes then .fail "VXP tag offset is outside the file"
    else nativeTagLoop file 256 payloadBytes [] { payloadBytes := payloadBytes }

/-! ### The ADS loader -/

/-- The fields of `struct ads_info` that `tags` sets, as `ads_image_load` presets them. -/
structure AdsTags where
  tagsOffset : ℕ := 0
  fileType : ℕ := uint32Max
  compiler : ℕ := uint32Max
  compressed : ℕ := 0
  ramKib : ℕ := 0
  deriving DecidableEq, Repr

/-- The numeric tags of the ADS loader. -/
def adsNumeric : List ℕ := [0x21, 0x15, 0x22, 0x0f]

def AdsTags.set (info : AdsTags) (id value : ℕ) : AdsTags :=
  { info with
    fileType := if id = 0x21 then value else info.fileType
    compiler := if id = 0x15 then value else info.compiler
    compressed := if id = 0x22 then value else info.compressed
    ramKib := if id = 0x0f then value else info.ramKib }

/-- The loop of `tags` for so many more entries, in a table that ends at `stop`. -/
def adsTagLoop (file : List UInt8) (stop : ℕ) :
    ℕ → ℕ → List ℕ → AdsTags → Traced Access AdsTags
  | 0, _, _, _ => .fail "too many tags/no terminator"
  | count + 1, pos, seen, info =>
    if range pos 8 stop = false then .fail "truncated tag header"
    else do
      let id ← read32 file pos
      let n ← read32 file (pos + 4)
      let pos ← add (2 ^ 32) pos 8
      if range pos n stop = false then .fail "tag value outside table"
      else if id = 0 then if n ≠ 0 then .fail "invalid tag terminator" else pure info
      else if id ∈ adsNumeric then
        if n ≠ 4 ∨ id ∈ seen then .fail "invalid/duplicate numeric tag"
        else do
          let value ← read32 file pos
          let pos ← add (2 ^ 32) pos n
          adsTagLoop file stop count pos (id :: seen) (info.set id value)
      else do
        let pos ← add (2 ^ 32) pos n
        adsTagLoop file stop count pos seen info

/-- `tags`. -/
def adsTags (file : List UInt8) (info : AdsTags) : Traced Access AdsTags :=
  if file.length < 12 then .fail "truncated MRE trailer"
  else do
    let pos ← read32 file (file.length - 12)
    if range pos 8 (file.length - 12) = false then .fail "tag table outside file"
    else
      adsTagLoop file (file.length - 12) adsMaxTags pos [] { info with tagsOffset := pos }

/-! ### Both walks -/

/-- Where entry `n` is, counted from the entry at `start`. -/
def entryAt (file : List UInt8) (start : ℕ) : ℕ → ℕ
  | 0 => start
  | n + 1 => entryAt file (start + 8 + le32 file (start + 4)) n

/-- The values that both parsers read. -/
def NativeTags.shared (tags : NativeTags) : AdsTags :=
  ⟨tags.payloadBytes, tags.type, tags.compiler, tags.compressed, tags.ramKib⟩

theorem shared_set (tags : NativeTags) (id value : ℕ) :
    (tags.set id value).shared = tags.shared.set id value := rfl

theorem set_other (info : AdsTags) {id : ℕ} (value : ℕ) (h : id ∉ adsNumeric) :
    info.set id value = info := by
  simp only [adsNumeric, List.mem_cons, List.not_mem_nil, or_false, not_or] at h
  simp only [AdsTags.set, h, if_false]

theorem finishTags_some {tags : NativeTags} {bytes : ℕ} {loaded : LoadedTags}
    (h : (finishTags tags bytes).value? = some loaded) : bytes = 0 ∧ loaded.tags = tags := by
  simp only [finishTags] at h
  split_ifs at h with hbytes hlimits
  · exact absurd h nofun
  · exact absurd h nofun
  all_goals
    rw [value?_pure] at h
    exact ⟨not_not.mp hbytes, (congrArg LoadedTags.tags (Option.some.inj h)).symm⟩

theorem adsTagLoop_entry {file : List UInt8} {stop pos count : ℕ} {seen : List ℕ} {info : AdsTags}
    (hhead : range pos 8 stop = true) (hvalue : range (pos + 8) (le32 file (pos + 4)) stop = true)
    (hid : le32 file pos ≠ 0)
    (hnumeric : le32 file pos ∈ adsNumeric → le32 file (pos + 4) = 4 ∧ le32 file pos ∉ seen) :
    (adsTagLoop file stop (count + 1) pos seen info).value? =
      (adsTagLoop file stop count (pos + 8 + le32 file (pos + 4))
        (if le32 file pos ∈ adsNumeric then le32 file pos :: seen else seen)
        (info.set (le32 file pos) (le32 file (pos + 8)))).value? := by
  rw [adsTagLoop, if_neg (by rw [hhead]; exact nofun)]
  simp only [value?_bind, value?_read32, value?_add, bind_some, hvalue, Bool.true_eq_false,
    if_false, if_neg hid]
  by_cases hmem : le32 file pos ∈ adsNumeric
  · obtain ⟨hfour, hfresh⟩ := hnumeric hmem
    have hgood : ¬(le32 file (pos + 4) ≠ 4 ∨ le32 file pos ∈ seen) := by
      rintro (hother | hagain)
      · exact hother hfour
      · exact hfresh hagain
    simp only [if_pos hmem, if_neg hgood, value?_bind, value?_read32, value?_add, bind_some]
  · simp only [if_neg hmem, set_other info _ hmem, value?_bind, value?_add, bind_some]

/-- The end of a table is at entry `k`, and the ADS loader gives the values `tags` if it gets so
far, and fails otherwise. -/
def EndsWith (file : List UInt8) (n cursor : ℕ) (seen : List ℕ) (info tags : AdsTags) : Prop :=
  ∃ k < n, le32 file (entryAt file cursor k) = 0 ∧
    (∀ j < k, le32 file (entryAt file cursor j) ≠ 0) ∧
    ∀ (m : ℕ) (seen' : List ℕ), (∀ id ∈ adsNumeric, id ∈ seen' ↔ id ∈ seen) →
      (adsTagLoop file (file.length - 12) m cursor seen' info).value? =
        if k < m then some tags else none

/-- **The walks agree** where the engine finds the end. -/
theorem tagLoops_agree {file : List UInt8} {n cursor : ℕ} {seen : List ℕ} {tags : NativeTags}
    {loaded : LoadedTags} (h : (nativeTagLoop file n cursor seen tags).value? = some loaded) :
    EndsWith file n cursor seen tags.shared loaded.tags.shared := by
  induction n generalizing cursor seen tags with
  | zero => exact absurd h nofun
  | succ n ih =>
    rw [nativeTagLoop] at h
    by_cases hhead : file.length - 12 < cursor ∨ file.length - 12 - cursor < 8
    · rw [if_pos hhead] at h
      exact absurd h nofun
    rw [if_neg hhead] at h
    simp only [value?_bind, value?_read32, value?_add, bind_some] at h
    by_cases hlong : file.length - 12 - (cursor + 8) < le32 file (cursor + 4)
    · rw [if_pos hlong] at h
      exact absurd h nofun
    rw [if_neg hlong] at h
    have hrange : range cursor 8 (file.length - 12) = true := range_iff.mpr (by omega)
    have hvalue : range (cursor + 8) (le32 file (cursor + 4)) (file.length - 12) = true :=
      range_iff.mpr (by omega)
    by_cases hid : le32 file cursor = 0
    · -- the end of the table
      rw [if_pos hid] at h
      obtain ⟨hempty, hloaded⟩ := finishTags_some h
      refine ⟨0, Nat.succ_pos n, hid, fun j hj => absurd hj (Nat.not_lt_zero j), ?_⟩
      intro m seen' _
      cases m with
      | zero => rfl
      | succ m =>
        rw [hempty] at hvalue
        rw [adsTagLoop, if_neg (by rw [hrange]; exact nofun), if_pos (Nat.succ_pos m), hloaded]
        simp only [value?_bind, value?_read32, value?_add, bind_some, hempty, hvalue,
          Bool.true_eq_false, if_false, if_pos hid, ne_eq, not_true_eq_false, value?_pure]
    · rw [if_neg hid] at h
      -- the entry, then the same from the next one
      have hnext : ∀ seen'' tags'',
          (nativeTagLoop file n (cursor + 8 + le32 file (cursor + 4)) seen'' tags'').value? =
            some loaded →
          tags''.shared = tags.shared.set (le32 file cursor) (le32 file (cursor + 8)) →
          (le32 file cursor ∈ adsNumeric → le32 file (cursor + 4) = 4 ∧ le32 file cursor ∉ seen) →
          (∀ id ∈ adsNumeric, id ∈ seen'' ↔ id = le32 file cursor ∨ id ∈ seen) →
          EndsWith file (n + 1) cursor seen tags.shared loaded.tags.shared := by
        intro seen'' tags'' hrest hshared hnumeric hseen''
        obtain ⟨k, hk, hend, hbefore, hads⟩ := ih hrest
        refine ⟨k + 1, Nat.succ_lt_succ hk, hend, ?_, ?_⟩
        · intro j hj
          cases j with
          | zero => exact hid
          | succ j => exact hbefore j (Nat.lt_of_succ_lt_succ hj)
        · intro m seen' hseen'
          cases m with
          | zero => rfl
          | succ m =>
            rw [adsTagLoop_entry hrange hvalue hid
              fun hmem => ⟨(hnumeric hmem).1, fun hin => (hnumeric hmem).2 ((hseen' _ hmem).mp hin)⟩,
              ← hshared, hads m _ ?_]
            · simp only [Nat.add_lt_add_iff_right]
            · intro id hidmem
              rw [hseen'' id hidmem]
              split_ifs with hmem
              · rw [List.mem_cons, hseen' id hidmem]
              · rw [hseen' id hidmem]
                refine ⟨.inr, fun hor => hor.resolve_left ?_⟩
                rintro rfl
                exact hmem hidmem
      by_cases hmem : le32 file cursor ∈ nativeNumeric
      · rw [if_pos hmem] at h
        by_cases hbad : le32 file (cursor + 4) ≠ 4 ∨ le32 file cursor ∈ seen
        · rw [if_pos hbad] at h
          exact absurd h nofun
        rw [if_neg hbad] at h
        simp only [value?_bind, value?_read32, value?_add, bind_some] at h
        rw [not_or, not_not] at hbad
        exact hnext _ _ h (shared_set _ _ _) (fun _ => hbad) fun id _ => List.mem_cons
      · rw [if_neg hmem] at h
        have hother : le32 file cursor ∉ adsNumeric :=
          fun hin => hmem (List.mem_append_left [0x10] hin)
        refine hnext seen tags h (set_other _ _ hother).symm (fun hin => absurd hin hother) ?_
        intro id hidmem
        refine ⟨.inr, fun hor => hor.resolve_left ?_⟩
        rintro rfl
        exact hother hidmem

/-- **The parsers agree on an accepted table exactly when its end is among the first 128
entries**; the ADS loader rejects every other one. -/
theorem tags_agree_iff {file : List UInt8} {loaded : LoadedTags}
    (h : (nativeLoadTags file).value? = some loaded) :
    (adsTags file {}).value? = some loaded.tags.shared ↔
      ∃ n < adsMaxTags, le32 file (entryAt file (le32 file (file.length - 12)) n) = 0 := by
  rw [nativeLoadTags] at h
  by_cases hshort : file.length < 12
  · rw [if_pos hshort] at h
    exact absurd h nofun
  rw [if_neg hshort] at h
  simp only [value?_bind, value?_read32, bind_some] at h
  by_cases houtside : file.length - 12 ≤ le32 file (file.length - 12)
  · rw [if_pos houtside] at h
    exact absurd h nofun
  rw [if_neg houtside] at h
  obtain ⟨k, -, hend, hbefore, hads⟩ := tagLoops_agree h
  have hads := hads adsMaxTags [] fun _ _ => Iff.rfl
  have hhead : range (le32 file (file.length - 12)) 8 (file.length - 12) = true := by
    -- the engine has found room for the first entry
    rw [nativeTagLoop] at h
    by_cases hroom : file.length - 12 < le32 file (file.length - 12) ∨
        file.length - 12 - le32 file (file.length - 12) < 8
    · rw [if_pos hroom] at h
      exact absurd h nofun
    · exact range_iff.mpr (by omega)
  have hvalue : (adsTags file {}).value? = if k < adsMaxTags then some loaded.tags.shared else none := by
    rw [← hads, adsTags, if_neg hshort]
    simp only [value?_bind, value?_read32, bind_some, hhead, Bool.true_eq_false,
      if_false]
    rfl
  rw [hvalue]
  constructor
  · intro hsome
    split_ifs at hsome with hk
    exact ⟨k, hk, hend⟩
  · rintro ⟨n, hn, hzero⟩
    refine if_pos (Nat.lt_of_not_le fun hle => ?_)
    exact hbefore n (Nat.lt_of_lt_of_le hn hle) hzero

/-! ### Many tags -/

/-- A tag without a value that neither parser knows. -/
def unknownTag : List UInt8 := [1, 0, 0, 0, 0, 0, 0, 0]

/-- So many unknown tags, the end of the table and the trailer. -/
def unknownTags (count : ℕ) : List UInt8 :=
  (List.replicate count unknownTag).flatten ++ List.replicate 20 0

/-- A compressed VXP with so many unknown tags. -/
def taggedFile (count : ℕ) : List UInt8 :=
  [0x22, 0, 0, 0, 4, 0, 0, 0, 1, 0, 0, 0] ++ unknownTags count

theorem unknownTags_succ (count : ℕ) : unknownTags (count + 1) = unknownTag ++ unknownTags count := by
  rw [unknownTags, List.replicate_succ, List.flatten_cons, List.append_assoc]
  rfl

theorem taggedFile_length (count : ℕ) : (taggedFile count).length = 32 + 8 * count := by
  have hunknown : (unknownTags count).length = 20 + 8 * count := by
    induction count with
    | zero => rfl
    | succ count ih =>
      rw [unknownTags_succ, List.length_append, ih]
      show 8 + (20 + 8 * count) = _
      omega
  rw [taggedFile, List.length_append, hunknown]
  show 12 + (20 + 8 * count) = _
  omega

theorem le32_unknownTags {count j : ℕ} (h : j < count) {i : ℕ} (hi : i + 4 ≤ 8) :
    le32 (unknownTags count) (8 * j + i) = le32 unknownTag i := by
  induction count generalizing j with
  | zero => exact absurd h (Nat.not_lt_zero j)
  | succ count ih =>
    rw [unknownTags_succ]
    cases j with
    | zero =>
      rw [Nat.mul_zero, Nat.zero_add]
      exact le32_append_left hi _
    | succ j =>
      have hoffset : 8 * (j + 1) + i = unknownTag.length + (8 * j + i) := by
        show _ = 8 + (8 * j + i)
        omega
      rw [hoffset, le32_append_right]
      exact ih (Nat.lt_of_succ_lt_succ h)

theorem le32_unknownTags_end (count i : ℕ) :
    le32 (unknownTags count) (8 * count + i) = le32 (List.replicate 20 0) i := by
  induction count with
  | zero =>
    rw [Nat.mul_zero, Nat.zero_add]
    rfl
  | succ count ih =>
    have hoffset : 8 * (count + 1) + i = unknownTag.length + (8 * count + i) := by
      show _ = 8 + (8 * count + i)
      omega
    rw [unknownTags_succ, hoffset, le32_append_right]
    exact ih

theorem le32_taggedFile (count offset : ℕ) :
    le32 (taggedFile count) (12 + offset) = le32 (unknownTags count) offset :=
  le32_append_right [0x22, 0, 0, 0, 4, 0, 0, 0, 1, 0, 0, 0] _ offset

theorem nativeTagLoop_unknown {count n j : ℕ} (hj : j ≤ count) (seen : List ℕ) (tags : NativeTags) :
    (nativeTagLoop (taggedFile count) (n + (count - j) + 1) (12 + 8 * j) seen tags).value? =
      (finishTags tags 0).value? := by
  have hlength := taggedFile_length count
  generalize hleft : count - j = left
  induction left generalizing j with
  | zero =>
    obtain rfl : j = count := by omega
    have hid : le32 (taggedFile j) (12 + 8 * j) = 0 := by
      rw [le32_taggedFile]
      exact le32_unknownTags_end j 0
    have hbytes : le32 (taggedFile j) (12 + 8 * j + 4) = 0 := by
      rw [Nat.add_assoc, le32_taggedFile]
      exact le32_unknownTags_end j 4
    rw [nativeTagLoop, if_neg (by omega)]
    simp only [value?_bind, value?_read32, value?_add, bind_some, hid, hbytes, if_true,
      Nat.not_lt_zero, if_false]
  | succ left ih =>
    have hid : le32 (taggedFile count) (12 + 8 * j) = 1 := by
      rw [le32_taggedFile]
      exact le32_unknownTags (show j < count by omega) (show 0 + 4 ≤ 8 by decide)
    have hbytes : le32 (taggedFile count) (12 + 8 * j + 4) = 0 := by
      rw [Nat.add_assoc, le32_taggedFile]
      exact le32_unknownTags (show j < count by omega) (show 4 + 4 ≤ 8 by decide)
    have hother : 1 ∉ nativeNumeric := by decide
    rw [← Nat.add_assoc, nativeTagLoop, if_neg (by omega)]
    simp only [value?_bind, value?_read32, value?_add, bind_some, hid, hbytes, Nat.one_ne_zero,
      Nat.not_lt_zero, if_false, if_neg hother]
    exact ih (show j + 1 ≤ count by omega) (by omega)

theorem nativeLoadTags_taggedFile {count : ℕ} (h : count ≤ 254) :
    (nativeLoadTags (taggedFile count)).value? = some ⟨{ compressed := 1 }, 512 * 1024, none⟩ := by
  have hlength := taggedFile_length count
  have htrailer : le32 (taggedFile count) ((taggedFile count).length - 12) = 0 := by
    rw [hlength, show 32 + 8 * count - 12 = 12 + (8 * count + 8) by omega, le32_taggedFile,
      le32_unknownTags_end]
    rfl
  have hid : le32 (taggedFile count) 0 = 0x22 := le32_append_left (by decide) _
  have hbytes : le32 (taggedFile count) 4 = 4 := le32_append_left (by decide) _
  have hvalue : le32 (taggedFile count) 8 = 1 := le32_append_left (by decide) _
  have hmem : 0x22 ∈ nativeNumeric := by decide
  rw [nativeLoadTags, if_neg (by omega)]
  simp only [value?_bind, value?_read32, bind_some, htrailer]
  rw [if_neg (by omega), nativeTagLoop, if_neg (by omega)]
  simp only [value?_bind, value?_read32, value?_add, bind_some, Nat.zero_add, hid, hbytes,
    if_pos hmem]
  rw [if_neg (by omega), if_neg (by decide), if_neg (by decide)]
  simp only [value?_bind, value?_read32, value?_add, bind_some, hvalue]
  have hrest := @nativeTagLoop_unknown count (254 - count) 0 (Nat.zero_le _) [0x22]
    (NativeTags.set { payloadBytes := 0 } 0x22 1)
  rw [show 254 - count + (count - 0) + 1 = 255 by omega] at hrest
  exact hrest

/-- One unknown tag. -/
theorem tags_agree_iff_sample :
    (adsTags (taggedFile 1) {}).value? = some ⟨0, uint32Max, uint32Max, 1, 0⟩ :=
  (tags_agree_iff (nativeLoadTags_taggedFile (by decide))).mpr ⟨2, by decide, by decide⟩

theorem entryAt_taggedFile {count n : ℕ} (hn : n < count) :
    entryAt (taggedFile count) 12 n = 12 + 8 * n := by
  have hstep : ∀ {j n : ℕ}, j + n < count →
      entryAt (taggedFile count) (12 + 8 * j) n = 12 + 8 * (j + n) := by
    intro j n
    induction n generalizing j with
    | zero => exact fun _ => rfl
    | succ n ih =>
      intro hlt
      have hbytes : le32 (taggedFile count) (12 + 8 * j + 4) = 0 := by
        rw [Nat.add_assoc, le32_taggedFile]
        exact le32_unknownTags (show j < count by omega) (show 4 + 4 ≤ 8 by decide)
      rw [entryAt, hbytes]
      have hrest := @ih (j + 1) (by omega)
      rw [show 12 + 8 * j + 8 + 0 = 12 + 8 * (j + 1) by omega, hrest]
      omega
  have h := @hstep 0 n (by omega)
  rw [Nat.zero_add] at h
  exact h

/-- **The engine takes 128 tags before the end, and the ADS loader does not.** -/
theorem tags_disagree :
    ¬∀ (file : List UInt8) (loaded : LoadedTags), (nativeLoadTags file).value? = some loaded →
      (adsTags file {}).value? = some loaded.tags.shared := by
  intro h
  have hnative := nativeLoadTags_taggedFile (show 127 ≤ 254 by decide)
  obtain ⟨n, hn, hzero⟩ := (tags_agree_iff hnative).mp (h _ _ hnative)
  have htrailer : le32 (taggedFile 127) ((taggedFile 127).length - 12) = 0 := by
    rw [taggedFile_length]
    exact (le32_taggedFile 127 1024).trans (le32_unknownTags_end 127 8)
  have hbytes : le32 (taggedFile 127) 4 = 4 := le32_append_left (by decide) _
  rw [htrailer] at hzero
  cases n with
  | zero =>
    have hid : le32 (taggedFile 127) 0 = 0x22 := le32_append_left (by decide) _
    rw [entryAt, hid] at hzero
    exact absurd hzero (by decide)
  | succ n =>
    have hlt : n < 127 := Nat.lt_of_succ_lt_succ hn
    rw [entryAt, Nat.zero_add, Nat.zero_add, hbytes, entryAt_taggedFile hlt, le32_taggedFile,
      show 8 * n = 8 * n + 0 from rfl, le32_unknownTags hlt (by decide)] at hzero
    exact absurd hzero (by decide)

end Mre
