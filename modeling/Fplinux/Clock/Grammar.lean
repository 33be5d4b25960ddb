/-
What the lexical check accepts (`scan_tree` of `clock-wire.c`).

json-c is lenient: of two members with one key it keeps the last value, it ends a
key at a zero byte and it saturates integers, and it takes texts that are no JSON.
The scan walks the original text alongside json-c's tree.  A text that both accept
is one object in the strict grammar, and the tree is what the text says.

`ReadsLeniently` is all that is assumed of json-c: the tree of a text in the
grammar is its lenient reading.  Nothing is assumed about other texts.

Main results:
- `scanString_sound`, `scanInt_sound`: the tokens;
- `scanItems_sound`, `scanMembers_sound`: the loops over a container;
- `scanTree_sound`: the scan of a tree accepts text in the grammar only;
- `parseObject_strict`: so does the whole check, and the tree is exact.
-/
import Fplinux.Clock.Scan
import Fplinux.Lib.JsonGrammar

namespace Clock

open Bytes (byte ascii)
open Json (Bare Doc Blank Hex Hex4 Chars StringToken IntToken Value Element Items Member Members)

/-- What the code relies on of json-c: of a text in the grammar its tokener gives
the lenient reading, if any. -/
def ReadsLeniently (tokener : Tokener) : Prop :=
  ∀ depth validate doc text tree, Element doc text → tokener depth validate text = some tree →
    tree = doc.tree

/-! ### Tokens -/

theorem skipSpace_split (text : List UInt8) :
    ∃ blank, Blank blank ∧ text = blank ++ skipSpace text := by
  refine ⟨text.takeWhile isSpace, fun b hb => ?_, List.takeWhile_append_dropWhile.symm⟩
  exact List.mem_takeWhile_imp hb

theorem hex_of_hexValue {b : UInt8} {n : ℕ} (h : hexValue b = some n) : Hex b n := by
  have hself : ∀ m : ℕ, m = b.toNat → m.toUInt8 = b := by
    rintro m rfl
    exact UInt8.ofNat_toNat
  rw [hexValue] at h
  split at h
  · rename_i hb
    obtain rfl := Option.some.inj h
    have hge : 48 ≤ b.toNat := UInt8.le_iff_toNat_le.mp hb.1
    have hle : b.toNat ≤ 57 := UInt8.le_iff_toNat_le.mp hb.2
    have hdigit := @Hex.digit (b.toNat - 48) (by omega)
    rwa [hself _ (by omega)] at hdigit
  · split at h
    · rename_i hb
      obtain rfl := Option.some.inj h
      have hge : 97 ≤ b.toNat := UInt8.le_iff_toNat_le.mp hb.1
      have hle : b.toNat ≤ 102 := UInt8.le_iff_toNat_le.mp hb.2
      have hlower := @Hex.lower (b.toNat - 97) (by omega)
      rwa [hself _ (by omega), Nat.add_comm] at hlower
    · split at h
      · rename_i hb
        obtain rfl := Option.some.inj h
        have hge : 65 ≤ b.toNat := UInt8.le_iff_toNat_le.mp hb.1
        have hle : b.toNat ≤ 70 := UInt8.le_iff_toNat_le.mp hb.2
        have hupper := @Hex.upper (b.toNat - 65) (by omega)
        rwa [hself _ (by omega), Nat.add_comm] at hupper
      · simp at h

variable {rest text : List UInt8}

theorem unicodeEscape_sound {unit : ℕ} (h : unicodeEscape text = some (unit, rest)) :
    ∃ digits, text = digits ++ rest ∧ Hex4 digits unit := by
  match text with
  | a :: b :: c :: d :: tail =>
    simp only [unicodeEscape, Option.bind_eq_bind, Option.bind_eq_some_iff, Option.some.injEq,
      Prod.mk.injEq] at h
    obtain ⟨x, hx, y, hy, z, hz, w, hw, rfl, rfl⟩ := h
    exact ⟨[a, b, c, d], rfl, .mk (hex_of_hexValue hx) (hex_of_hexValue hy) (hex_of_hexValue hz)
      (hex_of_hexValue hw)⟩
  | [] => simp [unicodeEscape] at h
  | [_] => simp [unicodeEscape] at h
  | [_, _] => simp [unicodeEscape] at h
  | [_, _, _] => simp [unicodeEscape] at h

theorem scanUnicode_sound (h : scanUnicode text = some rest) :
    ∃ raw spelled, text = raw ++ rest ∧ ∀ {tail bytes}, Chars tail bytes →
      Chars (byte '\\' :: byte 'u' :: (raw ++ tail)) (spelled ++ bytes) := by
  simp only [scanUnicode, Option.bind_eq_bind, Option.bind_eq_some_iff] at h
  obtain ⟨⟨high, after⟩, hread, h⟩ := h
  obtain ⟨digits, rfl, hdigits⟩ := unicodeEscape_sound hread
  simp only at h
  split at h
  · simp at h
  · rename_i hlow
    split at h
    · rename_i hhigh
      split at h
      · rename_i slash u tail
        split at h
        · rename_i hpair
          obtain ⟨rfl, rfl⟩ := hpair
          simp only [Option.bind_eq_some_iff] at h
          obtain ⟨⟨low, after⟩, hread', h⟩ := h
          obtain ⟨digits', rfl, hdigits'⟩ := unicodeEscape_sound hread'
          simp only at h
          split at h
          · simp at h
          · rename_i hrange
            obtain rfl := Option.some.inj h
            refine ⟨digits ++ byte '\\' :: byte 'u' :: digits',
              Json.utf8 (0x10000 + (high - 0xd800) * 0x400 + (low - 0xdc00)), by simp,
              fun hchars => ?_⟩
            have hpair := Chars.pair hdigits hdigits' hhigh ⟨by omega, by omega⟩ hchars
            simpa using hpair
        · simp at h
      · simp at h
    · rename_i hhigh
      obtain rfl := Option.some.inj h
      exact ⟨digits, Json.utf8 high, rfl, fun hchars => .unicode hdigits hhigh hlow hchars⟩

theorem unescape_of_isEscape {e : UInt8} (h : isEscape e = true) (hu : e ≠ byte 'u') :
    ∃ b, Json.unescape e = some b := by
  have hmem : e ∈ ascii "\"\\/bfnrtu" := by simpa [isEscape] using h
  have hall : ∀ e ∈ ascii "\"\\/bfnrtu", e ≠ byte 'u' → (Json.unescape e).isSome = true := by
    decide +kernel
  exact Option.isSome_iff_exists.mp (hall e hmem hu)

theorem scanBody_sound {fuel : ℕ} (h : scanBody fuel text = some rest) :
    ∃ raw bytes, text = raw ++ byte '"' :: rest ∧ Chars raw bytes := by
  induction fuel generalizing text with
  | zero => simp [scanBody] at h
  | succ fuel ih =>
    cases text with
    | nil => simp [scanBody] at h
    | cons b text =>
      simp only [scanBody] at h
      split at h
      · simp at h
      · rename_i hcontrol
        split at h
        · -- An escape.
          rename_i hslash
          subst hslash
          split at h
          · simp at h
          · rename_i e text
            split at h
            · simp at h
            · rename_i hescape
              split at h
              · rename_i hu
                subst hu
                obtain ⟨after, hunicode, hafter⟩ := Option.bind_eq_some_iff.mp h
                obtain ⟨raw, spelled, rfl, hchars⟩ := scanUnicode_sound hunicode
                obtain ⟨tail, bytes, rfl, htail⟩ := ih hafter
                exact ⟨_, _, by simp, hchars htail⟩
              · rename_i hu
                obtain ⟨b, hb⟩ := unescape_of_isEscape (by simpa using hescape) hu
                obtain ⟨tail, bytes, rfl, htail⟩ := ih h
                exact ⟨_, _, rfl, .escape hb htail⟩
        · rename_i hslash
          split at h
          · rename_i hquote
            subst hquote
            obtain rfl := Option.some.inj h
            exact ⟨[], [], rfl, .nil⟩
          · rename_i hquote
            obtain ⟨tail, bytes, rfl, htail⟩ := ih h
            exact ⟨_, _, rfl, .plain (by omega) hquote hslash htail⟩

/-- **A string token** is a string of the grammar. -/
theorem scanString_sound {token : List UInt8} (h : scanString text = some (token, rest)) :
    text = token ++ rest ∧ ∃ bytes, StringToken token bytes := by
  cases text with
  | nil => simp [scanString] at h
  | cons b body =>
    simp only [scanString] at h
    split at h
    · rename_i hquote
      subst hquote
      obtain ⟨after, hbody, heq⟩ := Option.map_eq_some_iff.mp h
      simp only [Prod.mk.injEq] at heq
      obtain ⟨rfl, rfl⟩ := heq
      obtain ⟨raw, bytes, rfl, hchars⟩ := scanBody_sound hbody
      have happ : byte '"' :: (raw ++ byte '"' :: after) =
          (byte '"' :: (raw ++ [byte '"'])) ++ after := by
        simp
      have htake : (byte '"' :: (raw ++ byte '"' :: after)).take
          ((byte '"' :: (raw ++ byte '"' :: after)).length - after.length) =
            byte '"' :: (raw ++ [byte '"']) := by
        rw [happ, List.length_append, Nat.add_sub_cancel, List.take_left]
      rw [htake]
      exact ⟨happ, bytes, raw, rfl, hchars⟩
    · simp at h

theorem isDecimal_of_isDigit {b : UInt8} (h : isDigit b = true) : Json.isDecimal b = true := by
  simp only [isDigit, decide_eq_true_eq] at h
  simp only [Json.isDecimal, decide_eq_true_eq]
  exact ⟨UInt8.le_iff_toNat_le.mp h.1, UInt8.le_iff_toNat_le.mp h.2⟩

/-- **An integer token** is an integer of the grammar, in the range of 64 bits. -/
theorem scanInt_sound {token : List UInt8} (h : scanInt token = true) :
    ∃ value, IntToken token value ∧ -2 ^ 63 ≤ value ∧ value < 2 ^ 64 := by
  simp only [scanInt, decide_eq_true_eq] at h
  obtain ⟨-, hne, hall, hzero, hrange⟩ := h
  have hdigits : ∀ digits : List UInt8, digits.all isDigit = true →
      digits.all Json.isDecimal = true := by
    intro digits hdigits
    rw [List.all_eq_true] at hdigits ⊢
    exact fun b hb => isDecimal_of_isDigit (hdigits b hb)
  by_cases hsign : token.head? = some (byte '-')
  · obtain ⟨digits, rfl⟩ := List.head?_eq_some_iff.mp hsign
    simp only [hsign, if_true, List.drop_succ_cons, List.drop_zero] at hne hall hzero hrange
    refine ⟨_, .neg ⟨hne, hdigits _ hall, hzero⟩, ?_⟩
    have hvalue : digitsValue digits = Json.digitsNat digits := rfl
    omega
  · simp only [hsign, if_false] at hne hall hzero hrange
    refine ⟨_, .nonneg ⟨hne, hdigits _ hall, hzero⟩, ?_⟩
    have hvalue : digitsValue token = Json.digitsNat token := rfl
    omega

/-! ### Containers -/

theorem blank_nil : Blank [] := by simp [Blank]

/-- A value in the grammar that was scanned alongside `object`; it is strict if
`object` is its lenient reading. -/
def Scanned (text : List UInt8) (object : Json) (rest : List UInt8) : Prop :=
  ∃ doc before body, Blank before ∧ Value doc body ∧ text = before ++ body ++ rest ∧
    (object = doc.tree → doc.Strict)

theorem Scanned.element {after : List UInt8} {object : Json} {next : UInt8}
    (h : Scanned text object rest) (hnext : skipSpace rest = next :: after) :
    ∃ doc body, Element doc body ∧ text = body ++ next :: after ∧
      (object = doc.tree → doc.Strict) := by
  obtain ⟨doc, before, body, hbefore, hvalue, rfl, hstrict⟩ := h
  obtain ⟨blank, hblank, hrest⟩ := skipSpace_split rest
  refine ⟨doc, before ++ body ++ blank, .mk hbefore hvalue hblank, ?_, hstrict⟩
  rw [hrest, hnext]
  simp

section

variable {tokener : Tokener} {scan : List UInt8 → Json → Option (List UInt8)}

/-- **The loop over the items** of an array that are left. -/
theorem scanItems_sound
    (hscan : ∀ text object rest, scan text object = some rest → Scanned text object rest)
    {fuel : ℕ} {items : List Json} {text rest : List UInt8}
    (h : scanItems scan fuel items text = some rest) :
    (items = [] ∧ text = byte ']' :: rest) ∨
      ∃ docs body, Items docs body ∧ text = body ++ byte ']' :: rest ∧
        (items = Json.treeItems docs → Json.StrictItems docs) := by
  induction fuel generalizing items text with
  | zero => simp [scanItems] at h
  | succ fuel ih =>
    cases text with
    | nil => simp [scanItems] at h
    | cons first text =>
      simp only [scanItems] at h
      split at h
      · rename_i hclose
        subst hclose
        split at h
        · rename_i hnil
          exact .inl ⟨hnil, by rw [Option.some.inj h]⟩
        · simp at h
      · split at h
        · simp at h
        · rename_i item items
          obtain ⟨after, hitem, hafter⟩ := Option.bind_eq_some_iff.mp h
          have hscanned := hscan _ _ _ hitem
          split at hafter
          · simp at hafter
          · rename_i next tail hnext
            obtain ⟨doc, body, helement, htext, hstrict⟩ := hscanned.element hnext
            split at hafter
            · -- Another item follows, and it is no bracket.
              rename_i hcomma
              subst hcomma
              split at hafter
              · simp at hafter
              · rename_i b tail' hmore
                split at hafter
                · simp at hafter
                · rename_i hb
                  obtain ⟨blank, hblank, htail⟩ := skipSpace_split tail
                  rw [hmore] at htail
                  rcases ih hafter with ⟨-, hclose⟩ | ⟨docs, body', hitems, hbody', hstrict'⟩
                  · exact absurd (List.cons.inj hclose).1 hb
                  · refine .inr ⟨doc :: docs, _, .more helement (hitems.blank hblank), ?_,
                      fun hread => ?_⟩
                    · rw [htext, htail, hbody']
                      simp
                    · simp only [Json.treeItems, List.cons.injEq] at hread
                      exact ⟨hstrict hread.1, hstrict' hread.2⟩
            · split at hafter
              · rename_i hlast
                obtain ⟨rfl, rfl⟩ := hlast
                obtain rfl := Option.some.inj hafter
                refine .inr ⟨[doc], body, .one helement, htext, fun hread => ?_⟩
                simp only [Json.treeItems, List.cons.injEq, and_true] at hread
                exact ⟨hstrict hread, trivial⟩
              · simp at hafter

variable {members : List (String × Json)}

theorem scanKey_sound (hreads : ReadsLeniently tokener) {token bytes : List UInt8}
    (htoken : StringToken token bytes) {value : Json}
    (h : scanKey tokener members token = some value) :
    0 ∉ bytes ∧ memberOf members bytes = some value := by
  have helement : Element (.str bytes) token := by
    have hplain := Element.mk blank_nil (.str htoken) blank_nil
    rwa [List.nil_append, List.append_nil] at hplain
  rw [scanKey] at h
  split at h
  · rename_i key hkey
    have hread := hreads _ _ _ _ _ helement hkey
    obtain rfl : key = bytes := by simpa [Doc.tree] using hread
    split at h
    · rename_i hnul
      refine ⟨fun hzero => ?_, h⟩
      have hne := List.all_eq_true.mp hnul 0 hzero
      simp at hne
    · simp at h
  · simp at h

/-- What the scan of the members of an object says about each of them. -/
def ScannedMember (members : List (String × Json)) (member : List UInt8 × Doc) : Prop :=
  0 ∉ member.1 ∧ ∃ value, memberOf members member.1 = some value ∧
    (value = member.2.tree → member.2.Strict)

/-- **The loop over the members** of an object, `count` of which were scanned. -/
theorem scanMembers_sound (hreads : ReadsLeniently tokener)
    (hscan : ∀ text object rest, scan text object = some rest → Scanned text object rest)
    {fuel count : ℕ} {text rest : List UInt8}
    (h : scanMembers tokener scan members fuel count text = some rest) :
    (count = members.length ∧ text = byte '\x7d' :: rest) ∨
      ∃ docs body, Members docs body ∧ text = body ++ byte '\x7d' :: rest ∧
        count + docs.length = members.length ∧ ∀ member ∈ docs, ScannedMember members member := by
  induction fuel generalizing count text with
  | zero => simp [scanMembers] at h
  | succ fuel ih =>
    cases text with
    | nil => simp [scanMembers] at h
    | cons first text =>
      simp only [scanMembers] at h
      split at h
      · rename_i hclose
        subst hclose
        split at h
        · rename_i hcount
          exact .inl ⟨hcount, by rw [Option.some.inj h]⟩
        · simp at h
      · simp only [Option.bind_eq_bind, Option.bind_eq_some_iff] at h
        obtain ⟨⟨token, afterKey⟩, hstring, value, hkey, h⟩ := h
        obtain ⟨htext, key, htoken⟩ := scanString_sound hstring
        obtain ⟨hplain, hmember⟩ := scanKey_sound hreads htoken hkey
        split at h
        · simp at h
        · rename_i colon afterColon hskip
          split at h
          · simp at h
          · rename_i hcolon
            rw [ne_eq, not_not] at hcolon
            subst hcolon
            obtain ⟨after, hvalue, hafter⟩ := Option.bind_eq_some_iff.mp h
            have hscanned := hscan _ _ _ hvalue
            obtain ⟨blank, hblank, hbefore⟩ := skipSpace_split afterKey
            rw [hskip] at hbefore
            split at hafter
            · simp at hafter
            · rename_i next tail hnext
              obtain ⟨doc, body, helement, hbody, hstrict⟩ := hscanned.element hnext
              have hfirst : Member (key, doc) (token ++ blank ++ byte ':' :: body) := by
                have hmk := Member.mk blank_nil htoken hblank helement
                rwa [List.nil_append] at hmk
              have hdone : ScannedMember members (key, doc) := ⟨hplain, value, hmember, hstrict⟩
              split at hafter
              · rename_i hcomma
                subst hcomma
                split at hafter
                · simp at hafter
                · rename_i b tail' hmore
                  split at hafter
                  · simp at hafter
                  · rename_i hb
                    obtain ⟨blank', hblank', htail⟩ := skipSpace_split tail
                    rw [hmore] at htail
                    rcases ih hafter with ⟨-, hclose⟩ | ⟨docs, body', hdocs, hbody', hcount, hall⟩
                    · exact absurd (List.cons.inj hclose).1 hb
                    · refine .inr ⟨(key, doc) :: docs, _, .more hfirst (hdocs.blank hblank'), ?_, ?_, ?_⟩
                      · rw [htext, hbefore, hbody, htail, hbody']
                        simp
                      · rw [List.length_cons]
                        omega
                      · intro member hin
                        rcases List.mem_cons.mp hin with rfl | hin
                        · exact hdone
                        · exact hall member hin
              · split at hafter
                · rename_i hlast
                  obtain ⟨rfl, hcount⟩ := hlast
                  obtain rfl := Option.some.inj hafter
                  refine .inr ⟨[(key, doc)], _, .one hfirst, ?_, hcount, ?_⟩
                  · rw [htext, hbefore, hbody]
                    simp
                  · intro member hin
                    rw [List.mem_singleton.mp hin]
                    exact hdone
                · simp at hafter

theorem memberOf_plainTree {docs : List (List UInt8 × Doc)} (hnodup : (docs.map (·.1)).Nodup)
    {member : List UInt8 × Doc} (hmem : member ∈ docs) :
    memberOf (Json.plainTree docs) member.1 = some member.2.tree := by
  induction docs with
  | nil => simp at hmem
  | cons first docs ih =>
    obtain ⟨key, doc⟩ := first
    rw [List.map_cons, List.nodup_cons] at hnodup
    rw [Json.plainTree, memberOf, List.find?_cons, Json.ascii_nameOf]
    rcases List.mem_cons.mp hmem with rfl | hin
    · simp
    · have hne : key ≠ member.1 := by
        rintro rfl
        exact hnodup.1 (List.mem_map.mpr ⟨member, hin, rfl⟩)
      simp only [hne, decide_false]
      exact ih hnodup.2 hin

theorem strict_of_scannedMembers {docs : List (List UInt8 × Doc)}
    (hcount : docs.length = members.length) (hall : ∀ member ∈ docs, ScannedMember members member)
    (hread : members = Json.treeMembers [] docs) : (Doc.obj docs).Strict := by
  have hplain : ∀ member ∈ docs, 0 ∉ member.1 := fun member hmem => (hall member hmem).1
  obtain ⟨hnodup, hnew⟩ := Json.keys_of_length hplain
    (show (Json.treeMembers [] docs).length = ([] : List (String × Json)).length + docs.length by
      rw [← hread, hcount]
      simp)
  have htree := Json.treeMembers_of_nodup hplain hnodup hnew
  rw [List.nil_append] at htree
  refine ⟨hnodup, Json.strictMembers_of_forall fun member hmem => ⟨hplain member hmem, ?_⟩⟩
  obtain ⟨-, value, hvalue, hstrict⟩ := hall member hmem
  refine hstrict ?_
  rw [hread, htree] at hvalue
  exact Option.some.inj (hvalue.symm.trans (memberOf_plainTree hnodup hmem))

/-- **The scan of a tree** accepts text in the grammar only. -/
theorem scanTree_sound (hreads : ReadsLeniently tokener) {levels : ℕ} :
    ∀ text object rest, scanTree tokener levels text object = some rest →
      Scanned text object rest := by
  induction levels with
  | zero =>
    intro text object rest h
    simp [scanTree] at h
  | succ levels ih =>
    intro text object rest h
    obtain ⟨before, hbefore, htext⟩ := skipSpace_split text
    -- It is enough to find the value after the blanks.
    suffices hvalue : ∃ doc body, Value doc body ∧ skipSpace text = body ++ rest ∧
        (object = doc.tree → doc.Strict) by
      obtain ⟨doc, body, hvalue, hbody, hstrict⟩ := hvalue
      refine ⟨doc, before, body, hbefore, hvalue, ?_, hstrict⟩
      rw [List.append_assoc, ← hbody]
      exact htext
    rw [scanTree] at h
    generalize skipSpace text = start at h
    cases start with
    | nil => simp at h
    | cons first tail =>
    simp only at h
    split at h
    · rename_i hopen
      subst hopen
      split at h
      · rename_i members
        obtain ⟨blank, hblank, htail⟩ := skipSpace_split tail
        rcases scanMembers_sound hreads ih h with
          ⟨hcount, hclose⟩ | ⟨docs, body, hdocs, hbody, hcount, hall⟩
        · refine ⟨.obj [], _, .noMembers hblank, ?_, fun _ => ⟨List.nodup_nil, trivial⟩⟩
          rw [htail, hclose]
          simp
        · refine ⟨.obj docs, _, .obj (hdocs.blank hblank), ?_, fun hread => ?_⟩
          · rw [htail, hbody]
            simp
          · rw [Doc.tree, Json.obj.injEq] at hread
            exact strict_of_scannedMembers (by omega) hall hread
      · simp at h
    · split at h
      · rename_i hopen
        subst hopen
        split at h
        · rename_i items
          obtain ⟨blank, hblank, htail⟩ := skipSpace_split tail
          rcases scanItems_sound ih h with ⟨rfl, hclose⟩ | ⟨docs, body, hdocs, hbody, hstrict⟩
          · refine ⟨.arr [], _, .noItems hblank, ?_, fun _ => trivial⟩
            rw [htail, hclose]
            simp
          · refine ⟨.arr docs, _, .arr (hdocs.blank hblank), ?_, fun hread => ?_⟩
            · rw [htail, hbody]
              simp
            · rw [Doc.tree, Json.arr.injEq] at hread
              exact hstrict hread
        · simp at h
      · split at h
        · split at h
          · obtain ⟨⟨token, after⟩, hstring, rfl⟩ := Option.map_eq_some_iff.mp h
            obtain ⟨htoken, bytes, hbytes⟩ := scanString_sound hstring
            exact ⟨.str bytes, token, .str hbytes, htoken, fun _ => trivial⟩
          · simp at h
        · have hcut : first :: tail = (first :: tail).takeWhile (!isDelimiter ·) ++
              (first :: tail).dropWhile (!isDelimiter ·) := List.takeWhile_append_dropWhile.symm
          split at h
          · split at h
            · rename_i hint
              obtain ⟨value, htoken, hrange⟩ := scanInt_sound hint
              obtain rfl := Option.some.inj h
              exact ⟨.int value, _, .int htoken, hcut, fun _ => hrange⟩
            · simp at h
          · split at h
            · rename_i hliteral
              obtain rfl := Option.some.inj h
              rcases hliteral with htrue | hfalse
              · exact ⟨.bool true, _, .literalTrue, htrue ▸ hcut, fun _ => trivial⟩
              · exact ⟨.bool false, _, .literalFalse, hfalse ▸ hcut, fun _ => trivial⟩
            · simp at h
          · simp at h

/-- **What the check accepts is strict.**  The text is one object in the strict
grammar, with blanks around it; its integers have 64 bits, and no object in it
has two members with one key.  The tree says exactly what the text says. -/
theorem parseObject_strict (hreads : ReadsLeniently tokener) {text : List UInt8} {tree : Json}
    (h : parseObject tokener text = some tree) :
    ∃ members, Element (.obj members) text ∧ (Doc.obj members).Strict ∧
      tree = (Doc.obj members).meaning := by
  rw [parseObject] at h
  split at h
  · simp at h
  · split at h
    · rename_i members hread
      split at h
      · rename_i rest hscan
        split at h
        · rename_i hrest
          obtain rfl := Option.some.inj h
          obtain ⟨doc, before, body, hbefore, hvalue, rfl, hstrict⟩ :=
            scanTree_sound hreads _ _ _ hscan
          obtain ⟨after, hafter, hsplit⟩ := skipSpace_split rest
          rw [hrest, List.append_nil] at hsplit
          subst hsplit
          have helement : Element doc (before ++ body ++ rest) := .mk hbefore hvalue hafter
          have htree := hreads _ _ _ _ _ helement hread
          -- json-c read an object, so an object was written.
          cases doc with
          | obj docs =>
            refine ⟨docs, helement, hstrict htree, ?_⟩
            rw [htree, Json.tree_of_strict _ (hstrict htree)]
          | _ => simp [Doc.tree] at htree
        · simp at h
      · simp at h
    · simp at h

end

/-! ### A document -/

/-- The texts that the check of one document reads, and what they are. -/
def documentTexts : List (List UInt8 × Doc) :=
  [(ascii "\x7b\"a\":[1,\"\\n\"],\"b\":\x7b\x7d\x7d",
      .obj [(ascii "a", .arr [.int 1, .str [10]]), (ascii "b", .obj [])]),
    (ascii "\"a\"", .str (ascii "a")), (ascii "\"\\n\"", .str [10]),
    (ascii "\"b\"", .str (ascii "b"))]

/-- A tokener that reads these texts. -/
def documentTokener : Tokener := fun _ _ text => (documentTexts.lookup text).map Doc.tree

theorem readsLeniently_document : ReadsLeniently documentTokener := by
  have hread : ∀ known ∈ documentTexts,
      Bare known.1 ∧ Json.reader 3 known.1 = some known.2.meaning := by
    simp only [documentTexts, List.forall_mem_cons]
    refine ⟨⟨by decide, rfl⟩, ⟨by decide, rfl⟩, ⟨by decide, rfl⟩, ⟨by decide, rfl⟩, ?_⟩
    simp
  intro depth validate doc text tree helement htree
  obtain ⟨known, hknown, rfl⟩ := Option.map_eq_some_iff.mp htree
  obtain ⟨front, back, hsplit, -⟩ := List.lookup_eq_some_iff.mp hknown
  obtain ⟨hbare, hreads⟩ := hread (text, known) (by simp [hsplit])
  rw [Json.reader_element helement hbare hreads, Json.ofJson_meaning]

/-- Two members, an escape and what is nested in them. -/
theorem parseObject_strict_document :
    ∃ members, Element (.obj members) (ascii "\x7b\"a\":[1,\"\\n\"],\"b\":\x7b\x7d\x7d") ∧
      (Doc.obj members).Strict ∧
      Json.obj [("a", .arr [.int 1, .str [10]]), ("b", .obj [])] = (Doc.obj members).meaning :=
  parseObject_strict readsLeniently_document (by rfl)

end Clock
