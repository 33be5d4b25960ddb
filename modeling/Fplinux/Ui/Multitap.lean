/-
Numeric-keypad multi-tap composition (`fplinux-multitap.c`).

A pending key shows one character of its key map; another press of the key in
time steps through the map, anything else commits the character by the caller's
`emit`.  The callback's context is passed along explicitly, and a callback is
never null.  Keys are ASCII codes; `towupper` of the C library is a parameter.

Main results:
- `loadLanguages_ok`: the key maps of the input languages are printable text;
- `Ok.candidate`: what a pending state shows is a character of its key map;
- `press_keeps`, `hold_keeps`: the composition and the context stay in order when
  the callback keeps the context in order.
-/
import Mathlib.Data.List.GetD
import Fplinux.Language

namespace Multitap

open Language (Definition Directory LetterCase Printable isText)

/-! ### Input languages -/

def languageCount : ℕ := 8
def languageListCount : ℕ := 64

/-- `struct fplinux_multitap_language`. -/
structure InputLanguage where
  code : List UInt8
  indicator : LetterCase → List UInt8
  /-- UTF-8 characters cycled by keys 0-9; each contains its own digit. -/
  keys : List (List UInt8)

/-- The character of a validated key map at an index; 0 past its end. -/
def characterAt (characters : List UInt8) : ℕ → ℕ
  | 0 => ((Utf8.next characters).map (·.1)).getD 0
  | index + 1 =>
    match Utf8.next characters with
    | none => 0
    | some (_, rest) => characterAt rest index

/-- The loop of `isKeyMapValid`; every scalar takes a byte. -/
def keyMapLoop (digit : ℕ) : ℕ → List UInt8 → Bool → Bool
  | _, [], hasDigit => hasDigit
  | 0, _ :: _, _ => false
  | fuel + 1, characters@(_ :: _), hasDigit =>
    match Utf8.next characters with
    | none => false
    | some (character, rest) => keyMapLoop digit fuel rest (hasDigit || character = digit)

/-- A key map is non-empty valid UTF-8 that contains the key's digit. -/
def isKeyMapValid (characters : List UInt8) (digit : ℕ) : Bool :=
  keyMapLoop digit characters.length characters false

def addLanguage (languages : List InputLanguage) (language : Definition) :
    List InputLanguage :=
  if !language.input ∨ languages.length = languageCount then languages
  else if (List.range Language.keyCount).all fun key =>
      isKeyMapValid (language.multitap.getD key []) (48 + key) then
    languages ++ [⟨language.code, language.indicator, language.multitap⟩]
  else languages

def loadLanguage (directory : Directory) (languages : List InputLanguage)
    (code : List UInt8) : List InputLanguage :=
  match Language.load directory code with
  | some language => addLanguage languages language
  | none => languages

/-- `fplinux_multitap_load_languages`: the language named first, then the others
by code; without any the built-in English definition. -/
def loadLanguages (directory : Option Directory) (first : Option (List UInt8)) :
    List InputLanguage :=
  let languages :=
    match directory with
    | none => []
    | some directory =>
      let codes := Language.list directory languageListCount
      let languages :=
        (codes.filter fun code => some code = first).foldl (loadLanguage directory) []
      (codes.filter fun code => some code ≠ first).foldl (loadLanguage directory) languages
  if languages.length = 0 then addLanguage languages Language.english else languages

/-! ### Composition -/

inductive EmitResult
  | accepted | blocked | rejected
  deriving DecidableEq, Repr

inductive Result
  | ignored | pending | committed | blocked | rejected
  deriving DecidableEq, Repr

/-- `struct fplinux_multitap`. -/
structure State where
  key : ℕ
  index : ℕ
  pending : Bool
  /-- The latest press stepped an existing cycle instead of starting one. -/
  advanced : Bool
  timeoutMs : ℕ
  language : Option InputLanguage

def init (language : Option InputLanguage) (timeoutMs : ℕ) : State :=
  ⟨0, 0, false, false, timeoutMs, language⟩

def handles (key : ℕ) : Bool := 48 ≤ key ∧ key ≤ 57

def charactersFor (state : State) (key : ℕ) : Option (List UInt8) :=
  if handles key then state.language.map fun language => language.keys.getD (key - 48) [] else none

def candidate (state : State) : ℕ :=
  if state.pending then
    match charactersFor state state.key with
    | none => 0
    | some characters => characterAt characters state.index
  else 0

def cancel (state : State) : State :=
  { state with key := 0, index := 0, pending := false, advanced := false }

def setLanguage (state : State) (language : Option InputLanguage) : State :=
  { cancel state with language := language }

section

variable (towupper : ℕ → ℕ)

/-- Upper case of a letter: Latin and Cyrillic by table, other scripts through
the C library. -/
def uppercase (character : ℕ) : ℕ :=
  if 97 ≤ character ∧ character ≤ 122 then character - 32
  else if 0x430 ≤ character ∧ character ≤ 0x44f then character - 0x20
  else if character = 0x451 then 0x401
  else if character < 0x80 ∨ character > 0x10ffff then character
  else towupper character

end

section

variable {γ : Type*} (emit : γ → ℕ → EmitResult × γ)

def emitPending (state : State) (context : γ) : Result × State × γ :=
  if state.pending then
    match emit context (candidate state) with
    | (.accepted, context) => (.committed, cancel state, context)
    | (.blocked, context) => (.blocked, state, context)
    | (.rejected, context) => (.rejected, cancel state, context)
  else (.pending, state, context)

def commit (state : State) (context : γ) : Result × State × γ := emitPending emit state context

def press (state : State) (key elapsedMs : ℕ) (context : γ) : Result × State × γ :=
  match charactersFor state key with
  | none => (.ignored, state, context)
  | some characters =>
    if characters = [] then (.ignored, state, context)
    else if state.pending ∧ state.key = key ∧ elapsedMs < state.timeoutMs then
      let index := if characterAt characters (state.index + 1) = 0 then 0 else state.index + 1
      (.pending, { state with index := index, advanced := true }, context)
    else if state.pending then
      match emitPending emit state context with
      | (.committed, state, context) =>
        (.committed, { state with key := key, index := 0, pending := true, advanced := false },
          context)
      | failed => failed
    else
      (.pending, { state with key := key, index := 0, pending := true, advanced := false }, context)

/-- The index of a character in a key map, from `index` on. -/
def indexOf (characters : List UInt8) (character : ℕ) : ℕ → ℕ → Option ℕ
  | 0, _ => none
  | fuel + 1, index =>
    if characterAt characters index = 0 then none
    else if characterAt characters index = character then some index
    else indexOf characters character fuel (index + 1)

/-- The last index of a key map, from `index` on. -/
def lastIndex (characters : List UInt8) : ℕ → ℕ → ℕ
  | 0, index => index
  | fuel + 1, index =>
    if characterAt characters (index + 1) = 0 then index else lastIndex characters fuel (index + 1)

/-- `fplinux_multitap_hold`: the press is replaced by the key's digit, after the
character shown before it when the press stepped a cycle. -/
def hold (state : State) (context : γ) : Result × State × γ :=
  match charactersFor state state.key with
  | none => (.ignored, state, context)
  | some characters =>
    if !state.pending then (.ignored, state, context)
    else
      match indexOf characters state.key (characters.length + 1) 0 with
      | none => (.ignored, state, context)
      | some digit =>
        if state.advanced then
          let index :=
            if state.index ≠ 0 then state.index - 1
            else lastIndex characters characters.length state.index
          match emitPending emit { state with index := index, advanced := false } context with
          | (.committed, next, context) =>
            emitPending emit { next with key := state.key, pending := true, index := digit } context
          | failed => failed
        else emitPending emit { state with index := digit } context

end

/-! ### Key maps -/

/-- A key map is well-formed text whose scalars have `P`; none of them is zero. -/
def MapOk (P : ℕ → Prop) (map : List UInt8) : Prop :=
  ∃ values, Utf8.Decodes map values ∧ ∀ value ∈ values, value ≠ 0 ∧ P value

def InputLanguage.Ok (P : ℕ → Prop) (language : InputLanguage) : Prop :=
  ∀ map ∈ language.keys, MapOk P map

variable {map : List UInt8} {P : ℕ → Prop} {state : State}

theorem characterAt_eq {values : List ℕ} (h : Utf8.Decodes map values) (index : ℕ) :
    characterAt map index = values.getD index 0 := by
  induction h generalizing index with
  | nil =>
    cases index with
    | zero => rfl
    | succ index => rfl
  | cons hchar _ ih =>
    cases index with
    | zero => simp [characterAt, hchar.next_eq]
    | succ index => simpa [characterAt, hchar.next_eq] using ih index

theorem mapOk_nil (P : ℕ → Prop) : MapOk P [] := ⟨[], .nil, by simp⟩

namespace MapOk

variable {P : ℕ → Prop} {map : List UInt8}

theorem characterAt_of_ne_zero (h : MapOk P map) {index : ℕ} (hne : characterAt map index ≠ 0) :
    P (characterAt map index) := by
  obtain ⟨values, hdec, hall⟩ := h
  rw [characterAt_eq hdec] at hne ⊢
  by_cases hlt : index < values.length
  · rw [List.getD_eq_getElem _ _ hlt]
    exact (hall _ (List.getElem_mem hlt)).2
  · exact absurd (List.getD_eq_default _ _ (by omega)) hne

theorem ne_zero_of_le (h : MapOk P map) {index lower : ℕ} (hne : characterAt map index ≠ 0)
    (hle : lower ≤ index) : characterAt map lower ≠ 0 := by
  obtain ⟨values, hdec, hall⟩ := h
  rw [characterAt_eq hdec] at hne ⊢
  by_cases hlt : index < values.length
  · rw [List.getD_eq_getElem _ _ (by omega)]
    exact (hall _ (List.getElem_mem _)).1
  · exact absurd (List.getD_eq_default _ _ (by omega)) hne

theorem first_ne_zero (h : MapOk P map) (hne : map ≠ []) : characterAt map 0 ≠ 0 := by
  obtain ⟨values, hdec, hall⟩ := h
  rw [characterAt_eq hdec]
  cases hdec with
  | nil => exact absurd rfl hne
  | cons _ _ => exact (hall _ (by simp)).1

end MapOk

theorem MapOk.mono {Q : ℕ → Prop} (h : MapOk P map) (hPQ : ∀ value, P value → Q value) :
    MapOk Q map := by
  obtain ⟨values, hdec, hall⟩ := h
  exact ⟨values, hdec, fun value hvalue => ⟨(hall value hvalue).1, hPQ value (hall value hvalue).2⟩⟩

theorem InputLanguage.Ok.mono {Q : ℕ → Prop} {language : InputLanguage} (h : language.Ok P)
    (hPQ : ∀ value, P value → Q value) : language.Ok Q :=
  fun map hmap => (h map hmap).mono hPQ

theorem characterAt_lastIndex (fuel index : ℕ) (hne : characterAt map index ≠ 0) :
    characterAt map (lastIndex map fuel index) ≠ 0 := by
  induction fuel generalizing index with
  | zero => exact hne
  | succ fuel ih =>
    rw [lastIndex]
    split
    · exact hne
    · rename_i hnext
      exact ih (index + 1) hnext

theorem characterAt_indexOf {character fuel index found : ℕ}
    (h : indexOf map character fuel index = some found) : characterAt map found ≠ 0 := by
  induction fuel generalizing index with
  | zero => simp [indexOf] at h
  | succ fuel ih =>
    rw [indexOf] at h
    split at h
    · simp at h
    · rename_i hne
      split at h
      · obtain rfl := Option.some.inj h
        exact hne
      · exact ih h

/-! ### The languages offered -/

theorem ok_addLanguage {languages : List InputLanguage} {language : Definition}
    (h : ∀ known ∈ languages, known.Ok Printable)
    (htext : ∀ map ∈ language.multitap, isText map = true) :
    ∀ known ∈ addLanguage languages language, known.Ok Printable := by
  intro known hknown
  rw [addLanguage] at hknown
  split at hknown
  · exact h known hknown
  · split at hknown
    · rcases List.mem_append.mp hknown with hold | hnew
      · exact h known hold
      · rw [List.mem_singleton] at hnew
        subst hnew
        intro map hmap
        obtain ⟨values, hdec, hall⟩ := Language.decodes_of_isText (htext map hmap)
        refine ⟨values, hdec, fun value hvalue => ⟨?_, hall value hvalue⟩⟩
        have hge := (hall value hvalue).ge
        omega
    · exact h known hknown

theorem ok_loadLanguages_fold {directory : Directory} (codes : List (List UInt8))
    {languages : List InputLanguage} (h : ∀ known ∈ languages, known.Ok Printable) :
    ∀ known ∈ codes.foldl (loadLanguage directory) languages, known.Ok Printable := by
  induction codes generalizing languages with
  | nil => exact h
  | cons code codes ih =>
    rw [List.foldl_cons]
    refine ih ?_
    rw [loadLanguage]
    split
    · rename_i language hload
      exact ok_addLanguage h (Language.load_isText hload)
    · exact h

theorem english_isText : ∀ map ∈ Language.english.multitap, isText map = true := by
  decide

theorem addLanguage_english : addLanguage [] Language.english ≠ [] := by
  decide

/-- **The input languages**: there is one, and their key maps are printable. -/
theorem loadLanguages_ok (directory : Option Directory) (first : Option (List UInt8)) :
    loadLanguages directory first ≠ [] ∧
      ∀ language ∈ loadLanguages directory first, language.Ok Printable := by
  have hfiles : ∀ languages : List InputLanguage,
      (∀ language ∈ languages, language.Ok Printable) →
      let offered :=
        if languages.length = 0 then addLanguage languages Language.english else languages
      offered ≠ [] ∧ ∀ language ∈ offered, language.Ok Printable := by
    intro languages h
    by_cases hnil : languages.length = 0
    · rw [List.length_eq_zero_iff] at hnil
      subst hnil
      exact ⟨addLanguage_english, ok_addLanguage h english_isText⟩
    · simp only [hnil, if_false]
      exact ⟨fun heq => hnil (by rw [heq]; rfl), h⟩
  cases directory with
  | none => exact hfiles [] (by simp)
  | some directory =>
    refine hfiles _ ?_
    exact ok_loadLanguages_fold _ (ok_loadLanguages_fold _ (by simp))

/-! ### What composition keeps -/

/-- A pending state shows a character of a key map, and its key maps have `P`. -/
structure Ok (P : ℕ → Prop) (state : State) : Prop where
  language : state.pending = true → ∀ language ∈ state.language, language.Ok P
  shows : state.pending = true → candidate state ≠ 0

theorem ok_of_not_pending (h : state.pending = false) : Ok P state :=
  ⟨by simp [h], by simp [h]⟩

theorem mapOk_charactersFor (h : ∀ language ∈ state.language, language.Ok P) {key : ℕ}
    {characters : List UInt8} (hfor : charactersFor state key = some characters) :
    MapOk P characters := by
  rw [charactersFor] at hfor
  split at hfor
  · obtain ⟨language, hlanguage, rfl⟩ := Option.map_eq_some_iff.mp hfor
    by_cases hlt : key - 48 < language.keys.length
    · rw [List.getD_eq_getElem _ _ hlt]
      exact h language hlanguage _ (List.getElem_mem hlt)
    · rw [List.getD_eq_default _ _ (by omega)]
      exact mapOk_nil P
  · simp at hfor

theorem candidate_eq {state : State} {characters : List UInt8} (hpending : state.pending = true)
    (hfor : charactersFor state state.key = some characters) :
    candidate state = characterAt characters state.index := by
  simp [candidate, hpending, hfor]

/-- **A pending character** is one of the key map. -/
theorem Ok.candidate (h : Ok P state) (hpending : state.pending = true) : P (candidate state) := by
  have hne := h.shows hpending
  cases hfor : charactersFor state state.key with
  | none => simp [Multitap.candidate, hpending, hfor] at hne
  | some characters =>
    rw [candidate_eq hpending hfor] at hne ⊢
    exact (mapOk_charactersFor (h.language hpending) hfor).characterAt_of_ne_zero hne

theorem ok_showing {P : ℕ → Prop} {state : State} {key index : ℕ} {pending advanced : Bool}
    {characters : List UInt8} (h : ∀ language ∈ state.language, language.Ok P)
    (hfor : charactersFor state key = some characters) (hne : characterAt characters index ≠ 0) :
    Ok P { state with key := key, index := index, pending := pending, advanced := advanced } := by
  refine ⟨fun _ => h, fun hpending => ?_⟩
  rw [@candidate_eq _ characters hpending hfor]
  exact hne

section

variable {γ : Type*} {emit : γ → ℕ → EmitResult × γ} {J : γ → Prop} {P : ℕ → Prop}
  {state : State} {context : γ}

theorem emitPending_of_not_pending (h : state.pending = false) (context : γ) :
    emitPending emit state context = (.pending, state, context) := by
  simp [emitPending, h]

theorem emitPending_state (state : State) (context : γ) :
    (emitPending emit state context).2.1 = state ∨
      (emitPending emit state context).2.1 = cancel state := by
  rw [emitPending]
  split
  · split
    · exact .inr rfl
    · exact .inl rfl
    · exact .inr rfl
  · exact .inl rfl

theorem emitPending_committed {next : State} {after : γ}
    (h : emitPending emit state context = (.committed, next, after)) : next = cancel state := by
  rw [emitPending] at h
  split at h
  · split at h
    · simp only [Prod.mk.injEq, true_and] at h
      exact h.1.symm
    · simp at h
    · simp at h
  · simp at h

theorem emitPending_keeps
    (hemit : ∀ context character, J context → P character → J (emit context character).2)
    (h : Ok P state) (hJ : J context) :
    Ok P (emitPending emit state context).2.1 ∧ J (emitPending emit state context).2.2 := by
  refine ⟨?_, ?_⟩
  · rcases emitPending_state state context with heq | heq
    · rw [heq]
      exact h
    · rw [heq]
      exact ok_of_not_pending rfl
  · cases hpending : state.pending with
    | false =>
      rw [emitPending_of_not_pending hpending]
      exact hJ
    | true =>
      have hnext := hemit context (candidate state) hJ (h.candidate hpending)
      simp only [emitPending, hpending, if_true]
      split
      all_goals
        rename_i heq
        rw [heq] at hnext
        exact hnext

/-- **A press** keeps the composition and the context in order. -/
theorem press_keeps
    (hemit : ∀ context character, J context → P character → J (emit context character).2)
    (h : Ok P state) (hlanguage : ∀ language ∈ state.language, language.Ok P) (hJ : J context)
    (key elapsedMs : ℕ) :
    Ok P (press emit state key elapsedMs context).2.1 ∧
      J (press emit state key elapsedMs context).2.2 := by
  rw [press]
  cases hfor : charactersFor state key with
  | none => exact ⟨h, hJ⟩
  | some characters =>
    have hmap := mapOk_charactersFor hlanguage hfor
    simp only
    by_cases hnil : characters = []
    · simp only [hnil, if_true]
      exact ⟨h, hJ⟩
    · simp only [hnil, if_false]
      have hfirst := hmap.first_ne_zero hnil
      split
      · rename_i hsame
        obtain ⟨-, rfl, -⟩ := hsame
        refine ⟨?_, hJ⟩
        -- The index steps on, or goes back to the front past the end of the map.
        have hstep : characterAt characters (if characterAt characters (state.index + 1) = 0 then 0
            else state.index + 1) ≠ 0 := by
          split
          · exact hfirst
          · rename_i hne
            exact hne
        exact @ok_showing P state state.key _ state.pending true characters hlanguage hfor hstep
      · split
        · have hkeep := emitPending_keeps hemit h hJ
          split
          · rename_i next after hcommit
            rw [hcommit] at hkeep
            have hnext := emitPending_committed hcommit
            subst hnext
            exact ⟨@ok_showing P (cancel state) key 0 true false characters hlanguage hfor hfirst,
              hkeep.2⟩
          · exact hkeep
        · exact ⟨@ok_showing P state key 0 true false characters hlanguage hfor hfirst, hJ⟩

/-- **A long press** keeps them too. -/
theorem hold_keeps
    (hemit : ∀ context character, J context → P character → J (emit context character).2)
    (h : Ok P state) (hJ : J context) :
    Ok P (hold emit state context).2.1 ∧ J (hold emit state context).2.2 := by
  rw [hold]
  cases hfor : charactersFor state state.key with
  | none => exact ⟨h, hJ⟩
  | some characters =>
    simp only
    cases hpending : state.pending with
    | false => exact ⟨h, hJ⟩
    | true =>
      simp only [Bool.not_true, Bool.false_eq_true, if_false]
      have hlanguage := h.language hpending
      have hmap := mapOk_charactersFor hlanguage hfor
      have hshown := h.shows hpending
      rw [candidate_eq hpending hfor] at hshown
      split
      · exact ⟨h, hJ⟩
      · rename_i digit hdigit
        have hdigitShown := characterAt_indexOf hdigit
        split
        · -- The character before the last step is committed, then the digit.
          have hback : characterAt characters (if state.index ≠ 0 then state.index - 1
              else lastIndex characters characters.length state.index) ≠ 0 := by
            split
            · exact hmap.ne_zero_of_le hshown (by omega)
            · exact characterAt_lastIndex _ _ hshown
          have hkeep := emitPending_keeps hemit
            (@ok_showing P state state.key _ true false characters hlanguage hfor hback) hJ
          split
          · rename_i next after hcommit
            rw [hcommit] at hkeep
            have hnext := emitPending_committed hcommit
            subst hnext
            exact emitPending_keeps hemit
              (@ok_showing P _ state.key digit true false characters hlanguage hfor hdigitShown)
              hkeep.2
          · exact hkeep
        · exact emitPending_keeps hemit
            (@ok_showing P state state.key digit true state.advanced characters hlanguage hfor
              hdigitShown) hJ

theorem language_emitPending (state : State) (context : γ) :
    (emitPending emit state context).2.1.language = state.language := by
  rcases emitPending_state state context with heq | heq
  · rw [heq]
  · rw [heq]
    rfl

theorem language_press (state : State) (key elapsedMs : ℕ) (context : γ) :
    (press emit state key elapsedMs context).2.1.language = state.language := by
  rw [press]
  split
  · rfl
  · split
    · rfl
    · split
      · rfl
      · split
        · have hlanguage := @language_emitPending _ emit state context
          split
          · rename_i heq
            rw [heq] at hlanguage
            exact hlanguage
          · exact hlanguage
        · rfl

theorem language_hold (state : State) (context : γ) :
    (hold emit state context).2.1.language = state.language := by
  rw [hold]
  split
  · rfl
  · split
    · rfl
    · split
      · rfl
      · split
        · simp only
          split
          · rename_i next after hcommit
            have hnext := emitPending_committed hcommit
            subst hnext
            exact language_emitPending _ _
          · exact language_emitPending _ _
        · exact language_emitPending _ _

/-! A callback that never blocks leaves nothing pending behind. -/

theorem emitPending_not_pending (hblock : ∀ context character, (emit context character).1 ≠ .blocked)
    (state : State) (context : γ) : (emitPending emit state context).2.1.pending = false := by
  cases hpending : state.pending with
  | false => rw [emitPending_of_not_pending hpending, hpending]
  | true =>
    have hanswer := hblock context (candidate state)
    simp only [emitPending, hpending, if_true]
    split
    · rfl
    · rename_i heq
      rw [heq] at hanswer
      exact absurd rfl hanswer
    · rfl

theorem emitPending_ne_blocked (hblock : ∀ context character, (emit context character).1 ≠ .blocked)
    (state : State) (context : γ) : (emitPending emit state context).1 ≠ .blocked := by
  have hanswer := hblock context (candidate state)
  rw [emitPending]
  split
  · split
    · simp
    · rename_i heq
      rw [heq] at hanswer
      exact absurd rfl hanswer
    · simp
  · simp

theorem hold_ne_blocked (hblock : ∀ context character, (emit context character).1 ≠ .blocked)
    (state : State) (context : γ) : (hold emit state context).1 ≠ .blocked := by
  rw [hold]
  split
  · simp
  · split
    · simp
    · split
      · simp
      · split
        · simp only
          split
          · exact emitPending_ne_blocked hblock _ _
          · exact emitPending_ne_blocked hblock _ _
        · exact emitPending_ne_blocked hblock _ _

theorem hold_eq_or_not_pending
    (hblock : ∀ context character, (emit context character).1 ≠ .blocked) (state : State)
    (context : γ) :
    (hold emit state context).2 = (state, context) ∨
      (hold emit state context).2.1.pending = false := by
  rw [hold]
  cases charactersFor state state.key with
  | none => exact .inl rfl
  | some characters =>
    simp only
    split
    · exact .inl rfl
    · split
      · exact .inl rfl
      · split
        · split
          · exact .inr (emitPending_not_pending hblock _ _)
          · exact .inr (emitPending_not_pending hblock _ _)
        · exact .inr (emitPending_not_pending hblock _ _)

end

end Multitap
