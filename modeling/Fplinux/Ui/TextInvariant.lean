/-
The invariant of the text model over every run.

A run starts with `init` and takes any operations; texts come as C strings of
well formed UTF-8.  Between two operations the content is in order (`Sound`), the
model is clean, and the display shows the text with the pending character at the
caret.  The display of a password shows a dot for every committed character.

Main results:
- `refreshed_apply`: an operation leaves the display up to date, also when it
  changes what is drawn without marking it;
- `kept_of_reachable`: the invariant of the proofs, over runs;
- `wellFormed_of_reachable`: the invariant in the terms of the source.
-/
import Fplinux.Lib.Run
import Fplinux.Ui.TextSilent

namespace TextModel

open Bytes (byte ascii)
open InputCodes
open TextBoundary
open Utf8 (Decodes)

/-! ### The display -/

section

variable (towupper : ℕ → ℕ)

/-- The text with the pending character at the caret. -/
def shown (model : Model) : List UInt8 :=
  model.field.text.take model.field.cursor ++ pendingBytes towupper model ++
    model.field.text.drop model.field.cursor

/-- Dots for the committed characters around the readable pending one. -/
def dotted (model : Model) : List UInt8 :=
  let before := countCharacters (model.field.text.take model.field.cursor)
  putBullets before ++ pendingBytes towupper model ++ putBullets (model.field.characters - before)

/-- What is drawn of the text is up to date. -/
structure Refreshed (model : Model) : Prop where
  display : model.field.display = shown towupper model
  masked : model.field.password = true → model.field.masked = some (dotted towupper model)

end

section

variable {towupper : ℕ → ℕ}

theorem shown_of_not_pending {model : Model} (h : model.input.compose.pending = false) :
    shown towupper model = model.field.text := by
  rw [shown, pendingBytes_of_not_pending h, List.append_nil, List.take_append_drop]

theorem putBullets_append (a b : ℕ) : putBullets a ++ putBullets b = putBullets (a + b) := by
  rw [putBullets, putBullets, putBullets, ← List.flatten_append, List.replicate_append_replicate]

theorem dotted_of_not_pending {model : Model} (hcontent : ContentOk model.field)
    (h : model.input.compose.pending = false) :
    dotted towupper model = putBullets model.field.characters := by
  have hle := hcontent.countCharacters_le model.field.cursor
  rw [dotted, pendingBytes_of_not_pending h, List.append_nil, putBullets_append,
    Nat.add_sub_cancel' hle]

variable {model : Model}

theorem Refreshed.of_look {after : Model} (h : Refreshed towupper model)
    (hlook : look towupper after = look towupper model) : Refreshed towupper after := by
  simp only [look, fieldLook, Prod.mk.injEq] at hlook
  obtain ⟨⟨htext, hcursor, hcharacters, hdisplay, hmasked, hpassword⟩, hbytes, -⟩ := hlook
  constructor
  · rw [hdisplay, h.display, shown, shown, htext, hcursor, hbytes]
  · intro hafter
    rw [hmasked, h.masked (hpassword.symm.trans hafter), dotted, dotted, htext, hcursor,
      hcharacters, hbytes]

theorem refreshDisplay_eq (model : Model) :
    ∃ capacity masked, refreshDisplay towupper model = ⟨model.input,
        { model.field with
          capacity := capacity
          display := shown towupper model
          masked := masked }⟩ ∧
      (model.field.password = true → masked = some (dotted towupper model)) := by
  have hreserve : ∃ capacity, (if (pendingBytes towupper model).length ≠ 0 then
      reserve model.field (model.field.length + (pendingBytes towupper model).length)
      else model.field) = { model.field with capacity := capacity } := by
    split
    · exact ⟨_, reserve_eq _ _⟩
    · exact ⟨model.field.capacity, rfl⟩
  obtain ⟨capacity, hcapacity⟩ := hreserve
  simp only [refreshDisplay, hcapacity]
  split
  · exact ⟨capacity, _, rfl, fun _ => rfl⟩
  · rename_i hplain
    exact ⟨capacity, model.field.masked, rfl, fun hpassword => absurd hpassword hplain⟩

theorem refreshed_refreshDisplay (model : Model) :
    Refreshed towupper (refreshDisplay towupper model) := by
  obtain ⟨capacity, masked, heq, hmasked⟩ := @refreshDisplay_eq towupper model
  rw [heq]
  exact ⟨rfl, hmasked⟩

theorem refreshed_finish
    (h : model.field.dirty = true ∨ (model.field.dirty = false ∧ Refreshed towupper model)) :
    (finish towupper model).field.dirty = false ∧ Refreshed towupper (finish towupper model) := by
  rcases h with hdirty | ⟨hclean, hrefreshed⟩
  · have hstart := @refreshed_refreshDisplay towupper model
    rw [finish, if_neg (by simp [hdirty])]
    refine ⟨rfl, hstart.of_look ?_⟩
    rfl
  · rw [finish_of_clean hclean]
    exact ⟨hclean, hrefreshed⟩

/-! ### One operation -/

theorem refreshed_silentBase (h : Sound model) (hrefreshed : Refreshed towupper model) {op : Op}
    (hsilent : Silent model op) : Refreshed towupper (silentBase model op) := by
  cases op with
  | key event nowMs =>
    obtain ⟨-, -, -, -, hfull, -⟩ := hsilent
    have hpending := not_pending_of_isNumber h hfull.1
    have hcontent : ContentOk { model.field with cursor := 1 } := by
      rw [← skipMinus_of_minusFull hfull h.content]
      exact contentOk_skipMinus h.content
    have hshown := @shown_of_not_pending towupper
      { model with field := { model.field with cursor := 1 } } hpending
    have hdotted := @dotted_of_not_pending towupper
      { model with field := { model.field with cursor := 1 } } hcontent hpending
    constructor
    · show model.field.display = shown towupper { model with field := { model.field with cursor := 1 } }
      rw [hshown, hrefreshed.display, shown_of_not_pending hpending]
    · intro hpassword
      show model.field.masked =
        some (dotted towupper { model with field := { model.field with cursor := 1 } })
      rw [hdotted, hrefreshed.masked hpassword, dotted_of_not_pending h.content hpending]
  | setType type separator => exact ⟨hrefreshed.display, hrefreshed.masked⟩
  | setCaret index => exact ⟨hrefreshed.display, hrefreshed.masked⟩
  | _ => exact hsilent.elim

/-- **An operation** leaves the model clean and its display up to date. -/
theorem refreshed_apply (hupper : Uppercases towupper) (h : Sound model)
    (hclean : model.field.dirty = false) (hrefreshed : Refreshed towupper model) (op : Op) :
    (apply towupper model op).field.dirty = false ∧ Refreshed towupper (apply towupper model op) := by
  by_cases hsilent : Silent model op
  · have hunmarked := @silent_apply towupper model h hclean op hsilent
    exact ⟨hunmarked.dirty, (refreshed_silentBase h hrefreshed hsilent).of_look hunmarked.look⟩
  · obtain ⟨next, hnext, hquiet⟩ := draws_apply hupper h hclean hsilent
    rw [hnext]
    refine refreshed_finish ?_
    rcases hquiet.look with hdirty | ⟨hsame, hlook⟩
    · exact .inl hdirty
    · exact .inr ⟨hsame.trans hclean, hrefreshed.of_look hlook⟩

/-! ### Runs -/

/-- The runs of a text model. -/
def machine (towupper : ℕ → ℕ) : Machine Model Op where
  start model := ∃ multiline limit directory inputLanguage,
    model = init multiline limit directory inputLanguage
  step model op after := op.Valid ∧ after = apply towupper model op

/-- What holds of a model between two operations. -/
structure Kept (towupper : ℕ → ℕ) (model : Model) : Prop where
  sound : Sound model
  clean : model.field.dirty = false
  refreshed : Refreshed towupper model

theorem kept_init (multiline : Bool) (limit : ℕ) (directory : Option Language.Directory)
    (inputLanguage : Option (List UInt8)) :
    Kept towupper (init multiline limit directory inputLanguage) :=
  ⟨sound_init multiline limit directory inputLanguage, rfl, rfl, fun h => absurd h (by simp [init])⟩

theorem kept_apply (hupper : Uppercases towupper) (h : Kept towupper model) {op : Op}
    (hop : op.Valid) : Kept towupper (apply towupper model op) := by
  obtain ⟨hclean, hrefreshed⟩ := refreshed_apply hupper h.sound h.clean h.refreshed op
  exact ⟨sound_apply hupper h.sound hop, hclean, hrefreshed⟩

theorem kept_of_reachable (hupper : Uppercases towupper) (h : (machine towupper).Reachable model) :
    Kept towupper model := by
  refine h.invariant (P := Kept towupper) ?_ ?_
  · rintro _ ⟨multiline, limit, directory, inputLanguage, rfl⟩
    exact kept_init multiline limit directory inputLanguage
  · rintro before op _ hkept ⟨hop, rfl⟩
    exact kept_apply hupper hkept hop

/-- The invariant of a text model, in the terms of the source. -/
structure WellFormed (towupper : ℕ → ℕ) (model : Model) : Prop where
  length : model.field.text.length = model.field.length
  capacity : model.field.length < model.field.capacity
  no_nul : (0 : UInt8) ∉ model.field.text
  /-- The text is UTF-8 of as many code points as `characters` says. -/
  utf8 : ∃ values, Decodes model.field.text values ∧ values.length = model.field.characters
  cursor_le : model.field.cursor ≤ model.field.length
  cursor : IsBoundary model.field.text model.field.cursor
  limit : model.field.limit ≠ 0 →
    model.field.characters + (if model.input.compose.pending then 1 else 0) ≤ model.field.limit
  newline : model.field.multiline = false → byte '\n' ∉ model.field.text
  suits : suits model.field.type model.field.text = true
  /-- Of the separators a number has the field's own only. -/
  own : Suits model.field.type model.field.separator model.field.text
  clean : model.field.dirty = false
  display : model.field.display =
    model.field.text.take model.field.cursor ++ pendingBytes towupper model ++
      model.field.text.drop model.field.cursor

theorem fits_iff (field : Field) (characters : ℕ) :
    fits field characters = true ↔ (field.limit ≠ 0 → characters ≤ field.limit) := by
  rw [fits, decide_eq_true_iff]
  tauto

theorem Sound.limit (h : Sound model) (hlimit : model.field.limit ≠ 0) :
    model.field.characters + (if model.input.compose.pending then 1 else 0) ≤ model.field.limit := by
  split
  · rename_i hpending
    exact (fits_iff _ _).mp (h.room hpending) hlimit
  · exact (fits_iff _ _).mp h.content.limit hlimit

/-- **Every reachable text model is well formed.** -/
theorem wellFormed_of_reachable (hupper : Uppercases towupper) {model : Model}
    (h : (machine towupper).Reachable model) : WellFormed towupper model := by
  obtain ⟨hsound, hclean, hrefreshed⟩ := kept_of_reachable hupper h
  have hcontent := hsound.content
  obtain ⟨values, hvalues, hcount⟩ := hcontent.decodes
  exact
    { length := hcontent.length
      capacity := hcontent.capacity
      no_nul := hcontent.no_nul
      utf8 := ⟨values, hvalues, hcount.symm⟩
      cursor_le := hcontent.cursor_le
      cursor := hcontent.boundary
      limit := hsound.limit
      newline := hcontent.newline
      suits := suits_of_suits hcontent.separator hcontent.suits
      own := hcontent.suits
      clean := hclean
      display := hrefreshed.display }

theorem view_of_reachable (hupper : Uppercases towupper) (h : (machine towupper).Reachable model) :
    view model = if model.field.password then dotted towupper model else shown towupper model := by
  obtain ⟨-, -, hrefreshed⟩ := kept_of_reachable hupper h
  rw [view]
  cases hpassword : model.field.password with
  | false => simpa using hrefreshed.display
  | true => simp [hrefreshed.masked hpassword]

end

/-! ### A run -/

/-- `towupper` of the letters a to z. -/
def asciiUpper (character : ℕ) : ℕ :=
  if 97 ≤ character ∧ character ≤ 122 then character - 32 else character

theorem uppercases_asciiUpper : Uppercases asciiUpper := by
  intro value h
  rw [asciiUpper]
  split
  · exact ⟨⟨by omega, by omega⟩, by omega, by omega⟩
  · exact h

/-- A press of a phone key. -/
def phonePress (code : ℕ) : Key := ⟨false, code, true, false, none⟩

theorem valid_phonePress (code nowMs : ℕ) : (Op.key (phonePress code) nowMs).Valid := by
  intro text htext
  simp [phonePress] at htext

theorem reachable_init (towupper : ℕ → ℕ) (multiline : Bool) (limit : ℕ)
    (directory : Option Language.Directory) (inputLanguage : Option (List UInt8)) :
    (machine towupper).Reachable (init multiline limit directory inputLanguage) :=
  .start ⟨multiline, limit, directory, inputLanguage, rfl⟩

/-- Key 2 in an empty field of two characters: the letter is pending and shown. -/
theorem wellFormed_pending_letter :
    (apply asciiUpper (init false 2 none none) (.key (phonePress (keyNumeric0 + 2)) 0)).field.display =
        ascii "A" ∧
      WellFormed asciiUpper
        (apply asciiUpper (init false 2 none none) (.key (phonePress (keyNumeric0 + 2)) 0)) := by
  refine ⟨by decide +kernel, wellFormed_of_reachable uppercases_asciiUpper ?_⟩
  exact (reachable_init asciiUpper false 2 none none).step ⟨valid_phonePress _ _, rfl⟩

end TextModel
