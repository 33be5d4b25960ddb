/-
The revision of the text model and what is drawn.

The source promises that `revision` is "incremented on every visible change".
`drawn` is everything a view shows of a model.  The promise is kept by every
operation but the silent ones: those change the caret or close the picker and
leave the revision.

Main results:
- `drawn_of_look`: what is drawn depends on the look;
- `revision_changes_iff`: from every reachable model, an operation counts the
  revision whenever it changes what is drawn if and only if it is not silent.
-/
import Fplinux.Ui.TextInvariant

namespace TextModel

open Bytes (byte ascii)
open InputCodes
open TextBoundary

/-- The text, the caret, the pending character, the mode and the picker. -/
def drawn (model : Model) : List UInt8 × ℕ × Option ℕ × List UInt8 × Option ℕ :=
  (view model, caret model, pending model, indicator model, picker model)

section

variable {towupper : ℕ → ℕ}

theorem drawn_of_look {model after : Model} (h : look towupper after = look towupper model) :
    drawn after = drawn model := by
  simp only [look, fieldLook, Prod.mk.injEq] at h
  obtain ⟨⟨htext, hcursor, -, hdisplay, hmasked, hpassword⟩, -, hpending, hindicator, hpicker⟩ := h
  have hview : view after = view model := by
    rw [view, view, hdisplay, hmasked, hpassword]
  have hcaret : caret after = caret model := by
    rw [caret, caret, htext, hcursor, hpending]
  have hchar : pending after = pending model := by
    rw [pending, pending, htext, hcursor, hpending]
  rw [drawn, drawn, hview, hcaret, hchar, hindicator, hpicker]

theorem drawn_silentBase {model : Model} {op : Op} (hsilent : Silent model op) :
    drawn (silentBase model op) ≠ drawn model := by
  intro hsame
  simp only [drawn, Prod.mk.injEq] at hsame
  obtain ⟨-, hcaret, -, -, hpicker⟩ := hsame
  cases op with
  | key event nowMs =>
    -- The caret was before the minus and is behind it.
    obtain ⟨-, -, -, -, hfull, -⟩ := hsilent
    obtain ⟨-, hcursor, hhead, -⟩ := hfull
    obtain ⟨rest, htext⟩ := List.head?_eq_some_iff.mp hhead
    have hminus : countCharacters [byte '-'] = 1 := by decide
    have hbefore : countCharacters ([] : List UInt8) = 0 := rfl
    simp only [caret, silentBase, hcursor, htext, List.take_succ_cons, List.take_zero, hminus,
      hbefore] at hcaret
    omega
  | setType type separator =>
    cases type with
    | none => exact hsilent.elim
    | some type => simp [picker, silentBase, hsilent.1] at hpicker
  | setCaret index => simp [picker, silentBase, hsilent.1] at hpicker
  | _ => exact hsilent.elim

theorem revision_finish {model : Model} (h : model.field.dirty = true) :
    (finish towupper model).field.revision ≠ model.field.revision := by
  obtain ⟨capacity, masked, heq, -⟩ := @refreshDisplay_eq towupper model
  rw [finish, if_neg (by simp [h])]
  simp only [heq]
  exact Word.add_one_ne (by norm_num) _

/-- **The revision counts what is drawn**, except by a silent operation. -/
theorem revision_changes_iff (hupper : Uppercases towupper) {model : Model}
    (h : (machine towupper).Reachable model) (op : Op) :
    (drawn (apply towupper model op) ≠ drawn model →
        (apply towupper model op).field.revision ≠ model.field.revision) ↔
      ¬ Silent model op := by
  obtain ⟨hsound, hclean, -⟩ := kept_of_reachable hupper h
  constructor
  · intro hcounts hsilent
    have hunmarked := @silent_apply towupper model hsound hclean op hsilent
    refine hcounts ?_ hunmarked.revision
    rw [drawn_of_look hunmarked.look]
    exact drawn_silentBase hsilent
  · intro hsilent hdrawn
    obtain ⟨next, hnext, hquiet⟩ := draws_apply hupper hsound hclean hsilent
    rw [hnext] at hdrawn ⊢
    rcases hquiet.look with hdirty | ⟨hsame, hlook⟩
    · rw [← hquiet.revision]
      exact revision_finish hdirty
    · -- Nothing was marked, and nothing changed.
      rw [finish_of_clean (hsame.trans hclean), drawn_of_look hlook] at hdrawn
      exact absurd rfl hdrawn

end

/-! ### Runs -/

/-- "-1" in a NUMERIC field of two characters, with the caret before the minus. -/
def fullNumber : Model :=
  apply asciiUpper
    (apply asciiUpper
      (apply asciiUpper (init false 2 none none) (.setType (some .numeric) (byte '.')))
      (.setText (ascii "-1")))
    (.setCaret 0)

theorem reachable_fullNumber : (machine asciiUpper).Reachable fullNumber := by
  have htype : (Op.setType (some .numeric) (byte '.')).Valid := trivial
  have htext : (Op.setText (ascii "-1")).Valid := ⟨⟨_, Utf8.decodes_ascii (by decide +kernel)⟩, by decide⟩
  have hcaret : (Op.setCaret 0).Valid := trivial
  exact (((reachable_init asciiUpper false 2 none none).step ⟨htype, rfl⟩).step
    ⟨htext, rfl⟩).step ⟨hcaret, rfl⟩

/-- A letter that starts to be composed is counted. -/
theorem revision_changes_letter :
    (apply asciiUpper (init false 2 none none) (.key (phonePress (keyNumeric0 + 2)) 0)).field.revision ≠
      (init false 2 none none).field.revision := by
  refine (revision_changes_iff uppercases_asciiUpper
    (reachable_init asciiUpper false 2 none none) _).mpr ?_ (by decide +kernel)
  rintro ⟨-, -, -, -, hfull, -⟩
  exact absurd hfull (by decide)

/-- **A digit before the minus of a full number** moves the caret from 0 to 1 and
leaves the revision. -/
theorem full_number_unmarked :
    (machine asciiUpper).Reachable fullNumber ∧
      ¬ (drawn (apply asciiUpper fullNumber (.key (phonePress (keyNumeric0 + 5)) 0)) ≠
          drawn fullNumber →
        (apply asciiUpper fullNumber (.key (phonePress (keyNumeric0 + 5)) 0)).field.revision ≠
          fullNumber.field.revision) :=
  ⟨reachable_fullNumber, by decide +kernel⟩

end TextModel
