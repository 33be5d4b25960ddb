/-
The even-odd rule.

A point of a line is inside a closed curve if the curve crosses the line an odd number of times
before it.  Where the crossings are sorted, the points inside and the crossings themselves are
the closed spans from the first crossing to the second, from the third to the fourth, and so on;
around a cycle the number of crossings is even, so that no crossing is left over.

Main results:
- `even_changes`: around a cycle a property changes an even number of times;
- `covered_iff`, `covered_mergeSort`: the spans of sorted crossings are the even-odd rule;
- `inside_map_congr`: the rule asks only where the crossings stand relative to the point.
-/
import Mathlib.Algebra.Ring.Parity
import Mathlib.Data.List.Rotate
import Mathlib.Data.List.Sort

namespace EvenOdd

/-! ### Around a cycle -/

section Cycle

variable {α : Type}

/-- Each element with the one after it, and the last one with the first. -/
def cycle (l : List α) : List (α × α) := l.zip (l.rotate 1)

/-- The steps at which a property changes. -/
def changes (f : α → Bool) (steps : List (α × α)) : ℕ := steps.countP fun step =>
  f step.1 != f step.2

theorem changes_path (f : α → Bool) (b : α) (l : List α) :
    ∀ a, changes f ((a :: l).zip (l ++ [b])) % 2 = (f a != f b).toNat := by
  induction l with
  | nil =>
    intro a
    rw [List.nil_append, List.zip_cons_cons, List.zip_nil_left, changes, List.countP_singleton]
    cases f a <;> cases f b <;> rfl
  | cons c l ih =>
    intro a
    have hrest := ih c
    rw [changes] at hrest
    rw [List.cons_append, List.zip_cons_cons, changes, List.countP_cons, Nat.add_mod, hrest]
    cases f a <;> cases f b <;> cases f c <;> rfl

/-- **Around a cycle** a property changes an even number of times. -/
theorem even_changes (f : α → Bool) (l : List α) : Even (changes f (cycle l)) := by
  cases l with
  | nil => exact ⟨0, rfl⟩
  | cons a l =>
    have hpath := changes_path f a l a
    rw [bne_self_eq_false, Bool.toNat_false] at hpath
    rw [cycle, List.rotate_cons_succ, List.rotate_zero, Nat.even_iff]
    exact hpath

end Cycle

/-! ### Spans -/

section Spans

variable {α : Type} [LinearOrder α] {l : List α} {x : α}

/-- From the first to the second, from the third to the fourth, and so on. -/
def spans : List α → List (α × α)
  | a :: b :: l => (a, b) :: spans l
  | _ => []

/-- A point of one of the closed spans. -/
def Covered (l : List α) (x : α) : Prop := ∃ span ∈ spans l, span.1 ≤ x ∧ x ≤ span.2

/-- The even-odd rule: a crossing, or a point with oddly many crossings before it. -/
def Inside (crossings : List α) (x : α) : Prop :=
  x ∈ crossings ∨ Odd (crossings.countP (· < x))

theorem covered_cons (a b : α) (l : List α) (x : α) :
    Covered (a :: b :: l) x ↔ (a ≤ x ∧ x ≤ b) ∨ Covered l x := by
  rw [Covered, spans]
  constructor
  · rintro ⟨span, hmem, hspan⟩
    rcases List.mem_cons.1 hmem with rfl | hmem
    · exact .inl hspan
    · exact .inr ⟨span, hmem, hspan⟩
  · rintro (hspan | ⟨span, hmem, hspan⟩)
    · exact ⟨(a, b), List.mem_cons_self, hspan⟩
    · exact ⟨span, List.mem_cons_of_mem _ hmem, hspan⟩

theorem not_inside_of_lt (h : ∀ a ∈ l, x < a) : ¬ Inside l x := by
  rintro (hmem | hodd)
  · exact lt_irrefl x (h x hmem)
  · have hzero : l.countP (· < x) = 0 :=
      List.countP_eq_zero.2 fun a ha => by simpa using (h a ha).le
    rw [hzero] at hodd
    exact absurd hodd (by decide)

theorem inside_cons_of_lt {a b : α} (ha : a < x) (hb : b < x) :
    Inside (a :: b :: l) x ↔ Inside l x := by
  have hcount : (a :: b :: l).countP (· < x) = l.countP (· < x) + 2 := by
    rw [List.countP_cons_of_pos (by simpa using ha), List.countP_cons_of_pos (by simpa using hb)]
  have hmem : x ∈ a :: b :: l ↔ x ∈ l := by
    rw [List.mem_cons, List.mem_cons]
    exact ⟨fun h => (h.resolve_left ha.ne').resolve_left hb.ne', fun h => .inr (.inr h)⟩
  rw [Inside, Inside, hcount, hmem, Nat.odd_add]
  exact ⟨fun h => h.imp_right fun hodd => hodd.2 (by decide),
    fun h => h.imp_right fun hodd => iff_of_true hodd (by decide)⟩

/-- **The spans of sorted crossings** are the even-odd rule. -/
theorem covered_iff (hsorted : l.Pairwise (· ≤ ·)) (heven : Even l.length) (x : α) :
    Covered l x ↔ Inside l x := by
  induction l using spans.induct with
  | case1 a b l ih =>
    obtain ⟨hfirst, hrest⟩ := List.pairwise_cons.1 hsorted
    obtain ⟨hsecond, hlast⟩ := List.pairwise_cons.1 hrest
    have hab := hfirst b List.mem_cons_self
    have hlength : Even l.length := by
      rw [List.length_cons, List.length_cons, Nat.even_iff] at heven
      rw [Nat.even_iff]
      omega
    have hnext := ih hlast hlength
    rw [covered_cons]
    rcases lt_trichotomy b x with hbx | rfl | hxb
    · -- behind both crossings
      rw [inside_cons_of_lt (hab.trans_lt hbx) hbx, ← hnext]
      exact ⟨fun h => h.resolve_left fun hspan => absurd hspan.2 (not_le.2 hbx), .inr⟩
    · exact iff_of_true (.inl ⟨hab, le_rfl⟩) (.inl (List.mem_cons_of_mem _ List.mem_cons_self))
    · have hnone : ¬ Inside l x := not_inside_of_lt fun c hc => hxb.trans_le (hsecond c hc)
      rcases lt_trichotomy a x with hax | rfl | hxa
      · -- between the crossings: one of them is before the point
        refine iff_of_true (.inl ⟨hax.le, hxb.le⟩) (.inr ?_)
        have hzero : l.countP (· < x) = 0 :=
          List.countP_eq_zero.2 fun c hc => by simpa using (hxb.trans_le (hsecond c hc)).le
        have hone : (a :: b :: l).countP (· < x) = 1 := by
          rw [List.countP_cons_of_pos (by simpa using hax),
            List.countP_cons_of_neg (by simpa using hxb.le), hzero]
        rw [hone]
        exact odd_one
      · exact iff_of_true (.inl ⟨le_rfl, hab⟩) (.inl List.mem_cons_self)
      · -- before both
        refine iff_of_false ?_ (not_inside_of_lt fun c hc => ?_)
        · rintro (hspan | hcovered)
          · exact absurd hspan.1 (not_le.2 hxa)
          · exact hnone (hnext.1 hcovered)
        · rcases List.mem_cons.1 hc with rfl | hc
          · exact hxa
          · exact hxa.trans_le (hfirst c hc)
  | case2 l hshort =>
    -- an even list that has no first two elements is empty
    cases l with
    | nil =>
      refine iff_of_false ?_ (not_inside_of_lt fun _ hmem => absurd hmem List.not_mem_nil)
      rintro ⟨span, hmem, -⟩
      exact absurd hmem List.not_mem_nil
    | cons a l =>
      cases l with
      | nil => exact absurd (show Even 1 from heven) (by decide)
      | cons b l => exact absurd rfl (hshort a b l)

theorem inside_perm {other : List α} (h : l.Perm other) (x : α) :
    Inside l x ↔ Inside other x := by
  rw [Inside, Inside, h.mem_iff, h.countP_eq]

/-- **Crossings in any order**: their spans once they are sorted. -/
theorem covered_mergeSort (heven : Even l.length) (x : α) :
    Covered (l.mergeSort fun a b => a ≤ b) x ↔ Inside l x := by
  have hpairwise := @List.pairwise_mergeSort α (fun a b => decide (a ≤ b))
    (fun a b c hab hbc => by
      simp only [decide_eq_true_eq] at hab hbc ⊢
      exact hab.trans hbc)
    (fun a b => by
      simp only [Bool.or_eq_true, decide_eq_true_eq]
      exact le_total a b) l
  have hsorted : (l.mergeSort fun a b => a ≤ b).Pairwise (· ≤ ·) :=
    hpairwise.imp fun h => by simpa only [decide_eq_true_eq] using h
  have hperm := List.mergeSort_perm l fun a b => decide (a ≤ b)
  rw [covered_iff hsorted (hperm.length_eq ▸ heven), inside_perm hperm]

/-- **Where the crossings stand** relative to the point is all that matters. -/
theorem inside_map_congr {β γ : Type} [LinearOrder β] {f : γ → α} {g : γ → β} {y : β}
    {l : List γ} (heq : ∀ c ∈ l, f c = x ↔ g c = y) (hlt : ∀ c ∈ l, f c < x ↔ g c < y) :
    Inside (l.map f) x ↔ Inside (l.map g) y := by
  have hmem : x ∈ l.map f ↔ y ∈ l.map g := by
    rw [List.mem_map, List.mem_map]
    exact ⟨fun ⟨c, hc, hx⟩ => ⟨c, hc, (heq c hc).1 hx⟩, fun ⟨c, hc, hy⟩ => ⟨c, hc, (heq c hc).2 hy⟩⟩
  have hcount : (l.map f).countP (· < x) = (l.map g).countP (· < y) := by
    rw [List.countP_map, List.countP_map]
    exact List.countP_congr fun c hc => by simpa using hlt c hc
  rw [Inside, Inside, hmem, hcount]

end Spans

end EvenOdd
