import Mathlib.Data.List.Basic

/-!
# Covering every finite selection by one of finitely many sets

A family of sets is given by a relation between indices and elements. Among finitely many of the
sets, one covers all of a set as soon as every finite selection of its elements is covered by some
single one of them.

## Main results

* `forall_selection_iff` — coverage of every selection and coverage of the whole set.
-/

namespace OnoSendai.Lib

variable {ι α : Type*} (covers : ι → α → Prop) (indices : List ι) (elements : α → Prop)

variable {covers indices elements} in
theorem exists_selection (h : ∀ i ∈ indices, ∃ a, elements a ∧ ¬ covers i a) :
    ∃ selection : List α, (∀ a ∈ selection, elements a) ∧
      ∀ i ∈ indices, ∃ a ∈ selection, ¬ covers i a := by
  induction indices with
  | nil => exact ⟨[], by simp, by simp⟩
  | cons first rest ih =>
    obtain ⟨selection, hselection, hrest⟩ := ih fun i hi => h i (List.mem_cons_of_mem _ hi)
    obtain ⟨a, ha, hfirst⟩ := h first List.mem_cons_self
    refine ⟨a :: selection, List.forall_mem_cons.mpr ⟨ha, hselection⟩,
      List.forall_mem_cons.mpr ⟨⟨a, List.mem_cons_self, hfirst⟩, fun i hi => ?_⟩⟩
    obtain ⟨b, hb, hnot⟩ := hrest i hi
    exact ⟨b, List.mem_cons_of_mem _ hb, hnot⟩

/-- **Selections and the whole.** Every selection from a set is covered by one of finitely many
sets if and only if one of them covers the whole of it. -/
theorem forall_selection_iff :
    (∀ selection : List α, (∀ a ∈ selection, elements a) →
      ∃ i ∈ indices, ∀ a ∈ selection, covers i a) ↔
    ∃ i ∈ indices, ∀ a, elements a → covers i a := by
  constructor
  · intro h
    by_contra hnone
    push Not at hnone
    obtain ⟨selection, hselection, hmissed⟩ := exists_selection hnone
    obtain ⟨i, hi, hcovered⟩ := h selection hselection
    obtain ⟨a, ha, hnot⟩ := hmissed i hi
    exact hnot (hcovered a ha)
  · rintro ⟨i, hi, hcovers⟩ selection hselection
    exact ⟨i, hi, fun a ha => hcovers a (hselection a ha)⟩

end OnoSendai.Lib
