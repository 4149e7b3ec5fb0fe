import Mathlib.Data.List.Sort

/-!
# Ranked choices

A choice that takes the items in the order of their ranks does not depend on the order in which the
items came, when no two of them have one rank. Items of one rank stay in the order they came in.

## Main results

* `insertionSort_eq_of_perm` — the sorted list of a permutation;
* `pairwise_insertionSort_of_pairwise` — a list that was sorted before.
-/

namespace Ranking

open List

variable {α β : Type*} [LinearOrder β] (rank : α → β) (r : α → α → Prop) [DecidableRel r]

/-- Permuted lists are sorted alike when the rank tells their items apart. -/
theorem insertionSort_eq_of_perm (hrank : ∀ first second, r first second ↔ rank first ≤ rank second)
    {items items' : List α} (hperm : items.Perm items')
    (hapart : ∀ first ∈ items, ∀ second ∈ items, rank first = rank second → first = second) :
    items.insertionSort r = items'.insertionSort r := by
  have htotal : Std.Total r := ⟨fun first second => by
    rw [hrank, hrank]
    exact le_total _ _⟩
  have htrans : IsTrans α r := ⟨fun first second third h h' => by
    rw [hrank] at h h' ⊢
    exact h.trans h'⟩
  refine @Perm.eq_of_pairwise _ r _ _ ?_ (pairwise_insertionSort r items)
    (pairwise_insertionSort r items')
    ((perm_insertionSort r items).trans (hperm.trans (perm_insertionSort r items').symm))
  intro first second hfirst hsecond hle hle'
  rw [hrank] at hle hle'
  refine hapart first ((mem_insertionSort r).1 hfirst) second ?_ (le_antisymm hle hle')
  exact hperm.mem_iff.2 ((mem_insertionSort r).1 hsecond)

/-- Sorting by rank and then by the order the items came in. -/
def Settled (before : α → α → Prop) (first second : α) : Prop :=
  rank first < rank second ∨ rank first = rank second ∧ before first second

theorem pairwise_orderedInsert_of_forall {before : α → α → Prop} {item : α} {sorted : List α}
    (hsorted : sorted.Pairwise (Settled rank before)) (hitem : ∀ other ∈ sorted, before item other) :
    (sorted.orderedInsert (rank · ≤ rank ·) item).Pairwise (Settled rank before) := by
  induction sorted with
  | nil => exact pairwise_singleton _ _
  | cons first rest ih =>
    rw [pairwise_cons] at hsorted
    rw [orderedInsert]
    split_ifs with hle
    · refine pairwise_cons.2 ⟨fun other hother => ?_, pairwise_cons.2 hsorted⟩
      have hrank : rank item ≤ rank other := by
        rcases mem_cons.1 hother with rfl | hrest
        · exact hle
        · rcases hsorted.1 other hrest with hlt | ⟨heq, -⟩
          · exact hle.trans hlt.le
          · exact heq ▸ hle
      exact hrank.lt_or_eq.imp_right fun heq => ⟨heq, hitem other hother⟩
    · refine pairwise_cons.2 ⟨fun other hother => ?_,
        ih hsorted.2 fun other hother => hitem other (mem_cons_of_mem _ hother)⟩
      rcases (mem_orderedInsert _).1 hother with rfl | hrest
      · exact Or.inl (lt_of_not_ge hle)
      · exact hsorted.1 other hrest

/-- **A stable sort.** A list in some order has, when its items are sorted by rank, the items of one
rank in that order. -/
theorem pairwise_insertionSort_of_pairwise {before : α → α → Prop} {items : List α}
    (h : items.Pairwise before) :
    (items.insertionSort (rank · ≤ rank ·)).Pairwise (Settled rank before) := by
  induction h with
  | nil => exact Pairwise.nil
  | cons hitem _ ih =>
    exact pairwise_orderedInsert_of_forall rank ih fun other hother =>
      hitem other ((mem_insertionSort _).1 hother)

end Ranking
