import Mathlib.Data.Fintype.Pigeonhole

/-!
# Walking backwards

Walking backwards through a finite set in which everything has a predecessor comes back to where
it has been: everything in it lies behind a cycle.

## Main results

* `exists_cycle_of_forall_exists` — a finite set in which everything has a predecessor.
-/

namespace Chained

variable {α : Type*} {r : α → α → Prop}

/-- **A finite set without a first element.** Where every member has a predecessor among the
members, every member is reached from one that lies on a cycle. -/
theorem exists_cycle_of_forall_exists {members : Finset α}
    (hprevious : ∀ one ∈ members, ∃ previous ∈ members, r previous one) {one : α}
    (hone : one ∈ members) :
    ∃ start ∈ members, Relation.TransGen r start start ∧ Relation.ReflTransGen r start one := by
  choose! previous hmem hstep using hprevious
  have hwalk : ∀ n, previous^[n] one ∈ members := fun n => by
    induction n with
    | zero => exact hone
    | succ n ih => exact Function.iterate_succ_apply' previous n one ▸ hmem _ ih
  have hback : ∀ n m, Relation.ReflTransGen r (previous^[n + m] one) (previous^[n] one) := by
    intro n m
    induction m with
    | zero => exact .refl
    | succ m ih =>
      rw [← Nat.add_assoc, Function.iterate_succ_apply']
      exact .head (hstep _ (hwalk _)) ih
  -- The walk never leaves the finite set, so it visits some member twice.
  obtain ⟨i, j, hne, heq⟩ := Finite.exists_ne_map_eq_of_infinite
    fun n : ℕ => (⟨previous^[n] one, hwalk n⟩ : members)
  wlog hlt : i < j generalizing i j
  · exact this j i hne.symm heq.symm (by omega)
  have hsame : previous^[i] one = previous^[j] one := congrArg Subtype.val heq
  refine ⟨previous^[i] one, hwalk i, ?_, by simpa using hback 0 i⟩
  obtain ⟨m, rfl⟩ := Nat.exists_eq_add_of_lt hlt
  have hcycle : Relation.TransGen r (previous^[i + m + 1] one) (previous^[i] one) := by
    rw [Function.iterate_succ_apply']
    exact .head' (hstep _ (hwalk _)) (hback i m)
  rwa [← hsame] at hcycle

end Chained
