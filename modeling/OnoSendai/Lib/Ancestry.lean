import Mathlib.Data.Finset.Card

/-!
# Walks up a parent map

Every point has at most one point above it. The points it lies below are those a walk upwards
comes through, and the map is acyclic when no point lies below itself.

## Main definitions

* `climb` — the point a number of steps above another;
* `Below` — lying strictly below;
* `Acyclic` — no point lies below itself.

## Main results

* `Acyclic.climb_ne` — a walk up an acyclic map never comes to one point twice;
* `Acyclic.climb_ends` — where finitely many points have one above them, every walk ends;
* `Acyclic.regraft` — when giving one point another parent keeps the map acyclic.
-/

namespace Ancestry

open Option Relation

variable {α : Type*} (up : α → Option α)

/-- The point `n` steps above a point. -/
def climb : ℕ → α → Option α
  | 0, point => some point
  | n + 1, point => (up point).bind (climb n)

/-- A point lies below another when a walk of at least one step comes to it. -/
def Below (point above : α) : Prop :=
  TransGen (fun one other => up one = some other) point above

/-- No point lies below itself. -/
def Acyclic : Prop :=
  ∀ point, ¬ Below up point point

variable {up} {point above : α}

/-! ### Walks -/

theorem climb_add (m n : ℕ) (point : α) :
    climb up (m + n) point = (climb up m point).bind (climb up n) := by
  induction m generalizing point with
  | zero => rw [Nat.zero_add, climb, bind_some]
  | succ m ih =>
    rw [Nat.add_right_comm, climb, climb, bind_assoc]
    exact congrArg _ (funext ih)

theorem below_of_climb {n : ℕ} (h : climb up (n + 1) point = some above) :
    Below up point above := by
  induction n generalizing point with
  | zero =>
    obtain ⟨next, hnext, hlast⟩ := bind_eq_some_iff.1 h
    exact .single (some.inj hlast ▸ hnext)
  | succ n ih =>
    obtain ⟨next, hnext, hlast⟩ := bind_eq_some_iff.1 h
    exact .head hnext (ih hlast)

theorem not_below_of_eq_none (h : up point = none) : ¬ Below up point above := by
  intro hbelow
  obtain ⟨next, hnext, -⟩ := TransGen.head'_iff.1 hbelow
  rw [h] at hnext
  exact some_ne_none _ hnext.symm

theorem below_iff {next : α} (h : up point = some next) :
    Below up point above ↔ next = above ∨ Below up next above := by
  rw [Below, TransGen.head'_iff]
  constructor
  · rintro ⟨other, hother, hrest⟩
    obtain rfl := some.inj (h.symm.trans hother)
    rcases reflTransGen_iff_eq_or_transGen.1 hrest with heq | hbelow
    · exact .inl heq.symm
    · exact .inr hbelow
  · rintro (rfl | hbelow)
    · exact ⟨next, h, .refl⟩
    · exact ⟨next, h, hbelow.to_reflTransGen⟩

/-- **No return.** A walk up an acyclic map comes to each point once. -/
theorem Acyclic.climb_ne (h : Acyclic up) {m n : ℕ} (hlt : m < n)
    (hm : climb up m point = some above) : climb up n point ≠ some above := by
  intro hn
  obtain ⟨steps, rfl⟩ := Nat.exists_eq_add_of_lt hlt
  rw [Nat.add_assoc, climb_add, hm, Option.bind_some] at hn
  exact h above (below_of_climb hn)

theorem exists_top_of_climb_eq_none {n : ℕ} (h : climb up n point = none) :
    ∃ m top, climb up m point = some top ∧ up top = none := by
  induction n generalizing point with
  | zero => exact absurd h (some_ne_none point)
  | succ n ih =>
    rcases hup : up point with _ | next
    · exact ⟨0, point, rfl, hup⟩
    · rw [climb, hup, bind_some] at h
      obtain ⟨m, top, hclimb, htop⟩ := ih h
      exact ⟨m + 1, top, by rw [climb, hup, bind_some, hclimb], htop⟩

/-- **Walks end.** Where finitely many points have one above them, a walk up an acyclic map
stops at a point with none above it. -/
theorem Acyclic.climb_ends (h : Acyclic up) (held : Finset α)
    (hheld : ∀ one other, up one = some other → one ∈ held) (point : α) :
    ∃ n top, climb up n point = some top ∧ up top = none := by
  rcases hlong : climb up (held.card + 1) point with _ | last
  · exact exists_top_of_climb_eq_none hlong
  · exfalso
    -- every point the walk comes through before its last one is held
    have hthrough : ∀ n ≤ held.card, ∃ here ∈ held, climb up n point = some here := by
      intro n hn
      obtain ⟨rest, hrest⟩ := Nat.exists_eq_add_of_le hn
      rw [hrest, Nat.add_assoc, climb_add] at hlong
      obtain ⟨here, hhere, hon⟩ := Option.bind_eq_some_iff.1 hlong
      obtain ⟨next, hnext, -⟩ := bind_eq_some_iff.1 hon
      exact ⟨here, hheld here next hnext, hhere⟩
    have : Nonempty α := ⟨point⟩
    choose! here hmem hclimb using hthrough
    have hcard : held.card < (Finset.range (held.card + 1)).card := by
      rw [Finset.card_range]
      exact Nat.lt_succ_self _
    obtain ⟨m, hm, n, hn, hne, heq⟩ := Finset.exists_ne_map_eq_of_card_lt_of_maps_to hcard
      fun n hn => hmem n (Nat.lt_succ_iff.1 (Finset.mem_range.1 hn))
    have hm := hclimb m (Nat.lt_succ_iff.1 (Finset.mem_range.1 hm))
    have hn := hclimb n (Nat.lt_succ_iff.1 (Finset.mem_range.1 hn))
    rcases Nat.lt_or_gt_of_ne hne with hlt | hlt
    · exact h.climb_ne hlt hm (heq ▸ hn)
    · exact h.climb_ne hlt hn (heq ▸ hm)

/-! ### Changing the map -/

variable {new : α → Option α}

theorem Below.mono (hle : ∀ one other, new one = some other → up one = some other)
    (h : Below new point above) : Below up point above :=
  TransGen.mono hle point above h

theorem Acyclic.mono (hle : ∀ one other, new one = some other → up one = some other)
    (h : Acyclic up) : Acyclic new :=
  fun point hbelow => h point (hbelow.mono hle)

section Regraft

variable {moved : α} (helse : ∀ one other, one ≠ moved → new one = some other → up one = some other)

include helse

theorem Below.of_regraft (h : Below new point moved) : point ≠ moved → Below up point moved := by
  induction h using TransGen.head_induction_on with
  | single hlink => exact fun hne => .single (helse _ _ hne hlink)
  | @head one next hlink _ ih =>
    intro hne
    by_cases hnext : next = moved
    · exact .single (helse _ _ hne (hnext ▸ hlink))
    · exact .head (helse _ _ hne hlink) (ih hnext)

/-- A walk up the new map is one up the old map, or it comes through the point whose parent
changed. -/
theorem Below.split (h : Below new point above) :
    Below up point above ∨ ((point = moved ∨ Below new point moved) ∧ Below new moved above) := by
  induction h using TransGen.head_induction_on with
  | @single one hlink =>
    by_cases hone : one = moved
    · exact .inr ⟨.inl hone, hone ▸ .single hlink⟩
    · exact .inl (.single (helse _ _ hone hlink))
  | @head one next hlink hrest ih =>
    by_cases hone : one = moved
    · exact .inr ⟨.inl hone, hone ▸ .head hlink hrest⟩
    · rcases ih with hold | ⟨rfl | hnext, hmoved⟩
      · exact .inl (.head (helse _ _ hone hlink) hold)
      · exact .inr ⟨.inr (.single hlink), hmoved⟩
      · exact .inr ⟨.inr (.head hlink hnext), hmoved⟩

variable (moved) in
/-- **Regrafting.** A map stays acyclic when one point gets a parent that is neither the point
nor below it. -/
theorem Acyclic.regraft (h : Acyclic up)
    (hparent : ∀ parent, new moved = some parent → parent ≠ moved ∧ ¬ Below up parent moved) :
    Acyclic new := by
  have hmoved : ¬ Below new moved moved := by
    intro hcycle
    obtain ⟨parent, hlink, -⟩ := TransGen.head'_iff.1 hcycle
    obtain ⟨hne, hclear⟩ := hparent parent hlink
    rcases (below_iff hlink).1 hcycle with heq | hbelow
    · exact hne heq
    · exact hclear (Below.of_regraft helse hbelow hne)
  intro point hcycle
  rcases hcycle.split helse with hold | ⟨rfl | hto, hfrom⟩
  · exact h point hold
  · exact hmoved hfrom
  · exact hmoved (TransGen.trans hfrom hto)

end Regraft

end Ancestry
