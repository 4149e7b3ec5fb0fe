import Mathlib.Data.List.Chain
import Mathlib.Data.List.MinMax

/-!
# Contests

A contest goes through a list and holds the best item so far, which stands against items of its own
rank. On the way it notes whether some item differed from the one held when it came up. What is held
in the end has the highest rank whatever the order; that no difference is noted in some order means
that the items form a ladder, whose rungs rise and are each the same as the one before, and that
every other item is the same as a rung no lower than itself.

## Main definitions

* `champion`, `clashes` — what a contest ends with, and whether it noted a difference;
* `Laddered` — items that some order takes without a difference.

## Main results

* `le_champion`, `champion_of_le` — the highest rank wins, and the first of it;
* `exists_clashes_eq_false_iff` — the items some order takes without a difference.
-/

namespace Contest

open List

variable {α β : Type*} [LinearOrder β] (rank : α → β) (same : α → α → Bool)

/-- The item held after another came up: the better one, and on a tie the one held before. -/
def pick (held item : α) : α :=
  if rank held < rank item then item else held

/-- The item a contest ends with. -/
def champion (first : α) (rest : List α) : α :=
  rest.foldl (pick rank) first

/-- Whether some item differs from the one held when it comes up. -/
def clashes : α → List α → Bool
  | _, [] => false
  | held, item :: rest => !same held item || clashes (pick rank held item) rest

/-- The last of the items with the highest rank. -/
def lastGreatest : List α → Option α
  | [] => none
  | item :: items =>
    match lastGreatest items with
    | none => some item
    | some best => if rank best < rank item then some item else some best

/-- The first of the worst items. -/
def firstLeast (items : List α) : Option α :=
  items.argmin rank

variable {rank same} {held item : α} {rest items : List α}

/-! ### What is held in the end -/

theorem pick_eq_or (rank : α → β) (held item : α) : pick rank held item = held ∨ pick rank held item = item := by
  unfold pick
  split_ifs
  · exact .inr rfl
  · exact .inl rfl

theorem le_pick_left (held item : α) : rank held ≤ rank (pick rank held item) := by
  unfold pick
  split_ifs with hlt
  · exact hlt.le
  · exact le_rfl

theorem le_pick_right (held item : α) : rank item ≤ rank (pick rank held item) := by
  unfold pick
  split_ifs with hlt
  · exact le_rfl
  · exact not_lt.1 hlt

theorem champion_mem (rank : α → β) (held : α) (rest : List α) : champion rank held rest ∈ held :: rest := by
  induction rest generalizing held with
  | nil => exact mem_cons_self
  | cons item rest ih =>
    rcases mem_cons.1 (ih (pick rank held item)) with heq | hrest
    · rw [champion, foldl_cons, ← champion, heq]
      rcases pick_eq_or rank held item with hpick | hpick <;> simp [hpick]
    · exact mem_cons_of_mem _ (mem_cons_of_mem _ hrest)

/-- **Nothing outranks the champion.** -/
theorem le_champion (held : α) (rest : List α) :
    ∀ item ∈ held :: rest, rank item ≤ rank (champion rank held rest) := by
  induction rest generalizing held with
  | nil => exact fun item hitem => (mem_singleton.1 hitem) ▸ le_rfl
  | cons next rest ih =>
    intro item hitem
    have hlast := ih (pick rank held next) (pick rank held next) mem_cons_self
    rcases mem_cons.1 hitem with rfl | hitem
    · exact (le_pick_left _ _).trans hlast
    · rcases mem_cons.1 hitem with rfl | hrest
      · exact (le_pick_right _ _).trans hlast
      · exact ih _ item (mem_cons_of_mem _ hrest)

/-- An item that nothing after it outranks stands to the end. -/
theorem champion_of_le (h : ∀ item ∈ rest, rank item ≤ rank held) :
    champion rank held rest = held := by
  induction rest with
  | nil => rfl
  | cons next rest ih =>
    rw [forall_mem_cons] at h
    rw [champion, foldl_cons, pick, if_neg (not_lt.2 h.1)]
    exact ih h.2

/-! ### Whether a difference is noted -/

theorem clashes_of_pairwise (h : (held :: rest).Pairwise fun one two => same one two = true) :
    clashes rank same held rest = false := by
  induction rest generalizing held with
  | nil => rfl
  | cons item rest ih =>
    obtain ⟨hheld, hitem⟩ := pairwise_cons.1 h
    rw [clashes, hheld item mem_cons_self, Bool.not_true, Bool.false_or]
    refine ih ?_
    rcases pick_eq_or rank held item with hpick | hpick <;> rw [hpick]
    · exact pairwise_cons.2 ⟨fun other hother => hheld other (mem_cons_of_mem _ hother),
        (pairwise_cons.1 hitem).2⟩
    · exact hitem

/-- An item that comes up under a rung: no better than it, and the same. -/
def Under (rank : α → β) (same : α → α → Bool) (rung item : α) : Prop :=
  rank item ≤ rank rung ∧ same rung item = true

/-- A rung and the next: better than it, and the same. -/
def Rises (rank : α → β) (same : α → α → Bool) (rung next : α) : Prop :=
  rank rung < rank next ∧ same rung next = true

/-- Items that form a ladder: rungs that rise, and under them every other item. -/
def Laddered (rank : α → β) (same : α → α → Bool) (items : List α) : Prop :=
  ∃ first rungs others, items.Perm (first :: rungs ++ others) ∧
    (first :: rungs).IsChain (Rises rank same) ∧
    ∀ item ∈ others, ∃ rung ∈ first :: rungs, Under rank same rung item

/-- What is held one after another in a contest without a difference is a ladder. -/
theorem exists_rungs (h : clashes rank same held rest = false) :
    ∃ rungs others, rest.Perm (rungs ++ others) ∧
      (held :: rungs).IsChain (Rises rank same) ∧
      ∀ item ∈ others, ∃ rung ∈ held :: rungs, Under rank same rung item := by
  induction rest generalizing held with
  | nil => exact ⟨[], [], .nil, .singleton _, nofun⟩
  | cons item rest ih =>
    rw [clashes, Bool.or_eq_false_iff, Bool.not_eq_false'] at h
    obtain ⟨hsame, hrest⟩ := h
    by_cases hlt : rank held < rank item
    · rw [pick, if_pos hlt] at hrest
      obtain ⟨rungs, others, hperm, hchain, hunder⟩ := ih hrest
      refine ⟨item :: rungs, others, hperm.cons item, .cons_cons ⟨hlt, hsame⟩ hchain, ?_⟩
      intro other hother
      obtain ⟨rung, hrung, hle⟩ := hunder other hother
      exact ⟨rung, mem_cons_of_mem _ hrung, hle⟩
    · rw [pick, if_neg hlt] at hrest
      obtain ⟨rungs, others, hperm, hchain, hunder⟩ := ih hrest
      refine ⟨rungs, item :: others, (hperm.cons item).trans perm_middle.symm, hchain, ?_⟩
      exact forall_mem_cons.2 ⟨⟨held, mem_cons_self, not_lt.1 hlt, hsame⟩, hunder⟩

theorem clashes_append (h : ∀ item ∈ items, Under rank same held item) :
    clashes rank same held (items ++ rest) = clashes rank same held rest := by
  induction items with
  | nil => rfl
  | cons item items ih =>
    rw [forall_mem_cons] at h
    obtain ⟨⟨hle, hsame⟩, hitems⟩ := h
    rw [cons_append, clashes, hsame, pick, if_neg (not_lt.2 hle), ih hitems]
    rfl

/-- A ladder is taken rung by rung, each followed by what is under it. -/
theorem exists_order {rungs others : List α} (hchain : (held :: rungs).IsChain (Rises rank same))
    (hunder : ∀ item ∈ others, ∃ rung ∈ held :: rungs, Under rank same rung item) :
    ∃ rest, (rungs ++ others).Perm rest ∧ clashes rank same held rest = false := by
  classical
  induction rungs generalizing held others with
  | nil =>
    refine ⟨others, .refl _, ?_⟩
    have hall : ∀ item ∈ others, Under rank same held item := fun item hitem => by
      obtain ⟨rung, hrung, hle⟩ := hunder item hitem
      exact mem_singleton.1 hrung ▸ hle
    rw [← append_nil others, clashes_append hall]
    rfl
  | cons next rungs ih =>
    rw [isChain_cons_cons] at hchain
    obtain ⟨⟨hlt, hsame⟩, hchain⟩ := hchain
    have hlater : ∀ item ∈ others.filter (¬ Under rank same held ·),
        ∃ rung ∈ next :: rungs, Under rank same rung item := by
      intro item hitem
      obtain ⟨hitem, hnot⟩ := mem_filter.1 hitem
      obtain ⟨rung, hrung, hle⟩ := hunder item hitem
      rcases mem_cons.1 hrung with rfl | hrung
      · exact absurd hle (of_decide_eq_true hnot)
      · exact ⟨rung, hrung, hle⟩
    obtain ⟨tail, hperm, htail⟩ := ih hchain hlater
    refine ⟨others.filter (Under rank same held ·) ++ next :: tail, ?_, ?_⟩
    · have hsplit : (others.filter (Under rank same held ·) ++
          others.filter (¬ Under rank same held ·)).Perm others := by
        simpa using filter_append_perm (Under rank same held ·) others
      have hmove : (rungs ++ others).Perm (others.filter (Under rank same held ·) ++ tail) :=
        ((Perm.append_left rungs hsplit.symm).trans
          (perm_append_comm_assoc _ _ _)).trans (Perm.append_left _ hperm)
      exact (hmove.cons next).trans perm_middle.symm
    · rw [clashes_append fun item hitem => of_decide_eq_true (mem_filter.1 hitem).2, clashes,
        hsame, pick, if_pos hlt, htail]
      rfl

/-- **Some order notes no difference exactly where the items form a ladder.** -/
theorem exists_clashes_eq_false_iff :
    (∃ first rest, items.Perm (first :: rest) ∧ clashes rank same first rest = false) ↔
      Laddered rank same items := by
  constructor
  · rintro ⟨first, rest, hperm, hquiet⟩
    obtain ⟨rungs, others, hrest, hchain, hunder⟩ := exists_rungs hquiet
    exact ⟨first, rungs, others, hperm.trans (hrest.cons first), hchain, hunder⟩
  · rintro ⟨first, rungs, others, hperm, hchain, hunder⟩
    obtain ⟨rest, hrest, hquiet⟩ := exists_order hchain hunder
    exact ⟨first, rest, hperm.trans (hrest.cons first), hquiet⟩

end Contest
