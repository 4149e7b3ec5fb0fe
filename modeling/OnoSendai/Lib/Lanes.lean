import Mathlib.Data.List.MinMax
import Mathlib.Data.List.Sublists

/-!
# Merging lanes by their heads

Items lie in lanes and are ranked inside their lane. Merging takes, again and again, the head with
the least key. As the keys need not rise along a lane, an item may have to wait behind one with a
greater key: where an item ends up is told by the greatest key of its lane up to it.

## Main definitions

* `Precedes` — whether an item ends up before another, told by lanes, ranks and keys;
* `HeadsFirst` — a list in which every item is a head with the least key when it is taken;
* `pop`, `mergeQueues` — merging queues.

## Main results

* `HeadsFirst.pairwise` — taking heads orders by `Precedes`;
* `mergeQueues_spec` — merging takes heads and loses nothing.
-/

namespace Lanes

open List Option

/-! ### Lists in an order -/

section Ordered

variable {α : Type*} {r : α → α → Prop} {items : List α} {one two : α}

/-- In a list in an asymmetric order, an item stands before another just when the order says so. -/
theorem pair_sublist_iff (hpairwise : items.Pairwise r) (hasymm : ∀ one two, r one two → ¬ r two one)
    (hone : one ∈ items) (htwo : two ∈ items) : [one, two].Sublist items ↔ r one two := by
  refine ⟨fun h => pairwise_iff_forall_sublist.1 hpairwise h, fun h => ?_⟩
  obtain ⟨before, behind, rfl⟩ := append_of_mem hone
  rcases mem_append.1 htwo with htwo | htwo
  · exact absurd ((pairwise_append.1 hpairwise).2.2 two htwo one mem_cons_self)
      (hasymm one two h)
  · rcases mem_cons.1 htwo with rfl | htwo
    · exact absurd h (hasymm two two h)
    · exact (singleton_sublist.2 htwo).cons_cons one |>.trans
        (sublist_append_right before _)

/-- In a list in an asymmetric order, two items are neighbours just when the order has nothing
between them. -/
theorem pair_infix_iff (hpairwise : items.Pairwise r) (hasymm : ∀ one two, r one two → ¬ r two one)
    (hone : one ∈ items) (htwo : two ∈ items) :
    [one, two] <:+: items ↔ r one two ∧ ∀ other ∈ items, r one other → ¬ r other two := by
  constructor
  · rintro ⟨before, behind, rfl⟩
    rw [append_assoc, pairwise_append] at hpairwise
    obtain ⟨-, hpairwise, hbefore⟩ := hpairwise
    simp only [cons_append, nil_append, pairwise_cons] at hpairwise
    obtain ⟨hfirst, hsecond, -⟩ := hpairwise
    refine ⟨hfirst two mem_cons_self, fun other hother hone' htwo' => ?_⟩
    simp only [append_assoc, cons_append, nil_append, mem_append,
      mem_cons] at hother
    rcases hother with hother | rfl | rfl | hother
    · exact hasymm _ _ hone' (hbefore other hother one mem_cons_self)
    · exact hasymm _ _ hone' hone'
    · exact hasymm _ _ htwo' htwo'
    · exact hasymm _ _ htwo' (hsecond other hother)
  · rintro ⟨h, hnone⟩
    obtain ⟨before, behind, rfl⟩ := append_of_mem hone
    obtain ⟨-, hbehind, hbefore⟩ := pairwise_append.1 hpairwise
    have hmem : two ∈ behind := by
      rcases mem_append.1 htwo with hleft | hright
      · exact absurd (hbefore two hleft one mem_cons_self) (hasymm _ _ h)
      · rcases mem_cons.1 hright with rfl | hright
        · exact absurd h (hasymm _ _ h)
        · exact hright
    cases behind with
    | nil => cases hmem
    | cons next behind =>
      rcases mem_cons.1 hmem with rfl | hlater
      · exact ⟨before, behind, by simp⟩
      · rw [pairwise_cons, pairwise_cons] at hbehind
        exact absurd (hbehind.2.1 two hlater) (hnone next (by simp)
          (hbehind.1 next mem_cons_self))

/-- Neighbours of a list stand at a place and the next. -/
theorem pair_infix_iff_getElem? : [one, two] <:+: items ↔
    ∃ i : Nat, items[i]? = some one ∧ items[i + 1]? = some two := by
  rw [infix_iff_getElem?]
  constructor
  · rintro ⟨i, -, hall⟩
    refine ⟨i, ?_, ?_⟩
    · simpa using hall 0 (by simp)
    · simpa [Nat.add_comm] using hall 1 (by simp)
  · rintro ⟨i, hone, htwo⟩
    refine ⟨i, ?_, fun place hplace => ?_⟩
    · have hlt := (List.getElem?_eq_some_iff.1 htwo).1
      simp only [List.length_cons, List.length_nil]
      omega
    · match place with
      | 0 => simpa using hone
      | 1 => simpa [Nat.add_comm] using htwo

end Ordered

/-! ### Where an item ends up -/

section Lane

variable {α γ ρ κ : Type*} [DecidableEq γ] [LinearOrder ρ] [LinearOrder κ]
variable (lane : α → γ) (rank : α → ρ) (key : α → κ)

/-- Whether an item ends up before another: by rank inside a lane; between lanes where some item of
the second lane up to the second item has a greater key than every item of the first lane up to the
first. -/
def Precedes (items : List α) (one two : α) : Prop :=
  if lane one = lane two then rank one < rank two
  else ∃ late ∈ items, lane late = lane two ∧ rank late ≤ rank two ∧
    ∀ other ∈ items, lane other = lane one → rank other ≤ rank one → key other < key late

/-- Whether an item is the head of its lane among some. -/
def Leads (items : List α) (item : α) : Prop :=
  ∀ other ∈ items, lane other = lane item → rank item ≤ rank other

/-- Every item is the head of its lane when it is taken, with a key below that of every other
head. -/
def HeadsFirst : List α → Prop
  | [] => True
  | item :: items =>
    (∀ other ∈ items, lane other = lane item → rank item < rank other) ∧
      (∀ other ∈ items, lane other ≠ lane item → Leads lane rank items other →
        key item < key other) ∧
      HeadsFirst items

variable {lane rank key} {items done : List α}

theorem Precedes.asymm {one two : α} (h : Precedes lane rank key items one two) :
    ¬ Precedes lane rank key items two one := by
  unfold Precedes at h ⊢
  split_ifs at h with hsame
  · rw [if_pos hsame.symm]
    exact not_lt.2 h.le
  · rw [if_neg (Ne.symm hsame)]
    rintro ⟨late, hlate, hlane, hrank, hall⟩
    obtain ⟨late', hlate', hlane', hrank', hall'⟩ := h
    exact lt_asymm (hall late' hlate' hlane' hrank') (hall' late hlate hlane hrank)

theorem precedes_congr {others : List α} (h : ∀ item, item ∈ items ↔ item ∈ others) :
    Precedes lane rank key items = Precedes lane rank key others := by
  funext one two
  unfold Precedes
  simp only [h]

theorem exists_leads {item : α} (h : item ∈ items) :
    ∃ head ∈ items, lane head = lane item ∧ rank head ≤ rank item ∧ Leads lane rank items head := by
  have hne : items.filter (fun other => lane other = lane item) ≠ [] :=
    ne_nil_of_mem (mem_filter.2 ⟨h, by simp⟩)
  obtain ⟨head, hhead⟩ := ne_none_iff_exists'.1
    (mt argmin_eq_none.1 hne : argmin rank _ ≠ none)
  obtain ⟨hmem, hlane⟩ := mem_filter.1 (argmin_mem hhead)
  have hlane : lane head = lane item := by simpa using hlane
  refine ⟨head, hmem, hlane, ?_, fun other hother hsame => ?_⟩
  · exact le_of_mem_argmin (mem_filter.2 ⟨h, by simp⟩) hhead
  · exact le_of_mem_argmin
      (mem_filter.2 ⟨hother, by simpa using hsame.trans hlane⟩) hhead

/-- What was taken is below what leads another lane, by some key of that lane up to its head. -/
def Cleared (lane : α → γ) (rank : α → ρ) (key : α → κ) (done items : List α) : Prop :=
  ∀ head ∈ items, Leads lane rank items head → ∀ other, other ≠ lane head →
    ∃ late ∈ done ++ items, lane late = lane head ∧ rank late ≤ rank head ∧
      ∀ taken ∈ done, lane taken = other → key taken < key late

/-- Taking a head keeps what was taken below what leads. -/
theorem Cleared.step {item : α} (h : Cleared lane rank key done (item :: items))
    (hheads : HeadsFirst lane rank key (item :: items)) :
    Cleared lane rank key (done ++ [item]) items := by
  obtain ⟨hown, hothers, -⟩ := hheads
  intro head hhead hleads other hother
  have hmem : ∀ late, late ∈ done ++ [item] ++ items ↔ late ∈ done ++ item :: items := by simp
  by_cases hlane : lane head = lane item
  · -- The next of the lane is behind the item that led it.
    obtain ⟨late, hlate, hsame, hrank, hall⟩ := h item mem_cons_self
      (fun next hnext hlane' => (mem_cons.1 hnext).elim (fun heq => heq ▸ le_rfl)
        fun hnext => (hown next hnext hlane').le) other (hlane ▸ hother)
    refine ⟨late, (hmem late).2 hlate, hsame.trans hlane.symm,
      hrank.trans (hown head hhead hlane).le, fun taken htaken hlane' => ?_⟩
    rcases mem_append.1 htaken with htaken | htaken
    · exact hall taken htaken hlane'
    · rw [mem_singleton.1 htaken] at hlane'
      exact absurd (hlane'.symm.trans hlane.symm) hother
  · have hkey := hothers head hhead hlane hleads
    obtain ⟨late, hlate, hsame, hrank, hall⟩ := h head (mem_cons_of_mem _ hhead)
      (fun next hnext hlane' => (mem_cons.1 hnext).elim
        (fun heq => absurd (heq ▸ hlane' : lane item = lane head).symm hlane)
        fun hnext => hleads next hnext hlane') other hother
    -- The greater of the two keys is above what was taken and above the item.
    rcases le_total (key late) (key head) with hle | hle
    · refine ⟨head, by simp [hhead], rfl, le_rfl, fun taken htaken hlane' => ?_⟩
      rcases mem_append.1 htaken with htaken | htaken
      · exact (hall taken htaken hlane').trans_le hle
      · rwa [mem_singleton.1 htaken]
    · refine ⟨late, (hmem late).2 hlate, hsame, hrank, fun taken htaken hlane' => ?_⟩
      rcases mem_append.1 htaken with htaken | htaken
      · exact hall taken htaken hlane'
      · rw [mem_singleton.1 htaken]
        exact hkey.trans_le hle

theorem HeadsFirst.pairwise_of_cleared (hheads : HeadsFirst lane rank key items)
    (h : Cleared lane rank key done items)
    (hdone : ∀ one ∈ done, ∀ two ∈ items, lane one = lane two → rank one < rank two) :
    items.Pairwise (Precedes lane rank key (done ++ items)) := by
  induction items generalizing done with
  | nil => exact .nil
  | cons item items ih =>
    have hnext := h.step hheads
    obtain ⟨hown, hothers, hrest⟩ := hheads
    have hlater := ih hrest hnext fun one hone two htwo hlane => by
      rcases mem_append.1 hone with hone | hone
      · exact hdone one hone two (mem_cons_of_mem _ htwo) hlane
      · rw [mem_singleton.1 hone] at hlane ⊢
        exact hown two htwo hlane.symm
    rw [append_assoc, singleton_append] at hlater
    refine pairwise_cons.2 ⟨fun two htwo => ?_, hlater⟩
    unfold Precedes
    split_ifs with hlane
    · exact hown two htwo hlane.symm
    · obtain ⟨head, hhead, hsame, hrank, hleads⟩ : ∃ head ∈ items, lane head = lane two ∧
          rank head ≤ rank two ∧ Leads lane rank items head := exists_leads htwo
      obtain ⟨late, hlate, hsame', hrank', hall⟩ := hnext head hhead hleads (lane item)
        (hsame ▸ hlane)
      refine ⟨late, by simpa using hlate, hsame'.trans hsame, hrank'.trans hrank,
        fun other hother hlane' hle => ?_⟩
      refine hall other ?_ hlane'
      rcases mem_append.1 hother with hother | hother
      · exact mem_append_left _ hother
      · rcases mem_cons.1 hother with rfl | hother
        · exact mem_append_right _ mem_cons_self
        · exact absurd hle (not_le.2 (hown other hother hlane'))

/-- **Taking heads orders items by where they end up.** -/
theorem HeadsFirst.pairwise (h : HeadsFirst lane rank key items) :
    items.Pairwise (Precedes lane rank key items) := by
  have hcleared : Cleared lane rank key [] items := fun head hhead _ other _ =>
    ⟨head, hhead, rfl, le_rfl, by simp⟩
  exact h.pairwise_of_cleared hcleared (by simp)

end Lane

/-! ### Merging queues -/

section Merge

variable {α γ ρ κ : Type*} [LinearOrder ρ] [LinearOrder κ]

/-- Takes the head with the least key, of several the one of the first queue. -/
def pop (key : α → κ) : List (List α) → Option (α × List (List α))
  | [] => none
  | [] :: queues => (pop key queues).map fun (item, rest) => (item, [] :: rest)
  | (head :: queue) :: queues =>
    match pop key queues with
    | none => some (head, queue :: queues)
    | some (item, rest) =>
      if key head ≤ key item then some (head, queue :: queues)
      else some (item, (head :: queue) :: rest)

/-- Takes heads as long as there are some, at most so many. -/
def mergeQueues (key : α → κ) : Nat → List (List α) → List α
  | 0, _ => []
  | count + 1, queues =>
    match pop key queues with
    | none => []
    | some (item, rest) => item :: mergeQueues key count rest

/-- Queues of one lane each, ranked, no lane in two of them. -/
structure Laned (lane : α → γ) (rank : α → ρ) (queues : List (List α)) : Prop where
  ranked : ∀ queue ∈ queues, queue.Pairwise fun one two => rank one < rank two
  same : ∀ queue ∈ queues, ∀ one ∈ queue, ∀ two ∈ queue, lane one = lane two
  apart : queues.Pairwise fun queue queue' => ∀ one ∈ queue, ∀ two ∈ queue', lane one ≠ lane two

variable {lane : α → γ} {rank : α → ρ} {key : α → κ} {queues rest : List (List α)} {item : α}

theorem pop_eq_none (h : pop key queues = none) : queues.flatten = [] := by
  induction queues with
  | nil => rfl
  | cons queue queues ih =>
    cases queue with
    | nil =>
      rw [pop, map_eq_none_iff] at h
      rw [flatten_cons, ih h, nil_append]
    | cons head queue =>
      rw [pop] at h
      split at h
      · cases h
      · split_ifs at h

/-- What is taken is the head of a queue, and no head has a smaller key. -/
theorem pop_spec (h : pop key queues = some (item, rest)) :
    (∃ before queue behind, queues = before ++ (item :: queue) :: behind ∧
        rest = before ++ queue :: behind) ∧
      ∀ queue ∈ queues, ∀ head ∈ queue.head?, key item ≤ key head := by
  induction queues generalizing item rest with
  | nil => cases h
  | cons queue queues ih =>
    cases queue with
    | nil =>
      obtain ⟨⟨item', rest'⟩, hpop, heq⟩ := map_eq_some_iff.1 h
      obtain ⟨rfl, rfl⟩ := Prod.mk.inj heq
      obtain ⟨⟨before, queue, behind, rfl, rfl⟩, hleast⟩ := ih hpop
      refine ⟨⟨[] :: before, queue, behind, rfl, rfl⟩, ?_⟩
      rw [forall_mem_cons]
      exact ⟨by simp, hleast⟩
    | cons head queue =>
      rw [pop] at h
      cases hpop : pop key queues with
      | none =>
        rw [hpop] at h
        obtain ⟨rfl, rfl⟩ := Prod.mk.inj (some.inj h)
        refine ⟨⟨[], queue, queues, rfl, rfl⟩, ?_⟩
        have hnil := pop_eq_none hpop
        rw [forall_mem_cons]
        refine ⟨by simp, fun other hother head' hhead' => ?_⟩
        rw [flatten_eq_nil_iff.1 hnil other hother] at hhead'
        cases hhead'
      | some taken =>
        obtain ⟨item', rest'⟩ := taken
        obtain ⟨⟨before, queue', behind, rfl, rfl⟩, hleast⟩ := ih hpop
        rw [hpop] at h
        dsimp only at h
        split_ifs at h with hle
        · obtain ⟨rfl, rfl⟩ := Prod.mk.inj (some.inj h)
          refine ⟨⟨[], queue, _, rfl, rfl⟩, ?_⟩
          rw [forall_mem_cons]
          exact ⟨by simp, fun other hother head' hhead' =>
            hle.trans (hleast other hother head' hhead')⟩
        · obtain ⟨rfl, rfl⟩ := Prod.mk.inj (some.inj h)
          refine ⟨⟨(head :: queue) :: before, queue', behind, rfl, rfl⟩, ?_⟩
          rw [forall_mem_cons]
          refine ⟨fun head' hhead' => ?_, hleast⟩
          obtain rfl := some.inj hhead'
          exact (not_le.1 hle).le

theorem Laned.of_pop (h : Laned lane rank queues) {before behind : List (List α)} {queue : List α}
    (hqueues : queues = before ++ (item :: queue) :: behind) :
    Laned lane rank (before ++ queue :: behind) := by
  subst hqueues
  have hshorter : ∀ {r : List α → List α → Prop} (_ : ∀ other, r (item :: queue) other →
      r queue other) (_ : ∀ other, r other (item :: queue) → r other queue),
      (before ++ (item :: queue) :: behind).Pairwise r → (before ++ queue :: behind).Pairwise r := by
    intro r hleft hright hpairwise
    rw [pairwise_append, pairwise_cons] at hpairwise ⊢
    obtain ⟨hbefore, ⟨hqueue, hbehind⟩, hall⟩ := hpairwise
    refine ⟨hbefore, ⟨fun other hother => hleft _ (hqueue other hother), hbehind⟩,
      fun one hone two htwo => ?_⟩
    rcases mem_cons.1 htwo with rfl | htwo
    · exact hright _ (hall one hone _ mem_cons_self)
    · exact hall one hone two (mem_cons_of_mem _ htwo)
  have hmem : ∀ other ∈ before ++ queue :: behind,
      ∃ whole ∈ before ++ (item :: queue) :: behind, other.Sublist whole := by
    intro other hother
    rcases mem_append.1 hother with hother | hother
    · exact ⟨other, mem_append_left _ hother, Sublist.refl _⟩
    · rcases mem_cons.1 hother with rfl | hother
      · exact ⟨item :: other, by simp, sublist_cons_self _ _⟩
      · exact ⟨other, by simp [hother], Sublist.refl _⟩
  refine ⟨fun other hother => ?_, fun other hother one hone two htwo => ?_,
    hshorter (fun other hleft one hone => hleft one (mem_cons_of_mem _ hone))
      (fun other hright one hone two htwo => hright one hone two (mem_cons_of_mem _ htwo))
      h.apart⟩
  · obtain ⟨whole, hwhole, hsublist⟩ := hmem other hother
    exact (h.ranked whole hwhole).sublist hsublist
  · obtain ⟨whole, hwhole, hsublist⟩ := hmem other hother
    exact h.same whole hwhole one (hsublist.subset hone) two (hsublist.subset htwo)

theorem Laned.rank_lt (h : Laned lane rank queues) {before behind : List (List α)} {queue : List α}
    (hqueues : queues = before ++ (item :: queue) :: behind) {other : α}
    (hother : other ∈ (before ++ queue :: behind).flatten) (hlane : lane other = lane item) :
    rank item < rank other := by
  subst hqueues
  obtain ⟨whole, hwhole, hmem⟩ := mem_flatten.1 hother
  obtain ⟨-, hapart, hbefore⟩ := pairwise_append.1 h.apart
  rw [pairwise_cons] at hapart
  rcases mem_append.1 hwhole with hwhole | hwhole
  · exact absurd hlane
      (hbefore whole hwhole _ mem_cons_self other hmem item mem_cons_self)
  · rcases mem_cons.1 hwhole with rfl | hwhole
    · exact (pairwise_cons.1 (h.ranked (item :: whole) (by simp))).1 other hmem
    · exact absurd hlane.symm (hapart.1 whole hwhole item mem_cons_self other hmem)

/-- What leads another lane once an item was taken is the head of its queue. -/
theorem Laned.mem_head?_of_leads (h : Laned lane rank queues) {before behind : List (List α)}
    {queue : List α} (hqueues : queues = before ++ (item :: queue) :: behind) {other : α}
    (hother : other ∈ (before ++ queue :: behind).flatten) (hlane : lane other ≠ lane item)
    (hleads : Leads lane rank (before ++ queue :: behind).flatten other) :
    ∃ whole ∈ queues, other ∈ whole.head? := by
  subst hqueues
  obtain ⟨whole, hwhole, hmem⟩ := mem_flatten.1 hother
  have hwhole' : whole ∈ before ++ (item :: queue) :: behind := by
    rcases mem_append.1 hwhole with hwhole | hwhole
    · exact mem_append_left _ hwhole
    · rcases mem_cons.1 hwhole with rfl | hwhole
      · exact absurd (h.same (item :: whole) (by simp) other (mem_cons_of_mem _ hmem) item
          mem_cons_self) hlane
      · simp [hwhole]
  refine ⟨whole, hwhole', ?_⟩
  cases whole with
  | nil => cases hmem
  | cons head tail =>
    rcases mem_cons.1 hmem with rfl | htail
    · rfl
    · have hlt := (pairwise_cons.1 (h.ranked _ hwhole')).1 other htail
      have hle := hleads head (mem_flatten.2 ⟨_, hwhole, mem_cons_self⟩)
        (h.same _ hwhole' head mem_cons_self other hmem)
      exact absurd hle (not_le.2 hlt)

/-- **Merging queues takes heads, and loses nothing.** -/
theorem mergeQueues_spec {count : Nat} (h : Laned lane rank queues)
    (hkeys : ∀ one ∈ queues.flatten, ∀ two ∈ queues.flatten, key one = key two → one = two)
    (hcount : queues.flatten.length ≤ count) :
    (mergeQueues key count queues).Perm queues.flatten ∧
      HeadsFirst lane rank key (mergeQueues key count queues) := by
  induction count generalizing queues with
  | zero =>
    rw [eq_nil_of_length_eq_zero (Nat.le_zero.1 hcount)]
    exact ⟨.nil, trivial⟩
  | succ count ih =>
    rw [mergeQueues]
    cases hpop : pop key queues with
    | none =>
      rw [pop_eq_none hpop]
      exact ⟨.nil, trivial⟩
    | some taken =>
      obtain ⟨item, rest⟩ := taken
      obtain ⟨⟨before, queue, behind, hqueues, rfl⟩, hleast⟩ := pop_spec hpop
      have hperm : queues.flatten.Perm (item :: (before ++ queue :: behind).flatten) := by
        rw [hqueues, flatten_append, flatten_append, flatten_cons, flatten_cons,
          cons_append]
        exact perm_middle
      obtain ⟨hmerged, hheads⟩ := ih (h.of_pop hqueues)
        (fun one hone two htwo => hkeys one (hperm.symm.subset (mem_cons_of_mem _ hone)) two
          (hperm.symm.subset (mem_cons_of_mem _ htwo)))
        (by
          have hlength := hperm.length_eq
          rw [length_cons] at hlength
          omega)
      refine ⟨(hmerged.cons item).trans hperm.symm, fun other hother hlane => ?_,
        fun other hother hlane hleads => ?_, hheads⟩
      · exact h.rank_lt hqueues (hmerged.subset hother) hlane
      · obtain ⟨whole, hwhole, hhead⟩ := h.mem_head?_of_leads hqueues (hmerged.subset hother) hlane
          fun next hnext => hleads next (hmerged.symm.subset hnext)
        refine lt_of_le_of_ne (hleast whole hwhole other hhead) fun heq => hlane ?_
        rw [hkeys item (hperm.symm.subset mem_cons_self) other
          (hperm.symm.subset (mem_cons_of_mem _ (hmerged.subset hother))) heq]

end Merge

end Lanes
