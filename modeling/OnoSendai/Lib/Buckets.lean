import Mathlib.Data.List.Induction
import Mathlib.Data.List.Perm.Lattice
import OnoSendai.Lib.FirstKept

/-!
# Items gathered by key

Items are taken one after another, each into the entry of its key, which the first item of a key
adds. The entries stand in the order their keys came up in, and an entry holds what its items make
of it; the items of all entries are the items that were taken.

## Main definitions

* `upsert`, `gather` — changing or adding an entry, and gathering items.

## Main results

* `lookup_upsert`, `gather_eq`, `lookup_gather` — what the entries hold;
* `firstKept_pairwise` — the keys stand in the order they came up in;
* `perm_flatMap_filter` — the items of all keys are the items.
-/

namespace Keyed

open List

variable {α κ β : Type*} [DecidableEq κ] {key : α → κ}

/-- Changes the entry of a key, or adds one. -/
def upsert (k : κ) (added : β) (change : β → β) : List (κ × β) → List (κ × β)
  | [] => [(k, added)]
  | (other, held) :: entries =>
    if other = k then (other, change held) :: entries
    else (other, held) :: upsert k added change entries

/-- Gathers items into entries. -/
def gather (key : α → κ) (added : α → β) (change : α → β → β) (items : List α) : List (κ × β) :=
  items.foldl (fun entries item => upsert (key item) (added item) (change item) entries) []

/-- Of entries with distinct keys, one is what is held under its key. -/
theorem mem_iff_lookup {k : κ} {held : β} {entries : List (κ × β)}
    (h : (entries.map Prod.fst).Nodup) : (k, held) ∈ entries ↔ entries.lookup k = some held := by
  induction entries with
  | nil => simp
  | cons entry entries ih =>
    obtain ⟨other, found⟩ := entry
    rw [map_cons, nodup_cons] at h
    rw [mem_cons, lookup_cons]
    by_cases heq : k = other
    · subst heq
      have hnot : (k, held) ∉ entries := fun hmem => h.1 (mem_map.2 ⟨_, hmem, rfl⟩)
      simp [hnot, eq_comm]
    · simp [heq, beq_eq_false_iff_ne.2 heq, ih h.2]

/-- Changing an entry changes what is held under its key. -/
theorem lookup_upsert (k other : κ) (added : β) (change : β → β) (entries : List (κ × β)) :
    (upsert k added change entries).lookup other =
      if other = k then some (((entries.lookup k).map change).getD added)
      else entries.lookup other := by
  induction entries with
  | nil =>
    rw [upsert, lookup_cons]
    by_cases hother : other = k
    · rw [hother, beq_self_eq_true, if_pos rfl]
      rfl
    · rw [beq_eq_false_iff_ne.2 hother, if_neg hother]
  | cons entry entries ih =>
    obtain ⟨known, held⟩ := entry
    rw [upsert]
    by_cases hknown : known = k
    · rw [if_pos hknown, lookup_cons, lookup_cons, lookup_cons, hknown]
      by_cases hother : other = k
      · rw [hother, beq_self_eq_true, if_pos rfl]
        rfl
      · rw [beq_eq_false_iff_ne.2 hother, if_neg hother]
    · have hne : (k == known) = false := beq_eq_false_iff_ne.2 (Ne.symm hknown)
      rw [if_neg hknown, lookup_cons, lookup_cons, lookup_cons, hne, ih]
      dsimp only
      by_cases hsame : other = known
      · subst hsame
        rw [beq_self_eq_true]
        exact (if_neg hknown).symm
      · rw [beq_eq_false_iff_ne.2 hsame]

/-! ### Entries -/

section Entries

variable {added : α → β} {change : α → β → β} {items kept : List α} {item : α}

theorem firstKept_concat (items : List α) (item : α) :
    firstKept key (items ++ [item]) = pushFirst key (firstKept key items) item := by
  rw [firstKept, foldl_append]
  rfl

theorem upsert_map_of_notMem {view : α → β} {k : κ} {new : β} {change : β → β}
    (h : ∀ other ∈ kept, key other ≠ k) :
    upsert k new change (kept.map fun other => (key other, view other)) =
      kept.map (fun other => (key other, view other)) ++ [(k, new)] := by
  induction kept with
  | nil => rfl
  | cons first kept ih =>
    rw [forall_mem_cons] at h
    rw [map_cons, upsert, if_neg h.1, ih h.2, cons_append]

theorem upsert_map_of_mem {view : α → β} {new : β} {change : β → β}
    (hnodup : (kept.map key).Nodup) (h : item ∈ kept) :
    upsert (key item) new change (kept.map fun other => (key other, view other)) =
      kept.map fun other =>
        (key other, if key other = key item then change (view other) else view other) := by
  induction kept with
  | nil => cases h
  | cons first kept ih =>
    rw [map_cons, nodup_cons] at hnodup
    rw [map_cons, map_cons, upsert]
    by_cases hkey : key first = key item
    · rw [if_pos hkey, if_pos hkey]
      refine congrArg _ (map_congr_left fun other hother => ?_)
      rw [if_neg]
      intro heq
      exact hnodup.1 (mem_map.2 ⟨other, hother, heq.trans hkey.symm⟩)
    · have hmem : item ∈ kept := (mem_cons.1 h).resolve_left fun heq => hkey (heq ▸ rfl)
      rw [if_neg hkey, if_neg hkey, ih hnodup.2 hmem]

/-- **What the entries hold.** There is one entry for each key, in the order the keys came up in,
and it holds what the items of its key come to. -/
theorem gather_eq (content : List α → β) (hadded : ∀ item, content [item] = added item)
    (hchange : ∀ held item, held ≠ [] → content (held ++ [item]) = change item (content held))
    (items : List α) :
    gather key added change items = (firstKept key items).map fun first =>
      (key first, content (items.filter (key · = key first))) := by
  induction items using reverseRecOn with
  | nil => rfl
  | append_singleton items item ih =>
    have hstep : gather key added change (items ++ [item]) =
        upsert (key item) (added item) (change item) (gather key added change items) := by
      rw [gather, foldl_append]
      rfl
    rw [hstep, ih, firstKept_concat, pushFirst]
    by_cases hany : (firstKept key items).any (key · = key item)
    · obtain ⟨known, hknown, hkey⟩ := any_eq_true.1 hany
      have hkey : key known = key item := of_decide_eq_true hkey
      rw [if_pos hany, ← hkey, upsert_map_of_mem (nodup_map_firstKept key items) hknown]
      refine map_congr_left fun first hfirst => ?_
      rw [filter_append]
      by_cases hsame : key first = key known
      · have hne : items.filter (key · = key first) ≠ [] :=
          ne_nil_of_mem (mem_filter.2 ⟨mem_of_mem_firstKept hfirst, by simp⟩)
        rw [if_pos hsame, filter_cons_of_pos (by simp [hsame, hkey]), filter_nil,
          hchange _ _ hne]
      · rw [if_neg hsame, filter_cons_of_neg (by simpa [← hkey] using Ne.symm hsame),
          filter_nil, append_nil]
    · have hnone : ∀ other ∈ firstKept key items, key other ≠ key item := by
        intro other hother heq
        exact hany (any_eq_true.2 ⟨other, hother, by simpa using heq⟩)
      have hitems : ∀ other ∈ items, key other ≠ key item := by
        intro other hother heq
        obtain ⟨first, hfirst, hsame⟩ := exists_mem_firstKept key hother
        exact hnone first hfirst (hsame.trans heq)
      rw [if_neg hany, upsert_map_of_notMem hnone, map_append, map_singleton]
      refine congrArg₂ _ (map_congr_left fun first hfirst => ?_) ?_
      · rw [filter_append,
          filter_cons_of_neg (by simpa using (hnone first hfirst).symm), filter_nil,
          append_nil]
      · rw [filter_append, filter_eq_nil_iff.2 (by simpa using hitems), nil_append,
          filter_cons_of_pos (by simp), filter_nil, hadded]

theorem lookup_map_of_mem {view : α → β} (hnodup : (kept.map key).Nodup) (h : item ∈ kept) :
    (kept.map fun other => (key other, view other)).lookup (key item) = some (view item) := by
  induction kept with
  | nil => cases h
  | cons first kept ih =>
    rw [map_cons, nodup_cons] at hnodup
    rw [map_cons, lookup_cons]
    rcases mem_cons.1 h with rfl | h
    · rw [beq_self_eq_true]
    · have hne : (key item == key first) = false := by
        rw [beq_eq_false_iff_ne]
        intro heq
        exact hnodup.1 (heq ▸ mem_map_of_mem h)
      rw [hne]
      exact ih hnodup.2 h

theorem lookup_map_of_notMem {view : α → β} {k : κ} (h : ∀ other ∈ kept, key other ≠ k) :
    (kept.map fun other => (key other, view other)).lookup k = none := by
  induction kept with
  | nil => rfl
  | cons first kept ih =>
    rw [forall_mem_cons] at h
    have hne : (k == key first) = false := by
      rw [beq_eq_false_iff_ne]
      exact h.1.symm
    rw [map_cons, lookup_cons, hne]
    exact ih h.2

/-- The entry of a key holds what its items come to, and a key without items has none. -/
theorem lookup_gather (content : List α → β) (hadded : ∀ item, content [item] = added item)
    (hchange : ∀ held item, held ≠ [] → content (held ++ [item]) = change item (content held))
    (items : List α) (k : κ) :
    (gather key added change items).lookup k =
      if items.filter (key · = k) = [] then none
      else some (content (items.filter (key · = k))) := by
  rw [gather_eq content hadded hchange]
  by_cases hnone : items.filter (key · = k) = []
  · rw [if_pos hnone]
    refine lookup_map_of_notMem fun other hother heq => ?_
    exact not_mem_nil (hnone ▸ mem_filter.2 ⟨mem_of_mem_firstKept hother, by simpa⟩)
  · obtain ⟨item, hitem⟩ := exists_mem_of_ne_nil _ hnone
    rw [mem_filter, decide_eq_true_eq] at hitem
    obtain ⟨first, hfirst, hkey⟩ := exists_mem_firstKept key hitem.1
    have hk : key first = k := hkey.trans hitem.2
    rw [if_neg hnone, ← hk, lookup_map_of_mem (nodup_map_firstKept key items) hfirst]

/-- The keys stand in the order they came up in: before the first item of a key there is none of
a later one. -/
theorem firstKept_pairwise (items : List α) :
    (firstKept key items).Pairwise fun first later =>
      ∃ before after, items = before ++ first :: after ∧
        ∀ other ∈ before ++ [first], key other ≠ key later := by
  induction items using reverseRecOn with
  | nil => exact Pairwise.nil
  | append_singleton items item ih =>
    have hmore : (firstKept key items).Pairwise fun first later =>
        ∃ before after, items ++ [item] = before ++ first :: after ∧
          ∀ other ∈ before ++ [first], key other ≠ key later := by
      refine ih.imp ?_
      rintro first later ⟨before, after, hsplit, hnone⟩
      exact ⟨before, after ++ [item], by rw [hsplit, append_assoc, cons_append], hnone⟩
    rw [firstKept_concat, pushFirst]
    split_ifs with hany
    · exact hmore
    · refine pairwise_append.2 ⟨hmore, pairwise_singleton _ _, fun first hfirst => ?_⟩
      intro later hlater
      obtain rfl := mem_singleton.1 hlater
      obtain ⟨before, after, hsplit⟩ := append_of_mem (mem_of_mem_firstKept hfirst)
      refine ⟨before, after ++ [later], by rw [hsplit, append_assoc, cons_append],
        fun other hother heq => ?_⟩
      have hmem : other ∈ items := by
        rw [hsplit]
        simp only [mem_append, mem_cons, not_mem_nil, or_false] at hother ⊢
        tauto
      obtain ⟨known, hknown, hkey⟩ := exists_mem_firstKept key hmem
      exact hany (any_eq_true.2 ⟨known, hknown, by simpa using hkey.trans heq⟩)

/-- Items taken key by key are the items with these keys. -/
theorem perm_flatMap_filter_of_nodup {keys : List κ} (hnodup : keys.Nodup) (items : List α) :
    (keys.flatMap fun k => items.filter (key · = k)).Perm (items.filter (key · ∈ keys)) := by
  induction keys with
  | nil => simp
  | cons k keys ih =>
    rw [nodup_cons] at hnodup
    rw [flatMap_cons]
    have hsplit := filter_append_perm (fun item => decide (key item = k))
      (items.filter (key · ∈ k :: keys))
    rw [filter_filter, filter_filter] at hsplit
    refine ((ih hnodup.2).append_left _).trans ?_
    refine (Perm.of_eq ?_).trans hsplit
    refine congrArg₂ _ (filter_congr fun item _ => ?_) (filter_congr fun item _ => ?_)
    · by_cases hkey : key item = k <;> simp [hkey]
    · by_cases hkey : key item = k
      · simp [hkey, hnodup.1]
      · simp [hkey]

/-- **The items of all keys are the items.** -/
theorem perm_flatMap_filter (items : List α) :
    ((firstKept key items).flatMap fun first => items.filter (key · = key first)).Perm items := by
  have hperm := @perm_flatMap_filter_of_nodup α κ _ key _ (nodup_map_firstKept key items) items
  rw [flatMap_map] at hperm
  refine hperm.trans (Perm.of_eq (filter_eq_self.2 fun item hitem => ?_))
  obtain ⟨first, hfirst, hkey⟩ := exists_mem_firstKept key hitem
  exact decide_eq_true (hkey ▸ mem_map_of_mem hfirst)

end Entries

end Keyed
