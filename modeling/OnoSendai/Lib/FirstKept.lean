import Mathlib.Data.List.Nodup
import Mathlib.Data.List.Perm.Basic

/-!
# Keeping the first item of each key

Items are taken one after another, and an item whose key is there already is dropped. What is kept
has one item for each key. What can be seen of the kept items does not depend on the order of the
items exactly when items with one key look the same.

## Main definitions

* `pushFirst`, `firstKept` — keeping an item, and keeping the first item of each key.

## Main results

* `exists_mem_firstKept`, `mem_of_mem_firstKept`, `nodup_map_firstKept` — what is kept;
* `map_firstKept_perm` — items that agree can be taken in any order.
-/

namespace Keyed

open List

variable {α κ β : Type*} [DecidableEq κ] {key : α → κ}

/-- Keeps an item unless one with its key is there already. -/
def pushFirst (key : α → κ) (kept : List α) (item : α) : List α :=
  if kept.any (key · = key item) then kept else kept ++ [item]

/-- The first item of each key. -/
def firstKept (key : α → κ) (items : List α) : List α :=
  items.foldl (pushFirst key) []

section Fold

variable {kept items : List α} {item : α}

theorem subset_foldl_pushFirst : kept ⊆ items.foldl (pushFirst key) kept := by
  induction items generalizing kept with
  | nil => exact Subset.refl _
  | cons item items ih =>
    refine Subset.trans ?_ ih
    unfold pushFirst
    split_ifs
    · exact Subset.refl _
    · exact subset_append_left _ _

theorem exists_mem_foldl_pushFirst (h : item ∈ items) :
    ∃ other ∈ items.foldl (pushFirst key) kept, key other = key item := by
  induction items generalizing kept with
  | nil => cases h
  | cons first items ih =>
    rcases mem_cons.mp h with rfl | h
    · rw [foldl_cons, pushFirst]
      split_ifs with hany
      · obtain ⟨other, hother, hkey⟩ := any_eq_true.mp hany
        exact ⟨other, subset_foldl_pushFirst hother, by simpa using hkey⟩
      · exact ⟨item, subset_foldl_pushFirst (by simp), rfl⟩
    · exact ih h

theorem mem_of_mem_foldl_pushFirst (h : item ∈ items.foldl (pushFirst key) kept) :
    item ∈ kept ∨ item ∈ items := by
  induction items generalizing kept with
  | nil => exact .inl h
  | cons first items ih =>
    rcases ih h with hkept | hitems
    · unfold pushFirst at hkept
      split_ifs at hkept with hany
      · exact .inl hkept
      · rcases mem_append.mp hkept with hkept | hkept
        · exact .inl hkept
        · exact .inr (by simp [mem_singleton.mp hkept])
    · exact .inr (mem_cons_of_mem _ hitems)

theorem nodup_map_foldl_pushFirst (h : (kept.map key).Nodup) :
    ((items.foldl (pushFirst key) kept).map key).Nodup := by
  induction items generalizing kept with
  | nil => exact h
  | cons first items ih =>
    refine ih ?_
    unfold pushFirst
    split_ifs with hany
    · exact h
    · rw [map_append, nodup_append]
      refine ⟨h, by simp, ?_⟩
      intro value hvalue other hother
      obtain ⟨item, hitem, rfl⟩ := mem_map.mp hvalue
      obtain rfl : other = key first := by simpa using hother
      intro hkey
      exact hany (any_eq_true.mpr ⟨item, hitem, by simpa using hkey⟩)

end Fold

variable {items items' : List α} {item : α}

/-- Every key is kept. -/
theorem exists_mem_firstKept (key : α → κ) (h : item ∈ items) :
    ∃ other ∈ firstKept key items, key other = key item :=
  exists_mem_foldl_pushFirst h

/-- What is kept was there. -/
theorem mem_of_mem_firstKept (h : item ∈ firstKept key items) : item ∈ items :=
  (mem_of_mem_foldl_pushFirst h).resolve_left not_mem_nil

/-- No key is kept twice. -/
theorem nodup_map_firstKept (key : α → κ) (items : List α) :
    ((firstKept key items).map key).Nodup :=
  nodup_map_foldl_pushFirst nodup_nil

theorem eq_of_mem_firstKept {other : α} (h : item ∈ firstKept key items)
    (hother : other ∈ firstKept key items) (hkey : key item = key other) : item = other :=
  inj_on_of_nodup_map (nodup_map_firstKept key items) h hother hkey

theorem mem_firstKept_cons (first : α) (items : List α) :
    first ∈ firstKept key (first :: items) := by
  rw [firstKept, foldl_cons]
  exact subset_foldl_pushFirst (by simp [pushFirst])

/-- **Items that agree can be taken in any order.** Where items with one key look the same, what can
be seen of the kept items is the same for every order. -/
theorem map_firstKept_perm {view : α → β} (keyOf : β → κ)
    (hview : ∀ item, keyOf (view item) = key item)
    (hagree : ∀ item ∈ items, ∀ other ∈ items, key item = key other → view item = view other)
    (hperm : items.Perm items') :
    ((firstKept key items).map view).Perm ((firstKept key items').map view) := by
  have hnodup (items : List α) : ((firstKept key items).map view).Nodup := by
    refine Nodup.of_map keyOf ?_
    rw [map_map, show keyOf ∘ view = key from funext hview]
    exact nodup_map_firstKept key items
  refine (perm_ext_iff_of_nodup (hnodup items) (hnodup items')).mpr fun seen => ?_
  have hseen {items items' : List α} (hperm : items.Perm items')
      (hagree : ∀ item ∈ items, ∀ other ∈ items, key item = key other → view item = view other)
      (h : seen ∈ (firstKept key items).map view) : seen ∈ (firstKept key items').map view := by
    obtain ⟨item, hitem, rfl⟩ := mem_map.mp h
    have hmem := mem_of_mem_firstKept hitem
    obtain ⟨other, hother, hkey⟩ := exists_mem_firstKept key (hperm.mem_iff.mp hmem)
    have hsame := hagree other (hperm.mem_iff.mpr (mem_of_mem_firstKept hother)) item hmem hkey
    exact hsame ▸ mem_map_of_mem hother
  refine ⟨hseen hperm hagree, hseen hperm.symm fun item hitem other hother => ?_⟩
  exact hagree item (hperm.mem_iff.mpr hitem) other (hperm.mem_iff.mpr hother)

end Keyed
