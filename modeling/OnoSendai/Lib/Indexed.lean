import Mathlib.Data.List.Forall2

/-!
# Lists updated at one place

Facts about a list whose item at one place is replaced: which item stands where, and how many
items pass a test.
-/

namespace Indexed

open List

variable {α β : Type*}

theorem getElem?_modify_eq_some {items : List α} {index place : Nat} {f : α → α} {item : α} :
    (items.modify index f)[place]? = some item ↔
      (place = index ∧ ∃ old, items[index]? = some old ∧ f old = item) ∨
        (place ≠ index ∧ items[place]? = some item) := by
  by_cases hplace : place = index
  · subst hplace
    simp
  · rw [getElem?_modify_ne _ _ (Ne.symm hplace)]
    simp [hplace]

/-- An update that leaves an aspect of every item alone leaves the list of the aspects alone. -/
theorem map_modify_of_eq {items : List α} {index : Nat} {f : α → α} {aspect : α → β}
    (h : ∀ item, aspect (f item) = aspect item) :
    (items.modify index f).map aspect = items.map aspect := by
  ext place item
  by_cases hplace : place = index
  · subst hplace
    simp [h]
  · simp [getElem?_modify_ne _ _ (Ne.symm hplace)]

theorem getElem?_concat_eq_some {items : List α} {place : Nat} {last item : α} :
    (items ++ [last])[place]? = some item ↔
      items[place]? = some item ∨ (place = items.length ∧ last = item) := by
  rcases Nat.lt_trichotomy place items.length with hlt | rfl | hlt
  · rw [getElem?_append_left hlt]
    simp [Nat.ne_of_lt hlt]
  · simp
  · have hnone : (items ++ [last])[place]? = none := by
      rw [getElem?_eq_none_iff, length_append]
      exact hlt
    rw [hnone, getElem?_eq_none_iff.2 (Nat.le_of_lt hlt)]
    simp [Nat.ne_of_gt hlt]

theorem concat_eq_append_cons {items before after : List α} {last item : α}
    (h : items ++ [last] = before ++ item :: after) :
    (after = [] ∧ items = before ∧ last = item) ∨
      ∃ rest, after = rest ++ [last] ∧ items = before ++ item :: rest := by
  rcases eq_nil_or_concat after with rfl | ⟨rest, final, rfl⟩
  · obtain ⟨hitems, hlast⟩ := append_inj' h rfl
    exact .inl ⟨rfl, hitems, (cons.inj hlast).1⟩
  · rw [concat_eq_append, ← cons_append, ← append_assoc] at h
    obtain ⟨hitems, hlast⟩ := append_inj' h rfl
    obtain rfl := (cons.inj hlast).1
    exact .inr ⟨rest, concat_eq_append, hitems⟩

/-- How an update changes the number of items that pass a test. -/
theorem length_filter_modify (test : α → Bool) (f : α → α) {items : List α} {index : Nat}
    {item : α} (h : items[index]? = some item) :
    ((items.modify index f).filter test).length + (test item).toNat =
      (items.filter test).length + (test (f item)).toNat := by
  induction items generalizing index with
  | nil => simp at h
  | cons first items ih =>
    cases index with
    | zero =>
      obtain rfl : first = item := by simpa using h
      rw [modify_zero_cons, filter_cons, filter_cons]
      cases test first <;> cases test (f first) <;> simp
    | succ index =>
      have hrest := @ih index (by simpa using h)
      rw [modify_succ_cons, filter_cons, filter_cons]
      split_ifs with hfirst
      · simp only [length_cons]
        omega
      · exact hrest

/-- Items that pass a test and have one key only when they stand at one place have distinct
keys. -/
theorem nodup_map_filter {test : α → Bool} {key : α → β} {items : List α}
    (h : ∀ (i j : Nat) (a b : α), items[i]? = some a → items[j]? = some b → test a = true →
      test b = true → key a = key b → i = j) : ((items.filter test).map key).Nodup := by
  induction items with
  | nil => simp
  | cons first items ih =>
    have hrest : ((items.filter test).map key).Nodup := by
      refine ih fun i j a b hi hj ha hb hkey => ?_
      have hij := h (i + 1) (j + 1) a b (by simpa using hi) (by simpa using hj) ha hb hkey
      omega
    rw [filter_cons]
    split_ifs with hfirst
    · rw [map_cons, nodup_cons]
      refine ⟨fun hmem => ?_, hrest⟩
      obtain ⟨item, hitem, hkey⟩ := mem_map.1 hmem
      obtain ⟨hitem, htest⟩ := mem_filter.1 hitem
      obtain ⟨place, hplace⟩ := mem_iff_getElem?.1 hitem
      have hzero := h 0 (place + 1) first item (by simp) (by simpa using hplace) hfirst htest
        hkey.symm
      omega
    · exact hrest

theorem exists_getElem?_of_forall₂ {R : α → β → Prop} {items : List α} {others : List β}
    (h : Forall₂ R items others) {index : Nat} {item : α} (hitem : items[index]? = some item) :
    ∃ other, others[index]? = some other ∧ R item other := by
  induction h generalizing index with
  | nil => simp at hitem
  | cons hhead _ ih =>
    cases index with
    | zero => exact ⟨_, rfl, by simpa using (Option.some.inj hitem) ▸ hhead⟩
    | succ index => exact ih (by simpa using hitem)

theorem exists_getElem?_of_forall₂' {R : α → β → Prop} {items : List α} {others : List β}
    (h : Forall₂ R items others) {index : Nat} {other : β}
    (hother : others[index]? = some other) : ∃ item, items[index]? = some item ∧ R item other :=
  exists_getElem?_of_forall₂ (Forall₂.flip h) hother

theorem forall₂_of_map_eq {γ ι : Type*} {f : α → γ} {g : β → γ} {R : β → ι → Prop} {S : α → ι → Prop}
    {items : List α} {others : List β} {places : List ι} (heq : items.map f = others.map g)
    (himage : ∀ item other place, f item = g other → R other place → S item place)
    (h : Forall₂ R others places) : Forall₂ S items places := by
  induction h generalizing items with
  | nil =>
    obtain rfl : items = [] := by simpa using heq
    exact .nil
  | cons hhead _ ih =>
    obtain ⟨item, rest, rfl, hitem, hrest⟩ := map_eq_cons_iff.mp heq
    exact .cons (himage item _ _ hitem hhead) (ih hrest)

theorem getElem?_map_except (f : α → β) (before after : List α) (item : α) (other : β)
    (index : Nat) :
    (before.map f ++ other :: after.map f)[index]? =
      if index = before.length then some other else (before ++ item :: after)[index]?.map f := by
  rcases Nat.lt_trichotomy index before.length with hlt | rfl | hgt
  · rw [if_neg (by omega), getElem?_append_left (by simpa using hlt),
      getElem?_append_left hlt, getElem?_map]
  · rw [if_pos rfl, getElem?_append_right (by simp)]
    simp
  · obtain ⟨rest, rfl⟩ := Nat.exists_eq_add_of_lt hgt
    have hrest : before.length + rest + 1 - before.length = rest + 1 := by omega
    rw [if_neg (by omega), getElem?_append_right (by simp; omega),
      getElem?_append_right (by omega), length_map, hrest, getElem?_cons_succ,
      getElem?_cons_succ, getElem?_map]

end Indexed
