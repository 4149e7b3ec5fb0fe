import OnoSendai.Value.Equality

/-!
# Equality up to provenance

Holding the same data is meant as equality of values without the provenance of their records. It
is compared here with what it does: maps are taken in their order of insertion, and a record is
told by the identifier of its schema and by what it holds, provenance included.
-/

namespace OnoSendai.Value

open List

/-! ### Values compared part by part -/

mutual

/-- No map of the value holds a key twice. -/
def KeysDistinct : Value → Prop
  | .list items => KeysDistinctList items
  | .map entries => (entries.map Prod.fst).Nodup ∧ KeysDistinctEntries entries
  | .record _ fields extra _ =>
    KeysDistinctList fields ∧ (extra.map Prod.fst).Nodup ∧ KeysDistinctEntries extra
  | _ => True

/-- No map of the values holds a key twice. -/
def KeysDistinctList : List Value → Prop
  | [] => True
  | item :: items => KeysDistinct item ∧ KeysDistinctList items

/-- No map of the values of a map holds a key twice. -/
def KeysDistinctEntries : List (String × Value) → Prop
  | [] => True
  | (_, value) :: entries => KeysDistinct value ∧ KeysDistinctEntries entries

end

/-- A schema known by its identifier alone. -/
def bare (schema : Schema) : Schema where
  id := schema.id
  fields := []

section Relations

variable (powi : ℕ → UInt64)

/-- Whether two values are equal up to the provenance of records and the bodies of schemas. -/
def EqualUpToSchema (left right : Value) : Prop :=
  eq powi (left.erase bare) (right.erase bare) = true

mutual

/-- Whether the maps of two values that correspond list their keys in one order, and their
records hold parts that are equal outright. -/
def InOrder : Value → Value → Prop
  | .record _ f e _, .record _ g d _ => eqLists powi f g = true ∧ eqMaps powi e d = true
  | .list a, .list b => InOrderList a b
  | .map a, .map b => a.map Prod.fst = b.map Prod.fst ∧ InOrderEntries a b
  | _, _ => True

/-- The same of two lists. -/
def InOrderList : List Value → List Value → Prop
  | a :: as, b :: bs => InOrder a b ∧ InOrderList as bs
  | _, _ => True

/-- The same of the values of two maps. -/
def InOrderEntries : List (String × Value) → List (String × Value) → Prop
  | (_, a) :: as, (_, b) :: bs => InOrder a b ∧ InOrderEntries as bs
  | _, _ => True

end

end Relations

mutual

/-- Whether the records of two values that correspond have equal schemas. -/
def SchemasAgree : Value → Value → Prop
  | .record s f e _, .record t g d _ => s = t ∧ SchemasAgreeList f g ∧ SchemasAgreeEntries e d
  | .list a, .list b => SchemasAgreeList a b
  | .map a, .map b => SchemasAgreeEntries a b
  | _, _ => True

/-- The same of two lists. -/
def SchemasAgreeList : List Value → List Value → Prop
  | a :: as, b :: bs => SchemasAgree a b ∧ SchemasAgreeList as bs
  | _, _ => True

/-- The same of the values that two maps hold under one key. -/
def SchemasAgreeEntries : List (String × Value) → List (String × Value) → Prop
  | [], _ => True
  | (key, a) :: as, others =>
    (∀ b, others.lookup key = some b → SchemasAgree a b) ∧ SchemasAgreeEntries as others

end

/-! ### Lists and maps -/

section Parts

variable {powi : ℕ → UInt64} {standIn : Schema → Schema}

theorem eqLists_iff {as bs : List Value} :
    eqLists powi as bs = true ↔ Forall₂ (fun a b => eq powi a b = true) as bs := by
  induction as generalizing bs with
  | nil => cases bs <;> simp [eqLists]
  | cons a as ih => cases bs <;> simp [eqLists, ih]

theorem eqEntries_iff {as bs : List (String × Value)} :
    eqEntries powi as bs = true ↔
      ∀ entry ∈ as, ∃ found, bs.lookup entry.1 = some found ∧ eq powi entry.2 found = true := by
  induction as with
  | nil => simp [eqEntries]
  | cons entry as ih =>
    obtain ⟨key, value⟩ := entry
    rw [eqEntries, Bool.and_eq_true, ih, forall_mem_cons]
    cases bs.lookup key <;> simp

theorem eqMaps_iff {as bs : MapValue} :
    eqMaps powi as bs = true ↔ as.length = bs.length ∧
      ∀ entry ∈ as, ∃ found, bs.lookup entry.1 = some found ∧ eq powi entry.2 found = true := by
  rw [eqMaps, Bool.and_eq_true, beq_iff_eq, eqEntries_iff]

theorem sameLists_iff {as bs : List Value} :
    (as.length == bs.length && sameLists powi as bs) = true ↔
      Forall₂ (fun a b => sameData powi a b = true) as bs := by
  induction as generalizing bs with
  | nil => cases bs <;> simp [sameLists]
  | cons a as ih =>
    cases bs with
    | nil => simp
    | cons b bs =>
      rw [forall₂_cons, ← ih, sameLists]
      simp only [length_cons, Bool.and_eq_true, beq_iff_eq, Nat.add_right_cancel_iff]
      tauto

theorem sameEntries_iff {as bs : List (String × Value)} :
    (as.length == bs.length && sameEntries powi as bs) = true ↔
      Forall₂ (fun a b => a.1 = b.1 ∧ sameData powi a.2 b.2 = true) as bs := by
  induction as generalizing bs with
  | nil => cases bs <;> simp [sameEntries]
  | cons a as ih =>
    cases bs with
    | nil => simp
    | cons b bs =>
      rw [forall₂_cons, ← ih, sameEntries]
      simp only [length_cons, Bool.and_eq_true, beq_iff_eq, Nat.add_right_cancel_iff]
      tauto

theorem eraseList_eq (items : List Value) : eraseList standIn items = items.map (erase standIn) := by
  induction items with
  | nil => rfl
  | cons item items ih => rw [eraseList, ih, map_cons]

theorem eraseEntries_eq (entries : List (String × Value)) :
    eraseEntries standIn entries = entries.map fun entry => (entry.1, erase standIn entry.2) := by
  induction entries with
  | nil => rfl
  | cons entry entries ih => rw [eraseEntries, ih, map_cons]

theorem lookup_eraseEntries (entries : List (String × Value)) (key : String) :
    (eraseEntries standIn entries).lookup key = (entries.lookup key).map (erase standIn) := by
  induction entries with
  | nil => rfl
  | cons entry entries ih =>
    obtain ⟨other, value⟩ := entry
    rw [eraseEntries, lookup_cons, lookup_cons, ih]
    cases key == other <;> rfl

theorem forall₂_imp_of_mem {α β : Type} {R S : α → β → Prop} {as : List α} {bs : List β}
    (h : ∀ a ∈ as, ∀ b, R a b → S a b) (hrel : Forall₂ R as bs) : Forall₂ S as bs :=
  ((forall₂_and_left as bs).2 ⟨h, hrel⟩).imp fun _ b hab => hab.1 b hab.2

/-- Entries with the keys of a map in their order correspond to those found under their keys. -/
theorem forall₂_entries_iff {R : Value → Value → Prop} {as bs : List (String × Value)}
    (h : (as.map Prod.fst).Nodup) :
    Forall₂ (fun a b => a.1 = b.1 ∧ R a.2 b.2) as bs ↔
      as.map Prod.fst = bs.map Prod.fst ∧
        ∀ entry ∈ as, ∃ found, bs.lookup entry.1 = some found ∧ R entry.2 found := by
  induction as generalizing bs with
  | nil => cases bs <;> simp
  | cons a as ih =>
    cases bs with
    | nil => simp
    | cons b bs =>
      obtain ⟨key, value⟩ := a
      obtain ⟨other, found⟩ := b
      rw [map_cons, nodup_cons] at h
      rw [forall₂_cons, ih h.2, forall_mem_cons]
      simp only [map_cons, cons.injEq]
      have hrest : key = other → ∀ entry ∈ as,
          ((other, found) :: bs).lookup entry.1 = bs.lookup entry.1 := by
        rintro rfl entry hentry
        have hne : entry.1 ≠ key := fun heq => h.1 (mem_map.2 ⟨entry, hentry, heq⟩)
        rw [lookup_cons, beq_false_of_ne hne]
      constructor
      · rintro ⟨⟨rfl, hvalue⟩, hkeys, hentries⟩
        refine ⟨⟨rfl, hkeys⟩, ⟨found, by simp, hvalue⟩, fun entry hentry => ?_⟩
        rw [hrest rfl entry hentry]
        exact hentries entry hentry
      · rintro ⟨⟨rfl, hkeys⟩, ⟨first, hfirst, hvalue⟩, hentries⟩
        rw [lookup_cons_self, Option.some.injEq] at hfirst
        refine ⟨⟨rfl, hfirst ▸ hvalue⟩, hkeys, fun entry hentry => ?_⟩
        rw [← hrest rfl entry hentry]
        exact hentries entry hentry

theorem eqLists_eraseList {as bs : List Value} :
    eqLists powi (eraseList standIn as) (eraseList standIn bs) = true ↔
      Forall₂ (fun a b => eq powi (a.erase standIn) (b.erase standIn) = true) as bs := by
  rw [eqLists_iff, eraseList_eq, eraseList_eq, forall₂_map_left_iff, forall₂_map_right_iff]

theorem eqMaps_eraseEntries {as bs : MapValue} :
    eqMaps powi (eraseEntries standIn as) (eraseEntries standIn bs) = true ↔
      as.length = bs.length ∧ ∀ entry ∈ as, ∃ found, bs.lookup entry.1 = some found ∧
        eq powi (entry.2.erase standIn) (found.erase standIn) = true := by
  rw [eqMaps_iff, eraseEntries_eq, eraseEntries_eq, length_map, length_map,
    forall_mem_map, ← eraseEntries_eq]
  simp only [lookup_eraseEntries, Option.map_eq_some_iff]
  refine and_congr_right fun _ => forall₂_congr fun entry _ => ?_
  constructor
  · rintro ⟨_, ⟨found, hfound, rfl⟩, heq⟩
    exact ⟨found, hfound, heq⟩
  · rintro ⟨found, hfound, heq⟩
    exact ⟨_, ⟨found, hfound, rfl⟩, heq⟩

/-! ### Leaves -/

variable {a b : Value}

theorem erase_of_isLeaf (h : a.IsLeaf) : a.erase standIn = a := by
  cases a <;> first | exact h.elim | rfl

theorem eq_erase_of_isLeaf (h : a.IsLeaf) :
    eq powi (a.erase standIn) (b.erase standIn) = eq powi a b := by
  rw [erase_of_isLeaf h]
  cases b with
  | list items => cases a <;> first | exact h.elim | rfl
  | map entries => cases a <;> first | exact h.elim | rfl
  | record schema fields extra provenance => cases a <;> first | exact h.elim | rfl
  | _ => rfl

theorem sameData_of_isLeaf (h : a.IsLeaf) : sameData powi a b = eq powi a b := by
  cases a <;> first | exact h.elim | rfl

theorem inOrder_of_isLeaf (h : a.IsLeaf) : InOrder powi a b := by
  cases a <;> first | exact h.elim | trivial

theorem schemasAgree_of_isLeaf (h : a.IsLeaf) : SchemasAgree a b := by
  cases a <;> first | exact h.elim | trivial

end Parts

/-! ### The two relations -/

section Main

variable {powi : ℕ → UInt64} {standIn : Schema → Schema}

theorem fixed_eq_fixed : Provenance.fixed.eq .fixed = true := by
  decide

theorem eq_list_iff {as bs : List Value} :
    eq powi (.list as) (.list bs) = true ↔ eqLists powi as bs = true :=
  Iff.rfl

theorem eq_map_iff {as bs : List (String × Value)} :
    eq powi (.map as) (.map bs) = true ↔ eqMaps powi as bs = true :=
  Iff.rfl

theorem eq_record_iff {s t : Schema} {f g : List Value} {e d : MapValue} {p q : Provenance} :
    eq powi (.record s f e p) (.record t g d q) = true ↔
      s = t ∧ eqLists powi f g = true ∧ eqMaps powi e d = true ∧ p.eq q = true := by
  show (decide (s = t) && eqLists powi f g && eqMaps powi e d && p.eq q) = true ↔ _
  simp only [Bool.and_eq_true, decide_eq_true_eq, and_assoc]

/-- Equal values are equal without provenance. -/
theorem eq_erase {a b : Value} (h : eq powi a b = true) :
    eq powi (a.erase standIn) (b.erase standIn) = true := by
  induction a using Value.induction generalizing b with
  | leaf a hleaf => rwa [eq_erase_of_isLeaf hleaf]
  | list as ih =>
    cases b with
    | list bs =>
      rw [erase, erase, eq_list_iff, eqLists_eraseList]
      rw [eq_list_iff, eqLists_iff] at h
      exact forall₂_imp_of_mem (fun a ha _ => ih a ha) h
    | _ => cases h
  | map as ih =>
    cases b with
    | map bs =>
      rw [erase, erase, eq_map_iff, eqMaps_eraseEntries]
      rw [eq_map_iff, eqMaps_iff] at h
      refine ⟨h.1, fun entry hentry => ?_⟩
      obtain ⟨found, hfound, heq⟩ := h.2 entry hentry
      exact ⟨found, hfound, ih entry hentry heq⟩
    | _ => cases h
  | record s f e p ihf ihe =>
    cases b with
    | record t g d q =>
      rw [eq_record_iff, eqLists_iff, eqMaps_iff] at h
      obtain ⟨rfl, hfields, ⟨hlength, hextra⟩, -⟩ := h
      rw [erase, erase, eq_record_iff, eqLists_eraseList, eqMaps_eraseEntries]
      refine ⟨rfl, ?_, ⟨hlength, fun entry hentry => ?_⟩, fixed_eq_fixed⟩
      · exact forall₂_imp_of_mem (fun a ha _ => ihf a ha) hfields
      · obtain ⟨found, hfound, heq⟩ := hextra entry hentry
        exact ⟨found, hfound, ihe entry hentry heq⟩
    | _ => cases h

variable {R S : Value → Value → Prop}

theorem forall₂_inOrderList_iff {as bs : List Value}
    (h : ∀ a ∈ as, ∀ b, S a b ↔ R a b ∧ InOrder powi a b) :
    Forall₂ S as bs ↔ Forall₂ R as bs ∧ InOrderList powi as bs := by
  induction as generalizing bs with
  | nil => cases bs <;> simp [InOrderList]
  | cons a as ih =>
    rw [forall_mem_cons] at h
    cases bs with
    | nil => simp
    | cons b bs =>
      rw [forall₂_cons, forall₂_cons, InOrderList, h.1, ih h.2]
      tauto

theorem forall₂_inOrderEntries_iff {as bs : List (String × Value)}
    (h : ∀ a ∈ as, ∀ b, S a.2 b ↔ R a.2 b ∧ InOrder powi a.2 b) :
    Forall₂ (fun a b => a.1 = b.1 ∧ S a.2 b.2) as bs ↔
      Forall₂ (fun a b => a.1 = b.1 ∧ R a.2 b.2) as bs ∧ InOrderEntries powi as bs := by
  induction as generalizing bs with
  | nil => cases bs <;> simp [InOrderEntries]
  | cons a as ih =>
    rw [forall_mem_cons] at h
    cases bs with
    | nil => simp
    | cons b bs =>
      rw [forall₂_cons, forall₂_cons, InOrderEntries, h.1, ih h.2]
      tauto

theorem keysDistinctList_iff {items : List Value} :
    KeysDistinctList items ↔ ∀ item ∈ items, KeysDistinct item := by
  induction items with
  | nil => simp [KeysDistinctList]
  | cons item items ih => rw [KeysDistinctList, ih, forall_mem_cons]

theorem keysDistinctEntries_iff {entries : List (String × Value)} :
    KeysDistinctEntries entries ↔ ∀ entry ∈ entries, KeysDistinct entry.2 := by
  induction entries with
  | nil => simp [KeysDistinctEntries]
  | cons entry entries ih => rw [KeysDistinctEntries, ih, forall_mem_cons]

/-- **Holding the same data** is equality up to provenance and the bodies of schemas, with maps
in one order and records that hold equal parts outright. -/
theorem sameData_eq_true_iff {a b : Value} (h : a.KeysDistinct) :
    sameData powi a b = true ↔ EqualUpToSchema powi a b ∧ InOrder powi a b := by
  induction a using Value.induction generalizing b with
  | leaf a hleaf =>
    rw [sameData_of_isLeaf hleaf, EqualUpToSchema, eq_erase_of_isLeaf hleaf]
    exact (and_iff_left (inOrder_of_isLeaf hleaf)).symm
  | list as ih =>
    rw [KeysDistinct, keysDistinctList_iff] at h
    cases b with
    | list bs =>
      rw [sameData, sameLists_iff, EqualUpToSchema, erase, erase, eq_list_iff, eqLists_eraseList,
        InOrder]
      exact forall₂_inOrderList_iff fun a ha b => ih a ha (h a ha)
    | _ => exact iff_of_false (by rintro ⟨⟩) fun hboth => by cases hboth.1
  | map as ih =>
    rw [KeysDistinct, keysDistinctEntries_iff] at h
    cases b with
    | map bs =>
      have hsplit : Forall₂ (fun a b => a.1 = b.1 ∧ sameData powi a.2 b.2 = true) as bs ↔
          Forall₂ (fun a b => a.1 = b.1 ∧ EqualUpToSchema powi a.2 b.2) as bs ∧
            InOrderEntries powi as bs :=
        @forall₂_inOrderEntries_iff _ _ (fun a b => sameData powi a b = true) _ _
          fun a ha b => ih a ha (h.2 a ha)
      rw [sameData, sameEntries_iff, hsplit, forall₂_entries_iff h.1, EqualUpToSchema, erase, erase,
        eq_map_iff, eqMaps_eraseEntries, InOrder]
      constructor
      · rintro ⟨⟨hkeys, hentries⟩, horder⟩
        have hlength := congrArg length hkeys
        rw [length_map, length_map] at hlength
        exact ⟨⟨hlength, hentries⟩, hkeys, horder⟩
      · rintro ⟨⟨-, hentries⟩, hkeys, horder⟩
        exact ⟨⟨hkeys, hentries⟩, horder⟩
    | _ => exact iff_of_false (by rintro ⟨⟩) fun hboth => by cases hboth.1
  | record s f e p ihf ihe =>
    cases b with
    | record t g d q =>
      have hsame : sameData powi (.record s f e p) (.record t g d q) = true ↔
          s.id = t.id ∧ eqLists powi f g = true ∧ eqMaps powi e d = true := by
        show (decide (s.id = t.id) && eqLists powi f g && eqMaps powi e d) = true ↔ _
        simp only [Bool.and_eq_true, decide_eq_true_eq, and_assoc]
      rw [hsame, EqualUpToSchema, erase, erase, eq_record_iff, InOrder]
      constructor
      · rintro ⟨hid, hfields, hextra⟩
        have hlists := eqLists_iff.1 hfields
        have hmaps := eqMaps_iff.1 hextra
        refine ⟨⟨by rw [bare, bare, hid], ?_, ?_, fixed_eq_fixed⟩, hfields, hextra⟩
        · rw [eqLists_eraseList]
          exact hlists.imp fun _ _ => eq_erase
        · rw [eqMaps_eraseEntries]
          refine ⟨hmaps.1, fun entry hentry => ?_⟩
          obtain ⟨found, hfound, heq⟩ := hmaps.2 entry hentry
          exact ⟨found, hfound, eq_erase heq⟩
      · rintro ⟨⟨hbare, -⟩, hfields, hextra⟩
        have hid : (bare s).id = (bare t).id := congrArg Schema.id hbare
        exact ⟨hid, hfields, hextra⟩
    | _ => exact iff_of_false (by rintro ⟨⟩) fun hboth => by cases hboth.1

theorem forall₂_schemasAgreeList_iff {as bs : List Value}
    (h : ∀ a ∈ as, ∀ b, S a b ↔ R a b ∧ SchemasAgree a b) :
    Forall₂ S as bs ↔ Forall₂ R as bs ∧ SchemasAgreeList as bs := by
  induction as generalizing bs with
  | nil => cases bs <;> simp [SchemasAgreeList]
  | cons a as ih =>
    rw [forall_mem_cons] at h
    cases bs with
    | nil => simp
    | cons b bs =>
      rw [forall₂_cons, forall₂_cons, SchemasAgreeList, h.1, ih h.2]
      tauto

theorem schemasAgreeEntries_iff {as bs : List (String × Value)} :
    SchemasAgreeEntries as bs ↔
      ∀ entry ∈ as, ∀ found, bs.lookup entry.1 = some found → SchemasAgree entry.2 found := by
  induction as with
  | nil => simp [SchemasAgreeEntries]
  | cons entry as ih => rw [SchemasAgreeEntries, ih, forall_mem_cons]

/-- The entries found under the keys of a map are related in both ways where each of them is. -/
theorem found_schemasAgree_iff {as bs : List (String × Value)}
    (h : ∀ a ∈ as, ∀ b, S a.2 b ↔ R a.2 b ∧ SchemasAgree a.2 b) :
    (∀ entry ∈ as, ∃ found, bs.lookup entry.1 = some found ∧ S entry.2 found) ↔
      (∀ entry ∈ as, ∃ found, bs.lookup entry.1 = some found ∧ R entry.2 found) ∧
        SchemasAgreeEntries as bs := by
  rw [schemasAgreeEntries_iff, ← forall₂_and]
  refine forall₂_congr fun entry hentry => ?_
  constructor
  · rintro ⟨found, hfound, hboth⟩
    rw [h entry hentry] at hboth
    refine ⟨⟨found, hfound, hboth.1⟩, fun other hother => ?_⟩
    rw [hfound, Option.some.injEq] at hother
    exact hother ▸ hboth.2
  · rintro ⟨⟨found, hfound, hrel⟩, hagree⟩
    exact ⟨found, hfound, (h entry hentry found).2 ⟨hrel, hagree found hfound⟩⟩

/-- **Equality without provenance** is equality up to provenance and the bodies of schemas, with
records of equal schemas. -/
theorem eq_unobserved_iff {a b : Value} :
    eq powi a.unobserved b.unobserved = true ↔ EqualUpToSchema powi a b ∧ SchemasAgree a b := by
  rw [unobserved, unobserved]
  induction a using Value.induction generalizing b with
  | leaf a hleaf =>
    rw [EqualUpToSchema, eq_erase_of_isLeaf hleaf, eq_erase_of_isLeaf hleaf]
    exact (and_iff_left (schemasAgree_of_isLeaf hleaf)).symm
  | list as ih =>
    cases b with
    | list bs =>
      rw [EqualUpToSchema, erase, erase, erase, erase, eq_list_iff, eq_list_iff, eqLists_eraseList,
        eqLists_eraseList, SchemasAgree]
      exact forall₂_schemasAgreeList_iff fun a ha b => ih a ha
    | _ => exact iff_of_false (by rintro ⟨⟩) fun hboth => by cases hboth.1
  | map as ih =>
    cases b with
    | map bs =>
      have hfound := @found_schemasAgree_iff (EqualUpToSchema powi)
        (fun a b => eq powi (a.erase id) (b.erase id) = true) as bs fun a ha b => ih a ha
      rw [EqualUpToSchema, erase, erase, erase, erase, eq_map_iff, eq_map_iff, eqMaps_eraseEntries,
        eqMaps_eraseEntries, SchemasAgree, hfound, and_assoc]
      rfl
    | _ => exact iff_of_false (by rintro ⟨⟩) fun hboth => by cases hboth.1
  | record s f e p ihf ihe =>
    cases b with
    | record t g d q =>
      have hfound := @found_schemasAgree_iff (EqualUpToSchema powi)
        (fun a b => eq powi (a.erase id) (b.erase id) = true) e d fun a ha b => ihe a ha
      have hfields := @forall₂_schemasAgreeList_iff (EqualUpToSchema powi)
        (fun a b => eq powi (a.erase id) (b.erase id) = true) f g fun a ha b => ihf a ha
      rw [EqualUpToSchema, erase, erase, erase, erase, eq_record_iff, eq_record_iff,
        eqLists_eraseList, eqLists_eraseList, eqMaps_eraseEntries, eqMaps_eraseEntries,
        SchemasAgree, hfields, hfound]
      have hbare : s = t → bare s = bare t := fun h => by rw [h]
      simp only [id]
      constructor
      · rintro ⟨hschema, ⟨hf, hfa⟩, ⟨hlength, he, hea⟩, hfixed⟩
        exact ⟨⟨hbare hschema, hf, ⟨hlength, he⟩, hfixed⟩, hschema, hfa, hea⟩
      · rintro ⟨⟨-, hf, ⟨hlength, he⟩, hfixed⟩, hschema, hfa, hea⟩
        exact ⟨hschema, ⟨hf, hfa⟩, ⟨hlength, he, hea⟩, hfixed⟩
    | _ => exact iff_of_false (by rintro ⟨⟩) fun hboth => by cases hboth.1

/-- Holding the same data is equality up to provenance exactly where, of two values that are equal
up to provenance and the bodies of schemas, the maps are in one order and the records outright equal
precisely when all schemas agree. -/
theorem sameData_iff_unobserved_iff {a b : Value} (h : a.KeysDistinct) :
    (sameData powi a b = true ↔ eq powi a.unobserved b.unobserved = true) ↔
      (EqualUpToSchema powi a b → (InOrder powi a b ↔ SchemasAgree a b)) := by
  rw [sameData_eq_true_iff h, eq_unobserved_iff]
  exact and_congr_right_iff

end Main

end OnoSendai.Value
