import Mathlib.Data.List.Infix

/-!
# Labelled trees written flat

A tree of texts can be written down as one text: the items of a group one after another, each behind
its label, and a closing text behind the last of them. Nothing is escaped, so a text may spell what
its surroundings would have spelt. Two trees are kept apart when, at the first place where they
differ, neither goes on as the other does; they are told apart when a label or a text shows that.

## Main definitions

* `Body`, `Body.flat`, `flatItem` — trees, and what is written of them;
* `Body.Apart`, `ItemsApart` — trees that are kept apart;
* `Body.ToldApart`, `RootsToldApart` — trees that are told apart.

## Main results

* `items_eq_of_flat_append` — groups that are kept apart are read back from what is written of them;
* `flatItem_eq_iff` — trees that are told apart are written alike only when they are the same.
-/

namespace OnoSendai.Labelled

open List

variable {α : Type*}

/-! ### Texts that part -/

/-- Two texts part when neither begins the other. -/
def Parted (one two : List α) : Prop :=
  ¬one <+: two ∧ ¬two <+: one

instance [DecidableEq α] (one two : List α) : Decidable (Parted one two) :=
  inferInstanceAs (Decidable (¬one <+: two ∧ ¬two <+: one))

theorem Parted.symm {one two : List α} (h : Parted one two) : Parted two one :=
  ⟨h.2, h.1⟩

theorem parted_of_ne_head {first first' : α} (h : first ≠ first') (rest rest' : List α) :
    Parted (first :: rest) (first' :: rest') := by
  simp [Parted, cons_prefix_cons, h, h.symm]

theorem parted_of_length_eq {one two : List α} (hlength : one.length = two.length)
    (hne : one ≠ two) : Parted one two :=
  ⟨fun h => hne (h.eq_of_length hlength), fun h => hne (h.eq_of_length hlength.symm).symm⟩

theorem Parted.append_ne {one two : List α} (h : Parted one two) (rest rest' : List α) :
    one ++ rest ≠ two ++ rest' := by
  intro heq
  have htwo : two <+: one ++ rest := heq ▸ prefix_append two rest'
  rcases prefix_or_prefix_of_prefix (prefix_append one rest) htwo with hle | hle
  · exact h.1 hle
  · exact h.2 hle

theorem Parted.append {one two : List α} (h : Parted one two) (rest rest' : List α) :
    Parted (one ++ rest) (two ++ rest') := by
  refine ⟨fun hle => ?_, fun hle => ?_⟩
  · obtain ⟨after, hafter⟩ := hle
    rw [append_assoc] at hafter
    exact h.append_ne _ _ hafter
  · obtain ⟨after, hafter⟩ := hle
    rw [append_assoc] at hafter
    exact h.append_ne _ _ hafter.symm

/-! ### Trees -/

/-- What stands behind a label: a text, or a group of labelled items and what closes it. -/
inductive Body (α : Type*)
  | text (chars : List α)
  | group (items : List (List α × Body α)) (closing : List α)

/-- A body behind its label. -/
abbrev Item (α : Type*) : Type _ :=
  List α × Body α

mutual

/-- What is written of a body. -/
def Body.flat : Body α → List α
  | .text chars => chars
  | .group items closing => flatItems items ++ closing
termination_by structural body => body

/-- What is written of the items of a group. -/
def flatItems : List (List α × Body α) → List α
  | [] => []
  | (label, body) :: items => label ++ (body.flat ++ flatItems items)
termination_by structural items => items

end

/-- What is written of a tree behind its label. -/
def flatItem (item : Item α) : List α :=
  item.1 ++ item.2.flat

/-- Items with a separator before the label of each but the first. -/
def separatedBy (separator : List α) : List (Item α) → List (Item α)
  | [] => []
  | item :: items => item :: items.map fun next => (separator ++ next.1, next.2)

theorem flatItems_separatedBy (separator : List α) (items : List (Item α)) :
    flatItems (separatedBy separator items) = separator.intercalate (items.map flatItem) := by
  cases items with
  | nil => rfl
  | cons item items =>
    obtain ⟨label, body⟩ := item
    induction items generalizing label body with
    | nil => simp [separatedBy, flatItems, flatItem]
    | cons next items ih =>
      obtain ⟨label', body'⟩ := next
      have hrest := ih label' body'
      simp only [separatedBy, flatItems, map_cons] at hrest ⊢
      rw [intercalate_cons_cons, ← hrest, flatItem]
      simp only [append_assoc]

theorem separatedBy_inj {separator : List α} {items others : List (Item α)} :
    separatedBy separator items = separatedBy separator others ↔ items = others := by
  refine ⟨fun h => ?_, fun h => h ▸ rfl⟩
  cases items <;> cases others <;>
    simp only [separatedBy, cons.injEq, reduceCtorEq] at h ⊢
  refine ⟨h.1, map_injective_iff.2 (fun one two hsame => ?_) h.2⟩
  simp only [Prod.mk.injEq, append_cancel_left_eq] at hsame
  exact Prod.ext hsame.1 hsame.2

/-- What is written first of what is left of a group: the next label, or what closes it. -/
def following (items : List (Item α)) (closing : List α) : List α :=
  match items with
  | [] => closing
  | (label, _) :: _ => label

theorem exists_following (items : List (Item α)) (closing rest : List α) :
    ∃ rest', flatItems items ++ (closing ++ rest) = following items closing ++ rest' := by
  cases items with
  | nil => exact ⟨rest, rfl⟩
  | cons item items =>
    exact ⟨item.2.flat ++ flatItems items ++ (closing ++ rest), by
      simp [flatItems, following, append_assoc]⟩

/-! ### Trees that are kept apart -/

mutual

/-- Whether two bodies behind one label are kept apart, given what is written first after each. -/
def Body.Apart : Body α → List α → Body α → List α → Prop
  | .text one, next, .text two, next' => one = two ∨ Parted (one ++ next) (two ++ next')
  | .group items closing, _, .group items' closing', _ => ItemsApart items closing items' closing'
  | _, _, _, _ => False
termination_by structural body => body

/-- Whether two groups are kept apart: as far as they have the same items, and then by what is
written of an item and after it, of what is left of a group, or behind one label. -/
def ItemsApart : List (List α × Body α) → List α → List (List α × Body α) → List α → Prop
  | [], closing, [], closing' => closing = closing' ∨ Parted closing closing'
  | [], closing, (label, body) :: items, closing' =>
    Parted closing (label ++ (body.flat ++ flatItems items) ++ closing')
  | (label, body) :: items, closing, [], closing' =>
    Parted (label ++ (body.flat ++ flatItems items) ++ closing) closing'
  | (label, body) :: items, closing, (label', body') :: items', closing' =>
    Parted (label ++ (body.flat ++ following items closing))
        (label' ++ (body'.flat ++ following items' closing')) ∨
      label = label' ∧ body.Apart (following items closing) body' (following items' closing') ∧
        (body = body' → ItemsApart items closing items' closing')
termination_by structural items => items

end

mutual

theorem Body.Apart.eq_of_flat_append : ∀ {body body' : Body α} {next next' rest rest' : List α},
    body.Apart next body' next' →
    body.flat ++ (next ++ rest) = body'.flat ++ (next' ++ rest') → body = body'
  | .text one, .text two, next, next', rest, rest', hapart, h => by
    rcases hapart with rfl | hparted
    · rfl
    · simp only [Body.flat, ← append_assoc] at h
      exact absurd h (hparted.append_ne rest rest')
  | .group items closing, .group items' closing', next, next', rest, rest', hapart, h => by
    simp only [Body.flat, append_assoc] at h
    obtain ⟨rfl, rfl⟩ := items_eq_of_flat_append hapart h
    rfl
  | .text _, .group _ _, _, _, _, _, hapart, _ => hapart.elim
  | .group _ _, .text _, _, _, _, _, hapart, _ => hapart.elim

/-- Groups that are kept apart are read back from what is written of them. -/
theorem items_eq_of_flat_append : ∀ {items items' : List (List α × Body α)}
    {closing closing' rest rest' : List α}, ItemsApart items closing items' closing' →
    flatItems items ++ (closing ++ rest) = flatItems items' ++ (closing' ++ rest') →
    items = items' ∧ closing = closing'
  | [], [], closing, closing', rest, rest', hapart, h => by
    rcases hapart with rfl | hparted
    · exact ⟨rfl, rfl⟩
    · exact absurd h (hparted.append_ne rest rest')
  | [], (label, body) :: items', closing, closing', rest, rest', hapart, h => by
    simp only [flatItems, nil_append, ← append_assoc] at h
    simp only [ItemsApart, ← append_assoc] at hapart
    exact absurd h (hapart.append_ne _ _)
  | (label, body) :: items, [], closing, closing', rest, rest', hapart, h => by
    simp only [flatItems, nil_append, ← append_assoc] at h
    simp only [ItemsApart, ← append_assoc] at hapart
    exact absurd h (hapart.append_ne _ _)
  | (label, body) :: items, (label', body') :: items', closing, closing', rest, rest', hapart,
    h => by
    simp only [flatItems, append_assoc] at h
    obtain ⟨after, hafter⟩ := exists_following items closing rest
    obtain ⟨after', hafter'⟩ := exists_following items' closing' rest'
    rcases hapart with hparted | ⟨rfl, hbody, hitems⟩
    · rw [hafter, hafter'] at h
      simp only [← append_assoc] at h hparted
      exact absurd h (hparted.append_ne _ _)
    · have hflat := append_cancel_left h
      have hbodies : body.flat ++ (following items closing ++ after) =
          body'.flat ++ (following items' closing' ++ after') := by
        rw [← hafter, ← hafter', hflat]
      obtain rfl := hbody.eq_of_flat_append hbodies
      obtain ⟨rfl, rfl⟩ := items_eq_of_flat_append (hitems rfl) (append_cancel_left hflat)
      exact ⟨rfl, rfl⟩

end

/-! ### Trees that are told apart -/

mutual

/-- Whether two bodies behind one label are told apart, given what is written first after each. -/
def Body.ToldApart : Body α → List α → Body α → List α → Prop
  | .text one, next, .text two, next' => one = two ∨ Parted (one ++ next) (two ++ next')
  | .group items closing, _, .group items' closing', _ =>
    ItemsToldApart items closing items' closing'
  | _, _, _, _ => False
termination_by structural body => body

/-- Whether two groups are told apart: as far as they have the same items, and then by a label, by
what closes one of them, or by what stands behind one label. -/
def ItemsToldApart : List (List α × Body α) → List α → List (List α × Body α) → List α → Prop
  | [], closing, [], closing' => closing = closing' ∨ Parted closing closing'
  | [], closing, (label, _) :: _, _ => Parted closing label
  | (label, _) :: _, _, [], closing' => Parted label closing'
  | (label, body) :: items, closing, (label', body') :: items', closing' =>
    Parted label label' ∨
      label = label' ∧ body.ToldApart (following items closing) body' (following items' closing') ∧
        (body = body' → ItemsToldApart items closing items' closing')
termination_by structural items => items

end

mutual

theorem Body.ToldApart.apart : ∀ {body body' : Body α} {next next' : List α},
    body.ToldApart next body' next' → body.Apart next body' next'
  | .text _, .text _, _, _, htold => htold
  | .group _ _, .group _ _, _, _, htold => ItemsToldApart.apart htold
  | .text _, .group _ _, _, _, htold => htold.elim
  | .group _ _, .text _, _, _, htold => htold.elim

theorem ItemsToldApart.apart : ∀ {items items' : List (List α × Body α)}
    {closing closing' : List α}, ItemsToldApart items closing items' closing' →
    ItemsApart items closing items' closing'
  | [], [], _, _, htold => htold
  | [], (label, body) :: items', closing, closing', htold => by
    have hparted := htold.append [] (body.flat ++ flatItems items' ++ closing')
    simpa only [ItemsApart, append_nil, append_assoc] using hparted
  | (label, body) :: items, [], closing, closing', htold => by
    have hparted := htold.append (body.flat ++ flatItems items ++ closing) []
    simpa only [ItemsApart, append_nil, append_assoc] using hparted
  | (label, body) :: items, (label', body') :: items', closing, closing', htold => by
    rcases htold with hparted | ⟨hlabel, hbody, hitems⟩
    · exact .inl (hparted.append _ _)
    · exact .inr ⟨hlabel, hbody.apart, fun heq => (hitems heq).apart⟩

end

/-! ### Whole texts -/

/-- Whether two bodies behind one label, with nothing after them, are told apart. -/
def Body.ToldApartAlone : Body α → Body α → Prop
  | .text _, .text _ => True
  | .group items closing, .group items' closing' => ItemsToldApart items closing items' closing'
  | _, _ => False

/-- Whether two trees are told apart by what is written of each on its own. -/
def RootsToldApart (item item' : Item α) : Prop :=
  Parted item.1 item'.1 ∨ item.1 = item'.1 ∧ item.2.ToldApartAlone item'.2

/-- **What is written of a tree tells it.** Trees that are told apart are written alike only when
they are the same. -/
theorem flatItem_eq_iff {item item' : Item α} (h : RootsToldApart item item') :
    flatItem item = flatItem item' ↔ item = item' := by
  refine ⟨fun heq => ?_, fun heq => by rw [heq]⟩
  obtain ⟨label, body⟩ := item
  obtain ⟨label', body'⟩ := item'
  rcases h with hparted | ⟨rfl, hbody⟩
  · exact absurd heq (hparted.append_ne _ _)
  · have hflat : body.flat = body'.flat := append_cancel_left heq
    match body, body', hbody with
    | .text one, .text two, _ =>
      rw [show one = two from hflat]
    | .group items closing, .group items' closing', hitems =>
      have happend := congrArg (· ++ []) hflat
      simp only [Body.flat, append_assoc] at happend
      obtain ⟨rfl, rfl⟩ := items_eq_of_flat_append (ItemsToldApart.apart hitems) happend
      rfl

end OnoSendai.Labelled
