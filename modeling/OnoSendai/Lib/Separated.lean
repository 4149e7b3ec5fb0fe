import Mathlib.Data.List.Basic
import Mathlib.Data.List.Induction

/-!
# Sequences put together with separators and in blocks

A sequence can be put together from parts without writing down how long each part is. The parts
can be read back when a separator that occurs in none of them follows each part, and when the
parts are blocks of one length that what comes after the last of them cannot be mistaken for.

## Main definitions

* `terminated`, `headed` — parts with a separator after, or before, each of them;
* `Recognised` — blocks of one length that can be told from what follows them.
-/

namespace Separated

open List

variable {α : Type*}

/-! ### Separators -/

/-- Parts with a separator after each of them. -/
def terminated (separator : α) (parts : List (List α)) : List α :=
  parts.flatMap (· ++ [separator])

section Separator

variable {separator : α}

/-- The text before the first separator, and what follows it, are read back. -/
theorem append_cons_inj {first first' rest rest' : List α} (h : separator ∉ first)
    (h' : separator ∉ first') :
    first ++ separator :: rest = first' ++ separator :: rest' ↔ first = first' ∧ rest = rest' := by
  refine ⟨fun heq => ?_, fun ⟨hfirst, hrest⟩ => by rw [hfirst, hrest]⟩
  induction first generalizing first' with
  | nil =>
    cases first' with
    | nil => exact ⟨rfl, (cons.inj heq).2⟩
    | cons item first' =>
      have hitem : separator = item := (cons.inj heq).1
      exact absurd (hitem ▸ mem_cons_self) h'
  | cons item first ih =>
    cases first' with
    | nil =>
      have hitem : item = separator := (cons.inj heq).1
      exact absurd (hitem ▸ mem_cons_self) h
    | cons item' first' =>
      obtain ⟨hitem, hrest⟩ := cons.inj heq
      obtain ⟨hfirst, hrest⟩ := ih (fun hmem => h (mem_cons_of_mem _ hmem))
        (fun hmem => h' (mem_cons_of_mem _ hmem)) hrest
      exact ⟨by rw [hitem, hfirst], hrest⟩

theorem append_cons_last_inj {last last' rest rest' : List α} (h : separator ∉ last)
    (h' : separator ∉ last') :
    rest ++ separator :: last = rest' ++ separator :: last' ↔ rest = rest' ∧ last = last' := by
  have hreverse (rest last : List α) :
      (rest ++ separator :: last).reverse = last.reverse ++ separator :: rest.reverse := by simp
  rw [← reverse_inj, hreverse, hreverse,
    append_cons_inj (by rwa [mem_reverse]) (by rwa [mem_reverse]), reverse_inj,
    reverse_inj, and_comm]

theorem append_cons_inj_of_map {β : Type*} {f : α → β} {first first' rest rest' : List α}
    {item item' : α} (hitem : f item = f item') (h : f item ∉ first.map f)
    (h' : f item ∉ first'.map f) :
    first ++ item :: rest = first' ++ item' :: rest' ↔
      first = first' ∧ item = item' ∧ rest = rest' := by
  refine ⟨fun heq => ?_, fun ⟨hfirst, hitem, hrest⟩ => by rw [hfirst, hitem, hrest]⟩
  have hmap := congrArg (map f) heq
  rw [map_append, map_append, map_cons, map_cons, ← hitem] at hmap
  have hlength := congrArg length ((append_cons_inj h h').1 hmap).1
  rw [length_map, length_map] at hlength
  obtain ⟨hfirst, hrest⟩ := append_inj heq hlength
  exact ⟨hfirst, cons.inj hrest⟩

@[simp]
theorem terminated_nil : terminated separator [] = [] :=
  rfl

@[simp]
theorem terminated_cons (part : List α) (parts : List (List α)) :
    terminated separator (part :: parts) = part ++ separator :: terminated separator parts := by
  simp [terminated]

theorem toList_join_map {β : Type*} (line : β → String) (items : List β) :
    (String.join (items.map fun item => line item ++ "\n")).toList =
      terminated '\n' (items.map fun item => (line item).toList) := by
  induction items with
  | nil => rfl
  | cons item items ih => simp [ih]

theorem exists_dropWhile_eq [DecidableEq α] {items : List α} (h : separator ∈ items) :
    ∃ rest, items.dropWhile (· ≠ separator) = separator :: rest := by
  induction items with
  | nil => cases h
  | cons item items ih =>
    by_cases hitem : item = separator
    · exact ⟨items, by simp [hitem]⟩
    · obtain ⟨rest, hrest⟩ := ih ((mem_cons.1 h).resolve_left fun heq => hitem heq.symm)
      exact ⟨rest, by rw [dropWhile_cons_of_pos (by simpa using hitem), hrest]⟩

/-- Parts free of the separator are what the sequence is split into, with nothing after the last
separator. -/
theorem splitOn_terminated [BEq α] [LawfulBEq α] {parts : List (List α)}
    (h : ∀ part ∈ parts, separator ∉ part) :
    (terminated separator parts).splitOn separator = parts ++ [[]] := by
  induction parts with
  | nil => rfl
  | cons part parts ih =>
    rw [forall_mem_cons] at h
    rw [terminated_cons, splitOn_append_cons_self_of_not_mem h.1, ih h.2, cons_append]

/-- Terminated parts are a beginning of others when the parts are. -/
theorem terminated_prefix_iff {parts parts' : List (List α)} (h : ∀ part ∈ parts, separator ∉ part)
    (h' : ∀ part ∈ parts', separator ∉ part) :
    terminated separator parts <+: terminated separator parts' ↔ parts <+: parts' := by
  constructor
  · rintro ⟨rest, heq⟩
    induction parts generalizing parts' with
    | nil => exact nil_prefix
    | cons part parts ih =>
      cases parts' with
      | nil => simp at heq
      | cons part' parts' =>
        rw [forall_mem_cons] at h h'
        rw [terminated_cons, terminated_cons, append_assoc, cons_append,
          append_cons_inj h.1 h'.1] at heq
        exact cons_prefix_cons.2 ⟨heq.1, ih h.2 h'.2 heq.2⟩
  · rintro ⟨rest, rfl⟩
    exact ⟨terminated separator rest, by simp [terminated]⟩

/-- **Terminated parts are read back** when none of them contains the separator. -/
theorem terminated_inj {parts parts' : List (List α)} (h : ∀ part ∈ parts, separator ∉ part)
    (h' : ∀ part ∈ parts', separator ∉ part) :
    terminated separator parts = terminated separator parts' ↔ parts = parts' := by
  refine ⟨fun heq => ?_, fun heq => by rw [heq]⟩
  have hle := (terminated_prefix_iff h h').1 (heq ▸ prefix_rfl)
  have hge := (terminated_prefix_iff h' h).1 (heq ▸ prefix_rfl)
  exact hle.eq_of_length_le hge.length_le

/-- Parts with a separator before each of them. -/
def headed (separator : α) (parts : List (List α)) : List α :=
  parts.flatMap (separator :: ·)

theorem headed_cons (part : List α) (parts : List (List α)) :
    headed separator (part :: parts) = separator :: (part ++ headed separator parts) := by
  simp [headed]

theorem headed_append (parts : List (List α)) :
    headed separator parts ++ [separator] = separator :: terminated separator parts := by
  induction parts with
  | nil => rfl
  | cons part parts ih =>
    simp only [headed, flatMap_cons, append_assoc, terminated_cons, cons_append]
      at ih ⊢
    rw [ih]

theorem intercalate_cons_eq_append_headed (part : List α) (parts : List (List α)) :
    [separator].intercalate (part :: parts) = part ++ headed separator parts := by
  induction parts generalizing part with
  | nil => simp [headed]
  | cons next parts ih =>
    rw [intercalate_cons_cons, ih]
    simp [headed]

/-- What precedes parts of a kind with a separator before each of them, and the last part of another
kind, are read back. -/
theorem append_headed_inj {p : List α → Prop} {first first' rest rest' : List α}
    {parts parts' : List (List α)} (hfirst : separator ∉ first ∧ ¬p first)
    (hfirst' : separator ∉ first' ∧ ¬p first') (h : ∀ part ∈ parts, separator ∉ part ∧ p part)
    (h' : ∀ part ∈ parts', separator ∉ part ∧ p part) :
    rest ++ headed separator (first :: parts) = rest' ++ headed separator (first' :: parts') ↔
      rest = rest' ∧ first = first' ∧ parts = parts' := by
  refine ⟨fun heq => ?_, fun ⟨hrest, hfirst, hparts⟩ => by rw [hrest, hfirst, hparts]⟩
  have hlast (rest first last : List α) (parts : List (List α)) :
      rest ++ headed separator (first :: (parts ++ [last])) =
        (rest ++ headed separator (first :: parts)) ++ separator :: last := by
    simp [headed]
  have hnone (rest first : List α) :
      rest ++ headed separator [first] = rest ++ separator :: first := by simp [headed]
  induction parts using reverseRecOn generalizing parts' with
  | nil =>
    cases parts' using reverseRecOn with
    | nil =>
      rw [hnone, hnone, append_cons_last_inj hfirst.1 hfirst'.1] at heq
      exact ⟨heq.1, heq.2, rfl⟩
    | append_singleton parts' last' =>
      have hlast' := h' last' (by simp)
      rw [hnone, hlast, append_cons_last_inj hfirst.1 hlast'.1] at heq
      exact absurd (heq.2 ▸ hlast'.2) hfirst.2
  | append_singleton parts last ih =>
    have hpart := h last (by simp)
    cases parts' using reverseRecOn with
    | nil =>
      rw [hnone, hlast, append_cons_last_inj hpart.1 hfirst'.1] at heq
      exact absurd (heq.2 ▸ hpart.2) hfirst'.2
    | append_singleton parts' last' =>
      have hpart' := h' last' (by simp)
      rw [hlast, hlast, append_cons_last_inj hpart.1 hpart'.1] at heq
      obtain ⟨hrest, hsame, hparts⟩ := ih (fun part hmem => h part (mem_append_left _ hmem))
        (fun part hmem => h' part (mem_append_left _ hmem)) heq.1
      exact ⟨hrest, hsame, by rw [hparts, heq.2]⟩

theorem headed_inj {parts parts' : List (List α)} (h : ∀ part ∈ parts, separator ∉ part)
    (h' : ∀ part ∈ parts', separator ∉ part) :
    headed separator parts = headed separator parts' ↔ parts = parts' := by
  rw [← terminated_inj h h',
    ← @cons_inj_right _ separator (terminated separator parts), ← headed_append,
    ← headed_append, append_left_inj]

/-- What precedes a separator among parts with a separator before each is a beginning of them. -/
theorem exists_prefix_of_headed {parts : List (List α)}
    (h : ∀ part ∈ parts, separator ∉ part) {first rest : List α}
    (heq : headed separator parts = first ++ separator :: rest) :
    ∃ point, point <+: parts ∧ first = headed separator point := by
  induction parts generalizing first with
  | nil => simp [headed] at heq
  | cons part parts ih =>
    rw [forall_mem_cons] at h
    cases first with
    | nil => exact ⟨[], nil_prefix, rfl⟩
    | cons item first =>
      rw [headed_cons, cons_append, cons.injEq] at heq
      obtain ⟨rfl, heq⟩ := heq
      rcases append_eq_append_iff.1 heq with ⟨others, rfl, hothers⟩ | ⟨others, rfl, hothers⟩
      · obtain ⟨point, hpoint, rfl⟩ := ih h.2 hothers
        exact ⟨part :: point, cons_prefix_cons.2 ⟨rfl, hpoint⟩,
          (headed_cons part point).symm⟩
      · cases others with
        | nil =>
          exact ⟨[first ++ []], cons_prefix_cons.2 ⟨rfl, nil_prefix⟩, by simp [headed]⟩
        | cons c others =>
          obtain rfl : separator = c := (cons.inj hothers).1
          exact absurd (mem_append_right first mem_cons_self) h.1

end Separator

/-! ### Lists compared item by item -/

/-- Two lists that agree under two functions agree under every function these determine. -/
theorem map_eq_of_map_eq {β γ δ : Type*} {f : α → β} {g : α → γ} {k : α → δ} {items items' : List α}
    (hdetermined : ∀ item item', f item = f item' → g item = g item' → k item = k item')
    (hf : items.map f = items'.map f) (hg : items.map g = items'.map g) :
    items.map k = items'.map k := by
  induction items generalizing items' with
  | nil =>
    cases items' with
    | nil => rfl
    | cons item' items' => simp at hf
  | cons item items ih =>
    cases items' with
    | nil => simp at hf
    | cons item' items' =>
      simp only [map_cons, cons.injEq] at hf hg ⊢
      exact ⟨hdetermined item item' hf.1 hg.1, ih hf.2 hg.2⟩

/-- Lists of items that two functions tell apart alike begin alike under both. -/
theorem map_prefix_map_iff {β γ : Type*} {f : α → β} {g : α → γ} {items items' : List α}
    (h : ∀ item ∈ items, ∀ item' ∈ items', f item = f item' ↔ g item = g item') :
    items.map f <+: items'.map f ↔ items.map g <+: items'.map g := by
  induction items generalizing items' with
  | nil => simp
  | cons item items ih =>
    cases items' with
    | nil => simp
    | cons item' items' =>
      simp only [map_cons, cons_prefix_cons]
      rw [h item mem_cons_self item' mem_cons_self, ih fun other hother other' hother' =>
        h other (mem_cons_of_mem _ hother) other' (mem_cons_of_mem _ hother')]

theorem eq_of_map_eq {β : Type*} {f : α → β} {items items' : List α}
    (h : ∀ item ∈ items, ∀ item' ∈ items', f item = f item' → item = item')
    (heq : items.map f = items'.map f) : items = items' := by
  have hiff : ∀ item ∈ items, ∀ item' ∈ items', f item = f item' ↔ id item = id item' :=
    fun item hitem item' hitem' => ⟨h item hitem item' hitem', congrArg f⟩
  have hbegins := (map_prefix_map_iff hiff).1 (heq ▸ prefix_rfl)
  rw [map_id, map_id] at hbegins
  exact hbegins.eq_of_length (by simpa using congrArg length heq)

/-! ### Blocks -/

/-- Blocks of one length that can be told from what follows them: put in front of something that
may follow a block, a block is marked, and the result may follow a block again. -/
structure Recognised (width : Nat) (Block Follows Marked : List α → Prop) : Prop where
  length_eq {block : List α} : Block block → block.length = width
  follows {block rest : List α} : Block block → Follows rest → Follows (block ++ rest)
  marked {block rest : List α} : Block block → Follows rest → Marked (block ++ rest)

namespace Recognised

variable {width : Nat} {Block Follows Marked : List α → Prop}

theorem follows_flatten (recognised : Recognised width Block Follows Marked)
    {blocks : List (List α)} {rest : List α} (hblocks : ∀ block ∈ blocks, Block block)
    (hrest : Follows rest) : Follows (blocks.flatten ++ rest) := by
  induction blocks with
  | nil => exact hrest
  | cons block blocks ih =>
    rw [forall_mem_cons] at hblocks
    rw [flatten_cons, append_assoc]
    exact recognised.follows hblocks.1 (ih hblocks.2)

theorem marked_flatten (recognised : Recognised width Block Follows Marked)
    {block : List α} {blocks : List (List α)} {rest : List α}
    (hblocks : ∀ other ∈ block :: blocks, Block other) (hrest : Follows rest) :
    Marked ((block :: blocks).flatten ++ rest) := by
  rw [forall_mem_cons] at hblocks
  rw [flatten_cons, append_assoc]
  exact recognised.marked hblocks.1 (recognised.follows_flatten hblocks.2 hrest)

/-- **Recognised blocks are read back**, together with the unmarked rest that follows them. -/
theorem flatten_append_inj (recognised : Recognised width Block Follows Marked)
    {blocks blocks' : List (List α)} {rest rest' : List α}
    (hblocks : ∀ block ∈ blocks, Block block) (hblocks' : ∀ block ∈ blocks', Block block)
    (hrest : Follows rest) (hrest' : Follows rest')
    (hunmarked : ¬ Marked rest) (hunmarked' : ¬ Marked rest')
    (heq : blocks.flatten ++ rest = blocks'.flatten ++ rest') :
    blocks = blocks' ∧ rest = rest' := by
  induction blocks generalizing blocks' with
  | nil =>
    cases blocks' with
    | nil => exact ⟨rfl, heq⟩
    | cons block' blocks' =>
      have hmarked := recognised.marked_flatten hblocks' hrest'
      rw [← heq] at hmarked
      exact absurd hmarked hunmarked
  | cons block blocks ih =>
    cases blocks' with
    | nil =>
      have hmarked := recognised.marked_flatten hblocks hrest
      rw [heq] at hmarked
      exact absurd hmarked hunmarked'
    | cons block' blocks' =>
      rw [forall_mem_cons] at hblocks hblocks'
      simp only [flatten_cons, append_assoc] at heq
      have hlength : block.length = block'.length := by
        rw [recognised.length_eq hblocks.1, recognised.length_eq hblocks'.1]
      obtain ⟨hblock, heq⟩ := append_inj heq hlength
      obtain ⟨hrest, heq⟩ := ih hblocks.2 hblocks'.2 heq
      exact ⟨by rw [hblock, hrest], heq⟩

theorem of_length (width : Nat) :
    Recognised (width + 1) (fun block : List α => block.length = width + 1) (fun _ => True)
      fun items => items ≠ [] where
  length_eq := id
  follows _ _ := trivial
  marked := by
    intro block rest hblock _ heq
    simp [(append_eq_nil_iff.1 heq).1] at hblock

end Recognised

/-- Blocks of one positive length, and nothing after them, are read back item by item. -/
theorem flatMap_inj_of_length {β : Type*} {width : Nat} {units : β → List α}
    (hlength : ∀ item, (units item).length = width + 1) {items items' : List β}
    (h : items.flatMap units = items'.flatMap units) : items.map units = items'.map units := by
  have hblock : ∀ items : List β, ∀ block ∈ items.map units, block.length = width + 1 := by
    intro items block hmem
    obtain ⟨item, -, rfl⟩ := mem_map.1 hmem
    exact hlength item
  have hflatten : (items.map units).flatten ++ [] = (items'.map units).flatten ++ [] := by
    simpa [flatMap] using h
  exact ((Recognised.of_length width).flatten_append_inj (hblock items) (hblock items') trivial
    trivial (by simp) (by simp) hflatten).1

end Separated
