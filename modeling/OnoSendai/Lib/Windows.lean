import Mathlib.Data.List.Perm.Basic
import Mathlib.Algebra.Order.Group.Int
import Mathlib.Data.List.Induction

/-!
# Windows laid over runs

Items come in the order of their instants. Some belong to a run, and the items of a run are
gathered into windows: the first of a run opens one, and so does each that comes more than a span
after the item that opened the last. The others join the last window of their run. An item that
belongs to no run stands in a window of its own.

The window an item joins is looked for from the back, among all windows.

## Main definitions

* `Window`, `lay` — a window, and the windows of a list of items.

## Main results

* `laid_lay` — what stands in the windows;
* `forall_joined_iff` — what holds of every item and the one that opened its window.
-/

namespace Windows

open List Option

variable {α β κ : Type*}

/-! ### The last element of a kind -/

/-- The list with its last element of a kind changed, where there is one. -/
def modifyLast (p : β → Bool) (f : β → β) : List β → Option (List β)
  | [] => none
  | item :: rest =>
    match modifyLast p f rest with
    | some changed => some (item :: changed)
    | none => if p item then some (f item :: rest) else none

theorem modifyLast_eq_none {p : β → Bool} {f : β → β} {items : List β}
    (h : modifyLast p f items = none) : ∀ item ∈ items, p item = false := by
  induction items with
  | nil => simp
  | cons item rest ih =>
    rw [modifyLast] at h
    cases hrest : modifyLast p f rest with
    | some changed => simp [hrest] at h
    | none =>
      rw [hrest] at h
      dsimp only at h
      split_ifs at h with hitem
      exact forall_mem_cons.2 ⟨by simpa using hitem, ih hrest⟩

theorem modifyLast_eq_some {p : β → Bool} {f : β → β} {items changed : List β}
    (h : modifyLast p f items = some changed) :
    ∃ front item back, items = front ++ item :: back ∧ p item = true ∧
      (∀ other ∈ back, p other = false) ∧ changed = front ++ f item :: back := by
  induction items generalizing changed with
  | nil => cases h
  | cons first rest ih =>
    rw [modifyLast] at h
    cases hrest : modifyLast p f rest with
    | some found =>
      rw [hrest] at h
      obtain rfl := some.inj h
      obtain ⟨front, item, back, rfl, hitem, hback, rfl⟩ := ih hrest
      exact ⟨first :: front, item, back, rfl, hitem, hback, rfl⟩
    | none =>
      rw [hrest] at h
      dsimp only at h
      split_ifs at h with hfirst
      obtain rfl := some.inj h
      exact ⟨[], first, rest, rfl, hfirst, modifyLast_eq_none hrest, rfl⟩

/-- Changing the last element of a kind goes along with a function that keeps the kind. -/
theorem modifyLast_map {γ : Type*} {p : β → Bool} {f : β → β} {q : γ → Bool} {g : γ → γ}
    {image : β → γ} (hkind : ∀ item, q (image item) = p item)
    (hchange : ∀ item, p item = true → g (image item) = image (f item)) (items : List β) :
    modifyLast q g (items.map image) = (modifyLast p f items).map (·.map image) := by
  induction items with
  | nil => rfl
  | cons item rest ih =>
    rw [map_cons, modifyLast, modifyLast, ih]
    cases modifyLast p f rest with
    | some changed => rfl
    | none =>
      simp only [map_none, hkind]
      split_ifs with hitem
      · rw [hchange item hitem]
        rfl
      · rfl

/-! ### Laying windows -/

/-- A window: the item that opened it, and those that joined it. -/
structure Window (α : Type*) where
  opener : α
  joined : List α

/-- The items of a window. -/
def Window.items (window : Window α) : List α :=
  window.opener :: window.joined

section Lay

variable [DecidableEq κ] (run : α → Option κ) (instant : α → ℤ) (span : ℤ)

/-- Whether an item joins a window. -/
def joins (item : α) (window : Window α) : Bool :=
  (run item).isSome && run window.opener = run item && instant item - instant window.opener ≤ span

/-- Puts an item into the last window it joins, or into one of its own. -/
def place (windows : List (Window α)) (item : α) : List (Window α) :=
  (modifyLast (joins run instant span item)
    (fun window => { window with joined := window.joined ++ [item] }) windows).getD
      (windows ++ [⟨item, []⟩])

/-- The windows of items. -/
def lay (items : List α) : List (Window α) :=
  items.foldl (place run instant span) []

/-- The item that opened the last window of a run, after an item more. -/
def openerAfter (which : κ) (last : Option α) (item : α) : Option α :=
  if run item = some which then
    match last with
    | some opener => if instant item - instant opener ≤ span then some opener else some item
    | none => some item
  else last

/-- The item that opened the last window of a run. -/
def lastOpener (which : κ) (items : List α) : Option α :=
  items.foldl (openerAfter run instant span which) none

variable {run instant span} {items : List α} {item : α} {windows : List (Window α)}

/-- What stands in the windows of items that come in the order of their instants. -/
structure Laid (run : α → Option κ) (instant : α → ℤ) (span : ℤ) (items : List α)
    (windows : List (Window α)) : Prop where
  perm : (windows.flatMap Window.items).Perm items
  joined : ∀ window ∈ windows, ∀ item ∈ window.joined,
    (run item).isSome ∧ run window.opener = run item ∧
      instant window.opener ≤ instant item ∧ instant item - instant window.opener ≤ span
  ordered : windows.Pairwise fun one two => instant one.opener ≤ instant two.opener
  last : ∀ which, lastOpener run instant span which items =
    (windows.reverse.find? fun window => run window.opener = some which).map Window.opener

/-- **Where an item goes**: into the last window of its run if that was opened within the span, into
one of its own otherwise. -/
theorem place_spec (h : Laid run instant span items windows) (item : α) :
    (∃ front window back which, windows = front ++ window :: back ∧ run item = some which ∧
      lastOpener run instant span which items = some window.opener ∧
      run window.opener = some which ∧ instant item - instant window.opener ≤ span ∧
      place run instant span windows item =
        front ++ { window with joined := window.joined ++ [item] } :: back) ∨
    ((∀ which ∈ run item, ∀ opener ∈ lastOpener run instant span which items,
      ¬instant item - instant opener ≤ span) ∧
      place run instant span windows item = windows ++ [⟨item, []⟩]) := by
  cases hmodify : modifyLast (joins run instant span item)
      (fun window => { window with joined := window.joined ++ [item] }) windows with
  | some changed =>
    left
    obtain ⟨front, window, back, rfl, hjoins, hback, rfl⟩ := modifyLast_eq_some hmodify
    simp only [joins, Bool.and_eq_true, decide_eq_true_eq] at hjoins
    obtain ⟨⟨hsome, hrun⟩, hspan⟩ := hjoins
    obtain ⟨which, hwhich⟩ := isSome_iff_exists.1 hsome
    refine ⟨front, window, back, which, rfl, hwhich, ?_, hrun.trans hwhich, hspan, ?_⟩
    · have hnone : (back.reverse.find? fun other => run other.opener = some which) = none := by
        rw [find?_eq_none]
        intro other hother hsame
        rw [mem_reverse] at hother
        have hlater : instant window.opener ≤ instant other.opener :=
          (pairwise_cons.1 (pairwise_append.1 h.ordered).2.1).1 other hother
        have hother' : run other.opener = some which := of_decide_eq_true hsame
        have hnot : ¬instant item - instant other.opener ≤ span := by
          simpa [joins, hwhich, hother'] using hback other hother
        omega
      rw [h.last, reverse_append, reverse_cons, append_assoc, find?_append,
        hnone, none_or]
      simp [hrun, hwhich]
    · rw [place, hmodify, getD_some]
  | none =>
    right
    refine ⟨fun which hwhich opener hopener hspan => ?_, by rw [place, hmodify, getD_none]⟩
    rw [h.last] at hopener
    obtain ⟨window, hfind, rfl⟩ := map_eq_some_iff.1 hopener
    have hmem := mem_reverse.1 (mem_of_find?_eq_some hfind)
    have hrun : run window.opener = some which := by simpa using find?_some hfind
    have hnot := modifyLast_eq_none hmodify window hmem
    rw [mem_def] at hwhich
    simp [joins, hwhich, hrun, hspan] at hnot

theorem lastOpener_append_singleton (which : κ) (items : List α) (item : α) :
    lastOpener run instant span which (items ++ [item]) =
      openerAfter run instant span which (lastOpener run instant span which items) item := by
  rw [lastOpener, foldl_append]
  rfl

theorem lay_append_singleton (items : List α) (item : α) :
    lay run instant span (items ++ [item]) =
      place run instant span (lay run instant span items) item := by
  rw [lay, foldl_append]
  rfl

/-- **What stands in the windows** is kept as items are placed. -/
theorem Laid.place (h : Laid run instant span items windows)
    (hitem : ∀ other ∈ items, instant other ≤ instant item) :
    Laid run instant span (items ++ [item]) (place run instant span windows item) := by
  have hopener : ∀ window ∈ windows, instant window.opener ≤ instant item := by
    intro window hwindow
    refine hitem _ (h.perm.subset (mem_flatMap.2 ⟨window, hwindow, mem_cons_self⟩))
  rcases place_spec h item with
    ⟨front, window, back, which, rfl, hwhich, hlast, hrun, hspan, hplace⟩ | ⟨hnone, hplace⟩
  · rw [hplace]
    refine ⟨?_, ?_, ?_, fun other => ?_⟩
    · have hperm := h.perm.append_right [item]
      refine Perm.trans ?_ hperm
      simp only [flatMap_append, flatMap_cons, Window.items, cons_append,
        append_assoc, nil_append]
      refine Perm.append_left _ (Perm.cons _ (Perm.append_left _ ?_))
      exact @perm_append_comm _ [item] _
    · intro found hfound joined hjoined
      rcases mem_append.1 hfound with hfound | hfound
      · exact h.joined found (mem_append_left _ hfound) joined hjoined
      rcases mem_cons.1 hfound with rfl | hfound
      · rcases mem_append.1 hjoined with hjoined | hjoined
        · exact h.joined window (by simp) joined hjoined
        · obtain rfl := mem_singleton.1 hjoined
          exact ⟨by simp [hwhich], hrun.trans hwhich.symm, hopener window (by simp), hspan⟩
      · exact h.joined found (by simp [hfound]) joined hjoined
    · have hordered := h.ordered
      rw [pairwise_append, pairwise_cons] at hordered ⊢
      refine ⟨hordered.1, ⟨hordered.2.1.1, hordered.2.1.2⟩, fun one hone two htwo => ?_⟩
      rcases mem_cons.1 htwo with rfl | htwo
      · exact hordered.2.2 one hone window mem_cons_self
      · exact hordered.2.2 one hone two (mem_cons_of_mem _ htwo)
    · have hfind : ((front ++ { window with joined := window.joined ++ [item] } :: back).reverse.find?
          fun found => run found.opener = some other).map Window.opener =
          ((front ++ window :: back).reverse.find? fun found =>
            run found.opener = some other).map Window.opener := by
        simp only [reverse_append, reverse_cons, append_assoc, find?_append,
          singleton_append, find?_cons]
        cases back.reverse.find? fun found => run found.opener = some other with
        | some found => rfl
        | none =>
          simp only [none_or]
          cases decide (run window.opener = some other) <;> rfl
      rw [lastOpener_append_singleton, hfind, ← h.last other, openerAfter.eq_def, hwhich]
      split_ifs with hsame
      · obtain rfl := some.inj hsame
        rw [hlast]
        simp [hspan]
      · rfl
  · rw [hplace]
    refine ⟨?_, ?_, ?_, fun other => ?_⟩
    · rw [flatMap_append, flatMap_singleton]
      exact h.perm.append_right [item]
    · intro found hfound joined hjoined
      rcases mem_append.1 hfound with hfound | hfound
      · exact h.joined found hfound joined hjoined
      · obtain rfl := mem_singleton.1 hfound
        cases hjoined
    · rw [pairwise_append]
      refine ⟨h.ordered, pairwise_singleton _ _, fun one hone two htwo => ?_⟩
      obtain rfl := mem_singleton.1 htwo
      exact hopener one hone
    · rw [lastOpener_append_singleton, openerAfter.eq_def, reverse_append, reverse_singleton,
        singleton_append, find?_cons]
      by_cases hsame : run item = some other
      · rw [if_pos hsame]
        simp only [hsame, decide_true, map_some]
        cases hlast : lastOpener run instant span other items with
        | none => rfl
        | some opener => simp [hnone other hsame opener hlast]
      · rw [if_neg hsame, h.last other]
        simp [hsame]

/-- **What stands in the windows of items** that come in the order of their instants. -/
theorem laid_lay (h : items.Pairwise fun one two => instant one ≤ instant two) :
    Laid run instant span items (lay run instant span items) := by
  induction items using reverseRecOn with
  | nil => exact ⟨.nil, by simp [lay], .nil, fun _ => rfl⟩
  | append_singleton items item ih =>
    rw [pairwise_append] at h
    rw [lay_append_singleton]
    exact (ih h.1).place fun other hother => h.2.2 other hother item (mem_singleton_self _)

/-- **What holds of every item and the one that opened its window** is what holds of every item and
the one that opened the last window of its run, where that is within the span. -/
theorem forall_joined_iff {R : α → α → Prop}
    (h : items.Pairwise fun one two => instant one ≤ instant two) :
    (∀ window ∈ lay run instant span items, ∀ item ∈ window.joined, R window.opener item) ↔
      ∀ before item after, items = before ++ item :: after → ∀ which ∈ run item,
        ∀ opener ∈ lastOpener run instant span which before,
          instant item - instant opener ≤ span → R opener item := by
  induction items using reverseRecOn with
  | nil => simp [lay]
  | append_singleton items item ih =>
    rw [pairwise_append] at h
    have hlaid : Laid run instant span items (lay run instant span items) := laid_lay h.1
    have hsplit : (∀ before found after, items ++ [item] = before ++ found :: after →
        ∀ which ∈ run found, ∀ opener ∈ lastOpener run instant span which before,
          instant found - instant opener ≤ span → R opener found) ↔
        (∀ window ∈ lay run instant span items, ∀ item ∈ window.joined, R window.opener item) ∧
          ∀ which ∈ run item, ∀ opener ∈ lastOpener run instant span which items,
            instant item - instant opener ≤ span → R opener item := by
      rw [ih h.1]
      constructor
      · intro hall
        refine ⟨fun before found after heq => ?_, hall items item [] rfl⟩
        exact hall before found (after ++ [item]) (by rw [heq]; simp)
      · rintro ⟨hfront, hlast⟩ before found after heq
        cases after using reverseRecOn with
        | nil =>
          obtain ⟨rfl, hfound⟩ := append_inj' heq rfl
          obtain rfl := (cons.inj hfound).1
          exact hlast
        | append_singleton after last =>
          rw [← cons_append, ← append_assoc] at heq
          exact hfront before found after (append_inj' heq rfl).1
    rw [hsplit, lay_append_singleton]
    rcases place_spec hlaid item with
      ⟨front, window, back, which, hlay, hwhich, hlast, -, hspan, hplace⟩ | ⟨hnone, hplace⟩
    · rw [hplace, hlay]
      simp only [forall_mem_append, forall_mem_cons, hwhich, mem_def,
        some.injEq, forall_eq', hlast, hspan, forall_const, not_mem_nil, IsEmpty.forall_iff,
        implies_true, and_true]
      tauto
    · rw [hplace, forall_mem_append]
      refine and_congr_right fun _ => ⟨fun _ which hwhich opener hopener hspan => ?_, ?_⟩
      · exact absurd hspan (hnone which hwhich opener hopener)
      · intro _ found hfound joined hjoined
        obtain rfl := mem_singleton.1 hfound
        cases hjoined

end Lay

end Windows
