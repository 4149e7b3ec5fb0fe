import Mathlib.Data.List.Basic
import Mathlib.Data.Rat.Cast.Order
import Mathlib.Order.Std

/-!
# Comparisons of three things

A comparison is transitive in three things when what compares equal compares alike with the third,
and when two steps in one direction are one in that direction. A comparison that is refined by
another one on what compares equal stays so, which carries over to comparisons that are made part
by part.

## Main definitions

* `Consistent` — three comparisons that fit together.

## Main results

* `Consistent.of_transCmp` — the comparisons of an order fit together;
* `Consistent.refined` — and so do comparisons refined by such ones;
* `compare_map` — a list is compared as its image is.
-/

/-- Comparisons of a first thing with a second, the second with a third and the first with the
third that fit together. -/
structure Consistent (xy yz xz : Ordering) : Prop where
  left : xy = .eq → xz = yz
  right : yz = .eq → xz = xy
  both : xy = yz → xz = xy

namespace Consistent

variable {xy yz xz : Ordering}

theorem isLE (h : Consistent xy yz xz) (hxy : xy.isLE) (hyz : yz.isLE) : xz.isLE := by
  cases hx : xy with
  | gt => rw [hx] at hxy; cases hxy
  | eq => rw [h.left hx]; exact hyz
  | lt =>
    cases hy : yz with
    | gt => rw [hy] at hyz; cases hyz
    | eq => rw [h.right hy]; exact hxy
    | lt => rw [h.both (hx.trans hy.symm)]; exact hxy

/-- The comparisons of an order fit together. -/
theorem of_transCmp {α : Type*} (cmp : α → α → Ordering) [Std.TransCmp cmp] (x y z : α) :
    Consistent (cmp x y) (cmp y z) (cmp x z) where
  left h := Std.TransCmp.congr_left h
  right h := (Std.TransCmp.congr_right h).symm
  both h := by
    cases hxy : cmp x y with
    | lt => exact Std.TransCmp.lt_trans hxy (h.symm.trans hxy)
    | eq => exact Std.TransCmp.eq_trans hxy (h.symm.trans hxy)
    | gt => exact Std.TransCmp.gt_trans hxy (h.symm.trans hxy)

variable {order : Ordering}

theorem eq_left : Consistent .eq order order :=
  ⟨fun _ => rfl, fun h => h, fun h => h.symm⟩

theorem eq_right : Consistent order .eq order :=
  ⟨fun h => h, fun _ => rfl, fun _ => rfl⟩

theorem first_lt : Consistent .lt order .lt :=
  ⟨by simp, fun _ => rfl, fun _ => rfl⟩

theorem first_gt : Consistent .gt order .gt :=
  ⟨by simp, fun _ => rfl, fun _ => rfl⟩

theorem second_lt : Consistent .gt .lt order :=
  ⟨by simp, by simp, by simp⟩

theorem second_gt : Consistent .lt .gt order :=
  ⟨by simp, by simp, by simp⟩

theorem last_lt : Consistent order .gt .gt :=
  ⟨fun _ => rfl, by simp, fun h => h.symm⟩

theorem last_gt : Consistent order .lt .lt :=
  ⟨fun _ => rfl, by simp, fun h => h.symm⟩

/-- Comparisons that are refined by ones that fit together. -/
theorem refined {xy' yz' xz' : Ordering} (h : Consistent xy yz xz)
    (hrefined : xy = .eq → yz = .eq → Consistent xy' yz' xz') :
    Consistent (xy.then xy') (yz.then yz') (xz.then xz') := by
  cases hxy : xy with
  | eq =>
    rw [h.left hxy]
    cases hyz : yz with
    | eq => exact hrefined hxy hyz
    | lt => exact last_gt
    | gt => exact last_lt
  | lt =>
    cases hyz : yz with
    | eq =>
      rw [h.right hyz, hxy]
      exact first_lt
    | lt =>
      rw [h.both (hxy.trans hyz.symm), hxy]
      exact first_lt
    | gt => exact second_gt
  | gt =>
    cases hyz : yz with
    | eq =>
      rw [h.right hyz, hxy]
      exact first_gt
    | gt =>
      rw [h.both (hxy.trans hyz.symm), hxy]
      exact first_gt
    | lt => exact second_lt

end Consistent

/-- A list is compared as its image is, where its items are. -/
theorem compare_map {α β : Type*} [Ord α] [Ord β] {f : α → β}
    (h : ∀ x y, compare (f x) (f y) = compare x y) (xs ys : List α) :
    compare (xs.map f) (ys.map f) = compare xs ys := by
  induction xs generalizing ys with
  | nil => cases ys <;> rfl
  | cons x xs ih =>
    cases ys with
    | nil => rfl
    | cons y ys =>
      rw [List.map_cons, List.map_cons, List.compare_cons_cons, List.compare_cons_cons, h, ih]

theorem compare_cons_same {α : Type*} [Ord α] [Std.ReflOrd α] (head : α) (one other : List α) :
    compare (head :: one) (head :: other) = compare one other := by
  rw [List.compare_cons_cons, Std.ReflOrd.compare_self]
  rfl

theorem compare_single {α : Type*} [Ord α] (one other : α) :
    compare [one] [other] = compare one other := by
  rw [List.compare_cons_cons]
  cases compare one other <;> rfl

theorem compare_natCast (a b : ℕ) : compare (a : ℚ) b = compare a b := by
  rw [← cmp_eq_compare, ← cmp_eq_compare]
  exact Nat.strictMono_cast.cmp_map_eq a b

theorem compare_intCast (a b : ℤ) : compare (a : ℚ) b = compare a b := by
  rw [← cmp_eq_compare, ← cmp_eq_compare]
  exact Int.cast_strictMono.cmp_map_eq a b

theorem compare_head_lt {α : Type*} [LinearOrder α] {one other : α} (h : one < other)
    (xs ys : List α) : compare (one :: xs) (other :: ys) = .lt := by
  rw [List.compare_cons_cons, compare_lt_iff_lt.2 h]
  rfl
