import OnoSendai.Lib.Consistent
import OnoSendai.Value.Equality

/-!
# The order of sort keys

A sort orders its keys by a comparison of its own (`ono_pipeline::order`): unknown keys and numbers
that are none come last, numbers are compared by amount and stand before the other kinds, which
stand by the names of their types. Keys of one type are compared as values are, and where that has
no answer they count as equal.

The comparison of two numbers may go through floating-point images, that of two lists stops where
two elements have no order, and a path is compared with another by its components and with a string
by its text.
-/

namespace OnoSendai.Pipeline

open Binary64

/-! ### The comparison -/

/-- Which end of the order a sort runs from. -/
inductive Direction
  | ascending
  | descending

/-- Where a value sits relative to the values that can be ordered. -/
inductive Rank
  | comparable
  | notANumber
  | unknown
deriving DecidableEq

/-- The place of a rank among the others. -/
def Rank.place : Rank → ℕ
  | comparable => 0
  | notANumber => 1
  | unknown => 2

/-- The rank of a value. -/
def rank : Value → Rank
  | .null => .unknown
  | .float number => if isNaN number then .notANumber else .comparable
  | .percent number => if isNaN number then .notANumber else .comparable
  | _ => .comparable

/-- Whether a value is a number. -/
def isNumber : Value → Bool
  | .int _ | .float _ | .decimal _ _ => true
  | _ => false

section Compare

variable (powi : ℕ → UInt64)

/-- The order of two values, which count as equal where they have none. -/
def orderOf (left right : Value) : Ordering :=
  (left.compareTo powi right).toOption.getD .eq

/-- Orders two sort keys ascending, with unknown values last. -/
def compareKeys (left right : Value) : Ordering :=
  if rank left ≠ rank right then compare (rank left).place (rank right).place
  else if rank left ≠ .comparable then .eq
  else
    match isNumber left, isNumber right with
    | true, true => orderOf powi left right
    | true, false => .lt
    | false, true => .gt
    | false, false =>
      if left.typeName = right.typeName then orderOf powi left right
      else compare left.typeName right.typeName

/-! ### Values in order -/

/-- The amount of a number. -/
def exactAmount : Value → ℚ
  | .int number => number
  | .float number => units number / grain
  | .decimal mantissa scale => (Decimal.ofParts mantissa scale).toRat
  | .port number => number.toNat
  | _ => 0

/-- Whether two numbers are compared by their amounts: as integers; as decimals that hold them and
fit on a common scale or are told apart by their floating-point images; or as floating-point
numbers that are in the order of what they are the images of. -/
def ComparedExactly (left right : Value) : Prop :=
  match promote powi left right with
  | some (.ints _ _) => True
  | some (.decimals a b) =>
    (a.toRat = exactAmount left ∧ b.toRat = exactAmount right) ∧ (a.Aligned b ∨ a.ToldApart powi b)
  | some (.floats a b) =>
    (isNaN a = false ∧ isNaN b = false) ∧
      compare (units a) (units b) = compare (exactAmount left) (exactAmount right)
  | none => False

/-- What paths are compared by. -/
inductive PathReading
  | components
  | text
deriving DecidableEq

/-- The components of a path as they are ordered. -/
def componentKeys (path : List UInt8) : List (List ℕ) :=
  (Value.pathComponents path).map (·.key)

/-- Whether two values that are not both lists have an order. -/
def ComparableScalars (reading : PathReading) : Value → Value → Prop
  | .null, _ => True
  | _, .null => True
  | .bool _, .bool _ => True
  | .string _, .string _ => True
  | .bytes _, .bytes _ => True
  | .path a, .path b =>
    reading = .components ∨ compare (componentKeys a) (componentKeys b) = compare a b
  | .path _, .string _ => reading = .text
  | .string _, .path _ => reading = .text
  | .timestamp _, .timestamp _ => True
  | .duration _, .duration _ => True
  | .byteSize _, .byteSize _ => True
  | .percent a, .percent b => isNaN a = false ∧ isNaN b = false
  | .uuid _, .uuid _ => True
  | .ip _, .ip _ => True
  | .ipNetwork _ _, .ipNetwork _ _ => True
  | .port _, .port _ => True
  | .port _, .int _ => True
  | .int _, .port _ => True
  | left, right => ComparedExactly powi left right

mutual

/-- Whether two values have an order. -/
def Comparable (reading : PathReading) : Value → Value → Prop
  | .list a, .list b => ComparableLists reading a b
  | left, right => ComparableScalars powi reading left right

/-- Whether the elements of two lists have an order up to the first that differ. -/
def ComparableLists (reading : PathReading) : List Value → List Value → Prop
  | a :: as, b :: bs =>
    Comparable reading a b ∧ (a.compareTo powi b = .ok .eq → ComparableLists reading as bs)
  | _, _ => True

end

/-- Whether two keys are in order: lists by their elements, and numbers by their amounts. -/
def InOrder (reading : PathReading) : Value → Value → Prop
  | .list a, .list b => ComparableLists powi reading a b
  | left, right =>
    isNumber left = true → isNumber right = true → rank left = .comparable →
      rank right = .comparable → ComparedExactly powi left right

end Compare

/-! ### The other way around -/

variable {as bs : List Value}

section Swap

variable {powi : ℕ → UInt64} {left right : Value}

theorem elim_swap {one other : Option Ordering} {failure another : ErrorValue}
    (h : other = one.map Ordering.swap) :
    (other.elim (Except.error failure) .ok).toOption =
      (one.elim (Except.error another) .ok).toOption.map Ordering.swap := by
  cases one <;> rw [h] <;> rfl

theorem compareScalars_swap :
    (Value.compareScalars powi right left).toOption =
      (Value.compareScalars powi left right).toOption.map Ordering.swap := by
  -- two kinds that do not meet have no order, and null stands before every other
  cases left <;> cases right <;> try rfl
  all_goals
    first
    | exact congrArg some Std.OrientedOrd.eq_swap
    | exact elim_swap (partialCmp_swap _ _)
    | exact elim_swap (Decimal.partialCmp_swap _ _ _)

theorem toOption_compareLists_cons {a b : Value} :
    (Value.compareLists powi (a :: as) (b :: bs)).toOption =
      (a.compareTo powi b).toOption.bind fun order =>
        if order = .eq then (Value.compareLists powi as bs).toOption else some order := by
  rw [Value.compareLists]
  cases a.compareTo powi b with
  | error failure => rfl
  | ok order => cases order <;> rfl

theorem compareTo_eq_compareScalars_of (h : ∀ a b, left = .list a → right ≠ .list b) :
    left.compareTo powi right = Value.compareScalars powi left right := by
  cases left with
  | list a =>
    cases right with
    | list b => exact absurd rfl (h a b rfl)
    | _ => rfl
  | _ => rfl

theorem compareLists_swap
    (h : ∀ a ∈ as, ∀ b, (Value.compareTo powi b a).toOption =
      (Value.compareTo powi a b).toOption.map Ordering.swap) :
    (Value.compareLists powi bs as).toOption =
      (Value.compareLists powi as bs).toOption.map Ordering.swap := by
  induction as generalizing bs with
  | nil => cases bs <;> rfl
  | cons a as ih =>
    cases bs with
    | nil => rfl
    | cons b bs =>
      rw [List.forall_mem_cons] at h
      rw [toOption_compareLists_cons, toOption_compareLists_cons, h.1]
      cases (a.compareTo powi b).toOption with
      | none => rfl
      | some order =>
        cases order with
        | eq => exact ih h.2
        | lt => rfl
        | gt => rfl

theorem compareTo_swap_of (h : ∀ a b, left = .list a → right ≠ .list b) :
    (right.compareTo powi left).toOption = (left.compareTo powi right).toOption.map Ordering.swap :=
  by
  rw [compareTo_eq_compareScalars_of h,
    compareTo_eq_compareScalars_of fun a b ha hb => h b a hb ha, compareScalars_swap]

theorem compareTo_swap (left right : Value) : (right.compareTo powi left).toOption =
    (left.compareTo powi right).toOption.map Ordering.swap := by
  induction left using Value.induction generalizing right with
  | list items ih =>
    cases right with
    | list others => exact compareLists_swap ih
    | _ => exact compareTo_swap_of fun _ _ _ hb => nomatch hb
  | leaf left hleaf =>
    refine compareTo_swap_of fun a _ ha _ => ?_
    rw [ha] at hleaf
    exact hleaf
  | map entries _ => exact compareTo_swap_of fun _ _ ha => nomatch ha
  | record schema fields extra provenance _ _ => exact compareTo_swap_of fun _ _ ha => nomatch ha

theorem orderOf_swap (left right : Value) :
    orderOf powi right left = (orderOf powi left right).swap := by
  rw [orderOf, orderOf, compareTo_swap]
  cases (left.compareTo powi right).toOption <;> rfl

/-- Whether a key is grouped by the name of its type. -/
def IsGrouped (key : Value) : Prop :=
  rank key = .comparable ∧ isNumber key = false

instance (key : Value) : Decidable (IsGrouped key) :=
  inferInstanceAs (Decidable (_ ∧ _))

/-- The place of the numbers before the keys that are grouped. -/
def groupPlace (key : Value) : ℕ :=
  if IsGrouped key then 1 else 0

/-- The name a key is grouped by. -/
def groupName (key : Value) : String :=
  if IsGrouped key then key.typeName else ""

/-- The order of two keys that stand alike. -/
def within (powi : ℕ → UInt64) (left right : Value) : Ordering :=
  if rank left = .comparable then orderOf powi left right else .eq

theorem place_injective {one other : Rank} (h : one.place = other.place) : one = other := by
  cases one <;> cases other <;> first | rfl | cases h

/-- **What keys are compared by.** Keys are compared by their ranks, numbers before the other
kinds, then by the names of their types, and then as values. -/
theorem compareKeys_eq (left right : Value) :
    compareKeys powi left right =
      (compare (rank left).place (rank right).place).then
        ((compare (groupPlace left) (groupPlace right)).then
          ((compare (groupName left) (groupName right)).then (within powi left right))) := by
  rw [compareKeys, groupPlace, groupPlace, groupName, groupName, within]
  by_cases hrank : rank left = rank right
  · rw [if_neg (not_not.2 hrank), hrank, Std.ReflOrd.compare_self]
    by_cases hcomparable : rank right = .comparable
    · have hleft : IsGrouped left ↔ isNumber left = false :=
        and_iff_right (hrank.trans hcomparable)
      have hright : IsGrouped right ↔ isNumber right = false := and_iff_right hcomparable
      simp only [hleft, hright]
      rw [if_neg (not_not.2 hcomparable), if_pos hcomparable]
      cases isNumber left <;> cases isNumber right
      · dsimp only
        by_cases htype : left.typeName = right.typeName
        · rw [if_pos htype, htype, @Std.ReflOrd.compare_self String]
          rfl
        · rw [if_neg htype]
          show compare left.typeName right.typeName =
            (compare left.typeName right.typeName).then (orderOf powi left right)
          cases hname : compare left.typeName right.typeName with
          | eq => exact absurd (Std.LawfulEqOrd.eq_of_compare hname) htype
          | lt => rfl
          | gt => rfl
      · rfl
      · rfl
      · rfl
    · have hleft : ¬IsGrouped left := fun h => hcomparable (hrank.symm.trans h.1)
      have hright : ¬IsGrouped right := fun h => hcomparable h.1
      rw [if_pos hcomparable, if_neg hcomparable, if_neg hleft, if_neg hright, if_neg hleft,
        if_neg hright]
      rfl
  · rw [if_pos hrank]
    cases hplace : compare (rank left).place (rank right).place with
    | eq => exact absurd (place_injective (Std.LawfulEqOrd.eq_of_compare hplace)) hrank
    | lt => rfl
    | gt => rfl

/-- **The comparison from the other side.** -/
theorem compareKeys_swap (left right : Value) :
    compareKeys powi right left = (compareKeys powi left right).swap := by
  rw [compareKeys_eq, compareKeys_eq]
  simp only [Ordering.swap_then, ← Std.OrientedOrd.eq_swap]
  cases hplace : compare (rank right).place (rank left).place with
  | lt => rfl
  | gt => rfl
  | eq =>
    have hrank := place_injective (Std.LawfulEqOrd.eq_of_compare hplace)
    have hwithin : within powi right left = (within powi left right).swap := by
      rw [within, within, hrank]
      split_ifs
      · exact orderOf_swap left right
      · rfl
    rw [hwithin]

/-- **A key is equal to itself.** -/
theorem compareKeys_self (key : Value) : compareKeys powi key key = .eq := by
  have hswap := @compareKeys_swap powi key key
  cases horder : compareKeys powi key key with
  | eq => rfl
  | lt => rw [horder] at hswap; cases hswap
  | gt => rw [horder] at hswap; cases hswap

end Swap

/-! ### Places -/

/-- The place of a value among those it has an order with: its kind, and what it is ordered by. -/
def scalarKey (reading : PathReading) : Value → List (List ℚ)
  | .null => [[0]]
  | .list _ => [[1]]
  | .bool flag => [[2], [flag.toNat]]
  | .string content => [[3], (bytesOf content).map fun byte => byte.toNat]
  | .path path =>
    if reading = .text then [[3], path.map fun byte => byte.toNat]
    else [4] :: (componentKeys path).map fun component => component.map Nat.cast
  | .bytes content => [[5], content.map fun byte => byte.toNat]
  | .timestamp instant => [[6], [instant]]
  | .duration span => [[7], [span]]
  | .byteSize size => [[8], [size]]
  | .percent percent => [[9], [Binary64.units percent]]
  | .uuid number => [[10], [number.toNat]]
  | .ip address => [[11], (Value.addressKey address).map Nat.cast]
  | .ipNetwork address size => [[12], (Value.addressKey address ++ [size]).map Nat.cast]
  | .int number => [[13], [number]]
  | .float number => [[13], [exactAmount (.float number)]]
  | .decimal mantissa scale => [[13], [exactAmount (.decimal mantissa scale)]]
  | .port number => [[13], [number.toNat]]
  | _ => [[14]]

variable {value : Value}

section Places

variable {powi : ℕ → UInt64} {reading : PathReading} {left right : Value}

theorem compare_byteCast (one other : UInt8) :
    compare (one.toNat : ℚ) other.toNat = compare one other := by
  rw [compare_natCast]
  simp [compare, compareOfLessAndEq, UInt8.lt_iff_toNat_lt, UInt8.toNat_inj]

theorem promote_eq_ints {a b : ℤ} (h : promote powi left right = some (.ints a b)) :
    left = .int a ∧ right = .int b := by
  cases left <;> cases right <;> cases h
  exact ⟨rfl, rfl⟩

/-- Two numbers that are compared exactly are in the order of their amounts. -/
theorem compare_of_comparedExactly {numbers : Promoted} (h : ComparedExactly powi left right)
    (hnumbers : promote powi left right = some numbers) :
    Value.Promoted.compare powi numbers =
      some (compare (exactAmount left) (exactAmount right)) := by
  rw [ComparedExactly, hnumbers] at h
  cases numbers with
  | ints a b =>
    obtain ⟨rfl, rfl⟩ := promote_eq_ints hnumbers
    exact congrArg some (compare_intCast a b).symm
  | decimals a b =>
    rw [← h.1.1, ← h.1.2]
    exact (Decimal.partialCmp_eq_iff powi a b).2 h.2
  | floats a b =>
    rw [← h.2, compare_units]
    exact partialCmp_of_isNaN_eq_false h.1.1 h.1.2

theorem compareScalars_of_promote {numbers : Promoted}
    (h : promote powi left right = some numbers) :
    Value.compareScalars powi left right =
      (Value.Promoted.compare powi numbers).elim (.error (notComparable left right)) .ok := by
  cases left <;> cases right <;> cases h <;> rfl

theorem compareScalars_of_comparedExactly (h : ComparedExactly powi left right) :
    Value.compareScalars powi left right =
      .ok (compare [[13], [exactAmount left]] [[13], [exactAmount right]]) := by
  have hmeet : ∃ numbers, promote powi left right = some numbers := by
    rw [← Option.isSome_iff_exists, Option.isSome_iff_ne_none]
    intro hnone
    rw [ComparedExactly, hnone] at h
    exact h
  obtain ⟨numbers, hnumbers⟩ := hmeet
  rw [compareScalars_of_promote hnumbers, compare_of_comparedExactly h hnumbers, compare_cons_same,
    compare_single, compare_single]
  rfl

/-- Null has its place before every other value. -/
theorem compare_null (h : value.isNull = false) :
    compare [[0]] (scalarKey reading value) = .lt := by
  have hlt : ∀ (kind : ℚ) (rest : List (List ℚ)), 0 < kind →
      compare [[0]] ([kind] :: rest) = .lt := by
    intro kind rest hkind
    rw [List.compare_cons_cons, compare_head_lt hkind]
    rfl
  cases value with
  | null => cases h
  | path path =>
    rw [scalarKey]
    split_ifs
    · exact hlt 3 _ (by norm_num)
    · exact hlt 4 _ (by norm_num)
  | _ => exact hlt _ _ (by norm_num)

theorem compare_null_right (h : value.isNull = false) :
    compare (scalarKey reading value) [[0]] = .gt := by
  rw [Std.OrientedOrd.eq_swap, compare_null h]
  rfl

theorem compare_parts (kind : ℚ) (one other : List ℚ) :
    compare [[kind], one] [[kind], other] = compare one other := by
  rw [compare_cons_same, compare_single]

theorem compare_amounts (kind one other : ℚ) :
    compare [[kind], [one]] [[kind], [other]] = compare one other := by
  rw [compare_parts, compare_single]

theorem compare_bytes (kind : ℚ) (one other : List UInt8) :
    compare [[kind], one.map fun byte => (byte.toNat : ℚ)]
      [[kind], other.map fun byte => (byte.toNat : ℚ)] = compare one other := by
  rw [compare_parts, compare_map compare_byteCast]

theorem compare_naturals (kind : ℚ) (one other : List ℕ) :
    compare [[kind], one.map Nat.cast] [[kind], other.map Nat.cast] = compare one other := by
  rw [compare_parts, compare_map compare_natCast]

theorem compare_paths {a b : List UInt8}
    (h : reading = .components ∨ compare (componentKeys a) (componentKeys b) = compare a b) :
    compare (scalarKey reading (.path a)) (scalarKey reading (.path b)) =
      compare (componentKeys a) (componentKeys b) := by
  rw [scalarKey, scalarKey]
  split_ifs with htext
  · have hreading : reading ≠ .components := by
      rw [htext]
      decide
    rw [compare_bytes, h.resolve_left hreading]
  · rw [compare_cons_same, compare_map (compare_map compare_natCast)]

theorem compareScalars_percent {a b : UInt64}
    (h : isNaN a = false ∧ isNaN b = false) :
    Value.compareScalars powi (.percent a) (.percent b) =
      .ok (compare (position a) (position b)) := by
  show (partialCmp a b).elim _ _ = _
  rw [partialCmp_of_isNaN_eq_false h.1 h.2]
  rfl

/-- **Values that have an order are in that of their places.** -/
theorem compareScalars_of_comparable (h : ComparableScalars powi reading left right) :
    Value.compareScalars powi left right =
      .ok (compare (scalarKey reading left) (scalarKey reading right)) := by
  cases left <;> cases right
  -- two kinds that do not meet have no order
  all_goals try exact False.elim h
  all_goals try exact compareScalars_of_comparedExactly h
  case null.null => exact congrArg Except.ok Std.ReflOrd.compare_self.symm
  case percent.percent a b =>
    rw [compareScalars_percent h, scalarKey, scalarKey, compare_amounts, compare_intCast,
      Binary64.compare_units]
  all_goals try exact congrArg Except.ok (compare_null rfl).symm
  all_goals try exact congrArg Except.ok (compare_null_right rfl).symm
  all_goals refine congrArg Except.ok (Eq.symm ?_)
  case bool.bool a b =>
    rw [scalarKey, scalarKey, compare_amounts, compare_natCast]
    cases a <;> cases b <;> rfl
  case int.port a b => exact (compare_amounts _ _ _).trans (compare_intCast a b.toNat)
  case port.int a b => exact (compare_amounts _ _ _).trans (compare_intCast a.toNat b)
  case string.string a b => exact compare_bytes _ _ _
  case string.path a b =>
    have htext : reading = .text := h
    rw [scalarKey, scalarKey, if_pos htext, compare_bytes]
  case path.string a b =>
    have htext : reading = .text := h
    rw [scalarKey, scalarKey, if_pos htext, compare_bytes]
  case bytes.bytes a b => exact compare_bytes _ _ _
  case path.path a b => exact compare_paths h
  case timestamp.timestamp a b => exact (compare_amounts _ _ _).trans (compare_intCast a b)
  case duration.duration a b => exact (compare_amounts _ _ _).trans (compare_intCast a b)
  case byteSize.byteSize a b => exact (compare_amounts _ _ _).trans (compare_natCast a b)
  case uuid.uuid a b => exact (compare_amounts _ _ _).trans (compare_natCast a.toNat b.toNat)
  case ip.ip a b => exact compare_naturals _ _ _
  case ipNetwork.ipNetwork a m b n => exact compare_naturals _ _ _
  case port.port a b => exact (compare_amounts _ _ _).trans (compare_natCast a.toNat b.toNat)

end Places

/-! ### Keys in order -/

section Keys

variable {powi : ℕ → UInt64} {reading : PathReading}

variable {left right : Value}

theorem comparable_eq_comparableScalars_of (h : ∀ a b, left = .list a → right ≠ .list b) :
    Comparable powi reading left right = ComparableScalars powi reading left right := by
  cases left with
  | list a =>
    cases right with
    | list b => exact absurd rfl (h a b rfl)
    | _ => rw [Comparable]; exact fun _ _ _ hb => nomatch hb
  | _ => rw [Comparable]; exact fun _ _ ha => nomatch ha

theorem compareTo_of_scalars (h : Comparable powi reading left right)
    (hscalars : ∀ a b, left = .list a → right ≠ .list b) :
    left.compareTo powi right =
      .ok (compare (scalarKey reading left) (scalarKey reading right)) := by
  rw [compareTo_eq_compareScalars_of hscalars]
  rw [comparable_eq_comparableScalars_of hscalars] at h
  exact compareScalars_of_comparable h

theorem eq_ok_orderOf {order : Ordering} (h : left.compareTo powi right = .ok order) :
    left.compareTo powi right = .ok (orderOf powi left right) := by
  rw [orderOf, h]
  rfl

theorem compareLists_eq_ok (hlists : ComparableLists powi reading as bs)
    (h : ∀ a ∈ as, ∀ b, Comparable powi reading a b →
      Value.compareTo powi a b = .ok (orderOf powi a b)) :
    ∃ order, Value.compareLists powi as bs = .ok order := by
  induction as generalizing bs with
  | nil => cases bs <;> exact ⟨_, rfl⟩
  | cons a as ih =>
    cases bs with
    | nil => exact ⟨_, rfl⟩
    | cons b bs =>
      rw [List.forall_mem_cons] at h
      rw [ComparableLists] at hlists
      rw [Value.compareLists, h.1 b hlists.1]
      cases horder : orderOf powi a b with
      | eq => exact ih (hlists.2 (horder ▸ h.1 b hlists.1)) h.2
      | lt => exact ⟨_, rfl⟩
      | gt => exact ⟨_, rfl⟩

/-- Values that can be compared have an order. -/
theorem compareTo_of_comparable (h : Comparable powi reading left right) :
    left.compareTo powi right = .ok (orderOf powi left right) := by
  induction left using Value.induction generalizing right with
  | list items ih =>
    cases right with
    | list others =>
      rw [Comparable] at h
      obtain ⟨order, horder⟩ := compareLists_eq_ok h fun a ha b hab => ih a ha hab
      exact eq_ok_orderOf horder
    | _ => exact eq_ok_orderOf (compareTo_of_scalars h fun _ _ _ hb => nomatch hb)
  | leaf left hleaf =>
    refine eq_ok_orderOf (compareTo_of_scalars h fun a _ ha _ => ?_)
    rw [ha] at hleaf
    exact hleaf
  | map entries _ => exact eq_ok_orderOf (compareTo_of_scalars h fun _ _ ha => nomatch ha)
  | record schema fields extra provenance _ _ =>
    exact eq_ok_orderOf (compareTo_of_scalars h fun _ _ ha => nomatch ha)

theorem orderOf_cons {a b : Value} (h : Comparable powi reading a b) :
    orderOf powi (.list (a :: as)) (.list (b :: bs)) =
      (orderOf powi a b).then (orderOf powi (.list as) (.list bs)) := by
  show (Value.compareLists powi (a :: as) (b :: bs)).toOption.getD .eq = _
  rw [Value.compareLists, compareTo_of_comparable h]
  cases orderOf powi a b <;> rfl

theorem orderOf_nil_nil : orderOf powi (.list []) (.list []) = .eq :=
  rfl

theorem orderOf_nil_cons {b : Value} {bs : List Value} :
    orderOf powi (.list []) (.list (b :: bs)) = .lt :=
  rfl

theorem orderOf_cons_nil {a : Value} {as : List Value} :
    orderOf powi (.list (a :: as)) (.list []) = .gt :=
  rfl

/-- Lists whose elements have an order up to the first that differ are compared transitively, where
their elements are. -/
theorem consistent_lists {xs ys zs : List Value}
    (h : ∀ x ∈ xs, ∀ y z, Comparable powi reading x y → Comparable powi reading y z →
      Comparable powi reading x z →
        Consistent (orderOf powi x y) (orderOf powi y z) (orderOf powi x z))
    (hxy : ComparableLists powi reading xs ys) (hyz : ComparableLists powi reading ys zs)
    (hxz : ComparableLists powi reading xs zs) :
    Consistent (orderOf powi (.list xs) (.list ys)) (orderOf powi (.list ys) (.list zs))
      (orderOf powi (.list xs) (.list zs)) := by
  induction xs generalizing ys zs with
  | nil =>
    cases ys with
    | nil =>
      rw [orderOf_nil_nil]
      exact Consistent.eq_left
    | cons y ys =>
      rw [orderOf_nil_cons]
      cases zs with
      | nil => exact Consistent.second_gt
      | cons z zs => exact Consistent.first_lt
  | cons x xs ih =>
    cases ys with
    | nil =>
      rw [orderOf_cons_nil]
      cases zs with
      | nil => exact Consistent.eq_right
      | cons z zs => exact Consistent.second_lt
    | cons y ys =>
      cases zs with
      | nil =>
        rw [orderOf_cons_nil, orderOf_cons_nil]
        exact Consistent.last_lt
      | cons z zs =>
        rw [ComparableLists] at hxy hyz hxz
        rw [List.forall_mem_cons] at h
        rw [orderOf_cons hxy.1, orderOf_cons hyz.1, orderOf_cons hxz.1]
        have hfirst := h.1 y z hxy.1 hyz.1 hxz.1
        refine hfirst.refined fun hx hy => ?_
        have hz : orderOf powi x z = .eq := (hfirst.left hx).trans hy
        exact ih h.2 (hxy.2 (hx ▸ compareTo_of_comparable hxy.1))
          (hyz.2 (hy ▸ compareTo_of_comparable hyz.1)) (hxz.2 (hz ▸ compareTo_of_comparable hxz.1))

theorem exists_list_of_compare {items : List Value}
    (h : compare (scalarKey reading (.list items)) (scalarKey reading value) = .eq) :
    ∃ others, value = .list others := by
  have hkey : scalarKey reading (.list items) = scalarKey reading value :=
    Std.LawfulEqOrd.eq_of_compare h
  have hhead : (scalarKey reading value).head? = some [1] := by
    rw [← hkey]
    rfl
  cases value with
  | list others => exact ⟨others, rfl⟩
  | path path =>
    rw [scalarKey] at hhead
    split_ifs at hhead <;> norm_num at hhead
  | _ => norm_num [scalarKey] at hhead

/-- The order of the elements of two lists; other values have none of their own. -/
def elementOrder (powi : ℕ → UInt64) : Value → Value → Ordering
  | .list a, .list b => orderOf powi (.list a) (.list b)
  | _, _ => .eq

theorem elementOrder_of_scalars (h : ∀ a b, left = .list a → right ≠ .list b) :
    elementOrder powi left right = .eq := by
  cases left with
  | list a =>
    cases right with
    | list b => exact absurd rfl (h a b rfl)
    | _ => rfl
  | _ => rfl

/-- Values that can be compared are in the order of their places, and lists among them in that of
their elements. -/
theorem orderOf_of_comparable (h : Comparable powi reading left right) :
    orderOf powi left right = (compare (scalarKey reading left) (scalarKey reading right)).then
      (elementOrder powi left right) := by
  by_cases hlists : ∃ a b, left = .list a ∧ right = .list b
  · obtain ⟨a, b, rfl, rfl⟩ := hlists
    rw [scalarKey, scalarKey, Std.ReflOrd.compare_self]
    rfl
  · have hscalars : ∀ a b, left = .list a → right ≠ .list b :=
      fun a b ha hb => hlists ⟨a, b, ha, hb⟩
    rw [orderOf, compareTo_of_scalars h hscalars, elementOrder_of_scalars hscalars]
    cases compare (scalarKey reading left) (scalarKey reading right) <;> rfl

theorem consistent_of_not_list {x y z : Value} (hx : ∀ items, x ≠ .list items)
    (hxy : Comparable powi reading x y) (hyz : Comparable powi reading y z)
    (hxz : Comparable powi reading x z) :
    Consistent (orderOf powi x y) (orderOf powi y z) (orderOf powi x z) := by
  rw [orderOf_of_comparable hxy, orderOf_of_comparable hyz, orderOf_of_comparable hxz]
  refine (Consistent.of_transCmp compare _ _ _).refined fun hplaces _ => ?_
  have hy : ∀ items, y ≠ .list items := by
    rintro items rfl
    obtain ⟨others, hothers⟩ := exists_list_of_compare (Std.OrientedCmp.eq_symm hplaces)
    exact hx others hothers
  rw [elementOrder_of_scalars fun a _ ha => absurd ha (hx a),
    elementOrder_of_scalars fun a _ ha => absurd ha (hy a),
    elementOrder_of_scalars fun a _ ha => absurd ha (hx a)]
  exact Consistent.eq_left

/-- **Values that can be compared are compared transitively.** -/
theorem consistent_orderOf {x y z : Value} (hxy : Comparable powi reading x y)
    (hyz : Comparable powi reading y z) (hxz : Comparable powi reading x z) :
    Consistent (orderOf powi x y) (orderOf powi y z) (orderOf powi x z) := by
  induction x using Value.induction generalizing y z with
  | list items ih =>
    rw [orderOf_of_comparable hxy, orderOf_of_comparable hyz, orderOf_of_comparable hxz]
    refine (Consistent.of_transCmp compare _ _ _).refined fun hx hy => ?_
    obtain ⟨others, rfl⟩ := exists_list_of_compare hx
    obtain ⟨more, rfl⟩ := exists_list_of_compare hy
    rw [Comparable] at hxy hyz hxz
    exact consistent_lists (fun x hx y z => ih x hx) hxy hyz hxz
  | leaf x hleaf =>
    refine consistent_of_not_list ?_ hxy hyz hxz
    rintro items rfl
    exact hleaf
  | map entries _ => exact consistent_of_not_list (fun _ => nofun) hxy hyz hxz
  | record schema fields extra provenance _ _ =>
    exact consistent_of_not_list (fun _ => nofun) hxy hyz hxz

/-- Whether a value is of a kind that is never ordered. -/
def IsUnordered : Value → Prop
  | .regex _ | .map _ | .record _ _ _ _ | .error _ _ => True
  | _ => False

/-- What paths in keys are compared by: outside lists they meet only each other. -/
def readingOf (reading : PathReading) (key : Value) : PathReading :=
  if key.typeName = "list" then reading else .components

/-- Whether two keys are both numbers, or of one type. -/
def Alike (left right : Value) : Prop :=
  isNumber left = isNumber right ∧ (isNumber left = false → left.typeName = right.typeName)

theorem Alike.symm (h : Alike left right) : Alike right left :=
  ⟨h.1.symm, fun hright => (h.2 (h.1.trans hright)).symm⟩

theorem Alike.trans {one two three : Value} (h : Alike one two) (hother : Alike two three) :
    Alike one three :=
  ⟨h.1.trans hother.1, fun hone => (h.2 hone).trans (hother.2 (h.1.symm.trans hone))⟩

theorem readingOf_eq (h : Alike left right) : readingOf reading left = readingOf reading right := by
  cases hnumber : isNumber left with
  | false => rw [readingOf, readingOf, h.2 hnumber]
  | true =>
    have hnot : ∀ key : Value, isNumber key = true → key.typeName ≠ "list" := by
      intro key hkey
      cases key with
      | int number => simp [Value.typeName]
      | float number => simp [Value.typeName]
      | decimal mantissa scale => simp [Value.typeName]
      | _ => cases hkey
    rw [readingOf, readingOf, if_neg (hnot left hnumber), if_neg (hnot right (h.1 ▸ hnumber))]

/-- The names of the types, one for each kind of value. -/
def typeNames : List String :=
  ["null", "bool", "int", "float", "decimal", "string", "bytes", "path", "timestamp", "duration",
    "bytesize", "percent", "regex", "uuid", "ip", "ipnetwork", "port", "list", "map", "record",
    "error"]

theorem getElem?_typeNames (value : Value) : typeNames[value.ctorIdx]? = some value.typeName := by
  cases value <;> rfl

theorem ctorIdx_eq_of_typeName (h : left.typeName = right.typeName) :
    left.ctorIdx = right.ctorIdx := by
  have hlt : left.ctorIdx < typeNames.length :=
    (List.getElem?_eq_some_iff.1 (getElem?_typeNames left)).1
  refine (List.getElem?_inj hlt (by decide)).1 ?_
  rw [getElem?_typeNames, getElem?_typeNames, h]

theorem isNaN_eq_false_of_rank {number : UInt64} (h : rank (.percent number) = .comparable) :
    isNaN number = false := by
  rw [rank] at h
  split_ifs at h with hnan
  exact Bool.eq_false_iff.2 hnan

theorem comparable_of_isNumber (h : ComparedExactly powi left right) (hleft : isNumber left = true)
    (hright : isNumber right = true) : Comparable powi reading left right := by
  have hscalar : ∀ a b, left = .list a → right ≠ .list b := by
    rintro a b rfl
    cases hleft
  rw [comparable_eq_comparableScalars_of hscalar]
  cases left <;> cases hleft <;> cases right <;> cases hright <;> exact h

/-- Keys of one type that is not that of a number can be compared, or are never ordered. -/
theorem comparable_of_typeName (h : InOrder powi reading left right)
    (htype : left.typeName = right.typeName) (hnumber : isNumber left = false)
    (hleft : rank left = .comparable) (hright : rank right = .comparable) :
    Comparable powi (readingOf reading left) left right ∨ IsUnordered left ∧ IsUnordered right := by
  have hkind := ctorIdx_eq_of_typeName htype
  cases left <;> cases right <;> try exact absurd hkind (Nat.ne_of_beq_eq_false rfl)
  case list.list a b => exact .inl h
  all_goals try exact .inr ⟨trivial, trivial⟩
  all_goals refine .inl ?_
  all_goals rw [comparable_eq_comparableScalars_of (by rintro _ _ ⟨⟩)]
  all_goals try exact trivial
  case float.float => cases hnumber
  case decimal.decimal => cases hnumber
  case path.path a b => exact .inl (if_neg (by simp [Value.typeName]))
  case percent.percent a b => exact ⟨isNaN_eq_false_of_rank hleft, isNaN_eq_false_of_rank hright⟩

theorem comparable_of_inOrder (h : InOrder powi reading left right) (halike : Alike left right)
    (hleft : rank left = .comparable) (hright : rank right = .comparable) :
    Comparable powi (readingOf reading left) left right ∨ IsUnordered left ∧ IsUnordered right := by
  cases hnumber : isNumber left with
  | false => exact comparable_of_typeName h (halike.2 hnumber) hnumber hleft hright
  | true =>
    have hother : isNumber right = true := halike.1 ▸ hnumber
    have hexact : ComparedExactly powi left right := by
      cases left <;> cases hnumber <;> exact h rfl hother hleft hright
    exact .inl (comparable_of_isNumber hexact hnumber hother)

theorem orderOf_of_isUnordered (hleft : IsUnordered left) (hright : IsUnordered right) :
    orderOf powi left right = .eq := by
  cases left <;> cases hleft <;> cases right <;> cases hright <;> rfl

theorem isUnordered_of_alike (h : Alike left right) (hleft : IsUnordered left) :
    IsUnordered right := by
  have hnumber : isNumber left = false := by
    cases left <;> first | rfl | cases hleft
  have hkind := ctorIdx_eq_of_typeName (h.2 hnumber)
  cases left <;> cases hleft <;> cases right <;>
    first
    | exact trivial
    | exact absurd hkind (Nat.ne_of_beq_eq_false rfl)

/-- Keys of one standing are alike. -/
theorem alike_of_standing (hleft : rank left = .comparable) (hright : rank right = .comparable)
    (hplace : groupPlace left = groupPlace right) (hname : groupName left = groupName right) :
    Alike left right := by
  rw [groupPlace, groupPlace] at hplace
  rw [groupName, groupName] at hname
  have hone : IsGrouped left ↔ isNumber left = false := and_iff_right hleft
  have hother : IsGrouped right ↔ isNumber right = false := and_iff_right hright
  cases hl : isNumber left <;> cases hr : isNumber right
  · rw [if_pos (hone.2 hl), if_pos (hother.2 hr)] at hname
    exact ⟨hl.trans hr.symm, fun _ => hname⟩
  · rw [if_pos (hone.2 hl), if_neg (by rw [hother, hr]; decide)] at hplace
    cases hplace
  · rw [if_neg (by rw [hone, hl]; decide), if_pos (hother.2 hr)] at hplace
    cases hplace
  · exact ⟨hl.trans hr.symm, fun h => absurd (hl.symm.trans h) (by decide)⟩

/-- Keys that are alike and in order are compared transitively. -/
theorem consistent_of_alike {a b c : Value} (hab : InOrder powi reading a b)
    (hbc : InOrder powi reading b c) (hac : InOrder powi reading a c) (halike : Alike a b)
    (hother : Alike b c) (ha : rank a = .comparable) (hb : rank b = .comparable)
    (hc : rank c = .comparable) :
    Consistent (orderOf powi a b) (orderOf powi b c) (orderOf powi a c) := by
  by_cases hunordered : IsUnordered a
  · have hb' := isUnordered_of_alike halike hunordered
    have hc' := isUnordered_of_alike hother hb'
    rw [orderOf_of_isUnordered hunordered hb', orderOf_of_isUnordered hb' hc',
      orderOf_of_isUnordered hunordered hc']
    exact Consistent.eq_left
  · have hcab := (comparable_of_inOrder hab halike ha hb).resolve_right fun h => hunordered h.1
    have hcac := (comparable_of_inOrder hac (halike.trans hother) ha hc).resolve_right
      fun h => hunordered h.1
    have hcbc := (comparable_of_inOrder hbc hother hb hc).resolve_right
      fun h => hunordered (isUnordered_of_alike halike.symm h.1)
    rw [← readingOf_eq halike] at hcbc
    exact consistent_orderOf hcab hcbc hcac

/-- **Keys in order are compared transitively.** -/
theorem consistent_compareKeys {a b c : Value} (hab : InOrder powi reading a b)
    (hbc : InOrder powi reading b c) (hac : InOrder powi reading a c) :
    Consistent (compareKeys powi a b) (compareKeys powi b c) (compareKeys powi a c) := by
  rw [compareKeys_eq, compareKeys_eq, compareKeys_eq]
  refine (Consistent.of_transCmp compare _ _ _).refined fun hrank hrank' => ?_
  refine (Consistent.of_transCmp compare _ _ _).refined fun hplace hplace' => ?_
  refine (Consistent.of_transCmp compare _ _ _).refined fun hname hname' => ?_
  have hranks := place_injective (Std.LawfulEqOrd.eq_of_compare hrank)
  have hranks' := place_injective (Std.LawfulEqOrd.eq_of_compare hrank')
  rw [within, within, within, ← hranks]
  split_ifs with ha
  · have hb : rank b = .comparable := hranks ▸ ha
    have hc : rank c = .comparable := hranks' ▸ hb
    exact consistent_of_alike hab hbc hac
      (alike_of_standing ha hb (Std.LawfulEqOrd.eq_of_compare hplace)
        (Std.LawfulEqOrd.eq_of_compare hname))
      (alike_of_standing hb hc (Std.LawfulEqOrd.eq_of_compare hplace')
        (Std.LawfulEqOrd.eq_of_compare hname')) ha hb hc
  · exact Consistent.eq_left

end Keys

/-! ### A total preorder -/

/-- What a comparison of three keys is to be: one that puts a key level with itself, gives two keys
the opposite order from the other side, and is transitive. -/
structure IsPreordered (powi : ℕ → UInt64) (a b c : Value) : Prop where
  refl : compareKeys powi a a = .eq
  swap : compareKeys powi b a = (compareKeys powi a b).swap
  trans : (compareKeys powi a b).isLE → (compareKeys powi b c).isLE → (compareKeys powi a c).isLE

/-- **Keys in order are preordered.** The comparison of a key with itself and from the other side
is what it is to be for all keys, and it is transitive in three of which every two are in order,
paths among them being taken by their components or by their text. -/
theorem isPreordered_of_inOrder (powi : ℕ → UInt64) (reading : PathReading) (a b c : Value)
    (hab : InOrder powi reading a b) (hbc : InOrder powi reading b c)
    (hac : InOrder powi reading a c) : IsPreordered powi a b c where
  refl := compareKeys_self a
  swap := compareKeys_swap a b
  trans := (consistent_compareKeys hab hbc hac).isLE

theorem isPreordered_lists :
    IsPreordered (fun _ => 0) (.list [.int 1, .null]) (.list [.int 1, .string "x"])
      (.list [.int 2]) :=
  isPreordered_of_inOrder (fun _ => 0) .components _ _ _
    ⟨trivial, fun _ => ⟨trivial, fun _ => trivial⟩⟩ ⟨trivial, fun _ => trivial⟩
    ⟨trivial, fun _ => trivial⟩

/-- **An integer that is rounded.** The integer after 2 ^ 53 is level with the floating-point number
2 ^ 53, that is level with the integer 2 ^ 53, and the one integer is above the other. -/
theorem not_isPreordered : ¬∀ (powi : ℕ → UInt64) (a b c : Value), IsPreordered powi a b c := by
  intro h
  have htrans := (h (fun _ => 0) (.int (2 ^ 53 + 1)) (.float (ofInt (2 ^ 53)))
    (.int (2 ^ 53))).trans (by decide +kernel) (by decide +kernel)
  exact absurd htrans (by decide +kernel)

end OnoSendai.Pipeline
