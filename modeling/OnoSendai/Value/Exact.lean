import OnoSendai.Lib.Consistent
import OnoSendai.Value.Arith

/-!
# Arithmetic on exact types

The values whose arithmetic is meant to be exact: integers, decimals, byte sizes, spans and
instants. Each of them measures an amount in a dimension, and a sum, a difference or an order is
exact when it is the one of the amounts.
-/

namespace OnoSendai

open Decimal

/-! ### Quantities -/

/-- A value of an exact type. -/
inductive Quantity (range : InstantRange)
  | int (number : I128)
  | decimal (number : Decimal)
  | byteSize (size : ByteSize)
  | duration (span : Duration)
  | timestamp (instant : {instant : ℤ // range.Contains instant})

/-- A quantity as a value. -/
def Quantity.toValue {range : InstantRange} : Quantity range → Value
  | int number => .int number
  | decimal number => number.intoValue
  | byteSize size => .byteSize size.bytes
  | duration span => .duration span.nanoseconds
  | timestamp instant => .timestamp instant

/-- The dimension of a value of an exact type, and its amount: a number, bytes or nanoseconds. -/
def measure : Value → Option (Dimension × ℚ)
  | .int number => some (.number, number)
  | .decimal mantissa scale => some (.number, mantissa / 10 ^ scale)
  | .byteSize bytes => some (.information, bytes)
  | .duration nanoseconds => some (.time, nanoseconds)
  | .timestamp instant => some (.instant, instant)
  | _ => none

/-- The dimension of a sum. -/
def sumDimension : Dimension → Dimension → Option Dimension
  | .number, .number => some .number
  | .information, .information => some .information
  | .time, .time => some .time
  | .instant, .time => some .instant
  | .time, .instant => some .instant
  | _, _ => none

/-- The dimension of a difference. -/
def differenceDimension : Dimension → Dimension → Option Dimension
  | .number, .number => some .number
  | .information, .information => some .information
  | .time, .time => some .time
  | .instant, .instant => some .time
  | .instant, .time => some .instant
  | _, _ => none

/-- Whether a result is the one that an operation has on the amounts of two values, and within
the range where it is an instant. -/
def IsExact (range : InstantRange) (combined : Dimension → Dimension → Option Dimension)
    (operation : ℚ → ℚ → ℚ) (left right result : Value) : Prop :=
  ∃ d a e b f, measure left = some (d, a) ∧ measure right = some (e, b) ∧ combined d e = some f ∧
    measure result = some (f, operation a b) ∧
    ∀ instant, result = .timestamp instant → range.Contains instant

/-- What exact arithmetic promises of two values. -/
structure ExactArithmetic (powi : ℕ → UInt64) (instants : FromNanosecond) (range : InstantRange)
    (left right : Value) : Prop where
  add : ∀ result, left.add powi instants right = .ok result →
    IsExact range sumDimension (· + ·) left right result
  sub : left.sub powi instants right ≠ .panics ∧
    ∀ result, left.sub powi instants right = .returns (.ok result) →
      IsExact range differenceDimension (· - ·) left right result
  compare : ∀ order, left.compareTo powi right = .ok order →
    ∃ d a b, measure left = some (d, a) ∧ measure right = some (d, b) ∧ order = Ord.compare a b

/-! ### What the operations do -/

section Operations

variable {instants : FromNanosecond} {range : InstantRange} {result : Value} {value : ℤ → Value}
  {failure : ErrorValue} {number : ℤ}

theorem checkedValue_eq_ok (h : checkedValue value failure number = .ok result) :
    result = value number := by
  rw [checkedValue] at h
  cases hchecked : checked number with
  | none =>
    rw [hchecked] at h
    cases h
  | some held =>
    rw [hchecked, Option.elim_some, Except.ok.injEq, ← checked_eq_some.1 hchecked] at h
    exact h.symm

theorem checkedBytes_eq_ok (h : checkedBytes failure number = .ok result) :
    ∃ bytes : ℕ, result = .byteSize bytes ∧ (bytes : ℤ) = number := by
  rw [checkedBytes] at h
  split_ifs at h with hrange
  rw [Except.ok.injEq] at h
  exact ⟨_, h.symm, Int.toNat_of_nonneg hrange.1⟩

theorem shift_eq_ok (hinstants : instants.AsDocumented range) {instant span : ℤ}
    (h : shift instants instant span = .ok result) :
    result = .timestamp (instant + span) ∧ range.Contains (instant + span) := by
  rw [shift] at h
  cases hchecked : checked (instant + span) with
  | none =>
    rw [hchecked] at h
    cases h
  | some nanos =>
    have hnanos := checked_eq_some.1 hchecked
    simp only [hchecked] at h
    by_cases hwithin : range.Contains nanos
    · rw [hinstants.within nanos hwithin, Except.ok.injEq] at h
      exact ⟨by rw [← h, hnanos], by rwa [hnanos]⟩
    · rw [hinstants.outside nanos hwithin] at h
      cases h

theorem map_intoValue_eq_ok {outcome : Except ErrorValue Decimal}
    (h : outcome.map intoValue = .ok result) :
    ∃ number, outcome = .ok number ∧ result = number.intoValue := by
  rcases outcome with error | number
  · cases h
  · exact ⟨number, rfl, (Except.ok.inj h).symm⟩

theorem ofParts_mantissa_scale (number : Decimal) :
    ofParts number.mantissa number.scale = number := by
  rw [ofParts, dif_pos ⟨number.mantissa.2, number.scale_le⟩]

theorem toRat_fromInt (number : I128) : (fromInt number).toRat = (number : ℤ) := by
  rw [fromInt, ofParts, dif_pos ⟨number.2, Nat.zero_le _⟩, toRat]
  simp

theorem elim_panics_eq_returns {outcome : ℤ → Except ErrorValue Value}
    (h : (checked number).elim Outcome.panics (fun held => .returns (outcome held)) =
      .returns (.ok result)) : ∃ held : I128, number = held ∧ outcome held = .ok result := by
  cases hchecked : checked number with
  | none =>
    rw [hchecked] at h
    cases h
  | some held =>
    rw [hchecked, Option.elim_some, Outcome.returns.injEq] at h
    exact ⟨held, checked_eq_some.1 hchecked, h⟩

theorem isExact_decimal {combined : Dimension → Dimension → Option Dimension}
    {operation : ℚ → ℚ → ℚ} {left right : Value} {a b : ℚ} {number : Decimal}
    (hleft : measure left = some (.number, a)) (hright : measure right = some (.number, b))
    (hcombined : combined .number .number = some .number)
    (hnumber : number.toRat = operation a b) :
    IsExact range combined operation left right number.intoValue := by
  refine ⟨.number, a, .number, b, .number, hleft, hright, hcombined, ?_, ?_⟩
  · rw [← hnumber]
    rfl
  · intro instant hinstant
    cases hinstant

end Operations

/-! ### Where a sum is formed -/

/-- Whether a value is an integer, a decimal, a byte size or a span, as they are held. -/
def IsAmount : Value → Prop
  | .int number => FitsI128 number
  | .decimal mantissa scale => FitsI128 mantissa ∧ scale ≤ maxScale
  | .byteSize bytes => bytes < 2 ^ 128
  | .duration nanoseconds => FitsI128 nanoseconds
  | _ => False

/-- The scale of a decimal; another value is on the scale of whole numbers. -/
def scaleIn : Value → ℕ
  | .decimal _ scale => scale
  | _ => 0

/-- Whether an amount of a dimension is held on a scale. -/
def IsHeld (dimension : Dimension) (scale : ℕ) (amount : ℚ) : Prop :=
  if dimension = .information then 0 ≤ amount ∧ amount < 2 ^ 128
  else -2 ^ 127 ≤ amount * 10 ^ scale ∧ amount * 10 ^ scale < 2 ^ 127

/-- Whether two amounts and their sum are held on a scale. -/
structure Adds (dimension : Dimension) (scale : ℕ) (x y : ℚ) : Prop where
  left : IsHeld dimension scale x
  right : IsHeld dimension scale y
  sum : IsHeld dimension scale (x + y)

variable {failure : ErrorValue}

section Sums

variable {left right result : Value} {dimension : Dimension} {x y : ℚ} {number other : ℤ}

theorem isHeld_intCast (h : dimension ≠ .information) :
    IsHeld dimension 0 number ↔ FitsI128 number := by
  rw [IsHeld, if_neg h, pow_zero, mul_one, FitsI128]
  norm_cast

theorem isHeld_toRat_left (left right : Decimal) :
    IsHeld .number (max left.scale right.scale) left.toRat ↔
      FitsI128 (left.mantissa * 10 ^ (right.scale - left.scale)) := by
  rw [IsHeld, if_neg (by decide), toRat_left left right,
    div_mul_cancel₀ _ (by positivity), FitsI128]
  norm_cast

theorem isHeld_toRat_right (left right : Decimal) :
    IsHeld .number (max left.scale right.scale) right.toRat ↔
      FitsI128 (right.mantissa * 10 ^ (left.scale - right.scale)) := by
  rw [max_comm]
  exact isHeld_toRat_left right left

theorem isHeld_toRat_add (left right : Decimal) :
    IsHeld .number (max left.scale right.scale) (left.toRat + right.toRat) ↔
      FitsI128 (left.mantissa * 10 ^ (right.scale - left.scale) +
        right.mantissa * 10 ^ (left.scale - right.scale)) := by
  rw [IsHeld, if_neg (by decide), toRat_left left right, toRat_right left right,
    ← add_div, div_mul_cancel₀ _ (by positivity), FitsI128]
  norm_cast

theorem adds_toRat_iff (left right : Decimal) :
    Adds .number (max left.scale right.scale) left.toRat right.toRat ↔
      left.Aligned right ∧ FitsI128 (left.mantissa * 10 ^ (right.scale - left.scale) +
        right.mantissa * 10 ^ (left.scale - right.scale)) := by
  rw [← isHeld_toRat_add, Aligned, ← isHeld_toRat_left, ← isHeld_toRat_right]
  exact ⟨fun h => ⟨⟨h.left, h.right⟩, h.sum⟩, fun h => ⟨h.1.1, h.1.2, h.2⟩⟩

theorem isOk_checkedAdd_iff (left right : Decimal) :
    (left.checkedAdd right).isOk ↔
      Adds .number (max left.scale right.scale) left.toRat right.toRat := by
  rw [adds_toRat_iff, checkedAdd, combine]
  by_cases haligned : left.Aligned right
  · rw [align_of_aligned haligned, and_iff_right haligned]
    by_cases hfits : FitsI128 (left.mantissa * 10 ^ (right.scale - left.scale) +
        right.mantissa * 10 ^ (left.scale - right.scale))
    · refine iff_of_true ?_ hfits
      simp only [bind, Except.bind, checked_of_fits hfits]
      rfl
    · refine iff_of_false ?_ hfits
      simp only [bind, Except.bind, checked_eq_none.2 hfits]
      exact Bool.false_ne_true
  · obtain ⟨error, herror⟩ := Decimal.align_of_not_aligned haligned
    rw [herror]
    exact iff_of_false Bool.false_ne_true fun h => haligned h.1

theorem isOk_checkedValue_iff {value : ℤ → Value} :
    (checkedValue value failure number).isOk ↔ FitsI128 number := by
  rw [checkedValue]
  by_cases hfits : FitsI128 number
  · rw [checked_of_fits hfits]
    exact iff_of_true rfl hfits
  · rw [checked_eq_none.2 hfits]
    exact iff_of_false Bool.false_ne_true hfits

/-- A number as a decimal. -/
def asDecimal : Value → Decimal
  | .int number => .fromInt number
  | .decimal mantissa scale => .ofParts mantissa scale
  | _ => .fromInt 0

theorem measure_asDecimal {value : Value} (h : IsAmount value)
    (hnumber : ∃ x, measure value = some (.number, x)) :
    measure value = some (.number, (asDecimal value).toRat) ∧
      (asDecimal value).scale = scaleIn value := by
  obtain ⟨x, hx⟩ := hnumber
  cases value with
  | int number =>
    have hdecimal : asDecimal (.int number) = ⟨⟨number, h⟩, 0, Nat.zero_le _⟩ :=
      dif_pos ⟨h, Nat.zero_le _⟩
    rw [hdecimal]
    exact ⟨by simp [measure, Decimal.toRat], rfl⟩
  | decimal mantissa scale =>
    have hdecimal : asDecimal (.decimal mantissa scale) = ⟨⟨mantissa, h.1⟩, scale, h.2⟩ :=
      dif_pos h
    rw [hdecimal]
    exact ⟨rfl, rfl⟩
  | _ => cases hx

/-- Whether the amounts of two values have one dimension, and are held with their sum. -/
def AddsUp (left right : Value) : Prop :=
  ∃ dimension x y, measure left = some (dimension, x) ∧ measure right = some (dimension, y) ∧
    Adds dimension (max (scaleIn left) (scaleIn right)) x y

/-- Whether a value is the amount of a sum, on the scale of the two. -/
def IsSum (left right result : Value) : Prop :=
  (IsAmount result ∧ scaleIn result = max (scaleIn left) (scaleIn right)) ∧
    ∃ dimension x y, measure left = some (dimension, x) ∧ measure right = some (dimension, y) ∧
      measure result = some (dimension, x + y)

theorem addsUp_iff (hleft : measure left = some (dimension, x))
    (hright : measure right = some (dimension, y)) :
    AddsUp left right ↔ Adds dimension (max (scaleIn left) (scaleIn right)) x y := by
  constructor
  · rintro ⟨d, a, b, ha, hb, h⟩
    rw [hleft] at ha
    rw [hright] at hb
    cases ha
    cases hb
    exact h
  · exact fun h => ⟨dimension, x, y, hleft, hright, h⟩

theorem not_addsUp {other : Dimension} (hleft : measure left = some (dimension, x))
    (hright : measure right = some (other, y)) (h : dimension ≠ other) : ¬AddsUp left right := by
  rintro ⟨d, a, b, ha, hb, -⟩
  rw [hleft] at ha
  rw [hright] at hb
  cases ha
  cases hb
  exact h rfl

variable {powi : ℕ → UInt64} {instants : FromNanosecond}

/-- Whether two numbers are promoted to decimals. -/
def AsDecimals (powi : ℕ → UInt64) (left right : Value) : Prop :=
  promote powi left right = some (.decimals (asDecimal left) (asDecimal right))

theorem add_of_asDecimals (h : AsDecimals powi left right) :
    left.add powi instants right =
      ((asDecimal left).checkedAdd (asDecimal right)).map intoValue := by
  have hpromote : promote powi left right = some (.decimals _ _) := h
  unfold Value.add
  rw [hpromote]

theorem isOk_add_of_asDecimals (h : AsDecimals powi left right) (hleft : IsAmount left)
    (hright : IsAmount right) (hx : ∃ x, measure left = some (.number, x))
    (hy : ∃ y, measure right = some (.number, y)) :
    (left.add powi instants right).isOk ↔ AddsUp left right := by
  rw [add_of_asDecimals h]
  obtain ⟨hmeasure, hscale⟩ := measure_asDecimal hleft hx
  obtain ⟨hmeasure', hscale'⟩ := measure_asDecimal hright hy
  rw [addsUp_iff hmeasure hmeasure', ← hscale, ← hscale', ← isOk_checkedAdd_iff]
  cases (asDecimal left).checkedAdd (asDecimal right) <;> rfl

theorem isSum_of_asDecimals (hdecimals : AsDecimals powi left right) (hleft : IsAmount left)
    (hright : IsAmount right) (hx : ∃ x, measure left = some (.number, x))
    (hy : ∃ y, measure right = some (.number, y))
    (h : left.add powi instants right = .ok result) : IsSum left right result := by
  rw [add_of_asDecimals hdecimals] at h
  obtain ⟨hmeasure, hscale⟩ := measure_asDecimal hleft hx
  obtain ⟨hmeasure', hscale'⟩ := measure_asDecimal hright hy
  obtain ⟨number, hnumber, rfl⟩ := map_intoValue_eq_ok h
  refine ⟨⟨⟨number.mantissa.2, number.scale_le⟩, ?_⟩, .number, _, _, hmeasure, hmeasure', ?_⟩
  · rw [← hscale, ← hscale']
    exact (Decimal.combine_eq_ok hnumber).2
  · rw [← Decimal.toRat_checkedAdd hnumber]
    rfl

theorem adds_intCast_iff (hdimension : dimension ≠ .information) (hleft : FitsI128 number)
    (hright : FitsI128 other) : Adds dimension 0 number other ↔ FitsI128 (number + other) := by
  have hcast : ((number : ℚ) + other) = ((number + other : ℤ) : ℚ) := by push_cast; rfl
  rw [← isHeld_intCast hdimension, ← hcast]
  exact ⟨Adds.sum, fun h => ⟨(isHeld_intCast hdimension).2 hleft,
    (isHeld_intCast hdimension).2 hright, h⟩⟩

theorem adds_natCast_iff {bytes more : ℕ} (hleft : bytes < 2 ^ 128) (hright : more < 2 ^ 128) :
    Adds .information 0 bytes more ↔ (0 : ℤ) ≤ bytes + more ∧ (bytes + more : ℤ) < 2 ^ 128 := by
  have hheld (n : ℕ) : IsHeld .information 0 n ↔ n < 2 ^ 128 := by
    rw [IsHeld, if_pos rfl, and_iff_right (by positivity)]
    norm_cast
  have hsum : IsHeld .information 0 ((bytes : ℚ) + more) ↔ bytes + more < 2 ^ 128 := by
    rw [← hheld]
    push_cast
    rfl
  constructor
  · intro h
    have hbound := hsum.1 h.sum
    omega
  · intro h
    exact ⟨(hheld _).2 hleft, (hheld _).2 hright, hsum.2 (by omega)⟩

/-- **Where a sum is formed.** Two amounts are added exactly where they are of one dimension and
are held with their sum. -/
theorem isOk_add_iff (hleft : IsAmount left) (hright : IsAmount right) :
    (left.add powi instants right).isOk ↔ AddsUp left right := by
  cases left <;> try exact hleft.elim
  all_goals cases right <;> try exact hright.elim
  case int.int a b =>
    rw [addsUp_iff rfl rfl]
    exact isOk_checkedValue_iff.trans (adds_intCast_iff (by decide) hleft hright).symm
  case int.decimal => exact isOk_add_of_asDecimals rfl hleft hright ⟨_, rfl⟩ ⟨_, rfl⟩
  case decimal.int => exact isOk_add_of_asDecimals rfl hleft hright ⟨_, rfl⟩ ⟨_, rfl⟩
  case decimal.decimal => exact isOk_add_of_asDecimals rfl hleft hright ⟨_, rfl⟩ ⟨_, rfl⟩
  case duration.duration a b =>
    rw [addsUp_iff rfl rfl]
    exact isOk_checkedValue_iff.trans (adds_intCast_iff (by decide) hleft hright).symm
  case byteSize.byteSize a b =>
    rw [addsUp_iff rfl rfl]
    refine Iff.trans ?_ (adds_natCast_iff hleft hright).symm
    show (checkedBytes _ _).isOk ↔ _
    rw [checkedBytes]
    split_ifs with h
    · exact iff_of_true rfl h
    · exact iff_of_false Bool.false_ne_true h
  -- amounts of dimensions that do not meet have no sum
  all_goals exact iff_of_false Bool.false_ne_true (not_addsUp rfl rfl (by decide))

/-- A sum of amounts is the amount of the sum. -/
theorem isSum_of_add (hleft : IsAmount left) (hright : IsAmount right)
    (h : left.add powi instants right = .ok result) : IsSum left right result := by
  cases left <;> try exact hleft.elim
  all_goals cases right <;> try exact hright.elim
  case int.int a b =>
    obtain rfl := checkedValue_eq_ok h
    have hok : (Value.add powi instants (.int a) (.int b)).isOk := by rw [h]; rfl
    exact ⟨⟨isOk_checkedValue_iff.1 hok, rfl⟩, _, _, _, rfl, rfl, by simp [measure]⟩
  case int.decimal => exact isSum_of_asDecimals rfl hleft hright ⟨_, rfl⟩ ⟨_, rfl⟩ h
  case decimal.int => exact isSum_of_asDecimals rfl hleft hright ⟨_, rfl⟩ ⟨_, rfl⟩ h
  case decimal.decimal => exact isSum_of_asDecimals rfl hleft hright ⟨_, rfl⟩ ⟨_, rfl⟩ h
  case duration.duration a b =>
    obtain rfl := checkedValue_eq_ok h
    have hok : (Value.add powi instants (.duration a) (.duration b)).isOk := by rw [h]; rfl
    exact ⟨⟨isOk_checkedValue_iff.1 hok, rfl⟩, _, _, _, rfl, rfl, by simp [measure]⟩
  case byteSize.byteSize a b =>
    have hok : (Value.add powi instants (.byteSize a) (.byteSize b)).isOk := by rw [h]; rfl
    have hadds := (addsUp_iff rfl rfl).1 ((isOk_add_iff hleft hright).1 hok)
    obtain ⟨bytes, rfl, hbytes⟩ := checkedBytes_eq_ok h
    have hcast : (bytes : ℚ) = a + b := by exact_mod_cast hbytes
    refine ⟨⟨?_, rfl⟩, _, _, _, rfl, rfl, by rw [measure, hcast]⟩
    have hbound := ((adds_natCast_iff hleft hright).1 hadds).2
    show bytes < 2 ^ 128
    omega
  all_goals cases h

end Sums

namespace Quantity

variable {powi : ℕ → UInt64} {instants : FromNanosecond} {range : InstantRange}
  {left right : Quantity range} {result : Value}

/-! ### Sums, differences and orders are exact -/

theorem add_exact (hinstants : instants.AsDocumented range)
    (h : left.toValue.add powi instants right.toValue = .ok result) :
    IsExact range sumDimension (· + ·) left.toValue right.toValue result := by
  rcases left with a | a | a | a | a <;> rcases right with b | b | b | b | b
  -- values of dimensions that do not meet have no sum
  all_goals try
    simp only [toValue, Value.add, promote, intoValue, reduceCtorEq] at h
    done
  · obtain rfl := checkedValue_eq_ok h
    exact ⟨_, _, _, _, _, rfl, rfl, rfl, by simp [measure], nofun⟩
  · obtain ⟨number, hnumber, rfl⟩ := map_intoValue_eq_ok h
    refine isExact_decimal rfl rfl rfl ?_
    rw [toRat_checkedAdd hnumber, toRat_fromInt, ofParts_mantissa_scale]
    rfl
  · obtain ⟨number, hnumber, rfl⟩ := map_intoValue_eq_ok h
    refine isExact_decimal rfl rfl rfl ?_
    rw [toRat_checkedAdd hnumber, toRat_fromInt, ofParts_mantissa_scale]
    rfl
  · obtain ⟨number, hnumber, rfl⟩ := map_intoValue_eq_ok h
    refine isExact_decimal rfl rfl rfl ?_
    rw [toRat_checkedAdd hnumber, ofParts_mantissa_scale, ofParts_mantissa_scale]
    rfl
  · obtain ⟨bytes, rfl, hbytes⟩ := checkedBytes_eq_ok h
    refine ⟨_, _, _, _, _, rfl, rfl, rfl, ?_, nofun⟩
    have hcast : (bytes : ℚ) = a.bytes + b.bytes := by exact_mod_cast hbytes
    rw [measure, hcast]
  · obtain rfl := checkedValue_eq_ok h
    exact ⟨_, _, _, _, _, rfl, rfl, rfl, by simp [measure], nofun⟩
  · obtain ⟨rfl, hwithin⟩ := shift_eq_ok hinstants h
    refine ⟨_, _, _, _, _, rfl, rfl, rfl, by simp [measure, add_comm], ?_⟩
    rintro instant ⟨⟩
    exact hwithin
  · obtain ⟨rfl, hwithin⟩ := shift_eq_ok hinstants h
    refine ⟨_, _, _, _, _, rfl, rfl, rfl, by simp [measure], ?_⟩
    rintro instant ⟨⟩
    exact hwithin

theorem sub_exact (hinstants : instants.AsDocumented range)
    (h : left.toValue.sub powi instants right.toValue = .returns (.ok result)) :
    IsExact range differenceDimension (· - ·) left.toValue right.toValue result := by
  rcases left with a | a | a | a | a <;> rcases right with b | b | b | b | b
  -- values of dimensions that do not meet have no difference
  all_goals try
    simp only [toValue, Value.sub, promote, intoValue, Outcome.returns.injEq,
      reduceCtorEq] at h
    done
  · obtain rfl := checkedValue_eq_ok (Outcome.returns.inj h)
    exact ⟨_, _, _, _, _, rfl, rfl, rfl, by simp [measure], nofun⟩
  · obtain ⟨number, hnumber, rfl⟩ := map_intoValue_eq_ok (Outcome.returns.inj h)
    refine isExact_decimal rfl rfl rfl ?_
    rw [toRat_checkedSub hnumber, toRat_fromInt, ofParts_mantissa_scale]
    rfl
  · obtain ⟨number, hnumber, rfl⟩ := map_intoValue_eq_ok (Outcome.returns.inj h)
    refine isExact_decimal rfl rfl rfl ?_
    rw [toRat_checkedSub hnumber, toRat_fromInt, ofParts_mantissa_scale]
    rfl
  · obtain ⟨number, hnumber, rfl⟩ := map_intoValue_eq_ok (Outcome.returns.inj h)
    refine isExact_decimal rfl rfl rfl ?_
    rw [toRat_checkedSub hnumber, ofParts_mantissa_scale, ofParts_mantissa_scale]
    rfl
  · obtain ⟨bytes, rfl, hbytes⟩ := checkedBytes_eq_ok (Outcome.returns.inj h)
    refine ⟨_, _, _, _, _, rfl, rfl, rfl, ?_, nofun⟩
    have hcast : (bytes : ℚ) = a.bytes - b.bytes := by exact_mod_cast hbytes
    rw [measure, hcast]
  · obtain rfl := checkedValue_eq_ok (Outcome.returns.inj h)
    exact ⟨_, _, _, _, _, rfl, rfl, rfl, by simp [measure], nofun⟩
  · obtain ⟨back, hback, hresult⟩ := elim_panics_eq_returns h
    obtain ⟨rfl, hwithin⟩ := shift_eq_ok hinstants hresult
    refine ⟨_, _, _, _, _, rfl, rfl, rfl, ?_, ?_⟩
    · rw [measure, ← hback]
      push_cast
      rw [← sub_eq_add_neg]
    · rintro instant ⟨⟩
      exact hwithin
  · have hspans : (checked ((a : ℤ) - b)).elim Outcome.panics
        (fun span => .returns (.ok (.duration span))) = .returns (.ok result) := h
    obtain ⟨span, hspan, hresult⟩ :=
      @elim_panics_eq_returns _ _ (fun span => .ok (.duration span)) hspans
    obtain rfl := Except.ok.inj hresult
    refine ⟨_, _, _, _, _, rfl, rfl, rfl, ?_, nofun⟩
    rw [measure, ← hspan]
    push_cast
    rfl

/-- Whether an instant is moved back by the least span. -/
def MovesBackByLeast (left right : Quantity range) : Prop :=
  ∃ instant span, left = timestamp instant ∧ right = duration span ∧
    (span.nanoseconds : ℤ) = -2 ^ 127

theorem fits_neg_iff (number : I128) : FitsI128 (-number) ↔ (number : ℤ) ≠ -2 ^ 127 := by
  have hfits := number.2
  unfold FitsI128 at hfits ⊢
  omega

theorem fits_span (a b : {instant : ℤ // range.Contains instant}) : FitsI128 (a - b) := by
  obtain ⟨⟨a, ha⟩, ⟨b, hb⟩⟩ := a, b
  have hfits := range.fits
  unfold InstantRange.Contains at ha hb
  unfold FitsI128 at hfits ⊢
  simp only
  omega

theorem sub_eq_panics_iff :
    left.toValue.sub powi instants right.toValue = .panics ↔ left.MovesBackByLeast right := by
  rcases left with a | a | a | a | a <;> rcases right with b | b | b | b | b
  all_goals try
    simp only [toValue, Value.sub, promote, intoValue, reduceCtorEq, MovesBackByLeast,
      false_and, and_false, exists_false]
    done
  · have hiff := fits_neg_iff b.nanoseconds
    by_cases hleast : (b.nanoseconds : ℤ) = -2 ^ 127
    · have hout : ¬FitsI128 (-(b.nanoseconds : ℤ)) := fun hfits => hiff.1 hfits hleast
      simp only [toValue, Value.sub, promote, checked_eq_none.2 hout, Option.elim_none, true_iff]
      exact ⟨a, b, rfl, rfl, hleast⟩
    · simp only [toValue, Value.sub, promote, checked_of_fits (hiff.2 hleast), Option.elim_some,
        reduceCtorEq, false_iff]
      rintro ⟨instant, span, -, hspan, hnanoseconds⟩
      cases hspan
      exact hleast hnanoseconds
  · simp only [toValue, Value.sub, promote, checked_of_fits (fits_span a b), Option.elim_some,
      reduceCtorEq, false_iff]
    rintro ⟨instant, span, -, hspan, -⟩
    cases hspan

/-- Whether the decimals that two values are compared as fit on a common scale, or are in their
order as floating-point numbers where those have one. -/
def DecimalsOrdered (powi : ℕ → UInt64) (left right : Value) : Prop :=
  ∀ a b, promote powi left right = some (.decimals a b) → a.Aligned b ∨
    ∀ order, Binary64.partialCmp (a.toF64 powi) (b.toF64 powi) = some order → order = a.lopsided b

theorem partialCmp_exact_iff {a b : Decimal} :
    (∀ order, a.partialCmp powi b = some order → order = compare a.toRat b.toRat) ↔
      (a.Aligned b ∨ ∀ order, Binary64.partialCmp (a.toF64 powi) (b.toF64 powi) = some order →
        order = a.lopsided b) := by
  by_cases h : a.Aligned b
  · refine iff_of_true (fun order horder => ?_) (Or.inl h)
    rw [partialCmp_of_aligned powi h, Option.some.injEq] at horder
    exact horder.symm
  · rw [partialCmp_of_not_aligned powi h, lopsided_eq h, or_iff_right h]

theorem compareTo_eq_compareScalars :
    left.toValue.compareTo powi right.toValue =
      Value.compareScalars powi left.toValue right.toValue := by
  cases left <;> cases right <;> rfl

theorem elim_eq_ok {found : Option Ordering} {order : Ordering} :
    found.elim (.error failure) Except.ok = .ok order ↔ found = some order := by
  cases found <;> simp

theorem compare_exact_of_amounts {l r : Value} {d : Dimension} {x y : ℚ}
    (hcompare : Value.compareScalars powi l r = .ok (compare x y))
    (hleft : measure l = some (d, x)) (hright : measure r = some (d, y))
    (hpromote : ∀ a b, promote powi l r ≠ some (.decimals a b)) :
    (∀ order, Value.compareScalars powi l r = .ok order →
      ∃ d a b, measure l = some (d, a) ∧ measure r = some (d, b) ∧ order = compare a b) ↔
        DecimalsOrdered powi l r := by
  refine iff_of_true (fun order horder => ?_) fun a b h => absurd h (hpromote a b)
  rw [hcompare, Except.ok.injEq] at horder
  exact ⟨d, x, y, hleft, hright, horder.symm⟩

/-- Values that are compared as decimals are in the order of their amounts where those are. -/
theorem compare_exact_of_decimal {l r : Value} {a b : Decimal}
    (hcompare : Value.compareScalars powi l r = (a.partialCmp powi b).elim (.error failure) .ok)
    (hleft : measure l = some (.number, a.toRat)) (hright : measure r = some (.number, b.toRat))
    (hpromote : promote powi l r = some (.decimals a b)) :
    (∀ order, Value.compareScalars powi l r = .ok order →
      ∃ d a b, measure l = some (d, a) ∧ measure r = some (d, b) ∧ order = compare a b) ↔
        DecimalsOrdered powi l r := by
  have hordered : DecimalsOrdered powi l r ↔
      ∀ order, a.partialCmp powi b = some order → order = compare a.toRat b.toRat := by
    rw [partialCmp_exact_iff, DecimalsOrdered, hpromote]
    constructor
    · intro h
      exact h a b rfl
    · rintro h _ _ ⟨⟩
      exact h
  rw [hordered, hcompare]
  refine forall_congr' fun order => ?_
  rw [elim_eq_ok, hleft, hright]
  refine imp_congr_right fun _ => ⟨?_, fun h => ⟨_, _, _, rfl, rfl, h⟩⟩
  rintro ⟨d, x, y, hx, hy, h⟩
  cases hx
  cases hy
  exact h

theorem compare_exact_iff :
    (∀ order, left.toValue.compareTo powi right.toValue = .ok order →
      ∃ d a b, measure left.toValue = some (d, a) ∧ measure right.toValue = some (d, b) ∧
        order = compare a b) ↔ DecimalsOrdered powi left.toValue right.toValue := by
  rw [compareTo_eq_compareScalars]
  rcases left with a | a | a | a | a <;> rcases right with b | b | b | b | b
  -- values of dimensions that do not meet have no order
  all_goals try
    simp only [toValue, Value.compareScalars, promote, intoValue, reduceCtorEq,
      DecimalsOrdered, false_implies, implies_true]
    done
  · refine compare_exact_of_amounts ?_ rfl rfl (by rintro _ _ ⟨⟩)
    rw [compare_intCast]
    rfl
  · refine compare_exact_of_decimal (a := .fromInt a) (b := .ofParts b.mantissa b.scale)
      rfl ?_ ?_ rfl
    · rw [toRat_fromInt]
      rfl
    · rw [ofParts_mantissa_scale]
      rfl
  · refine compare_exact_of_decimal (a := .ofParts a.mantissa a.scale) (b := .fromInt b)
      rfl ?_ ?_ rfl
    · rw [ofParts_mantissa_scale]
      rfl
    · rw [toRat_fromInt]
      rfl
  · refine compare_exact_of_decimal (a := .ofParts a.mantissa a.scale)
      (b := .ofParts b.mantissa b.scale) rfl ?_ ?_ rfl
    · rw [ofParts_mantissa_scale]
      rfl
    · rw [ofParts_mantissa_scale]
      rfl
  · refine compare_exact_of_amounts ?_ rfl rfl (by rintro _ _ ⟨⟩)
    rw [compare_natCast]
    rfl
  · refine compare_exact_of_amounts ?_ rfl rfl (by rintro _ _ ⟨⟩)
    rw [compare_intCast]
    rfl
  · refine compare_exact_of_amounts ?_ rfl rfl (by rintro _ _ ⟨⟩)
    rw [compare_intCast]
    rfl

/-! ### Exact arithmetic -/

/-- **Arithmetic on exact types is exact but for two defects.** A sum, a difference and an order
of two quantities are those of their amounts or a failure, and no operation leaves the range of
its integers unchecked, exactly where no instant is moved back by the least span and the decimals
that are compared fit on a common scale or are in their order as floating-point numbers. -/
theorem exactArithmetic_iff (powi : ℕ → UInt64) (range : InstantRange) (instants : FromNanosecond)
    (hinstants : instants.AsDocumented range) (left right : Quantity range) :
    ExactArithmetic powi instants range left.toValue right.toValue ↔
      ¬left.MovesBackByLeast right ∧ DecimalsOrdered powi left.toValue right.toValue := by
  rw [← @sub_eq_panics_iff powi instants, ← compare_exact_iff]
  constructor
  · intro h
    exact ⟨h.sub.1, h.compare⟩
  · rintro ⟨hsub, hcompare⟩
    exact ⟨fun _ => add_exact hinstants, ⟨hsub, fun _ => sub_exact hinstants⟩, hcompare⟩

/-- The instants of the years from -9999 to 9999. -/
def years : InstantRange where
  least := -377705023201000000000
  greatest := 253402207200999999999
  fits := by decide

/-- The conversion that refuses what lies outside these years. -/
def withinYears : FromNanosecond := fun nanos =>
  if years.Contains nanos then some ↑nanos else none

theorem asDocumented_years : withinYears.AsDocumented years :=
  ⟨fun _ hwithin => if_pos hwithin, fun _ houtside => if_neg houtside⟩

theorem contains_hour : years.Contains 3600000000000 := by decide

theorem fitsI128_hours : FitsI128 7200000000000 := by decide

/-- An hour after the start of the epoch, taken back by two. -/
theorem exactArithmetic_iff_hours :
    ExactArithmetic (fun _ => 0) withinYears years (.timestamp 3600000000000)
        (.duration 7200000000000) ↔
      ¬@MovesBackByLeast years (.timestamp ⟨_, contains_hour⟩) (.duration ⟨⟨_, fitsI128_hours⟩⟩) ∧
        DecimalsOrdered (fun _ => 0) (.timestamp 3600000000000) (.duration 7200000000000) :=
  exactArithmetic_iff (fun _ => 0) years withinYears asDocumented_years
    (.timestamp ⟨_, contains_hour⟩) (.duration ⟨⟨_, fitsI128_hours⟩⟩)

theorem not_exactArithmetic : ¬∀ (powi : ℕ → UInt64) (range : InstantRange)
    (instants : FromNanosecond), instants.AsDocumented range → ∀ left right : Quantity range,
    ExactArithmetic powi instants range left.toValue right.toValue := by
  intro h
  have hsub := (h (fun _ => 0) years withinYears asDocumented_years (.timestamp ⟨0, by decide⟩)
    (.duration ⟨⟨-2 ^ 127, by decide⟩⟩)).sub.1
  exact hsub (sub_eq_panics_iff.2 ⟨_, _, rfl, rfl, rfl⟩)

end Quantity

end OnoSendai
