import Mathlib.Data.Rat.Floor
import Mathlib.Tactic.LinearCombination
import OnoSendai.Lib.Binary64
import OnoSendai.Value.Int128

/-!
# Exact decimal numbers

Fixed-point decimals (`ono_value::decimal`): an integer of 128 bits over a power of ten. Two
decimals are brought onto the larger scale of the two to be compared or combined. Where that does
not fit 128 bits a combination fails, and a comparison falls back on binary floating-point
numbers.
-/

namespace OnoSendai

open Binary64 Int

/-! ### Decimals -/

/-- The largest power of ten that fits 128 bits. -/
def maxScale : ℕ :=
  38

/-- An exact decimal number: a mantissa over a power of ten. -/
structure Decimal where
  mantissa : I128
  scale : ℕ
  scale_le : scale ≤ maxScale

namespace Decimal

/-- The rational number a decimal stands for. -/
def toRat (number : Decimal) : ℚ :=
  (number.mantissa : ℤ) / 10 ^ number.scale

/-- The failure of a result that does not fit. -/
def overflow : ErrorValue where
  code := .other "type.invalid_unit"
  message := "the exact decimal result does not fit in 128 bits"

/-- The failure of a division by zero. -/
def divisionByZero : ErrorValue where
  code := .other "type.mismatch"
  message := "division by zero"

/-- A checked result, or the failure of one that does not fit. -/
def orOverflow (result : Option I128) : Except ErrorValue I128 :=
  result.elim (.error overflow) .ok

/-- A power of ten. -/
def pow10 (exponent : ℕ) : Option I128 :=
  checked (10 ^ exponent)

/-- A mantissa in units `exponent` powers of ten smaller. -/
def raised (mantissa : I128) (exponent : ℕ) : Except ErrorValue I128 := do
  let power ← orOverflow (pow10 exponent)
  orOverflow (checked (mantissa * power))

/-- Two decimals on a common scale: both mantissas, and the scale. -/
def align (left right : Decimal) : Except ErrorValue (I128 × I128 × {n : ℕ // n ≤ maxScale}) := do
  let leftMantissa ← raised left.mantissa (max left.scale right.scale - left.scale)
  let rightMantissa ← raised right.mantissa (max left.scale right.scale - right.scale)
  return (leftMantissa, rightMantissa, ⟨max left.scale right.scale,
    max_le left.scale_le right.scale_le⟩)

/-! ### Arithmetic -/

/-- Combines the mantissas of two decimals on a common scale. -/
def combine (operation : ℤ → ℤ → ℤ) (left right : Decimal) : Except ErrorValue Decimal := do
  let aligned ← align left right
  let mantissa ← orOverflow (checked (operation aligned.1 aligned.2.1))
  return ⟨mantissa, aligned.2.2, aligned.2.2.2⟩

/-- The sum. -/
def checkedAdd (left right : Decimal) : Except ErrorValue Decimal :=
  combine (· + ·) left right

/-- The difference. -/
def checkedSub (left right : Decimal) : Except ErrorValue Decimal :=
  combine (· - ·) left right

/-- The product. -/
def checkedMul (left right : Decimal) : Except ErrorValue Decimal :=
  if h : left.scale + right.scale ≤ maxScale then
    (orOverflow (checked (left.mantissa * right.mantissa))).map fun mantissa =>
      ⟨mantissa, left.scale + right.scale, h⟩
  else .error overflow

/-- The scale of a quotient. -/
def quotientScale (left right : Decimal) : ℕ :=
  max (max left.scale right.scale) 10

theorem quotientScale_le (left right : Decimal) : quotientScale left right ≤ maxScale :=
  max_le (max_le left.scale_le right.scale_le) (by decide)

/-- The power of ten that brings a dividend onto the scale of the quotient. -/
def quotientShift (left right : Decimal) : ℕ :=
  quotientScale left right + right.scale - left.scale

/-- The quotient, truncated toward zero. The division of the mantissas is a raw one. -/
def checkedDiv (left right : Decimal) : Outcome Decimal :=
  if (right.mantissa : ℤ) = 0 then .returns (.error divisionByZero)
  else if maxScale < quotientShift left right then .returns (.error overflow)
  else
    match raised left.mantissa (quotientShift left right) with
    | .error error => .returns (.error error)
    | .ok numerator =>
      match checked ((numerator : ℤ).tdiv right.mantissa) with
      | some mantissa =>
        .returns (.ok ⟨mantissa, quotientScale left right, quotientScale_le left right⟩)
      | none => .panics

/-! ### Comparison -/

/-- The floating-point number of a decimal, over the powers of ten that the platform computes. -/
def toF64 (powi : ℕ → UInt64) (number : Decimal) : UInt64 :=
  div (ofInt number.mantissa) (powi number.scale)

/-- The order of two decimals. -/
def partialCmp (powi : ℕ → UInt64) (left right : Decimal) : Option Ordering :=
  match align left right with
  | .ok aligned => some (compare (aligned.1 : ℤ) aligned.2.1)
  | .error _ => Binary64.partialCmp (toF64 powi left) (toF64 powi right)

/-- Whether two decimals are equal. -/
def eq (powi : ℕ → UInt64) (left right : Decimal) : Bool :=
  partialCmp powi left right == some .eq

/-! ### What alignment does -/

/-- Whether both mantissas fit on the larger scale of the two. -/
def Aligned (left right : Decimal) : Prop :=
  FitsI128 (left.mantissa * 10 ^ (right.scale - left.scale)) ∧
    FitsI128 (right.mantissa * 10 ^ (left.scale - right.scale))

instance (left right : Decimal) : Decidable (Aligned left right) :=
  inferInstanceAs (Decidable (_ ∧ _))

section Align

variable {left right : Decimal} {exponent : ℕ} {mantissa result : I128}

theorem raised_eq_ok (h : exponent ≤ maxScale) :
    raised mantissa exponent = .ok result ↔ (mantissa : ℤ) * 10 ^ exponent = result := by
  have hpower : FitsI128 (10 ^ exponent) :=
    ⟨(by decide : (-2 ^ 127 : ℤ) ≤ 0).trans (pow_nonneg (by norm_num) _),
      (pow_le_pow_right₀ (by norm_num) h).trans_lt (by decide +kernel)⟩
  rw [raised, pow10, checked_of_fits hpower, ← checked_eq_some]
  show orOverflow (checked (mantissa * 10 ^ exponent)) = .ok result ↔ _
  cases checked ((mantissa : ℤ) * 10 ^ exponent) <;> simp [orOverflow]

theorem raised_of_fits (h : exponent ≤ maxScale) (hfits : FitsI128 (mantissa * 10 ^ exponent)) :
    raised mantissa exponent = .ok ⟨mantissa * 10 ^ exponent, hfits⟩ :=
  (raised_eq_ok h).2 rfl

theorem raised_of_not_fits (h : exponent ≤ maxScale)
    (hfits : ¬FitsI128 (mantissa * 10 ^ exponent)) :
    ∃ error, raised mantissa exponent = .error error := by
  rcases hraised : raised mantissa exponent with error | result
  · exact ⟨error, rfl⟩
  · rw [raised_eq_ok h] at hraised
    exact absurd (hraised ▸ result.2) hfits

theorem align_of_aligned (h : Aligned left right) :
    align left right = .ok (⟨_, h.1⟩, ⟨_, h.2⟩,
      ⟨max left.scale right.scale, max_le left.scale_le right.scale_le⟩) := by
  have hleft : max left.scale right.scale - left.scale = right.scale - left.scale := by omega
  have hright : max left.scale right.scale - right.scale = left.scale - right.scale := by omega
  rw [align, hleft, hright, raised_of_fits ((Nat.sub_le _ _).trans right.scale_le) h.1,
    raised_of_fits ((Nat.sub_le _ _).trans left.scale_le) h.2]
  rfl

theorem align_of_not_aligned (h : ¬Aligned left right) :
    ∃ error, align left right = .error error := by
  have hleft : max left.scale right.scale - left.scale = right.scale - left.scale := by omega
  have hright : max left.scale right.scale - right.scale = left.scale - right.scale := by omega
  rw [align, hleft, hright]
  by_cases hone : FitsI128 (left.mantissa * 10 ^ (right.scale - left.scale))
  · obtain ⟨error, herror⟩ := raised_of_not_fits ((Nat.sub_le _ _).trans left.scale_le)
      fun hother => h ⟨hone, hother⟩
    rw [raised_of_fits ((Nat.sub_le _ _).trans right.scale_le) hone, herror]
    exact ⟨error, rfl⟩
  · obtain ⟨error, herror⟩ := raised_of_not_fits ((Nat.sub_le _ _).trans right.scale_le) hone
    rw [herror]
    exact ⟨error, rfl⟩

theorem toRat_eq (number : Decimal) (extra : ℕ) :
    number.toRat = ((number.mantissa * 10 ^ extra : ℤ) : ℚ) / 10 ^ (number.scale + extra) := by
  rw [toRat, pow_add]
  push_cast
  field_simp

theorem toRat_left (left right : Decimal) :
    left.toRat = ((left.mantissa * 10 ^ (right.scale - left.scale) : ℤ) : ℚ) /
      10 ^ max left.scale right.scale := by
  rw [left.toRat_eq (right.scale - left.scale)]
  congr 2
  omega

theorem toRat_right (left right : Decimal) :
    right.toRat = ((right.mantissa * 10 ^ (left.scale - right.scale) : ℤ) : ℚ) /
      10 ^ max left.scale right.scale := by
  rw [max_comm]
  exact toRat_left right left

end Align

/-! ### What comparison does -/

/-- Two decimals are in the order of their mantissas on a common scale. -/
theorem compare_toRat (left right : Decimal) :
    compare left.toRat right.toRat =
      compare ((left.mantissa : ℤ) * 10 ^ (right.scale - left.scale))
        (right.mantissa * 10 ^ (left.scale - right.scale)) := by
  rw [toRat_left left right, toRat_right left right]
  have hpos : (0 : ℚ) < 10 ^ max left.scale right.scale := by positivity
  generalize (left.mantissa : ℤ) * 10 ^ (right.scale - left.scale) = one
  generalize (right.mantissa : ℤ) * 10 ^ (left.scale - right.scale) = other
  rcases lt_trichotomy one other with h | rfl | h
  · rw [compare_lt_iff_lt.2 h, compare_lt_iff_lt]
    exact div_lt_div_of_pos_right (by exact_mod_cast h) hpos
  · rw [compare_eq_iff_eq.2 rfl]
    exact (compare_eq_iff_eq.2 rfl).symm
  · rw [compare_gt_iff_gt.2 h, compare_gt_iff_gt]
    exact div_lt_div_of_pos_right (by exact_mod_cast h) hpos

variable {left right : Decimal}

theorem partialCmp_of_aligned (powi : ℕ → UInt64) (h : Aligned left right) :
    partialCmp powi left right = some (compare left.toRat right.toRat) := by
  simp only [partialCmp, align_of_aligned h, compare_toRat]

theorem partialCmp_of_not_aligned (powi : ℕ → UInt64) (h : ¬Aligned left right) :
    partialCmp powi left right = Binary64.partialCmp (toF64 powi left) (toF64 powi right) := by
  obtain ⟨error, herror⟩ := align_of_not_aligned h
  simp only [partialCmp, herror]

/-- The order of two decimals of which one leaves the range on the scale of the other: the sign
of the one that does decides. -/
def lopsided (left right : Decimal) : Ordering :=
  if left.scale < right.scale then
    if 0 < (left.mantissa : ℤ) then .gt else .lt
  else
    if 0 < (right.mantissa : ℤ) then .lt else .gt

theorem lopsided_eq (h : ¬Aligned left right) :
    lopsided left right = compare left.toRat right.toRat := by
  have hone := left.mantissa.2
  have hother := right.mantissa.2
  rw [Aligned] at h
  rw [compare_toRat, lopsided]
  by_cases hscale : left.scale < right.scale
  · have hzero : left.scale - right.scale = 0 := by omega
    rw [hzero, pow_zero, mul_one] at h ⊢
    rw [if_pos hscale]
    have hpower : (0 : ℤ) < 10 ^ (right.scale - left.scale) := by positivity
    have hout : ¬FitsI128 (left.mantissa * 10 ^ (right.scale - left.scale)) :=
      fun hfits => h ⟨hfits, hother⟩
    unfold FitsI128 at hout hother
    split_ifs with hsign
    · have hpositive := mul_pos hsign hpower
      exact (compare_gt_iff_gt.2 (by omega)).symm
    · have hnegative := mul_nonpos_of_nonpos_of_nonneg (not_lt.1 hsign) hpower.le
      exact (compare_lt_iff_lt.2 (by omega)).symm
  · have hzero : right.scale - left.scale = 0 := by omega
    rw [hzero, pow_zero, mul_one] at h ⊢
    rw [if_neg hscale]
    have hpower : (0 : ℤ) < 10 ^ (left.scale - right.scale) := by positivity
    have hout : ¬FitsI128 (right.mantissa * 10 ^ (left.scale - right.scale)) :=
      fun hfits => h ⟨hone, hfits⟩
    unfold FitsI128 at hout hone
    split_ifs with hsign
    · have hpositive := mul_pos hsign hpower
      exact (compare_lt_iff_lt.2 (by omega)).symm
    · have hnegative := mul_nonpos_of_nonpos_of_nonneg (not_lt.1 hsign) hpower.le
      exact (compare_gt_iff_gt.2 (by omega)).symm

/-- Whether a comparison that falls back on floating-point numbers tells the decimals apart. -/
def ToldApart (powi : ℕ → UInt64) (left right : Decimal) : Prop :=
  Binary64.partialCmp (toF64 powi left) (toF64 powi right) = some (lopsided left right)

/-- Comparison is exact where the mantissas fit on a common scale, or where the floating-point
numbers tell them apart. -/
theorem partialCmp_eq_iff (powi : ℕ → UInt64) (left right : Decimal) :
    partialCmp powi left right = some (compare left.toRat right.toRat) ↔
      Aligned left right ∨ ToldApart powi left right := by
  by_cases h : Aligned left right
  · exact iff_of_true (partialCmp_of_aligned powi h) (Or.inl h)
  · rw [partialCmp_of_not_aligned powi h, ToldApart, lopsided_eq h, or_iff_right h]

theorem partialCmp_swap (powi : ℕ → UInt64) (left right : Decimal) :
    partialCmp powi right left = (partialCmp powi left right).map Ordering.swap := by
  have haligned : Aligned right left ↔ Aligned left right := and_comm
  by_cases h : Aligned left right
  · rw [partialCmp_of_aligned powi h, partialCmp_of_aligned powi (haligned.2 h), Option.map_some,
      Std.OrientedOrd.eq_swap]
  · rw [partialCmp_of_not_aligned powi h, partialCmp_of_not_aligned powi (mt haligned.1 h),
      Binary64.partialCmp_swap]

theorem eq_comm (powi : ℕ → UInt64) (left right : Decimal) :
    eq powi left right = eq powi right left := by
  rw [eq, eq, partialCmp_swap powi left right]
  rcases partialCmp powi left right with _ | (_ | _ | _) <;> rfl

/-- A decimal is equal to itself. -/
theorem eq_self (powi : ℕ → UInt64) (number : Decimal) : eq powi number number = true := by
  have haligned : Aligned number number := by
    simpa [Aligned] using number.mantissa.2
  rw [eq, partialCmp_of_aligned powi haligned, compare_eq_iff_eq.2 rfl]
  rfl

/-- Decimals that fit on a common scale, or that floating-point numbers tell apart, are equal where
they stand for one number. -/
theorem eq_iff_toRat {powi : ℕ → UInt64} {left right : Decimal}
    (h : Aligned left right ∨ ToldApart powi left right) :
    eq powi left right = true ↔ left.toRat = right.toRat := by
  rw [eq, (partialCmp_eq_iff powi left right).2 h, beq_iff_eq, Option.some.injEq,
    compare_eq_iff_eq]

/-! ### What arithmetic does -/

section Arithmetic

variable {left right result : Decimal}

theorem orOverflow_eq_ok {number : ℤ} {mantissa : I128} :
    orOverflow (checked number) = .ok mantissa ↔ number = mantissa := by
  rw [← checked_eq_some]
  cases checked number <;> simp [orOverflow]

/-- A combination on a common scale. -/
theorem combine_eq_ok {operation : ℤ → ℤ → ℤ} (h : combine operation left right = .ok result) :
    (result.mantissa : ℤ) = operation (left.mantissa * 10 ^ (right.scale - left.scale))
        (right.mantissa * 10 ^ (left.scale - right.scale)) ∧
      result.scale = max left.scale right.scale := by
  by_cases haligned : Aligned left right
  · rw [combine, align_of_aligned haligned] at h
    rcases hmantissa : orOverflow (checked (operation
      (left.mantissa * 10 ^ (right.scale - left.scale))
      (right.mantissa * 10 ^ (left.scale - right.scale)))) with error | mantissa
    · simp only [bind, Except.bind, hmantissa, reduceCtorEq] at h
    · simp only [bind, Except.bind, hmantissa, pure, Except.pure, Except.ok.injEq] at h
      rw [orOverflow_eq_ok] at hmantissa
      rw [← h]
      exact ⟨hmantissa.symm, rfl⟩
  · obtain ⟨error, herror⟩ := align_of_not_aligned haligned
    rw [combine, herror] at h
    cases h

theorem toRat_checkedAdd (h : checkedAdd left right = .ok result) :
    result.toRat = left.toRat + right.toRat := by
  obtain ⟨hmantissa, hscale⟩ := combine_eq_ok h
  rw [toRat_left left right, toRat_right left right, toRat, hmantissa, hscale, ← add_div]
  norm_cast

theorem toRat_checkedSub (h : checkedSub left right = .ok result) :
    result.toRat = left.toRat - right.toRat := by
  obtain ⟨hmantissa, hscale⟩ := combine_eq_ok h
  rw [toRat_left left right, toRat_right left right, toRat, hmantissa, hscale, ← sub_div]
  norm_cast

theorem toRat_checkedMul (h : checkedMul left right = .ok result) :
    result.toRat = left.toRat * right.toRat := by
  rw [checkedMul] at h
  split_ifs at h with hscale
  rcases hmantissa : orOverflow (checked (left.mantissa * right.mantissa)) with error | mantissa
  · simp only [hmantissa, Except.map, reduceCtorEq] at h
  · simp only [hmantissa, Except.map, Except.ok.injEq] at h
    rw [orOverflow_eq_ok] at hmantissa
    rw [← h, toRat, toRat, toRat, ← hmantissa, pow_add]
    push_cast
    rw [div_mul_div_comm]

/-- A rational number without its fraction. -/
def truncated (number : ℚ) : ℤ :=
  if 0 ≤ number then ⌊number⌋ else ⌈number⌉

theorem truncated_neg (number : ℚ) : truncated (-number) = -truncated number := by
  unfold truncated
  rcases lt_trichotomy number 0 with h | rfl | h
  · rw [if_pos (by linarith), if_neg (by linarith), floor_neg]
  · simp
  · rw [if_neg (by linarith), if_pos h.le, ceil_neg]

theorem truncated_div (numerator denominator : ℤ) :
    truncated (numerator / denominator : ℚ) = numerator.tdiv denominator := by
  have hnat (n d : ℕ) : truncated ((n : ℤ) / (d : ℤ) : ℚ) = ((n : ℤ)).tdiv d := by
    rw [truncated, if_pos (by positivity)]
    push_cast
    rw [Rat.floor_natCast_div_natCast]
    exact (ofNat_tdiv n d).symm
  rcases numerator.eq_nat_or_neg with ⟨n, rfl | rfl⟩ <;>
    rcases denominator.eq_nat_or_neg with ⟨d, rfl | rfl⟩
  · exact hnat n d
  · rw [cast_neg, div_neg, truncated_neg, hnat, Int.tdiv_neg]
  · rw [Int.cast_neg, neg_div, truncated_neg, hnat, Int.neg_tdiv]
  · rw [Int.cast_neg, Int.cast_neg, neg_div_neg_eq, hnat, Int.neg_tdiv, Int.tdiv_neg, neg_neg]

/-- Whether the quotient of the mantissas leaves the range: the least mantissa, already on the
scale of the quotient, over minus one. -/
def QuotientOverflows (left right : Decimal) : Prop :=
  (left.mantissa : ℤ) = -2 ^ 127 ∧ 10 ≤ left.scale ∧ (right.mantissa : ℤ) = -1 ∧ right.scale = 0

/-- A quotient leaves the range only where the least integer is divided by minus one. -/
theorem fits_tdiv_iff {numerator denominator : I128} :
    FitsI128 ((numerator : ℤ).tdiv denominator) ↔
      ¬((numerator : ℤ) = -2 ^ 127 ∧ (denominator : ℤ) = -1) := by
  have hnumerator := numerator.2
  unfold FitsI128 at hnumerator ⊢
  constructor
  · rintro hfits ⟨hleast, hminus⟩
    rw [hleast, hminus] at hfits
    exact absurd hfits (by decide)
  · intro h
    have habs : ((numerator : ℤ).tdiv denominator).natAbs =
        (numerator : ℤ).natAbs / (denominator : ℤ).natAbs := natAbs_tdiv _ _
    have hle := Nat.div_le_self (numerator : ℤ).natAbs (denominator : ℤ).natAbs
    by_cases hleast : (numerator : ℤ) = -2 ^ 127
    · by_cases hone : (denominator : ℤ) = 1
      · rw [hone, Int.tdiv_one]
        exact hnumerator
      · have hsmall : (numerator : ℤ).natAbs / (denominator : ℤ).natAbs < 2 ^ 127 := by
          have hminus : (denominator : ℤ) ≠ -1 := fun hminus => h ⟨hleast, hminus⟩
          rw [hleast]
          rcases Nat.lt_or_ge 1 (denominator : ℤ).natAbs with hmany | hfew
          · exact Nat.div_lt_self (by decide) hmany
          · rw [show (denominator : ℤ).natAbs = 0 by omega, Nat.div_zero]
            decide
        omega
    · omega

theorem eq_zero_of_mul_pow_ten {mantissa : ℤ} {exponent : ℕ}
    (h : mantissa * 10 ^ exponent = -2 ^ 127) : exponent = 0 := by
  by_contra hne
  have hten : (10 : ℤ) ∣ 2 ^ 127 := by
    rw [← dvd_neg, ← h]
    exact Dvd.dvd.mul_left (dvd_pow_self _ hne) _
  exact absurd hten (by decide)

theorem quotientShift_eq_zero_iff :
    quotientShift left right = 0 ↔ 10 ≤ left.scale ∧ right.scale = 0 := by
  rw [quotientShift, quotientScale]
  omega

/-- Where a division by another number than zero ends. -/
theorem checkedDiv_cases (hright : (right.mantissa : ℤ) ≠ 0) :
    (∃ error, checkedDiv left right = .returns (.error error)) ∨
      ∃ numerator : I128, (left.mantissa : ℤ) * 10 ^ quotientShift left right = numerator ∧
        quotientShift left right ≤ maxScale ∧
        ((checkedDiv left right = .panics ∧ (numerator : ℤ) = -2 ^ 127 ∧
            (right.mantissa : ℤ) = -1) ∨
          ∃ result, checkedDiv left right = .returns (.ok result) ∧
            (result.mantissa : ℤ) = (numerator : ℤ).tdiv right.mantissa ∧
            result.scale = quotientScale left right ∧
            ¬((numerator : ℤ) = -2 ^ 127 ∧ (right.mantissa : ℤ) = -1)) := by
  rw [checkedDiv, if_neg hright]
  by_cases hshift : maxScale < quotientShift left right
  · rw [if_pos hshift]
    exact Or.inl ⟨_, rfl⟩
  · rw [if_neg hshift]
    rcases hraised : raised left.mantissa (quotientShift left right) with error | numerator
    · exact Or.inl ⟨error, rfl⟩
    · rw [raised_eq_ok (not_lt.1 hshift)] at hraised
      refine Or.inr ⟨numerator, hraised, not_lt.1 hshift, ?_⟩
      by_cases hfits : FitsI128 ((numerator : ℤ).tdiv right.mantissa)
      · simp only [checked_of_fits hfits]
        exact Or.inr ⟨_, rfl, rfl, rfl, fits_tdiv_iff.1 hfits⟩
      · simp only [checked_eq_none.2 hfits]
        rw [fits_tdiv_iff, not_not] at hfits
        exact Or.inl ⟨trivial, hfits⟩

theorem checkedDiv_eq_panics_iff :
    checkedDiv left right = .panics ↔ QuotientOverflows left right := by
  by_cases hright : (right.mantissa : ℤ) = 0
  · have hreturns : checkedDiv left right = .returns (.error divisionByZero) := by
      rw [checkedDiv, if_pos hright]
    rw [hreturns]
    constructor
    · intro h
      cases h
    · intro h
      exact absurd (hright.symm.trans h.2.2.1) (by decide)
  · have hzero := @quotientShift_eq_zero_iff left right
    constructor
    · intro h
      rcases @checkedDiv_cases left _ hright with
        ⟨error, herror⟩ | ⟨numerator, hnumerator, -, ⟨-, hleast, hminus⟩ | ⟨result, hresult, -⟩⟩
      · rw [herror] at h
        cases h
      · rw [hleast] at hnumerator
        have hshift := eq_zero_of_mul_pow_ten hnumerator
        rw [hshift, pow_zero, mul_one] at hnumerator
        exact ⟨hnumerator, (hzero.1 hshift).1, hminus, (hzero.1 hshift).2⟩
      · rw [hresult] at h
        cases h
    · rintro ⟨hleast, hscale, hminus, hwhole⟩
      have hshift := hzero.2 ⟨hscale, hwhole⟩
      have hraised : raised left.mantissa (quotientShift left right) = .ok left.mantissa := by
        rw [hshift, raised_eq_ok (Nat.zero_le _), pow_zero, mul_one]
      have hout : ¬FitsI128 ((left.mantissa : ℤ).tdiv right.mantissa) :=
        fun hfits => fits_tdiv_iff.1 hfits ⟨hleast, hminus⟩
      rw [checkedDiv, if_neg hright, if_neg (by rw [hshift]; decide), hraised]
      simp only [checked_eq_none.2 hout]

/-- A quotient is the exact one, truncated toward zero on its scale. -/
theorem checkedDiv_exact (hright : (right.mantissa : ℤ) ≠ 0)
    (h : checkedDiv left right = .returns (.ok result)) :
    result.scale = quotientScale left right ∧
      (result.mantissa : ℤ) = truncated (left.toRat / right.toRat * 10 ^ result.scale) := by
  rcases @checkedDiv_cases left _ hright with
    ⟨error, herror⟩ |
      ⟨numerator, hnumerator, -, ⟨hpanics, -⟩ | ⟨other, hother, hmantissa, hscale, -⟩⟩
  · rw [herror] at h
    cases h
  · rw [hpanics] at h
    cases h
  · rw [hother] at h
    obtain rfl : other = result := by simpa using h
    refine ⟨hscale, ?_⟩
    have hratio : left.toRat / right.toRat * 10 ^ other.scale =
        (numerator : ℤ) / (right.mantissa : ℤ) := by
      have hexponents : left.scale + quotientShift left right = right.scale + other.scale := by
        rw [hscale, quotientShift]
        have : left.scale ≤ quotientScale left right := le_sup_of_le_left (le_max_left _ _)
        omega
      have hne : ((right.mantissa : ℤ) : ℚ) ≠ 0 := by exact_mod_cast hright
      have hpowers := congrArg (fun exponent => (10 : ℚ) ^ exponent) hexponents
      simp only [pow_add] at hpowers
      rw [toRat, toRat, ← hnumerator]
      push_cast
      field_simp
      linear_combination -(left.mantissa : ℚ) * hpowers
    rw [hratio, truncated_div]
    exact hmantissa

end Arithmetic

/-! ### Exact arithmetic -/

/-- What exact arithmetic promises of two decimals. -/
structure ExactPair (powi : ℕ → UInt64) (left right : Decimal) : Prop where
  cmp : partialCmp powi left right = some (compare left.toRat right.toRat)
  eq : eq powi left right = true ↔ left.toRat = right.toRat
  add : ∀ result, checkedAdd left right = .ok result → result.toRat = left.toRat + right.toRat
  sub : ∀ result, checkedSub left right = .ok result → result.toRat = left.toRat - right.toRat
  mul : ∀ result, checkedMul left right = .ok result → result.toRat = left.toRat * right.toRat
  div : (right.mantissa : ℤ) ≠ 0 → checkedDiv left right ≠ .panics ∧
    ∀ result, checkedDiv left right = .returns (.ok result) →
      result.scale = quotientScale left right ∧
        (result.mantissa : ℤ) = truncated (left.toRat / right.toRat * 10 ^ result.scale)

/-- What exact arithmetic promises of a set of decimals: of every two of them, and that
comparison is a total and transitive order of them. -/
structure Exact (powi : ℕ → UInt64) (numbers : Set Decimal) : Prop where
  pairs : ∀ left ∈ numbers, ∀ right ∈ numbers, ExactPair powi left right
  total : ∀ left ∈ numbers, ∀ right ∈ numbers, partialCmp powi left right ≠ none
  trans : ∀ left ∈ numbers, ∀ middle ∈ numbers, ∀ right ∈ numbers,
    partialCmp powi left middle ≠ some .gt → partialCmp powi middle right ≠ some .gt →
      partialCmp powi left right ≠ some .gt

theorem exactPair_iff (powi : ℕ → UInt64) (left right : Decimal) :
    ExactPair powi left right ↔
      (Aligned left right ∨ ToldApart powi left right) ∧ ¬QuotientOverflows left right := by
  rw [← partialCmp_eq_iff, ← checkedDiv_eq_panics_iff]
  constructor
  · intro h
    refine ⟨h.cmp, fun hpanics => ?_⟩
    have hright := (checkedDiv_eq_panics_iff.1 hpanics).2.2.1
    exact (h.div (by rw [hright]; decide)).1 hpanics
  · rintro ⟨hcmp, hpanics⟩
    refine ⟨hcmp, ?_, fun _ => toRat_checkedAdd, fun _ => toRat_checkedSub,
      fun _ => toRat_checkedMul, fun hright => ⟨hpanics, fun _ => checkedDiv_exact hright⟩⟩
    rw [Decimal.eq, hcmp, beq_iff_eq, Option.some.injEq, compare_eq_iff_eq]

/-- **Decimals are exact but for two defects.** Comparison is the order of the rational numbers,
total and transitive, and arithmetic is exact and never stops the program, exactly where any two
of the decimals fit on a common scale or are told apart by the floating-point numbers that
comparison falls back on, and none of them is the least mantissa divided by minus one. -/
theorem exact_iff (powi : ℕ → UInt64) (numbers : Set Decimal) :
    Exact powi numbers ↔ ∀ left ∈ numbers, ∀ right ∈ numbers,
      (Aligned left right ∨ ToldApart powi left right) ∧ ¬QuotientOverflows left right := by
  constructor
  · intro h left hleft right hright
    exact (exactPair_iff powi left right).1 (h.pairs left hleft right hright)
  · intro h
    have hpairs : ∀ left ∈ numbers, ∀ right ∈ numbers, ExactPair powi left right :=
      fun left hleft right hright =>
        (exactPair_iff powi left right).2 (h left hleft right hright)
    have hle : ∀ left ∈ numbers, ∀ right ∈ numbers,
        (partialCmp powi left right ≠ some .gt ↔ left.toRat ≤ right.toRat) := by
      intro left hleft right hright
      rw [(hpairs left hleft right hright).cmp, ne_eq, Option.some.injEq, compare_gt_iff_gt, not_lt]
    refine ⟨hpairs, fun left hleft right hright => ?_,
      fun left hleft middle hmiddle right hright => ?_⟩
    · rw [(hpairs left hleft right hright).cmp]
      exact Option.some_ne_none _
    · rw [hle left hleft middle hmiddle, hle middle hmiddle right hright,
        hle left hleft right hright]
      exact le_trans

/-- The powers of ten, each rounded to the nearest floating-point number. -/
def nearestPower (exponent : ℕ) : UInt64 :=
  ofInt (10 ^ exponent)

/-- The least decimal that leaves the range with one more digit. -/
def beyond : Decimal where
  mantissa := ⟨17014118346046923173168730371588410573, by decide⟩
  scale := 0
  scale_le := by decide

/-- The greatest decimal with one digit after the point. -/
def greatestTenths : Decimal where
  mantissa := ⟨170141183460469231731687303715884105727, by decide⟩
  scale := 1
  scale_le := by decide

theorem not_exact : ¬∀ (powi : ℕ → UInt64) (numbers : Set Decimal), Exact powi numbers := by
  intro h
  have hcmp := ((h nearestPower {beyond, greatestTenths}).pairs beyond (Set.mem_insert _ _)
    greatestTenths (Set.mem_insert_of_mem _ rfl)).cmp
  have htie : partialCmp nearestPower beyond greatestTenths = some .eq := by decide +kernel
  have hgreater : compare beyond.toRat greatestTenths.toRat = .gt := by
    rw [compare_toRat]
    decide +kernel
  rw [htie, hgreater] at hcmp
  cases hcmp

end Decimal

end OnoSendai
