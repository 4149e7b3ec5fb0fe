import Mathlib.Data.Int.ConditionallyCompleteOrder
import Mathlib.Data.Nat.Log
import Mathlib.Tactic.Linarith
import Mathlib.Tactic.Ring

/-!
# Binary floating-point numbers of 64 bits

A binary floating-point number is its bit pattern: a sign, and a magnitude whose patterns count
the numbers upwards from zero through the finite ones to infinity, with the patterns that are no
number above it. A ratio of two naturals is rounded to the nearest pattern, ties to the even one.

## Main definitions

* `magnitude`, `isNegative`, `position` — the parts of a pattern, and its place in the order;
* `partialCmp` — the order of two patterns, which none that is no number has;
* `roundEven`, `nearest` — rounding of a ratio, to a natural and to a magnitude;
* `div`, `add`, `sub` — the quotient, the sum and the difference of two numbers.

## Main results

* `partialCmp_swap` — the order read from the other side;
* `compare_units` — numbers are in the order of their values.
-/

namespace Binary64

open Int

/-! ### Patterns and their order -/

/-- The pattern without its sign. -/
def magnitude (bits : UInt64) : ℕ :=
  bits.toNat % 2 ^ 63

/-- Whether the sign is set. -/
def isNegative (bits : UInt64) : Bool :=
  decide (2 ^ 63 ≤ bits.toNat)

/-- The magnitude of infinity; a greater one is no number. -/
def infinite : ℕ :=
  2047 * 2 ^ 52

/-- Whether the pattern is no number. -/
def isNaN (bits : UInt64) : Bool :=
  decide (infinite < magnitude bits)

/-- The pattern of a sign and a magnitude. -/
def ofMagnitude (negative : Bool) (magnitude : ℕ) : UInt64 :=
  UInt64.ofNat (magnitude + if negative then 2 ^ 63 else 0)

/-- The place of a number among the others; both zeros have the same. -/
def position (bits : UInt64) : ℤ :=
  if isNegative bits then -magnitude bits else magnitude bits

/-- The order of two numbers, where both are numbers. -/
def partialCmp (left right : UInt64) : Option Ordering :=
  if isNaN left || isNaN right then none else some (compare (position left) (position right))

theorem partialCmp_swap (left right : UInt64) :
    partialCmp right left = (partialCmp left right).map Ordering.swap := by
  unfold partialCmp
  by_cases h : isNaN left || isNaN right
  · rw [if_pos h, if_pos (by rwa [Bool.or_comm]), Option.map_none]
  · rw [if_neg h, if_neg (by rwa [Bool.or_comm]), Option.map_some,
      @Std.OrientedCmp.eq_swap ℤ compare _ (position right)]

theorem partialCmp_of_isNaN_eq_false {left right : UInt64} (hleft : isNaN left = false)
    (hright : isNaN right = false) :
    partialCmp left right = some (compare (position left) (position right)) := by
  rw [partialCmp, hleft, hright, Bool.or_self, if_neg Bool.false_ne_true]

theorem partialCmp_eq_some_eq_iff {left right : UInt64} :
    partialCmp left right = some .eq ↔
      isNaN left = false ∧ isNaN right = false ∧ position left = position right := by
  unfold partialCmp
  cases isNaN left <;> cases isNaN right <;> simp

/-! ### Rounding -/

/-- The natural nearest to a ratio, and of two equally near the even one. -/
def roundEven (numerator denominator : ℕ) : ℕ :=
  let quotient := numerator / denominator
  let remainder := numerator % denominator
  if denominator < 2 * remainder ∨ 2 * remainder = denominator ∧ quotient % 2 = 1 then
    quotient + 1
  else quotient

/-- How many of the smallest number make one. -/
def grain : ℕ :=
  2 ^ 1074

/-- How many binary digits of a ratio, in units of the smallest number, lie beyond the 53 that
a pattern holds. -/
def excess (numerator denominator : ℕ) : ℕ :=
  Nat.log2 (numerator * grain / denominator) - 52

/-- The magnitude of the number nearest to a ratio. -/
def nearest (numerator denominator : ℕ) : ℕ :=
  min infinite
    (excess numerator denominator * 2 ^ 52 +
      roundEven (numerator * grain) (denominator * 2 ^ excess numerator denominator))

/-- The number nearest to an integer. -/
def ofInt (number : ℤ) : UInt64 :=
  ofMagnitude (decide (number < 0)) (nearest number.natAbs 1)

/-- The value of a finite magnitude, in units of the smallest number. -/
def scaled (magnitude : ℕ) : ℕ :=
  if magnitude < 2 ^ 52 then magnitude
  else (2 ^ 52 + magnitude % 2 ^ 52) * 2 ^ (magnitude / 2 ^ 52 - 1)

/-- The pattern that stands for no number. -/
def notANumber : UInt64 :=
  0x7ff8000000000000

/-- The quotient of two numbers. -/
def div (left right : UInt64) : UInt64 :=
  let negative := isNegative left != isNegative right
  if isNaN left || isNaN right then notANumber
  else if magnitude left = infinite then
    if magnitude right = infinite then notANumber else ofMagnitude negative infinite
  else if magnitude right = infinite then ofMagnitude negative 0
  else if magnitude right = 0 then
    if magnitude left = 0 then notANumber else ofMagnitude negative infinite
  else ofMagnitude negative (nearest (scaled (magnitude left)) (scaled (magnitude right)))

/-- The value of a finite number, in units of the smallest number. -/
def units (bits : UInt64) : ℤ :=
  if isNegative bits then -scaled (magnitude bits) else scaled (magnitude bits)

/-- The sum of two numbers; an exact zero is negative only where both are. -/
def add (left right : UInt64) : UInt64 :=
  if isNaN left || isNaN right then notANumber
  else if magnitude left = infinite then
    if magnitude right = infinite && isNegative left != isNegative right then notANumber else left
  else if magnitude right = infinite then right
  else if units left + units right = 0 then ofMagnitude (isNegative left && isNegative right) 0
  else
    ofMagnitude (decide (units left + units right < 0))
      (nearest (units left + units right).natAbs grain)

/-- The number with the other sign. -/
def neg (bits : UInt64) : UInt64 :=
  ofMagnitude (!isNegative bits) (magnitude bits)

/-- The difference of two numbers. -/
def sub (left right : UInt64) : UInt64 :=
  add left (neg right)

/-! ### Values -/

/-- A greater magnitude has a greater value. -/
theorem strictMono_scaled : StrictMono scaled := by
  refine strictMono_nat_of_lt_succ fun m => ?_
  rw [scaled, scaled]
  by_cases hm : m < 2 ^ 52
  · rw [if_pos hm]
    by_cases hsucc : m + 1 < 2 ^ 52
    · rw [if_pos hsucc]
      exact Nat.lt_succ_self m
    · have heq : m + 1 = 2 ^ 52 := by omega
      rw [if_neg hsucc, heq, Nat.mod_self, Nat.div_self (by positivity), Nat.sub_self, pow_zero]
      omega
  · rw [if_neg hm, if_neg (by omega)]
    by_cases hrest : m % 2 ^ 52 + 1 = 2 ^ 52
    · have hquotient : (m + 1) / 2 ^ 52 - 1 = (m / 2 ^ 52 - 1) + 1 := by omega
      have hremainder : (m + 1) % 2 ^ 52 = 0 := by omega
      rw [hquotient, hremainder, pow_succ, Nat.add_zero]
      have hpos : 0 < 2 ^ (m / 2 ^ 52 - 1) := by positivity
      have hlt : 2 ^ 52 + m % 2 ^ 52 < 2 ^ 52 * 2 := by omega
      calc (2 ^ 52 + m % 2 ^ 52) * 2 ^ (m / 2 ^ 52 - 1)
          < 2 ^ 52 * 2 * 2 ^ (m / 2 ^ 52 - 1) := Nat.mul_lt_mul_of_pos_right hlt hpos
        _ = 2 ^ 52 * (2 ^ (m / 2 ^ 52 - 1) * 2) := by ring
    · have hquotient : (m + 1) / 2 ^ 52 = m / 2 ^ 52 := by omega
      have hremainder : (m + 1) % 2 ^ 52 = m % 2 ^ 52 + 1 := by omega
      rw [hquotient, hremainder]
      exact Nat.mul_lt_mul_of_pos_right (by omega) (by positivity)

theorem units_eq (bits : UInt64) :
    units bits = (position bits).sign * scaled (position bits).natAbs := by
  rw [units, position]
  split_ifs
  · rw [Int.sign_neg, Int.natAbs_neg, Int.natAbs_natCast, Int.neg_mul]
    rcases Nat.eq_zero_or_pos (magnitude bits) with hzero | hpos
    · rw [hzero]
      rfl
    · rw [sign_eq_one_of_pos (by exact_mod_cast hpos), one_mul]
  · rw [Int.natAbs_natCast]
    rcases Nat.eq_zero_or_pos (magnitude bits) with hzero | hpos
    · rw [hzero]
      rfl
    · rw [sign_eq_one_of_pos (by exact_mod_cast hpos), one_mul]

theorem strictMono_sign_mul_scaled :
    StrictMono fun place : ℤ => place.sign * (scaled place.natAbs : ℤ) := by
  intro x y hlt
  have hmono : x.natAbs < y.natAbs → (scaled x.natAbs : ℤ) < scaled y.natAbs :=
    fun h => by exact_mod_cast strictMono_scaled h
  have hanti : y.natAbs < x.natAbs → (scaled y.natAbs : ℤ) < scaled x.natAbs :=
    fun h => by exact_mod_cast strictMono_scaled h
  have hpos : ∀ place : ℤ, place ≠ 0 → (0 : ℤ) < scaled place.natAbs := by
    intro place hplace
    have h := strictMono_scaled (natAbs_pos.2 hplace)
    exact_mod_cast (Nat.zero_le _).trans_lt h
  dsimp only
  rcases lt_trichotomy x 0 with hx | rfl | hx
  · rw [sign_eq_neg_one_of_neg hx]
    rcases lt_trichotomy y 0 with hy | rfl | hy
    · rw [sign_eq_neg_one_of_neg hy]
      have := hanti (by omega)
      omega
    · have := hpos x hx.ne
      simp
      omega
    · rw [sign_eq_one_of_pos hy]
      have := hpos x hx.ne
      have := hpos y hy.ne'
      omega
  · rw [sign_eq_one_of_pos hlt]
    have := hpos y hlt.ne'
    simp
    omega
  · rw [sign_eq_one_of_pos hx, sign_eq_one_of_pos (hx.trans hlt)]
    have := hmono (by omega)
    omega

/-- **The order of the values.** Numbers are in the order of their values as in that of their
places. -/
theorem compare_units (left right : UInt64) :
    compare (units left) (units right) = compare (position left) (position right) := by
  rw [units_eq, units_eq, ← cmp_eq_compare, ← cmp_eq_compare]
  exact strictMono_sign_mul_scaled.cmp_map_eq _ _
end Binary64
