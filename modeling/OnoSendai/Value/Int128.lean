import Mathlib.Data.Int.Basic
import OnoSendai.Value

/-!
# Integers of 128 bits

The signed integers that counts, mantissas and nanoseconds are held in, and the two ways the
program computes on them: a checked operation has no result where the exact one does not fit, and
a raw one stops the program there.
-/

namespace OnoSendai

/-- Whether an integer fits 128 bits, signed. -/
def FitsI128 (number : ℤ) : Prop :=
  -2 ^ 127 ≤ number ∧ number < 2 ^ 127

instance (number : ℤ) : Decidable (FitsI128 number) :=
  decidable_of_iff (number.natAbs < 2 ^ 127 ∨ number = -2 ^ 127) (by rw [FitsI128]; omega)

theorem fitsI128_zero : FitsI128 0 := by
  decide

/-- An integer of 128 bits. -/
abbrev I128 : Type :=
  {number : ℤ // FitsI128 number}

/-- The exact result of an operation, where it fits. -/
def checked (number : ℤ) : Option I128 :=
  if h : FitsI128 number then some ⟨number, h⟩ else none

variable {number : ℤ}

theorem checked_eq_some {result : I128} : checked number = some result ↔ number = result := by
  rw [checked]
  split_ifs with h
  · rw [Option.some.injEq, Subtype.ext_iff]
  · simp only [false_iff]
    rintro rfl
    exact h result.2

theorem checked_eq_none : checked number = none ↔ ¬FitsI128 number := by
  rw [checked]
  split_ifs with h <;> simp [h]

theorem checked_of_fits (h : FitsI128 number) : checked number = some ⟨number, h⟩ :=
  dif_pos h

/-- What a call comes to: it returns, or it stops the program. -/
inductive Outcome (α : Type)
  | returns (result : Except ErrorValue α)
  | panics

end OnoSendai
