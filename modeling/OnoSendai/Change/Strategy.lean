import Mathlib.Data.List.Basic

/-!
# Execution strategies

A strategy partitions the frozen target list of a plan into waves that run one after the other.
-/

namespace OnoSendai

open List

/-- How the targets of a plan are run. -/
inductive Strategy
  | sequential
  | batch (size : Nat)
  | canary (canary batch : Nat)
  | parallel (width : Nat)

/-- One wave: a range of target positions, submitted together. -/
structure Wave where
  start : Nat
  len : Nat
  gated : Bool
  concurrency : Nat

/-- The targets of a wave. -/
def Wave.slice {α : Type} (wave : Wave) (targets : List α) : List α :=
  (targets.drop wave.start).take wave.len

namespace Strategy

/-- Ungated waves of a fixed width from `start` on. A wave holds at least one target, so `fuel`
is the number of targets left. -/
def wavesFrom (width concurrency count : Nat) : Nat → Nat → List Wave
  | 0, _ => []
  | fuel + 1, start =>
    if start < count then
      let len := min (max width 1) (count - start)
      { start, len, gated := false, concurrency } ::
        wavesFrom width concurrency count fuel (start + len)
    else
      []

/-- The partition of `count` targets into waves. -/
def waves (strategy : Strategy) (count : Nat) : List Wave :=
  match strategy with
  | sequential => wavesFrom 1 1 count count 0
  | batch size => wavesFrom size 1 count count 0
  | canary first rest =>
    if 0 < count then
      let len := min (max first 1) count
      { start := 0, len, gated := true, concurrency := 1 } ::
        wavesFrom rest 1 count (count - len) len
    else
      []
  | parallel width => wavesFrom width (max width 1) count count 0

/-- The text a strategy contributes to a plan digest. -/
def digestText : Strategy → String
  | sequential => "sequential"
  | batch size => "batch:" ++ toString size
  | canary first rest => "canary:" ++ toString first ++ ":" ++ toString rest
  | parallel width => "parallel:" ++ toString width

/-! ### The waves cover the targets -/

section Cover

variable {α : Type}

theorem wavesFrom_cover (width concurrency : Nat) (targets : List α) (fuel start : Nat)
    (hfuel : targets.length - start ≤ fuel) :
    (wavesFrom width concurrency targets.length fuel start).flatMap (·.slice targets) =
      targets.drop start := by
  induction fuel generalizing start with
  | zero =>
    have hle : targets.length ≤ start := by omega
    simp [wavesFrom, drop_of_length_le hle]
  | succ fuel ih =>
    rw [wavesFrom]
    split_ifs with hstart
    · rw [flatMap_cons, ih _ (by omega), Wave.slice, ← drop_drop, take_append_drop]
    · simp [drop_of_length_le (Nat.le_of_not_lt hstart)]

/-- **The waves cover the targets.** Taken together and in order, the waves of a strategy are
exactly the target list. -/
theorem waves_cover (strategy : Strategy) (targets : List α) :
    (strategy.waves targets.length).flatMap (·.slice targets) = targets := by
  cases strategy with
  | sequential => exact wavesFrom_cover 1 1 targets _ 0 (by omega)
  | batch size => exact wavesFrom_cover size 1 targets _ 0 (by omega)
  | parallel width => exact wavesFrom_cover width _ targets _ 0 (by omega)
  | canary first rest =>
    rw [waves]
    split_ifs with hcount
    · rw [flatMap_cons, wavesFrom_cover rest 1 targets _ _ (by omega), Wave.slice,
        drop_zero, take_append_drop]
    · simpa using (length_eq_zero_iff.1 (Nat.eq_zero_of_not_pos hcount)).symm

end Cover

end Strategy

end OnoSendai
