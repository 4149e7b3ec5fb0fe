import OnoSendai.Pipeline.Order
import OnoSendai.Pipeline.Stage

/-!
# Measuring the samples of a stream

`measure` has two ways to its statistics (`ono_pipeline::transforms::aggregate`). One folds every
sample into a state of fixed size as it arrives; the other holds the samples, sorts them, and adds
them up in that order. Samples that are null are skipped and counted, values that are no numbers
are reported and excluded, and a sum that cannot be formed ends the stage without a record.

The standard deviation, the mean, the median and the percentiles are floating-point statistics that
the platform computes.
-/

namespace OnoSendai.Pipeline

open List Option

/-! ### The stage -/

/-- The schema of a measure. -/
def measureSchema : Schema where
  id := ⟨"ono.measure", 1⟩
  fields := ["count", "skipped", "sum", "mean", "median", "min", "max", "stddev", "percentiles"]

/-- The statistics that a measure is set to. -/
structure Statistics where
  count : ℕ
  skipped : ℕ
  sum : Option Value
  mean : Option Value
  median : Option Value
  min : Option Value
  max : Option Value
  stddev : Option Value
  percentiles : Option Value

/-- The record of a measure. -/
def Statistics.record (found : Statistics) : Except ErrorValue Value := do
  let record := RecordValue.builder measureSchema (provenance measureSchema)
  let record ← record.set "count" (.int found.count)
  let record ← record.set "skipped" (.int found.skipped)
  let record ← record.set "sum" (orNull found.sum)
  let record ← record.set "mean" (orNull found.mean)
  let record ← record.set "median" (orNull found.median)
  let record ← record.set "min" (orNull found.min)
  let record ← record.set "max" (orNull found.max)
  let record ← record.set "stddev" (orNull found.stddev)
  let record ← record.set "percentiles" (orNull found.percentiles)
  return record.intoValue

/-- What a stage emits for a record that was built, or failed to be. -/
def emitRecord : Except ErrorValue Value → List Emission
  | .ok record => [.value record]
  | .error failure => [.failure failure]

/-- The floating-point statistics of the platform. -/
structure Platform where
  powi : ℕ → UInt64
  /-- The quotient of a sum by the count of its samples. -/
  mean : Value → ℕ → Option Value
  /-- The mean and the squared deviations after a sample, of which the count includes it. -/
  deviate : UInt64 × UInt64 → ℕ → UInt64 → UInt64 × UInt64
  /-- The deviation that squared deviations of some samples stand for. -/
  stddev : UInt64 × UInt64 → ℕ → UInt64
  median : List Value → Option Value
  stddevOf : List Value → Option Value
  percentiles : List Value → Option Value

namespace Measure

section Stage

variable (platform : Platform) (instants : FromNanosecond) (key : KeyFn)

/-- The magnitude of a value on its own scale. -/
def scaleOf : Value → Option UInt64
  | .int number => some (Binary64.ofInt number)
  | .float number => some number
  | .decimal mantissa scale => some ((Decimal.ofParts mantissa scale).toF64 platform.powi)
  | .byteSize bytes => some (Binary64.ofInt bytes)
  | .duration nanoseconds => some (Binary64.ofInt nanoseconds)
  | .percent percent => some percent
  | _ => none

/-- The failure of a value that is no number. -/
def notANumber (sample : Value) : ErrorValue where
  code := .other "type.mismatch"
  message := "`measure` needs numbers, but found " ++ sample.typeName

/-- A sample added to the sum of those before it, if there are any. -/
def addTo (sum : Option Value) (sample : Value) : Except ErrorValue Value :=
  match sum with
  | none => .ok sample
  | some total => total.add platform.powi instants sample

/-! ### In constant state -/

/-- The statistics of a stream in constant state. -/
structure Running where
  count : ℕ
  skipped : ℕ
  sum : Option Value
  min : Option Value
  max : Option Value
  deviations : UInt64 × UInt64

/-- The state before any value. -/
def Running.initial : Running where
  count := 0
  skipped := 0
  sum := none
  min := none
  max := none
  deviations := (0, 0)

/-- The lesser of a sample and the least before it. -/
def lesser (sample : Value) : Option Value → Value
  | none => sample
  | some least => if (compareKeys platform.powi sample least).isLT then sample else least

/-- The greater of a sample and the greatest before it. -/
def greater (sample : Value) : Option Value → Value
  | none => sample
  | some most => if (compareKeys platform.powi sample most).isGT then sample else most

/-- Folds one sample in, or fails where the sum cannot be formed. -/
def Running.fold (state : Running) (sample : Value) (scale : UInt64) :
    Except ErrorValue Running :=
  (addTo platform instants state.sum sample).map fun total =>
    { state with
      sum := some total
      min := some (lesser platform sample state.min)
      max := some (greater platform sample state.max)
      count := state.count + 1
      deviations := platform.deviate state.deviations (state.count + 1) scale }

/-- The statistics so far. -/
def Running.statistics (state : Running) : Statistics where
  count := state.count
  skipped := state.skipped
  sum := state.sum
  mean := if 0 < state.count then state.sum.bind (platform.mean · state.count) else none
  median := none
  min := state.min
  max := state.max
  stddev :=
    if 0 < state.count then some (.float (platform.stddev state.deviations state.count)) else none
  percentiles := none

/-- What a stream that does not end is answered after a value. -/
def Running.answer (unbounded : Bool) (state : Running) (rest : List Emission) : List Emission :=
  if unbounded then
    match (state.statistics platform).record with
    | .ok record => .value record :: rest
    | .error failure => [.failure failure]
  else rest

/-- What a stream that ends is answered at its end. -/
def Running.finish (unbounded sawFailure : Bool) (state : Running) : List Emission :=
  if unbounded then []
  else if state.count = 0 ∧ state.skipped = 0 ∧ sawFailure then []
  else emitRecord (state.statistics platform).record

/-- Reads what is left of a stream into a state. -/
def Running.read (unbounded sawFailure : Bool) (state : Running) : List Emission → List Emission
  | [] => state.finish platform unbounded sawFailure
  | .failure failure :: events => .failure failure :: read unbounded true state events
  | .value value :: events =>
    match key value with
    | .error failure => .failure failure :: read unbounded sawFailure state events
    | .ok .null =>
      let state := { state with skipped := state.skipped + 1 }
      state.answer platform unbounded (read unbounded sawFailure state events)
    | .ok sample =>
      match scaleOf platform sample with
      | none => .failure (notANumber sample) :: read unbounded sawFailure state events
      | some scale =>
        match state.fold platform instants sample scale with
        | .error failure => [.failure failure]
        | .ok state => state.answer platform unbounded (read unbounded sawFailure state events)

/-- `measure` in constant state: one record at the end of a stream that ends, one after every value
of a stream that is declared unbounded. -/
def running (unbounded : Bool) (events : List Emission) : List Emission :=
  Running.initial.read platform instants key unbounded false events

/-! ### Over the samples that are held -/

/-- The sum of samples, one after another. -/
def sumOf (sum : Option Value) : List Value → Except ErrorValue (Option Value)
  | [] => .ok sum
  | sample :: samples =>
    match addTo platform instants sum sample with
    | .error failure => .error failure
    | .ok total => sumOf (some total) samples

/-- The statistics of sorted samples whose sum is formed. -/
def sortedStatistics (samples : List Value) (skipped : ℕ) (sum : Option Value) : Statistics where
  count := samples.length
  skipped := skipped
  sum := sum
  mean := if 0 < samples.length then sum.bind (platform.mean · samples.length) else none
  median := platform.median samples
  min := samples.head?
  max := samples.getLast?
  stddev := platform.stddevOf samples
  percentiles := platform.percentiles samples

/-- What is emitted for samples once they are sorted: a sum that cannot be formed is reported, and
null stands for the record. -/
def summarise (samples : List Value) (skipped : ℕ) : List Emission :=
  match sumOf platform instants none samples with
  | .error failure => [.failure failure, .value .null]
  | .ok sum => emitRecord (sortedStatistics platform samples skipped sum).record

variable (sort : List Value → Option (List Value)) (estimatedSize : Value → ℕ)

/-- What the samples of a stream that was read are answered with. A sort that panics ends the
stage. -/
def finish (sawFailure : Bool) (samples : List Value) (skipped : ℕ) : List Emission :=
  if samples = [] ∧ skipped = 0 ∧ sawFailure then []
  else
    match sort samples with
    | none => []
    | some sorted => summarise platform instants sorted skipped

/-- Reads what is left of a stream into the samples that are held. -/
def collect (budget : Budget) (sawFailure : Bool) (samples : List Value) (skipped : ℕ) :
    List Emission → List Emission
  | [] => finish platform instants sort sawFailure samples skipped
  | .failure failure :: events =>
    .failure failure :: collect budget true samples skipped events
  | .value value :: events =>
    match budget.charge estimatedSize value with
    | .error exceeded => [.failure exceeded.intoError]
    | .ok budget =>
      match key value with
      | .error failure => .failure failure :: collect budget sawFailure samples skipped events
      | .ok .null => collect budget sawFailure samples (skipped + 1) events
      | .ok sample =>
        match scaleOf platform sample with
        | none =>
          .failure (notANumber sample) :: collect budget sawFailure samples skipped events
        | some _ => collect budget sawFailure (samples ++ [sample]) skipped events

/-- `measure` over the samples that are held. -/
def collecting (limits : MaterializationLimits) (events : List Emission) : List Emission :=
  collect platform instants key sort estimatedSize (limits.budgetFor "measure") false [] 0 events

end Stage

/-! ### What is emitted -/

/-- The statistics an emitted record tells of, but for those of the platform. -/
structure Measured where
  count : ℤ
  skipped : ℤ
  sum : Value
  min : Value
  max : Value

/-- The statistics an emission tells of. -/
def Measured.ofEmission : Emission → Option Measured
  | .value (.record schema [.int count, .int skipped, sum, _, _, min, max, _, _] _ _) =>
    if schema = measureSchema then some ⟨count, skipped, sum, min, max⟩ else none
  | _ => none

/-- The records of statistics that are emitted. -/
def measuredOf (emitted : List Emission) : List Measured :=
  emitted.filterMap Measured.ofEmission

/-- The values of a stream. -/
def valuesOf (events : List Emission) : List Value :=
  events.filterMap fun
    | .value value => some value
    | .failure _ => none

/-- Whether a failure passes through a stream. -/
def failed (events : List Emission) : Bool :=
  events.any fun
    | .value _ => false
    | .failure _ => true

/-- Whether a key is read as null. -/
def readsNull (key : KeyFn) (value : Value) : Bool :=
  match key value with
  | .ok .null => true
  | _ => false

/-- How many keys of a stream are null. -/
def nullsOf (key : KeyFn) (events : List Emission) : ℕ :=
  (valuesOf events).countP (readsNull key)

section Emitted

variable (platform : Platform) (key : KeyFn)

/-- The sample that is read of a value, if its key is a number. -/
def sampleOf (value : Value) : Option Value :=
  (key value).toOption.filter fun sample => (scaleOf platform sample).isSome

/-- The samples of a stream, as they arrive. -/
def samplesOf (events : List Emission) : List Value :=
  (valuesOf events).filterMap (sampleOf platform key)

/-- The least of samples and of the one before them. -/
def leastOf (least : Option Value) (samples : List Value) : Option Value :=
  samples.foldl (fun least sample => some (lesser platform sample least)) least

/-- The greatest of samples and of the one before them. -/
def greatestOf (most : Option Value) (samples : List Value) : Option Value :=
  samples.foldl (fun most sample => some (greater platform sample most)) most

/-- What is told of statistics, if not of nothing but a failure. -/
def told (count skipped : ℕ) (sawFailure : Bool) (sum min max : Option Value) : List Measured :=
  if count = 0 ∧ skipped = 0 ∧ sawFailure then []
  else [⟨count, skipped, orNull sum, orNull min, orNull max⟩]

variable {platform : Platform} {key : KeyFn} {instants : FromNanosecond} {events : List Emission}
  {value : Value} {failure : ErrorValue} {samples : List Value} {sawFailure : Bool}

theorem measuredOf_cons_failure : measuredOf (.failure failure :: events) = measuredOf events :=
  rfl

theorem measuredOf_emitRecord (found : Statistics) :
    measuredOf (emitRecord found.record) =
      [⟨found.count, found.skipped, orNull found.sum, orNull found.min, orNull found.max⟩] :=
  rfl

theorem samplesOf_cons_value :
    samplesOf platform key (.value value :: events) =
      (sampleOf platform key value).toList ++ samplesOf platform key events := by
  have hvalues : valuesOf (.value value :: events) = value :: valuesOf events := rfl
  rw [samplesOf, hvalues, filterMap_cons]
  cases sampleOf platform key value <;> rfl

theorem nullsOf_cons_value :
    nullsOf key (.value value :: events) =
      (if readsNull key value then 1 else 0) + nullsOf key events := by
  have hvalues : valuesOf (.value value :: events) = value :: valuesOf events := rfl
  rw [nullsOf, hvalues, countP_cons, Nat.add_comm]
  rfl

/-- What a key is to `measure`. -/
inductive Reading (platform : Platform) (key : KeyFn) (value : Value) : Prop
  | failure (failure : ErrorValue) (hkey : key value = .error failure)
  | null (hkey : key value = .ok .null)
  | excluded (sample : Value) (hkey : key value = .ok sample) (hnull : sample ≠ .null)
    (hscale : scaleOf platform sample = none)
  | sample (sample : Value) (scale : UInt64) (hkey : key value = .ok sample)
    (hnull : sample ≠ .null) (hscale : scaleOf platform sample = some scale)

theorem reading (platform : Platform) (key : KeyFn) (value : Value) :
    Reading platform key value := by
  cases hkey : key value with
  | error failure => exact .failure failure hkey
  | ok sample =>
    by_cases hnull : sample = .null
    · exact .null (hnull ▸ hkey)
    · cases hscale : scaleOf platform sample with
      | none => exact .excluded sample hkey hnull hscale
      | some scale => exact .sample sample scale hkey hnull hscale

theorem sampleOf_of_error (h : key value = .error failure) :
    sampleOf platform key value = none ∧ readsNull key value = false := by
  rw [sampleOf, readsNull, h]
  exact ⟨rfl, rfl⟩

theorem sampleOf_of_null (h : key value = .ok .null) :
    sampleOf platform key value = none ∧ readsNull key value = true := by
  rw [sampleOf, readsNull, h]
  exact ⟨rfl, rfl⟩

variable {sample : Value}

theorem readsNull_of_ne_null (h : key value = .ok sample) (hnull : sample ≠ .null) :
    readsNull key value = false := by
  rw [readsNull, h]
  cases sample <;> first | rfl | exact absurd rfl hnull

theorem sampleOf_of_excluded (h : key value = .ok sample) (hscale : scaleOf platform sample = none) :
    sampleOf platform key value = none := by
  rw [sampleOf, h]
  exact if_neg (by simp only [hscale]; decide)

theorem sampleOf_of_scale {scale : UInt64} (h : key value = .ok sample)
    (hscale : scaleOf platform sample = some scale) :
    sampleOf platform key value = some sample := by
  rw [sampleOf, h]
  exact if_pos (by simp only [hscale]; rfl)

theorem sumOf_cons {sum : Option Value} :
    (sumOf platform instants sum (sample :: samples)).toOption =
      (addTo platform instants sum sample).toOption.bind fun total =>
        (sumOf platform instants (some total) samples).toOption := by
  rw [sumOf]
  cases addTo platform instants sum sample <;> rfl

/-! ### The record in constant state -/

namespace Running

variable {state : Running}

theorem measuredOf_finish :
    measuredOf (state.finish platform false sawFailure) =
      told state.count state.skipped sawFailure state.sum state.min state.max := by
  rw [finish, told, if_neg Bool.false_ne_true]
  split_ifs
  · rfl
  · exact measuredOf_emitRecord _

/-- A stream that ends is answered with the statistics of its samples, if their sum is formed. -/
theorem measuredOf_read :
    measuredOf (state.read platform instants key false sawFailure events) =
      (sumOf platform instants state.sum (samplesOf platform key events)).toOption.elim []
        fun sum =>
        told (state.count + (samplesOf platform key events).length)
          (state.skipped + nullsOf key events) (sawFailure || failed events) sum
          (leastOf platform state.min (samplesOf platform key events))
          (greatestOf platform state.max (samplesOf platform key events)) := by
  induction events generalizing state sawFailure with
  | nil =>
    rw [read, measuredOf_finish, Bool.or_comm]
    rfl
  | cons event events ih =>
    cases event with
    | failure failure =>
      rw [read, measuredOf_cons_failure, ih, Bool.true_or]
      rw [show failed (.failure failure :: events) = true from rfl, Bool.or_true]
      rfl
    | value value =>
      rw [samplesOf_cons_value, nullsOf_cons_value, read,
        show failed (.value value :: events) = failed events from rfl]
      rcases reading platform key value with
        ⟨failure, hkey⟩ | ⟨hkey⟩ | ⟨sample, hkey, hnull, hscale⟩ |
          ⟨sample, scale, hkey, hnull, hscale⟩
      · obtain ⟨hsample, hreads⟩ := @sampleOf_of_error platform key value failure hkey
        rw [hkey, hsample, hreads]
        simp only [measuredOf_cons_failure, ih, toList_none, nil_append,
          Bool.false_eq_true, if_false, Nat.zero_add]
      · obtain ⟨hsample, hreads⟩ := @sampleOf_of_null platform key value hkey
        rw [hkey, hsample, hreads]
        simp only [answer, Bool.false_eq_true, if_false, ih, toList_none, nil_append,
          if_true, Nat.add_assoc]
      · rw [hkey, sampleOf_of_excluded hkey hscale, readsNull_of_ne_null hkey hnull]
        simp only [hscale, measuredOf_cons_failure, ih, toList_none, nil_append,
          Bool.false_eq_true, if_false, Nat.zero_add]
      · rw [hkey, sampleOf_of_scale hkey hscale, readsNull_of_ne_null hkey hnull,
          toList_some, singleton_append, sumOf_cons]
        simp only [hscale, fold]
        cases hadd : addTo platform instants state.sum sample with
        | error failure => rfl
        | ok total =>
          have hcount : state.count + 1 + (samplesOf platform key events).length =
              state.count + (sample :: samplesOf platform key events).length := by
            rw [length_cons]
            omega
          simp only [Except.map, answer, Bool.false_eq_true, if_false, ih, Nat.zero_add, hcount]
          rfl

end Running

/-! ### The record over the samples that are held -/

section Held

variable {sort : List Value → Option (List Value)} {estimatedSize : Value → ℕ} {budget : Budget}
  {skipped : ℕ}

theorem measuredOf_summarise :
    measuredOf (summarise platform instants samples skipped) =
      (sumOf platform instants none samples).toOption.elim [] fun sum =>
        [⟨samples.length, skipped, orNull sum, orNull samples.head?, orNull samples.getLast?⟩] := by
  rw [summarise]
  cases sumOf platform instants none samples with
  | error failure => rfl
  | ok sum => exact measuredOf_emitRecord _

/-- A stream whose values the budget admits is answered with the statistics of its samples. -/
theorem measuredOf_collect :
    measuredOf
        (collect platform instants key sort estimatedSize budget sawFailure samples skipped
          events) =
      if (budget.chargeAll estimatedSize (valuesOf events)).isOk then
        measuredOf (finish platform instants sort (sawFailure || failed events)
          (samples ++ samplesOf platform key events) (skipped + nullsOf key events))
      else [] := by
  induction events generalizing budget samples sawFailure skipped with
  | nil =>
    rw [collect, Bool.or_comm, show samplesOf platform key [] = [] from rfl, List.append_nil]
    rfl
  | cons event events ih =>
    cases event with
    | failure failure =>
      rw [collect, measuredOf_cons_failure, ih, Bool.true_or]
      rw [show failed (.failure failure :: events) = true from rfl, Bool.or_true]
      rfl
    | value value =>
      rw [samplesOf_cons_value, nullsOf_cons_value, collect,
        show failed (.value value :: events) = failed events from rfl,
        show valuesOf (.value value :: events) = value :: valuesOf events from rfl,
        Budget.chargeAll]
      cases hcharge : budget.charge estimatedSize value with
      | error exceeded => rfl
      | ok left =>
        rcases reading platform key value with
          ⟨failure, hkey⟩ | ⟨hkey⟩ | ⟨sample, hkey, hnull, hscale⟩ |
            ⟨sample, scale, hkey, hnull, hscale⟩
        · obtain ⟨hsample, hreads⟩ := @sampleOf_of_error platform key value failure hkey
          rw [hkey, hsample, hreads]
          simp only [measuredOf_cons_failure, ih, toList_none, nil_append,
            Bool.false_eq_true, if_false, Nat.zero_add]
        · obtain ⟨hsample, hreads⟩ := @sampleOf_of_null platform key value hkey
          rw [hkey, hsample, hreads]
          simp only [ih, toList_none, nil_append, if_true, Nat.add_assoc]
        · rw [hkey, sampleOf_of_excluded hkey hscale, readsNull_of_ne_null hkey hnull]
          simp only [hscale, measuredOf_cons_failure, ih, toList_none, nil_append,
            Bool.false_eq_true, if_false, Nat.zero_add]
        · rw [hkey, sampleOf_of_scale hkey hscale, readsNull_of_ne_null hkey hnull]
          simp only [hscale, ih, toList_some, append_assoc, Bool.false_eq_true,
            if_false, Nat.zero_add]

end Held

end Emitted

end Measure

end OnoSendai.Pipeline
