import OnoSendai.Value.Show

/-!
# Stages of a pipeline

What the stages that retain values share (`ono_value::budget`, `ono_pipeline`): a budget that
refuses a value that would cross a ceiling, in values or in bytes, the key a stage reads of a
value, and what a stage emits: values, and failures that do not end it.

The estimate of a value's bytes is that of its allocations, which a value here does not have; it is
given.
-/

namespace OnoSendai.Pipeline

/-! ### Budgets -/

/-- The greatest figure of a budget. -/
def maxFigure : ℕ :=
  2 ^ 64 - 1

/-- A ceiling of a budget. -/
inductive Ceiling
  | items
  | bytes

/-- The error code a ceiling raises. -/
def Ceiling.code : Ceiling → ErrorCode
  | items => .other "resource.item_limit"
  | bytes => .other "resource.byte_limit"

/-- What a ceiling counts. -/
def Ceiling.noun : Ceiling → String
  | items => "values"
  | bytes => "bytes"

/-- A count of bytes in the largest unit that fits, with a tenth where there is one. -/
def humanBytes (bytes : ℕ) : String :=
  match [("GiB", 2 ^ 30), ("MiB", 2 ^ 20), ("KiB", 2 ^ 10), ("B", 1)].find? (·.2 ≤ bytes) with
  | none => "0 B"
  | some (name, scale) =>
    if bytes % scale * 10 / scale = 0 then toString (bytes / scale) ++ " " ++ name
    else toString (bytes / scale) ++ "." ++ toString (bytes % scale * 10 / scale) ++ " " ++ name

/-- A ceiling as it is written. -/
def Ceiling.written (ceiling : Ceiling) (configured : ℕ) : String :=
  match ceiling with
  | items => toString configured ++ " values"
  | bytes => toString configured ++ " bytes (" ++ humanBytes configured ++ ")"

/-- A ceiling that was reached. -/
structure Exceeded where
  stage : String
  ceiling : Ceiling
  configured : ℕ
  observed : ℕ

/-- The refusal as an error. -/
def Exceeded.intoError (exceeded : Exceeded) : ErrorValue where
  code := exceeded.ceiling.code
  message := exceeded.stage ++ " reached its " ++ exceeded.ceiling.written exceeded.configured ++
    " budget after " ++ toString exceeded.observed ++ " " ++ exceeded.ceiling.noun

/-- What a stage may retain, and what it has spent. -/
structure Budget where
  stage : String
  maxItems : ℕ
  maxBytes : ℕ
  consumedItems : ℕ
  consumedBytes : ℕ

/-- What a materializing stage may collect. -/
structure MaterializationLimits where
  maxItems : ℕ
  maxBytes : ℕ

/-- A fresh budget of a stage. -/
def MaterializationLimits.budgetFor (limits : MaterializationLimits) (stage : String) : Budget where
  stage := stage
  maxItems := limits.maxItems
  maxBytes := limits.maxBytes
  consumedItems := 0
  consumedBytes := 0

namespace Budget

/-- Admits a payload of some bytes as one value, or refuses it. -/
def chargeEstimate (budget : Budget) (bytes : ℕ) : Except Exceeded Budget :=
  let items := min (budget.consumedItems + 1) maxFigure
  let consumed := min (budget.consumedBytes + bytes) maxFigure
  if budget.maxItems < items then .error ⟨budget.stage, .items, budget.maxItems, items⟩
  else if budget.maxBytes < consumed then .error ⟨budget.stage, .bytes, budget.maxBytes, consumed⟩
  else .ok { budget with consumedItems := items, consumedBytes := consumed }

variable (estimatedSize : Value → ℕ)

/-- Admits a value, or refuses it. -/
def charge (budget : Budget) (value : Value) : Except Exceeded Budget :=
  budget.chargeEstimate (estimatedSize value)

/-- Admits values one after another, or refuses one. -/
def chargeAll (budget : Budget) : List Value → Except Exceeded Budget
  | [] => .ok budget
  | value :: values =>
    match budget.charge estimatedSize value with
    | .error exceeded => .error exceeded
    | .ok budget => chargeAll budget values

/-- Whether a budget admits values. -/
def Admits (budget : Budget) (values : List Value) : Prop :=
  (budget.chargeAll estimatedSize values).isOk

end Budget

/-! ### Keys and emissions -/

/-- The key a stage reads of a value, or the failure of reading it. -/
abbrev KeyFn : Type :=
  Value → Except ErrorValue Value

/-- The values whose key is read, each with its key. -/
def readable (key : KeyFn) (values : List Value) : List (Value × Value) :=
  values.filterMap fun value => (key value).toOption.map fun known => (known, value)

/-- What a stage emits: a value, or a failure that does not end it. -/
inductive Emission
  | value (value : Value)
  | failure (failure : ErrorValue)

/-- What a stage has to tell as it reads: a row, or a failure that does not end it. -/
inductive Event (ρ : Type)
  | row (row : ρ)
  | failure (failure : ErrorValue)

/-- The rows that are told. -/
def rows {ρ : Type} (events : List (Event ρ)) : List ρ :=
  events.filterMap fun
    | .row row => some row
    | .failure _ => none

/-- Null for a value that is not there. -/
def orNull (value : Option Value) : Value :=
  value.getD .null

/-- The provenance of a record that a stage builds. -/
def provenance (schema : Schema) : Provenance where
  provider := "ono.pipeline"
  observed := none
  source := none
  link := .onThisHost
  schema := schema.id
  confidence := none
  adapter := none

/-- Printers whose libraries print nothing. -/
def silent : Printers where
  float _ := ""
  twoPlaces _ := ""
  timestamp _ := ""
  path _ := ""
  address _ := ""
  identity _ := ⟨[], []⟩

variable {key : KeyFn} {values : List Value}

theorem mem_readable {known value : Value} :
    (known, value) ∈ readable key values ↔ value ∈ values ∧ key value = .ok known := by
  rw [readable, List.mem_filterMap]
  constructor
  · rintro ⟨other, hother, hsome⟩
    cases hkey : key other with
    | error failure =>
      rw [hkey] at hsome
      cases hsome
    | ok found =>
      rw [hkey] at hsome
      cases hsome
      exact ⟨hother, hkey⟩
  · rintro ⟨hvalue, hkey⟩
    refine ⟨value, hvalue, ?_⟩
    rw [hkey]
    rfl

theorem readable_cons_ok {known value : Value} (h : key value = .ok known) :
    readable key (value :: values) = (known, value) :: readable key values := by
  rw [readable, List.filterMap_cons, h]
  rfl

theorem readable_cons_error {value : Value} {failure : ErrorValue}
    (h : key value = .error failure) : readable key (value :: values) = readable key values := by
  rw [readable, List.filterMap_cons, h]
  rfl

section Events

variable {ρ : Type} {events : List (Event ρ)}

theorem rows_map_row (found : List ρ) (events : List (Event ρ)) :
    rows (found.map .row ++ events) = found ++ rows events := by
  rw [rows, List.filterMap_append, List.filterMap_map]
  exact congrArg (· ++ _) List.filterMap_some

theorem rows_map_failure (failures : List ErrorValue) (events : List (Event ρ)) :
    rows (failures.map .failure ++ events) = rows events := by
  induction failures with
  | nil => rfl
  | cons failure failures ih => exact ih

end Events

end OnoSendai.Pipeline
