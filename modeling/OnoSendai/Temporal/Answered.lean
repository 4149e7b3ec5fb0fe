import OnoSendai.Temporal.Gathered

/-!
# The answers of providers in a reconstruction

A provider's answer whose own interval covers the instant should be used: its object is in the
world, and a field it has a value for is known to have it, unless another reading at or before the
instant is newer, or as new and stronger.

An answer that was observed by the instant brings a support, and its reading of a field is reported
unless it ties with another answer whose source comes later. An answer observed after the instant
brings no support and its readings are passed over, so that it is used only where something else
says the same.
-/

namespace OnoSendai.Temporal

open Keyed Contest Reading
open List hiding any_eq_true filter_filter filter_map

/-! ### The contract -/

section Contract

variable (at' : Int) (found : Found) (answers : List HistoricalAnswer)

/-- Whether an answer has a value for a field. -/
def Tells (answer : HistoricalAnswer) (name : String) (value : Value) : Prop :=
  name ∈ answer.record.schema.fields ∧ answer.record.get name = some value ∧ value.isNull = false

end Contract

section Reported

variable {at' : Int} {found : Found} {answers : List HistoricalAnswer}
  {answer : HistoricalAnswer} {name : String} {value : Value} {matrix : SourceMatrix}
  {request : ReconstructionRequest}

variable {id : SpatialId}

end Reported

end OnoSendai.Temporal
