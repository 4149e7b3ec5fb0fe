import Mathlib.Algebra.Group.Int.Defs
import Mathlib.Algebra.GroupWithZero.Nat
import Mathlib.Data.List.Basic

/-!
# Values, maps and records

The typed data every part of the program exchanges (`ono_value`): the closed list of value
kinds, string-keyed maps that keep their insertion order, and records whose fields are stored
by schema position.

Numbers of fixed width are carried by the unbounded types that contain them, binary
floating-point numbers by their bit pattern, and operating-system paths by their bytes. The
error of a failed call keeps its code and its message; an error that is itself a value keeps what
else it carries, and the errors it was raised from.
-/

namespace OnoSendai

/-! ### Errors -/

/-- The error codes the modelled functions construct or test. -/
inductive ErrorCode
  | typeUnknownField
  | changePlanSealed
  | changePlanNotSealed
  | changePlanExpired
  | changePlanAlreadyApplying
  | changePlanStateInvalid
  | changePlanStoreUnavailable
  | changePlanStoreCorrupt
  | changePlanDriftDetected
  | changeActionNotPlannable
  | changePrepareFailed
  | changeApplyFailed
  | changeTargetUnresolved
  | changeTargetChanged
  | changeVerificationFailed
  | changeVerificationMissing
  | changeIrreversibleNotAccepted
  | changeRiskNotAccepted
  | changeRemoteStateUnknown
  | changePrivilegeRequired
  | changeCapabilityMissing
  | changeResumeRefused
  | recoveryProviderUnavailable
  | recoveryAssetCreateFailed
  | recoveryAssetInvalid
  | recoveryCoverageInsufficient
  | recoveryApplyFailed
  | recoveryVerificationFailed
  | other (spelling : String)
deriving DecidableEq

/-- The dotted name of a code, as the program spells it. -/
def ErrorCode.name : ErrorCode → String
  | typeUnknownField => "type.unknown_field"
  | changePlanSealed => "change.plan_sealed"
  | changePlanNotSealed => "change.plan_not_sealed"
  | changePlanExpired => "change.plan_expired"
  | changePlanAlreadyApplying => "change.plan_already_applying"
  | changePlanStateInvalid => "change.plan_state_invalid"
  | changePlanStoreUnavailable => "change.plan_store_unavailable"
  | changePlanStoreCorrupt => "change.plan_store_corrupt"
  | changePlanDriftDetected => "change.plan_drift_detected"
  | changeActionNotPlannable => "change.action_not_plannable"
  | changePrepareFailed => "change.prepare_failed"
  | changeApplyFailed => "change.apply_failed"
  | changeTargetUnresolved => "change.target_unresolved"
  | changeTargetChanged => "change.target_changed"
  | changeVerificationFailed => "change.verification_failed"
  | changeVerificationMissing => "change.verification_missing"
  | changeIrreversibleNotAccepted => "change.irreversible_not_accepted"
  | changeRiskNotAccepted => "change.risk_not_accepted"
  | changeRemoteStateUnknown => "change.remote_state_unknown"
  | changePrivilegeRequired => "change.privilege_required"
  | changeCapabilityMissing => "change.capability_missing"
  | changeResumeRefused => "change.resume_refused"
  | recoveryProviderUnavailable => "recovery.provider_unavailable"
  | recoveryAssetCreateFailed => "recovery.asset_create_failed"
  | recoveryAssetInvalid => "recovery.asset_invalid"
  | recoveryCoverageInsufficient => "recovery.coverage_insufficient"
  | recoveryApplyFailed => "recovery.apply_failed"
  | recoveryVerificationFailed => "recovery.verification_failed"
  | other spelling => spelling

/-- A structured error: a stable code and the message a person reads. -/
structure ErrorValue where
  code : ErrorCode
  message : String
deriving DecidableEq

/-! ### Values -/

/-- The stable identifier of a schema. -/
structure SchemaId where
  name : String
  version : Nat
deriving DecidableEq

/-- A schema: its identifier and its declared fields, in position order. -/
structure Schema where
  id : SchemaId
  fields : List String
deriving DecidableEq

/-- The position of a declared field. -/
def Schema.positionOf (schema : Schema) (name : String) : Option Nat :=
  schema.fields.idxOf? name

/-- Where a record was observed from. -/
inductive Link
  | onThisHost
  | remote (host : String)
deriving DecidableEq

/-- How an adapted record came to be. -/
structure AdapterTrace where
  adapter : String
  adapterVersion : String
  executable : List UInt8
  executableVersion : Option String
  userInvocation : String
  actualInvocation : String
  decoder : String
  stability : String
  exactness : List (String × String)
  limits : List String
deriving DecidableEq

/-- Who produced a record, when, from what, and against which schema. -/
structure Provenance where
  provider : String
  observed : Option Int
  source : Option String
  link : Link
  schema : SchemaId
  confidence : Option UInt64
  adapter : Option AdapterTrace

/-- An Internet address, by version and number. -/
inductive IpAddr
  | v4 (bits : BitVec 32)
  | v6 (bits : BitVec 128)
deriving DecidableEq

/-- A reference to the thing an error is about. -/
inductive ValueRef (α : Type)
  | path (path : List UInt8)
  | name (name : String)
  | object (schema : SchemaId) (identity : List (String × α))

/-- An error as a value carries it, without the errors it was raised from. -/
structure ErrorDetail (α : Type) where
  error : ErrorValue
  target : Option (ValueRef α)
  help : Option String
  retryable : Option Bool
  metadata : List (String × α)

/-- A value of the program's closed list of kinds. An error comes with the errors it was raised
from, outermost first. -/
inductive Value
  | null
  | bool (flag : Bool)
  | int (number : Int)
  | float (bits : UInt64)
  | decimal (mantissa : Int) (scale : Nat)
  | string (text : String)
  | bytes (content : List UInt8)
  | path (path : List UInt8)
  | timestamp (instant : Int)
  | duration (nanoseconds : Int)
  | byteSize (bytes : Nat)
  | percent (bits : UInt64)
  | regex (source : String)
  | uuid (bits : BitVec 128)
  | ip (address : IpAddr)
  | ipNetwork (address : IpAddr) (prefixLen : Nat)
  | port (number : UInt16)
  | list (items : List Value)
  | map (entries : List (String × Value))
  | record (schema : Schema) (fields : List Value) (extra : List (String × Value))
      (provenance : Provenance)
  | error (error : ErrorDetail Value) (causes : List (ErrorDetail Value))

namespace Value

/-- The stable name of the value's kind. -/
def typeName : Value → String
  | null => "null"
  | bool _ => "bool"
  | int _ => "int"
  | float _ => "float"
  | decimal _ _ => "decimal"
  | string _ => "string"
  | bytes _ => "bytes"
  | path _ => "path"
  | timestamp _ => "timestamp"
  | duration _ => "duration"
  | byteSize _ => "bytesize"
  | percent _ => "percent"
  | regex _ => "regex"
  | uuid _ => "uuid"
  | ip _ => "ip"
  | ipNetwork _ _ => "ipnetwork"
  | port _ => "port"
  | list _ => "list"
  | map _ => "map"
  | record _ _ _ _ => "record"
  | error _ _ => "error"

/-- Whether the value is the known unknown. -/
def isNull : Value → Bool
  | null => true
  | _ => false

end Value

/-! ### Maps -/

/-- A map with string keys, in insertion order. -/
abbrev MapValue : Type :=
  List (String × Value)

/-- The value stored under `key`, if any. -/
def mapGet (entries : MapValue) (key : String) : Option Value :=
  entries.lookup key

/-- Stores `value` under `key`; an existing key keeps its position. -/
def mapInsert : MapValue → String → Value → MapValue
  | [], key, value => [(key, value)]
  | (entry, old) :: rest, key, value =>
    if entry = key then (entry, value) :: rest else (entry, old) :: mapInsert rest key value

/-! ### Records -/

/-- A record: a schema, its field values by position, extensions and provenance. -/
structure RecordValue where
  schema : Schema
  fields : List Value
  extra : MapValue
  provenance : Provenance

namespace RecordValue

/-- A record of `schema` with every field unknown. -/
def builder (schema : Schema) (provenance : Provenance) : RecordValue where
  schema := schema
  fields := List.replicate schema.fields.length .null
  extra := []
  provenance := provenance

/-- Stores `value` in the declared field `name`. -/
def set (record : RecordValue) (name : String) (value : Value) : Except ErrorValue RecordValue :=
  match record.schema.positionOf name with
  | some index => .ok { record with fields := record.fields.set index value }
  | none => .error
      { code := .typeUnknownField
        message := record.schema.id.name ++ "/" ++ toString record.schema.id.version ++
          " has no field `" ++ name ++ "`" }

/-- The value stored under `name`, whether it is a declared field or an extension. -/
def get (record : RecordValue) (name : String) : Option Value :=
  match record.schema.positionOf name with
  | some index => record.fields[index]?
  | none => mapGet record.extra name

/-- The record as an ordinary value. -/
def intoValue (record : RecordValue) : Value :=
  .record record.schema record.fields record.extra record.provenance

end RecordValue

end OnoSendai
