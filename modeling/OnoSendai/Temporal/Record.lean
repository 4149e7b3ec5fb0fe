import OnoSendai.Temporal.Coverage

/-!
# The other records of a ledger

What a ledger keeps beside its events: the evidence a historical claim rests on, the causal links
between events, the actions that were asked for through the program, and the checkpoints a
reconstruction starts from.
-/

namespace OnoSendai.Temporal

/-! ### Evidence -/

/-- How strongly a source supports a claim. -/
inductive EvidenceStrength
  | authoritative
  | asserted
  | derived
  | correlated
  | observational

/-- Where a strength sits in the order; higher is stronger. -/
def EvidenceStrength.rank : EvidenceStrength → Nat
  | observational => 0
  | correlated => 1
  | derived => 2
  | asserted => 3
  | authoritative => 4

/-- The weaker of two strengths. -/
def EvidenceStrength.weakestOf (strength other : EvidenceStrength) : EvidenceStrength :=
  if strength.rank ≤ other.rank then strength else other

/-- A handle to material a source owns. -/
structure OpaqueReference where
  source : EvidenceSource
  handle : String

/-- What a piece of evidence claims. -/
inductive EvidenceClaim
  | objectExisted (moment : Int)
  | objectAbsent (span : TimeRange)
  | fieldValue (field : String) (value : Value) (moment : Int)
  | relationHeld (relation : String) (other : SpatialId) (span : TimeRange)
  | transition (field : String) (before after : Value) (moment : Int)
  | transaction (token : String) (moment : Int)
  | sourceStatement (text : String)

/-- Why a historical claim is believed. -/
structure Evidence where
  evidenceId : EvidenceId
  source : EvidenceSource
  observedAt : Int
  sourceTime : Option Int
  scope : SpatialScope
  subject : Option SpatialId
  claim : EvidenceClaim
  strength : EvidenceStrength
  rawRef : Option OpaqueReference
  derivedFrom : List EvidenceId
  provenance : Provenance

/-! ### Causal links -/

/-- The classes of relationship between two events. -/
inductive CausalRelation
  | causedBy
  | triggeredBy
  | resultedIn
  | correlatedWith
  | precededBy

/-- The rule that emitted a link. -/
structure CausalRuleId where
  text : String

/-- A typed relationship between two events. -/
structure CausalLink where
  linkId : CausalLinkId
  relation : CausalRelation
  cause : EventId
  effect : EventId
  rule : CausalRuleId
  evidence : List EvidenceId
  strength : EvidenceStrength
  source : EvidenceSource

/-! ### Actions -/

/-- What allowed an action to run. -/
inductive AuthorizationDecision
  | allowed
  | confirmed
  | denied
  | notRequired

/-- Why an action was permitted to run. -/
structure AuthorizationSummary where
  decision : AuthorizationDecision
  risk : String
  capability : Option String
  reason : Option String

/-- How an action ended. -/
inductive ActionOutcome
  | succeeded
  | failed
  | cancelled

/-- What came of an action. -/
structure ActionResultSummary where
  outcome : ActionOutcome
  completedAt : Int
  detail : Option String
  errorCode : Option String

/-- A mutation that was asked for; its command is the redacted summary. -/
structure ActionEvent where
  actionId : ActionId
  command : String
  actor : String
  sessionId : String
  requestedAt : Int
  target : Option SpatialId
  operation : String
  authorization : AuthorizationSummary
  result : Option ActionResultSummary
  externalTransaction : Option String
  provenance : Provenance

/-! ### Checkpoints -/

/-- How well an edge is known. -/
inductive Confidence
  | exact
  | strong
  | inferred
  | userDeclared
  | unknown

/-- An object as one source observed it. -/
structure ObjectState where
  id : SpatialId
  objectType : SpatialType
  label : String
  record : RecordValue
  observedAt : Int
  source : EvidenceSource

/-- A relationship as one source observed it. -/
structure RelationState where
  near : SpatialId
  far : SpatialId
  relation : String
  confidence : Confidence
  observedAt : Int
  source : EvidenceSource

/-- A bounded retained projection of the state of a scope. -/
structure Checkpoint where
  checkpointId : CheckpointId
  scope : SpatialScope
  capturedAt : Int
  coverage : List TemporalCoverage
  objects : List ObjectState
  relations : List RelationState
  provenance : Provenance

end OnoSendai.Temporal
