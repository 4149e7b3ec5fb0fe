import OnoSendai.Change.Target

/-!
# Protection and risk

Protection is a coverage matrix: one row for each domain a plan mutates, with its own recovery
objective and its own level. The plan-level word is computed from the rows. Risk is a separate
axis: the strongest class any rule found, together with the two acknowledgements an operator can
give.
-/

namespace OnoSendai

open Vocabulary

/-! ### Protection -/

/-- The protection of a whole plan. -/
inductive ProtectionLevel
  | unprotected
  | compensatable
  | partiallyProtected
  | protected'
  | transactional
  | unknown
deriving DecidableEq

instance : Vocabulary ProtectionLevel where
  all := [.unprotected, .compensatable, .partiallyProtected, .protected', .transactional, .unknown]
  asStr
    | .unprotected => "unprotected"
    | .compensatable => "compensatable"
    | .partiallyProtected => "partially-protected"
    | .protected' => "protected"
    | .transactional => "transactional"
    | .unknown => "unknown"
  mem_all member := by cases member <;> decide
  spellings_nodup := by decide

/-- The protection of one mutation domain. -/
inductive DomainProtection
  | unprotected
  | compensatable
  | protected'
  | transactional
  | unknown
deriving DecidableEq

instance : Vocabulary DomainProtection where
  all := [.unprotected, .compensatable, .protected', .transactional, .unknown]
  asStr
    | .unprotected => "unprotected"
    | .compensatable => "compensatable"
    | .protected' => "protected"
    | .transactional => "transactional"
    | .unknown => "unknown"
  mem_all member := by cases member <;> decide
  spellings_nodup := by decide

/-- Whether a domain's protection rests on an image of its prior state. -/
def DomainProtection.isStateImage : DomainProtection → Bool
  | protected' | transactional => true
  | _ => false

/-- What the operator expects of a domain's recovery. -/
inductive RecoveryObjective
  | preserveExact
  | restoreSemantic
  | compensate
  | noRecoveryRequired
  | unknown
deriving DecidableEq

instance : Vocabulary RecoveryObjective where
  all := [.preserveExact, .restoreSemantic, .compensate, .noRecoveryRequired, .unknown]
  asStr
    | .preserveExact => "preserve-exact"
    | .restoreSemantic => "restore-semantic"
    | .compensate => "compensate"
    | .noRecoveryRequired => "no-recovery-required"
    | .unknown => "unknown"
  mem_all member := by cases member <;> decide
  spellings_nodup := by decide

namespace RecoveryObjective

/-- Whether the plan asks for this domain to come back. -/
def isRequired : RecoveryObjective → Bool
  | noRecoveryRequired => false
  | _ => true

/-- Whether a domain's protection meets the objective. -/
def satisfiedBy : RecoveryObjective → DomainProtection → Bool
  | preserveExact, protection => protection.isStateImage
  | restoreSemantic, .compensatable | restoreSemantic, .protected'
  | restoreSemantic, .transactional => true
  | restoreSemantic, _ => false
  | compensate, .compensatable | compensate, .protected' | compensate, .transactional => true
  | compensate, _ => false
  | noRecoveryRequired, _ => true
  | unknown, _ => false

end RecoveryObjective

/-- The consistency of a captured state. -/
inductive ConsistencyClass
  | byteConsistent
  | filesystemConsistent
  | crashConsistent
  | applicationConsistent
  | transactionConsistent
  | unknown
deriving DecidableEq

instance : Vocabulary ConsistencyClass where
  all := [.byteConsistent, .filesystemConsistent, .crashConsistent, .applicationConsistent,
    .transactionConsistent, .unknown]
  asStr
    | .byteConsistent => "byte-consistent"
    | .filesystemConsistent => "filesystem-consistent"
    | .crashConsistent => "crash-consistent"
    | .applicationConsistent => "application-consistent"
    | .transactionConsistent => "transaction-consistent"
    | .unknown => "unknown"
  mem_all member := by cases member <;> decide
  spellings_nodup := by decide

namespace ConsistencyClass

/-- How weak a claim is, strongest first. -/
def rank : ConsistencyClass → Nat
  | transactionConsistent => 0
  | applicationConsistent => 1
  | filesystemConsistent => 2
  | crashConsistent => 3
  | byteConsistent => 4
  | unknown => 5

/-- The weaker of two claims. -/
def weakestOf (self other : ConsistencyClass) : ConsistencyClass :=
  if other.rank ≤ self.rank then self else other

end ConsistencyClass

/-- How far the executor goes to create protection. -/
inductive ProtectionMode
  | off
  | prefer
  | require
  | maximize
deriving DecidableEq

instance : Vocabulary ProtectionMode where
  all := [.off, .prefer, .require, .maximize]
  asStr
    | .off => "off"
    | .prefer => "prefer"
    | .require => "require"
    | .maximize => "maximize"
  mem_all member := by cases member <;> decide
  spellings_nodup := by decide

namespace ProtectionMode

/-- Whether the mode creates recovery assets at all. -/
def createsAssets : ProtectionMode → Bool
  | off => false
  | _ => true

/-- Whether the mode refuses a plan whose protection falls short. -/
def refusesShortfall : ProtectionMode → Bool
  | require => true
  | _ => false

end ProtectionMode

/-- Something a protection claim leaves out. -/
structure CoverageExclusion where
  domain : EffectDomain
  subject : String
  reason : String
  irreversible : Bool

/-- The protection of one mutation domain of a plan. -/
structure DomainCoverage where
  domain : EffectDomain
  objective : RecoveryObjective
  protection : DomainProtection
  assets : List RecoveryAssetId
  consistency : Option ConsistencyClass
  transactionScope : Option String
  exclusions : List CoverageExclusion
  notProtectedBy : List String
  note : String
  policyIrrelevant : Bool

namespace DomainCoverage

/-- Whether the plan requires this domain to come back. -/
def isRequired (row : DomainCoverage) : Bool :=
  row.objective.isRequired && !row.policyIrrelevant

/-- Whether the row's protection meets its objective. -/
def isSatisfied (row : DomainCoverage) : Bool :=
  row.objective.satisfiedBy row.protection

/-- The text a row contributes to a plan digest. -/
def digestText (row : DomainCoverage) : String :=
  asStr row.domain ++ "=" ++ asStr row.objective ++ "/" ++
    asStr row.protection ++ "/" ++ flagText row.policyIrrelevant

end DomainCoverage

/-- The coverage matrix of a plan. -/
structure ProtectionSummary where
  rows : List DomainCoverage
  exclusions : List CoverageExclusion

namespace ProtectionSummary

/-- The summary of a plan nothing was said about. -/
def empty : ProtectionSummary where
  rows := []
  exclusions := []

/-- The summary of a matrix. -/
def of (rows : List DomainCoverage) : ProtectionSummary where
  rows := rows
  exclusions := []

/-- The rows the plan requires. -/
def requiredRows (summary : ProtectionSummary) : List DomainCoverage :=
  summary.rows.filter (·.isRequired)

/-- The required rows that are not satisfied. -/
def shortfall (summary : ProtectionSummary) : List DomainCoverage :=
  summary.requiredRows.filter fun row => !row.isSatisfied

/-- Whether each two neighbours of a list are equal. -/
def allEqual (scopes : List String) : Bool :=
  (scopes.zip scopes.tail).all fun pair => pair.1 = pair.2

/-- The plan-level word, computed from the rows. -/
def level (summary : ProtectionSummary) : ProtectionLevel :=
  let required := summary.requiredRows
  let satisfied := required.countP (·.isSatisfied)
  let scopes := required.filterMap (·.transactionScope)
  let persistent := required.filter (·.domain.isPersistent)
  if required.isEmpty then
    .unprotected
  else if satisfied = 0 then
    if required.all (·.protection = .unknown) then .unknown else .unprotected
  else if satisfied < required.length then
    .partiallyProtected
  else if required.any (·.domain = .unknown) then
    -- An unknown domain caps the answer even when everything else lines up.
    .partiallyProtected
  else if required.all (·.protection = .transactional) && scopes.length = required.length &&
      allEqual scopes then
    .transactional
  else if !persistent.isEmpty then
    if persistent.all fun row =>
        row.protection.isStateImage && (!row.assets.isEmpty || row.transactionScope.isSome) then
      .protected'
    else
      .partiallyProtected
  else
    .compensatable

/-- The text the matrix contributes to a plan digest. -/
def digestText (summary : ProtectionSummary) : String :=
  unitTerminated (summary.rows.map (·.digestText))

end ProtectionSummary

/-! ### Risk -/

/-- The class of a risk. -/
inductive RiskClass
  | low
  | moderate
  | high
  | critical
  | unknown
deriving DecidableEq

instance : Vocabulary RiskClass where
  all := [.low, .moderate, .high, .critical, .unknown]
  asStr
    | .low => "low"
    | .moderate => "moderate"
    | .high => "high"
    | .critical => "critical"
    | .unknown => "unknown"
  mem_all member := by cases member <;> decide
  spellings_nodup := by decide

namespace RiskClass

/-- The rank by which classes are compared: an unknown class sits between moderate and high. -/
def rank : RiskClass → Nat
  | low => 0
  | moderate => 1
  | unknown => 2
  | high => 3
  | critical => 4

/-- The stronger of two classes. -/
def maxOf (self other : RiskClass) : RiskClass :=
  if other.rank ≤ self.rank then self else other

/-- Whether a class has to be acknowledged before a plan is applied. -/
def needsAcknowledgement : RiskClass → Bool
  | high | critical => true
  | _ => false

end RiskClass

/-- The dimension a risk finding is about. -/
inductive RiskDimension
  | scope
  | privilege
  | downtime
  | externalSideEffects
  | irreversibility
  | unknownImpact
  | bulkCount
  | remoteFanout
  | recoveryComplexity
  | rebootRequirement
deriving DecidableEq

instance : Vocabulary RiskDimension where
  all := [.scope, .privilege, .downtime, .externalSideEffects, .irreversibility, .unknownImpact,
    .bulkCount, .remoteFanout, .recoveryComplexity, .rebootRequirement]
  asStr
    | .scope => "scope"
    | .privilege => "privilege"
    | .downtime => "downtime"
    | .externalSideEffects => "external-side-effects"
    | .irreversibility => "irreversibility"
    | .unknownImpact => "unknown-impact"
    | .bulkCount => "bulk-count"
    | .remoteFanout => "remote-fanout"
    | .recoveryComplexity => "recovery-complexity"
    | .rebootRequirement => "reboot-requirement"
  mem_all member := by cases member <;> decide
  spellings_nodup := by decide

/-- What one rule found. -/
structure RiskFinding where
  dimension : RiskDimension
  class' : RiskClass
  rule : String
  reason : String

/-- The text a finding contributes to a plan digest. -/
def RiskFinding.digestText (finding : RiskFinding) : String :=
  finding.rule ++ ":" ++ asStr finding.dimension ++ ":" ++
    asStr finding.class'

/-- An acknowledgement an operator has to give. -/
inductive RequiredAcknowledgement
  | risk (class' : RiskClass)
  | irreversible
deriving DecidableEq

/-- The risk of a plan: what the rules found and what the operator accepted. -/
structure RiskAssessment where
  findings : List RiskFinding
  acceptedIrreversible : Bool
  acceptedRisk : Bool

namespace RiskAssessment

/-- The assessment of a plan no rule was run on. -/
def empty : RiskAssessment where
  findings := []
  acceptedIrreversible := false
  acceptedRisk := false

/-- The strongest class any rule found. -/
def classify (risk : RiskAssessment) : RiskClass :=
  (risk.findings.map (·.class')).foldl RiskClass.maxOf .low

/-- Whether a rule found an irreversible effect. -/
def hasIrreversible (risk : RiskAssessment) : Bool :=
  risk.findings.any (·.dimension = .irreversibility)

/-- The acknowledgements the plan still waits for. -/
def outstandingAcknowledgements (risk : RiskAssessment) : List RequiredAcknowledgement :=
  (if risk.classify.needsAcknowledgement && !risk.acceptedRisk then [.risk risk.classify]
    else []) ++
  (if risk.hasIrreversible && !risk.acceptedIrreversible then [.irreversible] else [])

/-- The text the assessment contributes to a plan digest. -/
def digestText (risk : RiskAssessment) : String :=
  unitTerminated ([asStr risk.classify, flagText risk.acceptedRisk,
    flagText risk.acceptedIrreversible] ++ risk.findings.map (·.digestText))

end RiskAssessment

end OnoSendai
