import OnoSendai.Change.Protection

/-!
# Recovery assets

What a recovery asset is, what it covers, and the validation that alone makes it usable. Spans
of time are in nanoseconds.
-/

namespace OnoSendai

/-! ### Vocabularies -/

/-- What kind of recovery point an asset is. -/
inductive RecoveryAssetType
  | zfsSnapshot
  | btrfsSnapshot
  | lvmSnapshot
  | fileArchive
  | configurationBackup
  | vmSnapshot
  | containerCheckpoint
  | databaseCheckpoint
  | transactionSavepoint
  | timedReversion
  | packageRecoveryMetadata
deriving DecidableEq

/-- Whether an asset of this type is a copy of the data rather than a reference to shared
extents. -/
def RecoveryAssetType.isIndependentCopy : RecoveryAssetType → Bool
  | fileArchive | configurationBackup => true
  | _ => false

/-- The state of an asset. -/
inductive AssetState
  | proposed
  | creating
  | ready
  | invalid
  | expired
  | removed
  | failed
deriving DecidableEq

instance : Vocabulary AssetState where
  all := [.proposed, .creating, .ready, .invalid, .expired, .removed, .failed]
  asStr
    | .proposed => "proposed"
    | .creating => "creating"
    | .ready => "ready"
    | .invalid => "invalid"
    | .expired => "expired"
    | .removed => "removed"
    | .failed => "failed"
  mem_all member := by cases member <;> decide
  spellings_nodup := by decide

/-- Whether an asset in this state can be recovered from. -/
def AssetState.isUsable : AssetState → Bool
  | ready => true
  | _ => false

/-- How an asset is used to put state back. -/
inductive RestoreMethod
  | providerNativeRestore
  | selectiveFileRestore
  | cloneAndCopy
  | subvolumeReplacement
  | datasetRollback
  | offlineRootRecovery
  | compensation
deriving DecidableEq

instance : Vocabulary RestoreMethod where
  all := [.providerNativeRestore, .selectiveFileRestore, .cloneAndCopy, .subvolumeReplacement,
    .datasetRollback, .offlineRootRecovery, .compensation]
  asStr
    | .providerNativeRestore => "provider-native-restore"
    | .selectiveFileRestore => "selective-file-restore"
    | .cloneAndCopy => "clone-and-copy"
    | .subvolumeReplacement => "subvolume-replacement"
    | .datasetRollback => "dataset-rollback"
    | .offlineRootRecovery => "offline-root-recovery"
    | .compensation => "compensation"
  mem_all member := by cases member <;> decide
  spellings_nodup := by decide

namespace RestoreMethod

/-- How much unrelated state the method risks, least first. -/
def destructiveness : RestoreMethod → Nat
  | providerNativeRestore => 0
  | selectiveFileRestore => 1
  | cloneAndCopy => 2
  | compensation => 3
  | subvolumeReplacement => 4
  | datasetRollback => 5
  | offlineRootRecovery => 6

/-- Whether the method discards state written after the asset was captured. -/
def discardsNewerState : RestoreMethod → Bool
  | datasetRollback | subvolumeReplacement | offlineRootRecovery => true
  | _ => false

/-- Whether the method restores prior state rather than approximating it. -/
def restoresPriorState : RestoreMethod → Bool
  | compensation => false
  | _ => true

end RestoreMethod

/-! ### Assets -/

/-- The persistence domain an asset captures. -/
structure RecoveryScope where
  domain : String
  domainKind : String
  covers : List String
  host : String
deriving DecidableEq

/-- Whether the scope names an object, exactly. -/
def RecoveryScope.coversObject (scope : RecoveryScope) (object : String) : Bool :=
  scope.covers.any (· = object)

/-- What checking an asset established. -/
structure RecoveryValidation where
  exists' : Bool
  identityMatches : Bool
  scopeMatches : Bool
  restoreAvailable : Bool
  permissionsPresent : Bool
  at' : Int
  detail : String
deriving DecidableEq

namespace RecoveryValidation

/-- A validation in which no check passed. -/
def none (instant : Int) (detail : String) : RecoveryValidation where
  exists' := false
  identityMatches := false
  scopeMatches := false
  restoreAvailable := false
  permissionsPresent := false
  at' := instant
  detail := detail

/-- Whether every check passed. -/
def isComplete (validation : RecoveryValidation) : Bool :=
  validation.exists' && validation.identityMatches && validation.scopeMatches &&
    validation.restoreAvailable && validation.permissionsPresent

end RecoveryValidation

/-- What an asset costs to create and keep. -/
structure RecoveryCost where
  initialBytes : Option Nat
  retainedBytes : Option Nat
  estimated : Bool
  creationLatency : Option Nat
  ioOverhead : Option UInt64
  quiesce : Option Nat
  requiresReboot : Bool
  requiresOffline : Bool
  cleanupLatency : Option Nat
deriving DecidableEq

/-- How long an asset is kept. -/
structure RetentionPolicy where
  afterVerification : Nat
  hold : Bool
deriving DecidableEq

/-- Something an asset does not capture. -/
structure RecoveryExclusion where
  subject : String
  reason : String
deriving DecidableEq

/-- A recovery point, proposed or existing. -/
structure RecoveryAsset where
  id : RecoveryAssetId
  provider : String
  assetType : RecoveryAssetType
  reference : String
  scope : RecoveryScope
  createdAt : Int
  sourcePlan : Option PlanId
  state : AssetState
  consistency : ConsistencyClass
  restoreMethod : RestoreMethod
  validation : Option RecoveryValidation
  retention : RetentionPolicy
  cost : RecoveryCost
  dependencies : List RecoveryAssetId
  exclusions : List RecoveryExclusion
  capturedState : Option String
  expiresAt : Option Int
  sharesFailureDomain : Bool
deriving DecidableEq

/-- The identity of an asset a provider created over a scope. -/
def RecoveryAssetId.of (sha256 : Sha256) (provider : String) (plan : Option PlanId)
    (scope createdAt : String) : RecoveryAssetId :=
  HexId.derive sha256 [provider, (plan.map (·.body)).getD "", scope, createdAt]

namespace RecoveryAsset

/-- Attributes the asset to a plan. -/
def forPlan (sha256 : Sha256) (asset : RecoveryAsset) (plan : PlanId) : RecoveryAsset :=
  { asset with
    id := RecoveryAssetId.of sha256 asset.provider (some plan) asset.scope.domain
      (toString asset.createdAt)
    sourcePlan := some plan }

/-- The asset after a validation, which decides whether it is ready. -/
def validated (asset : RecoveryAsset) (validation : RecoveryValidation) : RecoveryAsset :=
  { asset with
    state := if validation.isComplete then .ready else .invalid
    validation := some validation }

/-- Whether the asset can be recovered from. -/
def isUsable (asset : RecoveryAsset) : Bool :=
  asset.state.isUsable

@[simp]
theorem isUsable_validated (asset : RecoveryAsset) (validation : RecoveryValidation) :
    (asset.validated validation).isUsable = validation.isComplete := by
  unfold validated isUsable
  split_ifs with h <;> simp [h, AssetState.isUsable]

end RecoveryAsset

/-! ### Protection actions -/

/-- What a provider offers to protect, and how. -/
structure RecoveryCandidate where
  provider : String
  scope : RecoveryScope
  domain : EffectDomain
  objective : RecoveryObjective
  consistency : ConsistencyClass
  restoreMethod : RestoreMethod
  cost : RecoveryCost
  exclusions : List RecoveryExclusion
  creationRequirements : List String
  restoreRequirements : List String
  notProtecting : List String
  detail : String
deriving DecidableEq

/-- One asset a plan asks a provider for. -/
structure ProtectionAction where
  provider : String
  summary : String
  candidate : RecoveryCandidate
  proposedAsset : RecoveryAsset
  required : Bool
deriving DecidableEq

/-- What a recovery provider can be asked to do. -/
inductive RecoveryCapability
  | discover
  | prepare
  | restore
  | cleanup
  | estimateCost
  | quiesce
  | transaction
deriving DecidableEq

instance : Vocabulary RecoveryCapability where
  all := [.discover, .prepare, .restore, .cleanup, .estimateCost, .quiesce, .transaction]
  asStr
    | .discover => "recovery.discover"
    | .prepare => "recovery.prepare"
    | .restore => "recovery.restore"
    | .cleanup => "recovery.cleanup"
    | .estimateCost => "recovery.estimate-cost"
    | .quiesce => "recovery.quiesce"
    | .transaction => "recovery.transaction"
  mem_all member := by cases member <;> decide
  spellings_nodup := by decide

/-- What a change provider can be asked to do. -/
inductive ChangeCapability
  | planRead
  | planContribute
  | actionExecute
  | verificationObserve
deriving DecidableEq

instance : Vocabulary ChangeCapability where
  all := [.planRead, .planContribute, .actionExecute, .verificationObserve]
  asStr
    | .planRead => "change.plan.read"
    | .planContribute => "change.plan.contribute"
    | .actionExecute => "change.action.execute"
    | .verificationObserve => "verification.observe"
  mem_all member := by cases member <;> decide
  spellings_nodup := by decide

end OnoSendai
