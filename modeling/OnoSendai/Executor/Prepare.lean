import OnoSendai.Executor.World

/-!
# Preparation

Before the first mutation the executor asks recovery providers for the assets the plan's policy
requires, and checks each of them. A required asset that could not be created, or that did not
validate, stops the apply with the targets untouched. A resumed plan that already began mutating
takes no new asset: the stored ones are checked again.
-/

namespace OnoSendai

open Interaction

/-- Whether a failure of a protection action must stop the apply before mutation. -/
def requiresProtection (plan : ChangePlan) (action : ProtectionAction) : Bool :=
  action.required || plan.protectionMode.refusesShortfall

/-- What preparation leaves behind, whether or not it succeeds. -/
structure PrepareReport where
  created : List RecoveryAsset
  shortfall : List ProtectionShortfall
  cleanupReport : Option CleanupReport
  quiesceReport : Option QuiesceReport
  failurePoint : Option FailurePoint

/-- The report of a preparation that has not started. -/
def PrepareReport.initial : PrepareReport where
  created := []
  shortfall := []
  cleanupReport := none
  quiesceReport := none
  failurePoint := none

/-- The identities of the assets that still exist. -/
def PrepareReport.retained (report : PrepareReport) : List RecoveryAssetId :=
  let removed := (report.cleanupReport.map (·.removed)).getD []
  (report.created.filter fun asset => asset.id ∉ removed).map (·.id)

/-- What preparation left behind when it succeeded. -/
structure Prepared where
  assets : List RecoveryAsset
  shortfall : List ProtectionShortfall

/-- Nothing prepared. -/
def Prepared.nothing : Prepared where
  assets := []
  shortfall := []

/-! ### Creating and validating -/

/-- Asks one provider to create an asset and then to check it. -/
def createAndValidate (request : ApplyRequest) (action : ProtectionAction) :
    Program world (Except ErrorValue RecoveryAsset) :=
  if action.provider ∈ request.providers then do
    match ← ask (.create action.provider action) with
    | .error refusal => return .error refusal
    | .ok asset =>
      match ← ask (.validate action.provider asset) with
      | .ok validation => return .ok (asset.validated validation)
      | .error refusal =>
        -- A check nobody could make is not protection either: the asset exists and is invalid.
        let unchecked := { RecoveryValidation.none request.now refusal.message with exists' := true }
        return .ok (asset.validated unchecked)
  else
    return .error (.providerUnavailable action.provider)

/-- The state of the loop over the protection actions. -/
structure PrepareState where
  created : List RecoveryAsset
  shortfall : List ProtectionShortfall
  attempted : List EffectDomain
  guarded : List EffectDomain
  failure : Option (FailurePoint × ErrorValue)

/-- The state before the first protection action. -/
def PrepareState.initial : PrepareState where
  created := []
  shortfall := []
  attempted := []
  guarded := []
  failure := none

/-- The report for an optional protection action that did not become protection. -/
def shortfallOf (action : ProtectionAction) (asset : Option RecoveryAsset) (reason : ErrorValue) :
    ProtectionShortfall where
  provider := action.provider
  summary := action.summary
  asset := asset
  reason := reason

/-- The loop state after a protection action produced an asset, usable or not. -/
def PrepareState.withAsset (state : PrepareState) (required : Bool) (action : ProtectionAction)
    (asset : RecoveryAsset) : PrepareState :=
  if asset.isUsable then
    { state with
      created := state.created ++ [asset]
      guarded := state.guarded ++ [action.candidate.domain] }
  else
    let refusal := ErrorValue.assetInvalid asset.id
    if required then
      { state with
        created := state.created ++ [asset]
        failure := some (.recoveryValidation, refusal) }
    else
      { state with
        created := state.created ++ [asset]
        shortfall := state.shortfall ++ [shortfallOf action (some asset) refusal] }

/-- The loop state after a protection action was refused at `point`. -/
def PrepareState.withRefusal (state : PrepareState) (required : Bool) (action : ProtectionAction)
    (point : FailurePoint) (refusal : ErrorValue) : PrepareState :=
  if required then
    { state with failure := some (point, refusal) }
  else
    { state with shortfall := state.shortfall ++ [shortfallOf action none refusal] }

/-- Carries out one protection action. -/
def prepareAction (request : ApplyRequest) (action : ProtectionAction) (state : PrepareState) :
    Program world PrepareState :=
  let state := { state with attempted := state.attempted ++ [action.candidate.domain] }
  let required := requiresProtection request.plan action
  if RecoveryCapability.prepare ∈ request.authority.recovery then do
    match ← createAndValidate request action with
    | .ok asset => return state.withAsset required action asset
    | .error refusal => return state.withRefusal required action .recoveryAssetCreation refusal
  else
    let refusal := ErrorValue.capabilityMissing (Vocabulary.asStr RecoveryCapability.prepare) false
    return state.withRefusal required action .privilegeCheck refusal

/-- Carries out the protection actions in order, up to the first failure. -/
def prepareActions (request : ApplyRequest) :
    List ProtectionAction → PrepareState → Program world PrepareState
  | [], state => return state
  | action :: rest, state => do
    let state ← prepareAction request action state
    match state.failure with
    | some _ => return state
    | none => prepareActions request rest state

/-- The failure of a domain that the sealed matrix shows protected, that preparation set out to
protect, and that no validated asset covers. -/
def PrepareState.uncovered (plan : ChangePlan) (state : PrepareState) :
    Option (FailurePoint × ErrorValue) :=
  (plan.protection.rows.find? fun row =>
      row.isRequired && row.isSatisfied && row.domain ∈ state.attempted &&
        row.domain ∉ state.guarded).map fun row =>
    (.recoveryAssetCreation,
      (state.shortfall.getLast?.map (·.reason)).getD
        (.assetCreateFailed "the protection provider" (Vocabulary.asStr row.domain)))

/-! ### Cleaning up after a failure -/

/-- Whether the provider of an asset is registered and declares that it can remove it. -/
def providerRemoves (request : ApplyRequest) (asset : RecoveryAsset) : Program world Bool :=
  if asset.provider ∈ request.providers then do
    let declared : List RecoveryCapability ← ask (.capabilities asset.provider)
    return decide (RecoveryCapability.cleanup ∈ declared)
  else
    return false

/-- Asks the provider of an asset to remove it. -/
def removeAsset (request : ApplyRequest) (asset : RecoveryAsset) :
    Program world (Except ErrorValue Unit) :=
  if asset.provider ∈ request.providers then ask (.cleanup asset.provider asset)
  else return .error (.providerUnavailable asset.provider)

/-- Why an asset of a failed preparation may not be removed, or `none` where it may. -/
def retentionReason (request : ApplyRequest) (asset : RecoveryAsset) (quiesceHolds : Bool)
    (dependedOn : List RecoveryAssetId) : Program world (Option String) :=
  if asset.sourcePlan ≠ some request.plan.id then
    return some "it was not created solely for this prepare"
  else do
    let removes ← providerRemoves request asset
    if !removes then
      return some "its provider does not declare recovery.cleanup"
    else if RecoveryCapability.cleanup ∉ request.authority.recovery then
      return some "this session does not hold recovery.cleanup"
    else if quiesceHolds then
      return some "the quiesce window did not close, so the asset may still be needed"
    else if asset.id ∈ dependedOn then
      return some "another recovery asset depends on it"
    else if asset.retention.hold then
      return some "an explicit retention hold is on it (§37.2)"
    else
      return none

/-- Removes the assets of a failed preparation where that is permitted. -/
def removeAssets (request : ApplyRequest) (quiesceHolds : Bool)
    (dependedOn : List RecoveryAssetId) :
    List RecoveryAsset → CleanupReport → Program world CleanupReport
  | [], report => return report
  | asset :: rest, report => do
    match ← retentionReason request asset quiesceHolds dependedOn with
    | some reason =>
      removeAssets request quiesceHolds dependedOn rest
        { report with retained := report.retained ++ [(asset.id, reason)] }
    | none =>
      match ← removeAsset request asset with
      | .ok () =>
        removeAssets request quiesceHolds dependedOn rest
          { report with removed := report.removed ++ [asset.id] }
      | .error failure =>
        removeAssets request quiesceHolds dependedOn rest
          { report with
            failures := report.failures ++ [failure]
            retained := report.retained ++ [(asset.id, "the provider could not remove it")] }

/-- What to do with the assets a failed preparation had already created. -/
def runCleanup (request : ApplyRequest) (report : PrepareReport) : Program world CleanupReport :=
  match request.cleanup with
  | .removeWherePermitted =>
    let quiesceHolds := report.quiesceReport.any fun quiesce => !quiesce.resumed
    let dependedOn := report.created.flatMap (·.dependencies)
    removeAssets request quiesceHolds dependedOn report.created
      { removed := [], retained := [], failures := [] }
  | .retain =>
    return {
      removed := []
      retained := report.created.map fun asset =>
        (asset.id, "retained until a cleanup decision (Appendix F)")
      failures := [] }

/-! ### Preparation -/

/-- The report of a quiesce window. -/
def Quiescing.report (quiescing : Quiescing) (paused resumed : Bool)
    (critical : Option ErrorValue) : QuiesceReport where
  application := quiescing.application
  window := quiescing.window
  paused := paused
  resumed := resumed
  critical := critical

/-- Closes the quiesce window: the report, and the failure to close it. -/
def releaseQuiesce (request : ApplyRequest) :
    Program world (Option QuiesceReport × Option ErrorValue) :=
  match request.quiesce with
  | none => return (none, none)
  | some quiescing => do
    match ← ask (.resume quiescing.application) with
    | .ok () => return (some (quiescing.report true true none), none)
    | .error failure => return (some (quiescing.report true false (some failure)), some failure)

/-- Ends a failed preparation: cleans up and reports. -/
def failPrepare (request : ApplyRequest) (report : PrepareReport) (point : FailurePoint)
    (error : ErrorValue) : Program world (PrepareReport × Except ErrorValue Prepared) := do
  let report := { report with failurePoint := some point }
  let cleanup ← runCleanup request report
  return ({ report with cleanupReport := some cleanup }, .error error)

/-- Creates and validates the assets inside the quiesce window, then closes it. -/
def prepareQuiesced (request : ApplyRequest) :
    Program world (PrepareReport × Except ErrorValue Prepared) := do
  let state ← prepareActions request request.protection .initial
  let failure := state.failure.or (state.uncovered request.plan)
  let (quiesce, resumeFailure) ← releaseQuiesce request
  let report : PrepareReport := {
    created := state.created
    shortfall := state.shortfall
    cleanupReport := none
    quiesceReport := quiesce
    failurePoint := none }
  match failure, resumeFailure with
  | some (point, _), _ =>
    failPrepare request report point (.prepareFailed request.plan.id point.asStr)
  | none, some critical => failPrepare request report .applicationQuiesce critical
  | none, none =>
    return (report, .ok {
      assets := state.created.filter (·.isUsable)
      shortfall := state.shortfall })

/-- Creates and validates the recovery assets the policy requires, before any mutation. -/
def prepare (request : ApplyRequest) :
    Program world (PrepareReport × Except ErrorValue Prepared) :=
  match request.quiesce with
  | none => prepareQuiesced request
  | some quiescing => do
    match ← ask (.pause quiescing.application) with
    | .ok () => prepareQuiesced request
    | .error failure =>
      return ({ PrepareReport.initial with
          failurePoint := some .applicationQuiesce
          quiesceReport := some (quiescing.report false true none) }, .error failure)

/-! ### A resumed plan -/

/-- The stored assets that can be read. -/
def readAssets : List RecoveryAssetId → Program world (List RecoveryAsset)
  | [] => return []
  | id :: rest => do
    let asset ← ask (.getAsset id)
    let stored ← readAssets rest
    match asset with
    | .ok asset => return asset :: stored
    | .error _ => return stored

/-- Checks the stored asset behind each required protection action: the assets that validate, and
how many are missing. -/
def checkAssets (request : ApplyRequest) (stored : List RecoveryAsset) :
    List ProtectionAction → List RecoveryAsset → Nat → Program world (List RecoveryAsset × Nat)
  | [], assets, missing => return (assets, missing)
  | action :: rest, assets, missing =>
    match stored.find? fun asset =>
      asset.provider = action.provider &&
        asset.scope.domain = action.proposedAsset.scope.domain with
    | none => checkAssets request stored rest assets (missing + 1)
    | some asset =>
      if asset.provider ∈ request.providers then do
        match ← ask (.validate asset.provider asset) with
        | .ok validation =>
          if (asset.validated validation).isUsable then
            checkAssets request stored rest (assets ++ [asset.validated validation]) missing
          else
            checkAssets request stored rest assets (missing + 1)
        | .error _ => checkAssets request stored rest assets (missing + 1)
      else
        checkAssets request stored rest assets (missing + 1)

/-- Checks, through its provider, the stored asset behind every required protection action of a
resumed plan. -/
def reestablishProtection (request : ApplyRequest) :
    Program world (Except ErrorValue Prepared) :=
  let required := request.protection.filter (requiresProtection request.plan)
  if required.isEmpty then
    return .ok .nothing
  else do
    match ← ask (.assetsFor request.plan.id) with
    | .error refusal => return .error refusal
    | .ok ids =>
      let stored ← readAssets ids
      let (assets, missing) ← checkAssets request stored required [] 0
      if missing = 0 then
        return .ok { assets, shortfall := [] }
      else
        return .error (.coverageInsufficient request.plan.id request.plan.protection.level
          .protected')

end OnoSendai
