import OnoSendai.Executor.Mutate
import OnoSendai.Executor.Resume

/-!
# Applying a plan

The commitment point: claim, revalidate, check, gate, prepare, mutate, verify. Every step before
preparation refuses with the plan untouched; preparation may leave assets behind and never a
changed target; from the first mutating action onwards the outcome says what ran.
-/

namespace OnoSendai

open Interaction

/-! ### Checks -/

/-- The states an interrupted apply leaves behind, from which it may be resumed. -/
def PlanState.isInterrupted : PlanState → Bool
  | preparing | applying | applyFailed | verifying => true
  | _ => false

/-- Why a plan in this state may not be applied, or resumed where `resume`. -/
def appliability (plan : ChangePlan) (state : PlanState) (now : Int) (resume : Bool) :
    Option ErrorValue :=
  if plan.isExpiredAt now || state = .expired then
    some (.planExpired plan.id)
  else if !resume then
    if state.isAppliable then none else some (.planNotSealed plan.id state)
  else if state.isAppliable || state.isInterrupted then
    none
  else if state.isTerminal || state.isVerdict then
    some (.resumeComplete plan.id state)
  else
    some (.planNotSealed plan.id state)

/-- Whether a record says a mutating action may already have changed the system. -/
def mutationBegan (plan : ChangePlan) (recorded : Records) : Bool :=
  (plan.actions.filter (·.role.mutatesTarget)).any fun action =>
    (recorded.get action.id).any (·.mayHaveMutated)

/-- What a refusal says about one finding: its subject, its field and what was seen of it. -/
def driftRow (finding : DriftFinding) : String × String × String :=
  (finding.subject, finding.field,
    match finding.verdict with
    | .material => "changed materially since the plan was sealed"
    | .unknown => "could not be observed, which is not a pass (§2.4)"
    | .tolerated => "changed within the contract's declared tolerance"
    | .unchanged => "still holds")

/-- What revalidation found: the rows that stop the apply, and the first target that is gone. -/
structure Drift where
  blocking : List (String × String × String)
  vanished : Option String

/-- Takes one action's findings into account. -/
def Drift.withFindings (drift : Drift) (findings : List DriftFinding) : Drift :=
  let blocking := findings.filter (·.verdict.blocksApply)
  { blocking := drift.blocking ++ blocking.map driftRow
    vanished := drift.vanished.or ((blocking.find? fun finding =>
      finding.kind = .existence && finding.verdict = .material).map (·.subject)) }

/-- Takes into account that an action could not be rechecked. -/
def Drift.withRefusal (drift : Drift) (action : PlanAction) (refusal : ErrorValue) : Drift :=
  { drift with
    blocking := drift.blocking ++
      [(action.target.getD action.summary, action.id.body, refusal.message)] }

/-- Rechecks the preconditions of the actions, in order. -/
def revalidateActions : List PlanAction → Drift → Program world Drift
  | [], drift => return drift
  | action :: rest, drift => do
    match ← ask (.revalidate action) with
    | .ok findings => revalidateActions rest (drift.withFindings findings)
    | .error refusal => revalidateActions rest (drift.withRefusal action refusal)

/-- Rechecks the preconditions of every action a resumed apply has not already completed. -/
def revalidatePlan (plan : ChangePlan) (prior : Records) : Program world (Option ErrorValue) := do
  let drift ← revalidateActions
    (plan.actions.filter fun action => prior.get action.id ≠ some .succeeded) ⟨[], none⟩
  match drift.vanished with
  | some subject => return some (.targetChanged subject)
  | none =>
    if drift.blocking.isEmpty then return none
    else return some (.driftDetected plan.id drift.blocking)

/-- What applying needs of the session, checked before anything is prepared. -/
def checkAuthority (request : ApplyRequest) : Option ErrorValue :=
  let plan := request.plan
  let forRecovery := plan.kind = .recovery
  if plan.mutates && ChangeCapability.actionExecute ∉ request.authority.change then
    some (.capabilityMissing (Vocabulary.asStr ChangeCapability.actionExecute) forRecovery)
  else if plan.actions.any (·.requiresPrivilege && !request.authority.elevated) then
    some (.privilegeRequired "elevated privilege" forRecovery)
  else if request.protection.any (requiresProtection plan) &&
      RecoveryCapability.prepare ∉ request.authority.recovery then
    some (.capabilityMissing (Vocabulary.asStr RecoveryCapability.prepare) false)
  else
    none

/-- A policy that demands protection refuses when discovery found none. -/
def checkDiscovery (request : ApplyRequest) : Option ErrorValue :=
  let plan := request.plan
  if !plan.protectionMode.refusesShortfall || !plan.mutates then
    none
  else if request.protection.any (requiresProtection plan) && plan.protection.shortfall.isEmpty then
    none
  else
    some (.coverageInsufficient plan.id plan.protection.level .protected')

/-- The acknowledgements the sealed revision must already carry. -/
def checkGates (plan : ChangePlan) : Option ErrorValue :=
  let outstanding := plan.outstandingAcknowledgements
  if .irreversible ∈ outstanding then
    some (.irreversibleNotAccepted plan.id (plan.risk.findings.map (·.reason)))
  else
    outstanding.findSome? fun
      | .risk class' => some (.riskNotAccepted plan.id class')
      | .irreversible => none

theorem checkGates_eq_none_iff (plan : ChangePlan) :
    checkGates plan = none ↔ plan.outstandingAcknowledgements = [] := by
  unfold checkGates
  cases h : plan.outstandingAcknowledgements with
  | nil => simp
  | cons needed rest =>
    cases needed <;> simp
    grind

/-! ### Durable evidence -/

/-- Writes a lifecycle state. A refusal of the store is kept beside the outcome. -/
def writeState (request : ApplyRequest) (state : PlanState) : Program world Unit := do
  let _ ← ask (.recordState request.plan.id request.plan.revision state)
  return ()

/-- Persists assets, attributed to the plan. -/
def persistAssets (sha256 : Sha256) (request : ApplyRequest) :
    List RecoveryAsset → Program world Unit
  | [] => return ()
  | asset :: rest => do
    let attributed :=
      if asset.sourcePlan.isSome then asset else asset.forPlan sha256 request.plan.id
    let _ ← ask (.putAsset attributed)
    persistAssets sha256 request rest

/-- What the store holds about this plan revision: its state and its action records. -/
def durableEvidence (plan : ChangePlan) :
    Program world (Except ErrorValue (PlanState × Records)) := do
  match ← ask (.getRevision plan.id plan.revision) with
  | .error refusal => return .error refusal
  | .ok stored =>
    match ← ask (.actionStatuses plan.id plan.revision) with
    | .error refusal => return .error refusal
    | .ok recorded => return .ok (stored.state, recorded)

/-- The records a run starts from: none for a fresh apply, and for a resumed one those the store
holds, where they permit it to continue. -/
def priorRecords (request : ApplyRequest) (recorded : Records) :
    Program world (Except ErrorValue Records) :=
  if request.resume then do
    let decision ← resumeWith request.plan []
    match decision.refusal with
    | some refusal => return .error refusal
    | none => return .ok recorded
  else
    return .ok []

/-! ### The protocol -/

section Protocol

variable (sha256 : Sha256) (render : Renderings) (request : ApplyRequest)

/-- The outcome of a failed preparation. -/
def prepareFailedOutcome (report : PrepareReport) (refusal : ErrorValue) : ApplyOutcome :=
  { refused request.plan (report.failurePoint.getD .recoveryAssetCreation) refusal with
    state := .prepareFailed
    assets := report.created
    retained := report.retained
    quiesce := report.quiesceReport
    cleanup := report.cleanupReport
    shortfall := report.shortfall }

/-- Establishes the protection mutation rests on: nothing where none is planned, new assets for a
plan that has not begun mutating, and the stored ones for a plan that has. -/
def establishProtection (began : Bool) (durable : PlanState) (recorded : Records) :
    Program world (Except ApplyOutcome (Prepared × PrepareReport)) :=
  if began then do
    match ← reestablishProtection request with
    | .ok prepared => return .ok (prepared, .initial)
    | .error refusal =>
      return .error (refusedOnEvidence request.plan .recoveryValidation refusal durable recorded)
  else if request.protection.isEmpty then
    return .ok (.nothing, .initial)
  else do
    writeState request .preparing
    let (report, prepared) ← prepare request
    match prepared with
    | .ok prepared => return .ok (prepared, report)
    | .error refusal =>
      persistAssets sha256 request report.created
      writeState request .prepareFailed
      return .error (prepareFailedOutcome request report refusal)

/-- The checks once the records have been read: revalidation, authority, discovery, the gate and
the protection mutation rests on. -/
def admitChecked (durable : PlanState) (recorded prior : Records) :
    Program world (Except ApplyOutcome (Prepared × PrepareReport)) := do
  match ← revalidatePlan request.plan prior with
  | some refusal => return .error (refused request.plan .targetRevalidation refusal)
  | none =>
    match checkAuthority request with
    | some refusal => return .error (refused request.plan .privilegeCheck refusal)
    | none =>
      match checkDiscovery request with
      | some refusal => return .error (refused request.plan .recoveryDiscovery refusal)
      | none =>
        match checkGates request.plan with
        | some refusal => return .error (refused request.plan .gate refusal)
        | none =>
          establishProtection sha256 request (mutationBegan request.plan recorded) durable recorded

/-- Everything an apply does under the claim before it mutates: the outcome it is refused with, or
the records and the protection the mutation starts from. -/
def admitRequest : Program world (Except ApplyOutcome (Records × Prepared × PrepareReport)) := do
  match ← durableEvidence request.plan with
  | .error refusal => return .error (refused request.plan .planState refusal)
  | .ok (durable, recorded) =>
    match appliability request.plan durable request.now request.resume with
    | some refusal =>
      return .error (refusedOnEvidence request.plan .planState refusal durable recorded)
    | none =>
      if mutationBegan request.plan recorded && !request.resume then
        return .error (refusedOnEvidence request.plan .planState
          (.planNotSealed request.plan.id .applying) durable recorded)
      else
        match ← priorRecords request recorded with
        | .error refusal =>
          return .error (refusedOnEvidence request.plan .planState refusal durable recorded)
        | .ok prior =>
          match ← admitChecked sha256 request durable recorded prior with
          | .error outcome => return .error outcome
          | .ok (prepared, report) => return .ok (prior, prepared, report)

/-- Mutates under the protection that was established, and makes the end durable. -/
def applyPrepared (prior : Records) (prepared : Prepared) (report : PrepareReport) :
    Program world ApplyOutcome := do
  persistAssets sha256 request (keptAssets prepared)
  writeState request .applying
  let (outcome, held) ← mutate render request prepared report prior
  -- A session that lost the claim to another writes nothing over what that one holds.
  if held then do
    writeState request outcome.state
    return outcome
  else
    return outcome

/-- What an apply does while it holds the claim. -/
def applyClaimed : Program world ApplyOutcome := do
  match ← admitRequest sha256 request with
  | .error outcome => return outcome
  | .ok (prior, prepared, report) => applyPrepared sha256 render request prior prepared report

/-- Why a request is refused before the claim is taken. A plan another session is applying reads
as in flight here, and only the claim can say which session that is. -/
def refusedUnclaimed : Option ErrorValue :=
  let plan := request.plan
  let inFlight := plan.state = .preparing || plan.state = .applying || plan.state = .verifying
  (if !inFlight || request.resume then
      appliability plan plan.state request.now request.resume
    else none).or
    (if plan.digestHolds sha256 render then none else some .storeCorrupt)

/-- Applies a plan: claims it, does everything under the claim, and releases it. -/
def apply : Program world ApplyOutcome :=
  match refusedUnclaimed sha256 render request with
  | some refusal => return refused request.plan .planState refusal
  | none => do
    match ← ask (.claim request.plan.id request.session request.now) with
    | .error refusal => return refused request.plan .claim refusal
    | .ok () =>
      let outcome ← applyClaimed sha256 render request
      let _ ← ask (.release request.plan.id request.session)
      return outcome

end Protocol

end OnoSendai
