import OnoSendai.Executor.World

/-!
# Resuming an interrupted apply

The action records a run wrote as its actions settled are laid back over the plan, and each
action is asked whether it may be run again. A plan with any action that may not is refused
whole.
-/

namespace OnoSendai

open Interaction

/-- What the persisted records permit. -/
inductive ResumeDecision
  | proceed
  | alreadyComplete
  | requiresRecoveryOrRebase
  | drifted

/-- One action resume may not rerun. -/
structure BlockedAction where
  action : ActionId
  summary : String
  status : ActionStatus
  idempotency : Idempotency
  reason : String

/-- What resume established. -/
structure ResumeOutcome where
  state : PlanState
  decision : ResumeDecision
  resumable : List ActionId
  completed : List ActionId
  blocked : List BlockedAction
  uncertain : List ActionId
  refusal : Option ErrorValue

/-- The status of an action: its record, or what the plan carries where there is none. -/
def recordedStatus (records : Records) (action : PlanAction) : ActionStatus :=
  (records.get action.id).getD action.status

/-- Whether an action may be run again with the status its record gives it. A retry that needs
the original request token is refused: no execution carries one. -/
def mayRerun (records : Records) (action : PlanAction) : Bool :=
  let status := recordedStatus records action
  (action.withStatus status).mayResume &&
    !(status = .failed && action.idempotency = .retrySafeWithToken)

/-- Why an action in this state is not rerun. -/
def refusalReason : ActionStatus → Idempotency → String
  | .unknown, _ =>
    "its outcome was never established and its contract does not permit a blind rerun " ++
      "(§41.2, Appendix F.2)"
  | .running, _ =>
    "it was in flight when the shell stopped and its contract does not permit a blind " ++
      "rerun (§41.2)"
  | .failed, .retrySafeWithToken =>
    "its contract permits a retry only with the original request token, and that token " ++
      "cannot be presented: no execution path carries one yet (§41.1, §41.2)"
  | .failed, _ =>
    "it failed and its contract does not accept a retry, with or without a request token (§41.1)"
  | _, _ => "its prior status and idempotency class do not permit continuing it (§41.3)"

/-- The actions that already succeeded. -/
def completedActions (plan : ChangePlan) (records : Records) : List PlanAction :=
  plan.actions.filter fun action => recordedStatus records action = .succeeded

/-- The actions that did not succeed and may be run again. -/
def resumableActions (plan : ChangePlan) (records : Records) : List PlanAction :=
  plan.actions.filter fun action =>
    recordedStatus records action ≠ .succeeded && mayRerun records action

/-- The actions that did not succeed and may not be run again. -/
def blockedActions (plan : ChangePlan) (records : Records) : List PlanAction :=
  plan.actions.filter fun action =>
    recordedStatus records action ≠ .succeeded && !mayRerun records action

/-- The state the persisted records reconstruct to. -/
def reconstructedState (plan : ChangePlan) (records : Records) : PlanState :=
  let mutating := plan.actions.filter (·.role.mutatesTarget)
  let observed := mutating.filterMap fun action => records.get action.id
  if plan.state.isTerminal || plan.state.isVerdict then plan.state
  else if observed.isEmpty then plan.state
  else if .failed ∈ observed then .applyFailed
  else if observed.length = mutating.length && observed.all (· = .succeeded) then .verifying
  else .applying

/-- The decision the records permit, told what revalidation found since the interruption. -/
def resumeOutcome (plan : ChangePlan) (records : Records) (drift : List DriftFinding) :
    ResumeOutcome :=
  let completed := completedActions plan records
  let resumable := resumableActions plan records
  let blocked := blockedActions plan records
  let uncertain := plan.actions.filter fun action =>
    recordedStatus records action = .unknown || recordedStatus records action = .running
  let blocking := drift.filter (·.verdict.blocksApply)
  let outcome (decision : ResumeDecision) (refusal : Option ErrorValue) : ResumeOutcome :=
    { state := reconstructedState plan records
      decision := decision
      resumable := resumable.map (·.id)
      completed := completed.map (·.id)
      blocked := blocked.map fun action =>
        { action := action.id
          summary := action.summary
          status := recordedStatus records action
          idempotency := action.idempotency
          reason := refusalReason (recordedStatus records action) action.idempotency }
      uncertain := uncertain.map (·.id)
      refusal := refusal }
  if resumable.isEmpty && blocked.isEmpty then
    outcome .alreadyComplete none
  else if !blocking.isEmpty then
    outcome .drifted (some (.driftDetected plan.id (blocking.map fun finding =>
      (finding.subject, finding.field,
        "changed while the plan was interrupted (§7.3, §41.3)"))))
  else if !blocked.isEmpty then
    outcome .requiresRecoveryOrRebase (some (.resumeRefused plan.id blocked.length))
  else
    outcome .proceed none

/-- Reads the persisted records back and decides what may continue. -/
def resumeWith (plan : ChangePlan) (drift : List DriftFinding) : Program world ResumeOutcome := do
  match ← ask (.actionStatuses plan.id plan.revision) with
  | .ok records => return resumeOutcome plan records drift
  | .error refusal =>
    return {
      state := plan.state
      decision := .requiresRecoveryOrRebase
      resumable := []
      completed := []
      blocked := []
      uncertain := []
      refusal := some refusal }

theorem mayRerun_of_resumeOutcome {plan : ChangePlan} {records : Records}
    (h : (resumeOutcome plan records []).refusal = none) {action : PlanAction}
    (haction : action ∈ plan.actions) (hstatus : recordedStatus records action ≠ .succeeded) :
    mayRerun records action = true := by
  by_contra hrerun
  have hblocked : action ∈ blockedActions plan records := by
    simp only [blockedActions, List.mem_filter]
    exact ⟨haction, by simp [hstatus, hrerun]⟩
  have hne : (blockedActions plan records).isEmpty = false := by
    cases hlist : blockedActions plan records with
    | nil => simp [hlist] at hblocked
    | cons => rfl
  simp [resumeOutcome, hne] at h

end OnoSendai
