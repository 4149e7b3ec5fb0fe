import OnoSendai.Change.Refusal
import OnoSendai.Lib.Program

/-!
# What the executor reaches the world through

Applying a plan reads and writes the plan store, asks recovery providers for assets, and goes
through the caller's functions to recheck preconditions, carry out actions and observe contracts.
Each of these is a call of the executor's programs; what the world answers is left open here and
fixed, where a result needs it, by a machine.
-/

namespace OnoSendai

open Interaction

/-! ### Answers -/

/-- What carrying out one action established. -/
inductive ExecutionOutcome
  | succeeded
  | failed (error : ErrorValue)
  | unknown (error : ErrorValue)
deriving DecidableEq

namespace ExecutionOutcome

/-- The status an outcome settles the action at. -/
def status : ExecutionOutcome → ActionStatus
  | succeeded => .succeeded
  | failed _ => .failed
  | unknown _ => .unknown

/-- The refusal an outcome carries. -/
def error : ExecutionOutcome → Option ErrorValue
  | succeeded => none
  | failed refusal | unknown refusal => some refusal

end ExecutionOutcome

/-- What observing one contract said. -/
inductive Observation
  | answered (status : VerificationStatus) (observed : Option Value)
  | timedOut
  | unobservable (error : ErrorValue)

/-- The action records of one plan revision, by action identity. -/
abbrev Records : Type :=
  List (String × ActionStatus)

/-- The record of an action. -/
def Records.get (records : Records) (action : ActionId) : Option ActionStatus :=
  records.lookup action.body

/-! ### Calls -/

/-- A call of the executor. -/
inductive Call
  /-- Takes the apply claim of a plan for a session. -/
  | claim (plan : PlanId) (session : String) (now : Int)
  /-- Extends the lease of the session's claim. -/
  | renew (plan : PlanId) (session : String) (now : Int)
  /-- Releases the session's claim, which happens when the claim is dropped. -/
  | release (plan : PlanId) (session : String)
  | getRevision (plan : PlanId) (revision : Nat)
  | actionStatuses (plan : PlanId) (revision : Nat)
  | recordState (plan : PlanId) (revision : Nat) (state : PlanState)
  | recordActionStatus (plan : PlanId) (revision : Nat) (action : ActionId) (ordinal : Nat)
      (status : ActionStatus) (instant : Int) (detail : Option String)
  | putAsset (asset : RecoveryAsset)
  | assetsFor (plan : PlanId)
  | getAsset (asset : RecoveryAssetId)
  | pause (application : String)
  | resume (application : String)
  | create (provider : String) (action : ProtectionAction)
  | validate (provider : String) (asset : RecoveryAsset)
  | cleanup (provider : String) (asset : RecoveryAsset)
  | capabilities (provider : String)
  | revalidate (action : PlanAction)
  | execute (action : PlanAction)
  | observe (contract : VerificationContract)
  | clock

/-- The type of what the world answers a call with. -/
@[reducible]
def Call.Answer : Call → Type
  | claim .. | renew .. | release .. | recordState .. | recordActionStatus .. | putAsset ..
  | pause .. | resume .. | cleanup .. => Except ErrorValue Unit
  | getRevision .. => Except ErrorValue ChangePlan
  | actionStatuses .. => Except ErrorValue Records
  | assetsFor .. => Except ErrorValue (List RecoveryAssetId)
  | getAsset .. | create .. => Except ErrorValue RecoveryAsset
  | validate .. => Except ErrorValue RecoveryValidation
  | capabilities .. => List RecoveryCapability
  | revalidate .. => Except ErrorValue (List DriftFinding)
  | execute .. => ExecutionOutcome
  | observe .. => Observation
  | clock => Int

/-- The calls of the executor with their answers. -/
@[reducible]
def world : Signature where
  Op := Call
  Answer := Call.Answer

/-- Makes one call of the executor. -/
def ask (call : Call) : Program world call.Answer :=
  Program.perform (S := world) call

@[simp]
theorem ask_bind {α : Type} (call : Call) (f : call.Answer → Program world α) :
    (ask call >>= f) = Program.call (S := world) call f :=
  rfl

theorem ask_eq (call : Call) : ask call = Program.call (S := world) call Program.ret :=
  rfl

/-! ### Outcomes -/

/-- The step an apply stopped on. -/
inductive FailurePoint
  | claim
  | planState
  | targetRevalidation
  | privilegeCheck
  | recoveryDiscovery
  | gate
  | recoveryAssetCreation
  | recoveryValidation
  | applicationQuiesce
  | actionNotStarted
  | firstMutateAction
  | middleMutateAction
  | remoteDisconnect
  | unknownOutcome
  | requiredVerification
  | verificationTimeout
  | recoveryAction
  | recoveryVerification
  | cleanup

namespace FailurePoint

/-- Whether the target system may have been changed when an apply stops here. -/
def mayHaveMutated : FailurePoint → Bool
  | firstMutateAction | middleMutateAction | remoteDisconnect | unknownOutcome
  | requiredVerification | verificationTimeout | recoveryAction | recoveryVerification => true
  | _ => false

/-- The word an outcome renders. -/
def asStr : FailurePoint → String
  | claim => "apply-claim"
  | planState => "plan-state"
  | targetRevalidation => "target-revalidation"
  | privilegeCheck => "privilege-check"
  | recoveryDiscovery => "recovery-discovery"
  | gate => "risk-gate"
  | recoveryAssetCreation => "recovery-asset-creation"
  | recoveryValidation => "recovery-validation"
  | applicationQuiesce => "application-quiesce"
  | actionNotStarted => "action-not-started"
  | firstMutateAction => "first-mutate-action"
  | middleMutateAction => "middle-mutate-action"
  | remoteDisconnect => "remote-disconnect"
  | unknownOutcome => "unknown-execution-outcome"
  | requiredVerification => "verification-required-failed"
  | verificationTimeout => "verification-timeout"
  | recoveryAction => "recovery-action"
  | recoveryVerification => "recovery-verification"
  | cleanup => "cleanup"

end FailurePoint

/-- What happened to the quiesce window. -/
structure QuiesceReport where
  application : String
  window : Nat
  paused : Bool
  resumed : Bool
  critical : Option ErrorValue

/-- What a cleanup did and what it left behind. -/
structure CleanupReport where
  removed : List RecoveryAssetId
  retained : List (RecoveryAssetId × String)
  failures : List ErrorValue

/-- An optional protection action that did not produce validated protection. -/
structure ProtectionShortfall where
  provider : String
  summary : String
  asset : Option RecoveryAsset
  reason : ErrorValue

/-- What one apply established. -/
structure ApplyOutcome where
  state : PlanState
  statuses : List (ActionId × ActionStatus)
  assets : List RecoveryAsset
  retained : List RecoveryAssetId
  verification : List VerificationResult
  touched : List String
  untouched : List String
  uncertain : List ActionId
  failurePoint : Option FailurePoint
  error : Option ErrorValue
  quiesce : Option QuiesceReport
  cleanup : Option CleanupReport
  shortfall : List ProtectionShortfall
  executed : Bool

namespace ApplyOutcome

/-- Whether this run may have changed the target system. -/
def hasMutated (outcome : ApplyOutcome) : Bool :=
  match outcome.failurePoint with
  | some .actionNotStarted => outcome.executed
  | some point => point.mayHaveMutated
  | none => outcome.state.hasMutated

/-- What is known about one action. -/
def statusOf (outcome : ApplyOutcome) (action : ActionId) : Option ActionStatus :=
  outcome.statuses.lookup action

/-- Whether the apply reached its intended end. -/
def isSuccess (outcome : ApplyOutcome) : Bool :=
  outcome.error.isNone &&
    match outcome.state with
    | .verified | .recovered | .recoveryVerified => true
    | _ => false

end ApplyOutcome

/-! ### Requests -/

/-- What a session holds. -/
structure Authority where
  change : List ChangeCapability
  recovery : List RecoveryCapability
  elevated : Bool

/-- The quiesce window preparation bounds. -/
structure Quiescing where
  application : String
  window : Nat

/-- What to do with the assets a failed preparation had already created. -/
inductive CleanupDecision
  | retain
  | removeWherePermitted

/-- Everything one apply is given. `providers` are the identifiers of the registered recovery
providers; `stamped` says whether the caller supplied a clock. -/
structure ApplyRequest where
  plan : ChangePlan
  protection : List ProtectionAction
  providers : List String
  now : Int
  authority : Authority
  quiesce : Option Quiescing
  cleanup : CleanupDecision
  session : String
  stamped : Bool
  resume : Bool

namespace ApplyRequest

/-- The instant a record is stamped with: the clock's, or the one the apply was given. -/
def stamp (request : ApplyRequest) : Program world Int :=
  if request.stamped then ask .clock else .ret request.now

end ApplyRequest

/-- The labels the plan's targets are known by in an outcome. -/
def targetLabels (plan : ChangePlan) : List String :=
  plan.targets.map (·.identity)

/-- The outcome of a refusal that left the plan where it was. -/
def refused (plan : ChangePlan) (point : FailurePoint) (error : ErrorValue) : ApplyOutcome where
  state := plan.state
  statuses := plan.actions.map fun action => (action.id, .pending)
  assets := []
  retained := []
  verification := []
  touched := []
  untouched := targetLabels plan
  uncertain := []
  failurePoint := some point
  error := some error
  quiesce := none
  cleanup := none
  shortfall := []
  executed := false

/-- The outcome of a refusal made after reading the store, with the state and the records the
store holds. -/
def refusedOnEvidence (plan : ChangePlan) (point : FailurePoint) (refusal : ErrorValue)
    (durable : PlanState) (recorded : Records) : ApplyOutcome :=
  let statuses := plan.actions.map fun action =>
    (action.id, (recorded.get action.id).getD .pending)
  { refused plan point refusal with
    state := durable
    statuses := statuses
    uncertain := (statuses.filter fun entry =>
      entry.2 = .unknown || entry.2 = .running).map (·.1) }

end OnoSendai
