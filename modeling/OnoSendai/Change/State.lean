import OnoSendai.Change.Vocabulary

/-!
# The plan lifecycle

The states a plan passes through and the transitions between them, as one total function on a
state and an event.
-/

namespace OnoSendai

/-- The state of a plan. -/
inductive PlanState
  | draft
  | resolved
  | sealed
  | expired
  | preparing
  | prepareFailed
  | protected'
  | applying
  | applyFailed
  | verifying
  | verified
  | degraded
  | failed
  | closed
  | recoveryPlanned
  | recovering
  | recovered
  | recoveryFailed
  | recoveryVerified
deriving DecidableEq

instance : Vocabulary PlanState where
  all := [.draft, .resolved, .sealed, .expired, .preparing, .prepareFailed, .protected',
    .applying, .applyFailed, .verifying, .verified, .degraded, .failed, .closed,
    .recoveryPlanned, .recovering, .recovered, .recoveryFailed, .recoveryVerified]
  asStr
    | .draft => "draft"
    | .resolved => "resolved"
    | .sealed => "sealed"
    | .expired => "expired"
    | .preparing => "preparing"
    | .prepareFailed => "prepare-failed"
    | .protected' => "protected"
    | .applying => "applying"
    | .applyFailed => "apply-failed"
    | .verifying => "verifying"
    | .verified => "verified"
    | .degraded => "degraded"
    | .failed => "failed"
    | .closed => "closed"
    | .recoveryPlanned => "recovery-planned"
    | .recovering => "recovering"
    | .recovered => "recovered"
    | .recoveryFailed => "recovery-failed"
    | .recoveryVerified => "recovery-verified"
  mem_all member := by cases member <;> decide
  spellings_nodup := by decide

/-- What moves a plan from one state to another. -/
inductive LifecycleEvent
  | resolve
  | seal
  | expire
  | beginPrepare
  | prepareFailed
  | protected'
  | beginApply
  | applyFailed
  | beginVerify
  | verified
  | degraded
  | verificationFailed
  | close
  | planRecovery
  | beginRecovery
  | recovered
  | recoveryFailed
  | recoveryVerified
  | recoveryVerificationFailed
deriving DecidableEq

instance : Vocabulary LifecycleEvent where
  all := [.resolve, .seal, .expire, .beginPrepare, .prepareFailed, .protected', .beginApply,
    .applyFailed, .beginVerify, .verified, .degraded, .verificationFailed, .close,
    .planRecovery, .beginRecovery, .recovered, .recoveryFailed, .recoveryVerified,
    .recoveryVerificationFailed]
  asStr
    | .resolve => "resolve"
    | .seal => "seal"
    | .expire => "expire"
    | .beginPrepare => "begin-prepare"
    | .prepareFailed => "prepare-failed"
    | .protected' => "protected"
    | .beginApply => "begin-apply"
    | .applyFailed => "apply-failed"
    | .beginVerify => "begin-verify"
    | .verified => "verified"
    | .degraded => "degraded"
    | .verificationFailed => "verification-failed"
    | .close => "close"
    | .planRecovery => "plan-recovery"
    | .beginRecovery => "begin-recovery"
    | .recovered => "recovered"
    | .recoveryFailed => "recovery-failed"
    | .recoveryVerified => "recovery-verified"
    | .recoveryVerificationFailed => "recovery-verification-failed"
  mem_all member := by cases member <;> decide
  spellings_nodup := by decide

namespace PlanState

/-- Whether the plan has been sealed. -/
def isSealed : PlanState → Bool
  | draft | resolved => false
  | _ => true

/-- Whether `apply` accepts a plan in this state. -/
def isAppliable : PlanState → Bool
  | sealed | protected' => true
  | _ => false

/-- Whether a plan in this state may have changed the system. -/
def hasMutated : PlanState → Bool
  | applying | applyFailed | verifying | verified | degraded | failed | closed
  | recoveryPlanned | recovering | recovered | recoveryFailed | recoveryVerified => true
  | _ => false

/-- Whether nothing follows this state. -/
def isTerminal : PlanState → Bool
  | expired | closed | prepareFailed | recoveryVerified => true
  | _ => false

/-- Whether the state is the verdict of a finished run. -/
def isVerdict : PlanState → Bool
  | verified | degraded | failed | recovered | recoveryFailed => true
  | _ => false

/-- The state after an event, or `none` where the lifecycle draws no such edge. -/
def after : PlanState → LifecycleEvent → Option PlanState
  | draft, .resolve => some resolved
  | draft, .seal | resolved, .seal => some sealed
  | sealed, .expire => some expired
  | sealed, .beginPrepare | protected', .beginPrepare => some preparing
  | preparing, .prepareFailed => some prepareFailed
  | preparing, .protected' => some protected'
  | preparing, .beginApply | protected', .beginApply => some applying
  | applying, .applyFailed => some applyFailed
  | applying, .beginVerify => some verifying
  | verifying, .verified => some verified
  | verifying, .degraded => some degraded
  | verifying, .verificationFailed => some failed
  | verified, .close | degraded, .close | failed, .close => some closed
  | verified, .planRecovery | degraded, .planRecovery | failed, .planRecovery
  | applyFailed, .planRecovery | closed, .planRecovery
  | recoveryFailed, .planRecovery => some recoveryPlanned
  | recoveryPlanned, .beginRecovery => some recovering
  | recovering, .recovered => some recovered
  | recovering, .recoveryFailed => some recoveryFailed
  | recovered, .recoveryVerified => some recoveryVerified
  | recovered, .recoveryVerificationFailed => some recoveryFailed
  | _, _ => none

theorem isSealed_after {state next : PlanState} {event : LifecycleEvent}
    (hnext : state.after event = some next) (hevent : event ≠ .seal) :
    next.isSealed = state.isSealed := by
  cases state <;> cases event <;> simp_all [after] <;> subst hnext <;> rfl

theorem isSealed_after_resolve {state : PlanState} (h : state.isSealed = false) :
    ((state.after .resolve).getD .resolved).isSealed = false := by
  cases state <;> rfl

end PlanState

end OnoSendai
