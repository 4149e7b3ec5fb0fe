import OnoSendai.Change.Asset
import OnoSendai.Change.Plan

/-!
# Refusals

The structured errors the executor answers with: their codes and the messages a person reads.
Their help texts and metadata repeat what the message and the outcome already carry and are not
modelled.
-/

namespace OnoSendai

open Vocabulary

namespace ErrorValue

/-! ### Plans -/

/-- A plan that is not sealed was given to `apply`. -/
def planNotSealed (plan : PlanId) (state : PlanState) : ErrorValue where
  code := .changePlanNotSealed
  message := "plan " ++ plan.short ++ " is " ++ asStr state ++
    ", and only a sealed plan can be applied"

/-- The plan's validity window has closed. -/
def planExpired (plan : PlanId) : ErrorValue where
  code := .changePlanExpired
  message := "plan " ++ plan.short ++ " has expired"

/-- The plan store, or a plan in it, failed its integrity check. -/
def storeCorrupt : ErrorValue where
  code := .changePlanStoreCorrupt
  message := "the plan store failed its integrity check"

/-! ### References -/

/-- No plan matches a reference. -/
def planNotFound (reference : String) : ErrorValue where
  code := .other "change.plan_not_found"
  message := "no plan matches `" ++ reference ++ "`"

/-- A reference matches more than one plan. -/
def planReferenceAmbiguous (reference : String) (candidates : ℕ) : ErrorValue where
  code := .other "change.plan_reference_ambiguous"
  message := "`" ++ reference ++ "` matches " ++ toString candidates ++
    " plans, so it names none of them"

/-- No asset matches a reference. -/
def assetNotFound (reference : String) : ErrorValue where
  code := .other "recovery.asset_not_found"
  message := "no recovery asset matches `" ++ reference ++ "`"

/-- A field of a stored record cannot be read. -/
def recordMalformed (field : String) : ErrorValue where
  code := .changePlanStoreCorrupt
  message := "the stored record's `" ++ field ++ "` field cannot be read"

/-! ### Checks before the first mutation -/

/-- A target is gone, or is no longer the object the plan froze. -/
def targetChanged (target : String) : ErrorValue where
  code := .changeTargetChanged
  message := "`" ++ target ++ "` is no longer the object this plan resolved"

/-- The world moved since the plan was resolved. Each finding is a subject, a field and what was
seen of it. -/
def driftDetected (plan : PlanId) (findings : List (String × String × String)) : ErrorValue where
  code := .changePlanDriftDetected
  message :=
    "plan " ++ plan.short ++ " was resolved against state that has since changed" ++
      match findings with
      | [] => ""
      | (subject, field, detail) :: rest =>
        ": " ++ subject ++ "." ++ field ++ " — " ++ detail ++
          if rest.isEmpty then "" else " (and " ++ toString rest.length ++ " more)"

/-- Whom a missing privilege or capability keeps from what. -/
def purpose (forRecovery : Bool) : String :=
  if forRecovery then "recovering it" else "changing it"

/-- An action needs a privilege the session does not hold. -/
def privilegeRequired (privilege : String) (forRecovery : Bool) : ErrorValue where
  code := .changePrivilegeRequired
  message := purpose forRecovery ++ " needs " ++ privilege ++ ", which this session does not hold"

/-- A capability was not granted to the session. -/
def capabilityMissing (capability : String) (forRecovery : Bool) : ErrorValue where
  code := .changeCapabilityMissing
  message := purpose forRecovery ++ " needs the `" ++ capability ++
    "` capability, which this session was not granted"

/-- An irreversible action was not acknowledged. -/
def irreversibleNotAccepted (plan : PlanId) (reasons : List String) : ErrorValue where
  code := .changeIrreversibleNotAccepted
  message := "plan " ++ plan.short ++ " contains " ++ toString reasons.length ++
    " irreversible action(s) that have not been acknowledged"

/-- A risk was not acknowledged. -/
def riskNotAccepted (plan : PlanId) (class' : RiskClass) : ErrorValue where
  code := .changeRiskNotAccepted
  message := "plan " ++ plan.short ++ " is " ++ asStr class' ++
    " risk and was not acknowledged"

/-! ### Resuming -/

/-- Some actions of an interrupted plan may not be run again. -/
def resumeRefused (plan : PlanId) (blocked : Nat) : ErrorValue where
  code := .changeResumeRefused
  message := "plan " ++ plan.short ++ " cannot be resumed: " ++ toString blocked ++
    " of its actions cannot be re-established"

/-- The plan is past anything that could be resumed. -/
def resumeComplete (plan : PlanId) (state : PlanState) : ErrorValue where
  code := .changeResumeRefused
  message := "plan " ++ plan.short ++ " has nothing to resume: it is " ++ asStr state ++
    " and every action has settled"

/-! ### Protection -/

/-- A recovery provider is not available. -/
def providerUnavailable (provider : String) : ErrorValue where
  code := .recoveryProviderUnavailable
  message := "the " ++ provider ++ " recovery provider cannot run here"

/-- A recovery point could not be created. -/
def assetCreateFailed (provider scope : String) : ErrorValue where
  code := .recoveryAssetCreateFailed
  message := provider ++ " could not create a recovery point for " ++ scope

/-- A recovery point did not validate. -/
def assetInvalid (asset : RecoveryAssetId) : ErrorValue where
  code := .recoveryAssetInvalid
  message := "recovery asset " ++ asset.short ++ " did not validate"

/-- The plan's protection falls short of what its policy requires. -/
def coverageInsufficient (plan : PlanId) (reached required : ProtectionLevel) : ErrorValue where
  code := .recoveryCoverageInsufficient
  message := "plan " ++ plan.short ++ " reaches " ++ asStr reached ++
    " protection and its policy requires " ++ asStr required

/-- Preparation stopped at a point. -/
def prepareFailed (plan : PlanId) (point : String) : ErrorValue where
  code := .changePrepareFailed
  message := "preparing plan " ++ plan.short ++ " failed at `" ++ point ++ "`"

/-! ### Mutation and verification -/

/-- A mutating action failed. -/
def applyFailed (plan : PlanId) (point : String) : ErrorValue where
  code := .changeApplyFailed
  message := "applying plan " ++ plan.short ++ " failed at `" ++ point ++ "`"

/-- A recovery action failed. -/
def recoveryApplyFailed (point : String) : ErrorValue where
  code := .recoveryApplyFailed
  message := "recovery failed at `" ++ point ++ "`"

/-- What an action did on a host could not be established. -/
def remoteStateUnknown (host action : String) : ErrorValue where
  code := .changeRemoteStateUnknown
  message := "what `" ++ action ++ "` did on " ++ host ++ " could not be established"

/-- Required postconditions of a plan did not hold. -/
def verificationFailed (plan : PlanId) (failures : List String) : ErrorValue where
  code := .changeVerificationFailed
  message := "plan " ++ plan.short ++ " did not verify: " ++ toString failures.length ++
    " required check(s) failed"

/-- The postconditions of a recovery did not hold. -/
def recoveryVerificationFailed : ErrorValue where
  code := .recoveryVerificationFailed
  message := "recovery verification did not hold"

end ErrorValue

end OnoSendai
