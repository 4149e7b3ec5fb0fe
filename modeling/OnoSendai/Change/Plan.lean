import OnoSendai.Change.Action
import OnoSendai.Change.Protection
import OnoSendai.Change.State
import OnoSendai.Change.Strategy
import OnoSendai.Change.Verification

/-!
# The change plan

A plan is a typed object: its intent, its frozen targets, its action graph, its protection,
risk, strategy and verification, and the digest that seals all of these. Every public operation
on a plan is a function here, in the order of the source.
-/

namespace OnoSendai

open Vocabulary

/-! ### The data of a plan -/

/-- Whether a plan proposes a change or recovers from one. -/
inductive PlanKind
  | change
  | recovery
deriving DecidableEq

instance : Vocabulary PlanKind where
  all := [.change, .recovery]
  asStr
    | .change => "change"
    | .recovery => "recovery"
  mem_all member := by cases member <;> decide
  spellings_nodup := by decide

/-- What the operator asked for, and the text it was parsed from. -/
structure Intent where
  text : String
  source : String

/-- A provider the plan was built against. -/
structure ProviderBinding where
  id : String
  version : String
deriving DecidableEq

/-- The text a provider binding contributes to a plan digest. -/
def ProviderBinding.digestText (binding : ProviderBinding) : String :=
  binding.id ++ "@" ++ binding.version

/-- The largest revision a plan can carry. -/
def revisionMax : Nat :=
  2 ^ 32 - 1

/-- A proposed change. -/
structure ChangePlan where
  id : PlanId
  revision : Nat
  kind : PlanKind
  state : PlanState
  intent : Intent
  session : String
  createdAt : Int
  sealedAt : Option Int
  expiresAt : Option Int
  targets : List FrozenTarget
  actions : List PlanAction
  impact : ImpactGraph
  protection : ProtectionSummary
  protectionMode : ProtectionMode
  risk : RiskAssessment
  strategy : Strategy
  verification : VerificationSet
  providers : List ProviderBinding
  digest : Option String
  supersedes : Option Nat

/-- The identity of a plan created from `intent` in `session` at an instant. -/
def PlanId.of (sha256 : Sha256) (session requestedAt intent : String) : PlanId :=
  HexId.derive sha256 [session, requestedAt, intent]

/-! ### Refusals -/

namespace ErrorValue

/-- A sealed plan was given to something that edits one. -/
def planNotEditable (plan : PlanId) (state : PlanState) : ErrorValue where
  code := .changePlanSealed
  message := "plan " ++ plan.short ++ " is " ++ asStr state ++ " and cannot be edited"

/-- The action graph has a cycle. -/
def actionGraphCyclic (plan : PlanId) (cycle : List ActionId) : ErrorValue where
  code := .changeActionNotPlannable
  message := "plan " ++ plan.short ++ " has " ++ toString cycle.length ++
    " actions that depend on each other in a cycle"

/-- A mutating plan carries no verification contract. -/
def verificationMissing (plan : PlanId) : ErrorValue where
  code := .changeVerificationMissing
  message := "plan " ++ plan.short ++
    " changes the system and declares nothing to check afterwards"

/-- A lifecycle transition that is not drawn. -/
def invalidTransition (plan : PlanId) (state : PlanState) (event : LifecycleEvent) :
    ErrorValue where
  code := .changePlanStateInvalid
  message := "plan " ++ plan.short ++ " is " ++ asStr state ++ ", and `" ++
    asStr event ++ "` is not a transition from there"

end ErrorValue

namespace ChangePlan

/-! ### The seal -/

/-- One named section of a digest text. -/
def sectionText (name body : String) : String :=
  name.push unitSeparator ++ body.push sectionSeparator

/-- The sections of a plan's digest text, in order. -/
def digestSections (render : Renderings) (plan : ChangePlan) : List (String × String) :=
  [("revision", toString plan.revision),
    ("kind", asStr plan.kind),
    ("intent", plan.intent.text),
    ("targets", unitTerminated (plan.targets.map (·.digestText))),
    ("actions", unitTerminated (plan.actions.map (·.digestText render))),
    ("providers", unitTerminated (plan.providers.map (·.digestText))),
    ("protection-mode", asStr plan.protectionMode),
    ("protection", plan.protection.digestText),
    ("strategy", plan.strategy.digestText),
    ("verification", plan.verification.digestText),
    ("risk", plan.risk.digestText)]

/-- The canonical text the digest of a plan is taken over. -/
def canonicalText (render : Renderings) (plan : ChangePlan) : String :=
  String.join ((plan.digestSections render).map fun (name, body) => sectionText name body)

section Operations

variable (sha256 : Sha256) (render : Renderings)

/-- The digest of a plan as it stands: 64 lowercase hexadecimal characters. -/
def computeDigest (plan : ChangePlan) : String :=
  hexText (sha256 (plan.canonicalText render)).toList

/-- Whether the recorded digest is the digest of the plan as it stands. -/
def digestHolds (plan : ChangePlan) : Bool :=
  match plan.digest with
  | none => false
  | some recorded => recorded = plan.computeDigest sha256 render

/-- Whether any action of the plan changes the target system. -/
def mutates (plan : ChangePlan) : Bool :=
  plan.actions.any (·.role.mutatesTarget)

/-- Whether the plan has expired at an instant. -/
def isExpiredAt (plan : ChangePlan) (now : Int) : Bool :=
  plan.state = .expired || plan.expiresAt.any (· ≤ now)

/-- The acknowledgements the plan still waits for. -/
def outstandingAcknowledgements (plan : ChangePlan) : List RequiredAcknowledgement :=
  plan.risk.outstandingAcknowledgements

/-! ### The operations -/

/-- A new plan, which may still be edited. -/
def draft (intent : Intent) (session : String) (createdAt : Int) : ChangePlan where
  id := PlanId.of sha256 session (render.timestamp createdAt) intent.text
  revision := 1
  kind := .change
  state := .draft
  intent := intent
  session := session
  createdAt := createdAt
  sealedAt := none
  expiresAt := none
  targets := []
  actions := []
  impact := .empty
  protection := .empty
  protectionMode := .prefer
  risk := .empty
  strategy := .sequential
  verification := .empty
  providers := []
  digest := none
  supersedes := none

/-- Marks the plan as a recovery. -/
def asRecovery (plan : ChangePlan) : ChangePlan :=
  { plan with kind := .recovery }

/-- Freezes the target list. -/
def resolve (plan : ChangePlan) (targets : List FrozenTarget) : Except ErrorValue ChangePlan :=
  if plan.state.isSealed then
    .error (.planNotEditable plan.id plan.state)
  else
    .ok { plan with targets, state := (plan.state.after .resolve).getD .resolved }

/-- Adds an action. -/
def withAction (plan : ChangePlan) (action : PlanAction) : Except ErrorValue ChangePlan :=
  if plan.state.isSealed then
    .error (.planNotEditable plan.id plan.state)
  else
    .ok { plan with actions := plan.actions ++ [action] }

/-- Replaces the impact graph. -/
def withImpact (plan : ChangePlan) (impact : ImpactGraph) : ChangePlan :=
  { plan with impact }

/-- Replaces the protection summary. -/
def withProtection (plan : ChangePlan) (protection : ProtectionSummary) : ChangePlan :=
  { plan with protection }

/-- Replaces the protection mode. -/
def withProtectionMode (plan : ChangePlan) (protectionMode : ProtectionMode) : ChangePlan :=
  { plan with protectionMode }

/-- Replaces the risk assessment. -/
def withRisk (plan : ChangePlan) (risk : RiskAssessment) : ChangePlan :=
  { plan with risk }

/-- Replaces the strategy. -/
def withStrategy (plan : ChangePlan) (strategy : Strategy) : ChangePlan :=
  { plan with strategy }

/-- Replaces the verification contracts. -/
def withVerification (plan : ChangePlan) (verification : VerificationSet) : ChangePlan :=
  { plan with verification }

/-- Adds a provider binding, once. -/
def binding (plan : ChangePlan) (binding : ProviderBinding) : ChangePlan :=
  if binding ∈ plan.providers then plan
  else { plan with providers := plan.providers ++ [binding] }

/-- Sets the instant the plan expires at. -/
def expiringAt (plan : ChangePlan) (instant : Int) : ChangePlan :=
  { plan with expiresAt := some instant }

/-- Seals the plan: it becomes immutable and gains a digest. -/
def seal' (plan : ChangePlan) (instant : Int) : Except ErrorValue ChangePlan :=
  if plan.state.isSealed then
    .error (.planNotEditable plan.id plan.state)
  else
    match topologicalOrder plan.actions with
    | .error cycle => .error (.actionGraphCyclic plan.id cycle)
    | .ok _ =>
      if plan.mutates && plan.verification.isEmpty then
        .error (.verificationMissing plan.id)
      else
        let sealedPlan := { plan with sealedAt := some instant, state := .sealed }
        .ok { sealedPlan with digest := some (sealedPlan.computeDigest sha256 render) }

/-- Opens a new revision of the plan, which may be edited. -/
def revise (plan : ChangePlan) : ChangePlan :=
  { plan with
    revision := min (plan.revision + 1) revisionMax
    supersedes := some plan.revision
    state := .draft
    sealedAt := none
    digest := none
    actions := plan.actions.map (·.withStatus .pending) }

/-- Moves the plan along a lifecycle edge. -/
def advance (plan : ChangePlan) (event : LifecycleEvent) : Except ErrorValue ChangePlan :=
  match plan.state.after event with
  | some next => .ok { plan with state := next }
  | none => .error (.invalidTransition plan.id plan.state event)

/-- Lays recorded statuses over the plan's actions. -/
def settled (plan : ChangePlan) (statuses : List (ActionId × ActionStatus)) : ChangePlan :=
  { plan with actions := plan.actions.map (·.settledBy statuses) }

end Operations

end ChangePlan

end OnoSendai
