import OnoSendai.Change.Refusal
import OnoSendai.Change.Seal

/-!
# Building and rebasing plans

A builder turns an intent into a sealed plan: actions arrive numbered onto the end of the plan,
the targets are frozen, and sealing rebuilds every action and every contract against the identity
of the plan. Rebasing a sealed plan opens its next revision over another target set and seals it;
the actions stay the ones the operator approved.
-/

namespace OnoSendai

/-! ### Effects -/

/-- The identity of an effect of an action in a domain over an object. -/
def EffectId.of (sha256 : Sha256) (action : ActionId) (domain object : String) : EffectId :=
  HexId.derive sha256 [action.body, domain, object]

/-- The effect, declared of another action. -/
def ProposedEffect.moved (sha256 : Sha256) (action : ActionId) (effect : ProposedEffect) :
    ProposedEffect :=
  { effect with
    id := EffectId.of sha256 action (Vocabulary.asStr effect.domain)
      (effect.object.getD effect.explanation)
    action := action
    irreversible := effect.irreversible || effect.kind = .emit }

/-! ### Refusals -/

/-- A selector that matched nothing. -/
def ErrorValue.targetUnresolved (selector : String) : ErrorValue where
  code := .changeTargetUnresolved
  message := "`" ++ selector ++ "` does not resolve to an object this plan could freeze"

/-- An operation whose provider declares too little to be planned. -/
def ErrorValue.actionNotPlannable (operation : String) : ErrorValue where
  code := .changeActionNotPlannable
  message := "`" ++ operation ++ "` cannot be planned"

/-! ### Rebuilding -/

/-- The provider, program or word an execution is carried out by. -/
def Execution.actor : Execution → String
  | providerAction provider .. | recoveryOperation provider .. => provider
  | program name _ => name
  | opaqueAction _ name _ => name.getD "opaque"

section Rebuild

variable (sha256 : Sha256)

/-- One action rebuilt against `plan` at `ordinal`, with its dependencies remapped and its
preconditions, target and execution replaced. -/
def rebuilt (plan : PlanId) (ordinal : Nat) (action : PlanAction)
    (remap : List (ActionId × ActionId)) (preconditions : List Precondition)
    (target : Option String) (execution : Option Execution) : PlanAction :=
  let id := ActionId.of sha256 plan ordinal action.summary
  { PlanAction.new sha256 plan ordinal action.role action.summary
      (execution.getD action.execution) with
    target := target
    dependsOn := action.dependsOn.map fun dependency => (remap.lookup dependency).getD dependency
    preconditions := preconditions
    idempotency := action.idempotency
    effects := action.effects.map (·.moved sha256 id)
    recoverySemantics := action.recoverySemantics
    requiresPrivilege := action.requiresPrivilege
    status := action.status }

/-- One action rebuilt against `plan` at `ordinal`, with `extra` preconditions in front. -/
def rebind (plan : PlanId) (ordinal : Nat) (action : PlanAction)
    (remap : List (ActionId × ActionId)) (extra : List Precondition)
    (execution : Option Execution) : PlanAction :=
  rebuilt sha256 plan ordinal action remap (extra ++ action.preconditions) action.target execution

/-- One contract rebuilt against `plan`. -/
def rebindContract (plan : PlanId) (contract : VerificationContract) : VerificationContract :=
  let next := VerificationContract.new sha256 plan contract.class' contract.subject
    contract.expression
  { next with
    timeout := contract.timeout
    timeoutIsFailure :=
      if contract.timeoutStatus = .unknown then false else next.timeoutIsFailure
    expected := contract.expected
    equivalence := contract.equivalence }

end Rebuild

/-! ### The builder -/

/-- What one change provider contributes to a plan. -/
structure PlanFragment where
  actions : List PlanAction
  preconditions : List Precondition
  verification : List VerificationContract
  providerVersion : Option String

/-- The version a plan records for a provider that declared none. -/
def unknownVersion : String :=
  "unknown"

/-- A draft plan being assembled. `redaction` replaces the secrets of an execution by handles. -/
structure PlanBuilder where
  id : PlanId
  kind : PlanKind
  intent : Intent
  session : String
  createdAt : Int
  targets : List FrozenTarget
  actions : List PlanAction
  verification : List VerificationContract
  providers : List ProviderBinding
  impact : ImpactGraph
  protection : ProtectionSummary
  protectionMode : ProtectionMode
  risk : RiskAssessment
  strategy : Strategy
  expiresAt : Option Int
  redaction : Execution → Execution

namespace PlanBuilder

variable (sha256 : Sha256) (render : Renderings)

/-- Opens a draft for an intent in a session. -/
def forIntent (redaction : Execution → Execution) (intent : Intent) (session : String)
    (now : Int) : PlanBuilder where
  id := PlanId.of sha256 session (render.timestamp now) intent.text
  kind := .change
  intent := intent
  session := session
  createdAt := now
  targets := []
  actions := []
  verification := []
  providers := []
  impact := .empty
  protection := .empty
  protectionMode := .prefer
  risk := .empty
  strategy := .sequential
  expiresAt := none
  redaction := redaction

/-- Adds a rebuilt action with the binding of its actor, once. -/
def withRebound (builder : PlanBuilder) (version : String) (action : PlanAction) : PlanBuilder :=
  let binding : ProviderBinding := ⟨action.execution.actor, version⟩
  { builder with
    actions := builder.actions ++ [action]
    providers := if binding ∈ builder.providers then builder.providers
      else builder.providers ++ [binding] }

/-- Adds one action a caller built itself, renumbered onto the end of the plan. -/
def acting (builder : PlanBuilder) (action : PlanAction) : PlanBuilder :=
  builder.withRebound unknownVersion
    (rebind sha256 builder.id (builder.actions.length + 1) action [] [] none)

/-- Adds the actions of a fragment in order. A dependency between them follows the renumbering, and
`extra` preconditions join the first of them. -/
def contributeActions (version : String) :
    List PlanAction → List Precondition → List (ActionId × ActionId) → PlanBuilder → PlanBuilder
  | [], _, _, builder => builder
  | action :: rest, extra, remap, builder =>
    let rebound := rebind sha256 builder.id (builder.actions.length + 1) action remap extra none
    contributeActions version rest [] ((action.id, rebound.id) :: remap)
      (builder.withRebound version rebound)

/-- Adds a change provider's contribution to the draft. -/
def contributing (builder : PlanBuilder) (fragment : PlanFragment) :
    Except ErrorValue PlanBuilder :=
  if fragment.actions.isEmpty then
    if fragment.preconditions.isEmpty && fragment.verification.isEmpty then .ok builder
    else .error (.actionNotPlannable builder.intent.source)
  else
    let contributed := contributeActions sha256 (fragment.providerVersion.getD unknownVersion)
      fragment.actions fragment.preconditions [] builder
    .ok { contributed with verification := contributed.verification ++ fragment.verification }

/-- Adds a verification contract the plan must carry. -/
def verifying (builder : PlanBuilder) (contract : VerificationContract) : PlanBuilder :=
  { builder with verification := builder.verification ++ [contract] }

/-- Marks the plan under construction as a recovery. -/
def asRecovery (builder : PlanBuilder) : PlanBuilder :=
  { builder with kind := .recovery }

/-- Sets the redaction applied before the seal is computed. -/
def redacting (builder : PlanBuilder) (redaction : Execution → Execution) : PlanBuilder :=
  { builder with redaction }

/-- Sets the impact graph. -/
def withImpact (builder : PlanBuilder) (impact : ImpactGraph) : PlanBuilder :=
  { builder with impact }

/-- Sets the coverage matrix. -/
def withProtection (builder : PlanBuilder) (protection : ProtectionSummary) : PlanBuilder :=
  { builder with protection }

/-- Sets the protection mode. -/
def withProtectionMode (builder : PlanBuilder) (protectionMode : ProtectionMode) : PlanBuilder :=
  { builder with protectionMode }

/-- Sets the risk assessment. -/
def withRisk (builder : PlanBuilder) (risk : RiskAssessment) : PlanBuilder :=
  { builder with risk }

/-- Sets the strategy. -/
def withStrategy (builder : PlanBuilder) (strategy : Strategy) : PlanBuilder :=
  { builder with strategy }

/-- Sets the instant the sealed plan expires at. -/
def expiringAt (builder : PlanBuilder) (instant : Int) : PlanBuilder :=
  { builder with expiresAt := some instant }

/-- Freezes the resolved target set. -/
def resolve (builder : PlanBuilder) (targets : List FrozenTarget) :
    Except ErrorValue PlanBuilder :=
  if targets.isEmpty then .error (.targetUnresolved builder.intent.source)
  else .ok { builder with targets }

/-- Adds actions to a draft, rebuilt against `id` with their secrets replaced. -/
def addActions (builder : PlanBuilder) (id : PlanId) :
    List PlanAction → ChangePlan → Except ErrorValue ChangePlan
  | [], plan => .ok plan
  | action :: rest, plan => do
    let plan ← plan.withAction
      (rebind sha256 id action.ordinal action [] [] (some (builder.redaction action.execution)))
    addActions builder id rest plan

/-- Builds and seals one plan out of an identity, a target set and an action list. -/
def assemble (builder : PlanBuilder) (id : PlanId) (intent : Intent)
    (targets : List FrozenTarget) (actions : List PlanAction)
    (contracts : List VerificationContract) (now : Int) : Except ErrorValue ChangePlan := do
  let draft := ChangePlan.draft sha256 render intent builder.session builder.createdAt
  let draft := if builder.kind = .recovery then draft.asRecovery else draft
  let plan ← draft.resolve targets
  let plan ← addActions sha256 builder id actions plan
  let plan := plan.withImpact builder.impact
    |>.withProtection builder.protection
    |>.withProtectionMode builder.protectionMode
    |>.withRisk builder.risk
    |>.withStrategy builder.strategy
    |>.withVerification { contracts := contracts.map (rebindContract sha256 id) }
  let plan := builder.providers.foldl ChangePlan.binding plan
  let plan := match builder.expiresAt with
    | some instant => plan.expiringAt instant
    | none => plan
  plan.seal' sha256 render now

/-- Seals one plan over the whole frozen set. -/
def seal' (builder : PlanBuilder) (now : Int) : Except ErrorValue ChangePlan :=
  if builder.targets.isEmpty then .error (.targetUnresolved builder.intent.source)
  else assemble sha256 render builder builder.id builder.intent builder.targets builder.actions
    builder.verification now

/-- The actions renumbered from `ordinal` on against the identity of another plan. -/
def renumbered (id : PlanId) :
    List PlanAction → Nat → List (ActionId × ActionId) → List PlanAction
  | [], _, _ => []
  | action :: rest, ordinal, remap =>
    let next := rebind sha256 id ordinal action remap [] none
    next :: renumbered id rest (ordinal + 1) ((action.id, next.id) :: remap)

/-- One plan covering `target` alone. Where no contract names the target, all of them travel. -/
def perObject (builder : PlanBuilder) (target : FrozenTarget) (now : Int) :
    Except ErrorValue ChangePlan :=
  let intent : Intent :=
    ⟨builder.intent.text ++ " (" ++ target.identity ++ ")", builder.intent.source⟩
  let id := PlanId.of sha256 builder.session (render.timestamp builder.createdAt) intent.text
  let actions := builder.actions.filter fun action =>
    action.target.all (· = target.identity)
  let named := builder.verification.filter fun contract =>
    contract.subject = target.identity || contract.subject = target.label
  assemble sha256 render builder id intent [target] (renumbered sha256 id actions 1 [])
    (if named.isEmpty then builder.verification else named) now

/-- Seals one plan for each frozen target, as far as the first that is refused. -/
def sealPerObject (builder : PlanBuilder) (now : Int) : Except ErrorValue (List ChangePlan) :=
  if builder.targets.isEmpty then .error (.targetUnresolved builder.intent.source)
  else builder.targets.mapM fun target => perObject sha256 render builder target now

end PlanBuilder

/-! ### Rebasing -/

/-- The next revision of a sealed plan over `targets`, resolved now. -/
def rebase (sha256 : Sha256) (render : Renderings) (plan : ChangePlan)
    (targets : List FrozenTarget) (now : Int) : Except ErrorValue ChangePlan :=
  if !plan.state.isSealed then
    .error (.planNotSealed plan.id plan.state)
  else if targets.isEmpty then
    .error (.targetUnresolved plan.intent.source)
  else do
    let resolved ← plan.revise.resolve targets
    resolved.seal' sha256 render now

theorem sealIntact_rebase {sha256 : Sha256} {render : Renderings} {plan next : ChangePlan}
    {targets : List FrozenTarget} {now : Int}
    (h : rebase sha256 render plan targets now = .ok next) : SealIntact sha256 render next := by
  unfold rebase at h
  split_ifs at h
  cases hresolved : plan.revise.resolve targets with
  | error refusal =>
    rw [hresolved] at h
    cases h
  | ok resolved =>
    rw [hresolved] at h
    exact sealIntact_seal h

end OnoSendai
