import OnoSendai.Lib.FirstKept
import OnoSendai.Link.Trust
import OnoSendai.Recovery.Conflict
import OnoSendai.Recovery.Method

/-!
# Constructing a recovery plan

A recovery plan is made from recovery assets and the world as it is observed, and changes nothing.
The objects it restores are the ones that were asked for, else the ones the recovered plan changed
and some asset covers, else everything the assets cover. One offer of a provider contributes its
actions; coverage is asked of all assets together.
-/

namespace OnoSendai.Recovery

open List

open Keyed (firstKept pushFirst)
open Protection (startsWith)

/-! ### Requests -/

/-- Everything recovery planning needs. -/
structure RecoveryRequest where
  registry : PlannerRegistry
  assets : List RecoveryAsset
  observe : String → ObservedState
  goal : RecoveryGoal
  session : String
  now : Int
  source : Option ChangePlan
  appliedAt : Option Int
  forcedMethod : Option String
  requiredMetadata : MetadataCoverage
  requiredSemantics : List String
  restoreSet : List String
  directoryPolicy : Option DirectoryRestorePolicy
  captured : List (String × String)
  destroyedAssets : List String
  discardedBytes : Option Nat
  impact : Option (List FrozenTarget → List PlanAction → ImpactGraph)

/-- A recovery from assets with no plan in hand. -/
def RecoveryRequest.new (registry : PlannerRegistry) (assets : List RecoveryAsset)
    (observe : String → ObservedState) (goal : RecoveryGoal) (session : String) (now : Int) :
    RecoveryRequest where
  registry := registry
  assets := assets
  observe := observe
  goal := goal
  session := session
  now := now
  source := none
  appliedAt := none
  forcedMethod := none
  requiredMetadata := .contentOnly
  requiredSemantics := []
  restoreSet := []
  directoryPolicy := none
  captured := []
  destroyedAssets := []
  discardedBytes := none
  impact := none

/-- Every effect every action of a plan declares. -/
def planEffects (plan : ChangePlan) : List ProposedEffect :=
  plan.actions.flatMap (·.effects)

/-! ### What is restored -/

/-- Refuses an asset that cannot be restored from. -/
def usable (render : Renderings) (asset : RecoveryAsset) : Except ErrorValue Unit :=
  match asset.state with
  | .ready => .ok ()
  | .expired =>
    .error (.assetExpired asset.id
      (asset.expiresAt.elim "an instant the store did not record" render.timestamp))
  | .removed => .error (.assetNotFound asset.reference)
  | .failed | .invalid | .proposed | .creating => .error (.assetInvalid asset.id)

/-- The objects of a list, each once. -/
def dedupe (objects : List String) : List String :=
  firstKept id objects

section Request

variable (request : RecoveryRequest)

/-- Whether any source asset covers an object. -/
def covered (object : String) : Bool :=
  request.assets.any fun asset => asset.scope.coversObject object

/-- The persistent objects the recovered plan changed and some asset covers. -/
def changedObjects : List String :=
  match request.source with
  | none => []
  | some source =>
    (((planEffects source).filter (·.domain.isPersistent)).filterMap (·.object)).filter
      (covered request)

/-- The objects the recovery will put back. -/
def restoreSet : List String :=
  if !request.restoreSet.isEmpty then
    dedupe request.restoreSet
  else if !(changedObjects request).isEmpty then
    dedupe (changedObjects request)
  else
    dedupe (request.assets.flatMap (·.scope.covers))

/-- The candidate restore scope. -/
def scopeObjects (restored : List String) : List String :=
  (dedupe (restored ++ request.assets.flatMap (·.scope.covers))).insertionSort (· ≤ ·)

/-- What the observer says of every object in the candidate restore scope. A storage object of a
provider that established its own newer state is not asked about. -/
def observations (restored : List String) (fragment : RecoveryPlanFragment) :
    List ObjectObservation :=
  ((scopeObjects request restored).filter fun object =>
    !fragment.newerState.complete || startsWith object "/").map fun object =>
      ⟨object, request.observe object⟩

/-! ### Newer state -/

/-- The objects of a provider the recovery would destroy. -/
def destroyedAssets (fragment : RecoveryPlanFragment) : List String :=
  dedupe (request.destroyedAssets ++
    if fragment.newerState.complete then fragment.newerState.destroyedAssets else [])

/-- The bytes the recovery would discard. -/
def discardedBytes (fragment : RecoveryPlanFragment) : Option Nat :=
  request.discardedBytes.or
    (if fragment.newerState.complete then fragment.newerState.discardedBytes else none)

/-- When the youngest of the assets was created. -/
def capturedAt : Int :=
  ((request.assets.map (·.createdAt)).max?).getD request.now

/-- What a directory restore does with files the asset never held. -/
def policyOf (fragment : RecoveryPlanFragment) : DirectoryRestorePolicy :=
  request.directoryPolicy.getD fragment.directoryPolicy

/-- What the analysis of newer state is asked. -/
def conflictRequest (fragment : RecoveryPlanFragment) (restored : List String)
    (observed : List ObjectObservation) : ConflictRequest where
  method := fragment.method
  capturedAt := capturedAt request
  appliedAt := request.appliedAt
  observations := observed
  captured := request.captured ++ fragment.captured
  restoreSet := restored
  directoryPolicy := policyOf request fragment
  destroyedAssets := destroyedAssets request fragment
  discardedBytes := discardedBytes request fragment

/-- Adds an item of the provider about an object nobody else was asked about. -/
def pushProviderItem (asked : List ObjectObservation) (items : List NewerStateItem)
    (item : NewerStateItem) : List NewerStateItem :=
  if (asked.any (·.object = item.object)) || items.any (·.object = item.object) then items
  else items ++ [item]

/-- The items the chosen provider classified itself, beside the observed ones. -/
def withProviderItems (observed provider : NewerStateImpact) (asked : List ObjectObservation) :
    NewerStateImpact :=
  if !provider.complete then
    observed
  else
    (NewerStateImpact.analysed
      (provider.items.foldl (pushProviderItem asked) observed.items)).losing
        observed.destroyedAssets observed.discardedBytes

/-! ### What cannot be reversed -/

/-- Adds an effect, unless one with its subject and domain is there. -/
def pushUnique (effects : List UnrecoverableEffect) (effect : UnrecoverableEffect) :
    List UnrecoverableEffect :=
  pushFirst (fun effect => (effect.subject, effect.domain)) effects effect

/-- Whether one of the original plan's effects is beyond the reach of the recovery. -/
def classifyEffect (restored : List String) (effect : ProposedEffect) :
    Option UnrecoverableEffect :=
  let subject := effect.object.getD effect.explanation
  if effect.kind = .emit then
    some ⟨subject, effect.domain,
      "§35.1: the call left the system before recovery could reconsider it, and §35.3 makes a " ++
        "provider's inverse action COMPENSATABLE rather than a restore of prior state",
      effect.compensation⟩
  else
    match effect.domain with
    | .externalSideEffect | .remoteSystem =>
      some ⟨subject, effect.domain,
        "§35.2: an effect outside this machine is not recoverable through a local snapshot, and " ++
          "it stays separately visible", none⟩
    | .networkRuntime =>
      some ⟨subject, effect.domain,
        "§34: live sessions and in-flight connections are not restored by any recovery asset", none⟩
    | .unknown =>
      some ⟨subject, effect.domain,
        "Appendix A.7 and §6.3: the provider declared a domain Ono cannot classify, so no restore " ++
          "elsewhere on the host says anything about it", none⟩
    | domain =>
      if domain.isPersistent then
        if restored.any (· = subject) && covered request subject then
          none
        else
          some ⟨subject, domain,
            "§55.8: the source assets cover only part of what the plan changed, and restoring " ++
              "what they hold puts nothing back here", none⟩
      else if effect.irreversible then
        some ⟨subject, effect.domain,
          "§2.13: the plan declared this effect irreversible, and no asset changes that", none⟩
      else
        none

/-- What one action of the recovered plan leaves that cannot be reversed. -/
def actionLeaves (restored : List String) (action : PlanAction) : List UnrecoverableEffect :=
  if !action.role.mutatesTarget then
    []
  else
    (if action.status = .unknown then
      [⟨action.summary, .unknown,
        "Appendix F.2: what this action did could not be established, so recovery planning " ++
          "treats it as an uncertainty boundary rather than assuming it happened or did not",
        none⟩]
    else
      []) ++ action.effects.filterMap (classifyEffect request restored)

/-- Everything the recovery cannot reverse. -/
def unrecoverable (fragment : RecoveryPlanFragment) (restored : List String) :
    List UnrecoverableEffect :=
  (fragment.unrecoverable ++
    ((request.source.map (·.actions)).getD []).flatMap (actionLeaves request restored)).foldl
      pushUnique []

/-! ### The plan -/

variable (sha256 : Sha256) (render : Renderings)

/-- The objects as an intent names them. -/
def describe : List String → String
  | [] => "the captured state"
  | [only] => only
  | first :: rest => first ++ " and " ++ toString rest.length ++ " more object(s)"

/-- An effect, declared of the action it is carried over to. -/
def forAction (action : ActionId) (effect : ProposedEffect) : ProposedEffect :=
  { effect with
    id := EffectId.of sha256 action (Vocabulary.asStr effect.domain) effect.explanation
    action := action }

/-- One action of a provider, anchored to the recovery plan. -/
def recoverAction (plan : PlanId) (index : Nat) (action : PlanAction)
    (mapping : List (ActionId × ActionId)) : PlanAction :=
  let rebuilt := PlanAction.new sha256 plan (index + 1) .recover action.summary action.execution
  { rebuilt with
    idempotency := action.idempotency
    target := action.target
    effects := action.effects.map (forAction sha256 rebuilt.id)
    recoverySemantics := action.recoverySemantics
    requiresPrivilege := action.requiresPrivilege
    preconditions := action.preconditions
    dependsOn := action.dependsOn.filterMap fun dependency => mapping.lookup dependency }

/-- Adds the actions of a fragment, each anchored to the recovery plan. -/
def addRecoverActions (plan : PlanId) :
    List PlanAction → Nat → List (ActionId × ActionId) → ChangePlan → Except ErrorValue ChangePlan
  | [], _, _, draft => .ok draft
  | action :: rest, index, mapping, draft => do
    let recovery := recoverAction sha256 plan index action mapping
    let draft ← draft.withAction recovery
    addRecoverActions plan rest (index + 1) (mapping ++ [(action.id, recovery.id)]) draft

/-- Whether a contract with a subject is about an object: the subject is the object, or a target word
and the object. -/
def isAbout (subject object : String) : Bool :=
  let (_, rest) := subject.toList.span fun c => !Link.isWhitespace c
  subject = object ||
    !rest.isEmpty && Separated.trimmed Link.isWhitespace rest.tail = object.toList

/-- The contract the recovery adds for an object nothing was stated about. -/
def objectContract (plan : PlanId) (object : String) : VerificationContract :=
  let digest := request.captured.lookup object
  let subject := if startsWith object "/" then "file " ++ object else object
  { VerificationContract.new sha256 plan .required subject
      (digest.elim "exists == true" ("sha256 == " ++ ·)) with
    equivalence := some .persistentState
    expected := digest.map .string }

/-- The verification contracts of the recovery: those of the provider, and one for every object the
provider stated none about. -/
def verification (plan : PlanId) (fragment : RecoveryPlanFragment) (restored : List String) :
    VerificationSet where
  contracts := restored.foldl
    (fun contracts object =>
      if contracts.any fun contract => isAbout contract.subject object then contracts
      else contracts ++ [objectContract request sha256 plan object])
    (fragment.verification.map (rebindContract sha256 plan))

/-- The risk of a method. -/
def methodRisk : RestoreMethod → RiskClass
  | .providerNativeRestore | .selectiveFileRestore | .cloneAndCopy | .compensation => .moderate
  | .subvolumeReplacement | .datasetRollback => .high
  | .offlineRootRecovery => .critical

/-- The risk of the recovery. -/
def risk (fragment : RecoveryPlanFragment) : RiskAssessment :=
  let destroyed := destroyedAssets request fragment
  { RiskAssessment.empty with
    findings :=
      [⟨.recoveryComplexity, methodRisk fragment.method, "recovery.method",
        "recovery by " ++ Vocabulary.asStr fragment.method ++ ", which restores " ++
          if fragment.method.restoresPriorState then "prior state"
          else "an acceptable semantic state through inverse actions (§27.4)"⟩] ++
      (if destroyed.isEmpty then [] else
        [⟨.scope, .high, "recovery.destroyed-history",
          toString destroyed.length ++ " provider-native object(s) would be destroyed (§13.6)"⟩]) ++
      (if fragment.requiresOffline then
        [⟨.downtime, .high, "recovery.offline",
          "the filesystem must be taken offline for this recovery (§13.7, §14.6)"⟩]
      else []) ++
      (if fragment.requiresReboot then
        [⟨.rebootRequirement, .high, "recovery.reboot",
          "the recovery takes effect on the next boot (§13.7, §14.6)"⟩]
      else []) }

/-- The providers the recovery plan is bound to. -/
def bindings (provider : String) : List ProviderBinding :=
  match request.registry.get provider with
  | none => []
  | some planner =>
    match planner.availability with
    | .available version | .unsupported version _ => [⟨planner.id, version⟩]
    | .unavailable _ => []

/-- The impact of the recovery plan. -/
def impactOf (plan : ChangePlan) : ImpactGraph :=
  match request.impact with
  | some derive => derive plan.targets plan.actions
  | none =>
    { plan.targets.foldl
        (fun graph target => graph.add
          { id := target.identity
            label := target.label
            objectType := target.schema
            class' := .directTarget
            depth := 0
            reachedBy := none
            evidence := ["target:" ++ target.identity]
            confidence := "unknown"
            host := none })
        ImpactGraph.empty with
      truncated := some ("the recovery was planned without the session's topology, so nothing " ++
        "beyond the objects it restores was walked (§9.5)") }

/-- A restored object as a target of the recovery plan. -/
def recoveryTarget (reference object : String) : FrozenTarget where
  schema := "ono.recovery.object"
  identity := object
  label := object
  spatialId := none
  host := none
  selector := none
  persistenceDomain := some reference

/-- The recovery's own change plan, sealed. -/
def changePlan (chosen : MethodOffer) (restored : List String) : Except ErrorValue ChangePlan :=
  if chosen.fragment.actions.isEmpty then
    .error (.recoveryPlanIncomplete "the actions that would carry the recovery out")
  else do
    let intent : Intent :=
      ⟨"restore " ++ describe restored ++ " from " ++ chosen.reference,
        request.source.elim ("recover " ++ chosen.reference)
          fun source => "recover plan/" ++ source.id.short⟩
    let draft := (ChangePlan.draft sha256 render intent request.session request.now).asRecovery
    let plan ← draft.resolve (restored.map (recoveryTarget chosen.reference))
    let plan ← addRecoverActions sha256 plan.id chosen.fragment.actions 0 [] plan
    let plan := plan.withVerification (verification request sha256 plan.id chosen.fragment restored)
      |>.withRisk (risk request chosen.fragment)
    let plan := (bindings request chosen.provider).foldl ChangePlan.binding plan
    (plan.withImpact (impactOf request plan)).seal' sha256 render request.now

/-- The question the choice of a method is asked. -/
def methodRequest : MethodRequest where
  goal := request.goal
  offers := offers request.registry request.source request.goal request.assets
  requiredMetadata := request.requiredMetadata
  requiredSemantics := request.requiredSemantics
  forced := request.forcedMethod

/-- What the recovery does to newer state. -/
def newerState (fragment : RecoveryPlanFragment) (restored : List String) : NewerStateImpact :=
  let observed := observations request restored fragment
  withProviderItems (analyse render (conflictRequest request fragment restored observed))
    fragment.newerState observed

/-- Produces a recovery plan with the selection it rests on, and changes nothing. -/
def planRecoveryExplained : Except ErrorValue (RecoveryPlan × MethodSelection) :=
  if request.assets.isEmpty then
    .error (.recoveryPlanIncomplete "a recovery asset to restore from")
  else do
    request.assets.forM (usable render)
    let selection ← select (methodRequest request)
    let chosen := selection.chosen
    let restored := restoreSet request
    let plan ← changePlan request sha256 render chosen restored
    .ok
      ({ plan := plan.asRecovery
         sourcePlan := request.source.map (·.id)
         sourceAssets := request.assets.map (·.id)
         goal := request.goal
         method := chosen.method
         targetState := chosen.reference
         restores := restored
         newerState := newerState request render chosen.fragment restored
         unrecoverable := unrecoverable request chosen.fragment restored
         metadata := chosen.metadata
         directoryPolicy := policyOf request chosen.fragment
         requiresReboot := chosen.fragment.requiresReboot
         requiresOffline := chosen.fragment.requiresOffline
         destructiveAccepted := false }, selection)

/-- Produces a recovery plan, and changes nothing. -/
def planRecovery : Except ErrorValue RecoveryPlan :=
  (planRecoveryExplained request sha256 render).map Prod.fst

end Request

/-! ### What is wanted -/

section Wanted

variable (request : RecoveryRequest) (object : String)

/-- A persistent object the recovered plan changed and some asset covers. -/
def ChangedByPlan : Prop :=
  ∃ source ∈ request.source, ∃ action ∈ source.actions, ∃ effect ∈ action.effects,
    effect.domain.isPersistent = true ∧ effect.object = some object ∧
      ∃ asset ∈ request.assets, object ∈ asset.scope.covers

/-- An object the recovery restores: one that was asked for; where none was, one the recovered plan
changed and some asset covers; where there is none, one that some asset covers. -/
def Wanted : Prop :=
  object ∈ request.restoreSet ∨
    request.restoreSet = [] ∧ (ChangedByPlan request object ∨
      (∀ other, ¬ ChangedByPlan request other) ∧ ∃ asset ∈ request.assets, object ∈ asset.scope.covers)

variable {request object}

@[simp]
theorem mem_dedupe {objects : List String} : object ∈ dedupe objects ↔ object ∈ objects := by
  refine ⟨Keyed.mem_of_mem_firstKept, fun h => ?_⟩
  obtain ⟨other, hother, rfl⟩ := Keyed.exists_mem_firstKept id h
  exact hother

theorem coversObject_iff {scope : RecoveryScope} :
    scope.coversObject object = true ↔ object ∈ scope.covers := by
  simp [RecoveryScope.coversObject]

theorem covered_iff : covered request object = true ↔
    ∃ asset ∈ request.assets, object ∈ asset.scope.covers := by
  simp [covered, RecoveryScope.coversObject]

theorem mem_changedObjects : object ∈ changedObjects request ↔ ChangedByPlan request object := by
  unfold changedObjects ChangedByPlan
  cases request.source with
  | none => simp
  | some source =>
    rw [mem_filter, mem_filterMap, covered_iff]
    simp only [mem_filter, planEffects, mem_flatMap, Option.mem_def, Option.some.injEq,
      exists_eq_left']
    constructor
    · rintro ⟨⟨effect, ⟨⟨action, haction, heffect⟩, hpersistent⟩, hobject⟩, hcovered⟩
      exact ⟨action, haction, effect, heffect, hpersistent, hobject, hcovered⟩
    · rintro ⟨action, haction, effect, heffect, hpersistent, hobject, hcovered⟩
      exact ⟨⟨effect, ⟨⟨action, haction, heffect⟩, hpersistent⟩, hobject⟩, hcovered⟩

/-- **The restore set is what is wanted.** -/
theorem mem_restoreSet : object ∈ restoreSet request ↔ Wanted request object := by
  unfold restoreSet Wanted
  by_cases hasked : request.restoreSet = []
  · rw [if_neg (by simp [hasked])]
    by_cases hchanged : changedObjects request = []
    · have hnone (other : String) : ¬ ChangedByPlan request other := by
        rw [← mem_changedObjects, hchanged]
        exact not_mem_nil
      rw [if_neg (by simp [hchanged]), mem_dedupe]
      simp [hasked, hnone]
    · obtain ⟨other, hother⟩ := exists_mem_of_ne_nil _ hchanged
      rw [if_pos (by simpa using hchanged), mem_dedupe, mem_changedObjects]
      have hsome : ¬ ∀ other, ¬ ChangedByPlan request other :=
        fun hnone => hnone other (mem_changedObjects.mp hother)
      simp [hasked, hsome]
  · rw [if_pos (by simpa using hasked), mem_dedupe]
    simp [hasked]

/-- What the analysis of newer state observes: the objects that are wanted or covered, without the
storage objects of a provider that looked at them itself. -/
theorem mem_observations {fragment : RecoveryPlanFragment} {observation : ObjectObservation} :
    observation ∈ observations request (restoreSet request) fragment ↔
      observation.state = request.observe observation.object ∧
        (Wanted request observation.object ∨
          ∃ asset ∈ request.assets, observation.object ∈ asset.scope.covers) ∧
        (fragment.newerState.complete = true → startsWith observation.object "/" = true) := by
  have hscope (object : String) : object ∈ scopeObjects request (restoreSet request) ↔
      Wanted request object ∨ ∃ asset ∈ request.assets, object ∈ asset.scope.covers := by
    rw [scopeObjects, mem_insertionSort, mem_dedupe, mem_append, mem_restoreSet,
      mem_flatMap]
  unfold observations
  rw [mem_map]
  constructor
  · rintro ⟨object, hobject, rfl⟩
    obtain ⟨hin, hasked⟩ := mem_filter.mp hobject
    refine ⟨rfl, (hscope object).mp hin, fun hcomplete => ?_⟩
    simpa [hcomplete] using hasked
  · rintro ⟨hstate, hin, hasked⟩
    refine ⟨observation.object, mem_filter.mpr ⟨(hscope _).mpr hin, ?_⟩, ?_⟩
    · cases hcomplete : fragment.newerState.complete with
      | false => simp
      | true => simpa using hasked hcomplete
    · rw [← hstate]

end Wanted

/-! ### What a plan is made of -/

section Made

variable {sha256 : Sha256} {render : Renderings} {request : RecoveryRequest}
  {recovery : RecoveryPlan} {selection : MethodSelection}

/-- What a recovery plan is made of. -/
theorem planRecoveryExplained_eq_ok
    (h : planRecoveryExplained request sha256 render = .ok (recovery, selection)) :
    select (methodRequest request) = .ok selection ∧
      recovery.restores = restoreSet request ∧
      recovery.newerState = newerState request render selection.chosen.fragment (restoreSet request) ∧
      recovery.unrecoverable =
        unrecoverable request selection.chosen.fragment (restoreSet request) ∧
      recovery.destructiveAccepted = false := by
  unfold planRecoveryExplained at h
  split_ifs at h
  cases husable : request.assets.forM (usable render) with
  | error error =>
    rw [husable] at h
    cases h
  | ok done =>
    rw [husable] at h
    cases hselect : select (methodRequest request) with
    | error error =>
      rw [hselect] at h
      cases h
    | ok chosen =>
      rw [hselect] at h
      simp only [bind, Except.bind] at h
      split at h
      · cases h
      · obtain ⟨rfl, rfl⟩ := Prod.mk.inj (Except.ok.inj h)
        exact ⟨rfl, rfl, rfl, rfl, rfl⟩

theorem exists_firstChoice
    (h : planRecoveryExplained request sha256 render = .ok (recovery, selection)) :
    ∃ asset, FirstChoice request.registry request.source request.goal request.forcedMethod
      request.requiredMetadata request.requiredSemantics request.assets asset selection.chosen :=
  exists_firstChoice_of_select (planRecoveryExplained_eq_ok h).1

end Made

end OnoSendai.Recovery
