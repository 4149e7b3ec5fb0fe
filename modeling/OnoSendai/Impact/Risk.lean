import OnoSendai.Change.Action
import OnoSendai.Change.Asset
import OnoSendai.Change.Verification
import OnoSendai.Spatial.Place

/-!
# The risk rules

Fourteen rules look at a plan and the world it is made in, and each of them may find one thing. A
finding carries the id and the dimension of its rule, a class and the sentence a gate shows. The
class of the plan is the strongest that was found.

An object is known by the text of its address, and an index holds no text that is no address. The
kind of an object is known by its name: a package cannot contribute a kind under a declared name.
-/

namespace OnoSendai.Impact

/-! ### What is judged -/

/-- The object a provider names on an effect that requires a reboot. -/
def rebootRequired : String :=
  "ono.reboot/required"

/-- An edge of the index. -/
structure RelationshipEdge where
  source : String
  target : String
  relation : String

/-- The end of an edge that is not `here`. -/
def RelationshipEdge.otherEnd (edge : RelationshipEdge) (here : String) : Option String :=
  if here = edge.source then some edge.target
  else if here = edge.target then some edge.source
  else none

/-- What the index holds of one object. -/
structure IndexEntry where
  id : String
  displayName : String
  objectType : String
  edges : List RelationshipEdge

/-- The objects of a session, each once. -/
structure SpatialIndex where
  entries : List IndexEntry
  ids_nodup : (entries.map (·.id)).Nodup

/-- The entry of an object. -/
def SpatialIndex.get (index : SpatialIndex) (id : String) : Option IndexEntry :=
  index.entries.find? (·.id = id)

/-- The relations that prove membership in a group, and whether the group is their target. -/
def roleMembership : List (String × Bool) :=
  [("service.in_cgroup", true), ("process.member_of_cgroup", true),
    ("container.contains_process", false)]

/-- The relations that make an object a listener. -/
def listenerRelations : List String :=
  ["service.listens_on", "process.owns_socket"]

/-- How many targets a plan may have before that is worth saying, and before it is a high risk. -/
structure BulkThresholds where
  warnTargets : Nat
  highRiskTargets : Nat

/-- The path the session's own remote link depends on. -/
structure ActiveLink where
  host : String
  route : Option String
  interface : Option String

/-- Whether an object is one the link depends on. -/
def ActiveLink.dependsOn (link : ActiveLink) (object : String) : Bool :=
  link.route = some object || link.interface = some object

/-- One plan, and what the rules need to judge it. -/
structure RiskRequest where
  actions : List PlanAction
  targets : List FrozenTarget
  impact : Option ImpactGraph
  index : Option SpatialIndex
  link : Option ActiveLink
  recovery : List RestoreMethod
  thresholds : BulkThresholds

namespace RiskRequest

variable (request : RiskRequest)

/-- The actions that change the target system. -/
def mutating : List PlanAction :=
  request.actions.filter (·.role.mutatesTarget)

/-- Every effect of the plan, with the action that declares it. -/
def effects : List (PlanAction × ProposedEffect) :=
  request.actions.flatMap fun action => action.effects.map (action, ·)

/-- Names an object once. -/
def nameOnce (objects : List String) (object : String) : List String :=
  if object ∈ objects then objects else objects ++ [object]

/-- Names the target of an action, where no frozen target covers it. -/
def nameUncovered (objects : List String) (object : String) : List String :=
  if request.targets.any (·.spatialId = some object) then objects else nameOnce objects object

/-- The objects the plan changes, each once: the frozen targets, and the targets of its actions that
no frozen one covers. -/
def changedObjects : List String :=
  (request.mutating.filterMap (·.target)).foldl request.nameUncovered
    ((request.targets.map (·.identity)).foldl nameOnce [])

/-- Every identity the targets of the plan answer to, in order. -/
def targetedIdentities : List String :=
  ((request.targets.flatMap fun target => target.identity :: target.spatialId.toList) ++
    request.mutating.filterMap (·.target)).dedup.insertionSort (· ≤ ·)

/-- The hosts the plan reaches. -/
def hosts : List String :=
  (request.targets.filterMap (·.host)).dedup

end RiskRequest

/-! ### Rules -/

/-- What a rule's findings carry: its id and its dimension. -/
structure RuleHead where
  id : String
  dimension : RiskDimension

/-- One declared rule. -/
structure RiskRule extends RuleHead where
  evaluate : RuleHead → RiskRequest → Option RiskFinding

/-- The finding of a rule. -/
def finding (rule : RuleHead) (class' : RiskClass) (reason : String) : Option RiskFinding :=
  some ⟨rule.dimension, class', rule.id, reason⟩

section Rules

variable (rule : RuleHead) (request : RiskRequest)

/-- The plan changes one object. -/
def singleObject : Option RiskFinding :=
  match request.changedObjects with
  | [object] => finding rule .moderate ("the plan changes one object: \x60" ++ object ++ "\x60")
  | _ => none

/-- The plan changes more than one object. -/
def multiObject : Option RiskFinding :=
  let objects := request.changedObjects
  if objects.length < 2 then none
  else
    finding rule .moderate
      ("the plan changes " ++ toString objects.length ++ " objects, beginning with \x60" ++
        objects.head?.getD "?" ++ "\x60")

/-- The plan reaches the warning threshold. -/
def bulkWarn : Option RiskFinding :=
  let count := request.changedObjects.length
  let threshold := request.thresholds.warnTargets
  if count < threshold then none
  else
    finding rule .moderate
      (toString count ++ " targets is at or beyond the configured bulk warning threshold of " ++
        toString threshold ++ " (§53 \x60change.bulk.warn_targets\x60)")

/-- The plan reaches the high-risk threshold. -/
def bulkHigh : Option RiskFinding :=
  let count := request.changedObjects.length
  let threshold := request.thresholds.highRiskTargets
  if count < threshold then none
  else
    finding rule .high
      (toString count ++ " targets is at or beyond the configured high-risk threshold of " ++
        toString threshold ++ " (§53 \x60change.bulk.high_risk_targets\x60)")

/-- The kinds at the source and at the target of the relations that prove membership. -/
def relationEnds : String → Option (Spatial.SpatialType × Spatial.SpatialType)
  | "service.in_cgroup" => some (.service, .cgroup)
  | "process.member_of_cgroup" => some (.process, .cgroup)
  | "container.contains_process" => some (.container, .process)
  | _ => none

/-- The kind of a name. -/
def kindNamed (name : String) : Spatial.SpatialType :=
  (Spatial.SpatialType.all.find? (·.asStr = name)).getD (.contributed name)

/-- Whether an object of a kind could be a group. -/
def isGroupEnd (kind : Spatial.SpatialType) : Bool :=
  roleMembership.any fun relation =>
    (relationEnds relation.1).any fun ends => kind.isA (if relation.2 then ends.2 else ends.1)

/-- The member an edge puts inside a group that the index holds. -/
def memberBy (index : SpatialIndex) (group : String) (edge : RelationshipEdge) : Option String :=
  (roleMembership.find? (·.1 = edge.relation)).bind fun relation =>
    let groupEnd := if relation.2 then edge.target else edge.source
    if groupEnd ≠ group then none
    else (edge.otherEnd group).filter fun member => (index.get member).isSome

/-- The members of a group, in order. -/
def membersOf (index : SpatialIndex) (entry : IndexEntry) : List String :=
  (entry.edges.filterMap (memberBy index entry.id)).dedup.insertionSort (· ≤ ·)

/-- A group all of whose members are targeted, with their number. -/
def coveredGroup (index : SpatialIndex) (targeted : List String) (entry : IndexEntry) :
    Option (String × Nat) :=
  if !isGroupEnd (kindNamed entry.objectType) then none
  else
    let members := membersOf index entry
    if members.length < 2 then none
    else if members.all (· ∈ targeted) then some (entry.displayName, members.length)
    else none

/-- The topology proves that every member of a group is targeted. -/
def wholeRole : Option RiskFinding :=
  request.index.bind fun index =>
    let targeted := request.targetedIdentities
    if targeted.isEmpty then none
    else
      let covered := (index.entries.filterMap (coveredGroup index targeted)).insertionSort
        fun left right => left.1 < right.1 ∨ left.1 = right.1 ∧ left.2 ≤ right.2
      covered.head?.bind fun group =>
        finding rule .critical
          ("all " ++ toString group.2 ++ " members of \x60" ++ group.1 ++
            "\x60 are targeted; no serving member of that role is excluded (§28.3)")

/-- An action needs elevated privilege. -/
def privilege : Option RiskFinding :=
  let elevated := request.actions.filter (·.requiresPrivilege)
  elevated.head?.bind fun first =>
    finding rule .moderate
      (toString elevated.length ++ " of " ++ toString request.actions.length ++
        " actions run with elevated privilege, beginning with \x60" ++ first.summary ++ "\x60")

/-- An effect cannot be undone. -/
def irreversibility : Option RiskFinding :=
  let irreversible := (request.effects.map (·.2)).filter (·.irreversible)
  irreversible.head?.bind fun first =>
    finding rule .high
      (toString irreversible.length ++ " effect(s) cannot be undone by any recovery asset: " ++
        first.explanation)

/-- An effect leaves the machine. -/
def externalSideEffect : Option RiskFinding :=
  let external := (request.effects.map (·.2)).filter (·.domain = .externalSideEffect)
  external.head?.bind fun first =>
    finding rule .high
      (toString external.length ++
        " effect(s) leave this machine and no local snapshot reaches them: " ++ first.explanation)

/-- How many listeners the topology gives an object. -/
def listenersOf (index : SpatialIndex) (object : String) : Nat :=
  match index.get object with
  | none => 0
  | some entry =>
    ((entry.edges.filter (·.relation ∈ listenerRelations)).filter (·.source = object)).length

/-- Whether an action declares that something on the network is interrupted. -/
def declaresInterruption (action : ActionId) : Bool :=
  request.effects.any fun other =>
    other.2.action = action && other.2.domain = .networkRuntime && other.2.kind = .interrupt

/-- What a restart interrupts. -/
def interruptedBy (item : PlanAction × ProposedEffect) : Option RiskFinding :=
  let effect := item.2
  if effect.domain ≠ .processRuntime ∨ ¬ (effect.kind = .replace ∨ effect.kind = .interrupt) then
    none
  else
    let object := (effect.object.or item.1.target).getD ""
    let listeners := request.index.elim 0 (listenersOf · object)
    if listeners > 0 then
      finding rule .moderate
        ("restarting \x60" ++ object ++ "\x60 interrupts " ++ toString listeners ++
          " known listener(s); §33.1 makes that runtime state unrecoverable")
    else if declaresInterruption request effect.action then
      finding rule .moderate
        ("restarting \x60" ++ object ++ "\x60 interrupts what it was serving; §33.1 makes that " ++
          "runtime state unrecoverable")
    else none

/-- A restart interrupts listeners or connections. -/
def serviceRestart : Option RiskFinding :=
  request.effects.findSome? (interruptedBy rule request)

/-- The unknown boundaries of an impact graph. -/
def boundaryCount (graph : ImpactGraph) : Nat :=
  graph.boundaries.length + (graph.nodes.filter (·.class' = .unknownBoundary)).length

/-- Whether a provider could not classify an effect. -/
def isUnknownEffect (effect : ProposedEffect) : Bool :=
  effect.confidence = .unknown || effect.domain = .unknown || effect.kind = .unknown

/-- Whether an action is carried out by something nothing is known of. -/
def isOpaque (action : PlanAction) : Bool :=
  match action.execution with
  | .opaqueAction _ _ _ => true
  | _ => false

/-- What the impact graph leaves unknown. -/
def unknownOfGraph (graph : ImpactGraph) : List String :=
  (if boundaryCount graph > 0 then
    ["the impact graph ends at " ++ toString (boundaryCount graph) ++
      " boundary/boundaries Ono cannot see past"]
  else []) ++
    (graph.truncated.map ("the impact graph is incomplete: " ++ ·)).toList

/-- A reason that holds where something is counted. -/
def counting (count : Nat) (reason : String) : List String :=
  if count > 0 then [toString count ++ reason] else []

/-- The impact of the plan is not known. -/
def unknownImpact : Option RiskFinding :=
  let reasons := request.impact.elim [] unknownOfGraph ++
    counting (request.effects.countP fun item => isUnknownEffect item.2)
      " declared effect(s) are UNKNOWN and §8.1 forbids promoting them" ++
    counting (request.actions.countP isOpaque)
      " action(s) are opaque, so their scope is outside what Ono can reason about (§6.3)"
  if reasons.isEmpty then none else finding rule .unknown ("; ".intercalate reasons)

/-- A provider declared that a reboot is required. -/
def rebootRequirement : Option RiskFinding :=
  (request.effects.find? fun item => item.2.object = some rebootRequired).bind fun item =>
    finding rule .high
      ("\x60" ++ item.1.summary ++
        "\x60 requires a reboot to take effect, which ends every process on the host: " ++
        item.2.explanation)

/-- The plan reaches more than one host. -/
def remoteFanout : Option RiskFinding :=
  let hosts := request.hosts
  if hosts.length < 2 then none
  else
    finding rule (if request.thresholds.warnTargets ≤ hosts.length then .high else .moderate)
      ("the plan reaches " ++ toString hosts.length ++
        " hosts, and §29.1 decomposes it into per-host fragments with no global atomicity")

/-- The object of an effect on the network or another system that a link depends on. -/
def linkObject (link : ActiveLink) (item : PlanAction × ProposedEffect) : Option String :=
  if item.2.domain = .networkRuntime ∨ item.2.domain = .remoteSystem then
    item.2.object.filter link.dependsOn
  else none

/-- The plan may remove the path the session's own link depends on. -/
def linkLoss : Option RiskFinding :=
  request.link.bind fun link =>
    ((request.effects.findSome? (linkObject link)).or
      (request.targetedIdentities.find? link.dependsOn)).bind fun touched =>
        finding rule .critical
          ("the proposed change to \x60" ++ touched ++
            "\x60 may remove the transport path this active Ono link to \x60" ++ link.host ++
            "\x60 depends on (§34.2)")

/-- Recovery would need an offline method, or one that completes at the next boot. -/
def recoveryComplexity : Option RiskFinding :=
  if .offlineRootRecovery ∈ request.recovery then
    finding rule .high
      ("recovery would need an offline method — the filesystem unmounted or a " ++
        "boot-environment switch — so it cannot be performed from the running system (§13.7, " ++
        "§14.6)")
  else if .subvolumeReplacement ∈ request.recovery then
    finding rule .moderate
      ("recovery would need \x60" ++
        Vocabulary.asStr (RestoreMethod.subvolumeReplacement) ++
        "\x60, which completes at the next boot rather than in place (§14.4)")
  else none

end Rules

/-- Every rule, in the order they are evaluated. -/
def rules : List RiskRule :=
  [⟨⟨"risk.scope.single-object", .scope⟩, singleObject⟩,
    ⟨⟨"risk.scope.multi-object", .scope⟩, multiObject⟩,
    ⟨⟨"risk.bulk.warn-threshold", .bulkCount⟩, bulkWarn⟩,
    ⟨⟨"risk.bulk.high-threshold", .bulkCount⟩, bulkHigh⟩,
    ⟨⟨"risk.bulk.whole-role", .downtime⟩, wholeRole⟩,
    ⟨⟨"risk.privilege.elevation", .privilege⟩, privilege⟩,
    ⟨⟨"risk.irreversibility.effect", .irreversibility⟩, irreversibility⟩,
    ⟨⟨"risk.external.side-effect", .externalSideEffects⟩, externalSideEffect⟩,
    ⟨⟨"risk.downtime.service-restart", .downtime⟩, serviceRestart⟩,
    ⟨⟨"risk.unknown.impact", .unknownImpact⟩, unknownImpact⟩,
    ⟨⟨"risk.reboot.required", .rebootRequirement⟩, rebootRequirement⟩,
    ⟨⟨"risk.remote.fanout", .remoteFanout⟩, remoteFanout⟩,
    ⟨⟨"risk.remote.link-loss", .remoteFanout⟩, linkLoss⟩,
    ⟨⟨"risk.recovery.complexity", .recoveryComplexity⟩, recoveryComplexity⟩]

/-- What a rule finds. -/
def RiskRule.run (rule : RiskRule) (request : RiskRequest) : Option RiskFinding :=
  rule.evaluate rule.toRuleHead request

/-- The risk of a plan: every rule, run. -/
def assess (request : RiskRequest) : RiskAssessment :=
  { RiskAssessment.empty with findings := rules.filterMap (·.run request) }

end OnoSendai.Impact
