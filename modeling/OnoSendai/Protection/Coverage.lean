import OnoSendai.Change.Action
import OnoSendai.Protection.Registry

/-!
# The coverage analysis

What a plan changes, read out of the effects its actions declare, and how each change is covered:
for every mutated subject the providers are asked, an offer is chosen and planned, and the answer is
a row of the coverage matrix. A removal also reaches the filesystems mounted beneath its subject,
and each of them is a row of its own.
-/

namespace OnoSendai.Protection

open Vocabulary

/-! ### What a plan changes -/

/-- One thing a plan proposes to change, in the domain it changes it in. -/
structure MutationDomain where
  domain : EffectDomain
  kind : EffectKind
  subject : String
  compensation : Option String
  detail : String
  recursive : Bool
deriving DecidableEq

/-- The recovery objective a domain and a kind imply. -/
def objectiveFor (domain : EffectDomain) (kind : EffectKind) : RecoveryObjective :=
  if kind = .emit then
    .noRecoveryRequired
  else
    match domain with
    | .filesystemPersistent | .blockStoragePersistent | .applicationPersistent
    | .identitySecurityState => .preserveExact
    | .processRuntime | .kernelRuntime | .providerTransactionState => .restoreSemantic
    | .networkRuntime | .externalSideEffect => .noRecoveryRequired
    | .remoteSystem => .compensate
    | .unknown => .unknown

namespace MutationDomain

/-- Declares that a plan changes a subject. -/
def new (domain : EffectDomain) (kind : EffectKind) (subject detail : String) : MutationDomain where
  domain := domain
  kind := kind
  subject := subject
  compensation := none
  detail := detail
  recursive := false

/-- Whether the mutation reaches everything beneath its subject. -/
def isRecursive (mutation : MutationDomain) : Bool :=
  mutation.recursive || mutation.kind = .remove

/-- Reads a mutation out of one proposed effect. -/
def fromEffect (effect : ProposedEffect) : MutationDomain where
  domain := effect.domain
  kind := effect.kind
  subject := effect.object.getD effect.explanation
  compensation := effect.compensation
  detail := effect.explanation
  recursive := false

/-- What recovery the mutation would need. -/
def objective (mutation : MutationDomain) : RecoveryObjective :=
  objectiveFor mutation.domain mutation.kind

/-- Whether two mutations are of one subject in one domain. -/
def sameSubject (mutation other : MutationDomain) : Bool :=
  mutation.domain = other.domain && mutation.subject = other.subject

end MutationDomain

/-- Records one mutation unless one of the same subject and domain is already there. -/
def pushUnique (domains : List MutationDomain) (mutation : MutationDomain) : List MutationDomain :=
  if domains.any (·.sameSubject mutation) then domains else domains ++ [mutation]

/-- The record of a mutating action that declares no effect. -/
def undeclared (action : PlanAction) : MutationDomain :=
  .new .unknown .unknown (action.target.getD action.summary)
    ("`" ++ action.summary ++
      "` declares no effect, so what it changes could not be established")

/-- The records one mutating action gives rise to. -/
def derived (action : PlanAction) : List MutationDomain :=
  if action.effects.isEmpty then [undeclared action]
  else action.effects.map MutationDomain.fromEffect

/-- The order of the records: by the domain's place in the vocabulary, then by subject. -/
def inOrder (left right : MutationDomain) : Bool :=
  let place (domain : EffectDomain) : Nat := (all : List EffectDomain).idxOf domain
  place left.domain < place right.domain ||
    (place left.domain = place right.domain && left.subject ≤ right.subject)

/-- Every mutation a plan's actions declare. -/
def mutationDomains (actions : List PlanAction) : List MutationDomain :=
  let domains := (actions.filter (·.role.mutatesTarget)).foldl
    (fun domains action => (derived action).foldl pushUnique domains) []
  domains.insertionSort (inOrder · ·)

/-- The exclusion a mutation carries when no recovery is required of it. -/
def exclusionFor (mutation : MutationDomain) : Option CoverageExclusion :=
  if mutation.domain = .externalSideEffect ∨ mutation.kind = .emit then
    some
      { domain := mutation.domain
        subject := mutation.subject
        reason := "§35.1: the call has left the system by the time recovery could reconsider, and no " ++
          "local recovery asset touches it"
        irreversible := true }
  else if mutation.domain = .networkRuntime then
    some
      { domain := mutation.domain
        subject := mutation.subject
        reason :=
          "§34: live sessions and in-flight connections are not restored by any recovery asset"
        irreversible := false }
  else if mutation.domain = .unknown then
    some
      { domain := mutation.domain
        subject := mutation.subject
        reason := "Appendix A.7 and §6.3: the provider declared a side-effect domain Ono cannot " ++
          "classify, so no snapshot elsewhere on the host says anything about it"
        irreversible := false }
  else
    none

/-! ### Offers -/

/-- Why an offer was not used. -/
inductive RejectionReason
  | objectiveUnsupported
  | dominated
  | costLimit
  | protectionOff
  | conflicting
  | notPlannable
  | snapshotOfMergedView
deriving DecidableEq

/-- An offer that was not used. -/
structure RejectedCandidate where
  candidate : RecoveryCandidate
  reason : RejectionReason
deriving DecidableEq

/-- The protection one offer would provide. -/
def candidateProtection (candidate : RecoveryCandidate) : DomainProtection :=
  match candidate.consistency with
  | .unknown => .unknown
  | .transactionConsistent => .transactional
  | _ => if candidate.restoreMethod.restoresPriorState then .protected' else .compensatable

/-- Whether an offered objective is at least as strong as a required one. -/
def covers (offered required : RecoveryObjective) : Bool :=
  match required with
  | .noRecoveryRequired => true
  | .unknown => false
  | .preserveExact => offered = .preserveExact
  | .restoreSemantic => offered = .preserveExact || offered = .restoreSemantic
  | .compensate =>
    offered = .preserveExact || offered = .restoreSemantic || offered = .compensate

/-- Whether an offer satisfies an objective. -/
def satisfies (candidate : RecoveryCandidate) (objective : RecoveryObjective) : Bool :=
  objective.satisfiedBy (candidateProtection candidate) && covers candidate.objective objective

/-- How strong a consistency claim is, strongest first. -/
def consistencyRank (consistency : ConsistencyClass) : Nat :=
  let weaker := (all : List ConsistencyClass).countP fun other =>
    other ≠ consistency && consistency.weakestOf other = other
  (all : List ConsistencyClass).length - weaker

/-- How much downtime restoring from an offer would need, in microseconds. -/
def downtime (candidate : RecoveryCandidate) : Nat :=
  let quiesce := (candidate.cost.quiesce.getD 0) / 1000
  let reboot := if candidate.cost.requiresReboot then 1 else 0
  let offline := if candidate.cost.requiresOffline then 1 else 0
  min (quiesce + (reboot + offline) * 60 * 60 * 1000000) (2 ^ 128 - 1)

/-- The preference key of an offer, smallest first. What is not stated comes last. -/
def preferenceKey (candidate : RecoveryCandidate) (objective : RecoveryObjective) : List Nat :=
  let cost := candidate.cost
  [if satisfies candidate objective then 0 else 1,
    if candidate.scope.covers.length = 0 then 2 ^ 64 - 1 else candidate.scope.covers.length,
    consistencyRank candidate.consistency,
    candidate.restoreMethod.destructiveness,
    cost.creationLatency.elim (2 ^ 128 - 1) (· / 1000),
    cost.initialBytes.getD (2 ^ 128 - 1),
    cost.retainedBytes.getD (2 ^ 128 - 1),
    downtime candidate]

/-- Whether an offer comes before another in the preference order. -/
def preferred (objective : RecoveryObjective) (left right : RecoveryCandidate) : Bool :=
  preferenceKey left objective < preferenceKey right objective ||
    (preferenceKey left objective = preferenceKey right objective &&
      (left.provider < right.provider ||
        (left.provider = right.provider && left.scope.domain ≤ right.scope.domain)))

/-- The offers in the preference order, best first. -/
def ranked (candidates : List RecoveryCandidate) (objective : RecoveryObjective) :
    List RecoveryCandidate :=
  candidates.insertionSort (preferred objective · ·)

/-- Whether an offer captures the filesystem mounted at a boundary. -/
def captures (candidate : RecoveryCandidate) (boundary : MountBoundary) : Bool :=
  let scope := candidate.scope
  boundary.domain.object.any (fun object => scope.domain = object || scope.coversObject object) ||
    scope.covers.any fun covered =>
      covered ≠ boundary.mountPoint && contains boundary.mountPoint covered

/-! ### The request -/

/-- Everything the analysis is told. -/
structure CoverageRequest where
  registry : ProviderRegistry
  policy : ProtectionPolicy
  mutations : List MutationDomain
  persistence : List PersistenceDomain
  mounts : Option MountTable

/-- The last of the items with the largest size. -/
def maxByKey {α : Type} (size : α → Nat) (items : List α) : Option α :=
  items.foldl (fun best item =>
    if ∀ current ∈ best, size current ≤ size item then some item else best) none

namespace CoverageRequest

/-- The domain that holds a subject: one that was resolved for it, what the mount table says, or the
deepest resolved directory above it on the same mount. -/
def persistenceFor (request : CoverageRequest) (subject : String) : Option PersistenceDomain :=
  match request.persistence.find? (·.path = subject) with
  | some exact => some exact
  | none =>
    match request.mounts, startsWith subject "/" with
    | some mounts, true => some (mounts.resolve subject)
    | _, _ =>
      let points := (request.persistence.map (·.mount.mountPoint)).filter fun point =>
        point ≠ "" && contains point subject
      (maxByKey (fun point => (trimEndSlashes point).utf8ByteSize) points).bind fun serving =>
        let above := request.persistence.filter fun domain =>
          trimEndSlashes domain.path ≠ "" && startsWith subject (trimEndSlashes domain.path ++ "/")
        (maxByKey (fun domain => domain.path.utf8ByteSize) above).filter fun domain =>
          domain.mount.mountPoint = serving

end CoverageRequest

/-- The filesystems a mutation reaches beneath its subject. -/
def boundariesReachedBy (mounts : Option MountTable) (mutation : MutationDomain) :
    List MountBoundary :=
  match mounts with
  | some mounts =>
    if mutation.isRecursive && startsWith mutation.subject "/" then
      mounts.boundariesBeneath mutation.subject
    else
      []
  | none => []

/-! ### Covering one domain -/

/-- What the analysis has gathered besides the rows: the planned actions, the offers that were not
used, every offer, and the providers that could not be asked. -/
structure Gathered where
  actions : List ProtectionAction
  rejected : List RejectedCandidate
  available : List RecoveryCandidate
  refusals : List ProviderRefusal
deriving DecidableEq

namespace Gathered

/-- Nothing gathered yet. -/
def empty : Gathered where
  actions := []
  rejected := []
  available := []
  refusals := []

/-- Records a rejection. -/
def reject (gathered : Gathered) (reason : RejectionReason) (candidate : RecoveryCandidate) :
    Gathered :=
  { gathered with rejected := gathered.rejected ++ [⟨candidate, reason⟩] }

/-- Records rejections. -/
def rejectAll (gathered : Gathered) (reason : RejectionReason)
    (candidates : List RecoveryCandidate) : Gathered :=
  candidates.foldl (reject · reason ·) gathered

/-- Records the providers that could not be asked, each once. -/
def refusing (gathered : Gathered) (refusals : List ProviderRefusal) : Gathered :=
  { gathered with
    refusals := refusals.foldl (fun kept refusal =>
      if kept.any (·.provider = refusal.provider) then kept else kept ++ [refusal])
      gathered.refusals }

/-- Records offers, each once. -/
def offering (gathered : Gathered) (candidates : List RecoveryCandidate) : Gathered :=
  { gathered with
    available := candidates.foldl (fun kept candidate =>
      if candidate ∈ kept then kept else kept ++ [candidate]) gathered.available }

/-- Records planned actions. -/
def planning (gathered : Gathered) (actions : List ProtectionAction) : Gathered :=
  { gathered with actions := gathered.actions ++ actions }

end Gathered

/-- What the providers offer for one mutation, the sentence about it, and what the resolution itself
refused. -/
structure Offers where
  candidates : List RecoveryCandidate
  note : String
  exclusions : List CoverageExclusion

/-- The sentence about a subject no domain was resolved for. -/
def unresolvedNote (subject : String) : String :=
  "no persistence domain was resolved for " ++ subject ++
    ", and §11.2 requires the mapping before protection is claimed"

/-- The sentence about what was offered for a subject that a domain holds. -/
def offersNote (subject : String) (named : PersistenceDomain) (outcome : DiscoveryOutcome)
    (candidates : List RecoveryCandidate) : String :=
  if !candidates.isEmpty then
    named.objectKind ++ " covers " ++ named.object.getD subject
  else if outcome.isConclusive then
    "no registered provider offers protection for " ++ named.object.getD subject ++
      " (Appendix A.3)"
  else
    let refused := outcome.refusals.map fun refusal =>
      refusal.provider ++ " (" ++ refusal.reason ++ ")"
    (if refused.length = 1 then "1 provider" else toString refused.length ++ " providers") ++
      " could not be asked about " ++ subject ++ ": " ++ "; ".intercalate refused ++
      ". The absence of a candidate establishes nothing (§55.6 case 29)"

/-- Asks the providers about one mutation. -/
def discover (request : CoverageRequest) (mutation : MutationDomain)
    (persistence : Option PersistenceDomain) (gathered : Gathered) : Offers × Gathered :=
  let subject := mutation.subject
  match persistence.filter (!·.isProtectable) with
  | some refused =>
    (⟨[], subject ++ " has no persistence domain a local provider may protect: " ++ refused.detail,
      [⟨mutation.domain, subject, refused.detail, false⟩]⟩, gathered)
  | none =>
    if persistence.isNone && !startsWith subject "/" then
      (⟨[], unresolvedNote subject, []⟩, gathered)
    else
      let outcome := request.registry.discoverAt subject persistence mutation.objective
      let gathered := gathered.refusing outcome.refusals
      match persistence.or (outcome.resolutions.head?.map (·.2)) with
      | none => (⟨[], unresolvedNote subject, []⟩, gathered)
      | some named =>
        let candidates := outcome.candidates.filter (·.domain = mutation.domain)
        (⟨candidates, offersNote subject named outcome candidates, []⟩,
          gathered.offering candidates)

/-- Whether a provider would make nothing but independent copies for an offer. -/
def isCopy (registry : ProviderRegistry) (candidate : RecoveryCandidate) : Bool :=
  match registry.get candidate.provider with
  | none => false
  | some provider =>
    match provider.planProtection [candidate] .prefer with
    | .ok actions =>
      !actions.isEmpty && actions.all (·.proposedAsset.assetType.isIndependentCopy)
    | .error _ => false

/-- Drops the offers that are not copies. -/
def copiesOnly (registry : ProviderRegistry) (candidates : List RecoveryCandidate)
    (gathered : Gathered) : List RecoveryCandidate × Gathered :=
  (candidates.filter (isCopy registry),
    gathered.rejectAll .snapshotOfMergedView (candidates.filter (!isCopy registry ·)))

/-- Whether an offer keeps to the configured limits. -/
def isWithin (limits : CostLimits) (planned : Nat) (candidate : RecoveryCandidate) : Bool :=
  (limits.breaches candidate.cost candidate.scope.covers.length planned).isEmpty

/-- Drops the offers a configured limit forbids. -/
def withinLimits (limits : CostLimits) (candidates : List RecoveryCandidate) (planned : Nat)
    (gathered : Gathered) : List RecoveryCandidate × Gathered :=
  (candidates.filter (isWithin limits planned),
    gathered.rejectAll .costLimit (candidates.filter (!isWithin limits planned ·)))

/-- The best offer, and under `maximize` the others that do not conflict with those chosen. -/
def choose (mode : ProtectionMode) : List RecoveryCandidate → List RecoveryCandidate → Gathered →
    List RecoveryCandidate × Gathered
  | [], chosen, gathered => (chosen, gathered)
  | candidate :: ordered, chosen, gathered =>
    if chosen.isEmpty then
      choose mode ordered [candidate] gathered
    else if mode ≠ .maximize then
      choose mode ordered chosen (gathered.reject .dominated candidate)
    else if chosen.any fun kept => kept.provider = candidate.provider ||
        kept.scope.domain = candidate.scope.domain then
      choose mode ordered chosen (gathered.reject .conflicting candidate)
    else
      choose mode ordered (chosen ++ [candidate]) gathered

/-- The planned actions of one provider; under `maximize` those after the first are extras. -/
def withExtras (mode : ProtectionMode) : List ProtectionAction → List ProtectionAction →
    List ProtectionAction
  | actions, [] => actions
  | actions, action :: planned =>
    withExtras mode
      (actions ++ [if mode = .maximize && !actions.isEmpty then { action with required := false }
        else action]) planned

/-- Plans the chosen offers, provider by provider. -/
def planActions (registry : ProviderRegistry) (chosen : List RecoveryCandidate)
    (mode : ProtectionMode) : List String → List ProtectionAction → Gathered →
    List ProtectionAction × Gathered
  | [], actions, gathered => (actions, gathered)
  | id :: ids, actions, gathered =>
    let group := chosen.filter (·.provider = id)
    match registry.get id with
    | none =>
      planActions registry chosen mode ids actions (gathered.rejectAll .notPlannable group)
    | some provider =>
      match provider.planProtection group mode with
      | .ok planned =>
        planActions registry chosen mode ids (withExtras mode actions planned) gathered
      | .error error =>
        let refused : Gathered :=
          { gathered with refusals := gathered.refusals ++ [⟨id, error.message, error⟩] }
        planActions registry chosen mode ids actions (refused.rejectAll .notPlannable group)

/-- What asking and choosing produced for one mutation over one domain. -/
structure Cover where
  actions : List ProtectionAction
  note : String
  unknownSemantics : Bool
  exclusions : List CoverageExclusion

/-- A cover nothing was asked for. -/
def Cover.nothing (note : String) : Cover where
  actions := []
  note := note
  unknownSemantics := false
  exclusions := []

/-- The offers in the order they are tried: where the mutation reaches filesystems beneath, those
that capture more of them come first. -/
def tried (boundaries : List MountBoundary) (candidates : List RecoveryCandidate)
    (objective : RecoveryObjective) : List RecoveryCandidate :=
  let missed (candidate : RecoveryCandidate) : Nat :=
    boundaries.countP fun boundary =>
      boundary.domain.isProtectable && !captures candidate boundary
  let ordered := ranked candidates objective
  if boundaries.isEmpty then ordered
  else ordered.insertionSort fun left right => missed left ≤ missed right

/-- The offers that may be used for one mutation over one domain, in the order they are tried, out of
those that were made. -/
def fittingOffers (request : CoverageRequest) (mutation : MutationDomain)
    (persistence : Option PersistenceDomain) (boundaries : List MountBoundary)
    (candidates : List RecoveryCandidate) (gathered : Gathered) :
    List RecoveryCandidate × Gathered :=
  let copies :=
    if persistence.any (DomainReach.of · = .copyOnly) then
      copiesOnly request.registry candidates gathered
    else
      (candidates, gathered)
  let fitting := withinLimits request.policy.limits copies.1 gathered.actions.length copies.2
  (tried boundaries fitting.1 mutation.objective, fitting.2)

/-- The offers that are used, out of those that satisfy the objective. -/
def chosenOffers (mode : ProtectionMode) (usable : List RecoveryCandidate) (gathered : Gathered) :
    List RecoveryCandidate × Gathered :=
  if mode.createsAssets then choose mode usable [] gathered
  else ([], gathered.rejectAll .protectionOff usable)

/-- The providers of offers, each once. -/
def providersOf (chosen : List RecoveryCandidate) : List String :=
  (chosen.map (·.provider)).foldl (fun kept id => if id ∈ kept then kept else kept ++ [id]) []

/-- Covers one mutation over one domain. -/
def cover (request : CoverageRequest) (mutation : MutationDomain)
    (persistence : Option PersistenceDomain) (boundaries : List MountBoundary)
    (gathered : Gathered) : Cover × Gathered :=
  let mode := request.policy.mode
  let offers := discover request mutation persistence gathered
  let ordered := fittingOffers request mutation persistence boundaries offers.1.candidates offers.2
  let usable := ordered.1.filter (satisfies · mutation.objective)
  let unusable := ordered.1.filter (!satisfies · mutation.objective)
  let chosen := chosenOffers mode usable (ordered.2.rejectAll .objectiveUnsupported unusable)
  let planned :=
    planActions request.registry chosen.1 mode (providersOf chosen.1) [] chosen.2
  let note :=
    if mode.createsAssets then offers.1.note
    else "protection is off, and the opportunities that were available are listed rather than " ++
      "taken (§17.2)"
  ({ actions := planned.1
     note :=
      if persistence.any (DomainReach.of · = .copyOnly) && !planned.1.isEmpty then
        note ++ "; the protection is container-local: the recovery copy lives on the same " ++
          "overlay as the target, whose writable layer may be ephemeral, so it shares the " ++
          "target's failure domain (Appendix B.5, §11.5)"
      else
        note
     unknownSemantics := unusable.any (·.consistency = .unknown)
     exclusions := offers.1.exclusions }, planned.2)

/-! ### Rows -/

/-- What the planned actions protect a mutation with, and the sentence the row then carries. -/
def protectionOf (actions : List ProtectionAction) (mutation : MutationDomain)
    (unknownSemantics : Bool) (note : String) : DomainProtection × String :=
  match actions.head? with
  | some action => (candidateProtection action.candidate, note)
  | none =>
    if unknownSemantics then
      (.unknown, "the only candidate offered had recovery semantics its provider could not " ++
        "establish, so this domain's recovery properties are unknown (§39.1, §55.6 case 29)")
    else
      match mutation.compensation with
      | some compensation =>
        (.compensatable,
          "compensated by " ++ compensation ++ ", which is not a rollback (§27.4)")
      | none => (.unprotected, note)

/-- One row of the matrix before the rows are composed. -/
structure RowDraft where
  domain : EffectDomain
  objective : RecoveryObjective
  protection : DomainProtection
  note : String
  actions : List ProtectionAction
  consistency : Option ConsistencyClass
  exclusions : List CoverageExclusion
  notProtectedBy : List String
  irrelevant : Bool

/-- What encloses the target without reaching it, as the planned offers name it, less what one of
them captures after all. -/
def enclosing (actions : List ProtectionAction) : List String :=
  (actions.flatMap (·.candidate.notProtecting)).foldl (fun kept object =>
    let captured := actions.any fun action =>
      action.candidate.scope.domain = object || action.candidate.scope.coversObject object
    if captured || object ∈ kept then kept else kept ++ [object]) []

/-- The weakest consistency of planned actions. -/
def weakestConsistency (actions : List ProtectionAction) : Option ConsistencyClass :=
  actions.foldl (fun weakest action =>
    some (weakest.elim action.candidate.consistency (·.weakestOf action.candidate.consistency)))
    none

namespace RowDraft

/-- The row of a mutation and its cover. -/
def of (mutation : MutationDomain) (cover : Cover) (irrelevant : Bool) : RowDraft :=
  let shown := protectionOf cover.actions mutation cover.unknownSemantics cover.note
  { domain := mutation.domain
    objective := mutation.objective
    protection := shown.1
    note := shown.2
    actions := cover.actions
    consistency := weakestConsistency cover.actions
    exclusions := (exclusionFor mutation).toList ++
      cover.actions.flatMap (fun action => action.candidate.exclusions.map fun exclusion =>
        ⟨mutation.domain, exclusion.subject, exclusion.reason, false⟩) ++
      cover.exclusions
    notProtectedBy := enclosing cover.actions
    irrelevant := irrelevant }

/-- The finished row. -/
def build (draft : RowDraft) : DomainCoverage where
  domain := draft.domain
  objective := draft.objective
  protection := draft.protection
  assets := draft.actions.map (·.proposedAsset.id)
  consistency := draft.consistency
  transactionScope :=
    if draft.protection = .transactional then draft.actions.head?.map (·.provider) else none
  exclusions := draft.exclusions
  notProtectedBy := draft.notProtectedBy
  note := draft.note
  policyIrrelevant := draft.irrelevant

end RowDraft

/-- Whether a filesystem holds no persistent state, so that it is named on the row above it rather
than given one of its own. -/
def MountBoundary.isTransient (boundary : MountBoundary) : Bool :=
  boundary.domain.refusal = some .volatile || boundary.domain.refusal = some .pseudo

/-- The mutation of a filesystem mounted beneath a mutated directory. -/
def MutationDomain.beneath (mutation : MutationDomain) (boundary : MountBoundary) :
    MutationDomain :=
  .new mutation.domain mutation.kind boundary.mountPoint
    (boundary.mountPoint ++ " is mounted beneath " ++ mutation.subject ++
      " and the mutation reaches it")

/-- The state of the walk over the filesystems beneath one subject: what has been gathered, the
actions planned for the tree, the row of the subject and the rows beneath it. -/
structure TreeWalk where
  gathered : Gathered
  tree : List ProtectionAction
  parent : RowDraft
  children : List RowDraft

/-- Adds the row of one filesystem mounted beneath a mutated subject. -/
def boundaryRow (request : CoverageRequest) (mutation : MutationDomain)
    (boundaries : List MountBoundary) (irrelevant : Bool) (walk : TreeWalk)
    (boundary : MountBoundary) : TreeWalk :=
  let point := boundary.mountPoint
  let domain := boundary.domain
  let child := mutation.beneath boundary
  if boundary.isTransient then
    { walk with
      parent := { walk.parent with
        exclusions := walk.parent.exclusions ++ [
          { domain := mutation.domain
            subject := point
            reason := "§32.3: the mutation of " ++ mutation.subject ++ " reaches " ++ point ++
              ", and " ++ domain.detail
            irreversible := false }] } }
  else
    let covering := if domain.isProtectable then
      walk.tree.filter (fun action => captures action.candidate boundary) else []
    match covering with
    | first :: _ =>
      let note := point ++ " is the separate " ++ domain.objectKind ++ " " ++
        domain.object.getD point ++ " beneath " ++ mutation.subject ++ ", captured by " ++
        first.summary ++ " in the same operation that captures the tree above it (§32.3)"
      let draft := RowDraft.of child ⟨covering, note, false, []⟩ irrelevant
      -- the candidate's own exclusions are on the directory's row already
      { walk with children := walk.children ++ [{ draft with exclusions := [] }] }
    | [] =>
      let beneath := boundaries.filter fun other =>
        other.mountPoint ≠ point && contains point other.mountPoint
      let found := cover request child (some domain) beneath walk.gathered
      let exclusions :=
        if found.1.actions.isEmpty && found.1.exclusions.isEmpty then
          [{ domain := mutation.domain
             subject := point
             reason := "§32.3: the mutation of " ++ mutation.subject ++ " reaches " ++ point ++
               ", a separate filesystem nothing captures: " ++ found.1.note
             irreversible := false }]
        else
          found.1.exclusions
      let note := point ++ " is a separate filesystem beneath " ++ mutation.subject ++
        " that the mutation reaches: " ++ found.1.note
      { walk with
        gathered := found.2.planning found.1.actions
        tree := walk.tree ++ found.1.actions
        children := walk.children ++ [RowDraft.of child
          ⟨found.1.actions, note, found.1.unknownSemantics, exclusions⟩ irrelevant] }

/-- The filesystems a mutation that needs recovery reaches. -/
def boundariesOf (mounts : Option MountTable) (mutation : MutationDomain) : List MountBoundary :=
  if mutation.objective.isRequired then boundariesReachedBy mounts mutation else []

/-- What is found for a mutation's own row. -/
def ownCover (request : CoverageRequest) (mutation : MutationDomain) (gathered : Gathered) :
    Cover × Gathered :=
  if mutation.objective.isRequired then
    cover request mutation (request.persistenceFor mutation.subject)
      (boundariesOf request.mounts mutation) gathered
  else
    (Cover.nothing ("no recovery is required of " ++ asStr mutation.domain ++
      ", and it stays visible as an exclusion (Appendix A.5)"), gathered)

/-- The sentence about a mutation, with the filesystems it reaches. -/
def reachNote (mutation : MutationDomain) (boundaries : List MountBoundary) (note : String) :
    String :=
  if boundaries.isEmpty then note
  else note ++ "; the mutation reaches " ++ toString boundaries.length ++
    " filesystem(s) mounted beneath " ++ mutation.subject ++
    ", and each is a persistence domain of its own (§32.3)"

/-- Analyses one mutation: its own row, and those of the filesystems beneath it. -/
def analyseMutation (request : CoverageRequest) (gathered : Gathered) (mutation : MutationDomain) :
    Gathered × List RowDraft :=
  let irrelevant := request.policy.isIrrelevant mutation.domain
  let boundaries := boundariesOf request.mounts mutation
  let found := ownCover request mutation gathered
  let walk := boundaries.foldl (boundaryRow request mutation boundaries irrelevant)
    { gathered := found.2.planning found.1.actions
      tree := found.1.actions
      parent := RowDraft.of mutation
        { found.1 with note := reachNote mutation boundaries found.1.note } irrelevant
      children := [] }
  (walk.gathered, walk.parent :: walk.children)

/-- Rows of one domain that rest on separate creations share no point in time: each is lowered to
crash consistency at best. -/
def composeDomain (drafts : List RowDraft) (domain : EffectDomain) : List RowDraft :=
  let creations := (drafts.filter (·.domain = domain)).foldl (fun kept draft =>
    match draft.actions.head? with
    | some action => if action.candidate ∈ kept then kept else kept ++ [action.candidate]
    | none => kept) []
  if creations.length < 2 then
    drafts
  else
    drafts.map fun draft =>
      if draft.domain = domain && !draft.actions.isEmpty then
        let composed := draft.consistency.elim .crashConsistent (·.weakestOf .crashConsistent)
        { draft with
          consistency := some composed
          note := draft.note ++ "; " ++ asStr domain ++ " rests on " ++
            toString creations.length ++ " assets created one after another in separate " ++
            "operations, so together they hold no common point in time and are " ++
            asStr composed ++ " at best (Appendix D.7)" }
      else
        draft

/-- Composes the rows of every domain. -/
def composeSequential (drafts : List RowDraft) : List RowDraft :=
  (all : List EffectDomain).foldl composeDomain drafts

/-! ### The analysis -/

/-- The answer: the coverage matrix, what would be created, and what was not used. -/
structure CoverageAnalysis where
  summary : ProtectionSummary
  gathered : Gathered

/-- The plan-level word of an analysis. -/
def CoverageAnalysis.level (analysis : CoverageAnalysis) : ProtectionLevel :=
  analysis.summary.level

/-- Analyses mutations one after another. -/
def analyseAll (request : CoverageRequest) : List MutationDomain → Gathered →
    Gathered × List RowDraft
  | [], gathered => (gathered, [])
  | mutation :: mutations, gathered =>
    let analysed := analyseMutation request gathered mutation
    let rest := analyseAll request mutations analysed.1
    (rest.1, analysed.2 ++ rest.2)

/-- Runs the coverage analysis. -/
def analyse (request : CoverageRequest) : CoverageAnalysis :=
  let analysed := analyseAll request request.mutations .empty
  ⟨.of ((composeSequential analysed.2).map RowDraft.build), analysed.1⟩

/-- Every domain the sealed matrix showed as protected that the fresh one no longer protects. -/
def protectionLost (sealed fresh : ProtectionSummary) : List String :=
  ((sealed.rows.filter fun row => row.isSatisfied && row.protection ≠ .unknown).filter fun row =>
    !fresh.rows.any fun now => now.domain = row.domain && now.isSatisfied).map fun row =>
      asStr row.domain

end OnoSendai.Protection
