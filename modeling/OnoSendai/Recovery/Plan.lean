import OnoSendai.Change.Builder
import OnoSendai.Protection.Registry

/-!
# Recovery plans

What a recovery is for, what it does to state that is newer than its assets, and the plan that says
so. A provider answers for one of its assets with a fragment of a plan; the least destructive method
that meets the goal is taken.

Instants are in nanoseconds and sizes in bytes. The help text and the metadata of an error are left
out, and so are the texts only they carry.
-/

namespace OnoSendai

open List

/-! ### Refusals -/

namespace ErrorValue

/-- A critical recovery fact could not be established. -/
def recoveryPlanIncomplete (fact : String) : ErrorValue where
  code := .other "recovery.plan_incomplete"
  message := fact ++ " could not be established, so destructive recovery is blocked"

/-- The retention of an asset has passed. -/
def assetExpired (asset : RecoveryAssetId) (expiredAt : String) : ErrorValue where
  code := .other "recovery.asset_expired"
  message := "recovery asset " ++ asset.short ++ " expired at " ++ expiredAt

/-- Recovery would destroy history of a provider that was not accepted. -/
def destructiveHistoryNotAccepted (destroyed : List String) : ErrorValue where
  code := .other "recovery.destructive_history_not_accepted"
  message := "recovery would destroy " ++ toString destroyed.length ++
    " newer snapshot(s), bookmark(s) or clone(s)"

/-- Recovery would discard newer changes that were not accepted. -/
def newerStateConflict (objects : List String) : ErrorValue where
  code := .other "recovery.newer_state_conflict"
  message := "recovery would discard changes made to " ++ toString objects.length ++
    " object(s) after the recovery point"

end ErrorValue

namespace Recovery

/-! ### Goals and methods -/

/-- What a recovery is trying to achieve. -/
inductive RecoveryGoal
  | restoreChangedObjects
  | restoreDomain
  | compensateSemantics
  | restoreServiceHealth
deriving DecidableEq

instance : Vocabulary RecoveryGoal where
  all := [.restoreChangedObjects, .restoreDomain, .compensateSemantics, .restoreServiceHealth]
  asStr
    | .restoreChangedObjects => "restore-changed-objects"
    | .restoreDomain => "restore-domain"
    | .compensateSemantics => "compensate-semantics"
    | .restoreServiceHealth => "restore-service-health"
  mem_all member := by cases member <;> decide
  spellings_nodup := by decide

/-- Whether a method can achieve a goal. -/
def satisfies : RecoveryGoal → RestoreMethod → Bool
  | .restoreChangedObjects, .compensation => false
  | .restoreChangedObjects, _ => true
  | .restoreDomain, .subvolumeReplacement | .restoreDomain, .datasetRollback
  | .restoreDomain, .offlineRootRecovery => true
  | .restoreDomain, _ => false
  | .compensateSemantics, .compensation => true
  | .compensateSemantics, _ => false
  | .restoreServiceHealth, .compensation | .restoreServiceHealth, .providerNativeRestore => true
  | .restoreServiceHealth, _ => false

/-- The least destructive method of the candidates that achieves the goal. -/
def chooseMethod (goal : RecoveryGoal) (candidates : List RestoreMethod) : Option RestoreMethod :=
  ((candidates.filter (satisfies goal)).insertionSort
    fun first second => first.destructiveness ≤ second.destructiveness).head?

theorem destructiveness_injective : Function.Injective RestoreMethod.destructiveness := by
  intro first second h
  cases first <;> cases second <;> first | rfl | cases h

/-- **What the choice is.** It is one of the candidates, it achieves the goal, and no candidate that
does is less destructive. -/
theorem chooseMethod_eq_some_iff {goal : RecoveryGoal} {candidates : List RestoreMethod}
    {method : RestoreMethod} :
    chooseMethod goal candidates = some method ↔
      (method ∈ candidates ∧ satisfies goal method = true) ∧
        ∀ other ∈ candidates, satisfies goal other = true →
          method.destructiveness ≤ other.destructiveness := by
  let atMost : RestoreMethod → RestoreMethod → Prop :=
    fun first second => first.destructiveness ≤ second.destructiveness
  let usable := candidates.filter (satisfies goal)
  have : Std.Total atMost := ⟨fun _ _ => le_total _ _⟩
  have : IsTrans RestoreMethod atMost := ⟨fun _ _ _ => le_trans⟩
  have hperm : (usable.insertionSort atMost).Perm usable := perm_insertionSort atMost usable
  have hsorted : (usable.insertionSort atMost).Pairwise atMost :=
    pairwise_insertionSort atMost usable
  have hmem (other : RestoreMethod) : other ∈ usable.insertionSort atMost ↔
      other ∈ candidates ∧ satisfies goal other = true := by
    rw [hperm.mem_iff, mem_filter]
  change (usable.insertionSort atMost).head? = some method ↔ _
  constructor
  · intro hhead
    obtain ⟨rest, hrest⟩ := head?_eq_some_iff.mp hhead
    rw [hrest] at hsorted hmem
    refine ⟨(hmem method).mp mem_cons_self, fun other hother hgoal => ?_⟩
    rcases mem_cons.mp ((hmem other).mpr ⟨hother, hgoal⟩) with rfl | hlater
    · exact le_rfl
    · exact rel_of_pairwise_cons hsorted hlater
  · rintro ⟨hmethod, hleast⟩
    cases hsort : usable.insertionSort atMost with
    | nil =>
      have hin := (hmem method).mpr hmethod
      rw [hsort] at hin
      cases hin
    | cons first rest =>
      rw [hsort] at hsorted hmem
      have hfirst := (hmem first).mp mem_cons_self
      have hle := hleast first hfirst.1 hfirst.2
      rcases mem_cons.mp ((hmem method).mpr hmethod) with rfl | hlater
      · rfl
      · have hge : first.destructiveness ≤ method.destructiveness :=
          rel_of_pairwise_cons hsorted hlater
        rw [head?_cons, destructiveness_injective (le_antisymm hge hle)]

/-! ### Newer state -/

/-- What a method does to state written after the asset was captured. -/
inductive NewerStateClass
  | preservedByMethod
  | discardedByMethod
  | conflicting
  | unknown
deriving DecidableEq

namespace NewerStateClass

/-- Whether recovery would take the newer state away. -/
def isLoss : NewerStateClass → Bool
  | discardedByMethod | conflicting => true
  | _ => false

/-- Whether recovery is gated on acceptance because of the newer state. -/
def requiresAcceptance : NewerStateClass → Bool
  | preservedByMethod => false
  | _ => true

end NewerStateClass

/-- One thing that came into being after the asset was captured. -/
structure NewerStateItem where
  object : String
  class' : NewerStateClass
  changedAt : Option Int
  detail : String
deriving DecidableEq

/-- Everything a recovery would do to state written since the asset. -/
structure NewerStateImpact where
  items : List NewerStateItem
  destroyedAssets : List String
  discardedBytes : Option Nat
  complete : Bool

namespace NewerStateImpact

/-- An analysis that was not performed. -/
def unanalysed : NewerStateImpact where
  items := []
  destroyedAssets := []
  discardedBytes := none
  complete := false

/-- An analysis that ran to completion. -/
def analysed (items : List NewerStateItem) : NewerStateImpact where
  items := items
  destroyedAssets := []
  discardedBytes := none
  complete := true

/-- Names an object of a provider the recovery would destroy. -/
def destroying (impact : NewerStateImpact) (asset : String) : NewerStateImpact :=
  { impact with destroyedAssets := impact.destroyedAssets ++ [asset] }

/-- Records how much live data would be discarded. -/
def discarding (impact : NewerStateImpact) (bytes : Nat) : NewerStateImpact :=
  { impact with discardedBytes := some bytes }

/-- The impact with what is destroyed and discarded beside the items. -/
def losing (impact : NewerStateImpact) (assets : List String) (bytes : Option Nat) :
    NewerStateImpact :=
  bytes.elim (assets.foldl destroying impact) (assets.foldl destroying impact).discarding

/-- The newer state recovery would take away. -/
def losses (impact : NewerStateImpact) : List NewerStateItem :=
  impact.items.filter (·.class'.isLoss)

/-- Whether the explicit gate applies. -/
def requiresDestructiveAcceptance (impact : NewerStateImpact) : Bool :=
  !impact.complete || !impact.destroyedAssets.isEmpty ||
    impact.items.any (·.class'.requiresAcceptance)

variable (impact : NewerStateImpact) (assets : List String) (bytes : Option Nat)

private theorem foldl_destroying : ∃ all,
    assets.foldl destroying impact = { impact with destroyedAssets := all } := by
  induction assets generalizing impact with
  | nil => exact ⟨impact.destroyedAssets, rfl⟩
  | cons asset rest ih =>
    obtain ⟨all, hall⟩ := ih (impact.destroying asset)
    exact ⟨all, hall⟩

@[simp]
theorem items_losing : (impact.losing assets bytes).items = impact.items := by
  obtain ⟨all, hall⟩ := foldl_destroying impact assets
  cases bytes <;> simp [losing, hall, discarding]

end NewerStateImpact

/-! ### Fragments and plans -/

/-- An effect of the original plan that recovery cannot reverse. -/
structure UnrecoverableEffect where
  subject : String
  domain : EffectDomain
  reason : String
  compensation : Option String

/-- Which pieces of file metadata a restore puts back. -/
structure MetadataCoverage where
  content : Bool
  mode : Bool
  owner : Bool
  acl : Bool
  xattrs : Bool
  capabilities : Bool
  selinux : Bool
  hardlinks : Bool

namespace MetadataCoverage

/-- No coverage. -/
def none : MetadataCoverage :=
  ⟨false, false, false, false, false, false, false, false⟩

/-- The coverage of a provider that restores only bytes. -/
def contentOnly : MetadataCoverage :=
  { none with content := true }

end MetadataCoverage

/-- What a directory restore does with files that exist now and did not then. -/
inductive DirectoryRestorePolicy
  | keepExtraFiles
  | exactTree
deriving DecidableEq

/-- A fragment of a recovery plan, contributed by one provider. -/
structure RecoveryPlanFragment where
  provider : String
  method : RestoreMethod
  actions : List PlanAction
  newerState : NewerStateImpact
  unrecoverable : List UnrecoverableEffect
  verification : List VerificationContract
  captured : List (String × String)
  metadata : MetadataCoverage
  directoryPolicy : DirectoryRestorePolicy
  requiresReboot : Bool
  requiresOffline : Bool

/-- A fragment that says nothing but its method. -/
def RecoveryPlanFragment.new (provider : String) (method : RestoreMethod) :
    RecoveryPlanFragment where
  provider := provider
  method := method
  actions := []
  newerState := .unanalysed
  unrecoverable := []
  verification := []
  captured := []
  metadata := .none
  directoryPolicy := .keepExtraFiles
  requiresReboot := false
  requiresOffline := false

/-- A plan produced to recover from a plan or an asset. -/
structure RecoveryPlan where
  plan : ChangePlan
  sourcePlan : Option PlanId
  sourceAssets : List RecoveryAssetId
  goal : RecoveryGoal
  method : RestoreMethod
  targetState : String
  restores : List String
  newerState : NewerStateImpact
  unrecoverable : List UnrecoverableEffect
  metadata : MetadataCoverage
  directoryPolicy : DirectoryRestorePolicy
  requiresReboot : Bool
  requiresOffline : Bool
  destructiveAccepted : Bool

namespace RecoveryPlan

/-- Records that the operator accepts the newer state the recovery destroys. -/
def destructionAccepted (plan : RecoveryPlan) : RecoveryPlan :=
  { plan with destructiveAccepted := true }

/-- Whether the explicit gate is still outstanding. -/
def needsDestructiveAcceptance (plan : RecoveryPlan) : Bool :=
  plan.newerState.requiresDestructiveAcceptance && !plan.destructiveAccepted

end RecoveryPlan

/-! ### Planners -/

/-- A recovery provider, with the question recovery planning asks it. -/
structure RecoveryPlanner extends Protection.RecoveryProvider where
  planRecovery : RecoveryAsset → Option ChangePlan → RecoveryGoal →
    Except ErrorValue RecoveryPlanFragment

/-- The providers a recovery may ask, each under its own name. -/
structure PlannerRegistry where
  planners : List RecoveryPlanner
  ids_nodup : (planners.map (·.id)).Nodup

/-- The provider with an id. -/
def PlannerRegistry.get (registry : PlannerRegistry) (id : String) : Option RecoveryPlanner :=
  registry.planners.find? (·.id = id)

end Recovery

end OnoSendai
