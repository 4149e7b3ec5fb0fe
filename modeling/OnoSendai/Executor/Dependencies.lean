import OnoSendai.Change.Order
import OnoSendai.Executor.Run

/-!
# Dependencies across targets

The actions of a plan are sorted along its dependencies and then run target by target. Inside one
target the sort decides; between targets the order of the targets does. An action is reached with
its dependencies done when no target that runs it comes before every target that runs one of them.
-/

namespace OnoSendai

open Interaction PlanAction
open List hiding getElem?_eq_some_iff

variable {action dependency : PlanAction}

section Order

variable {plan : ChangePlan} {order : List Nat}

theorem mem_mutatingActions (horder : topologicalOrder plan.actions = .ok order)
    {action : PlanAction} :
    action ∈ mutatingActions plan order ↔
      action ∈ plan.actions ∧ action.role.mutatesTarget = true := by
  simp only [mutatingActions, mem_filter, mem_filterMap]
  refine and_congr_left fun _ => ⟨?_, fun haction => ?_⟩
  · rintro ⟨i, -, hi⟩
    exact mem_of_getElem? hi
  · obtain ⟨i, hi, rfl⟩ := mem_iff_getElem.1 haction
    exact ⟨i, (mem_topologicalOrder horder i).2 hi, getElem?_eq_getElem hi⟩

theorem mem_dependencyEdges_of_dependsOn (hids : (plan.actions.map (·.id)).Nodup) {i j : Nat}
    (haction : plan.actions[i]? = some action) (hdependency : plan.actions[j]? = some dependency)
    (h : dependency.id ∈ action.dependsOn) : (j, i) ∈ dependencyEdges plan.actions := by
  refine mem_dependencyEdges.2 ⟨action, dependency.id, haction, h, ?_⟩
  obtain ⟨hj, rfl⟩ := List.getElem?_eq_some_iff.1 hdependency
  refine List.findIdx?_eq_some_iff_getElem.2 ⟨hj, by simp, fun k hk => ?_⟩
  have hdistinct := List.pairwise_iff_getElem.1 (List.pairwise_map.1 hids) k j (by omega) hj hk
  simpa using hdistinct

theorem mutatingActions_pairwise (hids : (plan.actions.map (·.id)).Nodup)
    (horder : topologicalOrder plan.actions = .ok order) :
    (mutatingActions plan order).Pairwise fun earlier later => later.id ∉ earlier.dependsOn := by
  refine Pairwise.filter _ ?_
  refine Pairwise.filterMap _ (fun i j hedge action haction dependency hdependency => ?_)
    (topologicalOrder_pairwise horder)
  intro h
  exact hedge (mem_dependencyEdges_of_dependsOn hids haction hdependency h)

theorem id_notMem_dependsOn (hids : (plan.actions.map (·.id)).Nodup)
    (horder : topologicalOrder plan.actions = .ok order) {action : PlanAction}
    (haction : action ∈ plan.actions) : action.id ∉ action.dependsOn := by
  intro h
  obtain ⟨i, hi⟩ := mem_iff_getElem?.1 haction
  exact acyclic_of_topologicalOrder horder i
    (.single (mem_dependencyEdges_of_dependsOn hids hi hi h))

/-- Where a place of a flattened list lies: inside one part, after all the parts before it. -/
theorem flatMap_eq_append_cons {α β : Type} {f : α → List β} {parts : List α} {before after : List β}
    {item : β} (h : parts.flatMap f = before ++ item :: after) :
    ∃ done part rest first last, parts = done ++ part :: rest ∧ f part = first ++ item :: last ∧
      before = done.flatMap f ++ first := by
  induction parts generalizing before with
  | nil => simp at h
  | cons part parts ih =>
    rw [flatMap_cons, append_eq_append_iff] at h
    rcases h with ⟨middle, rfl, hrest⟩ | ⟨middle, hpart, hrest⟩
    · obtain ⟨done, inner, rest, first, last, rfl, hinner, rfl⟩ := ih hrest
      exact ⟨part :: done, inner, rest, first, last, rfl, hinner, by simp⟩
    · cases middle with
      | nil =>
        have hnone : parts.flatMap f = [] ++ item :: after := by simpa using hrest.symm
        obtain ⟨done, inner, rest, first, last, rfl, hinner, hnil⟩ := ih hnone
        refine ⟨part :: done, inner, rest, first, last, rfl, hinner, ?_⟩
        rw [flatMap_cons, append_assoc, ← hnil, append_nil]
        simpa using hpart.symm
      | cons head middle =>
        obtain ⟨rfl, -⟩ := cons.inj hrest
        exact ⟨[], part, parts, before, middle, rfl, by simpa using hpart, by simp⟩

end Order

/-! ### Runs -/

/-- No target runs an action before a target that runs what the action depends on: every place of
the target list that runs a mutating action has a place that runs each of its mutating
dependencies, at it or before it. -/
def DependenciesCovered (plan : ChangePlan) : Prop :=
  ∀ action ∈ plan.actions, action.role.mutatesTarget = true →
    ∀ dependency ∈ plan.actions, dependency.role.mutatesTarget = true →
      dependency.id ∈ action.dependsOn →
        ∀ before target after, targetLabels plan = before ++ target :: after →
          actionCovers plan target action = true →
            ∃ earlier ∈ before ++ [target], actionCovers plan earlier dependency = true

/-- On the schedule of such a plan, everything an action depends on is before it, or already
recorded as succeeded. -/
theorem mem_of_prefix_planSchedule {plan : ChangePlan} {prior : Records} {done : List PlanAction}
    (hids : (plan.actions.map (·.id)).Nodup) (hcovered : DependenciesCovered plan)
    (h : done ++ [action] <+: planSchedule plan prior) (hdependency : dependency ∈ plan.actions)
    (hmutates : dependency.role.mutatesTarget = true)
    (hdepends : dependency.id ∈ action.dependsOn) :
    dependency ∈ done ∨ prior.get dependency.id = some .succeeded := by
  by_cases hprior : prior.get dependency.id = some .succeeded
  · exact .inr hprior
  left
  obtain ⟨after, hafter⟩ := h
  rw [planSchedule] at hafter
  cases horder : topologicalOrder plan.actions with
  | error cycle => simp [horder] at hafter
  | ok order =>
    rw [horder] at hafter
    obtain ⟨before, target, rest, first, last, htargets, hpart, rfl⟩ :=
      flatMap_eq_append_cons (h := by simpa [schedule] using hafter.symm)
    have hmem : action ∈ pending prior
        ((mutatingActions plan order).filter (actionCovers plan target)) := by simp [hpart]
    simp only [pending, mem_filter, mem_mutatingActions horder] at hmem
    obtain ⟨⟨⟨haction, hactionMutates⟩, hcovers⟩, -⟩ := hmem
    obtain ⟨earlier, hearlier, hcoversDependency⟩ :=
      hcovered action haction hactionMutates dependency hdependency hmutates hdepends before target
        rest htargets hcovers
    have hscheduled : dependency ∈ pending prior
        ((mutatingActions plan order).filter (actionCovers plan earlier)) := by
      simp only [pending, mem_filter, mem_mutatingActions horder]
      exact ⟨⟨⟨hdependency, hmutates⟩, hcoversDependency⟩, by simpa using hprior⟩
    rcases mem_append.1 hearlier with hbefore | hsame
    · exact mem_append_left _ (mem_flatMap.2 ⟨earlier, hbefore, hscheduled⟩)
    · -- At the same target the sort has put the dependency first.
      obtain rfl := mem_singleton.1 hsame
      have hsorted : (first ++ action :: last).Pairwise
          fun earlier later => later.id ∉ earlier.dependsOn := by
        rw [← hpart]
        exact ((mutatingActions_pairwise hids horder).filter _).filter _
      rw [hpart, mem_append, mem_cons] at hscheduled
      rcases hscheduled with hfirst | rfl | hlast
      · exact mem_append_right _ hfirst
      · exact absurd hdepends (id_notMem_dependsOn hids horder haction)
      · have hrest := (pairwise_append.1 hsorted).2.1
        exact absurd hdepends (rel_of_pairwise_cons hrest hlast)

/-- **Dependencies are executed first**, along every run of a plan whose targets are in dependency
order: when an apply or a resume reaches an action, every mutating action it depends on has
succeeded, in this run or in a record it read. -/
theorem dependencies_succeeded_of_reaches (sha256 : Sha256) (render : Renderings)
    (request : ApplyRequest) (hids : (request.plan.actions.map (·.id)).Nodup)
    (hcovered : DependenciesCovered request.plan) {events : List (Event world)}
    {action : PlanAction} (h : Reaches (apply sha256 render request) events (.execute action)) :
    ∀ dependency ∈ request.plan.actions, dependency.role.mutatesTarget = true →
      dependency.id ∈ action.dependsOn →
        (⟨.execute dependency, .succeeded⟩ : Event world) ∈ events ∨ ∃ records : Records,
          (⟨.actionStatuses request.plan.id request.plan.revision, .ok records⟩ : Event world) ∈
            events ∧ records.get dependency.id = some .succeeded := by
  intro dependency hdependency hmutates hdepends
  obtain ⟨records, done, hread, hexecuted, hinitial⟩ := scheduled_of_reaches h
  rcases mem_of_prefix_planSchedule hids hcovered hinitial hdependency hmutates hdepends with
    hdone | hrecorded
  · left
    rw [← mem_executions, hexecuted]
    exact mem_map.2 ⟨dependency, hdone, rfl⟩
  · exact .inr ⟨records, hread, hrecorded⟩

/-! ### Two targets in either order -/

section Rollout

variable (sha256 : Sha256) (render : Renderings)

/-- A draft about a database and a web service. -/
def rolloutDraft : ChangePlan :=
  ChangePlan.draft sha256 render
    { text := "migrate and restart", source := "plan { migrate db; restart web }" } "session-1" 0

/-- A target of the rollout. -/
def rolloutTarget (identity : String) : FrozenTarget where
  schema := "ono.service/1"
  identity := identity
  label := identity
  spatialId := none
  host := none
  selector := none
  persistenceDomain := none

/-- The action on the database. -/
def migrateAction (id : ActionId) : PlanAction :=
  { new sha256 (rolloutDraft sha256 render).id 1 .mutate "migrate db"
      (.program "migrate" []) with
    id := id
    target := some "db" }

/-- The action on the web service, which depends on the one on the database. -/
def restartAction (id : ActionId) (database : ActionId) : PlanAction :=
  { new sha256 (rolloutDraft sha256 render).id 2 .mutate "restart web"
      (.program "restart" []) with
    id := id
    target := some "web"
    dependsOn := [database] }

/-- The sealed rollout, with its targets in the given order. -/
def rolloutPlan (database web : ActionId) (targets : List String) : ChangePlan :=
  let draft := rolloutDraft sha256 render
  let contract := VerificationContract.new sha256 draft.id .required "web" "state == running"
  let sealedPlan :=
    { draft with
      actions := [migrateAction sha256 render database, restartAction sha256 render web database]
      targets := targets.map rolloutTarget
      verification := { contracts := [contract] }
      sealedAt := some 1
      state := .sealed }
  { sealedPlan with digest := some (sealedPlan.computeDigest sha256 render) }

/-- A first apply of the rollout. -/
def rolloutRequest (database web : ActionId) (targets : List String) : ApplyRequest where
  plan := rolloutPlan sha256 render database web targets
  protection := []
  providers := []
  now := 2
  authority := { change := [.actionExecute], recovery := [], elevated := false }
  quiesce := none
  cleanup := .retain
  session := "session-1"
  stamped := false
  resume := false

variable {database web : ActionId} {targets : List String}

theorem topologicalOrder_rolloutPlan :
    topologicalOrder (rolloutPlan sha256 render database web targets).actions = .ok [0, 1] := by
  have hedges : dependencyEdges (rolloutPlan sha256 render database web targets).actions =
      [(0, 1)] := by
    simp [dependencyEdges, rolloutPlan, migrateAction, restartAction, new,
      findIdx?_cons]
  unfold topologicalOrder
  rw [hedges]
  rfl

/-- The rollout is applied to its end in a calm world. -/
theorem calmly_apply_rollout :
    ∃ events outcome,
      Calmly (rolloutRequest sha256 render database web targets)
        (apply sha256 render (rolloutRequest sha256 render database web targets)) events outcome ∧
      outcome.isSuccess = true ∧
      executions events =
        allSucceeded (planSchedule (rolloutPlan sha256 render database web targets) []) := by
  have hunclaimed : refusedUnclaimed sha256 render
      (rolloutRequest sha256 render database web targets) = none := by
    have hdigest : (rolloutPlan sha256 render database web targets).digestHolds sha256 render =
        true := decide_eq_true rfl
    simp only [refusedUnclaimed, rolloutRequest, hdigest]
    rfl
  exact calmly_apply sha256 render (rolloutRequest sha256 render database web targets) hunclaimed
    rfl rfl rfl rfl rfl rfl (topologicalOrder_rolloutPlan sha256 render)

theorem planSchedule_rolloutPlan :
    planSchedule (rolloutPlan sha256 render database web ["web", "db"]) [] =
        [restartAction sha256 render web database, migrateAction sha256 render database] ∧
      planSchedule (rolloutPlan sha256 render database web ["db", "web"]) [] =
        [migrateAction sha256 render database, restartAction sha256 render web database] := by
  constructor <;>
  · rw [planSchedule, topologicalOrder_rolloutPlan]
    simp [schedule, pending, mutatingActions, actionCovers, targetLabels, rolloutPlan,
      rolloutTarget, restartAction, migrateAction, new, ActionRole.mutatesTarget,
      Records.get]

end Rollout

/-- Two identities of actions. -/
def databaseId : ActionId :=
  ⟨"a1", by decide⟩

@[inherit_doc databaseId]
def webId : ActionId :=
  ⟨"b2", by decide⟩

/-- With the database first, the targets are in dependency order. -/
theorem dependenciesCovered_rolloutPlan (sha256 : Sha256) (render : Renderings) :
    DependenciesCovered (rolloutPlan sha256 render databaseId webId ["db", "web"]) := by
  have hlabels : targetLabels (rolloutPlan sha256 render databaseId webId ["db", "web"]) =
      ["db", "web"] := rfl
  have hne : webId ≠ databaseId := by decide
  intro action haction _ dependency hdependency _ hdepends before target after htargets hcovers
  simp only [rolloutPlan, mem_cons, mem_nil_iff, or_false] at haction hdependency
  rcases haction with rfl | rfl
  · simp [migrateAction, new] at hdepends
  rcases hdependency with rfl | rfl
  · have htarget : "web" = target := by simpa [actionCovers, restartAction] using hcovers
    rw [hlabels, ← htarget] at htargets
    have hdb : "db" ∈ before := by
      cases before with
      | nil => simp at htargets
      | cons head tail =>
        obtain ⟨rfl, -⟩ := cons.inj htargets
        exact mem_cons_self
    exact ⟨"db", mem_append_left _ hdb, rfl⟩
  · exact absurd (mem_singleton.1 hdepends) hne

/-- With the database first, the web service is restarted after the migration succeeded. -/
theorem dependencies_succeeded_rollout :
    (∀ sha256 render,
      DependenciesCovered (rolloutPlan sha256 render databaseId webId ["db", "web"])) ∧
    ∀ sha256 render, ∃ events,
      Reaches (apply sha256 render (rolloutRequest sha256 render databaseId webId ["db", "web"]))
        events (.execute (restartAction sha256 render webId databaseId)) ∧
      ((⟨.execute (migrateAction sha256 render databaseId), .succeeded⟩ : Event world) ∈ events ∨
        ∃ records : Records,
          (⟨.actionStatuses (rolloutDraft sha256 render).id 1, .ok records⟩ : Event world) ∈
            events ∧ records.get databaseId = some .succeeded) := by
  refine ⟨dependenciesCovered_rolloutPlan, fun sha256 render => ?_⟩
  obtain ⟨events, outcome, hret, -, hexecuted⟩ := calmly_apply_rollout sha256 render
  rw [(planSchedule_rolloutPlan sha256 render).2] at hexecuted
  obtain ⟨before, hreach, -⟩ := reaches_of_returns hret.1 (show executions events =
    allSucceeded ([migrateAction sha256 render databaseId] ++
      restartAction sha256 render webId databaseId :: []) from hexecuted)
  have hids : [databaseId, webId].Nodup := by decide
  refine ⟨before, hreach, ?_⟩
  exact dependencies_succeeded_of_reaches sha256 render
    (rolloutRequest sha256 render databaseId webId ["db", "web"]) hids
    (dependenciesCovered_rolloutPlan sha256 render) hreach (migrateAction sha256 render databaseId)
    (by simp [rolloutRequest, rolloutPlan]) rfl (by simp [restartAction, migrateAction])

/-- **An action overtakes its dependency.** With the web service first in the target list, the web
service is restarted before the database it depends on has been migrated, whatever the hash
function. -/
theorem dependency_overtaken :
    ¬ ∃ (sha256 : Sha256) (render : Renderings) (database web : ActionId), ∀ events action,
      Reaches (apply sha256 render (rolloutRequest sha256 render database web ["web", "db"])) events
          (.execute action) →
        ∀ dependency ∈ (rolloutPlan sha256 render database web ["web", "db"]).actions,
          dependency.role.mutatesTarget = true → dependency.id ∈ action.dependsOn →
            (⟨.execute dependency, .succeeded⟩ : Event world) ∈ events ∨ ∃ records : Records,
              (⟨.actionStatuses (rolloutDraft sha256 render).id 1, .ok records⟩ : Event world) ∈
                events ∧ records.get dependency.id = some .succeeded := by
  rintro ⟨sha256, render, database, web, hclaim⟩
  obtain ⟨events, outcome, hret, -, hexecuted⟩ := calmly_apply_rollout sha256 render
  rw [(planSchedule_rolloutPlan sha256 render).1, ← nil_append [restartAction _ _ _ _, _]]
    at hexecuted
  obtain ⟨before, hreach, hinitial, hnone⟩ := reaches_of_returns hret.1 hexecuted
  rcases hclaim before _ hreach (migrateAction sha256 render database) (by simp [rolloutPlan]) rfl
    (by simp [restartAction, migrateAction]) with hdone | ⟨records, hrecords, hsucceeded⟩
  · rw [← mem_executions, hnone] at hdone
    simp [allSucceeded] at hdone
  · have hnone : (.ok records : Except ErrorValue Records) = .ok [] :=
      hret.2 _ (hinitial.subset hrecords)
    rw [Except.ok.inj hnone] at hsucceeded
    simp [Records.get] at hsucceeded

end OnoSendai
