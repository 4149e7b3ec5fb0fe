import OnoSendai.Change.Builder
import OnoSendai.Executor.Dependencies

/-!
# Success means the whole plan ran, once

Which target runs an action is decided by matching the action's target text against the frozen
target list. An action that exactly one place of the list runs is executed at most once, and a
success says that it succeeded. An action that no place runs is never executed, and the outcome is
a success all the same: a rebase onto other targets leaves such a plan behind.
-/

namespace OnoSendai

open Interaction List

/-! ### What an apply has executed -/

variable {rest : Program world ApplyOutcome}

section Executed

variable {sha256 : Sha256} {render : Renderings} {request : ApplyRequest}
  {events : List (Event world)}

/-- What an apply has executed, at any point of any run: nothing yet, or actions that succeeded and
one more, as the schedule has them that the records it read leave to do. -/
theorem executions_of_path (h : Path (apply sha256 render request) events rest) :
    executions events = [] ∨ ∃ records done action outcome,
      (⟨.actionStatuses request.plan.id request.plan.revision, .ok records⟩ : Event world) ∈
          events ∧
        executions events = allSucceeded done ++ [(action, outcome)] ∧
          done ++ [action] <+: planSchedule request.plan records := by
  rcases eq_nil_or_concat (executions events) with hnone | ⟨front, last, hlast⟩
  · exact .inl hnone
  · rw [concat_eq_append, executions, filterMap_eq_append_iff] at hlast
    obtain ⟨before, after, rfl, hfront, hafter⟩ := hlast
    obtain ⟨silent, event, tail, rfl, hsilent, hevent, htail⟩ := filterMap_eq_cons_iff.1 hafter
    obtain ⟨action, outcome⟩ := last
    obtain rfl := execution_eq_some.1 hevent
    have hevents : before ++ (silent ++ ⟨.execute action, outcome⟩ :: tail) =
        (before ++ silent) ++ ⟨.execute action, outcome⟩ :: tail := by simp
    obtain ⟨records, done, hread, hdone, hinitial⟩ := scheduled_of_reaches (h.reaches hevents)
    refine .inr ⟨records, done, action, outcome, hevents ▸ mem_append_left _ hread, ?_,
      hinitial⟩
    rw [hevents, executions_append, executions_execute, hdone, executions, htail]

/-- What an apply has executed, at any point of any run, is a prefix of the schedule that the
records it read leave to do. -/
theorem executions_prefix_of_path (h : Path (apply sha256 render request) events rest) :
    executions events = [] ∨ ∃ records : Records,
      (⟨.actionStatuses request.plan.id request.plan.revision, .ok records⟩ : Event world) ∈
          events ∧ (executions events).map (·.1) <+: planSchedule request.plan records := by
  refine (executions_of_path h).imp id ?_
  rintro ⟨records, done, action, outcome, hread, heq, hinitial⟩
  refine ⟨records, hread, ?_⟩
  rwa [heq, allSucceeded, map_append, map_map, map_singleton,
    show (Prod.fst ∘ fun action : PlanAction => (action, ExecutionOutcome.succeeded)) = id
      from rfl, map_id]

/-- **An apply goes by its schedule and stops at the first failure**, whatever it is answered: the
schedule is what the records that the store answered in this run leave to do. -/
theorem apply_stops_at_failure (sha256 : Sha256) (render : Renderings) (request : ApplyRequest) :
    (∀ events rest, Path (apply sha256 render request) events rest →
      executions events = [] ∨ ∃ records : Records,
        (⟨.actionStatuses request.plan.id request.plan.revision, .ok records⟩ : Event world) ∈
            events ∧
          (executions events).map (·.1) <+: planSchedule request.plan records) ∧
    ∀ events rest, Path (apply sha256 render request) events rest → ∀ front last,
      executions events = front ++ [last] → ∀ entry ∈ front, entry.2 = .succeeded := by
  refine ⟨fun events rest => executions_prefix_of_path, fun events rest h front last hlast => ?_⟩
  rcases executions_of_path h with hnone | ⟨records, done, action, outcome, -, heq, -⟩
  · simp [hnone] at hlast
  · obtain ⟨rfl, -⟩ := append_inj' (hlast.symm.trans heq) rfl
    simp [allSucceeded]

end Executed

/-! ### Plans that cover every action once -/

/-- Every mutating action is run by exactly one place of the target list. -/
def CoveredOnce (plan : ChangePlan) : Prop :=
  ∀ action ∈ plan.actions, action.role.mutatesTarget = true →
    (targetLabels plan).countP (fun target => actionCovers plan target action) = 1

/-- At most one place of a list meets a condition when no two places do. -/
theorem countP_le_one_iff_pairwise {α : Type} {p : α → Bool} {items : List α} :
    items.countP p ≤ 1 ↔ items.Pairwise fun x y => ¬ (p x = true ∧ p y = true) := by
  induction items with
  | nil => simp
  | cons item rest ih =>
    rw [countP_cons, pairwise_cons, ← ih]
    constructor
    · refine fun h => ⟨fun other hother hboth => ?_, by omega⟩
      have hpos : 0 < rest.countP p := countP_pos_iff.2 ⟨other, hother, hboth.2⟩
      rw [if_pos hboth.1] at h
      omega
    · rintro ⟨hitem, hrest⟩
      split_ifs with hp
      · have hnone : rest.countP p = 0 :=
          countP_eq_zero.2 fun other hother hother' => hitem other hother ⟨hp, hother'⟩
        omega
      · omega

theorem countP_executions_le_one {executed : List (PlanAction × ExecutionOutcome)}
    (h : (executed.map (·.1.id)).Nodup) (id : ActionId) :
    executed.countP (fun entry => entry.1.id = id) ≤ 1 := by
  refine countP_le_one_iff_pairwise.2 ((pairwise_map.1 h).imp ?_)
  intro entry other hne hboth
  simp only [decide_eq_true_eq] at hboth
  exact hne (hboth.1.trans hboth.2.symm)

variable {plan : ChangePlan}

theorem mutatingActions_ids_nodup {order : List Nat} (hids : (plan.actions.map (·.id)).Nodup)
    (horder : topologicalOrder plan.actions = .ok order) :
    (mutatingActions plan order).Pairwise fun action other => action.id ≠ other.id := by
  refine List.Pairwise.filter _ (List.Pairwise.filterMap _ ?_ (topologicalOrder_nodup horder))
  intro i j hne action haction other hother
  obtain ⟨hi, rfl⟩ := List.getElem?_eq_some_iff.1 haction
  obtain ⟨hj, rfl⟩ := List.getElem?_eq_some_iff.1 hother
  have hdistinct := List.pairwise_iff_getElem.1 (List.pairwise_map.1 hids)
  rcases Nat.lt_or_gt_of_ne hne with hlt | hgt
  · exact hdistinct i j hi hj hlt
  · exact (hdistinct j i hj hi hgt).symm

/-- The schedule of a plan that runs no mutating action at two places names no action twice. -/
theorem planSchedule_ids_nodup (hids : (plan.actions.map (·.id)).Nodup)
    (honce : ∀ action ∈ plan.actions, action.role.mutatesTarget = true →
      (targetLabels plan).countP (fun target => actionCovers plan target action) ≤ 1)
    (prior : Records) :
    (planSchedule plan prior).Pairwise fun action other => action.id ≠ other.id := by
  rw [planSchedule]
  cases horder : topologicalOrder plan.actions with
  | error cycle => exact .nil
  | ok order =>
    have hmutating := mutatingActions_ids_nodup hids horder
    refine pairwise_flatMap.2 ⟨fun target _ => (hmutating.filter _).filter _, ?_⟩
    have hmem : ∀ {target action}, action ∈ pending prior
        ((mutatingActions plan order).filter (actionCovers plan target)) →
          (action ∈ plan.actions ∧ action.role.mutatesTarget = true) ∧
            actionCovers plan target action = true := by
      intro target action haction
      simp only [pending, mem_filter, mem_mutatingActions horder] at haction
      exact haction.1
    refine (pairwise_iff_getElem.2 fun i j hi hj hlt => ?_)
    intro action haction other hother hsame
    obtain ⟨⟨hplan, hmutates⟩, hcovers⟩ := hmem haction
    obtain ⟨⟨hotherPlan, -⟩, hotherCovers⟩ := hmem hother
    obtain rfl := inj_on_of_nodup_map hids hplan hotherPlan hsame
    have hpairwise := countP_le_one_iff_pairwise.1 (honce action hplan hmutates)
    exact pairwise_iff_getElem.1 hpairwise i j hi hj hlt ⟨hcovers, hotherCovers⟩

theorem executions_ids_nodup {sha256 : Sha256} {render : Renderings} {request : ApplyRequest}
    {events : List (Event world)} (hids : (request.plan.actions.map (·.id)).Nodup)
    (honce : ∀ action ∈ request.plan.actions, action.role.mutatesTarget = true →
      (targetLabels request.plan).countP (fun target => actionCovers request.plan target action) ≤ 1)
    (h : Path (apply sha256 render request) events rest) :
    ((executions events).map (·.1.id)).Nodup := by
  rcases executions_prefix_of_path h with hnone | ⟨records, -, hinitial⟩
  · simp [hnone]
  · have hdistinct := (planSchedule_ids_nodup hids honce records).sublist hinitial.sublist
    rw [← Function.comp_def PlanAction.id, ← map_map]
    exact pairwise_map.2 hdistinct

variable {action : PlanAction} {prior : Records}

/-- The schedule holds the mutating actions that some place of the target list runs and that are not
recorded as succeeded. -/
theorem mem_planSchedule {order : List Nat} (horder : topologicalOrder plan.actions = .ok order) :
    action ∈ planSchedule plan prior ↔
      (action ∈ plan.actions ∧ action.role.mutatesTarget = true) ∧
        0 < (targetLabels plan).countP (fun target => actionCovers plan target action) ∧
          prior.get action.id ≠ some .succeeded := by
  rw [planSchedule, horder, countP_pos_iff]
  simp only [schedule, mem_flatMap, pending, mem_filter, mem_mutatingActions horder,
    decide_eq_true_eq]
  constructor
  · rintro ⟨target, htarget, ⟨haction, hcovers⟩, hprior⟩
    exact ⟨haction, ⟨target, htarget, hcovers⟩, hprior⟩
  · rintro ⟨haction, ⟨target, htarget, hcovers⟩, hprior⟩
    exact ⟨target, htarget, ⟨haction, hcovers⟩, hprior⟩

/-! ### Statuses -/

section Statuses

variable {statuses : List (ActionId × ActionStatus)} {id other : ActionId} {status : ActionStatus}

theorem lookup_setStatus_of_ne (hne : other ≠ id) :
    (setStatus id status statuses).lookup other = statuses.lookup other := by
  induction statuses with
  | nil => rfl
  | cons entry rest ih =>
    obtain ⟨key, old⟩ := entry
    rw [setStatus]
    split_ifs with hkey
    · subst hkey
      simp [lookup_cons, beq_eq_false_iff_ne.2 hne]
    · rw [lookup_cons, lookup_cons, ih]

theorem lookup_setStatus_self (h : (statuses.lookup id).isSome = true) :
    (setStatus id status statuses).lookup id = some status := by
  induction statuses with
  | nil => cases h
  | cons entry rest ih =>
    obtain ⟨key, old⟩ := entry
    rw [setStatus]
    split_ifs with hkey
    · subst hkey
      simp
    · have hne : (id == key) = false := beq_eq_false_iff_ne.2 (Ne.symm hkey)
      rw [lookup_cons, hne] at h ⊢
      exact ih h

end Statuses

/-- What a mutation knows about an action is what it came back as last, and what was known before
where it has not run. -/
structure Knows (initial : List (ActionId × ActionStatus)) (events : List (Event world))
    (state : MutateState) : Prop where
  keys : ∀ id, (initial.lookup id).isSome = true → (state.statuses.lookup id).isSome = true
  untouched : ∀ id, (∀ entry ∈ executions events, entry.1.id ≠ id) →
    state.statuses.lookup id = initial.lookup id
  succeeded : ∀ id, (initial.lookup id).isSome = true →
    (∀ entry ∈ executions events, entry.1.id = id → entry.2 = .succeeded) →
      (∃ entry ∈ executions events, entry.1.id = id) → state.statuses.lookup id = some .succeeded

variable {initial : List (ActionId × ActionStatus)}

theorem Knows.congr {events events' : List (Event world)} {state state' : MutateState}
    (h : Knows initial events state) (heq : executions events' = executions events)
    (hstatuses : state'.statuses = state.statuses) : Knows initial events' state' := by
  obtain ⟨hkeys, huntouched, hsucceeded⟩ := h
  rw [← hstatuses] at hkeys huntouched hsucceeded
  rw [← heq] at huntouched hsucceeded
  exact ⟨hkeys, huntouched, hsucceeded⟩

section Knowledge

variable {sha256 : Sha256} {render : Renderings} {request : ApplyRequest}
  {events : List (Event world)}

theorem knows_runAction {before : List (Event world)} {progress progress' : TargetProgress}
    (h : Knows initial before progress.state)
    (hret : Returns (runAction request action progress) events progress') :
    Knows initial (before ++ events) progress'.state := by
  rcases returns_runAction hret with ⟨failure, hstart, rfl⟩ |
    ⟨started, outcome, recorded, hstarted, hrecorded, rfl, rfl⟩
  · refine h.congr ?_ rfl
    rw [executions_append, quiet_startAction.executions_eq_nil hstart, append_nil]
  · have hgrown : executions (before ++ (started ++ ⟨.execute action, outcome⟩ :: recorded)) =
        executions before ++ [(action, outcome)] := by
      rw [executions_append, executions_append, quiet_startAction.executions_eq_nil hstarted,
        executions_execute, (quiet_recordSettled outcome).executions_eq_nil hrecorded,
        nil_append]
    have hself : ∀ id, id = action.id → (initial.lookup id).isSome = true →
        (((progress.state.started action).settled request.plan action outcome).statuses.lookup
          id) = some outcome.status := by
      rintro id rfl hid
      have hstarted : (progress.state.started action).statuses.lookup action.id = some .running :=
        lookup_setStatus_self (h.keys _ hid)
      exact lookup_setStatus_self (by rw [hstarted]; rfl)
    have hother : ∀ id, id ≠ action.id →
        (((progress.state.started action).settled request.plan action outcome).statuses.lookup
          id) = progress.state.statuses.lookup id := fun id hne =>
      (lookup_setStatus_of_ne hne).trans (lookup_setStatus_of_ne hne)
    refine ⟨fun id hid => ?_, fun id hnone => ?_, fun id hid hall hsome => ?_⟩
    · by_cases hne : id = action.id
      · rw [hself id hne hid]
        rfl
      · rw [hother id hne]
        exact h.keys id hid
    · rw [hgrown] at hnone
      have hne : action.id ≠ id := hnone (action, outcome) (by simp)
      rw [hother id hne.symm]
      exact h.untouched id fun entry hentry => hnone entry (mem_append_left _ hentry)
    · rw [hgrown] at hall hsome
      by_cases hne : id = action.id
      · have hsucceeded : outcome = .succeeded := hall (action, outcome) (by simp) hne.symm
        rw [hself id hne hid, hsucceeded]
        rfl
      · rw [hother id hne]
        refine h.succeeded id hid (fun entry hentry => hall entry (mem_append_left _ hentry)) ?_
        obtain ⟨entry, hentry, heq⟩ := hsome
        rcases mem_append.1 hentry with hentry | hentry
        · exact ⟨entry, hentry, heq⟩
        · rw [mem_singleton.1 hentry] at heq
          exact absurd heq.symm hne

variable {prepared : Prepared}

/-- The initial status of an action of a plan with distinct identities. -/
theorem lookup_initialStatuses (hids : (plan.actions.map (·.id)).Nodup)
    (haction : action ∈ plan.actions) :
    (initialStatuses plan prepared prior).lookup action.id =
      some (if isPrepared prepared action then .succeeded
        else (prior.get action.id).getD .pending) := by
  rw [initialStatuses]
  generalize plan.actions = actions at hids haction
  induction actions with
  | nil => simp at haction
  | cons head rest ih =>
    rw [map_cons, lookup_cons]
    rcases mem_cons.1 haction with rfl | hrest
    · simp
    · have hne : (action.id == head.id) = false := by
        rw [beq_eq_false_iff_ne]
        intro heq
        rw [map_cons, nodup_cons] at hids
        exact hids.1 (heq ▸ mem_map_of_mem hrest)
      rw [hne]
      exact ih (nodup_cons.1 hids).2 hrest

theorem statuses_mutateOutcome {report : PrepareReport} {run : StrategyRun} {state : MutateState}
    (h : state.stop = none) :
    (mutateOutcome request prepared report run state).statuses = state.statuses := by
  simp [mutateOutcome, h]

variable {outcome : ApplyOutcome}

/-- What a mutation that is a success knows: it executed its whole schedule, and its outcome reports
what it knows. -/
theorem statusOf_of_mutate {report : PrepareReport} {held : Bool}
    (h : Returns (mutate render request prepared report prior) events (outcome, held))
    (hsuccess : outcome.isSuccess = true) :
    ∃ order state, topologicalOrder request.plan.actions = .ok order ∧
      outcome.statuses = state.statuses ∧
      Knows (initialStatuses request.plan prepared prior) events state ∧
      executions events = allSucceeded (planSchedule request.plan prior) := by
  have hexecuted := follows_mutate.returns h (by simpa using hsuccess)
  rcases returns_mutate h with ⟨cycle, -, -, rfl⟩ |
    ⟨order, run, state, _, waved, concluded, horder, -, hwaved, hconcluded, -, hsame⟩
  · cases hsuccess
  have hknows : Knows (initialStatuses request.plan prepared prior) ([] ++ waved) state :=
    runWaves_invariant (P := Knows (initialStatuses request.plan prepared prior)) []
      (fun _ _ _ _ _ _ _ hprogress hrun => knows_runAction hprogress hrun)
      (fun before observed slice mid gated hmid hgate => by
        obtain ⟨results, hstate⟩ := returns_runGate hgate
        rw [hstate]
        refine hmid.congr ?_ rfl
        rw [executions_append, quiet_runGate.executions_eq_nil hgate, append_nil])
      ⟨fun _ hid => hid, fun _ _ => rfl, fun _ _ _ hsome => by simp at hsome⟩ hwaved
  refine ⟨order, state, horder, ?_, hknows.congr hsame rfl, hexecuted⟩
  rcases returns_concludeMutation hconcluded with ⟨point, refusal, failed, -, rfl⟩ |
    ⟨verdict, -, -, -, rfl⟩ | ⟨verification, hgo, -, rfl⟩
  · rw [ApplyOutcome.isSuccess, Option.isNone_eq_false_iff.2 stoppedOutcome_error,
      Bool.false_and] at hsuccess
    cases hsuccess
  · cases hsuccess
  · have hstop : state.stop = none := by
      by_contra hsome
      exact hgo (.inl (Option.isSome_iff_ne_none.2 hsome))
    change (mutateOutcome request prepared report run state).statuses = state.statuses
    exact statuses_mutateOutcome hstop

/-- A success reports a mutating action that its plan covers as succeeded. -/
theorem statusOf_eq_succeeded (h : Returns (apply sha256 render request) events outcome)
    (hsuccess : outcome.isSuccess = true) (hids : (request.plan.actions.map (·.id)).Nodup)
    (haction : action ∈ request.plan.actions) (hmutates : action.role.mutatesTarget = true)
    (hcovered : 0 < (targetLabels request.plan).countP fun target =>
      actionCovers request.plan target action) : outcome.statusOf action.id = some .succeeded := by
  rcases returns_apply h with ⟨-, hrefused⟩ |
    ⟨admitted, prior, prepared, report, mutated, held, -, hmutated, hsame⟩
  · rw [hrefused] at hsuccess
    cases hsuccess
  obtain ⟨order, state, horder, hstatuses, hknows, hexecuted⟩ :=
    statusOf_of_mutate hmutated hsuccess
  have hinitial : (initialStatuses request.plan prepared prior).lookup action.id = _ :=
    lookup_initialStatuses hids haction
  rw [ApplyOutcome.statusOf, hstatuses]
  by_cases hprior : prior.get action.id = some .succeeded
  · rw [hknows.untouched action.id ?_, hinitial, hprior]
    · simp
    · intro entry hentry heq
      rw [hexecuted] at hentry
      obtain ⟨other, hother, rfl⟩ := mem_map.1 hentry
      exact ((mem_planSchedule horder).1 hother).2.2 (by rw [heq]; exact hprior)
  · refine hknows.succeeded action.id (by rw [hinitial]; rfl) (fun entry hentry _ => ?_) ?_
    · rw [hexecuted] at hentry
      obtain ⟨other, -, rfl⟩ := mem_map.1 hentry
      rfl
    · rw [hexecuted]
      have hscheduled : action ∈ planSchedule request.plan prior :=
        (mem_planSchedule horder).2 ⟨⟨haction, hmutates⟩, hcovered, hprior⟩
      exact ⟨_, mem_map_of_mem hscheduled, rfl⟩

/-- An action that no place of the target list runs is still pending after a fresh apply that is a
success. -/
theorem statusOf_eq_pending (h : Returns (apply sha256 render request) events outcome)
    (hsuccess : outcome.isSuccess = true) (hfresh : request.resume = false)
    (hids : (request.plan.actions.map (·.id)).Nodup) (haction : action ∈ request.plan.actions)
    (hmutates : action.role.mutatesTarget = true)
    (huncovered : (targetLabels request.plan).countP (fun target =>
      actionCovers request.plan target action) = 0) :
    outcome.statusOf action.id = some .pending := by
  rcases returns_apply h with ⟨-, hrefused⟩ |
    ⟨admitted, prior, prepared, report, mutated, held, ⟨hadmission⟩, hmutated, hsame⟩
  · rw [hrefused] at hsuccess
    cases hsuccess
  obtain ⟨order, state, horder, hstatuses, hknows, hexecuted⟩ :=
    statusOf_of_mutate hmutated hsuccess
  have hprior : prior = [] := by
    have hread := hadmission.readBack_returns
    rw [priorRecords, if_neg (by simp [hfresh])] at hread
    exact Except.ok.inj (returns_ret.1 hread).2
  have hrole : isPrepared prepared action = false := by
    rw [isPrepared, Bool.and_eq_false_iff]
    exact .inl (decide_eq_false fun hprepare => by rw [hprepare] at hmutates; cases hmutates)
  rw [ApplyOutcome.statusOf, hstatuses, hknows.untouched action.id ?_,
    lookup_initialStatuses hids haction, hrole, hprior]
  · rfl
  · intro entry hentry heq
    rw [hexecuted] at hentry
    obtain ⟨other, hother, rfl⟩ := mem_map.1 hentry
    obtain ⟨⟨hplan, -⟩, hcovered, -⟩ := (mem_planSchedule horder).1 hother
    obtain rfl := inj_on_of_nodup_map hids hplan haction heq
    omega

/-- **Success means the whole plan ran, once**, for plans with distinct action identities whose
target list runs every mutating action at exactly one place: along every run of apply each mutating
action is handed over at most once, and a success reports every one of them as succeeded. -/
theorem executed_once_and_complete (sha256 : Sha256) (render : Renderings) (request : ApplyRequest)
    (hids : (request.plan.actions.map (·.id)).Nodup) (honce : CoveredOnce request.plan) :
    (∀ events rest, Path (apply sha256 render request) events rest →
      ∀ action ∈ request.plan.actions, action.role.mutatesTarget = true →
        (executions events).countP (fun entry => entry.1.id = action.id) ≤ 1) ∧
    ∀ events outcome, Returns (apply sha256 render request) events outcome →
      outcome.isSuccess = true →
        ∀ action ∈ request.plan.actions, action.role.mutatesTarget = true →
          outcome.statusOf action.id = some .succeeded := by
  constructor
  · intro events rest h action _ _
    exact countP_executions_le_one (executions_ids_nodup hids
      (fun action haction hmutates => (honce action haction hmutates).le) h) action.id
  · intro events outcome h hsuccess action haction hmutates
    refine statusOf_eq_succeeded h hsuccess hids haction hmutates ?_
    rw [honce action haction hmutates]
    exact Nat.one_pos

end Knowledge

/-- The rollout runs its two actions once each, and its success is complete. -/
theorem executed_once_rollout :
    (∀ sha256 render, CoveredOnce (rolloutPlan sha256 render databaseId webId ["db", "web"])) ∧
    ∀ sha256 render, ∃ events outcome,
      Returns (apply sha256 render (rolloutRequest sha256 render databaseId webId ["db", "web"]))
        events outcome ∧ outcome.statusOf webId = some .succeeded := by
  have honce : ∀ sha256 render,
      CoveredOnce (rolloutPlan sha256 render databaseId webId ["db", "web"]) := by
    intro sha256 render action haction _
    simp only [rolloutPlan, mem_cons, mem_nil_iff, or_false] at haction
    rcases haction with rfl | rfl <;> rfl
  refine ⟨honce, fun sha256 render => ?_⟩
  obtain ⟨events, outcome, ⟨hret, -⟩, hsuccess, -⟩ := calmly_apply_rollout sha256 render
  have hids : [databaseId, webId].Nodup := by decide
  refine ⟨events, outcome, hret, ?_⟩
  exact (executed_once_and_complete sha256 render
    (rolloutRequest sha256 render databaseId webId ["db", "web"]) hids (honce sha256 render)).2
    events outcome hret hsuccess (restartAction sha256 render webId databaseId)
    (by simp [rolloutRequest, rolloutPlan]) rfl

/-! ### A rebase that leaves the actions behind -/

section Rebased

variable (sha256 : Sha256) (render : Renderings)

/-- The intent of the rebased plan. -/
def restartIntent : Intent where
  text := "restart service web-1"
  source := "plan { restart service web-1 }"

/-- A restart of the first web server, as a caller builds it. -/
def restartFirst : PlanAction :=
  { PlanAction.new sha256 (PlanId.of sha256 "session-1" (render.timestamp 0) restartIntent.text) 1
      .mutate "restart service web-1" (.program "restart" ["web-1"]) with
    target := some "web-1" }

/-- A built plan that restarts the first web server. -/
def builtRestart : Except ErrorValue ChangePlan := do
  let opened := PlanBuilder.forIntent sha256 render id restartIntent "session-1" 0
  let contract := VerificationContract.new sha256 opened.id .required "web-1" "state == running"
  let builder := (opened.acting sha256 (restartFirst sha256 render)).verifying contract
  let resolved ← builder.resolve [rolloutTarget "web-1"]
  resolved.seal' sha256 render 1

/-- An apply of a plan without protection. -/
def plainRequest (plan : ChangePlan) : ApplyRequest where
  plan := plan
  protection := []
  providers := []
  now := 2
  authority := { change := [.actionExecute], recovery := [], elevated := false }
  quiesce := none
  cleanup := .retain
  session := "session-1"
  stamped := false
  resume := false

/-- The plan is built, its rebase onto the second web server goes through, and the result passes
every check of an apply that looks at the plan. -/
theorem rebase_builtRestart :
    ∃ plan next, builtRestart sha256 render = .ok plan ∧
      rebase sha256 render plan [rolloutTarget "web-2"] 2 = .ok next ∧
      next.actions = [restartFirst sha256 render] ∧ targetLabels next = ["web-2"] ∧
      next.state = .sealed ∧ next.expiresAt = none ∧
      checkAuthority (plainRequest next) = none ∧ checkDiscovery (plainRequest next) = none ∧
      checkGates next = none :=
  ⟨_, _, rfl, rfl, rfl, rfl, rfl, rfl, rfl, rfl, rfl⟩

end Rebased

/-- **A rebased plan succeeds without running.** A plan that restarts one web server and is rebased
onto another is applied with success, and its only action has not run. -/
theorem rebase_succeeds_without_running :
    ¬ ∃ (sha256 : Sha256) (render : Renderings), ∀ plan next,
      builtRestart sha256 render = .ok plan →
        rebase sha256 render plan [rolloutTarget "web-2"] 2 = .ok next → ∀ events outcome,
          Returns (apply sha256 render (plainRequest next)) events outcome →
            outcome.isSuccess = true → ∀ action ∈ next.actions, action.role.mutatesTarget = true →
              outcome.statusOf action.id = some .succeeded := by
  rintro ⟨sha256, render, hclaim⟩
  obtain ⟨plan, next, hplan, hnext, hactions, htargets, hstate, hexpires, hauthority, hdiscovery,
    hgates⟩ := rebase_builtRestart sha256 render
  have happliable : appliability next next.state 2 false = none := by
    simp [appliability, ChangePlan.isExpiredAt, hexpires, hstate, PlanState.isAppliable]
  have hunclaimed : refusedUnclaimed sha256 render (plainRequest next) = none := by
    simp [refusedUnclaimed, plainRequest, hstate, (sealIntact_rebase hnext).digest_holds,
      ← hstate ▸ happliable]
  have horder : topologicalOrder next.actions = .ok [0] := by
    rw [hactions]
    rfl
  obtain ⟨events, outcome, ⟨hret, -⟩, hsuccess, -⟩ := calmly_apply sha256
    render (plainRequest next) hunclaimed rfl happliable hauthority hdiscovery hgates rfl horder
  have haction : restartFirst sha256 render ∈ next.actions := by simp [hactions]
  have hpending := statusOf_eq_pending hret hsuccess rfl (by simp [plainRequest, hactions]) haction
    rfl (by simp [plainRequest, htargets, actionCovers, restartFirst])
  have hsucceeded := hclaim plan next hplan hnext events outcome hret hsuccess _ haction rfl
  rw [hpending] at hsucceeded
  cases hsucceeded

end OnoSendai
