import OnoSendai.Executor.Completion

/-!
# No unsafe rerun across crashes

Applies and resumes of one plan revision follow each other against one store. Each of them may be
killed at any call, which loses what it knew and nothing it wrote, and any write of a record may
fail. What keeps an action from being executed again is its record: `running` is written before the
action is handed over, and a run starts from the records it reads.
-/

namespace OnoSendai

open Interaction List Program

/-! ### What an apply writes -/

/-- What justifies writing the record of an action: an asset that preparation created, a mutating
action about to start, or what an executed action came back as. -/
def RecordJustified (request : ApplyRequest) (events : List (Event world)) : Call → Prop
  | .recordActionStatus plan revision id _ status _ _ =>
    plan = request.plan.id ∧ revision = request.plan.revision ∧
      ((status = .succeeded ∧ ∃ action ∈ request.plan.actions,
          action.id = id ∧ action.role = .prepare) ∨
        (∃ action ∈ request.plan.actions,
          action.id = id ∧ action.role.mutatesTarget = true ∧ status = .running) ∨
        ∃ action outcome, (⟨.execute action, outcome⟩ : Event world) ∈ events ∧
          action.id = id ∧ status = outcome.status)
  | _ => True

/-- Writing that an action is running, with success, and handing that action over. -/
def StartsAction (request : ApplyRequest) (event : Event world) (tail : List (Event world)) :
    Call → Prop
  | .execute action => tail = [] ∧ action ∈ request.plan.actions ∧ ∃ ordinal instant message,
      event = ⟨.recordActionStatus request.plan.id request.plan.revision action.id ordinal
        .running instant message, .ok ()⟩
  | _ => False

variable {status : ActionStatus} {id : ActionId}

section Writes

variable {sha256 : Sha256} {render : Renderings} {request : ApplyRequest} {action : PlanAction}
  {events : List (Event world)}

theorem compositional_recordJustified (request : ApplyRequest) :
    Compositional (S := world) fun _ program => program.Justified (RecordJustified request) := by
  refine compositional_justified fun before events op h => ?_
  cases op with
  | recordActionStatus plan revision id ordinal status instant message =>
    obtain ⟨hplan, hrevision, hcause⟩ := h
    refine ⟨hplan, hrevision, ?_⟩
    rcases hcause with hprepared | hrunning | ⟨action, outcome, hevent, hid, hstatus⟩
    · exact .inl hprepared
    · exact .inr (.inl hrunning)
    · exact .inr (.inr ⟨action, outcome, mem_append_right _ hevent, hid, hstatus⟩)
  | _ => trivial

theorem within_startAction {allowed : Call → Prop} (hclock : allowed .clock)
    (hrenew : ∀ instant, allowed (.renew request.plan.id request.session instant))
    (hrecord : ∀ instant, allowed (.recordActionStatus request.plan.id request.plan.revision
      action.id action.ordinal .running instant none)) :
    Within (S := world) allowed (startAction request action) := by
  refine (within_stamp hclock).bind fun instant => ⟨hrenew instant, fun answer => ?_⟩
  cases answer with
  | error refusal => trivial
  | ok => exact (within_stamp hclock).bind fun instant => within_ask (hrecord instant)

theorem within_recordSettled {allowed : Call → Prop} {outcome : ExecutionOutcome}
    (hclock : allowed .clock)
    (hrecord : ∀ instant, allowed (.recordActionStatus request.plan.id request.plan.revision
      action.id action.ordinal outcome.status instant (outcome.error.map (·.message)))) :
    Within (S := world) allowed (recordSettled request action outcome) :=
  (within_stamp hclock).bind fun instant => (within_ask (hrecord instant)).bind fun _ => trivial

/-- Running an action writes that it is running, and then what it came back as. -/
theorem justified_runAction (haction : action ∈ request.plan.actions)
    (hmutates : action.role.mutatesTarget = true) (progress : TargetProgress) :
    Justified (S := world) (RecordJustified request) (runAction request action progress) := by
  have hcompositional := compositional_recordJustified request
  refine hcompositional.bind ?_ fun answer => ?_
  · have hwithin : Within (S := world) (fun call => ∀ events, RecordJustified request events call)
        (startAction request action) :=
      within_startAction (fun _ => trivial) (fun _ _ => trivial) fun instant events =>
        ⟨rfl, rfl, .inr (.inl ⟨action, haction, rfl, hmutates, rfl⟩)⟩
    exact hwithin.justified fun events op h => h events
  · cases answer with
    | error failure => exact hcompositional.ret _
    | ok =>
      refine hcompositional.bind (fun events op hreach => ?_) fun _ => hcompositional.ret _
      rw [executeAction, ask_bind] at hreach
      rcases reaches_call.1 hreach with ⟨rfl, rfl⟩ | ⟨outcome, tail, rfl, htail⟩
      · trivial
      · have hwithin : Program.Within (S := world)
            (fun call => RecordJustified request (⟨.execute action, outcome⟩ :: tail) call) (do
              recordSettled request action outcome
              return (outcome, (progress.state.started action).settled request.plan action
                outcome)) := by
          refine Program.Within.bind (within_recordSettled trivial fun instant => ?_) fun _ => trivial
          exact ⟨rfl, rfl, .inr (.inr ⟨action, outcome, mem_cons_self, rfl, rfl⟩)⟩
        exact hwithin.of_reaches htail

theorem role_of_isPrepared {prepared : Prepared} (h : isPrepared prepared action = true) :
    action.role = .prepare :=
  of_decide_eq_true (Bool.and_eq_true_iff.1 h).1

/-- **Every record an apply writes has a cause.** -/
theorem justified_apply :
    Justified (S := world) (RecordJustified request) (apply sha256 render request) := by
  have hcompositional := compositional_recordJustified request
  have hask : ∀ call : Call, (∀ events, RecordJustified request events call) →
      Justified (S := world) (RecordJustified request) (ask call) := fun call hcall =>
    have hwithin : Within (S := world) (· = call) (ask call) := within_ask rfl
    hwithin.justified fun events op hop => hop ▸ hcall events
  refine compositional_apply hcompositional (fun hpreparatory => ?_) (hask _ fun _ => trivial)
    (hask _ fun _ => trivial) fun prepared report prior => ?_
  · refine hpreparatory.justified fun events op hop => ?_
    cases op with
    | recordActionStatus => cases hop
    | _ => trivial
  · refine compositional_mutate hcompositional (hask _ fun _ => trivial) ?_ ?_
      fun contract => hask _ fun _ => trivial
    · intro action haction hprepared instant
      exact hask _ fun _ =>
        ⟨rfl, rfl, .inl ⟨rfl, action, haction, rfl, role_of_isPrepared hprepared⟩⟩
    · intro order horder action haction progress
      obtain ⟨hplan, hmutates⟩ := (mem_mutatingActions horder).1 (mem_filter.1 haction).1
      exact justified_runAction hplan hmutates progress

/-- Starting an action ends once its record is written. -/
theorem returns_startAction_of_reaches {ordinal : Nat} {plan : PlanId} {revision : Nat}
    {instant : Int} {message : Option String}
    (h : Reaches (startAction request action) events
      (.recordActionStatus plan revision id ordinal status instant message)) :
    id = action.id ∧ Returns (startAction request action) (events ++
      [⟨.recordActionStatus plan revision id ordinal status instant message, .ok ()⟩]) (.ok ()) := by
  have hstamp : ∀ {events : List (Event world)} {call : Call}, Reaches request.stamp events call →
      call = .clock := fun hreach =>
    have hwithin : Within (S := world) (· = Call.clock) request.stamp := within_stamp rfl
    hwithin.of_reaches hreach
  rcases reaches_bind h with hclock | ⟨first, renewedAt, second, hfirst, hsecond, rfl⟩
  · cases hstamp hclock
  rw [ask_bind] at hsecond
  rcases reaches_call.1 hsecond with ⟨-, hop⟩ | ⟨answer, tail, rfl, htail⟩
  · cases hop
  cases answer with
  | error refusal => exact absurd htail not_reaches_ret
  | ok =>
    rcases reaches_bind htail with hclock | ⟨third, recordedAt, last, hthird, hlast, rfl⟩
    · cases hstamp hclock
    rw [ask_eq] at hlast
    rcases reaches_call.1 hlast with ⟨rfl, hop⟩ | ⟨_, _, -, hret⟩
    · cases hop
      refine ⟨rfl, ?_⟩
      rw [append_nil, append_assoc, cons_append]
      refine returns_bind.2 ⟨first, renewedAt, _, hfirst, ?_, rfl⟩
      rw [ask_bind]
      refine Returns.call (returns_bind.2 ⟨third, _, _, hthird, ?_, rfl⟩)
      rw [ask_eq]
      exact Returns.call (.nil _)
    · exact absurd hret not_reaches_ret

/-- Once its record is written, an action is handed over. -/
theorem continues_runAction (hids : (request.plan.actions.map (·.id)).Nodup)
    (haction : action ∈ request.plan.actions) (progress : TargetProgress) :
    Continues (S := world) (StartsAction request) (runAction request action progress) := by
  intro events event tail op hreach hstarts
  cases op with
  | execute other =>
    obtain ⟨rfl, hother, ordinal, instant, message, rfl⟩ := hstarts
    rcases reaches_bind hreach with hstart | ⟨started, answer, after, hstarted, hafter, rfl⟩
    · obtain ⟨hid, hreturns⟩ := returns_startAction_of_reaches hstart
      obtain rfl := inj_on_of_nodup_map hids hother haction hid
      rw [← append_nil (events ++ _)]
      refine hreturns.bind_reaches (Reaches.bind_left ?_ _)
      exact ⟨_, .nil _⟩
    · cases answer with
      | error failure => exact absurd hafter not_reaches_ret
      | ok =>
        rcases reaches_bind hafter with hexecute | ⟨_, _, _, -, hret, -⟩
        · rw [executeAction, ask_bind] at hexecute
          rcases reaches_call.1 hexecute with ⟨-, hop⟩ | ⟨outcome, tail, -, htail⟩
          · cases hop
          · have hwithin : Within (S := world)
                (fun call => ∀ plan revision id ordinal instant message,
                  call ≠ .recordActionStatus plan revision id ordinal .running instant message) (do
                  recordSettled request action outcome
                  return (outcome, (progress.state.started action).settled request.plan action
                    outcome)) := by
              refine Within.bind (within_recordSettled (by simp) fun instant => ?_)
                fun _ => trivial
              cases outcome <;> simp [ExecutionOutcome.status]
            exact absurd rfl (hwithin.of_reaches htail _ _ _ _ _ _)
        · exact absurd hret not_reaches_ret
  | _ => cases hstarts

/-- Once the record of an action is written, an apply hands the action over. -/
theorem continues_apply (hids : (request.plan.actions.map (·.id)).Nodup) :
    Continues (S := world) (StartsAction request) (apply sha256 render request) := by
  have hcompositional : Compositional (S := world) fun _ program =>
      program.Continues (StartsAction request) := compositional_continues
  have hwithin : ∀ {α : Type} {program : Program world α},
      Within (S := world) (fun call => ∀ plan revision id ordinal instant message,
        call ≠ .recordActionStatus plan revision id ordinal .running instant message) program →
      Continues (S := world) (StartsAction request) program := by
    intro α program hprogram
    refine hprogram.continues fun event tail op hevent hstarts => ?_
    cases op with
    | execute other =>
      obtain ⟨-, -, ordinal, instant, message, rfl⟩ := hstarts
      exact hevent _ _ _ _ _ _ rfl
    | _ => cases hstarts
  refine compositional_apply hcompositional (fun hpreparatory => hwithin ?_)
    (hwithin (within_ask (by simp))) (hwithin (within_ask (by simp))) fun prepared report prior => ?_
  · refine hpreparatory.mono fun call hcall => ?_
    rintro plan revision id ordinal instant message rfl
    cases hcall
  · refine compositional_mutate hcompositional (hwithin (within_ask (by simp)))
      (fun action _ _ instant => hwithin (within_ask (by simp))) ?_
      fun contract => hwithin (within_ask (by simp))
    intro order horder action haction progress
    exact continues_runAction hids
      ((mem_mutatingActions horder).1 (mem_filter.1 haction).1).1 progress

end Writes

/-! ### The store -/

/-- The records of a plan revision: what each action is recorded as. -/
abbrev RecordTable : Type :=
  ActionId → Option ActionStatus

/-- The store, as far as the records of one plan revision go. A write that succeeds is there from
then on, a write that fails may or may not be; a read answers what is there, and no other call
touches the records. -/
def recordStore (plan : PlanId) (revision : Nat) : Machine (Event world) RecordTable where
  step table event table' :=
    match event with
    | ⟨.recordActionStatus id number action _ status _ _, answer⟩ =>
      if id = plan ∧ number = revision then
        table' = Function.update table action (some status) ∨ answer ≠ .ok () ∧ table' = table
      else table' = table
    | ⟨.actionStatuses id number, .ok records⟩ =>
      table' = table ∧ (id = plan ∧ number = revision → ∀ action, records.get action = table action)
    | _ => table' = table

/-- Whether a call writes the record of an action of the plan revision. -/
def Call.WritesRecord (plan : PlanId) (revision : Nat) (action : ActionId) (status : ActionStatus)
    (call : Call) : Prop :=
  ∃ ordinal instant message,
    call = .recordActionStatus plan revision action ordinal status instant message

section Store

variable {plan : PlanId} {revision : Nat} {table table' : RecordTable} {event : Event world}
  {events : List (Event world)} {id : ActionId}

/-- One step leaves a record as it was, or writes it. -/
theorem recordStore_step (id : ActionId) (h : (recordStore plan revision).step table event table') :
    table' id = table id ∨ ∃ status, event.1.WritesRecord plan revision id status ∧
      table' id = some status := by
  obtain ⟨call, answer⟩ := event
  cases call with
  | recordActionStatus plan' revision' action ordinal status instant message =>
    simp only [recordStore] at h
    split_ifs at h with hsame
    · obtain ⟨rfl, rfl⟩ := hsame
      rcases h with rfl | ⟨-, rfl⟩
      · by_cases hid : id = action
        · subst hid
          exact .inr ⟨status, ⟨ordinal, instant, message, rfl⟩, Function.update_self ..⟩
        · exact .inl (Function.update_of_ne hid _ _)
      · exact .inl rfl
    · exact .inl (by rw [h])
  | actionStatuses plan' revision' =>
    cases answer with
    | error refusal => exact .inl (congrFun h id)
    | ok records => exact .inl (congrFun h.1 id)
  | _ => exact .inl (congrFun h id)

theorem recordStore_runs (id : ActionId)
    (h : (recordStore plan revision).Runs table events table') :
    table' id = table id ∨ ∃ before event after status, events = before ++ event :: after ∧
      event.1.WritesRecord plan revision id status ∧ table' id = some status := by
  induction h with
  | nil => exact .inl rfl
  | cons head tail ih =>
    rcases ih with hsame | ⟨before, event, after, status, rfl, hwrites, hstatus⟩
    · rw [hsame]
      rcases recordStore_step id head with hsame | ⟨status, hwrites, hstatus⟩
      · exact .inl hsame
      · exact .inr ⟨[], _, _, status, rfl, hwrites, hstatus⟩
    · exact .inr ⟨_ :: before, event, after, status, rfl, hwrites, hstatus⟩

theorem recordStore_read {records : Records}
    (h : (recordStore plan revision).Runs table events table')
    (hnone : ∀ event ∈ events, ∀ id status, ¬ event.1.WritesRecord plan revision id status)
    (hread : (⟨.actionStatuses plan revision, .ok records⟩ : Event world) ∈ events) :
    ∀ id, records.get id = table id := by
  obtain ⟨before, after, rfl⟩ := append_of_mem hread
  obtain ⟨mid, hbefore, hafter⟩ := h.of_append
  cases hafter with
  | cons head tail =>
    intro id
    rw [head.2 ⟨rfl, rfl⟩ id]
    rcases recordStore_runs id hbefore with hsame | ⟨first, event, last, status, rfl, hw, -⟩
    · exact hsame
    · exact absurd hw (hnone event (by simp) id status)

theorem recordStore_written {ordinal : Nat} {instant : Int} {message : Option String}
    (h : (recordStore plan revision).Runs table events table')
    (hwritten : (⟨.recordActionStatus plan revision id ordinal status instant message,
      .ok ()⟩ : Event world) ∈ events) :
    ∃ before after mid, events = before ++ after ∧
      (recordStore plan revision).Runs mid after table' ∧ mid id = some status := by
  obtain ⟨before, after, rfl⟩ := append_of_mem hwritten
  obtain ⟨mid, -, hafter⟩ := h.of_append
  cases hafter with
  | @cons _ written _ _ _ head tail =>
    refine ⟨before ++ [_], after, written, append_cons _ _ _, tail, ?_⟩
    simp only [recordStore, and_self, if_true, ne_eq, not_true_eq_false, false_and, or_false] at head
    rw [head, Function.update_self]

end Store

/-! ### One call -/

theorem idempotent_of_mayRerun {records : Records} {action : PlanAction}
    (hrecord : records.get action.id = some status) (hstatus : status.mayHaveMutated = true)
    (h : mayRerun records action = true) : action.idempotency = .idempotent := by
  simp only [mayRerun, recordedStatus, hrecord, Option.getD_some, PlanAction.mayResume,
    PlanAction.withStatus] at h
  revert h hstatus
  cases status <;> cases action.idempotency <;> decide

variable {before after : List (Event world)} {mid : RecordTable}

variable {entry : PlanAction × ExecutionOutcome}

section Call

variable {sha256 : Sha256} {render : Renderings} {request : ApplyRequest} {action : PlanAction}
  {events : List (Event world)} {table table' : RecordTable}

/-- What the store held when a call began lets the actions through that the call executes: none is
recorded as succeeded, and one that may have run already is idempotent. -/
theorem recorded_of_reaches (h : Reaches (apply sha256 render request) events (.execute action))
    (hruns : (recordStore request.plan.id request.plan.revision).Runs table events table') :
    (action ∈ request.plan.actions ∧ action.role.mutatesTarget = true) ∧
      table action.id ≠ some .succeeded ∧
        ((table action.id).any (·.mayHaveMutated) = true → action.idempotency = .idempotent) := by
  obtain ⟨-, admitted, prior, prepared, report, persisted, mutated, ⟨admission⟩, hpreparatory,
    hmutated, rfl⟩ := reaches_apply h
  obtain ⟨before, started, done, rfl, hstarted, hdone, hinitial⟩ := follows_mutate.reaches hmutated
  have hscheduled : action ∈ planSchedule request.plan prior := hinitial.subset (by simp)
  obtain ⟨order, horder⟩ : ∃ order, topologicalOrder request.plan.actions = .ok order := by
    cases horder : topologicalOrder request.plan.actions with
    | error cycle => simp [planSchedule, horder] at hscheduled
    | ok order => exact ⟨order, rfl⟩
  obtain ⟨hplan, -, hprior⟩ := (mem_planSchedule horder).1 hscheduled
  -- Until the mutation starts nothing writes a record, so both reads answer the first table.
  have hreads : ∀ {records : Records}, (⟨.actionStatuses request.plan.id request.plan.revision,
      .ok records⟩ : Event world) ∈ admitted → ∀ id, records.get id = table id := by
    intro records hrecords
    rw [← cons_append] at hruns
    obtain ⟨mid, hearly, -⟩ := hruns.of_append
    refine recordStore_read hearly (fun event hevent id status hwrites => ?_)
      (mem_cons_of_mem _ (mem_append_left _ hrecords))
    obtain ⟨ordinal, instant, message, hcall⟩ := hwrites
    rcases mem_cons.1 hevent with rfl | hevent
    · cases hcall
    · have hquiet := hpreparatory event hevent
      rw [hcall] at hquiet
      cases hquiet
  obtain ⟨stored, -, hevidence⟩ := returns_durableEvidence admission.evidence_returns
  have hrecorded : ∀ id, admission.recorded.get id = table id :=
    hreads (by simp [admission.events_eq, hevidence])
  refine ⟨hplan, ?_⟩
  rcases returns_priorRecords admission.readBack_returns with ⟨hfresh, -, -⟩ |
    ⟨-, hresumed, records, hread, hrefusal⟩
  · have hnone : ¬ (table action.id).any (·.mayHaveMutated) = true := by
      intro hsome
      rw [← hrecorded] at hsome
      have hbegan : mutationBegan request.plan admission.recorded = true :=
        any_eq_true.2 ⟨action, mem_filter.2 hplan, hsome⟩
      rw [admission.resumes_of_began hbegan] at hfresh
      cases hfresh
    exact ⟨fun hsucceeded => hnone (by rw [hsucceeded]; rfl), fun hsome => absurd hsome hnone⟩
  · rw [hresumed, hrecorded] at hprior
    refine ⟨hprior, fun hsome => ?_⟩
    cases hstatus : table action.id with
    | none =>
      rw [hstatus] at hsome
      cases hsome
    | some status =>
      have hrecord : records.get action.id = some status := by
        rw [hreads (by simp [admission.events_eq, hread]), hstatus]
      rw [hstatus] at hsome hprior
      refine idempotent_of_mayRerun hrecord hsome (mayRerun_of_resumeOutcome hrefusal hplan.1 ?_)
      rw [recordedStatus, hrecord]
      exact fun hsucceeded => hprior (congrArg some hsucceeded)

/-- A target list without repetition runs no action at two places. -/
theorem countP_actionCovers_le_one {plan : ChangePlan} (htargets : (targetLabels plan).Nodup)
    (action : PlanAction) :
    (targetLabels plan).countP (fun target => actionCovers plan target action) ≤ 1 := by
  refine countP_le_one_iff_pairwise.2 (htargets.imp fun {target other} hne hboth => hne ?_)
  obtain ⟨htarget, hother⟩ := hboth
  unfold actionCovers at htarget hother
  cases hnamed : action.target with
  | some named =>
    rw [hnamed] at htarget hother
    exact (of_decide_eq_true htarget).symm.trans (of_decide_eq_true hother)
  | none =>
    rw [hnamed] at htarget hother
    cases hfirst : plan.targets.head? with
    | none => simp [hfirst] at htarget
    | some first =>
      simp only [hfirst, Option.any_some, decide_eq_true_eq] at htarget hother
      exact htarget.symm.trans hother

variable {rest : Program world ApplyOutcome}

theorem executions_distinct (hids : (request.plan.actions.map (·.id)).Nodup)
    (htargets : (targetLabels request.plan).Nodup)
    (h : Path (apply sha256 render request) events rest) :
    ((executions events).map (·.1.id)).Nodup :=
  executions_ids_nodup hids (fun action _ _ => countP_actionCovers_le_one htargets action) h

theorem not_executed_of_reaches (hids : (request.plan.actions.map (·.id)).Nodup)
    (htargets : (targetLabels request.plan).Nodup)
    (h : Reaches (apply sha256 render request) events (.execute action)) :
    ∀ entry ∈ executions events, entry.1.id ≠ action.id := by
  intro entry hentry heq
  obtain ⟨rest, hpath⟩ := h.path .succeeded
  have hdistinct := executions_distinct hids htargets hpath
  rw [executions_append, executions_execute, map_append, nodup_append] at hdistinct
  exact hdistinct.2.2 _ (mem_map_of_mem hentry) action.id (by simp) heq

theorem mayHaveMutated_of_writes {call : Call}
    (h : Reaches (apply sha256 render request) events call)
    (hwrites : call.WritesRecord request.plan.id request.plan.revision id status) :
    status.mayHaveMutated = true := by
  obtain ⟨ordinal, instant, message, rfl⟩ := hwrites
  obtain ⟨-, -, ⟨rfl, -⟩ | ⟨_, -, -, -, rfl⟩ | ⟨_, outcome, -, -, rfl⟩⟩ :=
    justified_apply events _ h
  · rfl
  · rfl
  · cases outcome <;> rfl

/-- The record of a mutating action that a call left as succeeded was there before, or the call
executed the action with success. -/
theorem succeeded_of_record (hids : (request.plan.actions.map (·.id)).Nodup)
    (h : Path (apply sha256 render request) events rest)
    (hruns : (recordStore request.plan.id request.plan.revision).Runs table events table')
    (haction : action ∈ request.plan.actions) (hmutates : action.role.mutatesTarget = true)
    (hrecord : table' action.id = some .succeeded) :
    table action.id = some .succeeded ∨ ∃ entry ∈ executions events,
      entry.1.id = action.id ∧ entry.2.status = .succeeded := by
  rcases recordStore_runs action.id hruns with hsame | ⟨before, event, after, status, hevents,
    ⟨ordinal, instant, message, hcall⟩, hstatus⟩
  · exact .inl (hsame ▸ hrecord)
  · obtain rfl : status = .succeeded := Option.some.inj (hstatus.symm.trans hrecord)
    have hreach := h.reaches hevents
    rw [hcall] at hreach
    obtain ⟨-, -, ⟨-, other, hother, hid, hrole⟩ | ⟨_, -, -, -, hrunning⟩ |
      ⟨executed, outcome, hexecuted, hid, houtcome⟩⟩ := justified_apply before _ hreach
    · obtain rfl := inj_on_of_nodup_map hids hother haction hid
      rw [hrole] at hmutates
      cases hmutates
    · cases hrunning
    · refine .inr ⟨(executed, outcome), mem_executions.2 ?_, hid, houtcome.symm⟩
      rw [hevents]
      exact mem_append_left _ hexecuted

/-- Once its record says that it succeeded, an action is not executed any more. -/
theorem not_succeeded_of_reaches (hids : (request.plan.actions.map (·.id)).Nodup)
    (htargets : (targetLabels request.plan).Nodup)
    (h : Reaches (apply sha256 render request) (before ++ after) (.execute action))
    (hbefore : (recordStore request.plan.id request.plan.revision).Runs table before mid)
    (hafter : (recordStore request.plan.id request.plan.revision).Runs mid after table') :
    mid action.id ≠ some .succeeded := by
  intro hsucceeded
  obtain ⟨⟨haction, hmutates⟩, hfirst, -⟩ := recorded_of_reaches h (hbefore.append hafter)
  obtain ⟨rest, hpath⟩ := h.path .succeeded
  obtain ⟨left, hleft⟩ := hpath.of_initial (append_assoc before after _)
  rcases succeeded_of_record hids hleft hbefore haction hmutates hsucceeded with hsame |
    ⟨entry, hentry, hid, -⟩
  · exact hfirst hsame
  · refine not_executed_of_reaches hids htargets h entry ?_ hid
    rw [executions_append]
    exact mem_append_left _ hentry

/-- **A recorded success lasts.** From the moment its record says that it succeeded, no call
executes a mutating action, and its record goes on saying so. -/
theorem succeeded_lasts (hids : (request.plan.actions.map (·.id)).Nodup)
    (htargets : (targetLabels request.plan).Nodup)
    (h : Path (apply sha256 render request) (before ++ after) rest)
    (hbefore : (recordStore request.plan.id request.plan.revision).Runs table before mid)
    (hafter : (recordStore request.plan.id request.plan.revision).Runs mid after table')
    (haction : action ∈ request.plan.actions) (hmutates : action.role.mutatesTarget = true)
    (hsucceeded : mid action.id = some .succeeded) :
    (∀ entry ∈ executions after, entry.1.id ≠ action.id) ∧ table' action.id = some .succeeded := by
  have hnone : ∀ entry ∈ executions after, entry.1.id ≠ action.id := by
    rintro ⟨executed, outcome⟩ hentry hid
    obtain ⟨first, last, rfl⟩ := append_of_mem (mem_executions.1 hentry)
    obtain ⟨late, hfirst, -⟩ := hafter.of_append
    have hreach := h.reaches (append_assoc before first _).symm
    exact not_succeeded_of_reaches hids htargets hreach hbefore hfirst (hid ▸ hsucceeded)
  refine ⟨hnone, ?_⟩
  rcases recordStore_runs action.id hafter with hsame | ⟨first, event, last, status, rfl,
    ⟨ordinal, instant, message, hcall⟩, hstatus⟩
  · rw [hsame, hsucceeded]
  have hreach := h.reaches (append_assoc before first _).symm
  rw [hcall] at hreach
  obtain ⟨-, -, ⟨rfl, -⟩ | ⟨other, hother, hid, -, rfl⟩ |
    ⟨executed, outcome, hexecuted, hid, rfl⟩⟩ := justified_apply _ _ hreach
  · exact hstatus
  -- Writing `running` leads to an execution, and there is none.
  · obtain rfl := inj_on_of_nodup_map hids hother haction hid
    let written : Event world :=
      ⟨.recordActionStatus request.plan.id request.plan.revision other.id ordinal .running
        instant message, .ok ()⟩
    have hexecute := continues_apply hids _ written [] (.execute other) hreach
      ⟨rfl, hother, ordinal, instant, message, rfl⟩
    obtain ⟨late, hfirst, -⟩ := hafter.of_append
    have hwritten : (recordStore request.plan.id request.plan.revision).step late written
        (Function.update late other.id (some .running)) := by
      simp [recordStore, written]
    rw [append_assoc] at hexecute
    exact absurd hsucceeded (not_succeeded_of_reaches hids htargets hexecute hbefore
      (hfirst.append (.cons hwritten (.nil _))))
  -- The action was executed earlier in this call, and only once.
  · have hentry : (executed, outcome) ∈ executions before := by
      rcases mem_append.1 hexecuted with hexecuted | hexecuted
      · exact mem_executions.2 hexecuted
      · refine absurd hid (hnone (executed, outcome) (mem_executions.2 ?_))
        exact mem_append_left _ hexecuted
    obtain ⟨left, hleft⟩ := h.of_initial rfl
    rcases succeeded_of_record hids hleft hbefore haction hmutates hsucceeded with hfirst |
      ⟨entry, hlast, hsame, houtcome⟩
    · obtain ⟨early, late, rfl⟩ := append_of_mem (mem_executions.1 hentry)
      obtain ⟨_, hearly, -⟩ := hbefore.of_append
      have hexecutes := hleft.reaches rfl
      exact absurd (hid ▸ hfirst) (recorded_of_reaches hexecutes hearly).2.1
    · obtain rfl := inj_on_of_nodup_map (executions_distinct hids htargets hleft) hlast hentry
        (hsame.trans hid.symm)
      rw [hstatus, houtcome]

theorem mayHaveMutated_lasts (h : Path (apply sha256 render request) (before ++ after) rest)
    (hafter : (recordStore request.plan.id request.plan.revision).Runs mid after table')
    (hmid : (mid id).any (·.mayHaveMutated) = true) :
    (table' id).any (·.mayHaveMutated) = true := by
  rcases recordStore_runs id hafter with hsame | ⟨first, event, last, status, rfl, hwrites,
    hstatus⟩
  · rwa [hsame]
  · rw [hstatus]
    exact mayHaveMutated_of_writes (h.reaches (append_assoc before first _).symm) hwrites

/-- What a call executed is on record as something that may have run. -/
theorem mayHaveMutated_of_executed (h : Path (apply sha256 render request) events rest)
    (hruns : (recordStore request.plan.id request.plan.revision).Runs table events table')
    (hentry : entry ∈ executions events) : (table' entry.1.id).any (·.mayHaveMutated) = true := by
  obtain ⟨executed, outcome⟩ := entry
  obtain ⟨before, after, hevents⟩ := append_of_mem (mem_executions.1 hentry)
  obtain ⟨first, last, instant, recordedAt, hbefore, -, hrecorded⟩ :=
    (cleared_of_reaches (h.reaches hevents)).started
  have hmem : (⟨.recordActionStatus request.plan.id request.plan.revision executed.id
      executed.ordinal .running recordedAt none, .ok ()⟩ : Event world) ∈ events := by
    rw [hevents, hbefore]
    simp [hrecorded]
  obtain ⟨early, late, mid, rfl, hlate, hmid⟩ := recordStore_written hruns hmem
  refine mayHaveMutated_lasts h hlate ?_
  rw [hmid]
  rfl

end Call

/-! ### Histories -/

/-- Another copy of the same plan revision: it may hold other statuses and another state. -/
structure ChangePlan.SameRevision (plan copy : ChangePlan) : Prop where
  id : copy.id = plan.id
  revision : copy.revision = plan.revision
  targets : copy.targets = plan.targets
  actions : copy.actions.map (·.withStatus .pending) = plan.actions.map (·.withStatus .pending)

/-- The events of applies and resumes of one plan revision, one after the other. Each of them went
on to some point of its program, where it returned or was killed. -/
inductive History (sha256 : Sha256) (render : Renderings) (plan : ChangePlan) :
    List (Event world) → Prop
  | nil : History sha256 render plan []
  | call {before events : List (Event world)} {request : ApplyRequest}
      {rest : Program world ApplyOutcome} (earlier : History sha256 render plan before)
      (same : plan.SameRevision request.plan)
      (path : Path (apply sha256 render request) events rest) :
      History sha256 render plan (before ++ events)

section SameRevision

variable {plan copy : ChangePlan} {action : PlanAction}

theorem ChangePlan.SameRevision.symm (h : plan.SameRevision copy) : copy.SameRevision plan :=
  ⟨h.id.symm, h.revision.symm, h.targets.symm, h.actions.symm⟩

theorem ChangePlan.SameRevision.ids (h : plan.SameRevision copy) :
    copy.actions.map (·.id) = plan.actions.map (·.id) := by
  have hids := congrArg (map PlanAction.id) h.actions
  simpa only [map_map, Function.comp_def, PlanAction.withStatus] using hids

theorem ChangePlan.SameRevision.labels (h : plan.SameRevision copy) :
    targetLabels copy = targetLabels plan := by
  rw [targetLabels, targetLabels, h.targets]

theorem ChangePlan.SameRevision.exists_copy (h : plan.SameRevision copy)
    (haction : action ∈ plan.actions) :
    ∃ other ∈ copy.actions, other.id = action.id ∧ other.role = action.role ∧
      other.idempotency = action.idempotency := by
  have hmem := mem_map_of_mem (f := fun action => action.withStatus .pending) haction
  rw [← h.actions] at hmem
  obtain ⟨other, hother, heq⟩ := mem_map.1 hmem
  have hfields : ∀ {α : Type} (field : PlanAction → α),
      field (other.withStatus .pending) = field (action.withStatus .pending) := fun field =>
    congrArg field heq
  exact ⟨other, hother, hfields PlanAction.id, hfields PlanAction.role,
    hfields PlanAction.idempotency⟩

end SameRevision

section History

variable {sha256 : Sha256} {render : Renderings} {plan : ChangePlan} {events : List (Event world)}
  {table table' : RecordTable} {action : PlanAction}

/-- Once its record says that it succeeded, a mutating action is not executed in the rest of a
history. -/
theorem History.succeeded_lasts (h : History sha256 render plan events)
    (hids : (plan.actions.map (·.id)).Nodup) (htargets : (targetLabels plan).Nodup)
    (haction : action ∈ plan.actions) (hmutates : action.role.mutatesTarget = true)
    (hevents : events = before ++ after)
    (hbefore : (recordStore plan.id plan.revision).Runs table before mid)
    (hafter : (recordStore plan.id plan.revision).Runs mid after table')
    (hsucceeded : mid action.id = some .succeeded) :
    (∀ entry ∈ executions after, entry.1.id ≠ action.id) ∧ table' action.id = some .succeeded := by
  induction h generalizing before after mid table table' with
  | nil =>
    obtain ⟨rfl, rfl⟩ := append_eq_nil_iff.1 hevents.symm
    cases hafter
    exact ⟨by simp, hsucceeded⟩
  | @call earlier events request rest _ same path ih =>
    obtain ⟨other, hother, hid, hrole, -⟩ := same.exists_copy haction
    have hcall : ∀ {first last : List (Event world)} {start late final : RecordTable},
        events = first ++ last → (recordStore plan.id plan.revision).Runs start first late →
        (recordStore plan.id plan.revision).Runs late last final →
        late action.id = some .succeeded → (∀ entry ∈ executions last, entry.1.id ≠ action.id) ∧
          final action.id = some .succeeded := by
      intro first last start late final hsplit hfirst hlast hlate
      rw [← same.id, ← same.revision] at hfirst hlast
      rw [← hid] at hlate ⊢
      exact OnoSendai.succeeded_lasts (same.ids ▸ hids) (same.labels ▸ htargets) (hsplit ▸ path)
        hfirst hlast hother (hrole ▸ hmutates) hlate
    rcases append_eq_append_iff.1 hevents with ⟨first, rfl, hsplit⟩ | ⟨last, rfl, rfl⟩
    · obtain ⟨start, hearlier, hfirst⟩ := hbefore.of_append
      exact hcall hsplit hfirst hafter hsucceeded
    · obtain ⟨late, hlast, hevents'⟩ := hafter.of_append
      obtain ⟨hnone, hlate⟩ := ih rfl hbefore hlast hsucceeded
      obtain ⟨hnone', hfinal⟩ := hcall rfl (.nil _) hevents' hlate
      refine ⟨fun entry hentry => ?_, hfinal⟩
      rw [executions_append] at hentry
      rcases mem_append.1 hentry with hentry | hentry
      · exact hnone entry hentry
      · exact hnone' entry hentry

/-- A mutating action that is not idempotent is executed at most once in a history, and when it was
executed its record says so. -/
theorem History.executed_once (h : History sha256 render plan events)
    (hids : (plan.actions.map (·.id)).Nodup) (htargets : (targetLabels plan).Nodup)
    (haction : action ∈ plan.actions) (hidempotency : action.idempotency ≠ .idempotent)
    (hruns : (recordStore plan.id plan.revision).Runs table events table') :
    (executions events).countP (fun entry => entry.1.id = action.id) ≤ 1 ∧
      (0 < (executions events).countP (fun entry => entry.1.id = action.id) →
        (table' action.id).any (·.mayHaveMutated) = true) := by
  induction h generalizing table' with
  | nil => simp
  | @call earlier events request rest _ same path ih =>
    obtain ⟨mid, hearlier, hcall⟩ := hruns.of_append
    obtain ⟨honce, hrecorded⟩ := ih hearlier
    obtain ⟨other, hother, hid, -, hclass⟩ := same.exists_copy haction
    rw [← same.id, ← same.revision] at hcall
    have hcallOnce := countP_executions_le_one
      (executions_distinct (same.ids ▸ hids) (same.labels ▸ htargets) path) action.id
    -- An earlier execution is on record, and a call that reads the record does not execute.
    have hnone : 0 < (executions earlier).countP (fun entry => entry.1.id = action.id) →
        (executions events).countP (fun entry => entry.1.id = action.id) = 0 := by
      refine fun hpos => countP_eq_zero.2 fun entry hentry heq => ?_
      have heq : entry.1.id = other.id := (of_decide_eq_true heq).trans hid.symm
      obtain ⟨executed, outcome⟩ := entry
      obtain ⟨first, last, rfl⟩ := append_of_mem (mem_executions.1 hentry)
      obtain ⟨late, hfirst, -⟩ := hcall.of_append
      obtain ⟨⟨hplan, -⟩, -, hrerun⟩ := recorded_of_reaches (path.reaches rfl) hfirst
      obtain rfl := inj_on_of_nodup_map (same.ids ▸ hids) hplan hother heq
      exact hidempotency (hclass ▸ hrerun (hid ▸ hrecorded hpos))
    rw [executions_append, countP_append]
    refine ⟨by omega, fun hpos => ?_⟩
    by_cases hnow : 0 < (executions events).countP (fun entry => entry.1.id = action.id)
    · obtain ⟨entry, hentry, heq⟩ := countP_pos_iff.1 hnow
      rw [← of_decide_eq_true heq]
      exact mayHaveMutated_of_executed path hcall hentry
    · have hwhole : Path (apply sha256 render request) ([] ++ events) rest := path
      exact mayHaveMutated_lasts hwhole hcall (hrecorded (by omega))

/-- What a history executes are mutating actions of its plan. -/
theorem History.mutates_of_executed (h : History sha256 render plan events)
    (hruns : (recordStore plan.id plan.revision).Runs table events table')
    (hentry : entry ∈ executions events) :
    ∃ action ∈ plan.actions, action.id = entry.1.id ∧ action.role.mutatesTarget = true := by
  induction h generalizing table' with
  | nil => simp at hentry
  | @call earlier events request rest _ same path ih =>
    obtain ⟨mid, hearlier, hcall⟩ := hruns.of_append
    rw [executions_append] at hentry
    rcases mem_append.1 hentry with hentry | hentry
    · exact ih hearlier hentry
    · obtain ⟨executed, outcome⟩ := entry
      obtain ⟨first, last, rfl⟩ := append_of_mem (mem_executions.1 hentry)
      obtain ⟨late, hfirst, -⟩ := hcall.of_append
      rw [← same.id, ← same.revision] at hfirst
      obtain ⟨⟨hplan, hmutates⟩, -⟩ := recorded_of_reaches (path.reaches rfl) hfirst
      obtain ⟨action, haction, hid, hrole, -⟩ := same.symm.exists_copy hplan
      exact ⟨action, haction, hid, hrole ▸ hmutates⟩

/-- **No unsafe rerun.** In every history of applies and resumes of a plan revision with distinct
action and target identities, each killed anywhere and with any writes failing, a mutating action
that is not idempotent is executed at most once, and no action is executed once its record says that
it succeeded. -/
theorem no_unsafe_rerun (sha256 : Sha256) (render : Renderings) (plan : ChangePlan)
    (hids : (plan.actions.map (·.id)).Nodup) (htargets : (plan.targets.map (·.identity)).Nodup)
    (h : History sha256 render plan events)
    (hruns : (recordStore plan.id plan.revision).Runs table events table') :
    (∀ action ∈ plan.actions, action.role.mutatesTarget = true →
      action.idempotency ≠ .idempotent →
        (executions events).countP (fun entry => entry.1.id = action.id) ≤ 1) ∧
    ∀ before after mid, events = before ++ after →
      (recordStore plan.id plan.revision).Runs table before mid →
        (recordStore plan.id plan.revision).Runs mid after table' →
          ∀ action ∈ plan.actions, mid action.id = some .succeeded →
            ∀ entry ∈ executions after, entry.1.id ≠ action.id := by
  constructor
  · intro action haction _ hidempotency
    exact (h.executed_once hids htargets haction hidempotency hruns).1
  · intro before after mid hevents hbefore hafter action haction hsucceeded entry hentry heq
    have hentry' : entry ∈ executions events := by
      rw [hevents, executions_append]
      exact mem_append_right _ hentry
    obtain ⟨other, hother, hid, hmutates⟩ := h.mutates_of_executed hruns hentry'
    obtain rfl := inj_on_of_nodup_map hids hother haction (hid.trans heq)
    exact (h.succeeded_lasts hids htargets haction hmutates hevents hbefore hafter hsucceeded).1
      entry hentry heq

end History

/-! ### A history that the store permits -/

section Permitted

variable {sha256 : Sha256} {render : Renderings} {request : ApplyRequest} {action : PlanAction}
  {events : List (Event world)}

/-- Whether a call reads the action records of a plan. -/
def Call.readsRecords : Call → Bool
  | actionStatuses .. => true
  | _ => false

/-- The events read no record of the plan, or none at all. -/
def ReadsNoRecord (plan : ChangePlan) (events : List (Event world)) : Prop :=
  ∀ records : Records,
    (⟨.actionStatuses plan.id plan.revision, .ok records⟩ : Event world) ∈ events → records = []

theorem within_mutate_readsRecords {prior : Records} {prepared : Prepared}
    {report : PrepareReport} :
    Within (S := world) (fun call : Call => call.readsRecords = false)
      (mutate render request prepared report prior) :=
  within_mutate (fun _ _ => {
    clock := rfl
    renew := fun _ => rfl
    observe := fun _ => rfl
    running := fun _ _ _ => rfl
    execute := fun _ _ => rfl
    settled := fun _ _ _ _ => rfl }) fun _ _ _ _ => rfl

/-- The store permits every event that does not read the records. -/
theorem exists_runs_of_unread (plan : PlanId) (revision : Nat)
    (h : ∀ event ∈ events, event.1.readsRecords = false) (table : RecordTable) :
    ∃ table', (recordStore plan revision).Runs table events table' := by
  induction events generalizing table with
  | nil => exact ⟨table, .nil _⟩
  | cons event rest ih =>
    have hstep : ∃ next, (recordStore plan revision).step table event next := by
      have hread := h event mem_cons_self
      obtain ⟨call, answer⟩ := event
      cases call with
      | recordActionStatus plan' revision' id ordinal status instant message =>
        by_cases hsame : plan' = plan ∧ revision' = revision
        · exact ⟨Function.update table id (some status), by simp [recordStore, hsame]⟩
        · exact ⟨table, by simp [recordStore, hsame]⟩
      | actionStatuses => cases hread
      | _ => exact ⟨table, rfl⟩
    obtain ⟨next, hnext⟩ := hstep
    obtain ⟨table', hrest⟩ := ih (fun event hevent => h event (mem_cons_of_mem _ hevent)) next
    exact ⟨table', .cons hnext hrest⟩

/-- An empty store permits events that write no record and read none. -/
theorem runs_of_unwritten {plan : ChangePlan}
    (hwrites : ∀ event ∈ events, ∀ id status,
      ¬ event.1.WritesRecord plan.id plan.revision id status)
    (hreads : ReadsNoRecord plan events) :
    (recordStore plan.id plan.revision).Runs (fun _ => none) events fun _ => none := by
  induction events with
  | nil => exact .nil _
  | cons event rest ih =>
    refine .cons ?_ (ih (fun event hevent => hwrites event (mem_cons_of_mem _ hevent))
      fun records hrecords => hreads records (mem_cons_of_mem _ hrecords))
    have hwrite := hwrites event mem_cons_self
    have hread := fun records hevent => hreads records (mem_cons.2 (.inl hevent))
    obtain ⟨call, answer⟩ := event
    cases call with
    | recordActionStatus plan' revision' id ordinal status instant message =>
      have hother : ¬ (plan' = plan.id ∧ revision' = plan.revision) := by
        rintro ⟨rfl, rfl⟩
        exact hwrite id status ⟨ordinal, instant, message, rfl⟩
      simp [recordStore, hother]
    | actionStatuses plan' revision' =>
      cases answer with
      | error refusal => rfl
      | ok records =>
        refine ⟨rfl, ?_⟩
        rintro ⟨rfl, rfl⟩ id
        rw [hread records rfl]
        rfl
    | _ => rfl

/-- An empty store permits what a fresh apply does up to an action it executes. -/
theorem exists_runs_of_reaches (h : Reaches (apply sha256 render request) events (.execute action))
    (hreads : ReadsNoRecord request.plan events) (outcome : ExecutionOutcome) :
    ∃ table', (recordStore request.plan.id request.plan.revision).Runs (fun _ => none)
      (events ++ [⟨.execute action, outcome⟩]) table' := by
  obtain ⟨-, admitted, prior, prepared, report, persisted, mutated, -, hpreparatory, ⟨next, hmutated⟩,
    rfl⟩ := reaches_apply h
  rw [← cons_append] at hreads
  have hearly : (recordStore request.plan.id request.plan.revision).Runs (fun _ => none)
      (⟨.claim request.plan.id request.session request.now, .ok ()⟩ :: (admitted ++ persisted))
      fun _ => none := by
    refine runs_of_unwritten (fun event hevent id status hwrites => ?_)
      fun records hrecords => hreads records (mem_append_left _ hrecords)
    obtain ⟨ordinal, instant, message, hcall⟩ := hwrites
    rcases mem_cons.1 hevent with rfl | hevent
    · cases hcall
    · have hquiet := hpreparatory event hevent
      rw [hcall] at hquiet
      cases hquiet
  have hunread : ∀ event ∈ mutated ++ [(⟨.execute action, outcome⟩ : Event world)],
      event.1.readsRecords = false := by
    intro event hevent
    rcases mem_append.1 hevent with hevent | hevent
    · exact within_mutate_readsRecords.of_mem hmutated hevent
    · rw [mem_singleton.1 hevent]
      rfl
  obtain ⟨table', hlate⟩ := exists_runs_of_unread request.plan.id request.plan.revision hunread
    fun _ => none
  refine ⟨table', ?_⟩
  rw [← cons_append, append_assoc]
  exact hearly.append hlate

end Permitted

/-- What a store that was empty holds can be answered. -/
theorem exists_records {plan : PlanId} {revision : Nat} {table table' : RecordTable}
    {events : List (Event world)} (h : (recordStore plan revision).Runs table events table')
    (hrecords : ∃ records : Records, ∀ action, records.get action = table action) :
    ∃ records : Records, ∀ action, records.get action = table' action := by
  induction h with
  | nil => exact hrecords
  | @cons table next _ event _ hstep _ ih =>
    refine ih ?_
    obtain ⟨records, hget⟩ := hrecords
    have hnext :
        next = table ∨ ∃ action status, next = Function.update table action (some status) := by
      obtain ⟨call, answer⟩ := event
      cases call with
      | recordActionStatus plan' revision' action ordinal status instant message =>
        simp only [recordStore] at hstep
        split_ifs at hstep
        · exact hstep.symm.imp And.right fun h => ⟨action, status, h⟩
        · exact .inl hstep
      | actionStatuses =>
        cases answer with
        | ok => exact .inl hstep.1
        | error => exact .inl hstep
      | _ => exact .inl hstep
    rcases hnext with rfl | ⟨action, status, rfl⟩
    · exact ⟨records, hget⟩
    · refine ⟨(action.body, status) :: records, fun other => ?_⟩
      rw [Records.get, lookup_cons, Function.update_apply, ← hget, Records.get]
      by_cases hsame : other = action
      · simp [hsame]
      · have hbody : (other.body == action.body) = false := by
          rw [beq_eq_false_iff_ne]
          exact fun hbody => hsame (HexId.ext hbody)
        rw [if_neg hsame, hbody]

/-- The rollout as the store holds it once it has begun. -/
def interruptedRollout (sha256 : Sha256) (render : Renderings) : ChangePlan :=
  { rolloutPlan sha256 render databaseId webId ["db", "web"] with state := .applying }

/-- The request of a session that resumes it. -/
def resumedRollout (sha256 : Sha256) (render : Renderings) : ApplyRequest :=
  { rolloutRequest sha256 render databaseId webId ["db", "web"] with
    plan := interruptedRollout sha256 render
    now := 3
    session := "session-2"
    resume := true }

/-- What it does until it has read the records. -/
def evidenceRead (sha256 : Sha256) (render : Renderings) (records : Records) : List (Event world) :=
  [⟨.claim (rolloutDraft sha256 render).id "session-2" 3, .ok ()⟩,
    ⟨.getRevision (rolloutDraft sha256 render).id 1, .ok (interruptedRollout sha256 render)⟩,
    ⟨.actionStatuses (rolloutDraft sha256 render).id 1, .ok records⟩]

/-- An apply of the rollout is killed when its last action came back, and it is resumed and killed
again when it has read the records: the restart is executed once. -/
theorem no_unsafe_rerun_rollout :
    ([databaseId, webId].Nodup ∧ ["db", "web"].Nodup) ∧
    ∀ sha256 render, ∃ events records table',
      History sha256 render (rolloutPlan sha256 render databaseId webId ["db", "web"])
        (events ++ evidenceRead sha256 render records) ∧
      (recordStore (rolloutDraft sha256 render).id 1).Runs (fun _ => none)
        (events ++ evidenceRead sha256 render records) table' ∧
      (executions events).countP (fun entry => entry.1.id = webId) = 1 := by
  have hids : [databaseId, webId].Nodup := by decide
  have htargets : ["db", "web"].Nodup := by decide
  refine ⟨⟨hids, htargets⟩, fun sha256 render => ?_⟩
  obtain ⟨events, outcome, hret, -, hexecuted⟩ := calmly_apply_rollout sha256 render
  rw [(planSchedule_rolloutPlan sha256 render).2] at hexecuted
  obtain ⟨before, hreach, hinitial, hdone⟩ := reaches_of_returns hret.1 (show executions events =
    allSucceeded ([migrateAction sha256 render databaseId] ++
      restartAction sha256 render webId databaseId :: []) from hexecuted)
  obtain ⟨rest, hpath⟩ := hreach.path .succeeded
  obtain ⟨table', hruns⟩ := exists_runs_of_reaches hreach
    (fun records hrecords => Except.ok.inj (hret.2 _ (hinitial.subset hrecords))) .succeeded
  obtain ⟨records, hrecords⟩ := exists_records hruns ⟨[], fun _ => rfl⟩
  have hkilled : History sha256 render (rolloutPlan sha256 render databaseId webId ["db", "web"])
      ([] ++ (before ++ [⟨.execute (restartAction sha256 render webId databaseId), .succeeded⟩])) :=
    History.nil.call ⟨rfl, rfl, rfl, rfl⟩ hpath
  have hunclaimed : refusedUnclaimed sha256 render (resumedRollout sha256 render) = none := by
    have hdigest : (interruptedRollout sha256 render).digestHolds sha256 render = true :=
      decide_eq_true rfl
    simp only [refusedUnclaimed, resumedRollout, hdigest]
    rfl
  have hresumed : ∃ rest, Path (apply sha256 render (resumedRollout sha256 render))
      (evidenceRead sha256 render records) rest := by
    rw [apply, hunclaimed]
    exact ⟨_, .cons (.cons (.cons (.nil _)))⟩
  obtain ⟨rest', hresumed⟩ := hresumed
  have hread : (recordStore (rolloutDraft sha256 render).id 1).Runs table'
      (evidenceRead sha256 render records) table' :=
    .cons rfl (.cons rfl (.cons ⟨rfl, fun _ => hrecords⟩ (.nil _)))
  have hhistory := hkilled.call ⟨rfl, rfl, rfl, rfl⟩ hresumed
  have hall := hruns.append hread
  refine ⟨_, records, table', hhistory, hall, Nat.le_antisymm ?_ ?_⟩
  · have honce := (no_unsafe_rerun sha256 render
      (rolloutPlan sha256 render databaseId webId ["db", "web"]) hids htargets hhistory hall).1
      (restartAction sha256 render webId databaseId) (by simp [rolloutPlan]) rfl
      (by simp [restartAction, PlanAction.new])
    rw [executions_append, countP_append] at honce
    exact (Nat.le_add_right _ _).trans honce
  · refine countP_pos_iff.2 ⟨(restartAction sha256 render webId databaseId, .succeeded), ?_,
      decide_eq_true rfl⟩
    rw [nil_append, executions_append, executions_execute]
    exact mem_append_right _ mem_cons_self

end OnoSendai
