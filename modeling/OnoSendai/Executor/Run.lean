import OnoSendai.Executor.Gate

/-!
# A run in which nothing fails

When the store keeps what it is given, no precondition has drifted, every action succeeds and every
contract passes, an apply goes through the whole schedule of its plan and ends in success. The
schedule is therefore not only a bound on what an apply executes: it is what an apply executes.
-/

namespace OnoSendai

open Interaction List

/-! ### Reaching what a run executed -/

/-- A run that executed a list of actions reached each of them, right after those before it. -/
theorem reaches_of_returns {α : Type} {program : Program world α} {events : List (Event world)}
    {result : α} {done rest : List PlanAction} {action : PlanAction}
    (h : Returns program events result)
    (hexecuted : executions events = allSucceeded (done ++ action :: rest)) :
    ∃ before, Reaches program before (.execute action) ∧ before <+: events ∧
      executions before = allSucceeded done := by
  rw [executions, allSucceeded, map_append, map_cons,
    filterMap_eq_append_iff] at hexecuted
  obtain ⟨before, after, rfl, hbefore, hafter⟩ := hexecuted
  obtain ⟨silent, event, tail, rfl, hsilent, hevent, -⟩ := filterMap_eq_cons_iff.1 hafter
  obtain rfl := execution_eq_some.1 hevent
  have hevents : before ++ (silent ++ ⟨.execute action, .succeeded⟩ :: tail) =
      (before ++ silent) ++ ⟨.execute action, .succeeded⟩ :: tail := by simp
  refine ⟨before ++ silent, ?_, ?_, ?_⟩
  · exact Path.reaches h hevents
  · exact ⟨⟨.execute action, .succeeded⟩ :: tail, by simp⟩
  · rw [executions_append, executions, hbefore, executions,
      filterMap_eq_nil_iff.2 hsilent, append_nil]
    rfl

/-! ### Answers -/

/-- The answers of a world in which nothing fails: the store holds the plan and no record, nothing
has drifted, every action succeeds, every contract passes, and the clock stands at `now`. -/
def calm (plan : ChangePlan) (now : Int) : (call : Call) → call.Answer
  | .claim .. | .renew .. | .release .. | .recordState .. | .recordActionStatus .. | .putAsset ..
  | .pause .. | .resume .. | .cleanup .. => .ok ()
  | .getRevision .. => .ok plan
  | .actionStatuses .. => .ok []
  | .assetsFor .. => .ok []
  | .getAsset .. | .create .. | .validate .. => .error .storeCorrupt
  | .capabilities .. => []
  | .revalidate .. => .ok []
  | .execute .. => .succeeded
  | .observe .. => .answered .passed none
  | .clock => now

/-- A run of a program against a calm world. -/
abbrev Calmly {α : Type} (request : ApplyRequest) (program : Program world α)
    (events : List (Event world)) (result : α) : Prop :=
  ReturnsWith (S := world) (calm request.plan request.now) program events result

theorem calmly_ask (request : ApplyRequest) (call : Call) :
    Calmly request (ask call) [⟨call, calm request.plan request.now call⟩]
      (calm request.plan request.now call) :=
  .call rfl (.ret _)

section Forward

variable (sha256 : Sha256) (render : Renderings) (request : ApplyRequest) (prior : Records)
  (mutating : List PlanAction)

/-! ### The loops -/

theorem calmly_stamp : ∃ events, Calmly request request.stamp events request.now := by
  rw [ApplyRequest.stamp]
  split_ifs
  · exact ⟨_, calmly_ask request .clock⟩
  · exact ⟨[], .ret _⟩

theorem calmly_startAction (action : PlanAction) :
    ∃ events, Calmly request (startAction request action) events (.ok ()) := by
  obtain ⟨first, hfirst⟩ := calmly_stamp request
  exact ⟨_, hfirst.bind ((calmly_ask request _).bind (hfirst.bind (calmly_ask request _)))⟩

theorem calmly_recordSettled (action : PlanAction) (outcome : ExecutionOutcome) :
    ∃ events, Calmly request (recordSettled request action outcome) events () := by
  obtain ⟨first, hfirst⟩ := calmly_stamp request
  exact ⟨_, hfirst.bind ((calmly_ask request _).bind (.ret _))⟩

/-- An action can be run and succeed. -/
theorem calmly_runAction (action : PlanAction) (progress : TargetProgress) :
    ∃ events, Calmly request (runAction request action progress) events
        ⟨(progress.state.started action).settled request.plan action .succeeded, .succeeded,
          progress.failure⟩ ∧ executions events = [(action, .succeeded)] := by
  obtain ⟨started, hstarted⟩ := calmly_startAction request action
  obtain ⟨recorded, hrecorded⟩ := calmly_recordSettled request action .succeeded
  have hexecuted : Calmly request (executeAction request action progress.state)
      (⟨.execute action, .succeeded⟩ :: (recorded ++ [])) (.succeeded,
        (progress.state.started action).settled request.plan action .succeeded) :=
    (calmly_ask request (.execute action)).bind (hrecorded.bind (.ret _))
  refine ⟨_, hstarted.bind (hexecuted.bind (.ret _)), ?_⟩
  rw [executions_append, quiet_startAction.executions_eq_nil hstarted.1, append_nil,
    append_nil, executions_execute, (quiet_recordSettled .succeeded).executions_eq_nil
    hrecorded.1, nil_append]

/-- The actions of a target can all be run and succeed. -/
theorem calmly_runActions (actions : List PlanAction) (progress : TargetProgress)
    (h : progress.state.stop = none) :
    ∃ events progress', Calmly request (runActions request prior actions progress) events
        progress' ∧ progress'.state.stop = none ∧
      executions events = allSucceeded (pending prior actions) := by
  induction actions generalizing progress with
  | nil => exact ⟨[], progress, .ret _, h, rfl⟩
  | cons action rest ih =>
    rw [runActions, if_neg (by simp [h])]
    by_cases hprior : prior.get action.id = some .succeeded
    · rw [if_pos hprior, pending, filter_cons_of_neg (by simp [hprior])]
      exact ih _ h
    · rw [if_neg hprior, pending, filter_cons_of_pos (by simp [hprior])]
      obtain ⟨first, hfirst, hone⟩ := calmly_runAction request action progress
      obtain ⟨second, progress', hsecond, hstop, hrest⟩ := ih
        ⟨(progress.state.started action).settled request.plan action .succeeded, .succeeded,
          progress.failure⟩ h
      refine ⟨_, progress', hfirst.bind hsecond, hstop, ?_⟩
      rw [executions_append, hone, hrest]
      rfl

/-- The targets of a wave can all be run and succeed. -/
theorem calmly_submitTargets (targets : List String) (state : MutateState)
    (h : state.stop = none) :
    ∃ events results state',
      Calmly request (submitTargets request prior mutating targets state) events
        (results, state') ∧ state'.stop = none ∧
      executions events = allSucceeded (schedule request.plan prior mutating targets) := by
  induction targets generalizing state with
  | nil => exact ⟨[], [], state, .ret _, h, rfl⟩
  | cons target rest ih =>
    rw [submitTargets, if_neg (by simp [h]), schedule, flatMap_cons]
    obtain ⟨first, progress, hfirst, hstop, hone⟩ := calmly_runActions request prior
      (mutating.filter (actionCovers request.plan target)) ⟨state, .skipped, none⟩ h
    obtain ⟨second, results, state', hsecond, hstop', hrest⟩ := ih progress.state hstop
    refine ⟨_, _, state', hfirst.bind (hsecond.bind (.ret _)), hstop', ?_⟩
    rw [append_nil, executions_append, hone, hrest, allSucceeded, allSucceeded, allSucceeded,
      map_append]
    rfl

/-! ### Contracts -/

theorem calmly_observeContracts (contracts : List VerificationContract) :
    ∃ events results, Calmly request
        (observeContracts render request.plan request.now contracts) events (results, []) ∧
      ∀ result ∈ results, result.status = .passed := by
  induction contracts with
  | nil => exact ⟨[], [], .ret _, by simp⟩
  | cons contract rest ih =>
    obtain ⟨events, results, hret, hpassed⟩ := ih
    refine ⟨_, buildResult render request.plan contract request.now (.answered .passed none) ::
      results, (calmly_ask request (.observe contract)).bind (hret.bind (.ret _)), ?_⟩
    intro result hresult
    rcases mem_cons.1 hresult with rfl | hresult
    · rfl
    · exact hpassed result hresult

/-- Results that all passed verify. -/
theorem verdict_of_passed {results : List VerificationResult}
    (h : ∀ result ∈ results, result.status = .passed) :
    VerificationSet.verdict results = .verified := by
  have hfold : ∀ verdicts : List Verdict, (∀ verdict ∈ verdicts, verdict = .verified) →
      verdicts.foldl Verdict.worseOf .verified = .verified := by
    intro verdicts hverified
    induction verdicts with
    | nil => rfl
    | cons verdict rest ih =>
      rw [foldl_cons, hverified verdict mem_cons_self]
      exact ih fun other hother => hverified other (mem_cons_of_mem _ hother)
  refine hfold _ fun verdict hverdict => ?_
  obtain ⟨result, hresult, rfl⟩ := mem_map.1 hverdict
  unfold VerificationSet.contribution
  rw [h result hresult]

/-! ### Waves -/

theorem calmly_runGate (slice : List String) (state : MutateState) :
    ∃ events state', Calmly request (runGate render request slice state) events
        (.verified, state') ∧ state'.stop = state.stop := by
  obtain ⟨events, results, hret, hpassed⟩ := calmly_observeContracts render request
    (request.plan.verification.contracts.filter fun contract =>
      contract.class' = .required &&
        aboutReached contract.subject (targetLabels request.plan) (state.reached ++ slice))
  refine ⟨events ++ [], { state with
    reached := state.reached ++ slice
    gateResults := state.gateResults ++ results }, hret.bind ?_, rfl⟩
  rw [← verdict_of_passed hpassed]
  exact .ret _

/-- A wave can be run to its end. -/
theorem calmly_runWave (targets : List String) (wave : Wave) (run : StrategyRun)
    (state : MutateState) (h : state.stop = none) :
    ∃ events run' state',
      Calmly request (runWave render request prior mutating targets wave run state) events
        (run', state') ∧ state'.stop = none ∧ run'.stoppedAt = run.stoppedAt ∧
      executions events = allSucceeded
        (schedule request.plan prior mutating (wave.slice targets)) := by
  obtain ⟨first, results, mid, hfirst, hmid, hexecuted⟩ := calmly_submitTargets
    request prior mutating (wave.slice targets) state h
  have hstops : ¬ results.any (·.stopsTheRun) = true := fun hstops => by
    simpa [hmid] using stop_isSome_of_stopsTheRun hfirst.1 hstops
  by_cases hgated : wave.gated = true
  · obtain ⟨second, state', hsecond, hstop⟩ :=
      calmly_runGate render request (wave.slice targets) mid
    refine ⟨first ++ (second ++ []), { run.collect (wave.slice targets) results with
      gateVerdict := some .verified }, state', hfirst.bind ?_, hstop.trans hmid, rfl, ?_⟩
    · dsimp only
      rw [if_neg hstops, if_pos hgated]
      exact hsecond.bind (.ret _)
    · rw [executions_append, append_nil, quiet_runGate.executions_eq_nil hsecond.1,
        append_nil, hexecuted]
  · refine ⟨first ++ [], run.collect (wave.slice targets) results, mid, hfirst.bind ?_, hmid, rfl,
      by rw [append_nil, hexecuted]⟩
    dsimp only
    rw [if_neg hstops, if_neg hgated]
    exact .ret _

/-- The waves can all be run, with every gate verifying. -/
theorem calmly_runWaves (targets : List String) (waves : List Wave)
    (run : StrategyRun) (state : MutateState) (h : state.stop = none) (hrun : run.IsGoing) :
    ∃ events run' state',
      Calmly request (runWaves render request prior mutating targets waves run state) events
        (run', state') ∧ state'.stop = none ∧ run'.IsGoing ∧
      executions events = allSucceeded
        (schedule request.plan prior mutating (waves.flatMap fun wave => wave.slice targets)) := by
  induction waves generalizing run state with
  | nil => exact ⟨[], run, state, .ret _, h, hrun, rfl⟩
  | cons wave waves ih =>
    obtain ⟨first, mid, midState, hfirst, hmid, hstopped, hone⟩ :=
      calmly_runWave render request prior mutating targets wave run state h
    have hgoing : mid.IsGoing := by
      rcases isGoing_or_endedEarly hrun hfirst.1 hmid with hgoing | ⟨hsome, -⟩
      · exact hgoing
      · simp [hstopped, hrun.1] at hsome
    obtain ⟨second, run', state', hsecond, hstate, hrun', hrest⟩ := ih mid midState hmid hgoing
    refine ⟨first ++ second, run', state', hfirst.bind ?_, hstate, hrun', ?_⟩
    · dsimp only
      rw [if_neg (by simp [hgoing.1])]
      exact hsecond
    · rw [executions_append, hone, hrest, flatMap_cons, schedule, schedule, schedule,
        flatMap_append, allSucceeded, allSucceeded, allSucceeded, map_append]

/-! ### A whole apply -/

theorem calmly_verify :
    ∃ events verification, Calmly request (verify render request.plan request.now) events
        verification ∧ verification.verdict = .verified ∧ verification.error = none := by
  obtain ⟨events, results, hret, hpassed⟩ := calmly_observeContracts render request
    request.plan.verification.contracts
  exact ⟨_, _, hret.bind (.ret _), verdict_of_passed hpassed, by simp [verdict_of_passed hpassed]⟩

theorem calmly_recordPrepared_nothing (actions : List PlanAction) :
    Calmly request (recordPrepared request .nothing actions) [] () := by
  induction actions with
  | nil => exact .ret _
  | cons action rest ih =>
    have hprepared : isPrepared .nothing action = false := by
      cases htarget : action.target <;> simp [isPrepared, Prepared.nothing, htarget]
    rw [recordPrepared, if_neg (by simp [hprepared])]
    exact ih

/-- A mutation of a plan whose actions can be sorted executes the whole schedule and succeeds. -/
theorem calmly_mutate {order : List Nat} (report : PrepareReport)
    (horder : topologicalOrder request.plan.actions = .ok order) :
    ∃ events outcome held, Calmly request (mutate render request .nothing report prior) events
        (outcome, held) ∧ outcome.isSuccess = true ∧
      executions events = allSucceeded (planSchedule request.plan prior) := by
  obtain ⟨first, run, state, hfirst, hstate, hgoing, hexecuted⟩ :=
    calmly_runWaves render request prior (mutatingActions request.plan order)
      (targetLabels request.plan) (request.plan.strategy.waves (targetLabels request.plan).length)
      .initial (.initial request.plan .nothing prior) rfl StrategyRun.isGoing_initial
  obtain ⟨second, verification, hsecond, hverdict, herror⟩ := calmly_verify render request
  have hconcluded : Calmly request (concludeMutation render request .nothing
      (mutatingActions request.plan order) report run state) (second ++ [])
      (verifiedOutcome request (mutateOutcome request .nothing report run state) verification) := by
    unfold concludeMutation
    dsimp only
    rw [hstate]
    cases hgate : run.gateVerdict with
    | none => exact hsecond.bind (.ret _)
    | some verdict =>
      obtain rfl := hgoing.2 verdict hgate
      exact hsecond.bind (.ret _)
  rw [mutate, planSchedule, horder]
  refine ⟨[] ++ (first ++ ((second ++ []) ++ [])), _, _,
    (calmly_recordPrepared_nothing request _).bind (hfirst.bind (hconcluded.bind (.ret _))), ?_, ?_⟩
  · simp only [ApplyOutcome.isSuccess, verifiedOutcome, herror, VerifyOutcome.stateFor, hverdict]
    cases decide (request.plan.kind = .recovery) <;> rfl
  · rw [nil_append, executions_append, hexecuted, Strategy.waves_cover, append_nil,
      append_nil, quiet_verify.executions_eq_nil hsecond.1, append_nil]

theorem calmly_revalidateActions (actions : List PlanAction) (drift : Drift) :
    ∃ events, Calmly request (revalidateActions actions drift) events drift := by
  induction actions with
  | nil => exact ⟨[], .ret _⟩
  | cons action rest ih =>
    obtain ⟨events, hret⟩ := ih
    have hsame : drift.withFindings [] = drift := by simp [Drift.withFindings]
    have hrest : Calmly request (revalidateActions rest (drift.withFindings [])) events drift := by
      rwa [hsame]
    exact ⟨_, (calmly_ask request (.revalidate action)).bind hrest⟩

theorem calmly_admitChecked (durable : PlanState) (recorded : Records)
    (hbegan : mutationBegan request.plan recorded = false)
    (hauthority : checkAuthority request = none) (hdiscovery : checkDiscovery request = none)
    (hgates : checkGates request.plan = none) (hprotection : request.protection = []) :
    ∃ events, Calmly request (admitChecked sha256 request durable recorded prior) events
      (.ok (.nothing, .initial)) := by
  obtain ⟨events, hret⟩ := calmly_revalidateActions request
    (request.plan.actions.filter fun action => prior.get action.id ≠ some .succeeded) ⟨[], none⟩
  have hrevalidated : Calmly request (revalidatePlan request.plan prior) (events ++ []) none :=
    hret.bind (.ret _)
  refine ⟨events ++ [] ++ [], hrevalidated.bind ?_⟩
  simp only [hauthority, hdiscovery, hgates, establishProtection, hbegan, hprotection]
  exact .ret _

/-- A fresh apply whose checks pass is admitted: the store holds the plan as it was sealed and no
record. -/
theorem calmly_admitRequest (hfresh : request.resume = false)
    (happliable : appliability request.plan request.plan.state request.now false = none)
    (hauthority : checkAuthority request = none) (hdiscovery : checkDiscovery request = none)
    (hgates : checkGates request.plan = none) (hprotection : request.protection = []) :
    ∃ admitted, Calmly request (admitRequest sha256 request) admitted
      (.ok ([], .nothing, .initial)) := by
  have hbegan : mutationBegan request.plan [] = false := by simp [mutationBegan, Records.get]
  obtain ⟨checks, hchecks⟩ := calmly_admitChecked sha256 request [] request.plan.state [] hbegan
    hauthority hdiscovery hgates hprotection
  have hevidence : Calmly request (durableEvidence request.plan)
      ([⟨.getRevision request.plan.id request.plan.revision, .ok request.plan⟩] ++
        ([⟨.actionStatuses request.plan.id request.plan.revision, .ok []⟩] ++ []))
      (.ok (request.plan.state, [])) :=
    (calmly_ask request _).bind ((calmly_ask request _).bind (.ret _))
  have hprior : Calmly request (priorRecords request []) [] (.ok []) := by
    rw [priorRecords, if_neg (by simp [hfresh])]
    exact .ret _
  refine ⟨_, hevidence.bind (?_ : Calmly request _ ([] ++ (checks ++ [])) _)⟩
  dsimp only
  rw [hfresh, happliable]
  dsimp only
  rw [if_neg (by simp [hbegan])]
  exact hprior.bind (hchecks.bind (.ret _))

/-- A prepared apply writes that it began, mutates, and writes how it ended. -/
theorem calmly_applyPrepared {mutated : List (Event world)} {outcome : ApplyOutcome}
    {held : Bool}
    (h : Calmly request (mutate render request .nothing .initial prior) mutated (outcome, held)) :
    ∃ opening closing, Calmly request (applyPrepared sha256 render request prior .nothing .initial)
        (opening ++ (mutated ++ closing)) outcome ∧
      executions opening = [] ∧ executions closing = [] := by
  have hwrite : ∀ state, Calmly request (writeState request state)
      [⟨.recordState request.plan.id request.plan.revision state, .ok ()⟩] () := fun state =>
    (calmly_ask request _).bind (.ret _)
  have hpersist : Calmly request (persistAssets sha256 request (keptAssets .nothing)) [] () := .ret _
  have hclose : ∃ closing, Calmly request (if held = true then do
        writeState request outcome.state
        return outcome
      else return outcome) closing outcome ∧ executions closing = [] := by
    cases held with
    | false => exact ⟨[], .ret _, rfl⟩
    | true => exact ⟨_, (hwrite outcome.state).bind (.ret _), rfl⟩
  obtain ⟨closing, hclosed, hquiet⟩ := hclose
  exact ⟨[⟨.recordState request.plan.id request.plan.revision .applying, .ok ()⟩], closing,
    hpersist.bind ((hwrite .applying).bind (h.bind hclosed)), rfl, hquiet⟩

/-- **A fresh apply that its checks let through executes the whole schedule** in a calm world, and
it is a success. -/
theorem calmly_apply {order : List Nat}
    (hunclaimed : refusedUnclaimed sha256 render request = none) (hfresh : request.resume = false)
    (happliable : appliability request.plan request.plan.state request.now false = none)
    (hauthority : checkAuthority request = none) (hdiscovery : checkDiscovery request = none)
    (hgates : checkGates request.plan = none) (hprotection : request.protection = [])
    (horder : topologicalOrder request.plan.actions = .ok order) :
    ∃ events outcome, Calmly request (apply sha256 render request) events outcome ∧
      outcome.isSuccess = true ∧
      executions events = allSucceeded (planSchedule request.plan []) := by
  obtain ⟨admitted, hadmitted⟩ := calmly_admitRequest sha256 request hfresh happliable hauthority
    hdiscovery hgates hprotection
  obtain ⟨mutated, outcome, held, hmutated, hsuccess, hexecuted⟩ :=
    calmly_mutate render request [] .initial horder
  obtain ⟨opening, closing, hprepared, hopening, hclosing⟩ :=
    calmly_applyPrepared sha256 render request [] hmutated
  have hclaimed : Calmly request (applyClaimed sha256 render request)
      (admitted ++ (opening ++ (mutated ++ closing))) outcome := hadmitted.bind hprepared
  have happly : Calmly request (apply sha256 render request)
      (⟨.claim request.plan.id request.session request.now, .ok ()⟩ ::
        ((admitted ++ (opening ++ (mutated ++ closing))) ++
          [⟨.release request.plan.id request.session, .ok ()⟩])) outcome := by
    rw [apply, hunclaimed]
    exact (calmly_ask request _).bind (hclaimed.bind ((calmly_ask request _).bind (.ret _)))
  refine ⟨_, outcome, happly, hsuccess, ?_⟩
  rw [executions_claimed, executions_append, preparatory_admitRequest.quiet.executions_eq_nil
    hadmitted.1, executions_append, executions_append, hopening, hclosing, hexecuted]
  simp

end Forward

end OnoSendai
