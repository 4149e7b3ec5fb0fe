import OnoSendai.Executor.Completion

/-!
# The canary gate

A canary strategy changes the first targets of a plan, then observes the required contracts about
them, and goes on to the rest only if these verify. A contract verifies when its check passed, and
also when it was skipped: a skipped check makes no claim either way and counts as a pass.
-/

namespace OnoSendai

open Interaction List VerificationSet

/-! ### What a gate asks for -/

/-- Whether the subject of a contract names a target. -/
def namesTarget (subject target : String) : Bool :=
  subject = target || (" " ++ target).toList.isSuffixOf subject.toList

/-- The canary was changed, and then every required contract about it, or about no target of the
plan, was observed and answered with a status that passes; only then come changes outside it. -/
def CanaryGated (passes : VerificationStatus → Prop) (plan : ChangePlan) (first : Nat)
    (events : List (Event world)) : Prop :=
  let inside := (targetLabels plan).take (max 1 first)
  let outside := (targetLabels plan).drop (max 1 first)
  ∃ canary gate later, events = canary ++ (gate ++ later) ∧
    (∀ entry ∈ executions canary, ∃ target ∈ inside, actionCovers plan target entry.1 = true) ∧
    executions gate = [] ∧
    (∀ entry ∈ executions later, ∃ target ∈ outside, actionCovers plan target entry.1 = true) ∧
    ∀ contract ∈ plan.verification.contracts, contract.class' = .required →
      ((∃ target ∈ inside, namesTarget contract.subject target = true) ∨
        ∀ target ∈ targetLabels plan, namesTarget contract.subject target = false) →
      ∃ status observed, passes status ∧
        (⟨.observe contract, .answered status observed⟩ : Event world) ∈ gate

theorem aboutReached_iff {subject : String} {targets reached : List String} :
    aboutReached subject targets reached = true ↔
      (∃ target ∈ reached, namesTarget subject target = true) ∨
        ∀ target ∈ targets, namesTarget subject target = false := by
  show (!targets.any (namesTarget subject) || reached.any (namesTarget subject)) = true ↔ _
  rw [Bool.or_eq_true, Bool.not_eq_true', any_eq_false, any_eq_true, or_comm]
  simp only [Bool.not_eq_true]

/-! ### Observing contracts -/

section Observing

variable {render : Renderings} {plan : ChangePlan} {now : Int} {events : List (Event world)}

/-- Each contract is observed, and contributes a result. -/
theorem observed_of_returns {contracts : List VerificationContract}
    {observed : List VerificationResult × List String}
    (h : Returns (observeContracts render plan now contracts) events observed) :
    ∀ contract ∈ contracts, ∃ observation,
      (⟨.observe contract, observation⟩ : Event world) ∈ events ∧
        buildResult render plan contract now observation ∈ observed.1 := by
  induction contracts generalizing events observed with
  | nil => simp
  | cons head rest ih =>
    rw [observeContracts, ask_bind] at h
    obtain ⟨observation, tail, rfl, htail⟩ := returns_call.1 h
    obtain ⟨seen, ⟨results, timedOut⟩, last, hseen, hlast, rfl⟩ := returns_bind.1 htail
    have hresults : observed.1 = buildResult render plan head now observation :: results := by
      cases observation <;> exact congrArg Prod.fst (returns_ret.1 hlast).2
    intro contract hcontract
    rw [hresults]
    rcases mem_cons.1 hcontract with rfl | hcontract
    · exact ⟨observation, mem_cons_self, mem_cons_self⟩
    · obtain ⟨other, hother, hresult⟩ := ih hseen contract hcontract
      exact ⟨other, by simp [hother], mem_cons_of_mem _ hresult⟩

theorem worseOf_eq_verified {a b : Verdict} :
    a.worseOf b = .verified ↔ a = .verified ∧ b = .verified := by
  cases a <;> cases b <;> decide

/-- Every result of a list that verifies contributes so. -/
theorem contribution_of_verdict {results : List VerificationResult}
    (h : verdict results = .verified) : ∀ result ∈ results, contribution result = .verified := by
  have hfold : ∀ (results : List VerificationResult) (verdict : Verdict),
      (results.map contribution).foldl Verdict.worseOf verdict = .verified →
        verdict = .verified ∧ ∀ result ∈ results, contribution result = .verified := by
    intro results
    induction results with
    | nil => exact fun verdict hverdict => ⟨hverdict, by simp⟩
    | cons result rest ih =>
      intro verdict hverdict
      obtain ⟨hworse, hrest⟩ := ih _ hverdict
      obtain ⟨hfirst, hresult⟩ := worseOf_eq_verified.1 hworse
      exact ⟨hfirst, forall_mem_cons.2 ⟨hresult, hrest⟩⟩
  exact (hfold results .verified h).2

/-- A required contract contributes a pass only if it was answered, and passed or was skipped: a
check that timed out or that nobody could make does not pass. -/
theorem answered_of_contribution {contract : VerificationContract} {observation : Observation}
    (hrequired : contract.class' = .required)
    (h : contribution (buildResult render plan contract now observation) = .verified) :
    ∃ status observed, (status = .passed ∨ status = .skipped) ∧
      observation = .answered status observed := by
  unfold contribution buildResult at h
  cases observation with
  | answered status observed =>
    simp only [hrequired] at h
    cases status with
    | passed => exact ⟨_, _, .inl rfl, rfl⟩
    | skipped => exact ⟨_, _, .inr rfl, rfl⟩
    | failed => cases h
    | unknown => cases h
  | timedOut =>
    simp only [hrequired, VerificationContract.timeoutStatus] at h
    split_ifs at h
  | unobservable refusal =>
    simp only [hrequired] at h
    cases h

end Observing

/-! ### The waves -/

variable {action : PlanAction}

section Waves

variable {render : Renderings} {request : ApplyRequest} {prior : Records}
  {mutating : List PlanAction} {events : List (Event world)}

variable {state state' : MutateState}

/-- A gate that verifies observed every required contract about what was reached, and each passed or
was skipped. -/
theorem answered_of_runGate {slice : List String}
    (h : Returns (runGate render request slice state) events (.verified, state')) :
    ∀ contract ∈ request.plan.verification.contracts, contract.class' = .required →
      aboutReached contract.subject (targetLabels request.plan) (state.reached ++ slice) = true →
      ∃ status observed, (status = .passed ∨ status = .skipped) ∧
        (⟨.observe contract, .answered status observed⟩ : Event world) ∈ events := by
  obtain ⟨first, ⟨results, timedOut⟩, last, hfirst, hlast, rfl⟩ := returns_bind.1 h
  obtain ⟨rfl, hresult⟩ := returns_ret.1 hlast
  have hverdict : verdict results = .verified := (congrArg Prod.fst hresult).symm
  intro contract hcontract hrequired habout
  obtain ⟨observation, hobserved, hbuilt⟩ := observed_of_returns hfirst contract
    (mem_filter.2 ⟨hcontract, by simp [hrequired, habout]⟩)
  obtain ⟨status, observed, hstatus, rfl⟩ := answered_of_contribution hrequired
    (contribution_of_verdict hverdict _ hbuilt)
  exact ⟨status, observed, hstatus, by simpa using hobserved⟩

variable {targets : List String}

/-- A gated wave that lets the run go on went through its targets and then through its gate, which
verified. -/
theorem returns_runWave_gated {wave : Wave} {run run' : StrategyRun} (hgated : wave.gated = true)
    (h : Returns (runWave render request prior mutating targets wave run state) events
      (run', state')) (hgoing : run'.stoppedAt = none) :
    ∃ submitted results mid observed,
      Returns (submitTargets request prior mutating (wave.slice targets) state) submitted
        (results, mid) ∧
      Returns (runGate render request (wave.slice targets) mid) observed (.verified, state') ∧
      events = submitted ++ observed ∧ run'.gateVerdict = some .verified := by
  obtain ⟨submitted, results, mid, observed, hsubmitted, rfl, hend⟩ := returns_runWave h
  rcases hend with ⟨-, -, -, rfl⟩ | ⟨-, -, verdict, hobserved, rfl⟩ | ⟨-, hungated, -⟩
  · cases hgoing
  · unfold StrategyRun.gatedBy at hgoing ⊢
    by_cases hverified : verdict = .verified
    · subst hverified
      exact ⟨submitted, results, mid, observed, hsubmitted, hobserved, rfl, rfl⟩
    · rw [if_neg hverified] at hgoing
      cases hgoing
  · rw [hgated] at hungated
    cases hungated

theorem covers_of_mem_schedule {plan : ChangePlan}
    (h : action ∈ schedule plan prior mutating targets) :
    ∃ target ∈ targets, actionCovers plan target action = true := by
  obtain ⟨target, htarget, haction⟩ := mem_flatMap.1 h
  exact ⟨target, htarget, (mem_filter.1 (mem_of_mem_filter haction)).2⟩

theorem covers_of_mem_executions {plan : ChangePlan} {done : List PlanAction}
    (hexecuted : executions events = allSucceeded done)
    (hscheduled : done ⊆ schedule plan prior mutating targets) :
    ∀ entry ∈ executions events, ∃ target ∈ targets, actionCovers plan target entry.1 = true := by
  intro entry hentry
  rw [hexecuted] at hentry
  obtain ⟨action, haction, rfl⟩ := mem_map.1 hentry
  exact covers_of_mem_schedule (hscheduled haction)

theorem reached_of_submitTargets {state : MutateState} {submitted : List TargetResult × MutateState}
    (h : Returns (submitTargets request prior mutating targets state) events submitted) :
    submitted.2.reached = state.reached := by
  refine submitTargets_invariant (P := fun _ mid => mid.reached = state.reached) [] ?_ rfl h
  intro action _ before events progress progress' _ hreached hrun
  rcases returns_runAction hrun with ⟨failure, -, rfl⟩ | ⟨_, outcome, _, -, -, -, rfl⟩
  · exact hreached
  · exact hreached

/-- **The gate between the canary and the rest.** After a gated wave, the waves that follow hand an
action over only if the gate verified. -/
theorem canaryGated_of_runWaves {wave : Wave} {waves : List Wave} {state : MutateState}
    (hgated : wave.gated = true) (hstop : state.stop = none) (hreached : state.reached = [])
    (h : Reaches (runWaves render request prior mutating targets (wave :: waves) .initial state)
      events (.execute action))
    (houtside : ∀ target ∈ wave.slice targets, actionCovers request.plan target action = false) :
    ∃ canary gate later, events = canary ++ (gate ++ later) ∧
      (∀ entry ∈ executions canary, ∃ target ∈ wave.slice targets,
        actionCovers request.plan target entry.1 = true) ∧
      executions gate = [] ∧
      (∀ entry ∈ executions later, ∃ target ∈ waves.flatMap (·.slice targets),
        actionCovers request.plan target entry.1 = true) ∧
      ∀ contract ∈ request.plan.verification.contracts, contract.class' = .required →
        aboutReached contract.subject (targetLabels request.plan) (wave.slice targets) = true →
        ∃ status observed, (status = .passed ∨ status = .skipped) ∧
          (⟨.observe contract, .answered status observed⟩ : Event world) ∈ gate := by
  rcases reaches_bind h with hfirst | ⟨first, ⟨run', state'⟩, later, hfirst, hlater, rfl⟩
  · obtain ⟨_, _, done, -, -, -, hearlier⟩ := (follows_runWave hstop).reaches hfirst
    obtain ⟨target, htarget, hcovers⟩ :=
      covers_of_mem_schedule (hearlier.subset (mem_append_right done mem_cons_self))
    rw [houtside target htarget] at hcovers
    cases hcovers
  dsimp only at hlater
  by_cases hstopped : run'.stoppedAt.isSome = true
  · rw [if_pos hstopped] at hlater
    exact absurd hlater not_reaches_ret
  rw [if_neg hstopped] at hlater
  have hgoing : run'.stoppedAt = none := by simpa using hstopped
  have hstate : state'.stop = none := by
    by_contra hsome
    exact (runWaves_of_stopped (by simpa [Option.isSome_iff_ne_none] using hsome)).1.not_reaches
      hlater
  obtain ⟨canary, results, mid, gate, hcanary, hgate, rfl, hverdict⟩ :=
    returns_runWave_gated hgated hfirst hgoing
  have hmid : mid.stop = none := by
    obtain ⟨seen, hseen⟩ := returns_runGate hgate
    exact (congrArg MutateState.stop hseen).symm.trans hstate
  have hexecuted := (follows_submitTargets hstop).returns hcanary (by simp [hmid])
  obtain ⟨before, started, done, rfl, hstarted, hdone, hearlier⟩ :=
    (follows_runWaves hstate ⟨hgoing, fun verdict hsome => by
      rw [hverdict] at hsome
      exact (Option.some.inj hsome).symm⟩).reaches hlater
  refine ⟨canary, gate, before ++ started, by rw [append_assoc],
    covers_of_mem_executions hexecuted (Subset.refl _),
    quiet_runGate.executions_eq_nil hgate, ?_, ?_⟩
  · rw [executions_append, quiet_startAction.executions_eq_nil hstarted, append_nil]
    exact covers_of_mem_executions hdone fun other hother =>
      hearlier.subset (mem_append_left _ hother)
  · intro contract hcontract hrequired habout
    refine answered_of_runGate hgate contract hcontract hrequired ?_
    rwa [reached_of_submitTargets hcanary, hreached, nil_append]

end Waves

/-! ### The apply -/

theorem slice_canary {α : Type} (first : Nat) (targets : List α) :
    (⟨0, min (max first 1) targets.length, true, 1⟩ : Wave).slice targets =
      targets.take (max 1 first) := by
  rw [Wave.slice, drop_zero, max_comm, take_eq_take_iff]
  simp

theorem slices_rest {α : Type} (first rest : Nat) (targets : List α) :
    (Strategy.wavesFrom rest 1 targets.length
      (targets.length - min (max first 1) targets.length)
      (min (max first 1) targets.length)).flatMap (·.slice targets) =
        targets.drop (max 1 first) := by
  rw [Strategy.wavesFrom_cover rest 1 targets _ _ le_rfl, max_comm]
  rcases le_total (max 1 first) targets.length with hle | hle
  · rw [min_eq_left hle]
  · rw [min_eq_right hle, drop_length, drop_eq_nil_of_le hle]

section Apply

variable {sha256 : Sha256} {render : Renderings} {request : ApplyRequest}
  {events : List (Event world)}

/-- A mutation that hands an action over does so in its waves. -/
theorem reaches_mutate {prior : Records} {prepared : Prepared} {report : PrepareReport}
    (h : Reaches (mutate render request prepared report prior) events (.execute action)) :
    ∃ order recorded waved, topologicalOrder request.plan.actions = .ok order ∧
      events = recorded ++ waved ∧ executions recorded = [] ∧
      Reaches (runWaves render request prior (mutatingActions request.plan order)
        (targetLabels request.plan)
        (request.plan.strategy.waves (targetLabels request.plan).length) .initial
        (.initial request.plan prepared prior)) waved (.execute action) := by
  rw [mutate] at h
  cases horder : topologicalOrder request.plan.actions with
  | error cycle =>
    rw [horder] at h
    exact absurd h not_reaches_ret
  | ok order =>
    rw [horder] at h
    rcases reaches_bind h with hrecord | ⟨recorded, _, after, hrecorded, hafter, rfl⟩
    · exact absurd hrecord quiet_recordPrepared.not_reaches
    rcases reaches_bind hafter with hwaves | ⟨waved, ⟨run, state⟩, last, -, hlast, rfl⟩
    · exact ⟨order, recorded, after, rfl, rfl, quiet_recordPrepared.executions_eq_nil hrecorded,
        hwaves⟩
    · have hquiet : Quiet (do
          let outcome ← concludeMutation render request prepared
            (mutatingActions request.plan order) report run state
          return (outcome, !state.lost)) := quiet_concludeMutation.bind fun _ => trivial
      exact absurd hlast hquiet.not_reaches

/-- **The canary gate holds.** An apply of a canary plan hands over an action that covers no target
of the canary only after the canary was changed and every required contract about it, or about no
target of the plan, was observed, and passed or was skipped. -/
theorem canaryGated_of_reaches {first rest : Nat} {action : PlanAction}
    (hstrategy : request.plan.strategy = .canary first rest)
    (h : Reaches (apply sha256 render request) events (.execute action))
    (houtside : ∀ target ∈ (targetLabels request.plan).take (max 1 first),
      actionCovers request.plan target action = false) :
    CanaryGated (fun status => status = .passed ∨ status = .skipped) request.plan first events := by
  obtain ⟨-, admitted, prior, prepared, report, persisted, mutated, -, hpreparatory, hmutated,
    rfl⟩ := reaches_apply h
  obtain ⟨order, recorded, waved, -, rfl, hrecorded, hwaved⟩ := reaches_mutate hmutated
  generalize hlabels : targetLabels request.plan = targets at hwaved houtside
  rw [hstrategy, Strategy.waves] at hwaved
  split_ifs at hwaved with hcount
  · have hslice := slice_canary first targets
    have hcover := slices_rest first rest targets
    obtain ⟨canary, gate, later, rfl, hcanary, hgate, hlater, hanswered⟩ :=
      canaryGated_of_runWaves (by rfl) rfl rfl hwaved (by rwa [hslice])
    rw [hslice] at hcanary hanswered
    rw [hcover] at hlater
    refine ⟨⟨.claim request.plan.id request.session request.now, .ok ()⟩ ::
      (admitted ++ persisted ++ recorded ++ canary), gate, later, by simp, ?_, hgate, ?_, ?_⟩
    · have hquiet : executions (admitted ++ persisted) = [] :=
        executions_eq_nil_of_isPreparatory hpreparatory
      have hopening : executions (⟨.claim request.plan.id request.session request.now, .ok ()⟩ ::
          (admitted ++ persisted ++ recorded ++ canary)) = executions canary := by
        show executions (admitted ++ persisted ++ recorded ++ canary) = executions canary
        rw [executions_append, executions_append, hquiet, hrecorded, nil_append,
          nil_append]
      rwa [hopening, hlabels]
    · rwa [hlabels]
    · rw [hlabels]
      intro contract hcontract hrequired habout
      exact hanswered contract hcontract hrequired (aboutReached_iff.2 (hlabels ▸ habout))
  · exact absurd hwaved not_reaches_ret

/-- A call that the mutation of an apply without protection reaches is reached by the apply. -/
theorem reaches_apply_of_mutate {prior : Records} {admitted mutated : List (Event world)}
    {call : Call} (hunclaimed : refusedUnclaimed sha256 render request = none)
    (hadmitted : Returns (admitRequest sha256 request) admitted (.ok (prior, .nothing, .initial)))
    (h : Reaches (mutate render request .nothing .initial prior) mutated call) :
    Reaches (apply sha256 render request)
      (⟨.claim request.plan.id request.session request.now, .ok ()⟩ :: (admitted ++
        (⟨.recordState request.plan.id request.plan.revision .applying, .ok ()⟩ :: mutated)))
      call := by
  have hprepared : Reaches (applyPrepared sha256 render request prior .nothing .initial)
      (⟨.recordState request.plan.id request.plan.revision .applying, .ok ()⟩ :: mutated) call := by
    obtain ⟨next, hpath⟩ := h.bind_left fun ended => if ended.2 = true then do
        writeState request ended.1.state
        return ended.1
      else return ended.1
    exact ⟨next, .cons hpath⟩
  have hclaimed : Reaches (applyClaimed sha256 render request) (admitted ++
      (⟨.recordState request.plan.id request.plan.revision .applying, .ok ()⟩ :: mutated)) call :=
    hadmitted.bind_reaches hprepared
  obtain ⟨next, hpath⟩ := hclaimed.bind_left fun outcome => do
    let _ ← ask (.release request.plan.id request.session)
    return outcome
  unfold apply
  rw [hunclaimed]
  exact ⟨next, .cons hpath⟩

end Apply

/-! ### A skipped check -/

namespace CanaryRun

variable (sha256 : Sha256) (render : Renderings)

/-- The one contract of the plan, about its canary. -/
def contract : VerificationContract :=
  .new sha256 (rolloutDraft sha256 render).id .required "db" "state == running"

/-- The rollout with the database as its canary. -/
def draft : ChangePlan :=
  { rolloutPlan sha256 render databaseId webId ["db", "web"] with
    strategy := .canary 1 1
    verification := { contracts := [contract sha256 render] } }

/-- A plan that is given its own digest. -/
def resealed (plan : ChangePlan) : ChangePlan :=
  { plan with digest := some (plan.computeDigest sha256 render) }

theorem digestHolds_resealed (plan : ChangePlan) :
    (resealed sha256 render plan).digestHolds sha256 render = true :=
  decide_eq_true rfl

/-- The rollout with the database as its canary, sealed. -/
def plan : ChangePlan :=
  resealed sha256 render (draft sha256 render)

/-- What happens before the waves: the claim, the records, the checks, and the state. -/
def opening : List (Event world) :=
  let plan := plan sha256 render
  [⟨.getRevision plan.id plan.revision, .ok plan⟩,
    ⟨.actionStatuses plan.id plan.revision, .ok ([] : Records)⟩,
    ⟨.revalidate (migrateAction sha256 render databaseId), .ok ([] : List DriftFinding)⟩,
    ⟨.revalidate (restartAction sha256 render webId databaseId), .ok ([] : List DriftFinding)⟩]

/-- The database is changed, its check answers with `status`, and the web service is started. -/
def waved (status : VerificationStatus) : List (Event world) :=
  let plan := plan sha256 render
  let database := migrateAction sha256 render databaseId
  let web := restartAction sha256 render webId databaseId
  [⟨.renew plan.id "session-1" 2, .ok ()⟩,
    ⟨.recordActionStatus plan.id plan.revision databaseId database.ordinal .running 2 none, .ok ()⟩,
    ⟨.execute database, .succeeded⟩,
    ⟨.recordActionStatus plan.id plan.revision databaseId database.ordinal .succeeded 2 none,
      .ok ()⟩,
    ⟨.observe (contract sha256 render), .answered status none⟩,
    ⟨.renew plan.id "session-1" 2, .ok ()⟩,
    ⟨.recordActionStatus plan.id plan.revision webId web.ordinal .running 2 none, .ok ()⟩]

theorem returns_opening :
    Returns (admitRequest sha256 (plainRequest (plan sha256 render))) (opening sha256 render)
      (.ok ([], .nothing, .initial)) :=
  .cons (.cons (.cons (.cons (.nil _))))

variable {status : VerificationStatus}

theorem reaches_waves (h : status = .passed ∨ status = .skipped) :
    Reaches (runWaves render (plainRequest (plan sha256 render)) []
      (mutatingActions (plan sha256 render) [0, 1]) (targetLabels (plan sha256 render))
      ((plan sha256 render).strategy.waves (targetLabels (plan sha256 render)).length) .initial
      (.initial (plan sha256 render) .nothing [])) (waved sha256 render status)
      (.execute (restartAction sha256 render webId databaseId)) := by
  rcases h with rfl | rfl
  · exact ⟨_, .cons (.cons (.cons (.cons (.cons (.cons (.cons (.nil _)))))))⟩
  · exact ⟨_, .cons (.cons (.cons (.cons (.cons (.cons (.cons (.nil _)))))))⟩

theorem topologicalOrder_plan : topologicalOrder (plan sha256 render).actions = .ok [0, 1] :=
  @topologicalOrder_rolloutPlan sha256 render databaseId webId ["db", "web"]

theorem refusedUnclaimed_plan :
    refusedUnclaimed sha256 render (plainRequest (plan sha256 render)) = none := by
  have hdigest : (plan sha256 render).digestHolds sha256 render = true :=
    digestHolds_resealed sha256 render (draft sha256 render)
  have hstate : (plan sha256 render).state = .sealed := rfl
  have happliable : appliability (plan sha256 render) .sealed 2 false = none := rfl
  simp [refusedUnclaimed, plainRequest, hstate, hdigest, happliable]

/-- An apply of the plan in which its check answers with `status`. -/
def events (status : VerificationStatus) : List (Event world) :=
  ⟨.claim (plan sha256 render).id "session-1" 2, .ok ()⟩ :: (opening sha256 render ++
    (⟨.recordState (plan sha256 render).id 1 .applying, .ok ()⟩ :: waved sha256 render status))

theorem reaches_events (h : status = .passed ∨ status = .skipped) :
    Reaches (apply sha256 render (plainRequest (plan sha256 render))) (events sha256 render status)
      (.execute (restartAction sha256 render webId databaseId)) := by
  refine reaches_apply_of_mutate (refusedUnclaimed_plan sha256 render)
    (returns_opening sha256 render) ?_
  unfold mutate
  rw [show (plainRequest (plan sha256 render)).plan = plan sha256 render from rfl,
    topologicalOrder_plan]
  have hrecorded := (calmly_recordPrepared_nothing (plainRequest (plan sha256 render))
    (plan sha256 render).actions).1
  exact hrecorded.bind_reaches ((reaches_waves sha256 render h).bind_left _)

theorem status_of_mem_events {status other : VerificationStatus} {checked : VerificationContract}
    {observed : Option Value}
    (h : (⟨.observe checked, .answered other observed⟩ : Event world) ∈
      events sha256 render status) : other = status := by
  simp only [events, opening, waved, mem_cons, mem_append, not_mem_nil, or_false,
    Sigma.mk.injEq, reduceCtorEq, false_and, false_or, Call.observe.injEq] at h
  obtain ⟨rfl, hanswer⟩ := h
  cases hanswer
  rfl

theorem outside_web : ∀ target ∈ (targetLabels (plan sha256 render)).take (max 1 1),
    actionCovers (plan sha256 render) target (restartAction sha256 render webId databaseId) =
      false := by
  intro target htarget
  have hdatabase : target ∈ ["db"] := htarget
  rw [mem_singleton.1 hdatabase]
  rfl

end CanaryRun

theorem canaryGated_rollout :
    (∀ sha256 render, (CanaryRun.plan sha256 render).strategy = .canary 1 1) ∧
      ∀ sha256 render, CanaryGated (fun status => status = .passed ∨ status = .skipped)
        (CanaryRun.plan sha256 render) 1 (CanaryRun.events sha256 render .passed) :=
  ⟨fun _ _ => rfl, fun sha256 render => canaryGated_of_reaches rfl
    (CanaryRun.reaches_events sha256 render (.inl rfl)) (CanaryRun.outside_web sha256 render)⟩

/-- **A skipped check counts as a pass.** Whatever the hash function is, the rest of a plan is
changed although the check of its canary did not pass: it was skipped. -/
theorem not_canaryGated_skipped :
    ¬ ∃ (sha256 : Sha256) (render : Renderings), ∀ request first rest events action,
      request.plan.strategy = .canary first rest →
        Reaches (apply sha256 render request) events (.execute action) →
          (∀ target ∈ (targetLabels request.plan).take (max 1 first),
            actionCovers request.plan target action = false) →
          CanaryGated (· = .passed) request.plan first events := by
  rintro ⟨sha256, render, h⟩
  obtain ⟨canary, gate, later, hevents, -, -, -, hanswered⟩ := h _ 1 1 _ _ rfl
    (CanaryRun.reaches_events sha256 render (.inr rfl)) (CanaryRun.outside_web sha256 render)
  obtain ⟨status, observed, rfl, hgate⟩ := hanswered (CanaryRun.contract sha256 render)
    mem_cons_self rfl (.inl ⟨"db", mem_cons_self, by
      simp [namesTarget, CanaryRun.contract, VerificationContract.new]⟩)
  have hmem : (⟨.observe (CanaryRun.contract sha256 render), .answered .passed observed⟩ :
      Event world) ∈ CanaryRun.events sha256 render .skipped := by
    rw [hevents]
    exact mem_append_right _ (mem_append_left _ hgate)
  cases CanaryRun.status_of_mem_events sha256 render hmem

end OnoSendai
