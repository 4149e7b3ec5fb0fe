import OnoSendai.Executor.Prepare

/-!
# Mutation and verification

The mutating actions of a plan run in dependency order inside each target, target by target, in
the waves the plan's strategy partitions the targets into. Each action is claimed and recorded as
running before it starts and recorded again when it settles. The contracts are observed at a
gated wave and after the last one.
-/

namespace OnoSendai

open Interaction

/-! ### Observing contracts -/

/-- What observing a contract contributes to the verification. -/
def buildResult (render : Renderings) (plan : ChangePlan) (contract : VerificationContract)
    (now : Int) (observation : Observation) : VerificationResult :=
  let result (status : VerificationStatus) (observed : Option Value) (detail : Option String) :
      VerificationResult :=
    { plan := plan.id
      check := contract.id
      class' := contract.class'
      subject := contract.subject
      expression := contract.expression
      status := status
      observed := observed
      expected := contract.expected
      evidence := []
      detail := detail
      equivalence := contract.equivalence
      at' := now }
  match observation with
  | .answered status observed => result status observed none
  | .timedOut =>
    result contract.timeoutStatus none
      (some ("the check did not answer within " ++ render.duration contract.timeout ++ " (§23.5)"))
  | .unobservable refusal => result .unknown none (some refusal.message)

/-- Observes contracts in order: their results, and the subjects of those that timed out. -/
def observeContracts (render : Renderings) (plan : ChangePlan) (now : Int) :
    List VerificationContract → Program world (List VerificationResult × List String)
  | [] => return ([], [])
  | contract :: rest => do
    let observation ← ask (.observe contract)
    let (results, timedOut) ← observeContracts render plan now rest
    let result := buildResult render plan contract now observation
    match observation with
    | .timedOut => return (result :: results, contract.subject :: timedOut)
    | _ => return (result :: results, timedOut)

/-- The refusal for a plan whose required postconditions did not hold. -/
def verificationRefusal (plan : ChangePlan) (results : List VerificationResult)
    (recovery : Bool) : ErrorValue :=
  if recovery then
    .recoveryVerificationFailed
  else
    .verificationFailed plan.id ((results.filter fun result =>
        result.class' = .required && result.status ≠ .passed).map fun result =>
      result.subject ++ ": " ++ result.expression)

/-- What verification established. -/
structure VerifyOutcome where
  results : List VerificationResult
  verdict : Verdict
  failurePoint : Option FailurePoint
  error : Option ErrorValue
  timedOut : List String

/-- The state a verdict gives the plan, on the recovery branch where `recovery`. -/
def VerifyOutcome.stateFor (outcome : VerifyOutcome) (recovery : Bool) : PlanState :=
  match recovery, outcome.verdict with
  | true, .verified => .recoveryVerified
  | true, .degraded | true, .failed => .recoveryFailed
  | false, .verified => .verified
  | false, .degraded => .degraded
  | false, .failed => .failed

/-- Observes every contract the plan carries and composes the verdict. -/
def verify (render : Renderings) (plan : ChangePlan) (now : Int) :
    Program world VerifyOutcome := do
  let (results, timedOut) ← observeContracts render plan now plan.verification.contracts
  let verdict := VerificationSet.verdict results
  let recovery := plan.kind = .recovery
  let failurePoint :=
    if verdict = .verified then none
    else if !timedOut.isEmpty then some FailurePoint.verificationTimeout
    else if recovery then some .recoveryVerification
    else some .requiredVerification
  return {
    results := results
    verdict := verdict
    failurePoint := failurePoint
    error := failurePoint.map fun _ => verificationRefusal plan results recovery
    timedOut := timedOut }

/-! ### The state of a mutation -/

/-- What a mutation knows so far. -/
structure MutateState where
  statuses : List (ActionId × ActionStatus)
  stop : Option (FailurePoint × ErrorValue × ActionId)
  lost : Bool
  executed : Bool
  gateResults : List VerificationResult
  reached : List String

/-- Sets what is known about one action. -/
def setStatus (action : ActionId) (status : ActionStatus) :
    List (ActionId × ActionStatus) → List (ActionId × ActionStatus)
  | [] => []
  | (id, old) :: rest =>
    if id = action then (id, status) :: rest else (id, old) :: setStatus action status rest

/-- Whether an action is one of the mutating actions a target's wave runs: it names the target,
or names none and the target is the plan's first. -/
def actionCovers (plan : ChangePlan) (target : String) (action : PlanAction) : Bool :=
  match action.target with
  | some named => named = target
  | none => plan.targets.head?.any (·.identity = target)

/-- Whether the action's frozen target lives on another host. -/
def isRemote (plan : ChangePlan) (action : PlanAction) : Bool :=
  action.target.any fun identity =>
    plan.targets.any fun target => target.identity = identity && target.host.isSome

/-- The state after an action could not be started. -/
def MutateState.notStarted (state : MutateState) (action : PlanAction) (failure : ErrorValue) :
    MutateState :=
  { state with
    lost := state.lost || failure.code = .changePlanAlreadyApplying
    stop := some (.actionNotStarted, failure, action.id) }

/-- The state when an action has been handed over for execution. -/
def MutateState.started (state : MutateState) (action : PlanAction) : MutateState :=
  { state with
    statuses := setStatus action.id .running state.statuses
    executed := true }

/-- The state after an action settled. -/
def MutateState.settled (state : MutateState) (plan : ChangePlan) (action : PlanAction)
    (outcome : ExecutionOutcome) : MutateState :=
  let statuses := setStatus action.id outcome.status state.statuses
  let stop :=
    match outcome with
    | .succeeded => state.stop
    | .failed refusal =>
      let point := if statuses.any (·.2 = .succeeded) then FailurePoint.middleMutateAction
        else .firstMutateAction
      some (point, refusal, action.id)
    | .unknown refusal =>
      let point := if isRemote plan action then FailurePoint.remoteDisconnect
        else .unknownOutcome
      some (point, refusal, action.id)
  { state with statuses, stop }

/-! ### The three loops -/

section Loops

variable (render : Renderings) (request : ApplyRequest)

/-- Claims and records an action before it starts. -/
def startAction (action : PlanAction) : Program world (Except ErrorValue Unit) := do
  let instant ← request.stamp
  match ← ask (.renew request.plan.id request.session instant) with
  | .error refusal => return .error refusal
  | .ok () =>
    let instant ← request.stamp
    ask (.recordActionStatus request.plan.id request.plan.revision action.id action.ordinal
      .running instant none)

/-- Records what an action settled at. A record that could not be written is kept beside the
outcome and stops nothing. -/
def recordSettled (action : PlanAction) (outcome : ExecutionOutcome) : Program world Unit := do
  let instant ← request.stamp
  let _ ← ask (.recordActionStatus request.plan.id request.plan.revision action.id action.ordinal
    outcome.status instant (outcome.error.map (·.message)))
  return ()

/-- Carries an action out and records what it settled at. -/
def executeAction (action : PlanAction) (state : MutateState) :
    Program world (ExecutionOutcome × MutateState) := do
  let outcome : ExecutionOutcome ← ask (.execute action)
  recordSettled request action outcome
  return (outcome, (state.started action).settled request.plan action outcome)

/-- What running one target's actions established so far. -/
structure TargetProgress where
  state : MutateState
  status : ActionStatus
  failure : Option ErrorValue

/-- Starts an action and carries it out. Where it could not be started it does not run. -/
def runAction (action : PlanAction) (progress : TargetProgress) : Program world TargetProgress := do
  match ← startAction request action with
  | .error failure =>
    return {
      state := progress.state.notStarted action failure
      status := .skipped
      failure := some failure }
  | .ok () =>
    let (outcome, state) ← executeAction request action progress.state
    return {
      state := state
      status := outcome.status
      failure := outcome.error.or progress.failure }

/-- Runs the actions of one target in order, up to the first that stops the run. An action the
records already show succeeded is not run again. -/
def runActions (prior : Records) :
    List PlanAction → TargetProgress → Program world TargetProgress
  | [], progress => return progress
  | action :: rest, progress =>
    if progress.state.stop.isSome then
      return progress
    else if prior.get action.id = some .succeeded then
      runActions prior rest { progress with status := .succeeded }
    else do
      let progress ← runAction request action progress
      runActions prior rest progress

/-- What running one target's mutating actions established. -/
structure TargetResult where
  target : String
  status : ActionStatus
  error : Option ErrorValue

/-- Whether a target's result stops the run. -/
def TargetResult.stopsTheRun (result : TargetResult) : Bool :=
  result.status = .failed || result.status = .unknown

/-- Runs the targets of a wave in order, up to the first that stops the run. -/
def submitTargets (prior : Records) (mutating : List PlanAction) :
    List String → MutateState → Program world (List TargetResult × MutateState)
  | [], state => return ([], state)
  | target :: rest, state =>
    if state.stop.isSome then
      return ([], state)
    else do
      let progress ← runActions request prior
        (mutating.filter (actionCovers request.plan target)) ⟨state, .skipped, none⟩
      let (results, state) ← submitTargets prior mutating rest progress.state
      return (⟨target, progress.status, progress.failure⟩ :: results, state)

/-- Whether a contract about `subject` belongs to a batch that has run: it names no target of the
plan, or one that a wave has reached. -/
def aboutReached (subject : String) (targets reached : List String) : Bool :=
  let names (target : String) : Bool :=
    subject = target || (" " ++ target).toList.isSuffixOf subject.toList
  !targets.any names || reached.any names

/-- Observes the required contracts of what the waves so far have reached. -/
def runGate (targets : List String) (state : MutateState) :
    Program world (Verdict × MutateState) := do
  let reached := state.reached ++ targets
  let required := request.plan.verification.contracts.filter fun contract =>
    contract.class' = .required &&
      aboutReached contract.subject (targetLabels request.plan) reached
  let (results, _) ← observeContracts render request.plan request.now required
  return (VerificationSet.verdict results,
    { state with reached, gateResults := state.gateResults ++ results })

/-- What one strategy run did, and to which targets. -/
structure StrategyRun where
  results : List TargetResult
  touched : List String
  untouched : List String
  wavesRun : Nat
  stoppedAt : Option Nat
  gateVerdict : Option Verdict
  widestWave : Nat

/-- The run before the first wave. -/
def StrategyRun.initial : StrategyRun where
  results := []
  touched := []
  untouched := []
  wavesRun := 0
  stoppedAt := none
  gateVerdict := none
  widestWave := 0

/-- The run after the results of one wave came in. -/
def StrategyRun.collect (run : StrategyRun) (slice : List String) (results : List TargetResult) :
    StrategyRun :=
  let reported := results.map (·.target)
  { run with
    results := run.results ++ results
    touched := run.touched ++ (results.filter (·.status ≠ .skipped)).map (·.target)
    untouched := run.untouched ++ (results.filter (·.status = .skipped)).map (·.target) ++
      slice.filter (· ∉ reported)
    wavesRun := run.wavesRun + 1
    widestWave := max run.widestWave slice.length }

/-- The run stopped at a wave: everything after it is untouched. -/
def StrategyRun.stopAt (run : StrategyRun) (index : Nat) (rest : List String) : StrategyRun :=
  { run with stoppedAt := some index, untouched := run.untouched ++ rest }

/-- Runs one wave: its targets, and where it is gated the contracts of what was reached. -/
def runWave (prior : Records) (mutating : List PlanAction) (targets : List String) (wave : Wave)
    (run : StrategyRun) (state : MutateState) : Program world (StrategyRun × MutateState) := do
  let slice := wave.slice targets
  let rest := targets.drop (wave.start + wave.len)
  let (results, state) ← submitTargets request prior mutating slice state
  let run := run.collect slice results
  if results.any (·.stopsTheRun) then
    return (run.stopAt (run.wavesRun - 1) rest, state)
  else if wave.gated then do
    let (verdict, state) ← runGate render request slice state
    let run := { run with gateVerdict := some verdict }
    if verdict = .verified then
      return (run, state)
    else
      return (run.stopAt (run.wavesRun - 1) rest, state)
  else
    return (run, state)

/-- Runs the waves in order, up to the first that stops the run or whose gate does not verify. -/
def runWaves (prior : Records) (mutating : List PlanAction) (targets : List String) :
    List Wave → StrategyRun → MutateState → Program world (StrategyRun × MutateState)
  | [], run, state => return (run, state)
  | wave :: waves, run, state => do
    let (run, state) ← runWave render request prior mutating targets wave run state
    if run.stoppedAt.isSome then return (run, state)
    else runWaves prior mutating targets waves run state

end Loops

/-! ### The mutation of a plan -/

/-- Whether an action planned one of the assets preparation created. -/
def isPrepared (prepared : Prepared) (action : PlanAction) : Bool :=
  action.role = .prepare &&
    action.target.any fun target => target ∈ prepared.assets.map (·.scope.domain)

/-- What is known about each action before the first one runs. -/
def initialStatuses (plan : ChangePlan) (prepared : Prepared) (prior : Records) :
    List (ActionId × ActionStatus) :=
  plan.actions.map fun action =>
    (action.id,
      if isPrepared prepared action then .succeeded else (prior.get action.id).getD .pending)

/-- The state of a mutation before the first action runs. -/
def MutateState.initial (plan : ChangePlan) (prepared : Prepared) (prior : Records) :
    MutateState where
  statuses := initialStatuses plan prepared prior
  stop := none
  lost := false
  executed := false
  gateResults := []
  reached := []

/-- Records the prepare actions whose assets exist as succeeded. -/
def recordPrepared (request : ApplyRequest) (prepared : Prepared) :
    List PlanAction → Program world Unit
  | [] => return ()
  | action :: rest => do
    if isPrepared prepared action then do
      let instant ← request.stamp
      let _ ← ask (.recordActionStatus request.plan.id request.plan.revision action.id
        action.ordinal .succeeded instant none)
      recordPrepared request prepared rest
    else
      recordPrepared request prepared rest

/-- The mutating actions of a plan, in the order of its topological sort. -/
def mutatingActions (plan : ChangePlan) (order : List Nat) : List PlanAction :=
  (order.filterMap (plan.actions[·]?)).filter (·.role.mutatesTarget)

/-- One pass over the actions, adding those that depend on a blocked one. -/
def growBlocked (actions : List PlanAction) (blocked : List ActionId) : List ActionId :=
  actions.foldl (fun blocked action =>
    if action.id ∉ blocked ∧ action.dependsOn.any (· ∈ blocked) then blocked ++ [action.id]
    else blocked) blocked

/-- Everything that transitively depends on an action. A pass that adds nothing ends the search,
and every other pass adds an action. -/
def dependentsOf (actions : List PlanAction) (failed : ActionId) : List ActionId :=
  ((growBlocked actions)^[actions.length] [failed]).filter (· ≠ failed)

/-- The refusal for a mutating action that failed, or for one nobody could resolve. -/
def applyRefusal (plan : ChangePlan) (point : FailurePoint) (cause : ErrorValue)
    (untouched : List String) (recovery : Bool) : ErrorValue :=
  match point with
  | .remoteDisconnect | .unknownOutcome =>
    if cause.code = .changeRemoteStateUnknown then cause
    else .remoteStateUnknown (untouched.head?.getD "this host") cause.message
  | _ =>
    if recovery then .recoveryApplyFailed point.asStr else .applyFailed plan.id point.asStr

/-- The assets an apply keeps: the validated ones, and those that exist and did not validate. -/
def keptAssets (prepared : Prepared) : List RecoveryAsset :=
  prepared.assets ++ prepared.shortfall.filterMap (·.asset)

/-- The state a plan is left in when an action could not be started. -/
def notStartedState (plan : ChangePlan) (prepared : Prepared) (mutating : List PlanAction)
    (statuses : List (ActionId × ActionStatus)) : PlanState :=
  let began := mutating.any fun action =>
    (statuses.lookup action.id).any (·.mayHaveMutated)
  if began then
    if plan.kind = .recovery then .recoveryFailed else .applyFailed
  else if !prepared.assets.isEmpty then .protected'
  else if plan.state.isAppliable then plan.state
  else .sealed

section Mutate

variable (render : Renderings) (request : ApplyRequest)

/-- The outcome once the waves have run, before it says how they ended. -/
def mutateOutcome (prepared : Prepared) (report : PrepareReport) (run : StrategyRun)
    (state : MutateState) : ApplyOutcome :=
  let blocked := (state.stop.map fun (_, _, failed) =>
    dependentsOf request.plan.actions failed).getD []
  let statuses := state.statuses.map fun (id, status) =>
    (id, if status = .pending && decide (id ∈ blocked) then .skipped else status)
  { state := .applying
    statuses := statuses
    assets := keptAssets prepared
    retained := (keptAssets prepared).map (·.id)
    verification := state.gateResults
    touched := run.touched
    untouched := run.untouched
    uncertain := (statuses.filter (·.2 = .unknown)).map (·.1)
    failurePoint := none
    error := none
    quiesce := report.quiesceReport
    cleanup := report.cleanupReport
    shortfall := prepared.shortfall
    executed := state.executed }

/-- The outcome of a mutation that an action stopped. -/
def stoppedOutcome (prepared : Prepared) (mutating : List PlanAction) (outcome : ApplyOutcome)
    (point : FailurePoint) (refusal : ErrorValue) : ApplyOutcome :=
  let recovery := request.plan.kind = .recovery
  match point with
  | .actionNotStarted =>
    { outcome with
      failurePoint := some .actionNotStarted
      state := notStartedState request.plan prepared mutating outcome.statuses
      error := some refusal }
  | .remoteDisconnect | .unknownOutcome =>
    { outcome with
      failurePoint := some point
      state := .applying
      error := some (applyRefusal request.plan point refusal outcome.untouched recovery) }
  | _ =>
    { outcome with
      failurePoint := some point
      state := if recovery then .recoveryFailed else .applyFailed
      error := some (applyRefusal request.plan point refusal outcome.untouched recovery) }

/-- The outcome of a mutation whose gate did not verify. -/
def gatedOutcome (outcome : ApplyOutcome) (verdict : Verdict) : ApplyOutcome :=
  let recovery := request.plan.kind = .recovery
  { outcome with
    failurePoint := some .requiredVerification
    state :=
      if recovery then .recoveryFailed
      else if verdict = .failed then .failed
      else .degraded
    error := some (verificationRefusal request.plan outcome.verification recovery) }

/-- The outcome of a mutation that ran to its end and was verified. -/
def verifiedOutcome (outcome : ApplyOutcome) (verification : VerifyOutcome) : ApplyOutcome :=
  { outcome with
    verification := verification.results
    state := verification.stateFor (request.plan.kind = .recovery)
    failurePoint := verification.failurePoint
    error := verification.error }

/-- Ends a mutation: says how the waves ended, and verifies where they ran to their end. -/
def concludeMutation (prepared : Prepared) (mutating : List PlanAction) (report : PrepareReport)
    (run : StrategyRun) (state : MutateState) : Program world ApplyOutcome :=
  let outcome := mutateOutcome request prepared report run state
  match state.stop, run.gateVerdict with
  | some (point, refusal, _), _ =>
    return stoppedOutcome request prepared mutating outcome point refusal
  | none, some .degraded => return gatedOutcome request outcome .degraded
  | none, some .failed => return gatedOutcome request outcome .failed
  | none, _ => do
    let verification ← verify render request.plan request.now
    return verifiedOutcome request outcome verification

/-- Runs the mutating actions of a plan by its strategy, then verifies it. The flag says whether
the session still holds its claim. -/
def mutate (prepared : Prepared) (report : PrepareReport) (prior : Records) :
    Program world (ApplyOutcome × Bool) :=
  match topologicalOrder request.plan.actions with
  | .error cycle =>
    return ({ refused request.plan .planState (.actionGraphCyclic request.plan.id cycle) with
      assets := prepared.assets }, true)
  | .ok order => do
    recordPrepared request prepared request.plan.actions
    let mutating := mutatingActions request.plan order
    let targets := targetLabels request.plan
    let (run, state) ← runWaves render request prior mutating targets
      (request.plan.strategy.waves targets.length) .initial
      (.initial request.plan prepared prior)
    let outcome ← concludeMutation render request prepared mutating report run state
    return (outcome, !state.lost)

end Mutate

end OnoSendai
