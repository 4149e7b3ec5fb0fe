import OnoSendai.Executor.Mutate

/-!
# The order in which a mutation runs its actions

The three loops of a mutation hand actions over one after another. Flattened, what they go
through is one list: target by target, the mutating actions each target covers, less those the
records already show succeeded. A run executes a prefix of that list, in order, and reaches an
action only when every one before it came back succeeded.
-/

namespace OnoSendai

open Interaction List Program StrategyRun

/-! ### Executions -/

/-- What one event contributes to the executions: an action handed over, and its outcome. -/
def execution : Event world → Option (PlanAction × ExecutionOutcome)
  | ⟨.execute action, outcome⟩ => some (action, outcome)
  | _ => none

/-- The actions that were handed over for execution, with what they came back as, in order. -/
def executions (events : List (Event world)) : List (PlanAction × ExecutionOutcome) :=
  events.filterMap execution

@[simp]
theorem executions_nil : executions [] = [] :=
  rfl

@[simp]
theorem executions_append (before after : List (Event world)) :
    executions (before ++ after) = executions before ++ executions after :=
  filterMap_append

@[simp]
theorem executions_execute (action : PlanAction) (outcome : ExecutionOutcome)
    (events : List (Event world)) :
    executions (⟨.execute action, outcome⟩ :: events) = (action, outcome) :: executions events :=
  rfl

variable {action : PlanAction} {outcome : ExecutionOutcome}

theorem execution_eq_some {event : Event world} :
    execution event = some (action, outcome) ↔ event = ⟨.execute action, outcome⟩ := by
  constructor
  · intro h
    unfold execution at h
    split at h
    · cases h
      rfl
    · cases h
  · rintro rfl
    rfl

variable {events : List (Event world)}

theorem mem_executions : (action, outcome) ∈ executions events ↔
      (⟨.execute action, outcome⟩ : Event world) ∈ events := by
  simp [executions, mem_filterMap, execution_eq_some]

/-- Whether a call does not hand an action over for execution. -/
def Call.isQuiet : Call → Bool
  | execute _ => false
  | _ => true

/-- A program that hands nothing over for execution, whatever it is answered. -/
abbrev Quiet {α : Type} (program : Program world α) : Prop :=
  Within (S := world) (fun call : Call => call.isQuiet = true) program

theorem execution_eq_none {event : Event world} (h : event.1.isQuiet = true) :
    execution event = none := by
  obtain ⟨call, answer⟩ := event
  cases call <;> simp_all [execution, Call.isQuiet]

theorem Quiet.executions_eq_nil {α : Type} {program rest : Program world α} (h : Quiet program)
    (hpath : Path program events rest) : executions events = [] :=
  filterMap_eq_nil_iff.2 fun _ hevent => execution_eq_none (h.of_mem hpath hevent)

theorem Quiet.not_reaches {α : Type} {program : Program world α} (h : Quiet program) :
    ¬ Reaches program events (.execute action) := by
  intro hreach
  exact absurd (h.of_reaches hreach) (by simp [Call.isQuiet])

/-! ### Starting and executing one action -/

variable {state : MutateState}

variable {state state' : MutateState}

section Action

variable {request : ApplyRequest} {action : PlanAction} {events : List (Event world)}

theorem quiet_stamp : Quiet request.stamp := by
  rw [ApplyRequest.stamp]
  split_ifs
  · exact ⟨rfl, fun _ => trivial⟩
  · trivial

theorem quiet_startAction : Quiet (startAction request action) := by
  refine quiet_stamp.bind fun instant => ⟨rfl, fun answer => ?_⟩
  cases answer with
  | error refusal => trivial
  | ok => exact quiet_stamp.bind fun instant => ⟨rfl, fun _ => trivial⟩

theorem quiet_recordSettled (outcome : ExecutionOutcome) :
    Quiet (recordSettled request action outcome) :=
  quiet_stamp.bind fun _ => ⟨rfl, fun _ => trivial⟩

theorem returns_executeAction
    (h : Returns (executeAction request action state) events (outcome, state')) :
    ∃ recorded, events = ⟨.execute action, outcome⟩ :: recorded ∧
      Returns (recordSettled request action outcome) recorded () ∧
      state' = (state.started action).settled request.plan action outcome := by
  rw [executeAction, ask_bind] at h
  obtain ⟨answer, tail, rfl, htail⟩ := returns_call.1 h
  obtain ⟨recorded, _, after, hrecorded, hafter, rfl⟩ := returns_bind.1 htail
  obtain ⟨rfl, hret⟩ := returns_ret.1 hafter
  cases hret
  exact ⟨recorded, by simp, hrecorded, rfl⟩

theorem reaches_executeAction {other : PlanAction}
    (h : Reaches (executeAction request action state) events (.execute other)) :
    events = [] ∧ other = action := by
  rw [executeAction, ask_bind] at h
  rcases reaches_call.1 h with ⟨rfl, hop⟩ | ⟨outcome, tail, rfl, htail⟩
  · cases hop
    exact ⟨rfl, rfl⟩
  · have hquiet : Quiet (do
        recordSettled request action outcome
        return (outcome, (state.started action).settled request.plan action outcome)) :=
      (quiet_recordSettled outcome).bind fun _ => trivial
    exact absurd htail hquiet.not_reaches

end Action

/-! ### Following a list of actions -/

/-- The executions of actions that all succeeded. -/
def allSucceeded (actions : List PlanAction) : List (PlanAction × ExecutionOutcome) :=
  actions.map fun action => (action, .succeeded)

/-- A program executes the actions of `todo` in order. It reaches an action, right after starting
it, only when every action before it came back succeeded, and returns without having `stopped`
only when all of them did. -/
structure Follows {α : Type} (request : ApplyRequest) (todo : List PlanAction)
    (stopped : α → Prop) (program : Program world α) : Prop where
  reaches : ∀ {events : List (Event world)} {action : PlanAction},
    Reaches program events (.execute action) →
      ∃ before started done, events = before ++ started ∧
        Returns (startAction request action) started (.ok ()) ∧
        executions before = allSucceeded done ∧ done ++ [action] <+: todo
  returns : ∀ {events : List (Event world)} {result : α},
    Returns program events result → ¬ stopped result → executions events = allSucceeded todo

namespace Follows

variable {α β : Type} {request : ApplyRequest} {todo : List PlanAction} {stopped : α → Prop}
  {program : Program world α}

theorem of_quiet (h : Quiet program) : Follows request [] stopped program where
  reaches hreach := absurd hreach h.not_reaches
  returns hret _ := h.executions_eq_nil hret

theorem of_stops (h : Quiet program)
    (hstop : ∀ events result, Returns program events result → stopped result) :
    Follows request todo stopped program where
  reaches hreach := absurd hreach h.not_reaches
  returns hret hgo := absurd (hstop _ _ hret) hgo

variable {f : α → Program world β}

/-- **Sequencing.** A program that follows a list, and then one that follows another unless the
first stopped, follow the two lists one after the other. -/
theorem bind {more : List PlanAction} {stopped' : β → Prop}
    (h : Follows request todo stopped program)
    (hgo : ∀ events result, Returns program events result → ¬ stopped result →
      Follows request more stopped' (f result))
    (hstop : ∀ events result, Returns program events result → stopped result →
      Quiet (f result) ∧ ∀ events result', Returns (f result) events result' → stopped' result') :
    Follows request (todo ++ more) stopped' (program >>= f) where
  reaches {events action} hreach := by
    rcases reaches_bind hreach with hfirst | ⟨first, mid, second, hmid, hsecond, rfl⟩
    · obtain ⟨before, started, done, hevents, hstart, hdone, hlt⟩ := h.reaches hfirst
      exact ⟨before, started, done, hevents, hstart, hdone, hlt.trans (prefix_append _ _)⟩
    · by_cases hs : stopped mid
      · exact absurd hsecond (hstop _ mid hmid hs).1.not_reaches
      · obtain ⟨before, started, done, rfl, hstart, hdone, hlt⟩ := (hgo _ mid hmid hs).reaches hsecond
        refine ⟨first ++ before, started, todo ++ done, by simp, hstart, ?_, ?_⟩
        · rw [executions_append, h.returns hmid hs, hdone, allSucceeded, allSucceeded, allSucceeded,
            map_append]
        · rw [append_assoc]
          exact (prefix_append_right_inj _).2 hlt
  returns {events result} hret hs := by
    obtain ⟨first, mid, second, hmid, hsecond, rfl⟩ := returns_bind.1 hret
    by_cases hmidStop : stopped mid
    · exact absurd ((hstop _ mid hmid hmidStop).2 _ _ hsecond) hs
    · rw [executions_append, h.returns hmid hmidStop, (hgo _ mid hmid hmidStop).returns hsecond hs,
        allSucceeded, allSucceeded, allSucceeded, map_append]

theorem bind_quiet {stopped' : β → Prop} (h : Follows request todo stopped program)
    (hf : ∀ result, Quiet (f result))
    (hstop : ∀ result, stopped result → ∀ events result',
      Returns (f result) events result' → stopped' result') :
    Follows request todo stopped' (program >>= f) := by
  rw [← append_nil todo]
  exact h.bind (fun _ result _ _ => of_quiet (hf result)) fun _ result _ hs =>
    ⟨hf result, hstop result hs⟩

end Follows

/-! ### The loops follow the schedule -/

/-- The actions that the records do not already show succeeded. -/
def pending (prior : Records) (actions : List PlanAction) : List PlanAction :=
  actions.filter fun action => prior.get action.id ≠ some .succeeded

/-- The actions the loops of a mutation go through: target by target, those it covers. -/
def schedule (plan : ChangePlan) (prior : Records) (mutating : List PlanAction)
    (targets : List String) : List PlanAction :=
  targets.flatMap fun target => pending prior (mutating.filter (actionCovers plan target))

variable {run : StrategyRun} {actions : List PlanAction} {progress : TargetProgress} {wave : Wave}
  {waves : List Wave} {plan : ChangePlan}

variable {contracts : List VerificationContract}

section Loops

variable {render : Renderings} {request : ApplyRequest} {prior : Records}
  {mutating : List PlanAction}

theorem settled_stop_isSome (h : outcome ≠ .succeeded) :
    (state.settled plan action outcome).stop.isSome = true := by
  cases outcome with
  | succeeded => exact absurd rfl h
  | failed => rfl
  | unknown => rfl

theorem runActions_of_stopped (h : progress.state.stop.isSome) :
    runActions request prior actions progress = .ret progress := by
  cases actions with
  | nil => rfl
  | cons action rest => rw [runActions, if_pos h]; rfl

variable {progress progress' : TargetProgress}

/-- How running one action can end: it was not started, or it settled. -/
theorem returns_runAction (h : Returns (runAction request action progress) events progress') :
    (∃ failure, Returns (startAction request action) events (.error failure) ∧
      progress' = ⟨progress.state.notStarted action failure, .skipped, some failure⟩) ∨
    ∃ started outcome recorded, Returns (startAction request action) started (.ok ()) ∧
      Returns (recordSettled request action outcome) recorded () ∧
      events = started ++ ⟨.execute action, outcome⟩ :: recorded ∧
      progress' = ⟨(progress.state.started action).settled request.plan action outcome,
        outcome.status, outcome.error.or progress.failure⟩ := by
  obtain ⟨started, answer, after, hstarted, hafter, rfl⟩ := returns_bind.1 h
  cases answer with
  | error failure =>
    obtain ⟨rfl, rfl⟩ := returns_ret.1 hafter
    exact .inl ⟨failure, by rwa [append_nil], rfl⟩
  | ok =>
    obtain ⟨executed, ⟨outcome, state⟩, last, hexecuted, hlast, rfl⟩ := returns_bind.1 hafter
    obtain ⟨rfl, rfl⟩ := returns_ret.1 hlast
    obtain ⟨recorded, rfl, hrecorded, rfl⟩ := returns_executeAction hexecuted
    exact .inr ⟨started, outcome, recorded, hstarted, hrecorded, by simp, rfl⟩

/-- Running one action follows that action alone. -/
theorem follows_runAction :
    Follows request [action] (fun progress => progress.state.stop.isSome = true)
      (runAction request action progress) where
  reaches {events other} hreach := by
    rcases reaches_bind hreach with hstart | ⟨started, answer, after, hstarted, hafter, rfl⟩
    · exact absurd hstart quiet_startAction.not_reaches
    · cases answer with
      | error failure => exact absurd hafter not_reaches_ret
      | ok =>
        rcases reaches_bind hafter with hexecute | ⟨_, _, _, -, hret, -⟩
        · obtain ⟨rfl, rfl⟩ := reaches_executeAction hexecute
          exact ⟨[], started, [], by simp, hstarted, rfl, prefix_rfl⟩
        · exact absurd hret not_reaches_ret
  returns {events settled} hret hgo := by
    rcases returns_runAction hret with ⟨failure, -, rfl⟩ |
      ⟨started, outcome, recorded, hstarted, hrecorded, rfl, rfl⟩
    · exact absurd rfl hgo
    · have hsucceeded : outcome = .succeeded := by
        by_contra hne
        exact hgo (settled_stop_isSome hne)
      rw [executions_append, quiet_startAction.executions_eq_nil hstarted, executions_execute,
        (quiet_recordSettled outcome).executions_eq_nil hrecorded, hsucceeded]
      rfl

/-- The actions of one target are executed in order. -/
theorem follows_runActions (h : progress.state.stop = none) :
    Follows request (pending prior actions) (fun progress => progress.state.stop.isSome)
      (runActions request prior actions progress) := by
  induction actions generalizing progress with
  | nil => exact .of_quiet trivial
  | cons action rest ih =>
    rw [runActions, if_neg (by simp [h])]
    by_cases hprior : prior.get action.id = some .succeeded
    · rw [if_pos hprior, pending, filter_cons_of_neg (by simp [hprior])]
      exact ih h
    · rw [if_neg hprior, pending, filter_cons_of_pos (by simp [hprior])]
      show Follows request ([action] ++ pending prior rest) _ _
      refine follows_runAction.bind (fun _ progress _ hgo => ih (by simpa using hgo))
        fun _ progress _ hstop => ?_
      rw [runActions_of_stopped hstop]
      exact ⟨trivial, fun events result hret => (returns_ret.1 hret).2 ▸ hstop⟩

variable {targets : List String}

theorem submitTargets_of_stopped (h : state.stop.isSome) :
    submitTargets request prior mutating targets state = .ret ([], state) := by
  cases targets with
  | nil => rfl
  | cons target rest => rw [submitTargets, if_pos h]; rfl

theorem follows_submitTargets (h : state.stop = none) :
    Follows request (schedule request.plan prior mutating targets)
      (fun submitted => submitted.2.stop.isSome)
      (submitTargets request prior mutating targets state) := by
  induction targets generalizing state with
  | nil => exact .of_quiet trivial
  | cons target rest ih =>
    rw [submitTargets, if_neg (by simp [h]), schedule, flatMap_cons]
    refine (follows_runActions h).bind (fun _ progress _ hgo => ?_) fun _ progress _ hstop => ?_
    · refine (ih (by simpa using hgo)).bind_quiet (fun _ => trivial) fun submitted hs => ?_
      intro events result hret
      exact (returns_ret.1 hret).2 ▸ hs
    · rw [submitTargets_of_stopped hstop]
      exact ⟨trivial, fun events result hret => (returns_ret.1 hret).2 ▸ hstop⟩

/-! ### What the loops preserve -/

/-- What skipping a completed action and running a pending one preserve holds after the actions of
a target have run. -/
theorem runActions_invariant {P : List (Event world) → TargetProgress → Prop}
    (before : List (Event world))
    (hskip : ∀ events progress, P events progress → P events { progress with status := .succeeded })
    (hrun : ∀ action ∈ pending prior actions, ∀ before events progress progress',
      progress.state.stop = none → P before progress →
        Returns (runAction request action progress) events progress' →
          P (before ++ events) progress') (h : P before progress)
    (hret : Returns (runActions request prior actions progress) events progress') :
    P (before ++ events) progress' := by
  induction actions generalizing progress before events with
  | nil =>
    obtain ⟨rfl, rfl⟩ := returns_ret.1 hret
    rwa [append_nil]
  | cons action rest ih =>
    have hrest : ∀ other ∈ pending prior rest, other ∈ pending prior (action :: rest) :=
      fun other hother => (Sublist.filter _ (sublist_cons_self _ _)).subset hother
    have hrun' := fun other hother => hrun other (hrest other hother)
    rw [runActions] at hret
    split_ifs at hret with hstop hprior
    · obtain ⟨rfl, rfl⟩ := returns_ret.1 hret
      rwa [append_nil]
    · exact ih before hrun' (hskip _ _ h) hret
    · obtain ⟨first, mid, second, hfirst, hsecond, rfl⟩ := returns_bind.1 hret
      rw [← append_assoc]
      refine ih _ hrun' (hrun action ?_ _ _ _ _ (by simpa using hstop) h hfirst) hsecond
      simp [pending, hprior]

variable {P : List (Event world) → MutateState → Prop}

variable {submitted : List TargetResult × MutateState}

/-- What running a pending mutating action preserves holds after the targets of a wave. -/
theorem submitTargets_invariant (before : List (Event world))
    (hrun : ∀ action ∈ pending prior mutating, ∀ before events progress progress',
      progress.state.stop = none → P before progress.state →
        Returns (runAction request action progress) events progress' →
          P (before ++ events) progress'.state) (h : P before state)
    (hret : Returns (submitTargets request prior mutating targets state) events submitted) :
    P (before ++ events) submitted.2 := by
  induction targets generalizing state before events submitted with
  | nil =>
    obtain ⟨rfl, rfl⟩ := returns_ret.1 hret
    rwa [append_nil]
  | cons target rest ih =>
    rw [submitTargets] at hret
    split_ifs at hret with hstop
    · obtain ⟨rfl, rfl⟩ := returns_ret.1 hret
      rwa [append_nil]
    · obtain ⟨first, progress, second, hfirst, hsecond, rfl⟩ := returns_bind.1 hret
      obtain ⟨third, ⟨results, final⟩, last, hthird, hlast, rfl⟩ := returns_bind.1 hsecond
      obtain ⟨rfl, rfl⟩ := returns_ret.1 hlast
      have hcovered : ∀ other ∈ pending prior (mutating.filter (actionCovers request.plan target)),
          other ∈ pending prior mutating :=
        fun other hother => (Sublist.filter _ filter_sublist).subset hother
      have hprogress : P (before ++ first) progress.state :=
        runActions_invariant (P := fun events progress => P events progress.state) before
          (fun _ _ h => h) (fun action haction => hrun action (hcovered action haction)) h hfirst
      rw [append_nil, ← append_assoc]
      have hfinal := ih (before ++ first) hprogress hthird
      exact hfinal

/-- The run after the gate of a wave came to a verdict. -/
def StrategyRun.gatedBy (run : StrategyRun) (verdict : Verdict) (rest : List String) :
    StrategyRun :=
  let run := { run with gateVerdict := some verdict }
  if verdict = .verified then run else run.stopAt (run.wavesRun - 1) rest

/-- How one wave can end: a target stopped the run, a gate was observed, or neither. -/
theorem returns_runWave {run run' : StrategyRun}
    (h : Returns (runWave render request prior mutating targets wave run state) events
      (run', state')) :
    ∃ submitted results mid observed,
      Returns (submitTargets request prior mutating (wave.slice targets) state) submitted
        (results, mid) ∧ events = submitted ++ observed ∧
      ((results.any (·.stopsTheRun) = true ∧ observed = [] ∧ state' = mid ∧
          run' = (run.collect (wave.slice targets) results).stopAt run.wavesRun
            (targets.drop (wave.start + wave.len))) ∨
        (results.any (·.stopsTheRun) = false ∧ wave.gated = true ∧
          ∃ verdict, Returns (runGate render request (wave.slice targets) mid) observed
            (verdict, state') ∧
          run' = (run.collect (wave.slice targets) results).gatedBy verdict
            (targets.drop (wave.start + wave.len))) ∨
        (results.any (·.stopsTheRun) = false ∧ wave.gated = false ∧ observed = [] ∧
          state' = mid ∧ run' = run.collect (wave.slice targets) results)) := by
  obtain ⟨submitted, ⟨results, mid⟩, observed, hsubmitted, hobserved, rfl⟩ := returns_bind.1 h
  refine ⟨submitted, results, mid, observed, hsubmitted, rfl, ?_⟩
  dsimp only at hobserved
  by_cases hstops : results.any (·.stopsTheRun) = true
  · rw [if_pos hstops] at hobserved
    obtain ⟨rfl, hresult⟩ := returns_ret.1 hobserved
    cases hresult
    exact .inl ⟨hstops, rfl, rfl, rfl⟩
  rw [if_neg hstops] at hobserved
  by_cases hgated : wave.gated = true
  · rw [if_pos hgated] at hobserved
    obtain ⟨gate, ⟨verdict, seen⟩, last, hgate, hlast, rfl⟩ := returns_bind.1 hobserved
    dsimp only at hlast
    refine .inr (.inl ⟨by simpa using hstops, hgated, verdict, ?_⟩)
    unfold gatedBy
    by_cases hverified : verdict = .verified
    · rw [if_pos hverified] at hlast
      obtain ⟨rfl, hresult⟩ := returns_ret.1 hlast
      cases hresult
      rw [append_nil, if_pos hverified]
      exact ⟨hgate, rfl⟩
    · rw [if_neg hverified] at hlast
      obtain ⟨rfl, hresult⟩ := returns_ret.1 hlast
      cases hresult
      rw [append_nil, if_neg hverified]
      exact ⟨hgate, rfl⟩
  · rw [if_neg hgated] at hobserved
    obtain ⟨rfl, hresult⟩ := returns_ret.1 hobserved
    cases hresult
    exact .inr (.inr ⟨by simpa using hstops, by simpa using hgated, rfl, rfl, rfl⟩)

variable {ran : StrategyRun × MutateState}

section Waves

variable (before : List (Event world))
    (hrun : ∀ action ∈ pending prior mutating, ∀ before events progress progress',
      progress.state.stop = none → P before progress.state →
        Returns (runAction request action progress) events progress' →
          P (before ++ events) progress'.state)
    (hgate : ∀ before events slice state gated, P before state →
      Returns (runGate render request slice state) events gated → P (before ++ events) gated.2)

include hrun hgate

theorem runWave_invariant (h : P before state)
    (hret : Returns (runWave render request prior mutating targets wave run state) events ran) :
    P (before ++ events) ran.2 := by
  obtain ⟨run', state'⟩ := ran
  obtain ⟨submitted, results, mid, observed, hsubmitted, rfl, hend⟩ := returns_runWave hret
  have hmid : P (before ++ submitted) mid := submitTargets_invariant before hrun h hsubmitted
  rcases hend with ⟨-, rfl, rfl, -⟩ | ⟨-, -, verdict, hobserved, -⟩ | ⟨-, -, rfl, rfl, -⟩
  · rwa [append_nil]
  · rw [← append_assoc]
    exact hgate _ _ _ _ _ hmid hobserved
  · rwa [append_nil]

/-- What running a pending mutating action and observing a gate preserve holds after the waves. -/
theorem runWaves_invariant (h : P before state)
    (hret : Returns (runWaves render request prior mutating targets waves run state) events ran) :
    P (before ++ events) ran.2 := by
  induction waves generalizing run state before events ran with
  | nil =>
    obtain ⟨rfl, rfl⟩ := returns_ret.1 hret
    rwa [append_nil]
  | cons wave waves ih =>
    obtain ⟨first, ⟨run', state'⟩, second, hfirst, hsecond, rfl⟩ := returns_bind.1 hret
    have hwave : P (before ++ first) state' := runWave_invariant before hrun hgate h hfirst
    rw [← append_assoc]
    dsimp only at hsecond
    by_cases hstopped : run'.stoppedAt.isSome = true
    · rw [if_pos hstopped] at hsecond
      obtain ⟨rfl, rfl⟩ := returns_ret.1 hsecond
      rwa [append_nil]
    · rw [if_neg hstopped] at hsecond
      exact ih _ hwave hsecond

end Waves

/-! ### Waves -/

/-- After the actions of a target have run, a status that stops the run has stopped it. -/
theorem stop_isSome_of_status
    (hret : Returns (runActions request prior actions progress) events progress')
    (h : progress.status ≠ .failed ∧ progress.status ≠ .unknown)
    (hstatus : (progress'.status = .failed || progress'.status = .unknown) = true) :
    progress'.state.stop.isSome = true := by
  refine runActions_invariant (P := fun _ progress =>
    (progress.status = .failed || progress.status = .unknown) = true →
      progress.state.stop.isSome = true) [] ?_ ?_ ?_ hret hstatus
  · intro events progress _ hsucceeded
    cases hsucceeded
  · intro action _ before events progress progress' _ _ hrun
    rcases returns_runAction hrun with ⟨failure, -, rfl⟩ | ⟨_, outcome, _, -, -, -, rfl⟩
    · exact fun _ => rfl
    · intro hsettled
      refine settled_stop_isSome ?_
      rintro rfl
      cases hsettled
  · intro hfailed
    simp [h] at hfailed

/-- A target whose result stops the run has stopped it. -/
theorem stop_isSome_of_stopsTheRun
    (hret : Returns (submitTargets request prior mutating targets state) events submitted)
    (h : submitted.1.any (·.stopsTheRun) = true) : submitted.2.stop.isSome = true := by
  induction targets generalizing state events submitted with
  | nil =>
    obtain ⟨-, rfl⟩ := returns_ret.1 hret
    cases h
  | cons target rest ih =>
    rw [submitTargets] at hret
    split_ifs at hret with hstop
    · obtain ⟨-, rfl⟩ := returns_ret.1 hret
      cases h
    obtain ⟨first, progress, second, hfirst, hsecond, rfl⟩ := returns_bind.1 hret
    obtain ⟨third, ⟨results, final⟩, last, hthird, hlast, rfl⟩ := returns_bind.1 hsecond
    obtain ⟨-, rfl⟩ := returns_ret.1 hlast
    rw [any_cons, Bool.or_eq_true] at h
    rcases h with hhead | htail
    · have hstopped : progress.state.stop.isSome = true := stop_isSome_of_status hfirst (by simp) hhead
      rw [submitTargets_of_stopped hstopped] at hthird
      obtain ⟨-, hfinal⟩ := returns_ret.1 hthird
      cases hfinal
      exact hstopped
    · have hfinal := ih hthird htail
      exact hfinal

theorem quiet_observeContracts {now : Int} :
    Quiet (observeContracts render plan now contracts) := by
  induction contracts with
  | nil => trivial
  | cons contract rest ih =>
    rw [observeContracts, ask_bind]
    refine ⟨rfl, fun observation => ih.bind fun observed => ?_⟩
    cases observation <;> trivial

theorem quiet_runGate {slice : List String} : Quiet (runGate render request slice state) :=
  quiet_observeContracts.bind fun _ => trivial

theorem returns_runGate {slice : List String} {gated : Verdict × MutateState}
    (h : Returns (runGate render request slice state) events gated) :
    ∃ results, gated.2 = { state with
      reached := state.reached ++ slice
      gateResults := state.gateResults ++ results } := by
  obtain ⟨first, ⟨results, timedOut⟩, second, -, hsecond, rfl⟩ := returns_bind.1 h
  obtain ⟨-, rfl⟩ := returns_ret.1 hsecond
  exact ⟨results, rfl⟩

theorem quiet_runWave_of_stopped (h : state.stop.isSome) :
    Quiet (runWave render request prior mutating targets wave run state) := by
  rw [runWave, submitTargets_of_stopped h, ret_bind]
  dsimp only
  rw [if_neg (by simp)]
  by_cases hgated : wave.gated = true
  · rw [if_pos hgated]
    refine quiet_runGate.bind fun gated => ?_
    obtain ⟨verdict, observed⟩ := gated
    dsimp only
    split_ifs <;> trivial
  · rw [if_neg hgated]
    trivial

theorem runWave_stopped (h : state.stop.isSome)
    (hret : Returns (runWave render request prior mutating targets wave run state) events ran) :
    ran.2.stop.isSome = true := by
  refine runWave_invariant (P := fun _ state => state.stop.isSome = true) [] ?_ ?_ h hret
  · intro action _ before events progress progress' hnone hsome
    simp [hnone] at hsome
  · intro before events slice state gated hsome hgate
    obtain ⟨results, hstate⟩ := returns_runGate hgate
    rwa [hstate]

/-- The waves of a stopped run hand nothing over and leave it stopped. -/
theorem runWaves_of_stopped (h : state.stop.isSome) :
    Quiet (runWaves render request prior mutating targets waves run state) ∧
      ∀ events ran, Returns (runWaves render request prior mutating targets waves run state) events
        ran → ran.2.stop.isSome = true := by
  induction waves generalizing run state with
  | nil => exact ⟨trivial, fun events ran hret => (returns_ret.1 hret).2 ▸ h⟩
  | cons wave waves ih =>
    refine ⟨(quiet_runWave_of_stopped h).bind_of_returns ?_, ?_⟩
    · rintro events ⟨run', state'⟩ hret
      dsimp only
      split_ifs
      · trivial
      · exact (ih (runWave_stopped h hret)).1
    · intro events ran hret
      obtain ⟨first, ⟨run', state'⟩, second, hfirst, hsecond, rfl⟩ := returns_bind.1 hret
      have hstate : state'.stop.isSome = true := runWave_stopped h hfirst
      dsimp only at hsecond
      split_ifs at hsecond
      · exact (returns_ret.1 hsecond).2 ▸ hstate
      · exact (ih hstate).2 _ _ hsecond

/-- The targets of one wave are run in order, and its gate hands nothing over. -/
theorem follows_runWave (h : state.stop = none) :
    Follows request (schedule request.plan prior mutating (wave.slice targets))
      (fun ran => ran.2.stop.isSome)
      (runWave render request prior mutating targets wave run state) := by
  refine (follows_submitTargets h).bind_quiet ?_ ?_
  · rintro ⟨results, mid⟩
    dsimp only
    split_ifs with hstops hgated
    · trivial
    · refine quiet_runGate.bind ?_
      rintro ⟨verdict, observed⟩
      dsimp only
      split_ifs <;> trivial
    · trivial
  · rintro ⟨results, mid⟩ hstop events ran hret
    dsimp only at hstop hret
    split_ifs at hret with hstops hgated
    · exact (returns_ret.1 hret).2 ▸ hstop
    · obtain ⟨gate, ⟨verdict, observed⟩, last, hobserved, hlast, rfl⟩ := returns_bind.1 hret
      obtain ⟨seen, hseen⟩ := returns_runGate hobserved
      have hobservedStop : observed.stop.isSome = true := by
        dsimp only at hseen
        rwa [hseen]
      dsimp only at hlast
      split_ifs at hlast <;> exact (returns_ret.1 hlast).2 ▸ hobservedStop
    · exact (returns_ret.1 hret).2 ▸ hstop

/-- Whether the waves ended early: an action stopped the run, or a gate did not verify. -/
def EndedEarly (ran : StrategyRun × MutateState) : Prop :=
  ran.2.stop.isSome = true ∨ ∃ verdict, ran.1.gateVerdict = some verdict ∧ verdict ≠ .verified

/-- A run that has not ended: no wave stopped it, and every gate so far verified. -/
def StrategyRun.IsGoing (run : StrategyRun) : Prop :=
  run.stoppedAt = none ∧ ∀ verdict, run.gateVerdict = some verdict → verdict = .verified

theorem StrategyRun.isGoing_initial : initial.IsGoing :=
  ⟨rfl, fun _ h => by cases h⟩

/-- After a wave that no action stopped, the run is going on or its gate did not verify. -/
theorem isGoing_or_endedEarly {run run' : StrategyRun} (hrun : run.IsGoing)
    (h : Returns (runWave render request prior mutating targets wave run state) events
      (run', state')) (hstate : state'.stop = none) :
    run'.IsGoing ∨ run'.stoppedAt.isSome = true ∧ EndedEarly (run', state') := by
  obtain ⟨submitted, results, mid, observed, hsubmitted, -, hend⟩ := returns_runWave h
  rcases hend with ⟨hstops, -, rfl, -⟩ | ⟨-, -, verdict, -, rfl⟩ | ⟨-, -, -, -, rfl⟩
  · have hsome := stop_isSome_of_stopsTheRun hsubmitted hstops
    simp [hstate] at hsome
  · unfold gatedBy
    by_cases hverified : verdict = .verified
    · rw [if_pos hverified]
      exact .inl ⟨hrun.1, fun other hother => Option.some.inj hother ▸ hverified⟩
    · rw [if_neg hverified]
      exact .inr ⟨rfl, .inr ⟨verdict, rfl, hverified⟩⟩
  · exact .inl ⟨hrun.1, hrun.2⟩

/-- **The waves are run in order**, each target by target. -/
theorem follows_runWaves (h : state.stop = none) (hrun : run.IsGoing) :
    Follows request
      (schedule request.plan prior mutating (waves.flatMap fun wave => wave.slice targets))
      EndedEarly (runWaves render request prior mutating targets waves run state) := by
  induction waves generalizing run state with
  | nil => exact .of_quiet trivial
  | cons wave waves ih =>
    rw [runWaves, flatMap_cons, schedule, flatMap_append]
    refine (follows_runWave h).bind ?_ ?_
    · rintro events ⟨run', state'⟩ hret hgo
      have hstate : state'.stop = none := by simpa using hgo
      dsimp only
      rcases isGoing_or_endedEarly hrun hret hstate with hgoing | ⟨hstopped, hended⟩
      · rw [if_neg (by simp [hgoing.1])]
        exact ih hstate hgoing
      · rw [if_pos hstopped]
        exact .of_stops trivial fun events ran hran => (returns_ret.1 hran).2 ▸ hended
    · rintro events ⟨run', state'⟩ hret hstop
      dsimp only at hstop ⊢
      split_ifs
      · exact ⟨trivial, fun events ran hran => .inl ((returns_ret.1 hran).2 ▸ hstop)⟩
      · obtain ⟨hquiet, hreturns⟩ := runWaves_of_stopped hstop
        exact ⟨hquiet, fun events ran hran => .inl (hreturns events ran hran)⟩

end Loops

/-! ### The mutation of a plan -/

/-- The actions a mutation of the plan goes through, in order. -/
def planSchedule (plan : ChangePlan) (prior : Records) : List PlanAction :=
  match topologicalOrder plan.actions with
  | .ok order => schedule plan prior (mutatingActions plan order) (targetLabels plan)
  | .error _ => []

/-- A schedule goes by which mutating actions are recorded as succeeded, and by nothing else. -/
theorem planSchedule_congr {prior recorded : Records}
    (h : ∀ action ∈ plan.actions, action.role.mutatesTarget = true →
      (prior.get action.id = some .succeeded ↔ recorded.get action.id = some .succeeded)) :
    planSchedule plan prior = planSchedule plan recorded := by
  rw [planSchedule, planSchedule]
  cases topologicalOrder plan.actions with
  | error cycle => rfl
  | ok order =>
    refine flatMap_congr fun target _ => filter_congr fun action haction => ?_
    obtain ⟨hplan, hmutates⟩ := mem_filter.1 (mem_of_mem_filter haction)
    obtain ⟨i, -, hi⟩ := mem_filterMap.1 hplan
    rw [decide_eq_decide, not_iff_not]
    exact h action (mem_of_getElem? hi) hmutates

section Mutate

variable {render : Renderings} {request : ApplyRequest} {prior : Records} {prepared : Prepared}
  {report : PrepareReport}

theorem quiet_recordPrepared : Quiet (recordPrepared request prepared actions) := by
  induction actions with
  | nil => trivial
  | cons action rest ih =>
    rw [recordPrepared]
    split_ifs
    · refine quiet_stamp.bind fun instant => ?_
      rw [ask_bind]
      exact ⟨rfl, fun _ => ih⟩
    · exact ih

theorem quiet_verify {now : Int} : Quiet (verify render plan now) :=
  quiet_observeContracts.bind fun _ => trivial

variable {mutating : List PlanAction}

theorem quiet_concludeMutation :
    Quiet (concludeMutation render request prepared mutating report run state) := by
  unfold concludeMutation
  dsimp only
  split
  · trivial
  · trivial
  · trivial
  · exact quiet_verify.bind fun _ => trivial

variable {outcome : ApplyOutcome}

/-- How a mutation ends: an action stopped it, a gate did not verify, or it was verified. -/
theorem returns_concludeMutation
    (h : Returns (concludeMutation render request prepared mutating report run state) events
      outcome) :
    (∃ point refusal failed, state.stop = some (point, refusal, failed) ∧
      outcome = stoppedOutcome request prepared mutating
        (mutateOutcome request prepared report run state) point refusal) ∨
    (∃ verdict, state.stop = none ∧ run.gateVerdict = some verdict ∧ verdict ≠ .verified ∧
      outcome = gatedOutcome request (mutateOutcome request prepared report run state) verdict) ∨
    (∃ verification, ¬ EndedEarly (run, state) ∧
      Returns (verify render request.plan request.now) events verification ∧
      outcome = verifiedOutcome request (mutateOutcome request prepared report run state)
        verification) := by
  unfold concludeMutation at h
  dsimp only at h
  split at h
  next point refusal failed hstop =>
    exact .inl ⟨point, refusal, failed, hstop, (returns_ret.1 h).2⟩
  next hstop hgate =>
    exact .inr (.inl ⟨.degraded, hstop, hgate, by decide, (returns_ret.1 h).2⟩)
  next hstop hgate =>
    exact .inr (.inl ⟨.failed, hstop, hgate, by decide, (returns_ret.1 h).2⟩)
  next hstop hdegraded hfailed =>
    obtain ⟨first, verification, last, hverify, hlast, rfl⟩ := returns_bind.1 h
    obtain ⟨rfl, rfl⟩ := returns_ret.1 hlast
    refine .inr (.inr ⟨verification, ?_, by rwa [append_nil], rfl⟩)
    rintro (hsome | ⟨verdict, hverdict, hne⟩)
    · simp [hstop] at hsome
    · cases verdict with
      | verified => exact hne rfl
      | degraded => exact hdegraded hverdict
      | failed => exact hfailed hverdict

theorem stoppedOutcome_error {point : FailurePoint} {refusal : ErrorValue} :
    (stoppedOutcome request prepared mutating outcome point refusal).error.isSome = true := by
  cases point <;> rfl

theorem isSuccess_of_endedEarly (h : EndedEarly (run, state))
    (hret : Returns (concludeMutation render request prepared mutating report run state) events
      outcome) : outcome.isSuccess = false := by
  rcases returns_concludeMutation hret with ⟨point, refusal, failed, -, rfl⟩ |
    ⟨verdict, -, -, -, rfl⟩ | ⟨_, hgo, -⟩
  · rw [ApplyOutcome.isSuccess, Option.isNone_eq_false_iff.2 stoppedOutcome_error, Bool.false_and]
  · rfl
  · exact absurd h hgo

/-- **A mutation follows the schedule of its plan**, and is a success only when every action of it
came back succeeded. -/
theorem follows_mutate :
    Follows request (planSchedule request.plan prior) (fun ended => ended.1.isSuccess = false)
      (mutate render request prepared report prior) := by
  rw [mutate, planSchedule]
  cases horder : topologicalOrder request.plan.actions with
  | error cycle => exact .of_quiet trivial
  | ok order =>
    have hrecord : Follows request [] (fun _ => False)
        (recordPrepared request prepared request.plan.actions) := .of_quiet quiet_recordPrepared
    have hwaves : Follows request
        (schedule request.plan prior (mutatingActions request.plan order)
          ((request.plan.strategy.waves (targetLabels request.plan).length).flatMap
            fun wave => wave.slice (targetLabels request.plan)))
        EndedEarly
        (runWaves render request prior (mutatingActions request.plan order)
          (targetLabels request.plan)
          (request.plan.strategy.waves (targetLabels request.plan).length) .initial
          (.initial request.plan prepared prior)) :=
      follows_runWaves rfl isGoing_initial
    rw [Strategy.waves_cover] at hwaves
    refine hrecord.bind (fun _ _ _ _ => ?_) fun _ _ _ h => h.elim
    refine hwaves.bind_quiet ?_ ?_
    · rintro ⟨run, state⟩
      exact quiet_concludeMutation.bind fun _ => trivial
    · rintro ⟨run, state⟩ hended events ended hret
      obtain ⟨first, outcome, last, hfirst, hlast, rfl⟩ := returns_bind.1 hret
      obtain ⟨-, rfl⟩ := returns_ret.1 hlast
      exact isSuccess_of_endedEarly hended hfirst

end Mutate

section Returned

variable {render : Renderings} {request : ApplyRequest} {prior : Records} {prepared : Prepared}
  {report : PrepareReport} {events : List (Event world)} {outcome : ApplyOutcome} {held : Bool}

/-- How a mutation returns: its plan cannot be sorted, or its waves have run and been concluded. -/
theorem returns_mutate
    (h : Returns (mutate render request prepared report prior) events (outcome, held)) :
    (∃ cycle, topologicalOrder request.plan.actions = .error cycle ∧ events = [] ∧
      outcome = { refused request.plan .planState (.actionGraphCyclic request.plan.id cycle) with
        assets := prepared.assets }) ∨
    ∃ order run state recorded waved concluded,
      topologicalOrder request.plan.actions = .ok order ∧
      Returns (recordPrepared request prepared request.plan.actions) recorded () ∧
      Returns (runWaves render request prior (mutatingActions request.plan order)
        (targetLabels request.plan)
        (request.plan.strategy.waves (targetLabels request.plan).length) .initial
        (.initial request.plan prepared prior)) waved (run, state) ∧
      Returns (concludeMutation render request prepared (mutatingActions request.plan order) report
        run state) concluded outcome ∧
      events = recorded ++ (waved ++ concluded) ∧ executions events = executions waved := by
  rw [mutate] at h
  cases horder : topologicalOrder request.plan.actions with
  | error cycle =>
    rw [horder] at h
    obtain ⟨rfl, hresult⟩ := returns_ret.1 h
    cases hresult
    exact .inl ⟨cycle, rfl, rfl, rfl⟩
  | ok order =>
    rw [horder] at h
    obtain ⟨first, _, second, hfirst, hsecond, rfl⟩ := returns_bind.1 h
    obtain ⟨waved, ⟨run, state⟩, fourth, hwaved, hfourth, rfl⟩ := returns_bind.1 hsecond
    obtain ⟨concluded, ended, last, hconcluded, hlast, rfl⟩ := returns_bind.1 hfourth
    obtain ⟨rfl, hresult⟩ := returns_ret.1 hlast
    cases hresult
    refine .inr ⟨order, run, state, first, waved, concluded, rfl, hfirst, hwaved, hconcluded,
      by simp, ?_⟩
    simp [quiet_recordPrepared.executions_eq_nil hfirst,
      quiet_concludeMutation.executions_eq_nil hconcluded]

end Returned

/-! ### Properties of a whole mutation -/

section Compositional

variable {render : Renderings} {request : ApplyRequest} {prior : Records} {prepared : Prepared}
  {report : PrepareReport} {mutating : List PlanAction} {targets : List String}
  {C : ∀ α : Type, Program world α → Prop}

theorem compositional_stamp (hC : Compositional C) (hclock : C Int (ask .clock)) :
    C Int request.stamp := by
  rw [ApplyRequest.stamp]
  split_ifs
  · exact hclock
  · exact hC.ret _

theorem compositional_runActions (hC : Compositional C) {todo : List PlanAction}
    (hrun : ∀ action ∈ pending prior todo, ∀ progress, C _ (runAction request action progress)) :
    C _ (runActions request prior todo progress) := by
  induction todo generalizing progress with
  | nil => exact hC.ret _
  | cons action rest ih =>
    have hrest : ∀ other ∈ pending prior rest, ∀ progress, C _ (runAction request other progress) :=
      fun other hother => hrun other
        ((Sublist.filter _ (sublist_cons_self _ _)).subset hother)
    rw [runActions]
    split_ifs with hstop hprior
    · exact hC.ret _
    · exact ih hrest
    · refine hC.bind (hrun action ?_ progress) fun progress => ih hrest
      simp [pending, hprior]

section Waves

variable (hC : Compositional C)
    (hrun : ∀ action ∈ pending prior mutating, ∀ progress,
      C _ (runAction request action progress))
    (hobserve : ∀ contract, C _ (ask (.observe contract)))

include hC hobserve in
theorem compositional_observeContracts {now : Int} :
    C _ (observeContracts render plan now contracts) := by
  induction contracts with
  | nil => exact hC.ret _
  | cons contract rest ih =>
    refine hC.bind (hobserve contract) fun observation => hC.bind ih fun observed => ?_
    cases observation <;> exact hC.ret _

include hC hrun in
theorem compositional_submitTargets : C _ (submitTargets request prior mutating targets state) := by
  induction targets generalizing state with
  | nil => exact hC.ret _
  | cons target rest ih =>
    rw [submitTargets]
    split_ifs
    · exact hC.ret _
    · refine hC.bind ?_ fun progress => hC.bind ih fun _ => hC.ret _
      exact compositional_runActions hC fun action haction => hrun action
        ((Sublist.filter _ filter_sublist).subset haction)

include hC hrun hobserve

theorem compositional_runWave :
    C _ (runWave render request prior mutating targets wave run state) := by
  refine hC.bind (compositional_submitTargets hC hrun) ?_
  rintro ⟨results, mid⟩
  dsimp only
  split_ifs
  · exact hC.ret _
  · refine hC.bind ?_ ?_
    · exact hC.bind (compositional_observeContracts hC hobserve) fun _ => hC.ret _
    · rintro ⟨verdict, observed⟩
      dsimp only
      split_ifs <;> exact hC.ret _
  · exact hC.ret _

theorem compositional_runWaves :
    C _ (runWaves render request prior mutating targets waves run state) := by
  induction waves generalizing run state with
  | nil => exact hC.ret _
  | cons wave waves ih =>
    refine hC.bind (compositional_runWave hC hrun hobserve) ?_
    rintro ⟨run', state'⟩
    dsimp only
    split_ifs
    · exact hC.ret _
    · exact ih

end Waves

theorem compositional_recordPrepared (hC : Compositional C) (hclock : C Int (ask .clock))
    (hrecord : ∀ action ∈ actions, isPrepared prepared action = true → ∀ instant,
      C _ (ask (.recordActionStatus request.plan.id request.plan.revision action.id action.ordinal
        .succeeded instant none))) : C _ (recordPrepared request prepared actions) := by
  induction actions with
  | nil => exact hC.ret _
  | cons action rest ih =>
    have hrest := ih fun other hother => hrecord other (mem_cons_of_mem _ hother)
    rw [recordPrepared]
    split_ifs with hprepared
    · refine hC.bind (compositional_stamp hC hclock) fun instant => ?_
      exact hC.bind (hrecord action mem_cons_self hprepared instant) fun _ => hrest
    · exact hrest

/-- **Properties of a mutation.** A compositional property of its steps, which stamp, record the
prepared actions, run the pending mutating ones and observe contracts, is one of the mutation. -/
theorem compositional_mutate (hC : Compositional C) (hclock : C Int (ask .clock))
    (hrecord : ∀ action ∈ request.plan.actions, isPrepared prepared action = true → ∀ instant,
      C _ (ask (.recordActionStatus request.plan.id request.plan.revision action.id action.ordinal
        .succeeded instant none)))
    (hrun : ∀ order, topologicalOrder request.plan.actions = .ok order →
      ∀ action ∈ pending prior (mutatingActions request.plan order), ∀ progress,
        C _ (runAction request action progress))
    (hobserve : ∀ contract, C _ (ask (.observe contract))) :
    C _ (mutate render request prepared report prior) := by
  rw [mutate]
  cases horder : topologicalOrder request.plan.actions with
  | error cycle => exact hC.ret _
  | ok order =>
    refine hC.bind (compositional_recordPrepared hC hclock hrecord) fun _ => ?_
    refine hC.bind (compositional_runWaves hC (hrun order horder) hobserve) ?_
    rintro ⟨run, state⟩
    refine hC.bind ?_ fun _ => hC.ret _
    unfold concludeMutation
    dsimp only
    split
    · exact hC.ret _
    · exact hC.ret _
    · exact hC.ret _
    · refine hC.bind ?_ fun _ => hC.ret _
      exact hC.bind (compositional_observeContracts hC hobserve) fun _ => hC.ret _

end Compositional

/-! ### Bounding the calls of a mutation -/

/-- The calls a mutation makes to run `actions` are all `allowed`. -/
structure Permits (request : ApplyRequest) (actions : List PlanAction) (allowed : Call → Prop) :
    Prop where
  clock : allowed .clock
  renew : ∀ instant, allowed (.renew request.plan.id request.session instant)
  observe : ∀ contract, allowed (.observe contract)
  running : ∀ action ∈ actions, ∀ instant,
    allowed (.recordActionStatus request.plan.id request.plan.revision action.id action.ordinal
      .running instant none)
  execute : ∀ action ∈ actions, allowed (.execute action)
  settled : ∀ action ∈ actions, ∀ (outcome : ExecutionOutcome) instant,
    allowed (.recordActionStatus request.plan.id request.plan.revision action.id action.ordinal
      outcome.status instant (outcome.error.map (·.message)))

section Bounds

variable {render : Renderings} {request : ApplyRequest} {prior : Records} {prepared : Prepared}
  {report : PrepareReport} {actions : List PlanAction} {allowed : Call → Prop}

theorem within_ask {call : Call} (h : allowed call) : Within (S := world) allowed (ask call) :=
  ⟨h, fun _ => trivial⟩

theorem within_stamp (h : allowed .clock) : Within (S := world) allowed request.stamp :=
  compositional_stamp (compositional_within allowed) (within_ask h)

theorem Permits.within_runAction (h : Permits request actions allowed)
    (haction : action ∈ actions) :
    Within (S := world) allowed (runAction request action progress) := by
  refine Within.bind ?_ fun answer => ?_
  · refine (within_stamp h.clock).bind fun instant => ?_
    rw [ask_bind]
    refine ⟨h.renew instant, fun answer => ?_⟩
    cases answer with
    | error refusal => trivial
    | ok =>
      refine (within_stamp h.clock).bind fun instant => ?_
      exact within_ask (h.running action haction instant)
  · cases answer with
    | error failure => trivial
    | ok =>
      refine Within.bind ?_ fun _ => trivial
      rw [executeAction, ask_bind]
      refine ⟨h.execute action haction, fun outcome => Within.bind ?_ fun _ => trivial⟩
      refine (within_stamp h.clock).bind fun instant => ?_
      rw [ask_bind]
      exact ⟨h.settled action haction outcome instant, fun _ => trivial⟩

/-- **The calls of a mutation.** They stamp and extend the claim, record the prepared actions, run
the pending mutating ones and observe contracts. -/
theorem within_mutate
    (h : ∀ order, topologicalOrder request.plan.actions = .ok order →
      Permits request (pending prior (mutatingActions request.plan order)) allowed)
    (hrecord : ∀ action ∈ request.plan.actions, isPrepared prepared action = true → ∀ instant,
      allowed (.recordActionStatus request.plan.id request.plan.revision action.id action.ordinal
        .succeeded instant none)) :
    Within (S := world) allowed (mutate render request prepared report prior) := by
  cases horder : topologicalOrder request.plan.actions with
  | error cycle =>
    rw [mutate, horder]
    trivial
  | ok order =>
    refine compositional_mutate (compositional_within allowed) (within_ask (h order horder).clock)
      (fun action haction hprepared instant =>
        within_ask (hrecord action haction hprepared instant))
      (fun order' horder' action haction progress =>
        (h order' horder').within_runAction haction)
      fun contract => within_ask ((h order horder).observe contract)

end Bounds

end OnoSendai
