import Mathlib.Data.List.Sort
import OnoSendai.Change.Target

/-!
# Plan actions

One action is a semantically meaningful operation of a plan: what it is for, which frozen
target it acts on, how it is carried out, what it runs after and whether it may be run again.
-/

namespace OnoSendai

/-! ### Vocabularies -/

/-- What one action is for. -/
inductive ActionRole
  | prepare
  | mutate
  | verify
  | recover
  | cleanup
deriving DecidableEq

instance : Vocabulary ActionRole where
  all := [.prepare, .mutate, .verify, .recover, .cleanup]
  asStr
    | .prepare => "prepare"
    | .mutate => "mutate"
    | .verify => "verify"
    | .recover => "recover"
    | .cleanup => "cleanup"
  mem_all member := by cases member <;> decide
  spellings_nodup := by decide

namespace ActionRole

/-- Whether an action in this role changes the target system. -/
def mutatesTarget : ActionRole → Bool
  | mutate | recover => true
  | _ => false

/-- The rank by which roles order the frontier of the topological sort. -/
def rank : ActionRole → Nat
  | prepare => 0
  | mutate => 1
  | verify => 2
  | recover => 3
  | cleanup => 4

end ActionRole

/-- Whether an action may be run again after an uncertain outcome. -/
inductive Idempotency
  | idempotent
  | retrySafeWithToken
  | nonIdempotent
  | unknown
deriving DecidableEq

instance : Vocabulary Idempotency where
  all := [.idempotent, .retrySafeWithToken, .nonIdempotent, .unknown]
  asStr
    | .idempotent => "idempotent"
    | .retrySafeWithToken => "retry-safe-with-token"
    | .nonIdempotent => "non-idempotent"
    | .unknown => "unknown"
  mem_all member := by cases member <;> decide
  spellings_nodup := by decide

namespace Idempotency

/-- Whether resume may rerun an action whose outcome is unknown. -/
def permitsBlindRetry : Idempotency → Bool
  | idempotent => true
  | _ => false

/-- Whether resume may rerun the action when it can present the original request token. -/
def permitsTokenRetry : Idempotency → Bool
  | idempotent | retrySafeWithToken => true
  | _ => false

end Idempotency

/-- What is known about one action after the executor ran it. -/
inductive ActionStatus
  | pending
  | running
  | succeeded
  | failed
  | skipped
  | unknown
deriving DecidableEq

namespace ActionStatus

/-- Whether the action may have changed the system. -/
def mayHaveMutated : ActionStatus → Bool
  | running | succeeded | failed | unknown => true
  | pending | skipped => false

end ActionStatus

/-! ### Executions -/

/-- How an action is carried out: structured, never a shell string. -/
inductive Execution
  | providerAction (provider operation : String) (arguments : List (String × Value))
  | program (program : String) (argv : List String)
  | recoveryOperation (provider capability : String) (arguments : List (String × Value))
  | opaqueAction (description : String) (program : Option String) (argv : List String)

namespace Execution

/-- One typed argument as a digest spells it. -/
def argumentText (render : Renderings) (argument : String × Value) : String :=
  argument.1 ++ "=" ++ valueText render argument.2

/-- The text an execution contributes to a plan digest. -/
def digestText (render : Renderings) : Execution → String
  | providerAction provider operation arguments
  | recoveryOperation provider operation arguments =>
    unitJoin (provider :: operation :: arguments.map (argumentText render))
  | program path argv => unitJoin ["program", path, unitJoin argv]
  | opaqueAction description path argv =>
    unitJoin ["opaque", description, path.getD "", unitJoin argv]

end Execution

/-! ### Actions -/

/-- One semantically meaningful operation in a plan. -/
structure PlanAction where
  id : ActionId
  ordinal : Nat
  role : ActionRole
  summary : String
  target : Option String
  execution : Execution
  dependsOn : List ActionId
  preconditions : List Precondition
  idempotency : Idempotency
  effects : List ProposedEffect
  recoverySemantics : Option String
  requiresPrivilege : Bool
  status : ActionStatus

/-- The identity of the `ordinal`-th action of a plan. -/
def ActionId.of (sha256 : Sha256) (plan : PlanId) (ordinal : Nat) (description : String) :
    ActionId :=
  HexId.derive sha256 [plan.body, toString ordinal, description]

namespace PlanAction

/-- Declares the `ordinal`-th action of `plan`. -/
def new (sha256 : Sha256) (plan : PlanId) (ordinal : Nat) (role : ActionRole) (summary : String)
    (execution : Execution) : PlanAction where
  id := ActionId.of sha256 plan ordinal summary
  ordinal := ordinal
  role := role
  summary := summary
  target := none
  execution := execution
  dependsOn := []
  preconditions := []
  idempotency := .unknown
  effects := []
  recoverySemantics := none
  requiresPrivilege := false
  status := .pending

/-- Records what the executor now knows about the action. -/
def withStatus (action : PlanAction) (status : ActionStatus) : PlanAction :=
  { action with status := status }

/-- The action with the status a list of records holds for it, where one does. -/
def settledBy (statuses : List (ActionId × ActionStatus)) (action : PlanAction) : PlanAction :=
  match statuses.lookup action.id with
  | some status => action.withStatus status
  | none => action

/-- Whether resume may rerun this action given what is known about it. -/
def mayResume (action : PlanAction) : Bool :=
  match action.status with
  | .pending | .skipped => true
  | .running | .unknown => action.idempotency.permitsBlindRetry
  | .failed => action.idempotency.permitsTokenRetry
  | .succeeded => false

/-- The text an action contributes to a plan digest. -/
def digestText (render : Renderings) (action : PlanAction) : String :=
  unitJoin ([action.id.body, Vocabulary.asStr action.role, action.target.getD "",
      action.execution.digestText render, Vocabulary.asStr action.idempotency,
      flagText action.requiresPrivilege] ++
    action.dependsOn.map (·.body) ++
    action.preconditions.map (·.digestText render) ++
    action.effects.map (·.digestText))

section Status

variable (render : Renderings) (action : PlanAction) (statuses : List (ActionId × ActionStatus))

theorem settledBy_eq_withStatus : ∃ status, action.settledBy statuses = action.withStatus status := by
  unfold settledBy
  split
  · exact ⟨_, rfl⟩
  · exact ⟨action.status, rfl⟩

@[simp]
theorem settledBy_id : (action.settledBy statuses).id = action.id := by
  obtain ⟨status, h⟩ := settledBy_eq_withStatus action statuses
  rw [h]
  rfl

@[simp]
theorem settledBy_dependsOn : (action.settledBy statuses).dependsOn = action.dependsOn := by
  obtain ⟨status, h⟩ := settledBy_eq_withStatus action statuses
  rw [h]
  rfl

@[simp]
theorem settledBy_role : (action.settledBy statuses).role = action.role := by
  obtain ⟨status, h⟩ := settledBy_eq_withStatus action statuses
  rw [h]
  rfl

@[simp]
theorem digestText_settledBy :
    (action.settledBy statuses).digestText render = action.digestText render := by
  obtain ⟨status, h⟩ := settledBy_eq_withStatus action statuses
  rw [h]
  rfl

end Status

end PlanAction

/-! ### The order actions run in -/

/-- The dependency edges of an action list, as pairs of positions, in declaration order. An
identity no action of the list carries contributes no edge. -/
def dependencyEdges (actions : List PlanAction) : List (Nat × Nat) :=
  actions.zipIdx.flatMap fun (action, index) =>
    action.dependsOn.filterMap fun dependency =>
      (actions.findIdx? fun candidate => candidate.id = dependency).map fun source =>
        (source, index)

/-- The sort key of a position on the frontier: its role's rank, then its ordinal. -/
def frontierKey (actions : List PlanAction) (index : Nat) : Nat × Nat :=
  match actions[index]? with
  | some action => (action.role.rank, action.ordinal)
  | none => (0, 0)

/-- Sorts the frontier by role rank and ordinal, keeping the order of equal keys. -/
def sortFrontier (actions : List PlanAction) (ready : List Nat) : List Nat :=
  ready.insertionSort fun i j =>
    let (rankᵢ, ordinalᵢ) := frontierKey actions i
    let (rankⱼ, ordinalⱼ) := frontierKey actions j
    rankᵢ < rankⱼ ∨ rankᵢ = rankⱼ ∧ ordinalᵢ ≤ ordinalⱼ

/-- Takes one edge into each of `targets` off the indegrees, collecting the positions whose last
edge that was. -/
def releaseEdges : List Nat → (Nat → Nat) → List Nat → (Nat → Nat) × List Nat
  | [], indegree, ready => (indegree, ready)
  | target :: targets, indegree, ready =>
    let remaining := indegree target - 1
    releaseEdges targets (Function.update indegree target remaining)
      (if remaining = 0 then ready ++ [target] else ready)

/-- The main loop of the topological sort: it ends when the frontier is empty. Every position
enters the frontier at most once, so `fuel` is the number of actions. -/
def drainFrontier (actions : List PlanAction) (edges : List (Nat × Nat)) :
    Nat → List Nat → (Nat → Nat) → List Nat → List Nat
  | 0, _, _, order => order
  | _ + 1, [], _, order => order
  | fuel + 1, next :: ready, indegree, order =>
    let targets := (edges.filter (·.1 = next)).map (·.2)
    let released := releaseEdges targets indegree ready
    drainFrontier actions edges fuel (sortFrontier actions released.2) released.1
      (order ++ [next])

/-- Orders actions so that every action follows the ones it depends on, or names the identities
left over by a cycle. -/
def topologicalOrder (actions : List PlanAction) : Except (List ActionId) (List Nat) :=
  let edges := dependencyEdges actions
  let indegree := fun index => edges.countP (·.2 = index)
  let ready := (List.range actions.length).filter fun index => indegree index = 0
  let order := drainFrontier actions edges actions.length (sortFrontier actions ready) indegree []
  if order.length = actions.length then
    .ok order
  else
    .error ((actions.zipIdx.filter fun (_, index) => index ∉ order).map (·.1.id))

end OnoSendai
