import OnoSendai.Change.Target

/-!
# Verification contracts and the impact graph

A plan that mutates carries contracts about the state it is meant to leave behind. Each contract
is observed after the mutation and the results are folded into one verdict. The impact graph
says which known objects the plan could touch, and where knowledge ends.
-/

namespace OnoSendai

/-! ### Contracts -/

/-- What a failing contract means for the plan. -/
inductive VerificationClass
  | required
  | advisory
  | observational
deriving DecidableEq

instance : Vocabulary VerificationClass where
  all := [.required, .advisory, .observational]
  asStr
    | .required => "required"
    | .advisory => "advisory"
    | .observational => "observational"
  mem_all member := by cases member <;> decide
  spellings_nodup := by decide

/-- What observing a contract established. -/
inductive VerificationStatus
  | passed
  | failed
  | unknown
  | skipped
deriving DecidableEq

/-- The domain in which a recovery is equivalent to the prior state. -/
inductive EquivalenceDomain
  | persistentState
  | runtimeState
  | externalSideEffect

/-- One postcondition of a plan. The timeout is in nanoseconds. -/
structure VerificationContract where
  id : CheckId
  class' : VerificationClass
  subject : String
  expression : String
  expected : Option Value
  timeout : Nat
  timeoutIsFailure : Bool
  equivalence : Option EquivalenceDomain

/-- The identity of a check of a plan. -/
def CheckId.of (sha256 : Sha256) (plan : PlanId) (subject expression : String) : CheckId :=
  HexId.derive sha256 [plan.body, subject, expression]

/-- The timeout of a contract that states none: thirty seconds. -/
def defaultTimeout : Nat :=
  30 * 1000000000

namespace VerificationContract

/-- Declares a check of `expression` against `subject`. -/
def new (sha256 : Sha256) (plan : PlanId) (class' : VerificationClass)
    (subject expression : String) : VerificationContract where
  id := CheckId.of sha256 plan subject expression
  class' := class'
  subject := subject
  expression := expression
  expected := none
  timeout := defaultTimeout
  timeoutIsFailure := class' = .required
  equivalence := none

/-- The status a check has when its timeout passes. -/
def timeoutStatus (contract : VerificationContract) : VerificationStatus :=
  if contract.timeoutIsFailure then .failed else .unknown

/-- The text a contract contributes to a plan digest. -/
def digestText (contract : VerificationContract) : String :=
  unitJoin [contract.id.body, Vocabulary.asStr contract.class', contract.subject,
    contract.expression, toString (contract.timeout / 1000000)]

end VerificationContract

/-- What observing one contract established. -/
structure VerificationResult where
  plan : PlanId
  check : CheckId
  class' : VerificationClass
  subject : String
  expression : String
  status : VerificationStatus
  observed : Option Value
  expected : Option Value
  evidence : List String
  detail : Option String
  equivalence : Option EquivalenceDomain
  at' : Int

/-- The verdict of a verification. -/
inductive Verdict
  | verified
  | degraded
  | failed
deriving DecidableEq

/-- The worse of two verdicts. -/
def Verdict.worseOf : Verdict → Verdict → Verdict
  | failed, _ | _, failed => failed
  | degraded, _ | _, degraded => degraded
  | verified, verified => verified

/-- The contracts of a plan. -/
structure VerificationSet where
  contracts : List VerificationContract

namespace VerificationSet

/-- The set of a plan that states no contract. -/
def empty : VerificationSet where
  contracts := []

/-- Whether the plan states no contract. -/
def isEmpty (set : VerificationSet) : Bool :=
  set.contracts.isEmpty

/-- What one result contributes to the verdict. -/
def contribution (result : VerificationResult) : Verdict :=
  match result.class', result.status with
  | _, .passed | _, .skipped => .verified
  | .required, .failed => .failed
  | .required, .unknown => .degraded
  | .advisory, .failed | .advisory, .unknown => .degraded
  | .observational, _ => .verified

/-- The verdict of a list of results: the worst of their contributions. -/
def verdict (results : List VerificationResult) : Verdict :=
  (results.map contribution).foldl Verdict.worseOf .verified

/-- The text the contracts contribute to a plan digest. -/
def digestText (set : VerificationSet) : String :=
  unitTerminated (set.contracts.map (·.digestText))

end VerificationSet

/-! ### Impact -/

/-- How an object is reached by a plan. -/
inductive ImpactClass
  | directTarget
  | directEffect
  | dependent
  | transitiveRelated
  | externalSideEffect
  | unknownBoundary
deriving DecidableEq

/-- How far an impact class is from the plan's own targets. -/
def ImpactClass.distance : ImpactClass → Nat
  | directTarget => 0
  | directEffect => 1
  | dependent => 2
  | transitiveRelated => 3
  | externalSideEffect | unknownBoundary => 4

/-- One object a plan could touch. -/
structure ImpactNode where
  id : String
  label : String
  objectType : String
  class' : ImpactClass
  depth : Nat
  reachedBy : Option String
  evidence : List String
  confidence : String
  host : Option String

/-- A place where the graph stops because nothing is known beyond it. -/
structure UnknownBoundary where
  at' : String
  beyond : String
  reason : String

/-- The objects a plan could touch, and where knowledge ends. -/
structure ImpactGraph where
  nodes : List ImpactNode
  boundaries : List UnknownBoundary
  truncated : Option String

namespace ImpactGraph

/-- The graph of a plan nothing was said about. -/
def empty : ImpactGraph where
  nodes := []
  boundaries := []
  truncated := none

/-- Adds a node; of two nodes with one identity the nearer is kept, in the older's place. -/
def addNode (node : ImpactNode) : List ImpactNode → List ImpactNode
  | [] => [node]
  | existing :: rest =>
    if existing.id = node.id then
      (if node.class'.distance < existing.class'.distance then node else existing) :: rest
    else
      existing :: addNode node rest

/-- Adds a node to the graph. -/
def add (graph : ImpactGraph) (node : ImpactNode) : ImpactGraph :=
  { graph with nodes := addNode node graph.nodes }

end ImpactGraph

end OnoSendai
