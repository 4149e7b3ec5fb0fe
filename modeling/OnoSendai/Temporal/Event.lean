import OnoSendai.Temporal.Scope
import OnoSendai.Value

/-!
# Temporal events

The canonical event of the temporal ledger, and what it is made of: the identities, the source of a
piece of evidence, the clocks an event was read from, and the typed field changes it carries.

Instants and spans of time are in nanoseconds, instants since the epoch.
-/

namespace OnoSendai.Temporal

/-! ### Identities -/

/-- How many hexadecimal digits the identity of an event, an evidence record, a link or a
checkpoint carries. -/
def long : Nat :=
  24

/-- Whether a character is a lowercase hexadecimal digit. -/
def isHexDigit (c : Char) : Bool :=
  ('0' ≤ c && c ≤ '9') || ('a' ≤ c && c ≤ 'f')

/-- Whether a text is a letter followed by hexadecimal digits, at least one and at most so many. -/
def isReference (letter : Char) (digits : Nat) (text : String) : Bool :=
  match text.toList with
  | first :: rest =>
    first = letter && !rest.isEmpty && rest.length ≤ digits && rest.all isHexDigit
  | [] => false

/-- Whether a text is a letter followed by exactly so many hexadecimal digits. -/
def isIdentity (letter : Char) (digits : Nat) (text : String) : Bool :=
  isReference letter digits text && text.toList.length = digits + 1

/-- The identity of an event, or a shortened reference to one. -/
structure EventId where
  text : String
  wellFormed : isReference 'e' long text = true
deriving DecidableEq

/-- The identity of an evidence record. -/
structure EvidenceId where
  text : String
  wellFormed : isIdentity 'v' long text = true
deriving DecidableEq

/-- The identity of a causal link. -/
structure CausalLinkId where
  text : String
  wellFormed : isIdentity 'l' long text = true
deriving DecidableEq

/-- The identity of a checkpoint. -/
structure CheckpointId where
  text : String
  wellFormed : isIdentity 'k' long text = true

/-- The identity of a mutation that was asked for. -/
structure ActionId where
  text : String
  wellFormed : isIdentity 'a' 16 text = true
deriving DecidableEq

/-- The source classes that name themselves. -/
def fixedSources : List String :=
  ["ono.session", "ono.recorder", "linux.procfs", "linux.netlink", "linux.systemd-dbus",
    "linux.journald"]

/-- Whether a segment may stand in a composed source name. -/
def isSegment (segment : List Char) : Bool :=
  !segment.isEmpty && segment.all fun c => '!' ≤ c && c ≤ '~' && c ≠ '/' && c ≠ ':'

/-- Whether a text is two segments with a slash between them. -/
def isSegmentPair (text : List Char) : Bool :=
  isSegment (text.takeWhile (· ≠ '/')) && isSegment ((text.dropWhile (· ≠ '/')).drop 1)

/-- What follows a beginning of a text. -/
def stripBeginning (beginning : String) (text : List Char) : Option (List Char) :=
  if beginning.toList.isPrefixOf text then some (text.drop beginning.toList.length) else none

/-- Whether a text names a source. -/
def isSource (text : String) : Bool :=
  if text ∈ fixedSources then true
  else match stripBeginning "adapter:" text.toList with
    | some adapter => isSegment adapter
    | none => match stripBeginning "remote:" text.toList with
      | some rest => isSegmentPair rest
      | none => match stripBeginning "kuang:" text.toList with
        | some rest => isSegmentPair rest
        | none => false

/-- A source of evidence. -/
structure EvidenceSource where
  text : String
  known : isSource text = true
deriving DecidableEq

/-- The session of the shell. -/
def EvidenceSource.session : EvidenceSource where
  text := "ono.session"
  known := by decide

/-- The recorder. -/
def EvidenceSource.recorder : EvidenceSource where
  text := "ono.recorder"
  known := by decide

/-! ### Objects -/

/-- The opaque identity of a spatial object. -/
structure SpatialId where
  text : String
deriving DecidableEq

/-- The type of a spatial object, by its name: the types of the program are joined by those a
package contributes. -/
structure SpatialType where
  name : String
deriving DecidableEq

/-- What an event happened to: a canonical identity, or what a source named. -/
inductive SpatialRef
  | resolved (id : SpatialId) (objectType : SpatialType) (label : String)
  | unresolved (source : EvidenceSource) (described : String)
deriving DecidableEq

/-- The canonical identity, or none for a subject that never reached one. -/
def SpatialRef.spatialId : SpatialRef → Option SpatialId
  | resolved id _ _ => some id
  | unresolved _ _ => none

/-! ### Clocks -/

/-- The clock a monotonic reading and a source sequence belong to. -/
structure ClockDomain where
  host : String
  bootId : Option String
deriving DecidableEq

/-- Whether readings of two clocks may be compared: an unknown boot is comparable to nothing. -/
def ClockDomain.isComparableTo (domain other : ClockDomain) : Bool :=
  domain.host = other.host &&
    match domain.bootId, other.bootId with
    | some here, some there => here = there
    | _, _ => false

/-- When an event happened, was seen and was stored, and what orders it. -/
structure EventTimes where
  sourceTime : Option Int
  observedAt : Int
  ingestedAt : Int
  sourceSequence : Option Nat
  monotonicNanos : Option Nat
  clockUncertainty : Option Int
  domain : ClockDomain

/-- The instant a person navigates by: the source's own time where it gave one. -/
def EventTimes.presentationInstant (times : EventTimes) : Int :=
  times.sourceTime.getD times.observedAt

/-! ### Events -/

/-- The top-level class of an event. -/
inductive EventKind
  | objectObserved
  | objectAppeared
  | objectChanged
  | objectDisappeared
  | relationAdded
  | relationRemoved
  | actionRequested
  | actionAuthorized
  | actionExecuted
  | actionCompleted
  | actionFailed
  | providerEvent
  | coverageStarted
  | coverageEnded
  | checkpointCreated
  | landmarkAdded
  | landmarkRemoved
deriving DecidableEq

instance : Vocabulary EventKind where
  all := [.objectObserved, .objectAppeared, .objectChanged, .objectDisappeared, .relationAdded,
    .relationRemoved, .actionRequested, .actionAuthorized, .actionExecuted, .actionCompleted,
    .actionFailed, .providerEvent, .coverageStarted, .coverageEnded, .checkpointCreated,
    .landmarkAdded, .landmarkRemoved]
  asStr
    | .objectObserved => "object.observed"
    | .objectAppeared => "object.appeared"
    | .objectChanged => "object.changed"
    | .objectDisappeared => "object.disappeared"
    | .relationAdded => "relation.added"
    | .relationRemoved => "relation.removed"
    | .actionRequested => "action.requested"
    | .actionAuthorized => "action.authorized"
    | .actionExecuted => "action.executed"
    | .actionCompleted => "action.completed"
    | .actionFailed => "action.failed"
    | .providerEvent => "provider.event"
    | .coverageStarted => "coverage.started"
    | .coverageEnded => "coverage.ended"
    | .checkpointCreated => "checkpoint.created"
    | .landmarkAdded => "landmark.added"
    | .landmarkRemoved => "landmark.removed"
  mem_all kind := by cases kind <;> decide
  spellings_nodup := by decide

/-- How well a field change is known. -/
inductive ChangeCertainty
  | observed
  | derived
  | inferred
  | unknown
deriving DecidableEq

instance : Vocabulary ChangeCertainty where
  all := [.observed, .derived, .inferred, .unknown]
  asStr
    | .observed => "observed"
    | .derived => "derived"
    | .inferred => "inferred"
    | .unknown => "unknown"
  mem_all certainty := by cases certainty <;> decide
  spellings_nodup := by decide

/-- One typed field change. -/
structure FieldChange where
  field : String
  before : Option Value
  after : Option Value
  certainty : ChangeCertainty

/-- A typed temporal record of a change, an observation or an action. -/
structure TemporalEvent where
  eventId : EventId
  kind : EventKind
  subtype : Option String
  scope : SpatialScope
  subject : Option SpatialRef
  related : List SpatialRef
  times : EventTimes
  before : Option Value
  after : Option Value
  changedFields : List FieldChange
  evidence : List EvidenceId
  causalParents : List CausalLinkId
  payload : Option Value
  provenance : Provenance

/-- The instant of an event. -/
def TemporalEvent.instant (event : TemporalEvent) : Int :=
  event.times.presentationInstant

/-- The canonical identities an event is about, its subject first. -/
def TemporalEvent.mentioned (event : TemporalEvent) : List SpatialId :=
  (event.subject.toList ++ event.related).filterMap SpatialRef.spatialId

end OnoSendai.Temporal
