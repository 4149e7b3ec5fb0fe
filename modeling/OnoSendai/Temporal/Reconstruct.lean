import OnoSendai.Lib.Contest
import OnoSendai.Temporal.Changes
import OnoSendai.Temporal.Replay

/-!
# Reconstructing a past instant

The state of a scope at an instant is put together from the nearest trusted checkpoint, the events
replayed from there on and what providers answer about the past. What was seen of an object is its
supports; what was read of its fields, its readings. What a reading supports at the instant is
decided field by field: a reading at the instant or one a provider answers for it is known, an
earlier one where complete coverage reaches from it to the instant, and any other one is not.
-/

namespace OnoSendai.Temporal

open Keyed Contest

/-! ### What is asked, and of what -/

/-- What a caller wants reconstructed, and for when. -/
structure ReconstructionRequest where
  scope : SpatialScope
  at' : Int
  since : Option Int

/-- One provider's answer about one object at one instant. -/
structure HistoricalAnswer where
  subject : SpatialId
  objectType : SpatialType
  label : String
  record : RecordValue
  observedAt : Int
  validFrom : Option Int
  validUntil : Option Int
  source : EvidenceSource
  strength : EvidenceStrength

/-- Whether the interval an answer is valid over covers an instant. -/
def HistoricalAnswer.speaksTo (answer : HistoricalAnswer) (at' : Int) : Bool :=
  match answer.validFrom, answer.validUntil with
  | some from', some until' => from' ≤ at' && at' ≤ until'
  | some from', none => from' ≤ at'
  | none, some until' => at' ≤ until'
  | none, none => answer.observedAt = at'

/-- What a source can say about time. -/
structure TemporalCapabilities where
  currentSnapshot : Bool
  liveEvents : Bool
  historicalQuery : Bool
  exhaustiveEvents : Bool
  causalTokens : Bool
  checkpointable : Bool
  retainedHistory : Option Int

/-- What the sources declared; a source that is not there declared nothing. -/
abbrev SourceMatrix := List (EvidenceSource × TemporalCapabilities)

/-- Whether a package contributed the evidence. -/
def EvidenceSource.isPlugin (source : EvidenceSource) : Bool :=
  (stripBeginning "kuang:" source.text.toList).isSome

/-- What the structure of a path in the past may rest on. -/
inductive StructureSupport
  | checkpoint
  | snapshotProvider
  | auditEvidence
  | kuangProvider

/-- What a source provides for the structure of a path. -/
def SourceMatrix.structureSupport (matrix : SourceMatrix) (source : EvidenceSource)
    (fromCheckpoint : Bool) : Option StructureSupport :=
  let declared := matrix.lookup source
  if fromCheckpoint then some .checkpoint
  else if source.isPlugin then some .kuangProvider
  else if declared.any (·.historicalQuery) then some .snapshotProvider
  else if declared.any (·.exhaustiveEvents) then some .auditEvidence
  else none

/-- Whether an object is part of the structure of a path. -/
def isPathStructure (objectType : SpatialType) : Bool :=
  objectType.name = "File" || objectType.name = "Directory"

/-- The capability that the existence of objects is covered under. -/
def existenceCapability (objectType : SpatialType) : String :=
  objectType.name.toLower ++ ".existence"

/-- The capability that a field of objects is covered under. -/
def fieldCapability (objectType : SpatialType) (name : String) : String :=
  objectType.name.toLower ++ "." ++ name

/-! ### The checkpoint to start from -/

/-- One reading of one field. -/
structure Reading where
  at' : Int
  value : Value
  source : EvidenceSource
  strength : EvidenceStrength
  validFrom : Option Int
  validUntil : Option Int
  answered : Bool

/-- What one observation says about whether something was there. -/
structure Support where
  at' : Int
  sequence : Nat
  present : Bool
  source : EvidenceSource
  fromCheckpoint : Bool

/-- One object as it is being put together, its readings with the fields they are of. -/
structure Working where
  objectType : SpatialType
  label : String
  supports : List Support
  readings : List (String × Reading)
  recordAt : Option Int
  sources : List EvidenceSource

/-- An object nothing was gathered about. -/
def Working.new (objectType : SpatialType) (label : String) : Working where
  objectType
  label
  supports := []
  readings := []
  recordAt := none
  sources := []

/-- The readings of a record: one for each field that has a value. -/
def recordReadings (record : RecordValue) (reading : Value → Reading) : List (String × Reading) :=
  record.schema.fields.filterMap fun field =>
    ((record.get field).filter fun value => !value.isNull).map fun value => (field, reading value)

namespace Working

/-- Keeps the instant of the latest record. -/
def observeRecord (working : Working) (at' : Int) : Working :=
  if working.recordAt.all (· ≤ at') then { working with recordAt := some at' } else working

/-- Adds readings, and their sources. -/
def read (working : Working) (readings : List (String × Reading)) : Working :=
  { working with
    readings := working.readings ++ readings
    sources := working.sources ++ readings.map (·.2.source) }

/-- Adds a support. -/
def support (working : Working) (support : Support) : Working :=
  { working with supports := working.supports ++ [support] }

/-- Adds a source. -/
def hear (working : Working) (source : EvidenceSource) : Working :=
  { working with sources := working.sources ++ [source] }

/-- The readings of one field. -/
def readingsOf (working : Working) (name : String) : List Reading :=
  (working.readings.filter (·.1 = name)).map (·.2)

/-- The support that stands at an instant: the latest, of several the last in the replay. -/
def lastSupport (working : Working) (at' : Int) : Option Support :=
  lastGreatest (fun support => toLex (support.at', support.sequence))
    (working.supports.filter (·.at' ≤ at'))

end Working

/-- The objects as they are being put together. -/
abbrev Objects := List (SpatialId × Working)

/-- Changes what is gathered about an object, which is added where it is not there. -/
def alter (id : SpatialId) (objectType : SpatialType) (label : String)
    (change : Working → Working) (objects : Objects) : Objects :=
  Keyed.upsert id (change (.new objectType label)) change objects

/-! ### The checkpoint -/

/-- What an object of a checkpoint adds. -/
def seedWorking (object : ObjectState) (working : Working) : Working :=
  (((working.support ⟨object.observedAt, 0, true, object.source, true⟩).hear
      object.source).observeRecord object.observedAt).read
    (recordReadings object.record fun value =>
      ⟨object.observedAt, value, object.source, .observational, none, none, false⟩)

/-- Starts from the objects of a checkpoint. -/
def seedFrom (checkpoint : Checkpoint) (objects : Objects) : Objects :=
  checkpoint.objects.foldl (fun objects object =>
    alter object.id object.objectType object.label (seedWorking object) objects) objects

/-! ### The events -/

/-- The source behind an event. -/
def sourceOf (event : TemporalEvent) : EvidenceSource :=
  if h : isSource event.provenance.provider = true then ⟨event.provenance.provider, h⟩
  else .session

/-- The weakest strength among the evidence an event cites. -/
def strengthOf (strengths : List (EvidenceId × EvidenceStrength)) (event : TemporalEvent) :
    EvidenceStrength :=
  match event.evidence.filterMap fun id => strengths.reverse.lookup id with
  | [] => .observational
  | first :: rest => rest.foldl EvidenceStrength.weakestOf first

/-- The record an event says an object had after it. -/
def afterRecord (event : TemporalEvent) : Option RecordValue :=
  match event.after with
  | some (.record schema fields extra provenance) => some ⟨schema, fields, extra, provenance⟩
  | _ => none

/-- The readings of an event: those of its record, then those of the fields it says changed. -/
def eventReadings (strengths : List (EvidenceId × EvidenceStrength)) (event : TemporalEvent) :
    List (String × Reading) :=
  let reading := fun value : Value =>
    (⟨event.instant, value, sourceOf event, strengthOf strengths event, none, none, false⟩ : Reading)
  ((afterRecord event).elim [] fun record => recordReadings record reading) ++
    event.changedFields.filterMap fun change =>
      (change.after.filter fun value => !value.isNull).map fun value => (change.field, reading value)

/-- Adds the readings of an event, and the instant of its record unless it is still to come. -/
def readEventFields (strengths : List (EvidenceId × EvidenceStrength)) (event : TemporalEvent)
    (future : Bool) (working : Working) : Working :=
  (if (afterRecord event).isSome && !future then working.observeRecord event.instant
    else working).read (eventReadings strengths event)

/-- What an event says about whether its subject is there, or none where it says nothing. -/
def eventPresence : EventKind → Option Bool
  | .objectObserved | .objectAppeared | .objectChanged => some true
  | .objectDisappeared => some false
  | _ => none

/-- What an event adds to its subject. -/
def applyWorking (strengths : List (EvidenceId × EvidenceStrength)) (event : TemporalEvent)
    (sequence : Nat) (working : Working) : Working :=
  let heard := working.hear (sourceOf event)
  match eventPresence event.kind with
  | some present =>
    readEventFields strengths event false
      (heard.support ⟨event.instant, sequence, present, sourceOf event, false⟩)
  | none => heard

/-- Applies an event at or before the instant. -/
def applyEvent (strengths : List (EvidenceId × EvidenceStrength)) (event : TemporalEvent)
    (sequence : Nat) (objects : Objects) : Objects :=
  if event.isRelation then objects
  else match event.subject with
    | some (.resolved id objectType label) =>
      alter id objectType label (applyWorking strengths event sequence) objects
    | _ => objects

/-- Applies an event after the instant: its readings are what comes next, and it adds no object. -/
def applyFuture (strengths : List (EvidenceId × EvidenceStrength)) (event : TemporalEvent)
    (objects : Objects) : Objects :=
  match event.subject.bind SpatialRef.spatialId with
  | some id => objects.map fun (other, working) =>
      (other, if other = id then readEventFields strengths event true working else working)
  | none => objects

/-- Applies the events at or before the instant one after another. -/
def applyPast (strengths : List (EvidenceId × EvidenceStrength)) :
    Nat → List TemporalEvent → Objects → Objects
  | _, [], objects => objects
  | sequence, event :: events, objects =>
    applyPast strengths (sequence + 1) events (applyEvent strengths event (sequence + 1) objects)

/-- Replays events in order: those up to the instant, then those behind it. -/
def replay (at' : Int) (strengths : List (EvidenceId × EvidenceStrength))
    (events : List TemporalEvent) (objects : Objects) : Objects :=
  (events.filter fun event => at' < event.instant).foldl
    (fun objects event => applyFuture strengths event objects)
    (applyPast strengths 0 (events.filter fun event => event.instant ≤ at') objects)

/-! ### The answers of providers -/

/-- What an answer adds to its subject. -/
def answerWorking (at' : Int) (sequence : Nat) (answer : HistoricalAnswer) (working : Working) :
    Working :=
  let heard := working.hear answer.source
  (if answer.observedAt ≤ at' then
      (heard.support ⟨answer.observedAt, sequence, true, answer.source, false⟩).observeRecord
        answer.observedAt
    else heard).read
    (recordReadings answer.record fun value =>
      ⟨answer.observedAt, value, answer.source, answer.strength, answer.validFrom,
        answer.validUntil, answer.speaksTo at'⟩)

/-- Merges one answer, unless it was observed later and does not speak to the instant. -/
def mergeAnswer (at' : Int) (sequence : Nat) (objects : Objects) (answer : HistoricalAnswer) :
    Objects :=
  if at' < answer.observedAt && !answer.speaksTo at' then objects
  else
    alter answer.subject answer.objectType answer.label (answerWorking at' sequence answer) objects

/-- Merges what providers answered. -/
def mergeAnswers (at' : Int) (sequence : Nat) (answers : List HistoricalAnswer)
    (objects : Objects) : Objects :=
  answers.foldl (mergeAnswer at' sequence) objects

/-! ### What is supported at the instant -/

/-- Whether something was there. -/
inductive Presence
  | present
  | absent
  | unknown

/-- One reading of a field as it is reported. -/
structure Observation where
  value : Value
  at' : Int
  source : EvidenceSource

/-- What is known about a field at the instant. -/
inductive FieldKnowledge
  | known (value : Value) (validFrom validUntil : Option Int)
  | unknownInInterval (last next : Option Observation)
  | unobserved

/-- One field with how it is known. -/
structure ReconstructedField where
  name : String
  knowledge : FieldKnowledge
  completeness : TemporalCompleteness
  certainty : ChangeCertainty
  strength : EvidenceStrength
  sources : List EvidenceSource

/-- The span of complete coverage that reaches from one instant to another. -/
def completeSpan (intervals : List TemporalCoverage) (capability : String) (from' until' : Int) :
    Option (Int × Int) :=
  let spans := (intervals.filter fun interval =>
    interval.capability = capability && interval.completeness = .complete).map fun interval =>
      (interval.from', interval.until')
  ((spans.insertionSort SpanBefore).foldl joinSpan []).reverse.find? fun span =>
    span.1 ≤ from' && until' ≤ span.2

/-- Whether what a support is of was there at an instant. -/
def presenceAt (last : Support) (at' : Int) (intervals : List TemporalCoverage)
    (capability : String) : Presence :=
  if last.at' = at' || (completeSpan intervals capability last.at' at').isSome then
    if last.present then .present else .absent
  else .unknown

/-- What readings are chosen by: the latest, then the strongest, then one that was answered, then
the one whose source comes last. -/
def Reading.standing (reading : Reading) : ℤ ×ₗ ℕ ×ₗ Bool ×ₗ String :=
  toLex (reading.at', toLex (reading.strength.rank, toLex (reading.answered, reading.source.text)))

/-- The reading that is reported: the last of the greatest, as a stable sort leaves it. -/
def chosenReading (readings : List Reading) (at' : Int) : Option Reading :=
  lastGreatest Reading.standing (readings.filter (·.at' ≤ at'))

/-- The first reading after an instant. -/
def nextReading (readings : List Reading) (after : Int) : Option Reading :=
  firstLeast (fun reading => toLex (reading.at', reading.source.text))
    (readings.filter (after < ·.at'))

/-- A reading as it is reported. -/
def Reading.observation (reading : Reading) : Observation where
  value := reading.value
  at' := reading.at'
  source := reading.source

/-- What a chosen reading supports at an instant, and how the value was arrived at. -/
def knowledgeOf (chosen : Reading) (next : Option Reading) (at' : Int)
    (span : Option (Int × Int)) : FieldKnowledge × ChangeCertainty :=
  if chosen.answered then (.known chosen.value chosen.validFrom chosen.validUntil, .observed)
  else if chosen.at' = at' then (.known chosen.value none none, .observed)
  else match span with
    | some (_, finish) =>
      (.known chosen.value (some chosen.at')
        (some (next.elim finish fun reading => min reading.at' finish)), .derived)
    | none =>
      (.unknownInInterval (some chosen.observation) (next.map Reading.observation), .unknown)

/-- What the readings of a field support at an instant. -/
def reconstructField (objectType : SpatialType) (name : String) (readings : List Reading)
    (at' : Int) (intervals : List TemporalCoverage) (window : TimeRange) : ReconstructedField :=
  let capability := fieldCapability objectType name
  let own := intervals.filter fun interval => interval.capability = capability
  let completeness := ((CoverageSummary.compose own window).completenessOf capability).getD .unknown
  let sources := distinctSources (readings.map (·.source))
  match chosenReading readings at' with
  | none => ⟨name, .unobserved, completeness, .unknown, .observational, sources⟩
  | some chosen =>
    let (knowledge, certainty) := knowledgeOf chosen (nextReading readings chosen.at') at'
      (completeSpan intervals capability chosen.at' at')
    ⟨name, knowledge, completeness, certainty, chosen.strength, sources⟩

/-- One object as it is supported at the instant. -/
structure ReconstructedObject where
  id : SpatialId
  objectType : SpatialType
  label : String
  presence : Presence
  fields : List ReconstructedField
  observedAt : Int
  lifetimeFrom : Option Int
  lifetimeUntil : Option Int
  sources : List EvidenceSource

/-- Whether an object may be reported: a path needs evidence of its structure. -/
def hasStructure (matrix : SourceMatrix) (working : Working) : Bool :=
  !isPathStructure working.objectType || working.supports.any fun support =>
    (matrix.structureSupport support.source support.fromCheckpoint).isSome

/-- What was gathered about an object as it is reported, by the support that stands. -/
def reportObject (at' : Int) (intervals : List TemporalCoverage) (window : TimeRange)
    (id : SpatialId) (working : Working) (last : Support) : ReconstructedObject where
  id
  objectType := working.objectType
  label := working.label
  presence := presenceAt last at' intervals (existenceCapability working.objectType)
  fields := (distinctTexts (working.readings.map (·.1))).map fun name =>
    reconstructField working.objectType name (working.readingsOf name) at' intervals window
  observedAt := working.recordAt.getD last.at'
  lifetimeFrom := ((working.supports.filter fun support =>
    support.present && support.at' ≤ at').map (·.at')).min?
  lifetimeUntil := if last.present then none else some last.at'
  sources := distinctSources working.sources

/-- The report of an object, where a support stands at the instant and its structure is known. -/
def finishObject (at' : Int) (intervals : List TemporalCoverage) (matrix : SourceMatrix)
    (window : TimeRange) (id : SpatialId) (working : Working) : Option ReconstructedObject :=
  match working.lastSupport at' with
  | none => none
  | some last =>
    if hasStructure matrix working then some (reportObject at' intervals window id working last)
    else none

/-! ### The engine -/

/-- The reconstructed state of a scope at an instant. -/
structure ReconstructedWorld where
  scope : SpatialScope
  asOf : Int
  window : TimeRange
  objects : List ReconstructedObject
  coverage : CoverageSummary
  checkpoint : Option CheckpointId

/-- What a reconstruction finds in a ledger: the checkpoint it starts from, the events in the order
they are replayed in, how strong the evidence they cite is, and the window with its coverage. -/
structure Found where
  checkpoint : Option Checkpoint
  events : List TemporalEvent
  strengths : List (EvidenceId × EvidenceStrength)
  windowFrom : Int
  intervals : List TemporalCoverage

/-- What is gathered about every object. -/
def gathered (at' : Int) (found : Found) (answers : List HistoricalAnswer) : Objects :=
  let seeded := found.checkpoint.elim [] fun checkpoint => seedFrom checkpoint []
  let sequence := (found.events.filter fun event => event.instant ≤ at').length
  mergeAnswers at' sequence answers (replay at' found.strengths found.events seeded)

/-- The objects of what was gathered, in the order of their identities. -/
def finishObjects (at' : Int) (intervals : List TemporalCoverage) (matrix : SourceMatrix)
    (window : TimeRange) (objects : Objects) : List ReconstructedObject :=
  (objects.insertionSort fun one two => TextBefore one.1.text two.1.text).filterMap
    fun (id, working) => finishObject at' intervals matrix window id working

/-- The world that what was found and what was answered support at an instant. -/
def assemble (request : ReconstructionRequest) (found : Found) (answers : List HistoricalAnswer)
    (matrix : SourceMatrix) : ReconstructedWorld :=
  let window := TimeRange.between found.windowFrom request.at'
  { scope := request.scope
    asOf := request.at'
    window
    objects := finishObjects request.at' found.intervals matrix window
      (gathered request.at' found answers)
    coverage := CoverageSummary.compose found.intervals window
    checkpoint := found.checkpoint.map (·.checkpointId) }

namespace ReconstructedWorld

variable (world : ReconstructedWorld)

/-- One object by identity. -/
def object (id : SpatialId) : Option ReconstructedObject :=
  world.objects.find? (·.id = id)

end ReconstructedWorld

/-- One field of an object by name. -/
def ReconstructedObject.field (object : ReconstructedObject) (name : String) :
    Option ReconstructedField :=
  object.fields.find? (·.name = name)

end OnoSendai.Temporal
