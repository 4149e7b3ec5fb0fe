import OnoSendai.Temporal.Query

/-!
# The persistent ledger

The ledger that outlives a session: tables of rows, the statements that write and read them, and the
sweep that removes history the retention policy no longer keeps.

A table is the list of its rows and a statement what it selects, orders and deletes; texts are
compared byte by byte. An event row has the columns a statement reads. Its other columns and its
body are what the event is read back from, and are carried here as that event. How large the store
is on disk is not a matter of its rows: a sweep is given the sizes it measures.
-/

namespace OnoSendai.Temporal

/-! ### Rows -/

/-- An instant as the store holds it, or none where it is outside the range of a 64-bit count. -/
def nanos (instant : Int) : Option Int :=
  if -2 ^ 63 ≤ instant ∧ instant < 2 ^ 63 then some instant else none

/-- The columns of one event row that a statement reads, and the event the row is read back as. -/
structure EventRow where
  eventId : String
  kind : String
  scopePath : String
  presentationNanos : Int
  subjects : List String
  event : TemporalEvent

/-- The row of an event, or none where one of its instants is outside the range that is stored. -/
def eventColumns (event : TemporalEvent) : Option EventRow := do
  let presentationNanos ← nanos event.instant
  let _ ← event.times.sourceTime.elim (some ()) fun instant => (nanos instant).map fun _ => ()
  let _ ← nanos event.times.observedAt
  let _ ← nanos event.times.ingestedAt
  some
    { eventId := event.eventId.text
      kind := Vocabulary.asStr event.kind
      scopePath := scopePath event.scope
      presentationNanos
      subjects := event.mentioned.map SpatialId.text
      event }

/-- The columns of one coverage interval. -/
structure CoverageRow where
  scopePath : String
  capability : String
  from' : Int
  until' : Int
  completeness : TemporalCompleteness
  samplingInterval : Option Int
  source : EvidenceSource
  permission : PermissionState

/-- Reads an interval back, where its path is one of a scope. -/
def readCoverage (row : CoverageRow) : Option TemporalCoverage :=
  (readScopePath row.scopePath).toOption.map fun scope =>
    { scope
      capability := row.capability
      from' := row.from'
      until' := row.until'
      completeness := row.completeness
      samplingInterval := row.samplingInterval
      source := row.source
      permission := row.permission }

/-- Whether a path is one of those under a scope. -/
def inScope (scope : SpatialScope) (path : String) : Bool :=
  scopePath scope ≤ path && path < scopeUpperBound (scopePath scope)

/-! ### The store -/

/-- What the store is allowed to keep. -/
structure RetentionPolicy where
  maxAge : Option Int
  maxSize : Option Nat
  batch : Nat

/-- Whether either bound is in force. -/
def RetentionPolicy.isBounded (policy : RetentionPolicy) : Bool :=
  policy.maxAge.isSome || policy.maxSize.isSome

/-- The store: its retention policy and its tables. -/
structure LedgerStore where
  retention : RetentionPolicy
  events : List EventRow
  evidence : List Evidence
  links : List CausalLink
  coverage : List CoverageRow
  actions : List ActionEvent
  checkpoints : List Checkpoint

/-- Whether a row comes before another in the order of instants, then of identities. -/
def RowBefore (a b : EventRow) : Prop :=
  a.presentationNanos < b.presentationNanos ∨
    (a.presentationNanos = b.presentationNanos ∧ a.eventId ≤ b.eventId)

instance : DecidableRel RowBefore :=
  fun _ _ => inferInstanceAs (Decidable (_ ∨ _))

namespace LedgerStore

variable (store : LedgerStore)

/-! ### Appending events -/

/-- Inserts an event unless a row of its identity is there, and counts which it was. -/
def insertEvent (held : List EventRow × Appended) (event : TemporalEvent) :
    Option (List EventRow × Appended) :=
  (eventColumns event).map fun row =>
    if held.1.any fun other => other.eventId = row.eventId then
      (held.1, { held.2 with duplicates := held.2.duplicates + 1 })
    else (held.1 ++ [row], { held.2 with stored := held.2.stored + 1 })

/-- Stores events and evidence in one transaction, or none of them. -/
def append (events : List TemporalEvent) (evidence : List Evidence) :
    Option (LedgerStore × Appended) :=
  (events.foldlM insertEvent (store.events, ⟨0, 0⟩)).map fun (rows, appended) =>
    ({ store with
        events := rows
        evidence := evidence.foldl (pushNew Evidence.evidenceId) store.evidence }, appended)

/-! ### Reading events -/

/-- The end of the range of texts that begin in one way. -/
def upperBound (beginning : String) : String :=
  beginning.push (Char.ofNat 0x10ffff)

/-- One event by reference, which may be shortened: the first two rows of the range decide. -/
def event (id : EventId) : Lookup :=
  match (store.events.filter fun row =>
    id.text ≤ row.eventId && row.eventId < upperBound id.text).take 2 with
  | [] => .ok none
  | [only] => .ok (some only.event)
  | many => .error (many.map (·.event.eventId))

/-- The greatest identity below one. -/
def below (id : String) : Option String :=
  ((store.events.map (·.eventId)).filter (· < id)).max?

/-- The least identity above one. -/
def above (id : String) : Option String :=
  ((store.events.map (·.eventId)).filter (id < ·)).min?

/-- A length that also tells an identity from a neighbour, where there is one. -/
def lengthened (id : String) (length : Nat) : Option String → Nat
  | some neighbour => max length (distinguishingLength id neighbour)
  | none => length

/-- How long the start of each identity has to be to name at most one event. -/
def shortestUniquePrefixes (ids : List EventId) (minimum : Nat) : List Nat :=
  let floor := max minimum 1
  ids.map fun id =>
    [store.below id.text, store.above id.text].foldl (lengthened id.text)
      (min floor id.text.toList.length)

end LedgerStore

/-! ### Reading coverage -/

/-- What a caller wants from the coverage record. -/
structure CoverageQuery where
  scope : Option SpatialScope
  capabilities : List String
  range : TimeRange

/-- Whether an interval comes before another in the order they are read in. -/
def IntervalBefore (a b : CoverageRow) : Prop :=
  a.from' < b.from' ∨ (a.from' = b.from' ∧ a.until' ≤ b.until')

instance : DecidableRel IntervalBefore :=
  fun _ _ => inferInstanceAs (Decidable (_ ∨ _))

namespace LedgerStore

variable (store : LedgerStore)

/-- The conditions a query puts on the coverage. -/
def coverageSelection (query : CoverageQuery) : Option (CoverageRow → Bool) := do
  let start ← query.range.from'.elim (some none) fun start => (nanos start).map some
  let finish ← query.range.until'.elim (some none) fun finish => (nanos finish).map some
  some fun row =>
    (query.scope.all fun scope => inScope scope row.scopePath) &&
      (query.capabilities.isEmpty || query.capabilities.contains row.capability) &&
      (start.all (· ≤ row.until')) && finish.all (row.from' ≤ ·)

/-- The intervals that match a query and can be read back. -/
def coverageOf (query : CoverageQuery) : Option (List TemporalCoverage) :=
  (coverageSelection query).map fun select =>
    ((store.coverage.filter select).insertionSort IntervalBefore).filterMap readCoverage

/-! ### Retention -/

/-- The rows one round of a sweep removes: the oldest, those behind the horizon unless the store is
too large. -/
def oldestEvents (horizon : Int) (overSize : Bool) (take : Nat) (events : List EventRow) :
    List EventRow :=
  ((if overSize then events else events.filter (·.presentationNanos < horizon)).insertionSort
    RowBefore).take take

/-- The rows that are left when some are deleted by identity. -/
def without (gone events : List EventRow) : List EventRow :=
  events.filter fun row => !gone.any fun other => other.eventId = row.eventId

/-- What the rounds of a sweep did. -/
structure Rounds where
  removed : List EventRow
  kept : List EventRow
  complete : Bool
  measurements : Nat

/-- The rounds of a sweep: each removes at most 256 of the rows that may still be removed, until
there is nothing to remove or the batch is full. -/
def rounds (horizon : Int) (overSize : Nat → Bool) (budget measurements : Nat)
    (events : List EventRow) : Rounds :=
  if budget = 0 then ⟨[], events, false, measurements⟩
  else
    let gone := oldestEvents horizon (overSize measurements) (min budget 256) events
    if gone.length = 0 then ⟨[], events, true, measurements + 1⟩
    else
      let rest := rounds horizon overSize (budget - gone.length) (measurements + 1)
        (without gone events)
      { rest with removed := gone ++ rest.removed }
termination_by budget
decreasing_by exact Nat.sub_lt (by omega) (Nat.pos_of_ne_zero (by assumption))

/-- The instant before which an event is too old, or the least one where there is no such. -/
def horizonAt (policy : RetentionPolicy) (now : Int) : Int :=
  match policy.maxAge with
  | some age => (nanos (max (-2 ^ 127) (min (2 ^ 127 - 1) (now - age)))).getD (-2 ^ 63)
  | none => -2 ^ 63

/-- Whether the store is over its size, by the size that is measured. -/
def isOverSize (policy : RetentionPolicy) (measured : Nat) : Bool :=
  policy.maxSize.any (· < measured)

/-- The capability a retention boundary covers: all of them. -/
def retentionCapability : String :=
  "*"

/-- Inserts an interval in the place of the one with its key. -/
def replaceInterval (rows : List CoverageRow) (row : CoverageRow) : List CoverageRow :=
  rows.filter (fun other => !(other.scopePath = row.scopePath && other.capability = row.capability &&
    other.source = row.source && other.from' = row.from' && other.until' = row.until' &&
    other.completeness = row.completeness)) ++ [row]

/-- The interval that stands for the ones a scope lost. -/
def retentionRow (expired : List CoverageRow) (boundary : Int) (path : String) : CoverageRow where
  scopePath := path
  capability := retentionCapability
  from' := (((expired.filter (·.scopePath = path)).map (·.from')).min?).getD boundary
  until' := boundary
  completeness := .unavailable
  samplingInterval := none
  source := .recorder
  permission := .available

/-- The coverage after the intervals that end before a boundary were removed. -/
def expireCoverage (boundary : Int) (rows : List CoverageRow) : List CoverageRow :=
  let expired := rows.filter (·.until' < boundary)
  (distinctTexts (expired.map (·.scopePath))).foldl
    (fun rows path => replaceInterval rows (retentionRow expired boundary path))
    (rows.filter fun row => !(row.until' < boundary))

/-- Whether a checkpoint before a boundary has a newer one before it, of the same path. -/
def superseded (boundary : Int) (checkpoints : List Checkpoint) (checkpoint : Checkpoint) : Bool :=
  checkpoint.capturedAt < boundary && checkpoints.any fun newer =>
    scopePath newer.scope = scopePath checkpoint.scope &&
      checkpoint.capturedAt < newer.capturedAt && newer.capturedAt < boundary

/-- What one sweep removed. -/
structure Swept where
  events : Nat
  evidence : Nat
  checkpoints : Nat
  actions : Nat
  coverage : Nat
  links : Nat
  complete : Bool

/-- The rows a sweep removes and keeps. -/
def swept (now : Int) (measured : Nat → Nat) : Rounds :=
  rounds (horizonAt store.retention now) (fun round => isOverSize store.retention (measured round))
    store.retention.batch 0 store.events

/-- The instant what is kept begins at: that of the oldest event, or the horizon where a sweep with
an age bound left none. -/
def boundaryAt (now : Int) (measured : Nat → Nat) : Option Int :=
  ((store.swept now measured).kept.map (·.presentationNanos)).min? <|>
    if (store.swept now measured).removed.length > 0 && store.retention.maxAge.isSome then
      some (horizonAt store.retention now)
    else none

/-- Removes expired history, oldest first, with what refers to it. -/
def sweep (now : Int) (measured : Nat → Nat) : LedgerStore × Swept :=
  if !store.retention.isBounded then (store, ⟨0, 0, 0, 0, 0, 0, true⟩)
  else
    let rounds := store.swept now measured
    let boundary := store.boundaryAt now measured
    -- links go with their events, by cascade
    let cascaded := store.links.filter fun link => !rounds.removed.any fun row =>
      row.eventId = link.cause.text || row.eventId = link.effect.text
    let evidence := store.evidence.filter fun record =>
      !(record.observedAt < boundary.getD (2 ^ 63 - 1) &&
        !rounds.kept.any (fun row => row.event.evidence.contains record.evidenceId) &&
        !cascaded.any (fun link => link.evidence.contains record.evidenceId) &&
        !store.evidence.any (fun other => other.derivedFrom.contains record.evidenceId))
    let checkpoints := match boundary with
      | some boundary => store.checkpoints.filter fun checkpoint =>
          !superseded boundary store.checkpoints checkpoint
      | none => store.checkpoints
    let actions := match boundary with
      | some boundary => store.actions.filter fun action => !(action.requestedAt < boundary)
      | none => store.actions
    let coverage := match boundary with
      | some boundary => expireCoverage boundary store.coverage
      | none => store.coverage
    let links := cascaded.filter fun link =>
      rounds.kept.any (·.eventId = link.cause.text) &&
        rounds.kept.any (·.eventId = link.effect.text)
    ({ store with events := rounds.kept, evidence, links, coverage, actions, checkpoints },
      { events := rounds.removed.length
        evidence := store.evidence.length - evidence.length
        checkpoints := store.checkpoints.length - checkpoints.length
        actions := store.actions.length - actions.length
        coverage := boundary.elim 0 fun boundary =>
          (store.coverage.filter (·.until' < boundary)).length
        links := cascaded.length - links.length
        complete := rounds.complete &&
          !(isOverSize store.retention (measured rounds.measurements) &&
            !rounds.kept.isEmpty) })

end LedgerStore

end OnoSendai.Temporal
