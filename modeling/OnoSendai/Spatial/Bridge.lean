import OnoSendai.Spatial.Index
import OnoSendai.Spatial.Record

/-!
# The provider bridge

How provider records become places and edges (`ono_spatial_index::bridge`). A batch of records is
absorbed in four passes: the records are registered, the places they only name are made, the
relations they and earlier records assert are settled where their far end is known, and the
directories that enclose them are recorded. What cannot be settled waits for a later batch.

The table of keys is modelled by its insertions, latest first: looking a key up finds the latest.
-/

namespace OnoSendai.Spatial

/-! ### Reference keys -/

/-- The insertions of a table from kinds and keys to places, latest first. -/
abbrev KeyTable : Type :=
  List ((SpatialType × String) × SpatialId)

/-- The place a reference of a kind leads to: of the kind itself, of the kind it generalises to, or
of the first kind that is one of it. -/
def KeyTable.resolve (keys : KeyTable) (kind : SpatialType) (key : String) : Option SpatialId :=
  (keys.lookup (kind, key)).or <|
    (kind.generalisesTo.bind fun general => keys.lookup (general, key)).or <|
      (SpatialType.all.filter fun special => special.isA kind && special != kind).findSome?
        fun special => keys.lookup (special, key)

/-! ### The bridge -/

/-- A path whose enclosing directory is not known yet. -/
structure PathParent where
  child : SpatialId
  parentPath : String

/-- The bridge between records and the index: the keys it has seen, and the assertions that wait
for their far end. -/
structure ProviderBridge where
  keys : KeyTable
  pending : List Fact
  pendingPaths : List PathParent

/-- A bridge that has seen nothing. -/
def ProviderBridge.new : ProviderBridge :=
  ⟨[], [], []⟩

/-- What absorbing a batch did. -/
structure Absorbed where
  added : List SpatialId
  reconciled : List SpatialId
  unplaced : List String
  refused : List (ErrorValue ⊕ IdentityConflict)
  edges : Nat

/-- A batch while it is absorbed. -/
structure Pass where
  index : SpatialIndex
  keys : KeyTable
  facts : List Fact
  paths : List PathParent
  outcome : Absorbed

/-- The outcome with a registration counted. -/
def Absorbed.registered (outcome : Absorbed) (id : SpatialId) : Registration → Absorbed
  | .added => { outcome with added := outcome.added ++ [id] }
  | .reconciled => { outcome with reconciled := outcome.reconciled ++ [id] }

namespace Pass

variable (reader : Reader) (instant : Int)

/-- What a registered record says of its place, recorded. -/
def read (kind : SpatialType) (record : RecordValue) (id : SpatialId) (pass : Pass) : Pass :=
  let asserted := reader.factsOf id record kind
  let named := (reader.aliasesFrom kind record).foldl (fun index name => (index.addAlias id name).2)
    pass.index
  { index := asserted.withheld.foldl (fun index refusal =>
      (index.recordWithheld refusal.subject refusal.label refusal.state refusal.detail).2) named
    keys := (reader.referenceKeys kind record).foldl (fun keys key => ((kind, key), id) :: keys)
      pass.keys
    facts := pass.facts ++ asserted.facts
    paths := pass.paths ++ ((reader.enclosingDirectory kind record).map fun path =>
      PathParent.mk id path).toList
    outcome := pass.outcome }

/-- The first pass: a record becomes a place, or is counted as none. -/
def note (pass : Pass) (record : RecordValue) : Pass :=
  match reader.spatialTypeOf record with
  | none =>
    let schema := schemaText record.schema.id
    if schema ∈ pass.outcome.unplaced then pass
    else { pass with
      outcome := { pass.outcome with unplaced := pass.outcome.unplaced ++ [schema] } }
  | some kind =>
    match reader.projectAs record kind with
    | .error error => { pass with
        outcome := { pass.outcome with refused := pass.outcome.refused ++ [.inl error] } }
    | .ok object =>
      match pass.index.register reader.geography object instant with
      | (.error conflict, _) => { pass with
          outcome := { pass.outcome with refused := pass.outcome.refused ++ [.inr conflict] } }
      | (.ok registration, index) =>
        read reader kind record object.spatialId { pass with
          index := index
          outcome := pass.outcome.registered object.spatialId registration }

/-- Registers a place that was made from its key. -/
def make (kind : SpatialType) (key : String) (place : SpatialObject) (pass : Pass) : Pass :=
  match pass.index.register reader.geography place instant with
  | (.error conflict, _) => { pass with
      outcome := { pass.outcome with refused := pass.outcome.refused ++ [.inr conflict] } }
  | (.ok registration, index) => { pass with
      index := index
      keys := ((kind, key), place.spatialId) :: pass.keys
      outcome := pass.outcome.registered place.spatialId registration }

/-- The second pass: a place that is only named is made from its key. -/
def compose (pass : Pass) (fact : Fact) : Pass :=
  match fact.far with
  | .known _ _ => pass
  | .composed kind schema field key =>
    match pass.keys.resolve kind key with
    | some _ => pass
    | none => pass.make reader instant kind key (reader.derive kind schema field key fact.provenance)

end Pass

/-- The edge an assertion makes, where its far end is known. -/
def settle (keys : KeyTable) (instant : Int) (fact : Fact) : Option RelationshipEdge :=
  (keys.resolve fact.far.objectType fact.far.key).map fun far =>
    { source := if fact.subjectIsSource then fact.subject else far
      target := if fact.subjectIsSource then far else fact.subject
      relation := fact.relation
      direction := fact.relation.direction
      confidence := fact.confidence
      provenance := fact.provenance
      observedAt := instant
      attributes := fact.attributes }

/-- The index, the assertions that wait and the edges counted, while assertions are settled. -/
structure Settling where
  index : SpatialIndex
  pending : List Fact
  edges : Nat

/-- The third pass: an assertion becomes an edge, waits, or is dropped with its subject. -/
def Settling.step (geography : Geography) (keys : KeyTable) (instant : Int) (state : Settling)
    (fact : Fact) : Settling :=
  match settle keys instant fact with
  | some edge => ⟨state.index.recordEdge geography edge, state.pending, state.edges + 1⟩
  | none =>
    if state.index.contains fact.subject then { state with pending := state.pending ++ [fact] }
    else state

/-- The fourth pass: an enclosing directory is recorded, or waits. -/
def placePath (geography : Geography) (keys : KeyTable)
    (state : SpatialIndex × List PathParent) (path : PathParent) : SpatialIndex × List PathParent :=
  match keys.resolve .directory path.parentPath with
  | some parent =>
    match state.1.setPathParent geography path.child parent with
    | (true, index) => (index, state.2)
    | (false, index) =>
      if index.contains path.child then (index, state.2 ++ [path]) else (index, state.2)
  | none =>
    if state.1.contains path.child then (state.1, state.2 ++ [path]) else state

namespace ProviderBridge

variable (reader : Reader) (bridge : ProviderBridge) (index : SpatialIndex)
  (records : List RecordValue) (instant : Int)

/-- A batch after its records were registered. -/
def noted : Pass :=
  records.foldl (Pass.note reader instant)
    ⟨index, bridge.keys, bridge.pending, bridge.pendingPaths, ⟨[], [], [], [], 0⟩⟩

/-- What a batch has to settle: the assertions that waited, and those of its records. -/
def assertions : List Fact :=
  (bridge.noted reader index records instant).facts

/-- A batch after the places it only names were made. -/
def composed : Pass :=
  (bridge.assertions reader index records instant).foldl (Pass.compose reader instant)
    (bridge.noted reader index records instant)

/-- The state of a batch after its assertions were settled. -/
def settled : Settling :=
  let pass := bridge.composed reader index records instant
  (bridge.assertions reader index records instant).foldl
    (Settling.step reader.geography pass.keys instant) ⟨pass.index, [], 0⟩

/-- Absorbs a batch of records. -/
def absorb : Absorbed × ProviderBridge × SpatialIndex :=
  let pass := bridge.composed reader index records instant
  let state := bridge.settled reader index records instant
  let placed := pass.paths.foldl (placePath reader.geography pass.keys) (state.index, [])
  ({ pass.outcome with edges := state.edges }, ⟨pass.keys, state.pending, placed.2⟩, placed.1)

/-- The edges a batch records, in order. -/
def recordedEdges : List RelationshipEdge :=
  (bridge.assertions reader index records instant).filterMap
    (settle (bridge.composed reader index records instant).keys instant)

end ProviderBridge

end OnoSendai.Spatial
