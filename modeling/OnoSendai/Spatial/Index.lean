import Mathlib.Data.Finset.Basic
import Mathlib.Data.List.AList
import OnoSendai.Spatial.Hierarchy

/-!
# The spatial index

The discovery index of a session (`ono_spatial_index::index`): the places observed so far by
address, the names they answer to, the address each provider identity resolved to, and the
operations that change these.

The time at which an observation runs out is the freshness policy's; its spans and their
arithmetic stand behind it.
-/

namespace OnoSendai.Spatial

open Option Function

/-! ### What the index holds -/

/-- Everything known about one place. -/
structure IndexEntry where
  object : SpatialObject
  aliases : Finset String
  canonicalParent : Option HierarchicalEdge
  pathParent : Option SpatialId
  edges : List RelationshipEdge
  withheld : String → Option (PermissionState × String)
  landmarks : List String
  sources : Finset String
  sourcesOfRecord : String
  observedAt : Int
  subscribed : Bool

/-- When an observation of a kind of place made at an instant is forgotten, where that is an
instant. -/
structure FreshnessPolicy where
  deadline : SpatialType → Int → Option Int

/-- The scope a provider observed an object in, and its own identity for it. -/
abbrev ProviderKey : Type :=
  String × String

/-- The index of one session. -/
structure SpatialIndex where
  entries : AList fun _ : SpatialId => IndexEntry
  aliases : String → Finset SpatialId
  identities : ProviderKey → Option SpatialId
  freshness : FreshnessPolicy

/-- What a registration did. -/
inductive Registration
  | added
  | reconciled

/-- The refusal of an observation of one provider object under a second identity. -/
structure IdentityConflict where
  displayName : String
  known : SpatialId
  claimed : SpatialId

/-- Whether a provider is an adapter of an external command. -/
def isAdapted (provider : String) : Bool :=
  "adapter:".toList.isPrefixOf provider.toList

/-- What makes two observations the same provider object. -/
def providerKey (object : SpatialObject) : ProviderKey :=
  (String.intercalate "/" object.scope, object.canonicalRef.id)

namespace SpatialIndex

/-- An index that holds nothing. -/
def new (freshness : FreshnessPolicy) : SpatialIndex where
  entries := ∅
  aliases := fun _ => ∅
  identities := fun _ => none
  freshness := freshness

/-- The entry for a place. -/
def get (index : SpatialIndex) (id : SpatialId) : Option IndexEntry :=
  index.entries.lookup id

/-- Whether the index holds a place. -/
def contains (index : SpatialIndex) (id : SpatialId) : Bool :=
  (index.get id).isSome

/-- Holds an entry for a place. -/
def withEntry (index : SpatialIndex) (id : SpatialId) (entry : IndexEntry) : SpatialIndex :=
  { index with entries := index.entries.insert id entry }

/-- Changes the entry of a place the index holds. -/
def modify (index : SpatialIndex) (id : SpatialId) (change : IndexEntry → IndexEntry) :
    SpatialIndex :=
  match index.get id with
  | some entry => index.withEntry id (change entry)
  | none => index

/-! ### Operations -/

/-- The record a held place keeps when it is observed again: a provider's record is not replaced by
one decoded from a command's output. -/
def described (entry : IndexEntry) (object : SpatialObject) (instant : Int) : SpatialObject :=
  if isAdapted object.provenance.provider ∧ ¬ isAdapted entry.sourcesOfRecord then
    entry.object.seenAgain instant
  else object.seenAgain instant

/-- The entry of a held place after another observation of it. -/
def reconciled (object : SpatialObject) (instant : Int) (entry : IndexEntry) : IndexEntry :=
  { entry with
    object := described entry object instant
    sourcesOfRecord :=
      if isAdapted object.provenance.provider ∧ ¬ isAdapted entry.sourcesOfRecord then
        entry.sourcesOfRecord
      else object.provenance.provider
    sources := insert object.provenance.provider entry.sources
    observedAt := instant
    aliases := entry.aliases ∪ (aliasesOf object).toFinset }

/-- The entry of a place observed for the first time. -/
def added (geography : Geography) (object : SpatialObject) (instant : Int) : IndexEntry where
  object := object
  aliases := (aliasesOf object).toFinset
  canonicalParent := geography.canonicalParentWith object.spatialId object.objectType [] none
  pathParent := none
  edges := []
  withheld := fun _ => none
  landmarks := []
  sources := {object.provenance.provider}
  sourcesOfRecord := object.provenance.provider
  observedAt := instant
  subscribed := false

/-- The index with the identity and the names of an observed object recorded. -/
def named (object : SpatialObject) (index : SpatialIndex) : SpatialIndex :=
  { index with
    identities := update index.identities (providerKey object) (some object.spatialId)
    aliases := fun name =>
      if name ∈ aliasesOf object then insert object.spatialId (index.aliases name)
      else index.aliases name }

/-- Registers an observation. -/
def register (geography : Geography) (object : SpatialObject) (instant : Int)
    (index : SpatialIndex) : Except IdentityConflict Registration × SpatialIndex :=
  match (index.identities (providerKey object)).filter (· ≠ object.spatialId) with
  | some known => (.error ⟨object.displayName, known, object.spatialId⟩, index)
  | none =>
    match index.get object.spatialId with
    | some _ =>
      (.ok .reconciled, (index.named object).modify object.spatialId (reconciled object instant))
    | none =>
      (.ok .added,
        (index.named object).withEntry object.spatialId (added geography object instant))

/-- Adds a name a place answers to. -/
def addAlias (id : SpatialId) (name : String) (index : SpatialIndex) : Bool × SpatialIndex :=
  let name := name.toLower
  match index.get id with
  | some _ =>
    (true,
      { index.modify id fun entry => { entry with aliases := insert name entry.aliases } with
        aliases := update index.aliases name (insert id (index.aliases name)) })
  | none => (false, index)

/-- A list of edges with one more assertion: a later one of the same edge takes the place of the
earlier. -/
def putEdge (edge : RelationshipEdge) : List RelationshipEdge → List RelationshipEdge
  | [] => [edge]
  | known :: rest => if known.sameEdgeAs edge then edge :: rest else known :: putEdge edge rest

/-- The entry of a place with other edges and another enclosing directory, and the parent these
give it. -/
def rehung (geography : Geography) (id : SpatialId) (edges : List RelationshipEdge)
    (path : Option SpatialId) (entry : IndexEntry) : IndexEntry :=
  { entry with
    edges := edges
    pathParent := path
    canonicalParent := geography.canonicalParentWith id entry.object.objectType edges path }

/-- Records an edge at one of its ends. -/
def attach (geography : Geography) (edge : RelationshipEdge) (index : SpatialIndex)
    (place : SpatialId) : SpatialIndex :=
  index.modify place fun entry =>
    rehung geography place (putEdge edge entry.edges) entry.pathParent entry

/-- Records an edge at both its ends. -/
def recordEdge (geography : Geography) (edge : RelationshipEdge) (index : SpatialIndex) :
    SpatialIndex :=
  [edge.source, edge.target].foldl (attach geography edge) index

/-- Records the directory the path tree puts a place inside. -/
def setPathParent (geography : Geography) (child parent : SpatialId) (index : SpatialIndex) :
    Bool × SpatialIndex :=
  if child = parent ∨ ¬ index.contains parent then (false, index)
  else if ¬ index.contains child then (false, index)
  else
    (true, index.modify child fun entry =>
      rehung geography child entry.edges (some parent) entry)

/-- Records that one exit of a place could not be read. -/
def recordWithheld (id : SpatialId) (label : String) (state : PermissionState) (detail : String)
    (index : SpatialIndex) : Bool × SpatialIndex :=
  (index.contains id, index.modify id fun entry =>
    { entry with withheld := update entry.withheld label (some (state, detail)) })

/-- Forgets what was recorded about one exit of a place. -/
def clearWithheld (id : SpatialId) (label : String) (index : SpatialIndex) : Bool × SpatialIndex :=
  ((index.get id).any fun entry => (entry.withheld label).isSome, index.modify id fun entry =>
    { entry with withheld := update entry.withheld label none })

/-- Records what deserves attention about a place. -/
def setLandmarks (id : SpatialId) (landmarks : List String) (index : SpatialIndex) :
    Bool × SpatialIndex :=
  (index.contains id, index.modify id fun entry => { entry with landmarks := landmarks })

/-- Records whether a subscription is delivering the changes of a place. -/
def setSubscribed (id : SpatialId) (subscribed : Bool) (index : SpatialIndex) :
    Bool × SpatialIndex :=
  (index.contains id, index.modify id fun entry => { entry with subscribed := subscribed })

/-- Records that the object at a place has ended. -/
def markEnded (id : SpatialId) (instant : Int) (index : SpatialIndex) : Bool × SpatialIndex :=
  (index.contains id, index.modify id fun entry =>
    { entry with object := entry.object.ended instant })

/-- The places whose edges `forgetEdges` goes through: the far end of each edge of the place, and
the place. -/
def edgeEnds (index : SpatialIndex) (id : SpatialId) : List SpatialId :=
  match index.get id with
  | some entry => entry.edges.filterMap (·.otherEnd id) ++ [id]
  | none => []

/-- The edges that touch a place taken out of a list. -/
def withoutTouching (id : SpatialId) (edges : List RelationshipEdge) : List RelationshipEdge :=
  edges.filter fun edge => ¬ edge.Touches id

/-- Drops the edges that touch a place from the list of another. -/
def detach (geography : Geography) (id : SpatialId) (index : SpatialIndex) (place : SpatialId) :
    SpatialIndex :=
  index.modify place fun entry =>
    rehung geography place (withoutTouching id entry.edges) entry.pathParent entry

/-- How many edges a list loses with a place. -/
def droppedAt (id : SpatialId) (index : SpatialIndex) (place : SpatialId) : Nat :=
  match index.get place with
  | some entry => entry.edges.length - (withoutTouching id entry.edges).length
  | none => 0

/-- Drops every edge that touches a place, from both of its ends. -/
def forgetEdges (geography : Geography) (id : SpatialId) (index : SpatialIndex) :
    Nat × SpatialIndex :=
  (index.edgeEnds id).foldl
    (fun (dropped, index) place =>
      (dropped + droppedAt id index place, detach geography id index place))
    (0, index)

/-- Forgets a place, the names that named only it, and the identities it resolved. -/
def remove (id : SpatialId) (index : SpatialIndex) : Option IndexEntry × SpatialIndex :=
  match index.get id with
  | none => (none, index)
  | some entry =>
    (some entry,
      { index with
        entries := index.entries.erase id
        aliases := fun name =>
          if name ∈ entry.aliases then (index.aliases name).erase id else index.aliases name
        identities := fun key => (index.identities key).filter (· ≠ id) })

/-- Whether the retention of a place has run out and nothing keeps it. -/
def expired (now : Int) (keep : Finset SpatialId) (index : SpatialIndex) (id : SpatialId) : Bool :=
  (index.get id).any fun entry =>
    id ∉ keep && !entry.subscribed &&
      (index.freshness.deadline entry.object.objectType entry.observedAt).any (· ≤ now)

/-- Forgets every place whose retention has run out. -/
def forgetStale (now : Int) (keep : Finset SpatialId) (index : SpatialIndex) :
    Nat × SpatialIndex :=
  let stale := index.entries.keys.filter (expired now keep index)
  (stale.length, stale.foldl (fun index id => (remove id index).2) index)

end SpatialIndex

/-! ### Looking up after an operation -/

namespace SpatialIndex

variable {geography : Geography} {index : SpatialIndex} {id place : SpatialId}

theorem get_new (freshness : FreshnessPolicy) (place : SpatialId) :
    (new freshness).get place = none := rfl

theorem get_withEntry (entry : IndexEntry) :
    (index.withEntry id entry).get place = if place = id then some entry else index.get place := by
  split_ifs with hplace
  · exact hplace ▸ AList.lookup_insert _
  · exact AList.lookup_insert_ne hplace

theorem get_modify (change : IndexEntry → IndexEntry) :
    (index.modify id change).get place =
      if place = id then (index.get id).map change else index.get place := by
  rw [modify]
  split
  · rename_i entry hentry
    rw [get_withEntry, hentry, map_some]
  · rename_i hnone
    split_ifs with hplace
    · rw [hplace, hnone, map_none]
    · rfl

@[simp] theorem aliases_modify (change : IndexEntry → IndexEntry) :
    (index.modify id change).aliases = index.aliases := by
  rw [modify]
  split <;> rfl

@[simp] theorem identities_modify (change : IndexEntry → IndexEntry) :
    (index.modify id change).identities = index.identities := by
  rw [modify]
  split <;> rfl

theorem contains_modify (change : IndexEntry → IndexEntry) :
    (index.modify id change).contains place = index.contains place := by
  rw [contains, contains, get_modify]
  split_ifs with hplace
  · rw [hplace, isSome_map]
  · rfl

/-- **Registration.** An observation is refused and changes nothing, refreshes the entry of the
place, or adds one. -/
theorem register_cases (geography : Geography) (object : SpatialObject) (instant : Int)
    (index : SpatialIndex) :
    (∃ known, index.identities (providerKey object) = some known ∧ known ≠ object.spatialId ∧
      index.register geography object instant =
        (.error ⟨object.displayName, known, object.spatialId⟩, index)) ∨
    (∀ known, index.identities (providerKey object) = some known → known = object.spatialId) ∧
      ((∃ entry, index.get object.spatialId = some entry ∧
        index.register geography object instant = (.ok .reconciled,
          (index.named object).modify object.spatialId (reconciled object instant))) ∨
      index.get object.spatialId = none ∧
        index.register geography object instant = (.ok .added,
          (index.named object).withEntry object.spatialId (added geography object instant))) := by
  rw [register]
  rcases hfilter : (index.identities (providerKey object)).filter (· ≠ object.spatialId) with
    _ | known
  · refine .inr ⟨fun known hknown => ?_, ?_⟩
    · rw [hknown, filter_eq_none_iff] at hfilter
      simpa using hfilter known rfl
    · rcases hget : index.get object.spatialId with _ | entry
      · exact .inr ⟨rfl, rfl⟩
      · exact .inl ⟨entry, rfl, rfl⟩
  · rw [filter_eq_some_iff] at hfilter
    exact .inl ⟨known, hfilter.1, by simpa using hfilter.2, rfl⟩

theorem get_register_of_added {geography : Geography} {object : SpatialObject} {instant : Int}
    (h : index.register geography object instant = (.ok .added,
      (index.named object).withEntry object.spatialId (added geography object instant)))
    (place : SpatialId) : (index.register geography object instant).2.get place =
      if place = object.spatialId then some (added geography object instant)
      else index.get place := by
  rw [h]
  exact get_withEntry _

theorem identities_named (object : SpatialObject) : (index.named object).identities =
    update index.identities (providerKey object) (some object.spatialId) := rfl

theorem aliases_named (object : SpatialObject) (name : String) : (index.named object).aliases name =
    if name ∈ aliasesOf object then insert object.spatialId (index.aliases name)
    else index.aliases name := rfl

theorem get_named (object : SpatialObject) : (index.named object).get place = index.get place := rfl

theorem get_remove : (index.remove id).2.get place = if place = id then none else index.get place := by
  rw [remove]
  split
  · rename_i hnone
    split_ifs with hplace
    · exact hplace ▸ hnone
    · rfl
  · split_ifs with hplace
    · exact hplace ▸ AList.lookup_erase _ _
    · exact AList.lookup_erase_ne hplace

theorem get_foldl_remove (ids : List SpatialId) :
    (ids.foldl (fun index id => (remove id index).2) index).get place =
      if place ∈ ids then none else index.get place := by
  induction ids generalizing index with
  | nil => simp
  | cons first rest ih =>
    rw [List.foldl_cons, ih, get_remove]
    by_cases hrest : place ∈ rest <;> by_cases hfirst : place = first <;> simp [hrest, hfirst]

theorem mem_stale {now : Int} {keep : Finset SpatialId} :
    place ∈ index.entries.keys.filter (expired now keep index) ↔
      expired now keep index place = true := by
  rw [List.mem_filter, and_iff_right_iff_imp, ← AList.mem_keys, ← AList.lookup_isSome]
  intro hexpired
  rw [expired, any_eq_true] at hexpired
  obtain ⟨entry, hentry, -⟩ := hexpired
  exact isSome_iff_exists.2 ⟨entry, hentry⟩

theorem get_forgetStale (now : Int) (keep : Finset SpatialId) :
    (index.forgetStale now keep).2.get place =
      if expired now keep index place then none else index.get place := by
  rw [forgetStale, get_foldl_remove]
  simp only [mem_stale]

theorem forgetEdges_snd :
    (index.forgetEdges geography id).2 = (index.edgeEnds id).foldl (detach geography id) index := by
  rw [forgetEdges]
  generalize index.edgeEnds id = ends
  generalize 0 = dropped
  induction ends generalizing dropped index with
  | nil => rfl
  | cons first rest ih => exact ih _

/-- A path parent is recorded where the index holds both places and they differ. -/
theorem setPathParent_cases (geography : Geography) (child parent : SpatialId)
    (index : SpatialIndex) :
    (index.setPathParent geography child parent = (false, index) ∧
      (child = parent ∨ index.contains parent = false ∨ index.contains child = false)) ∨
    (child ≠ parent ∧ index.contains parent = true ∧ index.contains child = true ∧
      index.setPathParent geography child parent = (true, index.modify child fun entry =>
        rehung geography child entry.edges (some parent) entry)) := by
  rw [setPathParent]
  split_ifs with hrefuse hchild
  · refine .inl ⟨rfl, ?_⟩
    rcases hrefuse with hsame | hparent
    · exact .inl hsame
    · exact .inr (.inl (by simpa using hparent))
  · push Not at hrefuse
    exact .inr ⟨hrefuse.1, hrefuse.2, hchild, rfl⟩
  · exact .inl ⟨rfl, .inr (.inr (by simpa using hchild))⟩

end SpatialIndex

/-! ### Runs -/

/-- An operation of the index, with its arguments. -/
inductive Operation
  | register (object : SpatialObject) (instant : Int)
  | addAlias (id : SpatialId) (name : String)
  | recordEdge (edge : RelationshipEdge)
  | setPathParent (child parent : SpatialId)
  | recordWithheld (id : SpatialId) (label : String) (state : PermissionState) (detail : String)
  | clearWithheld (id : SpatialId) (label : String)
  | setLandmarks (id : SpatialId) (landmarks : List String)
  | setSubscribed (id : SpatialId) (subscribed : Bool)
  | markEnded (id : SpatialId) (instant : Int)
  | forgetEdges (id : SpatialId)
  | forgetStale (now : Int) (keep : Finset SpatialId)
  | remove (id : SpatialId)

/-- The index after an operation. -/
def SpatialIndex.perform (geography : Geography) (index : SpatialIndex) :
    Operation → SpatialIndex
  | .register object instant => (index.register geography object instant).2
  | .addAlias id name => (index.addAlias id name).2
  | .recordEdge edge => index.recordEdge geography edge
  | .setPathParent child parent => (index.setPathParent geography child parent).2
  | .recordWithheld id label state detail => (index.recordWithheld id label state detail).2
  | .clearWithheld id label => (index.clearWithheld id label).2
  | .setLandmarks id landmarks => (index.setLandmarks id landmarks).2
  | .setSubscribed id subscribed => (index.setSubscribed id subscribed).2
  | .markEnded id instant => (index.markEnded id instant).2
  | .forgetEdges id => (index.forgetEdges geography id).2
  | .forgetStale now keep => (index.forgetStale now keep).2
  | .remove id => (index.remove id).2

/-- The index as a system: every operation can be performed in every state. -/
def indexing (geography : Geography) : Interaction.Transition SpatialIndex Operation where
  next index operation := some (index.perform geography operation)

/-! ### Questions -/

namespace SpatialIndex

/-- The places that answer to a name. -/
def byAlias (index : SpatialIndex) (text : String) : Finset SpatialId :=
  (index.aliases text.toLower).filter fun id => index.contains id

/-- The held places across the edges of a place that belong to one of its exits. -/
def exitMembers (index : SpatialIndex) (id : SpatialId) (entry : IndexEntry) (label : String)
    (relation : RelationSpec) : List SpatialId :=
  (((entry.edges.filter fun edge => edge.relation.id == relation.id).filter fun edge =>
    edge.groupFrom id == some label).filterMap fun edge => edge.otherEnd id).filter
      fun place => index.contains place

end SpatialIndex

end OnoSendai.Spatial
