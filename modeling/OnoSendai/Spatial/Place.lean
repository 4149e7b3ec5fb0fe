import OnoSendai.Value

/-!
# Places of the spatial layer

The kinds of place, the identity that tells one place from another, the objects that stand at
places, and the two sorts of edge between them: the hierarchy `up` climbs and the relationships a
provider asserts (`ono_spatial_core`).

An identity is addressed by a digest of its tier, its type's name and its components. The digest
is modelled by what it is taken of: two identities have one address when these agree.
-/

namespace OnoSendai.Spatial

/-! ### Kinds of place -/

/-- The kinds of place: the declared vocabulary, and the kinds packages contributed, by name. -/
inductive SpatialType
  | system
  | compute
  | network
  | storage
  | containers
  | identity
  | devices
  | process
  | service
  | job
  | workload
  | cgroup
  | container
  | interface
  | address
  | route
  | neighbor
  | socket
  | listener
  | connection
  | networkNamespace
  | endpoint
  | filesystem
  | mount
  | blockDevice
  | directory
  | file
  | device
  | user
  | group
  | session
  | host
  | contributed (name : String)
deriving DecidableEq

namespace SpatialType

/-- The declared kinds, in the order the vocabulary lists them. -/
def all : List SpatialType :=
  [system, compute, network, storage, containers, identity, devices, process, service, job,
    workload, cgroup, container, interface, address, route, neighbor, socket, listener, connection,
    networkNamespace, endpoint, filesystem, mount, blockDevice, directory, file, device, user,
    group, session, host]

/-- The name a kind is spelled by. -/
def asStr : SpatialType → String
  | system => "System"
  | compute => "Compute"
  | network => "Network"
  | storage => "Storage"
  | containers => "Containers"
  | identity => "Identity"
  | devices => "Devices"
  | process => "Process"
  | service => "Service"
  | job => "Job"
  | workload => "Workload"
  | cgroup => "Cgroup"
  | container => "Container"
  | interface => "Interface"
  | address => "Address"
  | route => "Route"
  | neighbor => "Neighbor"
  | socket => "Socket"
  | listener => "Listener"
  | connection => "Connection"
  | networkNamespace => "Namespace"
  | endpoint => "Endpoint"
  | filesystem => "Filesystem"
  | mount => "Mount"
  | blockDevice => "BlockDevice"
  | directory => "Directory"
  | file => "File"
  | device => "Device"
  | user => "User"
  | group => "Group"
  | session => "Session"
  | host => "Host"
  | contributed name => name

/-- The kind a specialised kind is one of. -/
def generalisesTo : SpatialType → Option SpatialType
  | listener => some socket
  | connection => some socket
  | directory => some file
  | _ => none

/-- Whether a kind is another or one of it. No kind a kind generalises to generalises further. -/
def isA (kind other : SpatialType) : Bool :=
  kind == other || kind.generalisesTo == some other

end SpatialType

/-- How long an identity keeps naming the same thing. -/
inductive IdentityTier
  | stable
  | lifetime
  | observation
deriving DecidableEq

/-- The tier of a kind of place. -/
def SpatialType.identityTier : SpatialType → IdentityTier
  | process => .lifetime
  | job => .lifetime
  | address => .lifetime
  | route => .lifetime
  | neighbor => .lifetime
  | socket => .lifetime
  | listener => .lifetime
  | connection => .lifetime
  | networkNamespace => .lifetime
  | mount => .lifetime
  | session => .lifetime
  | endpoint => .observation
  | contributed _ => .lifetime
  | _ => .stable

/-! ### Identity -/

/-- The address of a place: what the digest of its identity is taken of. -/
structure SpatialId where
  tier : IdentityTier
  kind : String
  components : List (String × String)
deriving DecidableEq

/-- What makes a place the place it is. -/
structure SpatialIdentity where
  tier : IdentityTier
  objectType : SpatialType
  components : List (String × String)

/-- The address of an identity. -/
def SpatialIdentity.spatialId (identity : SpatialIdentity) : SpatialId where
  tier := identity.tier
  kind := identity.objectType.asStr
  components := identity.components

/-- The address of a canonical space, on the host of `standing` where that is a remote one. -/
def SpatialId.ofSpaceIn (space : String) (standing : Option String) : SpatialId :=
  SpatialIdentity.spatialId
    { tier := .stable
      objectType := .system
      components := match standing with
        | some host => [("host", host), ("space", space)]
        | none => [("space", space)] }

/-- An identity of an observed object: its first component is the scope it was observed in, or
the boot of its host. -/
def SpatialId.Observed (id : SpatialId) : Prop :=
  ∃ component ∈ id.components.head?, component.1 = "scope" ∨ component.1 = "boot"

theorem SpatialId.Observed.ne_space {id : SpatialId} (h : id.Observed) (space : String)
    (standing : Option String) : id ≠ .ofSpaceIn space standing := by
  rintro rfl
  obtain ⟨component, hmem, hname⟩ := h
  cases standing with
  | none =>
    obtain rfl : ("space", space) = component := Option.some.inj hmem
    simp at hname
  | some host =>
    obtain rfl : ("host", host) = component := Option.some.inj hmem
    simp at hname

/-! ### Objects -/

/-- What can be done at a place. -/
inductive SpatialCapability
  | enter
  | follow
  | watch
  | act
deriving DecidableEq

/-- When an object was first and last seen, and when it ended. -/
structure LifetimeDescriptor where
  tier : IdentityTier
  firstObserved : Int
  lastObserved : Int
  ended : Option Int

/-- The provider's own reference to an object: its rendered identity and its label. -/
structure ObjectRef where
  id : String
  label : String

/-- An object at a place. Every constructor of one puts the scope or the boot first in its
identity. -/
structure SpatialObject where
  identity : SpatialIdentity
  objectType : SpatialType
  canonicalRef : ObjectRef
  displayName : String
  scope : List String
  lifetime : LifetimeDescriptor
  provenance : Provenance
  capabilities : List SpatialCapability
  observed : identity.spatialId.Observed

namespace SpatialObject

/-- The address of the place. -/
def spatialId (object : SpatialObject) : SpatialId :=
  object.identity.spatialId

/-- The object, seen at a later instant too. -/
def seenAgain (object : SpatialObject) (instant : Int) : SpatialObject :=
  { object with
    lifetime := { object.lifetime with
      lastObserved := max object.lifetime.lastObserved instant } }

/-- The object after its end: nothing can be done to it, and nobody enters it. -/
def ended (object : SpatialObject) (instant : Int) : SpatialObject :=
  { object with
    lifetime := { object.lifetime with ended := some instant }
    capabilities := object.capabilities.filter fun capability =>
      capability ≠ .act ∧ capability ≠ .enter }

end SpatialObject

/-- Every name an object answers to, in lower case: its display name, its label, and the values of
its identity other than the boundary it was observed in. -/
def aliasesOf (object : SpatialObject) : List String :=
  (object.displayName.toLower :: object.canonicalRef.label.toLower ::
    (object.identity.components.filter fun (field, value) =>
      field ≠ "scope" ∧ field ≠ "boot" ∧ value ≠ "" ∧ value ≠ "unknown").map
        fun (_, value) => value.toLower).filter (· ≠ "")

/-! ### Edges -/

/-- Why a parent is the parent. -/
inductive HierarchyKind
  | containment
  | grouping
deriving DecidableEq

/-- A step of the hierarchy. -/
structure HierarchicalEdge where
  parent : SpatialId
  child : SpatialId
  kind : HierarchyKind
deriving DecidableEq

/-- Which way a relation runs. -/
inductive Direction
  | outbound
  | inbound
  | bidirectional
deriving DecidableEq

/-- How certain an edge is. -/
inductive Confidence
  | exact
  | strong
  | inferred
  | userDeclared
  | unknown
deriving DecidableEq

/-- What answering a relation costs. -/
inductive CostClass
  | cheap
  | normal
  | expensive
  | privileged
  | remote

/-- A relation, declared or contributed. -/
structure RelationSpec where
  id : String
  source : SpatialType
  target : SpatialType
  direction : Direction
  canonicalGroup : String
  inverseGroup : String
  costClass : CostClass

/-- A relationship a provider asserts between two places. -/
structure RelationshipEdge where
  source : SpatialId
  target : SpatialId
  relation : RelationSpec
  direction : Direction
  confidence : Confidence
  provenance : Provenance
  observedAt : Int
  attributes : MapValue

namespace RelationshipEdge

/-- Whether two assertions are of one edge, whoever observed it and when. One relation is told from
another by its id. -/
def sameEdgeAs (edge other : RelationshipEdge) : Bool :=
  edge.source == other.source && edge.target == other.target &&
    edge.relation.id == other.relation.id && edge.direction == other.direction &&
    edge.confidence == other.confidence

/-- The word of the exit an edge belongs to at one of its ends. -/
def groupFrom (edge : RelationshipEdge) (here : SpatialId) : Option String :=
  if here = edge.source then some edge.relation.canonicalGroup
  else if here = edge.target then some edge.relation.inverseGroup
  else none

/-- The end of an edge across from one of its ends. -/
def otherEnd (edge : RelationshipEdge) (here : SpatialId) : Option SpatialId :=
  if here = edge.source then some edge.target
  else if here = edge.target then some edge.source
  else none

/-- Whether a place is an end of the edge. -/
def Touches (edge : RelationshipEdge) (place : SpatialId) : Prop :=
  edge.source = place ∨ edge.target = place

instance (edge : RelationshipEdge) (place : SpatialId) : Decidable (edge.Touches place) :=
  inferInstanceAs (Decidable (_ ∨ _))

variable {edge other : RelationshipEdge}

theorem sameEdgeAs_iff :
    edge.sameEdgeAs other = true ↔ edge.source = other.source ∧ edge.target = other.target ∧
      edge.relation.id = other.relation.id ∧ edge.direction = other.direction ∧
      edge.confidence = other.confidence := by
  simp only [sameEdgeAs, Bool.and_eq_true, beq_iff_eq, and_assoc]

theorem sameEdgeAs_self (edge : RelationshipEdge) : edge.sameEdgeAs edge = true :=
  sameEdgeAs_iff.2 ⟨rfl, rfl, rfl, rfl, rfl⟩

theorem otherEnd_congr (h : edge.sameEdgeAs other = true) (here : SpatialId) :
    edge.otherEnd here = other.otherEnd here := by
  obtain ⟨hsource, htarget, -⟩ := sameEdgeAs_iff.1 h
  rw [otherEnd, otherEnd, hsource, htarget]

theorem touches_congr (h : edge.sameEdgeAs other = true) (place : SpatialId) :
    edge.Touches place ↔ other.Touches place := by
  obtain ⟨hsource, htarget, -⟩ := sameEdgeAs_iff.1 h
  rw [Touches, Touches, hsource, htarget]

theorem touches_of_otherEnd {edge : RelationshipEdge} {here there : SpatialId}
    (h : edge.otherEnd here = some there) : edge.Touches there := by
  rw [otherEnd] at h
  split_ifs at h with hsource htarget
  · exact .inr (Option.some.inj h)
  · exact .inl (Option.some.inj h)

end RelationshipEdge

/-! ### Exits -/

/-- What became of reading one exit of a place. -/
inductive PermissionState
  | available
  | empty
  | unknown
  | permissionDenied
  | unsupported
  | stale

end OnoSendai.Spatial
