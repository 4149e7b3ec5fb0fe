import OnoSendai.Kuang.Permission
import OnoSendai.Spatial.Place

/-!
# The canonical parent

Where `up` goes from a place: the first relation of its kind's rule chain that leads anywhere, the
directory the path tree puts it in at the position the chain gives it, or the collection of the
geography that holds its kind.
-/

namespace OnoSendai.Spatial

/-! ### The geography -/

/-- A kind of place a package contributed. -/
structure ContributedType where
  objectType : SpatialType
  schema : String
  identity : List String
  origin : String
  parent : Option String

/-- What the canonical parent depends on beside the place: the remote host being stood in, the
kinds packages contributed, and the relations, declared first and then contributed. -/
structure Geography where
  standing : Option String
  contributedTypes : List ContributedType
  relations : List RelationSpec

/-- The first contribution of a kind of place. -/
def Geography.contributedForType (geography : Geography) (kind : SpatialType) :
    Option ContributedType :=
  geography.contributedTypes.find? fun entry => entry.objectType == kind

/-- The served collection of the geography that holds a kind of place. -/
def collectionFor : SpatialType → Option String
  | .container => some "containers"
  | .device => some "devices"
  | .process => some "compute.processes"
  | .service => some "compute.services"
  | .job => some "compute.jobs"
  | .cgroup => some "compute.cgroups"
  | .interface => some "network.interfaces"
  | .address => some "network.addresses"
  | .route => some "network.routes"
  | .neighbor => some "network.neighbors"
  | .listener => some "network.listeners"
  | .connection => some "network.connections"
  | .networkNamespace => some "network.namespaces"
  | .filesystem => some "storage.filesystems"
  | .mount => some "storage.mounts"
  | .blockDevice => some "storage.devices"
  | .directory => some "storage.directories"
  | .user => some "identity.users"
  | .group => some "identity.groups"
  | .session => some "identity.sessions"
  | _ => none

/-! ### The rule chain -/

/-- The step that is no relationship: the enclosing directory of the path tree. -/
def pathParent : String := "path.parent"

/-- One step a canonical parent may be reached by. -/
structure ParentRule where
  relation : String
  kind : HierarchyKind

/-- The ordered rules of a kind of place. -/
def parentRules : SpatialType → List ParentRule
  | .process =>
    [⟨"service.controls_process", .grouping⟩, ⟨"container.contains_process", .containment⟩]
  | .address => [⟨"interface.has_address", .containment⟩]
  | .mount => [⟨"filesystem.mounted_at", .containment⟩]
  | .filesystem => [⟨"device.backs_filesystem", .containment⟩]
  | .directory => [⟨pathParent, .containment⟩, ⟨"mount.backs_directory", .containment⟩]
  | .file => [⟨pathParent, .containment⟩]
  | _ => []

/-- The far end of the first edge of a relation, whichever way it runs. -/
def neighbour (edges : List RelationshipEdge) (relation : String) (subject : SpatialId) :
    Option SpatialId :=
  (edges.filter fun edge => edge.relation.id == relation).findSome? fun edge =>
    edge.otherEnd subject

/-- The place a rule leads to. -/
def ParentRule.found (rule : ParentRule) (subject : SpatialId) (edges : List RelationshipEdge)
    (path : Option SpatialId) : Option SpatialId :=
  if rule.relation = pathParent then path else neighbour edges rule.relation subject

/-- The step a rule makes, where it leads anywhere. -/
def ParentRule.step (subject : SpatialId) (edges : List RelationshipEdge)
    (path : Option SpatialId) (rule : ParentRule) : Option HierarchicalEdge :=
  (rule.found subject edges path).map fun parent => ⟨parent, subject, rule.kind⟩

namespace Geography

variable (geography : Geography)

/-- The step a contributed kind declares: along the relation its package contributes between it
and its declared parent. -/
def contributedStep (subject : SpatialId) (kind : SpatialType) (edges : List RelationshipEdge) :
    Option HierarchicalEdge := do
  let contributed ← geography.contributedForType kind
  let parentSchema ← contributed.parent
  let relation := Kuang.contributedId contributed.origin contributed.schema parentSchema
  let parent ← neighbour edges relation subject
  some ⟨parent, subject, .containment⟩

/-- The step to the collection that holds a kind. -/
def collectionStep (subject : SpatialId) (kind : SpatialType) : Option HierarchicalEdge :=
  (collectionFor kind).map fun collection =>
    ⟨.ofSpaceIn collection geography.standing, subject, .grouping⟩

/-- The canonical parent of a place, from the edges known about it and the enclosing directory the
caller knows of. -/
def canonicalParentWith (subject : SpatialId) (kind : SpatialType) (edges : List RelationshipEdge)
    (path : Option SpatialId) : Option HierarchicalEdge :=
  match kind with
  | .contributed name => geography.contributedStep subject (.contributed name) edges
  | kind =>
    match (parentRules kind).findSome? (ParentRule.step subject edges path) with
    | some edge => some edge
    | none => geography.collectionStep subject kind

end Geography

/-! ### Where a parent comes from -/

/-- The first success of a chain stays, or is a new one, where every step of it stays or is a new
one. -/
theorem findSome?_eq_or {α β : Type*} {before after : α → Option β} {fresh : β → Prop}
    (items : List α)
    (h : ∀ item ∈ items, after item = before item ∨ ∃ found, after item = some found ∧ fresh found) :
    items.findSome? after = items.findSome? before ∨
      ∃ found, items.findSome? after = some found ∧ fresh found := by
  induction items with
  | nil => exact .inl rfl
  | cons first rest ih =>
    rw [List.findSome?_cons, List.findSome?_cons]
    rcases h first List.mem_cons_self with hsame | ⟨found, hfound, hfresh⟩
    · rw [hsame]
      rcases before first with _ | found
      · exact ih fun item hitem => h item (List.mem_cons_of_mem _ hitem)
      · exact .inl rfl
    · rw [hfound]
      exact .inr ⟨found, rfl, hfresh⟩

variable {geography : Geography} {subject : SpatialId} {kind : SpatialType}
  {edges edges' : List RelationshipEdge} {path path' : Option SpatialId}

section

variable {fresh : SpatialId → Prop}
  (hedges : ∀ relation, neighbour edges' relation subject = neighbour edges relation subject ∨
    ∃ place, neighbour edges' relation subject = some place ∧ fresh place)
  (hpath : path' = path ∨ ∃ place, path' = some place ∧ fresh place)

include hedges in
theorem contributedStep_eq_or :
    geography.contributedStep subject kind edges' = geography.contributedStep subject kind edges ∨
      ∃ edge, geography.contributedStep subject kind edges' = some edge ∧ fresh edge.parent := by
  rw [Geography.contributedStep, Geography.contributedStep]
  rcases geography.contributedForType kind with _ | contributed
  · exact .inl rfl
  rcases hparent : contributed.parent with _ | parentSchema
  · simp [hparent]
  · simp only [Option.bind_eq_bind, Option.bind_some, hparent]
    rcases hedges (Kuang.contributedId contributed.origin contributed.schema parentSchema) with
      hsame | ⟨place, hplace, hfresh⟩
    · rw [hsame]
      exact .inl rfl
    · rw [hplace]
      exact .inr ⟨_, rfl, hfresh⟩

include hedges hpath in
theorem ParentRule.step_eq_or (rule : ParentRule) :
    rule.step subject edges' path' = rule.step subject edges path ∨
      ∃ edge, rule.step subject edges' path' = some edge ∧ fresh edge.parent := by
  have hfound : rule.found subject edges' path' = rule.found subject edges path ∨
      ∃ place, rule.found subject edges' path' = some place ∧ fresh place := by
    rw [found, found]
    split_ifs
    · exact hpath
    · exact hedges rule.relation
  rw [step, step]
  rcases hfound with hsame | ⟨place, hplace, hfresh⟩
  · exact .inl (by rw [hsame])
  · exact .inr ⟨⟨place, subject, rule.kind⟩, by rw [hplace]; rfl, hfresh⟩

include hedges hpath in
/-- Where the edges and the enclosing directory lead on to the same places or to new ones, the
canonical parent stays or is one of the new ones. -/
theorem canonicalParentWith_eq_or :
    geography.canonicalParentWith subject kind edges' path' =
        geography.canonicalParentWith subject kind edges path ∨
      ∃ edge, geography.canonicalParentWith subject kind edges' path' = some edge ∧
        fresh edge.parent := by
  have hchain := findSome?_eq_or (parentRules kind)
    fun rule _ => ParentRule.step_eq_or hedges hpath rule
  rw [Geography.canonicalParentWith.eq_def, Geography.canonicalParentWith.eq_def]
  split
  · exact contributedStep_eq_or hedges
  · rcases hchain with hsame | ⟨edge, hedge, hfresh⟩
    · rw [hsame]
      exact .inl rfl
    · rw [hedge]
      exact .inr ⟨edge, rfl, hfresh⟩

end

theorem neighbour_nil (relation : String) : neighbour [] relation subject = none := rfl

/-- With no edge and no enclosing directory, a place goes up to its collection, if its kind has
one. -/
theorem canonicalParentWith_nil :
    geography.canonicalParentWith subject kind [] none = geography.collectionStep subject kind := by
  cases kind with
  | contributed name =>
    rw [Geography.canonicalParentWith, Geography.contributedStep]
    simp [neighbour_nil, Geography.collectionStep, collectionFor]
  | _ => rfl

end OnoSendai.Spatial
