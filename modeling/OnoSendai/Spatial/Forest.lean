import OnoSendai.Lib.Ancestry
import OnoSendai.Spatial.Index

/-!
# The hierarchy as a forest

Following the canonical parent upwards. Each operation gives places their parents one at a time,
and a place that gets a parent below itself closes a cycle. Where no step of a run does that, every
walk up from a held place comes to each place once and ends.
-/

namespace OnoSendai.Spatial

open Ancestry Interaction Option SpatialIndex

/-! ### Walks up -/

namespace SpatialIndex

/-- Where `up` leads from a place. -/
def up (index : SpatialIndex) (id : SpatialId) : Option SpatialId :=
  ((index.get id).bind IndexEntry.canonicalParent).map HierarchicalEdge.parent

/-- Walks up from held places come to no place twice and end: at a place the index does not hold,
such as a canonical space, or at one of a kind that has no parent. -/
def IsForest (index : SpatialIndex) : Prop :=
  ∀ id, index.contains id = true →
    (∀ m n place, m < n → climb index.up m id = some place → climb index.up n id ≠ some place) ∧
      ∃ n top, climb index.up n id = some top ∧
        ∀ entry, index.get top = some entry → entry.canonicalParent = none

/-- A parent that is neither a place nor below it. -/
def Clear (index : SpatialIndex) (place : SpatialId) (parent : Option HierarchicalEdge) : Prop :=
  ∀ step, parent = some step → step.parent ≠ place ∧ ¬ Below index.up step.parent place

/-- The parent an edge gives one of its ends is clear. -/
def AttachClear (geography : Geography) (edge : RelationshipEdge) (index : SpatialIndex)
    (place : SpatialId) : Prop :=
  ∀ entry, index.get place = some entry → index.Clear place
    (geography.canonicalParentWith place entry.object.objectType (putEdge edge entry.edges)
      entry.pathParent)

/-- The parent a place is left with when it loses the edges to another is clear. -/
def DetachClear (geography : Geography) (id : SpatialId) (index : SpatialIndex)
    (place : SpatialId) : Prop :=
  ∀ entry, index.get place = some entry → index.Clear place
    (geography.canonicalParentWith place entry.object.objectType (withoutTouching id entry.edges)
      entry.pathParent)

/-- A path parent is not below the place, nor is the parent it gives the place. -/
def PathClear (geography : Geography) (child parent : SpatialId) (index : SpatialIndex) : Prop :=
  child ≠ parent → index.contains parent = true → ∀ entry, index.get child = some entry →
    ¬ Below index.up parent child ∧ index.Clear child
      (geography.canonicalParentWith child entry.object.objectType entry.edges (some parent))

end SpatialIndex

/-- Every parent an operation gives a place is clear at that moment. -/
def Operation.Clear (geography : Geography) (index : SpatialIndex) : Operation → Prop
  | .recordEdge edge =>
    Along (attach geography edge) (AttachClear geography edge)
      [edge.source, edge.target] index
  | .setPathParent child parent => index.PathClear geography child parent
  | .forgetEdges id =>
    Along (detach geography id) (DetachClear geography id)
      (index.edgeEnds id) index
  | _ => True

/-! ### What one operation keeps -/

namespace SpatialIndex

variable {geography : Geography} {index : SpatialIndex} {id place : SpatialId}

/-- The invariant: no place is above itself, and no canonical space is held. -/
structure Rooted (index : SpatialIndex) : Prop where
  acyclic : Ancestry.Acyclic index.up
  observed : ∀ place, index.contains place = true → place.Observed

theorem up_congr {other : SpatialIndex} (h : other.get place = index.get place) :
    other.up place = index.up place := by
  rw [up, up, h]

theorem contains_of_up {above : SpatialId} (h : index.up place = some above) :
    index.contains place = true := by
  rw [up, map_eq_some_iff] at h
  obtain ⟨step, hstep, -⟩ := h
  obtain ⟨entry, hentry, -⟩ := bind_eq_some_iff.1 hstep
  rw [contains, hentry]
  rfl

theorem Rooted.clear_space (h : index.Rooted) (hplace : place.Observed) (space : String)
    (standing : Option String) (kind : HierarchyKind) (child : SpatialId) :
    index.Clear place (some ⟨.ofSpaceIn space standing, child, kind⟩) := by
  rintro step ⟨⟩
  refine ⟨(hplace.ne_space space standing).symm, not_below_of_eq_none ?_⟩
  rw [eq_none_iff_forall_ne_some]
  intro above habove
  exact (h.observed _ (contains_of_up habove)).ne_space space standing rfl

theorem Rooted.modify (h : index.Rooted) {change : IndexEntry → IndexEntry}
    (hchange : ∀ entry, (change entry).canonicalParent = entry.canonicalParent) :
    (index.modify id change).Rooted := by
  have hup : (index.modify id change).up = index.up := by
    funext place
    rw [up, up, get_modify]
    split_ifs with hplace
    · rw [hplace]
      rcases index.get id with _ | entry
      · rfl
      · rw [map_some, bind_some, bind_some, hchange]
    · rfl
  refine ⟨hup ▸ h.acyclic, fun place hheld => h.observed place ?_⟩
  rwa [contains_modify] at hheld

/-- **One new parent.** Rehanging a place from a clear parent keeps the invariant. -/
theorem Rooted.rehang (h : index.Rooted) (edges : IndexEntry → List RelationshipEdge)
    (path : IndexEntry → Option SpatialId)
    (hclear : ∀ entry, index.get id = some entry → index.Clear id
      (geography.canonicalParentWith id entry.object.objectType (edges entry) (path entry))) :
    (index.modify id fun entry => rehung geography id (edges entry) (path entry) entry).Rooted := by
  refine ⟨Ancestry.Acyclic.regraft id ?_ h.acyclic ?_, fun place hheld => h.observed place ?_⟩
  · intro one other hne hup
    rw [← hup]
    exact (up_congr (by rw [get_modify, if_neg hne])).symm
  · intro parent hup
    rw [up, get_modify, if_pos rfl, map_eq_some_iff] at hup
    obtain ⟨step, hstep, rfl⟩ := hup
    obtain ⟨changed, hchanged, hparent⟩ := bind_eq_some_iff.1 hstep
    obtain ⟨entry, hentry, rfl⟩ := map_eq_some_iff.1 hchanged
    exact hclear entry hentry step hparent
  · rwa [contains_modify] at hheld

/-- Taking places out keeps the invariant. -/
theorem Rooted.of_removed (h : index.Rooted) {rest : SpatialIndex} (gone : SpatialId → Bool)
    (hrest : ∀ place, rest.get place = if gone place then none else index.get place) :
    rest.Rooted := by
  have hget (place : SpatialId) (entry : IndexEntry) (hentry : rest.get place = some entry) :
      index.get place = some entry := by
    rw [hrest] at hentry
    split_ifs at hentry
    exact hentry
  refine ⟨h.acyclic.mono fun one other hup => ?_, fun place hheld => h.observed place ?_⟩
  · rw [up, map_eq_some_iff] at hup ⊢
    obtain ⟨step, hstep, rfl⟩ := hup
    obtain ⟨entry, hentry, hparent⟩ := bind_eq_some_iff.1 hstep
    exact ⟨step, bind_eq_some_iff.2 ⟨entry, hget one entry hentry, hparent⟩, rfl⟩
  · obtain ⟨entry, hentry⟩ := isSome_iff_exists.1 hheld
    exact isSome_iff_exists.2 ⟨entry, hget place entry hentry⟩

/-- A place observed for the first time hangs from a canonical space, or from nothing. -/
theorem Rooted.register (h : index.Rooted) (object : SpatialObject) (instant : Int) :
    (index.register geography object instant).2.Rooted := by
  rcases register_cases geography object instant index with
    ⟨_, _, _, heq⟩ | ⟨_, ⟨_, _, heq⟩ | ⟨_, heq⟩⟩
  · rw [heq]
    exact h
  · rw [heq]
    have hnamed : (index.named object).Rooted := ⟨h.acyclic, h.observed⟩
    exact hnamed.modify fun entry => rfl
  · have hget := get_register_of_added heq
    refine ⟨Ancestry.Acyclic.regraft object.spatialId ?_ h.acyclic ?_, fun place hheld => ?_⟩
    · intro one other hne hup
      rw [← hup]
      exact (up_congr (by rw [hget, if_neg hne])).symm
    · intro parent hup
      rw [up, hget, if_pos rfl, bind_some, map_eq_some_iff] at hup
      obtain ⟨step, hstep, rfl⟩ := hup
      have hspace := hstep
      rw [added, canonicalParentWith_nil, Geography.collectionStep, map_eq_some_iff] at hspace
      obtain ⟨space, -, rfl⟩ := hspace
      exact h.clear_space object.observed space _ _ _ _ rfl
    · rw [contains, hget] at hheld
      split_ifs at hheld with hplace
      · exact hplace ▸ object.observed
      · exact h.observed place hheld

/-- **Step.** A clear operation keeps the invariant. -/
theorem perform_rooted (h : index.Rooted) {operation : Operation}
    (hclear : operation.Clear geography index) : (index.perform geography operation).Rooted := by
  cases operation with
  | register object instant => exact h.register object instant
  | addAlias id name =>
    rw [perform, addAlias]
    split
    · have hmodify : (index.modify id fun entry =>
          { entry with aliases := insert name.toLower entry.aliases }).Rooted :=
        h.modify fun entry => rfl
      exact ⟨hmodify.acyclic, hmodify.observed⟩
    · exact h
  | recordEdge edge =>
    exact hclear.invariant h fun index place _ hrooted hattach =>
      hrooted.rehang (fun entry => putEdge edge entry.edges) IndexEntry.pathParent hattach
  | setPathParent child parent =>
    rcases setPathParent_cases geography child parent index with
      ⟨heq, -⟩ | ⟨hne, hparent, -, heq⟩
    · rw [perform, heq]
      exact h
    · rw [perform, heq]
      exact h.rehang IndexEntry.edges (fun _ => some parent) fun entry hentry =>
        (hclear hne hparent entry hentry).2
  | recordWithheld id label state detail => exact h.modify fun entry => rfl
  | clearWithheld id label => exact h.modify fun entry => rfl
  | setLandmarks id landmarks => exact h.modify fun entry => rfl
  | setSubscribed id subscribed => exact h.modify fun entry => rfl
  | markEnded id instant => exact h.modify fun entry => rfl
  | forgetEdges id =>
    rw [perform, forgetEdges_snd]
    exact hclear.invariant h fun index place _ hrooted hdetach =>
      hrooted.rehang (fun entry => withoutTouching id entry.edges) IndexEntry.pathParent hdetach
  | forgetStale now keep =>
    exact h.of_removed (expired now keep index) fun place => get_forgetStale now keep
  | remove id =>
    exact h.of_removed (fun place => place = id) fun place => by
      rw [perform, get_remove]
      simp only [decide_eq_true_eq]

/-! ### Runs -/

theorem new_rooted (freshness : FreshnessPolicy) : (new freshness).Rooted where
  acyclic place hbelow := not_below_of_eq_none rfl hbelow
  observed place hheld := absurd hheld (by rw [contains, get_new]; simp)

theorem Rooted.isForest (h : index.Rooted) : index.IsForest := by
  intro id _
  refine ⟨fun m n place hlt hm => h.acyclic.climb_ne hlt hm, ?_⟩
  obtain ⟨n, top, hclimb, htop⟩ := h.acyclic.climb_ends index.entries.keys.toFinset
    (fun one other hup => by
      rw [List.mem_toFinset, ← AList.mem_keys, ← AList.lookup_isSome]
      exact contains_of_up hup) id
  refine ⟨n, top, hclimb, fun entry hentry => ?_⟩
  rwa [up, hentry, bind_some, map_eq_none_iff] at htop

/-- **Forest.** In every state of a run each operation of which gives places clear parents only,
walks up end and come to no place twice, and a path parent that is the child or below it is
refused. -/
theorem isForest_of_clear (geography : Geography) (freshness : FreshnessPolicy)
    (index : SpatialIndex)
    (h : (indexing geography).Reached (· = new freshness)
      (fun index operation => operation.Clear geography index) index) :
    index.IsForest ∧
      ∀ child parent, (Operation.setPathParent child parent).Clear geography index →
        parent = child ∨ Below index.up parent child →
          index.setPathParent geography child parent = (false, index) := by
  have hrooted : index.Rooted := by
    refine h.invariant ?_ ?_
    · rintro state rfl
      exact new_rooted freshness
    · rintro state next operation hstate hclear ⟨⟩
      exact perform_rooted hstate hclear
  refine ⟨hrooted.isForest, fun child parent hclear hbelow => ?_⟩
  rcases setPathParent_cases geography child parent index with ⟨heq, -⟩ | ⟨hne, hparent, hchild, -⟩
  · exact heq
  · obtain ⟨entry, hentry⟩ := isSome_iff_exists.1 hchild
    rcases hbelow with hsame | hbelow
    · exact absurd hsame.symm hne
    · exact absurd hbelow (hclear hne hparent entry hentry).1

end SpatialIndex

/-- A directory as its provider describes it. -/
def observedDirectory (path : String) : SpatialObject where
  identity := ⟨.stable, .directory, [("scope", "host:web01"), ("path", path)]⟩
  objectType := .directory
  canonicalRef := ⟨"ono.file/1[" ++ path ++ "]", path⟩
  displayName := path
  scope := ["host:web01"]
  lifetime := ⟨.stable, 0, 0, none⟩
  provenance := ⟨"linux.fs", some 0, none, .onThisHost, ⟨"ono.file", 1⟩, none, none⟩
  capabilities := [.enter, .act]
  observed := ⟨_, rfl, .inl rfl⟩

/-- The geography of the local host, with nothing contributed. -/
def localGeography : Geography where
  standing := none
  contributedTypes := []
  relations := []

/-- A policy that forgets nothing. -/
def keepAll : FreshnessPolicy where
  deadline _ _ := none

/-- An index that has seen the root directory and one inside it. -/
def twoDirectories : SpatialIndex :=
  [Operation.register (observedDirectory "/") 0, .register (observedDirectory "/etc") 0].foldl
    (perform localGeography) (.new keepAll)

/-- The path tree of two directories is a forest. -/
theorem isForest_twoDirectories :
    (twoDirectories.perform localGeography (.setPathParent (observedDirectory "/etc").spatialId
      (observedDirectory "/").spatialId)).IsForest := by
  have hroot : twoDirectories.up (observedDirectory "/").spatialId =
      some (.ofSpaceIn "storage.directories" none) := by decide +kernel
  have hspace : twoDirectories.up (.ofSpaceIn "storage.directories" none) = none := by
    decide +kernel
  have hbelow : ¬ Below twoDirectories.up (observedDirectory "/").spatialId
      (observedDirectory "/etc").spatialId := by
    rw [below_iff hroot, not_or]
    exact ⟨by decide +kernel, not_below_of_eq_none hspace⟩
  refine (isForest_of_clear localGeography keepAll _ (.step _ (.step
    (.register (observedDirectory "/etc") 0) (.step (.register (observedDirectory "/") 0)
      (.start rfl) trivial rfl) trivial rfl) ?_ rfl)).1
  intro _ _ entry hentry
  obtain rfl : added localGeography (observedDirectory "/etc") 0 = entry :=
    some.inj hentry
  refine ⟨hbelow, ?_⟩
  rintro step ⟨⟩
  exact ⟨by decide +kernel, hbelow⟩

/-- Two directories, each made the other's path parent. -/
def mutualPathParents : List Operation :=
  [.register (observedDirectory "/a") 0, .register (observedDirectory "/b") 0,
    .setPathParent (observedDirectory "/a").spatialId (observedDirectory "/b").spatialId,
    .setPathParent (observedDirectory "/b").spatialId (observedDirectory "/a").spatialId]

theorem not_isForest_mutualPathParents :
    ¬ ∀ (geography : Geography) (freshness : FreshnessPolicy) (operations : List Operation),
      (operations.foldl (perform geography) (.new freshness)).IsForest := by
  intro hforest
  have hcycle := (hforest localGeography keepAll mutualPathParents
    (observedDirectory "/a").spatialId (by decide +kernel)).1 0 2
    (observedDirectory "/a").spatialId (by decide) rfl
  exact hcycle (by decide +kernel)

end OnoSendai.Spatial
