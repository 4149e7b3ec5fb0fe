import OnoSendai.Spatial.Accounts

/-!
# The index agrees with itself

Names, provider identities, edges and canonical parents are accounts of one graph. Taking a place
out leaves its edges in the lists of its neighbours and itself as the parent of its children;
registering it again does not mend the first, and nothing mends the second. In a run that does
neither, the accounts agree after every operation.
-/

namespace OnoSendai.Spatial

open SpatialIndex

/-! ### Runs -/

/-- An operation that leaves nothing behind. An observation of a held place brings a kind whose
rules still lead to its parent, and one of a place that is not held finds no edge to it in a list;
an edge is recorded with both ends held; dropping edges leaves each place a parent there is; and no
place that stays has a place that is taken out for its parent. -/
def Operation.Coherent (geography : Geography) (index : SpatialIndex) : Operation → Prop
  | .register object instant =>
    (∀ entry, index.get object.spatialId = some entry →
      geography.canonicalParentWith object.spatialId
        (described entry object instant).objectType entry.edges entry.pathParent =
          entry.canonicalParent) ∧
    (index.get object.spatialId = none → ∀ place entry, index.get place = some entry →
      ∀ edge ∈ entry.edges, ¬ edge.Touches object.spatialId)
  | .recordEdge edge => index.contains edge.source = true ∧ index.contains edge.target = true
  | .forgetEdges id =>
    ∀ place ∈ index.edgeEnds id, ∀ entry, index.get place = some entry →
      index.HeldOrSpace geography (geography.canonicalParentWith place entry.object.objectType
        (withoutTouching id entry.edges) entry.pathParent)
  | .forgetStale now keep =>
    ∀ place entry, index.get place = some entry → index.expired now keep place = false →
      ∀ step, entry.canonicalParent = some step → index.expired now keep step.parent = false
  | .remove id =>
    ∀ place entry, index.get place = some entry → place ≠ id →
      ∀ step, entry.canonicalParent = some step → step.parent ≠ id
  | _ => True

namespace SpatialIndex

variable {geography : Geography} {index : SpatialIndex} {seen : ProviderKey → SpatialId → Prop}

/-- The agreement of the index with itself: a name lists exactly the held places that answer to
it; a provider identity maps to a held place observed under it; an edge of a held place to another
is in the list of the other, and counts the first among the members of its exit; and a canonical
parent is the one the place's kind, edges and path parent give, and is a held place or a canonical
space. -/
structure Consistent (geography : Geography) (seen : ProviderKey → SpatialId → Prop)
    (index : SpatialIndex) : Prop where
  byAlias : ∀ text id, id ∈ index.byAlias text ↔
    ∃ entry, index.get id = some entry ∧ text.toLower ∈ entry.aliases
  identities : ∀ key id, index.identities key = some id →
    (∃ entry, index.get id = some entry ∧ entry.object.spatialId = id) ∧ seen key id
  edges : ∀ one other entry across, index.get one = some entry → index.get other = some across →
    ∀ edge ∈ entry.edges, edge.otherEnd one = some other → edge ∈ across.edges ∧
      ∀ label, edge.groupFrom other = some label →
        one ∈ index.exitMembers other across label edge.relation
  parents : ∀ id entry, index.get id = some entry →
    entry.canonicalParent = geography.canonicalParentWith id entry.object.objectType entry.edges
      entry.pathParent ∧ index.HeldOrSpace geography entry.canonicalParent

/-- The invariant. -/
structure Kept (geography : Geography) (seen : ProviderKey → SpatialId → Prop)
    (index : SpatialIndex) : Prop where
  names : index.Names seen
  joined : index.Joined
  hung : index.Hung geography

theorem new_kept (freshness : FreshnessPolicy) : (new freshness).Kept geography seen := by
  refine ⟨⟨fun name id => ?_, ?_, ?_, ?_⟩, ⟨?_, ?_, ?_⟩, ⟨?_, ?_⟩⟩
  · simp [new, get]
  all_goals intros; contradiction

/-- A change of one entry in none of what the accounts speak of keeps the invariant. -/
theorem Kept.modify (h : index.Kept geography seen) (id : SpatialId)
    {change : IndexEntry → IndexEntry}
    (hnames : ∀ entry, (change entry).aliases = entry.aliases ∧
      (change entry).object.spatialId = entry.object.spatialId ∧
      providerKey (change entry).object = providerKey entry.object)
    (hgraph : ∀ entry, (change entry).edges = entry.edges ∧
      (change entry).pathParent = entry.pathParent ∧
      (change entry).canonicalParent = entry.canonicalParent ∧
      (change entry).object.objectType = entry.object.objectType) :
    (index.modify id change).Kept geography seen := by
  have hmap := @mapsTo_modify index id change
  refine ⟨h.names.map hmap ⟨aliases_modify _, identities_modify _⟩ fun place entry => ?_,
    h.joined.map hmap fun place entry => ?_, hung_of_mapsTo hmap fun place entry hentry => ?_⟩
  · split_ifs
    · exact hnames entry
    · exact ⟨rfl, rfl, rfl⟩
  · split_ifs
    · exact (hgraph entry).1
    · rfl
  · split_ifs
    · obtain ⟨hedges, hpath, hparent, htype⟩ := hgraph entry
      rw [hedges, hpath, hparent, htype]
      exact ⟨h.hung.parent place entry hentry, h.hung.held place entry hentry⟩
    · exact ⟨h.hung.parent place entry hentry, h.hung.held place entry hentry⟩

/-- **Step.** A coherent operation keeps the agreement. -/
theorem perform_kept (h : index.Kept geography seen) {operation : Operation}
    (hcoherent : operation.Coherent geography index)
    (hseen : ∀ object instant, operation = .register object instant →
      seen (providerKey object) object.spatialId) :
    (index.perform geography operation).Kept geography seen := by
  cases operation with
  | register object instant =>
    exact ⟨h.names.register (hseen object instant rfl), h.joined.register hcoherent.2,
      h.hung.register hcoherent.1⟩
  | addAlias id name =>
    have hmap := @mapsTo_addAlias index id name
    refine ⟨h.names.addAlias id name, h.joined.map hmap fun place entry => ?_,
      hung_of_mapsTo hmap fun place entry hentry => ?_⟩
    · split_ifs <;> rfl
    · split_ifs <;> exact ⟨h.hung.parent place entry hentry, h.hung.held place entry hentry⟩
  | recordEdge edge =>
    have hmap := @mapsTo_recordEdge geography index edge
    refine ⟨h.names.map hmap (aliases_recordEdge edge) fun place entry => ?_, h.joined.recordEdge edge,
      h.hung.recordEdge hcoherent.1 hcoherent.2⟩
    split_ifs <;> exact ⟨rfl, rfl, rfl⟩
  | setPathParent child parent =>
    rcases setPathParent_cases geography child parent index with
      ⟨heq, -⟩ | ⟨-, hparent, -, heq⟩
    · rw [perform, heq]
      exact h
    · rw [perform, heq]
      have hmap := @mapsTo_modify index child fun entry =>
        rehung geography child entry.edges (some parent) entry
      refine ⟨h.names.map hmap ⟨aliases_modify _, identities_modify _⟩ fun place entry => ?_,
        h.joined.map hmap fun place entry => ?_, h.hung.setPathParent hparent⟩
      · split_ifs <;> exact ⟨rfl, rfl, rfl⟩
      · split_ifs <;> rfl
  | recordWithheld id label state detail =>
    exact h.modify id (fun entry => ⟨rfl, rfl, rfl⟩) fun entry => ⟨rfl, rfl, rfl, rfl⟩
  | clearWithheld id label =>
    exact h.modify id (fun entry => ⟨rfl, rfl, rfl⟩) fun entry => ⟨rfl, rfl, rfl, rfl⟩
  | setLandmarks id landmarks =>
    exact h.modify id (fun entry => ⟨rfl, rfl, rfl⟩) fun entry => ⟨rfl, rfl, rfl, rfl⟩
  | setSubscribed id subscribed =>
    exact h.modify id (fun entry => ⟨rfl, rfl, rfl⟩) fun entry => ⟨rfl, rfl, rfl, rfl⟩
  | markEnded id instant =>
    exact h.modify id (fun entry => ⟨rfl, rfl, rfl⟩) fun entry => ⟨rfl, rfl, rfl, rfl⟩
  | forgetEdges id =>
    have hmap := @mapsTo_forgetEdges geography index id
    refine ⟨h.names.map hmap aliases_forgetEdges fun place entry => ?_, h.joined.forgetEdges,
      hung_of_mapsTo hmap fun place entry hentry => ?_⟩
    · split_ifs <;> exact ⟨rfl, rfl, rfl⟩
    · split_ifs with hend
      · exact ⟨rfl, hcoherent place hend entry hentry⟩
      · exact ⟨h.hung.parent place entry hentry, h.hung.held place entry hentry⟩
  | forgetStale now keep =>
    have hrest (place : SpatialId) := @get_forgetStale index place now keep
    exact ⟨h.names.foldl_remove _, h.joined.of_removed hrest, h.hung.of_removed hrest hcoherent⟩
  | remove id =>
    have hrest (place : SpatialId) : (index.remove id).2.get place =
        if decide (place = id) = true then none else index.get place := by
      rw [get_remove]
      simp only [decide_eq_true_eq]
    refine ⟨h.names.remove id, h.joined.of_removed hrest, h.hung.of_removed hrest ?_⟩
    intro place entry hentry hplace step hstep
    exact decide_eq_false (hcoherent place entry hentry (of_decide_eq_false hplace) step hstep)

/-- Under the invariant the index agrees with itself. -/
theorem Kept.consistent (h : index.Kept geography seen) : index.Consistent geography seen where
  byAlias text id := by
    rw [byAlias, Finset.mem_filter, h.names.aliases]
    refine and_iff_left_of_imp ?_
    rintro ⟨entry, hentry, -⟩
    exact Option.isSome_iff_exists.2 ⟨entry, hentry⟩
  identities key id hid := by
    obtain ⟨hheld, hseen⟩ := h.names.identities key id hid
    obtain ⟨entry, hentry⟩ := Option.isSome_iff_exists.1 hheld
    exact ⟨⟨entry, hentry, h.names.placed id entry hentry⟩, hseen⟩
  edges one other entry across hentry hacross edge hedge hend := by
    have hmem := h.joined.joined one other entry across hentry hacross edge hedge hend
    refine ⟨hmem, fun label hlabel => ?_⟩
    rw [exitMembers, List.mem_filter, List.mem_filterMap]
    refine ⟨⟨edge, ?_, otherEnd_symm hend⟩, Option.isSome_iff_exists.2 ⟨entry, hentry⟩⟩
    simp [hmem, hlabel]
  parents id entry hentry := ⟨h.hung.parent id entry hentry, h.hung.held id entry hentry⟩

/-- **The index agrees with itself.** After every run of operations each of which is coherent when
it is performed, names, provider identities, edges and canonical parents agree. -/
theorem consistent_of_coherent (geography : Geography) (freshness : FreshnessPolicy)
    (operations : List Operation)
    (h : Interaction.Along (perform geography)
      (fun index operation => operation.Coherent geography index) operations (new freshness)) :
    (operations.foldl (perform geography) (new freshness)).Consistent geography fun key id =>
      ∃ object instant, .register object instant ∈ operations ∧ providerKey object = key ∧
        object.spatialId = id := by
  refine Kept.consistent (h.invariant (new_kept freshness) fun index operation hmem hkept hmeets =>
    perform_kept hkept hmeets ?_)
  rintro object instant rfl
  exact ⟨object, instant, hmem, rfl, rfl⟩

end SpatialIndex

/-- A place as a provider describes it, by its kind and name. -/
def observedPlace (kind : SpatialType) (name : String) : SpatialObject where
  identity := ⟨kind.identityTier, kind, [("scope", "host:web01"), ("name", name)]⟩
  objectType := kind
  canonicalRef := ⟨kind.asStr ++ "[" ++ name ++ "]", name⟩
  displayName := name
  scope := ["host:web01"]
  lifetime := ⟨kind.identityTier, 0, 0, none⟩
  provenance := ⟨"linux.systemd", some 0, none, .onThisHost, ⟨"ono.place", 1⟩, none, none⟩
  capabilities := [.enter, .act]
  observed := ⟨_, rfl, .inl rfl⟩

/-- A geography with nothing contributed, and a policy that forgets nothing. -/
def plainGeography : Geography := ⟨none, [], []⟩

def forgetNothing : FreshnessPolicy := ⟨fun _ _ => none⟩

/-- The edge from a service to the process it controls. -/
def controls (service process : SpatialObject) : RelationshipEdge where
  source := service.spatialId
  target := process.spatialId
  relation := ⟨"service.controls_process", .service, .process, .outbound, "processes", "service",
    .cheap⟩
  direction := .outbound
  confidence := .exact
  provenance := service.provenance
  observedAt := 0
  attributes := []

/-- A service is observed and named, then its process, which is forgotten again. -/
def processGone : List Operation :=
  [.register (observedPlace .service "nginx") 0,
    .addAlias (observedPlace .service "nginx").spatialId "web",
    .register (observedPlace .process "1842") 0,
    .recordEdge (controls (observedPlace .service "nginx") (observedPlace .process "1842")),
    .remove (observedPlace .process "1842").spatialId]

theorem SpatialIndex.forall_held_iff {index : SpatialIndex}
    {motive : SpatialId → IndexEntry → Prop} :
    (∀ place entry, index.get place = some entry → motive place entry) ↔
      ∀ held ∈ index.entries.entries, motive held.1 held.2 :=
  ⟨fun h held hheld => h held.1 held.2 (AList.mem_lookup_iff.2 hheld),
    fun h place entry hentry => h ⟨place, entry⟩ (AList.mem_lookup_iff.1 hentry)⟩

theorem consistent_processForgotten :
    (processGone.foldl (perform plainGeography)
      (.new forgetNothing)).Consistent plainGeography fun key id =>
        ∃ object instant, .register object instant ∈ processGone ∧ providerKey object = key ∧
          object.spatialId = id := by
  refine consistent_of_coherent plainGeography forgetNothing processGone ?_
  rw [processGone]
  refine ⟨⟨fun entry hentry => ?_, fun _ => ?_⟩, trivial, ⟨fun entry hentry => ?_, fun _ => ?_⟩, ?_,
    ?_, trivial⟩
  · rw [get_new] at hentry
    cases hentry
  · rw [forall_held_iff]
    decide +kernel
  · exact absurd (Option.isSome_iff_exists.2 ⟨entry, hentry⟩) (by decide +kernel)
  · rw [forall_held_iff]
    decide +kernel
  · exact ⟨by decide +kernel, by decide +kernel⟩
  · show ∀ place entry, get _ place = some entry → _
    rw [forall_held_iff]
    decide +kernel

/-- The service of a process is forgotten. -/
def serviceForgotten : List Operation :=
  [.register (observedPlace .service "nginx") 0, .register (observedPlace .process "1842") 0,
    .recordEdge (controls (observedPlace .service "nginx") (observedPlace .process "1842")),
    .remove (observedPlace .service "nginx").spatialId]

/-- The process goes on to be filed under the service that is gone. -/
theorem not_consistent_serviceForgotten :
    ¬ ∀ (geography : Geography) (freshness : FreshnessPolicy) (operations : List Operation),
      Interaction.Along (perform geography)
          (fun index operation => ∀ edge, operation = .recordEdge edge →
            index.contains edge.source = true ∧ index.contains edge.target = true)
          operations (.new freshness) →
        (operations.foldl (perform geography) (.new freshness)).Consistent geography
          fun key id => ∃ object instant, .register object instant ∈ operations ∧
            providerKey object = key ∧ object.spatialId = id := by
  intro hclaim
  have hends : Interaction.Along (perform plainGeography)
      (fun index operation => ∀ edge, operation = .recordEdge edge →
        index.contains edge.source = true ∧ index.contains edge.target = true)
      serviceForgotten (.new forgetNothing) := by
    rw [serviceForgotten]
    refine ⟨fun edge h => Operation.noConfusion h, fun edge h => Operation.noConfusion h, ?_,
      fun edge h => Operation.noConfusion h, trivial⟩
    intro edge h
    obtain rfl := Operation.recordEdge.inj h
    exact ⟨by decide +kernel, by decide +kernel⟩
  have hconsistent := hclaim plainGeography forgetNothing serviceForgotten hends
  generalize hstate : serviceForgotten.foldl (perform plainGeography)
    (.new forgetNothing) = state at hconsistent
  have hparent : (state.get (observedPlace .process "1842").spatialId).bind
      IndexEntry.canonicalParent = some ⟨(observedPlace .service "nginx").spatialId,
        (observedPlace .process "1842").spatialId, .grouping⟩ := by
    rw [← hstate]
    decide +kernel
  obtain ⟨entry, hentry, hstep⟩ := Option.bind_eq_some_iff.1 hparent
  rcases (hconsistent.parents _ entry hentry).2 _ hstep with hheld | ⟨space, hspace⟩
  · rw [← hstate] at hheld
    exact absurd hheld (by decide +kernel)
  · exact (observedPlace .service "nginx").observed.ne_space space _ hspace

end OnoSendai.Spatial
