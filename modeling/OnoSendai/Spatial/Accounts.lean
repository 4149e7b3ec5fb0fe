import OnoSendai.Spatial.Edges

/-!
# Names, edges and parents

Three accounts of the places the index holds: the names and provider identities that lead to them,
the lists of edges between them, and the canonical parents they hang from. Each operation is
followed through each account.
-/

namespace OnoSendai.Spatial

open RelationshipEdge Function Option

namespace SpatialIndex

variable {geography : Geography} {index : SpatialIndex} {id place : SpatialId}

/-! ### What agrees -/

/-- A parent is a place the index holds or a canonical space. -/
def HeldOrSpace (geography : Geography) (index : SpatialIndex) (parent : Option HierarchicalEdge) :
    Prop :=
  ∀ step, parent = some step →
    index.contains step.parent = true ∨ ∃ space, step.parent = .ofSpaceIn space geography.standing

/-- Names and provider identities agree with the entries: a name lists the held places that answer
to it, a recorded identity was observed of the held place it maps to, and the identity a held
place is described by is recorded. -/
structure Names (seen : ProviderKey → SpatialId → Prop) (index : SpatialIndex) : Prop where
  aliases : ∀ name id, id ∈ index.aliases name ↔
    ∃ entry, index.get id = some entry ∧ name ∈ entry.aliases
  identities : ∀ key id, index.identities key = some id → index.contains id = true ∧ seen key id
  described : ∀ id entry, index.get id = some entry →
    index.identities (providerKey entry.object) = some id
  placed : ∀ id entry, index.get id = some entry → entry.object.spatialId = id

/-- The lists of edges agree: an edge of a held place leads from it, is listed once, and is in the
list of the held place it leads to. -/
structure Joined (index : SpatialIndex) : Prop where
  touching : ∀ id entry, index.get id = some entry → ∀ edge ∈ entry.edges, edge.Touches id
  distinct : ∀ id entry, index.get id = some entry → Distinct entry.edges
  joined : ∀ one other entry across, index.get one = some entry → index.get other = some across →
    ∀ edge ∈ entry.edges, edge.otherEnd one = some other → edge ∈ across.edges

/-- Canonical parents agree with what they follow from, and lead to places there are. -/
structure Hung (geography : Geography) (index : SpatialIndex) : Prop where
  parent : ∀ id entry, index.get id = some entry → entry.canonicalParent =
    geography.canonicalParentWith id entry.object.objectType entry.edges entry.pathParent
  held : ∀ id entry, index.get id = some entry →
    index.HeldOrSpace geography entry.canonicalParent

/-- Changes of single entries. -/
def MapsTo (index after : SpatialIndex) (change : SpatialId → IndexEntry → IndexEntry) : Prop :=
  ∀ place, after.get place = (index.get place).map (change place)

section MapsTo

variable {after : SpatialIndex} {change : SpatialId → IndexEntry → IndexEntry}

theorem MapsTo.exists (h : index.MapsTo after change) {changed : IndexEntry}
    (hchanged : after.get place = some changed) :
    ∃ entry, index.get place = some entry ∧ change place entry = changed :=
  map_eq_some_iff.1 ((h place).symm.trans hchanged)

theorem MapsTo.contains (h : index.MapsTo after change) (place : SpatialId) :
    after.contains place = index.contains place := by
  rw [SpatialIndex.contains, SpatialIndex.contains, h, isSome_map]

theorem MapsTo.heldOrSpace (h : index.MapsTo after change) {parent : Option HierarchicalEdge}
    (hparent : index.HeldOrSpace geography parent) : after.HeldOrSpace geography parent :=
  fun step hstep => (hparent step hstep).imp_left fun hheld => (h.contains _).trans hheld

theorem mapsTo_of_ite {changed : SpatialId → Prop} [DecidablePred changed]
    (h : ∀ place, after.get place =
      if changed place then (index.get place).map (change place) else index.get place) :
    index.MapsTo after fun place entry => if changed place then change place entry else entry := by
  intro place
  rw [h]
  by_cases hchanged : changed place
  · simp only [if_pos hchanged]
  · simp only [if_neg hchanged, map_id']

theorem mapsTo_modify (change : IndexEntry → IndexEntry) :
    index.MapsTo (index.modify id change) fun place entry =>
      if place = id then change entry else entry :=
  mapsTo_of_ite fun place => by
    rw [get_modify]
    split_ifs with hplace
    · rw [hplace]
    · rfl

theorem mapsTo_recordEdge (edge : RelationshipEdge) :
    index.MapsTo (index.recordEdge geography edge) fun place entry =>
      if edge.Touches place then
        rehung geography place (putEdge edge entry.edges) entry.pathParent entry
      else entry :=
  mapsTo_of_ite fun _ => get_recordEdge

theorem mapsTo_forgetEdges :
    index.MapsTo (index.forgetEdges geography id).2 fun place entry =>
      if place ∈ index.edgeEnds id then
        rehung geography place (withoutTouching id entry.edges) entry.pathParent entry
      else entry :=
  mapsTo_of_ite fun _ => get_forgetEdges

/-! ### Operations that change entries -/

variable {seen : ProviderKey → SpatialId → Prop}

theorem Names.mapsTo (h : index.Names seen) (hmap : index.MapsTo after change)
    (haliases : ∀ name id, id ∈ after.aliases name ↔
      ∃ entry, index.get id = some entry ∧ name ∈ (change id entry).aliases)
    (hidentities : after.identities = index.identities)
    (hsame : ∀ place entry, (change place entry).object.spatialId = entry.object.spatialId ∧
      providerKey (change place entry).object = providerKey entry.object) : after.Names seen where
  aliases name id := by
    rw [haliases, hmap]
    constructor
    · rintro ⟨entry, hentry, hname⟩
      exact ⟨change id entry, by rw [hentry, map_some], hname⟩
    · rintro ⟨changed, hchanged, hname⟩
      obtain ⟨entry, hentry, rfl⟩ := map_eq_some_iff.1 hchanged
      exact ⟨entry, hentry, hname⟩
  identities key id hid := by
    rw [hmap.contains]
    exact h.identities key id (hidentities ▸ hid)
  described id changed hchanged := by
    obtain ⟨entry, hentry, rfl⟩ := hmap.exists hchanged
    rw [(hsame id entry).2, hidentities]
    exact h.described id entry hentry
  placed id changed hchanged := by
    obtain ⟨entry, hentry, rfl⟩ := hmap.exists hchanged
    rw [(hsame id entry).1]
    exact h.placed id entry hentry

theorem Names.map (h : index.Names seen) (hmap : index.MapsTo after change)
    (haliases : after.aliases = index.aliases ∧ after.identities = index.identities)
    (hsame : ∀ place entry, (change place entry).aliases = entry.aliases ∧
      (change place entry).object.spatialId = entry.object.spatialId ∧
      providerKey (change place entry).object = providerKey entry.object) : after.Names seen :=
  h.mapsTo hmap (fun name id => by simp only [haliases.1, h.aliases, (hsame id _).1]) haliases.2
    fun place entry => (hsame place entry).2

theorem mapsTo_addAlias (id : SpatialId) (name : String) :
    index.MapsTo (index.addAlias id name).2 fun place entry =>
      if place = id then { entry with aliases := insert name.toLower entry.aliases } else entry := by
  rcases hget : index.get id with _ | held
  · intro place
    rw [addAlias, hget]
    by_cases hplace : place = id
    · rw [hplace, hget, map_none]
    · simp only [if_neg hplace, map_id']
  · rw [addAlias, hget]
    exact mapsTo_modify _

/-- A name given to a held place is listed under it. -/
theorem Names.addAlias (h : index.Names seen) (id : SpatialId) (name : String) :
    (index.addAlias id name).2.Names seen := by
  rcases hget : index.get id with _ | held
  · rw [SpatialIndex.addAlias, hget]
    exact h
  rw [SpatialIndex.addAlias, hget]
  refine h.mapsTo (mapsTo_modify fun entry =>
    { entry with aliases := insert name.toLower entry.aliases }) (fun other place => ?_)
    (identities_modify _) fun place entry => ?_
  · by_cases hother : other = name.toLower
    · subst hother
      simp only [update_self, Finset.mem_insert, h.aliases]
      by_cases hplace : place = id
      · subst hplace
        simp [hget]
      · simp [hplace]
    · simp only [update_of_ne hother, h.aliases]
      by_cases hplace : place = id
      · subst hplace
        simp [hother]
      · simp [hplace]
  · split_ifs <;> exact ⟨rfl, rfl⟩

theorem Joined.map (h : index.Joined) (hmap : index.MapsTo after change)
    (hedges : ∀ place entry, (change place entry).edges = entry.edges) : after.Joined where
  touching id changed hchanged := by
    obtain ⟨entry, hentry, rfl⟩ := hmap.exists hchanged
    rw [hedges]
    exact h.touching id entry hentry
  distinct id changed hchanged := by
    obtain ⟨entry, hentry, rfl⟩ := hmap.exists hchanged
    rw [hedges]
    exact h.distinct id entry hentry
  joined one other changed across hchanged hacross := by
    obtain ⟨entry, hentry, rfl⟩ := hmap.exists hchanged
    obtain ⟨far, hfar, rfl⟩ := hmap.exists hacross
    rw [hedges, hedges]
    exact h.joined one other entry far hentry hfar

theorem hung_of_mapsTo (hmap : index.MapsTo after change)
    (hparent : ∀ place entry, index.get place = some entry →
      (change place entry).canonicalParent = geography.canonicalParentWith place
          (change place entry).object.objectType (change place entry).edges
          (change place entry).pathParent ∧
        index.HeldOrSpace geography (change place entry).canonicalParent) :
    after.Hung geography where
  parent id changed hchanged := by
    obtain ⟨entry, hentry, rfl⟩ := hmap.exists hchanged
    exact (hparent id entry hentry).1
  held id changed hchanged := by
    obtain ⟨entry, hentry, rfl⟩ := hmap.exists hchanged
    exact hmap.heldOrSpace (hparent id entry hentry).2

end MapsTo

/-- A recorded edge is in the lists of both its ends. -/
theorem Joined.recordEdge (h : index.Joined) (edge : RelationshipEdge) :
    (index.recordEdge geography edge).Joined := by
  have hmap := @mapsTo_recordEdge geography index edge
  refine ⟨fun id changed hchanged other hother => ?_, fun id changed hchanged => ?_,
    fun one far changed across hchanged hacross other hother hend => ?_⟩
  · obtain ⟨entry, hentry, rfl⟩ := hmap.exists hchanged
    split_ifs at hother with htouches
    · rcases mem_of_mem_putEdge hother with rfl | hmem
      · exact htouches
      · exact h.touching id entry hentry other hmem
    · exact h.touching id entry hentry other hother
  · obtain ⟨entry, hentry, rfl⟩ := hmap.exists hchanged
    split_ifs
    · exact distinct_putEdge (h.distinct id entry hentry)
    · exact h.distinct id entry hentry
  · obtain ⟨entry, hentry, rfl⟩ := hmap.exists hchanged
    obtain ⟨there, hthere, rfl⟩ := hmap.exists hacross
    -- the recorded edge is put into the list across; any other was there and stays
    have hstays (hmem : other ∈ entry.edges) (hother : other.sameEdgeAs edge = false) :
        other ∈ (if edge.Touches far then
          rehung geography far (putEdge edge there.edges) there.pathParent there
          else there).edges := by
      have hacross := h.joined one far entry there hentry hthere other hmem hend
      split_ifs
      · exact mem_putEdge_of_mem hacross hother
      · exact hacross
    split_ifs at hother with htouches
    · rcases sameEdgeAs_of_mem_putEdge (h.distinct one entry hentry) hother with
        rfl | ⟨hmem, hdiffers⟩
      · rw [if_pos (touches_of_otherEnd hend)]
        exact mem_putEdge_self _ _
      · exact hstays hmem hdiffers
    · refine hstays hother (Bool.eq_false_of_not_eq_true fun hsame => htouches ?_)
      exact (touches_congr hsame one).1 (h.touching one entry hentry other hother)

variable {edge : RelationshipEdge}

theorem otherEnd_symm {one far : SpatialId} (h : edge.otherEnd one = some far) :
    edge.otherEnd far = some one := by
  rw [otherEnd] at h ⊢
  split_ifs at h with hsource htarget
  · obtain rfl := some.inj h
    by_cases hloop : edge.target = edge.source
    · rw [if_pos hloop, hsource, hloop]
    · rw [if_neg hloop, if_pos rfl, hsource]
  · obtain rfl := some.inj h
    rw [if_pos rfl, htarget]

theorem otherEnd_of_touches {one far : SpatialId} (hone : edge.Touches one)
    (hfar : edge.Touches far) (hne : far ≠ one) : edge.otherEnd one = some far := by
  rw [otherEnd]
  rcases hone with rfl | rfl <;> rcases hfar with rfl | rfl
  · exact absurd rfl hne
  · rw [if_pos rfl]
  · rw [if_neg (Ne.symm hne), if_pos rfl]
  · exact absurd rfl hne

theorem Joined.not_touches (h : index.Joined) {lost entry : IndexEntry}
    (hlost : index.get id = some lost) (hentry : index.get place = some entry)
    (hend : place ∉ index.edgeEnds id) : ∀ edge ∈ entry.edges, ¬ edge.Touches id := by
  intro edge hedge htouches
  rw [edgeEnds, hlost] at hend
  rw [List.mem_append, not_or, List.mem_singleton] at hend
  have hacross := otherEnd_of_touches (h.touching place entry hentry edge hedge) htouches
    (Ne.symm hend.2)
  refine hend.1 (List.mem_filterMap.2 ⟨edge, ?_, otherEnd_symm hacross⟩)
  exact h.joined place id entry lost hentry hlost edge hedge hacross

/-- Edges are dropped from both their ends. -/
theorem Joined.forgetEdges (h : index.Joined) : (index.forgetEdges geography id).2.Joined := by
  have hmap := @mapsTo_forgetEdges geography index id
  have hsub (place : SpatialId) (entry : IndexEntry) (edge : RelationshipEdge)
      (hedge : edge ∈ (if place ∈ index.edgeEnds id then
        rehung geography place (withoutTouching id entry.edges) entry.pathParent entry
        else entry).edges) : edge ∈ entry.edges := by
    split_ifs at hedge
    · exact (mem_withoutTouching.1 hedge).1
    · exact hedge
  refine ⟨fun place changed hchanged edge hedge => ?_, fun place changed hchanged => ?_,
    fun one far changed across hchanged hacross edge hedge hend => ?_⟩
  · obtain ⟨entry, hentry, rfl⟩ := hmap.exists hchanged
    exact h.touching place entry hentry edge (hsub place entry edge hedge)
  · obtain ⟨entry, hentry, rfl⟩ := hmap.exists hchanged
    split_ifs
    · exact (h.distinct place entry hentry).sublist List.filter_sublist
    · exact h.distinct place entry hentry
  · obtain ⟨entry, hentry, rfl⟩ := hmap.exists hchanged
    obtain ⟨there, hthere, rfl⟩ := hmap.exists hacross
    have hfar := h.joined one far entry there hentry hthere edge (hsub one entry edge hedge) hend
    split_ifs with hends
    · refine mem_withoutTouching.2 ⟨hfar, ?_⟩
      split_ifs at hedge with hone
      · exact (mem_withoutTouching.1 hedge).2
      · rcases hlost : index.get id with _ | lost
        · rw [edgeEnds, hlost] at hends
          exact absurd hends List.not_mem_nil
        · exact h.not_touches hlost hentry hone edge hedge
    · exact hfar

/-- What an edge gives its ends as parents there is, where both ends are held. -/
theorem Hung.recordEdge (h : index.Hung geography) (hsource : index.contains edge.source = true)
    (htarget : index.contains edge.target = true) :
    (index.recordEdge geography edge).Hung geography := by
  refine hung_of_mapsTo (mapsTo_recordEdge edge) fun place entry hentry => ?_
  split_ifs
  · refine ⟨rfl, ?_⟩
    rcases @canonicalParentWith_eq_or geography place entry.object.objectType entry.edges _
      entry.pathParent _ _ (fun relation => neighbour_putEdge edge entry.edges relation place)
      (.inl rfl) with hsame | ⟨step, hstep, hend⟩
    · rw [rehung, hsame, ← h.parent place entry hentry]
      exact h.held place entry hentry
    · rintro found hfound
      obtain rfl := some.inj (hstep.symm.trans hfound)
      refine .inl ?_
      rcases touches_of_otherEnd hend with hparent | hparent
      · exact hparent ▸ hsource
      · exact hparent ▸ htarget
  · exact ⟨h.parent place entry hentry, h.held place entry hentry⟩

/-- A path parent is held. -/
theorem Hung.setPathParent (h : index.Hung geography) {child parent : SpatialId}
    (hparent : index.contains parent = true) :
    (index.modify child fun entry =>
      rehung geography child entry.edges (some parent) entry).Hung geography := by
  refine hung_of_mapsTo (mapsTo_modify _) fun place entry hentry => ?_
  split_ifs with hplace
  · subst hplace
    refine ⟨rfl, ?_⟩
    rcases @canonicalParentWith_eq_or geography place entry.object.objectType entry.edges _
      entry.pathParent _ (fun place => place = parent) (fun relation => .inl rfl)
      (.inr ⟨parent, rfl, rfl⟩) with hsame | ⟨step, hstep, hfresh⟩
    · rw [rehung, hsame, ← h.parent place entry hentry]
      exact h.held place entry hentry
    · rintro found hfound
      obtain rfl := some.inj (hstep.symm.trans hfound)
      exact .inl (hfresh ▸ hparent)
  · exact ⟨h.parent place entry hentry, h.held place entry hentry⟩

/-! ### Registration -/

variable {seen : ProviderKey → SpatialId → Prop} {object : SpatialObject} {instant : Int}

theorem described_eq (entry : IndexEntry) (object : SpatialObject) (instant : Int) :
    described entry object instant = entry.object.seenAgain instant ∨
      described entry object instant = object.seenAgain instant := by
  rw [described]
  split_ifs
  · exact .inl rfl
  · exact .inr rfl

/-- Names and identities agree after an observation whose entry answers to the old names of the
place and to the observed ones. -/
theorem Names.observed (h : index.Names seen)
    (hknown : ∀ known, index.identities (providerKey object) = some known →
      known = object.spatialId)
    (hseen : seen (providerKey object) object.spatialId) {after : SpatialIndex}
    (entry : IndexEntry) (haliases : after.aliases = (index.named object).aliases)
    (hidentities : after.identities = (index.named object).identities)
    (hget : ∀ place, after.get place =
      if place = object.spatialId then some entry else index.get place)
    (hnames : ∀ name, name ∈ entry.aliases ↔
      name ∈ aliasesOf object ∨ object.spatialId ∈ index.aliases name)
    (hplaced : entry.object.spatialId = object.spatialId)
    (hkey : providerKey entry.object = providerKey object ∨
      index.identities (providerKey entry.object) = some object.spatialId) :
    after.Names seen where
  aliases name id := by
    rw [haliases, aliases_named, hget]
    by_cases hid : id = object.spatialId
    · subst hid
      simp only [↓reduceIte, some.injEq, exists_eq_left', hnames]
      split_ifs with hname
      · simp [hname]
      · simp [hname]
    · simp only [if_neg hid, ← h.aliases]
      split_ifs
      · rw [Finset.mem_insert, or_iff_right hid]
      · rfl
  identities key id hid := by
    rw [hidentities, identities_named] at hid
    rw [contains, hget]
    by_cases hkey : key = providerKey object
    · subst hkey
      rw [update_self] at hid
      obtain rfl := some.inj hid
      rw [if_pos rfl]
      exact ⟨rfl, hseen⟩
    · rw [update_of_ne hkey] at hid
      obtain ⟨hheld, hseen⟩ := h.identities key id hid
      refine ⟨?_, hseen⟩
      split_ifs
      · rfl
      · exact hheld
  described id changed hchanged := by
    rw [hget] at hchanged
    rw [hidentities, identities_named]
    split_ifs at hchanged with hid
    · obtain rfl := some.inj hchanged
      rw [hid]
      by_cases hsame : providerKey entry.object = providerKey object
      · rw [hsame, update_self]
      · rw [update_of_ne hsame]
        exact hkey.resolve_left hsame
    · have hold := h.described id changed hchanged
      rw [update_of_ne]
      · exact hold
      · intro hsame
        rw [hsame] at hold
        exact hid (hknown id hold)
  placed id changed hchanged := by
    rw [hget] at hchanged
    split_ifs at hchanged with hid
    · obtain rfl := some.inj hchanged
      rw [hplaced, hid]
    · exact h.placed id changed hchanged

theorem Names.register (h : index.Names seen)
    (hseen : seen (providerKey object) object.spatialId) :
    (index.register geography object instant).2.Names seen := by
  rcases register_cases geography object instant index with
    ⟨_, _, _, heq⟩ | ⟨hknown, ⟨entry, hentry, heq⟩ | ⟨hfree, heq⟩⟩
  · rw [heq]
    exact h
  · rw [heq]
    refine h.observed hknown hseen (reconciled object instant entry) (aliases_modify _)
      (identities_modify _) (fun place => ?_) (fun name => ?_) ?_ ?_
    · rw [get_modify, get_named, get_named, hentry, map_some]
    · rw [reconciled, Finset.mem_union, List.mem_toFinset, or_comm, h.aliases, hentry]
      simp only [some.injEq, exists_eq_left']
    · rcases described_eq entry object instant with hsame | hsame
      · rw [reconciled, hsame]
        exact h.placed _ entry hentry
      · rw [reconciled, hsame]
        rfl
    · rcases described_eq entry object instant with hsame | hsame
      · rw [reconciled, hsame]
        exact .inr (h.described _ entry hentry)
      · rw [reconciled, hsame]
        exact .inl rfl
  · rw [heq]
    refine h.observed hknown hseen (added geography object instant) rfl rfl
      (fun place => get_withEntry _) (fun name => ?_) rfl (.inl rfl)
    rw [added, List.mem_toFinset, h.aliases, hfree]
    simp

/-- An observed place joins no edge to those there are, where no list has one to it. -/
theorem Joined.register (h : index.Joined)
    (hfresh : index.get object.spatialId = none → ∀ place entry, index.get place = some entry →
      ∀ edge ∈ entry.edges, ¬ edge.Touches object.spatialId) :
    (index.register geography object instant).2.Joined := by
  rcases register_cases geography object instant index with
    ⟨_, _, _, heq⟩ | ⟨-, ⟨entry, hentry, heq⟩ | ⟨hfree, heq⟩⟩
  · rw [heq]
    exact h
  · have hnamed : (index.named object).Joined := ⟨h.touching, h.distinct, h.joined⟩
    rw [heq]
    refine hnamed.map (mapsTo_modify _) fun place entry => ?_
    split_ifs <;> rfl
  · have hget := get_register_of_added heq
    have hold (place : SpatialId) (entry : IndexEntry) (edge : RelationshipEdge)
        (hentry : (index.register geography object instant).2.get place = some entry)
        (hedge : edge ∈ entry.edges) : index.get place = some entry := by
      rw [hget] at hentry
      split_ifs at hentry
      · obtain rfl := some.inj hentry
        exact absurd hedge List.not_mem_nil
      · exact hentry
    refine ⟨fun place entry hentry edge hedge => ?_, fun place entry hentry => ?_,
      fun one other entry across hentry hacross edge hedge hend => ?_⟩
    · exact h.touching place entry (hold place entry edge hentry hedge) edge hedge
    · rw [hget] at hentry
      split_ifs at hentry
      · obtain rfl := some.inj hentry
        exact List.Pairwise.nil
      · exact h.distinct place entry hentry
    · have hone := hold one entry edge hentry hedge
      rw [hget] at hacross
      split_ifs at hacross with hother
      · exact absurd (hother ▸ touches_of_otherEnd hend)
          (hfresh hfree one entry hone edge hedge)
      · exact h.joined one other entry across hone hacross edge hedge hend

/-- An observed place hangs from a canonical space, or from where its rules still lead. -/
theorem Hung.register (h : index.Hung geography)
    (hkept : ∀ entry, index.get object.spatialId = some entry →
      geography.canonicalParentWith object.spatialId (described entry object instant).objectType
        entry.edges entry.pathParent = entry.canonicalParent) :
    (index.register geography object instant).2.Hung geography := by
  rcases register_cases geography object instant index with
    ⟨_, _, _, heq⟩ | ⟨-, ⟨entry, hentry, heq⟩ | ⟨hfree, heq⟩⟩
  · rw [heq]
    exact h
  · rw [heq]
    have hmap := @mapsTo_modify (index.named object) object.spatialId (reconciled object instant)
    refine hung_of_mapsTo hmap fun place entry hentry => ?_
    split_ifs with hplace
    · subst hplace
      exact ⟨(hkept entry hentry).symm, h.held _ entry hentry⟩
    · exact ⟨h.parent place entry hentry, h.held place entry hentry⟩
  · have hget := get_register_of_added heq
    have hmore (place : SpatialId) (hheld : index.contains place = true) :
        (index.register geography object instant).2.contains place = true := by
      rw [contains, hget]
      split_ifs
      · rfl
      · exact hheld
    refine ⟨fun place entry hentry => ?_, fun place entry hentry => ?_⟩
    · rw [hget] at hentry
      split_ifs at hentry with hplace
      · obtain rfl := some.inj hentry
        rw [hplace]
        rfl
      · exact h.parent place entry hentry
    · rw [hget] at hentry
      split_ifs at hentry with hplace
      · obtain rfl := some.inj hentry
        intro step hstep
        rw [added, canonicalParentWith_nil, Geography.collectionStep,
          map_eq_some_iff] at hstep
        obtain ⟨space, -, rfl⟩ := hstep
        exact .inr ⟨space, rfl⟩
      · exact fun step hstep => (h.held place entry hentry step hstep).imp_left (hmore _)

/-! ### Removal -/

/-- A place taken out is taken out of the names and identities that were its own. -/
theorem Names.remove (h : index.Names seen) (id : SpatialId) : (index.remove id).2.Names seen := by
  rcases hget : index.get id with _ | lost
  · rw [SpatialIndex.remove, hget]
    exact h
  have haliases (name : String) : (index.remove id).2.aliases name = (index.aliases name).erase id := by
    rw [SpatialIndex.remove, hget]
    simp only
    split_ifs with hname
    · rfl
    · rw [Finset.erase_eq_of_notMem]
      intro hmem
      obtain ⟨entry, hentry, hname'⟩ := (h.aliases name id).1 hmem
      obtain rfl := some.inj (hget.symm.trans hentry)
      exact hname hname'
  have hidentities (key : ProviderKey) :
      (index.remove id).2.identities key = (index.identities key).filter (· ≠ id) := by
    rw [SpatialIndex.remove, hget]
  have hkept (place : SpatialId) (entry : IndexEntry) :
      (index.remove id).2.get place = some entry ↔ place ≠ id ∧ index.get place = some entry := by
    rw [get_remove]
    split_ifs with hplace
    · simp [hplace]
    · simp [hplace]
  refine ⟨fun name place => ?_, fun key place hplace => ?_, fun place entry hentry => ?_,
    fun place entry hentry => h.placed place entry ((hkept place entry).1 hentry).2⟩
  · rw [haliases, Finset.mem_erase, h.aliases]
    simp only [hkept, and_assoc, exists_and_left]
  · rw [hidentities, filter_eq_some_iff] at hplace
    obtain ⟨hheld, hseen⟩ := h.identities key place hplace.1
    refine ⟨?_, hseen⟩
    rw [contains, get_remove, if_neg (by simpa using hplace.2)]
    exact hheld
  · obtain ⟨hne, hentry⟩ := (hkept place entry).1 hentry
    rw [hidentities, h.described place entry hentry, filter_eq_some_iff]
    exact ⟨rfl, by simpa using hne⟩

theorem Names.foldl_remove (h : index.Names seen) (ids : List SpatialId) :
    (ids.foldl (fun index id => (SpatialIndex.remove id index).2) index).Names seen := by
  induction ids generalizing index with
  | nil => exact h
  | cons first rest ih => exact ih (h.remove first)

section Removed

variable {rest : SpatialIndex} {gone : SpatialId → Bool}
  (hrest : ∀ place, rest.get place = if gone place then none else index.get place)

include hrest

theorem get_of_removed {entry : IndexEntry} (hentry : rest.get place = some entry) :
    gone place = false ∧ index.get place = some entry := by
  rw [hrest] at hentry
  split_ifs at hentry with hgone
  exact ⟨Bool.eq_false_of_not_eq_true hgone, hentry⟩

theorem Joined.of_removed (h : index.Joined) : rest.Joined where
  touching place entry hentry := h.touching place entry (get_of_removed hrest hentry).2
  distinct place entry hentry := h.distinct place entry (get_of_removed hrest hentry).2
  joined one other entry across hentry hacross :=
    h.joined one other entry across (get_of_removed hrest hentry).2
      (get_of_removed hrest hacross).2

/-- Parents there are stay where no place that stays had its parent among those taken out. -/
theorem Hung.of_removed (h : index.Hung geography)
    (hstay : ∀ place entry, index.get place = some entry → gone place = false →
      ∀ step, entry.canonicalParent = some step → gone step.parent = false) :
    rest.Hung geography where
  parent place entry hentry := h.parent place entry (get_of_removed hrest hentry).2
  held place entry hentry step hstep := by
    obtain ⟨hgone, hentry⟩ := get_of_removed hrest hentry
    refine (h.held place entry hentry step hstep).imp_left fun hheld => ?_
    rw [contains, hrest, hstay place entry hentry hgone step hstep]
    exact hheld

end Removed

end SpatialIndex

end OnoSendai.Spatial
