import Mathlib.Data.Fintype.EquivFin
import OnoSendai.Protection.Promise

/-!
# Promises lost unnoticed

Where two rows of one domain could be satisfied, and one of them needs recovery, there are providers
and policies under which a promise is lost and none is reported lost. One provider is enough: it
offers a copy for every subject in that domain. At the first analysis nothing limits it and every
row of the domain is protected. At the second the policy allows one asset, which goes to the first
mutation that needs recovery, and the rows after it have none.
-/

namespace OnoSendai.Protection

open List CostLimits

/-- What the row at a site says, with a protection. -/
def Site.core (protection : Site → DomainProtection) (site : Site) : RowCore :=
  ⟨site.domain, site.objective, protection site⟩

variable {protection : Site → DomainProtection}

theorem cores_of_fits {drafts : List RowDraft} {places : List Site}
    (h : Forall₂ (Fits fun found site => found = protection site) drafts places) :
    drafts.map RowDraft.core = places.map (Site.core protection) := by
  induction h with
  | nil => rfl
  | cons hfit _ ih =>
    rw [map_cons, map_cons, ih, RowDraft.core, Site.core, hfit.domain, hfit.objective,
      hfit.protection]

variable {mutation : MutationDomain} {site : Site}

theorem of_mem_sites_mutation {boundaries : List MountBoundary}
    (h : site ∈ mutation.site :: sitesBeneath mutation boundaries) :
    site.domain = mutation.domain ∧ site.objective = mutation.objective := by
  rcases mem_cons.mp h with rfl | hbeneath
  · exact ⟨rfl, rfl⟩
  · obtain ⟨boundary, -, rfl⟩ := mem_map.mp hbeneath
    exact ⟨rfl, rfl⟩

theorem objective_ne_unknown (h : mutation.domain ≠ .unknown) : mutation.objective ≠ .unknown := by
  unfold MutationDomain.objective objectiveFor
  split_ifs
  · simp
  · cases hdomain : mutation.domain <;> simp_all

/-! ### What covering leaves alone -/

section Leaves

variable {request : CoverageRequest} {mutation : MutationDomain}
  {persistence : Option PersistenceDomain} {boundaries : List MountBoundary}

theorem actions_discover (gathered : Gathered) :
    (discover request mutation persistence gathered).2.actions = gathered.actions := by
  unfold discover
  dsimp only
  split
  · rfl
  · split_ifs
    · rfl
    · split
      · rfl
      · rfl

theorem actions_fittingOffers (candidates : List RecoveryCandidate) (gathered : Gathered) :
    (fittingOffers request mutation persistence boundaries candidates gathered).2.actions =
      gathered.actions := by
  unfold fittingOffers
  split_ifs
  · simp [withinLimits, copiesOnly]
  · simp [withinLimits]

theorem actions_choose (mode : ProtectionMode) (offers chosen : List RecoveryCandidate)
    (gathered : Gathered) : (choose mode offers chosen gathered).2.actions = gathered.actions := by
  induction offers generalizing chosen gathered with
  | nil => rfl
  | cons candidate offers ih =>
    unfold choose
    split_ifs
    · exact ih _ _
    · exact ih _ _
    · exact ih _ _
    · exact ih _ _

theorem actions_chosenOffers (mode : ProtectionMode) (usable : List RecoveryCandidate)
    (gathered : Gathered) : (chosenOffers mode usable gathered).2.actions = gathered.actions := by
  unfold chosenOffers
  split_ifs
  · exact actions_choose mode usable [] gathered
  · exact actions_rejectAll gathered _ usable

theorem actions_planActions (registry : ProviderRegistry) (chosen : List RecoveryCandidate)
    (mode : ProtectionMode) (ids : List String) (actions : List ProtectionAction)
    (gathered : Gathered) :
    (planActions registry chosen mode ids actions gathered).2.actions = gathered.actions := by
  induction ids generalizing actions gathered with
  | nil => rfl
  | cons id ids ih =>
    unfold planActions
    dsimp only
    split
    · exact (ih _ _).trans (actions_rejectAll gathered _ _)
    · split
      · exact ih _ _
      · exact (ih _ _).trans (actions_rejectAll _ _ _)

theorem actions_gathered_cover (gathered : Gathered) :
    (cover request mutation persistence boundaries gathered).2.actions = gathered.actions := by
  unfold cover
  dsimp only
  rw [actions_planActions, actions_chosenOffers, actions_rejectAll, actions_fittingOffers,
    actions_discover]

end Leaves

/-! ### One provider -/

/-- An offer to copy the subjects of one domain. -/
def soleCandidate (domain : EffectDomain) (object : String) (consistency : ConsistencyClass) :
    RecoveryCandidate where
  provider := "copy"
  scope := ⟨object, "archive", [], "host"⟩
  domain := domain
  objective := .preserveExact
  consistency := consistency
  restoreMethod := .selectiveFileRestore
  cost := ⟨none, none, false, none, none, none, false, false, none⟩
  exclusions := []
  creationRequirements := []
  restoreRequirements := []
  notProtecting := []
  detail := ""

/-- The copy. -/
def soleAsset (object : String) : RecoveryAsset where
  id := ⟨"1", Eq.refl true⟩
  provider := "copy"
  assetType := .fileArchive
  reference := object
  scope := ⟨object, "archive", [], "host"⟩
  createdAt := 0
  sourcePlan := none
  state := .proposed
  consistency := .byteConsistent
  restoreMethod := .selectiveFileRestore
  validation := none
  retention := ⟨0, false⟩
  cost := ⟨none, none, false, none, none, none, false, false, none⟩
  dependencies := []
  exclusions := []
  capturedState := none
  expiresAt := none
  sharesFailureDomain := false

/-- The action that makes the copy. The consistency it is planned with need not be the one that was
offered. -/
def soleAction (domain : EffectDomain) (object : String) (planned : ConsistencyClass) :
    ProtectionAction where
  provider := "copy"
  summary := "copy"
  candidate := soleCandidate domain object planned
  proposedAsset := soleAsset object
  required := true

/-- A provider that offers a copy for everything. -/
def soleProvider (domain : EffectDomain) (object : String) (planned : ConsistencyClass) :
    RecoveryProvider where
  id := "copy"
  availability := .available "1"
  resolveDomain _ := .ok none
  discover _ _ := .ok [soleCandidate domain object .byteConsistent]
  planProtection _ _ := .ok [soleAction domain object planned]

/-- The registry of that provider. -/
def soleRegistry (domain : EffectDomain) (object : String) (planned : ConsistencyClass) :
    ProviderRegistry where
  providers := [soleProvider domain object planned]
  ids_nodup := nodup_singleton _

/-- A filesystem of its own for a subject. -/
def holding (subject : String) : PersistenceDomain :=
  .resolved subject ⟨"8:1", "/", "ext4", "/dev/sda1", "/", [], none⟩ "filesystem" "/dev/sda1" ""

/-- The request that asks that provider about mutations, with at most `limit` assets. -/
def soleRequest (mounts : Option MountTable) (mutations : List MutationDomain)
    (domain : EffectDomain) (object : String) (planned : ConsistencyClass) (limit : Option Nat) :
    CoverageRequest where
  registry := soleRegistry domain object planned
  policy := ⟨.prefer, { unbounded with maxSnapshotCount := limit }, []⟩
  mutations := mutations
  persistence := mutations.map fun mutation => holding mutation.subject
  mounts := mounts

variable {objective : RecoveryObjective}

variable {before after : List MutationDomain}

section Sole

variable {mounts : Option MountTable} {mutations : List MutationDomain} {domain : EffectDomain}
  {object : String} {planned : ConsistencyClass} {limit : Option Nat} {mutation : MutationDomain}
  {held : PersistenceDomain} {boundaries : List MountBoundary} {gathered : Gathered}

@[simp]
theorem path_holding (subject : String) : (holding subject).path = subject :=
  rfl

theorem isProtectable_holding (subject : String) : (holding subject).isProtectable = true := by
  have hkind : FilesystemKind.ofMountType "ext4" = .ext4 := by decide +kernel
  simp [holding, PersistenceDomain.resolved, PersistenceDomain.isProtectable, ResolvedMount.kind,
    hkind, FilesystemKind.isPersistent]

/-- Every subject has the filesystem made for it. -/
theorem persistenceFor_soleRequest (h : mutation ∈ mutations) :
    (soleRequest mounts mutations domain object planned limit).persistenceFor mutation.subject =
      some (holding mutation.subject) := by
  have hfound : (mutations.map fun mutation => holding mutation.subject).find?
      (·.path = mutation.subject) = some (holding mutation.subject) := by
    induction mutations with
    | nil => simp at h
    | cons first mutations ih =>
      by_cases hfirst : first.subject = mutation.subject
      · simp [holding, PersistenceDomain.resolved, hfirst]
      · have hrest := ih ((mem_cons.mp h).resolve_left fun heq => hfirst (heq ▸ rfl))
        rw [map_cons, find?_cons]
        simp only [path_holding, hfirst, decide_false]
        exact hrest
  unfold CoverageRequest.persistenceFor
  simp only [soleRequest, hfound]

/-- What the provider offers in a domain it may protect. -/
theorem discover_soleRequest (h : held.isProtectable = true) :
    (discover (soleRequest mounts mutations domain object planned limit) mutation (some held)
      gathered).1.candidates =
      if domain = mutation.domain then [soleCandidate domain object .byteConsistent] else [] := by
  have houtcome : ((soleRegistry domain object planned).discoverAt mutation.subject (some held)
      mutation.objective).candidates = [soleCandidate domain object .byteConsistent] := by
    simp [ProviderRegistry.discoverAt, ProviderRegistry.available, soleRegistry, soleProvider, h,
      ProviderAvailability.isAvailable, DiscoveryOutcome.asking, DiscoveryOutcome.discovering]
  unfold discover
  simp only [Option.filter, h, Bool.not_true, Bool.false_eq_true, if_false, Option.isNone_some,
    Bool.false_and, Option.some_or, soleRequest, houtcome]
  have hfilter (candidate : RecoveryCandidate) :
      [candidate].filter (·.domain = mutation.domain) =
        if candidate.domain = mutation.domain then [candidate] else [] := by
    simp [filter_cons]
  exact hfilter _

theorem isCopy_soleCandidate (consistency : ConsistencyClass) :
    isCopy (soleRegistry domain object planned) (soleCandidate domain object consistency) =
      true := by
  rfl

theorem isWithin_soleCandidate (consistency : ConsistencyClass) (assets : Nat) :
    isWithin { unbounded with maxSnapshotCount := limit } assets
      (soleCandidate domain object consistency) = limit.all (assets < ·) := by
  cases limit with
  | none => rfl
  | some limit =>
    by_cases h : limit ≤ assets
    · simp [isWithin, breaches, exceeded, unbounded, h]
    · simp [isWithin, breaches, exceeded, unbounded, h, Nat.lt_of_not_le h]

/-- What is tried for a mutation over a domain the provider may protect. -/
theorem offersTried_soleRequest (h : held.isProtectable = true) :
    offersTried (soleRequest mounts mutations domain object planned limit) mutation (some held)
      boundaries gathered =
      if domain = mutation.domain ∧ limit.all (gathered.actions.length < ·) = true then
        [soleCandidate domain object .byteConsistent] else [] := by
  rw [offersTried, discover_soleRequest h]
  by_cases hdomain : domain = mutation.domain
  · rw [if_pos hdomain]
    have hactions := @actions_discover (soleRequest mounts mutations domain object planned limit)
      mutation (some held) gathered
    generalize (discover (soleRequest mounts mutations domain object planned limit) mutation
      (some held) gathered).2 = asked at hactions ⊢
    have hcopies (gathered : Gathered) : (copiesOnly (soleRegistry domain object planned)
        [soleCandidate domain object .byteConsistent] gathered).1 =
        [soleCandidate domain object .byteConsistent] :=
      filter_cons_of_pos (isCopy_soleCandidate _)
    have htried (candidate : RecoveryCandidate) :
        tried boundaries [candidate] mutation.objective = [candidate] := by
      unfold tried
      split_ifs
      · rfl
      · rfl
    have hnone : tried boundaries [] mutation.objective = [] := by
      unfold tried
      split_ifs
      · rfl
      · rfl
    have hfit : (fittingOffers (soleRequest mounts mutations domain object planned limit) mutation
        (some held) boundaries [soleCandidate domain object .byteConsistent] asked).1 =
        tried boundaries ([soleCandidate domain object .byteConsistent].filter
          (isWithin { unbounded with maxSnapshotCount := limit }
            asked.actions.length)) mutation.objective := by
      unfold fittingOffers
      split_ifs
      · dsimp only [withinLimits, soleRequest]
        rw [hcopies]
      · rfl
    rw [hfit, hactions, filter_cons, isWithin_soleCandidate, filter_nil]
    split_ifs with hlimit hboth hboth
    · exact htried _
    · exact absurd ⟨hdomain, hlimit⟩ hboth
    · exact absurd hboth.2 hlimit
    · exact hnone
  · rw [if_neg hdomain, if_neg fun hboth => hdomain hboth.1, fittingOffers_nil]

theorem satisfies_soleCandidate (h : objective ≠ .unknown) :
    satisfies (soleCandidate domain object .byteConsistent) objective = true := by
  cases objective with
  | unknown => exact absurd rfl h
  | preserveExact | restoreSemantic | compensate | noRecoveryRequired => rfl

/-- The provider is taken up where it offers anything. -/
theorem cover_soleRequest_of_offered (h : held.isProtectable = true)
    (hdomain : domain = mutation.domain) (hobjective : mutation.objective ≠ .unknown)
    (hlimit : limit.all (gathered.actions.length < ·) = true) :
    (cover (soleRequest mounts mutations domain object planned limit) mutation (some held)
      boundaries gathered).1.actions = [soleAction domain object planned] := by
  have htried := @offersTried_soleRequest mounts mutations domain object planned limit mutation
    held boundaries gathered h
  rw [if_pos ⟨hdomain, hlimit⟩] at htried
  obtain ⟨before, after, hactions⟩ := @actions_cover
    (soleRequest mounts mutations domain object planned limit) mutation (some held) boundaries
    gathered
  have husable : [soleCandidate domain object .byteConsistent].filter
      (satisfies · mutation.objective) = [soleCandidate domain object .byteConsistent] :=
    filter_cons_of_pos (satisfies_soleCandidate hobjective)
  rw [hactions, htried, husable]
  rfl

/-- Nothing is planned for another domain, or once the limit is reached. -/
theorem cover_soleRequest_of_not_offered
    (h : held.isProtectable = true → domain = mutation.domain →
      limit.all (gathered.actions.length < ·) = false) :
    (cover (soleRequest mounts mutations domain object planned limit) mutation (some held)
        boundaries gathered).1.actions = [] ∧
      (cover (soleRequest mounts mutations domain object planned limit) mutation (some held)
        boundaries gathered).1.unknownSemantics = false := by
  cases hprotectable : held.isProtectable with
  | false => exact cover_of_no_offers (discover_of_refused hprotectable)
  | true =>
    refine cover_of_nothing_tried ?_
    rw [offersTried_soleRequest hprotectable, if_neg]
    rintro ⟨hdomain, hlimit⟩
    rw [h hprotectable hdomain] at hlimit
    cases hlimit

/-! ### Rows without protection -/

/-- A row that nothing is planned for. -/
def Quiet (protection : DomainProtection) (site : Site) : Prop :=
  protection = site.unplanned

/-- The row of a filesystem beneath a subject is quiet where the provider offers nothing for it and
nothing planned before captures it. -/
theorem boundaryRow_quiet {irrelevant : Bool} {boundary : MountBoundary} (walk : TreeWalk)
    (htransient : boundary.isTransient = false)
    (hcovering : ∀ action ∈ walk.tree, captures action.candidate boundary = false)
    (h : domain = mutation.domain → limit.all (walk.gathered.actions.length < ·) = false) :
    ∃ draft after, boundaryRow (soleRequest mounts mutations domain object planned limit) mutation
        boundaries irrelevant walk boundary =
      { walk with gathered := after, tree := walk.tree, children := walk.children ++ [draft] } ∧
      after.actions = walk.gathered.actions ∧ Fits Quiet draft (boundary.site mutation) := by
  obtain ⟨beneath, draft, found, hfound, hrow, hfit⟩ := @boundaryRow_of_not_captured
    (soleRequest mounts mutations domain object planned limit) mutation boundaries irrelevant walk
    boundary htransient fun _ => hcovering
  obtain ⟨hactions, hknown⟩ := @cover_soleRequest_of_not_offered mounts mutations domain object
    planned limit (mutation.beneath boundary) boundary.domain beneath walk.gathered
    fun _ hdomain => h hdomain
  have hgathered := @actions_gathered_cover
    (soleRequest mounts mutations domain object planned limit) (mutation.beneath boundary)
    (some boundary.domain) beneath walk.gathered
  rw [← hfound] at hactions hknown hgathered
  refine ⟨draft, found.2.planning found.1.actions, ?_, ?_, hfit.domain, hfit.objective, ?_⟩
  · rw [hrow, hactions, append_nil]
  · simp [Gathered.planning, hactions, hgathered]
  · rw [hfit.protection, plannedProtection_of_nothing hactions hknown]
    rfl

/-- **Rows of a mutation are quiet** where the provider offers nothing for it. -/
theorem analyseMutation_quiet (hmem : mutation ∈ mutations)
    (h : mutation.objective.isRequired = true → domain = mutation.domain →
      limit.all (gathered.actions.length < ·) = false) :
    Forall₂ (Fits Quiet)
        (analyseMutation (soleRequest mounts mutations domain object planned limit) gathered
          mutation).2
        (mutation.site :: sitesBeneath mutation (boundariesOf mounts mutation)) ∧
      (analyseMutation (soleRequest mounts mutations domain object planned limit) gathered
        mutation).1.actions = gathered.actions := by
  have hown : (ownCover (soleRequest mounts mutations domain object planned limit) mutation
      gathered).1.actions = [] ∧
      (ownCover (soleRequest mounts mutations domain object planned limit) mutation
        gathered).1.unknownSemantics = false ∧
      (ownCover (soleRequest mounts mutations domain object planned limit) mutation
        gathered).2.actions = gathered.actions := by
    unfold ownCover
    split_ifs with hrequired
    · rw [persistenceFor_soleRequest hmem]
      obtain ⟨hactions, hknown⟩ := @cover_soleRequest_of_not_offered mounts mutations domain object
        planned limit mutation (holding mutation.subject) (boundariesOf mounts mutation) gathered
        fun _ => h hrequired
      exact ⟨hactions, hknown, actions_gathered_cover gathered⟩
    · exact ⟨rfl, rfl, rfl⟩
  obtain ⟨hactions, hknown, hgathered⟩ := hown
  obtain ⟨parent, children, tree, hrows, hparent, hchildren, -, hkept⟩ :=
    @analyseMutation_fits (soleRequest mounts mutations domain object planned limit) mutation
      (fun tree after => tree = [] ∧ after.actions = gathered.actions) Quiet Quiet gathered
      ⟨hactions, by simp [Gathered.planning, hactions, hgathered]⟩
      (plannedProtection_of_nothing hactions hknown)
      (by
        rintro walk boundary hboundary htransient ⟨htree, hwalk⟩
        have hrequired : mutation.objective.isRequired = true := by
          by_contra hfree
          simp [boundariesOf, hfree] at hboundary
        obtain ⟨draft, after, hrow, hafter, hfit⟩ := @boundaryRow_quiet mounts mutations domain
          object planned limit mutation (boundariesOf mounts mutation)
          ((soleRequest mounts mutations domain object planned limit).policy.isIrrelevant
            mutation.domain) boundary walk htransient (by simp [htree])
          (by rw [hwalk]; exact h hrequired)
        exact ⟨draft, after, walk.tree, hrow, ⟨htree, hafter.trans hwalk⟩, hfit⟩)
  exact ⟨hrows ▸ .cons hparent hchildren, hkept⟩

/-- **Rows of mutations are quiet** where the provider offers nothing for any of them. -/
theorem analyseAll_quiet {some' : List MutationDomain} (hsub : some' ⊆ mutations)
    (h : ∀ mutation ∈ some', mutation.objective.isRequired = true → domain = mutation.domain →
      limit.all (gathered.actions.length < ·) = false) :
    Forall₂ (Fits Quiet)
        (analyseAll (soleRequest mounts mutations domain object planned limit) some' gathered).2
        (sites mounts some') ∧
      (analyseAll (soleRequest mounts mutations domain object planned limit) some'
        gathered).1.actions = gathered.actions := by
  refine analyseAll_fits (fun after => after.actions = gathered.actions) ?_ rfl
  intro mutation hmutation after hafter
  obtain ⟨hrows, hactions⟩ := @analyseMutation_quiet mounts mutations domain object planned limit
    mutation after (hsub hmutation) (by rw [hafter]; exact h mutation hmutation)
  exact ⟨hrows, hactions.trans hafter⟩

/-! ### The two analyses -/

/-- The protection the copy gives a row, as it was planned. -/
def copied (planned : ConsistencyClass) : DomainProtection :=
  candidateProtection (soleCandidate .unknown "" planned)

/-- **Rows of the mutation that takes the last asset.** Its own row has the copy, and the
filesystems beneath it have nothing. -/
theorem analyseMutation_last (hmem : mutation ∈ mutations)
    (hrequired : mutation.objective.isRequired = true) (hdomain : domain = mutation.domain)
    (hobjective : mutation.objective ≠ .unknown) (hgathered : gathered.actions = [])
    (hobject : ∀ boundary ∈ boundariesOf mounts mutation, boundary.domain.object ≠ some object) :
    ∃ parent children,
      (analyseMutation (soleRequest mounts mutations domain object planned (some 1)) gathered
        mutation).2 = parent :: children ∧
      Fits (fun protection _ => protection = copied planned) parent mutation.site ∧
      Forall₂ (Fits Quiet) children
        (sitesBeneath mutation (boundariesOf mounts mutation)) ∧
      (analyseMutation (soleRequest mounts mutations domain object planned (some 1)) gathered
        mutation).1.actions.length = 1 := by
  have hown : (ownCover (soleRequest mounts mutations domain object planned (some 1)) mutation
      gathered).1.actions = [soleAction domain object planned] ∧
      (ownCover (soleRequest mounts mutations domain object planned (some 1)) mutation
        gathered).2.actions = [] := by
    unfold ownCover
    rw [if_pos hrequired, persistenceFor_soleRequest hmem]
    exact ⟨cover_soleRequest_of_offered (isProtectable_holding _) hdomain hobjective
      (by simp [hgathered]), (actions_gathered_cover gathered).trans hgathered⟩
  obtain ⟨hactions, hleft⟩ := hown
  obtain ⟨parent, children, tree, hrows, hparent, hchildren, -, hkept⟩ :=
    @analyseMutation_fits (soleRequest mounts mutations domain object planned (some 1)) mutation
      (fun tree after => tree = [soleAction domain object planned] ∧ after.actions.length = 1)
      (fun protection _ => protection = copied planned) Quiet gathered
      ⟨hactions, by simp [Gathered.planning, hactions, hleft]⟩
      (plannedProtection_of_cons hactions)
      (by
        rintro walk boundary hboundary htransient ⟨htree, hwalk⟩
        have hcovering : ∀ action ∈ walk.tree, captures action.candidate boundary = false := by
          rw [htree]
          intro action haction
          obtain rfl : action = soleAction domain object planned := by simpa using haction
          have hother := hobject boundary hboundary
          cases hheld : boundary.domain.object with
          | none => simp [captures, hheld, soleAction, soleCandidate]
          | some held =>
            have hne : object ≠ held := fun heq => hother (heq ▸ hheld)
            simp [captures, hheld, soleAction, soleCandidate, RecoveryScope.coversObject, hne]
        obtain ⟨draft, after, hrow, hafter, hfit⟩ := @boundaryRow_quiet mounts mutations domain
          object planned (some 1) mutation (boundariesOf mounts mutation)
          ((soleRequest mounts mutations domain object planned (some 1)).policy.isIrrelevant
            mutation.domain) boundary walk htransient hcovering (by simp [hwalk])
        exact ⟨draft, after, walk.tree, hrow, ⟨htree, hafter ▸ hwalk⟩, hfit⟩)
  exact ⟨parent, children, hrows, hparent, hchildren, hkept⟩

/-- The protection of a row at the first analysis: the copy, where it reaches. -/
def promised (domain : EffectDomain) (site : Site) : DomainProtection :=
  if site.domain = domain ∧ site.objective.isRequired = true ∧ site.protectable = true then
    .protected'
  else
    site.unplanned

theorem promised_of_not (h : ¬ (site.objective.isRequired = true ∧ domain = site.domain)) :
    promised domain site = site.unplanned :=
  if_neg fun hall => h ⟨hall.2.1, hall.1.symm⟩

/-- A filesystem beneath a subject of the domain is promised the copy where it may be protected. -/
theorem boundaryRow_promised {irrelevant : Bool} {boundary : MountBoundary} (walk : TreeWalk)
    (hrequired : mutation.objective.isRequired = true) (hdomain : domain = mutation.domain)
    (hobjective : mutation.objective ≠ .unknown) (htransient : boundary.isTransient = false)
    (htree : ∀ action ∈ walk.tree, action = soleAction domain object .byteConsistent) :
    ∃ draft after tree, boundaryRow (soleRequest mounts mutations domain object .byteConsistent
        none) mutation boundaries irrelevant walk boundary =
      { walk with gathered := after, tree := tree, children := walk.children ++ [draft] } ∧
      (∀ action ∈ tree, action = soleAction domain object .byteConsistent) ∧
      Fits (fun protection site => protection = promised domain site) draft
        (boundary.site mutation) := by
  cases hprotectable : boundary.domain.isProtectable with
  | true =>
    have hpromised : promised domain (boundary.site mutation) = .protected' :=
      if_pos ⟨hdomain.symm, hrequired, hprotectable⟩
    cases hcovering : walk.tree.filter (fun action => captures action.candidate boundary) with
    | cons first others =>
      obtain ⟨draft, hrow, hfit⟩ := @boundaryRow_of_captured
        (soleRequest mounts mutations domain object .byteConsistent none) mutation boundaries
        irrelevant walk boundary htransient first others hprotectable hcovering
      have hfirst : first = soleAction domain object .byteConsistent := by
        refine htree first (mem_of_mem_filter (p := fun action =>
          captures action.candidate boundary) ?_)
        rw [hcovering]
        exact mem_cons_self
      refine ⟨draft, walk.gathered, walk.tree, hrow, htree, hfit.domain, hfit.objective, ?_⟩
      rw [hfit.protection, hpromised, hfirst]
      rfl
    | nil =>
      obtain ⟨beneath, draft, found, hfound, hrow, hfit⟩ := @boundaryRow_of_not_captured
        (soleRequest mounts mutations domain object .byteConsistent none) mutation boundaries
        irrelevant walk boundary htransient
        fun _ action haction => by simpa using filter_eq_nil_iff.mp hcovering action haction
      have hactions := @cover_soleRequest_of_offered mounts mutations domain object .byteConsistent
        none (mutation.beneath boundary) boundary.domain beneath walk.gathered hprotectable hdomain
        hobjective rfl
      rw [← hfound] at hactions
      refine ⟨draft, _, _, hrow, ?_, hfit.domain, hfit.objective, ?_⟩
      · rw [hactions]
        intro action haction
        rcases mem_append.mp haction with hold | hnew
        · exact htree action hold
        · simpa using hnew
      · rw [hfit.protection, hpromised, plannedProtection_of_cons hactions]
        rfl
  | false =>
    obtain ⟨beneath, draft, found, hfound, hrow, hfit⟩ := @boundaryRow_of_not_captured
      (soleRequest mounts mutations domain object .byteConsistent none) mutation boundaries
      irrelevant walk boundary htransient (fun hp => by simp [hprotectable] at hp)
    obtain ⟨hactions, hknown⟩ := @cover_soleRequest_of_not_offered mounts mutations domain object
      .byteConsistent none (mutation.beneath boundary) boundary.domain beneath walk.gathered
      (fun hp => by simp [hprotectable] at hp)
    have hpromised : promised domain (boundary.site mutation) = (boundary.site mutation).unplanned :=
      if_neg fun hall => by simp [MountBoundary.site, hprotectable] at hall
    rw [← hfound] at hactions hknown
    refine ⟨draft, _, _, hrow, ?_, hfit.domain, hfit.objective, ?_⟩
    · rw [hactions, append_nil]
      exact htree
    · rw [hfit.protection, hpromised, plannedProtection_of_nothing hactions hknown]
      rfl

/-- **Rows of a mutation at the first analysis.** -/
theorem analyseMutation_promised (hmem : mutation ∈ mutations) (hunknown : domain ≠ .unknown) :
    (analyseMutation (soleRequest mounts mutations domain object .byteConsistent none) gathered
        mutation).2.map RowDraft.core =
      (mutation.site :: sitesBeneath mutation (boundariesOf mounts mutation)).map
        (Site.core (promised domain)) := by
  by_cases hall : mutation.objective.isRequired = true ∧ domain = mutation.domain
  · obtain ⟨hrequired, hdomain⟩ := hall
    have hobjective : mutation.objective ≠ .unknown := objective_ne_unknown (hdomain ▸ hunknown)
    have hactions : (ownCover (soleRequest mounts mutations domain object .byteConsistent none)
        mutation gathered).1.actions = [soleAction domain object .byteConsistent] := by
      unfold ownCover
      rw [if_pos hrequired, persistenceFor_soleRequest hmem]
      exact cover_soleRequest_of_offered (isProtectable_holding _) hdomain hobjective rfl
    have hpromised : promised domain mutation.site = .protected' :=
      if_pos ⟨hdomain.symm, hrequired, rfl⟩
    obtain ⟨parent, children, tree, hrows, hparent, hchildren, -⟩ :=
      @analyseMutation_fits (soleRequest mounts mutations domain object .byteConsistent none)
        mutation (fun tree _ => ∀ action ∈ tree, action = soleAction domain object .byteConsistent)
        (fun protection site => protection = promised domain site)
        (fun protection site => protection = promised domain site) gathered
        (by simp [hactions])
        (by rw [plannedProtection_of_cons hactions, hpromised]; rfl)
        fun walk boundary _ htransient htree =>
          boundaryRow_promised walk hrequired hdomain hobjective htransient htree
    exact cores_of_fits (hrows ▸ .cons hparent hchildren)
  · have hquiet := (@analyseMutation_quiet mounts mutations domain object .byteConsistent none
      mutation gathered hmem fun hrequired hdomain => absurd ⟨hrequired, hdomain⟩ hall).1
    rw [cores_of_fits hquiet]
    refine map_congr_left fun site hsite => ?_
    obtain ⟨hdomain, hobjective⟩ := of_mem_sites_mutation hsite
    rw [Site.core, Site.core, promised_of_not (by rw [hdomain, hobjective]; exact hall)]

/-- **Rows at the first analysis.** Every row of the domain that needs recovery and may be protected
is. -/
theorem rows_promised (hunknown : domain ≠ .unknown) :
    (analyse (soleRequest mounts mutations domain object .byteConsistent none)).summary.rows.map
        rowCore = (sites mounts mutations).map (Site.core (promised domain)) := by
  have hall {some' : List MutationDomain} (hsub : some' ⊆ mutations) (gathered : Gathered) :
      (analyseAll (soleRequest mounts mutations domain object .byteConsistent none) some'
          gathered).2.map RowDraft.core =
        (sites mounts some').map (Site.core (promised domain)) := by
    induction some' generalizing gathered with
    | nil => rfl
    | cons mutation rest ih =>
      obtain ⟨hmem, hrest⟩ := cons_subset.mp hsub
      unfold analyseAll
      rw [map_append, analyseMutation_promised hmem hunknown, ih hrest, ← map_append]
      rfl
  rw [cores_analyse]
  exact hall (Subset.refl _) _

theorem analyseAll_append (request : CoverageRequest) (first second : List MutationDomain)
    (gathered : Gathered) :
    (analyseAll request (first ++ second) gathered).2 =
      (analyseAll request first gathered).2 ++
        (analyseAll request second (analyseAll request first gathered).1).2 := by
  induction first generalizing gathered with
  | nil => rfl
  | cons mutation first ih =>
    rw [cons_append, analyseAll, analyseAll, append_assoc, ← ih]

/-- **Rows at the second analysis.** The asset goes to the first mutation of the domain that needs
recovery. -/
theorem rows_last
    (hbefore : ∀ other ∈ before, other.objective.isRequired = true → domain ≠ other.domain)
    (hrequired : mutation.objective.isRequired = true) (hdomain : domain = mutation.domain)
    (hobjective : mutation.objective ≠ .unknown)
    (hobject : ∀ boundary ∈ boundariesOf mounts mutation, boundary.domain.object ≠ some object) :
    (analyse (soleRequest mounts (before ++ mutation :: after) domain object planned
        (some 1))).summary.rows.map rowCore =
      (sites mounts before).map (Site.core Site.unplanned) ++
        Site.core (fun _ => copied planned) mutation.site ::
          (sitesBeneath mutation (boundariesOf mounts mutation) ++ sites mounts after).map
            (Site.core Site.unplanned) := by
  obtain ⟨hfirst, hempty⟩ := @analyseAll_quiet mounts (before ++ mutation :: after) domain object
    planned (some 1) .empty before (subset_append_left _ _)
    fun other hother hneeds hsame => absurd hsame (hbefore other hother hneeds)
  obtain ⟨parent, children, hrows, hparent, hchildren, hlength⟩ := @analyseMutation_last mounts
    (before ++ mutation :: after) domain object planned mutation _ (by simp) hrequired hdomain
    hobjective hempty hobject
  obtain ⟨hrest, -⟩ := @analyseAll_quiet mounts (before ++ mutation :: after) domain object planned
    (some 1) _ after (by simp) fun other _ _ _ => by rw [hlength]; rfl
  have hparentCore : parent.core = Site.core (fun _ => copied planned) mutation.site := by
    rw [RowDraft.core, Site.core, hparent.domain, hparent.objective, hparent.protection]
  rw [cores_analyse]
  dsimp only [soleRequest] at hfirst hrows hrest ⊢
  rw [analyseAll_append, map_append, cores_of_fits hfirst, analyseAll, hrows,
    cons_append, map_cons, map_append, hparentCore, cores_of_fits hchildren,
    cores_of_fits hrest, ← map_append]

end Sole

/-! ### A promise is lost -/

section Lost

variable {mounts : Option MountTable} {mutations : List MutationDomain}

theorem exists_of_mem_sites (h : site ∈ sites mounts mutations) :
    ∃ mutation ∈ mutations, site.domain = mutation.domain ∧
      site.objective = mutation.objective := by
  obtain ⟨mutation, hmutation, hsite⟩ := mem_flatMap.mp h
  exact ⟨mutation, hmutation, of_mem_sites_mutation hsite⟩

theorem exists_object (boundaries : List MountBoundary) :
    ∃ object, ∀ boundary ∈ boundaries, boundary.domain.object ≠ some object := by
  have : Infinite String :=
    Infinite.of_injective String.ofList fun _ _ h => String.ofList_injective h
  obtain ⟨object, hobject⟩ :=
    Infinite.exists_notMem_finset (boundaries.filterMap (·.domain.object)).toFinset
  refine ⟨object, fun boundary hboundary hheld => hobject ?_⟩
  rw [mem_toFinset, mem_filterMap]
  exact ⟨boundary, hboundary, hheld⟩

/-- Whether a row that says this is satisfied. -/
def RowCore.isSatisfied (core : RowCore) : Bool :=
  core.objective.satisfiedBy core.protection

theorem isSatisfied_rowCore (row : DomainCoverage) : row.isSatisfied = (rowCore row).isSatisfied :=
  rfl

theorem satisfiedBy_protected (h : objective ≠ .unknown) :
    objective.satisfiedBy .protected' = true := by
  cases objective with
  | unknown => exact absurd rfl h
  | preserveExact | restoreSemantic | compensate | noRecoveryRequired => rfl

theorem satisfiedBy_unknown (h : objective.isRequired = true) :
    objective.satisfiedBy .unknown = false := by
  cases objective with
  | noRecoveryRequired => cases h
  | preserveExact | restoreSemantic | compensate | unknown => rfl

variable {rows : List DomainCoverage}

theorem exists_site {places : List Site} (h : rows.map rowCore = places.map (Site.core protection))
    {index : Nat} {row : DomainCoverage} (hrow : rows[index]? = some row) :
    ∃ site, places[index]? = some site ∧ site.core protection = rowCore row := by
  have hcore : (rows.map rowCore)[index]? = some (rowCore row) := by
    rw [getElem?_map, hrow, Option.map_some]
  rw [h, getElem?_map, Option.map_eq_some_iff] at hcore
  exact hcore

theorem exists_row {cores : List RowCore} (h : rows.map rowCore = cores) {index : Nat}
    {core : RowCore} (hcore : cores[index]? = some core) :
    ∃ row, rows[index]? = some row ∧ rowCore row = core := by
  rw [← h, getElem?_map, Option.map_eq_some_iff] at hcore
  exact hcore

theorem sites_append_cons (before after : List MutationDomain) (mutation : MutationDomain) :
    sites mounts (before ++ mutation :: after) =
      sites mounts before ++ mutation.site ::
        (sitesBeneath mutation (boundariesOf mounts mutation) ++ sites mounts after) := by
  simp [sites]

/-- **A promise is lost unnoticed** where the last asset goes to one row of a domain and another row
of it could be satisfied. -/
theorem promise_lost
    (hbefore : ∀ other ∈ before, other.objective.isRequired = true →
      mutation.domain ≠ other.domain) (hrequired : mutation.objective.isRequired = true)
    (hunknown : mutation.domain ≠ .unknown) {place : Nat} {other : Site}
    (hplace : (sites mounts (before ++ mutation :: after))[place]? = some other)
    (hother : place ≠ (sites mounts before).length) (hdomain : other.domain = mutation.domain)
    (hcoverable : other.isCoverable = true) :
    ¬ PromisesKept (before ++ mutation :: after) mounts := by
  obtain ⟨object, hobject⟩ := exists_object (boundariesOf mounts mutation)
  have hobjective : mutation.objective ≠ .unknown := objective_ne_unknown hunknown
  -- the rows of the first analysis
  have hsealed {index : Nat} {site : Site}
      (hsite : (sites mounts (before ++ mutation :: after))[index]? = some site) :
      ∃ row, (analyse (soleRequest mounts (before ++ mutation :: after) mutation.domain object
          .byteConsistent none)).summary.rows[index]? = some row ∧
        rowCore row = site.core (promised mutation.domain) :=
    exists_row (rows_promised hunknown) (by rw [getElem?_map, hsite, Option.map_some])
  -- the rows of the second one
  have hfresh (planned : ConsistencyClass) {index : Nat} {site : Site}
      (hsite : (sites mounts (before ++ mutation :: after))[index]? = some site) :
      ∃ row, (analyse (soleRequest mounts (before ++ mutation :: after) mutation.domain object
          planned (some 1))).summary.rows[index]? = some row ∧
        rowCore row = if index = (sites mounts before).length then
          mutation.site.core (fun _ => copied planned) else site.core Site.unplanned := by
    refine exists_row (rows_last hbefore hrequired rfl hobjective hobject) ?_
    rw [Indexed.getElem?_map_except _ _ _ mutation.site, ← sites_append_cons, hsite, Option.map_some]
    split_ifs
    · rfl
    · rfl
  have hlast : (sites mounts (before ++ mutation :: after))[(sites mounts before).length]? =
      some mutation.site := by
    rw [sites_append_cons, getElem?_append_right (Nat.le_refl _), Nat.sub_self]
    rfl
  -- no promise is reported lost where the second analysis satisfies some row of the domain
  have hunnoticed (planned : ConsistencyClass) (hwitness : ∃ now ∈ (analyse (soleRequest mounts
        (before ++ mutation :: after) mutation.domain object planned (some 1))).summary.rows,
        now.domain = mutation.domain ∧ now.isSatisfied = true) :
      protectionLost
        (analyse (soleRequest mounts (before ++ mutation :: after) mutation.domain object
          .byteConsistent none)).summary
        (analyse (soleRequest mounts (before ++ mutation :: after) mutation.domain object planned
          (some 1))).summary = [] := by
    rw [protectionLost_eq_nil_iff]
    intro row hrow hpromise
    obtain ⟨index, hindex⟩ := mem_iff_getElem?.mp hrow
    obtain ⟨site, hsite, hcore⟩ := exists_site (rows_promised hunknown) hindex
    have hrowDomain : row.domain = site.domain := (congrArg RowCore.domain hcore).symm
    by_cases hsame : site.domain = mutation.domain
    · rw [hrowDomain, hsame]
      exact hwitness
    · obtain ⟨now, hnow, hnowCore⟩ := hfresh planned hsite
      have hindex' : index ≠ (sites mounts before).length := by
        rintro rfl
        rw [hlast] at hsite
        exact hsame (congrArg Site.domain (Option.some.inj hsite)).symm
      have hunplanned : site.core (promised mutation.domain) = site.core Site.unplanned := by
        rw [Site.core, Site.core, promised_of_not fun hboth => hsame hboth.2.symm]
      rw [if_neg hindex', ← hunplanned, hcore] at hnowCore
      have hsatisfied : row.isSatisfied = true := by
        simp only [DomainCoverage.isPromise, Bool.and_eq_true] at hpromise
        exact hpromise.1
      refine ⟨now, mem_of_getElem? hnow, congrArg RowCore.domain hnowCore, ?_⟩
      rw [isSatisfied_rowCore, hnowCore, ← isSatisfied_rowCore]
      exact hsatisfied
  intro hkept
  by_cases hfree : other.objective.satisfiedBy other.unplanned = true
  · -- the other row is satisfied without a copy, and the last asset turns out to be unknown
    obtain ⟨row, hrow, hcore⟩ := hsealed hlast
    obtain ⟨now, hnow, hnowCore⟩ := hfresh .unknown hlast
    obtain ⟨kept, hkeptRow, hkeptCore⟩ := hfresh .unknown hplace
    rw [if_pos rfl] at hnowCore
    rw [if_neg hother] at hkeptCore
    have hprotected : promised mutation.domain mutation.site = .protected' :=
      if_pos ⟨rfl, hrequired, rfl⟩
    have hlost := hunnoticed .unknown
      ⟨kept, mem_of_getElem? hkeptRow, (congrArg RowCore.domain hkeptCore).trans hdomain, by
        rw [isSatisfied_rowCore, hkeptCore]
        exact hfree⟩
    obtain ⟨found, hfound, hsatisfied⟩ := hkept _ _ rfl rfl rfl rfl hlost _ row hrow
      (by
        rw [isSatisfied_rowCore, hcore, Site.core, hprotected]
        exact satisfiedBy_protected hobjective)
      (by
        rw [show row.protection = _ from congrArg RowCore.protection hcore, Site.core, hprotected]
        simp)
    obtain rfl : now = found := Option.some.inj (hnow.symm.trans hfound)
    rw [isSatisfied_rowCore, hnowCore] at hsatisfied
    exact absurd hsatisfied (Bool.not_eq_true _ ▸ satisfiedBy_unknown hrequired)
  · -- the other row is satisfied by a copy alone, and there is none left for it
    obtain ⟨row, hrow, hcore⟩ := hsealed hplace
    obtain ⟨now, hnow, hnowCore⟩ := hfresh .byteConsistent hlast
    obtain ⟨gone, hgone, hgoneCore⟩ := hfresh .byteConsistent hplace
    rw [if_pos rfl] at hnowCore
    rw [if_neg hother] at hgoneCore
    have hneeds : other.objective.isRequired = true := by
      by_contra hnot
      exact hfree (satisfiedBy_of_not_required (by simpa using hnot) _)
    have hreach : other.objective ≠ .unknown ∧ other.protectable = true := by
      simpa [Site.isCoverable, hneeds] using hcoverable
    have hprotected : promised mutation.domain other = .protected' :=
      if_pos ⟨hdomain, hneeds, hreach.2⟩
    have hlost := hunnoticed .byteConsistent
      ⟨now, mem_of_getElem? hnow, congrArg RowCore.domain hnowCore, by
        rw [isSatisfied_rowCore, hnowCore]
        exact satisfiedBy_protected hobjective⟩
    obtain ⟨found, hfound, hsatisfied⟩ := hkept _ _ rfl rfl rfl rfl hlost _ row hrow
      (by
        rw [isSatisfied_rowCore, hcore, Site.core, hprotected]
        exact satisfiedBy_protected hreach.1)
      (by
        rw [show row.protection = _ from congrArg RowCore.protection hcore, Site.core, hprotected]
        simp)
    obtain rfl : gone = found := Option.some.inj (hgone.symm.trans hfound)
    rw [isSatisfied_rowCore, hgoneCore] at hsatisfied
    exact hfree hsatisfied

/-- A domain of known recovery with a site that needs recovery has a first mutation that does. -/
theorem exists_first (hsite : site ∈ sites mounts mutations)
    (hrequired : site.objective.isRequired = true) (hcoverable : site.isCoverable = true) :
    ∃ before mutation after, mutations = before ++ mutation :: after ∧
      mutation.domain = site.domain ∧ mutation.objective.isRequired = true ∧
      mutation.domain ≠ .unknown ∧
      ∀ other ∈ before, other.objective.isRequired = true → mutation.domain ≠ other.domain := by
  obtain ⟨source, hsource, hdomain, hobjective⟩ := exists_of_mem_sites hsite
  have hfound : (mutations.find? fun mutation =>
      mutation.objective.isRequired && mutation.domain = site.domain).isSome = true := by
    rw [find?_isSome]
    exact ⟨source, hsource, by simp [← hobjective, hrequired, hdomain]⟩
  obtain ⟨mutation, hmutation⟩ := Option.isSome_iff_exists.mp hfound
  obtain ⟨htest, before, after, hsplit, hbefore⟩ := find?_eq_some_iff_append.mp hmutation
  simp only [Bool.and_eq_true, decide_eq_true_eq] at htest
  obtain ⟨hneeds, hsame⟩ := htest
  have hknown : site.domain ≠ .unknown := by
    intro hunknown
    have hcases : source.objective = .noRecoveryRequired ∨ source.objective = .unknown := by
      unfold MutationDomain.objective objectiveFor
      rw [← hdomain, hunknown]
      split_ifs
      · exact .inl rfl
      · exact .inr rfl
    rw [← hobjective] at hcases
    rcases hcases with hnone | hnone
    · simp [hnone, RecoveryObjective.isRequired] at hrequired
    · simp [Site.isCoverable, hnone, RecoveryObjective.isRequired] at hcoverable
  refine ⟨before, mutation, after, hsplit, hsame, hneeds, hsame ▸ hknown, ?_⟩
  intro other hother hotherNeeds heq
  have hnot := hbefore other hother
  simp [hotherNeeds, ← heq, hsame] at hnot

/-- **Domains are apart** where promises are kept. -/
theorem domainsApart_of_promisesKept (h : PromisesKept mutations mounts) :
    DomainsApart mutations mounts := by
  refine pairwise_iff_getElem.mpr fun i j hi hj hlt => ?_
  intro hdomain hfirst hsecond
  by_contra hneeds
  obtain ⟨site, hsite, hsame, hrequired, hcoverable⟩ : ∃ site ∈ sites mounts mutations,
      site.domain = (sites mounts mutations)[i].domain ∧ site.objective.isRequired = true ∧
        site.isCoverable = true := by
    by_cases hfree : (sites mounts mutations)[i].objective.isRequired = true
    · exact ⟨_, getElem_mem hi, rfl, hfree, hfirst⟩
    · refine ⟨_, getElem_mem hj, hdomain.symm, ?_, hsecond⟩
      by_contra hboth
      exact hneeds ⟨by simpa using hfree, by simpa using hboth⟩
  obtain ⟨before, mutation, after, rfl, hmutation, hneeded, hunknown, hbefore⟩ :=
    exists_first hsite hrequired hcoverable
  -- at least one of the two places is not that of the first mutation
  by_cases hplace : i = (sites mounts before).length
  · exact promise_lost hbefore hneeded hunknown (getElem?_eq_getElem hj) (by omega)
      (hdomain.symm.trans (hsame.symm.trans hmutation.symm)) hsecond h
  · exact promise_lost hbefore hneeded hunknown (getElem?_eq_getElem hi) hplace
      (hsame.symm.trans hmutation.symm) hfirst h

/-- **Promises are kept exactly when the domains of the rows are apart.** -/
theorem promisesKept_iff (mutations : List MutationDomain) (mounts : Option MountTable) :
    PromisesKept mutations mounts ↔ DomainsApart mutations mounts :=
  ⟨domainsApart_of_promisesKept, promisesKept_of_domainsApart⟩

end Lost

/-- Two files that a plan changes. -/
def twoFiles : List MutationDomain :=
  [.new .filesystemPersistent .modify "/etc/fstab" "edited",
    .new .filesystemPersistent .modify "/etc/hosts" "edited"]

/-- Both files are copied when the plan is sealed. When it is applied only one snapshot is allowed,
the second file is not copied, and no promise is reported lost. -/
theorem not_promisesKept_twoFiles : ¬ PromisesKept twoFiles none := by
  intro h
  let sealed := analyse (soleRequest none twoFiles .filesystemPersistent "/backup" .byteConsistent
    none)
  let fresh := analyse (soleRequest none twoFiles .filesystemPersistent "/backup" .byteConsistent
    (some 1))
  have hlost : protectionLost sealed.summary fresh.summary = [] := by decide +kernel
  have hsecond : (sealed.summary.rows[1]?.any fun row =>
      row.isSatisfied && row.protection ≠ .unknown) = true ∧
      fresh.summary.rows[1]?.any DomainCoverage.isSatisfied = false := by decide +kernel
  obtain ⟨row, hrow, hpromise⟩ := (Option.any_eq_true _ _).mp hsecond.1
  simp only [Bool.and_eq_true, decide_eq_true_eq] at hpromise
  obtain ⟨now, hnow, hsatisfied⟩ := h _ _ rfl rfl rfl rfl hlost 1 row hrow hpromise.1 hpromise.2
  have hkept : fresh.summary.rows[1]?.any DomainCoverage.isSatisfied = true :=
    (Option.any_eq_true _ _).mpr ⟨now, hnow, hsatisfied⟩
  rw [hsecond.2] at hkept
  cases hkept

end OnoSendai.Protection
