import OnoSendai.Lib.Indexed
import OnoSendai.Protection.Coverage

/-!
# The promise of a sealed matrix

A sealed plan promises the rows of its coverage matrix that are satisfied. When the plan is applied
the analysis runs again, under whatever providers and policy there are then, and `protectionLost`
is asked which promises are gone. It compares rows by their domain alone: a promised row counts as
kept as soon as some row of its domain is satisfied.

Which rows a matrix has depends on the mutations and the mount table only. A site is the place of
one row in it.
-/

namespace OnoSendai.Protection

open RowDraft
open List hiding getElem?_eq_some_iff

/-! ### Sites -/

/-- The place of one row: its domain and objective, whether the filesystem it stands for may be
protected at all, and the compensation its mutation declares. -/
structure Site where
  domain : EffectDomain
  objective : RecoveryObjective
  protectable : Bool
  compensation : Option String

namespace Site

/-- Whether some analysis could find the row satisfied. -/
def isCoverable (site : Site) : Bool :=
  !site.objective.isRequired || (site.objective ≠ .unknown && site.protectable)

/-- The protection of the row when nothing is planned for it. -/
def unplanned (site : Site) : DomainProtection :=
  if site.compensation.isSome then .compensatable else .unprotected

end Site

/-- The place of a mutation's own row. -/
def MutationDomain.site (mutation : MutationDomain) : Site where
  domain := mutation.domain
  objective := mutation.objective
  protectable := true
  compensation := mutation.compensation

/-- The place of the row of a filesystem beneath a mutated subject. -/
def MountBoundary.site (mutation : MutationDomain) (boundary : MountBoundary) : Site where
  domain := mutation.domain
  objective := mutation.objective
  protectable := boundary.domain.isProtectable
  compensation := none

/-- The places of the rows beneath a mutated subject. -/
def sitesBeneath (mutation : MutationDomain) (boundaries : List MountBoundary) : List Site :=
  (boundaries.filter (!·.isTransient)).map (MountBoundary.site mutation)

/-- The places of the rows of a matrix. -/
def sites (mounts : Option MountTable) (mutations : List MutationDomain) : List Site :=
  mutations.flatMap fun mutation =>
    mutation.site :: sitesBeneath mutation (boundariesOf mounts mutation)

/-! ### What is claimed -/

/-- Where no promise is reported lost, every promised row is still satisfied at its place. -/
def PromiseKept (sealed fresh : ProtectionSummary) : Prop :=
  protectionLost sealed fresh = [] →
    ∀ (index : Nat) (row : DomainCoverage), sealed.rows[index]? = some row →
      row.isSatisfied = true → row.protection ≠ .unknown →
      ∃ now, fresh.rows[index]? = some now ∧ now.isSatisfied = true

/-- No two analyses of the mutations over the mount table lose a promise unnoticed. -/
def PromisesKept (mutations : List MutationDomain) (mounts : Option MountTable) : Prop :=
  ∀ sealed fresh : CoverageRequest, sealed.mutations = mutations → fresh.mutations = mutations →
    sealed.mounts = mounts → fresh.mounts = mounts →
    PromiseKept (analyse sealed).summary (analyse fresh).summary

/-- No domain has two rows that some analysis could find satisfied, unless neither of them needs
recovery. -/
def DomainsApart (mutations : List MutationDomain) (mounts : Option MountTable) : Prop :=
  (sites mounts mutations).Pairwise fun site other =>
    site.domain = other.domain → site.isCoverable = true → other.isCoverable = true →
      site.objective.isRequired = false ∧ other.objective.isRequired = false

/-! ### Covering -/

section Covering

variable {request : CoverageRequest} {mutation : MutationDomain}
  {persistence : Option PersistenceDomain} {boundaries : List MountBoundary} {gathered : Gathered}

@[simp]
theorem actions_rejectAll (gathered : Gathered) (reason : RejectionReason)
    (candidates : List RecoveryCandidate) :
    (gathered.rejectAll reason candidates).actions = gathered.actions := by
  unfold Gathered.rejectAll
  induction candidates generalizing gathered with
  | nil => rfl
  | cons candidate candidates ih => exact ih _

@[simp]
theorem fittingOffers_nil :
    (fittingOffers request mutation persistence boundaries [] gathered).1 = [] := by
  unfold fittingOffers
  split_ifs <;> simp [copiesOnly, withinLimits, tried, ranked]

/-- The offers that are tried for one mutation over one domain. -/
def offersTried (request : CoverageRequest) (mutation : MutationDomain)
    (persistence : Option PersistenceDomain) (boundaries : List MountBoundary)
    (gathered : Gathered) : List RecoveryCandidate :=
  (fittingOffers request mutation persistence boundaries
    (discover request mutation persistence gathered).1.candidates
    (discover request mutation persistence gathered).2).1

theorem actions_cover :
    ∃ before after, (cover request mutation persistence boundaries gathered).1.actions =
      (planActions request.registry
        (chosenOffers request.policy.mode ((offersTried request mutation persistence boundaries
          gathered).filter (satisfies · mutation.objective)) before).1 request.policy.mode
        (providersOf (chosenOffers request.policy.mode ((offersTried request mutation persistence
          boundaries gathered).filter (satisfies · mutation.objective)) before).1) [] after).1 :=
  ⟨_, _, rfl⟩

/-- The semantics are unknown where an offer that does not satisfy the objective has unknown
consistency. -/
theorem unknownSemantics_cover :
    (cover request mutation persistence boundaries gathered).1.unknownSemantics =
      ((offersTried request mutation persistence boundaries gathered).filter
        (!satisfies · mutation.objective)).any (·.consistency = .unknown) :=
  rfl

theorem cover_of_nothing_tried
    (h : offersTried request mutation persistence boundaries gathered = []) :
    (cover request mutation persistence boundaries gathered).1.actions = [] ∧
      (cover request mutation persistence boundaries gathered).1.unknownSemantics = false := by
  have hchosen (gathered : Gathered) : (chosenOffers request.policy.mode [] gathered).1 = [] := by
    unfold chosenOffers
    split_ifs
    · rfl
    · rfl
  obtain ⟨before, after, hactions⟩ := @actions_cover request mutation persistence boundaries gathered
  rw [hactions, unknownSemantics_cover, h, filter_nil, filter_nil, hchosen]
  exact ⟨rfl, rfl⟩

theorem cover_of_no_offers
    (h : (discover request mutation persistence gathered).1.candidates = []) :
    (cover request mutation persistence boundaries gathered).1.actions = [] ∧
      (cover request mutation persistence boundaries gathered).1.unknownSemantics = false := by
  refine cover_of_nothing_tried ?_
  rw [offersTried, h, fittingOffers_nil]

theorem discover_of_refused {domain : PersistenceDomain} (h : domain.isProtectable = false) :
    (discover request mutation (some domain) gathered).1.candidates = [] := by
  simp [discover, Option.filter, h]

/-- The protection that planned actions give a mutation. -/
def plannedProtection (cover : Cover) (mutation : MutationDomain) : DomainProtection :=
  (protectionOf cover.actions mutation cover.unknownSemantics "").1

theorem protectionOf_fst (actions : List ProtectionAction) (unknownSemantics : Bool)
    (note note' : String) :
    (protectionOf actions mutation unknownSemantics note).1 =
      (protectionOf actions mutation unknownSemantics note').1 := by
  unfold protectionOf
  cases actions.head? with
  | some action => rfl
  | none =>
    dsimp only
    split_ifs
    · rfl
    · cases mutation.compensation <;> rfl

theorem plannedProtection_of_nothing {cover : Cover} (hactions : cover.actions = [])
    (hknown : cover.unknownSemantics = false) :
    plannedProtection cover mutation = mutation.site.unplanned := by
  unfold plannedProtection
  rw [hactions, hknown]
  cases hcompensation : mutation.compensation <;>
    simp [protectionOf, hcompensation, Site.unplanned, MutationDomain.site]

theorem plannedProtection_of_cons {cover : Cover} {action : ProtectionAction}
    {actions : List ProtectionAction} (h : cover.actions = action :: actions) :
    plannedProtection cover mutation = candidateProtection action.candidate := by
  unfold plannedProtection
  rw [h]
  rfl

end Covering

/-! ### Rows and sites -/

/-- A row that stands at a site, with a protection that fits it. -/
structure Fits (fits : DomainProtection → Site → Prop) (draft : RowDraft) (site : Site) : Prop where
  domain : draft.domain = site.domain
  objective : draft.objective = site.objective
  protection : fits draft.protection site

section Rows

variable {request : CoverageRequest} {mutation : MutationDomain} {boundaries : List MountBoundary}
  {irrelevant : Bool} {walk : TreeWalk} {boundary : MountBoundary}

variable {fits : DomainProtection → Site → Prop}

theorem fits_of {cover : Cover} (h : fits (plannedProtection cover mutation) mutation.site)
    (note : String) (exclusions : List CoverageExclusion) :
    Fits fits (of mutation ⟨cover.actions, note, cover.unknownSemantics, exclusions⟩
      irrelevant) mutation.site := by
  refine ⟨rfl, rfl, ?_⟩
  have heq : (of mutation ⟨cover.actions, note, cover.unknownSemantics, exclusions⟩
      irrelevant).protection = plannedProtection cover mutation :=
    protectionOf_fst _ _ _ _
  rw [heq]
  exact h

theorem boundaryRow_of_transient (h : boundary.isTransient = true) :
    ∃ exclusions, boundaryRow request mutation boundaries irrelevant walk boundary =
      { walk with parent := { walk.parent with exclusions := exclusions } } :=
  ⟨_, if_pos h⟩

/-- A filesystem that an action planned for the tree captures is protected as that action
protects. -/
theorem boundaryRow_of_captured (h : boundary.isTransient = false) {first : ProtectionAction}
    {others : List ProtectionAction} (hprotectable : boundary.domain.isProtectable = true)
    (hcovering : walk.tree.filter (fun action => captures action.candidate boundary) =
      first :: others) :
    ∃ draft, boundaryRow request mutation boundaries irrelevant walk boundary =
      { walk with children := walk.children ++ [draft] } ∧
      Fits (fun protection _ => protection = candidateProtection first.candidate) draft
        (boundary.site mutation) := by
  unfold boundaryRow
  simp only [h, Bool.false_eq_true, if_false, hprotectable, if_true, hcovering]
  exact ⟨_, rfl, rfl, rfl, rfl⟩

/-- A filesystem nothing captures is covered in its own right. -/
theorem boundaryRow_of_not_captured (h : boundary.isTransient = false)
    (hcovering : boundary.domain.isProtectable = true →
      ∀ action ∈ walk.tree, captures action.candidate boundary = false) :
    ∃ beneath draft found, found = cover request (mutation.beneath boundary)
        (some boundary.domain) beneath walk.gathered ∧
      boundaryRow request mutation boundaries irrelevant walk boundary =
        { walk with
          gathered := found.2.planning found.1.actions
          tree := walk.tree ++ found.1.actions
          children := walk.children ++ [draft] } ∧
      Fits (fun protection _ =>
        protection = plannedProtection found.1 (mutation.beneath boundary)) draft
        (boundary.site mutation) := by
  have hnone : (if boundary.domain.isProtectable = true then
      walk.tree.filter (fun action => captures action.candidate boundary) else []) = [] := by
    split_ifs with hprotectable
    · simpa using hcovering hprotectable
    · rfl
  unfold boundaryRow
  simp only [h, Bool.false_eq_true, if_false, hnone]
  exact ⟨_, _, _, rfl, rfl, rfl, rfl, protectionOf_fst _ _ _ _⟩

/-- **The walk over the filesystems beneath a subject.** Where one step keeps a property of the tree
and of what is gathered, and gives a row that fits its site, the whole walk does. -/
theorem foldl_boundaryRow {kept : List ProtectionAction → Gathered → Prop}
    {rest : List MountBoundary} (walk : TreeWalk)
    (hstep : ∀ (walk : TreeWalk), ∀ boundary ∈ rest, boundary.isTransient = false →
      kept walk.tree walk.gathered →
      ∃ draft gathered tree, boundaryRow request mutation boundaries irrelevant walk boundary =
        { walk with gathered := gathered, tree := tree, children := walk.children ++ [draft] } ∧
        kept tree gathered ∧ Fits fits draft (boundary.site mutation))
    (hwalk : kept walk.tree walk.gathered) {own : DomainProtection → Site → Prop}
    (hparent : Fits own walk.parent mutation.site) :
    ∃ drafts, (rest.foldl (boundaryRow request mutation boundaries irrelevant) walk).children =
        walk.children ++ drafts ∧
      Forall₂ (Fits fits) drafts (sitesBeneath mutation rest) ∧
      Fits own (rest.foldl (boundaryRow request mutation boundaries irrelevant) walk).parent
        mutation.site ∧
      kept (rest.foldl (boundaryRow request mutation boundaries irrelevant) walk).tree
        (rest.foldl (boundaryRow request mutation boundaries irrelevant) walk).gathered := by
  induction rest generalizing walk with
  | nil => exact ⟨[], by simp, .nil, hparent, hwalk⟩
  | cons boundary rest ih =>
    have hrest (walk : TreeWalk) := fun other (hother : other ∈ rest) =>
      hstep walk other (mem_cons_of_mem _ hother)
    cases htransient : boundary.isTransient with
    | true =>
      obtain ⟨exclusions, hrow⟩ := @boundaryRow_of_transient request mutation boundaries
        irrelevant walk boundary htransient
      let next : TreeWalk :=
        { walk with parent := { walk.parent with exclusions := exclusions } }
      obtain ⟨drafts, hchildren, hfits, hparent, hkept⟩ :=
        ih next hrest (show kept next.tree next.gathered from hwalk)
          ⟨hparent.domain, hparent.objective, hparent.protection⟩
      rw [foldl_cons, hrow]
      refine ⟨drafts, hchildren, ?_, hparent, hkept⟩
      simpa [sitesBeneath, htransient] using hfits
    | false =>
      obtain ⟨draft, gathered, tree, hrow, hkept, hfit⟩ :=
        hstep walk boundary mem_cons_self htransient hwalk
      let next : TreeWalk :=
        { walk with
          gathered := gathered
          tree := tree
          children := walk.children ++ [draft] }
      obtain ⟨drafts, hchildren, hfits, hparent, hkept⟩ :=
        ih next hrest (show kept next.tree next.gathered from hkept) hparent
      rw [foldl_cons, hrow]
      refine ⟨draft :: drafts, hchildren.trans (by simp [next]), ?_, hparent, hkept⟩
      simpa [sitesBeneath, htransient] using Forall₂.cons hfit hfits

/-- **The rows of one mutation** fit their sites where its own cover does and every step of the walk
beneath it does. -/
theorem analyseMutation_fits (kept : List ProtectionAction → Gathered → Prop)
    {own fits : DomainProtection → Site → Prop} {gathered : Gathered}
    (hown : kept (ownCover request mutation gathered).1.actions
      ((ownCover request mutation gathered).2.planning
        (ownCover request mutation gathered).1.actions))
    (hfits : own (plannedProtection (ownCover request mutation gathered).1 mutation) mutation.site)
    (hstep : ∀ (walk : TreeWalk), ∀ boundary ∈ boundariesOf request.mounts mutation,
      boundary.isTransient = false → kept walk.tree walk.gathered →
      ∃ draft gathered tree, boundaryRow request mutation (boundariesOf request.mounts mutation)
          (request.policy.isIrrelevant mutation.domain) walk boundary =
        { walk with gathered := gathered, tree := tree, children := walk.children ++ [draft] } ∧
        kept tree gathered ∧ Fits fits draft (boundary.site mutation)) :
    ∃ parent children tree, (analyseMutation request gathered mutation).2 = parent :: children ∧
      Fits own parent mutation.site ∧
      Forall₂ (Fits fits) children
        (sitesBeneath mutation (boundariesOf request.mounts mutation)) ∧
      kept tree (analyseMutation request gathered mutation).1 := by
  obtain ⟨drafts, hchildren, hdrafts, hparent, hkept⟩ :=
    foldl_boundaryRow
      { gathered := (ownCover request mutation gathered).2.planning
          (ownCover request mutation gathered).1.actions
        tree := (ownCover request mutation gathered).1.actions
        parent := of mutation
          { (ownCover request mutation gathered).1 with
            note := reachNote mutation (boundariesOf request.mounts mutation)
              (ownCover request mutation gathered).1.note }
          (request.policy.isIrrelevant mutation.domain)
        children := [] } hstep hown (fits_of hfits _ _)
  rw [nil_append] at hchildren
  exact ⟨_, drafts, _, by rw [← hchildren]; rfl, hparent, hdrafts, hkept⟩

/-- **The rows of every mutation** fit their sites where those of each one do. `kept` is what the
mutations before leave behind. -/
theorem analyseAll_fits (kept : Gathered → Prop) {mutations : List MutationDomain}
    {gathered : Gathered}
    (hstep : ∀ mutation ∈ mutations, ∀ gathered, kept gathered →
      Forall₂ (Fits fits) (analyseMutation request gathered mutation).2
        (mutation.site :: sitesBeneath mutation (boundariesOf request.mounts mutation)) ∧
      kept (analyseMutation request gathered mutation).1) (hgathered : kept gathered) :
    Forall₂ (Fits fits) (analyseAll request mutations gathered).2
        (sites request.mounts mutations) ∧ kept (analyseAll request mutations gathered).1 := by
  induction mutations generalizing gathered with
  | nil => exact ⟨.nil, hgathered⟩
  | cons mutation mutations ih =>
    obtain ⟨hrows, hkept⟩ := hstep mutation mem_cons_self gathered hgathered
    obtain ⟨hrest, hkept⟩ :=
      ih (fun other hother => hstep other (mem_cons_of_mem _ hother)) hkept
    exact ⟨rel_append hrows hrest, hkept⟩

/-- What a row says of its domain. -/
structure RowCore where
  domain : EffectDomain
  objective : RecoveryObjective
  protection : DomainProtection

/-- What a row says before the rows are composed. -/
def RowDraft.core (draft : RowDraft) : RowCore :=
  ⟨draft.domain, draft.objective, draft.protection⟩

/-- What a finished row says. -/
def rowCore (row : DomainCoverage) : RowCore :=
  ⟨row.domain, row.objective, row.protection⟩

/-- Composing rows does not change what they say. -/
theorem cores_composeSequential (drafts : List RowDraft) :
    (composeSequential drafts).map core = drafts.map core := by
  have hdomain (drafts : List RowDraft) (domain : EffectDomain) :
      (composeDomain drafts domain).map core = drafts.map core := by
    unfold composeDomain
    dsimp only
    split_ifs
    · rfl
    · rw [map_map]
      refine map_congr_left fun draft _ => ?_
      simp only [Function.comp_apply]
      split_ifs
      · rfl
      · rfl
  unfold composeSequential
  induction (Vocabulary.all : List EffectDomain) generalizing drafts with
  | nil => rfl
  | cons domain domains ih => exact (ih (composeDomain drafts domain)).trans (hdomain drafts domain)

theorem cores_analyse (request : CoverageRequest) :
    (analyse request).summary.rows.map rowCore =
      (analyseAll request request.mutations .empty).2.map core := by
  rw [← cores_composeSequential]
  simp only [analyse, ProtectionSummary.of, map_map]
  rfl

/-- A finished row that stands at a site, with a protection that fits it. -/
structure RowFits (fits : DomainProtection → Site → Prop) (row : DomainCoverage) (site : Site) :
    Prop where
  domain : row.domain = site.domain
  objective : row.objective = site.objective
  protection : fits row.protection site

theorem analyse_fits
    (h : Forall₂ (Fits fits) (analyseAll request request.mutations .empty).2
      (sites request.mounts request.mutations)) :
    Forall₂ (RowFits fits) (analyse request).summary.rows
      (sites request.mounts request.mutations) := by
  refine Indexed.forall₂_of_map_eq (cores_analyse request) ?_ h
  intro row draft site hcore hfit
  simp only [rowCore, core, RowCore.mk.injEq] at hcore
  obtain ⟨hdomain, hobjective, hprotection⟩ := hcore
  exact ⟨hdomain.trans hfit.domain, hobjective.trans hfit.objective, hprotection ▸ hfit.protection⟩

end Rows

/-! ### Every analysis -/

section Every

variable {request : CoverageRequest} {mutation : MutationDomain} {boundary : MountBoundary}

/-- A protection that meets its site's objective only where the site is coverable. -/
def Coverable (protection : DomainProtection) (site : Site) : Prop :=
  site.objective.satisfiedBy protection = true → site.isCoverable = true

theorem coverable_of_protectable {site : Site} (h : site.protectable = true)
    (protection : DomainProtection) : Coverable protection site := by
  intro hsatisfied
  cases hobjective : site.objective <;>
    simp_all [Site.isCoverable, RecoveryObjective.isRequired, RecoveryObjective.satisfiedBy]

theorem coverable_of_unprotected (site : Site) : Coverable .unprotected site := by
  intro hsatisfied
  cases hobjective : site.objective <;>
    simp_all [Site.isCoverable, RecoveryObjective.isRequired, RecoveryObjective.satisfiedBy,
      DomainProtection.isStateImage]

/-- Every row beneath a subject is coverable where it is satisfied. -/
theorem boundaryRow_coverable {boundaries : List MountBoundary} {irrelevant : Bool}
    (walk : TreeWalk) (h : boundary.isTransient = false) :
    ∃ draft gathered tree, boundaryRow request mutation boundaries irrelevant walk boundary =
      { walk with gathered := gathered, tree := tree, children := walk.children ++ [draft] } ∧
      True ∧ Fits Coverable draft (boundary.site mutation) := by
  cases hprotectable : boundary.domain.isProtectable with
  | true =>
    have hcoverable (protection : DomainProtection) :
        Coverable protection (boundary.site mutation) :=
      coverable_of_protectable hprotectable protection
    cases hcovering : walk.tree.filter (fun action => captures action.candidate boundary) with
    | cons first others =>
      obtain ⟨draft, hrow, hfit⟩ := @boundaryRow_of_captured request mutation boundaries
        irrelevant walk boundary h first others hprotectable hcovering
      exact ⟨draft, walk.gathered, walk.tree, hrow, trivial, hfit.domain, hfit.objective,
        hcoverable _⟩
    | nil =>
      obtain ⟨beneath, draft, found, -, hrow, hfit⟩ := @boundaryRow_of_not_captured request
        mutation boundaries irrelevant walk boundary h
        fun _ action haction => by simpa using filter_eq_nil_iff.mp hcovering action haction
      exact ⟨draft, _, _, hrow, trivial, hfit.domain, hfit.objective, hcoverable _⟩
  | false =>
    obtain ⟨beneath, draft, found, hfound, hrow, hfit⟩ := @boundaryRow_of_not_captured request
      mutation boundaries irrelevant walk boundary h (fun hp => by simp [hprotectable] at hp)
    refine ⟨draft, _, _, hrow, trivial, hfit.domain, hfit.objective, ?_⟩
    have hnothing := @cover_of_no_offers request (mutation.beneath boundary)
      (some boundary.domain) beneath walk.gathered (discover_of_refused hprotectable)
    rw [← hfound] at hnothing
    rw [hfit.protection, plannedProtection_of_nothing hnothing.1 hnothing.2]
    exact coverable_of_unprotected _

/-- **Rows fit their sites.** In every analysis the rows stand at the sites, and a satisfied row is
at a coverable one. -/
theorem rows_fit (request : CoverageRequest) :
    Forall₂ (RowFits Coverable) (analyse request).summary.rows
      (sites request.mounts request.mutations) := by
  refine analyse_fits (analyseAll_fits (fun _ => True) ?_ trivial).1
  intro mutation _ gathered _
  obtain ⟨parent, children, -, hrows, hparent, hchildren, -⟩ :=
    @analyseMutation_fits request mutation (fun _ _ => True) Coverable Coverable gathered trivial
      (coverable_of_protectable rfl _)
      fun walk boundary _ htransient _ => boundaryRow_coverable walk htransient
  exact ⟨hrows ▸ .cons hparent hchildren, trivial⟩

end Every

/-! ### Promises -/

section Promises

variable {sealed fresh : ProtectionSummary}

/-- Whether a row of the sealed matrix is a promise. -/
def DomainCoverage.isPromise (row : DomainCoverage) : Bool :=
  row.isSatisfied && row.protection ≠ .unknown

theorem protectionLost_eq_nil_iff :
    protectionLost sealed fresh = [] ↔
      ∀ row ∈ sealed.rows, DomainCoverage.isPromise row = true →
        ∃ now ∈ fresh.rows, now.domain = row.domain ∧ now.isSatisfied = true := by
  unfold protectionLost
  rw [List.map_eq_nil_iff, List.filter_eq_nil_iff]
  simp only [List.mem_filter, Bool.not_eq_true', Bool.not_eq_false, List.any_eq_true,
    Bool.and_eq_true, decide_eq_true_eq, and_imp, DomainCoverage.isPromise]

theorem satisfiedBy_of_not_required {objective : RecoveryObjective}
    (h : objective.isRequired = false) (protection : DomainProtection) :
    objective.satisfiedBy protection = true := by
  cases objective with
  | noRecoveryRequired => rfl
  | preserveExact | restoreSemantic | compensate | unknown => cases h

/-- **Promises are kept** where the domains of the rows are apart. -/
theorem promisesKept_of_domainsApart {mutations : List MutationDomain} {mounts : Option MountTable}
    (h : DomainsApart mutations mounts) : PromisesKept mutations mounts := by
  intro sealed fresh hsealed hfresh hsealedMounts hfreshMounts hlost index row hrow hsatisfied
    hknown
  have hsealedFit := rows_fit sealed
  have hfreshFit := rows_fit fresh
  rw [hsealed, hsealedMounts] at hsealedFit
  rw [hfresh, hfreshMounts] at hfreshFit
  obtain ⟨site, hsite, hrowFit⟩ := Indexed.exists_getElem?_of_forall₂ hsealedFit hrow
  obtain ⟨now, hnow, hnowFit⟩ := Indexed.exists_getElem?_of_forall₂' hfreshFit hsite
  have hpromise : DomainCoverage.isPromise row = true := by
    simp [DomainCoverage.isPromise, hsatisfied, hknown]
  obtain ⟨kept, hkept, hdomain, hkeptSatisfied⟩ :=
    protectionLost_eq_nil_iff.mp hlost row (List.mem_of_getElem? hrow) hpromise
  obtain ⟨place, hplace⟩ := mem_iff_getElem?.mp hkept
  obtain ⟨other, hother, hkeptFit⟩ := Indexed.exists_getElem?_of_forall₂ hfreshFit hplace
  refine ⟨now, hnow, ?_⟩
  by_cases hindex : index = place
  · subst hindex
    rw [hnow] at hplace
    rw [Option.some.inj hplace]
    exact hkeptSatisfied
  have hsiteCoverable : site.isCoverable = true := by
    refine hrowFit.protection ?_
    rw [← hrowFit.objective]
    exact hsatisfied
  have hotherCoverable : other.isCoverable = true := by
    refine hkeptFit.protection ?_
    rw [← hkeptFit.objective]
    exact hkeptSatisfied
  have hsame : other.domain = site.domain := by
    rw [← hkeptFit.domain, hdomain, hrowFit.domain]
  have hfree : site.objective.isRequired = false := by
    have hpairs := List.pairwise_iff_getElem.mp h
    obtain ⟨hlength, hget⟩ := List.getElem?_eq_some_iff.mp hsite
    obtain ⟨hlength', hget'⟩ := List.getElem?_eq_some_iff.mp hother
    rcases Nat.lt_or_gt_of_ne hindex with hlt | hlt
    · have hpair := hpairs index place hlength hlength' hlt
      rw [hget, hget'] at hpair
      exact (hpair hsame.symm hsiteCoverable hotherCoverable).1
    · have hpair := hpairs place index hlength' hlength hlt
      rw [hget, hget'] at hpair
      exact (hpair hsame hotherCoverable hsiteCoverable).2
  have hobjective : now.objective.isRequired = false := by rw [hnowFit.objective, hfree]
  exact satisfiedBy_of_not_required hobjective _

end Promises

end OnoSendai.Protection
