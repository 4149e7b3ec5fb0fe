import OnoSendai.Protection.Choosing

/-!
# Covering a tree mount by mount

A mutation that reaches everything beneath its subject reaches the filesystems mounted there, and
each of them holds state of its own. A filesystem without persistent state is named as an exclusion,
every other one has a row, and a row counts an action that was planned for the tree above only where
that action captures the filesystem. Whether it does is read off names: the name of the persistence
object, and the paths the offer lists.

Rows of one domain that rest on separate creations are lowered to crash consistency. A row is taken
to rest on the offer behind its first action.
-/

namespace OnoSendai.Protection

open List

/-! ### What the matrix says about a tree -/

/-- An offer lists something strictly inside a mount. -/
def ListsInside (candidate : RecoveryCandidate) (boundary : MountBoundary) : Prop :=
  ∃ covered ∈ candidate.scope.covers, covered ≠ boundary.mountPoint ∧
    contains boundary.mountPoint covered = true

/-- An offer names the persistence object of a mount. -/
def NamesObject (candidate : RecoveryCandidate) (boundary : MountBoundary) : Prop :=
  ∃ object, boundary.domain.object = some object ∧
    (candidate.scope.domain = object ∨ candidate.scope.coversObject object = true)

theorem captures_iff {candidate : RecoveryCandidate} {boundary : MountBoundary} :
    captures candidate boundary = true ↔
      NamesObject candidate boundary ∨ ListsInside candidate boundary := by
  unfold captures NamesObject ListsInside
  cases boundary.domain.object with
  | none => simp
  | some object => simp

/-- Two domains whose objects have one name, on different devices. -/
structure Namesake (domain other : PersistenceDomain) : Prop where
  named : domain.object ≠ none
  object : domain.object = other.object
  device : domain.mount.mountId ≠ other.mount.mountId

/-- The consistency of a row is crash consistency at most. -/
def RowDraft.IsLowered (draft : RowDraft) : Prop :=
  ∃ consistency, draft.consistency = some consistency ∧
    consistency.weakestOf .crashConsistent = consistency

section Statement

variable (request : CoverageRequest)

/-- What the row of a filesystem beneath a mutation rests on. `run` are the steps made for the
mutation. -/
structure RowAt (run : List CoverStep) (draft : RowDraft) (boundary : MountBoundary) : Prop where
  /-- A row that promises recovery has an action that was planned from an offer for this filesystem,
  or that captures it. -/
  counted : draft.protection = .protected' ∨ draft.protection = .transactional →
    ∃ action ∈ draft.actions,
      (∃ step ∈ run, step.persistence = some boundary.domain ∧ action ∈ step.actions request) ∨
        NamesObject action.candidate boundary ∨ ListsInside action.candidate boundary
  /-- No action counts that was planned for another filesystem of the same name. -/
  own : ∀ action ∈ draft.actions, ∀ step ∈ run, action ∈ step.actions request →
    ∀ domain, step.persistence = some domain → Namesake domain boundary.domain →
      ListsInside action.candidate boundary

/-- The rows of one mutation: each filesystem beneath it that holds no persistent state is an
exclusion of its own row, and each other one has a row. -/
def TreeCovered (table : MountTable) (gathered : Gathered) (mutation : MutationDomain) : Prop :=
  ∃ parent children, (analyseMutation request gathered mutation).2 = parent :: children ∧
    (∀ boundary ∈ table.boundariesBeneath mutation.subject, boundary.isTransient = true →
      ∃ exclusion ∈ parent.exclusions, exclusion.subject = boundary.mountPoint) ∧
    Forall₂
      (RowAt request ((mutationOrigins request mutation gathered).filterMap Origin.step)) children
      ((table.boundariesBeneath mutation.subject).filter (!·.isTransient))

/-- A mutation of an absolute path, which needs recovery and reaches everything beneath it. -/
structure IsTree (mutation : MutationDomain) : Prop where
  recursive : mutation.isRecursive = true
  absolute : startsWith mutation.subject "/" = true
  required : mutation.objective.isRequired = true

/-- Every tree is covered mount by mount, and where rows of one domain rest on separate creations
they are crash consistent at most. -/
structure CoveredByMount : Prop where
  trees : ∀ table, request.mounts = some table → ∀ before mutation after,
    request.mutations = before ++ mutation :: after → IsTree mutation →
      TreeCovered request table (analyseAll request before .empty).1 mutation
  lowered : ∀ domain, ∀ draft ∈ drafts request, ∀ other ∈ drafts request,
    draft.domain = domain → other.domain = domain →
    (∃ action ∈ draft.actions, ∃ action' ∈ other.actions, action.candidate ≠ action'.candidate) →
    ∀ composed ∈ composeSequential (drafts request), composed.domain = domain →
      composed.actions ≠ [] → composed.IsLowered

/-- Every step takes one offer at most, and plans it as actions of its own. -/
def SoleOffers : Prop :=
  ∀ step ∈ steps request, PlansOwn request step ∧ (step.chosen request).length ≤ 1

/-- Filesystems of one tree that are named alike and may be protected are on one device. -/
def NamesApart : Prop :=
  ∀ table, request.mounts = some table → ∀ mutation ∈ request.mutations, IsTree mutation →
    mutation.objective ≠ .unknown →
    ∀ domain ∈ (request.persistenceFor mutation.subject).toList ++
      (table.boundariesBeneath mutation.subject).map (·.domain),
    ∀ boundary ∈ table.boundariesBeneath mutation.subject,
      domain.isProtectable = true → boundary.domain.isProtectable = true →
        domain.object = boundary.domain.object →
        domain.mount.mountId = boundary.domain.mount.mountId

end Statement

/-! ### Rows that rest on separate creations -/

variable {action : ProtectionAction}

variable {draft : RowDraft}

section Composing

variable {drafts : List RowDraft}

/-- The offers that rows rest on, with one more row. -/
def restOn (kept : List RecoveryCandidate) (draft : RowDraft) : List RecoveryCandidate :=
  match draft.actions.head? with
  | some action => if action.candidate ∈ kept then kept else kept ++ [action.candidate]
  | none => kept

/-- The offers that the rows of a domain rest on. -/
def creationsOf (drafts : List RowDraft) (domain : EffectDomain) : List RecoveryCandidate :=
  (drafts.filter (·.domain = domain)).foldl restOn []

theorem subset_foldl_restOn (kept : List RecoveryCandidate) : kept ⊆ drafts.foldl restOn kept := by
  induction drafts generalizing kept with
  | nil => exact Subset.refl _
  | cons draft drafts ih =>
    refine fun candidate hcandidate => ih _ ?_
    unfold restOn
    cases draft.actions.head? with
    | none => exact hcandidate
    | some action =>
      dsimp only
      split_ifs
      · exact hcandidate
      · exact mem_append_left _ hcandidate

theorem mem_foldl_restOn (hdraft : draft ∈ drafts) (haction : draft.actions.head? = some action)
    (kept : List RecoveryCandidate) : action.candidate ∈ drafts.foldl restOn kept := by
  induction drafts generalizing kept with
  | nil => cases hdraft
  | cons row rows ih =>
    rcases mem_cons.1 hdraft with rfl | hdraft
    · rw [foldl_cons]
      refine subset_foldl_restOn (restOn kept draft) ?_
      unfold restOn
      rw [haction]
      dsimp only
      split_ifs with hin
      · exact hin
      · exact mem_append_right _ (mem_singleton_self _)
    · exact ih hdraft _

theorem mem_creationsOf {domain : EffectDomain} (hdraft : draft ∈ drafts)
    (hdomain : draft.domain = domain) (haction : draft.actions.head? = some action) :
    action.candidate ∈ creationsOf drafts domain :=
  mem_foldl_restOn (mem_filter.2 ⟨hdraft, decide_eq_true hdomain⟩) haction []

/-- Composing the rows of one domain only lowers rows. -/
theorem composeDomain_forall₂ (drafts : List RowDraft) (domain : EffectDomain) :
    Forall₂ (fun draft draft' => draft'.domain = draft.domain ∧
      draft'.actions = draft.actions ∧ (draft.IsLowered → draft'.IsLowered) ∧
      (2 ≤ (creationsOf drafts domain).length → draft.domain = domain → draft.actions ≠ [] →
        draft'.IsLowered)) drafts (composeDomain drafts domain) := by
  have hcompose : composeDomain drafts domain =
      if (creationsOf drafts domain).length < 2 then drafts
      else drafts.map fun draft =>
        if draft.domain = domain && !draft.actions.isEmpty then
          { draft with
            consistency := some (draft.consistency.elim .crashConsistent
              (·.weakestOf .crashConsistent))
            note := draft.note ++ "; " ++ Vocabulary.asStr domain ++ " rests on " ++
              toString (creationsOf drafts domain).length ++
              " assets created one after another in separate " ++
              "operations, so together they hold no common point in time and are " ++
              Vocabulary.asStr (draft.consistency.elim .crashConsistent
                (·.weakestOf .crashConsistent) : ConsistencyClass) ++
              " at best (Appendix D.7)" }
        else draft := rfl
  rw [hcompose]
  split_ifs with hfew
  · exact forall₂_same.2 fun draft _ => ⟨rfl, rfl, id, fun h => absurd h (by omega)⟩
  · rw [forall₂_map_right_iff]
    refine forall₂_same.2 fun draft _ => ?_
    have hweakest (consistency : ConsistencyClass) :
        (consistency.weakestOf .crashConsistent).weakestOf .crashConsistent =
          consistency.weakestOf .crashConsistent := by
      cases consistency <;> rfl
    split_ifs with hrow
    · have hlowered : ∃ consistency, some (draft.consistency.elim .crashConsistent
            (·.weakestOf .crashConsistent)) = some consistency ∧
          consistency.weakestOf .crashConsistent = consistency := by
        refine ⟨_, rfl, ?_⟩
        cases draft.consistency with
        | none => rfl
        | some consistency => exact hweakest consistency
      exact ⟨rfl, rfl, fun _ => hlowered, fun _ _ _ => hlowered⟩
    · refine ⟨rfl, rfl, id, fun _ hdomain hactions => absurd ?_ hrow⟩
      simp [hdomain, hactions]

/-- Composing the rows of domains keeps what they rest on. -/
theorem creationsOf_congr {drafts' : List RowDraft}
    (h : Forall₂ (fun draft draft' => draft'.domain = draft.domain ∧
      draft'.actions = draft.actions) drafts drafts') (domain : EffectDomain) :
    creationsOf drafts' domain = creationsOf drafts domain := by
  unfold creationsOf
  have hall (kept : List RecoveryCandidate) :
      (drafts'.filter (·.domain = domain)).foldl restOn kept =
        (drafts.filter (·.domain = domain)).foldl restOn kept := by
    induction h generalizing kept with
    | nil => rfl
    | @cons draft draft' rest rest' hsame _ ih =>
      have hrest : restOn kept draft' = restOn kept draft := by
        unfold restOn
        rw [hsame.2]
      rw [filter_cons, filter_cons, hsame.1]
      split_ifs
      · rw [foldl_cons, foldl_cons, hrest]
        exact ih _
      · exact ih _
  exact hall []

theorem forall₂_comp {α β γ : Type} {r : α → β → Prop} {t : β → γ → Prop} {as : List α}
    {bs : List β} {cs : List γ} (h : Forall₂ r as bs) (h' : Forall₂ t bs cs) :
    Forall₂ (fun a c => ∃ b, r a b ∧ t b c) as cs := by
  induction h generalizing cs with
  | nil =>
    cases h'
    exact .nil
  | cons hr _ ih =>
    cases h' with
    | cons ht hrest => exact .cons ⟨_, hr, ht⟩ (ih hrest)

/-- **Rows that rest on separate creations are lowered.** -/
theorem composeSequential_forall₂ (drafts : List RowDraft) :
    Forall₂ (fun draft draft' => draft'.domain = draft.domain ∧
      draft'.actions = draft.actions ∧
      (2 ≤ (creationsOf drafts draft.domain).length → draft.actions ≠ [] → draft'.IsLowered))
      drafts (composeSequential drafts) := by
  have hall (domains : List EffectDomain) (drafts : List RowDraft) :
      Forall₂ (fun draft draft' => draft'.domain = draft.domain ∧
        draft'.actions = draft.actions ∧ (draft.IsLowered → draft'.IsLowered) ∧
        (draft.domain ∈ domains → 2 ≤ (creationsOf drafts draft.domain).length →
          draft.actions ≠ [] → draft'.IsLowered)) drafts (domains.foldl composeDomain drafts) := by
    induction domains generalizing drafts with
    | nil => exact forall₂_same.2 fun draft _ =>
        ⟨rfl, rfl, id, fun h => absurd h not_mem_nil⟩
    | cons domain domains ih =>
      have hone := composeDomain_forall₂ drafts domain
      have hrest := ih (composeDomain drafts domain)
      have hsame := fun domain' => creationsOf_congr (hone.imp fun _ _ h => ⟨h.1, h.2.1⟩) domain'
      rw [foldl_cons]
      refine (forall₂_comp hone hrest).imp fun draft draft' h => ?_
      obtain ⟨middle, hfirst, hsecond⟩ := h
      rw [hfirst.1, hfirst.2.1, hsame] at hsecond
      refine ⟨hsecond.1, hsecond.2.1, fun hlowered => hsecond.2.2.1 (hfirst.2.2.1 hlowered),
        fun hmem hmany hactions => ?_⟩
      rcases mem_cons.1 hmem with heq | hmem
      · exact hsecond.2.2.1 (hfirst.2.2.2 (heq ▸ hmany) heq hactions)
      · exact hsecond.2.2.2 hmem hmany hactions
  exact (hall _ drafts).imp fun draft draft' h =>
    ⟨h.1, h.2.1, h.2.2.2 (Vocabulary.mem_all draft.domain)⟩

end Composing

/-! ### Names that are apart -/

section Covered

variable {request : CoverageRequest} {step : CoverStep}

theorem forall₂_mem {α β : Type} {r : α → β → Prop} {as : List α} {bs : List β}
    (h : Forall₂ r as bs) : Forall₂ (fun a b => a ∈ as ∧ b ∈ bs ∧ r a b) as bs := by
  induction h with
  | nil => exact .nil
  | cons hr _ ih =>
    refine .cons ⟨mem_cons_self, mem_cons_self, hr⟩ (ih.imp fun a b h => ?_)
    exact ⟨mem_cons_of_mem _ h.1, mem_cons_of_mem _ h.2.1, h.2.2⟩

theorem forall₂_both {α β : Type} {r t : α → β → Prop} {as : List α} {bs : List β}
    (h : Forall₂ r as bs) (h' : Forall₂ t as bs) : Forall₂ (fun a b => r a b ∧ t a b) as bs := by
  induction h with
  | nil => exact .nil
  | cons hr _ ih =>
    cases h' with
    | cons ht hrest => exact .cons ⟨hr, ht⟩ (ih hrest)

theorem CoverStep.usable_subset (step : CoverStep) : step.usable request ⊆ step.offers request := by
  intro candidate hcandidate
  have htried := (mem_filter.1 hcandidate).1
  have hcopies (registry : ProviderRegistry) (candidates : List RecoveryCandidate)
      (gathered : Gathered) : (copiesOnly registry candidates gathered).1 ⊆ candidates :=
    filter_subset_self _
  unfold offersTried fittingOffers at htried
  have hfits := (mem_filter.1 (mem_tried.1 htried)).1
  split_ifs at hfits
  · exact hcopies _ _ _ hfits
  · exact hfits

/-- A step that plans anything is over a domain that may be protected, for an objective that can be
met. -/
theorem CoverStep.protectable_of_actions (haction : action ∈ step.actions request) :
    step.mutation.objective ≠ .unknown ∧
      ∀ domain, step.persistence = some domain → domain.isProtectable = true := by
  have hchosen : step.chosen request ≠ [] := by
    intro hnil
    rw [actions_of_chosen_nil hnil] at haction
    cases haction
  obtain ⟨candidate, hcandidate⟩ := exists_mem_of_ne_nil _ hchosen
  have husable := step.chosen_spec.2.1 candidate hcandidate
  refine ⟨fun hunknown => ?_, fun domain hdomain => ?_⟩
  · have hsatisfies := (CoverStep.usable_spec husable).2
    rw [hunknown] at hsatisfies
    unfold satisfies at hsatisfies
    rw [Bool.and_eq_true] at hsatisfies
    cases hsatisfies.2
  · by_contra hnot
    have hoffer := step.usable_subset husable
    unfold CoverStep.offers at hoffer
    rw [hdomain, discover_of_refused (Bool.eq_false_iff.2 hnot)] at hoffer
    cases hoffer

/-- A row that promises recovery rests on an action. -/
theorem exists_action_of_promised {cover : Cover} {mutation : MutationDomain}
    (h : plannedProtection cover mutation = .protected' ∨
      plannedProtection cover mutation = .transactional) : ∃ action, action ∈ cover.actions := by
  cases hactions : cover.actions with
  | cons action rest => exact ⟨action, mem_cons_self⟩
  | nil =>
    unfold plannedProtection protectionOf at h
    rw [hactions] at h
    dsimp only [head?_nil] at h
    split_ifs at h
    · rcases h with h | h <;> cases h
    · cases hcompensation : mutation.compensation with
      | none =>
        rw [hcompensation] at h
        rcases h with h | h <;> cases h
      | some compensation =>
        rw [hcompensation] at h
        rcases h with h | h <;> cases h

theorem boundariesOf_tree {mutation : MutationDomain} (h : IsTree mutation) {table : MountTable}
    (hmounts : request.mounts = some table) :
    boundariesOf request.mounts mutation = table.boundariesBeneath mutation.subject := by
  unfold boundariesOf boundariesReachedBy
  rw [if_pos h.required, hmounts, h.recursive, h.absolute]
  rfl

/-- The steps made for a tree are over the domain of its subject or of a filesystem beneath it. -/
theorem persistence_of_mem_run {mutation : MutationDomain} {gathered : Gathered}
    (hstep : step ∈ (mutationOrigins request mutation gathered).filterMap Origin.step)
    {domain : PersistenceDomain} (hdomain : step.persistence = some domain) :
    step.mutation.objective = mutation.objective ∧
      domain ∈ (request.persistenceFor mutation.subject).toList ++
        (boundariesOf request.mounts mutation).map (·.domain) := by
  have hanalyses := @analyses_mutationOrigins request mutation gathered
  obtain ⟨origin, horigin, hsome⟩ := mem_filterMap.1 hstep
  cases origin with
  | unasked mutation => cases hsome
  | captured mutation boundary actions => cases hsome
  | asked step' =>
    obtain rfl := Option.some.inj hsome
    refine ⟨(hanalyses.same _ horigin).2, ?_⟩
    obtain ⟨-, -, beneath, -, heq, -, -, hsites, -⟩ := hanalyses.rows
    rw [heq] at horigin
    rcases mem_cons.1 horigin with hown | hbeneath
    · unfold ownOrigin at hown
      split_ifs at hown
      obtain rfl := Origin.asked.inj hown
      refine mem_append_left _ (Option.mem_toList.2 hdomain)
    · obtain ⟨boundary, hboundary, hstands⟩ := exists_right hsites hbeneath
      have hsame : step'.persistence = some boundary.domain := hstands.2.1
      obtain rfl := Option.some.inj (hsame.symm.trans hdomain)
      exact mem_append_right _
        (mem_map.2 ⟨boundary, (mem_filter.1 hboundary).1, rfl⟩)

/-- Where the names are apart a tree is covered mount by mount. -/
theorem treeCovered_of_namesApart (h : NamesApart request) {table : MountTable}
    (hmounts : request.mounts = some table) {mutation : MutationDomain}
    (hmem : mutation ∈ request.mutations) (htree : IsTree mutation) (gathered : Gathered) :
    TreeCovered request table gathered mutation := by
  have hboundaries := boundariesOf_tree htree hmounts
  have hanalyses := @analyses_mutationOrigins request mutation gathered
  obtain ⟨parent, children, beneath, hrows, horigins, -, hdescribes, hsites, hexclusions⟩ :=
    hanalyses.rows
  rw [hboundaries] at hsites hexclusions
  refine ⟨parent, children, hrows, fun boundary hboundary htransient =>
    ⟨_, hexclusions boundary hboundary htransient, rfl⟩, ?_⟩
  refine (forall₂_comp hdescribes (forall₂_mem hsites)).imp fun draft boundary hrow => ?_
  obtain ⟨origin, hdescribes, horigin, hboundary, hstands⟩ := hrow
  have hin : origin ∈ mutationOrigins request mutation gathered :=
    horigins ▸ mem_cons_of_mem _ horigin
  have hprotectable (action : ProtectionAction) (haction : action ∈ draft.actions) :
      boundary.domain.isProtectable = true := by
    rw [hdescribes.actions] at haction
    cases origin with
    | unasked mutation => cases haction
    | asked step => exact (CoverStep.protectable_of_actions haction).2 _ hstands.2.1
    | captured other place actions => exact hstands.2.2.2.1
  refine ⟨fun hpromised => ?_,
    fun action haction step hstep hplanned domain hdomain hnamesake => ?_⟩
  · rw [hdescribes.protection] at hpromised
    obtain ⟨action, haction⟩ := exists_action_of_promised hpromised
    refine ⟨action, hdescribes.actions ▸ haction, ?_⟩
    cases origin with
    | unasked mutation => cases haction
    | asked step =>
      exact Or.inl ⟨step, mem_filterMap.2 ⟨_, hin, rfl⟩, hstands.2.1, haction⟩
    | captured other place actions =>
      exact Or.inr (captures_iff.1 (hstands.2.2.2.2 action haction))
  · obtain ⟨hobjective, hdomains⟩ := persistence_of_mem_run hstep hdomain
    obtain ⟨hknown, hheld⟩ := CoverStep.protectable_of_actions hplanned
    rw [hboundaries] at hdomains
    exact absurd (h table hmounts mutation hmem htree (hobjective ▸ hknown) domain hdomains boundary
      (mem_filter.1 hboundary).1 (hheld domain hdomain) (hprotectable action haction)
      hnamesake.object) hnamesake.device

/-- Every offer that an action of a row is planned from is the first that some row of its domain
rests on. -/
theorem exists_head_of_action (h : SoleOffers request) (hdraft : draft ∈ drafts request)
    (haction : action ∈ draft.actions) :
    ∃ other ∈ drafts request, other.domain = draft.domain ∧
      ∃ first, other.actions.head? = some first ∧ first.candidate = action.candidate := by
  obtain ⟨origin, horigin, hdescribes⟩ := exists_right (drafts_of_origins request) hdraft
  obtain ⟨entry, hentry, hmem⟩ := mem_flatMap.1 horigin
  obtain ⟨_, _, rows, hanalyses, hrows⟩ := analyses_of_mem_origins hentry
  have hstep (step : CoverStep) (hstep : step ∈ entry.2.filterMap Origin.step)
      (hplanned : action ∈ step.actions request) : ∃ other ∈ drafts request,
      other.domain = entry.1.domain ∧
      ∃ first, other.actions.head? = some first ∧ first.candidate = action.candidate := by
    obtain ⟨hown, hsole⟩ := h step (mem_flatMap.2 ⟨entry, hentry, hstep⟩)
    obtain ⟨asked, hasked, hsome⟩ := mem_filterMap.1 hstep
    cases asked with
    | unasked mutation => cases hsome
    | captured mutation boundary actions => cases hsome
    | asked step' =>
      obtain rfl := Option.some.inj hsome
      obtain ⟨other, hother, hdescribes'⟩ := exists_left hanalyses.described hasked
      have hactions : other.actions = step'.actions request := hdescribes'.actions
      refine ⟨other, hrows other hother, ?_, ?_⟩
      · rw [hdescribes'.domain]
        exact (hanalyses.same _ hasked).1
      · rw [hactions]
        cases hlist : step'.actions request with
        | nil =>
          rw [hlist] at hplanned
          cases hplanned
        | cons first rest =>
          have hfirst := hown.mem_chosen (hlist ▸ mem_cons_self : first ∈ _)
          have hthis := hown.mem_chosen hplanned
          refine ⟨first, rfl, ?_⟩
          match hchosen : step'.chosen request with
          | [] =>
            rw [hchosen] at hfirst
            cases hfirst
          | [candidate] =>
            rw [hchosen] at hfirst hthis
            exact (mem_singleton.1 hfirst).trans (mem_singleton.1 hthis).symm
          | _ :: _ :: _ =>
            rw [hchosen] at hsole
            simp at hsole
  have hdomain : draft.domain = entry.1.domain := by
    rw [hdescribes.domain]
    exact (hanalyses.same _ hmem).1
  rw [hdomain]
  rw [hdescribes.actions] at haction
  cases origin with
  | unasked mutation => cases haction
  | asked step => exact hstep step (mem_filterMap.2 ⟨_, hmem, rfl⟩) haction
  | captured mutation boundary actions =>
    obtain ⟨step, hmem', hplanned⟩ :=
      hanalyses.captured mutation boundary actions hmem action haction
    exact hstep step hmem' hplanned

/-- Where every step takes one offer at most, rows that rest on separate creations are crash
consistent at most. -/
theorem lowered_of_soleOffers (h : SoleOffers request) {draft other : RowDraft}
    (hdraft : draft ∈ drafts request) (hother : other ∈ drafts request)
    (hdomain : draft.domain = other.domain) {action action' : ProtectionAction}
    (haction : action ∈ draft.actions) (haction' : action' ∈ other.actions)
    (hapart : action.candidate ≠ action'.candidate) {composed : RowDraft}
    (hcomposed : composed ∈ composeSequential (drafts request))
    (hsame : composed.domain = draft.domain) (hactions : composed.actions ≠ []) :
    composed.IsLowered := by
  obtain ⟨row, hrow, hrowDomain, first, hfirst, hcandidate⟩ :=
    exists_head_of_action h hdraft haction
  obtain ⟨row', hrow', hrowDomain', first', hfirst', hcandidate'⟩ :=
    exists_head_of_action h hother haction'
  have hmem := mem_creationsOf hrow hrowDomain hfirst
  have hmem' := mem_creationsOf hrow' (hrowDomain'.trans hdomain.symm) hfirst'
  rw [hcandidate] at hmem
  rw [hcandidate'] at hmem'
  have hmany : 2 ≤ (creationsOf (drafts request) draft.domain).length := by
    cases hlist : creationsOf (drafts request) draft.domain with
    | nil =>
      rw [hlist] at hmem
      cases hmem
    | cons candidate rest =>
      cases rest with
      | nil =>
        rw [hlist] at hmem hmem'
        exact absurd ((mem_singleton.1 hmem).trans (mem_singleton.1 hmem').symm) hapart
      | cons candidate' rest => exact Nat.le_add_left 2 _
  obtain ⟨source, -, hdomain', hactions', hlowered⟩ :=
    exists_left (composeSequential_forall₂ (drafts request)) hcomposed
  rw [hdomain'] at hsame
  rw [hactions'] at hactions
  exact hlowered (hsame ▸ hmany) hactions

/-- Where the names are apart and every step takes one offer at most, trees are covered mount by
mount. -/
theorem coveredByMount_of_namesApart (h : NamesApart request) (hsole : SoleOffers request) :
    CoveredByMount request := by
  refine ⟨fun table hmounts before mutation after hmutations htree => ?_,
    fun domain draft hdraft other hother hdomain hdomain' hapart composed hcomposed hsame => ?_⟩
  · refine treeCovered_of_namesApart h hmounts ?_ htree _
    rw [hmutations]
    exact mem_append_right _ mem_cons_self
  · obtain ⟨action, haction, action', haction', hne⟩ := hapart
    exact lowered_of_soleOffers hsole hdraft hother (hdomain.trans hdomain'.symm) haction haction'
      hne hcomposed (hsame.trans hdomain.symm)

end Covered

/-! ### A provider that goes by the name -/

/-- A provider that offers one copy for whatever has a name. -/
def namingProvider (domain : EffectDomain) (object : String) : RecoveryProvider where
  id := "copy"
  availability := .available "1"
  resolveDomain _ := .ok none
  discover held _ :=
    .ok (if held.object = some object then [soleCandidate domain object .byteConsistent] else [])
  planProtection _ _ := .ok [soleAction domain object .byteConsistent]

section Naming

variable (request : CoverageRequest) (domain : EffectDomain) (object : String)

/-- The request, asked of that provider alone. -/
def naming : CoverageRequest :=
  { request with
    registry := ⟨[namingProvider domain object], nodup_singleton _⟩
    policy := ⟨.prefer, .unbounded, []⟩ }

variable {request domain object} {step : CoverStep}

/-- What the provider offers in a step over a domain it may protect. -/
theorem offers_naming {held : PersistenceDomain} (hheld : step.persistence = some held)
    (hprotectable : held.isProtectable = true) :
    step.offers (naming request domain object) =
      if held.object = some object ∧ domain = step.mutation.domain then
        [soleCandidate domain object .byteConsistent] else [] := by
  have houtcome : ((naming request domain object).registry.discoverAt step.mutation.subject
      (some held) step.mutation.objective).candidates =
      if held.object = some object then [soleCandidate domain object .byteConsistent] else [] := by
    simp [ProviderRegistry.discoverAt, ProviderRegistry.available, naming, namingProvider,
      hprotectable, ProviderAvailability.isAvailable, DiscoveryOutcome.asking,
      DiscoveryOutcome.discovering]
  unfold CoverStep.offers discover
  rw [hheld]
  simp only [Option.filter, hprotectable, Bool.not_true, Bool.false_eq_true, if_false,
    Option.isNone_some, Bool.false_and, Option.some_or, houtcome]
  by_cases hobject : held.object = some object
  · rw [if_pos hobject]
    simp [hobject, filter_cons, soleCandidate]
  · rw [if_neg hobject, if_neg fun h => hobject h.1]
    rfl

theorem offers_naming_of_none (hheld : step.persistence = none) :
    step.offers (naming request domain object) = [] := by
  have houtcome : (naming request domain object).registry.discoverAt step.mutation.subject
      none step.mutation.objective = ⟨[], [], []⟩ := by
    simp [ProviderRegistry.discoverAt, ProviderRegistry.available, ProviderRegistry.unavailable,
      naming, namingProvider, ProviderAvailability.isAvailable, ProviderAvailability.reason,
      DiscoveryOutcome.asking]
  unfold CoverStep.offers discover
  rw [hheld]
  dsimp only [Option.filter, Option.isNone_none]
  split_ifs
  · rfl
  · rw [houtcome]
    rfl

/-- What a step plans with that provider. -/
theorem actions_naming (step : CoverStep) :
    (step.chosen (naming request domain object) = [] ∧
      step.actions (naming request domain object) = []) ∨
    (step.chosen (naming request domain object) = [soleCandidate domain object .byteConsistent] ∧
      step.actions (naming request domain object) = [soleAction domain object .byteConsistent] ∧
      ∃ held, step.persistence = some held ∧ held.object = some object) := by
  cases hchosen : step.chosen (naming request domain object) with
  | nil => exact Or.inl ⟨rfl, actions_of_chosen_nil hchosen⟩
  | cons first rest =>
    obtain ⟨-, husable, hfirst⟩ := @CoverStep.chosen_spec (naming request domain object) step
    obtain rfl := (hfirst first rest hchosen).2 fun hmode => nomatch hmode
    have hoffer := step.usable_subset (husable first (hchosen ▸ mem_cons_self))
    cases hheld : step.persistence with
    | none =>
      rw [offers_naming_of_none hheld] at hoffer
      cases hoffer
    | some held =>
      have hprotectable : held.isProtectable = true := by
        by_contra hnot
        unfold CoverStep.offers at hoffer
        rw [hheld, discover_of_refused (Bool.eq_false_iff.2 hnot)] at hoffer
        cases hoffer
      rw [offers_naming hheld hprotectable] at hoffer
      split_ifs at hoffer with hnamed
      · obtain rfl := mem_singleton.1 hoffer
        refine Or.inr ⟨rfl, ?_, held, rfl, hnamed.1⟩
        rw [step.found_spec.1, CoverStep.plans, hchosen]
        rfl
      · cases hoffer

/-- The provider is taken up in every step over a domain of the name. -/
theorem actions_naming_of_named {held : PersistenceDomain} (hheld : step.persistence = some held)
    (hprotectable : held.isProtectable = true) (hobject : held.object = some object)
    (hdomain : domain = step.mutation.domain) (hobjective : step.mutation.objective ≠ .unknown) :
    step.actions (naming request domain object) = [soleAction domain object .byteConsistent] := by
  have hoffers := @offers_naming request domain object step held hheld hprotectable
  rw [if_pos ⟨hobject, hdomain⟩] at hoffers
  have hoffer : soleCandidate domain object .byteConsistent ∈
      step.offers (naming request domain object) := hoffers ▸ mem_singleton_self _
  have hwithin (planned : Nat) : isWithin (naming request domain object).policy.limits planned
      (soleCandidate domain object .byteConsistent) = true := rfl
  have husable : soleCandidate domain object .byteConsistent ∈
      step.usable (naming request domain object) := by
    refine mem_filter.2 ⟨?_, satisfies_soleCandidate hobjective⟩
    unfold offersTried fittingOffers
    refine mem_tried.2 (mem_filter.2 ⟨?_, hwithin _⟩)
    split_ifs
    · exact mem_filter.2 ⟨hoffer, rfl⟩
    · exact hoffer
  rcases @actions_naming request domain object step with ⟨hchosen, -⟩ | ⟨-, hactions, -⟩
  · cases hlist : step.usable (naming request domain object) with
    | nil =>
      rw [hlist] at husable
      cases husable
    | cons first rest =>
      have hone : step.chosen (naming request domain object) = [first] := by
        unfold CoverStep.chosen
        rw [hlist]
        exact @choose_of_ne_maximize .prefer (by decide) first rest _
      rw [hone] at hchosen
      cases hchosen
  · exact hactions

theorem named_of_planned (h : action ∈ step.actions (naming request domain object)) :
    action = soleAction domain object .byteConsistent ∧
      ∃ held, step.persistence = some held ∧ held.object = some object := by
  rcases @actions_naming request domain object step with ⟨-, hactions⟩ | ⟨-, hactions, hheld⟩
  · rw [hactions] at h
    cases h
  · rw [hactions] at h
    exact ⟨mem_singleton.1 h, hheld⟩

theorem soleOffers_naming : SoleOffers (naming request domain object) := by
  intro step _
  have hplan : planOf (naming request domain object) (soleCandidate domain object .byteConsistent) =
      some [soleAction domain object .byteConsistent] := rfl
  rcases @actions_naming request domain object step with ⟨hchosen, -⟩ | ⟨hchosen, -⟩
  · rw [PlansOwn, hchosen]
    exact ⟨fun _ h => absurd h not_mem_nil, Nat.zero_le _⟩
  · rw [PlansOwn, hchosen]
    refine ⟨fun candidate hcandidate planned hplanned => ?_, Nat.le_refl _⟩
    obtain rfl := mem_singleton.1 hcandidate
    obtain rfl := Option.some.inj (hplan.symm.trans hplanned)
    exact ⟨cons_ne_nil _ _, fun action haction => mem_singleton.1 haction ▸ rfl⟩

theorem isTransient_of_isProtectable {boundary : MountBoundary}
    (h : boundary.domain.isProtectable = true) : boundary.isTransient = false := by
  unfold PersistenceDomain.isProtectable at h
  unfold MountBoundary.isTransient
  cases hrefusal : boundary.domain.refusal with
  | none => rfl
  | some reason =>
    rw [hrefusal] at h
    simp at h

/-- The copy is counted in the row of every filesystem of the name, and the offer behind it lists
nothing: no step for another filesystem of that name can have planned it. -/
theorem not_planned_of_namesake {table : MountTable} {mutation : MutationDomain}
    {gathered : Gathered} (htree : IsTree mutation) (hknown : mutation.objective ≠ .unknown)
    (hmounts : request.mounts = some table)
    (hcovered : TreeCovered (naming request mutation.domain object) table gathered mutation)
    {boundary : MountBoundary} (hboundary : boundary ∈ table.boundariesBeneath mutation.subject)
    (hprotectable : boundary.domain.isProtectable = true)
    (hobject : boundary.domain.object = some object) :
    (∃ step ∈ (mutationOrigins (naming request mutation.domain object) mutation gathered).filterMap
        Origin.step,
      soleAction mutation.domain object .byteConsistent ∈
        step.actions (naming request mutation.domain object)) ∧
    ∀ step ∈ (mutationOrigins (naming request mutation.domain object) mutation gathered).filterMap
        Origin.step,
      soleAction mutation.domain object .byteConsistent ∈
          step.actions (naming request mutation.domain object) →
        ∀ held, step.persistence = some held → held.object = some object →
          held.mount.mountId = boundary.domain.mount.mountId := by
  have hboundaries : boundariesOf (naming request mutation.domain object).mounts mutation =
      table.boundariesBeneath mutation.subject := boundariesOf_tree htree hmounts
  have hanalyses := @analyses_mutationOrigins (naming request mutation.domain object) mutation
    gathered
  obtain ⟨parent, children, beneath, hrows, horigins, -, hdescribes, hsites, -⟩ := hanalyses.rows
  obtain ⟨parent', children', hrows', -, hall⟩ := hcovered
  obtain ⟨-, rfl⟩ := cons.inj (hrows.symm.trans hrows')
  rw [hboundaries] at hsites
  obtain ⟨draft, -, ⟨origin, hdescribed, horigin, -, hstands⟩, hrow⟩ :=
    exists_left (forall₂_both (forall₂_comp hdescribes (forall₂_mem hsites)) hall)
      (mem_filter.2 ⟨hboundary, by rw [isTransient_of_isProtectable hprotectable]; rfl⟩)
  have hin : origin ∈ mutationOrigins (naming request mutation.domain object) mutation gathered :=
    horigins ▸ mem_cons_of_mem _ horigin
  have hsame := hanalyses.same origin hin
  have hplanned : soleAction mutation.domain object .byteConsistent ∈ draft.actions ∧
      ∃ step ∈ (mutationOrigins (naming request mutation.domain object) mutation
        gathered).filterMap Origin.step, soleAction mutation.domain object .byteConsistent ∈
          step.actions (naming request mutation.domain object) := by
    rw [hdescribed.actions]
    cases origin with
    | unasked mutation => exact hstands.2.elim
    | asked step =>
      have hactions : step.actions (naming request mutation.domain object) =
          [soleAction mutation.domain object .byteConsistent] :=
        actions_naming_of_named hstands.2.1 hprotectable hobject hsame.1.symm
          (fun hunknown => hknown (hsame.2.symm.trans hunknown))
      have hmem : soleAction mutation.domain object .byteConsistent ∈
          step.actions (naming request mutation.domain object) :=
        hactions ▸ mem_singleton_self _
      exact ⟨hmem, step, mem_filterMap.2 ⟨_, hin, rfl⟩, hmem⟩
    | captured other place actions =>
      obtain ⟨action, haction⟩ := exists_mem_of_ne_nil _ hstands.2.2.1
      obtain ⟨step, hstep, hmem⟩ := hanalyses.captured other place actions hin action haction
      obtain ⟨rfl, -⟩ := named_of_planned hmem
      exact ⟨haction, step, hstep, hmem⟩
  refine ⟨hplanned.2, fun step hstep hmem held hheld hnamed => ?_⟩
  by_contra hdevice
  obtain ⟨covered, hcovers, -⟩ := hrow.own _ hplanned.1 step hstep hmem held hheld
    ⟨hnamed ▸ Option.some_ne_none _, hnamed.trans hobject.symm, hdevice⟩
  cases hcovers

end Naming

/-- Where the copies of that provider cover every tree mount by mount, the names are apart. -/
theorem namesApart_of_coveredByMount {request : CoverageRequest}
    (h : ∀ domain object, CoveredByMount (naming request domain object)) : NamesApart request := by
  intro table hmounts mutation hmutation htree hknown domain hdomain boundary hboundary hprotectable
    hprotectable' hobject
  have hsome : boundary.domain.object.isSome = true := by
    unfold PersistenceDomain.isProtectable at hprotectable'
    rw [Bool.and_eq_true, Bool.and_eq_true] at hprotectable'
    exact hprotectable'.1.2
  obtain ⟨object, hnamed⟩ := Option.isSome_iff_exists.1 hsome
  obtain ⟨before, after, hmutations⟩ := append_of_mem hmutation
  have hcovered := (h mutation.domain object).trees table hmounts before mutation after hmutations
    htree
  have hrow {boundary : MountBoundary}
      (hboundary : boundary ∈ table.boundariesBeneath mutation.subject) :=
    @not_planned_of_namesake request object table mutation _ htree hknown hmounts hcovered boundary
      hboundary
  obtain ⟨⟨step, hstep, hplanned⟩, hsame⟩ := hrow hboundary hprotectable' hnamed
  rcases mem_append.1 hdomain with hown | hbeneath
  · have hheld : (naming request mutation.domain object).persistenceFor mutation.subject =
        some domain := Option.mem_toList.1 hown
    generalize (analyseAll _ before .empty).1 = gathered at hsame
    let own : CoverStep := ⟨mutation,
      (naming request mutation.domain object).persistenceFor mutation.subject,
      boundariesOf (naming request mutation.domain object).mounts mutation, gathered⟩
    have horigin : ownOrigin (naming request mutation.domain object) mutation gathered =
        .asked own := if_pos htree.required
    have hactions : own.actions (naming request mutation.domain object) =
        [soleAction mutation.domain object .byteConsistent] :=
      actions_naming_of_named hheld hprotectable (hobject.trans hnamed) rfl hknown
    refine hsame own (mem_filterMap.2 ⟨_, mem_cons_self, ?_⟩)
      (hactions ▸ mem_singleton_self _) domain hheld (hobject.trans hnamed)
    rw [horigin]
    rfl
  · obtain ⟨other, hother, rfl⟩ := mem_map.1 hbeneath
    obtain ⟨-, hsame'⟩ := hrow hother hprotectable (hobject.trans hnamed)
    obtain ⟨-, held, hheld, hnamed'⟩ := named_of_planned hplanned
    exact (hsame' step hstep hplanned held hheld hnamed').symm.trans
      (hsame step hstep hplanned held hheld hnamed')

/-- **Covering mount by mount.** Whatever providers offer one thing at a time, they cover the trees
of a request mount by mount exactly when the names are apart. -/
theorem coveredByMount_iff (request : CoverageRequest) :
    (∀ registry policy, SoleOffers { request with registry := registry, policy := policy } →
      CoveredByMount { request with registry := registry, policy := policy }) ↔
      NamesApart request :=
  ⟨fun h => namesApart_of_coveredByMount fun _ _ => h _ _ soleOffers_naming,
    fun h _ _ hsole => coveredByMount_of_namesApart h hsole⟩

/-! ### Two disks with one layout -/

/-- Two disks, each with a subvolume of the same name, one mounted inside the other. -/
def disksTable : MountTable where
  mounts :=
    [⟨"/dev/sda1", "/srv", "btrfs", ["rw", "subvol=/@data"], "0:31"⟩,
      ⟨"/dev/sdb1", "/srv/backup", "btrfs", ["rw", "subvol=/@data"], "0:45"⟩]
  inNamespace := none

/-- The whole tree is to be removed. -/
def disksRequest : CoverageRequest where
  registry := .empty
  policy := ⟨.prefer, .unbounded, []⟩
  mutations := [.new .filesystemPersistent .remove "/srv" "the tree is removed"]
  persistence := []
  mounts := some disksTable

theorem not_coveredByMount_disks : ¬ ∀ request, CoveredByMount request := by
  intro h
  have hdomain : disksTable.resolve "/srv" ∈ (disksRequest.persistenceFor "/srv").toList := by
    decide +kernel
  have hboundary : ⟨"/srv/backup", disksTable.resolve "/srv/backup"⟩ ∈
      disksTable.boundariesBeneath "/srv" := by
    decide +kernel
  have hdevice := (namesApart_of_coveredByMount fun _ _ => h _ :
    NamesApart disksRequest) disksTable rfl _ (mem_singleton_self _)
    ⟨by decide +kernel, by decide +kernel, by decide +kernel⟩ (by decide +kernel) _
    (mem_append_left _ hdomain) _ hboundary (by decide +kernel) (by decide +kernel)
    (by decide +kernel)
  revert hdevice
  decide +kernel

end OnoSendai.Protection
