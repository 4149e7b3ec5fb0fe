import OnoSendai.Lib.Ranking
import OnoSendai.Protection.Steps
import OnoSendai.Protection.Unnoticed
import Mathlib.Data.Prod.Lex

/-!
# Choosing protection

In every step the offers go through the same filters: those that are not copies where only a copy
may be made, those that break a limit, those that do not satisfy the objective, and those that are
not preferred. What is dropped is rejected, and what is left is turned into actions by its provider.
A provider may turn one offer into several actions, and the count of planned actions is looked at
only before the first of them.
-/

namespace OnoSendai.Protection

open List Option CoverStep Or

/-! ### What is kept -/

/-- What has been gathered only gains rejections. -/
structure Rejects (gathered gathered' : Gathered) : Prop where
  actions : gathered'.actions = gathered.actions
  available : gathered'.available = gathered.available
  rejected : gathered.rejected ⊆ gathered'.rejected

/-- An offer is on the list of the rejected ones. -/
def Gathered.HasRejected (gathered : Gathered) (candidate : RecoveryCandidate) : Prop :=
  ∃ rejection ∈ gathered.rejected, rejection.candidate = candidate

variable {candidate : RecoveryCandidate}

section Rejecting

variable {gathered gathered' gathered'' : Gathered}

theorem Rejects.refl (gathered : Gathered) : Rejects gathered gathered :=
  ⟨rfl, rfl, fun _ h => h⟩

theorem Rejects.trans (h : Rejects gathered gathered') (h' : Rejects gathered' gathered'') :
    Rejects gathered gathered'' :=
  ⟨h'.actions.trans h.actions, h'.available.trans h.available, fun _ hmem =>
    h'.rejected (h.rejected hmem)⟩

theorem Rejects.hasRejected (h : Rejects gathered gathered')
    (hcandidate : gathered.HasRejected candidate) : gathered'.HasRejected candidate :=
  hcandidate.imp fun _ hrejection => ⟨h.rejected hrejection.1, hrejection.2⟩

theorem rejects_reject (gathered : Gathered) (reason : RejectionReason)
    (candidate : RecoveryCandidate) :
    Rejects gathered (gathered.reject reason candidate) ∧
      (gathered.reject reason candidate).HasRejected candidate :=
  ⟨⟨rfl, rfl, fun _ h => mem_append_left _ h⟩,
    ⟨_, mem_append_right _ (mem_singleton_self _), rfl⟩⟩

theorem rejects_rejectAll (gathered : Gathered) (reason : RejectionReason)
    (candidates : List RecoveryCandidate) :
    Rejects gathered (gathered.rejectAll reason candidates) ∧
      ∀ candidate ∈ candidates, (gathered.rejectAll reason candidates).HasRejected candidate := by
  unfold Gathered.rejectAll
  induction candidates generalizing gathered with
  | nil => exact ⟨.refl _, fun _ h => absurd h not_mem_nil⟩
  | cons candidate candidates ih =>
    obtain ⟨hrejects, hall⟩ := ih (gathered.reject reason candidate)
    obtain ⟨hfirst, hcandidate⟩ := rejects_reject gathered reason candidate
    refine ⟨hfirst.trans hrejects, fun other hother => ?_⟩
    rcases mem_cons.1 hother with rfl | hother
    · exact hrejects.hasRejected hcandidate
    · exact hall other hother

end Rejecting

/-! ### The filters -/

variable {objective : RecoveryObjective}

section Filters

variable {request : CoverageRequest} {mutation : MutationDomain}
  {persistence : Option PersistenceDomain} {boundaries : List MountBoundary}

theorem fits_filter (test : RecoveryCandidate → Bool) (reason : RejectionReason)
    (candidates : List RecoveryCandidate) (gathered : Gathered) :
    Rejects gathered (gathered.rejectAll reason (candidates.filter (!test ·))) ∧
      ∀ candidate ∈ candidates, candidate ∈ candidates.filter test ∨
        (gathered.rejectAll reason (candidates.filter (!test ·))).HasRejected candidate := by
  obtain ⟨hrejects, hall⟩ := rejects_rejectAll gathered reason (candidates.filter (!test ·))
  refine ⟨hrejects, fun candidate hcandidate => ?_⟩
  cases htest : test candidate with
  | true => exact inl (mem_filter.2 ⟨hcandidate, htest⟩)
  | false => exact inr (hall candidate (mem_filter.2 ⟨hcandidate, by rw [htest]; rfl⟩))

variable {candidates : List RecoveryCandidate}

theorem mem_tried : candidate ∈ tried boundaries candidates objective ↔ candidate ∈ candidates := by
  unfold tried
  split_ifs
  · exact mem_insertionSort _
  · exact (mem_insertionSort _).trans (mem_insertionSort _)

/-- Every offer is tried or rejected, and what is tried keeps to the limits. -/
theorem fits_fittingOffers (candidates : List RecoveryCandidate) (gathered : Gathered) :
    Rejects gathered
        (fittingOffers request mutation persistence boundaries candidates gathered).2 ∧
      (∀ candidate ∈ candidates,
        candidate ∈ (fittingOffers request mutation persistence boundaries candidates
          gathered).1 ∨
        (fittingOffers request mutation persistence boundaries candidates
          gathered).2.HasRejected candidate) ∧
      ∀ candidate ∈ (fittingOffers request mutation persistence boundaries candidates gathered).1,
        isWithin request.policy.limits gathered.actions.length candidate = true := by
  have hcopies : ∃ copies, copies = (if persistence.any (DomainReach.of · = .copyOnly) then
      copiesOnly request.registry candidates gathered else (candidates, gathered)) ∧
      Rejects gathered copies.2 ∧ ∀ candidate ∈ candidates,
        candidate ∈ copies.1 ∨ copies.2.HasRejected candidate := by
    refine ⟨_, rfl, ?_⟩
    split_ifs
    · exact fits_filter (isCopy request.registry) _ candidates gathered
    · exact ⟨.refl _, fun _ h => inl h⟩
  obtain ⟨copies, heq, hrejects, hall⟩ := hcopies
  unfold fittingOffers
  dsimp only
  rw [← heq]
  obtain ⟨hrejects', hall'⟩ := fits_filter
    (isWithin request.policy.limits gathered.actions.length) .costLimit copies.1 copies.2
  refine ⟨hrejects.trans hrejects', fun candidate hcandidate => ?_, fun candidate hcandidate => ?_⟩
  · rcases hall candidate hcandidate with hcopy | hrejected
    · exact (hall' candidate hcopy).imp_left mem_tried.2
    · exact inr (hrejects'.hasRejected hrejected)
  · exact (mem_filter.1 (mem_tried.1 hcandidate)).2

theorem mem_offering {gathered : Gathered}
    (h : candidate ∈ (gathered.offering candidates).available) :
    candidate ∈ gathered.available ∨ candidate ∈ candidates := by
  unfold Gathered.offering at h
  dsimp only at h
  generalize gathered.available = kept at h ⊢
  induction candidates generalizing kept with
  | nil => exact inl h
  | cons first rest ih =>
    rw [foldl_cons] at h
    rcases ih _ h with hkept | hrest
    · split_ifs at hkept
      · exact inl hkept
      · rcases mem_append.1 hkept with hkept | hsame
        · exact inl hkept
        · exact inr (mem_singleton.1 hsame ▸ mem_cons_self)
    · exact inr (mem_cons_of_mem _ hrest)

theorem records_discover (gathered : Gathered) :
    (discover request mutation persistence gathered).2.rejected = gathered.rejected ∧
      ∀ candidate ∈ (discover request mutation persistence gathered).2.available,
        candidate ∈ gathered.available ∨
          candidate ∈ (discover request mutation persistence gathered).1.candidates := by
  unfold discover
  dsimp only
  split
  · exact ⟨rfl, fun _ h => inl h⟩
  · split_ifs
    · exact ⟨rfl, fun _ h => inl h⟩
    · split
      · exact ⟨rfl, fun _ h => inl h⟩
      · exact ⟨rfl, fun candidate h => mem_offering h⟩

end Filters

/-! ### The choice -/

section Choice

variable {mode : ProtectionMode}

theorem choose_fst (ordered chosen : List RecoveryCandidate) (gathered gathered' : Gathered) :
    (choose mode ordered chosen gathered).1 = (choose mode ordered chosen gathered').1 := by
  induction ordered generalizing chosen gathered gathered' with
  | nil => rfl
  | cons candidate ordered ih =>
    rw [choose, choose]
    split_ifs
    · exact ih _ _ _
    · exact ih _ _ _
    · exact ih _ _ _
    · exact ih _ _ _

/-- Every offer is taken or rejected, and no two that are taken are of one provider. -/
theorem spec_choose (ordered chosen : List RecoveryCandidate) (gathered : Gathered)
    (hnodup : (chosen.map (·.provider)).Nodup) :
    Rejects gathered (choose mode ordered chosen gathered).2 ∧
      (∀ candidate ∈ ordered, candidate ∈ (choose mode ordered chosen gathered).1 ∨
        (choose mode ordered chosen gathered).2.HasRejected candidate) ∧
      ((choose mode ordered chosen gathered).1.map (·.provider)).Nodup ∧
      ∃ extras, (choose mode ordered chosen gathered).1 = chosen ++ extras ∧ extras ⊆ ordered := by
  induction ordered generalizing chosen gathered with
  | nil => exact ⟨.refl _, fun _ h => absurd h not_mem_nil, hnodup, [], by simp [choose]⟩
  | cons candidate ordered ih =>
    have hrejected (reason : RejectionReason) := rejects_reject gathered reason candidate
    rw [choose]
    split_ifs with hempty hmode hconflict
    · obtain ⟨hrejects, hall, hnodup', extras, heq, hsub⟩ :=
        ih [candidate] gathered (nodup_singleton _)
      have hchosen : chosen = [] := isEmpty_iff.1 hempty
      refine ⟨hrejects, fun other hother => ?_, hnodup', candidate :: extras, ?_, ?_⟩
      · rcases mem_cons.1 hother with rfl | hother
        · exact inl (heq ▸ mem_cons_self)
        · exact hall other hother
      · rw [heq, hchosen]
        rfl
      · exact cons_subset_cons _ hsub
    · obtain ⟨hrejects, hall, hnodup', extras, heq, hsub⟩ := ih chosen _ hnodup
      refine ⟨(hrejected _).1.trans hrejects, fun other hother => ?_, hnodup', extras, heq,
        fun other hother => mem_cons_of_mem _ (hsub hother)⟩
      rcases mem_cons.1 hother with rfl | hother
      · exact inr (hrejects.hasRejected (hrejected _).2)
      · exact hall other hother
    · obtain ⟨hrejects, hall, hnodup', extras, heq, hsub⟩ := ih chosen _ hnodup
      refine ⟨(hrejected _).1.trans hrejects, fun other hother => ?_, hnodup', extras, heq,
        fun other hother => mem_cons_of_mem _ (hsub hother)⟩
      rcases mem_cons.1 hother with rfl | hother
      · exact inr (hrejects.hasRejected (hrejected _).2)
      · exact hall other hother
    · have hnew : ((chosen ++ [candidate]).map (·.provider)).Nodup := by
        rw [map_append, nodup_append]
        refine ⟨hnodup, nodup_singleton _, fun id hid other hother heq => hconflict ?_⟩
        obtain ⟨kept, hkept, rfl⟩ := mem_map.1 hid
        obtain rfl := mem_singleton.1 hother
        refine any_eq_true.2 ⟨kept, hkept, ?_⟩
        simp [heq]
      obtain ⟨hrejects, hall, hnodup', extras, heq, hsub⟩ :=
        ih (chosen ++ [candidate]) gathered hnew
      refine ⟨hrejects, fun other hother => ?_, hnodup', candidate :: extras, ?_, ?_⟩
      · rcases mem_cons.1 hother with rfl | hother
        · exact inl (heq ▸ mem_append_left _ (mem_append_right _ (by simp)))
        · exact hall other hother
      · rw [heq, append_assoc]
        rfl
      · exact cons_subset_cons _ hsub

theorem choose_of_ne_maximize (hmode : mode ≠ .maximize) (candidate : RecoveryCandidate)
    (ordered : List RecoveryCandidate) (gathered : Gathered) :
    (choose mode ordered [candidate] gathered).1 = [candidate] := by
  induction ordered generalizing gathered with
  | nil => rfl
  | cons other ordered ih =>
    rw [choose, if_neg (by simp), if_pos hmode]
    exact ih _

/-- The offers that are taken begin with the first that is usable. -/
theorem spec_chosenOffers (usable : List RecoveryCandidate) (gathered : Gathered) :
    Rejects gathered (chosenOffers mode usable gathered).2 ∧
      (∀ candidate ∈ usable, candidate ∈ (chosenOffers mode usable gathered).1 ∨
        (chosenOffers mode usable gathered).2.HasRejected candidate) ∧
      ((chosenOffers mode usable gathered).1.map (·.provider)).Nodup ∧
      (∀ candidate ∈ (chosenOffers mode usable gathered).1, candidate ∈ usable) ∧
      ∀ first rest, (chosenOffers mode usable gathered).1 = first :: rest →
        usable.head? = some first ∧ (mode ≠ .maximize → rest = []) := by
  unfold chosenOffers
  split_ifs
  · obtain ⟨hrejects, hall, hnodup, extras, heq, hsub⟩ :=
      @spec_choose mode usable [] gathered nodup_nil
    refine ⟨hrejects, hall, hnodup, fun candidate h => hsub ?_, fun first rest hchosen => ?_⟩
    · rwa [heq] at h
    · cases usable with
      | nil => cases hchosen
      | cons candidate usable =>
        rw [choose, if_pos isEmpty_nil] at hchosen
        obtain ⟨-, -, -, extras', heq', -⟩ :=
          @spec_choose mode usable [candidate] gathered (nodup_singleton _)
        rw [heq', singleton_append, cons.injEq] at hchosen
        obtain ⟨rfl, rfl⟩ := hchosen
        refine ⟨rfl, fun hmode => ?_⟩
        rw [choose_of_ne_maximize hmode] at heq'
        exact (cons.inj heq').2.symm
  · obtain ⟨hrejects, hall⟩ := rejects_rejectAll gathered .protectionOff usable
    exact ⟨hrejects, fun candidate h => inr (hall candidate h), nodup_nil,
      fun _ h => absurd h not_mem_nil, fun _ _ h => nomatch h⟩

end Choice

/-! ### Planning -/

/-- What its provider turns an offer into, where it can. -/
def planOf (request : CoverageRequest) (candidate : RecoveryCandidate) :
    Option (List ProtectionAction) :=
  (request.registry.get candidate.provider).bind fun provider =>
    (provider.planProtection [candidate] request.policy.mode).toOption

variable {planned : List ProtectionAction}

section Planning

variable {mode : ProtectionMode}

theorem withExtras_append (actions planned : List ProtectionAction) :
    ∃ taken, withExtras mode actions planned = actions ++ taken ∧
      Forall₂ (fun action action' => action'.candidate = action.candidate) planned taken := by
  induction planned generalizing actions with
  | nil => exact ⟨[], by simp [withExtras], .nil⟩
  | cons action planned ih =>
    obtain ⟨taken, heq, hall⟩ := ih (actions ++ [if mode = .maximize && !actions.isEmpty then
      { action with required := false } else action])
    rw [withExtras, heq, append_assoc]
    refine ⟨_, rfl, .cons ?_ hall⟩
    split_ifs <;> rfl

/-- The actions of a plan are taken over as they are where none of them is an extra. -/
theorem withExtras_nil (h : mode = .maximize → planned.length ≤ 1) :
    withExtras mode [] planned = planned := by
  by_cases hmode : mode = .maximize
  · rcases planned with _ | ⟨action, _ | ⟨other, rest⟩⟩
    · rfl
    · simp [withExtras]
    · exact absurd (h hmode) (by simp)
  · have hall (actions planned : List ProtectionAction) :
        withExtras mode actions planned = actions ++ planned := by
      induction planned generalizing actions with
      | nil => simp [withExtras]
      | cons action planned ih =>
        rw [withExtras, ih]
        simp [hmode]
    rw [hall, nil_append]

theorem withExtras_maximize (action other : ProtectionAction) (others : List ProtectionAction) :
    ∃ taken, withExtras .maximize [] (action :: other :: others) =
      action :: { other with required := false } :: taken := by
  obtain ⟨taken, heq, -⟩ :=
    @withExtras_append .maximize [action, { other with required := false }] others
  exact ⟨taken, heq⟩

variable {chosen : List RecoveryCandidate}

theorem providersOf_eq (h : (chosen.map (·.provider)).Nodup) :
    providersOf chosen = chosen.map (·.provider) := by
  unfold providersOf
  have hall (kept ids : List String) (hnodup : (kept ++ ids).Nodup) :
      ids.foldl (fun kept id => if id ∈ kept then kept else kept ++ [id]) kept = kept ++ ids := by
    induction ids generalizing kept with
    | nil => simp
    | cons id ids ih =>
      have hnot : id ∉ kept := fun hmem =>
        (nodup_append.1 hnodup).2.2 id hmem id mem_cons_self rfl
      rw [foldl_cons, if_neg hnot, ih]
      · simp
      · simpa using hnodup
  rw [hall [] _ (by simpa using h), nil_append]

theorem filter_provider_eq (hnodup : (chosen.map (·.provider)).Nodup) (h : candidate ∈ chosen) :
    chosen.filter (·.provider = candidate.provider) = [candidate] := by
  induction chosen with
  | nil => cases h
  | cons first rest ih =>
    rw [map_cons, nodup_cons] at hnodup
    rcases mem_cons.1 h with rfl | hrest
    · rw [filter_cons_of_pos (by simp), filter_eq_nil_iff.2]
      intro other hother heq
      exact hnodup.1 (mem_map.2 ⟨other, hother, of_decide_eq_true heq⟩)
    · rw [filter_cons_of_neg, ih hnodup.2 hrest]
      intro heq
      exact hnodup.1 (mem_map.2 ⟨candidate, hrest, (of_decide_eq_true heq).symm⟩)

/-- Offers no two of which are of one provider are planned one by one; what cannot be planned is
rejected. -/
theorem spec_planActions (request : CoverageRequest) (hnodup : (chosen.map (·.provider)).Nodup)
    (rest : List RecoveryCandidate) (hrest : rest ⊆ chosen) (actions : List ProtectionAction)
    (gathered : Gathered) :
    (planActions request.registry chosen request.policy.mode (rest.map (·.provider)) actions
        gathered).1 = rest.foldl (fun actions candidate =>
      withExtras request.policy.mode actions ((planOf request candidate).getD [])) actions ∧
    Rejects gathered (planActions request.registry chosen request.policy.mode
      (rest.map (·.provider)) actions gathered).2 ∧
    ∀ candidate ∈ rest, planOf request candidate = none →
      (planActions request.registry chosen request.policy.mode (rest.map (·.provider)) actions
        gathered).2.HasRejected candidate := by
  induction rest generalizing actions gathered with
  | nil => exact ⟨rfl, .refl _, fun _ h => absurd h not_mem_nil⟩
  | cons candidate rest ih =>
    have hrest' : rest ⊆ chosen := fun other hother => hrest (mem_cons_of_mem _ hother)
    rw [map_cons, planActions, filter_provider_eq hnodup (hrest mem_cons_self)]
    dsimp only
    rw [foldl_cons]
    cases hget : request.registry.get candidate.provider with
    | none =>
      have hplan : planOf request candidate = none := by
        unfold planOf
        rw [hget]
        rfl
      obtain ⟨hrejects, hall⟩ := rejects_rejectAll gathered .notPlannable [candidate]
      obtain ⟨hactions, hrejects', hrest''⟩ := ih hrest' actions (gathered.rejectAll .notPlannable
        [candidate])
      rw [hplan]
      refine ⟨hactions, hrejects.trans hrejects', fun other hother hnone => ?_⟩
      rcases mem_cons.1 hother with rfl | hother
      · exact hrejects'.hasRejected (hall _ mem_cons_self)
      · exact hrest'' other hother hnone
    | some provider =>
      cases hresult : provider.planProtection [candidate] request.policy.mode with
      | ok planned =>
        have hplan : planOf request candidate = some planned := by
          unfold planOf
          rw [hget, bind_some, hresult]
          rfl
        obtain ⟨hactions, hrejects', hrest''⟩ :=
          ih hrest' (withExtras request.policy.mode actions planned) gathered
        dsimp only
        rw [hresult, hplan]
        refine ⟨hactions, hrejects', fun other hother hnone => ?_⟩
        rcases mem_cons.1 hother with rfl | hother
        · cases hplan.symm.trans hnone
        · exact hrest'' other hother hnone
      | error failure =>
        have hplan : planOf request candidate = none := by
          unfold planOf
          rw [hget, bind_some, hresult]
          rfl
        let refused : Gathered := { gathered with
          refusals := gathered.refusals ++ [⟨candidate.provider, failure.message, failure⟩] }
        obtain ⟨hrejects, hall⟩ := rejects_rejectAll refused .notPlannable [candidate]
        obtain ⟨hactions, hrejects', hrest''⟩ := ih hrest' actions (refused.rejectAll .notPlannable
          [candidate])
        have hrefused : Rejects gathered refused := ⟨rfl, rfl, fun _ h => h⟩
        dsimp only
        rw [hresult, hplan]
        refine ⟨hactions, (hrefused.trans hrejects).trans hrejects', fun other hother hnone => ?_⟩
        rcases mem_cons.1 hother with rfl | hother
        · exact hrejects'.hasRejected (hall _ mem_cons_self)
        · exact hrest'' other hother hnone

/-- The plans of offers are taken over one after another, but for whether their actions are
required. -/
theorem foldl_withExtras_append (plans : List (List ProtectionAction))
    (actions : List ProtectionAction) :
    ∃ taken, plans.foldl (withExtras mode) actions = actions ++ taken ∧
      Forall₂ (fun action action' => action'.candidate = action.candidate) plans.flatten
        taken := by
  induction plans generalizing actions with
  | nil => exact ⟨[], by simp, .nil⟩
  | cons planned plans ih =>
    obtain ⟨taken, heq, hall⟩ := @withExtras_append mode actions planned
    obtain ⟨taken', heq', hall'⟩ := ih (withExtras mode actions planned)
    rw [foldl_cons, heq', heq, append_assoc]
    exact ⟨_, rfl, rel_append hall hall'⟩

end Planning

/-! ### One step -/

namespace CoverStep

variable (request : CoverageRequest)

/-- What the providers turn the taken offers into. -/
def plans (step : CoverStep) : List (List ProtectionAction) :=
  (step.chosen request).map fun candidate => (planOf request candidate).getD []

variable {request}

/-- **One step.** What it plans is what the providers turn the taken offers into, and every offer
that was made is planned or rejected. -/
theorem found_spec (step : CoverStep) :
    step.actions request = (step.plans request).foldl (withExtras request.policy.mode) [] ∧
      (∀ candidate ∈ step.offers request,
        (candidate ∈ step.chosen request ∧ planOf request candidate ≠ none) ∨
          (step.after request).HasRejected candidate) ∧
      step.before.rejected ⊆ (step.after request).rejected ∧
      (∀ candidate ∈ (step.after request).available,
        candidate ∈ step.before.available ∨ candidate ∈ step.offers request) := by
  obtain ⟨hdiscovered, havailable⟩ := @records_discover request step.mutation step.persistence
    step.before
  obtain ⟨hfitting, htried, -⟩ := @fits_fittingOffers request step.mutation step.persistence
    step.boundaries (step.offers request)
    (discover request step.mutation step.persistence step.before).2
  generalize hordered : fittingOffers request step.mutation step.persistence step.boundaries
    (step.offers request) (discover request step.mutation step.persistence step.before).2 =
      ordered at hfitting htried
  have husable : ordered.1.filter (satisfies · step.mutation.objective) = step.usable request := by
    unfold usable offersTried
    rw [← hordered]
    rfl
  obtain ⟨hunusable, hall⟩ := rejects_rejectAll ordered.2 .objectiveUnsupported
    (ordered.1.filter (!satisfies · step.mutation.objective))
  generalize hbefore : ordered.2.rejectAll .objectiveUnsupported
    (ordered.1.filter (!satisfies · step.mutation.objective)) = before at hunusable hall
  obtain ⟨hchosen, htaken, hnodup, -, -⟩ :=
    @spec_chosenOffers request.policy.mode (step.usable request) before
  have hsame : (chosenOffers request.policy.mode (step.usable request) before).1 =
      step.chosen request := by
    unfold chosen chosenOffers
    split_ifs
    · exact choose_fst _ _ _ _
    · rfl
  rw [hsame] at htaken hnodup
  obtain ⟨hactions, hplanned, hunplanned⟩ := spec_planActions request hnodup (step.chosen request)
    (fun _ h => h) [] (chosenOffers request.policy.mode (step.usable request) before).2
  rw [← providersOf_eq hnodup] at hactions hplanned hunplanned
  have hfound : (step.found request).1.actions = (planActions request.registry
        (step.chosen request) request.policy.mode (providersOf (step.chosen request)) []
        (chosenOffers request.policy.mode (step.usable request) before).2).1 ∧
      (step.found request).2 = (planActions request.registry
        (step.chosen request) request.policy.mode (providersOf (step.chosen request)) []
        (chosenOffers request.policy.mode (step.usable request) before).2).2 := by
    rw [← hsame, ← husable, ← hbefore, ← hordered]
    exact ⟨rfl, rfl⟩
  have hrejects := ((hfitting.trans hunusable).trans hchosen).trans hplanned
  rw [← hfound.2] at hplanned hunplanned hrejects
  have hafter : (step.after request).rejected = (step.found request).2.rejected := rfl
  refine ⟨?_, fun candidate hoffer => ?_, ?_, fun candidate hcandidate => ?_⟩
  · rw [plans, foldl_map, ← hactions]
    exact hfound.1
  · rcases htried candidate hoffer with hmem | hrejected
    · cases hsatisfies : satisfies candidate step.mutation.objective with
      | true =>
        have hin : candidate ∈ step.usable request :=
          husable ▸ mem_filter.2 ⟨hmem, hsatisfies⟩
        rcases htaken candidate hin with hin | hrejected
        · by_cases hplan : planOf request candidate = none
          · exact inr (hunplanned candidate hin hplan)
          · exact inl ⟨hin, hplan⟩
        · exact inr (hplanned.hasRejected hrejected)
      | false =>
        have hrejected := hall candidate
          (mem_filter.2 ⟨hmem, by rw [hsatisfies]; rfl⟩)
        exact inr ((hchosen.trans hplanned).hasRejected hrejected)
    · exact inr (((hunusable.trans hchosen).trans hplanned).hasRejected hrejected)
  · rw [hafter, ← hdiscovered]
    exact hrejects.rejected
  · have hmem : candidate ∈ (step.found request).2.available := hcandidate
    rw [hrejects.available] at hmem
    exact havailable candidate hmem

theorem actions_spec (step : CoverStep) :
    Forall₂ (fun action action' => action'.candidate = action.candidate)
      (step.plans request).flatten (step.actions request) := by
  obtain ⟨taken, heq, hall⟩ := @foldl_withExtras_append request.policy.mode
    (step.plans request) []
  rw [step.found_spec.1, heq]
  exact hall

theorem chosen_spec (step : CoverStep) :
    ((step.chosen request).map (·.provider)).Nodup ∧
      (∀ candidate ∈ step.chosen request, candidate ∈ step.usable request) ∧
      ∀ first rest, step.chosen request = first :: rest →
        (step.usable request).head? = some first ∧
          (request.policy.mode ≠ .maximize → rest = []) := by
  obtain ⟨-, -, hnodup, hsub, hfirst⟩ :=
    @spec_chosenOffers request.policy.mode (step.usable request) step.before
  exact ⟨hnodup, hsub, hfirst⟩

theorem usable_spec {step : CoverStep} (h : candidate ∈ step.usable request) :
    isWithin request.policy.limits step.before.actions.length candidate = true ∧
      satisfies candidate step.mutation.objective = true := by
  obtain ⟨htried, hsatisfies⟩ := mem_filter.1 h
  obtain ⟨-, -, hwithin⟩ := @fits_fittingOffers request step.mutation step.persistence
    step.boundaries (step.offers request)
    (discover request step.mutation step.persistence step.before).2
  refine ⟨?_, hsatisfies⟩
  rw [← @actions_discover request step.mutation step.persistence step.before]
  exact hwithin candidate htried

end CoverStep

/-! ### The order of the offers -/

variable {first : RecoveryCandidate}

section Preference

/-- How many of the filesystems beneath a subject an offer leaves uncaptured. -/
def missed (boundaries : List MountBoundary) (candidate : RecoveryCandidate) : Nat :=
  boundaries.countP fun boundary => boundary.domain.isProtectable && !captures candidate boundary

/-- The place of an offer in the preference order. -/
def preference (objective : RecoveryObjective) (candidate : RecoveryCandidate) :
    List Nat ×ₗ String ×ₗ String :=
  toLex (preferenceKey candidate objective, toLex (candidate.provider, candidate.scope.domain))

theorem preferred_iff {left right : RecoveryCandidate} :
    preferred objective left right = true ↔
      preference objective left ≤ preference objective right := by
  unfold preferred preference
  simp [Prod.Lex.toLex_le_toLex]

theorem pairwise_ranked (candidates : List RecoveryCandidate) (objective : RecoveryObjective) :
    (ranked candidates objective).Pairwise (preferred objective · · = true) := by
  have htotal : Std.Total (preferred objective · · = true) := ⟨fun left right => by
    rw [preferred_iff, preferred_iff]
    exact le_total _ _⟩
  have htrans : IsTrans RecoveryCandidate (preferred objective · · = true) :=
    ⟨fun left middle right h h' => by
      rw [preferred_iff] at h h' ⊢
      exact h.trans h'⟩
  exact pairwise_insertionSort _ candidates

/-- An offer leaves no more of the filesystems beneath uncaptured than another and, where it leaves
as many, is preferred. -/
def AsGood (boundaries : List MountBoundary) (objective : RecoveryObjective)
    (candidate other : RecoveryCandidate) : Prop :=
  missed boundaries candidate < missed boundaries other ∨
    missed boundaries candidate = missed boundaries other ∧
      preferred objective candidate other = true

theorem pairwise_tried (boundaries : List MountBoundary) (candidates : List RecoveryCandidate)
    (objective : RecoveryObjective) :
    (tried boundaries candidates objective).Pairwise (AsGood boundaries objective) := by
  unfold tried
  dsimp only
  split_ifs with hempty
  · refine (pairwise_ranked candidates objective).imp fun h => inr ⟨?_, h⟩
    rw [isEmpty_iff.1 hempty]
    rfl
  · exact Ranking.pairwise_insertionSort_of_pairwise (missed boundaries)
      (pairwise_ranked candidates objective)

theorem asGood_self (boundaries : List MountBoundary) (objective : RecoveryObjective)
    (candidate : RecoveryCandidate) : AsGood boundaries objective candidate candidate :=
  inr ⟨rfl, preferred_iff.2 le_rfl⟩

/-- The first usable offer is as good as every other. -/
theorem asGood_head {request : CoverageRequest} {step : CoverStep}
    (hfirst : (step.usable request).head? = some first) :
    ∀ other ∈ step.usable request, AsGood step.boundaries step.mutation.objective first other := by
  have hpairwise : (step.usable request).Pairwise
      (AsGood step.boundaries step.mutation.objective) :=
    (pairwise_tried _ _ _).filter _
  cases husable : step.usable request with
  | nil => simp [husable] at hfirst
  | cons candidate rest =>
    rw [husable, head?_cons, some.injEq] at hfirst
    rw [husable, pairwise_cons] at hpairwise
    subst hfirst
    intro other hother
    rcases mem_cons.1 hother with rfl | hother
    · exact asGood_self _ _ _
    · exact hpairwise.1 other hother

end Preference

/-! ### What the choice promises -/

section Promise

variable (request : CoverageRequest)

/-- The limits but for the count of the planned actions. -/
def CostLimits.uncounted (limits : CostLimits) : CostLimits :=
  { limits with maxSnapshotCount := none }

/-- The choice of protection: it stays within the limits, each row rests on the best offer that
could be made in the step that planned it, which is its own where it has one, every offer is
accounted for, and only extras are optional. -/
structure ChoosesWell : Prop where
  counted : ∀ limit, request.policy.limits.maxSnapshotCount = some limit →
    (analyse request).gathered.actions.length ≤ limit
  within : ∀ action ∈ (analyse request).gathered.actions,
    request.policy.limits.uncounted.breaches action.candidate.cost
      action.candidate.scope.covers.length 0 = []
  best : request.policy.mode = .prefer ∨ request.policy.mode = .require →
    ∀ row ∈ (drafts request).zip ((origins request).flatMap (·.2)), row.1.actions ≠ [] →
      ∃ candidate, (∀ action ∈ row.1.actions, action.candidate = candidate) ∧
        satisfies candidate row.1.objective = true ∧
        ∀ action ∈ row.1.actions, ∃ step ∈ steps request, (∀ own ∈ row.2.step, own = step) ∧
          action ∈ step.actions request ∧ candidate ∈ step.usable request ∧
          ∀ other ∈ step.usable request,
            AsGood step.boundaries step.mutation.objective candidate other
  accounted : ∀ candidate ∈ (analyse request).gathered.available,
    (∃ action ∈ (analyse request).gathered.actions, action.candidate = candidate) ∨
      (analyse request).gathered.HasRejected candidate
  required : ∀ step ∈ steps request, ∀ action ∈ step.actions request,
    (step.chosen request).head? = some action.candidate → action.required = true
  optional : ∀ step ∈ steps request, ∀ action ∈ step.actions request,
    action.required = false → request.policy.mode = .maximize ∧
      action.candidate ∈ (step.chosen request).tail

/-- Every taken offer of a step that can be planned becomes at least one action of its own. -/
def PlansOwn (step : CoverStep) : Prop :=
  ∀ candidate ∈ step.chosen request, ∀ planned, planOf request candidate = some planned →
    planned ≠ [] ∧ ∀ action ∈ planned, action.candidate = candidate

/-- In a step the actions of the first offer that is taken are required, and under `maximize` there
is one of them only; and a configured count of actions leaves room for those of all that are
taken. -/
structure PlainStep (step : CoverStep) : Prop where
  required : ∀ first planned, (step.chosen request).head? = some first →
    planOf request first = some planned → (∀ action ∈ planned, action.required = true) ∧
      (request.policy.mode = .maximize → planned.length ≤ 1)
  room : ∀ limit, request.policy.limits.maxSnapshotCount = some limit →
    step.chosen request ≠ [] →
      step.before.actions.length + (step.plans request).flatten.length ≤ limit

/-- Every step of an analysis is plain and, outside `maximize`, no filesystem is captured by the
actions of two offers. -/
structure PlainSteps : Prop where
  plain : ∀ step ∈ steps request, PlainStep request step
  captured : request.policy.mode ≠ .maximize → ∀ entry ∈ origins request,
    ∀ mutation boundary actions, Origin.captured mutation boundary actions ∈ entry.2 →
      ∀ action ∈ actions, ∀ action' ∈ actions, action.candidate = action'.candidate

end Promise

section Proof

variable {request : CoverageRequest} {step : CoverStep}

variable {action : ProtectionAction}

theorem PlansOwn.mem_chosen (h : PlansOwn request step) (haction : action ∈ step.actions request) :
    action.candidate ∈ step.chosen request := by
  obtain ⟨source, hsource, heq⟩ := exists_left step.actions_spec haction
  obtain ⟨planned, hplanned, hmem⟩ := mem_flatten.1 hsource
  obtain ⟨candidate, hcandidate, rfl⟩ := mem_map.1 hplanned
  cases hplan : planOf request candidate with
  | none =>
    rw [hplan] at hmem
    cases hmem
  | some planned =>
    rw [hplan] at hmem
    rw [heq, (h candidate hcandidate planned hplan).2 source hmem]
    exact hcandidate

theorem PlansOwn.exists_action (h : PlansOwn request step)
    (hcandidate : candidate ∈ step.chosen request) (hplan : planOf request candidate ≠ none) :
    ∃ action ∈ step.actions request, action.candidate = candidate := by
  obtain ⟨planned, hplanned⟩ := ne_none_iff_exists'.1 hplan
  obtain ⟨hnonempty, hown⟩ := h candidate hcandidate planned hplanned
  obtain ⟨source, hsource⟩ := exists_mem_of_ne_nil _ hnonempty
  have hmem : source ∈ (step.plans request).flatten :=
    mem_flatten.2 ⟨planned, mem_map.2 ⟨candidate, hcandidate, by rw [hplanned]; rfl⟩,
      hsource⟩
  obtain ⟨action, haction, heq⟩ := exists_right step.actions_spec hmem
  exact ⟨action, haction, heq.trans (hown source hsource)⟩

theorem length_actions (step : CoverStep) :
    (step.actions request).length = (step.plans request).flatten.length :=
  step.actions_spec.length_eq.symm

theorem actions_after (step : CoverStep) :
    (step.after request).actions = step.before.actions ++ step.actions request := by
  change (step.found request).2.actions ++ _ = _
  rw [found, actions_gathered_cover]

theorem actions_of_chosen_nil (hchosen : step.chosen request = []) : step.actions request = [] := by
  rw [← length_eq_zero_iff, length_actions, plans, hchosen]
  rfl

/-- The actions of the first offer a step takes are taken over as they are if they are not extras
of each other. -/
theorem PlansOwn.actions_eq (h : PlansOwn request step) {rest : List RecoveryCandidate}
    (hchosen : step.chosen request = first :: rest)
    (hsole : request.policy.mode = .maximize → ((planOf request first).getD []).length ≤ 1) :
    ∃ taken, step.actions request = (planOf request first).getD [] ++ taken ∧
      ∀ action ∈ taken, action.candidate ∈ rest := by
  have hown : withExtras request.policy.mode [] ((planOf request first).getD []) =
      (planOf request first).getD [] :=
    withExtras_nil hsole
  obtain ⟨taken, heq, hall⟩ := @foldl_withExtras_append request.policy.mode
    (rest.map fun candidate => (planOf request candidate).getD []) ((planOf request first).getD [])
  refine ⟨taken, ?_, fun action haction => ?_⟩
  · rw [step.found_spec.1, plans, hchosen, map_cons, foldl_cons, hown, heq]
  · obtain ⟨source, hsource, hsame⟩ := exists_left hall haction
    obtain ⟨planned, hplanned, hmem⟩ := mem_flatten.1 hsource
    obtain ⟨candidate, hcandidate, rfl⟩ := mem_map.1 hplanned
    cases hplan : planOf request candidate with
    | none =>
      rw [hplan] at hmem
      cases hmem
    | some planned =>
      rw [hplan] at hmem
      have hin : candidate ∈ step.chosen request := hchosen ▸ mem_cons_of_mem _ hcandidate
      rw [hsame, (h candidate hin planned hplan).2 source hmem]
      exact hcandidate

/-- Only the actions of extras are optional in a plain step. -/
theorem PlainStep.optional (h : PlainStep request step) (hown : PlansOwn request step)
    (haction : action ∈ step.actions request) (hoptional : action.required = false) :
    request.policy.mode = .maximize ∧ action.candidate ∈ (step.chosen request).tail := by
  cases hchosen : step.chosen request with
  | nil =>
    rw [actions_of_chosen_nil hchosen] at haction
    cases haction
  | cons first rest =>
    have hsole (hmode : request.policy.mode = .maximize) :
        ((planOf request first).getD []).length ≤ 1 := by
      cases hplan : planOf request first with
      | none => exact Nat.zero_le 1
      | some planned => exact (h.required first planned (by rw [hchosen]; rfl) hplan).2 hmode
    obtain ⟨taken, heq, htaken⟩ := hown.actions_eq hchosen hsole
    have hextra : action ∈ taken := by
      rw [heq] at haction
      rcases mem_append.1 haction with hfirst | hextra
      · cases hplan : planOf request first with
        | none =>
          rw [hplan] at hfirst
          cases hfirst
        | some planned =>
          rw [hplan] at hfirst
          have hrequired := (h.required first planned (by rw [hchosen]; rfl) hplan).1 action hfirst
          rw [hoptional] at hrequired
          cases hrequired
      · exact hextra
    refine ⟨?_, htaken action hextra⟩
    by_contra hmode
    rw [(step.chosen_spec.2.2 first rest hchosen).2 hmode] at htaken
    exact not_mem_nil (htaken action hextra)

/-- Outside `maximize` what a step plans is of one offer, as good as every usable one. -/
theorem PlansOwn.best (h : PlansOwn request step) (hmode : request.policy.mode ≠ .maximize)
    (haction : action ∈ step.actions request) :
    (∀ action' ∈ step.actions request, action'.candidate = action.candidate) ∧
      action.candidate ∈ step.usable request ∧
      ∀ other ∈ step.usable request,
        AsGood step.boundaries step.mutation.objective action.candidate other := by
  obtain ⟨-, hsub, hfirst⟩ := step.chosen_spec
  have hmem := h.mem_chosen haction
  cases hchosen : step.chosen request with
  | nil =>
    rw [hchosen] at hmem
    cases hmem
  | cons first rest =>
    obtain ⟨hhead, hrest⟩ := hfirst first rest hchosen
    rw [hrest hmode] at hchosen
    have hall (action' : ProtectionAction) (haction' : action' ∈ step.actions request) :
        action'.candidate = first := by
      have hmem' := h.mem_chosen haction'
      rw [hchosen] at hmem'
      exact mem_singleton.1 hmem'
    rw [hall action haction]
    exact ⟨hall, hsub first (hchosen ▸ mem_singleton_self _), asGood_head hhead⟩

theorem breaches_uncounted {limits : CostLimits} {planned : Nat}
    (h : isWithin limits planned candidate = true) :
    limits.uncounted.breaches candidate.cost candidate.scope.covers.length 0 = [] := by
  unfold isWithin at h
  rw [List.isEmpty_iff] at h
  unfold CostLimits.breaches at h ⊢
  rw [List.append_eq_nil_iff] at h
  rw [List.append_eq_nil_iff]
  exact ⟨h.1, rfl⟩

theorem exists_mem_zip {α β : Type} {items : List α} {others : List β}
    (hlength : items.length = others.length) {other : β} (h : other ∈ others) :
    ∃ item, (item, other) ∈ items.zip others := by
  obtain ⟨index, hindex, rfl⟩ := getElem_of_mem h
  exact ⟨items[index], mem_iff_getElem.2 ⟨index, by simp [hlength, hindex], getElem_zip⟩⟩

/-- An analysis whose steps are all plain chooses well. -/
theorem choosesWell_of_plainSteps (hown : ∀ step ∈ steps request, PlansOwn request step)
    (h : PlainSteps request) : ChoosesWell request := by
  have hrun := run_analyse request
  refine ⟨fun limit hlimit => ?_, fun action haction => ?_, fun hmode row hrow hactions => ?_,
    fun candidate hcandidate => ?_, fun step hstep action haction hfirst => ?_,
    fun step hstep action haction => (h.plain step hstep).optional (hown step hstep) haction⟩
  · refine @Run.kept request (fun gathered => gathered.actions.length ≤ limit) _ _ _ hrun
      (fun step hstep hbefore => ?_) (Nat.zero_le _)
    rw [actions_after, length_append, length_actions]
    by_cases hchosen : step.chosen request = []
    · rw [← length_actions, actions_of_chosen_nil hchosen]
      exact hbefore
    · exact (h.plain step hstep).room limit hlimit hchosen
  · refine @Run.kept request (fun gathered => ∀ action ∈ gathered.actions,
      request.policy.limits.uncounted.breaches action.candidate.cost
        action.candidate.scope.covers.length 0 = []) _ _ _ hrun
      (fun step hstep hbefore action haction => ?_) (fun _ h => absurd h not_mem_nil) action
      haction
    rw [actions_after] at haction
    rcases mem_append.1 haction with hold | hnew
    · exact hbefore action hold
    · have hchosen := (hown step hstep).mem_chosen hnew
      exact breaches_uncounted (usable_spec (step.chosen_spec.2.1 _ hchosen)).1
  · have hne : request.policy.mode ≠ .maximize := by
      rcases hmode with hmode | hmode <;> simp [hmode]
    obtain ⟨draft, origin⟩ := row
    have hdescribes := (forall₂_iff_zip.1 (drafts_of_origins request)).2 hrow
    obtain ⟨entry, hentry, hmem⟩ := mem_flatMap.1 (of_mem_zip hrow).2
    obtain ⟨_, _, _, hanalyses, -⟩ := analyses_of_mem_origins hentry
    have hsteps (step : CoverStep) (hstep : step ∈ entry.2.filterMap Origin.step) :
        step ∈ steps request := mem_flatMap.2 ⟨entry, hentry, hstep⟩
    simp only [hdescribes.actions, hdescribes.objective] at hactions ⊢
    cases origin with
    | unasked mutation => exact absurd rfl hactions
    | asked step =>
      have hstep := hsteps step (mem_filterMap.2 ⟨_, hmem, rfl⟩)
      obtain ⟨action, haction⟩ := exists_mem_of_ne_nil _ hactions
      obtain ⟨hall, husable, hbest⟩ := (hown step hstep).best hne haction
      exact ⟨action.candidate, hall, (usable_spec husable).2, fun action' haction' =>
        ⟨step, hstep, fun own howns => (some.inj howns).symm, haction', husable, hbest⟩⟩
    | captured mutation boundary actions =>
      obtain ⟨first, hfirst⟩ := exists_mem_of_ne_nil _ hactions
      have hplanned (action : ProtectionAction) (haction : action ∈ actions) :
          ∃ step ∈ entry.2.filterMap Origin.step, action ∈ step.actions request ∧
            first.candidate ∈ step.usable request ∧ ∀ other ∈ step.usable request,
              AsGood step.boundaries step.mutation.objective first.candidate other := by
        obtain ⟨step, hstep, hplanned⟩ :=
          hanalyses.captured mutation boundary actions hmem action haction
        obtain ⟨-, husable, hbest⟩ := (hown step (hsteps step hstep)).best hne hplanned
        rw [h.captured hne entry hentry mutation boundary actions hmem first hfirst action haction]
        exact ⟨step, hstep, hplanned, husable, hbest⟩
      refine ⟨first.candidate, fun action haction => h.captured hne entry hentry mutation boundary
        actions hmem action haction first hfirst, ?_, fun action haction => ?_⟩
      · obtain ⟨step, hstep, -, husable, -⟩ := hplanned first hfirst
        have hsatisfies := (usable_spec husable).2
        obtain ⟨origin, horigin', hsome⟩ := mem_filterMap.1 hstep
        have hsame := (hanalyses.same _ hmem).2
        have hsame' := (hanalyses.same _ horigin').2
        cases origin with
        | unasked mutation => cases hsome
        | captured mutation boundary actions => cases hsome
        | asked step' =>
          obtain rfl := some.inj hsome
          rw [hsame]
          rwa [show step'.mutation.objective = entry.1.objective from hsame'] at hsatisfies
      · obtain ⟨step, hstep, hbest⟩ := hplanned action haction
        exact ⟨step, hsteps step hstep, fun own howns => absurd howns (not_mem_none own), hbest⟩
  · refine @Run.kept request (fun gathered => ∀ candidate ∈ gathered.available,
      (∃ action ∈ gathered.actions, action.candidate = candidate) ∨
        gathered.HasRejected candidate) _ _ _ hrun
      (fun step hstep hbefore candidate hcandidate => ?_) (fun _ h => absurd h not_mem_nil)
      candidate hcandidate
    obtain ⟨-, hoffers, hrejected, havailable⟩ := @found_spec request step
    rw [actions_after]
    rcases havailable candidate hcandidate with hold | hoffer
    · refine (hbefore candidate hold).imp ?_ ?_
      · rintro ⟨action, haction, heq⟩
        exact ⟨action, mem_append_left _ haction, heq⟩
      · rintro ⟨rejection, hrejection, heq⟩
        exact ⟨rejection, hrejected hrejection, heq⟩
    · refine (hoffers candidate hoffer).imp_left fun ⟨hchosen, hplan⟩ => ?_
      obtain ⟨action, haction, heq⟩ := (hown step hstep).exists_action hchosen hplan
      exact ⟨action, mem_append_right _ haction, heq⟩
  · by_contra hnot
    obtain ⟨-, htail⟩ := (h.plain step hstep).optional (hown step hstep) haction
      (Bool.eq_false_iff.2 hnot)
    have hnodup := (@chosen_spec request step).1
    cases hchosen : step.chosen request with
    | nil =>
      rw [hchosen] at hfirst
      cases hfirst
    | cons first rest =>
      rw [hchosen] at hfirst htail hnodup
      obtain rfl := some.inj hfirst
      rw [map_cons, nodup_cons] at hnodup
      exact hnodup.1 (mem_map_of_mem htail)

theorem Run.length_le {start final : Gathered} {run : List CoverStep}
    (h : Run request start run final) :
    ∀ step ∈ run, (step.after request).actions.length ≤ final.actions.length := by
  induction h with
  | nil => exact fun _ h => absurd h not_mem_nil
  | @cons step run final hrun ih =>
    intro other hother
    rcases mem_cons.1 hother with rfl | hother
    · have heq := hrun.actions_eq fun step _ => actions_gathered_cover step.before
      rw [heq, length_append]
      exact Nat.le_add_right _ _
    · exact ih other hother

/-- In an analysis that chooses well the first offer a step takes is planned as it should be. -/
theorem ChoosesWell.required_of (h : ChoosesWell request) (hstep : step ∈ steps request)
    (hown : PlansOwn request step) (hfirst : (step.chosen request).head? = some first)
    (hplan : planOf request first = some planned) :
    (∀ action ∈ planned, action.required = true) ∧
      (request.policy.mode = .maximize → planned.length ≤ 1) := by
  cases hchosen : step.chosen request with
  | nil =>
    rw [hchosen] at hfirst
    cases hfirst
  | cons candidate rest =>
    have hfirst' := hfirst
    rw [hchosen] at hfirst'
    obtain rfl := some.inj hfirst'
    have hin : candidate ∈ step.chosen request := hchosen ▸ mem_cons_self
    obtain ⟨hnonempty, hcandidates⟩ := hown candidate hin planned hplan
    have hsole : request.policy.mode = .maximize → planned.length ≤ 1 := by
      intro hmode
      rcases planned with _ | ⟨action, _ | ⟨other, others⟩⟩
      · exact Nat.zero_le 1
      · exact Nat.le_refl 1
      · have hactions := (@found_spec request step).1
        obtain ⟨taken, heq⟩ := withExtras_maximize action other others
        obtain ⟨taken', heq', -⟩ := @foldl_withExtras_append .maximize
          (rest.map fun candidate => (planOf request candidate).getD [])
          (withExtras .maximize [] (action :: other :: others))
        have hmem : { other with required := false } ∈ step.actions request := by
          rw [hactions, plans, hchosen, map_cons, foldl_cons, hplan,
            getD_some, hmode, heq', heq]
          simp
        have hsame := hcandidates other (mem_cons_of_mem _ mem_cons_self)
        have hrequired := h.required step hstep _ hmem (by rw [hfirst, ← hsame])
        cases hrequired
    refine ⟨fun action haction => ?_, hsole⟩
    obtain ⟨taken, heq, -⟩ := hown.actions_eq hchosen (by rwa [hplan])
    refine h.required step hstep action ?_ ?_
    · rw [heq, hplan]
      exact mem_append_left _ haction
    · rw [hfirst, hcandidates action haction]

/-- **An analysis whose offers become actions of their own chooses well exactly when its steps are
plain.** -/
theorem choosesWell_iff (hown : ∀ step ∈ steps request, PlansOwn request step) :
    ChoosesWell request ↔ PlainSteps request := by
  refine ⟨fun h => ⟨fun step hstep => ⟨fun first planned hfirst hplan =>
    h.required_of hstep (hown step hstep) hfirst hplan, fun limit hlimit _ => ?_⟩, ?_⟩,
    choosesWell_of_plainSteps hown⟩
  · rw [← length_actions, ← length_append, ← actions_after]
    exact ((run_analyse request).length_le step hstep).trans (h.counted limit hlimit)
  · intro hmode entry hentry mutation boundary actions hmem action haction action' haction'
    obtain ⟨_, _, _, hanalyses, -⟩ := analyses_of_mem_origins hentry
    obtain ⟨draft, hrow⟩ := exists_mem_zip (drafts_of_origins request).length_eq
      (mem_flatMap.2 ⟨entry, hentry, hmem⟩)
    have hactions : draft.actions = actions :=
      ((forall₂_iff_zip.1 (drafts_of_origins request)).2 hrow).actions
    obtain ⟨step, hstep, hplanned⟩ :=
      hanalyses.captured mutation boundary actions hmem action haction
    have hcreates : request.policy.mode = .prefer ∨ request.policy.mode = .require := by
      cases hmode' : request.policy.mode with
      | prefer => exact inl rfl
      | require => exact inr rfl
      | maximize => exact absurd hmode' hmode
      | off =>
        have hchosen : step.chosen request = [] := by
          unfold chosen chosenOffers
          rw [hmode']
          rfl
        rw [actions_of_chosen_nil hchosen] at hplanned
        cases hplanned
    have hsome : draft.actions ≠ [] := hactions ▸ ne_nil_of_mem haction
    obtain ⟨candidate, hall, -⟩ := h.best hcreates _ hrow hsome
    simp only [hactions] at hall
    exact (hall action haction).trans (hall action' haction').symm

end Proof

/-! ### One snapshot of two datasets -/

/-- The offer to take a dataset and its child in one operation. -/
def datasetsOffer : RecoveryCandidate where
  provider := "zfs"
  scope := ⟨"tank/srv", "zfs-dataset", ["tank/srv", "tank/srv/logs"], "host"⟩
  domain := .filesystemPersistent
  objective := .preserveExact
  consistency := .filesystemConsistent
  restoreMethod := .selectiveFileRestore
  cost := ⟨none, none, false, none, none, none, false, false, none⟩
  exclusions := []
  creationRequirements := []
  restoreRequirements := []
  notProtecting := []
  detail := ""

/-- The action that takes one of the datasets. -/
def datasetAction (dataset : String) : ProtectionAction where
  provider := "zfs"
  summary := "zfs snapshot " ++ dataset
  candidate := datasetsOffer
  proposedAsset := { soleAsset dataset with provider := "zfs", assetType := .zfsSnapshot }
  required := true

/-- The offer is planned as one action for each of its datasets. -/
def datasetsProvider : RecoveryProvider where
  id := "zfs"
  availability := .available "2.2"
  resolveDomain _ := .ok none
  discover _ _ := .ok [datasetsOffer]
  planProtection _ _ := .ok [datasetAction "tank/srv", datasetAction "tank/srv/logs"]

/-- A file on the dataset is to be written, and a plan may take at most `limit` snapshots. -/
def datasetsRequest (limit : Nat) : CoverageRequest where
  registry := ⟨[datasetsProvider], nodup_singleton _⟩
  policy := ⟨.prefer, { CostLimits.unbounded with maxSnapshotCount := some limit }, []⟩
  mutations := [.new .filesystemPersistent .modify "/srv/app.conf" "the file is rewritten"]
  persistence := [.resolved "/srv/app.conf" ⟨"0:40", "/srv", "zfs", "tank/srv", "/", [], none⟩
    "zfs-dataset" "tank/srv" ""]
  mounts := none

theorem not_choosesWell_datasets : ¬ ∀ request, ChoosesWell request := by
  intro h
  have hcounted := (h (datasetsRequest 1)).counted 1 rfl
  have htwo : (analyse (datasetsRequest 1)).gathered.actions.length = 2 := by decide +kernel
  omega

theorem choosesWell_datasets : ChoosesWell (datasetsRequest 2) := by
  have hsteps : steps (datasetsRequest 2) =
      [⟨.new .filesystemPersistent .modify "/srv/app.conf" "the file is rewritten",
        some (.resolved "/srv/app.conf" ⟨"0:40", "/srv", "zfs", "tank/srv", "/", [], none⟩
          "zfs-dataset" "tank/srv" ""), [], .empty⟩] := by decide +kernel
  have hcaptured : ∀ entry ∈ origins (datasetsRequest 2), ∀ origin ∈ entry.2,
      origin.step ≠ none := by decide +kernel
  have hchosen : ∀ step ∈ steps (datasetsRequest 2),
      step.chosen (datasetsRequest 2) = [datasetsOffer] ∧ step.before.actions = [] := by
    rw [hsteps]
    decide +kernel
  have hplan : planOf (datasetsRequest 2) datasetsOffer =
      some [datasetAction "tank/srv", datasetAction "tank/srv/logs"] := by decide +kernel
  refine (choosesWell_iff fun step hstep candidate hcandidate planned hplanned => ?_).2
    ⟨fun step hstep => ⟨fun first planned hfirst hplanned => ?_, fun limit hlimit _ => ?_⟩,
      fun _ entry hentry mutation boundary actions hmem =>
        absurd rfl (hcaptured entry hentry _ hmem)⟩
  · rw [(hchosen step hstep).1] at hcandidate
    obtain rfl := mem_singleton.1 hcandidate
    obtain rfl := some.inj (hplan.symm.trans hplanned)
    exact ⟨cons_ne_nil _ _, by decide +kernel⟩
  · rw [(hchosen step hstep).1] at hfirst
    obtain rfl := some.inj hfirst
    obtain rfl := some.inj (hplan.symm.trans hplanned)
    exact ⟨by decide +kernel, fun hmode => nomatch hmode⟩
  · obtain rfl := some.inj hlimit
    rw [plans, (hchosen step hstep).1, (hchosen step hstep).2, map_singleton, hplan]
    exact Nat.le_refl 2

end OnoSendai.Protection
