import OnoSendai.Change.Order
import OnoSendai.Change.Plan

/-!
# What the seal of a plan guarantees

A sealed plan carries the digest of what it says, its action graph is acyclic, and it names
something to check afterwards when it mutates. `seal'` establishes all of this. This module asks
which sequences of the public operations keep it: the setters of the fields the digest covers do
not look at the plan's state, the lifecycle function draws an edge into the sealed state that
computes no digest, and the revision counter saturates.
-/

namespace OnoSendai

open ChangePlan VerificationSet Except

/-- A public operation of a plan. -/
inductive Operation
  | asRecovery
  | resolve (targets : List FrozenTarget)
  | withAction (action : PlanAction)
  | withImpact (impact : ImpactGraph)
  | withProtection (protection : ProtectionSummary)
  | withProtectionMode (mode : ProtectionMode)
  | withRisk (risk : RiskAssessment)
  | withStrategy (strategy : Strategy)
  | withVerification (verification : VerificationSet)
  | binding (binding : ProviderBinding)
  | expiringAt (instant : Int)
  | sealAt (instant : Int)
  | revise
  | advance (event : LifecycleEvent)
  | settled (statuses : List (ActionId × ActionStatus))

section Seal

variable (sha256 : Sha256) (render : Renderings)

/-- Performs a public operation on a plan. -/
def ChangePlan.perform (plan : ChangePlan) : Operation → Except ErrorValue ChangePlan
  | .asRecovery => .ok plan.asRecovery
  | .resolve targets => plan.resolve targets
  | .withAction action => plan.withAction action
  | .withImpact impact => .ok (plan.withImpact impact)
  | .withProtection protection => .ok (plan.withProtection protection)
  | .withProtectionMode mode => .ok (plan.withProtectionMode mode)
  | .withRisk risk => .ok (plan.withRisk risk)
  | .withStrategy strategy => .ok (plan.withStrategy strategy)
  | .withVerification verification => .ok (plan.withVerification verification)
  | .binding binding => .ok (plan.binding binding)
  | .expiringAt instant => .ok (plan.expiringAt instant)
  | .sealAt instant => plan.seal' sha256 render instant
  | .revise => .ok plan.revise
  | .advance event => plan.advance event
  | .settled statuses => .ok (plan.settled statuses)

/-- The plans reached from a draft by operations that satisfy `allowed` in the state they meet. -/
inductive Reached (allowed : ChangePlan → Operation → Prop) : ChangePlan → Prop
  | draft (intent : Intent) (session : String) (createdAt : Int) :
      Reached allowed (draft sha256 render intent session createdAt)
  | step {plan next : ChangePlan} {operation : Operation} (before : Reached allowed plan)
      (admitted : allowed plan operation)
      (performed : plan.perform sha256 render operation = .ok next) : Reached allowed next

/-- What a sealed plan is meant to satisfy: it carries the digest of what it says, its action
graph is acyclic, and it states a contract when it mutates. -/
structure SealIntact (plan : ChangePlan) : Prop where
  carries_digest : plan.digest.isSome = true
  digest_holds : plan.digestHolds sha256 render = true
  acyclic : Acyclic plan.actions
  verified : plan.mutates = true → plan.verification.isEmpty = false

/-- The operations that cannot break the seal in the state they meet: on a sealed plan a setter
leaves the text its field contributes to the digest as it was, the lifecycle function is not used
to seal, and the revision has not reached its largest value. -/
def KeepsSeal (plan : ChangePlan) : Operation → Prop
  | .asRecovery => plan.state.isSealed = true → plan.kind = .recovery
  | .withProtection protection =>
    plan.state.isSealed = true → protection.digestText = plan.protection.digestText
  | .withProtectionMode mode => plan.state.isSealed = true → mode = plan.protectionMode
  | .withRisk risk => plan.state.isSealed = true → risk.digestText = plan.risk.digestText
  | .withStrategy strategy =>
    plan.state.isSealed = true → strategy.digestText = plan.strategy.digestText
  | .withVerification verification =>
    plan.state.isSealed = true → verification.digestText = plan.verification.digestText
  | .binding binding => plan.state.isSealed = true → binding ∈ plan.providers
  | .advance event => event = .seal → plan.state.isSealed = true
  | .revise => plan.revision < revisionMax
  | _ => True

variable {sha256 render} {plan next : ChangePlan}

/-! ### The seal depends only on what the digest covers -/

/-- A plan with the digest, the digest sections, the dependency edges and the mutating actions of
another has its seal intact when the other one has, provided it still states a contract. -/
theorem SealIntact.congr (h : SealIntact sha256 render plan)
    (hdigest : next.digest = plan.digest)
    (hsections : next.digestSections render = plan.digestSections render)
    (hedges : dependencyEdges next.actions = dependencyEdges plan.actions)
    (hmutates : next.mutates = plan.mutates)
    (hempty : next.verification.isEmpty = plan.verification.isEmpty) :
    SealIntact sha256 render next where
  carries_digest := by rw [hdigest]; exact h.carries_digest
  digest_holds := by
    have hcompute : next.computeDigest sha256 render = plan.computeDigest sha256 render := by
      rw [computeDigest, canonicalText, hsections]
      rfl
    rw [digestHolds, hdigest, hcompute]
    exact h.digest_holds
  acyclic := by
    unfold Acyclic
    rw [hedges]
    exact h.acyclic
  verified := by
    rw [hmutates, hempty]
    exact h.verified

theorem dependencyEdges_map (f : PlanAction → PlanAction) (hid : ∀ action, (f action).id = action.id)
    (hdepends : ∀ action, (f action).dependsOn = action.dependsOn) (actions : List PlanAction) :
    dependencyEdges (actions.map f) = dependencyEdges actions := by
  unfold dependencyEdges
  rw [List.zipIdx_map, List.flatMap_map]
  refine List.flatMap_congr fun entry _ => ?_
  simp only [Prod.map, hdepends, id_eq, List.findIdx?_map, Function.comp_def, hid]

theorem VerificationSet.digestText_eq_empty_iff (set : VerificationSet) :
    set.digestText = "" ↔ set.isEmpty = true := by
  rcases set with ⟨contracts⟩
  cases contracts with
  | nil => simp [digestText, unitTerminated, isEmpty]
  | cons contract contracts =>
    simp only [digestText, unitTerminated, isEmpty, List.map_cons,
      List.isEmpty_cons, Bool.false_eq_true, iff_false]
    intro h
    have hlist := congrArg String.toList h
    simp [String.join_cons] at hlist

/-! ### One operation -/

/-- A plan whose seal holds whenever it is sealed. -/
def SealedIntact (sha256 : Sha256) (render : Renderings) (plan : ChangePlan) : Prop :=
  plan.state.isSealed = true → SealIntact sha256 render plan

private theorem sealedIntact_of_unsealed (h : next.state.isSealed = false) :
    SealedIntact sha256 render next := by
  intro hsealed
  rw [h] at hsealed
  cases hsealed

/-- A setter that keeps the state, the digest and the actions keeps the invariant when, on a
sealed plan, it leaves the digest sections and the presence of contracts as they were. -/
private theorem SealedIntact.setter (h : SealedIntact sha256 render plan)
    (hstate : next.state = plan.state) (hdigest : next.digest = plan.digest)
    (hactions : next.actions = plan.actions)
    (hsections : plan.state.isSealed = true →
      next.digestSections render = plan.digestSections render ∧
        next.verification.isEmpty = plan.verification.isEmpty) :
    SealedIntact sha256 render next := by
  intro hsealed
  rw [hstate] at hsealed
  obtain ⟨hsame, hempty⟩ := hsections hsealed
  refine (h hsealed).congr hdigest hsame (by rw [hactions]) ?_ hempty
  rw [mutates, hactions]
  rfl

/-- Sealing establishes everything the seal stands for. -/
theorem sealIntact_seal {instant : Int} (h : plan.seal' sha256 render instant = .ok next) :
    SealIntact sha256 render next := by
  unfold seal' at h
  cases horder : topologicalOrder plan.actions with
  | error cycle =>
    rw [horder] at h
    split_ifs at h
  | ok order =>
    rw [horder] at h
    split_ifs at h with hsealed hcontracts
    obtain rfl := ok.inj h
    refine ⟨rfl, by simp [digestHolds, computeDigest,
      canonicalText, digestSections], acyclic_of_topologicalOrder horder,
      fun hmutates => ?_⟩
    change plan.mutates = true at hmutates
    simpa [hmutates] using hcontracts

/-- **One operation keeps the seal.** -/
theorem SealedIntact.perform {operation : Operation} (h : SealedIntact sha256 render plan)
    (hkeeps : KeepsSeal plan operation)
    (hnext : plan.perform sha256 render operation = .ok next) :
    SealedIntact sha256 render next := by
  cases operation with
  | asRecovery =>
    obtain rfl := ok.inj hnext
    refine h.setter rfl rfl rfl fun hsealed => ⟨?_, rfl⟩
    simp [digestSections, asRecovery, hkeeps hsealed]
  | resolve targets =>
    simp only [ChangePlan.perform, ChangePlan.resolve] at hnext
    split_ifs at hnext with hsealed
    obtain rfl := Except.ok.inj hnext
    exact sealedIntact_of_unsealed (PlanState.isSealed_after_resolve (by simpa using hsealed))
  | withAction action =>
    simp only [ChangePlan.perform, ChangePlan.withAction] at hnext
    split_ifs at hnext with hsealed
    obtain rfl := Except.ok.inj hnext
    exact sealedIntact_of_unsealed (by simpa using hsealed)
  | withImpact impact =>
    obtain rfl := ok.inj hnext
    exact h.setter rfl rfl rfl fun _ => ⟨rfl, rfl⟩
  | withProtection protection =>
    obtain rfl := ok.inj hnext
    refine h.setter rfl rfl rfl fun hsealed => ⟨?_, rfl⟩
    simp [digestSections, withProtection, hkeeps hsealed]
  | withProtectionMode mode =>
    obtain rfl := ok.inj hnext
    refine h.setter rfl rfl rfl fun hsealed => ⟨?_, rfl⟩
    simp [digestSections, withProtectionMode, hkeeps hsealed]
  | withRisk risk =>
    obtain rfl := ok.inj hnext
    refine h.setter rfl rfl rfl fun hsealed => ⟨?_, rfl⟩
    simp [digestSections, withRisk, hkeeps hsealed]
  | withStrategy strategy =>
    obtain rfl := ok.inj hnext
    refine h.setter rfl rfl rfl fun hsealed => ⟨?_, rfl⟩
    simp [digestSections, withStrategy, hkeeps hsealed]
  | withVerification verification =>
    obtain rfl := ok.inj hnext
    refine h.setter rfl rfl rfl fun hsealed => ?_
    have hsame := hkeeps hsealed
    refine ⟨by simp [digestSections, withVerification, hsame], ?_⟩
    rw [Bool.eq_iff_iff, ← digestText_eq_empty_iff,
      ← digestText_eq_empty_iff]
    exact hsame ▸ Iff.rfl
  | binding binding =>
    obtain rfl := Except.ok.inj hnext
    unfold ChangePlan.binding
    split_ifs with hbound
    · exact h
    · exact sealedIntact_of_unsealed
        (Bool.eq_false_iff.2 fun hsealed => hbound (hkeeps hsealed))
  | expiringAt instant =>
    obtain rfl := ok.inj hnext
    exact h.setter rfl rfl rfl fun _ => ⟨rfl, rfl⟩
  | sealAt instant => exact fun _ => sealIntact_seal hnext
  | revise =>
    obtain rfl := ok.inj hnext
    exact sealedIntact_of_unsealed rfl
  | advance event =>
    simp only [ChangePlan.perform, ChangePlan.advance] at hnext
    split at hnext
    · rename_i state hstate
      obtain rfl := ok.inj hnext
      intro hsealed
      have hwas : plan.state.isSealed = true := by
        by_cases hseal : event = .seal
        · exact hkeeps hseal
        · rw [← PlanState.isSealed_after hstate hseal]
          exact hsealed
      exact (h hwas).congr rfl rfl rfl rfl rfl
    · cases hnext
  | settled statuses =>
    obtain rfl := ok.inj hnext
    intro hsealed
    refine (h hsealed).congr rfl ?_ (dependencyEdges_map _ ?_ ?_ _) ?_ rfl
    · simp [digestSections, settled, Function.comp_def]
    · exact fun action => action.settledBy_id statuses
    · exact fun action => action.settledBy_dependsOn statuses
    · simp [mutates, settled, List.any_map, Function.comp_def]

/-! ### Every run -/

theorem sealedIntact_of_reached (h : Reached sha256 render KeepsSeal plan) :
    SealedIntact sha256 render plan := by
  induction h with
  | draft intent session createdAt => exact sealedIntact_of_unsealed rfl
  | step _ hkeeps hnext ih => exact ih.perform hkeeps hnext

/-- **The seal survives every run of operations that keep it.** In every run from a draft whose
operations all keep the seal in the state they meet, every sealed plan reached carries a digest
that holds, an acyclic action graph and, if it mutates, a contract; and opening a new revision
strictly increases the revision. -/
theorem sealIntact_of_reached (h : Reached sha256 render KeepsSeal plan) :
    (plan.state.isSealed = true → SealIntact sha256 render plan) ∧
      (KeepsSeal plan .revise → plan.revision < plan.revise.revision) := by
  refine ⟨sealedIntact_of_reached h, fun hrevise => ?_⟩
  have hlt : plan.revision < revisionMax := hrevise
  simp only [revise]
  omega

end Seal

/-! ### A setter on a sealed plan -/

section SetterOnSealed

variable (sha256 : Sha256) (render : Renderings)

/-- A draft with one mutating action and one contract. -/
def restartDraft : ChangePlan :=
  let draft := draft sha256 render
    { text := "restart service nginx", source := "plan { restart service nginx }" } "session-1" 0
  let action := PlanAction.new sha256 draft.id 1 .mutate "restart service nginx"
    (.providerAction "ono.provider.systemd" "ono.service.restart" [])
  let contract := VerificationContract.new sha256 draft.id .required "nginx.service"
    "state == running"
  { draft with actions := [action], verification := { contracts := [contract] } }

/-- The draft, sealed. -/
def restartSealed : ChangePlan :=
  let draft := restartDraft sha256 render
  let sealedPlan := { draft with sealedAt := some 1, state := .sealed }
  { sealedPlan with digest := some (sealedPlan.computeDigest sha256 render) }

/-- Operations on an unsealed plan other than a revision or a lifecycle step reach the sealed
plan. -/
theorem reached_restartSealed (allowed : ChangePlan → Operation → Prop)
    (hallowed : ∀ plan operation, plan.state.isSealed = false →
      (∀ event, operation ≠ .advance event) → operation ≠ .revise → allowed plan operation) :
    Reached sha256 render allowed (restartSealed sha256 render) := by
  have hdraft : Reached sha256 render allowed (restartDraft sha256 render) :=
    .step (.step (.draft _ _ _)
        (hallowed _ (.withAction ((restartDraft sha256 render).actions.head
          (by simp [restartDraft]))) rfl (by simp) (by simp)) rfl)
      (hallowed _ (.withVerification (restartDraft sha256 render).verification) rfl (by simp)
        (by simp)) rfl
  exact .step hdraft (hallowed _ (.sealAt 1) rfl (by simp) (by simp)) rfl

end SetterOnSealed

theorem sealIntact_restartSealed :
    (∀ sha256 render, Reached sha256 render KeepsSeal (restartSealed sha256 render)) ∧
      ∀ sha256 render, SealIntact sha256 render (restartSealed sha256 render) ∧
        (restartSealed sha256 render).revision < (restartSealed sha256 render).revise.revision := by
  have hreached : ∀ sha256 render,
      Reached sha256 render KeepsSeal (restartSealed sha256 render) := by
    intro sha256 render
    refine reached_restartSealed sha256 render KeepsSeal fun plan operation hunsealed hadvance hrevise => ?_
    cases operation with
    | advance event => exact absurd rfl (hadvance event)
    | revise => exact absurd rfl hrevise
    | _ => simp [KeepsSeal, hunsealed]
  refine ⟨hreached, fun sha256 render => ?_⟩
  obtain ⟨hintact, hrevise⟩ := sealIntact_of_reached (hreached sha256 render)
  have hfirst : (restartSealed sha256 render).revision < revisionMax :=
    show 1 < revisionMax by decide
  exact ⟨hintact rfl, hrevise hfirst⟩

/-- **A setter breaks the seal.** The contracts of a sealed plan that mutates can be taken away:
the plan is still sealed and names nothing to check afterwards, whatever the hash function is. -/
theorem withVerification_breaks_seal :
    (∀ sha256 render, Reached sha256 render (fun _ _ => True)
        ((restartSealed sha256 render).withVerification .empty)) ∧
      ∀ sha256 render,
        ((restartSealed sha256 render).withVerification .empty).state.isSealed = true ∧
          ¬ SealIntact sha256 render ((restartSealed sha256 render).withVerification .empty) := by
  refine ⟨fun sha256 render => ?_, fun sha256 render => ⟨rfl, fun h => ?_⟩⟩
  · have hsealed : Reached sha256 render (fun _ _ => True) (restartSealed sha256 render) :=
      reached_restartSealed sha256 render _ fun _ _ _ _ _ => trivial
    have hset : (restartSealed sha256 render).perform sha256 render (.withVerification .empty) =
        .ok ((restartSealed sha256 render).withVerification .empty) := rfl
    exact hsealed.step trivial hset
  · exact absurd (h.verified rfl) (by simp [withVerification, isEmpty, empty])

end OnoSendai
