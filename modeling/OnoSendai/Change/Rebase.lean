import OnoSendai.Change.Builder

/-!
# Rebasing with the preconditions frozen again

A rebase keeps each action of a sealed plan as it was sealed. A rebase that freezes the
preconditions again rebuilds the plan from a fresh draft instead: every action is rebuilt against
what it is resolved against now, every other field is carried across, and the draft is revised as
often as the plan was.

A plan that came out of a builder consists of rebuilt actions, and its identity derives from its
intent, so where nothing is frozen again the two agree.
-/

namespace OnoSendai

open Except List ChangePlan

/-! ### Rebasing -/

/-- What one action of the next revision is resolved against: the object it now names, and the
preconditions frozen against it. -/
structure Refrozen where
  target : String
  preconditions : List Precondition

/-- A plan that does not carry the identity it derives. -/
def ErrorValue.planIdentityAstray (plan : PlanId) : ErrorValue where
  code := .changePlanStoreCorrupt
  message := "plan " ++ plan.short ++ " does not carry the identity its intent, session and " ++
    "creation instant derive"

section Rebase

variable (sha256 : Sha256) (render : Renderings)

/-- An action of the next revision, against what it is resolved against now. Where nothing was
frozen again it keeps what it had. -/
def refrozenAction (plan : PlanId) (refreeze : PlanAction → Option Refrozen)
    (action : PlanAction) : PlanAction :=
  match refreeze action with
  | some refrozen =>
    rebuilt sha256 plan action.ordinal action [] refrozen.preconditions (some refrozen.target) none
  | none => rebuilt sha256 plan action.ordinal action [] action.preconditions action.target none

/-- Adds actions to a draft, each as `next` makes it. -/
def ChangePlan.addActions (next : PlanAction → PlanAction) :
    List PlanAction → ChangePlan → Except ErrorValue ChangePlan
  | [], draft => .ok draft
  | action :: rest, draft => do
    let draft ← draft.withAction (next action)
    addActions next rest draft

/-- The fields of `plan` that a revision keeps, laid over a draft. -/
def ChangePlan.carry (plan draft : ChangePlan) : ChangePlan :=
  let draft := draft.withImpact plan.impact
    |>.withProtection plan.protection
    |>.withProtectionMode plan.protectionMode
    |>.withRisk plan.risk
    |>.withStrategy plan.strategy
    |>.withVerification plan.verification
  let draft := plan.providers.foldl binding draft
  match plan.expiresAt with
  | some instant => draft.expiringAt instant
  | none => draft

/-- The next revision of a sealed plan over `targets`, with the preconditions of every action that
`refreeze` answers for frozen again. -/
def rebaseWith (plan : ChangePlan) (targets : List FrozenTarget)
    (refreeze : PlanAction → Option Refrozen) (now : Int) : Except ErrorValue ChangePlan :=
  if !plan.state.isSealed then
    .error (.planNotSealed plan.id plan.state)
  else if targets.isEmpty then
    rebase sha256 render plan targets now
  else
    let draft := draft sha256 render plan.intent plan.session plan.createdAt
    if draft.id ≠ plan.id then
      .error (.planIdentityAstray plan.id)
    else do
      let draft := if plan.kind = .recovery then draft.asRecovery else draft
      let draft ← draft.addActions (refrozenAction sha256 plan.id refreeze) plan.actions
      -- Revised up to the plan's own revision and one past it.
      let revised := revise^[plan.revision] (plan.carry draft)
      let resolved ← revised.resolve targets
      resolved.seal' sha256 render now

/-! ### What a builder produces -/

/-- The builders that the operations reach. -/
inductive PlanBuilder.Assembled : PlanBuilder → Prop
  | forIntent (redaction : Execution → Execution) (intent : Intent) (session : String)
      (now : Int) : Assembled (.forIntent sha256 render redaction intent session now)
  | asRecovery {builder : PlanBuilder} (h : Assembled builder) : Assembled builder.asRecovery
  | redacting {builder : PlanBuilder} (h : Assembled builder) (redaction : Execution → Execution) :
      Assembled (builder.redacting redaction)
  | contributing {builder next : PlanBuilder} (h : Assembled builder) (fragment : PlanFragment)
      (hnext : builder.contributing sha256 fragment = .ok next) : Assembled next
  | acting {builder : PlanBuilder} (h : Assembled builder) (action : PlanAction) :
      Assembled (builder.acting sha256 action)
  | verifying {builder : PlanBuilder} (h : Assembled builder) (contract : VerificationContract) :
      Assembled (builder.verifying contract)
  | resolve {builder next : PlanBuilder} (h : Assembled builder) (targets : List FrozenTarget)
      (hnext : builder.resolve targets = .ok next) : Assembled next
  | withImpact {builder : PlanBuilder} (h : Assembled builder) (impact : ImpactGraph) :
      Assembled (builder.withImpact impact)
  | withProtection {builder : PlanBuilder} (h : Assembled builder)
      (protection : ProtectionSummary) : Assembled (builder.withProtection protection)
  | withProtectionMode {builder : PlanBuilder} (h : Assembled builder) (mode : ProtectionMode) :
      Assembled (builder.withProtectionMode mode)
  | withRisk {builder : PlanBuilder} (h : Assembled builder) (risk : RiskAssessment) :
      Assembled (builder.withRisk risk)
  | withStrategy {builder : PlanBuilder} (h : Assembled builder) (strategy : Strategy) :
      Assembled (builder.withStrategy strategy)
  | expiringAt {builder : PlanBuilder} (h : Assembled builder) (instant : Int) :
      Assembled (builder.expiringAt instant)

/-- Whether an operation adds an action that a caller built. -/
def Operation.addsAction : Operation → Bool
  | .withAction _ => true
  | _ => false

/-- The plans that builders produce: what they sealed, and what rebasing and the operations that add
no action make of it. -/
inductive FromBuilder : ChangePlan → Prop
  | sealed' {builder : PlanBuilder} {plan : ChangePlan} {now : Int}
      (h : builder.Assembled sha256 render) (hplan : builder.seal' sha256 render now = .ok plan) :
      FromBuilder plan
  | perObject {builder : PlanBuilder} {plan : ChangePlan} {plans : List ChangePlan} {now : Int}
      (h : builder.Assembled sha256 render)
      (hplans : builder.sealPerObject sha256 render now = .ok plans) (hmem : plan ∈ plans) :
      FromBuilder plan
  | perform {plan next : ChangePlan} {operation : Operation} (h : FromBuilder plan)
      (hadds : operation.addsAction = false)
      (hnext : plan.perform sha256 render operation = .ok next) : FromBuilder next
  | rebaseWith {plan next : ChangePlan} {targets : List FrozenTarget}
      {refreeze : PlanAction → Option Refrozen} {now : Int} (h : FromBuilder plan)
      (hnext : rebaseWith sha256 render plan targets refreeze now = .ok next) : FromBuilder next

end Rebase

/-! ### Rebuilding an action once more -/

section Rebuilt

variable {sha256 : Sha256} {plan : PlanId} {action : PlanAction}

theorem ProposedEffect.moved_moved (effect : ProposedEffect) (id : ActionId) :
    (effect.moved sha256 id).moved sha256 id = effect.moved sha256 id := by
  by_cases hkind : effect.kind = .emit <;> simp [ProposedEffect.moved, hkind]

/-- **Rebuilding an action once more changes nothing.** -/
theorem rebuilt_rebuilt (ordinal : Nat) (remap : List (ActionId × ActionId))
    (preconditions : List Precondition) (target : Option String) (execution : Option Execution) :
    rebuilt sha256 plan ordinal
        (rebuilt sha256 plan ordinal action remap preconditions target execution) []
        preconditions target none =
      rebuilt sha256 plan ordinal action remap preconditions target execution := by
  simp [rebuilt, PlanAction.new, Function.comp_def, ProposedEffect.moved_moved]

/-- An action that is what rebuilding it against a plan makes of it. -/
def PlanAction.Rebuilt (sha256 : Sha256) (plan : PlanId) (action : PlanAction) : Prop :=
  rebuilt sha256 plan action.ordinal action [] action.preconditions action.target none = action

theorem rebuilt_isRebuilt (ordinal : Nat) (remap : List (ActionId × ActionId))
    (preconditions : List Precondition) (target : Option String) (execution : Option Execution) :
    (rebuilt sha256 plan ordinal action remap preconditions target execution).Rebuilt sha256 plan :=
  rebuilt_rebuilt ordinal remap preconditions target execution

theorem refrozenAction_isRebuilt (refreeze : PlanAction → Option Refrozen) :
    (refrozenAction sha256 plan refreeze action).Rebuilt sha256 plan := by
  unfold refrozenAction
  split <;> exact rebuilt_isRebuilt ..

theorem PlanAction.Rebuilt.withStatus (h : action.Rebuilt sha256 plan) (status : ActionStatus) :
    (action.withStatus status).Rebuilt sha256 plan :=
  congrArg (PlanAction.withStatus · status) h

theorem PlanAction.Rebuilt.settledBy (h : action.Rebuilt sha256 plan)
    (statuses : List (ActionId × ActionStatus)) :
    (action.settledBy statuses).Rebuilt sha256 plan := by
  obtain ⟨status, hstatus⟩ := action.settledBy_eq_withStatus statuses
  rw [hstatus]
  exact h.withStatus status

end Rebuilt

/-! ### What a builder's plans have in common -/

section Rebasable

variable {sha256 : Sha256} {render : Renderings}

/-- What a plan has that its next revision can be built from: an identity that its intent derives,
actions that are rebuilt against it, providers bound once, and a revision that counts from one. -/
structure Rebasable (sha256 : Sha256) (render : Renderings) (plan : ChangePlan) : Prop where
  id_eq : plan.id = PlanId.of sha256 plan.session (render.timestamp plan.createdAt) plan.intent.text
  rebuilt : ∀ action ∈ plan.actions, action.Rebuilt sha256 plan.id
  providers_nodup : plan.providers.Nodup
  revision_pos : 1 ≤ plan.revision
  revision_le : plan.revision ≤ revisionMax

variable {plan next : ChangePlan} {builder : PlanBuilder}

theorem Rebasable.congr (h : Rebasable sha256 render plan) (hid : next.id = plan.id)
    (hsession : next.session = plan.session) (hcreated : next.createdAt = plan.createdAt)
    (hintent : next.intent = plan.intent) (hactions : next.actions = plan.actions)
    (hproviders : next.providers = plan.providers) (hrevision : next.revision = plan.revision) :
    Rebasable sha256 render next where
  id_eq := by rw [hid, hsession, hcreated, hintent]; exact h.id_eq
  rebuilt := by rw [hid, hactions]; exact h.rebuilt
  providers_nodup := by rw [hproviders]; exact h.providers_nodup
  revision_pos := by rw [hrevision]; exact h.revision_pos
  revision_le := by rw [hrevision]; exact h.revision_le

theorem rebasable_draft (intent : Intent) (session : String) (createdAt : Int) :
    Rebasable sha256 render (draft sha256 render intent session createdAt) where
  id_eq := rfl
  rebuilt := by simp [draft]
  providers_nodup := nodup_nil
  revision_pos := Nat.le_refl 1
  revision_le := show 1 ≤ revisionMax by decide

variable {actions : List PlanAction}

theorem Rebasable.withActions (h : Rebasable sha256 render plan)
    (hrebuilt : ∀ action ∈ actions, action.Rebuilt sha256 plan.id) :
    Rebasable sha256 render { plan with actions } where
  id_eq := h.id_eq
  rebuilt := hrebuilt
  providers_nodup := h.providers_nodup
  revision_pos := h.revision_pos
  revision_le := h.revision_le

theorem Rebasable.binding (h : Rebasable sha256 render plan) (binding : ProviderBinding) :
    Rebasable sha256 render (plan.binding binding) := by
  unfold ChangePlan.binding
  split_ifs with hbound
  · exact h
  · refine ⟨h.id_eq, h.rebuilt, ?_, h.revision_pos, h.revision_le⟩
    exact h.providers_nodup.append (nodup_singleton _) (by simpa using hbound)

theorem Rebasable.foldl_binding (h : Rebasable sha256 render plan)
    (bindings : List ProviderBinding) :
    Rebasable sha256 render (bindings.foldl ChangePlan.binding plan) := by
  induction bindings generalizing plan with
  | nil => exact h
  | cons binding rest ih => exact ih (h.binding binding)

theorem Rebasable.sealed' {instant : Int} (h : Rebasable sha256 render plan)
    (hnext : plan.seal' sha256 render instant = .ok next) : Rebasable sha256 render next := by
  unfold seal' at hnext
  cases horder : topologicalOrder plan.actions with
  | error cycle =>
    rw [horder] at hnext
    split_ifs at hnext
  | ok order =>
    rw [horder] at hnext
    split_ifs at hnext
    obtain rfl := ok.inj hnext
    exact h.congr rfl rfl rfl rfl rfl rfl rfl

theorem Rebasable.revise (h : Rebasable sha256 render plan) :
    Rebasable sha256 render plan.revise where
  id_eq := h.id_eq
  rebuilt := by
    intro action haction
    obtain ⟨before, hbefore, rfl⟩ := mem_map.1 haction
    exact (h.rebuilt before hbefore).withStatus _
  providers_nodup := h.providers_nodup
  revision_pos := Nat.le_min.2 ⟨Nat.le_add_left 1 _, by decide⟩
  revision_le := Nat.min_le_right _ _

theorem Rebasable.iterate_revise (h : Rebasable sha256 render plan) (times : Nat) :
    Rebasable sha256 render (ChangePlan.revise^[times] plan) := by
  induction times with
  | zero => exact h
  | succ times ih =>
    rw [Function.iterate_succ_apply']
    exact ih.revise

variable {targets : List FrozenTarget}

theorem Rebasable.resolve (h : Rebasable sha256 render plan)
    (hnext : plan.resolve targets = .ok next) : Rebasable sha256 render next := by
  unfold ChangePlan.resolve at hnext
  split_ifs at hnext
  obtain rfl := Except.ok.inj hnext
  exact h.congr rfl rfl rfl rfl rfl rfl rfl

theorem resolve_eq (targets : List FrozenTarget) (hplan : plan.state.isSealed = false) :
    plan.resolve targets =
      .ok { plan with targets, state := (plan.state.after .resolve).getD .resolved } := by
  simp [resolve, hplan]

/-- **Every operation that adds no action** keeps what the next revision is built from. -/
theorem Rebasable.perform {operation : Operation} (h : Rebasable sha256 render plan)
    (hadds : operation.addsAction = false)
    (hnext : plan.perform sha256 render operation = .ok next) : Rebasable sha256 render next := by
  cases operation with
  | withAction action => cases hadds
  | resolve targets => exact h.resolve hnext
  | sealAt instant => exact h.sealed' hnext
  | advance event =>
    simp only [ChangePlan.perform, ChangePlan.advance] at hnext
    split at hnext
    · obtain rfl := Except.ok.inj hnext
      exact h.congr rfl rfl rfl rfl rfl rfl rfl
    · cases hnext
  | binding binding =>
    obtain rfl := ok.inj hnext
    exact h.binding binding
  | revise =>
    obtain rfl := ok.inj hnext
    exact h.revise
  | settled statuses =>
    obtain rfl := ok.inj hnext
    refine h.withActions fun action haction => ?_
    obtain ⟨before, hbefore, rfl⟩ := mem_map.1 haction
    exact (h.rebuilt before hbefore).settledBy statuses
  | _ =>
    obtain rfl := ok.inj hnext
    exact h.congr rfl rfl rfl rfl rfl rfl rfl

/-! ### Adding actions -/

theorem addActions_eq (next : PlanAction → PlanAction) (actions : List PlanAction)
    {draft : ChangePlan} (hdraft : draft.state.isSealed = false) :
    draft.addActions next actions =
      .ok { draft with actions := draft.actions ++ actions.map next } := by
  induction actions generalizing draft with
  | nil => simp [addActions]
  | cons action rest ih =>
    have hadded : draft.withAction (next action) =
        .ok { draft with actions := draft.actions ++ [next action] } := by
      simp [withAction, hdraft]
    have hrest := @ih { draft with actions := draft.actions ++ [next action] } hdraft
    simp only [addActions, hadded, bind, Except.bind, hrest]
    simp

theorem PlanBuilder.addActions_eq (id : PlanId) (actions : List PlanAction) (draft : ChangePlan) :
    builder.addActions sha256 id actions draft =
      draft.addActions (fun action =>
        rebind sha256 id action.ordinal action [] [] (some (builder.redaction action.execution)))
        actions := by
  induction actions generalizing draft with
  | nil => rfl
  | cons action rest ih =>
    simp only [PlanBuilder.addActions, ChangePlan.addActions, bind, Except.bind]
    split <;> simp [ih]

/-! ### What builders seal -/

theorem PlanBuilder.contributeActions_eq (version : String) (contributed : List PlanAction)
    (extra : List Precondition) (remap : List (ActionId × ActionId)) (builder : PlanBuilder) :
    ∃ actions providers, builder.contributeActions sha256 version contributed extra remap =
      { builder with actions, providers } := by
  induction contributed generalizing extra remap builder with
  | nil => exact ⟨_, _, rfl⟩
  | cons action rest ih =>
    obtain ⟨actions, providers, heq⟩ := ih []
      ((action.id, (rebind sha256 builder.id (builder.actions.length + 1) action remap extra
        none).id) :: remap)
      (builder.withRebound version
        (rebind sha256 builder.id (builder.actions.length + 1) action remap extra none))
    exact ⟨actions, providers, heq⟩

/-- The identity of a builder derives from its intent. -/
theorem PlanBuilder.Assembled.id_eq (h : builder.Assembled sha256 render) :
    builder.id = PlanId.of sha256 builder.session (render.timestamp builder.createdAt)
      builder.intent.text := by
  induction h with
  | forIntent redaction intent session now => rfl
  | contributing _ fragment hnext ih =>
    unfold PlanBuilder.contributing at hnext
    split_ifs at hnext
    · obtain rfl := Except.ok.inj hnext
      exact ih
    · obtain rfl := ok.inj hnext
      obtain ⟨actions, providers, heq⟩ := PlanBuilder.contributeActions_eq 
        (fragment.providerVersion.getD unknownVersion) fragment.actions fragment.preconditions []
        _
      rw [heq]
      exact ih
  | resolve _ targets hnext ih =>
    unfold PlanBuilder.resolve at hnext
    split_ifs at hnext
    obtain rfl := Except.ok.inj hnext
    exact ih
  | _ => assumption

/-- Bindings joined to others, each once. -/
def bindAll (providers bindings : List ProviderBinding) : List ProviderBinding :=
  bindings.foldl (fun providers binding =>
    if binding ∈ providers then providers else providers ++ [binding]) providers

theorem foldl_binding_eq (bindings : List ProviderBinding) (draft : ChangePlan) :
    bindings.foldl binding draft =
      { draft with providers := bindAll draft.providers bindings } := by
  induction bindings generalizing draft with
  | nil => rfl
  | cons binding rest ih =>
    rw [List.foldl_cons, ih, ChangePlan.binding]
    split_ifs with hbound <;> simp [bindAll, hbound]

theorem bindAll_of_nodup {providers bindings : List ProviderBinding}
    (h : (providers ++ bindings).Nodup) : bindAll providers bindings = providers ++ bindings := by
  induction bindings generalizing providers with
  | nil => simp [bindAll]
  | cons binding rest ih =>
    have hnew : binding ∉ providers := fun hmem =>
      (nodup_append.1 h).2.2 binding hmem binding mem_cons_self rfl
    have hrest := @ih (providers ++ [binding]) (by simpa using h)
    simpa [bindAll, hnew] using hrest

/-- The fields of a revision are laid over a draft. -/
theorem carry_eq (plan draft : ChangePlan) :
    plan.carry draft =
      { draft with
        impact := plan.impact
        protection := plan.protection
        protectionMode := plan.protectionMode
        risk := plan.risk
        strategy := plan.strategy
        verification := plan.verification
        providers := bindAll draft.providers plan.providers
        expiresAt := plan.expiresAt.or draft.expiresAt } := by
  simp only [carry, foldl_binding_eq, withImpact, withProtection,
    withProtectionMode, withRisk, withStrategy,
    withVerification, expiringAt]
  cases plan.expiresAt <;> simp

theorem Rebasable.carry {draft : ChangePlan} (h : Rebasable sha256 render draft)
    (plan : ChangePlan) : Rebasable sha256 render (plan.carry draft) := by
  have hbound := h.foldl_binding plan.providers
  rw [foldl_binding_eq] at hbound
  rw [carry_eq]
  exact hbound.congr rfl rfl rfl rfl rfl rfl rfl

/-- What a builder lays over a draft, as a plan. -/
def PlanBuilder.fields (builder : PlanBuilder) (sha256 : Sha256) (id : PlanId)
    (contracts : List VerificationContract) (draft : ChangePlan) : ChangePlan :=
  { draft with
    impact := builder.impact
    protection := builder.protection
    protectionMode := builder.protectionMode
    risk := builder.risk
    strategy := builder.strategy
    verification := { contracts := contracts.map (rebindContract sha256 id) }
    providers := builder.providers
    expiresAt := builder.expiresAt }

/-- The draft of a builder before its targets are frozen. -/
def PlanBuilder.opened (builder : PlanBuilder) (sha256 : Sha256) (render : Renderings)
    (intent : Intent) : ChangePlan :=
  let draft := draft sha256 render intent builder.session builder.createdAt
  if builder.kind = .recovery then draft.asRecovery else draft

theorem PlanBuilder.assemble_eq (id : PlanId) (intent : Intent) (targets : List FrozenTarget)
    (actions : List PlanAction) (contracts : List VerificationContract) (now : Int) :
    builder.assemble sha256 render id intent targets actions contracts now = (do
      let plan ← (builder.opened sha256 render intent).resolve targets
      let plan ← builder.addActions sha256 id actions plan
      ((builder.fields sha256 id contracts plan).carry plan).seal' sha256 render now) :=
  rfl

theorem PlanBuilder.opened_eq (intent : Intent) :
    ∃ kind, builder.opened sha256 render intent =
      { draft sha256 render intent builder.session builder.createdAt with kind } := by
  unfold PlanBuilder.opened
  split_ifs
  · exact ⟨_, rfl⟩
  · exact ⟨_, rfl⟩

/-- A plan assembled under the identity that its intent derives can be rebased. -/
theorem rebasable_assemble {id : PlanId} {intent : Intent} {contracts : List VerificationContract}
    {now : Int}
    (hid : id = PlanId.of sha256 builder.session (render.timestamp builder.createdAt) intent.text)
    (h : builder.assemble sha256 render id intent targets actions contracts now = .ok plan) :
    Rebasable sha256 render plan := by
  obtain ⟨kind, hopened⟩ := @PlanBuilder.opened_eq sha256 render builder intent
  rw [PlanBuilder.assemble_eq, hopened, resolve_eq targets rfl] at h
  simp only [bind, Except.bind, PlanBuilder.addActions_eq] at h
  rw [addActions_eq _ _ rfl] at h
  refine Rebasable.sealed' (Rebasable.carry ?_ _) h
  have hdraft := @rebasable_draft sha256 render intent builder.session builder.createdAt
  refine ⟨hdraft.id_eq, fun action haction => ?_, hdraft.providers_nodup, hdraft.revision_pos,
    hdraft.revision_le⟩
  obtain ⟨before, -, rfl⟩ := mem_map.1 (mem_append.1 haction |>.resolve_left (by
    simp [draft]))
  subst hid
  exact rebuilt_isRebuilt ..

/-! ### Rebasing what a builder produced -/

/-- What a draft becomes by opening revisions. -/
theorem iterate_revise_eq (draft : ChangePlan) (hrevision : draft.revision ≤ revisionMax)
    (times : Nat) :
    revise^[times + 1] draft =
      { draft with
        revision := min (draft.revision + times + 1) revisionMax
        supersedes := some (min (draft.revision + times) revisionMax)
        state := .draft
        sealedAt := none
        digest := none
        actions := draft.actions.map (·.withStatus .pending) } := by
  induction times with
  | zero => simp [revise, Nat.min_eq_left hrevision]
  | succ times ih =>
    rw [Function.iterate_succ_apply', ih]
    simp only [revise, List.map_map, mk.injEq, true_and]
    refine ⟨?_, ?_, ?_⟩
    · omega
    · rfl
    · simp only [Nat.add_assoc]

/-- The draft that a rebase of `plan` revises: its actions are what `refreeze` makes of them. -/
def redraft (sha256 : Sha256) (render : Renderings) (plan : ChangePlan)
    (refreeze : PlanAction → Option Refrozen) : ChangePlan :=
  { draft sha256 render plan.intent plan.session plan.createdAt with
    kind := plan.kind
    actions := plan.actions.map (refrozenAction sha256 plan.id refreeze) }

variable {refreeze : PlanAction → Option Refrozen}

/-- A sealed plan is rebased over targets through its draft, where it carries its identity. -/
theorem rebaseWith_eq {now : Int} (hsealed : plan.state.isSealed = true)
    (htargets : targets.isEmpty = false)
    (hid : plan.id =
      PlanId.of sha256 plan.session (render.timestamp plan.createdAt) plan.intent.text) :
    rebaseWith sha256 render plan targets refreeze now = (do
      let resolved ← (revise^[plan.revision]
        (plan.carry (redraft sha256 render plan refreeze))).resolve targets
      resolved.seal' sha256 render now) := by
  have hopened : ∀ draft : ChangePlan, draft.kind = .change →
      (if plan.kind = .recovery then draft.asRecovery else draft) =
        { draft with kind := plan.kind } := by
    intro draft hkind
    cases hrecovery : plan.kind with
    | recovery => rfl
    | change => rw [if_neg PlanKind.noConfusion, ← hkind]
  have hdraft : (draft sha256 render plan.intent plan.session plan.createdAt).id =
      plan.id := hid.symm
  unfold rebaseWith
  simp only [hsealed, htargets, Bool.not_true, Bool.false_eq_true, if_false, hdraft, ne_eq,
    not_true_eq_false]
  rw [hopened _ rfl, addActions_eq _ _ rfl]
  rfl

/-- A rebase that freezes preconditions again keeps what the next revision is built from. -/
theorem Rebasable.rebaseWith {now : Int} (h : Rebasable sha256 render plan)
    (hnext : rebaseWith sha256 render plan targets refreeze now = .ok next) :
    Rebasable sha256 render next := by
  cases hsealed : plan.state.isSealed with
  | false => simp [OnoSendai.rebaseWith, hsealed] at hnext
  | true =>
    cases htargets : targets.isEmpty with
    | true => simp [OnoSendai.rebaseWith, rebase, hsealed, htargets] at hnext
    | false =>
      rw [rebaseWith_eq hsealed htargets h.id_eq] at hnext
      have hdraft := @rebasable_draft sha256 render plan.intent plan.session plan.createdAt
      have hredraft : Rebasable sha256 render (redraft sha256 render plan refreeze) := by
        refine ⟨hdraft.id_eq, fun action haction => ?_, hdraft.providers_nodup,
          hdraft.revision_pos, hdraft.revision_le⟩
        obtain ⟨before, -, rfl⟩ := mem_map.1 haction
        have hid : (redraft sha256 render plan refreeze).id = plan.id := h.id_eq.symm
        rw [hid]
        exact refrozenAction_isRebuilt refreeze
      have hrevised := (hredraft.carry plan).iterate_revise plan.revision
      simp only [bind, Except.bind] at hnext
      split at hnext
      · cases hnext
      · exact (hrevised.resolve ‹_›).sealed' hnext

/-- What a list of calls that succeeded returned, some call returned. -/
theorem mem_of_mapM_ok {α β : Type} {f : α → Except ErrorValue β} {items : List α}
    {results : List β} {result : β} (h : items.mapM f = .ok results) (hmem : result ∈ results) :
    ∃ item ∈ items, f item = .ok result := by
  induction items generalizing results with
  | nil =>
    obtain rfl := ok.inj h
    cases hmem
  | cons item rest ih =>
    rw [mapM_cons] at h
    cases hitem : f item with
    | error failure => simp [hitem, bind, Except.bind] at h
    | ok first =>
      cases hrest : rest.mapM f with
      | error failure => simp [hitem, hrest, bind, Except.bind] at h
      | ok others =>
        simp only [hitem, hrest, bind, Except.bind, pure, Except.pure, Except.ok.injEq] at h
        subst h
        rcases List.mem_cons.1 hmem with rfl | hothers
        · exact ⟨item, List.mem_cons_self, hitem⟩
        · obtain ⟨found, hfound, hresult⟩ := ih hrest hothers
          exact ⟨found, mem_cons_of_mem _ hfound, hresult⟩

theorem FromBuilder.rebasable (h : FromBuilder sha256 render plan) :
    Rebasable sha256 render plan := by
  induction h with
  | sealed' hbuilder hplan =>
    unfold PlanBuilder.seal' at hplan
    split_ifs at hplan
    exact rebasable_assemble hbuilder.id_eq hplan
  | perObject hbuilder hplans hmem =>
    unfold PlanBuilder.sealPerObject at hplans
    split_ifs at hplans
    obtain ⟨target, -, hplan⟩ := mem_of_mapM_ok hplans hmem
    exact rebasable_assemble rfl hplan
  | perform _ hadds hnext ih => exact ih.perform hadds hnext
  | rebaseWith _ hnext ih => exact ih.rebaseWith hnext

/-- **Where nothing is frozen again, the next revision is the rebased plan.** -/
theorem rebaseWith_none (h : FromBuilder sha256 render plan) (targets : List FrozenTarget)
    (now : Int) :
    rebaseWith sha256 render plan targets (fun _ => none) now =
      rebase sha256 render plan targets now := by
  have hplan := h.rebasable
  cases hsealed : plan.state.isSealed with
  | false => simp [rebaseWith, rebase, hsealed]
  | true =>
    cases htargets : targets.isEmpty with
    | true => simp [rebaseWith, hsealed, htargets]
    | false =>
      -- The plan counts from one, so its draft is revised at least once.
      obtain ⟨times, htimes⟩ := Nat.exists_eq_add_of_le' hplan.revision_pos
      have hactions : plan.actions.map (refrozenAction sha256 plan.id fun _ => none) =
          plan.actions :=
        (map_congr_left hplan.rebuilt).trans (map_id _)
      have hredraft : plan.carry (redraft sha256 render plan fun _ => none) =
          { plan with
            revision := 1
            state := .draft
            sealedAt := none
            targets := []
            digest := none
            supersedes := none } := by
        rw [carry_eq, redraft, hactions]
        simp only [draft, ← hplan.id_eq, Option.or_none,
          bindAll_of_nodup (show ([] ++ plan.providers).Nodup from hplan.providers_nodup),
          nil_append]
      have hrevised : revise^[plan.revision]
          (plan.carry (redraft sha256 render plan fun _ => none)) =
          { plan.revise with targets := [] } := by
        have hle := hplan.revision_le
        rw [hredraft, htimes, iterate_revise_eq _ (show 1 ≤ revisionMax by decide) times]
        simp only [revise, mk.injEq, true_and]
        exact ⟨by omega, congrArg some (by omega)⟩
      rw [rebaseWith_eq hsealed htargets hplan.id_eq, hrevised, resolve_eq _ rfl, rebase,
        resolve_eq _ rfl]
      simp [hsealed, htargets]

/-- A sealed plan that restarts one service, rebased onto the same target. -/
theorem rebaseWith_none_restart :
    ∃ (sha256 : Sha256) (render : Renderings) (plan : ChangePlan) (targets : List FrozenTarget),
      (FromBuilder sha256 render plan ∧ plan.state = .sealed ∧ targets ≠ []) ∧
        rebaseWith sha256 render plan targets (fun _ => none) 2 =
          rebase sha256 render plan targets 2 := by
  let sha256 : Sha256 := fun _ => Vector.replicate 32 0
  let render : Renderings :=
    { float := fun _ => "", path := fun _ => "", ip := fun _ => "", timestamp := fun _ => "",
      debug := fun _ => "", duration := fun _ => "" }
  let target : FrozenTarget :=
    ⟨"ono.service/1", "systemd:nginx.service", "nginx.service", none, none, none, none⟩
  let opened := PlanBuilder.forIntent sha256 render id ⟨"restart nginx", "restart nginx"⟩ "s" 1
  let restart := PlanAction.new sha256 opened.id 1 .mutate "restart nginx.service"
    (.providerAction "ono.provider.systemd" "ono.service.restart" [])
  let contract := VerificationContract.new sha256 opened.id .required "nginx.service" "active"
  let builder := { (opened.acting sha256 restart).verifying contract with targets := [target] }
  have hassembled : builder.Assembled sha256 render :=
    .resolve (.verifying (.acting (.forIntent id _ _ _) restart) contract) [target] rfl
  have hsealed : (builder.seal' sha256 render 1).toOption.any (·.state = .sealed) = true := by
    decide +kernel
  cases hplan : builder.seal' sha256 render 1 with
  | error refusal =>
    rw [hplan] at hsealed
    cases hsealed
  | ok plan =>
    have hfrom : FromBuilder sha256 render plan := .sealed' hassembled hplan
    refine ⟨sha256, render, plan, [target], ⟨hfrom, ?_, by simp⟩, rebaseWith_none hfrom [target] 2⟩
    rw [hplan] at hsealed
    exact of_decide_eq_true hsealed

end Rebasable

end OnoSendai
