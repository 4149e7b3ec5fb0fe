import OnoSendai.Executor.Apply
import OnoSendai.Executor.Schedule

/-!
# Nothing is executed past the gate

An apply reaches its mutation through one sequence of stages, each of which can refuse. The module
takes an apply apart along them: whatever the world answers, an apply that hands an action over
went through every stage, and one that returns without having handed anything over says so.
-/

namespace OnoSendai

open Interaction
open List hiding isEmpty_iff

/-! ### Programs before the mutation -/

/-- Whether a call belongs to the stages before the first mutation: it neither touches the claim
nor records an action nor hands one over. -/
def Call.isPreparatory : Call → Bool
  | claim .. | renew .. | release .. | recordActionStatus .. | execute _ => false
  | _ => true

/-- A program that makes preparatory calls only, whatever it is answered. -/
abbrev Preparatory {α : Type} (program : Program world α) : Prop :=
  Program.Within (S := world) (fun call : Call => call.isPreparatory = true) program

/-- Whether a call belongs to the checks and the preparation that an apply makes under the claim: a
preparatory call that observes nothing and does not write that the plan is being applied. -/
def Call.isAdmitting : Call → Bool
  | recordState _ _ state => decide (state = .preparing ∨ state = .prepareFailed)
  | observe _ | clock => false
  | call => call.isPreparatory

/-- Whether a call takes the claim of a plan, or gives it back. -/
def Call.isClaiming : Call → Bool
  | claim .. | release .. => true
  | _ => false

theorem isQuiet_of_isAdmitting {call : Call}
    (h : call.isAdmitting = true ∨ call.isClaiming = true) : call.isQuiet = true := by
  rcases h with h | h <;> cases call <;> first | rfl | cases h

/-- A program that makes admitting calls only, whatever it is answered. -/
abbrev Admitting {α : Type} (program : Program world α) : Prop :=
  Program.Within (S := world) (fun call : Call => call.isAdmitting = true) program

theorem Admitting.preparatory {α : Type} {program : Program world α} (h : Admitting program) :
    Preparatory program :=
  h.mono fun call hcall => by cases call <;> first | rfl | cases hcall

theorem Preparatory.quiet {α : Type} {program : Program world α} (h : Preparatory program) :
    Quiet program :=
  h.mono fun call hcall => by cases call <;> first | rfl | cases hcall

theorem executions_eq_nil_of_isPreparatory {events : List (Event world)}
    (h : ∀ event ∈ events, event.1.isPreparatory = true) : executions events = [] := by
  refine filterMap_eq_nil_iff.2 fun event hevent => execution_eq_none ?_
  have hcall := h event hevent
  revert hcall
  generalize event.1 = call
  cases call <;> simp [Call.isPreparatory, Call.isQuiet]

theorem executions_claimed {plan : PlanId} {session : String} {now : Int}
    {taken released : Except ErrorValue Unit} {events : List (Event world)} :
    executions ((⟨.claim plan session now, taken⟩ : Event world) ::
      (events ++ [⟨.release plan session, released⟩])) = executions events := by
  have hclaim : executions ((⟨.claim plan session now, taken⟩ : Event world) ::
      (events ++ [⟨.release plan session, released⟩])) =
        executions (events ++ [⟨.release plan session, released⟩]) := rfl
  rw [hclaim, executions_append]
  exact append_nil _

variable {report : PrepareReport} {action : ProtectionAction} {prior : Records}
  {durable : PlanState} {actions : List ProtectionAction} {recorded : Records} {plan : ChangePlan}
  {asset : RecoveryAsset} {state : PlanState} {began : Bool}

section Stages

variable {sha256 : Sha256} {request : ApplyRequest}

theorem admitting_ask {call : Call} (h : call.isAdmitting = true) : Admitting (ask call) :=
  ⟨h, fun _ => trivial⟩

theorem preparatory_writeState : Preparatory (writeState request state) :=
  ⟨rfl, fun _ => trivial⟩

theorem admitting_writeState (h : state = .preparing ∨ state = .prepareFailed) :
    Admitting (writeState request state) :=
  ⟨decide_eq_true h, fun _ => trivial⟩

variable {assets : List RecoveryAsset}

theorem admitting_persistAssets : Admitting (persistAssets sha256 request assets) := by
  induction assets with
  | nil => trivial
  | cons asset rest ih => exact (admitting_ask rfl).bind fun _ => ih

theorem preparatory_persistAssets : Preparatory (persistAssets sha256 request assets) :=
  admitting_persistAssets.preparatory

theorem admitting_durableEvidence : Admitting (durableEvidence plan) := by
  refine (admitting_ask rfl).bind fun answer => ?_
  cases answer with
  | error => trivial
  | ok stored =>
    refine (admitting_ask rfl).bind fun answer => ?_
    cases answer <;> trivial

theorem admitting_priorRecords : Admitting (priorRecords request recorded) := by
  unfold priorRecords
  split_ifs
  · refine Program.Within.bind ((admitting_ask rfl).bind fun answer => ?_) fun decision => ?_
    · cases answer <;> trivial
    · split <;> trivial
  · trivial

theorem admitting_revalidateActions {actions : List PlanAction} {drift : Drift} :
    Admitting (revalidateActions actions drift) := by
  induction actions generalizing drift with
  | nil => trivial
  | cons action rest ih =>
    refine (admitting_ask rfl).bind fun answer => ?_
    cases answer <;> exact ih

theorem admitting_revalidatePlan : Admitting (revalidatePlan plan prior) := by
  refine admitting_revalidateActions.bind fun drift => ?_
  split
  · trivial
  · split_ifs <;> trivial

theorem admitting_createAndValidate : Admitting (createAndValidate request action) := by
  unfold createAndValidate
  split_ifs
  · refine (admitting_ask rfl).bind fun answer => ?_
    cases answer with
    | error => trivial
    | ok asset =>
      refine (admitting_ask rfl).bind fun answer => ?_
      cases answer <;> trivial
  · trivial

theorem admitting_prepareAction {state : PrepareState} :
    Admitting (prepareAction request action state) := by
  unfold prepareAction
  dsimp only
  split_ifs
  · refine admitting_createAndValidate.bind fun answer => ?_
    cases answer <;> trivial
  · trivial

theorem admitting_prepareActions {state : PrepareState} :
    Admitting (prepareActions request actions state) := by
  induction actions generalizing state with
  | nil => trivial
  | cons action rest ih =>
    refine admitting_prepareAction.bind fun state => ?_
    split
    · trivial
    · exact ih

theorem admitting_retentionReason {quiesceHolds : Bool} {dependedOn : List RecoveryAssetId} :
    Admitting (retentionReason request asset quiesceHolds dependedOn) := by
  have hremoves : Admitting (providerRemoves request asset) := by
    unfold providerRemoves
    split_ifs
    · exact (admitting_ask rfl).bind fun _ => trivial
    · trivial
  unfold retentionReason
  split_ifs
  · trivial
  all_goals
    refine hremoves.bind fun removes => ?_
    split_ifs <;> trivial

theorem admitting_removeAsset : Admitting (removeAsset request asset) := by
  unfold removeAsset
  split_ifs
  · exact admitting_ask rfl
  · trivial

theorem admitting_removeAssets {quiesceHolds : Bool} {dependedOn : List RecoveryAssetId}
    {report : CleanupReport} :
    Admitting (removeAssets request quiesceHolds dependedOn assets report) := by
  induction assets generalizing report with
  | nil => trivial
  | cons asset rest ih =>
    refine admitting_retentionReason.bind fun reason => ?_
    cases reason with
    | some reason => exact ih
    | none =>
      refine admitting_removeAsset.bind fun answer => ?_
      cases answer <;> exact ih

theorem admitting_failPrepare {point : FailurePoint} {error : ErrorValue} :
    Admitting (failPrepare request report point error) := by
  refine Program.Within.bind ?_ fun _ => trivial
  unfold runCleanup
  split
  · exact admitting_removeAssets
  · trivial

theorem admitting_releaseQuiesce : Admitting (releaseQuiesce request) := by
  unfold releaseQuiesce
  split
  · trivial
  · refine (admitting_ask rfl).bind fun answer => ?_
    cases answer <;> trivial

theorem admitting_prepareQuiesced : Admitting (prepareQuiesced request) := by
  refine admitting_prepareActions.bind fun state => admitting_releaseQuiesce.bind ?_
  rintro ⟨quiesce, resumeFailure⟩
  dsimp only
  split
  · exact admitting_failPrepare
  · exact admitting_failPrepare
  · trivial

theorem admitting_prepare : Admitting (prepare request) := by
  unfold prepare
  split
  · exact admitting_prepareQuiesced
  · refine (admitting_ask rfl).bind fun answer => ?_
    cases answer with
    | error => trivial
    | ok => exact admitting_prepareQuiesced

theorem admitting_readAssets {ids : List RecoveryAssetId} : Admitting (readAssets ids) := by
  induction ids with
  | nil => trivial
  | cons id rest ih =>
    refine (admitting_ask rfl).bind fun answer => ih.bind fun stored => ?_
    cases answer <;> trivial

theorem admitting_checkAssets {stored assets : List RecoveryAsset} {missing : Nat} :
    Admitting (checkAssets request stored actions assets missing) := by
  induction actions generalizing assets missing with
  | nil => trivial
  | cons action rest ih =>
    unfold checkAssets
    split
    · exact ih
    · split_ifs
      · refine (admitting_ask rfl).bind fun answer => ?_
        cases answer with
        | error => exact ih
        | ok validation =>
          dsimp only
          split_ifs <;> exact ih
      · exact ih

theorem admitting_reestablishProtection : Admitting (reestablishProtection request) := by
  unfold reestablishProtection
  dsimp only
  split_ifs
  · trivial
  · refine (admitting_ask rfl).bind fun answer => ?_
    cases answer with
    | error => trivial
    | ok ids =>
      refine admitting_readAssets.bind fun stored => admitting_checkAssets.bind ?_
      rintro ⟨assets, missing⟩
      dsimp only
      split_ifs <;> trivial

theorem admitting_establishProtection :
    Admitting (establishProtection sha256 request began durable recorded) := by
  unfold establishProtection
  split_ifs
  · refine admitting_reestablishProtection.bind fun answer => ?_
    cases answer <;> trivial
  · trivial
  · refine (admitting_writeState (.inl rfl)).bind fun _ => admitting_prepare.bind ?_
    rintro ⟨report, prepared⟩
    cases prepared with
    | ok => trivial
    | error =>
      exact admitting_persistAssets.bind fun _ =>
        (admitting_writeState (.inr rfl)).bind fun _ => trivial

end Stages

/-! ### What the stages establish -/

variable {prepared : Prepared}

section Facts

variable {sha256 : Sha256} {request : ApplyRequest} {events : List (Event world)}

/-- What durable evidence was read from the store. -/
theorem returns_durableEvidence
    (h : Returns (durableEvidence plan) events (.ok (durable, recorded))) :
    ∃ stored : ChangePlan, stored.state = durable ∧
      events = [⟨.getRevision plan.id plan.revision, .ok stored⟩,
        ⟨.actionStatuses plan.id plan.revision, .ok recorded⟩] := by
  rw [durableEvidence, ask_bind] at h
  obtain ⟨answer, tail, rfl, htail⟩ := returns_call.1 h
  cases answer with
  | error refusal => cases (returns_ret.1 htail).2
  | ok stored =>
    dsimp only at htail
    rw [ask_bind] at htail
    obtain ⟨answer, tail, rfl, hlast⟩ := returns_call.1 htail
    cases answer with
    | error refusal => cases (returns_ret.1 hlast).2
    | ok records =>
      obtain ⟨rfl, hresult⟩ := returns_ret.1 hlast
      cases hresult
      exact ⟨stored, rfl, rfl⟩

theorem appliability_eq_none {now : Int} {resume : Bool}
    (h : appliability plan state now resume = none) :
    plan.isExpiredAt now = false ∧
      (state.isAppliable = true ∨ resume = true ∧ state.isInterrupted = true) := by
  unfold appliability at h
  split_ifs at h with hexpired hfresh happliable hresumable <;> simp_all

/-- The records a run starts from are none for a fresh apply, and for a resumed one those the store
holds, where reading them again permitted every action to continue. -/
theorem returns_priorRecords {recorded prior : Records}
    (h : Returns (priorRecords request recorded) events (.ok prior)) :
    (request.resume = false ∧ prior = [] ∧ events = []) ∨
      (request.resume = true ∧ prior = recorded ∧ ∃ records : Records,
        events = [⟨.actionStatuses request.plan.id request.plan.revision, .ok records⟩] ∧
        (resumeOutcome request.plan records []).refusal = none) := by
  unfold priorRecords at h
  split_ifs at h with hresume
  · right
    obtain ⟨first, decision, last, hfirst, hlast, rfl⟩ := returns_bind.1 h
    rw [resumeWith, ask_bind] at hfirst
    obtain ⟨answer, tail, rfl, htail⟩ := returns_call.1 hfirst
    cases answer with
    | error refusal =>
      obtain ⟨-, rfl⟩ := returns_ret.1 htail
      cases (returns_ret.1 hlast).2
    | ok records =>
      obtain ⟨rfl, rfl⟩ := returns_ret.1 htail
      cases hrefusal : (resumeOutcome request.plan records []).refusal with
      | some refusal =>
        rw [hrefusal] at hlast
        cases (returns_ret.1 hlast).2
      | none =>
        rw [hrefusal] at hlast
        obtain ⟨rfl, hprior⟩ := returns_ret.1 hlast
        cases hprior
        exact ⟨hresume, rfl, records, rfl, hrefusal⟩
  · obtain ⟨rfl, hprior⟩ := returns_ret.1 h
    cases hprior
    exact .inl ⟨by simpa using hresume, rfl, rfl⟩

/-- An action was rechecked, and nothing it found stops the apply. -/
def Revalidated (events : List (Event world)) (action : PlanAction) : Prop :=
  ∃ findings : List DriftFinding, (⟨.revalidate action, .ok findings⟩ : Event world) ∈ events ∧
    ∀ finding ∈ findings, finding.verdict.blocksApply = false

theorem Revalidated.mono {events' : List (Event world)} {action : PlanAction}
    (h : Revalidated events action) (hsub : events ⊆ events') : Revalidated events' action := by
  obtain ⟨findings, hmem, hpass⟩ := h
  exact ⟨findings, hsub hmem, hpass⟩

/-- Drift that blocks nothing at the end blocked nothing before, and every action passed. -/
theorem revalidated_of_blocking_eq_nil {actions : List PlanAction} {drift drift' : Drift}
    (h : Returns (revalidateActions actions drift) events drift') (hpass : drift'.blocking = []) :
    drift.blocking = [] ∧ ∀ action ∈ actions, Revalidated events action := by
  induction actions generalizing drift events with
  | nil =>
    obtain ⟨-, rfl⟩ := returns_ret.1 h
    exact ⟨hpass, by simp⟩
  | cons action rest ih =>
    rw [revalidateActions, ask_bind] at h
    obtain ⟨answer, tail, rfl, htail⟩ := returns_call.1 h
    cases answer with
    | error refusal =>
      obtain ⟨hblocking, -⟩ := ih htail
      simp [Drift.withRefusal] at hblocking
    | ok findings =>
      obtain ⟨hblocking, hrest⟩ := ih htail
      simp only [Drift.withFindings, append_eq_nil_iff, map_eq_nil_iff,
        filter_eq_nil_iff, Bool.not_eq_true] at hblocking
      refine ⟨hblocking.1, fun other hother => ?_⟩
      rcases mem_cons.1 hother with rfl | hother
      · exact ⟨findings, mem_cons_self, hblocking.2⟩
      · exact (hrest other hother).mono (by simp)

/-- A revalidation that refuses nothing rechecked every action that had not succeeded. -/
theorem returns_revalidatePlan (h : Returns (revalidatePlan plan prior) events none) :
    ∀ action ∈ plan.actions, prior.get action.id ≠ some .succeeded → Revalidated events action := by
  obtain ⟨first, drift, last, hfirst, hlast, rfl⟩ := returns_bind.1 h
  cases hvanished : drift.vanished with
  | some subject =>
    rw [hvanished] at hlast
    cases (returns_ret.1 hlast).2
  | none =>
    rw [hvanished] at hlast
    dsimp only at hlast
    split_ifs at hlast with hpass
    · obtain ⟨rfl, -⟩ := returns_ret.1 hlast
      obtain ⟨-, hrechecked⟩ := revalidated_of_blocking_eq_nil hfirst (by simpa using hpass)
      intro action haction hprior
      rw [append_nil]
      exact hrechecked action (mem_filter.2 ⟨haction, by simpa using hprior⟩)
    · cases (returns_ret.1 hlast).2

/-- The provider of a protection action validated an asset of its own as usable: one it created for
the action, or a stored one. -/
def ValidatedProtection (events : List (Event world)) (action : ProtectionAction) : Prop :=
  ∃ (asset : RecoveryAsset) (validation : RecoveryValidation),
    ((⟨.create action.provider action, .ok asset⟩ : Event world) ∈ events ∨
      asset.provider = action.provider ∧ ∃ id, (⟨.getAsset id, .ok asset⟩ : Event world) ∈ events) ∧
    (⟨.validate action.provider asset, .ok validation⟩ : Event world) ∈ events ∧
    (asset.validated validation).isUsable = true

theorem ValidatedProtection.mono {events' : List (Event world)}
    (h : ValidatedProtection events action) (hsub : events ⊆ events') :
    ValidatedProtection events' action := by
  obtain ⟨asset, validation, horigin, hvalidate, husable⟩ := h
  refine ⟨asset, validation, ?_, hsub hvalidate, husable⟩
  rcases horigin with hcreated | ⟨hprovider, id, hstored⟩
  · exact .inl (hsub hcreated)
  · exact .inr ⟨hprovider, id, hsub hstored⟩

/-- An asset that came out usable was created and then validated by its provider. -/
theorem returns_createAndValidate
    (h : Returns (createAndValidate request action) events (.ok asset))
    (husable : asset.isUsable = true) : ValidatedProtection events action := by
  unfold createAndValidate at h
  split_ifs at h
  · rw [ask_bind] at h
    obtain ⟨answer, tail, rfl, htail⟩ := returns_call.1 h
    cases answer with
    | error refusal => cases (returns_ret.1 htail).2
    | ok created =>
      dsimp only at htail
      rw [ask_bind] at htail
      obtain ⟨answer, tail, rfl, hlast⟩ := returns_call.1 htail
      cases answer with
      | error refusal =>
        obtain ⟨-, hresult⟩ := returns_ret.1 hlast
        cases hresult
        cases husable
      | ok validation =>
        obtain ⟨-, hresult⟩ := returns_ret.1 hlast
        cases hresult
        exact ⟨created, validation, .inl (by simp), by simp, husable⟩
  · cases (returns_ret.1 h).2

/-- A required protection action that did not fail preparation was validated. -/
theorem returns_prepareAction {state state' : PrepareState}
    (h : Returns (prepareAction request action state) events state')
    (hrequired : requiresProtection request.plan action = true) (hpass : state'.failure = none) :
    ValidatedProtection events action := by
  unfold prepareAction at h
  dsimp only at h
  split_ifs at h
  · obtain ⟨first, answer, last, hfirst, hlast, rfl⟩ := returns_bind.1 h
    cases answer with
    | error refusal =>
      obtain ⟨-, rfl⟩ := returns_ret.1 hlast
      simp [PrepareState.withRefusal, hrequired] at hpass
    | ok asset =>
      obtain ⟨rfl, rfl⟩ := returns_ret.1 hlast
      rw [append_nil]
      refine returns_createAndValidate hfirst ?_
      by_contra husable
      simp [PrepareState.withAsset, hrequired, husable] at hpass
  · obtain ⟨-, rfl⟩ := returns_ret.1 h
    simp [PrepareState.withRefusal, hrequired] at hpass

/-- Preparation that did not fail validated every required protection action. -/
theorem returns_prepareActions {state state' : PrepareState}
    (h : Returns (prepareActions request actions state) events state')
    (hpass : state'.failure = none) (haction : action ∈ actions)
    (hrequired : requiresProtection request.plan action = true) :
    ValidatedProtection events action := by
  induction actions generalizing state events with
  | nil => simp at haction
  | cons head rest ih =>
    obtain ⟨first, mid, last, hfirst, hlast, rfl⟩ := returns_bind.1 h
    cases hfailure : mid.failure with
    | some failure =>
      rw [hfailure] at hlast
      obtain ⟨-, rfl⟩ := returns_ret.1 hlast
      rw [hpass] at hfailure
      cases hfailure
    | none =>
      rw [hfailure] at hlast
      rcases mem_cons.1 haction with rfl | haction
      · exact (returns_prepareAction hfirst hrequired hfailure).mono (by simp)
      · exact (ih hlast haction).mono (by simp)

/-- A preparation that went through validated every required protection action. -/
theorem returns_prepare (h : Returns (prepare request) events (report, .ok prepared))
    (haction : action ∈ request.protection)
    (hrequired : requiresProtection request.plan action = true) :
    ValidatedProtection events action := by
  have hquiesced : ∀ {events}, Returns (prepareQuiesced request) events (report, .ok prepared) →
      ValidatedProtection events action := by
    intro events h
    obtain ⟨first, state, second, hfirst, hsecond, rfl⟩ := returns_bind.1 h
    obtain ⟨third, ⟨quiesce, resumeFailure⟩, last, -, hlast, rfl⟩ := returns_bind.1 hsecond
    have hfail : ∀ {events report' point error}, ¬ Returns (failPrepare request report' point error)
        events (report, .ok prepared) := by
      intro events report' point error hret
      obtain ⟨_, _, _, -, hret, -⟩ := returns_bind.1 hret
      cases (returns_ret.1 hret).2
    dsimp only at hlast
    split at hlast
    · exact absurd hlast hfail
    · exact absurd hlast hfail
    · next hnone =>
      have hpass : state.failure = none := (Option.or_eq_none_iff.1 hnone).1
      exact (returns_prepareActions hfirst hpass haction hrequired).mono (by simp)
  unfold prepare at h
  split at h
  · exact hquiesced h
  · rw [ask_bind] at h
    obtain ⟨answer, tail, rfl, htail⟩ := returns_call.1 h
    cases answer with
    | error failure => cases (returns_ret.1 htail).2
    | ok => exact (hquiesced htail).mono (by simp)

/-- Stored assets were read from the store. -/
theorem returns_readAssets {ids : List RecoveryAssetId} {stored : List RecoveryAsset}
    (h : Returns (readAssets ids) events stored) (hasset : asset ∈ stored) :
    ∃ id, (⟨.getAsset id, .ok asset⟩ : Event world) ∈ events := by
  induction ids generalizing events stored with
  | nil =>
    obtain ⟨-, rfl⟩ := returns_ret.1 h
    simp at hasset
  | cons id rest ih =>
    rw [readAssets, ask_bind] at h
    obtain ⟨answer, tail, rfl, htail⟩ := returns_call.1 h
    obtain ⟨first, read, last, hfirst, hlast, rfl⟩ := returns_bind.1 htail
    have hrest : asset ∈ read →
        ∃ id', (⟨.getAsset id', .ok asset⟩ : Event world) ∈
          (⟨.getAsset id, answer⟩ : Event world) :: (first ++ last) := by
      intro hread
      obtain ⟨id', hid⟩ := ih hfirst hread
      exact ⟨id', by simp [hid]⟩
    cases answer with
    | error refusal =>
      obtain ⟨-, rfl⟩ := returns_ret.1 hlast
      exact hrest hasset
    | ok head =>
      obtain ⟨-, rfl⟩ := returns_ret.1 hlast
      rcases mem_cons.1 hasset with rfl | hread
      · exact ⟨id, mem_cons_self⟩
      · exact hrest hread

/-- The number of missing assets never falls, and where none is missing every required action has
a stored asset that its provider validated. -/
theorem returns_checkAssets {stored assets : List RecoveryAsset} {missing : Nat}
    {checked : List RecoveryAsset × Nat}
    (h : Returns (checkAssets request stored actions assets missing) events checked) :
    missing ≤ checked.2 ∧ (checked.2 = 0 → ∀ action ∈ actions, ∃ asset ∈ stored, ∃ validation,
      asset.provider = action.provider ∧
      (⟨.validate action.provider asset, .ok validation⟩ : Event world) ∈ events ∧
      (asset.validated validation).isUsable = true) := by
  induction actions generalizing assets missing events with
  | nil =>
    obtain ⟨-, rfl⟩ := returns_ret.1 h
    exact ⟨le_rfl, by simp⟩
  | cons action rest ih =>
    have hmissing : ∀ {events}, Returns (checkAssets request stored rest assets (missing + 1))
        events checked → missing ≤ checked.2 ∧ checked.2 ≠ 0 := by
      intro events hret
      have := (ih hret).1
      omega
    unfold checkAssets at h
    split at h
    · exact ⟨(hmissing h).1, fun hzero => absurd hzero (hmissing h).2⟩
    · next asset hfound =>
      split_ifs at h
      · rw [ask_bind] at h
        obtain ⟨answer, tail, rfl, htail⟩ := returns_call.1 h
        cases answer with
        | error refusal =>
          exact ⟨(hmissing htail).1, fun hzero => absurd hzero (hmissing htail).2⟩
        | ok validation =>
          dsimp only at htail
          split_ifs at htail with husable
          · obtain ⟨hle, hrest⟩ := ih htail
            have hprovider : asset.provider = action.provider := by
              have := find?_some hfound
              simp only [Bool.and_eq_true, decide_eq_true_eq] at this
              exact this.1
            refine ⟨hle, fun hzero other hother => ?_⟩
            rcases mem_cons.1 hother with rfl | hother
            · exact ⟨asset, mem_of_find?_eq_some hfound, validation, hprovider,
                by rw [← hprovider]; exact mem_cons_self, husable⟩
            · obtain ⟨kept, hkept, validated, hkeptProvider, hvalidate, hkeptUsable⟩ :=
                hrest hzero other hother
              exact ⟨kept, hkept, validated, hkeptProvider, mem_cons_of_mem _ hvalidate,
                hkeptUsable⟩
          · exact ⟨(hmissing htail).1, fun hzero => absurd hzero (hmissing htail).2⟩
      · exact ⟨(hmissing h).1, fun hzero => absurd hzero (hmissing h).2⟩

/-- Protection that was established again rests on stored assets validated anew. -/
theorem returns_reestablishProtection
    (h : Returns (reestablishProtection request) events (.ok prepared))
    (haction : action ∈ request.protection)
    (hrequired : requiresProtection request.plan action = true) :
    ValidatedProtection events action := by
  have hmem : action ∈ request.protection.filter (requiresProtection request.plan) :=
    mem_filter.2 ⟨haction, hrequired⟩
  unfold reestablishProtection at h
  dsimp only at h
  rw [if_neg (by simpa using ⟨action, haction, hrequired⟩), ask_bind] at h
  obtain ⟨answer, tail, rfl, htail⟩ := returns_call.1 h
  cases answer with
  | error refusal => cases (returns_ret.1 htail).2
  | ok ids =>
    obtain ⟨first, stored, second, hfirst, hsecond, rfl⟩ := returns_bind.1 htail
    obtain ⟨third, ⟨assets, missing⟩, last, hthird, hlast, rfl⟩ := returns_bind.1 hsecond
    dsimp only at hlast
    split_ifs at hlast with hzero
    · obtain ⟨asset, hasset, validation, hprovider, hvalidate, husable⟩ :=
        (returns_checkAssets hthird).2 hzero action hmem
      obtain ⟨id, hid⟩ := returns_readAssets hfirst hasset
      exact ⟨asset, validation, .inr ⟨hprovider, id, by simp [hid]⟩, by simp [hvalidate], husable⟩
    · cases (returns_ret.1 hlast).2

/-- Protection that was established was validated, action by required action. -/
theorem returns_establishProtection
    (h : Returns (establishProtection sha256 request began durable recorded) events
      (.ok (prepared, report))) (haction : action ∈ request.protection)
    (hrequired : requiresProtection request.plan action = true) :
    ValidatedProtection events action := by
  unfold establishProtection at h
  split_ifs at h with hbegan hempty
  · obtain ⟨first, answer, last, hfirst, hlast, rfl⟩ := returns_bind.1 h
    cases answer with
    | error refusal => cases (returns_ret.1 hlast).2
    | ok reestablished =>
      exact (returns_reestablishProtection hfirst haction hrequired).mono (by simp)
  · rw [List.isEmpty_iff] at hempty
    simp [hempty] at haction
  · obtain ⟨first, _, second, -, hsecond, rfl⟩ := returns_bind.1 h
    obtain ⟨third, ⟨report', answer⟩, last, hthird, hlast, rfl⟩ := returns_bind.1 hsecond
    cases answer with
    | error refusal =>
      obtain ⟨_, _, _, -, hret, -⟩ := returns_bind.1 hlast
      obtain ⟨_, _, _, -, hret, -⟩ := returns_bind.1 hret
      cases (returns_ret.1 hret).2
    | ok prepared' => exact (returns_prepare hthird haction hrequired).mono (by simp)

end Facts

/-! ### The stages of an apply -/

/-- What an admitted apply established, stage by stage, with the events of each stage. -/
structure Admission (sha256 : Sha256) (request : ApplyRequest) (events : List (Event world))
    (prior : Records) (prepared : Prepared) (report : PrepareReport) where
  durable : PlanState
  recorded : Records
  evidence : List (Event world)
  readBack : List (Event world)
  revalidation : List (Event world)
  protection : List (Event world)
  events_eq : events = evidence ++ readBack ++ revalidation ++ protection
  evidence_returns : Returns (durableEvidence request.plan) evidence (.ok (durable, recorded))
  appliable : appliability request.plan durable request.now request.resume = none
  resumes_of_began : mutationBegan request.plan recorded = true → request.resume = true
  readBack_returns : Returns (priorRecords request recorded) readBack (.ok prior)
  revalidation_returns : Returns (revalidatePlan request.plan prior) revalidation none
  acknowledged : checkGates request.plan = none
  protection_returns : Returns
    (establishProtection sha256 request (mutationBegan request.plan recorded) durable recorded)
    protection (.ok (prepared, report))

variable {outcome : ApplyOutcome}

section Protocol

variable {sha256 : Sha256} {render : Renderings} {request : ApplyRequest}
  {events : List (Event world)}

theorem admitting_admitChecked {recorded prior : Records} :
    Admitting (admitChecked sha256 request durable recorded prior) := by
  refine admitting_revalidatePlan.bind fun refusal => ?_
  repeat' split
  all_goals first | trivial | exact admitting_establishProtection

theorem admitting_admitRequest : Admitting (admitRequest sha256 request) := by
  refine admitting_durableEvidence.bind fun evidence => ?_
  split
  · trivial
  · split
    · trivial
    · split_ifs
      · trivial
      · refine admitting_priorRecords.bind fun answer => ?_
        cases answer with
        | error => trivial
        | ok prior =>
          refine admitting_admitChecked.bind fun answer => ?_
          rcases answer with _ | ⟨prepared, report⟩ <;> trivial

theorem preparatory_admitRequest : Preparatory (admitRequest sha256 request) :=
  admitting_admitRequest.preparatory

/-- Checks that let an apply through revalidated the plan, found every acknowledgement and
established its protection. -/
theorem returns_admitChecked {recorded prior : Records}
    (h : Returns (admitChecked sha256 request durable recorded prior) events
      (.ok (prepared, report))) :
    ∃ revalidation protection, events = revalidation ++ protection ∧
      Returns (revalidatePlan request.plan prior) revalidation none ∧
      checkGates request.plan = none ∧
      Returns (establishProtection sha256 request (mutationBegan request.plan recorded) durable
        recorded) protection (.ok (prepared, report)) := by
  obtain ⟨revalidation, answer, protection, hrevalidation, hprotection, rfl⟩ := returns_bind.1 h
  cases answer with
  | some refusal => cases (returns_ret.1 hprotection).2
  | none =>
    dsimp only at hprotection
    split at hprotection
    · cases (returns_ret.1 hprotection).2
    · split at hprotection
      · cases (returns_ret.1 hprotection).2
      · split at hprotection
        · cases (returns_ret.1 hprotection).2
        · next hgates => exact ⟨_, _, rfl, hrevalidation, hgates, hprotection⟩

/-- An apply that was admitted went through every stage. -/
theorem admission_of_returns
    (h : Returns (admitRequest sha256 request) events (.ok (prior, prepared, report))) :
    Nonempty (Admission sha256 request events prior prepared report) := by
  obtain ⟨evidence, answer, after, hevidence, hafter, rfl⟩ := returns_bind.1 h
  rcases answer with refusal | ⟨durable, recorded⟩
  · cases (returns_ret.1 hafter).2
  dsimp only at hafter
  cases happliable : appliability request.plan durable request.now request.resume with
  | some refusal =>
    rw [happliable] at hafter
    cases (returns_ret.1 hafter).2
  | none =>
    rw [happliable] at hafter
    dsimp only at hafter
    by_cases hbegan : (mutationBegan request.plan recorded && !request.resume) = true
    · rw [if_pos hbegan] at hafter
      cases (returns_ret.1 hafter).2
    rw [if_neg hbegan] at hafter
    obtain ⟨readBack, answer, checked, hreadBack, hchecked, rfl⟩ := returns_bind.1 hafter
    rcases answer with refusal | read
    · cases (returns_ret.1 hchecked).2
    obtain ⟨checks, answer, last, hchecks, hlast, rfl⟩ := returns_bind.1 hchecked
    rcases answer with outcome | ⟨prepared', report'⟩
    · cases (returns_ret.1 hlast).2
    obtain ⟨rfl, hresult⟩ := returns_ret.1 hlast
    cases hresult
    obtain ⟨revalidation, protection, rfl, hrevalidation, hgates, hprotection⟩ :=
      returns_admitChecked hchecks
    exact ⟨{
      durable := durable
      recorded := recorded
      evidence := evidence
      readBack := readBack
      revalidation := revalidation
      protection := protection
      events_eq := by simp
      evidence_returns := hevidence
      appliable := happliable
      resumes_of_began := fun hbegun => by simpa [hbegun] using hbegan
      readBack_returns := hreadBack
      revalidation_returns := hrevalidation
      acknowledged := hgates
      protection_returns := hprotection }⟩

/-- **Properties of an apply.** A compositional property of preparatory programs, of the calls that
take and give back the claim, and of the mutation is one of the whole apply. -/
theorem compositional_apply {C : ∀ α : Type, Program world α → Prop} (hC : Compositional C)
    (hpreparatory : ∀ {α : Type} {program : Program world α}, Preparatory program → C α program)
    (hclaim : C _ (ask (.claim request.plan.id request.session request.now)))
    (hrelease : C _ (ask (.release request.plan.id request.session)))
    (hmutate : ∀ prepared report prior, C _ (mutate render request prepared report prior)) :
    C _ (apply sha256 render request) := by
  unfold apply
  split
  · exact hC.ret _
  · refine hC.bind hclaim fun answer => ?_
    cases answer with
    | error refusal => exact hC.ret _
    | ok =>
      refine hC.bind (hC.bind (hpreparatory preparatory_admitRequest) fun admitted => ?_) fun _ =>
        hC.bind hrelease fun _ => hC.ret _
      rcases admitted with outcome | ⟨prior, prepared, report⟩
      · exact hC.ret _
      · refine hC.bind (hpreparatory preparatory_persistAssets) fun _ =>
          hC.bind (hpreparatory preparatory_writeState) fun _ =>
            hC.bind (hmutate prepared report prior) ?_
        rintro ⟨outcome, held⟩
        cases held with
        | false => exact hC.ret _
        | true => exact hC.bind (hpreparatory preparatory_writeState) fun _ => hC.ret _

/-- A prepared apply that hands an action over does so inside its mutation. -/
theorem reaches_applyPrepared {action : PlanAction}
    (h : Reaches (applyPrepared sha256 render request prior prepared report) events
      (.execute action)) :
    ∃ persisted mutated, events = persisted ++ mutated ∧
      (∀ event ∈ persisted, event.1.isPreparatory = true) ∧
      Reaches (mutate render request prepared report prior) mutated (.execute action) := by
  rcases reaches_bind h with hpersist | ⟨first, _, second, hfirst, hsecond, rfl⟩
  · exact absurd hpersist preparatory_persistAssets.quiet.not_reaches
  rcases reaches_bind hsecond with hwrite | ⟨third, _, fourth, hthird, hfourth, rfl⟩
  · exact absurd hwrite preparatory_writeState.quiet.not_reaches
  refine ⟨first ++ third, fourth, by simp, fun event hevent => ?_, ?_⟩
  · rcases mem_append.1 hevent with hevent | hevent
    · exact preparatory_persistAssets.of_mem hfirst hevent
    · exact preparatory_writeState.of_mem hthird hevent
  · rcases reaches_bind hfourth with hmutate | ⟨_, ⟨outcome, held⟩, _, -, hlast, -⟩
    · exact hmutate
    · have hquiet : Quiet (if held = true then do
            writeState request outcome.state
            return outcome
          else return outcome) := by
        split_ifs
        · exact preparatory_writeState.quiet.bind fun _ => trivial
        · trivial
      exact absurd hlast hquiet.not_reaches

/-- **An apply hands an action over only through every stage before the mutation.** -/
theorem reaches_apply {action : PlanAction}
    (h : Reaches (apply sha256 render request) events (.execute action)) :
    refusedUnclaimed sha256 render request = none ∧
    ∃ admitted prior prepared report persisted mutated,
      Nonempty (Admission sha256 request admitted prior prepared report) ∧
      (∀ event ∈ admitted ++ persisted, event.1.isPreparatory = true) ∧
      Reaches (mutate render request prepared report prior) mutated (.execute action) ∧
      events = ⟨.claim request.plan.id request.session request.now, .ok ()⟩ ::
        (admitted ++ persisted ++ mutated) := by
  unfold apply at h
  cases hrefused : refusedUnclaimed sha256 render request with
  | some refusal =>
    rw [hrefused] at h
    exact absurd h not_reaches_ret
  | none =>
    rw [hrefused] at h
    dsimp only at h
    rw [ask_bind] at h
    rcases reaches_call.1 h with ⟨-, hclaim⟩ | ⟨answer, tail, rfl, htail⟩
    · cases hclaim
    cases answer with
    | error refusal => exact absurd htail not_reaches_ret
    | ok =>
      refine ⟨rfl, ?_⟩
      rcases reaches_bind htail with hclaimed | ⟨_, _, _, -, hrelease, -⟩
      · rcases reaches_bind hclaimed with hadmit | ⟨admitted, answer, after, hadmitted, hafter, rfl⟩
        · exact absurd hadmit preparatory_admitRequest.quiet.not_reaches
        · rcases answer with outcome | ⟨prior, prepared, report⟩
          · exact absurd hafter not_reaches_ret
          · obtain ⟨persisted, mutated, rfl, hpersisted, hmutated⟩ := reaches_applyPrepared hafter
            refine ⟨admitted, prior, prepared, report, persisted, mutated,
              admission_of_returns hadmitted, fun event hevent => ?_, hmutated, by simp⟩
            rcases mem_append.1 hevent with hevent | hevent
            · exact preparatory_admitRequest.of_mem hadmitted hevent
            · exact hpersisted event hevent
      · rcases reaches_call.1 hrelease with ⟨-, hop⟩ | ⟨_, _, -, hret⟩
        · cases hop
        · exact absurd hret not_reaches_ret

/-- An apply that establishing protection refused is no success. -/
theorem isSuccess_of_establishProtection
    (h : Returns (establishProtection sha256 request began durable recorded) events
      (.error outcome)) : outcome.isSuccess = false := by
  unfold establishProtection at h
  split_ifs at h
  · obtain ⟨first, answer, last, -, hlast, rfl⟩ := returns_bind.1 h
    cases answer with
    | error refusal =>
      cases (returns_ret.1 hlast).2
      rfl
    | ok reestablished => cases (returns_ret.1 hlast).2
  · cases (returns_ret.1 h).2
  · obtain ⟨first, _, second, -, hsecond, rfl⟩ := returns_bind.1 h
    obtain ⟨third, ⟨report, answer⟩, last, -, hlast, rfl⟩ := returns_bind.1 hsecond
    cases answer with
    | ok prepared => cases (returns_ret.1 hlast).2
    | error refusal =>
      obtain ⟨_, _, _, -, hwrite, -⟩ := returns_bind.1 hlast
      obtain ⟨_, _, _, -, hret, -⟩ := returns_bind.1 hwrite
      cases (returns_ret.1 hret).2
      rfl

/-- An apply that was not admitted is no success. -/
theorem isSuccess_of_admitRequest
    (h : Returns (admitRequest sha256 request) events (.error outcome)) :
    outcome.isSuccess = false := by
  obtain ⟨evidence, answer, after, -, hafter, rfl⟩ := returns_bind.1 h
  rcases answer with refusal | ⟨durable, recorded⟩
  · cases (returns_ret.1 hafter).2
    rfl
  dsimp only at hafter
  split at hafter
  · cases (returns_ret.1 hafter).2
    rfl
  split_ifs at hafter
  · cases (returns_ret.1 hafter).2
    rfl
  obtain ⟨readBack, answer, checked, -, hchecked, rfl⟩ := returns_bind.1 hafter
  rcases answer with refusal | prior
  · cases (returns_ret.1 hchecked).2
    rfl
  obtain ⟨checks, answer, last, hchecks, hlast, rfl⟩ := returns_bind.1 hchecked
  rcases answer with refused' | ⟨prepared, report⟩
  · cases (returns_ret.1 hlast).2
    obtain ⟨revalidation, answer, protection, -, hprotection, rfl⟩ := returns_bind.1 hchecks
    repeat' split at hprotection
    all_goals first
      | (cases (returns_ret.1 hprotection).2; rfl)
      | exact isSuccess_of_establishProtection hprotection
  · cases (returns_ret.1 hlast).2

/-- A prepared apply returns what its mutation does, after it wrote that the plan is applying. -/
theorem returns_applyPrepared
    (h : Returns (applyPrepared sha256 render request prior prepared report) events outcome) :
    ∃ persisted written mutated closing held,
      events = persisted ++ (⟨.recordState request.plan.id request.plan.revision .applying,
        written⟩ :: (mutated ++ closing)) ∧
      (∀ event ∈ persisted, event.1.isAdmitting = true) ∧
      (∀ event ∈ closing, event.1.isPreparatory = true) ∧
      Returns (mutate render request prepared report prior) mutated (outcome, held) := by
  obtain ⟨first, _, second, hfirst, hsecond, rfl⟩ := returns_bind.1 h
  obtain ⟨third, _, fourth, hthird, hfourth, rfl⟩ := returns_bind.1 hsecond
  obtain ⟨written, last, rfl, hlast⟩ := returns_call.1 hthird
  obtain ⟨rfl, -⟩ := returns_ret.1 hlast
  obtain ⟨mutated, ⟨ended, held⟩, closing, hmutated, hclosing, rfl⟩ := returns_bind.1 hfourth
  have hclose : Preparatory (if held = true then do
        writeState request ended.state
        return ended
      else return ended) := by
    split_ifs
    · exact preparatory_writeState.bind fun _ => trivial
    · trivial
  have hended : outcome = ended := by
    dsimp only at hclosing
    split_ifs at hclosing
    · obtain ⟨_, _, _, -, hret, -⟩ := returns_bind.1 hclosing
      exact (returns_ret.1 hret).2
    · exact (returns_ret.1 hclosing).2
  exact ⟨first, written, mutated, closing, held, rfl,
    fun event hevent => admitting_persistAssets.of_mem hfirst hevent,
    fun event hevent => hclose.of_mem hclosing hevent, hended ▸ hmutated⟩

/-- **The parts of an apply that returned.** It made no call but for the claim and the checks, or it
was admitted, wrote that the plan is applying, mutated and closed. -/
theorem returns_apply_parts (h : Returns (apply sha256 render request) events outcome) :
    (outcome.isSuccess = false ∧
      ∀ event ∈ events, event.1.isAdmitting = true ∨ event.1.isClaiming = true) ∨
    ∃ taken released admitted prior prepared report persisted written mutated closing held,
      events = ⟨.claim request.plan.id request.session request.now, taken⟩ :: (admitted ++
        (persisted ++ (⟨.recordState request.plan.id request.plan.revision .applying, written⟩ ::
          (mutated ++ closing))) ++ [⟨.release request.plan.id request.session, released⟩]) ∧
      (∀ event ∈ admitted ++ persisted, event.1.isAdmitting = true) ∧
      (∀ event ∈ closing, event.1.isPreparatory = true) ∧
      Nonempty (Admission sha256 request admitted prior prepared report) ∧
      Returns (mutate render request prepared report prior) mutated (outcome, held) := by
  unfold apply at h
  cases hrefused : refusedUnclaimed sha256 render request with
  | some refusal =>
    rw [hrefused] at h
    obtain ⟨rfl, rfl⟩ := returns_ret.1 h
    exact .inl ⟨rfl, by simp⟩
  | none =>
    rw [hrefused] at h
    dsimp only at h
    rw [ask_bind] at h
    obtain ⟨answer, tail, rfl, htail⟩ := returns_call.1 h
    cases answer with
    | error refusal =>
      obtain ⟨rfl, rfl⟩ := returns_ret.1 htail
      exact .inl ⟨rfl, by simp [Call.isClaiming]⟩
    | ok =>
      obtain ⟨claimed, ended, released, hclaimed, hreleased, rfl⟩ := returns_bind.1 htail
      rw [ask_bind] at hreleased
      obtain ⟨given, last, rfl, hret⟩ := returns_call.1 hreleased
      obtain ⟨rfl, rfl⟩ := returns_ret.1 hret
      obtain ⟨admitted, answer, after, hadmitted, hafter, rfl⟩ := returns_bind.1 hclaimed
      rcases answer with refused' | ⟨prior, prepared, report⟩
      · obtain ⟨rfl, rfl⟩ := returns_ret.1 hafter
        refine .inl ⟨isSuccess_of_admitRequest hadmitted, ?_⟩
        rw [append_nil]
        intro event hevent
        rcases mem_cons.1 hevent with rfl | hevent
        · exact .inr rfl
        rcases mem_append.1 hevent with hevent | hevent
        · exact .inl (admitting_admitRequest.of_mem hadmitted hevent)
        · rw [mem_singleton.1 hevent]
          exact .inr rfl
      · obtain ⟨persisted, written, mutated, closing, held, rfl, hpersisted, hclosing, hmutated⟩ :=
          returns_applyPrepared hafter
        refine .inr ⟨_, given, admitted, prior, prepared, report, persisted, written, mutated,
          closing, held, rfl, fun event hevent => ?_, hclosing, admission_of_returns hadmitted,
          hmutated⟩
        rcases mem_append.1 hevent with hevent | hevent
        · exact admitting_admitRequest.of_mem hadmitted hevent
        · exact hpersisted event hevent

/-- Nothing but the mutation of an apply executes. -/
theorem executions_of_parts {taken written released : Except ErrorValue Unit}
    {admitted persisted mutated closing : List (Event world)}
    (hadmitting : ∀ event ∈ admitted ++ persisted, event.1.isAdmitting = true)
    (hclosing : ∀ event ∈ closing, event.1.isPreparatory = true) :
    executions (⟨.claim request.plan.id request.session request.now, taken⟩ :: (admitted ++
        (persisted ++ (⟨.recordState request.plan.id request.plan.revision .applying, written⟩ ::
          (mutated ++ closing))) ++ [⟨.release request.plan.id request.session, released⟩])) =
      executions mutated := by
  have hopening : executions (admitted ++ persisted) = [] :=
    filterMap_eq_nil_iff.2 fun event hevent =>
      execution_eq_none (isQuiet_of_isAdmitting (.inl (hadmitting event hevent)))
  have hwritten : executions (⟨.recordState request.plan.id request.plan.revision .applying,
      written⟩ :: (mutated ++ closing)) = executions mutated := by
    show executions (mutated ++ closing) = _
    rw [executions_append, executions_eq_nil_of_isPreparatory hclosing, append_nil]
  rw [executions_claimed, ← append_assoc, executions_append, hopening, hwritten,
    nil_append]

/-- **How an apply returns.** It was refused without handing anything over, or it went through every
stage and returns what its mutation does. -/
theorem returns_apply (h : Returns (apply sha256 render request) events outcome) :
    (executions events = [] ∧ outcome.isSuccess = false) ∨
    ∃ admitted prior prepared report mutated held,
      Nonempty (Admission sha256 request admitted prior prepared report) ∧
      Returns (mutate render request prepared report prior) mutated (outcome, held) ∧
      executions events = executions mutated := by
  rcases returns_apply_parts h with ⟨hrefused, hquiet⟩ | ⟨taken, released, admitted, prior,
    prepared, report, persisted, written, mutated, closing, held, rfl, hadmitting, hclosing,
    hadmission, hmutated⟩
  · refine .inl ⟨filterMap_eq_nil_iff.2 fun event hevent => execution_eq_none ?_, hrefused⟩
    exact isQuiet_of_isAdmitting (hquiet event hevent)
  · exact .inr ⟨admitted, prior, prepared, report, mutated, held, hadmission, hmutated,
      executions_of_parts hadmitting hclosing⟩

end Protocol

/-! ### The mutation gate -/

/-- Whether a call extends the lease of the claim. -/
def Call.isRenewal : Call → Bool
  | renew .. => true
  | _ => false

/-- Whether a call gives the claim back. -/
def Call.isRelease : Call → Bool
  | release .. => true
  | _ => false

/-- The lease was last extended for this action, and its `running` record was then written. -/
def Started (request : ApplyRequest) (events : List (Event world)) (action : PlanAction) : Prop :=
  ∃ before after instant recordedAt,
    events = before ++
      ⟨.renew request.plan.id request.session instant, .ok ()⟩ :: after ∧
    (∀ event ∈ after, event.1.isRenewal = false) ∧
    (⟨.recordActionStatus request.plan.id request.plan.revision action.id action.ordinal .running
      recordedAt none, .ok ()⟩ : Event world) ∈ after

/-- Everything that is established before an action is handed over for execution. -/
structure Cleared (sha256 : Sha256) (render : Renderings) (request : ApplyRequest)
    (events : List (Event world)) (action : PlanAction) : Prop where
  digest_holds : request.plan.digestHolds sha256 render = true
  not_expired : request.plan.isExpiredAt request.now = false
  /-- The claim was taken first, and has not been given back. -/
  claimed : ∃ rest, events =
      ⟨.claim request.plan.id request.session request.now, .ok ()⟩ :: rest ∧
    ∀ event ∈ rest, event.1.isRelease = false
  /-- The stored state permits the apply, or the resume that was asked for. -/
  appliable : ∃ stored : ChangePlan,
    (⟨.getRevision request.plan.id request.plan.revision, .ok stored⟩ : Event world) ∈ events ∧
    (stored.state.isAppliable = true ∨ request.resume = true ∧ stored.state.isInterrupted = true)
  started : Started request events action
  /-- Every action is recorded succeeded, or was rechecked without a blocking finding. -/
  revalidated : ∃ records : Records,
    (⟨.actionStatuses request.plan.id request.plan.revision, .ok records⟩ : Event world) ∈ events ∧
    ∀ other ∈ request.plan.actions,
      records.get other.id = some .succeeded ∨ Revalidated events other
  acknowledged : request.plan.outstandingAcknowledgements = []
  protection_validated : ∀ protection ∈ request.protection,
    requiresProtection request.plan protection = true → ValidatedProtection events protection

section Gate

variable {sha256 : Sha256} {render : Renderings} {request : ApplyRequest}
  {events : List (Event world)} {action : PlanAction}

/-- An action that was started extended the lease and then wrote its record. -/
theorem started_of_returns (h : Returns (startAction request action) events (.ok ())) :
    Started request events action := by
  obtain ⟨first, instant, second, hfirst, hsecond, rfl⟩ := returns_bind.1 h
  rw [ask_bind] at hsecond
  obtain ⟨answer, tail, rfl, htail⟩ := returns_call.1 hsecond
  cases answer with
  | error refusal => cases (returns_ret.1 htail).2
  | ok =>
    obtain ⟨third, recordedAt, last, hthird, hlast, rfl⟩ := returns_bind.1 htail
    rw [ask_eq] at hlast
    obtain ⟨answer, tail, rfl, hret⟩ := returns_call.1 hlast
    obtain ⟨rfl, rfl⟩ := returns_ret.1 hret
    refine ⟨first, third ++ [_], instant, recordedAt, rfl, fun event hevent => ?_, by simp⟩
    rcases mem_append.1 hevent with hclock | hrecord
    · have hstamp : Program.Within (S := world) (· = Call.clock) request.stamp := within_stamp rfl
      rw [hstamp.of_mem hthird hclock]
      rfl
    · rw [mem_singleton.1 hrecord]
      rfl

theorem Started.append {before : List (Event world)} (h : Started request events action) :
    Started request (before ++ events) action := by
  obtain ⟨first, last, instant, recordedAt, rfl, hlast, hrecord⟩ := h
  exact ⟨before ++ first, last, instant, recordedAt, by simp, hlast, hrecord⟩

theorem within_mutate_isRelease :
    Program.Within (S := world) (fun call : Call => call.isRelease = false)
      (mutate render request prepared report prior) :=
  within_mutate (fun _ _ => {
    clock := rfl
    renew := fun _ => rfl
    observe := fun _ => rfl
    running := fun _ _ _ => rfl
    execute := fun _ _ => rfl
    settled := fun _ _ _ _ => rfl }) fun _ _ _ _ => rfl

theorem isRelease_of_isPreparatory {call : Call} (h : call.isPreparatory = true) :
    call.isRelease = false := by
  cases call <;> first | rfl | cases h

/-- What an admission establishes holds of any events it is part of. -/
theorem Admission.revalidated {admitted : List (Event world)}
    (admission : Admission sha256 request admitted prior prepared report)
    (hsub : admitted ⊆ events) :
    ∃ records : Records,
      (⟨.actionStatuses request.plan.id request.plan.revision, .ok records⟩ : Event world) ∈
        events ∧
      ∀ other ∈ request.plan.actions,
        records.get other.id = some .succeeded ∨ Revalidated events other := by
  have hrecheck := returns_revalidatePlan admission.revalidation_returns
  obtain ⟨stored, -, hevidence⟩ := returns_durableEvidence admission.evidence_returns
  refine ⟨admission.recorded, hsub (by simp [admission.events_eq, hevidence]), ?_⟩
  intro other hother
  by_cases hsucceeded : admission.recorded.get other.id = some .succeeded
  · exact .inl hsucceeded
  · have hprior : prior.get other.id ≠ some .succeeded := by
      rcases returns_priorRecords admission.readBack_returns with ⟨-, hnone, -⟩ | ⟨-, hread, -⟩
      · simp [hnone, Records.get]
      · rwa [hread]
    exact .inr ((hrecheck other hother hprior).mono fun event hevent =>
      hsub (by simp [admission.events_eq, hevent]))

theorem digestHolds_of_refusedUnclaimed (h : refusedUnclaimed sha256 render request = none) :
    request.plan.digestHolds sha256 render = true := by
  have hdigest := (Option.or_eq_none_iff.1 h).2
  by_contra hbroken
  simp [hbroken] at hdigest

/-- **The mutation gate.** Whatever the store, the providers and the caller's functions answer, an
apply hands an action over only when everything before it was established. -/
theorem cleared_of_reaches (h : Reaches (apply sha256 render request) events (.execute action)) :
    Cleared sha256 render request events action := by
  obtain ⟨hunclaimed, admitted, prior, prepared, report, persisted, mutated, ⟨admission⟩,
    hpreparatory, hmutated, rfl⟩ := reaches_apply h
  have hadmitted : admitted ⊆
      ⟨.claim request.plan.id request.session request.now, .ok ()⟩ ::
        (admitted ++ persisted ++ mutated) := fun event hevent => by simp [hevent]
  obtain ⟨hexpired, hstate⟩ := appliability_eq_none admission.appliable
  obtain ⟨stored, hstored, hevidence⟩ := returns_durableEvidence admission.evidence_returns
  obtain ⟨before, started, done, hmutatedEq, hstarted, -⟩ := follows_mutate.reaches hmutated
  obtain ⟨next, hpath⟩ := hmutated
  refine {
    digest_holds := digestHolds_of_refusedUnclaimed hunclaimed
    not_expired := hexpired
    claimed := ⟨_, rfl, fun event hevent => ?_⟩
    appliable := ⟨stored, hadmitted (by simp [admission.events_eq, hevidence]), hstored ▸ hstate⟩
    started := ?_
    revalidated := admission.revalidated hadmitted
    acknowledged := (checkGates_eq_none_iff _).1 admission.acknowledged
    protection_validated := fun protection hprotection hrequired => ?_ }
  · rcases mem_append.1 hevent with hevent | hevent
    · exact isRelease_of_isPreparatory (hpreparatory event hevent)
    · exact within_mutate_isRelease.of_mem hpath hevent
  · have hrun : Started request started action := started_of_returns hstarted
    rw [hmutatedEq, ← append_assoc, ← cons_append]
    exact hrun.append
  · refine (returns_establishProtection admission.protection_returns hprotection hrequired).mono ?_
    exact fun event hevent => hadmitted (by simp [admission.events_eq, hevent])

/-! ### What an outcome says about execution -/

/-- What a mutation knows matches what it went through: an action it handed over is remembered,
and it stops only where an action was not started or may have changed something. -/
structure Remembers (events : List (Event world)) (state : MutateState) : Prop where
  executed : executions events ≠ [] → state.executed = true
  stop : ∀ point refusal failed, state.stop = some (point, refusal, failed) →
    point = .actionNotStarted ∨ point.mayHaveMutated = true

theorem remembers_runAction {before : List (Event world)} {progress progress' : TargetProgress}
    (h : Remembers before progress.state)
    (hret : Returns (runAction request action progress) events progress') :
    Remembers (before ++ events) progress'.state := by
  rcases returns_runAction hret with ⟨failure, hstart, rfl⟩ |
    ⟨started, outcome, recorded, -, -, rfl, rfl⟩
  · refine ⟨fun hne => ?_, fun point refusal failed hstop => ?_⟩
    · rw [executions_append, quiet_startAction.executions_eq_nil hstart, append_nil] at hne
      exact h.executed hne
    · cases hstop
      exact .inl rfl
  · refine ⟨fun _ => rfl, fun point refusal failed hstop => ?_⟩
    cases outcome with
    | succeeded => exact h.stop point refusal failed hstop
    | failed =>
      cases hstop
      right
      split_ifs <;> rfl
    | unknown =>
      cases hstop
      right
      split_ifs <;> rfl

theorem hasMutated_stoppedOutcome {mutating : List PlanAction} {point : FailurePoint}
    {refusal : ErrorValue} (hpoint : point = .actionNotStarted ∨ point.mayHaveMutated = true)
    (hexecuted : outcome.executed = true) :
    (stoppedOutcome request prepared mutating outcome point refusal).hasMutated = true := by
  rcases hpoint with rfl | hmutated
  · exact hexecuted
  · cases point <;> first | rfl | cases hmutated

theorem hasMutated_stateFor (verification : VerifyOutcome) (recovery : Bool) :
    (verification.stateFor recovery).hasMutated = true := by
  unfold VerifyOutcome.stateFor
  split <;> rfl

/-- Verification that found a failure names a point after the mutation, and otherwise the state is
one of a mutated plan. -/
theorem hasMutated_verifiedOutcome {verification : VerifyOutcome}
    (h : Returns (verify render request.plan request.now) events verification) :
    (verifiedOutcome request outcome verification).hasMutated = true := by
  obtain ⟨first, ⟨results, timedOut⟩, last, -, hlast, rfl⟩ := returns_bind.1 h
  obtain ⟨-, rfl⟩ := returns_ret.1 hlast
  dsimp only [verifiedOutcome, ApplyOutcome.hasMutated]
  by_cases hverified : VerificationSet.verdict results = .verified
  · simp only [if_pos hverified]
    exact hasMutated_stateFor _ _
  · simp only [if_neg hverified]
    split_ifs <;> rfl

/-- A mutation that handed an action over says it may have changed the target. -/
theorem hasMutated_of_mutate {held : Bool}
    (h : Returns (mutate render request prepared report prior) events (outcome, held))
    (hexecuted : executions events ≠ []) : outcome.hasMutated = true := by
  rcases returns_mutate h with ⟨_, -, rfl, -⟩ |
    ⟨order, run, state, _, waved, concluded, -, -, hwaved, hconcluded, -, hsame⟩
  · exact absurd rfl hexecuted
  have hremembers : Remembers ([] ++ waved) state :=
    runWaves_invariant (P := Remembers) []
      (fun _ _ _ _ _ _ _ hprogress hrun => remembers_runAction hprogress hrun)
      (fun before observed slice mid gated hmid hgate => by
        obtain ⟨results, hstate⟩ := returns_runGate hgate
        rw [hstate]
        refine ⟨fun hne => hmid.executed ?_, hmid.stop⟩
        rwa [executions_append, quiet_runGate.executions_eq_nil hgate, append_nil] at hne)
      ⟨fun hne => absurd rfl hne, fun _ _ _ hstop => by cases hstop⟩ hwaved
  rcases returns_concludeMutation hconcluded with ⟨point, refusal, failed, hstop, rfl⟩ |
    ⟨verdict, -, -, -, rfl⟩ | ⟨verification, -, hverify, rfl⟩
  · exact hasMutated_stoppedOutcome (hremembers.stop _ _ _ hstop)
      (hremembers.executed (hsame ▸ hexecuted))
  · rfl
  · exact hasMutated_verifiedOutcome hverify

/-- **Nothing is executed past the gate.** For every request and whatever the store, the providers
and the caller's functions answer, an action is handed over only when everything before it was
established, and an apply that handed an action over says that it may have changed the target. -/
theorem apply_executes_only_when_cleared (sha256 : Sha256) (render : Renderings)
    (request : ApplyRequest) :
    (∀ events action, Reaches (apply sha256 render request) events (.execute action) →
      Cleared sha256 render request events action) ∧
    ∀ events outcome, Returns (apply sha256 render request) events outcome →
      (∃ action result, (⟨.execute action, result⟩ : Event world) ∈ events) →
        outcome.hasMutated = true := by
  refine ⟨fun events action h => cleared_of_reaches h, fun events outcome h hexecuted => ?_⟩
  obtain ⟨action, result, hevent⟩ := hexecuted
  have hne : executions events ≠ [] := ne_nil_of_mem (mem_executions.2 hevent)
  rcases returns_apply h with ⟨hnone, -⟩ |
    ⟨admitted, prior, prepared, report, mutated, held, -, hmutated, hsame⟩
  · exact absurd hnone hne
  · exact hasMutated_of_mutate hmutated (hsame ▸ hne)

/-- An apply goes by the schedule that the records it read leave to do: where a fresh one starts,
nothing is recorded as succeeded. -/
theorem Admission.planSchedule_eq {prior : Records} {prepared : Prepared} {report : PrepareReport}
    (admission : Admission sha256 request events prior prepared report) :
    planSchedule request.plan prior = planSchedule request.plan admission.recorded := by
  rcases returns_priorRecords admission.readBack_returns with ⟨hfresh, hnone, -⟩ | ⟨-, hread, -⟩
  · refine planSchedule_congr fun action haction hmutates =>
      iff_of_false (by simp [hnone, Records.get]) fun hrecorded => ?_
    have hbegan : mutationBegan request.plan admission.recorded = true :=
      any_eq_true.2 ⟨action, mem_filter.2 ⟨haction, hmutates⟩, by rw [hrecorded]; rfl⟩
    rw [admission.resumes_of_began hbegan] at hfresh
    cases hfresh
  · exact congrArg (planSchedule request.plan) hread

/-- What an apply has executed when it reaches an action: everything before it on the schedule that
the records it read from the store leave to do, and all of it succeeded. -/
theorem scheduled_of_reaches
    (h : Reaches (apply sha256 render request) events (.execute action)) :
    ∃ (records : Records) (done : List PlanAction),
      (⟨.actionStatuses request.plan.id request.plan.revision, .ok records⟩ : Event world) ∈
          events ∧
        executions events = allSucceeded done ∧
          done ++ [action] <+: planSchedule request.plan records := by
  obtain ⟨-, admitted, prior, prepared, report, persisted, mutated, ⟨admission⟩, hpreparatory,
    hmutated, rfl⟩ := reaches_apply h
  obtain ⟨before, started, done, rfl, hstarted, hdone, hinitial⟩ := follows_mutate.reaches hmutated
  obtain ⟨stored, -, hevidence⟩ := returns_durableEvidence admission.evidence_returns
  refine ⟨admission.recorded, done, by simp [admission.events_eq, hevidence], ?_,
    admission.planSchedule_eq ▸ hinitial⟩
  have hclaim : ∀ rest, executions ((⟨.claim request.plan.id request.session request.now,
      .ok ()⟩ : Event world) :: rest) = executions rest := fun _ => rfl
  rw [hclaim, executions_append, executions_eq_nil_of_isPreparatory hpreparatory,
    nil_append, executions_append, hdone, quiet_startAction.executions_eq_nil hstarted,
    append_nil]

end Gate

end OnoSendai
