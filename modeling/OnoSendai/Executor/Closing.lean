import OnoSendai.Executor.Gate

/-!
# Preparation closes what it opens

Whatever the quiesce and recovery providers answer, a preparation that paused the application asks
for it to be resumed once, after the last asset was created; a failed preparation answers for what
failed and not for how cleaning up went; and an asset is removed only where that is safe. Removed
and retained assets are reported by identity, so the two reports tell the assets apart only as far
as the providers gave them identities of their own.
-/

namespace OnoSendai

open Interaction List RecoveryCapability

/-! ### What providers did -/

/-- The identity of the asset an event created. -/
def creation : Event world → Option RecoveryAssetId
  | ⟨.create _ _, .ok asset⟩ => some asset.id
  | _ => none

/-- The identities of the assets that providers created, in order. -/
def creations (events : List (Event world)) : List RecoveryAssetId :=
  events.filterMap creation

/-- The identity of the asset an event removed. -/
def removal : Event world → Option RecoveryAssetId
  | ⟨.cleanup _ asset, .ok ()⟩ => some asset.id
  | _ => none

/-- The identities of the assets that providers removed, in order. -/
def removals (events : List (Event world)) : List RecoveryAssetId :=
  events.filterMap removal

namespace Call

/-- Whether a call asks a provider for an asset or checks one. -/
def isOpening : Call → Bool
  | create .. | validate .. => true
  | _ => false

/-- Whether a call belongs to cleaning up after a failure. -/
def isCleaning : Call → Bool
  | capabilities .. | cleanup .. => true
  | _ => false

/-- Whether a call closes the quiesce window. -/
def isResume : Call → Bool
  | resume .. => true
  | _ => false

/-- Whether a call asks a provider for an asset. -/
def isCreate : Call → Bool
  | create .. => true
  | _ => false

end Call

@[simp]
theorem creations_append (before after : List (Event world)) :
    creations (before ++ after) = creations before ++ creations after :=
  filterMap_append

@[simp]
theorem removals_append (before after : List (Event world)) :
    removals (before ++ after) = removals before ++ removals after :=
  filterMap_append

variable {event : Event world}

theorem creation_eq_none (h : event.1.isCreate = false) : creation event = none := by
  obtain ⟨call, answer⟩ := event
  cases call <;> first | rfl | cases h

theorem removal_eq_none (h : event.1.isCleaning = false) : removal event = none := by
  obtain ⟨call, answer⟩ := event
  cases call <;> first | rfl | cases h

theorem creations_eq_nil {events : List (Event world)}
    (h : ∀ event ∈ events, event.1.isCreate = false) : creations events = [] :=
  filterMap_eq_nil_iff.2 fun event hevent => creation_eq_none (h event hevent)

theorem removals_eq_nil {events : List (Event world)}
    (h : ∀ event ∈ events, event.1.isCleaning = false) : removals events = [] :=
  filterMap_eq_nil_iff.2 fun event hevent => removal_eq_none (h event hevent)

/-! ### What preparation is meant to leave behind -/

section Meaning

variable (request : ApplyRequest) (events : List (Event world))

/-- A protection action was refused, and where preparation stops if the action is required. -/
inductive ActionRefused (action : ProtectionAction) : FailurePoint → Prop
  | unheld (h : RecoveryCapability.prepare ∉ request.authority.recovery) :
    ActionRefused action .privilegeCheck
  | unregistered (h : action.provider ∉ request.providers) :
    ActionRefused action .recoveryAssetCreation
  | uncreated {refusal : ErrorValue}
      (h : (⟨.create action.provider action, .error refusal⟩ : Event world) ∈ events) :
    ActionRefused action .recoveryAssetCreation
  | unchecked {asset : RecoveryAsset} {refusal : ErrorValue}
      (hcreated : (⟨.create action.provider action, .ok asset⟩ : Event world) ∈ events)
      (h : (⟨.validate action.provider asset, .error refusal⟩ : Event world) ∈ events) :
    ActionRefused action .recoveryValidation
  | invalid {asset : RecoveryAsset} {validation : RecoveryValidation}
      (hcreated : (⟨.create action.provider action, .ok asset⟩ : Event world) ∈ events)
      (h : (⟨.validate action.provider asset, .ok validation⟩ : Event world) ∈ events)
      (hunusable : (asset.validated validation).isUsable = false) :
    ActionRefused action .recoveryValidation

/-- What a failed preparation answers for, and the error it answers with: a pause that was refused,
the first required protection action that was, a row of the sealed matrix that no asset covers, or,
where none of these failed, a resume that was refused. How cleaning up went has no part in it. -/
inductive Blamed : FailurePoint → ErrorValue → Prop
  | pause {quiescing : Quiescing} {refusal : ErrorValue}
      (hquiesce : request.quiesce = some quiescing)
      (h : (⟨.pause quiescing.application, .error refusal⟩ : Event world) ∈ events) :
    Blamed .applicationQuiesce refusal
  | action {point : FailurePoint} {done rest : List ProtectionAction} {action : ProtectionAction}
      (hprotection : request.protection = done ++ action :: rest)
      (hdone : ∀ earlier ∈ done, requiresProtection request.plan earlier = true →
        ValidatedProtection events earlier)
      (hrequired : requiresProtection request.plan action = true)
      (hrefused : ActionRefused request events action point) :
    Blamed point (.prepareFailed request.plan.id point.asStr)
  | row {window : List (Event world)} {state : PrepareState} {row : DomainCoverage}
      (hvalidated : ∀ action ∈ request.protection, requiresProtection request.plan action = true →
        ValidatedProtection events action)
      (hwindow : Returns (prepareActions request request.protection .initial) window state)
      (hinside : window <:+: events) (hrow : row ∈ request.plan.protection.rows)
      (hrequired : row.isRequired = true) (hsatisfied : row.isSatisfied = true)
      (hattempted : row.domain ∈ state.attempted) (hunguarded : row.domain ∉ state.guarded) :
    Blamed .recoveryAssetCreation
      (.prepareFailed request.plan.id FailurePoint.recoveryAssetCreation.asStr)
  | resume {quiescing : Quiescing} {refusal : ErrorValue}
      (hvalidated : ∀ action ∈ request.protection, requiresProtection request.plan action = true →
        ValidatedProtection events action)
      (hquiesce : request.quiesce = some quiescing)
      (h : (⟨.resume quiescing.application, .error refusal⟩ : Event world) ∈ events) :
    Blamed .applicationQuiesce refusal

/-- What is established when a provider is asked to remove an asset: `created` are the assets of the
preparation, and `events` went before. -/
structure Removable (created : List RecoveryAsset) (provider : String) (asset : RecoveryAsset) :
    Prop where
  created_here : asset ∈ created ∧ asset.sourcePlan = some request.plan.id
  provider_eq : provider = asset.provider
  declared : ∃ earlier capabilities, events = earlier ++ [⟨.capabilities provider, capabilities⟩] ∧
    cleanup ∈ (capabilities : List RecoveryCapability)
  held : cleanup ∈ request.authority.recovery
  unheld : asset.retention.hold = false
  window_closed : ∀ quiescing, request.quiesce = some quiescing →
    (⟨.resume quiescing.application, .ok ()⟩ : Event world) ∈ events
  independent : ∀ other ∈ created, asset.id ∉ other.dependencies

end Meaning

namespace PrepareReport

/-- The assets the cleaning up reports as removed. -/
def removed (report : PrepareReport) : List RecoveryAssetId :=
  (report.cleanupReport.map (·.removed)).getD []

/-- The assets that are reported as kept: by the cleaning up, or where there was none, all of
them. -/
def kept (report : PrepareReport) : List RecoveryAssetId :=
  (report.cleanupReport.map fun cleanup => cleanup.retained.map (·.1)).getD report.retained

end PrepareReport

/-- What a preparation is meant to leave behind. -/
structure ClosesWhatItOpened (request : ApplyRequest) (events : List (Event world))
    (report : PrepareReport) (result : Except ErrorValue Prepared) : Prop where
  resumed_once : ∀ quiescing, request.quiesce = some quiescing →
    (⟨.pause quiescing.application, .ok ()⟩ : Event world) ∈ events →
    ∃ before answer after,
      events = before ++ (⟨.resume quiescing.application, answer⟩ : Event world) :: after ∧
        (∀ event ∈ before ++ after, event.1.isResume = false) ∧
        ∀ event ∈ after, event.1.isCreate = false
  blamed : ∀ refusal, result = .error refusal →
    ∃ point, report.failurePoint = some point ∧ Blamed request events point refusal
  created_eq : report.created.map (·.id) = creations events
  removed_eq : report.removed = removals events
  accounted : ∀ id ∈ creations events, Xor (id ∈ report.removed) (id ∈ report.kept)
  removable : ∀ before provider asset answer after,
    events = before ++ (⟨.cleanup provider asset, answer⟩ : Event world) :: after →
      Removable request before report.created provider asset

section Preparation

variable {request : ApplyRequest} {events : List (Event world)}

/-! ### The window -/

/-- A program that only asks providers for assets and checks them. -/
abbrev Opening {α : Type} (program : Program world α) : Prop :=
  Program.Within (S := world) (fun call : Call => call.isOpening = true) program

theorem opening_createAndValidate {action : ProtectionAction} :
    Opening (createAndValidate request action) := by
  unfold createAndValidate
  split_ifs
  · refine ⟨rfl, fun answer => ?_⟩
    cases answer with
    | error refusal => trivial
    | ok asset =>
      refine ⟨rfl, fun answer => ?_⟩
      cases answer <;> trivial
  · trivial

variable {state : PrepareState}

variable {actions : List ProtectionAction}

theorem opening_prepareActions : Opening (prepareActions request actions state) := by
  induction actions generalizing state with
  | nil => trivial
  | cons action rest ih =>
    refine Program.Within.bind ?_ fun state => ?_
    · unfold prepareAction
      dsimp only
      split_ifs
      · refine opening_createAndValidate.bind fun answer => ?_
        cases answer <;> trivial
      · trivial
    · split
      · trivial
      · exact ih

variable {asset : RecoveryAsset}

/-- An asset that came out was created, and if it is not usable its check said so. -/
theorem returns_createAndValidate_ok {action : ProtectionAction}
    (h : Returns (createAndValidate request action) events (.ok asset)) :
    creations events = [asset.id] ∧
      (asset.isUsable = false → ActionRefused request events action .recoveryValidation) := by
  unfold createAndValidate at h
  split_ifs at h
  · rw [ask_bind] at h
    obtain ⟨answer, tail, rfl, htail⟩ := returns_call.1 h
    cases answer with
    | error refusal => cases (returns_ret.1 htail).2
    | ok created =>
      dsimp only at htail
      rw [ask_bind] at htail
      obtain ⟨answer, tail, rfl, hlast⟩ := returns_call.1 htail
      cases answer with
      | error refusal =>
        obtain ⟨rfl, hresult⟩ := returns_ret.1 hlast
        cases hresult
        exact ⟨rfl, fun _ => .unchecked mem_cons_self
          (mem_cons_of_mem _ mem_cons_self)⟩
      | ok validation =>
        obtain ⟨rfl, hresult⟩ := returns_ret.1 hlast
        cases hresult
        exact ⟨rfl, .invalid mem_cons_self (mem_cons_of_mem _ mem_cons_self)⟩
  · cases (returns_ret.1 h).2

/-- Where no asset came out, its creation was refused. -/
theorem returns_createAndValidate_error {action : ProtectionAction} {refusal : ErrorValue}
    (h : Returns (createAndValidate request action) events (.error refusal)) :
    creations events = [] ∧ ActionRefused request events action .recoveryAssetCreation := by
  unfold createAndValidate at h
  split_ifs at h with hregistered
  · rw [ask_bind] at h
    obtain ⟨answer, tail, rfl, htail⟩ := returns_call.1 h
    cases answer with
    | error refusal =>
      obtain ⟨rfl, -⟩ := returns_ret.1 htail
      exact ⟨rfl, .uncreated mem_cons_self⟩
    | ok created =>
      dsimp only at htail
      rw [ask_bind] at htail
      obtain ⟨answer, tail, rfl, hlast⟩ := returns_call.1 htail
      cases answer <;> cases (returns_ret.1 hlast).2
  · obtain ⟨rfl, -⟩ := returns_ret.1 h
    exact ⟨rfl, .unregistered hregistered⟩

theorem ActionRefused.mono {events' : List (Event world)} {action : ProtectionAction}
    {point : FailurePoint} (h : ActionRefused request events action point)
    (hsub : events ⊆ events') : ActionRefused request events' action point := by
  cases h with
  | unheld h => exact .unheld h
  | unregistered h => exact .unregistered h
  | uncreated h => exact .uncreated (hsub h)
  | unchecked hcreated h => exact .unchecked (hsub hcreated) (hsub h)
  | invalid hcreated h hunusable => exact .invalid (hsub hcreated) (hsub h) hunusable

variable {state state' : PrepareState}

/-- One protection action adds what was created for it, and stops preparation only if it is required
and was refused. -/
theorem returns_prepareAction_created {action : ProtectionAction}
    (h : Returns (prepareAction request action state) events state')
    (hpass : state.failure = none) :
    state'.created.map (·.id) = state.created.map (·.id) ++ creations events ∧
      ∀ point cause, state'.failure = some (point, cause) →
        requiresProtection request.plan action = true ∧
          ActionRefused request events action point := by
  unfold prepareAction at h
  dsimp only at h
  split_ifs at h with hheld
  · obtain ⟨first, answer, last, hfirst, hlast, rfl⟩ := returns_bind.1 h
    cases answer with
    | error refusal =>
      obtain ⟨rfl, rfl⟩ := returns_ret.1 hlast
      obtain ⟨hcreated, hrefused⟩ := returns_createAndValidate_error hfirst
      rw [append_nil, hcreated, append_nil, PrepareState.withRefusal]
      split_ifs with hrequired
      · refine ⟨rfl, fun point cause hfailure => ⟨hrequired, ?_⟩⟩
        cases hfailure
        exact hrefused
      · exact ⟨rfl, fun point cause hfailure => by simp [hpass] at hfailure⟩
    | ok asset =>
      obtain ⟨rfl, rfl⟩ := returns_ret.1 hlast
      obtain ⟨hcreated, hrefused⟩ := returns_createAndValidate_ok hfirst
      rw [append_nil, hcreated, PrepareState.withAsset]
      dsimp only
      split_ifs with husable hrequired
      · exact ⟨map_append, fun point cause hfailure => by simp [hpass] at hfailure⟩
      · refine ⟨map_append, fun point cause hfailure => ⟨hrequired, ?_⟩⟩
        cases hfailure
        exact hrefused (by simpa using husable)
      · exact ⟨map_append, fun point cause hfailure => by simp [hpass] at hfailure⟩
  · obtain ⟨rfl, rfl⟩ := returns_ret.1 h
    rw [PrepareState.withRefusal]
    split_ifs with hrequired
    · refine ⟨(append_nil _).symm, fun point cause hfailure => ⟨hrequired, ?_⟩⟩
      cases hfailure
      exact .unheld hheld
    · exact ⟨(append_nil _).symm, fun point cause hfailure => by simp [hpass] at hfailure⟩

/-- The window adds what was created in it, and stops at the first required protection action that
was refused. -/
theorem returns_prepareActions_created
    (h : Returns (prepareActions request actions state) events state')
    (hpass : state.failure = none) :
    state'.created.map (·.id) = state.created.map (·.id) ++ creations events ∧
      ∀ point cause, state'.failure = some (point, cause) → ∃ done action rest,
        actions = done ++ action :: rest ∧
          (∀ earlier ∈ done, requiresProtection request.plan earlier = true →
            ValidatedProtection events earlier) ∧
          requiresProtection request.plan action = true ∧
          ActionRefused request events action point := by
  induction actions generalizing state events with
  | nil =>
    obtain ⟨rfl, rfl⟩ := returns_ret.1 h
    exact ⟨(append_nil _).symm, fun point cause hfailure => by simp [hpass] at hfailure⟩
  | cons head rest ih =>
    obtain ⟨first, mid, last, hfirst, hlast, rfl⟩ := returns_bind.1 h
    obtain ⟨hcreated, hrefused⟩ := returns_prepareAction_created hfirst hpass
    cases hfailure : mid.failure with
    | some failure =>
      rw [hfailure] at hlast
      obtain ⟨rfl, rfl⟩ := returns_ret.1 hlast
      rw [append_nil]
      refine ⟨hcreated, fun point cause hstopped => ?_⟩
      obtain ⟨hrequired, hwhy⟩ := hrefused point cause hstopped
      exact ⟨[], head, rest, rfl, by simp, hrequired, hwhy⟩
    | none =>
      rw [hfailure] at hlast
      obtain ⟨hrest, hstops⟩ := ih hlast hfailure
      refine ⟨by rw [hrest, hcreated, creations_append, append_assoc], ?_⟩
      intro point cause hstopped
      obtain ⟨done, action, after, rfl, hdone, hrequired, hwhy⟩ := hstops point cause hstopped
      refine ⟨head :: done, action, after, rfl, ?_, hrequired, hwhy.mono (by simp)⟩
      intro earlier hearlier hneeded
      rcases mem_cons.1 hearlier with rfl | hearlier
      · exact (returns_prepareAction hfirst hneeded hfailure).mono (by simp)
      · exact (hdone earlier hearlier hneeded).mono (by simp)

/-! ### Cleaning up -/

/-- A program that only asks providers what they can do and to remove assets. -/
abbrev Cleaning {α : Type} (program : Program world α) : Prop :=
  Program.Within (S := world) (fun call : Call => call.isCleaning = true) program

variable {quiesceHolds : Bool} {dependedOn : List RecoveryAssetId}

/-- There is no reason to keep an asset, and the events end with its provider declaring that it can
remove it. -/
structure Permitted (request : ApplyRequest) (quiesceHolds : Bool)
    (dependedOn : List RecoveryAssetId) (events : List (Event world)) (asset : RecoveryAsset) :
    Prop where
  source : asset.sourcePlan = some request.plan.id
  declared : ∃ earlier capabilities,
    events = earlier ++ [⟨.capabilities asset.provider, capabilities⟩] ∧
      cleanup ∈ (capabilities : List RecoveryCapability)
  held : cleanup ∈ request.authority.recovery
  released : quiesceHolds = false
  independent : asset.id ∉ dependedOn
  unheld : asset.retention.hold = false

variable {before : List (Event world)}

theorem Permitted.append_left (h : Permitted request quiesceHolds dependedOn events asset) :
    Permitted request quiesceHolds dependedOn (before ++ events) asset := by
  obtain ⟨earlier, capabilities, rfl, hcleanup⟩ := h.declared
  exact { h with
    declared := ⟨before ++ earlier, capabilities, (append_assoc _ _ _).symm, hcleanup⟩ }

theorem returns_providerRemoves {removes : Bool}
    (h : Returns (providerRemoves request asset) events removes) :
    removals events = [] ∧ (removes = true →
      ∃ capabilities, events = [⟨.capabilities asset.provider, capabilities⟩] ∧
        cleanup ∈ (capabilities : List RecoveryCapability)) := by
  unfold providerRemoves at h
  split_ifs at h
  · rw [ask_bind] at h
    obtain ⟨capabilities, tail, rfl, htail⟩ := returns_call.1 h
    obtain ⟨rfl, rfl⟩ := returns_ret.1 htail
    exact ⟨rfl, fun hdeclared => ⟨capabilities, rfl, by simpa using hdeclared⟩⟩
  · obtain ⟨rfl, rfl⟩ := returns_ret.1 h
    exact ⟨rfl, fun hdeclared => by cases hdeclared⟩

/-- An asset that no reason was found to keep may be removed. -/
theorem returns_retentionReason {reason : Option String}
    (h : Returns (retentionReason request asset quiesceHolds dependedOn) events reason) :
    removals events = [] ∧
      (reason = none → Permitted request quiesceHolds dependedOn events asset) := by
  unfold retentionReason at h
  split at h
  · obtain ⟨rfl, rfl⟩ := returns_ret.1 h
    exact ⟨rfl, fun hnone => by cases hnone⟩
  · next hplan =>
    obtain ⟨first, removes, last, hfirst, hlast, rfl⟩ := returns_bind.1 h
    obtain ⟨hquiet, hdeclared⟩ := returns_providerRemoves hfirst
    split_ifs at hlast with hremoves hheld hholds hdepended hhold
    all_goals
      obtain ⟨rfl, rfl⟩ := returns_ret.1 hlast
      rw [append_nil]
      refine ⟨hquiet, fun hnone => ?_⟩
    · cases hnone
    · cases hnone
    · cases hnone
    · cases hnone
    · obtain ⟨capabilities, rfl, hcleanup⟩ := hdeclared (by simpa using hremoves)
      exact ⟨not_not.1 hplan, ⟨[], capabilities, rfl, hcleanup⟩, hheld, by simpa using hholds,
        hdepended, by simpa using hhold⟩
    · cases hnone

theorem cleaning_retentionReason :
    (retentionReason request asset quiesceHolds dependedOn).Within
      (S := world) fun call : Call => ∃ provider, call = .capabilities provider := by
  unfold retentionReason
  split
  · trivial
  · refine Program.Within.bind ?_ fun removes => ?_
    · unfold providerRemoves
      split_ifs
      · exact ⟨⟨_, rfl⟩, fun _ => trivial⟩
      · trivial
    · split_ifs <;> trivial

variable {assets : List RecoveryAsset}

theorem cleaning_removeAssets {report : CleanupReport} :
    Cleaning (removeAssets request quiesceHolds dependedOn assets report) := by
  induction assets generalizing report with
  | nil => trivial
  | cons asset rest ih =>
    have hreason : Cleaning (retentionReason request asset quiesceHolds dependedOn) :=
      cleaning_retentionReason.mono fun call ⟨provider, hcall⟩ => by rw [hcall]; rfl
    refine hreason.bind fun reason => ?_
    cases reason with
    | some reason => exact ih
    | none =>
      refine Program.Within.bind ?_ fun answer => ?_
      · unfold removeAsset
        split_ifs
        · exact ⟨rfl, fun _ => trivial⟩
        · trivial
      · cases answer <;> exact ih

theorem returns_removeAsset {answer : Except ErrorValue Unit}
    (h : Returns (removeAsset request asset) events answer) :
    removals events = match answer with | .ok () => [asset.id] | .error _ => [] := by
  unfold removeAsset at h
  split_ifs at h
  · rw [ask_eq] at h
    obtain ⟨answer', tail, rfl, htail⟩ := returns_call.1 h
    obtain ⟨rfl, rfl⟩ := returns_ret.1 htail
    cases answer <;> rfl
  · obtain ⟨rfl, rfl⟩ := returns_ret.1 h
    rfl

/-- Every asset is reported once: those removed are the ones a provider removed, and each of the
others is retained. -/
theorem returns_removeAssets {report report' : CleanupReport}
    (h : Returns (removeAssets request quiesceHolds dependedOn assets report) events report') :
    report'.removed = report.removed ++ removals events ∧
      ∀ id, report'.removed.count id + (report'.retained.map (·.1)).count id =
        report.removed.count id + (report.retained.map (·.1)).count id +
          (assets.map (·.id)).count id := by
  induction assets generalizing report events with
  | nil =>
    obtain ⟨rfl, rfl⟩ := returns_ret.1 h
    exact ⟨(append_nil _).symm, fun id => rfl⟩
  | cons asset rest ih =>
    obtain ⟨first, reason, last, hfirst, hlast, rfl⟩ := returns_bind.1 h
    obtain ⟨hquiet, -⟩ := returns_retentionReason hfirst
    rw [removals_append, hquiet, nil_append]
    cases reason with
    | some reason =>
      obtain ⟨hremoved, hcount⟩ := ih hlast
      refine ⟨hremoved, fun id => ?_⟩
      rw [hcount id]
      simp only [map_append, map_cons, map_nil, count_append, count_cons,
        count_nil]
      omega
    | none =>
      obtain ⟨asked, answer, others, hasked, hothers, rfl⟩ := returns_bind.1 hlast
      rw [removals_append, returns_removeAsset hasked]
      cases answer with
      | ok _ =>
        obtain ⟨hremoved, hcount⟩ := ih hothers
        refine ⟨by rw [hremoved, append_assoc], fun id => ?_⟩
        rw [hcount id]
        simp only [map_cons, count_append, count_cons, count_nil]
        omega
      | error failure =>
        obtain ⟨hremoved, hcount⟩ := ih hothers
        refine ⟨hremoved, fun id => ?_⟩
        rw [hcount id]
        simp only [map_append, map_cons, map_nil, count_append,
          count_cons, count_nil]
        omega

variable {provider : String}

/-- **A removal that is asked for is safe.** There is no reason to keep the asset, and its provider
has just declared that it can remove it. -/
theorem reaches_removeAssets {report : CleanupReport}
    (h : Reaches (removeAssets request quiesceHolds dependedOn assets report) events
      (.cleanup provider asset)) :
    asset ∈ assets ∧ provider = asset.provider ∧
      Permitted request quiesceHolds dependedOn events asset := by
  induction assets generalizing report events with
  | nil => exact absurd h not_reaches_ret
  | cons head rest ih =>
    rcases reaches_bind h with hfirst | ⟨first, reason, last, hfirst, hlast, rfl⟩
    · obtain ⟨_, hcall⟩ := cleaning_retentionReason.of_reaches hfirst
      cases hcall
    cases reason with
    | some reason =>
      obtain ⟨hmem, hprovider, hpermitted⟩ := ih hlast
      exact ⟨mem_cons_of_mem _ hmem, hprovider, hpermitted.append_left⟩
    | none =>
      rcases reaches_bind hlast with hasked | ⟨asked, answer, others, -, hothers, rfl⟩
      · have hpermitted := (returns_retentionReason hfirst).2 rfl
        unfold removeAsset at hasked
        split_ifs at hasked
        · rw [ask_eq] at hasked
          rcases reaches_call.1 hasked with ⟨rfl, hcall⟩ | ⟨_, _, _, hafter⟩
          · cases hcall
            rw [append_nil]
            exact ⟨mem_cons_self, rfl, hpermitted⟩
          · exact absurd hafter not_reaches_ret
        · exact absurd hasked not_reaches_ret
      · have hrest : asset ∈ rest ∧ provider = asset.provider ∧
            Permitted request quiesceHolds dependedOn others asset := by
          cases answer <;> exact ih hothers
        obtain ⟨hmem, hprovider, hpermitted⟩ := hrest
        exact ⟨mem_cons_of_mem _ hmem, hprovider, hpermitted.append_left.append_left⟩

theorem cleaning_runCleanup {report : PrepareReport} : Cleaning (runCleanup request report) := by
  unfold runCleanup
  split
  · exact cleaning_removeAssets
  · trivial

theorem returns_runCleanup {report : PrepareReport} {cleanup : CleanupReport}
    (h : Returns (runCleanup request report) events cleanup) :
    cleanup.removed = removals events ∧
      ∀ id, cleanup.removed.count id + (cleanup.retained.map (·.1)).count id =
        (report.created.map (·.id)).count id := by
  unfold runCleanup at h
  split at h
  · obtain ⟨hremoved, hcount⟩ := returns_removeAssets h
    exact ⟨hremoved, fun id => (hcount id).trans (by simp)⟩
  · obtain ⟨rfl, rfl⟩ := returns_ret.1 h
    refine ⟨rfl, fun id => ?_⟩
    simp only [count_nil, map_map, Nat.zero_add]
    rfl

theorem reaches_runCleanup {report : PrepareReport}
    (h : Reaches (runCleanup request report) events (.cleanup provider asset)) :
    asset ∈ report.created ∧ provider = asset.provider ∧
      Permitted request (report.quiesceReport.any fun quiesce => !quiesce.resumed)
        (report.created.flatMap (·.dependencies)) events asset := by
  unfold runCleanup at h
  split at h
  · exact reaches_removeAssets h
  · exact absurd h not_reaches_ret

/-! ### Closing the window -/

variable {quiesce : Option QuiesceReport}

variable {failure : Option ErrorValue}

/-- What closing the window did: nothing where there is none, and otherwise one resume. -/
theorem returns_releaseQuiesce (h : Returns (releaseQuiesce request) events (quiesce, failure)) :
    (request.quiesce = none ∧ events = [] ∧ quiesce = none ∧ failure = none) ∨
      ∃ quiescing answer, request.quiesce = some quiescing ∧
        events = [⟨.resume quiescing.application, answer⟩] ∧
        ((answer = .ok () ∧ failure = none) ∨
          ∃ refusal, answer = .error refusal ∧ failure = some refusal ∧
            (quiesce.any fun report => !report.resumed) = true) := by
  unfold releaseQuiesce at h
  split at h
  · next hquiesce =>
    obtain ⟨rfl, hresult⟩ := returns_ret.1 h
    cases hresult
    exact .inl ⟨hquiesce, rfl, rfl, rfl⟩
  · next quiescing hquiesce =>
    rw [ask_bind] at h
    obtain ⟨answer, tail, rfl, htail⟩ := returns_call.1 h
    refine .inr ⟨quiescing, answer, hquiesce, ?_⟩
    cases answer with
    | ok _ =>
      obtain ⟨rfl, hresult⟩ := returns_ret.1 htail
      cases hresult
      exact ⟨rfl, .inl ⟨rfl, rfl⟩⟩
    | error refusal =>
      obtain ⟨rfl, hresult⟩ := returns_ret.1 htail
      cases hresult
      exact ⟨rfl, .inr ⟨refusal, rfl, rfl, rfl⟩⟩

/-- How a preparation ended, once its window is closed: it went through, or it answers for the
window or for the resume, and cleaned up. -/
inductive Ended (request : ApplyRequest) (state : PrepareState) (quiesce : Option QuiesceReport)
    (resumeFailure : Option ErrorValue) (cleaning : List (Event world)) :
    PrepareReport → Except ErrorValue Prepared → Prop
  | through {report : PrepareReport} {prepared : Prepared}
      (hcreated : report.created = state.created) (hnone : report.cleanupReport = none)
      (hcleaning : cleaning = []) :
    Ended request state quiesce resumeFailure cleaning report (.ok prepared)
  | window {opened : PrepareReport} {cleanup : CleanupReport} {point : FailurePoint}
      {cause : ErrorValue} (hcreated : opened.created = state.created)
      (hquiesce : opened.quiesceReport = quiesce)
      (hfailure : state.failure.or (state.uncovered request.plan) = some (point, cause))
      (hcleanup : Returns (runCleanup request opened) cleaning cleanup)
      (hpoint : opened.failurePoint = some point) :
    Ended request state quiesce resumeFailure cleaning
      { opened with cleanupReport := some cleanup }
      (.error (.prepareFailed request.plan.id point.asStr))
  | resume {opened : PrepareReport} {cleanup : CleanupReport} {refusal : ErrorValue}
      (hcreated : opened.created = state.created) (hquiesce : opened.quiesceReport = quiesce)
      (hnone : state.failure.or (state.uncovered request.plan) = none)
      (hrefused : resumeFailure = some refusal)
      (hcleanup : Returns (runCleanup request opened) cleaning cleanup)
      (hpoint : opened.failurePoint = some .applicationQuiesce) :
    Ended request state quiesce resumeFailure cleaning
      { opened with cleanupReport := some cleanup } (.error refusal)

variable {result : Except ErrorValue Prepared}

/-- The phases of a preparation: the window, its closing, and the end. -/
theorem returns_prepareQuiesced {report : PrepareReport}
    (h : Returns (prepareQuiesced request) events (report, result)) :
    ∃ window state closing quiesce resumeFailure cleaning,
      Returns (prepareActions request request.protection .initial) window state ∧
        Returns (releaseQuiesce request) closing (quiesce, resumeFailure) ∧
        events = window ++ (closing ++ cleaning) ∧
        Ended request state quiesce resumeFailure cleaning report result := by
  obtain ⟨window, state, second, hwindow, hsecond, rfl⟩ := returns_bind.1 h
  obtain ⟨closing, ⟨quiesce, resumeFailure⟩, cleaning, hclosing, hlast, rfl⟩ :=
    returns_bind.1 hsecond
  refine ⟨window, state, closing, quiesce, resumeFailure, cleaning, hwindow, hclosing, rfl, ?_⟩
  dsimp only at hlast
  split at hlast
  · next hfailure =>
    obtain ⟨cleaned, cleanup, rest, hcleaned, hrest, rfl⟩ := returns_bind.1 hlast
    obtain ⟨rfl, hresult⟩ := returns_ret.1 hrest
    cases hresult
    rw [append_nil]
    exact .window rfl rfl hfailure hcleaned rfl
  · next hnone =>
    obtain ⟨cleaned, cleanup, rest, hcleaned, hrest, rfl⟩ := returns_bind.1 hlast
    obtain ⟨rfl, hresult⟩ := returns_ret.1 hrest
    cases hresult
    rw [append_nil]
    exact .resume rfl rfl hnone rfl hcleaned rfl
  · obtain ⟨rfl, hresult⟩ := returns_ret.1 hlast
    cases hresult
    exact .through rfl rfl rfl

/-! ### The reports -/

/-- A provider that removes an asset removes every asset created under its identity. -/
def RemovesWholeIdentities (events : List (Event world)) : Prop :=
  ∀ id ∈ removals events, (removals events).count id = (creations events).count id

/-- Two lists that together count what a third does have no element in common exactly when each
element of the first is as often in it as in the third. -/
theorem xor_mem_iff {removed kept created : List RecoveryAssetId}
    (hcount : ∀ id, removed.count id + kept.count id = created.count id) :
    (∀ id ∈ created, Xor (id ∈ removed) (id ∈ kept)) ↔
      ∀ id ∈ removed, removed.count id = created.count id := by
  have hmem : ∀ {ids : List RecoveryAssetId} {id}, id ∈ ids ↔ 0 < ids.count id :=
    count_pos_iff.symm
  constructor
  · intro hxor id hremoved
    have hid := hcount id
    rw [hmem] at hremoved
    rcases hxor id (hmem.2 (by omega)) with ⟨-, hkept⟩ | ⟨-, hnot⟩
    · rw [hmem] at hkept
      omega
    · exact absurd (hmem.2 hremoved) hnot
  · intro hwhole id hcreated
    have hid := hcount id
    rw [hmem] at hcreated
    by_cases hremoved : id ∈ removed
    · have hsame := hwhole id hremoved
      exact .inl ⟨hremoved, by rw [hmem]; omega⟩
    · refine .inr ⟨?_, hremoved⟩
      rw [hmem] at hremoved ⊢
      omega

variable {resumeFailure : Option ErrorValue}

theorem Ended.created_eq {cleaning : List (Event world)} {report : PrepareReport}
    (h : Ended request state quiesce resumeFailure cleaning report result) :
    report.created = state.created := by
  cases h with
  | through hcreated => exact hcreated
  | window hcreated => exact hcreated
  | resume hcreated => exact hcreated

/-- The reports of a preparation: what was removed, and that each asset is reported as often as it
was created. -/
theorem Ended.reports {cleaning : List (Event world)} {report : PrepareReport}
    (h : Ended request state quiesce resumeFailure cleaning report result) :
    report.removed = removals cleaning ∧
      ∀ id, report.removed.count id + report.kept.count id =
        (report.created.map (·.id)).count id := by
  cases h with
  | through hcreated hnone hcleaning =>
    subst hcleaning
    have hretained : report.retained = report.created.map (·.id) := by
      simp [PrepareReport.retained, hnone]
    refine ⟨by rw [PrepareReport.removed, hnone]; rfl, fun id => ?_⟩
    simp [PrepareReport.removed, PrepareReport.kept, hnone, hretained]
  | window hcreated hquiesce hfailure hcleanup hpoint => exact returns_runCleanup hcleanup
  | resume hcreated hquiesce hnone hrefused hcleanup hpoint => exact returns_runCleanup hcleanup

variable {answer : Call.Answer (.cleanup provider asset)}

theorem Ended.permitted {cleaning before after : List (Event world)} {report : PrepareReport}
    (h : Ended request state quiesce resumeFailure cleaning report result)
    (hcleaning : cleaning = before ++ (⟨.cleanup provider asset, answer⟩ : Event world) :: after) :
    asset ∈ report.created ∧ provider = asset.provider ∧
      Permitted request (quiesce.any fun quiesce => !quiesce.resumed)
        (report.created.flatMap (·.dependencies)) before asset := by
  cases h with
  | through hcreated hnone hnil => simp [hnil] at hcleaning
  | window hcreated hquiesce hfailure hcleanup hpoint =>
    subst hquiesce
    exact reaches_runCleanup (Path.reaches hcleanup hcleaning)
  | resume hcreated hquiesce hnone hrefused hcleanup hpoint =>
    subst hquiesce
    exact reaches_runCleanup (Path.reaches hcleanup hcleaning)

theorem Ended.cleaning {cleaning : List (Event world)} {report : PrepareReport}
    (h : Ended request state quiesce resumeFailure cleaning report result) :
    ∀ event ∈ cleaning, event.1.isCleaning = true := by
  cases h with
  | through hcreated hnone hnil => simp [hnil]
  | window hcreated hquiesce hfailure hcleanup hpoint =>
    exact fun event => cleaning_runCleanup.of_mem hcleanup
  | resume hcreated hquiesce hnone hrefused hcleanup hpoint =>
    exact fun event => cleaning_runCleanup.of_mem hcleanup

/-! ### The answer -/

/-- The matrix stops preparation at a row that is required and satisfied, and that the window set
out to protect and did not. -/
theorem uncovered_eq_some {point : FailurePoint} {cause : ErrorValue}
    (h : state.uncovered request.plan = some (point, cause)) :
    point = .recoveryAssetCreation ∧ ∃ row ∈ request.plan.protection.rows, row.isRequired = true ∧
      row.isSatisfied = true ∧ row.domain ∈ state.attempted ∧ row.domain ∉ state.guarded := by
  obtain ⟨row, hfind, heq⟩ := Option.map_eq_some_iff.1 h
  cases heq
  have hrow := find?_some hfind
  simp only [Bool.and_eq_true, decide_eq_true_eq] at hrow
  obtain ⟨⟨⟨hrequired, hsatisfied⟩, hattempted⟩, hunguarded⟩ := hrow
  exact ⟨rfl, row, mem_of_find?_eq_some hfind, hrequired, hsatisfied, hattempted, hunguarded⟩

/-- A preparation whose window was opened answers for what failed in it, or for the resume. -/
theorem Ended.blamed {window closing cleaning : List (Event world)} {report : PrepareReport}
    {refusal : ErrorValue}
    (h : Ended request state quiesce resumeFailure cleaning report (.error refusal))
    (hwindow : Returns (prepareActions request request.protection .initial) window state)
    (hclosing : Returns (releaseQuiesce request) closing (quiesce, resumeFailure))
    (hinside : window <:+: events) (hsub : closing ⊆ events) :
    ∃ point, report.failurePoint = some point ∧ Blamed request events point refusal := by
  have hvalidated : state.failure = none → ∀ action ∈ request.protection,
      requiresProtection request.plan action = true → ValidatedProtection events action :=
    fun hnone action haction hrequired =>
      (returns_prepareActions hwindow hnone haction hrequired).mono hinside.subset
  cases h with
  | window hcreated hquiesce hfailure hcleanup hpoint =>
    refine ⟨_, hpoint, ?_⟩
    rcases hstate : state.failure with _ | ⟨point, cause⟩
    · rw [hstate, Option.none_or] at hfailure
      obtain ⟨rfl, row, hrow, hrequired, hsatisfied, hattempted, hunguarded⟩ :=
        uncovered_eq_some hfailure
      exact .row (hvalidated hstate) hwindow hinside hrow hrequired hsatisfied hattempted hunguarded
    · rw [hstate, Option.some_or] at hfailure
      cases hfailure
      obtain ⟨done, action, rest, hprotection, hdone, hrequired, hrefused⟩ :=
        (returns_prepareActions_created hwindow rfl).2 _ _ hstate
      exact .action hprotection
        (fun earlier hearlier hneeded => (hdone earlier hearlier hneeded).mono hinside.subset)
        hrequired (hrefused.mono hinside.subset)
  | resume hcreated hquiesce hnone hrefused hcleanup hpoint =>
    refine ⟨_, hpoint, ?_⟩
    rcases returns_releaseQuiesce hclosing with ⟨-, -, -, hfailure⟩ |
      ⟨quiescing, answer, hpaused, rfl, ⟨-, hfailure⟩ | ⟨refusal', rfl, hfailure, -⟩⟩
    · cases hfailure.symm.trans hrefused
    · cases hfailure.symm.trans hrefused
    · cases hfailure.symm.trans hrefused
      exact .resume (hvalidated (Option.or_eq_none_iff.1 hnone).1) hpaused
        (hsub mem_cons_self)

/-- Two ways to cut a list, the first after a part without an element and the second at that
element. -/
theorem append_eq_append_cons {α : Type} {opening rest before after : List α} {x : α}
    (h : opening ++ rest = before ++ x :: after) (hx : x ∉ opening) :
    ∃ mid, before = opening ++ mid ∧ rest = mid ++ x :: after := by
  rcases append_eq_append_iff.1 h with ⟨mid, rfl, hrest⟩ | ⟨mid, rfl, hrest⟩
  · exact ⟨mid, rfl, hrest⟩
  · cases mid with
    | nil => exact ⟨[], by simp, by simpa using hrest.symm⟩
    | cons y mid =>
      obtain ⟨rfl, -⟩ := cons.inj hrest
      exact absurd (by simp) hx

theorem quiet_of_pause (h : ∀ event ∈ before, ∃ application, event.1 = .pause application) :
    ∀ event ∈ before, event.1.isCreate = false ∧ event.1.isCleaning = false ∧
      event.1.isResume = false := by
  intro event hevent
  obtain ⟨application, hcall⟩ := h event hevent
  rw [hcall]
  exact ⟨rfl, rfl, rfl⟩

theorem quiet_of_opening (h : event.1.isOpening = true) :
    event.1.isCleaning = false ∧ event.1.isResume = false := by
  revert h
  generalize event.1 = call
  cases call <;> simp [Call.isOpening, Call.isCleaning, Call.isResume]

theorem quiet_of_cleaning (h : event.1.isCleaning = true) :
    event.1.isCreate = false ∧ event.1.isResume = false := by
  revert h
  generalize event.1 = call
  cases call <;> simp [Call.isCleaning, Call.isCreate, Call.isResume]

theorem quiet_of_closing {closing : List (Event world)}
    (h : Returns (releaseQuiesce request) closing (quiesce, failure)) :
    ∀ event ∈ closing, event.1.isCreate = false ∧ event.1.isCleaning = false := by
  intro event hevent
  rcases returns_releaseQuiesce h with ⟨-, rfl, -⟩ | ⟨quiescing, answer, -, rfl, -⟩
  · simp at hevent
  · rw [mem_singleton.1 hevent]
    exact ⟨rfl, rfl⟩

/-- A preparation whose window was opened; `before` is the pause, if there was one. -/
structure Phases (request : ApplyRequest) (events before : List (Event world))
    (report : PrepareReport) (result : Except ErrorValue Prepared) where
  window : List (Event world)
  state : PrepareState
  closing : List (Event world)
  quiesce : Option QuiesceReport
  resumeFailure : Option ErrorValue
  cleaning : List (Event world)
  pauses : ∀ event ∈ before, ∃ application, event.1 = .pause application
  returns_window : Returns (prepareActions request request.protection .initial) window state
  returns_closing : Returns (releaseQuiesce request) closing (quiesce, resumeFailure)
  events_eq : events = before ++ (window ++ (closing ++ cleaning))
  ended : Ended request state quiesce resumeFailure cleaning report result

namespace Phases

variable {before : List (Event world)} {report : PrepareReport}
  {result : Except ErrorValue Prepared} (phases : Phases request events before report result)

include phases

theorem window_infix : phases.window <:+: events := by
  refine ⟨before, phases.closing ++ phases.cleaning, Eq.trans ?_ phases.events_eq.symm⟩
  rw [append_assoc]

theorem closing_subset : phases.closing ⊆ events := by
  intro event hevent
  refine (congrArg (event ∈ ·) phases.events_eq).mpr ?_
  simp [hevent]

theorem created_eq : report.created.map (·.id) = creations events := by
  obtain ⟨hcreated, -⟩ := returns_prepareActions_created phases.returns_window rfl
  rw [phases.events_eq, creations_append, creations_append, creations_append,
    creations_eq_nil fun event hevent => (quiet_of_pause phases.pauses event hevent).1,
    creations_eq_nil fun event hevent => (quiet_of_closing phases.returns_closing event hevent).1,
    creations_eq_nil fun event hevent => (quiet_of_cleaning (phases.ended.cleaning event hevent)).1,
    phases.ended.created_eq, hcreated]
  simp [PrepareState.initial]

theorem removed_eq : report.removed = removals events := by
  have hwindow : ∀ event ∈ phases.window, event.1.isCleaning = false := fun event hevent =>
    (quiet_of_opening (opening_prepareActions.of_mem phases.returns_window hevent)).1
  rw [phases.events_eq, removals_append, removals_append, removals_append,
    removals_eq_nil fun event hevent => (quiet_of_pause phases.pauses event hevent).2.1,
    removals_eq_nil hwindow,
    removals_eq_nil fun event hevent => (quiet_of_closing phases.returns_closing event hevent).2]
  exact phases.ended.reports.1

theorem count_eq (id : RecoveryAssetId) :
    report.removed.count id + report.kept.count id = (creations events).count id := by
  rw [← phases.created_eq]
  exact phases.ended.reports.2 id

/-- Where there is a window, it is closed once, after the last asset was created. -/
theorem resumed_once {quiescing : Quiescing} (h : request.quiesce = some quiescing) :
    ∃ earlier answer after,
      events = earlier ++ (⟨.resume quiescing.application, answer⟩ : Event world) :: after ∧
        (∀ event ∈ earlier ++ after, event.1.isResume = false) ∧
        ∀ event ∈ after, event.1.isCreate = false := by
  rcases returns_releaseQuiesce phases.returns_closing with
    ⟨hnone, -⟩ | ⟨quiescing', answer, hquiesce, hclosing, -⟩
  · cases hnone.symm.trans h
  · cases hquiesce.symm.trans h
    refine ⟨before ++ phases.window, answer, phases.cleaning, ?_, ?_, ?_⟩
    · refine phases.events_eq.trans ?_
      rw [hclosing, append_assoc]
      rfl
    · intro event hevent
      simp only [mem_append] at hevent
      rcases hevent with (hbefore | hwindow) | hcleaning
      · exact (quiet_of_pause phases.pauses event hbefore).2.2
      · exact (quiet_of_opening (opening_prepareActions.of_mem phases.returns_window hwindow)).2
      · exact (quiet_of_cleaning (phases.ended.cleaning event hcleaning)).2
    · exact fun event hevent => (quiet_of_cleaning (phases.ended.cleaning event hevent)).1

/-- A removal that was asked for was safe, and the window was closed before it. -/
theorem removable {earlier after : List (Event world)}
    (h : events = earlier ++ (⟨.cleanup provider asset, answer⟩ : Event world) :: after) :
    Removable request earlier report.created provider asset := by
  have hopening : (⟨.cleanup provider asset, answer⟩ : Event world) ∉
      before ++ (phases.window ++ phases.closing) := by
    intro hmem
    simp only [mem_append] at hmem
    rcases hmem with hbefore | hwindow | hclosing
    · cases (quiet_of_pause phases.pauses _ hbefore).2.1
    · cases (quiet_of_opening (opening_prepareActions.of_mem phases.returns_window hwindow)).1
    · cases (quiet_of_closing phases.returns_closing _ hclosing).2
  have hcut : before ++ (phases.window ++ phases.closing) ++ phases.cleaning =
      earlier ++ (⟨.cleanup provider asset, answer⟩ : Event world) :: after := by
    refine Eq.trans ?_ (phases.events_eq.symm.trans h)
    simp only [append_assoc]
  obtain ⟨mid, rfl, hcleaning⟩ := append_eq_append_cons hcut hopening
  obtain ⟨hcreated, hprovider, hpermitted⟩ := phases.ended.permitted hcleaning
  obtain ⟨capabilitiesBefore, capabilities, hmid, hcleanup⟩ := hpermitted.declared
  refine ⟨⟨hcreated, hpermitted.source⟩, hprovider,
    ⟨before ++ (phases.window ++ phases.closing) ++ capabilitiesBefore, capabilities, ?_, hcleanup⟩,
    hpermitted.held, hpermitted.unheld, ?_, ?_⟩
  · rw [hmid, hprovider, append_assoc _ capabilitiesBefore]
  · intro quiescing hquiescing
    rcases returns_releaseQuiesce phases.returns_closing with
      ⟨hnone, -⟩ | ⟨quiescing', answer', hquiesce, hclosing, ⟨rfl, -⟩ | ⟨_, -, -, hholds⟩⟩
    · cases hnone.symm.trans hquiescing
    · cases hquiesce.symm.trans hquiescing
      rw [hclosing]
      simp
    · cases hholds.symm.trans hpermitted.released
  · intro other hother hdepends
    exact hpermitted.independent (mem_flatMap.2 ⟨other, hother, hdepends⟩)

end Phases

/-- A preparation is refused its pause, or goes through its phases. -/
theorem returns_prepare_phases {report : PrepareReport}
    (h : Returns (prepare request) events (report, result)) :
    (∃ quiescing refusal, request.quiesce = some quiescing ∧
        events = [⟨.pause quiescing.application, .error refusal⟩] ∧ result = .error refusal ∧
        report.failurePoint = some .applicationQuiesce ∧ report.created = [] ∧
        report.cleanupReport = none) ∨
      ∃ before, Nonempty (Phases request events before report result) := by
  unfold prepare at h
  split at h
  · obtain ⟨window, state, closing, quiesce, resumeFailure, cleaning, hwindow, hclosing, hevents,
      hended⟩ := returns_prepareQuiesced h
    exact .inr ⟨[], ⟨window, state, closing, quiesce, resumeFailure, cleaning, by simp, hwindow,
      hclosing, hevents, hended⟩⟩
  · next quiescing hquiesce =>
    rw [ask_bind] at h
    obtain ⟨answer, tail, rfl, htail⟩ := returns_call.1 h
    cases answer with
    | error refusal =>
      obtain ⟨rfl, hresult⟩ := returns_ret.1 htail
      cases hresult
      exact .inl ⟨quiescing, refusal, hquiesce, rfl, rfl, rfl, rfl, rfl⟩
    | ok _ =>
      obtain ⟨window, state, closing, quiesce, resumeFailure, cleaning, hwindow, hclosing, rfl,
        hended⟩ := returns_prepareQuiesced htail
      exact .inr ⟨[⟨.pause quiescing.application, .ok ()⟩], ⟨window, state, closing, quiesce,
        resumeFailure, cleaning, by simp, hwindow, hclosing, rfl, hended⟩⟩

/-- **Preparation closes what it opens, and reports by identity.** The window is closed once and in
time, a failure answers for what failed, and only what may be removed is removed. Every asset is in
exactly one of the two reports exactly when a provider that removes an asset of the preparation
removes every asset that was created under its identity. -/
theorem closesWhatItOpened_iff {report : PrepareReport} {result : Except ErrorValue Prepared}
    (h : Returns (prepare request) events (report, result)) :
    ClosesWhatItOpened request events report result ↔ RemovesWholeIdentities events := by
  rcases returns_prepare_phases h with
    ⟨quiescing, refusal, hquiesce, rfl, rfl, hpoint, hcreated, hnone⟩ | ⟨before, ⟨phases⟩⟩
  · refine iff_of_true ⟨?_, ?_, ?_, ?_, ?_, ?_⟩ ?_
    · intro quiescing' _ hpaused
      have hevent := mem_singleton.1 hpaused
      simp at hevent
    · intro refusal' hresult
      cases hresult
      exact ⟨_, hpoint, .pause hquiesce mem_cons_self⟩
    · rw [hcreated]
      rfl
    · rw [PrepareReport.removed, hnone]
      rfl
    · intro id hid
      simp [creations, creation] at hid
    · intro earlier provider asset answer after hevents
      have hmem : (⟨.cleanup provider asset, answer⟩ : Event world) ∈
          [⟨.pause quiescing.application, .error refusal⟩] := by
        rw [hevents]
        simp
      cases mem_singleton.1 hmem
    · intro id hid
      simp [removals, removal] at hid
  · have haccounted := xor_mem_iff phases.count_eq
    rw [phases.removed_eq] at haccounted
    constructor
    · intro hcloses
      exact haccounted.1 (phases.removed_eq ▸ hcloses.accounted)
    · intro hwhole
      refine ⟨fun quiescing hquiesce _ => phases.resumed_once hquiesce, ?_, phases.created_eq,
        phases.removed_eq, ?_, fun _ _ _ _ _ => phases.removable⟩
      · rintro refusal rfl
        exact phases.ended.blamed phases.returns_window phases.returns_closing
          phases.window_infix phases.closing_subset
      · rw [phases.removed_eq]
        exact haccounted.2 hwhole

end Preparation

/-! ### Two copies under one identity -/

namespace Copies

/-- A plan that replaces the configuration of a host. -/
def plan : ChangePlan where
  id := ⟨"a", by decide⟩
  revision := 1
  kind := .change
  state := .sealed
  intent := ⟨"replace /etc", "plan { replace /etc }"⟩
  session := "session-1"
  createdAt := 0
  sealedAt := some 1
  expiresAt := none
  targets := []
  actions := []
  impact := .empty
  protection := .empty
  protectionMode := .prefer
  risk := .empty
  strategy := .sequential
  verification := .empty
  providers := []
  digest := none
  supersedes := none

/-- A copy of a directory, made for the plan. All of them were made at one instant, in one domain,
by one provider, which is what an asset is named by. -/
def copy (directory : String) : RecoveryAsset where
  id := ⟨"1", by decide⟩
  provider := "files"
  assetType := .fileArchive
  reference := directory
  scope := ⟨"/", "filesystem", [directory], "host"⟩
  createdAt := 0
  sourcePlan := some plan.id
  state := .proposed
  consistency := .byteConsistent
  restoreMethod := .selectiveFileRestore
  validation := none
  retention := ⟨10, false⟩
  cost := ⟨none, none, false, none, none, none, false, false, none⟩
  dependencies := []
  exclusions := []
  capturedState := none
  expiresAt := none
  sharesFailureDomain := false

/-- A copy of a directory that the plan requires from a provider. -/
def action (provider directory : String) : ProtectionAction where
  provider := provider
  summary := directory
  candidate := {
    provider := provider
    scope := (copy directory).scope
    domain := .filesystemPersistent
    objective := .preserveExact
    consistency := .byteConsistent
    restoreMethod := .selectiveFileRestore
    cost := (copy directory).cost
    exclusions := []
    creationRequirements := []
    restoreRequirements := []
    notProtecting := []
    detail := "" }
  proposedAsset := copy directory
  required := true

/-- An apply of the plan that cleans up. Its third copy is asked of a provider that is not there. -/
def request : ApplyRequest where
  plan := plan
  protection := [action "files" "/etc/a", action "files" "/etc/b", action "zfs" "/etc/c"]
  providers := ["files"]
  now := 2
  authority := { change := [], recovery := [.prepare, .cleanup], elevated := false }
  quiesce := some ⟨"nginx", 5⟩
  cleanup := .removeWherePermitted
  session := "session-1"
  stamped := false
  resume := false

/-- A check that an asset passed. -/
def checked : RecoveryValidation where
  exists' := true
  identityMatches := true
  scopeMatches := true
  restoreAvailable := true
  permissionsPresent := true
  at' := 2
  detail := ""

/-- What the providers do: two copies are made, the third is not, and then the first is removed and
the second as `answer` says. -/
def events (answer : Except ErrorValue Unit) : List (Event world) :=
  let first := (copy "/etc/a").validated checked
  let second := (copy "/etc/b").validated checked
  [⟨.pause "nginx", .ok ()⟩,
    ⟨.create "files" (action "files" "/etc/a"), .ok (copy "/etc/a")⟩,
    ⟨.validate "files" (copy "/etc/a"), .ok checked⟩,
    ⟨.create "files" (action "files" "/etc/b"), .ok (copy "/etc/b")⟩,
    ⟨.validate "files" (copy "/etc/b"), .ok checked⟩,
    ⟨.resume "nginx", .ok ()⟩,
    ⟨.capabilities "files", [cleanup]⟩,
    ⟨.cleanup "files" first, .ok ()⟩,
    ⟨.capabilities "files", [cleanup]⟩,
    ⟨.cleanup "files" second, answer⟩]

/-- What the preparation reports, with what the cleaning up did. -/
def report (cleanup : CleanupReport) : PrepareReport where
  created := [(copy "/etc/a").validated checked, (copy "/etc/b").validated checked]
  shortfall := []
  cleanupReport := some cleanup
  quiesceReport := some ⟨"nginx", 5, true, true, none⟩
  failurePoint := some .recoveryAssetCreation

/-- The identity that both copies have. -/
def shared : RecoveryAssetId :=
  ⟨"1", by decide⟩

/-- What the second removal is refused with. -/
def gone : ErrorValue :=
  .providerUnavailable "files"

theorem returns_removed : Returns (prepare request) (events (.ok ()))
    (report ⟨[shared, shared], [], []⟩,
      .error (.prepareFailed plan.id "recovery-asset-creation")) :=
  .cons (.cons (.cons (.cons (.cons (.cons (.cons (.cons (.cons (.cons (.nil _))))))))))

theorem returns_refused : Returns (prepare request) (events (.error gone))
    (report ⟨[shared], [(shared, "the provider could not remove it")], [gone]⟩,
      .error (.prepareFailed plan.id "recovery-asset-creation")) :=
  .cons (.cons (.cons (.cons (.cons (.cons (.cons (.cons (.cons (.cons (.nil _))))))))))

end Copies

theorem closesWhatItOpened_copies :
    ClosesWhatItOpened Copies.request (Copies.events (.ok ()))
      (Copies.report ⟨[Copies.shared, Copies.shared], [], []⟩)
      (.error (.prepareFailed Copies.plan.id "recovery-asset-creation")) := by
  refine (closesWhatItOpened_iff Copies.returns_removed).2 fun id hid => ?_
  have hshared : removals (Copies.events (.ok ())) = creations (Copies.events (.ok ())) := rfl
  rw [hshared]

theorem not_closesWhatItOpened_copies :
    ¬ ∀ request events report result, Returns (prepare request) events (report, result) →
      ClosesWhatItOpened request events report result := by
  intro h
  have haccounted := (h _ _ _ _ Copies.returns_refused).accounted Copies.shared
    (by simp [creations, creation, Copies.events, Copies.copy, Copies.shared])
  rcases haccounted with ⟨-, hkept⟩ | ⟨-, hremoved⟩
  · exact hkept mem_cons_self
  · exact hremoved mem_cons_self

end OnoSendai
