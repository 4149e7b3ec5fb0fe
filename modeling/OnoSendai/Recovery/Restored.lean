import OnoSendai.Recovery.Builder

/-!
# What a recovery plan claims to restore

A recovery plan restores from one asset, the one whose offer was chosen. It is honest when that
asset holds every object the plan says it restores, and when every persistent effect on an object
that does not come back is listed as unrecoverable. The planning asks whether any asset covers an
object; the plan is honest exactly when the chosen one does.
-/

namespace OnoSendai.Recovery

open Vector

section Request

variable (request : RecoveryRequest)

/-- The offer the provider of an asset makes for it. -/
def offerOf (asset : RecoveryAsset) : Option MethodOffer :=
  offerFor request.registry request.source request.goal asset

/-- The asset an offer was made for, the first where several made the same. -/
def Behind (offer : MethodOffer) (asset : RecoveryAsset) : Prop :=
  ∃ before after, request.assets = before ++ asset :: after ∧
    offerOf request asset = some offer ∧ ∀ earlier ∈ before, offerOf request earlier ≠ some offer

/-- The first asset whose provider offers an acceptable method that is the least destructive of the
acceptable ones, with that offer. -/
def PreferredBy (asset : RecoveryAsset) (offer : MethodOffer) : Prop :=
  FirstChoice request.registry request.source request.goal request.forcedMethod
    request.requiredMetadata request.requiredSemantics request.assets asset offer

/-- The first asset whose provider offers an acceptable method that is the least destructive of the
acceptable ones. -/
def Preferred (asset : RecoveryAsset) : Prop :=
  ∃ offer, PreferredBy request asset offer

/-- A recovery plan that claims no more than an asset restores: the asset covers every object in the
restore set, and every persistent effect of a mutating action of the recovered plan on an object
that does not come back is among the unrecoverable effects. -/
structure Honest (recovery : RecoveryPlan) (asset : RecoveryAsset) : Prop where
  restores_covered : ∀ object ∈ recovery.restores, asset.scope.coversObject object = true
  effects_listed : ∀ source ∈ request.source, ∀ action ∈ source.actions,
    action.role.mutatesTarget = true → ∀ effect ∈ action.effects,
      effect.domain.isPersistent = true → ∀ object ∈ effect.object,
        asset.scope.coversObject object = false ∨ object ∉ recovery.restores →
          ∃ listed ∈ recovery.unrecoverable,
            listed.subject = object ∧ listed.domain = effect.domain

end Request

variable {sha256 : Sha256} {render : Renderings} {request : RecoveryRequest}
  {recovery : RecoveryPlan} {selection : MethodSelection} {asset other : RecoveryAsset}
  {offer : MethodOffer}

/-! ### The asset behind the plan -/

theorem PreferredBy.behind (h : PreferredBy request asset offer) : Behind request offer asset := by
  obtain ⟨before, after, hassets, hbefore⟩ := h.first
  refine ⟨before, after, hassets, h.offered, fun earlier hearlier hoffer => ?_⟩
  exact hbefore offer (List.mem_filterMap.mpr ⟨earlier, hearlier, hoffer⟩) h.acceptable rfl

theorem Behind.unique (h : Behind request offer asset) (h' : Behind request offer other) :
    asset = other := by
  obtain ⟨before, after, hassets, hoffer, hbefore⟩ := h
  obtain ⟨before', after', hassets', hoffer', hbefore'⟩ := h'
  rcases append_cons_cases (hassets.symm.trans hassets') with ⟨-, rfl⟩ | hin | hin
  · rfl
  · exact absurd hoffer (hbefore' asset hin)
  · exact absurd hoffer' (hbefore other hin)

theorem behind_chosen_iff
    (h : planRecoveryExplained request sha256 render = .ok (recovery, selection)) :
    Behind request selection.chosen asset ↔ Preferred request asset := by
  obtain ⟨chosen, hchosen⟩ := exists_firstChoice h
  have hbehind : Behind request selection.chosen chosen := PreferredBy.behind hchosen
  constructor
  · intro hasset
    rw [hasset.unique hbehind]
    exact ⟨_, hchosen⟩
  · rintro ⟨offer, hoffer⟩
    rw [(FirstChoice.unique hoffer hchosen).1]
    exact hbehind

/-! ### What is listed -/

theorem exists_mem_foldl_pushUnique {effects : List UnrecoverableEffect}
    {effect : UnrecoverableEffect} (h : effect ∈ effects) :
    ∃ listed ∈ effects.foldl pushUnique [],
      listed.subject = effect.subject ∧ listed.domain = effect.domain := by
  obtain ⟨listed, hlisted, hkey⟩ :=
    Keyed.exists_mem_firstKept (fun effect => (effect.subject, effect.domain)) h
  exact ⟨listed, hlisted, Prod.mk.inj hkey⟩

/-- A persistent effect on an object that is not restored is beyond reach. -/
theorem exists_classifyEffect {restored : List String} {effect : ProposedEffect} {object : String}
    (hobject : effect.object = some object) (hpersistent : effect.domain.isPersistent = true)
    (hrestored : object ∉ restored) :
    ∃ left, classifyEffect request restored effect = some left ∧
      left.subject = object ∧ left.domain = effect.domain := by
  have hnot : restored.any (· = object) = false := by
    refine List.any_eq_false.mpr fun found hfound => ?_
    simpa using fun heq : found = object => hrestored (heq ▸ hfound)
  unfold classifyEffect
  rw [hobject]
  by_cases hemit : effect.kind = .emit
  · rw [if_pos hemit]
    exact ⟨_, rfl, rfl, rfl⟩
  · rw [if_neg hemit]
    cases hdomain : effect.domain with
    | filesystemPersistent | blockStoragePersistent | applicationPersistent
    | identitySecurityState =>
      simp [hnot, EffectDomain.isPersistent]
    | processRuntime | kernelRuntime | networkRuntime | remoteSystem | externalSideEffect
    | providerTransactionState | unknown =>
      simp [hdomain, EffectDomain.isPersistent] at hpersistent

/-- Every persistent effect of a mutating action on an object that is not restored is listed. -/
theorem exists_mem_unrecoverable {fragment : RecoveryPlanFragment} {restored : List String}
    {source : ChangePlan} {action : PlanAction} {effect : ProposedEffect} {object : String}
    (hsource : request.source = some source) (haction : action ∈ source.actions)
    (hmutates : action.role.mutatesTarget = true) (heffect : effect ∈ action.effects)
    (hobject : effect.object = some object) (hpersistent : effect.domain.isPersistent = true)
    (hrestored : object ∉ restored) :
    ∃ listed ∈ unrecoverable request fragment restored,
      listed.subject = object ∧ listed.domain = effect.domain := by
  obtain ⟨left, hleft, hsubject, hdomain⟩ :=
    @exists_classifyEffect request _ _ _ hobject hpersistent hrestored
  have hleaves : left ∈ actionLeaves request restored action := by
    rw [actionLeaves, if_neg (by simp [hmutates])]
    exact List.mem_append_right _ (List.mem_filterMap.mpr ⟨effect, heffect, hleft⟩)
  have hall : left ∈ fragment.unrecoverable ++
      ((request.source.map (·.actions)).getD []).flatMap (actionLeaves request restored) := by
    rw [hsource]
    exact List.mem_append_right _ (List.mem_flatMap.mpr ⟨action, haction, hleaves⟩)
  obtain ⟨listed, hlisted, hsame, hsameDomain⟩ := exists_mem_foldl_pushUnique hall
  exact ⟨listed, hlisted, hsame.trans hsubject, hsameDomain.trans hdomain⟩

/-! ### When a plan is honest -/

/-- **When a plan is honest.** A recovery plan claims no more than the asset of the chosen offer
restores exactly when the preferred asset covers every object that is wanted. -/
theorem honest_iff
    (h : planRecoveryExplained request sha256 render = .ok (recovery, selection)) :
    (∀ asset, Behind request selection.chosen asset → Honest request recovery asset) ↔
      ∀ asset, Preferred request asset → ∀ object, Wanted request object →
        asset.scope.coversObject object = true := by
  obtain ⟨-, hrestores, -, hunrecoverable, -⟩ := planRecoveryExplained_eq_ok h
  have hwanted (object : String) : object ∈ recovery.restores ↔ Wanted request object := by
    rw [hrestores, mem_restoreSet]
  constructor
  · intro honest asset hasset object hobject
    exact (honest asset ((behind_chosen_iff h).mpr hasset)).restores_covered object
      ((hwanted object).mpr hobject)
  · intro hcovers asset hbehind
    have hasset := hcovers asset ((behind_chosen_iff h).mp hbehind)
    refine ⟨fun object hobject => hasset object ((hwanted object).mp hobject), ?_⟩
    intro source hsource action haction hmutates effect heffect hpersistent object hobject hout
    have hrestored : object ∉ recovery.restores := by
      rcases hout with hcovered | hrestored
      · intro hmem
        rw [hasset object ((hwanted object).mp hmem)] at hcovered
        cases hcovered
      · exact hrestored
    rw [hunrecoverable]
    exact exists_mem_unrecoverable hsource haction hmutates heffect hobject hpersistent
      (hrestores ▸ hrestored)

/-! ### Two files -/

/-- A recovery point of files, ready to restore from. -/
def fileAsset (name : String) (objects : List String) (createdAt : Int) : RecoveryAsset where
  id := RecoveryAssetId.of (fun _ => replicate 32 0) "ono.files" none name name
  provider := "ono.files"
  assetType := .fileArchive
  reference := name
  scope := ⟨name, "file", objects, "local"⟩
  createdAt := createdAt
  sourcePlan := none
  state := .ready
  consistency := .byteConsistent
  restoreMethod := .selectiveFileRestore
  validation := none
  retention := ⟨0, false⟩
  cost := ⟨none, none, true, none, none, none, false, false, none⟩
  dependencies := []
  exclusions := []
  capturedState := none
  expiresAt := none
  sharesFailureDomain := false

/-- Renderings that show nothing. -/
def blankRenderings : Renderings where
  float _ := ""
  path _ := ""
  ip _ := ""
  timestamp _ := ""
  debug _ := ""
  duration _ := ""

/-- A provider that restores the files of an asset by one action. -/
def filePlanner (method : RestoreMethod) : RecoveryPlanner where
  id := "ono.files"
  availability := .available "1"
  resolveDomain _ := .ok none
  discover _ _ := .ok []
  planProtection _ _ := .ok []
  planRecovery asset _ _ := .ok
    { RecoveryPlanFragment.new "ono.files" method with
      actions := [PlanAction.new (fun _ => replicate 32 0)
        (PlanId.of (fun _ => replicate 32 0) "session-1" "" "") 1 .recover
        ("restore from " ++ asset.reference)
        (.recoveryOperation "ono.files" "recovery.restore" [])]
      metadata := .contentOnly }

/-- A recovery of files from assets. -/
def fileRequest (assets : List RecoveryAsset) (observe : String → ObservedState) :
    RecoveryRequest :=
  .new ⟨[filePlanner .selectiveFileRestore], by simp⟩ assets observe .restoreChangedObjects
    "session-1" 0

@[simp]
theorem assets_fileRequest (assets : List RecoveryAsset) (observe : String → ObservedState) :
    (fileRequest assets observe).assets = assets :=
  rfl

theorem honest_iff_oneFile :
    ∃ recovery selection,
      planRecoveryExplained
          (fileRequest [fileAsset "a" ["/etc/a"] 0] fun _ => .present none "old")
          (fun _ => replicate 32 0) blankRenderings = .ok (recovery, selection) ∧
        ∀ asset, Behind (fileRequest [fileAsset "a" ["/etc/a"] 0] fun _ => .present none "old")
            selection.chosen asset →
          Honest (fileRequest [fileAsset "a" ["/etc/a"] 0] fun _ => .present none "old")
            recovery asset := by
  have hok : (planRecoveryExplained
      (fileRequest [fileAsset "a" ["/etc/a"] 0] fun _ => .present none "old")
      (fun _ => replicate 32 0) blankRenderings).toOption.isSome = true := by
    decide +kernel
  cases hplan : planRecoveryExplained
      (fileRequest [fileAsset "a" ["/etc/a"] 0] fun _ => .present none "old")
      (fun _ => replicate 32 0) blankRenderings with
  | error error =>
    rw [hplan] at hok
    cases hok
  | ok made =>
    refine ⟨made.1, made.2, rfl, (honest_iff hplan).mpr ?_⟩
    rintro asset ⟨offer, hoffer⟩ object hobject
    obtain rfl : asset = fileAsset "a" ["/etc/a"] 0 := by simpa using FirstChoice.mem hoffer
    rcases hobject with hasked | ⟨-, hchanged | ⟨-, covering, hcovering, hobject⟩⟩
    · cases hasked
    · obtain ⟨source, hsource, -⟩ := hchanged
      cases hsource
    · obtain rfl : covering = fileAsset "a" ["/etc/a"] 0 := by simpa using hcovering
      exact coversObject_iff.mpr hobject

/-- **A plan that claims too much.** Of two archives of one file each the first is restored from,
and the plan claims both files. -/
theorem not_honest_twoFiles :
    ¬ ∀ (sha256 : Sha256) (render : Renderings) (request : RecoveryRequest)
        (recovery : RecoveryPlan) (selection : MethodSelection),
      planRecoveryExplained request sha256 render = .ok (recovery, selection) →
        ∀ asset, Behind request selection.chosen asset → Honest request recovery asset := by
  intro hall
  have hok : (planRecoveryExplained
      (fileRequest [fileAsset "a" ["/etc/a"] 0, fileAsset "b" ["/etc/b"] 0]
        fun _ => .present none "old")
      (fun _ => replicate 32 0) blankRenderings).toOption.isSome = true := by
    decide +kernel
  cases hplan : planRecoveryExplained
      (fileRequest [fileAsset "a" ["/etc/a"] 0, fileAsset "b" ["/etc/b"] 0]
        fun _ => .present none "old")
      (fun _ => replicate 32 0) blankRenderings with
  | error error =>
    rw [hplan] at hok
    cases hok
  | ok made =>
    obtain ⟨asset, hasset⟩ := exists_firstChoice hplan
    have honest := hall _ _ _ _ _ hplan asset (PreferredBy.behind hasset)
    have hrestores : ∀ object ∈ ["/etc/a", "/etc/b"], asset.scope.coversObject object = true := by
      intro object hobject
      refine honest.restores_covered object ?_
      rw [(planRecoveryExplained_eq_ok hplan).2.1]
      revert object
      decide +kernel
    have hin : asset = fileAsset "a" ["/etc/a"] 0 ∨ asset = fileAsset "b" ["/etc/b"] 0 := by
      simpa using FirstChoice.mem hasset
    rcases hin with rfl | rfl <;> revert hrestores <;> decide +kernel

end OnoSendai.Recovery
