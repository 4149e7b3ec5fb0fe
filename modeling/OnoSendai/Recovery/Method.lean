import OnoSendai.Recovery.Plan

/-!
# Choosing how to restore

Every provider that holds one of the assets is asked how it would restore from it. Offers that
cannot meet the goal, the metadata or the semantics the recovery requires are passed over, and of
the others the first with the least destructive method is chosen. The choice looks at methods; it
does not look at what the assets hold.
-/

namespace OnoSendai.Recovery

open Vocabulary List

open Protection (ProviderRefusal)

/-! ### Offers -/

/-- One provider's answer about one asset. -/
structure MethodOffer where
  provider : String
  asset : RecoveryAssetId
  reference : String
  fragment : RecoveryPlanFragment
  preserves : List String

namespace MethodOffer

/-- The method it would use. -/
def method (offer : MethodOffer) : RestoreMethod :=
  offer.fragment.method

/-- Which file metadata the restore puts back. -/
def metadata (offer : MethodOffer) : MetadataCoverage :=
  offer.fragment.metadata

end MethodOffer

/-- What the providers offered, and who could not be asked. -/
structure MethodOffers where
  offers : List MethodOffer
  refusals : List ProviderRefusal

namespace MethodOffers

/-- The answer before any provider was asked. -/
def empty : MethodOffers where
  offers := []
  refusals := []

/-- Adds an offer. -/
def with' (answer : MethodOffers) (offer : MethodOffer) : MethodOffers :=
  { answer with offers := answer.offers ++ [offer] }

/-- Records a provider that could not be asked. -/
def refusing (answer : MethodOffers) (provider reason : String) (error : ErrorValue) :
    MethodOffers :=
  { answer with refusals := answer.refusals ++ [⟨provider, reason, error⟩] }

end MethodOffers

section Asking

variable (registry : PlannerRegistry) (source : Option ChangePlan) (goal : RecoveryGoal)

/-- The answer with what the provider of one more asset says. -/
def asking (answer : MethodOffers) (asset : RecoveryAsset) : MethodOffers :=
  match registry.get asset.provider with
  | none =>
    answer.refusing asset.provider
      ("no provider with this id is registered, so the asset " ++ asset.reference ++
        " cannot be restored from")
      (.providerUnavailable asset.provider)
  | some planner =>
    if !planner.availability.isAvailable then
      answer.refusing planner.id
        (planner.availability.reason.getD "the provider did not say why")
        (.providerUnavailable planner.id)
    else
      match planner.planRecovery asset source goal with
      | .ok fragment => answer.with' ⟨planner.id, asset.id, asset.reference, fragment, []⟩
      | .error error => answer.refusing planner.id error.message error

/-- Asks each provider that holds one of the assets how it would restore. -/
def offers (assets : List RecoveryAsset) : MethodOffers :=
  assets.foldl (asking registry source goal) .empty

/-- The offer the provider of an asset makes for it, if it makes one. -/
def offerFor (asset : RecoveryAsset) : Option MethodOffer :=
  (registry.get asset.provider).bind fun planner =>
    if planner.availability.isAvailable then
      (planner.planRecovery asset source goal).toOption.map fun fragment =>
        ⟨planner.id, asset.id, asset.reference, fragment, []⟩
    else
      none

variable {registry source goal}

theorem offers_asking (answer : MethodOffers) (asset : RecoveryAsset) :
    (asking registry source goal answer asset).offers =
      answer.offers ++ (offerFor registry source goal asset).toList := by
  unfold asking offerFor
  cases registry.get asset.provider with
  | none => simp [MethodOffers.refusing]
  | some planner =>
    cases havailable : planner.availability.isAvailable with
    | false => simp [MethodOffers.refusing, havailable]
    | true =>
      cases hplan : planner.planRecovery asset source goal with
      | ok fragment => simp [MethodOffers.with', hplan, Except.toOption, havailable]
      | error error => simp [MethodOffers.refusing, hplan, Except.toOption, havailable]

theorem offers_offers (assets : List RecoveryAsset) :
    (offers registry source goal assets).offers =
      assets.filterMap (offerFor registry source goal) := by
  have hfold (answer : MethodOffers) : (assets.foldl (asking registry source goal) answer).offers =
      answer.offers ++ assets.filterMap (offerFor registry source goal) := by
    induction assets generalizing answer with
    | nil => simp
    | cons asset rest ih =>
      rw [foldl_cons, ih, offers_asking, filterMap_cons]
      cases offerFor registry source goal asset <;> simp
  exact hfold .empty

end Asking

/-! ### The choice -/

/-- Why an offered method was not chosen. -/
inductive MethodRejection
  | goalUnsatisfied
  | metadataShortfall
  | semanticShortfall
  | dominated

/-- A method that was offered and not chosen. -/
structure RejectedMethod where
  provider : String
  method : RestoreMethod
  reason : MethodRejection
  unmet : List String
  detail : String

/-- What a choice is made from. -/
structure MethodRequest where
  goal : RecoveryGoal
  offers : MethodOffers
  requiredMetadata : MetadataCoverage
  requiredSemantics : List String
  forced : Option String

/-- The offer that won, and the ones that did not. -/
structure MethodSelection where
  chosen : MethodOffer
  rejected : List RejectedMethod

/-- The metadata that is required and not offered. -/
def unmetMetadata (required offered : MetadataCoverage) : List String :=
  [(required.content, offered.content, "content"), (required.mode, offered.mode, "mode"),
    (required.owner, offered.owner, "owner/group"), (required.acl, offered.acl, "ACLs"),
    (required.xattrs, offered.xattrs, "extended attributes"),
    (required.capabilities, offered.capabilities, "file capabilities"),
    (required.selinux, offered.selinux, "SELinux labels"),
    (required.hardlinks, offered.hardlinks, "hard-link relationships")].filterMap
    fun (wanted, present, name) => if wanted && !present then some name else none

/-- The semantics that are required and not preserved. -/
def unmetSemantics (required preserved : List String) : List String :=
  required.filter (· ∉ preserved)

/-- An offer that loses to another method. -/
def dominated (offer : MethodOffer) (detail : String) : RejectedMethod where
  provider := offer.provider
  method := offer.method
  reason := .dominated
  unmet := []
  detail := detail

/-- The refusal of a method outside the closed list. -/
def unknownMethod (name : String) : ErrorValue :=
  .actionNotPlannable ("restore method `" ++ name ++ "`")

/-- The refusal when no offer meets the goal. -/
def nothingMeetsTheGoal : ErrorValue :=
  .recoveryPlanIncomplete "a restore method that meets the recovery goal"

/-- Why an offer is passed over before the methods are compared, if it is. -/
def rejection (request : MethodRequest) (forced : Option RestoreMethod) (offer : MethodOffer) :
    Option RejectedMethod :=
  let metadata := unmetMetadata request.requiredMetadata offer.metadata
  let semantics := unmetSemantics request.requiredSemantics offer.preserves
  if forced.any (offer.method ≠ ·) then
    some (dominated offer "the operator named a different method")
  else if (chooseMethod request.goal [offer.method]).isNone then
    some
      { provider := offer.provider
        method := offer.method
        reason := .goalUnsatisfied
        unmet := [asStr request.goal]
        detail := "Appendix C.2: " ++ asStr offer.method ++ " cannot achieve " ++
          asStr request.goal }
  else if !metadata.isEmpty then
    some
      { provider := offer.provider
        method := offer.method
        reason := .metadataShortfall
        unmet := metadata
        detail := "Appendix C.7: " ++ asStr offer.method ++ " does not restore " ++
          ", ".intercalate metadata }
  else if !semantics.isEmpty then
    some
      { provider := offer.provider
        method := offer.method
        reason := .semanticShortfall
        unmet := semantics
        detail := "Appendix C.1: " ++ asStr offer.method ++ " cannot preserve " ++
          ", ".intercalate semantics }
  else
    none

/-- Takes the first offer with the winning method; the others lose to it. -/
def takeWinner (winner : RestoreMethod) : List MethodOffer → Option MethodOffer →
    List RejectedMethod → Option MethodOffer × List RejectedMethod
  | [], chosen, rejected => (chosen, rejected)
  | offer :: rest, chosen, rejected =>
    if chosen.isNone && offer.method = winner then
      takeWinner winner rest (some offer) rejected
    else
      takeWinner winner rest chosen (rejected ++ [dominated offer (asStr winner ++
        " reaches the same goal and risks less unrelated state")])

/-- The method the operator named, if one was named. -/
def forcedMethod (request : MethodRequest) : Except ErrorValue (Option RestoreMethod) :=
  match request.forced with
  | none => .ok none
  | some name =>
    match fromName name with
    | some method => .ok (some method)
    | none => .error (unknownMethod name)

/-- Chooses the least destructive method that can meet the goal. -/
def select (request : MethodRequest) : Except ErrorValue MethodSelection := do
  let forced ← forcedMethod request
  let acceptable := request.offers.offers.filter fun offer =>
    (rejection request forced offer).isNone
  let rejected := request.offers.offers.filterMap (rejection request forced)
  match chooseMethod request.goal (acceptable.map (·.method)) with
  | none => .error nothingMeetsTheGoal
  | some winner =>
    match takeWinner winner acceptable none rejected with
    | (some chosen, rejected) => .ok ⟨chosen, rejected⟩
    | (none, _) => .error nothingMeetsTheGoal

/-! ### What the choice falls on -/

/-- An offer that meets what a recovery requires of its method. -/
structure Acceptable (goal : RecoveryGoal) (forced : Option String)
    (required : MetadataCoverage) (semantics : List String) (offer : MethodOffer) : Prop where
  named : ∀ name ∈ forced, asStr offer.method = name
  achieves : satisfies goal offer.method = true
  metadata : unmetMetadata required offer.metadata = []
  semantics : ∀ wanted ∈ semantics, wanted ∈ offer.preserves

theorem isNone_chooseMethod_singleton (goal : RecoveryGoal) (method : RestoreMethod) :
    (chooseMethod goal [method]).isNone = !satisfies goal method := by
  unfold chooseMethod
  cases h : satisfies goal method <;> simp [h]

section Select

variable {request : MethodRequest} {forced : Option RestoreMethod} {offer : MethodOffer}
  {selection : MethodSelection}

/-- What the named method is. -/
theorem forcedMethod_eq_ok_iff :
    forcedMethod request = .ok forced ↔ request.forced = forced.map asStr := by
  unfold forcedMethod
  cases hforced : request.forced with
  | none => cases forced <;> simp
  | some name =>
    cases hname : (fromName name : Option RestoreMethod) with
    | none =>
      cases forced with
      | none => simp [hname]
      | some method =>
        have hne : name ≠ asStr method := by
          rintro rfl
          rw [fromName_asStr] at hname
          cases hname
        simpa [hname] using hne
    | some found =>
      have hfound : asStr found = name := by
        simpa using find?_some hname
      cases forced with
      | none => simp [hname]
      | some method => simp [← hfound]

/-- An offer is not passed over exactly when it is acceptable. -/
theorem rejection_eq_none_iff (hforced : forcedMethod request = .ok forced) :
    rejection request forced offer = none ↔
      Acceptable request.goal request.forced request.requiredMetadata request.requiredSemantics
        offer := by
  have hnamed : (∀ name ∈ request.forced, asStr offer.method = name) ↔
      ¬ forced.any (offer.method ≠ ·) = true := by
    rw [forcedMethod_eq_ok_iff.mp hforced]
    cases forced <;> simp
  have hsemantics : (unmetSemantics request.requiredSemantics offer.preserves).isEmpty = true ↔
      ∀ wanted ∈ request.requiredSemantics, wanted ∈ offer.preserves := by
    simp [unmetSemantics]
  unfold rejection
  simp only [isNone_chooseMethod_singleton]
  constructor
  · intro h
    split_ifs at h with hother hgoal hmetadata hsemantic
    exact ⟨hnamed.mpr hother, by simpa using hgoal, by simpa using hmetadata,
      hsemantics.mp (by simpa using hsemantic)⟩
  · rintro ⟨hname, hgoal, hmetadata, hsemantic⟩
    rw [if_neg (hnamed.mp hname), if_neg (by simpa using hgoal), if_neg (by simp [hmetadata]),
      if_neg (by simpa using hsemantics.mpr hsemantic)]

theorem fst_takeWinner (winner : RestoreMethod) (offers : List MethodOffer)
    (chosen : Option MethodOffer) (rejected : List RejectedMethod) :
    (takeWinner winner offers chosen rejected).1 =
      chosen.or (offers.find? (·.method = winner)) := by
  induction offers generalizing chosen rejected with
  | nil => simp [takeWinner]
  | cons offer rest ih =>
    unfold takeWinner
    cases chosen with
    | some chosen => simp [ih]
    | none =>
      by_cases hmethod : offer.method = winner
      · simp [hmethod, ih]
      · simp [hmethod, ih]

/-- What a choice that succeeds has found: the first acceptable offer whose method is the least
destructive of all acceptable ones. -/
theorem select_eq_ok (h : select request = .ok selection) :
    ∃ forced winner, forcedMethod request = .ok forced ∧
      chooseMethod request.goal ((request.offers.offers.filter fun offer =>
        (rejection request forced offer).isNone).map (·.method)) = some winner ∧
      (request.offers.offers.filter fun offer =>
        (rejection request forced offer).isNone).find? (·.method = winner) =
          some selection.chosen := by
  unfold select at h
  cases hforced : forcedMethod request with
  | error error =>
    rw [hforced] at h
    cases h
  | ok forced =>
    rw [hforced] at h
    simp only [bind, Except.bind] at h
    split at h
    · cases h
    · rename_i winner hwinner
      split at h
      · rename_i chosen rejected htaken
        obtain rfl := Except.ok.inj h
        have hfind := fst_takeWinner winner (request.offers.offers.filter fun offer =>
          (rejection request forced offer).isNone) none
          (request.offers.offers.filterMap (rejection request forced))
        rw [htaken] at hfind
        exact ⟨forced, winner, rfl, hwinner, hfind.symm⟩
      · cases h

end Select

/-! ### The asset behind the choice -/

/-- The first asset whose provider offers an acceptable method that is the least destructive of the
acceptable ones, with that offer. -/
structure FirstChoice (registry : PlannerRegistry) (source : Option ChangePlan)
    (goal : RecoveryGoal) (forced : Option String) (required : MetadataCoverage)
    (semantics : List String) (assets : List RecoveryAsset) (asset : RecoveryAsset)
    (offer : MethodOffer) : Prop where
  offered : offerFor registry source goal asset = some offer
  acceptable : Acceptable goal forced required semantics offer
  least : ∀ other ∈ assets.filterMap (offerFor registry source goal),
    Acceptable goal forced required semantics other →
      offer.method.destructiveness ≤ other.method.destructiveness
  first : ∃ before after, assets = before ++ asset :: after ∧
    ∀ earlier ∈ before.filterMap (offerFor registry source goal),
      Acceptable goal forced required semantics earlier → earlier.method ≠ offer.method

section FirstChoice

variable {registry : PlannerRegistry} {source : Option ChangePlan} {goal : RecoveryGoal}
  {forced : Option String} {required : MetadataCoverage} {semantics : List String}
  {assets : List RecoveryAsset} {asset other : RecoveryAsset} {offer rival : MethodOffer}

theorem FirstChoice.mem
    (h : FirstChoice registry source goal forced required semantics assets asset offer) :
    asset ∈ assets := by
  obtain ⟨before, after, rfl, -⟩ := h.first
  simp

/-- Of two positions in a list the later one has the earlier item in front of it. -/
theorem append_cons_cases {α : Type} {before before' after after' : List α} {item item' : α}
    (h : before ++ item :: after = before' ++ item' :: after') :
    (before = before' ∧ item = item') ∨ item ∈ before' ∨ item' ∈ before := by
  rcases append_eq_append_iff.mp h with ⟨between, rfl, hbetween⟩ | ⟨between, rfl, hbetween⟩
  · cases between with
    | nil =>
      obtain ⟨rfl, -⟩ := cons.inj hbetween
      exact .inl ⟨by simp, rfl⟩
    | cons first rest =>
      obtain ⟨rfl, -⟩ := cons.inj hbetween
      exact .inr (.inl (by simp))
  · cases between with
    | nil =>
      obtain ⟨rfl, -⟩ := cons.inj hbetween
      exact .inl ⟨by simp, rfl⟩
    | cons first rest =>
      obtain ⟨rfl, -⟩ := cons.inj hbetween
      exact .inr (.inr (by simp))

/-- **There is one such asset.** -/
theorem FirstChoice.unique
    (h : FirstChoice registry source goal forced required semantics assets asset offer)
    (h' : FirstChoice registry source goal forced required semantics assets other rival) :
    asset = other ∧ offer = rival := by
  have hmem : offer ∈ assets.filterMap (offerFor registry source goal) :=
    mem_filterMap.mpr ⟨asset, h.mem, h.offered⟩
  have hmem' : rival ∈ assets.filterMap (offerFor registry source goal) :=
    mem_filterMap.mpr ⟨other, h'.mem, h'.offered⟩
  have hmethod : offer.method = rival.method := destructiveness_injective
    (le_antisymm (h.least rival hmem' h'.acceptable) (h'.least offer hmem h.acceptable))
  obtain ⟨before, after, hassets, hbefore⟩ := h.first
  obtain ⟨before', after', hassets', hbefore'⟩ := h'.first
  rcases append_cons_cases (hassets.symm.trans hassets') with ⟨-, rfl⟩ | hin | hin
  · exact ⟨rfl, Option.some.inj (h.offered.symm.trans h'.offered)⟩
  · exact absurd hmethod
      (hbefore' offer (mem_filterMap.mpr ⟨asset, hin, h.offered⟩) h.acceptable)
  · exact absurd hmethod.symm
      (hbefore rival (mem_filterMap.mpr ⟨other, hin, h'.offered⟩) h'.acceptable)

/-- Where the first of the mapped items with a property is found, there is the item it comes from,
and no item before it has one. -/
private theorem exists_of_find?_filterMap {α β : Type} {f : α → Option β} {p : β → Bool}
    {items : List α} {found : β} (h : (items.filterMap f).find? p = some found) :
    ∃ before item after, items = before ++ item :: after ∧ f item = some found ∧
      ∀ earlier ∈ before.filterMap f, p earlier = false := by
  induction items with
  | nil => cases h
  | cons item rest ih =>
    rw [filterMap_cons] at h
    cases hitem : f item with
    | none =>
      rw [hitem] at h
      obtain ⟨before, asset, after, rfl, hasset, hbefore⟩ := ih h
      refine ⟨item :: before, asset, after, rfl, hasset, ?_⟩
      simpa [filterMap_cons, hitem] using hbefore
    | some first =>
      rw [hitem, find?_cons] at h
      cases hp : p first with
      | true =>
        rw [hp] at h
        obtain rfl := Option.some.inj h
        exact ⟨[], item, rest, rfl, hitem, by simp⟩
      | false =>
        rw [hp] at h
        obtain ⟨before, asset, after, rfl, hasset, hbefore⟩ := ih h
        refine ⟨item :: before, asset, after, rfl, hasset, fun earlier hearlier => ?_⟩
        rw [filterMap_cons, hitem] at hearlier
        rcases mem_cons.mp hearlier with rfl | hlater
        · exact hp
        · exact hbefore earlier hlater

/-- **What the choice falls on.** A choice among the offers of the providers that succeeds falls on
the offer for the first asset whose method is acceptable and least destructive. -/
theorem exists_firstChoice_of_select {selection : MethodSelection}
    (h : select ⟨goal, offers registry source goal assets, required, semantics, forced⟩ =
      .ok selection) :
    ∃ asset, FirstChoice registry source goal forced required semantics assets asset
      selection.chosen := by
  obtain ⟨named, winner, hforced, hwinner, hfind⟩ := select_eq_ok h
  have haccept (offer : MethodOffer) := @rejection_eq_none_iff _ _ offer hforced
  dsimp only at haccept hwinner hfind
  rw [offers_offers] at hwinner hfind
  rw [find?_filter] at hfind
  obtain ⟨before, asset, after, hassets, hoffered, hbefore⟩ := exists_of_find?_filterMap hfind
  have hchosen := find?_some hfind
  simp only [Option.isNone_iff_eq_none, Bool.decide_and, Bool.and_eq_true,
    decide_eq_true_eq] at hchosen
  refine ⟨asset, hoffered, (haccept _).mp hchosen.1, fun other hother hmeets => ?_, before, after,
    hassets, fun earlier hearlier hmeets hmethod => ?_⟩
  · rw [hchosen.2]
    refine (chooseMethod_eq_some_iff.mp hwinner).2 other.method ?_ hmeets.achieves
    exact mem_map_of_mem (mem_filter.mpr ⟨hother, by simp [(haccept other).mpr hmeets]⟩)
  · have hnot := hbefore earlier hearlier
    simp [(haccept earlier).mpr hmeets, hmethod, hchosen.2] at hnot

end FirstChoice

end OnoSendai.Recovery
