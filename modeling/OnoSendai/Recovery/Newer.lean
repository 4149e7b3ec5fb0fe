import OnoSendai.Recovery.Restored

/-!
# What a recovery does to newer state

A recovery may overwrite or remove what changed after its asset was created. Such a change has to be
listed and accepted, and what could not be established is refused. The analysis dates changes from
the youngest asset of the request, and it looks for the name of a directory with a slash behind it
at the front of an object. Changes that fall between the creation of the asset that is restored from
and that of the youngest, and objects beneath a directory whose name ends in a slash already, escape
it.
-/

namespace OnoSendai.Recovery

open ConflictRequest
open List hiding any_eq_true

open Protection (startsWith trimEndSlashes)

/-! ### Changes -/

/-- Whether an object lies beneath a directory, with any number of slashes at the end of the
directory's name. -/
def Beneath (directory object : String) : Prop :=
  ∃ rest, rest ≠ [] ∧ object.toList = (trimEndSlashes directory).toList ++ '/' :: rest

/-- Whether an object changed after an instant: its digest is not the captured one, which an object
that is gone has none of, or no digest was captured and its change time is later. -/
def ChangedSince (instant : Int) (captured : Option String) (state : ObservedState) : Prop :=
  match captured with
  | some captured => state.digest ≠ some captured
  | none => ∃ changed ∈ state.changedAt, instant < changed

@[simp]
theorem changedSince_none {instant : Int} {state : ObservedState} :
    ChangedSince instant none state ↔ ∃ changed ∈ state.changedAt, instant < changed :=
  Iff.rfl

/-- Whether the state of an object was established. -/
def Established (state : ObservedState) : Prop :=
  ∀ reason, state ≠ .unestablished reason

section Request

variable (request : RecoveryRequest) (offer : MethodOffer) (object : String)

/-- An object the analysis of newer state observes. -/
def Examined : Prop :=
  (Wanted request object ∨ ∃ asset ∈ request.assets, object ∈ asset.scope.covers) ∧
    (offer.fragment.newerState.complete = true → startsWith object "/" = true)

/-- The digest an asset holds for an object, as the request or the provider gives it. -/
def capturedFor : Option String :=
  (request.captured ++ offer.fragment.captured).lookup object

/-- Whether the recovery would overwrite or remove an object: it restores the object, it discards
newer state, or it makes a tree exact that holds the object. -/
def Overwritten : Prop :=
  Wanted request object ∨ offer.method.discardsNewerState = true ∨
    policyOf request offer.fragment = .exactTree ∧
      ∃ directory, Wanted request directory ∧ Beneath directory object

/-- A change to a restored object that is not later than the recovered plan. -/
def OwnChange : Prop :=
  Wanted request object ∧
    ∃ applied ∈ request.appliedAt, ∃ changed ∈ (request.observe object).changedAt, changed ≤ applied

/-- Whether the state or the change of an object could not be established. -/
def Undetermined : Prop :=
  (∃ reason, request.observe object = .unestablished reason) ∨
    capturedFor request offer object = none ∧ (request.observe object).changedAt = none

/-- A recovery that takes nothing away silently: every change it would take away is listed and
refused until it is accepted, and what could not be established is refused in any case. -/
structure NothingSilent (recovery : RecoveryPlan) (asset : RecoveryAsset) : Prop where
  changes_gated : ∀ object, Examined request offer object →
    Established (request.observe object) →
      ChangedSince asset.createdAt (capturedFor request offer object) (request.observe object) →
        Overwritten request offer object → ¬ OwnChange request object →
          (∃ item ∈ recovery.newerState.items, item.object = object ∧ item.class'.isLoss = true) ∧
            ∃ refusal, check recovery = .error refusal
  unknown_refused : ∀ object, Examined request offer object →
    Undetermined request offer object →
      (∃ refusal, check recovery = .error refusal) ∧
        ∃ refusal, check recovery.destructionAccepted = .error refusal

/-- A change that escapes the analysis: no digest was captured, and it falls after the asset that is
restored from and not after every other; or the tree that holds the object is found only when the
slashes at the end of its name are not counted. -/
def Overlooked (asset : RecoveryAsset) : Prop :=
  Examined request offer object ∧ Established (request.observe object) ∧
    ¬ OwnChange request object ∧
      ((capturedFor request offer object = none ∧ Overwritten request offer object ∧
          ∃ changed ∈ (request.observe object).changedAt, asset.createdAt < changed ∧
            ∃ other ∈ request.assets, changed ≤ other.createdAt) ∨
        (ChangedSince asset.createdAt (capturedFor request offer object)
            (request.observe object) ∧
          ¬ Wanted request object ∧ offer.method.discardsNewerState = false ∧
          policyOf request offer.fragment = .exactTree ∧
          (∃ directory, Wanted request directory ∧ Beneath directory object) ∧
          ∀ directory, Wanted request directory → startsWith object (directory ++ "/") = false))

end Request

variable {sha256 : Sha256} {render : Renderings} {request : RecoveryRequest}
  {recovery : RecoveryPlan} {selection : MethodSelection} {asset : RecoveryAsset}
  {offer : MethodOffer} {object : String}

/-! ### What the analysis is asked -/

/-- What the analysis of newer state is asked for an offer. -/
def conflictFor (request : RecoveryRequest) (offer : MethodOffer) : ConflictRequest :=
  conflictRequest request offer.fragment (restoreSet request)
    (observations request (restoreSet request) offer.fragment)

@[simp]
theorem restores_conflictFor :
    (conflictFor request offer).restores object = true ↔ Wanted request object := by
  rw [ConflictRequest.restores, List.any_eq_true, ← mem_restoreSet]
  simp [conflictFor, conflictRequest]

theorem underRestoredDirectory_conflictFor :
    (conflictFor request offer).underRestoredDirectory object = true ↔
      ∃ directory, Wanted request directory ∧ startsWith object (directory ++ "/") = true := by
  rw [ConflictRequest.underRestoredDirectory, List.any_eq_true]
  simp only [conflictFor, conflictRequest, mem_restoreSet]

theorem takes_conflictFor : (conflictFor request offer).takes object ↔
    Wanted request object ∨ offer.method.discardsNewerState = true ∨
      policyOf request offer.fragment = .exactTree ∧
        ∃ directory, Wanted request directory ∧ startsWith object (directory ++ "/") = true := by
  rw [takes, restores_conflictFor, underRestoredDirectory_conflictFor]
  rfl

theorem ownChange_conflictFor :
    (conflictFor request offer).ownChange object (request.observe object) ↔
      OwnChange request object := by
  rw [ownChange, restores_conflictFor]
  rfl

theorem le_capturedAt_iff (hasset : asset ∈ request.assets) {instant : Int} :
    instant ≤ capturedAt request ↔ ∃ other ∈ request.assets, instant ≤ other.createdAt := by
  have hne : request.assets.map (·.createdAt) ≠ [] := by
    simpa using ne_nil_of_mem hasset
  obtain ⟨youngest, hyoungest⟩ := Option.isSome_iff_exists.mp (isSome_max?_of_ne_nil hne)
  obtain ⟨hmem, hmax⟩ := max?_eq_some_iff.mp hyoungest
  rw [capturedAt, hyoungest, Option.getD_some]
  constructor
  · intro hle
    obtain ⟨other, hother, rfl⟩ := mem_map.mp hmem
    exact ⟨other, hother, hle⟩
  · rintro ⟨other, hother, hle⟩
    exact hle.trans (hmax _ (mem_map_of_mem hother))

/-- What the analysis takes to be newer is what changed since the youngest asset was created. -/
theorem newer_conflictFor :
    newer (conflictFor request offer) object (request.observe object) = some true ↔
      ChangedSince (capturedAt request) (capturedFor request offer object)
        (request.observe object) := by
  have hcaptured : (conflictFor request offer).capturedDigest object =
      capturedFor request offer object := rfl
  unfold newer ChangedSince
  rw [hcaptured]
  cases capturedFor request offer object with
  | some captured =>
    cases (request.observe object).digest with
    | none => simp
    | some current => simpa using ne_comm
  | none =>
    change Option.map (fun changed => decide (capturedAt request < changed))
      (request.observe object).changedAt = some true ↔ _
    simp

theorem newer_ne_none (hdetermined : ¬ Undetermined request offer object) :
    newer (conflictFor request offer) object (request.observe object) ≠ none := by
  have hcaptured : (conflictFor request offer).capturedDigest object =
      capturedFor request offer object := rfl
  unfold newer
  rw [hcaptured]
  intro hnone
  refine hdetermined (.inr ?_)
  cases hcapturedFor : capturedFor request offer object with
  | some captured => cases hdigest : (request.observe object).digest <;> simp [hcapturedFor, hdigest] at hnone
  | none => simpa [hcapturedFor] using hnone

/-! ### The items -/

variable {item : NewerStateItem}

/-- The items of the provider come behind the others, and none is about an object that was asked
about. -/
theorem mem_foldl_pushProviderItem {asked : List ObjectObservation}
    {items provided : List NewerStateItem} :
    (item ∈ items → item ∈ provided.foldl (pushProviderItem asked) items) ∧
      (item ∈ provided.foldl (pushProviderItem asked) items →
        item ∈ items ∨ ∀ observation ∈ asked, observation.object ≠ item.object) := by
  induction provided generalizing items with
  | nil => exact ⟨id, .inl⟩
  | cons first rest ih =>
    rw [foldl_cons]
    obtain ⟨hkeep, hfrom⟩ := @ih (pushProviderItem asked items first)
    unfold pushProviderItem at hkeep hfrom ⊢
    split_ifs at hkeep hfrom ⊢ with hknown
    · exact ⟨hkeep, hfrom⟩
    · refine ⟨fun h => hkeep (mem_append_left _ h), fun h => ?_⟩
      rcases hfrom h with hitem | hother
      · rcases mem_append.mp hitem with hitem | hitem
        · exact .inl hitem
        · obtain rfl := mem_singleton.mp hitem
          refine .inr fun observation hobservation hobject => hknown ?_
          have hasked : (asked.any (·.object = item.object)) = true :=
            List.any_eq_true.mpr ⟨observation, hobservation, by simpa using hobject⟩
          simp [hasked]
      · exact .inr hother

/-- The items about an examined object are what the analysis makes of it. -/
theorem mem_newerState_items (hexamined : Examined request offer object)
    (hobject : item.object = object) :
    item ∈ (newerState request render offer.fragment (restoreSet request)).items ↔
      classify render (conflictFor request offer) ⟨object, request.observe object⟩ = some item := by
  have hobserved : (⟨object, request.observe object⟩ : ObjectObservation) ∈
      observations request (restoreSet request) offer.fragment :=
    mem_observations.mpr ⟨rfl, hexamined⟩
  have hanalysed : item ∈ (analyse render (conflictFor request offer)).items ↔
      classify render (conflictFor request offer) ⟨object, request.observe object⟩ = some item := by
    rw [analyse, NewerStateImpact.items_losing]
    refine mem_filterMap.trans ⟨?_, fun h => ⟨_, hobserved, h⟩⟩
    rintro ⟨⟨other, state⟩, hother, hitem⟩
    obtain rfl : other = object := (object_of_classify hitem).symm.trans hobject
    obtain rfl : state = request.observe other := (mem_observations.mp hother).1
    exact hitem
  rw [← hanalysed]
  change item ∈ (withProviderItems (analyse render (conflictFor request offer))
    offer.fragment.newerState _).items ↔ _
  unfold withProviderItems
  split_ifs with hprovider
  · exact Iff.rfl
  · rw [NewerStateImpact.items_losing]
    refine ⟨fun h => ?_, fun h => mem_foldl_pushProviderItem.1 h⟩
    rcases mem_foldl_pushProviderItem.2 h with hitem | hnone
    · exact hitem
    · exact absurd hobject.symm (hnone _ hobserved)

/-! ### When nothing is silent -/

/-- Whether a change counts from one asset and not from the youngest. -/
theorem changedSince_or (hchanged : ChangedSince asset.createdAt (capturedFor request offer object)
      (request.observe object)) :
    ChangedSince (capturedAt request) (capturedFor request offer object) (request.observe object) ∨
      capturedFor request offer object = none ∧
        ∃ changed ∈ (request.observe object).changedAt, asset.createdAt < changed ∧
          changed ≤ capturedAt request := by
  unfold ChangedSince at hchanged ⊢
  cases hcaptured : capturedFor request offer object with
  | some captured =>
    rw [hcaptured] at hchanged
    exact .inl hchanged
  | none =>
    rw [hcaptured] at hchanged
    obtain ⟨changed, hmem, hlater⟩ := hchanged
    by_cases hyoungest : capturedAt request < changed
    · exact .inl ⟨changed, hmem, hyoungest⟩
    · exact .inr ⟨rfl, changed, hmem, hlater, not_lt.mp hyoungest⟩

theorem not_undetermined (hstate : Established (request.observe object))
    (hchanged : ChangedSince asset.createdAt (capturedFor request offer object)
      (request.observe object)) : ¬ Undetermined request offer object := by
  rintro (⟨reason, hreason⟩ | ⟨hcaptured, hnone⟩)
  · exact hstate reason hreason
  · rw [hcaptured, changedSince_none] at hchanged
    obtain ⟨changed, hmem, -⟩ := hchanged
    rw [hnone] at hmem
    cases hmem

theorem Overlooked.changedSince (h : Overlooked request offer object asset) :
    ChangedSince asset.createdAt (capturedFor request offer object) (request.observe object) := by
  obtain ⟨-, -, -, ⟨hcaptured, -, changed, hmem, hlater, -⟩ | ⟨hchanged, -⟩⟩ := h
  · rw [hcaptured, changedSince_none]
    exact ⟨changed, hmem, hlater⟩
  · exact hchanged

theorem Overlooked.overwritten (h : Overlooked request offer object asset) :
    Overwritten request offer object := by
  obtain ⟨-, -, -, ⟨-, htaken, -⟩ | ⟨-, -, -, hpolicy, hbeneath, -⟩⟩ := h
  · exact htaken
  · exact .inr (.inr ⟨hpolicy, hbeneath⟩)

/-- What is overlooked is no loss to the analysis. -/
theorem Overlooked.not_isLoss (h : Overlooked request offer object asset)
    (hasset : asset ∈ request.assets)
    (hitem : classify render (conflictFor request offer) ⟨object, request.observe object⟩ =
      some item) : item.class'.isLoss = false := by
  have hdetermined := not_undetermined h.2.1 h.changedSince
  refine not_isLoss_of_classify ?_ hitem
  obtain ⟨-, -, -, hescapes⟩ := h
  rcases hescapes with
    ⟨hcaptured, -, changed, hmem, -, other, hother, hle⟩ | ⟨-, hwanted, hdiscards, -, -, hnone⟩
  · refine .inl ?_
    have hle : changed ≤ capturedAt request := (le_capturedAt_iff hasset).mpr ⟨other, hother, hle⟩
    have hnot : newer (conflictFor request offer) object (request.observe object) ≠ some true := by
      rw [Ne, newer_conflictFor, hcaptured, changedSince_none]
      rintro ⟨instant, hinstant, hlater⟩
      obtain rfl : instant = changed := Option.some.inj (hinstant.symm.trans hmem)
      exact absurd hle (not_le.mpr hlater)
    cases hnewer : newer (conflictFor request offer) object (request.observe object) with
    | none => exact absurd hnewer (newer_ne_none hdetermined)
    | some flag =>
      cases flag with
      | false => rfl
      | true => exact absurd hnewer hnot
  · refine .inr ?_
    rw [takes_conflictFor]
    rintro (htaken | htaken | ⟨-, directory, hdirectory, hstarts⟩)
    · exact hwanted htaken
    · rw [hdiscards] at htaken
      cases htaken
    · rw [hnone directory hdirectory] at hstarts
      cases hstarts

/-- A change the analysis does not overlook is a loss to it. -/
theorem exists_isLoss (hasset : asset ∈ request.assets) (hexamined : Examined request offer object)
    (hstate : Established (request.observe object))
    (hchanged : ChangedSince asset.createdAt (capturedFor request offer object)
      (request.observe object))
    (htaken : Overwritten request offer object) (hown : ¬ OwnChange request object)
    (hseen : ¬ Overlooked request offer object asset) :
    ∃ item, classify render (conflictFor request offer) ⟨object, request.observe object⟩ =
      some item ∧ item.class'.isLoss = true := by
  have hdetermined := not_undetermined hstate hchanged
  have hnewer : newer (conflictFor request offer) object (request.observe object) = some true := by
    refine (newer_conflictFor).mpr ?_
    refine (changedSince_or hchanged).resolve_right ?_
    rintro ⟨hcaptured, changed, hmem, hlater, hle⟩
    exact hseen ⟨hexamined, hstate, hown, .inl ⟨hcaptured, htaken, changed, hmem, hlater,
      (le_capturedAt_iff hasset).mp hle⟩⟩
  have htakes : (conflictFor request offer).takes object := by
    rw [takes_conflictFor]
    rcases htaken with hwanted | hdiscards | ⟨hpolicy, hbeneath⟩
    · exact .inl hwanted
    · exact .inr (.inl hdiscards)
    · by_contra hnot
      push Not at hnot
      refine hseen ⟨hexamined, hstate, hown, .inr ⟨hchanged, hnot.1, by simpa using hnot.2.1,
        hpolicy, hbeneath, fun directory hdirectory => ?_⟩⟩
      simpa using hnot.2.2 hpolicy directory hdirectory
  exact classify_eq_some_of_loss hstate hnewer htakes (mt ownChange_conflictFor.mp hown)

/-- **When nothing is silent.** A recovery plan lists and gates every change it would take away, and
refuses what could not be established, exactly when no change escapes the analysis. -/
theorem nothingSilent_iff
    (h : planRecoveryExplained request sha256 render = .ok (recovery, selection)) :
    (∀ asset, Behind request selection.chosen asset →
        NothingSilent request selection.chosen recovery asset) ↔
      ∀ asset offer, PreferredBy request asset offer →
        ∀ object, ¬ Overlooked request offer object asset := by
  obtain ⟨-, -, hnewerState, -, haccepted⟩ := planRecoveryExplained_eq_ok h
  obtain ⟨chosen, hchosen⟩ := exists_firstChoice h
  have hbehind : Behind request selection.chosen chosen := PreferredBy.behind hchosen
  have hmem (object : String) (hexamined : Examined request selection.chosen object)
      (item : NewerStateItem) (hobject : item.object = object) :
      item ∈ recovery.newerState.items ↔
        classify render (conflictFor request selection.chosen)
          ⟨object, request.observe object⟩ = some item := by
    rw [hnewerState]
    exact mem_newerState_items hexamined hobject
  constructor
  · intro silent asset offer hpreferred object hoverlooked
    obtain ⟨rfl, rfl⟩ := FirstChoice.unique hpreferred hchosen
    obtain ⟨hexamined, hstate, hown, -⟩ := id hoverlooked
    obtain ⟨⟨item, hitem, hobject, hloss⟩, -⟩ := (silent asset hbehind).changes_gated object
      hexamined hstate hoverlooked.changedSince hoverlooked.overwritten hown
    have hnone := hoverlooked.not_isLoss hchosen.mem ((hmem object hexamined item hobject).mp hitem)
    rw [hloss] at hnone
    cases hnone
  · intro hseen asset hasset
    obtain rfl : asset = chosen := hasset.unique hbehind
    refine ⟨fun object hexamined hstate hchanged htaken hown => ?_,
      fun object hexamined hundetermined => ?_⟩
    · obtain ⟨item, hfound, hloss⟩ := @exists_isLoss render _ _ _ _ hchosen.mem hexamined hstate
        hchanged htaken hown (hseen asset _ hchosen object)
      have hobject := object_of_classify hfound
      have hitem := (hmem object hexamined item hobject).mpr hfound
      exact ⟨⟨item, hitem, hobject, hloss⟩, check_eq_error_of_loss hitem hloss haccepted⟩
    · have hunknown : (∃ reason, request.observe object = .unestablished reason) ∨
          newer (conflictFor request selection.chosen) object (request.observe object) = none := by
        refine hundetermined.imp_right fun ⟨hcaptured, hnone⟩ => ?_
        have hsame : (conflictFor request selection.chosen).capturedDigest object = none := hcaptured
        rw [newer, hsame]
        simp [hnone]
      obtain ⟨item, hfound, hclass⟩ := @classify_eq_some_unknown render _ _ _ hunknown
      have hitem := (hmem object hexamined item (object_of_classify hfound)).mpr hfound
      exact ⟨check_eq_error_of_unknown hitem hclass,
        @check_eq_error_of_unknown recovery.destructionAccepted _ hitem hclass⟩

/-! ### A change between two assets -/

/-- Every file holds new content since an instant. -/
def newSince (instant : Int) : String → ObservedState :=
  fun _ => .present (some instant) "new"

theorem nothingSilent_iff_oneFile :
    ∃ recovery selection,
      planRecoveryExplained (fileRequest [fileAsset "a" ["/etc/a"] 0] (newSince 5))
          (fun _ => Vector.replicate 32 0) blankRenderings = .ok (recovery, selection) ∧
        ∀ asset, Behind (fileRequest [fileAsset "a" ["/etc/a"] 0] (newSince 5))
            selection.chosen asset →
          NothingSilent (fileRequest [fileAsset "a" ["/etc/a"] 0] (newSince 5)) selection.chosen
            recovery asset := by
  have hok : (planRecoveryExplained (fileRequest [fileAsset "a" ["/etc/a"] 0] (newSince 5))
      (fun _ => Vector.replicate 32 0) blankRenderings).toOption.isSome = true := by
    decide +kernel
  cases hplan : planRecoveryExplained (fileRequest [fileAsset "a" ["/etc/a"] 0] (newSince 5))
      (fun _ => Vector.replicate 32 0) blankRenderings with
  | error error =>
    rw [hplan] at hok
    cases hok
  | ok made =>
    refine ⟨made.1, made.2, rfl, (nothingSilent_iff hplan).mpr ?_⟩
    rintro asset offer hpreferred object ⟨-, -, -, hescapes⟩
    have hassets := FirstChoice.mem hpreferred
    obtain rfl : asset = fileAsset "a" ["/etc/a"] 0 := by simpa using hassets
    rcases hescapes with ⟨-, -, changed, -, hlater, other, hother, hle⟩ | ⟨-, -, -, hpolicy, -⟩
    · obtain rfl : other = fileAsset "a" ["/etc/a"] 0 := by simpa using hother
      exact absurd hle (not_le.mpr hlater)
    · have hoffered := hpreferred.offered
      have hmade : offerFor (fileRequest [fileAsset "a" ["/etc/a"] 0] (newSince 5)).registry none
          .restoreChangedObjects (fileAsset "a" ["/etc/a"] 0) = some offer := hoffered
      obtain rfl := Option.some.inj hmade
      cases hpolicy

/-- **A change that is taken away silently.** Of two archives the older is restored from. A file
that changed between the two is overwritten, and the plan says nothing of it. -/
theorem not_nothingSilent_twoFiles :
    ¬ ∀ (sha256 : Sha256) (render : Renderings) (request : RecoveryRequest)
        (recovery : RecoveryPlan) (selection : MethodSelection),
      planRecoveryExplained request sha256 render = .ok (recovery, selection) →
        ∀ asset, Behind request selection.chosen asset →
          NothingSilent request selection.chosen recovery asset := by
  intro hall
  have hok : (planRecoveryExplained
      (fileRequest [fileAsset "a" ["/etc/a"] 0, fileAsset "b" ["/etc/b"] 10] (newSince 5))
      (fun _ => Vector.replicate 32 0) blankRenderings).toOption.map
        (fun made => (made.2.chosen.reference, made.1.newerState.items)) = some ("a", []) := by
    decide +kernel
  cases hplan : planRecoveryExplained
      (fileRequest [fileAsset "a" ["/etc/a"] 0, fileAsset "b" ["/etc/b"] 10] (newSince 5))
      (fun _ => Vector.replicate 32 0) blankRenderings with
  | error error =>
    rw [hplan] at hok
    cases hok
  | ok made =>
    obtain ⟨hreference, hitems⟩ : made.2.chosen.reference = "a" ∧ made.1.newerState.items = [] := by
      rw [hplan] at hok
      exact Prod.mk.inj (Option.some.inj hok)
    obtain ⟨asset, hasset⟩ := exists_firstChoice hplan
    have hin : asset = fileAsset "a" ["/etc/a"] 0 ∨ asset = fileAsset "b" ["/etc/b"] 10 := by
      simpa using FirstChoice.mem hasset
    have hwanted : Wanted
        (fileRequest [fileAsset "a" ["/etc/a"] 0, fileAsset "b" ["/etc/b"] 10] (newSince 5))
        "/etc/a" :=
      mem_restoreSet.mp (by decide +kernel)
    have silent := hall _ _ _ _ _ hplan asset (PreferredBy.behind hasset)
    rcases hin with rfl | rfl
    · have hoffered : offerFor (fileRequest [fileAsset "a" ["/etc/a"] 0,
          fileAsset "b" ["/etc/b"] 10] (newSince 5)).registry none .restoreChangedObjects
            (fileAsset "a" ["/etc/a"] 0) = some made.2.chosen := hasset.offered
      obtain ⟨⟨item, hitem, -⟩, -⟩ := silent.changes_gated "/etc/a"
        ⟨.inl hwanted, by rw [← Option.some.inj hoffered]; decide⟩
        (fun reason hreason => by cases hreason)
        (by rw [capturedFor, ← Option.some.inj hoffered]; exact ⟨5, rfl, by decide⟩)
        (.inl hwanted) (by rintro ⟨-, applied, happlied, -⟩; cases happlied)
      rw [hitems] at hitem
      cases hitem
    · have hoffered : offerFor (fileRequest [fileAsset "a" ["/etc/a"] 0,
          fileAsset "b" ["/etc/b"] 10] (newSince 5)).registry none .restoreChangedObjects
            (fileAsset "b" ["/etc/b"] 10) = some made.2.chosen := hasset.offered
      rw [← Option.some.inj hoffered] at hreference
      exact absurd hreference (by decide)

end OnoSendai.Recovery
