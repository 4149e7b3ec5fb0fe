import OnoSendai.Recovery.Plan

/-!
# Newer state and the gate

What changed since an asset was captured, and what a recovery would do to it. A digest decides
whether an object changed where one was captured, and the change time decides elsewhere. A change
the recovered plan made itself is what the recovery undoes. What could not be established is a class
of its own, and no acceptance lets it pass.
-/

namespace OnoSendai.Recovery

open Option

open Protection (startsWith)

/-! ### Observations -/

/-- What the world says about one object now. -/
inductive ObservedState
  | present (changedAt : Option Int) (digest : String)
  | absent (changedAt : Option Int)
  | unestablished (reason : String)

namespace ObservedState

/-- When the object last changed, where that was established. -/
def changedAt : ObservedState → Option Int
  | present changedAt _ | absent changedAt => changedAt
  | unestablished _ => none

/-- The digest of the current content, where there is content and it was read. -/
def digest : ObservedState → Option String
  | present _ digest => some digest
  | absent _ | unestablished _ => none

end ObservedState

/-- One object of the candidate restore scope, as it stands now. -/
structure ObjectObservation where
  object : String
  state : ObservedState

/-- Everything the analysis of newer state needs. -/
structure ConflictRequest where
  method : RestoreMethod
  capturedAt : Int
  appliedAt : Option Int
  observations : List ObjectObservation
  captured : List (String × String)
  restoreSet : List String
  directoryPolicy : DirectoryRestorePolicy
  destroyedAssets : List String
  discardedBytes : Option Nat

namespace ConflictRequest

/-- The digest the asset holds for an object. -/
def capturedDigest (request : ConflictRequest) (object : String) : Option String :=
  request.captured.lookup object

/-- Whether the recovery would put an object back itself. -/
def restores (request : ConflictRequest) (object : String) : Bool :=
  request.restoreSet.any (· = object)

/-- Whether an object sits under a directory the recovery would restore. -/
def underRestoredDirectory (request : ConflictRequest) (object : String) : Bool :=
  request.restoreSet.any fun directory => startsWith object (directory ++ "/")

end ConflictRequest

/-! ### The analysis -/

section Analysis

variable (render : Renderings) (request : ConflictRequest)

/-- When a change was made, where that is known. -/
def atPhrase (changedAt : Option Int) : String :=
  changedAt.elim "" fun instant => " made at " ++ render.timestamp instant

/-- Whether an object changed since the asset, where that could be established. -/
def newer (object : String) (state : ObservedState) : Option Bool :=
  match request.capturedDigest object, state.digest with
  | some captured, some current => some (captured != current)
  | some _, none => some true
  | none, _ => state.changedAt.map (request.capturedAt < ·)

/-- What a change to an object the recovery restores means: none, where the change is the original
plan's own. -/
def restoredObjectItem (object : String) (changedAt : Option Int) : Option NewerStateItem :=
  if request.appliedAt.any fun applied => changedAt.any (· ≤ applied) then
    none
  else
    some
      { object := object
        class' := .conflicting
        changedAt := none
        detail := "the recovery target and the newer content are the same object: recovery would " ++
          "discard the edit" ++ atPhrase render changedAt }

/-- What a change to an object means for the recovery. -/
def changedObjectItem (object : String) (changedAt : Option Int) : Option NewerStateItem :=
  if request.restores object then
    restoredObjectItem render request object changedAt
  else if request.method.discardsNewerState then
    some
      { object := object
        class' := .discardedByMethod
        changedAt := none
        detail := Vocabulary.asStr request.method ++ " rewinds the whole domain, so this" ++
          atPhrase render changedAt ++ " goes with it" }
  else if request.directoryPolicy = .exactTree && request.underRestoredDirectory object then
    some
      { object := object
        class' := .discardedByMethod
        changedAt := none
        detail := "Appendix C.6: the objective asked for exact-tree equivalence, so a file the " ++
          "asset never held is deleted" }
  else
    some
      { object := object
        class' := .preservedByMethod
        changedAt := none
        detail := "outside the restore set, so " ++ Vocabulary.asStr request.method ++
          " leaves it alone" }

/-- What an object whose state was established means for the recovery. -/
def establishedItem (object : String) (state : ObservedState) : Option NewerStateItem :=
  match newer request object state with
  | none =>
    some
      { object := object
        class' := .unknown
        changedAt := none
        detail := "whether " ++ object ++ " changed since the recovery point could not be " ++
          "established: the asset records no digest for it and its change time is not known" }
  | some false => none
  | some true =>
    (changedObjectItem render request object state.changedAt).map fun item =>
      { item with changedAt := state.changedAt }

/-- What one observation means for the recovery, or none when it is not newer state. -/
def classify (observation : ObjectObservation) : Option NewerStateItem :=
  match observation.state with
  | .unestablished reason =>
    some
      { object := observation.object
        class' := .unknown
        changedAt := none
        detail := "the current state of " ++ observation.object ++ " could not be established, " ++
          "so what recovery would do to it is unknown: " ++ reason }
  | state => establishedItem render request observation.object state

/-- Classifies everything that changed since the asset inside the restore scope. -/
def analyse : NewerStateImpact :=
  (NewerStateImpact.analysed (request.observations.filterMap (classify render request))).losing
    request.destroyedAssets request.discardedBytes

end Analysis

/-! ### The gate -/

section Gate

variable (plan : RecoveryPlan)

/-- An item as a refusal names it. -/
def itemText (item : NewerStateItem) : String :=
  item.object ++ " — " ++ item.detail

/-- Every object of a provider the recovery would destroy. -/
def destroyedObjects : List String :=
  plan.newerState.destroyedAssets

/-- Every object the recovery would take newer state away from. -/
def conflictingObjects : List String :=
  plan.newerState.losses.map itemText

/-- Every object whose fate could not be established. -/
def unestablishedObjects : List String :=
  (plan.newerState.items.filter (·.class' = .unknown)).map itemText

/-- Whether the gate lets the recovery run. -/
def check : Except ErrorValue Unit :=
  if !plan.newerState.complete then
    .error (.recoveryPlanIncomplete
      "what this recovery would do to state written since the recovery point")
  else if !(unestablishedObjects plan).isEmpty then
    .error (.recoveryPlanIncomplete "the current state of every object in the restore scope")
  else if !plan.needsDestructiveAcceptance then
    .ok ()
  else if !(destroyedObjects plan).isEmpty then
    .error (.destructiveHistoryNotAccepted (destroyedObjects plan))
  else if !(conflictingObjects plan).isEmpty then
    .error (.newerStateConflict (conflictingObjects plan))
  else
    .ok ()

end Gate

/-! ### What the gate refuses -/

section Refused

variable {plan : RecoveryPlan} {item : NewerStateItem}

/-- What could not be established is refused, accepted or not. -/
theorem check_eq_error_of_unknown (hitem : item ∈ plan.newerState.items)
    (hclass : item.class' = .unknown) : ∃ refusal, check plan = .error refusal := by
  have hunestablished : (unestablishedObjects plan).isEmpty = false := by
    rw [unestablishedObjects, List.isEmpty_map]
    exact List.isEmpty_eq_false_iff_exists_mem.mpr
      ⟨item, List.mem_filter.mpr ⟨hitem, by simpa using hclass⟩⟩
  unfold check
  by_cases hcomplete : plan.newerState.complete = true
  · rw [if_neg (by simpa using hcomplete), if_pos (by simpa using hunestablished)]
    exact ⟨_, rfl⟩
  · rw [if_pos (by simpa using hcomplete)]
    exact ⟨_, rfl⟩

/-- A loss is refused until it is accepted. -/
theorem check_eq_error_of_loss (hitem : item ∈ plan.newerState.items)
    (hclass : item.class'.isLoss = true) (haccepted : plan.destructiveAccepted = false) :
    ∃ refusal, check plan = .error refusal := by
  have hrequires : item.class'.requiresAcceptance = true := by
    cases hitemClass : item.class' with
    | preservedByMethod => simp [hitemClass, NewerStateClass.isLoss] at hclass
    | discardedByMethod | conflicting | unknown => rfl
  have hneeds : plan.needsDestructiveAcceptance = true := by
    have hany : plan.newerState.items.any (·.class'.requiresAcceptance) = true :=
      List.any_eq_true.mpr ⟨item, hitem, hrequires⟩
    simp [RecoveryPlan.needsDestructiveAcceptance, NewerStateImpact.requiresDestructiveAcceptance,
      hany, haccepted]
  have hconflicts : (conflictingObjects plan).isEmpty = false := by
    rw [conflictingObjects, List.isEmpty_map]
    exact List.isEmpty_eq_false_iff_exists_mem.mpr
      ⟨item, List.mem_filter.mpr ⟨hitem, hclass⟩⟩
  unfold check
  split_ifs with hcomplete hunestablished hacceptance hdestroyed hconflict
  · exact ⟨_, rfl⟩
  · exact ⟨_, rfl⟩
  · simp [hneeds] at hacceptance
  · exact ⟨_, rfl⟩
  · exact ⟨_, rfl⟩
  · simp [hconflicts] at hconflict

end Refused

/-! ### What the analysis finds -/

section Found

variable {render : Renderings} {request : ConflictRequest} {object : String}
  {state : ObservedState} {item : NewerStateItem}

/-- Whether the recovery would overwrite or remove an object, as the analysis sees it. -/
def ConflictRequest.takes (request : ConflictRequest) (object : String) : Prop :=
  request.restores object = true ∨ request.method.discardsNewerState = true ∨
    (request.directoryPolicy = .exactTree ∧ request.underRestoredDirectory object = true)

/-- A change to a restored object that the recovered plan made itself. -/
def ConflictRequest.ownChange (request : ConflictRequest) (object : String)
    (state : ObservedState) : Prop :=
  request.restores object = true ∧
    ∃ applied ∈ request.appliedAt, ∃ instant ∈ state.changedAt, instant ≤ applied

theorem any_any_le_iff {applied changed : Option Int} :
    (applied.any fun applied => changed.any (· ≤ applied)) = true ↔
      ∃ limit ∈ applied, ∃ instant ∈ changed, instant ≤ limit := by
  cases applied <;> cases changed <;> simp

theorem classify_of_established (hstate : ∀ reason, state ≠ .unestablished reason) :
    classify render request ⟨object, state⟩ = establishedItem render request object state := by
  cases state with
  | unestablished reason => exact absurd rfl (hstate reason)
  | present changedAt digest | absent changedAt => rfl

theorem object_of_changedObjectItem {changedAt : Option Int}
    (h : changedObjectItem render request object changedAt = some item) : item.object = object := by
  unfold changedObjectItem restoredObjectItem at h
  split_ifs at h <;> obtain rfl := some.inj h <;> rfl

/-- An item is about the object that was observed. -/
theorem object_of_classify (h : classify render request ⟨object, state⟩ = some item) :
    item.object = object := by
  by_cases hstate : ∀ reason, state ≠ .unestablished reason
  · rw [classify_of_established hstate] at h
    unfold establishedItem at h
    split at h
    · obtain rfl := some.inj h
      rfl
    · cases h
    · obtain ⟨found, hfound, rfl⟩ := map_eq_some_iff.mp h
      have hobject := object_of_changedObjectItem hfound
      exact hobject
  · push Not at hstate
    obtain ⟨reason, rfl⟩ := hstate
    obtain rfl := some.inj h
    rfl

theorem classify_eq_some_unknown
    (h : (∃ reason, state = .unestablished reason) ∨ newer request object state = none) :
    ∃ item, classify render request ⟨object, state⟩ = some item ∧ item.class' = .unknown := by
  by_cases hstate : ∀ reason, state ≠ .unestablished reason
  · have hnone := h.resolve_left fun ⟨reason, hreason⟩ => hstate reason hreason
    rw [classify_of_established hstate, establishedItem, hnone]
    exact ⟨_, rfl, rfl⟩
  · push Not at hstate
    obtain ⟨reason, rfl⟩ := hstate
    exact ⟨_, rfl, rfl⟩

/-- A change to an object the recovery takes is a loss. -/
theorem classify_eq_some_of_loss (hstate : ∀ reason, state ≠ .unestablished reason)
    (hnewer : newer request object state = some true) (htakes : request.takes object)
    (hown : ¬ request.ownChange object state) :
    ∃ item, classify render request ⟨object, state⟩ = some item ∧ item.class'.isLoss = true := by
  have hitem : ∃ item, changedObjectItem render request object state.changedAt = some item ∧
      item.class'.isLoss = true := by
    unfold changedObjectItem
    by_cases hrestores : request.restores object = true
    · rw [if_pos hrestores, restoredObjectItem,
        if_neg fun hany => hown ⟨hrestores, any_any_le_iff.mp hany⟩]
      exact ⟨_, rfl, rfl⟩
    · rw [if_neg hrestores]
      by_cases hdiscards : request.method.discardsNewerState = true
      · rw [if_pos hdiscards]
        exact ⟨_, rfl, rfl⟩
      · have hunder := (htakes.resolve_left hrestores).resolve_left hdiscards
        rw [if_neg hdiscards, if_pos (by simpa using hunder)]
        exact ⟨_, rfl, rfl⟩
  obtain ⟨item, hfound, hloss⟩ := hitem
  rw [classify_of_established hstate, establishedItem, hnewer]
  exact ⟨_, congrArg (Option.map _) hfound, hloss⟩

/-- Elsewhere nothing is lost: there is no item, or the object is left alone. -/
theorem not_isLoss_of_classify
    (h : newer request object state = some false ∨ ¬ request.takes object)
    (hitem : classify render request ⟨object, state⟩ = some item) : item.class'.isLoss = false := by
  by_cases hstate : ∀ reason, state ≠ .unestablished reason
  · rw [classify_of_established hstate] at hitem
    unfold establishedItem at hitem
    split at hitem
    · obtain rfl := some.inj hitem
      rfl
    · cases hitem
    · rename_i hnewer
      have htakes := h.resolve_left (by rw [hnewer]; simp)
      unfold ConflictRequest.takes at htakes
      push Not at htakes
      rw [changedObjectItem, if_neg htakes.1, if_neg htakes.2.1,
        if_neg (by simpa using htakes.2.2)] at hitem
      obtain rfl := some.inj hitem
      rfl
  · push Not at hstate
    obtain ⟨reason, rfl⟩ := hstate
    obtain rfl := some.inj hitem
    rfl

end Found

end OnoSendai.Recovery
