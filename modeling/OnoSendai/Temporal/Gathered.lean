import OnoSendai.Temporal.Reconstruct

/-!
# What a reconstruction gathers

The state of a reconstruction is changed object by object while the checkpoint, the events and the
answers go by. Taken together, the state is told by what was said: a list of contributions, each of
one item about one object. This module reads the list off the items and proves that the state holds
of every object what was said about it, up to readings of later events.
-/

namespace OnoSendai.Temporal

open Keyed Contest Temporal
open List hiding map_map

/-! ### Contributions -/

/-- What one item says about an object: its type, a support, and readings. -/
structure Contribution where
  objectType : SpatialType
  supports : List Support
  readings : List (String × Reading)

/-- What an object of a checkpoint says. -/
def seedSaying (object : ObjectState) : SpatialId × Contribution :=
  (object.id,
    { objectType := object.objectType
      supports := [⟨object.observedAt, 0, true, object.source, true⟩]
      readings := recordReadings object.record fun value =>
        ⟨object.observedAt, value, object.source, .observational, none, none, false⟩ })

/-- What an event at or before the instant says, where it is about an object. -/
def eventSaying (strengths : List (EvidenceId × EvidenceStrength)) (event : TemporalEvent)
    (sequence : Nat) : Option (SpatialId × Contribution) :=
  if event.isRelation then none
  else match event.subject with
    | some (.resolved id objectType _) =>
      match eventPresence event.kind with
      | some present => some (id,
          { objectType
            supports := [⟨event.instant, sequence, present, sourceOf event, false⟩]
            readings := eventReadings strengths event })
      | none => some (id, ⟨objectType, [], []⟩)
    | _ => none

/-- What events at or before the instant say, in the order they are replayed in. -/
def pastSayings (strengths : List (EvidenceId × EvidenceStrength)) :
    Nat → List TemporalEvent → List (SpatialId × Contribution)
  | _, [] => []
  | sequence, event :: events =>
    (eventSaying strengths event (sequence + 1)).toList ++
      pastSayings strengths (sequence + 1) events

/-- What an answer contributes: a support where it was observed by the instant, and its readings. -/
def answerContribution (at' : Int) (sequence : Nat) (answer : HistoricalAnswer) : Contribution where
  objectType := answer.objectType
  supports := if answer.observedAt ≤ at' then
      [⟨answer.observedAt, sequence, true, answer.source, false⟩] else []
  readings := recordReadings answer.record fun value =>
    ⟨answer.observedAt, value, answer.source, answer.strength, answer.validFrom,
      answer.validUntil, answer.speaksTo at'⟩

/-- What an answer says, unless it was observed later and does not speak to the instant. -/
def answerSaying (at' : Int) (sequence : Nat) (answer : HistoricalAnswer) :
    Option (SpatialId × Contribution) :=
  if at' < answer.observedAt && !answer.speaksTo at' then none
  else some (answer.subject, answerContribution at' sequence answer)

/-- What is said about one object. -/
def about (id : SpatialId) (said : List (SpatialId × Contribution)) : List Contribution :=
  (said.filter (·.1 = id)).map (·.2)

/-! ### The state holds what was said -/

section State

variable {at' : Int} {objects : Objects} {said : List (SpatialId × Contribution)}
  {working : Working} {contribution : Contribution} {contributions : List Contribution}
  {strengths : List (EvidenceId × EvidenceStrength)}

/-- An object put together from contributions, up to readings after the instant. -/
def Holds (at' : Int) (contributions : List Contribution) : Option Working → Prop
  | none => contributions = []
  | some working =>
    contributions.head?.map (·.objectType) = some working.objectType ∧
      working.supports = contributions.flatMap (·.supports) ∧
      working.readings.filter (·.2.at' ≤ at') =
        (contributions.flatMap (·.readings)).filter (·.2.at' ≤ at')

/-- Every object put together from what was said about it. -/
def HoldsAll (at' : Int) (said : List (SpatialId × Contribution)) (objects : Objects) : Prop :=
  (objects.map (·.1)).Nodup ∧ ∀ id, Holds at' (about id said) (objects.lookup id)

/-- A change of an object that adds a contribution. -/
structure Adds (change : Working → Working) (contribution : Contribution) : Prop where
  objectType : ∀ working, (change working).objectType = working.objectType
  supports : ∀ working, (change working).supports = working.supports ++ contribution.supports
  readings : ∀ working, (change working).readings = working.readings ++ contribution.readings

@[simp] theorem Working.observeRecord_objectType (instant : Int) :
    (working.observeRecord instant).objectType = working.objectType := by
  unfold Working.observeRecord
  split_ifs <;> rfl

@[simp] theorem Working.observeRecord_supports (instant : Int) :
    (working.observeRecord instant).supports = working.supports := by
  unfold Working.observeRecord
  split_ifs <;> rfl

@[simp] theorem Working.observeRecord_readings (instant : Int) :
    (working.observeRecord instant).readings = working.readings := by
  unfold Working.observeRecord
  split_ifs <;> rfl

theorem adds_seedWorking (object : ObjectState) :
    Adds (seedWorking object) (seedSaying object).2 where
  objectType working := by simp [seedWorking, Working.read, Working.hear, Working.support]
  supports working := by simp [seedWorking, seedSaying, Working.read, Working.hear, Working.support]
  readings working := by simp [seedWorking, seedSaying, Working.read, Working.hear, Working.support]

theorem readEventFields_eq (event : TemporalEvent) (future : Bool) :
    (readEventFields strengths event future working).objectType = working.objectType ∧
      (readEventFields strengths event future working).supports = working.supports ∧
      (readEventFields strengths event future working).readings =
        working.readings ++ eventReadings strengths event := by
  unfold readEventFields
  split_ifs <;> simp [Working.read]

variable {event : TemporalEvent}

/-- Applying an event adds what it says. -/
theorem adds_applyWorking {sequence : Nat} {id : SpatialId}
    (h : eventSaying strengths event sequence = some (id, contribution)) :
    Adds (applyWorking strengths event sequence) contribution := by
  unfold eventSaying at h
  split_ifs at h
  split at h
  · cases hpresence : eventPresence event.kind with
    | none =>
      rw [hpresence] at h
      obtain ⟨-, rfl⟩ := Prod.mk.inj (Option.some.inj h)
      refine ⟨fun working => ?_, fun working => ?_, fun working => ?_⟩ <;>
        simp [applyWorking, hpresence, Working.hear]
    | some present =>
      rw [hpresence] at h
      obtain ⟨-, rfl⟩ := Prod.mk.inj (Option.some.inj h)
      refine ⟨fun working => ?_, fun working => ?_, fun working => ?_⟩ <;>
        simp [applyWorking, hpresence, readEventFields_eq, Working.hear, Working.support]
  · cases h

theorem adds_answerWorking (at' : Int) (sequence : Nat) (answer : HistoricalAnswer) :
    Adds (answerWorking at' sequence answer) (answerContribution at' sequence answer) := by
  unfold answerWorking answerContribution
  split_ifs
  · refine ⟨fun working => ?_, fun working => ?_, fun working => ?_⟩ <;>
      simp [Working.read, Working.hear, Working.support]
  · refine ⟨fun working => ?_, fun working => ?_, fun working => ?_⟩ <;>
      simp [Working.read, Working.hear]

variable {change : Working → Working}

/-- Adding a contribution to what holds. -/
theorem Holds.add {held : Option Working} {label : String} (h : Holds at' contributions held)
    (hadds : Adds change contribution) :
    Holds at' (contributions ++ [contribution])
      (some (change (held.getD (.new contribution.objectType label)))) := by
  cases held with
  | none =>
    obtain rfl : contributions = [] := h
    refine ⟨?_, ?_, ?_⟩
    · simp [hadds.objectType, Working.new]
    · simp [hadds.supports, Working.new]
    · simp [hadds.readings, Working.new]
  | some working =>
    obtain ⟨htype, hsupports, hreadings⟩ := h
    refine ⟨?_, ?_, ?_⟩
    · rw [Option.getD_some, hadds.objectType, ← htype]
      cases contributions with
      | nil => cases htype
      | cons first rest => rfl
    · rw [Option.getD_some, hadds.supports, hsupports, flatMap_append, flatMap_singleton]
    · rw [Option.getD_some, hadds.readings, filter_append, hreadings, flatMap_append,
        flatMap_singleton, filter_append]

theorem lookup_alter {id other : SpatialId} {objectType : SpatialType} {label : String} :
    (alter id objectType label change objects).lookup other =
      if other = id then some (change ((objects.lookup id).getD (.new objectType label)))
      else objects.lookup other := by
  rw [alter, lookup_upsert]
  split_ifs
  · cases objects.lookup id <;> rfl
  · rfl

theorem nodup_upsert {id : SpatialId} {added : Working} (h : (objects.map (·.1)).Nodup) :
    ((Keyed.upsert id added change objects).map (·.1)).Nodup := by
  have hkeys : ∀ objects : Objects, ((Keyed.upsert id added change objects).map (·.1)) =
      if id ∈ objects.map (·.1) then objects.map (·.1) else objects.map (·.1) ++ [id] := by
    intro objects
    induction objects with
    | nil => rfl
    | cons entry objects ih =>
      obtain ⟨other, working⟩ := entry
      rw [Keyed.upsert]
      by_cases heq : other = id
      · simp [heq]
      · rw [if_neg heq, map_cons, ih, map_cons]
        simp only [mem_cons, Ne.symm heq, false_or]
        split_ifs <;> rfl
  rw [hkeys]
  split_ifs with hmem
  · exact h
  · exact nodup_append.2 ⟨h, nodup_singleton id, by
      rintro other hother _ hid rfl
      exact hmem (mem_singleton.1 hid ▸ hother)⟩

theorem about_concat {id other : SpatialId} : about other (said ++ [(id, contribution)]) =
    if id = other then about other said ++ [contribution] else about other said := by
  unfold about
  rw [filter_append, map_append]
  split_ifs with heq
  · simp [heq]
  · simp [heq]

/-- **One saying changes one object.** -/
theorem HoldsAll.alter (h : HoldsAll at' said objects) (id : SpatialId) (label : String)
    (hadds : Adds change contribution) :
    HoldsAll at' (said ++ [(id, contribution)])
      (alter id contribution.objectType label change objects) := by
  refine ⟨nodup_upsert h.1, fun other => ?_⟩
  rw [lookup_alter, about_concat]
  by_cases heq : other = id
  · subst heq
    rw [if_pos rfl, if_pos rfl]
    exact (h.2 other).add hadds
  · rw [if_neg heq, if_neg (Ne.symm heq)]
    exact h.2 other

/-! ### The steps of a reconstruction -/

theorem HoldsAll.seed (h : HoldsAll at' said objects) (states : List ObjectState) :
    HoldsAll at' (said ++ states.map seedSaying) (states.foldl (fun objects object =>
      Temporal.alter object.id object.objectType object.label (seedWorking object) objects)
      objects) := by
  induction states generalizing said objects with
  | nil => simpa using h
  | cons state states ih =>
    have hnext := ih (h.alter state.id state.label (adds_seedWorking state))
    rwa [List.append_assoc] at hnext

theorem HoldsAll.applyEvent (h : HoldsAll at' said objects)
    (strengths : List (EvidenceId × EvidenceStrength)) (event : TemporalEvent) (sequence : Nat) :
    HoldsAll at' (said ++ (eventSaying strengths event sequence).toList)
      (applyEvent strengths event sequence objects) := by
  have hsaid : ∀ id contribution, eventSaying strengths event sequence = some (id, contribution) →
      ∃ label, Temporal.applyEvent strengths event sequence objects =
        Temporal.alter id contribution.objectType label (applyWorking strengths event sequence)
          objects := by
    intro id contribution hsaying
    unfold eventSaying at hsaying
    unfold Temporal.applyEvent
    by_cases hrelation : event.isRelation
    · rw [if_pos hrelation] at hsaying
      cases hsaying
    rw [if_neg hrelation] at hsaying ⊢
    rcases hsubject : event.subject with _ | ⟨id', objectType, label⟩ | ⟨source, described⟩
    · rw [hsubject] at hsaying
      cases hsaying
    · rw [hsubject] at hsaying
      refine ⟨label, ?_⟩
      cases hpresence : eventPresence event.kind with
      | none =>
        rw [hpresence] at hsaying
        obtain ⟨rfl, rfl⟩ := Prod.mk.inj (Option.some.inj hsaying)
        rfl
      | some present =>
        rw [hpresence] at hsaying
        obtain ⟨rfl, rfl⟩ := Prod.mk.inj (Option.some.inj hsaying)
        rfl
    · rw [hsubject] at hsaying
      cases hsaying
  cases hsaying : eventSaying strengths event sequence with
  | none =>
    have hsame : Temporal.applyEvent strengths event sequence objects = objects := by
      unfold eventSaying at hsaying
      unfold Temporal.applyEvent
      by_cases hrelation : event.isRelation
      · rw [if_pos hrelation]
      rw [if_neg hrelation] at hsaying ⊢
      rcases hsubject : event.subject with _ | ⟨id, objectType, label⟩ | ⟨source, described⟩
      · rfl
      · rw [hsubject] at hsaying
        cases hpresence : eventPresence event.kind with
        | none => rw [hpresence] at hsaying; cases hsaying
        | some present => rw [hpresence] at hsaying; cases hsaying
      · rfl
    simpa [hsame] using h
  | some saying =>
    obtain ⟨id, contribution⟩ := saying
    obtain ⟨label, hequal⟩ := hsaid id contribution hsaying
    rw [hequal]
    exact h.alter id label (adds_applyWorking hsaying)

theorem HoldsAll.applyPast (h : HoldsAll at' said objects) (events : List TemporalEvent)
    (sequence : Nat) : HoldsAll at' (said ++ pastSayings strengths sequence events)
      (applyPast strengths sequence events objects) := by
  induction events generalizing said objects sequence with
  | nil => simpa [pastSayings, applyPast] using h
  | cons event events ih =>
    have hnext := ih (h.applyEvent strengths event (sequence + 1)) (sequence + 1)
    rwa [List.append_assoc] at hnext

/-- Readings of later events are all after the instant. -/
theorem filter_eventReadings (hlater : at' < event.instant) :
    (eventReadings strengths event).filter (fun reading => reading.2.at' ≤ at') = [] := by
  refine filter_eq_nil_iff.2 fun reading hreading => ?_
  have hinstant : reading.2.at' = event.instant := by
    unfold eventReadings at hreading
    rcases mem_append.1 hreading with hrecord | hchange
    · cases hafter : afterRecord event with
      | none => simp [hafter] at hrecord
      | some record =>
        rw [hafter] at hrecord
        obtain ⟨name, -, hname⟩ := mem_filterMap.1 hrecord
        obtain ⟨value, -, rfl⟩ := Option.map_eq_some_iff.1 hname
        rfl
    · obtain ⟨change, -, hfield⟩ := mem_filterMap.1 hchange
      obtain ⟨value, -, rfl⟩ := Option.map_eq_some_iff.1 hfield
      rfl
  simp only [decide_eq_true_eq]
  omega

theorem lookup_map_snd (change : SpatialId → Working → Working) (id : SpatialId) :
    (objects.map fun entry => (entry.1, change entry.1 entry.2)).lookup id =
      (objects.lookup id).map (change id) := by
  induction objects with
  | nil => rfl
  | cons entry objects ih =>
    obtain ⟨other, working⟩ := entry
    rw [map_cons, lookup_cons, lookup_cons]
    by_cases heq : id = other
    · subst heq
      simp
    · simp [beq_eq_false_iff_ne.2 heq, ih]

theorem HoldsAll.applyFuture (h : HoldsAll at' said objects) (hlater : at' < event.instant) :
    HoldsAll at' said (Temporal.applyFuture strengths event objects) := by
  unfold Temporal.applyFuture
  split
  · rename_i subject hsubject
    have hkeys : (objects.map fun entry => (entry.1, if entry.1 = subject then
        readEventFields strengths event true entry.2 else entry.2)).map (·.1) =
        objects.map (·.1) := by
      rw [List.map_map]
      rfl
    refine ⟨by rw [hkeys]; exact h.1, fun id => ?_⟩
    rw [lookup_map_snd (fun other working =>
      if other = subject then readEventFields strengths event true working else working)]
    have hheld := h.2 id
    cases hlookup : objects.lookup id with
    | none =>
      rw [hlookup] at hheld
      exact hheld
    | some working =>
      rw [hlookup] at hheld
      rw [Option.map_some]
      split_ifs
      · obtain ⟨htype, hsupports, hreadings⟩ := hheld
        obtain ⟨htype', hsupports', hreadings'⟩ := @readEventFields_eq working strengths event true
        refine ⟨htype.trans (by rw [htype']), hsupports'.trans hsupports, ?_⟩
        rw [hreadings', filter_append, filter_eventReadings hlater, append_nil, hreadings]
      · exact hheld
  · exact h

theorem HoldsAll.replay (h : HoldsAll at' said objects) (events : List TemporalEvent) :
    HoldsAll at'
      (said ++ pastSayings strengths 0 (events.filter fun event => event.instant ≤ at'))
      (Temporal.replay at' strengths events objects) := by
  unfold Temporal.replay
  have hpast : HoldsAll at'
      (said ++ pastSayings strengths 0 (events.filter fun event => event.instant ≤ at'))
      (Temporal.applyPast strengths 0 (events.filter fun event => event.instant ≤ at') objects) :=
    h.applyPast _ 0
  have hlater : ∀ event ∈ events.filter (fun event => at' < event.instant), at' < event.instant :=
    fun event hevent => by simpa using (mem_filter.1 hevent).2
  generalize events.filter (fun event => at' < event.instant) = later at hlater
  generalize Temporal.applyPast strengths 0 _ objects = objects' at hpast ⊢
  induction later generalizing objects' with
  | nil => exact hpast
  | cons event later ih =>
    rw [List.forall_mem_cons] at hlater
    exact ih hlater.2 _ (hpast.applyFuture hlater.1)

theorem HoldsAll.mergeAnswers (h : HoldsAll at' said objects) (answers : List HistoricalAnswer)
    (sequence : Nat) : HoldsAll at' (said ++ answers.filterMap (answerSaying at' sequence))
      (Temporal.mergeAnswers at' sequence answers objects) := by
  unfold Temporal.mergeAnswers
  induction answers generalizing said objects with
  | nil => simpa using h
  | cons answer answers ih =>
    rw [foldl_cons, filterMap_cons]
    unfold mergeAnswer answerSaying
    split_ifs
    · exact ih h
    · have hnext := ih (h.alter answer.subject answer.label (adds_answerWorking at' sequence answer))
      rwa [append_assoc] at hnext

end State

/-! ### The world holds what was gathered -/

section World

variable {at' : Int} {found : Found} {answers : List HistoricalAnswer} {matrix : SourceMatrix}
  {request : ReconstructionRequest} {objects : Objects} {id : SpatialId}

variable {working : Working} {intervals : List TemporalCoverage} {object : ReconstructedObject}
  {window : TimeRange}

end World

end OnoSendai.Temporal
