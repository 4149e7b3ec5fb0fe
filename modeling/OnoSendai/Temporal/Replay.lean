import Mathlib.Data.Prod.Lex
import OnoSendai.Lib.Buckets
import OnoSendai.Lib.Lanes
import OnoSendai.Temporal.Query

/-!
# Replaying events in order

A replay splits the events into groups that one kind of evidence orders: the monotonic readings of
one boot of one host, or the sequence numbers of one source in one clock domain. Each group is
sorted by its readings, and the groups are merged by the instants their events are presented at. A
plan says of every step which evidence placed it behind the step before, where both are of one
group.

An event has one group while two kinds of evidence may order it. The replay keeps the evidence just
where the numbers that no readings decide agree with the groups, and its plan says the truth just
where neighbours of one group do not have equal readings.
-/

namespace OnoSendai.Temporal

open Lanes Prod
open List hiding mem_map

/-! ### Happening before -/

/-- What a comparison of two events comes to. -/
inductive Ordering'
  | before
  | after
  | concurrent
deriving DecidableEq

/-- What supports an ordering of two events. -/
inductive OrderEvidence
  | sourceSequence
  | monotonic
  | transaction
  | actionChain
  | parentProcess
  | requestResponse
deriving DecidableEq

/-- The readings two events have of one kind, where both have one and they differ. -/
def differing (here there : Option Nat) : Option (Nat × Nat) :=
  match here, there with
  | some here, some there => if here ≠ there then some (here, there) else none
  | _, _ => none

/-- How two different readings order their events. -/
def orderOf (readings : Nat × Nat) : Ordering' :=
  if readings.1 < readings.2 then .before else .after

/-- The monotonic readings that order two events, where their clocks may be compared. -/
def monotonicReadings (a b : TemporalEvent) : Option (Nat × Nat) :=
  if a.times.domain.isComparableTo b.times.domain then
    differing a.times.monotonicNanos b.times.monotonicNanos
  else none

/-- The sequence numbers that order two events, where they are of one source and one clock. -/
def sequenceNumbers (a b : TemporalEvent) : Option (Nat × Nat) :=
  if a.times.domain = b.times.domain ∧ a.provenance.provider = b.provenance.provider then
    differing a.times.sourceSequence b.times.sourceSequence
  else none

/-- Whether an event happens before another, and what says so. -/
def happensBeforeBy (a b : TemporalEvent) : Ordering' × Option OrderEvidence :=
  if a.eventId = b.eventId then (.concurrent, none)
  else
    match monotonicReadings a b with
    | some readings => (orderOf readings, some .monotonic)
    | none =>
      match sequenceNumbers a b with
      | some readings => (orderOf readings, some .sourceSequence)
      | none => (.concurrent, none)

/-! ### Groups -/

/-- The group an event can be ordered within. -/
inductive Group
  | monotonic (domain : ClockDomain)
  | sequence (domain : ClockDomain) (provider : String)
  | alone (event : String)
deriving DecidableEq

/-- What orders the events of a group. -/
def Group.evidence : Group → Option OrderEvidence
  | monotonic _ => some .monotonic
  | sequence _ _ => some .sourceSequence
  | alone _ => none

/-- The group an event belongs to. -/
def groupOf (event : TemporalEvent) : Group :=
  if event.times.domain.bootId.isSome ∧ event.times.monotonicNanos.isSome then
    .monotonic event.times.domain
  else if event.times.sourceSequence.isSome then
    .sequence event.times.domain event.provenance.provider
  else .alone event.eventId.text

/-- The rank of an event inside its group. -/
def rankInGroup (event : TemporalEvent) : ℕ ×ₗ String :=
  toLex (((event.times.monotonicNanos <|> event.times.sourceSequence).getD 0), event.eventId.text)

/-- Where a group stands among the groups: by its kind, then by what it is made of. -/
def Group.position : Group → ℕ ×ₗ String ×ₗ WithBot String ×ₗ String
  | monotonic domain => toLex (0, toLex (domain.host, toLex (domain.bootId, "")))
  | sequence domain provider => toLex (1, toLex (domain.host, toLex (domain.bootId, provider)))
  | alone event => toLex (2, toLex ("", toLex (⊥, event)))

/-- Whether a group does not come after another. -/
def GroupBefore (one two : Group) : Prop :=
  one.position ≤ two.position

instance : DecidableRel GroupBefore :=
  fun one two => inferInstanceAs (Decidable (one.position ≤ two.position))

/-- Whether an event is not ranked after another. -/
def RankBefore (a b : TemporalEvent) : Prop :=
  rankInGroup a ≤ rankInGroup b

instance : DecidableRel RankBefore :=
  fun a b => inferInstanceAs (Decidable (rankInGroup a ≤ rankInGroup b))

/-! ### The replay -/

/-- What groups are merged by: the instant an event is presented at, then its identity. -/
def presentation (event : TemporalEvent) : ℤ ×ₗ String :=
  toLex (event.instant, event.eventId.text)

/-- The groups of some events, in their order. -/
def groupsOf (events : List TemporalEvent) : List Group :=
  ((events.map groupOf).insertionSort GroupBefore).destutter (· ≠ ·)

/-- The events of each group, sorted by their rank. -/
def queuesOf (events : List TemporalEvent) : List (List TemporalEvent) :=
  (groupsOf events).map fun group =>
    (events.filter fun event => groupOf event = group).insertionSort RankBefore

/-- Orders events for a replay: by evidence inside a group, by presentation between groups. -/
def replayOrder (events : List TemporalEvent) : List TemporalEvent :=
  mergeQueues presentation events.length (queuesOf events)

/-- Where one event sits in a replay, and what put it there. -/
structure ReplayStep where
  event : EventId
  evidence : Option OrderEvidence

/-- The steps of a replay that goes on after an event of some group. -/
def planFrom : Option Group → List TemporalEvent → List ReplayStep
  | _, [] => []
  | previous, event :: events =>
    ⟨event.eventId, if previous = some (groupOf event) then (groupOf event).evidence else none⟩ ::
      planFrom (some (groupOf event)) events

/-- The steps of a replay, with what placed every one of them. -/
def replayPlan (events : List TemporalEvent) : List ReplayStep :=
  planFrom none events

/-! ### The contract -/

/-- Whether every step of a plan that has evidence happens after the step before it, and by that
evidence. -/
def PlanSound (order : List TemporalEvent) : Prop :=
  ∀ (i : Nat) (step : ReplayStep) (evidence : OrderEvidence), (replayPlan order)[i]? = some step →
    step.evidence = some evidence →
    ∃ (j : Nat) (previous event : TemporalEvent), i = j + 1 ∧ order[j]? = some previous ∧
      order[j + 1]? = some event ∧ step.event = event.eventId ∧
      happensBeforeBy previous event = (.before, some evidence)

/-- Whether the replay of some events is a function of their set, keeps what happens before, and
claims no other evidence. -/
structure RespectsEvidence (events : List TemporalEvent) : Prop where
  perm : (replayOrder events).Perm events
  same : ∀ others, events.Perm others → replayOrder others = replayOrder events
  kept : ∀ a ∈ events, ∀ b ∈ events, (happensBeforeBy a b).1 = .before →
    [a, b].Sublist (replayOrder events)
  planned : PlanSound (replayOrder events)

/-! ### What replays well -/

/-- Where an event ends up before another: in one group by its rank; otherwise where some event of
the other's group up to the other is presented later than all of its own group up to itself. -/
def StandsBefore (events : List TemporalEvent) (a b : TemporalEvent) : Prop :=
  Lanes.Precedes groupOf rankInGroup presentation events a b

instance (events : List TemporalEvent) : DecidableRel (StandsBefore events) :=
  fun a b => inferInstanceAs (Decidable (if groupOf a = groupOf b then _ else _))

/-- The reading that orders an event in its group. -/
def groupReading (event : TemporalEvent) : Nat :=
  match groupOf event with
  | .monotonic _ => event.times.monotonicNanos.getD 0
  | .sequence _ _ => event.times.sourceSequence.getD 0
  | .alone _ => 0

/-- Events whose sequence numbers agree with where they end up, wherever a number puts one before
another, and of which no two of one group end up next to each other without a greater reading. -/
structure EvidenceFits (events : List TemporalEvent) : Prop where
  numbered : ∀ a ∈ events, ∀ b ∈ events,
    happensBeforeBy a b = (.before, some .sourceSequence) → StandsBefore events a b
  risen : ∀ a ∈ events, ∀ b ∈ events, groupOf a = groupOf b → rankInGroup a < rankInGroup b →
    (∀ other ∈ events, StandsBefore events a other → ¬ StandsBefore events other b) →
    groupReading a < groupReading b

/-! ### The order of a replay -/

section Order

variable {events : List TemporalEvent} {a b : TemporalEvent}

theorem Group.position_injective : Function.Injective Group.position := by
  intro one two h
  cases one with
  | monotonic domain =>
    cases two with
    | monotonic other =>
      obtain ⟨host, boot⟩ := domain
      obtain ⟨host', boot'⟩ := other
      simp only [position, toLex_inj, mk.injEq, true_and] at h
      obtain ⟨rfl, hrest⟩ := h
      exact congrArg (fun boot => monotonic ⟨host, boot⟩) (mk.inj hrest).1
    | sequence other provider => simp [position] at h
    | alone event => simp [position] at h
  | sequence domain provider =>
    cases two with
    | monotonic other => simp [position] at h
    | sequence other provider' =>
      obtain ⟨host, boot⟩ := domain
      obtain ⟨host', boot'⟩ := other
      simp only [position, toLex_inj, mk.injEq, true_and] at h
      obtain ⟨rfl, hrest⟩ := h
      obtain ⟨hboot, rfl⟩ := mk.inj hrest
      exact congrArg (fun boot => sequence ⟨host, boot⟩ provider) hboot
    | alone event => simp [position] at h
  | alone event =>
    cases two with
    | monotonic other => simp [position] at h
    | sequence other provider => simp [position] at h
    | alone event' =>
      simp only [position, toLex_inj, mk.injEq, true_and] at h
      rw [h]

theorem groupsOf_eq_dedup :
    groupsOf events = ((events.map groupOf).insertionSort GroupBefore).dedup := by
  have hantisymm : Std.Antisymm GroupBefore :=
    ⟨fun _ _ hle hge => Group.position_injective (le_antisymm hle hge)⟩
  have htotal : Std.Total GroupBefore := ⟨fun _ _ => le_total _ _⟩
  have htrans : IsTrans Group GroupBefore := ⟨fun _ _ _ hle hle' => le_trans hle hle'⟩
  exact (pairwise_insertionSort GroupBefore _).destutter_eq_dedup

theorem mem_groupsOf_iff {group : Group} :
    group ∈ groupsOf events ↔ ∃ event ∈ events, groupOf event = group := by
  rw [groupsOf_eq_dedup, List.mem_dedup, List.mem_insertionSort, List.mem_map]

theorem flatten_queuesOf : (queuesOf events).flatten.Perm events := by
  have hnodup : (groupsOf events).Nodup := by
    rw [groupsOf_eq_dedup]
    exact nodup_dedup _
  have hall : events.filter (fun event => decide (groupOf event ∈ groupsOf events)) = events := by
    refine filter_eq_self.2 fun event hevent => ?_
    simpa using mem_groupsOf_iff.2 ⟨event, hevent, rfl⟩
  rw [queuesOf, ← flatMap_def]
  refine Perm.trans ?_ ((Keyed.perm_flatMap_filter_of_nodup hnodup events).trans (by rw [hall]))
  exact Perm.flatMap_left _ fun group _ => perm_insertionSort _ _

theorem eq_of_eventId_eq (h : (events.map (·.eventId)).Nodup) (ha : a ∈ events) (hb : b ∈ events)
    (heq : a.eventId = b.eventId) : a = b :=
  inj_on_of_nodup_map h ha hb heq

theorem eq_of_text_eq (h : (events.map (·.eventId)).Nodup) (ha : a ∈ events) (hb : b ∈ events)
    (heq : a.eventId.text = b.eventId.text) : a = b := by
  refine eq_of_eventId_eq h ha hb ?_
  cases hone : a.eventId
  cases htwo : b.eventId
  simpa [hone, htwo] using heq

theorem laned_queuesOf (h : (events.map (·.eventId)).Nodup) :
    Laned groupOf rankInGroup (queuesOf events) := by
  have htotal : Std.Total RankBefore := ⟨fun _ _ => le_total _ _⟩
  have htrans : IsTrans TemporalEvent RankBefore := ⟨fun _ _ _ hle hle' => le_trans hle hle'⟩
  have hgroup : ∀ group, ∀ event ∈ (events.filter fun event => groupOf event = group).insertionSort
      RankBefore, event ∈ events ∧ groupOf event = group := by
    intro group event hevent
    obtain ⟨hmem, hgroup⟩ := mem_filter.1 ((mem_insertionSort _).1 hevent)
    exact ⟨hmem, by simpa using hgroup⟩
  refine ⟨fun queue hqueue => ?_, fun queue hqueue one hone two htwo => ?_, ?_⟩
  · obtain ⟨group, -, rfl⟩ := List.mem_map.1 hqueue
    have hnodup : ((events.filter fun event => groupOf event = group).insertionSort
        RankBefore).Nodup := by
      rw [(perm_insertionSort _ _).nodup_iff]
      exact h.of_map.filter _
    refine (Pairwise.and hnodup (pairwise_insertionSort RankBefore _)).imp_of_mem
      fun {one two} hone htwo hboth => ?_
    refine lt_of_le_of_ne hboth.2 fun heq => hboth.1 ?_
    exact eq_of_text_eq h (hgroup group one hone).1 (hgroup group two htwo).1
      (mk.inj (toLex_inj.1 heq)).2
  · obtain ⟨group, -, rfl⟩ := List.mem_map.1 hqueue
    rw [(hgroup group one hone).2, (hgroup group two htwo).2]
  · have hnodup : (groupsOf events).Nodup := by
      rw [groupsOf_eq_dedup]
      exact nodup_dedup _
    refine pairwise_map.2 (hnodup.imp fun {one two} hne => ?_)
    intro event hevent event' hevent' heq
    exact hne ((hgroup one event hevent).2.symm.trans (heq.trans (hgroup two event' hevent').2))

/-- **What a replay does**: it keeps every event, and orders them by where they stand. -/
theorem replayOrder_spec (h : (events.map (·.eventId)).Nodup) :
    (replayOrder events).Perm events ∧ (replayOrder events).Pairwise (StandsBefore events) := by
  have hkeys : ∀ one ∈ (queuesOf events).flatten, ∀ two ∈ (queuesOf events).flatten,
      presentation one = presentation two → one = two := fun one hone two htwo heq =>
    eq_of_text_eq h (flatten_queuesOf.subset hone) (flatten_queuesOf.subset htwo)
      (mk.inj (toLex_inj.1 heq)).2
  obtain ⟨hmerged, hheads⟩ := mergeQueues_spec (laned_queuesOf h) hkeys
    flatten_queuesOf.length_eq.le
  have hperm := hmerged.trans flatten_queuesOf
  refine ⟨hperm, ?_⟩
  have hpairwise := hheads.pairwise
  rwa [precedes_congr fun event => hperm.mem_iff] at hpairwise

end Order

/-! ### What the evidence says -/

section Evidence

variable {a b : TemporalEvent} {events order : List TemporalEvent}

theorem differing_eq_some_iff {here there : Option Nat} {readings : Nat × Nat} :
    differing here there = some readings ↔
      here = some readings.1 ∧ there = some readings.2 ∧ readings.1 ≠ readings.2 := by
  unfold differing
  split
  · split_ifs with hne <;> grind
  · grind

theorem orderOf_eq_before_iff {readings : Nat × Nat} :
    orderOf readings = .before ↔ readings.1 < readings.2 := by
  unfold orderOf
  split_ifs with hlt
  · exact ⟨fun _ => hlt, fun _ => rfl⟩
  · exact ⟨nofun, fun h => absurd h hlt⟩

theorem before_by_monotonic_iff : happensBeforeBy a b = (.before, some .monotonic) ↔
    a.eventId ≠ b.eventId ∧
      ∃ readings, monotonicReadings a b = some readings ∧ readings.1 < readings.2 := by
  unfold happensBeforeBy
  split_ifs with hid
  · simp [hid]
  · cases monotonicReadings a b with
    | some readings => simp [hid, orderOf_eq_before_iff]
    | none => cases sequenceNumbers a b <;> simp

theorem before_by_sequence_iff : happensBeforeBy a b = (.before, some .sourceSequence) ↔
    a.eventId ≠ b.eventId ∧ monotonicReadings a b = none ∧
      ∃ readings, sequenceNumbers a b = some readings ∧ readings.1 < readings.2 := by
  unfold happensBeforeBy
  split_ifs with hid
  · simp [hid]
  · cases monotonicReadings a b with
    | some readings => simp
    | none => cases sequenceNumbers a b <;> simp [hid, orderOf_eq_before_iff]

theorem before_iff : (happensBeforeBy a b).1 = .before ↔
    happensBeforeBy a b = (.before, some .monotonic) ∨
      happensBeforeBy a b = (.before, some .sourceSequence) := by
  unfold happensBeforeBy
  split_ifs with hid
  · simp
  · cases monotonicReadings a b with
    | some readings => simp
    | none => cases sequenceNumbers a b <;> simp

theorem groupOf_eq_monotonic_iff {domain : ClockDomain} : groupOf a = .monotonic domain ↔
    a.times.domain = domain ∧ domain.bootId.isSome ∧ a.times.monotonicNanos.isSome := by
  unfold groupOf
  split_ifs with hmonotonic
  · rw [Group.monotonic.injEq]
    exact ⟨fun h => ⟨h, h ▸ hmonotonic.1, hmonotonic.2⟩, fun h => h.1⟩
  · exact ⟨nofun, fun h => absurd ⟨h.1 ▸ h.2.1, h.2.2⟩ hmonotonic⟩
  · exact ⟨nofun, fun h => absurd ⟨h.1 ▸ h.2.1, h.2.2⟩ hmonotonic⟩

theorem groupOf_eq_sequence_iff {domain : ClockDomain} {provider : String} :
    groupOf a = .sequence domain provider ↔
      a.times.domain = domain ∧ a.provenance.provider = provider ∧
        ¬ (domain.bootId.isSome ∧ a.times.monotonicNanos.isSome) ∧
        a.times.sourceSequence.isSome := by
  unfold groupOf
  split_ifs with hmonotonic hsequence
  · exact ⟨nofun, fun h => absurd (h.1 ▸ hmonotonic) h.2.2.1⟩
  · rw [Group.sequence.injEq]
    exact ⟨fun h => ⟨h.1, h.2, h.1 ▸ hmonotonic, hsequence⟩, fun h => ⟨h.1, h.2.1⟩⟩
  · exact ⟨nofun, fun h => absurd h.2.2.2 hsequence⟩

theorem groupOf_eq_alone {event : String} (h : groupOf a = .alone event) :
    a.eventId.text = event := by
  unfold groupOf at h
  split_ifs at h
  exact Group.alone.inj h

theorem isComparableTo_iff {domain other : ClockDomain} :
    domain.isComparableTo other = true ↔ domain = other ∧ domain.bootId.isSome := by
  obtain ⟨host, boot⟩ := domain
  obtain ⟨host', boot'⟩ := other
  unfold ClockDomain.isComparableTo
  cases boot <;> cases boot' <;> simp

/-- Monotonic readings order events of one group, by their rank. -/
theorem standsBefore_of_monotonic (h : happensBeforeBy a b = (.before, some .monotonic)) :
    StandsBefore events a b := by
  obtain ⟨-, ⟨here, there⟩, hreadings, hlt⟩ := before_by_monotonic_iff.1 h
  unfold monotonicReadings at hreadings
  split_ifs at hreadings with hcomparable
  obtain ⟨hdomain, hboot⟩ := isComparableTo_iff.1 hcomparable
  obtain ⟨hhere, hthere, -⟩ := differing_eq_some_iff.1 hreadings
  have ha : groupOf a = .monotonic b.times.domain :=
    groupOf_eq_monotonic_iff.2 ⟨hdomain, hdomain ▸ hboot, by simp [hhere]⟩
  have hb : groupOf b = .monotonic b.times.domain :=
    groupOf_eq_monotonic_iff.2 ⟨rfl, hdomain ▸ hboot, by simp [hthere]⟩
  unfold StandsBefore Lanes.Precedes
  rw [if_pos (ha.trans hb.symm), Lex.lt_iff]
  left
  simpa [rankInGroup, hhere, hthere] using hlt

/-- Two events of one group are ordered by its evidence just where the reading is greater. -/
theorem before_by_group_iff (hid : a.eventId ≠ b.eventId) (hgroup : groupOf a = groupOf b)
    {evidence : OrderEvidence} (hevidence : (groupOf b).evidence = some evidence) :
    happensBeforeBy a b = (.before, some evidence) ↔ groupReading a < groupReading b := by
  unfold groupReading
  rw [hgroup]
  cases hb : groupOf b with
  | monotonic domain =>
    obtain rfl : OrderEvidence.monotonic = evidence := by simpa [hb, Group.evidence] using hevidence
    obtain ⟨hdomain, hboot, hreading⟩ := groupOf_eq_monotonic_iff.1 (hgroup.trans hb)
    obtain ⟨hdomain', -, hreading'⟩ := groupOf_eq_monotonic_iff.1 hb
    obtain ⟨here, hhere⟩ := Option.isSome_iff_exists.1 hreading
    obtain ⟨there, hthere⟩ := Option.isSome_iff_exists.1 hreading'
    have hcomparable : a.times.domain.isComparableTo b.times.domain = true :=
      isComparableTo_iff.2 ⟨hdomain.trans hdomain'.symm, hdomain ▸ hboot⟩
    rw [before_by_monotonic_iff, and_iff_right hid, monotonicReadings, if_pos hcomparable]
    simp only [differing_eq_some_iff, hhere, hthere, Option.getD_some, Prod.exists]
    grind
  | sequence domain provider =>
    obtain rfl : OrderEvidence.sourceSequence = evidence := by
      simpa [hb, Group.evidence] using hevidence
    obtain ⟨hdomain, hprovider, hnone, hnumber⟩ := groupOf_eq_sequence_iff.1 (hgroup.trans hb)
    obtain ⟨hdomain', hprovider', -, hnumber'⟩ := groupOf_eq_sequence_iff.1 hb
    obtain ⟨here, hhere⟩ := Option.isSome_iff_exists.1 hnumber
    obtain ⟨there, hthere⟩ := Option.isSome_iff_exists.1 hnumber'
    have hreadings : monotonicReadings a b = none := by
      unfold monotonicReadings
      split_ifs with hcomparable
      · have hboot := (isComparableTo_iff.1 hcomparable).2
        have hreading : a.times.monotonicNanos = none := by
          rw [← Option.not_isSome_iff_eq_none]
          exact fun hsome => hnone ⟨hdomain ▸ hboot, hsome⟩
        rw [hreading]
        rfl
      · rfl
    rw [before_by_sequence_iff, and_iff_right hid, and_iff_right hreadings, sequenceNumbers,
      if_pos ⟨hdomain.trans hdomain'.symm, hprovider.trans hprovider'.symm⟩]
    simp only [differing_eq_some_iff, hhere, hthere, Option.getD_some, Prod.exists]
    grind
  | alone event => simp [hb, Group.evidence] at hevidence

/-! ### What a plan says -/

/-- The step of an event that comes after another. -/
theorem planFrom_getElem?_succ {previous : Option Group} {i : Nat} {step : ReplayStep} :
    (planFrom previous order)[i + 1]? = some step ↔
      ∃ before event, order[i]? = some before ∧ order[i + 1]? = some event ∧
        step = ⟨event.eventId,
          if groupOf before = groupOf event then (groupOf event).evidence else none⟩ := by
  induction i generalizing previous order with
  | zero =>
    match order with
    | [] => simp [planFrom]
    | [event] => simp [planFrom]
    | before :: event :: order =>
      simp only [planFrom, Option.some.injEq]
      simp [eq_comm]
  | succ i ih =>
    match order with
    | [] => simp [planFrom]
    | first :: order =>
      rw [planFrom, getElem?_cons_succ, ih]
      simp

/-- **A plan is sound** where neighbours of one group happen one before the other by what orders
their group. -/
theorem planSound_iff : PlanSound order ↔ ∀ a b, [a, b] <:+: order → groupOf a = groupOf b →
    ∀ evidence, (groupOf b).evidence = some evidence →
      happensBeforeBy a b = (.before, some evidence) := by
  constructor
  · intro hsound a b hpair hgroup evidence hevidence
    obtain ⟨i, ha, hb⟩ := pair_infix_iff_getElem?.1 hpair
    obtain ⟨j, previous, event, hij, hprevious, hevent, -, hbefore⟩ :=
      hsound (i + 1) _ evidence (planFrom_getElem?_succ.2 ⟨a, b, ha, hb, rfl⟩)
        (by simpa [hgroup] using hevidence)
    obtain rfl : i = j := by omega
    obtain rfl := Option.some.inj (ha.symm.trans hprevious)
    obtain rfl := Option.some.inj (hb.symm.trans hevent)
    exact hbefore
  · intro hpairs i step evidence hstep hevidence
    cases i with
    | zero =>
      match order with
      | [] => simp [replayPlan, planFrom] at hstep
      | first :: order =>
        obtain rfl := Option.some.inj hstep
        simp at hevidence
    | succ i =>
      obtain ⟨a, b, ha, hb, rfl⟩ := planFrom_getElem?_succ.1 hstep
      have hgroup : groupOf a = groupOf b := by
        by_contra hne
        simp [hne] at hevidence
      refine ⟨i, a, b, rfl, ha, hb, rfl, ?_⟩
      exact hpairs a b (pair_infix_iff_getElem?.2 ⟨i, ha, hb⟩) hgroup evidence
        (by simpa [hgroup] using hevidence)

end Evidence

/-! ### The events that replay well -/

section Fits

variable {events : List TemporalEvent}

variable {others : List TemporalEvent}

theorem standsBefore_perm (h : events.Perm others) : StandsBefore events = StandsBefore others :=
  precedes_congr fun _ => h.mem_iff

/-- **A replay is a function of the set of events.** -/
theorem replayOrder_perm (h : (events.map (·.eventId)).Nodup) (hperm : events.Perm others) :
    replayOrder others = replayOrder events := by
  obtain ⟨horder, hpairwise⟩ := replayOrder_spec h
  obtain ⟨horder', hpairwise'⟩ := replayOrder_spec ((hperm.map _).nodup_iff.1 h)
  rw [← standsBefore_perm hperm] at hpairwise'
  exact Perm.eq_of_pairwise (fun a b _ _ hab hba => absurd hba hab.asymm) hpairwise' hpairwise
    (horder'.trans (hperm.symm.trans horder.symm))

/-- **When a replay respects the evidence.** For events of distinct identities it always is a
function of their set. It keeps what happens before, and its plan claims no more than that, if and
only if the sequence numbers that no readings decide agree with where their events stand, and no two
neighbours of one group have readings that do not rise. -/
theorem respectsEvidence_iff (h : (events.map (·.eventId)).Nodup) :
    RespectsEvidence events ↔ EvidenceFits events := by
  obtain ⟨horder, hpairwise⟩ := replayOrder_spec h
  have hasymm : ∀ a b, StandsBefore events a b → ¬ StandsBefore events b a := fun _ _ =>
    Lanes.Precedes.asymm
  have hmem : ∀ event, event ∈ replayOrder events ↔ event ∈ events := fun _ => horder.mem_iff
  have hneighbours : ∀ a ∈ events, ∀ b ∈ events, [a, b] <:+: replayOrder events ↔
      StandsBefore events a b ∧
        ∀ other ∈ events, StandsBefore events a other → ¬ StandsBefore events other b := by
    intro a ha b hb
    rw [pair_infix_iff hpairwise hasymm ((hmem a).2 ha) ((hmem b).2 hb)]
    simp only [hmem]
  have hsame : ∀ a b, groupOf a = groupOf b →
      (StandsBefore events a b ↔ rankInGroup a < rankInGroup b) := by
    intro a b hgroup
    unfold StandsBefore Lanes.Precedes
    rw [if_pos hgroup]
  constructor
  · intro hrespects
    refine ⟨fun a ha b hb hbefore => ?_, fun a ha b hb hgroup hrank hnone => ?_⟩
    · exact (pair_sublist_iff hpairwise hasymm ((hmem a).2 ha) ((hmem b).2 hb)).1
        (hrespects.kept a ha b hb (by rw [hbefore]))
    · have hid : a.eventId ≠ b.eventId := fun heq => by
        rw [eq_of_eventId_eq h ha hb heq] at hrank
        exact lt_irrefl _ hrank
      have hpair := (hneighbours a ha b hb).2 ⟨(hsame a b hgroup).2 hrank, hnone⟩
      cases hevidence : (groupOf b).evidence with
      | none =>
        -- An event that is alone in its group has no neighbour in it.
        cases hb' : groupOf b with
        | monotonic domain => simp [hb', Group.evidence] at hevidence
        | sequence domain provider => simp [hb', Group.evidence] at hevidence
        | alone event =>
          exact absurd (eq_of_text_eq h ha hb
            ((groupOf_eq_alone (hgroup.trans hb')).trans (groupOf_eq_alone hb').symm))
            fun heq => hid (heq ▸ rfl)
      | some evidence =>
        exact (before_by_group_iff hid hgroup hevidence).1
          (planSound_iff.1 hrespects.planned a b hpair hgroup evidence hevidence)
  · intro hfits
    refine ⟨horder, fun others hperm => replayOrder_perm h hperm, fun a ha b hb hbefore => ?_, ?_⟩
    · rw [pair_sublist_iff hpairwise hasymm ((hmem a).2 ha) ((hmem b).2 hb)]
      rcases before_iff.1 hbefore with hmonotonic | hsequence
      · exact standsBefore_of_monotonic hmonotonic
      · exact hfits.numbered a ha b hb hsequence
    · refine planSound_iff.2 fun a b hpair hgroup evidence hevidence => ?_
      have ha : a ∈ events := (hmem a).1 (hpair.subset mem_cons_self)
      have hb : b ∈ events := (hmem b).1 (hpair.subset (by simp))
      obtain ⟨hstands, hnone⟩ := (hneighbours a ha b hb).1 hpair
      have hrank := (hsame a b hgroup).1 hstands
      have hid : a.eventId ≠ b.eventId := fun heq => by
        rw [eq_of_eventId_eq h ha hb heq] at hrank
        exact lt_irrefl _ hrank
      exact (before_by_group_iff hid hgroup hevidence).2
        (hfits.risen a ha b hb hgroup hrank hnone)

end Fits

/-- An event of a known boot with a sequence number and some monotonic reading. -/
def readAt (id : EventId) (instant : Int) (number : Nat) (reading : Option Nat) : TemporalEvent :=
  { History.eventAt id instant with
    times :=
      { (History.eventAt id instant).times with
        sourceSequence := some number
        monotonicNanos := reading
        domain := ⟨"localhost", some "4d0a1f2b"⟩ } }

theorem respectsEvidence_readings :
    RespectsEvidence [readAt ⟨"e1", by decide⟩ 5 1 (some 10), readAt ⟨"e2", by decide⟩ 3 2 (some 20)] :=
  (respectsEvidence_iff (by decide +kernel)).2 ⟨by decide +kernel, by decide +kernel⟩

theorem not_respectsEvidence_mixed : ¬ ∀ events : List TemporalEvent,
    (events.map (·.eventId)).Nodup → RespectsEvidence events := by
  intro hall
  have hrespects := hall
    [readAt ⟨"e1", by decide⟩ 5 1 (some 10), readAt ⟨"e2", by decide⟩ 3 2 none] (by decide +kernel)
  have hkept := (hrespects.kept _ mem_cons_self _ (mem_cons_of_mem _ mem_cons_self)
    (by decide +kernel)).map (·.eventId.text)
  have horder : ((replayOrder [readAt ⟨"e1", by decide⟩ 5 1 (some 10),
      readAt ⟨"e2", by decide⟩ 3 2 none]).map (·.eventId.text)) = ["e2", "e1"] := by
    decide +kernel
  rw [horder] at hkept
  revert hkept
  decide

end OnoSendai.Temporal
