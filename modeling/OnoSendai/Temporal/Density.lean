import OnoSendai.Lib.Windows
import OnoSendai.Temporal.Agreement
import OnoSendai.Temporal.Identity

/-!
# A dense timeline

Events of one run that come close together are drawn as one row, which names all of them and counts
those that are not drawn (`ono_temporal_query`, `group`). A run is of one kind, one spatial identity
and the same changed fields, under one of four reasons. A provider may have folded a number of events
into one already; such an event is grouped by that alone, whatever it is about, and joining a row it
counts for one.
-/

namespace OnoSendai.Temporal

open Windows TemporalEvent List SpatialRef Window

/-! ### Grouping -/

/-- Why events are grouped. -/
inductive GroupReason
  | sameField
  | connectionChurn
  | unchangedSample
  | providerCluster
deriving DecidableEq

/-- One row of a dense timeline. -/
structure EventGroup where
  representative : TemporalEvent
  members : List EventId
  hidden : Nat
  from' : Int
  until' : Int
  reason : Option GroupReason

/-- Whether the subject is a connection or a socket. -/
def isConnection (event : TemporalEvent) : Bool :=
  match event.subject with
  | some (.resolved _ objectType _) => objectType = ⟨"Connection"⟩ || objectType = ⟨"Socket"⟩
  | _ => false

/-- How many events a provider had folded into an event. -/
def aggregatedCount (event : TemporalEvent) : Nat :=
  match event.payload with
  | some (.map entries) =>
    match mapGet entries "aggregated_count" with
    | some (.int count) => if 0 ≤ count ∧ count < 2 ^ 64 then count.toNat else 0
    | _ => 0
  | _ => 0

/-- Under which reason an event may be grouped. -/
def groupable (event : TemporalEvent) : Option GroupReason :=
  if 0 < aggregatedCount event then some .providerCluster
  else
    match event.kind with
    | .objectChanged => if event.changedFields.length = 1 then some .sameField else none
    | .objectObserved => some .unchangedSample
    | .objectAppeared | .objectDisappeared =>
      if isConnection event then some .connectionChurn else none
    | _ => none

/-- Whether two events are of one run. -/
def sameRun (a b : TemporalEvent) : Bool :=
  a.kind = b.kind && a.subject.bind spatialId = b.subject.bind spatialId &&
    a.changedFields.map FieldChange.field = b.changedFields.map FieldChange.field

/-- Whether an event goes into a row. -/
def joinsGroup (aggregation : Int) (event : TemporalEvent) (group : EventGroup) : Bool :=
  group.reason = groupable event && (groupable event).isSome &&
    sameRun group.representative event && event.instant - group.from' ≤ aggregation

/-- A row with an event more. -/
def EventGroup.with' (event : TemporalEvent) (group : EventGroup) : EventGroup :=
  { group with
    members := group.members ++ [event.eventId]
    hidden := group.hidden + 1
    until' := max group.until' event.instant }

/-- The row of an event that goes into none. -/
def EventGroup.of (event : TemporalEvent) : EventGroup where
  representative := event
  members := [event.eventId]
  hidden := aggregatedCount event
  from' := event.instant
  until' := event.instant
  reason := groupable event

/-- Puts an event into the last row it goes into, or into one of its own. -/
def placeEvent (aggregation : Int) (groups : List EventGroup) (event : TemporalEvent) :
    List EventGroup :=
  (modifyLast (joinsGroup aggregation event) (EventGroup.with' event) groups).getD
    (groups ++ [.of event])

/-- A row of one event has no reason, unless a provider folded events into it. -/
def EventGroup.settled (group : EventGroup) : EventGroup :=
  if group.members.length = 1 ∧ group.reason ≠ some .providerCluster then
    { group with reason := none }
  else group

/-- The rows of a dense timeline. -/
def group (events : List TemporalEvent) (aggregation : Int) : List EventGroup :=
  ((presentationOrder events).foldl (placeEvent aggregation) []).map EventGroup.settled

/-! ### Rows and windows -/

/-- What a run is known by. -/
abbrev RunKey : Type :=
  GroupReason × EventKind × Option SpatialId × List String

/-- The run of an event, where it may be grouped. -/
def runKey (event : TemporalEvent) : Option RunKey :=
  (groupable event).map fun reason =>
    (reason, event.kind, event.subject.bind spatialId,
      event.changedFields.map FieldChange.field)

/-- The row of a window. -/
def EventGroup.ofWindow (window : Window TemporalEvent) : EventGroup :=
  window.joined.foldl (fun group event => group.with' event) (.of window.opener)

section Rows

variable {aggregation : Int} {events : List TemporalEvent} {event : TemporalEvent}
  {window : Window TemporalEvent}

theorem runKey_eq_iff {a b : TemporalEvent} : runKey a = runKey b ∧ (runKey b).isSome ↔
    groupable a = groupable b ∧ (groupable b).isSome ∧ sameRun a b = true := by
  rw [runKey, runKey, sameRun]
  cases groupable a <;> cases groupable b <;> simp [and_assoc]

/-- What the row of a window holds. -/
theorem ofWindow_spec (window : Window TemporalEvent) :
    (EventGroup.ofWindow window).representative = window.opener ∧
      (EventGroup.ofWindow window).members = window.items.map eventId ∧
      (EventGroup.ofWindow window).hidden = aggregatedCount window.opener + window.joined.length ∧
      (EventGroup.ofWindow window).from' = window.opener.instant ∧
      (EventGroup.ofWindow window).reason = groupable window.opener := by
  obtain ⟨opener, joined⟩ := window
  induction joined using reverseRecOn with
  | nil => exact ⟨rfl, rfl, rfl, rfl, rfl⟩
  | append_singleton joined event ih =>
    have hstep : EventGroup.ofWindow ⟨opener, joined ++ [event]⟩ =
        (EventGroup.ofWindow ⟨opener, joined⟩).with' event := by
      rw [EventGroup.ofWindow, foldl_append]
      rfl
    obtain ⟨hopener, hmembers, hhidden, hfrom, hreason⟩ := ih
    rw [hstep]
    refine ⟨hopener, ?_, ?_, hfrom, hreason⟩
    · simp [EventGroup.with', hmembers, items]
    · simp [EventGroup.with', hhidden, Nat.add_assoc]

theorem joinsGroup_ofWindow (event : TemporalEvent) (window : Window TemporalEvent) :
    joinsGroup aggregation event (.ofWindow window) =
      joins runKey instant aggregation event window := by
  obtain ⟨hopener, -, -, hfrom, hreason⟩ := ofWindow_spec window
  have hrun := @runKey_eq_iff window.opener event
  rw [Bool.eq_iff_iff]
  simp only [joinsGroup, joins, hopener, hfrom, hreason, Bool.and_eq_true, decide_eq_true_eq]
  tauto

theorem placeEvent_map (windows : List (Window TemporalEvent)) (event : TemporalEvent) :
    placeEvent aggregation (windows.map EventGroup.ofWindow) event =
      (place runKey instant aggregation windows event).map EventGroup.ofWindow := by
  have hmodify := @modifyLast_map _ _ (joins runKey instant aggregation event)
    (fun window => { window with joined := window.joined ++ [event] })
    (joinsGroup aggregation event) (EventGroup.with' event) EventGroup.ofWindow
    (joinsGroup_ofWindow event)
    (fun window _ => by simp [EventGroup.ofWindow, foldl_append]) windows
  rw [placeEvent, hmodify, place]
  cases modifyLast (joins runKey instant aggregation event) _ windows with
  | some changed => rfl
  | none => simp [EventGroup.ofWindow]

/-- **The rows are the windows** that are laid over the runs. -/
theorem group_eq (events : List TemporalEvent) (aggregation : Int) :
    group events aggregation =
      (lay runKey instant aggregation (presentationOrder events)).map fun window =>
        (EventGroup.ofWindow window).settled := by
  have hfold (ordered : List TemporalEvent) :
      ordered.foldl (placeEvent aggregation) [] =
        (lay runKey instant aggregation ordered).map EventGroup.ofWindow := by
    induction ordered using reverseRecOn with
    | nil => rfl
    | append_singleton ordered event ih =>
      rw [foldl_append, ih, lay_append_singleton]
      exact placeEvent_map _ event
  rw [group, hfold, map_map]
  rfl

end Rows

/-! ### What the rows say -/

/-- Whether an event is never folded away: an object that is no connection comes or goes, or a
relation does. -/
def standsAlone (event : TemporalEvent) : Bool :=
  match event.kind with
  | .objectAppeared | .objectDisappeared => !isConnection event
  | .relationAdded | .relationRemoved => true
  | _ => false

/-- **The rows lose nothing**: every event is a member of one of them; the members of a row are about
one subject, of one kind, and within the span of the first; the rows count as many as the events do;
and what is never folded away is alone in its row. -/
structure LosesNothing (events : List TemporalEvent) (aggregation : Int) : Prop where
  partition : ((group events aggregation).flatMap EventGroup.members).Perm
    (events.map eventId)
  nodup : ((group events aggregation).flatMap EventGroup.members).Nodup
  alike : ∀ row ∈ group events aggregation, row.representative ∈ events ∧
    row.members.head? = some row.representative.eventId ∧
      ∀ event ∈ events, event.eventId ∈ row.members.tail →
        row.representative.subject.map identity = event.subject.map identity ∧
          row.representative.kind = event.kind ∧
          row.representative.instant ≤ event.instant ∧
          event.instant - row.representative.instant ≤ aggregation
  counts : ((group events aggregation).map fun row => 1 + row.hidden).sum =
    (events.map fun event => 1 + aggregatedCount event).sum
  alone : ∀ row ∈ group events aggregation, ∀ event ∈ events, standsAlone event = true →
    event.eventId ∈ row.members → row.members = [event.eventId]

/-- Every event that comes within the span of the one that opened the last window of its run is about
the subject of that one, and no events were folded into it. -/
def CountsForItself (events : List TemporalEvent) (aggregation : Int) : Prop :=
  ∀ before event after, presentationOrder events = before ++ event :: after →
    ∀ run ∈ runKey event,
      ∀ opener ∈ lastOpener runKey instant aggregation run before,
        event.instant - opener.instant ≤ aggregation →
          opener.subject.map identity = event.subject.map identity ∧ aggregatedCount event = 0

section Loss

variable {aggregation : Int} {events : List TemporalEvent} {event : TemporalEvent}

theorem perm_presentationOrder (events : List TemporalEvent) :
    (presentationOrder events).Perm events :=
  perm_insertionSort _ _

theorem pairwise_presentationOrder (events : List TemporalEvent) :
    (presentationOrder events).Pairwise fun one two => one.instant ≤ two.instant := by
  refine (pairwise_insertionSort ShownBefore events).imp fun {one two} h => ?_
  rcases h with h | h
  · exact h.le
  · exact h.1.le

/-- What was counted of the items of windows, apart from those that opened them. -/
theorem sum_items (windows : List (Window TemporalEvent)) :
    ((windows.flatMap items).map fun event => 1 + aggregatedCount event).sum =
      (windows.map fun window =>
        1 + (aggregatedCount window.opener + window.joined.length)).sum +
        ((windows.flatMap joined).map aggregatedCount).sum := by
  induction windows with
  | nil => rfl
  | cons window windows ih =>
    have hjoined (joined : List TemporalEvent) :
        (joined.map fun event => 1 + aggregatedCount event).sum =
          joined.length + (joined.map aggregatedCount).sum := by
      induction joined with
      | nil => rfl
      | cons event joined ih =>
        simp only [map_cons, sum_cons, length_cons, ih]
        omega
    simp only [flatMap_cons, map_append, sum_append, map_cons, sum_cons, ih,
      items, hjoined]
    omega

theorem members_settled (row : EventGroup) : row.settled.members = row.members := by
  rw [EventGroup.settled]
  split_ifs <;> rfl

theorem hidden_settled (row : EventGroup) : row.settled.hidden = row.hidden := by
  rw [EventGroup.settled]
  split_ifs <;> rfl

theorem representative_settled (row : EventGroup) :
    row.settled.representative = row.representative := by
  rw [EventGroup.settled]
  split_ifs <;> rfl

theorem aggregatedCount_pos_of_standsAlone (h : standsAlone event = true)
    (hrun : (runKey event).isSome) : 0 < aggregatedCount event := by
  by_contra hzero
  rw [runKey, Option.isSome_map, groupable, if_neg hzero] at hrun
  rw [standsAlone] at h
  cases hkind : event.kind <;> simp_all

theorem aggregatedCount_pos_iff {one two : TemporalEvent} (hrun : runKey one = runKey two)
    (hsome : (runKey two).isSome) : 0 < aggregatedCount one ↔ 0 < aggregatedCount two := by
  have hcluster (event : TemporalEvent) :
      groupable event = some .providerCluster ↔ 0 < aggregatedCount event := by
    rw [groupable]
    by_cases hcount : 0 < aggregatedCount event
    · simp [hcount]
    · rw [if_neg hcount]
      simp only [hcount, iff_false]
      cases event.kind <;> dsimp only <;> (try split_ifs) <;> simp
  rw [← hcluster, ← hcluster, (runKey_eq_iff.1 ⟨hrun, hsome⟩).1]

/-- The windows of the rows. -/
abbrev windows (events : List TemporalEvent) (aggregation : Int) : List (Window TemporalEvent) :=
  lay runKey instant aggregation (presentationOrder events)

theorem laid_windows (events : List TemporalEvent) (aggregation : Int) :
    Laid runKey instant aggregation (presentationOrder events)
      (windows events aggregation) :=
  laid_lay (pairwise_presentationOrder events)

theorem flatMap_members (events : List TemporalEvent) (aggregation : Int) :
    (group events aggregation).flatMap EventGroup.members =
      ((windows events aggregation).flatMap items).map eventId := by
  rw [group_eq, flatMap_map, map_flatMap]
  refine flatMap_congr fun window _ => ?_
  rw [members_settled, (ofWindow_spec window).2.1]

theorem perm_items (events : List TemporalEvent) (aggregation : Int) :
    ((windows events aggregation).flatMap items).Perm events :=
  (laid_windows events aggregation).perm.trans (perm_presentationOrder events)

theorem mem_of_mem_items (hwindow : window ∈ windows events aggregation)
    (hevent : event ∈ window.items) : event ∈ events :=
  (perm_items events aggregation).subset (mem_flatMap.2 ⟨window, hwindow, hevent⟩)

/-- The rows count as many as the events do when no event that joined one has events folded into
it. -/
theorem counts_iff (events : List TemporalEvent) (aggregation : Int) :
    ((group events aggregation).map fun row => 1 + row.hidden).sum =
        (events.map fun event => 1 + aggregatedCount event).sum ↔
      ∀ window ∈ windows events aggregation, ∀ event ∈ window.joined,
        aggregatedCount event = 0 := by
  have hrows : (group events aggregation).map (fun row => 1 + row.hidden) =
      (windows events aggregation).map fun window =>
        1 + (aggregatedCount window.opener + window.joined.length) := by
    rw [group_eq, map_map]
    refine map_congr_left fun window _ => ?_
    rw [Function.comp_apply, hidden_settled, (ofWindow_spec window).2.2.1]
  have hevents := ((perm_items events aggregation).map fun event =>
    1 + aggregatedCount event).sum_eq
  rw [hrows, ← hevents, sum_items]
  simp only [Nat.left_eq_add, sum_eq_zero_iff, forall_mem_map, mem_flatMap,
    forall_exists_index, and_imp]
  exact ⟨fun h window hwindow event hevent => h event window hwindow hevent,
    fun h event window hwindow hevent => h window hwindow event hevent⟩

theorem countsForItself_iff (events : List TemporalEvent) (aggregation : Int) :
    CountsForItself events aggregation ↔
      ∀ window ∈ windows events aggregation, ∀ event ∈ window.joined,
        window.opener.subject.map identity = event.subject.map identity ∧
          aggregatedCount event = 0 :=
  (forall_joined_iff (pairwise_presentationOrder events)).symm

/-- A row that an event never folded away is in holds it only, where no event that joined it has
events folded into it. -/
theorem joined_eq_nil_of_standsAlone (hwindow : window ∈ windows events aggregation)
    (hzero : ∀ other ∈ window.joined, aggregatedCount other = 0) (hevent : event ∈ window.items)
    (halone : standsAlone event = true) : window = ⟨event, []⟩ := by
  have hlaid := (laid_windows events aggregation).joined window hwindow
  obtain ⟨opener, joined⟩ := window
  rcases mem_cons.1 hevent with rfl | hevent
  · cases joined with
    | nil => rfl
    | cons other joined =>
      obtain ⟨hsome, hrun, -⟩ := hlaid other mem_cons_self
      have hpos := aggregatedCount_pos_of_standsAlone halone (hrun ▸ hsome)
      rw [aggregatedCount_pos_iff hrun hsome, hzero other mem_cons_self] at hpos
      exact absurd hpos (lt_irrefl 0)
  · obtain ⟨hsome, -⟩ := hlaid event hevent
    have hpos := aggregatedCount_pos_of_standsAlone halone hsome
    rw [hzero event hevent] at hpos
    exact absurd hpos (lt_irrefl 0)

/-- **When the rows lose nothing**: when every event that comes within the span of the one that opened
the last window of its run is about the subject of that one and counts for one. -/
theorem losesNothing_iff (events : List TemporalEvent) (aggregation : Int)
    (hdistinct : (events.map eventId).Nodup) :
    LosesNothing events aggregation ↔ CountsForItself events aggregation := by
  have hinj : ∀ one ∈ events, ∀ two ∈ events, one.eventId = two.eventId → one = two :=
    fun one hone two htwo h => inj_on_of_nodup_map hdistinct hone htwo h
  have hperm := (perm_items events aggregation).map eventId
  rw [countsForItself_iff]
  constructor
  · intro h window hwindow event hevent
    refine ⟨?_, (counts_iff events aggregation).1 h.counts window hwindow event hevent⟩
    have hrow : (EventGroup.ofWindow window).settled ∈ group events aggregation := by
      rw [group_eq]
      exact mem_map_of_mem hwindow
    have halike := (h.alike _ hrow).2.2 event
      (mem_of_mem_items hwindow (mem_cons_of_mem _ hevent))
    rw [representative_settled, members_settled, (ofWindow_spec window).1,
      (ofWindow_spec window).2.1] at halike
    exact (halike (mem_map_of_mem hevent)).1
  · intro h
    refine ⟨?_, ?_, ?_, ?_, ?_⟩
    · rw [flatMap_members]
      exact hperm
    · rw [flatMap_members]
      exact hperm.nodup_iff.2 hdistinct
    · intro row hrow
      rw [group_eq] at hrow
      obtain ⟨window, hwindow, rfl⟩ := mem_map.1 hrow
      rw [representative_settled, members_settled, (ofWindow_spec window).1,
        (ofWindow_spec window).2.1]
      refine ⟨mem_of_mem_items hwindow mem_cons_self, rfl, fun event hevent hmember => ?_⟩
      obtain ⟨joined, hjoined, hsame⟩ := mem_map.1 hmember
      obtain rfl := hinj joined
        (mem_of_mem_items hwindow (mem_cons_of_mem _ hjoined)) event hevent hsame
      obtain ⟨hsome, hrun, hle, hspan⟩ :=
        (laid_windows events aggregation).joined window hwindow joined hjoined
      have hkind : window.opener.kind = joined.kind := by
        have hsameRun := (runKey_eq_iff.1 ⟨hrun, hsome⟩).2.2
        simp only [sameRun, Bool.and_eq_true, decide_eq_true_eq] at hsameRun
        exact hsameRun.1.1
      exact ⟨(h window hwindow joined hjoined).1, hkind, hle, hspan⟩
    · exact (counts_iff events aggregation).2 fun window hwindow event hevent =>
        (h window hwindow event hevent).2
    · intro row hrow event hevent halone hmember
      rw [group_eq] at hrow
      obtain ⟨window, hwindow, rfl⟩ := mem_map.1 hrow
      rw [members_settled, (ofWindow_spec window).2.1] at hmember ⊢
      obtain ⟨item, hitem, hsame⟩ := mem_map.1 hmember
      obtain rfl := hinj item (mem_of_mem_items hwindow hitem) event hevent hsame
      rw [joined_eq_nil_of_standsAlone hwindow (fun other hother =>
        (h window hwindow other hother).2) hitem halone]
      rfl

/-- Three readings of one thing that did not change, the third long after the others. -/
def samples : List TemporalEvent :=
  [History.eventAt ⟨"e1", Eq.refl true⟩ 0, History.eventAt ⟨"e2", Eq.refl true⟩ 3,
    History.eventAt ⟨"e3", Eq.refl true⟩ 20]

theorem losesNothing_samples : LosesNothing samples 5 ∧
    (group samples 5).map (fun row => row.members.map EventId.text) = [["e1", "e2"], ["e3"]] := by
  refine ⟨(losesNothing_iff samples 5 (by decide)).2 ?_, by decide⟩
  rw [countsForItself_iff]
  decide

/-- An event that stands for a number of others. -/
def clusterOf (id : EventId) (instant count : Int) : TemporalEvent :=
  { History.eventAt id instant with payload := some (.map [("aggregated_count", .int count)]) }

theorem not_losesNothing_clusters : ¬∀ (events : List TemporalEvent) (aggregation : Int),
    (events.map eventId).Nodup → LosesNothing events aggregation := by
  intro h
  have hcounts := (h [clusterOf ⟨"e1", by decide⟩ 0 3, clusterOf ⟨"e2", by decide⟩ 1 2] 5
    (by decide)).counts
  revert hcounts
  decide

end Loss

end OnoSendai.Temporal
