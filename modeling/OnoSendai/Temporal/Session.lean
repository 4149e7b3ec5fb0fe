import Mathlib.Data.Finset.Card
import OnoSendai.Temporal.Record

/-!
# The session ledger

The ledger a session keeps in memory. It holds at most so many events, drops the oldest arrivals
when there are more, and reports what it dropped as a gap and as an interval in which the events
were unavailable.

The ceilings are enforced by `append` alone; the other four writes only add. What a ledger dropped
is not kept by it: a `History` carries the events that were ever evicted beside the ledger.
-/

namespace OnoSendai.Temporal

open List Nat Option

/-! ### The ledger -/

/-- How many evidence records one event may bring before the oldest are dropped. -/
def evidencePerEvent : Nat :=
  4

/-- How many checkpoints a session keeps. -/
def checkpointCeiling : Nat :=
  32

/-- The largest count a machine word holds. -/
def usizeMax : Nat :=
  2 ^ 64 - 1

/-- The capability an evicted stretch of the session ledger stops covering. -/
def ledgerCapability : String :=
  "temporal.events"

/-- What a session ledger holds, each list with its oldest arrival first. -/
structure SessionState where
  events : List TemporalEvent
  evidence : List Evidence
  links : List CausalLink
  coverage : List TemporalCoverage
  actions : List ActionEvent
  checkpoints : List Checkpoint
  evicted : Nat
  eviction : Option TemporalGap

/-- A ledger that holds nothing and dropped nothing. -/
def SessionState.default : SessionState where
  events := []
  evidence := []
  links := []
  coverage := []
  actions := []
  checkpoints := []
  evicted := 0
  eviction := none

/-- The ledger of a session. -/
structure SessionLedger where
  capacity : Nat
  positive : 0 < capacity
  state : SessionState

/-- A ledger with a ceiling, where a ceiling of zero is raised to one. -/
def SessionLedger.withCapacity (capacity : Nat) : SessionLedger where
  capacity := max capacity 1
  positive := lt_of_lt_of_le zero_lt_one (le_max_right _ _)
  state := .default

/-- What an append did. -/
structure Appended where
  stored : Nat
  duplicates : Nat

/-! ### Lists that are written -/

section Lists

variable {α κ : Type} [DecidableEq κ]

/-- Drops the oldest entries over a ceiling. -/
def trim (ceiling : Nat) (items : List α) : List α :=
  if items.length > ceiling then items.drop (items.length - ceiling) else items

/-- Adds an item unless one of its key is held. -/
def pushNew (key : α → κ) (held : List α) (item : α) : List α :=
  if held.any fun other => key other = key item then held else held ++ [item]

/-- Puts an item in the place of the first one selected, or at the end. -/
def replaceFirst (select : α → Bool) (item : α) : List α → List α
  | [] => [item]
  | held :: rest => if select held then item :: rest else held :: replaceFirst select item rest

end Lists

/-! ### Enforcing the ceilings -/

/-- The gap after one more event was dropped. -/
def evictionWith (eviction : Option TemporalGap) (dropped : TemporalEvent) : TemporalGap :=
  match eviction with
  | some gap => { gap with until' := max gap.until' dropped.instant }
  | none =>
    { scope := dropped.scope
      from' := dropped.instant
      until' := dropped.instant
      capability := ledgerCapability
      reason := .retentionExpired
      source := .session
      detail := some "evicted from the session ledger" }

/-- Drops the oldest events until the ceiling holds, recording what went. -/
def dropOldest (capacity : Nat) :
    List TemporalEvent → Nat → Option TemporalGap → List TemporalEvent × Nat × Option TemporalGap
  | [], evicted, eviction => ([], evicted, eviction)
  | dropped :: rest, evicted, eviction =>
    if rest.length + 1 > capacity then
      dropOldest capacity rest (evicted + 1) (some (evictionWith eviction dropped))
    else (dropped :: rest, evicted, eviction)

/-- The interval a gap is reported as. -/
def boundaryOf (gap : TemporalGap) : TemporalCoverage where
  scope := gap.scope
  capability := ledgerCapability
  from' := gap.from'
  until' := gap.until'
  completeness := .unavailable
  samplingInterval := none
  source := .session
  permission := .unknown

/-- Whether an interval is the one a gap of the ledger is reported as. -/
def isBoundary (interval : TemporalCoverage) : Bool :=
  interval.completeness = .unavailable && interval.capability = ledgerCapability

/-- Holds a ledger to its ceilings, and reports what it dropped. -/
def SessionState.enforce (capacity : Nat) (state : SessionState) : SessionState :=
  let (events, evicted, eviction) := dropOldest capacity state.events state.evicted state.eviction
  let coverage := trim capacity state.coverage
  { events
    evicted
    eviction
    evidence := trim (min (capacity * evidencePerEvent) usizeMax) state.evidence
    links := trim capacity state.links
    actions := trim capacity state.actions
    coverage := match eviction with
      | some gap => replaceFirst isBoundary (boundaryOf gap) coverage
      | none => coverage
    checkpoints := trim checkpointCeiling state.checkpoints }

/-! ### Writing -/

/-- Stores an event unless one of its identity is held, and counts which it was. -/
def storeEvent (held : List TemporalEvent × Appended) (event : TemporalEvent) :
    List TemporalEvent × Appended :=
  if held.1.any fun other => other.eventId = event.eventId then
    (held.1, { held.2 with duplicates := held.2.duplicates + 1 })
  else (held.1 ++ [event], { held.2 with stored := held.2.stored + 1 })

namespace SessionLedger

variable (ledger : SessionLedger)

/-- The events of the ledger after an append, before the ceiling is enforced. -/
def queued (events : List TemporalEvent) : List TemporalEvent × Appended :=
  events.foldl storeEvent (ledger.state.events, ⟨0, 0⟩)

/-- Stores events and evidence, and enforces the ceilings. -/
def append (events : List TemporalEvent) (evidence : List Evidence) : SessionLedger × Appended :=
  let (queue, appended) := ledger.queued events
  let state := { ledger.state with
    events := queue
    evidence := evidence.foldl (pushNew Evidence.evidenceId) ledger.state.evidence }
  ({ ledger with state := state.enforce ledger.capacity }, appended)

/-- Stores the links the ledger does not hold. -/
def appendLinks (links : List CausalLink) : SessionLedger :=
  { ledger with state := { ledger.state with
    links := links.foldl (pushNew CausalLink.linkId) ledger.state.links } }

/-- Stores coverage. -/
def recordCoverage (intervals : List TemporalCoverage) : SessionLedger :=
  { ledger with state := { ledger.state with coverage := ledger.state.coverage ++ intervals } }

/-- Stores an action, in the place of the one with its identity. -/
def recordAction (action : ActionEvent) : SessionLedger :=
  { ledger with state := { ledger.state with
    actions := replaceFirst (fun held => held.actionId = action.actionId) action
      ledger.state.actions } }

/-- Stores a checkpoint. -/
def writeCheckpoint (checkpoint : Checkpoint) : SessionLedger :=
  { ledger with state := { ledger.state with
    checkpoints := ledger.state.checkpoints ++ [checkpoint] } }

end SessionLedger

/-- A write. -/
inductive LedgerOp
  | append (events : List TemporalEvent) (evidence : List Evidence)
  | appendLinks (links : List CausalLink)
  | recordCoverage (intervals : List TemporalCoverage)
  | recordAction (action : ActionEvent)
  | writeCheckpoint (checkpoint : Checkpoint)

/-- The ledger after a write. -/
def SessionLedger.apply (ledger : SessionLedger) : LedgerOp → SessionLedger
  | .append events evidence => (ledger.append events evidence).1
  | .appendLinks links => ledger.appendLinks links
  | .recordCoverage intervals => ledger.recordCoverage intervals
  | .recordAction action => ledger.recordAction action
  | .writeCheckpoint checkpoint => ledger.writeCheckpoint checkpoint

/-! ### What a ledger should keep -/

/-- The events a write pushes out: the oldest of those the ledger holds or is given. -/
def SessionLedger.pushedOut (ledger : SessionLedger) : LedgerOp → List TemporalEvent
  | .append events _ =>
    (ledger.queued events).1.take ((ledger.queued events).1.length - ledger.capacity)
  | _ => []

/-- A ledger, and every event it evicted. -/
structure History where
  ledger : SessionLedger
  lost : List TemporalEvent

namespace History

/-- A new ledger, which lost nothing. -/
def new (capacity : Nat) : History where
  ledger := .withCapacity capacity
  lost := []

/-- One more write. -/
def write (history : History) (op : LedgerOp) : History where
  ledger := history.ledger.apply op
  lost := history.lost ++ history.ledger.pushedOut op

/-- A new ledger after a sequence of writes. -/
def after (capacity : Nat) (ops : List LedgerOp) : History :=
  ops.foldl write (new capacity)

end History

/-- Every collection is at most its ceiling. -/
structure SessionLedger.Bounded (ledger : SessionLedger) : Prop where
  events : ledger.state.events.length ≤ ledger.capacity
  links : ledger.state.links.length ≤ ledger.capacity
  actions : ledger.state.actions.length ≤ ledger.capacity
  coverage : ledger.state.coverage.length ≤ ledger.capacity
  evidence : ledger.state.evidence.length ≤ 4 * ledger.capacity
  checkpoints : ledger.state.checkpoints.length ≤ 32

/-- The gap and the unavailable interval a ledger reports both reach over an instant. -/
def SessionLedger.Reports (ledger : SessionLedger) (instant : Int) : Prop :=
  (∃ gap, ledger.state.eviction = some gap ∧ gap.from' ≤ instant ∧ instant ≤ gap.until') ∧
    ∃ interval, ledger.state.coverage.find? isBoundary = some interval ∧
      interval.from' ≤ instant ∧ instant ≤ interval.until'

/-- The ledger is bounded, and every event it evicted lies in what it reports. -/
structure History.Kept (history : History) : Prop where
  bounded : history.ledger.Bounded
  admits : ∀ event ∈ history.lost, history.ledger.Reports event.instant

/-- The instant of the first event a ledger ever evicted, that it is about to evict if it has not
evicted any. -/
def SessionLedger.firstOut (ledger : SessionLedger) (op : LedgerOp) : Option Int :=
  ledger.state.eviction.map (·.from') <|> (ledger.pushedOut op).head?.map (·.instant)

/-- A write fits: it leaves the collection it adds to below its ceiling, or pushes out no event
from before the first one that fell out, with room for the interval that reports it. -/
def Fits (ledger : SessionLedger) : LedgerOp → Prop
  | op@(.append _ _) =>
    (∀ event ∈ ledger.pushedOut op, ∀ first ∈ ledger.firstOut op, first ≤ event.instant) ∧
      (ledger.pushedOut op ≠ [] → ledger.state.coverage.any isBoundary = false →
        ledger.state.coverage.length < ledger.capacity)
  | .appendLinks links =>
    ledger.state.links.length +
      ((links.map CausalLink.linkId).toFinset \
        (ledger.state.links.map CausalLink.linkId).toFinset).card ≤ ledger.capacity
  | .recordCoverage intervals =>
    ledger.state.coverage.length + intervals.length ≤ ledger.capacity
  | .recordAction action =>
    (∃ held ∈ ledger.state.actions, held.actionId = action.actionId) ∨
      ledger.state.actions.length < ledger.capacity
  | .writeCheckpoint _ => ledger.state.checkpoints.length < 32

/-! ### Lists that were written -/

section Written

variable {α κ : Type} [DecidableEq κ]

theorem length_trim (ceiling : Nat) (items : List α) :
    (trim ceiling items).length = min items.length ceiling := by
  unfold trim
  split_ifs with hover
  · rw [length_drop]
    omega
  · omega

theorem trim_eq_self {ceiling : Nat} {items : List α} (h : items.length ≤ ceiling) :
    trim ceiling items = items := by
  rw [trim, if_neg (by omega)]

/-- A list grows by the keys it did not hold. -/
theorem length_foldl_pushNew (key : α → κ) (items held : List α) :
    (items.foldl (pushNew key) held).length =
      held.length + ((items.map key).toFinset \ (held.map key).toFinset).card := by
  induction items generalizing held with
  | nil => simp
  | cons item items ih =>
    rw [foldl_cons, ih, map_cons, toFinset_cons]
    by_cases hheld : key item ∈ held.map key
    · have hpush : pushNew key held item = held := by
        obtain ⟨other, hmem, hkey⟩ := mem_map.1 hheld
        exact if_pos (any_eq_true.2 ⟨other, hmem, by simpa using hkey⟩)
      rw [hpush, Finset.insert_sdiff_of_mem _ (mem_toFinset.2 hheld)]
    · have hpush : pushNew key held item = held ++ [item] := by
        refine if_neg fun hany => hheld ?_
        obtain ⟨other, hmem, hkey⟩ := any_eq_true.1 hany
        exact mem_map.2 ⟨other, hmem, by simpa using hkey⟩
      have hkeys : ((held ++ [item]).map key).toFinset = insert (key item) (held.map key).toFinset := by
        ext k
        simp
      -- the key counts once, however often it comes again
      have hsplit : insert (key item) (items.map key).toFinset \ (held.map key).toFinset =
          insert (key item)
            ((items.map key).toFinset \ insert (key item) (held.map key).toFinset) := by
        ext k
        by_cases hk : k = key item
        · subst hk
          simpa using hheld
        · simp [hk]
      rw [hpush, hkeys, hsplit, Finset.card_insert_of_notMem (by simp), length_append,
        length_singleton]
      omega

theorem length_replaceFirst (select : α → Bool) (item : α) (items : List α) :
    (replaceFirst select item items).length =
      if items.any select then items.length else items.length + 1 := by
  induction items with
  | nil => rfl
  | cons held rest ih =>
    unfold replaceFirst
    by_cases hselect : select held = true
    · simp [hselect]
    · rw [if_neg hselect, length_cons, ih, any_cons, eq_false_of_ne_true hselect, Bool.false_or]
      split_ifs <;> rfl

theorem find?_replaceFirst {select : α → Bool} {item : α} (h : select item = true)
    (items : List α) : (replaceFirst select item items).find? select = some item := by
  induction items with
  | nil => simp [replaceFirst, h]
  | cons held rest ih =>
    unfold replaceFirst
    split_ifs with hselect
    · exact find?_cons_of_pos h
    · rw [find?_cons_of_neg hselect, ih]

end Written

/-! ### What an eviction records -/

section Evicted

/-- The gap after several events were dropped. -/
def evictionAfter (eviction : Option TemporalGap) (dropped : List TemporalEvent) :
    Option TemporalGap :=
  dropped.foldl (fun eviction event => some (evictionWith eviction event)) eviction

/-- The loop drops what is over the ceiling, oldest first, and records each. -/
theorem dropOldest_eq (capacity : Nat) (events : List TemporalEvent) (evicted : Nat)
    (eviction : Option TemporalGap) :
    (dropOldest capacity events evicted eviction).1 = events.drop (events.length - capacity) ∧
      (dropOldest capacity events evicted eviction).2.2 =
        evictionAfter eviction (events.take (events.length - capacity)) := by
  induction events generalizing evicted eviction with
  | nil => simp [dropOldest, evictionAfter]
  | cons dropped rest ih =>
    unfold dropOldest
    split_ifs with hover
    · obtain ⟨hevents, heviction⟩ := ih (evicted + 1) (some (evictionWith eviction dropped))
      have hcount : (dropped :: rest).length - capacity = rest.length - capacity + 1 := by
        rw [length_cons]
        omega
      rw [hevents, heviction, hcount]
      exact ⟨rfl, rfl⟩
    · have hcount : (dropped :: rest).length - capacity = 0 := by
        rw [length_cons]
        omega
      rw [hcount]
      exact ⟨rfl, rfl⟩

variable {eviction : Option TemporalGap} {dropped : List TemporalEvent}

theorem evictionAfter_eq_none :
    evictionAfter eviction dropped = none ↔ eviction = none ∧ dropped = [] := by
  induction dropped generalizing eviction with
  | nil => simp [evictionAfter]
  | cons event dropped ih =>
    rw [evictionAfter, foldl_cons, ← evictionAfter, ih]
    simp

/-- A gap begins where it began, or at the first event that was dropped, and it reaches over all
that was dropped. -/
theorem evictionAfter_eq_some {gap : TemporalGap} (h : evictionAfter eviction dropped = some gap) :
    (eviction.map (·.from') <|> dropped.head?.map (·.instant)) = some gap.from' ∧
      (∀ before, eviction = some before → before.until' ≤ gap.until') ∧
      ∀ event ∈ dropped, event.instant ≤ gap.until' := by
  induction dropped generalizing eviction with
  | nil =>
    obtain rfl : eviction = some gap := h
    exact ⟨rfl, fun before hbefore => by rw [some.inj hbefore], by simp⟩
  | cons event dropped ih =>
    obtain ⟨hfrom, huntil, hall⟩ := ih h
    have hreach := huntil _ rfl
    have hevent : event.instant ≤ gap.until' := by
      unfold evictionWith at hreach
      split at hreach <;> dsimp only at hreach <;> omega
    refine ⟨?_, fun before hbefore => ?_, fun other hother => ?_⟩
    · cases eviction with
      | none => exact hfrom
      | some before => exact hfrom
    · subst hbefore
      unfold evictionWith at hreach
      dsimp only at hreach
      omega
    · rcases mem_cons.1 hother with rfl | hrest
      · exact hevent
      · exact hall other hrest

end Evicted

/-! ### One write -/

section Write

variable {history : History}

/-- What a ledger reports accounts for what it lost: there is a gap where anything was lost, it ends
after all of it, and it is reported as the first boundary interval. -/
structure History.Accounts (history : History) : Prop where
  nothing : history.ledger.state.eviction = none → history.lost = []
  reported : ∀ gap, history.ledger.state.eviction = some gap →
    history.ledger.state.coverage.find? isBoundary = some (boundaryOf gap) ∧
      ∀ event ∈ history.lost, event.instant ≤ gap.until'

/-- What a ledger that accounts for its losses admits is a question of where its gap begins. -/
theorem History.Accounts.admits_iff (h : history.Accounts) :
    (∀ event ∈ history.lost, history.ledger.Reports event.instant) ↔
      ∀ gap, history.ledger.state.eviction = some gap →
        ∀ event ∈ history.lost, gap.from' ≤ event.instant := by
  constructor
  · intro hreports gap hgap event hevent
    obtain ⟨⟨other, hother, hfrom, -⟩, -⟩ := hreports event hevent
    rw [hgap] at hother
    rw [some.inj hother]
    exact hfrom
  · intro hfrom event hevent
    cases hgap : history.ledger.state.eviction with
    | none =>
      rw [h.nothing hgap] at hevent
      cases hevent
    | some gap =>
      obtain ⟨hboundary, huntil⟩ := h.reported gap hgap
      exact ⟨⟨gap, hgap, hfrom gap hgap event hevent, huntil event hevent⟩,
        boundaryOf gap, hboundary, hfrom gap hgap event hevent, huntil event hevent⟩

/-- The state an append leaves, in terms of what it pushes out. -/
theorem SessionLedger.append_state (ledger : SessionLedger) (events : List TemporalEvent)
    (evidence : List Evidence) :
    let out := ledger.pushedOut (.append events evidence)
    let state := (ledger.append events evidence).1.state
    state.events.length = min (ledger.queued events).1.length ledger.capacity ∧
      state.eviction = evictionAfter ledger.state.eviction out ∧
      state.coverage = (match evictionAfter ledger.state.eviction out with
        | some gap => replaceFirst isBoundary (boundaryOf gap)
            (trim ledger.capacity ledger.state.coverage)
        | none => trim ledger.capacity ledger.state.coverage) ∧
      state.links = trim ledger.capacity ledger.state.links ∧
      state.actions = trim ledger.capacity ledger.state.actions ∧
      state.checkpoints = trim checkpointCeiling ledger.state.checkpoints ∧
      state.evidence.length ≤ 4 * ledger.capacity := by
  obtain ⟨hevents, heviction⟩ := dropOldest_eq ledger.capacity (ledger.queued events).1
    ledger.state.evicted ledger.state.eviction
  refine ⟨?_, heviction, ?_, rfl, rfl, rfl, ?_⟩
  · have hstate : (ledger.append events evidence).1.state.events =
      (dropOldest ledger.capacity (ledger.queued events).1 ledger.state.evicted
        ledger.state.eviction).1 := rfl
    rw [hstate, hevents, length_drop]
    omega
  · rw [pushedOut, ← heviction]
    rfl
  · have hstate : (ledger.append events evidence).1.state.evidence =
      trim (min (ledger.capacity * evidencePerEvent) usizeMax)
        (evidence.foldl (pushNew Evidence.evidenceId) ledger.state.evidence) := rfl
    rw [hstate, length_trim]
    unfold evidencePerEvent
    omega

theorem isBoundary_boundaryOf (gap : TemporalGap) : isBoundary (boundaryOf gap) = true := by
  simp [isBoundary, boundaryOf]

/-- An append keeps the account of what was lost. -/
theorem History.Accounts.append (h : history.Accounts) (events : List TemporalEvent)
    (evidence : List Evidence) : (history.write (.append events evidence)).Accounts := by
  obtain ⟨-, heviction, hcoverage, -⟩ := history.ledger.append_state events evidence
  constructor
  · intro hnone
    obtain ⟨hgap, hout⟩ := evictionAfter_eq_none.1 (heviction.symm.trans hnone)
    simp [write, h.nothing hgap, hout]
  · intro gap hgap
    have hafter := heviction.symm.trans hgap
    obtain ⟨-, hbefore, hout⟩ := evictionAfter_eq_some hafter
    refine ⟨?_, fun event hevent => ?_⟩
    · have hstate : (history.write (.append events evidence)).ledger.state.coverage =
        (history.ledger.append events evidence).1.state.coverage := rfl
      rw [hstate, hcoverage, hafter]
      exact find?_replaceFirst (isBoundary_boundaryOf gap) _
    · rcases mem_append.1 hevent with hold | hnew
      · cases heviction : history.ledger.state.eviction with
        | none =>
          rw [h.nothing heviction] at hold
          cases hold
        | some before =>
          exact Int.le_trans ((h.reported before heviction).2 event hold) (hbefore before heviction)
      · exact hout event hnew

/-- A write that pushes nothing out, and adds to the coverage at the end, keeps the account. -/
theorem History.Accounts.of_quiet (h : history.Accounts) {op : LedgerOp}
    (hout : history.ledger.pushedOut op = [])
    (heviction : (history.ledger.apply op).state.eviction = history.ledger.state.eviction)
    (more : List TemporalCoverage)
    (hcoverage : (history.ledger.apply op).state.coverage = history.ledger.state.coverage ++ more) :
    (history.write op).Accounts := by
  have hlost : (history.write op).lost = history.lost := by
    rw [History.write, hout, append_nil]
  refine ⟨fun hnone => ?_, fun gap hgap => ?_⟩
  · rw [hlost]
    exact h.nothing (heviction.symm.trans hnone)
  · obtain ⟨hfind, huntil⟩ := h.reported gap (heviction.symm.trans hgap)
    refine ⟨?_, by rwa [hlost]⟩
    -- what is recorded later stands behind the boundary
    rw [History.write, hcoverage, find?_append, hfind]
    rfl

theorem History.Accounts.write (h : history.Accounts) (op : LedgerOp) :
    (history.write op).Accounts := by
  cases op with
  | append events evidence => exact h.append events evidence
  | appendLinks links => exact h.of_quiet rfl rfl [] (append_nil _).symm
  | recordCoverage intervals => exact h.of_quiet rfl rfl intervals rfl
  | recordAction action => exact h.of_quiet rfl rfl [] (append_nil _).symm
  | writeCheckpoint checkpoint => exact h.of_quiet rfl rfl [] (append_nil _).symm

theorem History.kept_write_iff_of_quiet (h : history.Kept) {op : LedgerOp}
    (haccounts : (history.write op).Accounts) (hout : history.ledger.pushedOut op = [])
    (heviction : (history.ledger.apply op).state.eviction = history.ledger.state.eviction) :
    (history.write op).Kept ↔ (history.ledger.apply op).Bounded := by
  refine ⟨fun hkept => hkept.bounded, fun hbounded => ⟨hbounded, ?_⟩⟩
  refine haccounts.admits_iff.2 fun gap hgap event hevent => ?_
  rw [History.write, hout, append_nil] at hevent
  obtain ⟨⟨other, hother, hfrom, -⟩, -⟩ := h.admits event hevent
  rw [← heviction] at hother
  rw [some.inj (hgap.symm.trans hother)]
  exact hfrom

/-- The coverage an append leaves is in bounds when there was room for the boundary. -/
theorem SessionLedger.coverage_append_le_iff (haccounts : history.Accounts)
    (hbefore : history.ledger.state.coverage.length ≤ history.ledger.capacity)
    (events : List TemporalEvent) (evidence : List Evidence) :
    (history.ledger.append events evidence).1.state.coverage.length ≤ history.ledger.capacity ↔
      (history.ledger.pushedOut (.append events evidence) ≠ [] →
        history.ledger.state.coverage.any isBoundary = false →
        history.ledger.state.coverage.length < history.ledger.capacity) := by
  obtain ⟨-, -, hcoverage, -⟩ := history.ledger.append_state events evidence
  rw [hcoverage, trim_eq_self hbefore]
  cases hafter : evictionAfter history.ledger.state.eviction
      (history.ledger.pushedOut (.append events evidence)) with
  | none =>
    obtain ⟨-, hout⟩ := evictionAfter_eq_none.1 hafter
    exact ⟨fun _ hne => absurd hout hne, fun _ => hbefore⟩
  | some gap =>
    dsimp only
    rw [length_replaceFirst]
    by_cases hany : history.ledger.state.coverage.any isBoundary = true
    · rw [if_pos hany]
      exact ⟨fun _ _ hnone => absurd (hany.symm.trans hnone) (by decide), fun _ => hbefore⟩
    · rw [if_neg hany]
      refine ⟨fun hle _ _ => by omega, fun hroom => ?_⟩
      have hout : history.ledger.pushedOut (.append events evidence) ≠ [] := by
        intro hout
        -- nothing falls out, so the gap was there, and with it its boundary
        rw [hout] at hafter
        have hboundary := (haccounts.reported gap hafter).1
        exact hany (any_eq_true.2 ⟨_, mem_of_find?_eq_some hboundary,
          isBoundary_boundaryOf gap⟩)
      have := hroom hout (eq_false_of_ne_true hany)
      omega

/-- An append keeps a ledger exactly when it fits. -/
theorem History.kept_append_iff (h : history.Kept) (haccounts : history.Accounts)
    (events : List TemporalEvent) (evidence : List Evidence) :
    (history.write (.append events evidence)).Kept ↔
      Fits history.ledger (.append events evidence) := by
  obtain ⟨hevents, heviction, -, hlinks, hactions, hcheckpoints, hevidence⟩ :=
    history.ledger.append_state events evidence
  have hcoverage := SessionLedger.coverage_append_le_iff haccounts h.bounded.coverage events evidence
  have hafter := haccounts.append events evidence
  have hadmits := hafter.admits_iff
  have hbounded : (history.write (.append events evidence)).ledger.Bounded ↔
      (history.ledger.append events evidence).1.state.coverage.length ≤
        history.ledger.capacity := by
    refine ⟨fun hbounded => hbounded.coverage, fun hle => ⟨?_, ?_, ?_, hle, hevidence, ?_⟩⟩
    · exact le_trans (le_of_eq hevents) (min_le_right _ _)
    · exact le_trans (le_of_eq ((congrArg _ hlinks).trans (length_trim _ _)))
        (min_le_right _ _)
    · exact le_trans (le_of_eq ((congrArg _ hactions).trans (length_trim _ _)))
        (min_le_right _ _)
    · exact le_trans (le_of_eq ((congrArg _ hcheckpoints).trans (length_trim _ _)))
        (min_le_right _ _)
  -- the gap begins where `firstOut` says, so what it reaches over is what fits
  have hfirst : (∀ gap, (history.write (.append events evidence)).ledger.state.eviction = some gap →
      ∀ event ∈ history.lost ++ history.ledger.pushedOut (.append events evidence),
        gap.from' ≤ event.instant) ↔
      ∀ event ∈ history.ledger.pushedOut (.append events evidence),
        ∀ first ∈ history.ledger.firstOut (.append events evidence), first ≤ event.instant := by
    constructor
    · intro hgap event hevent first hmem
      cases hnext : evictionAfter history.ledger.state.eviction
          (history.ledger.pushedOut (.append events evidence)) with
      | none =>
        rw [(evictionAfter_eq_none.1 hnext).2] at hevent
        cases hevent
      | some gap =>
        have hfrom : some first = some gap.from' :=
          (mem_def.1 hmem).symm.trans (evictionAfter_eq_some hnext).1
        rw [some.inj hfrom]
        exact hgap gap (heviction.trans hnext) event (mem_append_right _ hevent)
    · intro hfits gap hgap event hevent
      have hnext := heviction.symm.trans hgap
      obtain ⟨hfrom, -, -⟩ := evictionAfter_eq_some hnext
      rcases mem_append.1 hevent with hold | hnew
      · obtain ⟨⟨before, hbefore, hle, -⟩, -⟩ := h.admits event hold
        rw [hbefore] at hfrom
        have hsame : before.from' = gap.from' := some.inj hfrom
        omega
      · exact hfits event hnew gap.from' hfrom
  constructor
  · intro hkept
    exact ⟨hfirst.1 (hadmits.1 hkept.admits), hcoverage.1 (hbounded.1 hkept.bounded)⟩
  · intro hfits
    exact ⟨hbounded.2 (hcoverage.2 hfits.2), hadmits.2 (hfirst.2 hfits.1)⟩

/-- **One write** keeps a bounded ledger that admits its losses exactly when it fits. -/
theorem History.kept_write_iff (h : history.Kept) (haccounts : history.Accounts) (op : LedgerOp) :
    (history.write op).Kept ↔ Fits history.ledger op := by
  have hafter := haccounts.write op
  have hbefore := h.bounded
  cases op with
  | append events evidence => exact kept_append_iff h haccounts events evidence
  | appendLinks links =>
    rw [kept_write_iff_of_quiet h hafter rfl rfl, Fits, ← length_foldl_pushNew]
    exact ⟨fun hbounded => hbounded.links, fun hlinks => { hbefore with links := hlinks }⟩
  | recordCoverage intervals =>
    rw [kept_write_iff_of_quiet h hafter rfl rfl, Fits, ← length_append]
    exact ⟨fun hbounded => hbounded.coverage,
      fun hcoverage => { hbefore with coverage := hcoverage }⟩
  | recordAction action =>
    have hactions : (history.ledger.apply (.recordAction action)).state.actions.length ≤
        history.ledger.capacity ↔ Fits history.ledger (.recordAction action) := by
      have hlength := length_replaceFirst (fun held => decide (held.actionId = action.actionId))
        action history.ledger.state.actions
      rw [show (history.ledger.apply (.recordAction action)).state.actions.length = _ from hlength]
      have hheld : (history.ledger.state.actions.any fun held =>
          decide (held.actionId = action.actionId)) = true ↔
          ∃ held ∈ history.ledger.state.actions, held.actionId = action.actionId := by
        simp
      rw [Fits, ← hheld]
      have := hbefore.actions
      split_ifs with hany
      · exact ⟨fun _ => .inl hany, fun _ => hbefore.actions⟩
      · exact ⟨fun hle => .inr hle, fun hor => hor.resolve_left hany⟩
    rw [kept_write_iff_of_quiet h hafter rfl rfl, ← hactions]
    exact ⟨fun hbounded => hbounded.actions, fun hactions => { hbefore with actions := hactions }⟩
  | writeCheckpoint checkpoint =>
    rw [kept_write_iff_of_quiet h hafter rfl rfl, Fits, lt_iff_add_one_le,
      ← length_singleton (a := checkpoint), ← length_append]
    exact ⟨fun hbounded => hbounded.checkpoints,
      fun hcheckpoints => { hbefore with checkpoints := hcheckpoints }⟩

end Write

/-! ### Every sequence of writes -/

namespace History

theorem kept_new (capacity : Nat) : (new capacity).Kept := by
  refine ⟨⟨?_, ?_, ?_, ?_, ?_, ?_⟩, ?_⟩ <;> simp [new, SessionLedger.withCapacity,
    SessionState.default]

theorem accounts_after (capacity : Nat) (ops : List LedgerOp) : (after capacity ops).Accounts := by
  induction ops using reverseRecOn with
  | nil => exact ⟨fun _ => rfl, fun gap hgap => by cases hgap⟩
  | append_singleton ops op ih =>
    rw [after, foldl_append]
    exact ih.write op

/-- **A bounded ledger that admits every loss.** Whatever the ceiling and the sequence of writes,
after every write the collections are within their ceilings and every event that was ever evicted
lies in the gap and in the unavailable interval the ledger reports, exactly when every write fits
in the ledger it finds. -/
theorem kept_iff_fits (capacity : Nat) (ops : List LedgerOp) :
    (∀ done, done <+: ops → (after capacity done).Kept) ↔
      ∀ done op, done ++ [op] <+: ops → Fits (after capacity done).ledger op := by
  induction ops using reverseRecOn with
  | nil =>
    refine ⟨fun _ done op hprefix => ?_, fun _ done hprefix => ?_⟩
    · simp at hprefix
    · rw [prefix_nil.1 hprefix]
      exact kept_new capacity
  | append_singleton ops op ih =>
    have hwrite : after capacity (ops ++ [op]) = (after capacity ops).write op := by
      rw [after, foldl_append]
      rfl
    constructor
    · intro hkept done other hprefix
      have hbefore := fun done hdone => hkept done (prefix_concat_iff.2 (.inr hdone))
      rcases prefix_concat_iff.1 hprefix with heq | hprefix
      · obtain ⟨rfl, hop⟩ := append_inj' heq rfl
        obtain rfl := singleton_inj.1 hop
        have hlast := hkept _ prefix_rfl
        rw [hwrite] at hlast
        exact (kept_write_iff (hbefore _ prefix_rfl) (accounts_after _ _) _).1 hlast
      · exact ih.1 hbefore done other hprefix
    · intro hfits done hprefix
      have hbefore := ih.2 fun done other hdone =>
        hfits done other (prefix_concat_iff.2 (.inr hdone))
      rcases prefix_concat_iff.1 hprefix with rfl | hprefix
      · rw [hwrite]
        exact (kept_write_iff (hbefore _ prefix_rfl) (accounts_after _ _) _).2
          (hfits ops op prefix_rfl)
      · exact hbefore done hprefix

/-- An event of a fixed identity that names nothing but its instant. -/
def eventAt (id : EventId) (instant : Int) : TemporalEvent where
  eventId := id
  kind := .objectObserved
  subtype := none
  scope := fallbackScope
  subject := none
  related := []
  times :=
    { sourceTime := none
      observedAt := instant
      ingestedAt := instant
      sourceSequence := none
      monotonicNanos := none
      clockUncertainty := none
      domain := ⟨"localhost", none⟩ }
  before := none
  after := none
  changedFields := []
  evidence := []
  causalParents := []
  payload := none
  provenance :=
    { provider := "ono.session"
      observed := none
      source := none
      link := .onThisHost
      schema := ⟨"ono.temporal-event", 1⟩
      confidence := none
      adapter := none }

/-- Three appends to a ledger of one event, the second event earlier than the first. -/
def lateArrival : List LedgerOp :=
  [.append [eventAt ⟨"e1", by decide⟩ 10] [], .append [eventAt ⟨"e2", by decide⟩ 5] [],
    .append [eventAt ⟨"e3", by decide⟩ 20] []]

theorem not_kept_lateArrival :
    ¬ ∀ capacity ops done, done <+: ops → (after capacity done).Kept := by
  intro hkept
  have hadmits := (hkept 1 lateArrival _ prefix_rfl).admits
    (eventAt ⟨"e2", by decide⟩ 5) (by simp [after, lateArrival, write, SessionLedger.pushedOut,
      SessionLedger.queued, storeEvent, new, SessionLedger.withCapacity, SessionState.default,
      SessionLedger.apply, SessionLedger.append, SessionState.enforce, dropOldest, eventAt])
  obtain ⟨⟨gap, hgap, hfrom, -⟩, -⟩ := hadmits
  have hgap' : (after 1 lateArrival).ledger.state.eviction.map (·.from') = some 10 := rfl
  rw [hgap] at hgap'
  have hten : gap.from' = 10 := some.inj hgap'
  have hfive : gap.from' ≤ 5 := hfrom
  omega

end History

end OnoSendai.Temporal
