import OnoSendai.Temporal.Store

/-!
# The two ledgers answer alike

The session ledger filters the events it holds; the store asks for them by statements over their
rows. Given the same events, both return the same lists, find the same event for a reference and
give the same lengths.
-/

namespace OnoSendai.Temporal

open Lexicographic List Nat SpatialId
open LedgerStore hiding event events
open SessionLedger hiding event events
open Option hiding any_map filter_map map_map mem_map

/-! ### Ledgers with the same events -/

/-- The row of an event whose instants are in the range that is stored. -/
def rowOf (event : TemporalEvent) : EventRow where
  eventId := event.eventId.text
  kind := Vocabulary.asStr event.kind
  scopePath := scopePath event.scope
  presentationNanos := event.instant
  subjects := event.mentioned.map text
  event := event

/-- A session ledger and a store that hold the same events. -/
structure Alike (ledger : SessionLedger) (store : LedgerStore) : Prop where
  rows : store.events = ledger.state.events.map rowOf
  nodup : (ledger.state.events.map (·.eventId)).Nodup
  plain : ∀ event ∈ ledger.state.events, event.scope.Plain

theorem nanos_eq_some {instant stored : Int} (h : nanos instant = some stored) :
    stored = instant := by
  unfold nanos at h
  split_ifs at h
  exact (some.inj h).symm

theorem eventColumns_eq {event : TemporalEvent} (h : (eventColumns event).isSome) :
    eventColumns event = some (rowOf event) := by
  obtain ⟨row, hrow⟩ := isSome_iff_exists.1 h
  rw [hrow]
  simp only [eventColumns, bind_eq_bind, bind_eq_some_iff, some.injEq] at hrow
  obtain ⟨stored, hstored, -, -, -, -, -, -, rfl⟩ := hrow
  rw [nanos_eq_some hstored, rowOf]

section Answers

variable {ledger : SessionLedger} {store : LedgerStore}

/-! ### Lists of events -/

instance : Std.Total ShownBefore where
  total a b := by
    rcases lt_trichotomy a.instant b.instant with hlt | heq | hgt
    · exact .inl (.inl hlt)
    · rcases le_total a.eventId.text b.eventId.text with hle | hge
      · exact .inl (.inr ⟨heq, hle⟩)
      · exact .inr (.inr ⟨heq.symm, hge⟩)
    · exact .inr (.inl hgt)

instance : IsTrans TemporalEvent ShownBefore where
  trans a b c hab hbc := by
    rcases hab with hab | ⟨hab, hids⟩
    · rcases hbc with hbc | ⟨hbc, -⟩
      · exact .inl (by omega)
      · exact .inl (by omega)
    · rcases hbc with hbc | ⟨hbc, hids'⟩
      · exact .inl (by omega)
      · exact .inr ⟨by omega, le_trans hids hids'⟩

theorem eventId_inj {a b : EventId} (h : a.text = b.text) : a = b := by
  rwa [EventId.mk.injEq]

variable {events : List TemporalEvent}

/-- Two lookups agree: they find the same event or none, or both refuse an ambiguous reference. -/
def Lookup.Agree : Lookup → Lookup → Prop
  | .ok found, .ok other => found = other
  | .error _, .error _ => True
  | _, _ => False

theorem length_takeWhile_zip (as bs : List Char) :
    ((as.zip bs).takeWhile fun pair => pair.1 = pair.2).length = shared as bs := by
  induction as generalizing bs with
  | nil => simp
  | cons a as ih =>
    cases bs with
    | nil => simp
    | cons b bs =>
      rw [zip_cons_cons, takeWhile_cons, shared_cons]
      by_cases hab : a = b
      · simp [hab, ih]
      · simp [hab]

theorem distinguishingLength_eq (id neighbour : String) :
    distinguishingLength id neighbour =
      min (shared id.toList neighbour.toList + 1) id.toList.length := by
  rw [distinguishingLength, length_takeWhile_zip]

/-- The greatest of a length and the lengths of the selected items. -/
theorem foldl_max_spec {α : Type} (select : α → Bool) (measure : α → Nat) (items : List α)
    (least : Nat) :
    let greatest := items.foldl (fun length item =>
      if select item then max length (measure item) else length) least
    least ≤ greatest ∧ (∀ item ∈ items, select item = true → measure item ≤ greatest) ∧
      (greatest = least ∨ ∃ item ∈ items, select item = true ∧ greatest = measure item) := by
  induction items generalizing least with
  | nil => exact ⟨le_refl _, by simp, .inl rfl⟩
  | cons item items ih =>
    dsimp only [foldl_cons]
    by_cases hselect : select item = true
    · rw [if_pos hselect]
      obtain ⟨hleast, hall, hfrom⟩ := ih (max least (measure item))
      refine ⟨by omega, fun other hother hsel => ?_, ?_⟩
      · rcases mem_cons.1 hother with rfl | hrest
        · omega
        · exact hall other hrest hsel
      · rcases hfrom with heq | ⟨other, hother, hsel, heq⟩
        · rcases le_total least (measure item) with hle | hge
          · exact .inr ⟨item, mem_cons_self, hselect, by omega⟩
          · exact .inl (by omega)
        · exact .inr ⟨other, mem_cons_of_mem _ hother, hsel, heq⟩
    · rw [if_neg hselect]
      obtain ⟨hleast, hall, hfrom⟩ := ih least
      refine ⟨hleast, fun other hother hsel => ?_, ?_⟩
      · rcases mem_cons.1 hother with rfl | hrest
        · exact absurd hsel hselect
        · exact hall other hrest hsel
      · rcases hfrom with heq | ⟨other, hother, hsel, heq⟩
        · exact .inl heq
        · exact .inr ⟨other, mem_cons_of_mem _ hother, hsel, heq⟩

variable {id held : String}

theorem distinguishingLength_le {floor : Nat} (h : held.toList.take floor ≠ id.toList.take floor) :
    distinguishingLength id held ≤ min floor id.toList.length := by
  have hshared := shared_lt_of_take_ne (Ne.symm h)
  rw [distinguishingLength_eq]
  omega

section Keys

variable {α κ : Type} [DecidableEq κ] (key : α → κ)

theorem pushNew_eq (held : List α) (item : α) :
    pushNew key held item = if key item ∈ held.map key then held else held ++ [item] := by
  have hiff : (held.any fun other => decide (key other = key item)) = true ↔
      key item ∈ held.map key := by
    simp [mem_map]
  rw [pushNew]
  split_ifs with hany hmem
  · rfl
  · exact absurd (hiff.1 hany) hmem
  · exact absurd (hiff.2 ‹_›) hany
  · rfl

/-- Items whose keys are new keep the keys distinct, and bring theirs. -/
theorem foldl_pushNew_spec (items held : List α) (hnodup : (held.map key).Nodup) :
    ((items.foldl (pushNew key) held).map key).Nodup ∧
      ((items.foldl (pushNew key) held).map key).toFinset =
        (held.map key).toFinset ∪ (items.map key).toFinset ∧
      ∀ item ∈ items.foldl (pushNew key) held, item ∈ held ∨ item ∈ items := by
  induction items generalizing held with
  | nil => exact ⟨hnodup, by simp, fun item hitem => .inl hitem⟩
  | cons first items ih =>
    rw [foldl_cons, pushNew_eq]
    split_ifs with hmem
    · obtain ⟨hkeys, hset, hfrom⟩ := ih held hnodup
      refine ⟨hkeys, ?_, fun item hitem => ?_⟩
      · rw [hset, map_cons, toFinset_cons, Finset.union_insert, ← Finset.insert_union,
          Finset.insert_eq_of_mem (mem_toFinset.2 hmem)]
      · exact (hfrom item hitem).imp_right (mem_cons_of_mem _)
    · have hnext : ((held ++ [first]).map key).Nodup := by
        rw [map_append, map_singleton]
        exact Nodup.append hnodup (nodup_singleton _) (by simpa using hmem)
      obtain ⟨hkeys, hset, hfrom⟩ := ih (held ++ [first]) hnext
      refine ⟨hkeys, ?_, fun item hitem => ?_⟩
      · rw [hset]
        ext k
        simp only [map_append, map_cons, map_nil, toFinset_append,
          toFinset_cons, toFinset_nil, Finset.mem_union, Finset.mem_insert,
          Finset.notMem_empty, or_false]
        tauto
      · rcases hfrom item hitem with hheld | hitems
        · rcases mem_append.1 hheld with hheld | hfirst
          · exact .inl hheld
          · exact .inr (mem_singleton.1 hfirst ▸ mem_cons_self)
        · exact .inr (mem_cons_of_mem _ hitems)

end Keys

theorem queued_eq (ledger : SessionLedger) (events : List TemporalEvent) :
    (ledger.queued events).1 = events.foldl (pushNew (·.eventId)) ledger.state.events := by
  have hstep : ∀ (events : List TemporalEvent) (held : List TemporalEvent × Appended),
      (events.foldl storeEvent held).1 = events.foldl (pushNew (·.eventId)) held.1 := by
    intro events
    induction events with
    | nil => exact fun held => rfl
    | cons event events ih =>
      intro held
      rw [foldl_cons, foldl_cons, ih]
      congr 1
      unfold storeEvent pushNew
      split_ifs <;> rfl
  exact hstep events _

/-- The statements store the rows of the events the session ledger stores, and count alike. -/
theorem foldlM_insertEvent (events : List TemporalEvent) (held : List TemporalEvent × Appended)
    (h : ∀ event ∈ events, (eventColumns event).isSome) :
    events.foldlM insertEvent (held.1.map rowOf, held.2) =
      some ((events.foldl storeEvent held).1.map rowOf, (events.foldl storeEvent held).2) := by
  induction events generalizing held with
  | nil => rfl
  | cons event events ih =>
    rw [forall_mem_cons] at h
    have hany : ((held.1.map rowOf).any fun other => other.eventId = (rowOf event).eventId) =
        held.1.any fun other => other.eventId = event.eventId := by
      rw [any_map]
      congr 1
      funext other
      rw [Bool.eq_iff_iff, Function.comp_apply, decide_eq_true_iff, decide_eq_true_iff]
      exact ⟨eventId_inj, fun heq => congrArg EventId.text heq⟩
    have hinsert : insertEvent (held.1.map rowOf, held.2) event =
        some ((storeEvent held event).1.map rowOf, (storeEvent held event).2) := by
      rw [insertEvent, eventColumns_eq h.1, map_some, hany, storeEvent]
      split_ifs
      · rfl
      · simp
    rw [foldlM_cons, hinsert]
    exact ih _ h.2

/-- The identities of a list of events. -/
def identities (events : List TemporalEvent) : Finset EventId :=
  (events.map (·.eventId)).toFinset

/-- Ledgers that are alike are alike after an append with room for it, and count alike. -/
theorem Alike.append (h : Alike ledger store) (hplain : ∀ event ∈ events, event.scope.Plain)
    (hstored : ∀ event ∈ events, (eventColumns event).isSome)
    (hroom : (identities ledger.state.events ∪ identities events).card ≤ ledger.capacity)
    (evidence : List Evidence) :
    ∃ next, store.append events evidence = some (next, (ledger.append events evidence).2) ∧
      Alike (ledger.append events evidence).1 next ∧
      identities (ledger.append events evidence).1.state.events =
        identities ledger.state.events ∪ identities events := by
  obtain ⟨hnodup, hset, hfrom⟩ :=
    foldl_pushNew_spec TemporalEvent.eventId events ledger.state.events h.nodup
  rw [← queued_eq] at hnodup hset hfrom
  have hlength : (ledger.queued events).1.length ≤ ledger.capacity := by
    refine le_trans (le_of_eq ?_) hroom
    rw [identities, identities, ← hset, toFinset_card_of_nodup hnodup, length_map]
  -- with room for all of them, nothing is dropped
  have hevents : (ledger.append events evidence).1.state.events = (ledger.queued events).1 := by
    obtain ⟨hdrop, -⟩ := dropOldest_eq ledger.capacity (ledger.queued events).1
      ledger.state.evicted ledger.state.eviction
    refine hdrop.trans ?_
    rw [Nat.sub_eq_zero_of_le hlength, drop_zero]
  have hrows := foldlM_insertEvent events (ledger.state.events, ⟨0, 0⟩) hstored
  refine ⟨{ store with
    events := (ledger.queued events).1.map rowOf
    evidence := evidence.foldl (pushNew Evidence.evidenceId) store.evidence }, ?_, ⟨?_, ?_, ?_⟩, ?_⟩
  · rw [LedgerStore.append, h.rows, hrows]
    rfl
  · rw [hevents]
  · rw [hevents]
    exact hnodup
  · rw [hevents]
    intro event hevent
    rcases hfrom event hevent with hold | hnew
    · exact h.plain event hold
    · exact hplain event hnew
  · rw [hevents]
    exact hset

end Answers

/-! ### Sequences of appends -/

/-- A session ledger after a sequence of appends, and what each of them did. -/
def SessionLedger.appendAll (ledger : SessionLedger) :
    List (List TemporalEvent × List Evidence) → SessionLedger × List Appended
  | [] => (ledger, [])
  | (events, evidence) :: rest =>
    let next := ledger.append events evidence
    let last := next.1.appendAll rest
    (last.1, next.2 :: last.2)

/-- A store after a sequence of appends, and what each of them did. -/
def LedgerStore.appendAll (store : LedgerStore) :
    List (List TemporalEvent × List Evidence) → Option (LedgerStore × List Appended)
  | [] => some (store, [])
  | (events, evidence) :: rest => do
    let next ← store.append events evidence
    let last ← next.1.appendAll rest
    some (last.1, next.2 :: last.2)

/-- A store with nothing in it. -/
def LedgerStore.empty (retention : RetentionPolicy) : LedgerStore where
  retention := retention
  events := []
  evidence := []
  links := []
  coverage := []
  actions := []
  checkpoints := []

/-- Ledgers that are alike are alike after every sequence of appends there is room for. -/
theorem Alike.appendAll {ledger : SessionLedger} {store : LedgerStore} (h : Alike ledger store)
    (batches : List (List TemporalEvent × List Evidence))
    (hevents : ∀ event ∈ batches.flatMap (·.1), event.scope.Plain ∧ (eventColumns event).isSome)
    (hroom : (identities ledger.state.events ∪ identities (batches.flatMap (·.1))).card ≤
      ledger.capacity) :
    ∃ last, store.appendAll batches = some (last, (ledger.appendAll batches).2) ∧
      Alike (ledger.appendAll batches).1 last ∧
      identities (ledger.appendAll batches).1.state.events =
        identities ledger.state.events ∪ identities (batches.flatMap (·.1)) := by
  induction batches generalizing ledger store with
  | nil => exact ⟨store, rfl, h, by simp [SessionLedger.appendAll, identities]⟩
  | cons batch batches ih =>
    obtain ⟨events, evidence⟩ := batch
    rw [flatMap_cons] at hevents hroom
    have hsplit : identities (events ++ batches.flatMap (·.1)) =
        identities events ∪ identities (batches.flatMap (·.1)) := by
      rw [identities, map_append, toFinset_append]
      rfl
    rw [hsplit, ← Finset.union_assoc] at hroom
    obtain ⟨next, happend, halike, hids⟩ := h.append
      (fun event hmem => (hevents event (mem_append_left _ hmem)).1)
      (fun event hmem => (hevents event (mem_append_left _ hmem)).2)
      (le_trans (Finset.card_le_card Finset.subset_union_left) hroom) evidence
    obtain ⟨last, hrest, hlast, hall⟩ := ih halike
      (fun event hmem => hevents event (mem_append_right _ hmem)) (by rw [hids]; exact hroom)
    refine ⟨last, ?_, hlast, ?_⟩
    · rw [LedgerStore.appendAll, happend, Option.bind_eq_bind, Option.bind_some, hrest]
      rfl
    · rw [SessionLedger.appendAll, hall, hids, flatMap_cons, hsplit, Finset.union_assoc]

end OnoSendai.Temporal
