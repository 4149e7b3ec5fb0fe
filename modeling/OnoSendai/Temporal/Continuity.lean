import Mathlib.Data.Finset.Max
import Mathlib.Order.Interval.Finset.Nat
import OnoSendai.Temporal.Store

/-!
# Source sequence continuity

Every event the store takes in that carries a source sequence number is noted in the row of its
source, host and boot: the lowest and the highest number, how many events were noted, and whether
that count reaches the span between the two. An event that is there already is not noted again.

The count is of events and not of numbers. Over every run of the store the row therefore tells the
truth exactly where the numbers fit the column that holds them and the repeated ones do not make up
for the missing ones.
-/

namespace OnoSendai.Temporal

open List

/-! ### The table of sequences -/

/-- What the sequences of one source are told apart by. No boot and the empty boot are one. -/
structure SequenceKey where
  source : String
  domainHost : String
  domainBoot : String
deriving DecidableEq

/-- The row of one source in one clock domain. -/
structure SequenceRow where
  key : SequenceKey
  highest : Int
  lowest : Int
  seen : Int
  contiguous : Bool
  declared : Bool
  lastNanos : Int
  scopePath : String

/-- A number inside the range of a signed 64-bit integer. -/
def saturate (n : Int) : Int :=
  max (-2 ^ 63) (min (2 ^ 63 - 1) n)

/-- A sequence number as its column holds it. -/
def sequenceColumn (sequence : Nat) : Int :=
  min sequence (2 ^ 63 - 1)

/-- The key of the row an event is noted in. -/
def SequenceKey.of (event : TemporalEvent) : SequenceKey where
  source := event.provenance.provider
  domainHost := event.times.domain.host
  domainBoot := event.times.domain.bootId.getD ""

/-- Inserts a row, or updates the one with its key. -/
def upsert (rows : List SequenceRow) (update : SequenceRow → SequenceRow)
    (fresh : SequenceRow) : List SequenceRow :=
  if rows.any (·.key = fresh.key) then
    rows.map fun row => if row.key = fresh.key then update row else row
  else rows ++ [fresh]

/-- The lowest, the highest and the count after a number. A row nothing was noted in is a
declaration, and its zeroes are not numbers. -/
def extent (existing : Option SequenceRow) (sequence : Int) : Int × Int × Int :=
  match existing with
  | some row =>
    if row.seen = 0 then (sequence, sequence, 1)
    else (min row.lowest sequence, max row.highest sequence, row.seen + 1)
  | none => (sequence, sequence, 1)

/-- How many numbers lie between two, both included. -/
def spanOf (lowest highest : Int) : Int :=
  saturate (saturate (highest - lowest) + 1)

/-- Keeps the continuity of a source current. -/
def noteSequence (rows : List SequenceRow) (columns : EventRow) : List SequenceRow :=
  match columns.event.times.sourceSequence with
  | none => rows
  | some sequence =>
    let key := SequenceKey.of columns.event
    let (lowest, highest, seen) := extent (rows.find? (·.key = key)) (sequenceColumn sequence)
    let contiguous := decide (seen ≥ spanOf lowest highest)
    upsert rows
      (fun row =>
        { row with
          highest, lowest, seen, contiguous
          lastNanos := max row.lastNanos columns.presentationNanos
          scopePath := columns.scopePath })
      { key, highest, lowest, seen, contiguous
        declared := false
        lastNanos := columns.presentationNanos
        scopePath := columns.scopePath }

/-! ### The store with its sequences -/

/-- The store and its table of sequences. -/
structure SequencedStore where
  store : LedgerStore
  sourceSequences : List SequenceRow

namespace SequencedStore

variable (sequenced : SequencedStore)

/-- Inserts an event unless a row of its identity is there, and notes its sequence number where it
is inserted. -/
def insertEvent (held : (List EventRow × Appended) × List SequenceRow) (event : TemporalEvent) :
    Option ((List EventRow × Appended) × List SequenceRow) :=
  (eventColumns event).map fun columns =>
    if held.1.1.any fun other => other.eventId = columns.eventId then
      ((held.1.1, { held.1.2 with duplicates := held.1.2.duplicates + 1 }), held.2)
    else
      ((held.1.1 ++ [columns], { held.1.2 with stored := held.1.2.stored + 1 }),
        noteSequence held.2 columns)

/-- Stores events and evidence in one transaction, or none of them. -/
def append (events : List TemporalEvent) (evidence : List Evidence) :
    Option (SequencedStore × Appended) :=
  (events.foldlM insertEvent ((sequenced.store.events, ⟨0, 0⟩), sequenced.sourceSequences)).map
    fun ((rows, appended), sequences) =>
      ({ store :=
          { sequenced.store with
            events := rows
            evidence := evidence.foldl (pushNew Evidence.evidenceId) sequenced.store.evidence }
         sourceSequences := sequences }, appended)

/-- Declares that a source numbers its events contiguously. -/
def declareContiguous (key : SequenceKey) (scope : SpatialScope) (at' : Int) :
    Option SequencedStore :=
  (nanos at').map fun at' =>
    { sequenced with
      sourceSequences := upsert sequenced.sourceSequences
        (fun row => { row with declared := true })
        { key
          highest := 0
          lowest := 0
          seen := 0
          contiguous := true
          declared := true
          lastNanos := at'
          scopePath := scopePath scope } }

/-- The row of a key. -/
def sequenceRow (key : SequenceKey) : Option SequenceRow :=
  sequenced.sourceSequences.find? (·.key = key)

end SequencedStore

/-- The events of a batch that are not there yet, each once. -/
def freshEvents : List EventRow → List TemporalEvent → List TemporalEvent
  | _, [] => []
  | rows, event :: events =>
    match eventColumns event with
    | none => []
    | some columns =>
      if rows.any fun other => other.eventId = columns.eventId then freshEvents rows events
      else event :: freshEvents (rows ++ [columns]) events

/-- The stores that are reached from one without sequences, with the events stored on the way, in
order. What writes other tables leaves the sequences as they are, whatever it removes. -/
inductive SequencedStore.Reaches : SequencedStore → List TemporalEvent → Prop
  | opened {sequenced : SequencedStore} (h : sequenced.sourceSequences = []) : Reaches sequenced []
  | append {sequenced after : SequencedStore} {stored : List TemporalEvent} {appended : Appended}
      {events : List TemporalEvent} {evidence : List Evidence} (h : Reaches sequenced stored)
      (happend : sequenced.append events evidence = some (after, appended)) :
      Reaches after (stored ++ freshEvents sequenced.store.events events)
  | declared {sequenced after : SequencedStore} {stored : List TemporalEvent} {key : SequenceKey}
      {scope : SpatialScope} {instant : Int} (h : Reaches sequenced stored)
      (hdeclared : sequenced.declareContiguous key scope instant = some after) :
      Reaches after stored
  | elsewhere {sequenced after : SequencedStore} {stored : List TemporalEvent}
      (h : Reaches sequenced stored) (hsame : after.sourceSequences = sequenced.sourceSequences) :
      Reaches after stored

/-! ### What a row should say -/

/-- The sequence numbers of the events noted in the row of a key. -/
def numbersOf (key : SequenceKey) (stored : List TemporalEvent) : List Nat :=
  stored.filterMap fun event =>
    if SequenceKey.of event = key then event.times.sourceSequence else none

/-- Whether a row has the least and the greatest of some numbers and tells whether every number
between them is there. -/
def Continuous (row : SequenceRow) (numbers : List Nat) : Prop :=
  ∃ low high, IsLeast {n | n ∈ numbers} low ∧ IsGreatest {n | n ∈ numbers} high ∧
    row.lowest = low ∧ row.highest = high ∧
    (row.contiguous = true ↔ ∀ n, low ≤ n → n ≤ high → n ∈ numbers)

/-- How many numbers between two are not among some. -/
def missing (numbers : List Nat) (low high : Nat) : Nat :=
  (Finset.Icc low high \ numbers.toFinset).card

/-- How many numbers of a list are repetitions. -/
def repeated (numbers : List Nat) : Nat :=
  numbers.length - numbers.toFinset.card

/-- Numbers that fit their column, with none missing between the least and the greatest or fewer
repeated than missing. The span of all the numbers of the column is one more than can be counted. -/
def Tellable (numbers : List Nat) : Prop :=
  ∃ low high, IsLeast {n | n ∈ numbers} low ∧ IsGreatest {n | n ∈ numbers} high ∧ high < 2 ^ 63 ∧
    (missing numbers low high = 0 ∨
      repeated numbers + (high + 1 - low - (2 ^ 63 - 1)) < missing numbers low high)

/-! ### One number noted -/

section Note

variable {rows : List SequenceRow} {key : SequenceKey} {numbers : List Nat}
  {existing : Option SequenceRow} {number : Nat}

/-- Writing the row of one key leaves the rows of the others. -/
theorem find?_upsert {update : SequenceRow → SequenceRow} {fresh : SequenceRow}
    (hupdate : ∀ row, (update row).key = row.key) (key : SequenceKey) :
    (upsert rows update fresh).find? (·.key = key) =
      if fresh.key = key then some (((rows.find? (·.key = key)).map update).getD fresh)
      else rows.find? (·.key = key) := by
  unfold upsert
  by_cases hany : rows.any (·.key = fresh.key) = true
  · rw [if_pos hany, find?_map]
    have hkeys : ((fun row : SequenceRow => decide (row.key = key)) ∘
        fun row => if row.key = fresh.key then update row else row) =
        fun row => decide (row.key = key) := by
      funext row
      simp only [Function.comp_apply]
      split_ifs with hkey
      · rw [hupdate]
      · rfl
    rw [hkeys]
    split_ifs with hkey
    · subst hkey
      obtain ⟨row, hmem, hrow⟩ := any_eq_true.1 hany
      obtain ⟨found, hfound⟩ := Option.isSome_iff_exists.1
        (find?_isSome (p := fun row => decide (row.key = fresh.key)).2 ⟨row, hmem, hrow⟩)
      have hsame : found.key = fresh.key := by simpa using find?_some hfound
      rw [hfound, Option.map_some, Option.map_some, if_pos hsame, Option.getD_some]
    · cases hfound : rows.find? (fun row => decide (row.key = key)) with
      | none => rfl
      | some found =>
        have hsame : found.key = key := by simpa using find?_some hfound
        rw [Option.map_some, if_neg fun h => hkey (h.symm.trans hsame)]
  · rw [if_neg hany, find?_append]
    have hnone : rows.find? (·.key = fresh.key) = none := by
      rw [find?_eq_none]
      exact fun row hmem hrow => hany (any_eq_true.2 ⟨row, hmem, hrow⟩)
    split_ifs with hkey
    · subst hkey
      rw [hnone]
      simp
    · simp [hkey]

/-- A row in which some numbers were noted. -/
structure NotedIn (row : SequenceRow) (numbers : List Nat) : Prop where
  seen : row.seen = numbers.length
  lowest : IsLeast (sequenceColumn '' {n | n ∈ numbers}) row.lowest
  highest : IsGreatest (sequenceColumn '' {n | n ∈ numbers}) row.highest
  contiguous : row.contiguous = decide (row.seen ≥ spanOf row.lowest row.highest)

/-- The row that some numbers were noted in, or that nothing was. -/
def Noted (existing : Option SequenceRow) (numbers : List Nat) : Prop :=
  (numbers = [] ∧ ∀ row ∈ existing, row.seen = 0) ∨ ∃ row ∈ existing, NotedIn row numbers

theorem NotedIn.ne_nil {row : SequenceRow} (h : NotedIn row numbers) : numbers ≠ [] := by
  rintro rfl
  obtain ⟨n, hn, -⟩ := h.lowest.1
  exact not_mem_nil hn

theorem columns_concat : sequenceColumn '' {n | n ∈ numbers ++ [number]} =
    insert (sequenceColumn number) (sequenceColumn '' {n | n ∈ numbers}) := by
  rw [← Set.image_insert_eq]
  congr 1
  ext n
  simp [or_comm]

/-- The extent after one more number. -/
theorem extent_spec (h : Noted existing numbers) :
    (extent existing (sequenceColumn number)).2.2 = (numbers ++ [number]).length ∧
      IsLeast (sequenceColumn '' {n | n ∈ numbers ++ [number]})
        (extent existing (sequenceColumn number)).1 ∧
      IsGreatest (sequenceColumn '' {n | n ∈ numbers ++ [number]})
        (extent existing (sequenceColumn number)).2.1 := by
  rw [columns_concat, length_append, length_singleton]
  rcases h with ⟨rfl, hnone⟩ | ⟨row, hrow, hnoted⟩
  · have hfirst : extent existing (sequenceColumn number) =
        (sequenceColumn number, sequenceColumn number, 1) := by
      cases existing with
      | none => rfl
      | some row => exact if_pos (hnone row rfl)
    rw [hfirst]
    refine ⟨rfl, ?_, ?_⟩ <;> simp [isLeast_singleton, isGreatest_singleton]
  · have hseen : row.seen ≠ 0 := by
      have hpos := length_pos_iff.2 hnoted.ne_nil
      rw [hnoted.seen]
      omega
    have hnext : extent existing (sequenceColumn number) = (min row.lowest (sequenceColumn number),
        max row.highest (sequenceColumn number), row.seen + 1) := by
      rw [Option.mem_def.1 hrow]
      exact if_neg hseen
    rw [hnext, min_comm, max_comm]
    refine ⟨?_, hnoted.lowest.insert _, hnoted.highest.insert _⟩
    rw [hnoted.seen]
    push_cast
    rfl

/-- What is noted of every key. -/
def NotedAll (rows : List SequenceRow) (stored : List TemporalEvent) : Prop :=
  ∀ key, Noted (rows.find? (·.key = key)) (numbersOf key stored)

variable {stored : List TemporalEvent}

theorem numbersOf_concat {event : TemporalEvent} :
    numbersOf key (stored ++ [event]) =
      if SequenceKey.of event = key then numbersOf key stored ++ event.times.sourceSequence.toList
      else numbersOf key stored := by
  unfold numbersOf
  rw [filterMap_append]
  split_ifs with hkey
  · cases hsequence : event.times.sourceSequence <;> simp [hkey, hsequence]
  · simp [hkey]

/-- **Noting an event** adds its number to those of its key. -/
theorem NotedAll.noteSequence {columns : EventRow} (h : NotedAll rows stored) :
    NotedAll (noteSequence rows columns) (stored ++ [columns.event]) := by
  intro key
  rw [numbersOf_concat]
  unfold Temporal.noteSequence
  cases hsequence : columns.event.times.sourceSequence with
  | none => simpa using h key
  | some number =>
    dsimp only
    rw [find?_upsert (by exact fun _ => rfl)]
    split_ifs with hkey
    · subst hkey
      have hspec := @extent_spec _ _ number (h (SequenceKey.of columns.event))
      generalize rows.find? (fun row => decide (row.key = SequenceKey.of columns.event)) =
        existing at hspec ⊢
      obtain ⟨hseen, hleast, hgreatest⟩ := hspec
      refine .inr ⟨_, rfl, ?_⟩
      cases existing with
      | none => exact ⟨hseen, hleast, hgreatest, rfl⟩
      | some row => exact ⟨hseen, hleast, hgreatest, rfl⟩
    · exact h key

/-- A declaration notes nothing. -/
theorem NotedAll.declare {fresh : SequenceRow} (h : NotedAll rows stored)
    (hfresh : fresh.seen = 0) :
    NotedAll (upsert rows (fun row => { row with declared := true }) fresh) stored := by
  intro key
  rw [find?_upsert (by exact fun _ => rfl)]
  split_ifs with hkey
  · rcases h key with ⟨hnil, hnone⟩ | ⟨row, hrow, hnoted⟩
    · refine .inl ⟨hnil, ?_⟩
      rintro row ⟨⟩
      cases hfound : rows.find? (fun row => decide (row.key = key)) with
      | none => exact hfresh
      | some found => exact hnone found hfound
    · rw [Option.mem_def.1 hrow]
      exact .inr ⟨_, rfl, hnoted.seen, hnoted.lowest, hnoted.highest, hnoted.contiguous⟩
  · exact h key

end Note

/-! ### A run noted -/

namespace SequencedStore

variable {sequenced after : SequencedStore} {stored : List TemporalEvent}

theorem eventColumns_event {event : TemporalEvent} {columns : EventRow}
    (h : eventColumns event = some columns) : columns.event = event := by
  simp only [eventColumns, Option.bind_eq_bind, Option.bind_eq_some_iff, Option.some.injEq] at h
  obtain ⟨-, -, -, -, -, -, -, -, rfl⟩ := h
  rfl

/-- The sequences after a batch are those of its fresh events. -/
theorem notedAll_foldlM {events : List TemporalEvent}
    {held final : (List EventRow × Appended) × List SequenceRow}
    (hfinal : events.foldlM insertEvent held = some final) (h : NotedAll held.2 stored) :
    NotedAll final.2 (stored ++ freshEvents held.1.1 events) := by
  induction events generalizing held stored with
  | nil =>
    obtain rfl := Option.some.inj hfinal
    rwa [freshEvents, append_nil]
  | cons event events ih =>
    rw [foldlM_cons] at hfinal
    obtain ⟨next, hnext, hfinal⟩ := Option.bind_eq_some_iff.1 hfinal
    obtain ⟨columns, hcolumns, hnext⟩ := Option.map_eq_some_iff.1 hnext
    have hevent : columns.event = event := eventColumns_event hcolumns
    rw [freshEvents, hcolumns]
    dsimp only
    split_ifs at hnext ⊢ with hheld
    · subst hnext
      have hlater := @ih stored _ hfinal h
      exact hlater
    · subst hnext
      have hlater := @ih (stored ++ [event]) _ hfinal (by rw [← hevent]; exact h.noteSequence)
      rwa [append_assoc, singleton_append] at hlater

/-- **What a run notes** of every key is what it stored. -/
theorem Reaches.noted (h : Reaches sequenced stored) :
    NotedAll sequenced.sourceSequences stored := by
  induction h with
  | opened hnil =>
    intro key
    rw [hnil]
    exact .inl ⟨rfl, fun _ hrow => absurd hrow (Option.not_mem_none _)⟩
  | append _ happend ih =>
    obtain ⟨final, hfinal, hafter⟩ := Option.map_eq_some_iff.1 happend
    obtain ⟨rfl, -⟩ := Prod.mk.inj hafter
    exact notedAll_foldlM hfinal ih
  | declared _ hdeclared ih =>
    obtain ⟨instant, -, rfl⟩ := Option.map_eq_some_iff.1 hdeclared
    exact ih.declare rfl
  | elsewhere _ hsame ih =>
    rwa [hsame]

end SequencedStore

/-! ### Which numbers are told right -/

section Told

variable {row : SequenceRow} {numbers : List Nat} {low high : Nat}

theorem exists_isLeast_isGreatest (h : numbers ≠ []) :
    ∃ low high, IsLeast {n | n ∈ numbers} low ∧ IsGreatest {n | n ∈ numbers} high := by
  have hsome : numbers.toFinset.Nonempty := toFinset_nonempty_iff _ |>.2 h
  have hset : {n | n ∈ numbers} = (numbers.toFinset : Set Nat) := by
    ext n
    simp
  rw [hset]
  exact ⟨_, _, numbers.toFinset.isLeast_min' hsome, numbers.toFinset.isGreatest_max' hsome⟩

theorem card_add_missing (hleast : IsLeast {n | n ∈ numbers} low)
    (hgreatest : IsGreatest {n | n ∈ numbers} high) :
    numbers.toFinset.card + missing numbers low high = high + 1 - low := by
  have hsubset : numbers.toFinset ⊆ Finset.Icc low high := by
    intro n hn
    have hmem : n ∈ numbers := mem_toFinset.1 hn
    exact Finset.mem_Icc.2 ⟨hleast.2 hmem, hgreatest.2 hmem⟩
  rw [missing, add_comm, Finset.card_sdiff_add_card_eq_card hsubset, Nat.card_Icc]

theorem missing_eq_zero_iff :
    missing numbers low high = 0 ↔ ∀ n, low ≤ n → n ≤ high → n ∈ numbers := by
  rw [missing, Finset.card_eq_zero, Finset.sdiff_eq_empty_iff_subset]
  constructor
  · intro hsubset n hlow hhigh
    exact mem_toFinset.1 (hsubset (Finset.mem_Icc.2 ⟨hlow, hhigh⟩))
  · intro hall n hn
    obtain ⟨hlow, hhigh⟩ := Finset.mem_Icc.1 hn
    exact mem_toFinset.2 (hall n hlow hhigh)

/-- The count reaches the span of a row whose numbers fit: none is missing, or the repeated ones
make up for it. -/
theorem NotedIn.contiguous_iff (h : NotedIn row numbers) (hleast : IsLeast {n | n ∈ numbers} low)
    (hgreatest : IsGreatest {n | n ∈ numbers} high) (hlow : row.lowest = low)
    (hhigh : row.highest = high) (hfits : high < 2 ^ 63) :
    row.contiguous = true ↔ missing numbers low high = 0 ∨
      missing numbers low high ≤ repeated numbers + (high + 1 - low - (2 ^ 63 - 1)) := by
  have hspan := card_add_missing hleast hgreatest
  have hcard : numbers.toFinset.card ≤ numbers.length := toFinset_card_le numbers
  have hle : low ≤ high := hleast.2 hgreatest.1
  rw [h.contiguous, decide_eq_true_eq, h.seen, hlow, hhigh, spanOf, repeated]
  unfold saturate
  omega

/-- **A row tells the truth about the numbers that let it.** -/
theorem NotedIn.tellable_iff (h : NotedIn row numbers) :
    Continuous row numbers ↔ Tellable numbers := by
  obtain ⟨low, high, hleast, hgreatest⟩ := exists_isLeast_isGreatest h.ne_nil
  have hmono : Monotone sequenceColumn := by
    intro one two hle
    unfold sequenceColumn
    omega
  have hlow : row.lowest = sequenceColumn low :=
    h.lowest.unique (hmono.map_isLeast hleast)
  have hhigh : row.highest = sequenceColumn high :=
    h.highest.unique (hmono.map_isGreatest hgreatest)
  have hle : low ≤ high := hleast.2 hgreatest.1
  have hcolumn : ∀ n : Nat, n < 2 ^ 63 → sequenceColumn n = n := by
    intro n hn
    unfold sequenceColumn
    omega
  constructor
  · rintro ⟨low', high', hleast', hgreatest', -, hhigh', hcontiguous⟩
    obtain rfl := hleast.unique hleast'
    obtain rfl := hgreatest.unique hgreatest'
    have hfits : high < 2 ^ 63 := by
      rw [hhigh'] at hhigh
      unfold sequenceColumn at hhigh
      omega
    rw [hcolumn low (by omega)] at hlow
    rw [h.contiguous_iff hleast hgreatest hlow hhigh' hfits, ← missing_eq_zero_iff] at hcontiguous
    refine ⟨low, high, hleast, hgreatest, hfits, ?_⟩
    omega
  · rintro ⟨low', high', hleast', hgreatest', hfits, htold⟩
    obtain rfl := hleast.unique hleast'
    obtain rfl := hgreatest.unique hgreatest'
    rw [hcolumn low (by omega)] at hlow
    rw [hcolumn high hfits] at hhigh
    refine ⟨low, high, hleast, hgreatest, hlow, hhigh, ?_⟩
    rw [h.contiguous_iff hleast hgreatest hlow hhigh hfits, ← missing_eq_zero_iff]
    omega

end Told

namespace SequencedStore

/-- Whether the row of a key tells the truth about the numbers stored. -/
def TellsContinuity (sequenced : SequencedStore) (stored : List TemporalEvent)
    (key : SequenceKey) : Prop :=
  numbersOf key stored ≠ [] →
    ∃ row, sequenced.sequenceRow key = some row ∧ Continuous row (numbersOf key stored)

/-- **When the store tells continuity right.** After every run, in whatever order the events came,
the row of a source in a clock domain has its least and greatest number and is contiguous just when
none between them is missing, if and only if the numbers are ones that can be told: all of them fit
their column, and none is missing or fewer are repeated than are missing. -/
theorem Reaches.continuous_iff {sequenced : SequencedStore} {stored : List TemporalEvent}
    (h : sequenced.Reaches stored) (key : SequenceKey) :
    sequenced.TellsContinuity stored key ↔
      (numbersOf key stored ≠ [] → Tellable (numbersOf key stored)) := by
  refine forall_congr' fun hsome => ?_
  rcases h.noted key with ⟨hnil, -⟩ | ⟨row, hrow, hnoted⟩
  · exact absurd hnil hsome
  · rw [← hnoted.tellable_iff]
    constructor
    · rintro ⟨other, hother, hcontinuous⟩
      obtain rfl := Option.some.inj (hother.symm.trans hrow)
      exact hcontinuous
    · exact fun hcontinuous => ⟨row, hrow, hcontinuous⟩

/-- A store that holds nothing. -/
def empty : SequencedStore where
  store :=
    { retention := ⟨none, none, 0⟩
      events := []
      evidence := []
      links := []
      coverage := []
      actions := []
      checkpoints := [] }
  sourceSequences := []

/-- An event that carries a sequence number. -/
def numbered (id : EventId) (number : Nat) : TemporalEvent :=
  { History.eventAt id 0 with
    times := { (History.eventAt id 0).times with sourceSequence := some number } }

/-- Three events with some numbers. -/
def threeEvents (one two three : Nat) : List TemporalEvent :=
  [numbered ⟨"e1", Eq.refl true⟩ one, numbered ⟨"e2", Eq.refl true⟩ two,
    numbered ⟨"e3", Eq.refl true⟩ three]

/-- The store that was given three events with some numbers. -/
def afterThree (one two three : Nat) : SequencedStore :=
  ((empty.append (threeEvents one two three) []).getD (empty, ⟨0, 0⟩)).1

/-- The key the three events are noted under. -/
def sessionKey : SequenceKey :=
  ⟨"ono.session", "localhost", ""⟩

theorem continuous_iff_outOfOrder :
    (afterThree 5 3 4).TellsContinuity (threeEvents 5 3 4) sessionKey := by
  have hreaches : (afterThree 5 3 4).Reaches (threeEvents 5 3 4) :=
    @Reaches.append empty _ [] ⟨3, 0⟩ (threeEvents 5 3 4) [] (.opened rfl) rfl
  refine (Reaches.continuous_iff hreaches sessionKey).2 fun _ => ?_
  have hnumbers : numbersOf sessionKey (threeEvents 5 3 4) = [5, 3, 4] := by decide +kernel
  rw [hnumbers]
  refine ⟨3, 5, ⟨by simp, by simp [lowerBounds]⟩, ⟨by simp, by simp [upperBounds]⟩, by decide,
    .inl ?_⟩
  decide

/-- Two events that share a number make up for a number that is missing. -/
theorem not_tellsContinuity_shared :
    ¬ ∀ (sequenced : SequencedStore) (stored : List TemporalEvent) (key : SequenceKey),
      sequenced.Reaches stored → sequenced.TellsContinuity stored key := by
  intro hall
  have hreaches : (afterThree 1 1 3).Reaches (threeEvents 1 1 3) :=
    @Reaches.append empty _ [] ⟨3, 0⟩ (threeEvents 1 1 3) [] (.opened rfl) rfl
  have hnumbers : numbersOf sessionKey (threeEvents 1 1 3) = [1, 1, 3] := by decide +kernel
  have htells := hall _ _ sessionKey hreaches
  rw [TellsContinuity, hnumbers] at htells
  obtain ⟨row, hrow, low, high, hleast, hgreatest, -, -, hcontiguous⟩ :=
    htells (cons_ne_nil _ _)
  have hrow' : ((afterThree 1 1 3).sequenceRow sessionKey).map (·.contiguous) = some true := by
    decide +kernel
  rw [hrow, Option.map_some] at hrow'
  have hlow : low ≤ 1 := hleast.2 (by simp)
  have hhigh : 3 ≤ high := hgreatest.2 (by simp)
  have htwo := hcontiguous.1 (Option.some.inj hrow') 2 (by omega) (by omega)
  simp at htwo

end SequencedStore

end OnoSendai.Temporal
