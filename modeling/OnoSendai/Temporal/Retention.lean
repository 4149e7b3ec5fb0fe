import OnoSendai.Temporal.Store

/-!
# Retention and what may still be concluded

A sweep removes events by their instant and coverage by where it ends, and leaves an interval in
which nothing was available. Where an event was removed, the coverage that remains should no longer
prove that nothing happened.
-/

namespace OnoSendai.Temporal

open CoverageSummary LedgerStore Option
open List hiding all contains

/-! ### Sweeps -/

/-- A sweep: the time it is told, and the sizes it measures. -/
structure Sweep where
  now : Int
  measured : Nat → Nat

namespace LedgerStore

/-- The store after a sweep. -/
def after (store : LedgerStore) (sweep : Sweep) : LedgerStore :=
  (store.sweep sweep.now sweep.measured).1

/-- The rows that are gone after a sweep. -/
def removedBy (store : LedgerStore) (sweep : Sweep) : List EventRow :=
  store.events.filter fun row => !(store.after sweep).events.any (·.eventId = row.eventId)

end LedgerStore

/-- A store, and the rows its sweeps removed. -/
structure Retained where
  store : LedgerStore
  lost : List EventRow

namespace Retained

/-- One more sweep. -/
def sweep (retained : Retained) (sweep : Sweep) : Retained where
  store := retained.store.after sweep
  lost := retained.lost ++ retained.store.removedBy sweep

/-- A store after a sequence of sweeps. -/
def run (store : LedgerStore) (sweeps : List Sweep) : Retained :=
  sweeps.foldl sweep ⟨store, []⟩

end Retained

/-! ### What a store should not prove -/

namespace LedgerStore

/-- Whatever is asked of the coverage of a scope an event row is in, composing it over a window with
the instant of the event is not complete for any capability, so that nothing is proved absent. -/
def Admits (store : LedgerStore) (row : EventRow) : Prop :=
  ∀ scope query intervals window capability, inScope scope row.scopePath = true →
    query.scope = some scope → store.coverageOf query = some intervals →
    (compose intervals window).window.contains row.presentationNanos = true →
    (compose intervals window).completenessOf capability ≠ some .complete ∧
      (compose intervals window).canProveAbsence capability = false

/-- An interval ends before what a sweep keeps: before every event that is left or, where none is
left, before the horizon of an age bound. -/
def Expires (store : LedgerStore) (sweep : Sweep) (interval : CoverageRow) : Prop :=
  (∀ kept ∈ (store.after sweep).events, interval.until' < kept.presentationNanos) ∧
    ((store.after sweep).events = [] → store.retention.maxAge.isSome ∧
      interval.until' < horizonAt store.retention sweep.now)

/-- A sweep clears the coverage of what it removes: every complete interval of a scope that reaches
over an event the sweep removes from the scope ends before what the sweep keeps. -/
def Clears (store : LedgerStore) (sweep : Sweep) : Prop :=
  ∀ row ∈ store.removedBy sweep, ∀ scope, inScope scope row.scopePath = true →
    ∀ interval ∈ store.coverage, (readCoverage interval).isSome →
      interval.completeness = .complete → inScope scope interval.scopePath = true →
      interval.from' ≤ row.presentationNanos → row.presentationNanos ≤ interval.until' →
      store.Expires sweep interval

/-! ### What an admission comes to -/

/-- No complete interval of a scope with the row reaches over its instant. -/
def Uncovered (store : LedgerStore) (row : EventRow) : Prop :=
  ∀ scope, inScope scope row.scopePath = true → ∀ interval ∈ store.coverage,
    (readCoverage interval).isSome → interval.completeness = .complete →
    inScope scope interval.scopePath = true →
    ¬ (interval.from' ≤ row.presentationNanos ∧ row.presentationNanos ≤ interval.until')

section Admits

variable {store : LedgerStore} {row : EventRow}

variable {interval : TemporalCoverage}

theorem mem_coverageOf {query : CoverageQuery} {intervals : List TemporalCoverage}
    (h : store.coverageOf query = some intervals) (hmem : interval ∈ intervals) :
    ∃ stored ∈ store.coverage, readCoverage stored = some interval ∧
      ∀ scope, query.scope = some scope → inScope scope stored.scopePath = true := by
  obtain ⟨select, hselect, rfl⟩ := map_eq_some_iff.1 h
  obtain ⟨stored, hstored, hread⟩ := mem_filterMap.1 hmem
  obtain ⟨hstored, hmatch⟩ := mem_filter.1 ((mem_insertionSort _).1 hstored)
  refine ⟨stored, hstored, hread, fun scope hscope => ?_⟩
  simp only [coverageSelection, bind_eq_bind, bind_eq_some_iff,
    some.injEq] at hselect
  obtain ⟨start, -, finish, -, rfl⟩ := hselect
  simp only [hscope, all_some, Bool.and_eq_true] at hmatch
  exact hmatch.1.1.1

/-- The whole coverage of a scope. -/
def wholeScope (scope : SpatialScope) : CoverageQuery where
  scope := some scope
  capabilities := []
  range := .all

theorem exists_coverageOf_wholeScope (store : LedgerStore) (scope : SpatialScope) :
    ∃ intervals, store.coverageOf (wholeScope scope) = some intervals ∧
      ∀ stored ∈ store.coverage, inScope scope stored.scopePath = true →
        ∀ interval, readCoverage stored = some interval → interval ∈ intervals := by
  refine ⟨_, rfl, fun stored hstored hscope interval hread => ?_⟩
  refine mem_filterMap.2 ⟨stored, (mem_insertionSort _).2 ?_, hread⟩
  exact mem_filter.2 ⟨hstored, by simp [wholeScope, TimeRange.all, hscope]⟩

theorem readCoverage_eq_some {stored : CoverageRow} (h : readCoverage stored = some interval) :
    interval.completeness = stored.completeness ∧ interval.from' = stored.from' ∧
      interval.until' = stored.until' := by
  obtain ⟨scope, -, rfl⟩ := map_eq_some_iff.1 h
  exact ⟨rfl, rfl, rfl⟩

/-- **Admitting a loss** is having no complete interval over it. -/
theorem admits_iff_uncovered : store.Admits row ↔ store.Uncovered row := by
  constructor
  · intro hadmits scope hscope stored hstored hreads hcomplete hin hcovers
    obtain ⟨interval, hread⟩ := Option.isSome_iff_exists.1 hreads
    obtain ⟨intervals, hintervals, hall⟩ := store.exists_coverageOf_wholeScope scope
    obtain ⟨hsame, hfrom, huntil⟩ := readCoverage_eq_some hread
    -- over the window that is the instant, one complete interval is enough
    have hproof := completenessOf_of_complete (t := row.presentationNanos)
      (hall stored hstored hin interval hread) (hsame.trans hcomplete) (by omega) (by omega)
    refine (hadmits scope (wholeScope scope) intervals
      (.between row.presentationNanos row.presentationNanos) interval.capability hscope rfl
      hintervals ?_).1 hproof
    simp [CoverageSummary.compose, effectiveWindow, TimeRange.between, TimeRange.contains]
  · intro huncovered scope query intervals window capability hscope hquery hintervals hwindow
    have hnot : (CoverageSummary.compose intervals window).completenessOf capability ≠
        some .complete := by
      intro hcomplete
      cases heffective : effectiveWindow intervals window with
      | none =>
        rw [compose, heffective] at hcomplete
        cases hcomplete
      | some ends =>
        obtain ⟨start, finish⟩ := ends
        rw [compose, heffective] at hwindow
        have hbounds : start ≤ row.presentationNanos ∧ row.presentationNanos ≤ finish := by
          simp only [TimeRange.between, TimeRange.contains, Bool.and_eq_true,
            decide_eq_true_eq] at hwindow
          split_ifs at hwindow with hpoint
          · simp only [decide_eq_true_eq] at hwindow
            omega
          · simp only [decide_eq_true_eq] at hwindow
            omega
        obtain ⟨interval, hmem, -, hstate, hfrom, huntil⟩ :=
          exists_complete_of_completenessOf hcomplete heffective hbounds.1 hbounds.2
        obtain ⟨stored, hstored, hread, hin⟩ := mem_coverageOf hintervals hmem
        obtain ⟨hsame, hfromEq, huntilEq⟩ := readCoverage_eq_some hread
        exact huncovered scope hscope stored hstored (by simp [hread]) (hsame.symm.trans hstate)
          (hin scope hquery) ⟨by omega, by omega⟩
    exact ⟨hnot, by simp [canProveAbsence, hnot]⟩

end Admits

/-! ### What a sweep does to complete coverage -/

section Sweeping

variable {store : LedgerStore} {interval : CoverageRow}

theorem mem_replaceInterval_of_complete {rows : List CoverageRow} {row : CoverageRow}
    (hcomplete : interval.completeness = .complete) (hrow : row.completeness = .unavailable) :
    interval ∈ replaceInterval rows row ↔ interval ∈ rows := by
  have hne : interval ≠ row := by
    rintro rfl
    rw [hcomplete] at hrow
    cases hrow
  simp [replaceInterval, hne, hcomplete, hrow]

theorem mem_expireCoverage_of_complete {boundary : Int} {rows : List CoverageRow}
    (hcomplete : interval.completeness = .complete) :
    interval ∈ expireCoverage boundary rows ↔ interval ∈ rows ∧ ¬ interval.until' < boundary := by
  have hfold : ∀ (paths : List String) (expired kept : List CoverageRow),
      interval ∈ paths.foldl (fun rows path =>
        replaceInterval rows (retentionRow expired boundary path)) kept ↔ interval ∈ kept := by
    intro paths expired kept
    induction paths generalizing kept with
    | nil => rfl
    | cons path paths ih =>
      rw [foldl_cons, ih, mem_replaceInterval_of_complete hcomplete rfl]
  rw [expireCoverage, hfold, mem_filter]
  simp

theorem rounds_kept_of_removed_eq_nil {horizon : Int} {overSize : Nat → Bool}
    {budget measurements : Nat} {events : List EventRow}
    (h : (rounds horizon overSize budget measurements events).removed = []) :
    (rounds horizon overSize budget measurements events).kept = events := by
  unfold rounds at h ⊢
  by_cases hbudget : budget = 0
  · rw [if_pos hbudget]
  · rw [if_neg hbudget] at h ⊢
    dsimp only at h ⊢
    split_ifs at h ⊢ with hgone
    · rfl
    · exact absurd (by rw [(append_eq_nil_iff.1 h).1]; rfl) hgone

theorem after_of_unbounded (h : store.retention.isBounded = false) (sweep : Sweep) :
    store.after sweep = store := by
  rw [after, LedgerStore.sweep, if_pos (by simp [h])]

theorem after_events (h : store.retention.isBounded = true) (sweep : Sweep) :
    (store.after sweep).events = (store.swept sweep.now sweep.measured).kept := by
  rw [after, LedgerStore.sweep, if_neg (by simp [h])]

theorem after_coverage (h : store.retention.isBounded = true) (sweep : Sweep) :
    (store.after sweep).coverage = (store.boundaryAt sweep.now sweep.measured).elim store.coverage
      fun boundary => expireCoverage boundary store.coverage := by
  have hbounded : ¬ (!store.retention.isBounded) = true := by simp [h]
  simp only [after, LedgerStore.sweep, if_neg hbounded]
  cases store.boundaryAt sweep.now sweep.measured <;> rfl

/-- Where a sweep removed something, the boundary is what an interval has to end before. -/
theorem exists_boundary_iff_expires {sweep : Sweep} (hbounded : store.retention.isBounded = true)
    (hremoved : store.removedBy sweep ≠ []) :
    (∃ boundary, store.boundaryAt sweep.now sweep.measured = some boundary ∧
      interval.until' < boundary) ↔ store.Expires sweep interval := by
  have hkept := after_events hbounded sweep
  have hsome : (store.swept sweep.now sweep.measured).removed.length > 0 := by
    refine length_pos_iff.2 fun hnil => hremoved ?_
    rw [swept] at hnil
    have hall := rounds_kept_of_removed_eq_nil hnil
    rw [← swept, ← hkept] at hall
    rw [removedBy, hall, filter_eq_nil_iff]
    intro row hrow
    simpa using ⟨row, hrow, rfl⟩
  rw [Expires, hkept, boundaryAt]
  cases hmin : ((store.swept sweep.now sweep.measured).kept.map (·.presentationNanos)).min? with
  | none =>
    have hnil : (store.swept sweep.now sweep.measured).kept = [] := by
      simpa using min?_eq_none_iff.1 hmin
    simp [hnil, hsome]
  | some least =>
    obtain ⟨hmem, hleast⟩ := min?_eq_some_iff.1 hmin
    obtain ⟨first, hfirst, hinstant⟩ := mem_map.1 hmem
    have hne : (store.swept sweep.now sweep.measured).kept ≠ [] := ne_nil_of_mem hfirst
    constructor
    · rintro ⟨boundary, hboundary, hlt⟩
      obtain rfl : least = boundary := some.inj hboundary
      refine ⟨fun kept hkept => ?_, fun hnil => absurd hnil hne⟩
      have := hleast _ (mem_map.2 ⟨kept, hkept, rfl⟩)
      omega
    · intro hexpires
      have := hexpires.1 first hfirst
      exact ⟨least, rfl, by omega⟩

theorem mem_coverage_of_mem_after {sweep : Sweep} (hcomplete : interval.completeness = .complete)
    (h : interval ∈ (store.after sweep).coverage) : interval ∈ store.coverage := by
  by_cases hbounded : store.retention.isBounded = true
  · rw [after_coverage hbounded] at h
    cases hboundary : store.boundaryAt sweep.now sweep.measured with
    | none =>
      rw [hboundary] at h
      exact h
    | some boundary =>
      rw [hboundary] at h
      exact ((mem_expireCoverage_of_complete hcomplete).1 h).1
  · rwa [after_of_unbounded (eq_false_of_ne_true hbounded)] at h

/-- Where a sweep removed something, the complete intervals it leaves are those that do not
expire. -/
theorem mem_after_coverage_iff {sweep : Sweep} (hremoved : store.removedBy sweep ≠ [])
    (hcomplete : interval.completeness = .complete) (hmem : interval ∈ store.coverage) :
    interval ∈ (store.after sweep).coverage ↔ ¬ store.Expires sweep interval := by
  have hbounded : store.retention.isBounded = true := by
    by_contra hunbounded
    refine hremoved ?_
    rw [removedBy, after_of_unbounded (eq_false_of_ne_true hunbounded), filter_eq_nil_iff]
    intro row hrow
    simpa using ⟨row, hrow, rfl⟩
  rw [after_coverage hbounded, ← exists_boundary_iff_expires hbounded hremoved]
  cases store.boundaryAt sweep.now sweep.measured with
  | none => simpa using hmem
  | some boundary =>
    rw [elim_some, mem_expireCoverage_of_complete hcomplete]
    simp [hmem]

theorem Admits.after {row : EventRow} (h : store.Admits row) (sweep : Sweep) :
    (store.after sweep).Admits row := by
  rw [admits_iff_uncovered] at h ⊢
  intro scope hscope interval hmem hreads hcomplete
  exact h scope hscope interval (mem_coverage_of_mem_after hcomplete hmem) hreads hcomplete

/-- **One sweep** admits what it removes exactly when it clears the coverage of it. -/
theorem admits_removedBy_iff (store : LedgerStore) (sweep : Sweep) :
    (∀ row ∈ store.removedBy sweep, (store.after sweep).Admits row) ↔ store.Clears sweep := by
  constructor
  · intro hadmits row hrow scope hscope interval hmem hreads hcomplete hin hfrom huntil
    by_contra hnot
    have hstays := (mem_after_coverage_iff (ne_nil_of_mem hrow) hcomplete hmem).2 hnot
    exact admits_iff_uncovered.1 (hadmits row hrow) scope hscope interval hstays hreads hcomplete
      hin ⟨hfrom, huntil⟩
  · intro hclears row hrow
    rw [admits_iff_uncovered]
    intro scope hscope interval hmem hreads hcomplete hin hcovers
    have hbefore := mem_coverage_of_mem_after hcomplete hmem
    exact (mem_after_coverage_iff (ne_nil_of_mem hrow) hcomplete hbefore).1 hmem
      (hclears row hrow scope hscope interval hbefore hreads hcomplete hin hcovers.1 hcovers.2)

end Sweeping

end LedgerStore

/-! ### Every sequence of sweeps -/

namespace Retained

theorem run_concat (store : LedgerStore) (sweeps : List Sweep) (last : Sweep) :
    run store (sweeps ++ [last]) = (run store sweeps).sweep last := by
  rw [run, foldl_append]
  rfl

/-- **Deleted history proves nothing absent.** Whatever the store, its policy and the sequence of
sweeps, after every sweep no composition of the coverage that remains is complete over an event that
was removed, exactly when every sweep clears the coverage of what it removes. -/
theorem admits_iff_clears (store : LedgerStore) (sweeps : List Sweep) :
    (∀ done, done <+: sweeps → ∀ row ∈ (run store done).lost, (run store done).store.Admits row) ↔
      ∀ done sweep, done ++ [sweep] <+: sweeps → (run store done).store.Clears sweep := by
  induction sweeps using reverseRecOn with
  | nil =>
    refine ⟨fun _ done sweep hprefix => ?_, fun _ done hprefix => ?_⟩
    · simp at hprefix
    · rw [prefix_nil.1 hprefix]
      simp [run]
  | append_singleton sweeps last ih =>
    have hlast : (run store (sweeps ++ [last])).store = (run store sweeps).store.after last := by
      rw [run_concat]
      rfl
    have hlost : (run store (sweeps ++ [last])).lost =
        (run store sweeps).lost ++ (run store sweeps).store.removedBy last := by
      rw [run_concat]
      rfl
    constructor
    · intro hadmits done sweep hprefix
      rcases prefix_concat_iff.1 hprefix with heq | hprefix
      · obtain ⟨rfl, hsweep⟩ := append_inj' heq rfl
        obtain rfl := singleton_inj.1 hsweep
        refine ((run store done).store.admits_removedBy_iff sweep).1 fun row hrow => ?_
        rw [← hlast]
        exact hadmits _ prefix_rfl row (hlost ▸ mem_append_right _ hrow)
      · exact ih.1 (fun done hdone => hadmits done (prefix_concat_iff.2 (.inr hdone))) done
          sweep hprefix
    · intro hclears done hprefix row hrow
      have hbefore := ih.2 fun done sweep hdone =>
        hclears done sweep (prefix_concat_iff.2 (.inr hdone))
      rcases prefix_concat_iff.1 hprefix with rfl | hprefix
      · rw [hlost] at hrow
        rw [hlast]
        rcases mem_append.1 hrow with hold | hnew
        · exact (hbefore sweeps prefix_rfl row hold).after last
        · exact ((run store sweeps).store.admits_removedBy_iff last).2
            (hclears sweeps last prefix_rfl) row hnew
      · exact hbefore done hprefix row hrow

/-- The row of an event in one place. -/
def rowAt (id : EventId) (instant : Int) : EventRow where
  eventId := id.text
  kind := Vocabulary.asStr EventKind.objectObserved
  scopePath := scopePath fallbackScope
  presentationNanos := instant
  subjects := []
  event := History.eventAt id instant

/-- A complete interval of the same place. -/
def completeRow (start finish : Int) : CoverageRow where
  scopePath := scopePath fallbackScope
  capability := "process.existence"
  from' := start
  until' := finish
  completeness := .complete
  samplingInterval := none
  source := .recorder
  permission := .available

/-- Two events under one complete interval, the first of them older than the policy keeps. -/
def straddled : LedgerStore where
  retention := { maxAge := some 5, maxSize := none, batch := 2048 }
  events := [rowAt ⟨"e1", Eq.refl true⟩ 10, rowAt ⟨"e2", Eq.refl true⟩ 20]
  evidence := []
  links := []
  coverage := [completeRow 0 30]
  actions := []
  checkpoints := []

theorem straddled_kept :
    (straddled.after ⟨20, fun _ => 0⟩).events = [rowAt ⟨"e2", by decide⟩ 20] := by
  have hhorizon : horizonAt straddled.retention 20 = 15 := by decide +kernel
  rw [after_events rfl, swept, hhorizon]
  -- the first round removes the first event, the second finds nothing
  rw [rounds, if_neg (by decide)]
  have hfirst : oldestEvents 15 (isOverSize straddled.retention 0)
      (min straddled.retention.batch 256) straddled.events = [rowAt ⟨"e1", by decide⟩ 10] := rfl
  have hrest : without [rowAt ⟨"e1", by decide⟩ 10] straddled.events =
      [rowAt ⟨"e2", by decide⟩ 20] := rfl
  simp only [hfirst, hrest, length_singleton]
  rw [if_neg (by decide), rounds, if_neg (by decide)]
  rfl

/-- A sweep leaves a complete interval that reaches from before its boundary to after it. -/
theorem not_admits_straddled :
    ¬ ∀ store sweeps done, done <+: sweeps → ∀ row ∈ (run store done).lost,
      (run store done).store.Admits row := by
  intro hadmits
  have hrow : rowAt ⟨"e1", by decide⟩ 10 ∈ straddled.removedBy ⟨20, fun _ => 0⟩ := by
    rw [removedBy, straddled_kept]
    simp [straddled, rowAt]
  have hall := (straddled.admits_removedBy_iff ⟨20, fun _ => 0⟩).1 fun row hrow =>
    hadmits straddled [⟨20, fun _ => 0⟩] _ prefix_rfl row
      (mem_append_right _ hrow)
  have hread : readCoverage (completeRow 0 30) = some _ :=
    congrArg (Option.map _) (congrArg Except.toOption (readScopePath_scopePath (by decide +kernel)))
  have hscope : inScope fallbackScope (scopePath fallbackScope) = true := by
    have hself : fallbackScope.contains fallbackScope = true := by decide +kernel
    simpa [inScope] using (contains_iff_scopePath_range (by decide +kernel) (by decide +kernel)).1 hself
  have hexpires := (hall _ hrow fallbackScope hscope (completeRow 0 30) (by simp [straddled])
    (by simp [hread]) rfl hscope (by decide +kernel) (by decide +kernel)).1
  rw [straddled_kept] at hexpires
  have hlt := hexpires _ mem_cons_self
  exact absurd hlt (by decide +kernel)

end Retained

end OnoSendai.Temporal
