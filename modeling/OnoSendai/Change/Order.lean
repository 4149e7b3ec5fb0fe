import Mathlib.Data.List.NodupEquivFin
import OnoSendai.Change.Action

/-!
# The topological order respects the dependencies

The topological sort of `OnoSendai.Change.Action` keeps a frontier of actions whose dependencies
have all been ordered, together with the number of unordered dependencies of every action. This
module proves that an order it returns contains every action once and every action after the
ones it depends on.
-/

namespace OnoSendai

open List Function

/-! ### Releasing edges -/

/-- The positions a batch of released edges adds to the frontier: each once, and exactly those
whose remaining edges the batch uses up. -/
theorem releaseEdges_spec (targets : List Nat) (indegree : Nat → Nat) (ready : List Nat)
    (hcount : ∀ i, targets.count i ≤ indegree i) :
    (∀ i, (releaseEdges targets indegree ready).1 i = indegree i - targets.count i) ∧
      ∃ added, (releaseEdges targets indegree ready).2 = ready ++ added ∧ added.Nodup ∧
        ∀ i, i ∈ added ↔ i ∈ targets ∧ indegree i = targets.count i := by
  induction targets generalizing indegree ready with
  | nil => simp [releaseEdges]
  | cons target targets ih =>
    have htarget : 0 < indegree target := by
      have := hcount target
      simp only [count_cons_self] at this
      omega
    have hcount' : ∀ i, targets.count i ≤
        update indegree target (indegree target - 1) i := by
      intro i
      have := hcount i
      rcases eq_or_ne i target with rfl | hne
      · simp only [count_cons_self] at this
        simp only [update_self]
        omega
      · rw [update_of_ne hne]
        rwa [count_cons_of_ne hne.symm] at this
    obtain ⟨hindegree, added, hready, hnodup, hmem⟩ := ih
      (update indegree target (indegree target - 1))
      (if indegree target - 1 = 0 then ready ++ [target] else ready) hcount'
    refine ⟨fun i => ?_, ?_⟩
    · rw [releaseEdges, hindegree]
      rcases eq_or_ne i target with rfl | hne
      · simp only [update_self, count_cons_self]
        omega
      · rw [update_of_ne hne, count_cons_of_ne hne.symm]
    · have hself : target ∈ added ↔ target ∈ targets ∧
          indegree target - 1 = targets.count target := by
        rw [hmem, update_self]
      have hother : ∀ i ≠ target, i ∈ added ↔ i ∈ targets ∧ indegree i = targets.count i := by
        intro i hne
        rw [hmem, update_of_ne hne]
      by_cases hlast : indegree target - 1 = 0
      · have habsent : target ∉ targets := by
          have := hcount target
          simp only [count_cons_self] at this
          exact count_eq_zero.1 (by omega)
        refine ⟨target :: added, ?_, ?_, fun i => ?_⟩
        · rw [releaseEdges, hready, if_pos hlast, append_assoc, singleton_append]
        · exact nodup_cons.2 ⟨fun h => habsent (hself.1 h).1, hnodup⟩
        · rcases eq_or_ne i target with rfl | hne
          · simp only [mem_cons, true_or, count_cons_self, true_and, true_iff,
              count_eq_zero.2 habsent]
            omega
          · simp only [mem_cons, hne, false_or, count_cons_of_ne hne.symm, hother i hne]
      · refine ⟨added, ?_, hnodup, fun i => ?_⟩
        · rw [releaseEdges, hready, if_neg hlast]
        · rcases eq_or_ne i target with rfl | hne
          · simp only [hself, mem_cons, true_or, count_cons_self, true_and]
            constructor
            · rintro ⟨-, h⟩
              omega
            · intro h
              have : 0 < targets.count i := by omega
              exact ⟨count_pos_iff.1 this, by omega⟩
          · simp only [mem_cons, hne, false_or, count_cons_of_ne hne.symm, hother i hne]

/-! ### The invariant of the main loop -/

variable {source target : Nat}

section Loop

variable {edges : List (Nat × Nat)} {count : Nat} {ready order : List Nat}
  {indegree : Nat → Nat}

/-- The invariant of the topological sort: the frontier and the order share nothing, the
indegrees count the edges from unordered positions, and whatever is on the frontier or in the
order has all its dependencies in the order. -/
structure SoundFrontier (edges : List (Nat × Nat)) (count : Nat) (ready : List Nat)
    (indegree : Nat → Nat) (order : List Nat) : Prop where
  nodup : (ready ++ order).Nodup
  lt_count : ∀ i ∈ ready ++ order, i < count
  indegree_eq : ∀ i, indegree i = edges.countP fun edge => edge.2 = i ∧ edge.1 ∉ order
  sources_mem : ∀ source target, (source, target) ∈ edges → target ∈ ready ++ order →
    source ∈ order
  pairwise : order.Pairwise fun earlier later => (later, earlier) ∉ edges
  irrefl : ∀ i ∈ order, (i, i) ∉ edges

theorem count_released (edges : List (Nat × Nat)) (next i : Nat) :
    ((edges.filter (·.1 = next)).map (·.2)).count i =
      edges.countP fun edge => edge.2 = i ∧ edge.1 = next := by
  rw [count_eq_countP, countP_map, countP_filter]
  refine countP_congr fun edge _ => ?_
  simp [comp]

theorem countP_unordered (edges : List (Nat × Nat)) (next i : Nat)
    (hnext : next ∉ order) :
    (edges.countP fun edge => edge.2 = i ∧ edge.1 ∉ order) =
      (edges.countP fun edge => edge.2 = i ∧ edge.1 = next) +
        edges.countP fun edge => edge.2 = i ∧ edge.1 ∉ order ++ [next] := by
  induction edges with
  | nil => rfl
  | cons edge edges ih =>
    simp only [countP_cons, ih]
    by_cases hi : edge.2 = i <;> by_cases hs : edge.1 = next <;> by_cases ho : edge.1 ∈ order <;>
      simp_all <;> omega

/-- One round of the main loop keeps the invariant. -/
theorem SoundFrontier.step (actions : List PlanAction) {next : Nat}
    (hedges : ∀ edge ∈ edges, edge.2 < count)
    (h : SoundFrontier edges count (next :: ready) indegree order) :
    SoundFrontier edges count
      (sortFrontier actions
        (releaseEdges ((edges.filter (·.1 = next)).map (·.2)) indegree ready).2)
      (releaseEdges ((edges.filter (·.1 = next)).map (·.2)) indegree ready).1
      (order ++ [next]) := by
  have hnext : next ∉ order := fun hmem =>
    (nodup_append.1 h.nodup).2.2 next mem_cons_self next hmem rfl
  have hsplit := fun i => countP_unordered edges next i hnext
  obtain ⟨hindegree, added, hready, hadded, hmem⟩ := releaseEdges_spec
    ((edges.filter (·.1 = next)).map (·.2)) indegree ready (fun i => by
      rw [count_released, h.indegree_eq, hsplit i]
      exact Nat.le_add_right _ _)
  have hperm : (sortFrontier actions (ready ++ added)).Perm (ready ++ added) :=
    perm_insertionSort _ _
  rw [hready]
  have hunordered : ∀ i, (releaseEdges ((edges.filter (·.1 = next)).map (·.2)) indegree ready).1 i =
      edges.countP fun edge => edge.2 = i ∧ edge.1 ∉ order ++ [next] := by
    intro i
    rw [hindegree, count_released, h.indegree_eq, hsplit i, Nat.add_sub_cancel_left]
  have hfrontier : ∀ i ∈ added, i ∉ next :: ready ++ order := by
    -- A released position still had an edge from `next`, so it was neither ready nor ordered.
    intro i hi hold
    obtain ⟨edge, hedge, rfl⟩ := mem_map.1 ((hmem i).1 hi).1
    obtain ⟨hedge, hsource⟩ := mem_filter.1 hedge
    exact hnext (of_decide_eq_true hsource ▸ h.sources_mem edge.1 edge.2 hedge hold)
  refine ⟨?_, fun i hi => ?_, hunordered, fun source target hedge htarget => ?_, ?_,
    fun i hi => ?_⟩
  · have hbase : (ready ++ (order ++ [next])).Nodup := by
      have := h.nodup
      simp only [cons_append, nodup_cons, mem_append, not_or, nodup_append,
        mem_singleton] at this ⊢
      grind
    refine (hperm.append_right _).nodup_iff.2 ?_
    rw [append_assoc, nodup_append] at *
    grind
  · rcases mem_append.1 hi with hnew | hold
    · rcases mem_append.1 (hperm.mem_iff.1 hnew) with hready' | hadded'
      · exact h.lt_count i (by simp [hready'])
      · obtain ⟨edge, hedge, rfl⟩ := mem_map.1 ((hmem i).1 hadded').1
        exact hedges edge (mem_filter.1 hedge).1
    · rcases mem_append.1 hold with hold | hnew
      · exact h.lt_count i (by simp [hold])
      · exact h.lt_count i (by simp [mem_singleton.1 hnew])
  · rcases mem_append.1 htarget with hnew | hold
    · rcases mem_append.1 (hperm.mem_iff.1 hnew) with hready' | hadded'
      · exact mem_append_left _ (h.sources_mem source target hedge (by simp [hready']))
      · have hzero := hunordered target
        rw [hindegree, ((hmem target).1 hadded').2, Nat.sub_self, eq_comm,
          countP_eq_zero] at hzero
        simpa [or_iff_not_imp_left] using hzero _ hedge
    · rcases mem_append.1 hold with hold | hold
      · exact mem_append_left _ (h.sources_mem source target hedge (by simp [hold]))
      · rw [mem_singleton.1 hold] at hedge
        exact mem_append_left _ (h.sources_mem source next hedge (by simp))
  · refine pairwise_append.2 ⟨h.pairwise, pairwise_singleton _ _, ?_⟩
    intro earlier hearlier later hlater hedge
    rw [mem_singleton.1 hlater] at hedge
    exact hnext (h.sources_mem next earlier hedge (by simp [hearlier]))
  · rcases mem_append.1 hi with hold | hnew
    · exact h.irrefl i hold
    · rw [mem_singleton.1 hnew]
      exact fun hedge => hnext (h.sources_mem next next hedge (by simp))

theorem drainFrontier_sound (actions : List PlanAction) (fuel : Nat)
    (hedges : ∀ edge ∈ edges, edge.2 < count)
    (h : SoundFrontier edges count ready indegree order) :
    ∃ ready' indegree', SoundFrontier edges count ready' indegree'
      (drainFrontier actions edges fuel ready indegree order) := by
  induction fuel generalizing ready indegree order with
  | zero => exact ⟨ready, indegree, h⟩
  | succ fuel ih =>
    cases ready with
    | nil => exact ⟨[], indegree, h⟩
    | cons next ready => exact ih (h.step actions hedges)

theorem SoundFrontier.idxOf_lt (h : SoundFrontier edges count ready indegree order)
    (hedge : (source, target) ∈ edges) (htarget : target ∈ order) :
    order.idxOf source < order.idxOf target := by
  have hsource : source ∈ order :=
    h.sources_mem source target hedge (mem_append_right _ htarget)
  rcases lt_trichotomy (order.idxOf source) (order.idxOf target) with hlt | heq | hgt
  · exact hlt
  · obtain rfl := (idxOf_inj hsource).1 heq
    exact absurd hedge (h.irrefl source hsource)
  · have hnot := pairwise_iff_getElem.1 h.pairwise _ _
      (idxOf_lt_length_of_mem htarget) (idxOf_lt_length_of_mem hsource) hgt
    simp only [getElem_idxOf] at hnot
    exact absurd hedge hnot

end Loop

/-! ### The order of an action list -/

section Result

variable {actions : List PlanAction} {order : List Nat}

theorem mem_dependencyEdges :
    (source, target) ∈ dependencyEdges actions ↔
      ∃ action dependency, actions[target]? = some action ∧ dependency ∈ action.dependsOn ∧
        actions.findIdx? (fun candidate => candidate.id = dependency) = some source := by
  simp only [dependencyEdges, mem_flatMap, mem_filterMap, Option.map_eq_some_iff,
    Prod.exists, Prod.mk.injEq, mem_zipIdx_iff_getElem?]
  constructor
  · rintro ⟨action, index, haction, dependency, hmem, found, hfound, rfl, rfl⟩
    exact ⟨action, dependency, haction, hmem, hfound⟩
  · rintro ⟨action, dependency, haction, hmem, hfound⟩
    exact ⟨action, target, haction, dependency, hmem, source, hfound, rfl, rfl⟩

theorem dependencyEdges_lt : ∀ edge ∈ dependencyEdges actions, edge.2 < actions.length := by
  rintro ⟨source, target⟩ hedge
  obtain ⟨action, -, haction, -⟩ := mem_dependencyEdges.1 hedge
  exact (List.getElem?_eq_some_iff.1 haction).1

/-- The frontier the sort begins with meets the invariant. -/
theorem soundFrontier_initial (actions : List PlanAction) :
    SoundFrontier (dependencyEdges actions) actions.length
      (sortFrontier actions ((range actions.length).filter fun index =>
        (dependencyEdges actions).countP (·.2 = index) = 0))
      (fun index => (dependencyEdges actions).countP (·.2 = index)) [] := by
  set edges := dependencyEdges actions
  have hperm : (sortFrontier actions ((range actions.length).filter fun index =>
      edges.countP (·.2 = index) = 0)).Perm ((range actions.length).filter fun index =>
      edges.countP (·.2 = index) = 0) := perm_insertionSort _ _
  refine ⟨?_, fun i hi => ?_, by simp, fun source target hedge htarget => ?_, by simp, by simp⟩
  · rw [append_nil, hperm.nodup_iff]
    exact nodup_range.filter _
  · rw [append_nil, hperm.mem_iff, mem_filter] at hi
    exact mem_range.1 hi.1
  · rw [append_nil, hperm.mem_iff, mem_filter, decide_eq_true_iff, countP_eq_zero] at htarget
    exact absurd (decide_eq_true rfl) (htarget.2 _ hedge)

private theorem sound_of_topologicalOrder (h : topologicalOrder actions = .ok order) :
    order.length = actions.length ∧ ∃ ready indegree,
      SoundFrontier (dependencyEdges actions) actions.length ready indegree order := by
  simp only [topologicalOrder] at h
  split_ifs at h with hlength
  obtain rfl := Except.ok.inj h
  exact ⟨hlength, drainFrontier_sound actions _ dependencyEdges_lt (soundFrontier_initial actions)⟩

/-- An order contains no position twice. -/
theorem topologicalOrder_nodup (h : topologicalOrder actions = .ok order) : order.Nodup := by
  obtain ⟨-, ready, indegree, hsound⟩ := sound_of_topologicalOrder h
  exact (nodup_append.1 hsound.nodup).2.1

/-- An order contains exactly the positions of the action list. -/
theorem mem_topologicalOrder (h : topologicalOrder actions = .ok order) (i : Nat) :
    i ∈ order ↔ i < actions.length := by
  obtain ⟨hlength, ready, indegree, hsound⟩ := sound_of_topologicalOrder h
  have hsub : order ⊆ range actions.length := fun j hj =>
    mem_range.2 (hsound.lt_count j (mem_append_right _ hj))
  have hperm : order.Perm (range actions.length) :=
    (subperm_of_subset (topologicalOrder_nodup h) hsub).perm_of_length_le (by simp [hlength])
  rw [hperm.mem_iff, mem_range]

/-- **Nothing is ordered before one of its dependencies.** -/
theorem topologicalOrder_pairwise (h : topologicalOrder actions = .ok order) :
    order.Pairwise fun earlier later => (later, earlier) ∉ dependencyEdges actions := by
  obtain ⟨-, ready, indegree, hsound⟩ := sound_of_topologicalOrder h
  exact hsound.pairwise

/-- No action of the list depends on itself, directly or through others. -/
def Acyclic (actions : List PlanAction) : Prop :=
  ∀ i, ¬ Relation.TransGen (fun source target => (source, target) ∈ dependencyEdges actions) i i

theorem idxOf_lt_of_mem_dependencyEdges (h : topologicalOrder actions = .ok order)
    (hedge : (source, target) ∈ dependencyEdges actions) :
    order.idxOf source < order.idxOf target := by
  obtain ⟨-, ready, indegree, hsound⟩ := sound_of_topologicalOrder h
  have htarget : target ∈ order :=
    (mem_topologicalOrder h target).2 (dependencyEdges_lt (source, target) hedge)
  exact hsound.idxOf_lt hedge htarget

/-- **An ordered action list is acyclic.** -/
theorem acyclic_of_topologicalOrder (h : topologicalOrder actions = .ok order) :
    Acyclic actions := by
  intro i hcycle
  have hgrow : ∀ j, Relation.TransGen
      (fun source target => (source, target) ∈ dependencyEdges actions) i j →
      order.idxOf i < order.idxOf j := by
    intro j hpath
    induction hpath with
    | single hedge => exact idxOf_lt_of_mem_dependencyEdges h hedge
    | tail _ hedge ih => exact ih.trans (idxOf_lt_of_mem_dependencyEdges h hedge)
  exact lt_irrefl _ (hgrow i hcycle)

end Result

end OnoSendai
