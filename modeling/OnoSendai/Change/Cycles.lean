import Mathlib.Data.Prod.Lex
import OnoSendai.Change.Order
import OnoSendai.Lib.ClosedChain

/-!
# What the topological order leaves over

The sort takes the least ready action as long as one is ready. It therefore orders exactly the
actions that lie behind no dependency cycle, and it orders all of them exactly when there is no
cycle. What it leaves over is reported as the identities that form a cycle, but it is more: every
action that depends on a cycle is left over with it. This module proves the order correct, and the
report exact for the plans in which nothing outside a cycle depends on one.
-/

namespace OnoSendai

open List

/-! ### Dependencies among the listed actions -/

section Graph

variable {actions : List PlanAction} {source target : Nat}

/-- The action at one position of a list is a dependency of the action at another. -/
def Precedes (actions : List PlanAction) (source target : Nat) : Prop :=
  ∃ earlier later, actions[source]? = some earlier ∧ actions[target]? = some later ∧
    earlier.id ∈ later.dependsOn

/-- An action depends on itself, directly or through others. -/
def OnCycle (actions : List PlanAction) (position : Nat) : Prop :=
  Relation.TransGen (Precedes actions) position position

theorem position_unique (hdistinct : (actions.map (·.id)).Nodup) {i j : Nat} {a b : PlanAction}
    (ha : actions[i]? = some a) (hb : actions[j]? = some b) (hid : a.id = b.id) : i = j := by
  have hi := List.getElem?_eq_some_iff.1 ha
  have hj := List.getElem?_eq_some_iff.1 hb
  have hinjective := List.nodup_iff_injective_getElem.1 hdistinct
  exact congrArg Fin.val (@hinjective ⟨i, by simpa using hi.1⟩ ⟨j, by simpa using hj.1⟩
    (by simp [hi.2, hj.2, hid]))

/-- The edges of the sort are the dependencies among the listed actions. -/
theorem precedes_iff (hdistinct : (actions.map (·.id)).Nodup) :
    Precedes actions source target ↔ (source, target) ∈ dependencyEdges actions := by
  rw [mem_dependencyEdges]
  constructor
  · rintro ⟨earlier, later, hearlier, hlater, hmem⟩
    refine ⟨later, earlier.id, hlater, hmem, ?_⟩
    obtain ⟨hlt, rfl⟩ := List.getElem?_eq_some_iff.1 hearlier
    refine List.findIdx?_eq_some_iff_getElem.2 ⟨hlt, decide_eq_true rfl, fun j hj hsame => ?_⟩
    have heq := position_unique hdistinct (List.getElem?_eq_getElem (hj.trans hlt))
      (List.getElem?_eq_getElem hlt) (of_decide_eq_true hsame)
    omega
  · rintro ⟨later, dependency, hlater, hmem, hfound⟩
    obtain ⟨hlt, hid, -⟩ := findIdx?_eq_some_iff_getElem.1 hfound
    refine ⟨actions[source], later, getElem?_eq_getElem hlt, hlater, ?_⟩
    rwa [of_decide_eq_true hid]

theorem Precedes.target_lt (h : Precedes actions source target) : target < actions.length := by
  obtain ⟨-, later, -, hlater, -⟩ := h
  exact (List.getElem?_eq_some_iff.1 hlater).1

theorem Precedes.source_lt (h : Precedes actions source target) : source < actions.length := by
  obtain ⟨earlier, -, hearlier, -⟩ := h
  exact (List.getElem?_eq_some_iff.1 hearlier).1

end Graph

/-! ### The choice at each step -/

section Choice

variable {actions : List PlanAction} {before : List Nat} {next : Nat}

/-- An action that is not ordered yet and whose listed dependencies all are. -/
def IsReady (actions : List PlanAction) (before : List Nat) (next : Nat) : Prop :=
  next < actions.length ∧ next ∉ before ∧ ∀ source, Precedes actions source next → source ∈ before

/-- A ready action of the least role rank and, among those, of the least ordinal. -/
def IsLeastReady (actions : List PlanAction) (before : List Nat) (next : Nat) : Prop :=
  IsReady actions before next ∧ ∀ other, IsReady actions before other →
    toLex (frontierKey actions next) ≤ toLex (frontierKey actions other)

/-- Every position of an order is the least one ready after those before it. -/
def TakesLeast (actions : List PlanAction) (order : List Nat) : Prop :=
  ∀ before next after, order = before ++ next :: after → IsLeastReady actions before next

/-- A sorted frontier is sorted by the keys. -/
theorem pairwise_sortFrontier (actions : List PlanAction) (ready : List Nat) :
    (sortFrontier actions ready).Pairwise fun i j =>
      toLex (frontierKey actions i) ≤ toLex (frontierKey actions j) := by
  have hsame : sortFrontier actions ready = ready.insertionSort fun i j =>
      toLex (frontierKey actions i) ≤ toLex (frontierKey actions j) := by
    unfold sortFrontier
    congr 1
    funext i j
    rw [Prod.Lex.toLex_le_toLex]
  have : Std.Total fun i j => toLex (frontierKey actions i) ≤ toLex (frontierKey actions j) :=
    ⟨fun i j => le_total _ _⟩
  have : IsTrans Nat fun i j => toLex (frontierKey actions i) ≤ toLex (frontierKey actions j) :=
    ⟨fun _ _ _ => le_trans⟩
  rw [hsame]
  exact pairwise_insertionSort _ _

end Choice

/-! ### Nothing ready is missing from the frontier -/

section Loop

variable {edges : List (Nat × Nat)} {count : Nat} {ready order : List Nat}
  {indegree : Nat → Nat}

/-- The second invariant of the main loop: whatever has all its dependencies in the order is in
the order or on the frontier. -/
def FullFrontier (edges : List (Nat × Nat)) (count : Nat) (ready order : List Nat) : Prop :=
  ∀ i < count, (∀ source, (source, i) ∈ edges → source ∈ order) → i ∈ ready ++ order

/-- One round of the main loop keeps the frontier full. -/
theorem FullFrontier.step (actions : List PlanAction) {next : Nat}
    (hsound : SoundFrontier edges count (next :: ready) indegree order)
    (h : FullFrontier edges count (next :: ready) order) :
    FullFrontier edges count
      (sortFrontier actions
        (releaseEdges ((edges.filter (·.1 = next)).map (·.2)) indegree ready).2)
      (order ++ [next]) := by
  have hnext : next ∉ order := fun hmem =>
    (nodup_append.1 hsound.nodup).2.2 next mem_cons_self next hmem rfl
  have hsplit := fun i => countP_unordered edges next i hnext
  obtain ⟨-, added, hready, -, hadded⟩ := releaseEdges_spec
    ((edges.filter (·.1 = next)).map (·.2)) indegree ready (fun i => by
      rw [count_released, hsound.indegree_eq, hsplit i]
      exact Nat.le_add_right _ _)
  have hperm : (sortFrontier actions (ready ++ added)).Perm (ready ++ added) :=
    perm_insertionSort _ _
  rw [hready]
  intro i hi hsources
  by_cases hbefore : ∀ source, (source, i) ∈ edges → source ∈ order
  · have hold := h i hi hbefore
    simp only [mem_append, mem_cons, hperm.mem_iff] at hold ⊢
    tauto
  · -- The only dependency of `i` outside the order was `next`, so this round released `i`.
    push Not at hbefore
    obtain ⟨source, hedge, hsource⟩ := hbefore
    obtain rfl : source = next := by
      simpa [hsource] using hsources source hedge
    have hmem : i ∈ added := by
      refine (hadded i).2 ⟨mem_map.2 ⟨(source, i), mem_filter.2 ⟨hedge, by simp⟩, rfl⟩, ?_⟩
      have hnone : (edges.countP fun edge => edge.2 = i ∧ edge.1 ∉ order ++ [source]) = 0 := by
        refine countP_eq_zero.2 fun edge hmem hfree => ?_
        obtain ⟨rfl, hout⟩ := of_decide_eq_true hfree
        exact hout (hsources edge.1 hmem)
      rw [count_released, hsound.indegree_eq, hsplit i, hnone, Nat.add_zero]
    exact mem_append_left _ (hperm.mem_iff.2 (mem_append_right _ hmem))

variable {actions : List PlanAction}

/-- What a sorted frontier that is sound and full begins with is least among what is ready. -/
theorem FullFrontier.isLeastReady {next : Nat}
    (hedges : ∀ source target, Precedes actions source target ↔ (source, target) ∈ edges)
    (hsound : SoundFrontier edges actions.length (next :: ready) indegree order)
    (hfull : FullFrontier edges actions.length (next :: ready) order)
    (hsorted : (next :: ready).Pairwise fun i j =>
      toLex (frontierKey actions i) ≤ toLex (frontierKey actions j)) :
    IsLeastReady actions order next := by
  constructor
  · refine ⟨hsound.lt_count next (by simp), fun hmem => ?_, fun source hprecedes => ?_⟩
    · exact (nodup_append.1 hsound.nodup).2.2 next mem_cons_self next hmem rfl
    · exact hsound.sources_mem source next ((hedges source next).1 hprecedes) (by simp)
  · rintro other ⟨hlt, hnot, hsources⟩
    have hmem := hfull other hlt fun source hedge => hsources source ((hedges source other).2 hedge)
    rw [mem_append, or_iff_left hnot] at hmem
    rcases mem_cons.1 hmem with rfl | hrest
    · exact le_rfl
    · exact rel_of_pairwise_cons hsorted hrest

/-- **The main loop is greedy and leaves nothing ready behind.** What it adds to the order is at
each step least among what is ready, and when it ends everything whose dependencies are ordered is
ordered itself. -/
theorem drainFrontier_spec (fuel : Nat)
    (hedges : ∀ source target, Precedes actions source target ↔ (source, target) ∈ edges)
    (hsound : SoundFrontier edges actions.length ready indegree order)
    (hfull : FullFrontier edges actions.length ready order)
    (hsorted : ready.Pairwise fun i j =>
      toLex (frontierKey actions i) ≤ toLex (frontierKey actions j))
    (hfuel : actions.length ≤ fuel + order.length) :
    ∃ added, drainFrontier actions edges fuel ready indegree order = order ++ added ∧
      (∀ before next after, added = before ++ next :: after →
        IsLeastReady actions (order ++ before) next) ∧
      FullFrontier edges actions.length [] (order ++ added) := by
  induction fuel generalizing ready indegree order with
  | zero =>
    refine ⟨[], (append_nil _).symm, by simp, fun i hi _ => ?_⟩
    have hsub : order ⊆ range actions.length := fun j hj =>
      mem_range.2 (hsound.lt_count j (mem_append_right _ hj))
    have hperm := (subperm_of_subset (nodup_append.1 hsound.nodup).2.1
      hsub).perm_of_length_le (by simpa using hfuel)
    simpa using hperm.mem_iff.2 (mem_range.2 hi)
  | succ fuel ih =>
    cases ready with
    | nil => exact ⟨[], (append_nil _).symm, by simp, by simpa using hfull⟩
    | cons next ready =>
      have hbound : ∀ edge ∈ edges, edge.2 < actions.length := fun edge hedge =>
        ((hedges edge.1 edge.2).2 hedge).target_lt
      obtain ⟨added, hadded, hleast, hend⟩ := ih (hsound.step actions hbound)
        (hfull.step actions hsound) (pairwise_sortFrontier actions _)
        (by rw [length_append, length_singleton]; omega)
      refine ⟨next :: added, by rw [drainFrontier, hadded]; simp, ?_, by simpa using hend⟩
      intro before chosen after hsplit
      cases before with
      | nil =>
        obtain ⟨rfl, -⟩ := cons.inj hsplit
        simpa using hfull.isLeastReady hedges hsound hsorted
      | cons first before =>
        obtain ⟨rfl, hrest⟩ := cons.inj hsplit
        simpa using hleast before chosen after hrest

end Loop

/-! ### What is ordered -/

section Ordered

variable {actions : List PlanAction} {position : Nat}

/-- The positions the sort orders before its frontier runs empty. -/
def orderedPositions (actions : List PlanAction) : List Nat :=
  let edges := dependencyEdges actions
  let indegree := fun index => edges.countP (·.2 = index)
  let ready := (range actions.length).filter fun index => indegree index = 0
  drainFrontier actions edges actions.length (sortFrontier actions ready) indegree []

theorem topologicalOrder_eq (actions : List PlanAction) :
    topologicalOrder actions =
      if (orderedPositions actions).length = actions.length then
        .ok (orderedPositions actions)
      else
        .error ((actions.zipIdx.filter fun (_, index) =>
          index ∉ orderedPositions actions).map (·.1.id)) :=
  rfl

theorem sound_orderedPositions (actions : List PlanAction) :
    ∃ ready indegree, SoundFrontier (dependencyEdges actions) actions.length ready indegree
      (orderedPositions actions) :=
  drainFrontier_sound actions _ dependencyEdges_lt (soundFrontier_initial actions)

variable (hdistinct : (actions.map (·.id)).Nodup)

include hdistinct

theorem orderedPositions_spec :
    TakesLeast actions (orderedPositions actions) ∧
      ∀ i < actions.length, (∀ source, Precedes actions source i →
        source ∈ orderedPositions actions) → i ∈ orderedPositions actions := by
  have hfull : FullFrontier (dependencyEdges actions) actions.length
      (sortFrontier actions ((range actions.length).filter fun index =>
        (dependencyEdges actions).countP (·.2 = index) = 0)) [] := by
    intro i hi hsources
    rw [append_nil, sortFrontier, mem_insertionSort, mem_filter]
    refine ⟨mem_range.2 hi, decide_eq_true (countP_eq_zero.2 fun edge hedge htarget => ?_)⟩
    obtain rfl := of_decide_eq_true htarget
    exact not_mem_nil (hsources edge.1 hedge)
  obtain ⟨added, hadded, hleast, hend⟩ := drainFrontier_spec actions.length
    (fun source target => precedes_iff hdistinct) (soundFrontier_initial actions) hfull
    (pairwise_sortFrontier actions _) (by simp)
  have hordered : orderedPositions actions = added := hadded
  rw [hordered]
  refine ⟨fun before next after hsplit => by simpa using hleast before next after hsplit, ?_⟩
  intro i hi hsources
  simpa using hend i hi fun source hedge => by
    simpa using hsources source ((precedes_iff hdistinct).2 hedge)

theorem idxOf_lt_of_precedes {source target : Nat} (h : Precedes actions source target)
    (htarget : target ∈ orderedPositions actions) :
    (orderedPositions actions).idxOf source < (orderedPositions actions).idxOf target := by
  obtain ⟨ready, indegree, hsound⟩ := sound_orderedPositions actions
  exact hsound.idxOf_lt ((precedes_iff hdistinct).1 h) htarget

/-- **Exactly what lies behind no cycle is ordered.** -/
theorem mem_orderedPositions_iff (hlt : position < actions.length) :
    position ∈ orderedPositions actions ↔
      ∀ start, OnCycle actions start →
        ¬ Relation.ReflTransGen (Precedes actions) start position := by
  obtain ⟨ready, indegree, hsound⟩ := sound_orderedPositions actions
  have hback : ∀ {source target : Nat}, Relation.ReflTransGen (Precedes actions) source target →
      target ∈ orderedPositions actions → source ∈ orderedPositions actions := by
    intro source target hpath htarget
    induction hpath using Relation.ReflTransGen.head_induction_on with
    | refl => exact htarget
    | head hstep _ ih =>
      exact hsound.sources_mem _ _ ((precedes_iff hdistinct).1 hstep) (mem_append_right _ ih)
  constructor
  · intro hmem start hcycle hpath
    have hgrow : ∀ other, Relation.TransGen (Precedes actions) start other →
        other ∈ orderedPositions actions →
        (orderedPositions actions).idxOf start < (orderedPositions actions).idxOf other := by
      intro other hto hother
      induction hto with
      | single hstep => exact idxOf_lt_of_precedes hdistinct hstep hother
      | tail _ hstep ih =>
        exact (ih (hback (.single hstep) hother)).trans
          (idxOf_lt_of_precedes hdistinct hstep hother)
    exact lt_irrefl _ (hgrow start hcycle (hback hpath hmem))
  · intro hfree
    by_contra hnot
    have hclosed := (orderedPositions_spec hdistinct).2
    -- Everything left over has a dependency that is left over, so a cycle lies behind it.
    have hprevious : ∀ one ∈ (Finset.range actions.length).filter (· ∉ orderedPositions actions),
        ∃ source ∈ (Finset.range actions.length).filter (· ∉ orderedPositions actions),
          Precedes actions source one := by
      intro one hone
      obtain ⟨hone, hleft⟩ := Finset.mem_filter.1 hone
      by_contra hnone
      push Not at hnone
      refine hleft (hclosed one (Finset.mem_range.1 hone) fun source hprecedes => ?_)
      by_contra hsource
      exact hnone source (Finset.mem_filter.2
        ⟨Finset.mem_range.2 hprecedes.source_lt, hsource⟩) hprecedes
    obtain ⟨start, -, hcycle, hpath⟩ := Chained.exists_cycle_of_forall_exists hprevious
      (Finset.mem_filter.2 ⟨Finset.mem_range.2 hlt, hnot⟩)
    exact hfree start hcycle hpath

end Ordered

/-! ### The contract of the sort -/

section Contract

variable {actions : List PlanAction}

/-- The contract of the sort: it returns an order exactly when there is no cycle, an order holds
every position once, each after its dependencies and each the least one ready, and what it reports
instead are identities that form a cycle, in the order they were declared. -/
structure SortsCorrectly (actions : List PlanAction) : Prop where
  isOk_iff : (topologicalOrder actions).isOk ↔ ∀ position, ¬ OnCycle actions position
  perm : ∀ order, topologicalOrder actions = .ok order →
    order.Perm (range actions.length)
  follows : ∀ order, topologicalOrder actions = .ok order →
    ∀ source target, Precedes actions source target → order.idxOf source < order.idxOf target
  takesLeast : ∀ order, topologicalOrder actions = .ok order → TakesLeast actions order
  named_onCycle : ∀ named, topologicalOrder actions = .error named →
    ∀ position action, actions[position]? = some action → action.id ∈ named →
      OnCycle actions position
  named_sublist : ∀ named, topologicalOrder actions = .error named →
    named.Sublist (actions.map (·.id))

/-- What the sort reports is the identities of what it left over, in declaration order. -/
theorem topologicalOrder_eq_error {named : List ActionId}
    (h : topologicalOrder actions = .error named) :
    named.Sublist (actions.map (·.id)) ∧ ∀ id, id ∈ named ↔
      ∃ position action, actions[position]? = some action ∧ action.id = id ∧
        position ∉ orderedPositions actions := by
  rw [topologicalOrder_eq] at h
  split_ifs at h
  obtain rfl := Except.error.inj h
  constructor
  · have hsub := (filter_sublist (p := fun entry : PlanAction × Nat =>
      decide (entry.2 ∉ orderedPositions actions)) (l := actions.zipIdx)).map (·.1.id)
    have hall : actions.zipIdx.map (·.1.id) = (actions.zipIdx.map Prod.fst).map (·.id) := by
      rw [map_map]
      rfl
    rwa [hall, zipIdx_map_fst] at hsub
  · intro id
    simp only [mem_map, mem_filter, decide_eq_true_eq, Prod.exists,
      mem_zipIdx_iff_getElem?]
    constructor
    · rintro ⟨action, position, ⟨haction, hleft⟩, rfl⟩
      exact ⟨position, action, haction, rfl, hleft⟩
    · rintro ⟨position, action, haction, rfl, hleft⟩
      exact ⟨action, position, ⟨haction, hleft⟩, rfl⟩

/-- The sort returns an order exactly when it left nothing over. -/
theorem isOk_topologicalOrder_iff (actions : List PlanAction) :
    (topologicalOrder actions).isOk ↔
      ∀ position < actions.length, position ∈ orderedPositions actions := by
  obtain ⟨ready, indegree, hsound⟩ := sound_orderedPositions actions
  have hnodup := (nodup_append.1 hsound.nodup).2.1
  have hsub : orderedPositions actions ⊆ range actions.length := fun j hj =>
    mem_range.2 (hsound.lt_count j (mem_append_right _ hj))
  rw [topologicalOrder_eq]
  constructor
  · intro hok position hlt
    split_ifs at hok with hlength
    · have hperm := (subperm_of_subset hnodup hsub).perm_of_length_le (by simp [hlength])
      exact hperm.mem_iff.2 (mem_range.2 hlt)
    · simp [Except.isOk, Except.toBool] at hok
  · intro hall
    have hback : range actions.length ⊆ orderedPositions actions := fun j hj =>
      hall j (mem_range.1 hj)
    have hle := (subperm_of_subset hnodup hsub).length_le
    have hge := (subperm_of_subset nodup_range hback).length_le
    rw [length_range] at hle hge
    rw [if_pos (le_antisymm hle hge)]
    rfl

/-- **The contract of the sort is kept exactly where what depends on a cycle lies on one.** The
order is correct for every list of distinct actions; what the report may name beyond the cycles is
what depends on them. -/
theorem sortsCorrectly_iff (hdistinct : (actions.map (·.id)).Nodup) :
    SortsCorrectly actions ↔
      ∀ source target, OnCycle actions source → Precedes actions source target →
        OnCycle actions target := by
  have hok : (topologicalOrder actions).isOk ↔ ∀ position, ¬ OnCycle actions position := by
    rw [isOk_topologicalOrder_iff]
    constructor
    · intro hall position hcycle
      obtain ⟨next, hstep, -⟩ := Relation.TransGen.head'_iff.1 hcycle
      exact (mem_orderedPositions_iff hdistinct hstep.source_lt).1
        (hall position hstep.source_lt) position hcycle .refl
    · intro hacyclic position hlt
      exact (mem_orderedPositions_iff hdistinct hlt).2 fun start hcycle _ => hacyclic start hcycle
  constructor
  · intro hsorts source target hcycle hprecedes
    obtain ⟨-, later, -, hlater, -⟩ := id hprecedes
    cases hresult : topologicalOrder actions with
    | ok order => exact absurd hcycle (hok.1 (by rw [hresult]; rfl) source)
    | error named =>
      refine hsorts.named_onCycle named hresult target later hlater
        (((topologicalOrder_eq_error hresult).2 later.id).2 ⟨target, later, hlater, rfl, ?_⟩)
      exact fun hmem => (mem_orderedPositions_iff hdistinct hprecedes.target_lt).1 hmem source
        hcycle (.single hprecedes)
  · intro hclosed
    have hbehind : ∀ start target, OnCycle actions start →
        Relation.ReflTransGen (Precedes actions) start target → OnCycle actions target := by
      intro start target hcycle hpath
      induction hpath with
      | refl => exact hcycle
      | tail _ hstep ih => exact hclosed _ _ ih hstep
    have hordered : ∀ order, topologicalOrder actions = .ok order →
        order = orderedPositions actions ∧ order.length = actions.length := by
      intro order horder
      rw [topologicalOrder_eq] at horder
      split_ifs at horder with hlength
      obtain rfl := Except.ok.inj horder
      exact ⟨rfl, hlength⟩
    refine ⟨hok, fun order horder => ?_, fun order horder source target hprecedes => ?_,
      fun order horder => ?_, fun named hnamed position action haction hmem => ?_,
      fun named hnamed => (topologicalOrder_eq_error hnamed).1⟩
    · refine (perm_ext_iff_of_nodup (topologicalOrder_nodup horder)
        nodup_range).2 fun position => ?_
      rw [mem_topologicalOrder horder, mem_range]
    · exact idxOf_lt_of_mem_dependencyEdges horder ((precedes_iff hdistinct).1 hprecedes)
    · rw [(hordered order horder).1]
      exact (orderedPositions_spec hdistinct).1
    · obtain ⟨other, found, hfound, hid, hleft⟩ :=
        ((topologicalOrder_eq_error hnamed).2 action.id).1 hmem
      obtain rfl := position_unique hdistinct hfound haction hid
      have hlt := (List.getElem?_eq_some_iff.1 haction).1
      by_contra hfree
      refine hleft ((mem_orderedPositions_iff hdistinct hlt).2 fun start hcycle hpath => ?_)
      exact hfree (hbehind start other hcycle hpath)

end Contract

/-! ### An action behind a cycle -/

/-- An action of three that wait for each other. -/
def waiting (ordinal : Nat) (id : ActionId) (dependsOn : List ActionId) : PlanAction where
  id := id
  ordinal := ordinal
  role := .mutate
  summary := "restart"
  target := none
  execution := .program "/usr/bin/systemctl" ["restart"]
  dependsOn := dependsOn
  preconditions := []
  idempotency := .unknown
  effects := []
  recoverySemantics := none
  requiresPrivilege := false
  status := .pending

/-- Two actions that depend on each other, and a third that depends on one of them. -/
def behindCycle : List PlanAction :=
  let database : ActionId := ⟨"000000000000000a", by decide⟩
  let cache : ActionId := ⟨"000000000000000b", by decide⟩
  [waiting 1 database [cache], waiting 2 cache [database],
    waiting 3 ⟨"000000000000000c", by decide⟩ [cache]]

theorem not_sortsCorrectly_behindCycle :
    (behindCycle.map (·.id)).Nodup ∧ ¬ SortsCorrectly behindCycle := by
  refine ⟨by decide +kernel, fun h => ?_⟩
  have hcycle := h.named_onCycle (behindCycle.map (·.id)) (by decide +kernel) 2
    (waiting 3 ⟨"000000000000000c", by decide⟩ [⟨"000000000000000b", by decide⟩]) rfl
    (by decide +kernel)
  obtain ⟨next, ⟨earlier, later, hearlier, hlater, hmem⟩, -⟩ :=
    Relation.TransGen.head'_iff.1 hcycle
  obtain rfl := Option.some.inj hearlier
  have hnone : ∀ later ∈ behindCycle, (⟨"000000000000000c", by decide⟩ : ActionId) ∉
      later.dependsOn := by decide +kernel
  exact hnone later (mem_of_getElem? hlater) hmem

/-- Two actions, the second of which depends on the first. -/
def inARow : List PlanAction :=
  [waiting 1 ⟨"000000000000000a", by decide⟩ [],
    waiting 2 ⟨"000000000000000b", by decide⟩ [⟨"000000000000000a", by decide⟩]]

theorem sortsCorrectly_inARow : SortsCorrectly inARow := by
  refine (sortsCorrectly_iff (by decide +kernel)).2 fun source target hcycle _ => ?_
  refine absurd (?_ : source < source) (lt_irrefl source)
  have hedges : ∀ edge ∈ dependencyEdges inARow, edge.1 < edge.2 := by decide +kernel
  have hrises : ∀ {earlier later : Nat}, Precedes inARow earlier later → earlier < later :=
    fun h => hedges (_, _) ((precedes_iff (by decide +kernel)).1 h)
  have hpath : ∀ later, Relation.TransGen (Precedes inARow) source later → source < later := by
    intro later hpath
    induction hpath with
    | single hstep => exact hrises hstep
    | tail _ hstep ih => exact ih.trans (hrises hstep)
  exact hpath source hcycle

end OnoSendai
