import Mathlib.Data.List.Dedup
import Mathlib.Data.List.Perm.Subperm
import OnoSendai.Impact.Risk

/-!
# Risk never falls

A plan that does more is never judged to be a lower risk. Nearly every rule asks whether something
is there at all: an action, an effect, an object that is changed, a group that is targeted. What is
there stays when more is added, so the rule keeps finding what it found, in the same class. The rule
about a single object falls silent when a second one is added, and there the rule about several
objects speaks up.
-/

namespace OnoSendai.Impact

open List Or RiskClass

/-! ### Plans that do more -/

/-- An action that declares more effects and is otherwise the same. -/
structure ActionGrows (action action' : PlanAction) : Prop where
  same : { action' with effects := action.effects } = action
  effects : action.effects ⊆ action'.effects

/-- The action with one more effect. -/
def effecting (action : PlanAction) (effect : ProposedEffect) : PlanAction :=
  { action with effects := action.effects ++ [effect] }

theorem ActionGrows.refl (action : PlanAction) : ActionGrows action action :=
  ⟨rfl, fun _ h => h⟩

theorem actionGrows_effecting (action : PlanAction) (effect : ProposedEffect) :
    ActionGrows action (effecting action effect) :=
  ⟨rfl, fun _ h => mem_append_left _ h⟩

/-- A plan that does more: every action is still there, and may declare more. -/
def PlanGrows (actions actions' : List PlanAction) : Prop :=
  ∀ action ∈ actions, ∃ action' ∈ actions', ActionGrows action action'

/-- The request with other actions. -/
def RiskRequest.over (request : RiskRequest) (actions : List PlanAction) : RiskRequest :=
  { request with actions := actions }

section Grows

variable {request : RiskRequest} {actions : List PlanAction}
  (h : PlanGrows request.actions actions)

include h

theorem PlanGrows.mutating_subset :
    request.mutating.filterMap (·.target) ⊆
      (request.over actions).mutating.filterMap (·.target) := by
  intro object hobject
  obtain ⟨action, haction, htarget⟩ := mem_filterMap.1 hobject
  obtain ⟨haction, hmutates⟩ := mem_filter.1 haction
  obtain ⟨action', haction', hgrows⟩ := h action haction
  rw [← hgrows.same] at hmutates htarget
  exact mem_filterMap.2 ⟨action', mem_filter.2 ⟨haction', hmutates⟩, htarget⟩

theorem PlanGrows.mem_effects {item : PlanAction × ProposedEffect}
    (hitem : item ∈ request.effects) :
    ∃ action', (action', item.2) ∈ (request.over actions).effects ∧ ActionGrows item.1 action' := by
  obtain ⟨action, haction, hmem⟩ := mem_flatMap.1 hitem
  obtain ⟨effect, heffect, rfl⟩ := mem_map.1 hmem
  obtain ⟨action', haction', hgrows⟩ := h action haction
  exact ⟨action', mem_flatMap.2
    ⟨action', haction', mem_map.2 ⟨effect, hgrows.effects heffect, rfl⟩⟩, hgrows⟩

theorem PlanGrows.any_effects {shows : ProposedEffect → Bool}
    (hany : request.effects.any (fun item => shows item.2) = true) :
    (request.over actions).effects.any (fun item => shows item.2) = true := by
  obtain ⟨item, hitem, hshows⟩ := any_eq_true.1 hany
  obtain ⟨action', hmem, -⟩ := h.mem_effects hitem
  exact any_eq_true.2 ⟨_, hmem, hshows⟩

theorem PlanGrows.any_actions {shows : PlanAction → Bool}
    (hshows : ∀ action effects, shows { action with effects := effects } = shows action)
    (hany : request.actions.any shows = true) : actions.any shows = true := by
  obtain ⟨action, haction, hholds⟩ := any_eq_true.1 hany
  obtain ⟨action', haction', hgrows⟩ := h action haction
  rw [← hgrows.same, hshows] at hholds
  exact any_eq_true.2 ⟨action', haction', hholds⟩

end Grows

/-! ### Objects and identities -/

section Objects

variable {request : RiskRequest}

open RiskRequest

theorem mem_nameOnce {objects : List String} {object other : String} :
    other ∈ nameOnce objects object ↔ other ∈ objects ∨ other = object := by
  unfold nameOnce
  split_ifs with hmem
  · exact ⟨inl, fun h => h.elim id fun heq => heq ▸ hmem⟩
  · rw [mem_append, mem_singleton]

theorem nodup_nameOnce {objects : List String} (h : objects.Nodup) (object : String) :
    (nameOnce objects object).Nodup := by
  unfold nameOnce
  split_ifs with hmem
  · exact h
  · exact h.append (nodup_singleton _) (disjoint_singleton.2 hmem)

/-- An object is covered by a frozen target. -/
def IsCovered (request : RiskRequest) (object : String) : Prop :=
  ∃ target ∈ request.targets, target.spatialId = some object

theorem nameUncovered_eq (objects : List String) (object : String) :
    (IsCovered request object ∧ request.nameUncovered objects object = objects) ∨
      (¬ IsCovered request object ∧
        request.nameUncovered objects object = nameOnce objects object) := by
  unfold nameUncovered IsCovered
  split_ifs with hcovered
  · exact inl ⟨by simpa using hcovered, rfl⟩
  · exact inr ⟨by simpa using hcovered, rfl⟩

theorem foldl_nameOnce (names objects : List String) (h : objects.Nodup) :
    (names.foldl nameOnce objects).Nodup ∧
      ∀ other, other ∈ names.foldl nameOnce objects ↔ other ∈ objects ∨ other ∈ names := by
  induction names generalizing objects with
  | nil => exact ⟨h, fun other => by simp⟩
  | cons name names ih =>
    obtain ⟨hnodup, hmem⟩ := ih _ (nodup_nameOnce h name)
    refine ⟨hnodup, fun other => ?_⟩
    rw [foldl_cons, hmem, mem_nameOnce, mem_cons, or_assoc]

theorem foldl_nameUncovered (names objects : List String) (h : objects.Nodup) :
    (names.foldl request.nameUncovered objects).Nodup ∧
      ∀ other, other ∈ names.foldl request.nameUncovered objects ↔
        other ∈ objects ∨ (other ∈ names ∧ ¬ IsCovered request other) := by
  induction names generalizing objects with
  | nil => exact ⟨h, fun other => by simp⟩
  | cons name names ih =>
    rw [foldl_cons]
    rcases @nameUncovered_eq request objects name with ⟨hcovered, heq⟩ | ⟨hcovered, heq⟩
    · rw [heq]
      obtain ⟨hnodup, hmem⟩ := ih objects h
      refine ⟨hnodup, fun other => ?_⟩
      rw [hmem, mem_cons]
      refine or_congr_right ⟨fun h => ⟨inr h.1, h.2⟩, fun h => ⟨h.1.resolve_left ?_, h.2⟩⟩
      rintro rfl
      exact h.2 hcovered
    · rw [heq]
      obtain ⟨hnodup, hmem⟩ := ih _ (nodup_nameOnce h name)
      refine ⟨hnodup, fun other => ?_⟩
      rw [hmem, mem_nameOnce, mem_cons, or_assoc]
      refine or_congr_right ⟨?_, ?_⟩
      · rintro (rfl | ⟨hmem, hnot⟩)
        · exact ⟨inl rfl, hcovered⟩
        · exact ⟨inr hmem, hnot⟩
      · rintro ⟨rfl | hmem, hnot⟩
        · exact inl rfl
        · exact inr ⟨hmem, hnot⟩

theorem changedObjects_spec (request : RiskRequest) :
    request.changedObjects.Nodup ∧
      ∀ object, object ∈ request.changedObjects ↔
        object ∈ request.targets.map (·.identity) ∨
          (object ∈ request.mutating.filterMap (·.target) ∧ ¬ IsCovered request object) := by
  obtain ⟨hnodup, hmem⟩ := foldl_nameOnce (request.targets.map (·.identity)) [] nodup_nil
  obtain ⟨hnodup', hmem'⟩ := @foldl_nameUncovered request
    (request.mutating.filterMap (·.target)) _ hnodup
  refine ⟨hnodup', fun object => ?_⟩
  unfold changedObjects
  rw [hmem', hmem]
  simp

variable {actions : List PlanAction}

theorem PlanGrows.length_changedObjects_le (h : PlanGrows request.actions actions) :
    request.changedObjects.length ≤ (request.over actions).changedObjects.length := by
  obtain ⟨hnodup, hmem⟩ := changedObjects_spec request
  obtain ⟨-, hmem'⟩ := changedObjects_spec (request.over actions)
  refine (subperm_of_subset hnodup fun object hobject => ?_).length_le
  exact (hmem' object).2 (((hmem object).1 hobject).imp_right fun hin =>
    ⟨h.mutating_subset hin.1, hin.2⟩)

theorem mem_targetedIdentities {object : String} : object ∈ request.targetedIdentities ↔
    (∃ target ∈ request.targets, object = target.identity ∨ target.spatialId = some object) ∨
      object ∈ request.mutating.filterMap (·.target) := by
  unfold targetedIdentities
  rw [mem_insertionSort, mem_dedup, mem_append, mem_flatMap]
  simp only [mem_cons, Option.mem_toList]

theorem PlanGrows.targetedIdentities_subset (h : PlanGrows request.actions actions) :
    request.targetedIdentities ⊆ (request.over actions).targetedIdentities := by
  intro object hobject
  exact mem_targetedIdentities.2 ((mem_targetedIdentities.1 hobject).imp_right fun hin =>
    h.mutating_subset hin)

end Objects

/-! ### When a rule finds something -/

/-- A rule finds something exactly in some requests, and always in one class. -/
def Fires (rule : RuleHead → RiskRequest → Option RiskFinding) (class' : RiskClass)
    (when : RiskRequest → Prop) : Prop :=
  ∀ head request, (when request ∧ ∃ reason, rule head request = finding head class' reason) ∨
    (¬ when request ∧ rule head request = none)

section Firing

variable {rule : RuleHead → RiskRequest → Option RiskFinding} {class' : RiskClass}
  {when : RiskRequest → Prop} {head : RuleHead} {request : RiskRequest} {found : RiskFinding}

theorem Fires.of_some (h : Fires rule class' when) (hfound : rule head request = some found) :
    when request ∧ ∃ reason, found = ⟨head.dimension, class', head.id, reason⟩ := by
  rcases h head request with ⟨hwhen, reason, heq⟩ | ⟨-, hnone⟩
  · exact ⟨hwhen, reason, Option.some.inj (hfound.symm.trans heq)⟩
  · rw [hnone] at hfound
    cases hfound

theorem Fires.finds (h : Fires rule class' when) (hwhen : when request) (head : RuleHead) :
    ∃ found, rule head request = some found ∧ found.class' = class' := by
  rcases h head request with ⟨-, reason, heq⟩ | ⟨hnot, -⟩
  · exact ⟨_, heq, rfl⟩
  · exact absurd hwhen hnot

theorem fires_bind {α : Type} {looked : Option α} {report : α → Option RiskFinding} {there : Prop}
    (hthere : looked.isSome = true ↔ there)
    (hreport : ∀ item, ∃ reason, report item = finding head class' reason) :
    (there ∧ ∃ reason, looked.bind report = finding head class' reason) ∨
      (¬ there ∧ looked.bind report = none) := by
  cases looked with
  | none => exact inr ⟨fun h => Bool.false_ne_true (hthere.2 h), rfl⟩
  | some item =>
    obtain ⟨reason, heq⟩ := hreport item
    exact inl ⟨hthere.1 rfl, reason, heq⟩

theorem isSome_head?_filter {α : Type} {items : List α} {shows : α → Bool} :
    (items.filter shows).head?.isSome = true ↔ items.any shows = true := by
  rw [isSome_head?, any_eq_true]
  simp [filter_eq_nil_iff]

end Firing

/-! ### The rules -/

theorem fires_singleObject : Fires singleObject .moderate (·.changedObjects.length = 1) := by
  intro head request
  unfold singleObject
  dsimp only
  cases request.changedObjects with
  | nil => exact inr ⟨by simp, rfl⟩
  | cons object objects =>
    cases objects with
    | nil => exact inl ⟨rfl, _, rfl⟩
    | cons other objects => exact inr ⟨by simp, rfl⟩

theorem fires_multiObject : Fires multiObject .moderate (2 ≤ ·.changedObjects.length) := by
  intro head request
  unfold multiObject
  dsimp only
  split_ifs with hfew
  · exact inr ⟨by omega, rfl⟩
  · exact inl ⟨by omega, _, rfl⟩

theorem fires_bulkWarn : Fires bulkWarn .moderate
    fun request => request.thresholds.warnTargets ≤ request.changedObjects.length := by
  intro head request
  unfold bulkWarn
  dsimp only
  split_ifs with hfew
  · exact inr ⟨by omega, rfl⟩
  · exact inl ⟨by omega, _, rfl⟩

theorem fires_bulkHigh : Fires bulkHigh .high
    fun request => request.thresholds.highRiskTargets ≤ request.changedObjects.length := by
  intro head request
  unfold bulkHigh
  dsimp only
  split_ifs with hfew
  · exact inr ⟨by omega, rfl⟩
  · exact inl ⟨by omega, _, rfl⟩

/-- All members of a group that has some are targeted. -/
def TargetsRole (request : RiskRequest) : Prop :=
  ∃ index, request.index = some index ∧ ∃ entry ∈ index.entries,
    isGroupEnd (kindNamed entry.objectType) = true ∧ 2 ≤ (membersOf index entry).length ∧
      membersOf index entry ⊆ request.targetedIdentities

theorem isSome_coveredGroup {index : SpatialIndex} {targeted : List String} {entry : IndexEntry} :
    (coveredGroup index targeted entry).isSome = true ↔
      isGroupEnd (kindNamed entry.objectType) = true ∧ 2 ≤ (membersOf index entry).length ∧
        membersOf index entry ⊆ targeted := by
  unfold coveredGroup
  dsimp only
  cases isGroupEnd (kindNamed entry.objectType) with
  | false => simp
  | true =>
    by_cases hfew : (membersOf index entry).length < 2
    · simp [hfew, Nat.not_le.2 hfew]
    · rw [if_neg (by simp), if_neg hfew]
      simp only [Nat.not_lt.1 hfew, true_and]
      split_ifs with hall
      · exact iff_of_true rfl fun member hmember => by
          simpa using all_eq_true.1 hall member hmember
      · refine iff_of_false (by simp) fun hsubset => hall ?_
        exact all_eq_true.2 fun member hmember => decide_eq_true (hsubset hmember)

theorem fires_wholeRole : Fires wholeRole .critical TargetsRole := by
  intro head request
  unfold wholeRole TargetsRole
  cases request.index with
  | none => exact inr ⟨by simp, rfl⟩
  | some index =>
    simp only [Option.bind_some, Option.some.injEq, exists_eq_left']
    by_cases hempty : request.targetedIdentities.isEmpty
    · rw [if_pos hempty]
      refine inr ⟨?_, rfl⟩
      rintro ⟨entry, -, -, hmany, hsubset⟩
      rw [isEmpty_iff.1 hempty] at hsubset
      rw [eq_nil_of_subset_nil hsubset] at hmany
      simp at hmany
    · rw [if_neg hempty]
      refine fires_bind ?_ fun group => ⟨_, rfl⟩
      rw [isSome_head?, Ne, ← length_eq_zero_iff, length_insertionSort,
        length_eq_zero_iff, filterMap_eq_nil_iff]
      push Not
      simp only [← Option.isSome_iff_ne_none, isSome_coveredGroup]

theorem fires_privilege : Fires privilege .moderate
    fun request => request.actions.any (·.requiresPrivilege) = true :=
  fun _ _ => fires_bind isSome_head?_filter fun _ => ⟨_, rfl⟩

theorem fires_irreversibility : Fires irreversibility .high
    fun request => request.effects.any (·.2.irreversible) = true := by
  intro head request
  refine fires_bind ?_ fun _ => ⟨_, rfl⟩
  rw [isSome_head?_filter, any_map]
  rfl

theorem fires_externalSideEffect : Fires externalSideEffect .high
    fun request => request.effects.any (·.2.domain = .externalSideEffect) = true := by
  intro head request
  refine fires_bind ?_ fun _ => ⟨_, rfl⟩
  rw [isSome_head?_filter, any_map]
  rfl

/-- A restart interrupts what is known to listen, or what it is declared to interrupt. -/
def Interrupts (request : RiskRequest) (item : PlanAction × ProposedEffect) : Prop :=
  item.2.domain = .processRuntime ∧ (item.2.kind = .replace ∨ item.2.kind = .interrupt) ∧
    (0 < request.index.elim 0 (listenersOf · ((item.2.object.or item.1.target).getD "")) ∨
      declaresInterruption request item.2.action = true)

theorem interruptedBy_cases (head : RuleHead) (request : RiskRequest)
    (item : PlanAction × ProposedEffect) :
    (Interrupts request item ∧
      ∃ reason, interruptedBy head request item = finding head .moderate reason) ∨
      (¬ Interrupts request item ∧ interruptedBy head request item = none) := by
  unfold interruptedBy Interrupts
  dsimp only
  by_cases hother : item.2.domain ≠ .processRuntime ∨
      ¬ (item.2.kind = .replace ∨ item.2.kind = .interrupt)
  · rw [if_pos hother]
    refine inr ⟨fun h => ?_, rfl⟩
    exact hother.elim (fun hdomain => hdomain h.1) fun hkind => hkind h.2.1
  · rw [if_neg hother]
    push Not at hother
    split_ifs with hlisteners hdeclares
    · exact inl ⟨⟨hother.1, hother.2, inl hlisteners⟩, _, rfl⟩
    · exact inl ⟨⟨hother.1, hother.2, inr hdeclares⟩, _, rfl⟩
    · exact inr ⟨fun h => h.2.2.elim hlisteners hdeclares, rfl⟩

theorem fires_serviceRestart : Fires serviceRestart .moderate
    fun request => ∃ item ∈ request.effects, Interrupts request item := by
  intro head request
  unfold serviceRestart
  cases hfound : request.effects.findSome? (interruptedBy head request) with
  | none =>
    refine inr ⟨?_, rfl⟩
    rintro ⟨item, hitem, hinterrupts⟩
    have hnone := findSome?_eq_none_iff.1 hfound item hitem
    rcases interruptedBy_cases head request item with ⟨-, reason, heq⟩ | ⟨hnot, -⟩
    · rw [hnone] at heq
      cases heq
    · exact hnot hinterrupts
  | some found =>
    obtain ⟨item, hitem, heq⟩ := exists_of_findSome?_eq_some hfound
    rcases interruptedBy_cases head request item with ⟨hinterrupts, reason, heq'⟩ | ⟨-, hnone⟩
    · exact inl ⟨⟨item, hitem, hinterrupts⟩, reason, heq.symm.trans heq'⟩
    · rw [hnone] at heq
      cases heq

theorem isEmpty_counting (count : Nat) (reason : String) :
    counting count reason = [] ↔ count = 0 := by
  unfold counting
  split_ifs with hcount
  · exact iff_of_false (by simp) (by omega)
  · exact iff_of_true rfl (by omega)

theorem fires_unknownImpact : Fires unknownImpact .unknown fun request =>
    request.impact.elim [] unknownOfGraph ≠ [] ∨
      request.effects.any (fun item => isUnknownEffect item.2) = true ∨
      request.actions.any isOpaque = true := by
  intro head request
  unfold unknownImpact
  dsimp only
  split_ifs with hempty
  · rw [List.isEmpty_iff, List.append_eq_nil_iff, List.append_eq_nil_iff, isEmpty_counting,
      isEmpty_counting, List.countP_eq_zero, List.countP_eq_zero] at hempty
    refine inr ⟨?_, rfl⟩
    rintro (hgraph | heffects | hactions)
    · exact hgraph hempty.1.1
    · obtain ⟨item, hitem, hshows⟩ := any_eq_true.1 heffects
      exact hempty.1.2 item hitem hshows
    · obtain ⟨action, haction, hshows⟩ := any_eq_true.1 hactions
      exact hempty.2 action haction hshows
  · refine inl ⟨?_, _, rfl⟩
    rw [List.isEmpty_iff, List.append_eq_nil_iff, List.append_eq_nil_iff, isEmpty_counting,
      isEmpty_counting, List.countP_eq_zero, List.countP_eq_zero] at hempty
    by_contra hnone
    push Not at hnone
    refine hempty ⟨⟨hnone.1, fun item hitem hshows => ?_⟩, fun action haction hshows => ?_⟩
    · exact hnone.2.1 (any_eq_true.2 ⟨item, hitem, hshows⟩)
    · exact hnone.2.2 (any_eq_true.2 ⟨action, haction, hshows⟩)

theorem fires_rebootRequirement : Fires rebootRequirement .high
    fun request => request.effects.any (·.2.object = some rebootRequired) = true := by
  intro head request
  refine fires_bind ?_ fun _ => ⟨_, rfl⟩
  exact find?_isSome.trans any_eq_true.symm

/-- An effect on the network or another system, or a target, is what the link depends on. -/
def CutsLink (request : RiskRequest) : Prop :=
  ∃ link, request.link = some link ∧
    ((∃ item ∈ request.effects, (linkObject link item).isSome = true) ∨
      ∃ object ∈ request.targetedIdentities, link.dependsOn object = true)

theorem fires_linkLoss : Fires linkLoss .critical CutsLink := by
  intro head request
  unfold linkLoss CutsLink
  cases request.link with
  | none => exact inr ⟨by simp, rfl⟩
  | some link =>
    simp only [Option.bind_some, Option.some.injEq, exists_eq_left']
    refine fires_bind ?_ fun _ => ⟨_, rfl⟩
    rw [Option.isSome_or, Bool.or_eq_true, findSome?_isSome_iff, find?_isSome]

/-! ### The strongest class -/

section Strongest

variable {classes : List RiskClass} {first : RiskClass}

theorem rank_maxOf_le {left right : RiskClass} {bound : Nat} :
    (left.maxOf right).rank ≤ bound ↔ left.rank ≤ bound ∧ right.rank ≤ bound := by
  unfold maxOf
  split_ifs with hle
  · exact ⟨fun h => ⟨h, hle.trans h⟩, fun h => h.1⟩
  · exact ⟨fun h => ⟨(Nat.le_of_not_le hle).trans h, h⟩, fun h => h.2⟩

theorem rank_foldl_maxOf_le {bound : Nat} : (classes.foldl maxOf first).rank ≤ bound ↔
    first.rank ≤ bound ∧ ∀ class' ∈ classes, class'.rank ≤ bound := by
  induction classes generalizing first with
  | nil => simp
  | cons class' classes ih =>
    rw [foldl_cons, ih, rank_maxOf_le, forall_mem_cons, and_assoc]

theorem foldl_maxOf_mem (classes : List RiskClass) (first : RiskClass) :
    classes.foldl maxOf first = first ∨ classes.foldl maxOf first ∈ classes := by
  induction classes generalizing first with
  | nil => exact inl rfl
  | cons class' classes ih =>
    rw [foldl_cons]
    have hmax : first.maxOf class' = first ∨ first.maxOf class' = class' := by
      unfold maxOf
      split_ifs
      · exact inl rfl
      · exact inr rfl
    rcases ih (first.maxOf class') with heq | hmem
    · rw [heq]
      exact hmax.imp_right fun heq' => by rw [heq']; exact mem_cons_self
    · exact inr (mem_cons_of_mem _ hmem)

/-- The class of a risk is as high as another's where it has a finding as high as each of the
other's. -/
theorem rank_classify_le {risk risk' : RiskAssessment}
    (h : ∀ found ∈ risk.findings, ∃ other ∈ risk'.findings,
      found.class'.rank ≤ other.class'.rank) : risk.classify.rank ≤ risk'.classify.rank := by
  have hbound : ∀ other ∈ risk'.findings, other.class'.rank ≤ risk'.classify.rank :=
    fun other hother => (rank_foldl_maxOf_le.1 (Nat.le_refl _)).2 _ (mem_map_of_mem hother)
  refine rank_foldl_maxOf_le.2 ⟨Nat.zero_le _, fun class' hclass => ?_⟩
  obtain ⟨found, hfound, rfl⟩ := mem_map.1 hclass
  obtain ⟨other, hother, hle⟩ := h found hfound
  exact hle.trans (hbound other hother)

theorem classify_mem (risk : RiskAssessment) :
    risk.classify = .low ∨ ∃ found ∈ risk.findings, found.class' = risk.classify :=
  (foldl_maxOf_mem _ _).imp_right mem_map.1

end Strongest

/-! ### Every rule -/

theorem mem_findings {request : RiskRequest} {found : RiskFinding} :
    found ∈ (assess request).findings ↔ ∃ rule ∈ rules, rule.run request = some found :=
  mem_filterMap

/-- The classes a rule may give. -/
def declaredClasses : String → List RiskClass
  | "risk.scope.single-object" | "risk.scope.multi-object" | "risk.bulk.warn-threshold"
  | "risk.privilege.elevation" | "risk.downtime.service-restart" => [.moderate]
  | "risk.bulk.high-threshold" | "risk.irreversibility.effect" | "risk.external.side-effect"
  | "risk.reboot.required" => [.high]
  | "risk.remote.fanout" | "risk.recovery.complexity" => [.moderate, .high]
  | "risk.unknown.impact" => [.unknown]
  | "risk.bulk.whole-role" | "risk.remote.link-loss" => [.critical]
  | _ => []

/-- What a rule finds is told as the rule's, in a class it declares. -/
def Declares (rule : RiskRule) : Prop :=
  ∀ request found, rule.run request = some found →
    found.rule = rule.id ∧ found.dimension = rule.dimension ∧ found.class' ∈ declaredClasses rule.id

variable {rule : RiskRule}

variable {when : RiskRequest → Prop}

theorem Fires.declares {class' : RiskClass} (h : Fires rule.evaluate class' when)
    (hclass : class' ∈ declaredClasses rule.id) : Declares rule := by
  intro request found hfound
  obtain ⟨-, reason, rfl⟩ := h.of_some hfound
  exact ⟨rfl, rfl, hclass⟩

/-- **Every finding is a declared rule's.** -/
theorem declares_rules : ∀ rule ∈ rules, Declares rule := by
  simp only [rules, forall_mem_cons]
  refine ⟨fires_singleObject.declares (by decide), fires_multiObject.declares (by decide),
    fires_bulkWarn.declares (by decide), fires_bulkHigh.declares (by decide),
    fires_wholeRole.declares (by decide), fires_privilege.declares (by decide),
    fires_irreversibility.declares (by decide), fires_externalSideEffect.declares (by decide),
    fires_serviceRestart.declares (by decide), fires_unknownImpact.declares (by decide),
    fires_rebootRequirement.declares (by decide), ?_, fires_linkLoss.declares (by decide), ?_,
    fun _ h => absurd h not_mem_nil⟩
  · intro request found hfound
    unfold RiskRule.run remoteFanout at hfound
    dsimp only at hfound
    split_ifs at hfound
    · obtain rfl := Option.some.inj hfound
      exact ⟨rfl, rfl, mem_cons_of_mem _ (mem_singleton_self _)⟩
    · obtain rfl := Option.some.inj hfound
      exact ⟨rfl, rfl, mem_cons_self⟩
  · intro request found hfound
    unfold RiskRule.run recoveryComplexity at hfound
    dsimp only at hfound
    split_ifs at hfound
    · obtain rfl := Option.some.inj hfound
      exact ⟨rfl, rfl, by decide⟩
    · obtain rfl := Option.some.inj hfound
      exact ⟨rfl, rfl, by decide⟩

/-! ### What a larger plan keeps -/

section Keeping

variable {request : RiskRequest} {actions : List PlanAction}

/-- What a rule finds in one request it finds in the other, in a class as high. -/
def Keeps (request request' : RiskRequest) (rule : RiskRule) : Prop :=
  ∀ found, rule.run request = some found →
    ∃ other, rule.run request' = some other ∧ found.class'.rank ≤ other.class'.rank

theorem Fires.keeps {request' : RiskRequest} {class' : RiskClass}
    (h : Fires rule.evaluate class' when) (hwhen : when request → when request') :
    Keeps request request' rule := by
  intro found hfound
  obtain ⟨hholds, reason, rfl⟩ := h.of_some hfound
  obtain ⟨other, hother, heq⟩ := h.finds (hwhen hholds) rule.toRuleHead
  exact ⟨other, hother, heq ▸ Nat.le_refl _⟩

theorem keeps_of_eq {request' : RiskRequest} (h : rule.run request' = rule.run request) :
    Keeps request request' rule :=
  fun found hfound => ⟨found, h.trans hfound, Nat.le_refl _⟩

variable (h : PlanGrows request.actions actions)

include h

theorem PlanGrows.targetsRole (hrole : TargetsRole request) :
    TargetsRole (request.over actions) := by
  obtain ⟨index, hindex, entry, hentry, hgroup, hmany, hsubset⟩ := hrole
  exact ⟨index, hindex, entry, hentry, hgroup, hmany,
    fun _ hmember => h.targetedIdentities_subset (hsubset hmember)⟩

theorem PlanGrows.declaresInterruption {action : ActionId}
    (hdeclares : declaresInterruption request action = true) :
    declaresInterruption (request.over actions) action = true :=
  @PlanGrows.any_effects _ _ h (fun effect =>
    effect.action = action && effect.domain = .networkRuntime && effect.kind = .interrupt) hdeclares

theorem PlanGrows.interrupts
    (hinterrupts : ∃ item ∈ request.effects, Interrupts request item) :
    ∃ item ∈ (request.over actions).effects, Interrupts (request.over actions) item := by
  obtain ⟨item, hitem, hdomain, hkind, hwhat⟩ := hinterrupts
  obtain ⟨action', hmem, hgrows⟩ := h.mem_effects hitem
  refine ⟨_, hmem, hdomain, hkind, hwhat.imp (fun hlisteners => ?_) h.declaresInterruption⟩
  rw [← hgrows.same] at hlisteners
  exact hlisteners

theorem PlanGrows.cutsLink (hcuts : CutsLink request) : CutsLink (request.over actions) := by
  obtain ⟨link, hlink, hobject⟩ := hcuts
  refine ⟨link, hlink, hobject.imp ?_ ?_⟩
  · rintro ⟨item, hitem, hsome⟩
    obtain ⟨action', hmem, -⟩ := h.mem_effects hitem
    exact ⟨_, hmem, hsome⟩
  · rintro ⟨object, hobject, hdepends⟩
    exact ⟨object, h.targetedIdentities_subset hobject, hdepends⟩

/-- All rules but the first keep what they found. -/
theorem PlanGrows.keeps_tail : ∀ rule ∈ rules.tail, Keeps request (request.over actions) rule := by
  have hle := h.length_changedObjects_le
  simp only [rules, tail_cons, forall_mem_cons]
  refine ⟨fires_multiObject.keeps fun hmany => hmany.trans hle,
    fires_bulkWarn.keeps fun hmany => hmany.trans hle,
    fires_bulkHigh.keeps fun hmany => hmany.trans hle,
    fires_wholeRole.keeps h.targetsRole,
    fires_privilege.keeps (h.any_actions fun _ _ => rfl),
    fires_irreversibility.keeps h.any_effects,
    fires_externalSideEffect.keeps
      (@PlanGrows.any_effects _ _ h fun effect => effect.domain = .externalSideEffect),
    fires_serviceRestart.keeps h.interrupts,
    fires_unknownImpact.keeps ?_,
    fires_rebootRequirement.keeps
      (@PlanGrows.any_effects _ _ h fun effect => effect.object = some rebootRequired),
    keeps_of_eq rfl, fires_linkLoss.keeps h.cutsLink, keeps_of_eq rfl,
    fun _ h => absurd h not_mem_nil⟩
  rintro (hgraph | heffects | hactions)
  · exact inl hgraph
  · exact inr (inl (h.any_effects heffects))
  · exact inr (inr (h.any_actions (fun _ _ => rfl) hactions))

/-- **A larger plan keeps what every rule found.** Where one object was changed and there are now
more, the rule about several says so. -/
theorem PlanGrows.keeps_findings : ∀ found ∈ (assess request).findings,
    ∃ other ∈ (assess (request.over actions)).findings, found.class'.rank ≤ other.class'.rank := by
  intro found hfound
  obtain ⟨rule, hrule, hrun⟩ := mem_findings.1 hfound
  have hkept {kept : RiskRule} (hin : kept ∈ rules) {other : RiskFinding}
      (hother : kept.run (request.over actions) = some other) :
      other ∈ (assess (request.over actions)).findings := mem_findings.2 ⟨kept, hin, hother⟩
  rcases mem_cons.1 hrule with rfl | htail
  · obtain ⟨hone, reason, rfl⟩ := fires_singleObject.of_some hrun
    have hle := h.length_changedObjects_le
    by_cases hsame : (request.over actions).changedObjects.length = 1
    · obtain ⟨other, hother, heq⟩ := fires_singleObject.finds hsame _
      exact ⟨other, hkept hrule hother, heq ▸ Nat.le_refl _⟩
    · have hmany : 2 ≤ (request.over actions).changedObjects.length := by omega
      obtain ⟨other, hother, heq⟩ := fires_multiObject.finds hmany
        ⟨"risk.scope.multi-object", .scope⟩
      exact ⟨other, hkept (mem_cons_of_mem _ mem_cons_self) hother,
        heq ▸ Nat.le_refl _⟩
  · obtain ⟨other, hother, hle⟩ := h.keeps_tail rule htail found hrun
    exact ⟨other, hkept hrule hother, hle⟩

/-- **The class of a plan that does more is as high at least.** -/
theorem rank_classify_mono :
    (assess request).classify.rank ≤ (assess (request.over actions)).classify.rank :=
  rank_classify_le h.keeps_findings

end Keeping

/-- **Risk never falls.** Neither another action nor another effect of an action lowers the class of
a plan; and the class is low, or that of a finding that a declared rule made. -/
theorem risk_never_falls (request : RiskRequest) :
    (∀ action, (assess request).classify.rank ≤
      (assess (request.over (request.actions ++ [action]))).classify.rank) ∧
    (∀ before action after effect,
      (assess (request.over (before ++ action :: after))).classify.rank ≤
        (assess (request.over (before ++ effecting action effect :: after))).classify.rank) ∧
    (∀ found ∈ (assess request).findings, ∃ rule ∈ rules, rule.run request = some found ∧
      found.rule = rule.id ∧ found.dimension = rule.dimension ∧
        found.class' ∈ declaredClasses rule.id) ∧
    ((assess request).classify = .low ∨
      ∃ found ∈ (assess request).findings, found.class' = (assess request).classify) := by
  refine ⟨fun action => rank_classify_mono fun kept hkept =>
    ⟨kept, mem_append_left _ hkept, .refl kept⟩, fun before action after effect => ?_,
    fun found hfound => ?_, classify_mem _⟩
  · refine @rank_classify_mono (request.over (before ++ action :: after))
      (before ++ effecting action effect :: after) fun kept hkept => ?_
    rcases mem_append.1 hkept with hbefore | hafter
    · exact ⟨kept, mem_append_left _ hbefore, .refl kept⟩
    · rcases mem_cons.1 hafter with rfl | hafter
      · exact ⟨_, mem_append_right _ mem_cons_self, actionGrows_effecting kept effect⟩
      · exact ⟨kept, mem_append_right _ (mem_cons_of_mem _ hafter), .refl kept⟩
  · obtain ⟨rule, hrule, hrun⟩ := mem_findings.1 hfound
    exact ⟨rule, hrule, hrun, declares_rules rule hrule request found hrun⟩

end OnoSendai.Impact
