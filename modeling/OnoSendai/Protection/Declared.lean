import OnoSendai.Lib.FirstKept
import OnoSendai.Protection.Coverage

/-!
# Declared effects and the coverage matrix

The coverage analysis is told what a plan changes by one record for each subject in a domain: the
first one that an action's effects give rise to. Two effects on one subject can need different
recovery, and can reach different parts of the system; then which of them the analysis sees depends
on the order of the actions and of their effects.
-/

namespace OnoSendai.Protection

open List Keyed
open MutationDomain hiding mk

/-! ### What is claimed of the records -/

/-- The records the mutating actions of a plan give rise to, in order. -/
def declared (actions : List PlanAction) : List MutationDomain :=
  (actions.filter (·.role.mutatesTarget)).flatMap derived

/-- The domain and the subject of a record. -/
def MutationDomain.key (mutation : MutationDomain) : EffectDomain × String :=
  (mutation.domain, mutation.subject)

/-- What the analysis reads of a record: its domain and subject, what recovery it needs, and whether
it reaches beneath its subject. -/
def MutationDomain.view (mutation : MutationDomain) :
    EffectDomain × String × RecoveryObjective × Bool :=
  (mutation.domain, mutation.subject, mutation.objective, mutation.isRecursive)

/-- Actions in another order, each with its effects in another order. -/
def Reordered (actions actions' : List PlanAction) : Prop :=
  ∃ middle, actions.Perm middle ∧ Forall₂ (fun action action' =>
    ∃ effects, action.effects.Perm effects ∧ action' = { action with effects := effects })
    middle actions'

/-- Every declared effect has a record of its domain and subject that needs recovery where it does,
that is at least as strong, and that reaches beneath the subject where the effect removes it. An
action that declares nothing has an unknown record. -/
structure Represented (strong : RecoveryObjective → RecoveryObjective → Prop)
    (actions : List PlanAction) : Prop where
  effects : ∀ action ∈ actions, action.role.mutatesTarget = true → ∀ effect ∈ action.effects,
    ∃ record ∈ mutationDomains actions, record.key = (fromEffect effect).key ∧
      ((fromEffect effect).objective.isRequired = true → record.objective.isRequired = true) ∧
      strong record.objective (fromEffect effect).objective ∧
      (effect.kind = .remove → record.isRecursive = true)
  undeclared : ∀ action ∈ actions, action.role.mutatesTarget = true → action.effects = [] →
    ∃ record ∈ mutationDomains actions, record.key = (undeclared action).key ∧
      record.domain = .unknown ∧ record.objective = .unknown

/-- Where the analysis calls the plan protected, every declared persistent effect was analysed, and
so was every filesystem beneath a directory that an effect removes. -/
def ProtectedAnalysed (actions : List PlanAction) : Prop :=
  ∀ request : CoverageRequest, request.mutations = mutationDomains actions →
    (analyse request).level = .protected' →
    ∀ action ∈ actions, action.role.mutatesTarget = true → ∀ effect ∈ action.effects,
      effect.domain.isPersistent = true →
      ∃ record ∈ request.mutations, record.key = (fromEffect effect).key ∧
        ((fromEffect effect).objective.isRequired = true → record.objective.isRequired = true) ∧
        (effect.kind = .remove →
          boundariesOf request.mounts record = boundariesOf request.mounts (fromEffect effect))

/-- No declared effect escapes the matrix: effects are represented, in every order alike, and what
the plan-level word rests on was analysed. -/
structure DeclaredCovered (strong : RecoveryObjective → RecoveryObjective → Prop)
    (actions : List PlanAction) : Prop where
  represented : Represented strong actions
  order_independent : ∀ actions', Reordered actions actions' →
    ((mutationDomains actions').map view).Perm
      ((mutationDomains actions).map view)
  protected_analysed : ProtectedAnalysed actions

/-- Records of one subject in one domain need one recovery and reach equally far. -/
def EffectsAgree (actions : List PlanAction) : Prop :=
  ∀ record ∈ declared actions, ∀ other ∈ declared actions, record.key = other.key →
    record.objective = other.objective ∧ record.isRecursive = other.isRecursive

/-! ### The records as the first of each key -/

theorem pushUnique_eq (domains : List MutationDomain) (mutation : MutationDomain) :
    pushUnique domains mutation = pushFirst key domains mutation := by
  unfold pushUnique Keyed.pushFirst MutationDomain.sameSubject MutationDomain.key
  simp only [Prod.mk.injEq, Bool.decide_and]

theorem mutationDomains_perm (actions : List PlanAction) :
    (mutationDomains actions).Perm (firstKept key (declared actions)) := by
  have hfold (actions : List PlanAction) (kept : List MutationDomain) :
      actions.foldl (fun domains action => (derived action).foldl pushUnique domains) kept =
        (actions.flatMap derived).foldl (pushFirst key) kept := by
    induction actions generalizing kept with
    | nil => rfl
    | cons action actions ih =>
      rw [foldl_cons, flatMap_cons, foldl_append, ih,
        show pushUnique = pushFirst key from funext₂ pushUnique_eq]
  rw [mutationDomains, hfold]
  exact perm_insertionSort _ _

variable {record : MutationDomain}

theorem mem_mutationDomains_iff {actions : List PlanAction} :
    record ∈ mutationDomains actions ↔ record ∈ firstKept key (declared actions) :=
  (mutationDomains_perm actions).mem_iff

/-! ### Reordering -/

section Reordering

variable {actions actions' : List PlanAction}

theorem derived_perm {action : PlanAction} {effects : List ProposedEffect}
    (h : action.effects.Perm effects) :
    (derived action).Perm (derived { action with effects := effects }) := by
  unfold derived
  rw [h.isEmpty_eq]
  split_ifs
  · exact Perm.refl _
  · exact h.map _

/-- Reordering actions and effects reorders the records. -/
theorem Reordered.declared_perm (h : Reordered actions actions') :
    (declared actions).Perm (declared actions') := by
  obtain ⟨middle, hperm, hforall⟩ := h
  have hmiddle : (declared actions).Perm (declared middle) :=
    (hperm.filter _).flatMap_right _
  refine hmiddle.trans ?_
  clear hperm hmiddle
  unfold declared
  induction hforall with
  | nil => exact Perm.refl _
  | @cons action _ _ _ hhead _ ih =>
    obtain ⟨effects, heffects, rfl⟩ := hhead
    cases hmutates : action.role.mutatesTarget with
    | true =>
      simp only [filter_cons, hmutates, if_true, flatMap_cons]
      exact (derived_perm heffects).append ih
    | false =>
      simp only [filter_cons, hmutates, Bool.false_eq_true, if_false]
      exact ih

theorem mem_declared_iff :
    record ∈ declared actions ↔
      ∃ action ∈ actions, action.role.mutatesTarget = true ∧ record ∈ derived action := by
  simp [declared, mem_flatMap, and_assoc]

/-- Any record can be made the first one. -/
theorem exists_reordered_cons (h : record ∈ declared actions) :
    ∃ actions' rest, Reordered actions actions' ∧ declared actions' = record :: rest := by
  obtain ⟨action, haction, hmutates, hrecord⟩ := mem_declared_iff.mp h
  obtain ⟨before, after, rfl⟩ := append_of_mem haction
  obtain ⟨effects, heffects, rest, hrest⟩ : ∃ effects, action.effects.Perm effects ∧
      ∃ rest, derived { action with effects := effects } = record :: rest := by
    unfold derived at hrecord
    by_cases hempty : action.effects.isEmpty = true
    · rw [if_pos hempty, mem_singleton] at hrecord
      exact ⟨action.effects, Perm.refl _, [], by simp [derived, hempty, hrecord]⟩
    · rw [if_neg hempty] at hrecord
      obtain ⟨effect, heffect, rfl⟩ := mem_map.mp hrecord
      obtain ⟨left, right, hsplit⟩ := append_of_mem heffect
      refine ⟨effect :: (left ++ right), hsplit ▸ perm_middle,
        (left ++ right).map fromEffect, ?_⟩
      simp [derived]
  refine ⟨{ action with effects := effects } :: (before ++ after),
    rest ++ declared (before ++ after), ⟨action :: (before ++ after), perm_middle, ?_⟩, ?_⟩
  · refine .cons ⟨effects, heffects, rfl⟩ (forall₂_same.mpr fun other _ => ?_)
    exact ⟨other.effects, Perm.refl _, rfl⟩
  · unfold declared
    rw [filter_cons_of_pos (by simpa using hmutates), flatMap_cons, hrest,
      cons_append]

end Reordering

/-! ### The exact condition -/

section Condition

variable {actions : List PlanAction}

theorem fromEffect_mem_declared {action : PlanAction} {effect : ProposedEffect}
    (haction : action ∈ actions) (hmutates : action.role.mutatesTarget = true)
    (heffect : effect ∈ action.effects) : fromEffect effect ∈ declared actions := by
  refine mem_declared_iff.mpr ⟨action, haction, hmutates, ?_⟩
  have hne : action.effects ≠ [] := ne_nil_of_mem heffect
  simpa [derived, hne] using mem_map_of_mem heffect

theorem exists_view_eq (hagree : EffectsAgree actions) (h : record ∈ declared actions) :
    ∃ kept ∈ mutationDomains actions, kept.key = record.key ∧
      kept.objective = record.objective ∧ kept.isRecursive = record.isRecursive := by
  obtain ⟨kept, hkept, hkey⟩ := exists_mem_firstKept key h
  exact ⟨kept, mem_mutationDomains_iff.mpr hkept, hkey,
    hagree kept (mem_of_mem_firstKept hkept) record h hkey⟩

/-- Where the records are the same in every order, records of one subject agree. -/
theorem effectsAgree_of_order_independent
    (h : ∀ actions', Reordered actions actions' →
      ((mutationDomains actions').map view).Perm
        ((mutationDomains actions).map view)) : EffectsAgree actions := by
  -- a record that is made the first one is kept, so its view is among those of every order
  have hseen {record : MutationDomain} (hrecord : record ∈ declared actions) :
      ∃ kept ∈ firstKept key (declared actions), kept.view = record.view := by
    obtain ⟨actions', rest, hreordered, hdeclared⟩ := exists_reordered_cons hrecord
    have hfirst : record ∈ mutationDomains actions' := by
      rw [mem_mutationDomains_iff, hdeclared]
      exact mem_firstKept_cons record rest
    have hview := (h actions' hreordered).mem_iff.mp (mem_map_of_mem hfirst)
    obtain ⟨kept, hkept, heq⟩ := mem_map.mp hview
    exact ⟨kept, mem_mutationDomains_iff.mp hkept, heq⟩
  intro record hrecord other hother hkey
  obtain ⟨kept, hkept, hkeptView⟩ := hseen hrecord
  obtain ⟨kept', hkept', hkeptView'⟩ := hseen hother
  simp only [MutationDomain.view, Prod.mk.injEq] at hkeptView hkeptView'
  simp only [MutationDomain.key, Prod.mk.injEq] at hkey
  have hsame : kept = kept' := by
    refine Keyed.eq_of_mem_firstKept hkept hkept' ?_
    simp only [MutationDomain.key, Prod.mk.injEq]
    exact ⟨hkeptView.1.trans (hkey.1.trans hkeptView'.1.symm),
      hkeptView.2.1.trans (hkey.2.trans hkeptView'.2.1.symm)⟩
  subst hsame
  exact ⟨hkeptView.2.2.1.symm.trans hkeptView'.2.2.1, hkeptView.2.2.2.symm.trans hkeptView'.2.2.2⟩

/-- Where records agree, the records look the same in every order. -/
theorem order_independent_of_effectsAgree (hagree : EffectsAgree actions)
    {actions' : List PlanAction} (h : Reordered actions actions') :
    ((mutationDomains actions').map view).Perm
      ((mutationDomains actions).map view) := by
  have hviews : ∀ record ∈ declared actions, ∀ other ∈ declared actions,
      record.key = other.key → record.view = other.view := by
    intro record hrecord other hother hkey
    obtain ⟨hobjective, hrecursive⟩ := hagree record hrecord other hother hkey
    obtain ⟨hdomain, hsubject⟩ := Prod.mk.inj hkey
    simp only [MutationDomain.view, Prod.mk.injEq]
    exact ⟨hdomain, hsubject, hobjective, hrecursive⟩
  have hperm : ((Keyed.firstKept MutationDomain.key (declared actions)).map
        MutationDomain.view).Perm
      ((firstKept key (declared actions')).map view) :=
    map_firstKept_perm (fun view => (view.1, view.2.1)) (fun _ => rfl) hviews h.declared_perm
  exact ((mutationDomains_perm actions').map _).trans
    (hperm.symm.trans ((mutationDomains_perm actions).map _).symm)

/-- Where records agree and each objective is at least as strong as itself, effects are
represented. -/
theorem represented_of_effectsAgree {strong : RecoveryObjective → RecoveryObjective → Prop}
    (hagree : EffectsAgree actions)
    (hstrong : ∀ action ∈ actions, action.role.mutatesTarget = true → ∀ effect ∈ action.effects,
      strong (fromEffect effect).objective
        (fromEffect effect).objective) : Represented strong actions where
  effects action haction hmutates effect heffect := by
    obtain ⟨kept, hkept, hkey, hobjective, hrecursive⟩ :=
      exists_view_eq hagree (fromEffect_mem_declared haction hmutates heffect)
    refine ⟨kept, hkept, hkey, fun hrequired => hobjective ▸ hrequired,
      hobjective ▸ hstrong action haction hmutates effect heffect, fun hremove => ?_⟩
    rw [hrecursive]
    simp [isRecursive, fromEffect, hremove]
  undeclared action haction hmutates hempty := by
    have hmem : undeclared action ∈ declared actions :=
      mem_declared_iff.mpr ⟨action, haction, hmutates, by simp [derived, hempty]⟩
    obtain ⟨kept, hkept, hkey, hobjective, -⟩ := exists_view_eq hagree hmem
    exact ⟨kept, hkept, hkey, (Prod.mk.inj hkey).1, hobjective.trans rfl⟩

theorem protectedAnalysed_of_effectsAgree (hagree : EffectsAgree actions) :
    ProtectedAnalysed actions := by
  intro request hmutations _ action haction hmutates effect heffect _
  obtain ⟨kept, hkept, hkey, hobjective, hrecursive⟩ :=
    exists_view_eq hagree (fromEffect_mem_declared haction hmutates heffect)
  refine ⟨kept, hmutations ▸ hkept, hkey, fun hrequired => hobjective ▸ hrequired, fun _ => ?_⟩
  have hsubject : kept.subject = (fromEffect effect).subject :=
    (Prod.mk.inj hkey).2
  simp only [boundariesOf, boundariesReachedBy, hobjective, hrecursive, hsubject]

end Condition

/-- **No declared effect escapes the matrix exactly when the effects agree.** With the strength of
objectives read so that each is as strong as itself, the property holds of a list of actions if and
only if effects on one subject in one domain need one recovery and reach equally far. With the
strength read as `covers` alone, which never accepts an unknown objective, it also takes that no
mutating action declares an effect with an unknown objective. -/
theorem declaredCovered_iff (actions : List PlanAction) :
    (DeclaredCovered (fun offered required => offered = required ∨ covers offered required = true)
      actions ↔ EffectsAgree actions) ∧
    (DeclaredCovered (fun offered required => covers offered required = true) actions ↔
      EffectsAgree actions ∧ ∀ action ∈ actions, action.role.mutatesTarget = true →
        ∀ effect ∈ action.effects, (fromEffect effect).objective ≠ .unknown) := by
  refine ⟨⟨fun h => effectsAgree_of_order_independent h.order_independent, fun hagree => ?_⟩,
    ⟨fun h => ⟨effectsAgree_of_order_independent h.order_independent, ?_⟩,
      fun ⟨hagree, hknown⟩ => ?_⟩⟩
  · exact ⟨represented_of_effectsAgree hagree fun _ _ _ _ _ => .inl rfl,
      fun _ hreordered => order_independent_of_effectsAgree hagree hreordered,
      protectedAnalysed_of_effectsAgree hagree⟩
  · intro action haction hmutates effect heffect hunknown
    obtain ⟨record, -, -, -, hcovers, -⟩ :=
      h.represented.effects action haction hmutates effect heffect
    rw [hunknown] at hcovers
    cases hcovers
  · refine ⟨represented_of_effectsAgree hagree fun action haction hmutates effect heffect => ?_,
      fun _ hreordered => order_independent_of_effectsAgree hagree hreordered,
      protectedAnalysed_of_effectsAgree hagree⟩
    have hne := hknown action haction hmutates effect heffect
    cases hobjective : (fromEffect effect).objective
    case unknown => exact absurd hobjective hne
    all_goals rfl

/-- An effect on the directory `/srv`. -/
def effectOnTree (id : EffectId) (action : ActionId) (kind : EffectKind) (explanation : String) :
    ProposedEffect where
  id := id
  action := action
  object := some "/srv"
  domain := .filesystemPersistent
  kind := kind
  confidence := .guaranteed
  before := none
  proposed := none
  evidence := []
  explanation := explanation
  irreversible := false
  compensation := none

/-- An action that changes the mode of `/srv` and then removes it. -/
def clearTree (action : ActionId) (first second : EffectId) : PlanAction where
  id := action
  ordinal := 1
  role := .mutate
  summary := "clear /srv"
  target := some "/srv"
  execution := .program "/usr/bin/clear-tree" ["/srv"]
  dependsOn := []
  preconditions := []
  idempotency := .unknown
  effects := [effectOnTree first action .modify "the mode of /srv is changed",
    effectOnTree second action .remove "/srv is removed"]
  recoverySemantics := none
  requiresPrivilege := true
  status := .pending

/-- A removal that follows a change of the same directory is not seen: the analysis does not reach
the filesystems mounted beneath it. -/
theorem not_declaredCovered_clearTree :
    ∃ action first second, ¬ DeclaredCovered
      (fun offered required => offered = required ∨ covers offered required = true)
      [clearTree action first second] := by
  refine ⟨⟨"a1", by decide⟩, ⟨"e1", by decide⟩, ⟨"e2", by decide⟩, fun h => ?_⟩
  obtain ⟨record, hrecord, -, -, -, hrecursive⟩ := h.represented.effects _ (mem_singleton.mpr rfl)
    rfl (effectOnTree ⟨"e2", by decide⟩ ⟨"a1", by decide⟩ .remove "/srv is removed") (by simp [clearTree])
  have hrecords : record ∈ [fromEffect (effectOnTree ⟨"e1", by decide⟩
      ⟨"a1", by decide⟩ .modify "the mode of /srv is changed")] := hrecord
  rw [mem_singleton.mp hrecords] at hrecursive
  exact absurd (hrecursive rfl) (by decide)

end OnoSendai.Protection
