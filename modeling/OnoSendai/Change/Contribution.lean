import OnoSendai.Change.Rebase

/-!
# The graph of a contribution

Moving actions into a plan renumbers them, and with the number the identity changes. A dependency
on an action that is listed before is remapped to the identity it was given; every other dependency
keeps the identity it names, also one on an action listed later.
-/

namespace OnoSendai

open PlanBuilder Nat ActionId
open List hiding getElem?_eq_some_iff map_map mem_map

/-! ### Graphs of actions -/

/-- What an action is in the graph of a plan. -/
structure ActionNode where
  id : ActionId
  role : ActionRole
  summary : String
  target : Option String
  dependsOn : List ActionId

/-- The node of an action. -/
def PlanAction.node (action : PlanAction) : ActionNode where
  id := action.id
  role := action.role
  summary := action.summary
  target := action.target
  dependsOn := action.dependsOn

/-- Two lists of nodes correspond one to one, and two nodes depend on each other in the second list
exactly where they do in the first. -/
structure SameGraph (old new : List ActionNode) : Prop where
  length_eq : new.length = old.length
  corresponds : ∀ {i : Nat} {a b : ActionNode}, old[i]? = some a → new[i]? = some b →
    b.role = a.role ∧ b.summary = a.summary ∧ b.target = a.target
  depends_iff : ∀ {i j : Nat} {a a' b b' : ActionNode}, old[i]? = some a → old[j]? = some a' →
    new[i]? = some b → new[j]? = some b' → (b'.id ∈ b.dependsOn ↔ a'.id ∈ a.dependsOn)

section Renumber

variable (sha256 : Sha256) (plan : PlanId)

/-- The identities that actions are given when they are renumbered from `ordinal` on. -/
def givenIds : Nat → List PlanAction → List ActionId
  | _, [] => []
  | ordinal, action :: rest =>
    of sha256 plan ordinal action.summary :: givenIds (ordinal + 1) rest

/-- The `j`-th action is the last one before the `i`-th that carries an identity. -/
def LastBefore (actions : List PlanAction) (i j : Nat) (id : ActionId) : Prop :=
  j < i ∧ (∃ action, actions[j]? = some action ∧ action.id = id) ∧
    ∀ k action, j < k → k < i → actions[k]? = some action → action.id ≠ id

/-- No action before the `i`-th carries an identity. -/
def NoneBefore (actions : List PlanAction) (i : Nat) (id : ActionId) : Prop :=
  ∀ k action, k < i → actions[k]? = some action → action.id ≠ id

/-- The dependencies that giving identities to actions keeps: each on an action of the list is on
the last one before it with that identity, unless it is also named by the identity it is given; and
the given identities that are named, where no action before carries them, are those of actions that
are depended on. -/
structure Traceable (actions : List PlanAction) (given : List ActionId) : Prop where
  traced : ∀ {i j : Nat} {a a' : PlanAction} {id : ActionId}, actions[i]? = some a →
    actions[j]? = some a' → given[j]? = some id → a'.id ∈ a.dependsOn →
      LastBefore actions i j a'.id ∨ id ∈ a.dependsOn ∧ NoneBefore actions i id
  named : ∀ {i j : Nat} {a a' : PlanAction} {id : ActionId}, actions[i]? = some a →
    actions[j]? = some a' → given[j]? = some id → id ∈ a.dependsOn → NoneBefore actions i id →
      a'.id ∈ a.dependsOn

/-! ### Where a dependency goes -/

/-- What the actions before the `i`-th were remapped to, the last one first. -/
def remapBefore (actions : List PlanAction) (given : List ActionId) (i : Nat) :
    List (ActionId × ActionId) :=
  (((actions.take i).map (·.id)).zip given).reverse

variable {sha256 plan}

theorem length_givenIds (ordinal : Nat) (actions : List PlanAction) :
    (givenIds sha256 plan ordinal actions).length = actions.length := by
  induction actions generalizing ordinal with
  | nil => rfl
  | cons action rest ih => simp [givenIds, ih]

theorem getElem?_givenIds (ordinal : Nat) (actions : List PlanAction) (i : Nat) :
    (givenIds sha256 plan ordinal actions)[i]? =
      actions[i]?.map fun action => of sha256 plan (ordinal + i) action.summary := by
  induction actions generalizing ordinal i with
  | nil => rfl
  | cons action rest ih =>
    cases i with
    | zero => rfl
    | succ i => simp [givenIds, ih, add_assoc, add_comm 1 i]

/-- Each action is renumbered with what the ones before it were remapped to. -/
theorem getElem?_renumbered (actions : List PlanAction) (ordinal i : Nat)
    (remap : List (ActionId × ActionId)) :
    (renumbered sha256 plan actions ordinal remap)[i]? =
      actions[i]?.map fun action =>
        rebind sha256 plan (ordinal + i) action
          (remapBefore actions (givenIds sha256 plan ordinal actions) i ++ remap) [] none := by
  induction actions generalizing ordinal i remap with
  | nil => rfl
  | cons action rest ih =>
    cases i with
    | zero => simp [renumbered, remapBefore]
    | succ i =>
      have hremap : remapBefore (action :: rest) (givenIds sha256 plan ordinal (action :: rest))
          (i + 1) = remapBefore rest (givenIds sha256 plan (ordinal + 1) rest) i ++
            [(action.id, of sha256 plan ordinal action.summary)] := by
        simp [remapBefore, givenIds]
      rw [hremap, renumbered, getElem?_cons_succ, ih, getElem?_cons_succ]
      simp [rebind, rebuilt, PlanAction.new, add_assoc, add_comm 1 i]

variable {actions : List PlanAction} {given : List ActionId} {action : PlanAction} {id : ActionId}
  {i : Nat}

/-- One more action before adds one more entry in front. -/
theorem remapBefore_succ (haction : actions[i]? = some action) (hid : given[i]? = some id) :
    remapBefore actions given (i + 1) = (action.id, id) :: remapBefore actions given i := by
  obtain ⟨hi, rfl⟩ := List.getElem?_eq_some_iff.1 haction
  obtain ⟨hi', rfl⟩ := List.getElem?_eq_some_iff.1 hid
  have hsplit : given = given.take i ++ given[i] :: given.drop (i + 1) := by
    rw [← drop_eq_getElem_cons hi', take_append_drop]
  have hbefore : ((actions.take i).map (·.id)).zip given =
      ((actions.take i).map (·.id)).zip (given.take i) := by
    conv_lhs => rw [hsplit, ← append_nil ((actions.take i).map (·.id))]
    rw [zip_append (by simp; omega)]
    simp
  have hnext : ((actions.take (i + 1)).map (·.id)).zip given =
      ((actions.take i).map (·.id)).zip (given.take i) ++ [(actions[i].id, given[i])] := by
    conv_lhs => rw [hsplit, take_succ_eq_append_getElem hi, map_append]
    rw [zip_append (by simp; omega)]
    rfl
  rw [remapBefore, remapBefore, hbefore, hnext]
  simp

/-- The last action with an identity before the next place is the action at this place, or the last
one before it. -/
theorem lastBefore_succ_iff {i j : Nat} (haction : actions[i]? = some action) :
    LastBefore actions (i + 1) j id ↔
      j = i ∧ action.id = id ∨ action.id ≠ id ∧ LastBefore actions i j id := by
  constructor
  · rintro ⟨hj, ⟨found, hfound, hid⟩, hlast⟩
    rcases Nat.lt_succ_iff_lt_or_eq.1 hj with hj | rfl
    · exact Or.inr ⟨hlast i action hj (Nat.lt_succ_self i) haction, hj, ⟨found, hfound, hid⟩,
        fun k other hk hki => hlast k other hk (Nat.lt_succ_of_lt hki)⟩
    · rw [haction] at hfound
      obtain rfl := Option.some.inj hfound
      exact Or.inl ⟨rfl, hid⟩
  · rintro (⟨rfl, hid⟩ | ⟨hne, hj, hfound, hlast⟩)
    · refine ⟨lt_succ_self _, ⟨action, haction, hid⟩, fun k other hk hki => ?_⟩
      omega
    · refine ⟨Nat.lt_succ_of_lt hj, hfound, fun k other hk hki hother => ?_⟩
      rcases Nat.lt_succ_iff_lt_or_eq.1 hki with hki | rfl
      · exact hlast k other hk hki hother
      · rw [haction] at hother
        exact Option.some.inj hother ▸ hne

/-- A lookup among what was remapped finds the last action that carries the identity. -/
theorem lookup_remapBefore {id found : ActionId} (hlength : given.length = actions.length)
    (hi : i ≤ actions.length) :
    (remapBefore actions given i).lookup id = some found ↔
      ∃ j, LastBefore actions i j id ∧ given[j]? = some found := by
  induction i with
  | zero => simp [remapBefore, LastBefore]
  | succ i ih =>
    have haction : actions[i]? = some actions[i] := getElem?_eq_getElem hi
    have hgiven : given[i]? = some given[i] := getElem?_eq_getElem (by omega)
    rw [remapBefore_succ haction hgiven]
    simp only [lastBefore_succ_iff haction]
    by_cases hid : id = actions[i].id
    · subst hid
      simp [hgiven]
    · have hne : (id == actions[i].id) = false := by simpa using hid
      rw [lookup_cons, hne, ih (le_of_succ_le hi)]
      simp [Ne.symm hid]

/-! ### The graph that renumbering leaves -/

/-- Where a dependency of the `i`-th action goes: to the identity given to the last action before it
that carries the one it names, else nowhere else. -/
def remapped (actions : List PlanAction) (given : List ActionId) (i : Nat) (id : ActionId) :
    ActionId :=
  ((remapBefore actions given i).lookup id).getD id

/-- No action before the next place carries an identity that neither the action at this place nor
any before it carries. -/
theorem noneBefore_succ_iff (haction : actions[i]? = some action) :
    NoneBefore actions (i + 1) id ↔ action.id ≠ id ∧ NoneBefore actions i id := by
  constructor
  · intro h
    exact ⟨h i action (lt_succ_self i) haction,
      fun k other hk hother => h k other (lt_succ_of_lt hk) hother⟩
  · rintro ⟨hne, h⟩ k other hk hother
    rcases Nat.lt_succ_iff_lt_or_eq.1 hk with hk | rfl
    · exact h k other hk hother
    · rw [haction] at hother
      exact Option.some.inj hother ▸ hne

/-- A lookup among what was remapped finds nothing where no action before carries the identity. -/
theorem lookup_remapBefore_eq_none (hlength : given.length = actions.length)
    (hi : i ≤ actions.length) :
    (remapBefore actions given i).lookup id = none ↔ NoneBefore actions i id := by
  induction i with
  | zero => simp [remapBefore, NoneBefore]
  | succ i ih =>
    have haction : actions[i]? = some actions[i] := getElem?_eq_getElem hi
    have hgiven : given[i]? = some given[i] := getElem?_eq_getElem (by omega)
    rw [remapBefore_succ haction hgiven, noneBefore_succ_iff haction]
    by_cases hid : id = actions[i].id
    · subst hid
      simp
    · have hne : (id == actions[i].id) = false := by simpa using hid
      rw [lookup_cons, hne, ih (le_of_succ_le hi)]
      simp [Ne.symm hid]

/-- A dependency goes to an identity exactly when that was given to the last action before with the
identity it names, or is the one it names and no action before carries it. -/
theorem remapped_eq_iff {id found : ActionId} (hlength : given.length = actions.length)
    (hi : i ≤ actions.length) :
    remapped actions given i id = found ↔
      (∃ j, LastBefore actions i j id ∧ given[j]? = some found) ∨
        id = found ∧ NoneBefore actions i id := by
  rw [← lookup_remapBefore hlength hi, ← lookup_remapBefore_eq_none hlength hi, remapped]
  cases (remapBefore actions given i).lookup id with
  | none => simp
  | some other => simp

/-- An action depends on a renumbered one exactly when that is the last one before with an identity
it depends on, or it depends on the identity this one is given. -/
theorem mem_map_remapped_iff {i j : Nat} {a' : PlanAction} {found : ActionId}
    (hlength : given.length = actions.length) (hdistinct : given.Nodup) (hi : i ≤ actions.length)
    (haction : actions[j]? = some a') (hfound : given[j]? = some found)
    (dependsOn : List ActionId) :
    found ∈ dependsOn.map (remapped actions given i) ↔
      LastBefore actions i j a'.id ∧ a'.id ∈ dependsOn ∨
        found ∈ dependsOn ∧ NoneBefore actions i found := by
  simp only [List.mem_map, remapped_eq_iff hlength hi]
  constructor
  · rintro ⟨id, hmem, ⟨k, hlast, hgiven⟩ | ⟨rfl, hnone⟩⟩
    · obtain ⟨hk, rfl⟩ := List.getElem?_eq_some_iff.1 hgiven
      obtain ⟨hj, hsame⟩ := List.getElem?_eq_some_iff.1 hfound
      obtain rfl := (hdistinct.getElem_inj_iff).1 hsame
      obtain ⟨action, hfirst, hid⟩ := hlast.2.1
      rw [haction] at hfirst
      obtain rfl := Option.some.inj hfirst
      subst hid
      exact Or.inl ⟨hlast, hmem⟩
    · exact Or.inr ⟨hmem, hnone⟩
  · rintro (⟨hlast, hmem⟩ | ⟨hmem, hnone⟩)
    · exact ⟨a'.id, hmem, Or.inl ⟨j, hlast, hfound⟩⟩
    · exact ⟨found, hmem, Or.inr ⟨rfl, hnone⟩⟩

theorem getElem?_node_renumbered {ordinal i : Nat} {a : PlanAction}
    (haction : actions[i]? = some a) :
    ((renumbered sha256 plan actions ordinal []).map (·.node))[i]? =
      some {
        id := of sha256 plan (ordinal + i) a.summary
        role := a.role
        summary := a.summary
        target := a.target
        dependsOn := a.dependsOn.map
          (remapped actions (givenIds sha256 plan ordinal actions) i) } := by
  rw [getElem?_map, getElem?_renumbered, haction, append_nil]
  rfl

theorem length_renumbered (actions : List PlanAction) (ordinal : Nat)
    (remap : List (ActionId × ActionId)) :
    (renumbered sha256 plan actions ordinal remap).length = actions.length := by
  induction actions generalizing ordinal remap with
  | nil => rfl
  | cons action rest ih => simp [renumbered, ih]

/-- **Renumbering keeps the graph of actions exactly when their dependencies are traceable.** -/
theorem renumbered_sameGraph_iff {ordinal : Nat}
    (hdistinct : (givenIds sha256 plan ordinal actions).Nodup) :
    SameGraph (actions.map (·.node))
        ((renumbered sha256 plan actions ordinal []).map (·.node)) ↔
      Traceable actions (givenIds sha256 plan ordinal actions) := by
  have hlength := @length_givenIds sha256 plan ordinal actions
  have hgiven {j : Nat} {a : PlanAction} (haction : actions[j]? = some a) :
      (givenIds sha256 plan ordinal actions)[j]? =
        some (of sha256 plan (ordinal + j) a.summary) := by
    rw [getElem?_givenIds, haction]
    rfl
  have hlt {i : Nat} {a : PlanAction} (haction : actions[i]? = some a) : i ≤ actions.length :=
    Nat.le_of_lt (List.getElem?_eq_some_iff.1 haction).1
  have hdepends {i j : Nat} {a a' : PlanAction} (hi : actions[i]? = some a)
      (hj : actions[j]? = some a') :=
    mem_map_remapped_iff hlength hdistinct (hlt hi) hj (hgiven hj) a.dependsOn
  have hnode {i : Nat} {a : PlanAction} (haction : actions[i]? = some a) :
      (actions.map (·.node))[i]? = some a.node := by
    rw [getElem?_map, haction]
    rfl
  constructor
  · intro h
    refine ⟨fun {i j a a' id} hi hj hid hmem => ?_, fun {i j a a' id} hi hj hid hmem hnone => ?_⟩
    · obtain rfl := Option.some.inj (hid.symm.trans (hgiven hj))
      have hnew := (h.depends_iff (hnode hi) (hnode hj) (getElem?_node_renumbered hi)
        (getElem?_node_renumbered hj)).2 hmem
      exact ((hdepends hi hj).1 hnew).imp_left And.left
    · obtain rfl := Option.some.inj (hid.symm.trans (hgiven hj))
      exact (h.depends_iff (hnode hi) (hnode hj) (getElem?_node_renumbered hi)
        (getElem?_node_renumbered hj)).1 ((hdepends hi hj).2 (Or.inr ⟨hmem, hnone⟩))
  · intro h
    have hold {i : Nat} {b : ActionNode} (hb : (actions.map (·.node))[i]? = some b) :
        ∃ a, actions[i]? = some a ∧ a.node = b := by
      simpa using hb
    refine ⟨by simp [length_renumbered], fun {i a b} ha hb => ?_,
      fun {i j a a' b b'} ha ha' hb hb' => ?_⟩
    · obtain ⟨action, hi, rfl⟩ := hold ha
      rw [getElem?_node_renumbered hi] at hb
      obtain rfl := Option.some.inj hb
      exact ⟨rfl, rfl, rfl⟩
    · obtain ⟨action, hi, rfl⟩ := hold ha
      obtain ⟨action', hj, rfl⟩ := hold ha'
      rw [getElem?_node_renumbered hi] at hb
      rw [getElem?_node_renumbered hj] at hb'
      obtain rfl := Option.some.inj hb
      obtain rfl := Option.some.inj hb'
      refine (hdepends hi hj).trans ⟨?_, fun hmem => ?_⟩
      · rintro (⟨-, hmem⟩ | ⟨hmem, hnone⟩)
        · exact hmem
        · exact h.named hi hj (hgiven hj) hmem hnone
      · exact (h.traced hi hj (hgiven hj) hmem).imp_left fun hlast => ⟨hlast, hmem⟩

/-! ### Contributing and sealing for one object -/

/-- The actions that a contribution appends are the renumbered ones, but for their preconditions. -/
theorem node_contributeActions (version : String) (actions : List PlanAction)
    (extra : List Precondition) (remap : List (ActionId × ActionId)) (builder : PlanBuilder) :
    ∃ appended, (builder.contributeActions sha256 version actions extra remap).actions =
        builder.actions ++ appended ∧
      appended.map (·.node) = (renumbered sha256 builder.id actions
        (builder.actions.length + 1) remap).map (·.node) := by
  induction actions generalizing extra remap builder with
  | nil => exact ⟨[], by simp [contributeActions], rfl⟩
  | cons action rest ih =>
    let rebound := rebind sha256 builder.id (builder.actions.length + 1) action remap extra none
    obtain ⟨appended, happended, hnodes⟩ := ih [] ((action.id, rebound.id) :: remap)
      (builder.withRebound version rebound)
    refine ⟨rebound :: appended, ?_, ?_⟩
    · refine happended.trans ?_
      simp [withRebound]
    · rw [map_cons, hnodes, renumbered, map_cons]
      simp only [withRebound, length_append, length_singleton]
      rfl

theorem actions_seal' {render : Renderings} {draft sealedPlan : ChangePlan} {now : Int}
    (h : draft.seal' sha256 render now = .ok sealedPlan) : sealedPlan.actions = draft.actions := by
  unfold ChangePlan.seal' at h
  cases horder : topologicalOrder draft.actions with
  | error cycle =>
    rw [horder] at h
    split_ifs at h
  | ok order =>
    rw [horder] at h
    split_ifs at h
    obtain rfl := Except.ok.inj h
    rfl

theorem actions_assemble {render : Renderings} {builder : PlanBuilder} {id : PlanId}
    {intent : Intent} {targets : List FrozenTarget} {contracts : List VerificationContract}
    {now : Int} {assembled : ChangePlan}
    (h : builder.assemble sha256 render id intent targets actions contracts now = .ok assembled) :
    assembled.actions = actions.map fun action =>
      rebind sha256 id action.ordinal action [] [] (some (builder.redaction action.execution)) := by
  obtain ⟨kind, hopened⟩ := @opened_eq sha256 render builder intent
  rw [assemble_eq, hopened, resolve_eq targets rfl] at h
  simp only [bind, Except.bind, PlanBuilder.addActions_eq] at h
  rw [addActions_eq _ _ rfl] at h
  rw [actions_seal' h, carry_eq]
  rfl

theorem PlanAction.Rebuilt.node_rebind (h : action.Rebuilt sha256 plan)
    (execution : Option Execution) :
    (rebind sha256 plan action.ordinal action [] [] execution).node = action.node := by
  have hnode : (rebuilt sha256 plan action.ordinal action [] action.preconditions action.target
      none).node = action.node := congrArg PlanAction.node h
  exact hnode

theorem rebuilt_of_mem_renumbered {ordinal : Nat} {remap : List (ActionId × ActionId)}
    (h : action ∈ renumbered sha256 plan actions ordinal remap) : action.Rebuilt sha256 plan := by
  induction actions generalizing ordinal remap with
  | nil => cases h
  | cons first rest ih =>
    rcases mem_cons.1 h with rfl | hrest
    · exact rebuilt_isRebuilt ..
    · exact ih hrest

end Renumber

section Builder

variable {sha256 : Sha256} {render : Renderings} (builder : PlanBuilder)

/-- The actions of a builder that a plan for `target` alone keeps. -/
def PlanBuilder.keptFor (target : FrozenTarget) : List PlanAction :=
  builder.actions.filter fun action => action.target.all (· = target.identity)

/-- The identity of a plan for `target` alone. -/
def PlanBuilder.idFor (sha256 : Sha256) (render : Renderings) (target : FrozenTarget) : PlanId :=
  PlanId.of sha256 builder.session (render.timestamp builder.createdAt)
    (builder.intent.text ++ " (" ++ target.identity ++ ")")

/-- A contribution appends the actions of a fragment. -/
def Contributes (builder contributed : PlanBuilder) (fragment : PlanFragment) : Prop :=
  ∃ appended, contributed.actions = builder.actions ++ appended ∧
    SameGraph (fragment.actions.map (·.node)) (appended.map (·.node))

variable {builder} in
theorem contributing_actions {fragment : PlanFragment} {contributed : PlanBuilder}
    (h : builder.contributing sha256 fragment = .ok contributed) :
    ∃ appended, contributed.actions = builder.actions ++ appended ∧
      appended.map (·.node) = (renumbered sha256 builder.id fragment.actions
        (builder.actions.length + 1) []).map (·.node) := by
  unfold contributing at h
  split_ifs at h with hempty
  · obtain rfl := Except.ok.inj h
    rw [isEmpty_iff.1 hempty]
    exact ⟨[], by simp, rfl⟩
  · obtain rfl := Except.ok.inj h
    exact node_contributeActions ..

/-- **Where renumbering keeps the graph.** Where the identities that renumbered actions are given
are distinct, contributing a fragment keeps its graph exactly when its dependencies are traceable to
the given identities; and so does a plan for one object with the actions it keeps. -/
theorem contributing_sameGraph_iff :
    (∀ fragment contributed, builder.contributing sha256 fragment = .ok contributed →
      (givenIds sha256 builder.id (builder.actions.length + 1) fragment.actions).Nodup →
      (Contributes builder contributed fragment ↔
        Traceable fragment.actions
          (givenIds sha256 builder.id (builder.actions.length + 1) fragment.actions))) ∧
    ∀ target now plan, builder.perObject sha256 render target now = .ok plan →
      (givenIds sha256 (builder.idFor sha256 render target) 1 (builder.keptFor target)).Nodup →
      (SameGraph ((builder.keptFor target).map (·.node)) (plan.actions.map (·.node)) ↔
        Traceable (builder.keptFor target)
          (givenIds sha256 (builder.idFor sha256 render target) 1 (builder.keptFor target))) := by
  refine ⟨fun fragment contributed h hdistinct => ?_, fun target now plan h hdistinct => ?_⟩
  · obtain ⟨appended, happended, hnodes⟩ := contributing_actions h
    rw [← renumbered_sameGraph_iff hdistinct, ← hnodes]
    constructor
    · rintro ⟨other, hother, hsame⟩
      obtain rfl := List.append_cancel_left (hother.symm.trans happended)
      exact hsame
    · exact fun hsame => ⟨appended, happended, hsame⟩
  · have hactions := actions_assemble h
    have hnodes : plan.actions.map (·.node) = (renumbered sha256
        (builder.idFor sha256 render target) (builder.keptFor target) 1 []).map (·.node) := by
      rw [hactions, List.map_map]
      exact map_congr_left fun action haction =>
        (rebuilt_of_mem_renumbered haction).node_rebind _
    rw [hnodes]
    exact renumbered_sameGraph_iff hdistinct

end Builder

/-! ### A configuration and the service that reads it -/

/-- A hash that tells short texts apart. -/
def plainHash : Sha256 := fun text =>
  Vector.ofFn fun i =>
    UInt8.ofNat (text.toList.foldl (fun hash c => (hash * 131 + c.toNat) % 2 ^ 64) 7 / 256 ^ i.val)

/-- Renderings that say nothing. -/
def plainRenderings : Renderings where
  float := fun _ => ""
  path := fun _ => ""
  ip := fun _ => ""
  timestamp := fun _ => ""
  debug := fun _ => ""
  duration := fun _ => ""

/-- A builder that holds one action. -/
def holdingOne : PlanBuilder :=
  let opened := forIntent plainHash plainRenderings id
    ⟨"replace configuration", "replace configuration"⟩ "s" 1
  opened.acting plainHash (.new plainHash opened.id 1 .prepare "snapshot"
    (.recoveryOperation "ono.recovery.zfs" "recovery.prepare" []))

/-- The action that writes the configuration, as a provider numbers it. -/
def writeConfiguration (ordinal : Nat) : PlanAction :=
  .new plainHash holdingOne.id ordinal .mutate "write nginx.conf" (.program "/usr/bin/install" [])

/-- The action that restarts the service after the configuration was written. -/
def restartService (ordinal : Nat) (configuration : ActionId) : PlanAction :=
  { PlanAction.new plainHash holdingOne.id ordinal .mutate "restart nginx.service"
      (.providerAction "ono.provider.systemd" "ono.service.restart" []) with
    dependsOn := [configuration] }

/-- A fragment of some actions. -/
def fragmentOf (actions : List PlanAction) : PlanFragment where
  actions := actions
  preconditions := []
  verification := []
  providerVersion := none

/-- Of two actions the second may depend on the first. -/
theorem traceable_pair {first second : PlanAction} {given given' : ActionId}
    (hfirst : first.dependsOn = []) (hsecond : second.dependsOn = [first.id])
    (hne : second.id ≠ first.id) (hgiven : given' ≠ first.id) :
    Traceable [first, second] [given, given'] := by
  refine ⟨fun {i j a a' id} hi hj hid hmem => ?_, fun {i j a a' id} hi hj hid hmem _ => ?_⟩
  · rcases i with _ | _ | i
    · obtain rfl := Option.some.inj hi
      simp [hfirst] at hmem
    · rcases j with _ | _ | j
      · exact Or.inl ⟨one_pos, ⟨a', hj, rfl⟩, fun k _ _ _ => by omega⟩
      · obtain rfl := Option.some.inj hi
        obtain rfl := Option.some.inj hj
        simp [hsecond, hne] at hmem
      · cases hj
    · cases hi
  · rcases i with _ | _ | i
    · obtain rfl := Option.some.inj hi
      simp [hfirst] at hmem
    · obtain rfl := Option.some.inj hi
      rcases j with _ | _ | j
      · obtain rfl := Option.some.inj hj
        simp [hsecond]
      · obtain rfl := Option.some.inj hid
        simp [hsecond, hgiven] at hmem
      · cases hj
    · cases hi

theorem contributing_sameGraph_configuration :
    ∃ contributed,
      holdingOne.contributing plainHash
          (fragmentOf [writeConfiguration 1, restartService 2 (writeConfiguration 1).id]) =
        .ok contributed ∧
      Contributes holdingOne contributed
        (fragmentOf [writeConfiguration 1, restartService 2 (writeConfiguration 1).id]) :=
  ⟨_, rfl, ((@contributing_sameGraph_iff plainHash plainRenderings holdingOne).1 _ _ rfl
    (by decide +kernel)).2 (traceable_pair rfl rfl (by decide +kernel) (by decide +kernel))⟩

/-- **A dependency on an action listed later is lost.** The service is restarted after the
configuration is written, and after it was contributed it no longer is. -/
theorem not_contributes_later :
    ¬ ∀ (sha256 : Sha256) (render : Renderings) (builder contributed : PlanBuilder)
        (fragment : PlanFragment), builder.Assembled sha256 render →
      builder.contributing sha256 fragment = .ok contributed →
      (givenIds sha256 builder.id (builder.actions.length + 1) fragment.actions).Nodup →
      (∃ order, topologicalOrder fragment.actions = .ok order) →
      Contributes builder contributed fragment := by
  intro h
  let fragment := fragmentOf [restartService 1 (writeConfiguration 2).id, writeConfiguration 2]
  have hdistinct : (givenIds plainHash holdingOne.id (holdingOne.actions.length + 1)
      fragment.actions).Nodup := by
    decide +kernel
  obtain ⟨appended, happended, hsame⟩ := h plainHash plainRenderings holdingOne _ fragment
    (.acting (.forIntent ..) _) rfl hdistinct ⟨[1, 0], by decide +kernel⟩
  obtain ⟨other, hother, hnodes⟩ :=
    contributing_actions (rfl : holdingOne.contributing plainHash fragment = .ok _)
  obtain rfl := List.append_cancel_left (happended.symm.trans hother)
  rw [hnodes] at hsame
  have htraceable := (renumbered_sameGraph_iff hdistinct).1 hsame
  rcases @Traceable.traced _ _ htraceable 0 1 _ _ _ rfl rfl rfl mem_cons_self with
    hlast | ⟨hmem, -⟩
  · exact absurd hlast.1 (by decide)
  · exact absurd hmem (by decide +kernel)

end OnoSendai
