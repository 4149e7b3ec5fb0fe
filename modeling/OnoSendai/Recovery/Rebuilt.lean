import OnoSendai.Change.Contribution
import OnoSendai.Recovery.Builder

/-!
# What a recovery plan keeps of a fragment

The actions of a provider are rebuilt one after another against the recovery plan, and each depends
on what those listed before it were rebuilt to. The contracts of the provider are rebuilt too, and
an object that none of them is about is given one. A dependency on an action listed later, a
contract that asks for less than it could, and a digest that only the provider knows leave no trace.
-/

namespace OnoSendai.Recovery

open Link Nat
open List hiding any_map getElem?_eq_some_iff mem_map

open Protection (startsWith)
open Separated (words)

/-! ### What is to be kept -/

/-- Two effects that differ at most in the action they are declared of. -/
def SameEffect (old new : ProposedEffect) : Prop :=
  { new with id := old.id, action := old.action } = old

/-- An action restores what another says. -/
structure Restores (old new : PlanAction) : Prop where
  role : new.role = .recover
  target : new.target = old.target
  execution : new.execution = old.execution
  idempotency : new.idempotency = old.idempotency
  privilege : new.requiresPrivilege = old.requiresPrivilege
  effects : Forall₂ SameEffect old.effects new.effects
  preconditions : new.preconditions = old.preconditions

/-- The actions of a recovery plan restore those of a fragment one by one, and depend on each other
as they do. -/
structure RebuildsActions (old new : List PlanAction) : Prop where
  length_eq : new.length = old.length
  restores : ∀ {i : Nat} {a b : PlanAction}, old[i]? = some a → new[i]? = some b → Restores a b
  depends_iff : ∀ {i j : Nat} {a a' b b' : PlanAction}, old[i]? = some a → old[j]? = some a' →
    new[i]? = some b → new[j]? = some b' → (b'.id ∈ b.dependsOn ↔ a'.id ∈ a.dependsOn)

/-- A contract asks for a digest: the words of its condition are `sha256 == <digest>`. -/
def Demands (contract : VerificationContract) (digest : String) : Prop :=
  words isWhitespace contract.expression.toList =
    "sha256".toList :: "==".toList :: words isWhitespace digest.toList

/-- A contract checks an object of which a digest may be known. -/
structure Checks (object : String) (digest : Option String) (contract : VerificationContract) :
    Prop where
  required : contract.class' = .required
  about : isAbout contract.subject object = true
  domain : contract.equivalence.isSome = true
  demands : ∀ known ∈ digest, Demands contract known

section Kept

variable (request : RecoveryRequest) (fragment : RecoveryPlanFragment) (restored : List String)

/-- The digest of an object as it was captured: what the request says of it, else the provider. -/
def knownDigest (object : String) : Option String :=
  (request.captured.lookup object).or (fragment.captured.lookup object)

/-- A recovery plan keeps what a fragment says: its actions restore those of the fragment and are
ordered as they are, and every restored object is checked. -/
structure KeepsFragment (plan : ChangePlan) : Prop where
  actions : RebuildsActions fragment.actions plan.actions
  checked : ∀ object ∈ restored, ∃ contract ∈ plan.verification.contracts,
    Checks object (knownDigest request fragment object) contract

/-! ### What is kept -/

/-- The `j`-th action is before the `i`-th, and the first one that carries an identity. -/
def FirstBefore (actions : List PlanAction) (i j : Nat) (id : ActionId) : Prop :=
  j < i ∧ (∃ action, actions[j]? = some action ∧ action.id = id) ∧
    ∀ k action, k < j → actions[k]? = some action → action.id ≠ id

/-- Every dependency of an action on another of the list is on the first one with its identity, and
that is listed before. -/
def ListedFirst (actions : List PlanAction) : Prop :=
  ∀ {i j : Nat} {a a' : PlanAction}, actions[i]? = some a → actions[j]? = some a' →
    a'.id ∈ a.dependsOn → FirstBefore actions i j a'.id

/-- The subject of a contract about an object. -/
def subjectOf (object : String) : String :=
  if startsWith object "/" then "file " ++ object else object

/-- The objects that are given a contract: those nothing is stated about, neither before nor by a
contract given to another. -/
def ungiven (isStated : String → Bool) : List String → List String
  | [] => []
  | object :: rest =>
    if isStated object then ungiven isStated rest
    else
      object :: ungiven (fun other => isStated other || isAbout (subjectOf object) other) rest

/-- Whether the provider states a contract about an object. -/
def providerStates (object : String) : Bool :=
  fragment.verification.any fun contract => isAbout contract.subject object

/-- An object is checked by a contract of the provider, or by one that is given and asks for a
digest that the request knows. -/
def CheckedBy (object : String) : Prop :=
  (∃ contract ∈ fragment.verification,
    Checks object (knownDigest request fragment object) contract) ∨
  ∃ other ∈ ungiven (providerStates fragment) restored, isAbout (subjectOf other) object = true ∧
    ∀ known ∈ knownDigest request fragment object, ∃ digest ∈ request.captured.lookup other,
      words isWhitespace digest.toList = words isWhitespace known.toList

end Kept

/-! ### The actions of a recovery plan -/

section Actions

variable (sha256 : Sha256) (plan : PlanId)

/-- The actions of a fragment, each anchored to the recovery plan. -/
def recoverActions : List PlanAction → Nat → List (ActionId × ActionId) → List PlanAction
  | [], _, _ => []
  | action :: rest, index, mapping =>
    let recovery := recoverAction sha256 plan index action mapping
    recovery :: recoverActions rest (index + 1) (mapping ++ [(action.id, recovery.id)])

/-- What the actions before the `i`-th were rebuilt to, the first one first. -/
def rebuiltBefore (actions : List PlanAction) (given : List ActionId) (i : Nat) :
    List (ActionId × ActionId) :=
  ((actions.take i).map (·.id)).zip given

variable {sha256 plan}

theorem restores_recoverAction (index : Nat) (action : PlanAction)
    (mapping : List (ActionId × ActionId)) :
    Restores action (recoverAction sha256 plan index action mapping) where
  role := rfl
  target := rfl
  execution := rfl
  idempotency := rfl
  privilege := rfl
  effects := by
    unfold recoverAction
    rw [forall₂_map_right_iff]
    exact forall₂_same.2 fun effect _ => rfl
  preconditions := rfl

/-- Adding the actions of a fragment appends what they are rebuilt to. -/
theorem addRecoverActions_eq (actions : List PlanAction) (index : Nat)
    (mapping : List (ActionId × ActionId)) {draft : ChangePlan}
    (hdraft : draft.state.isSealed = false) :
    addRecoverActions sha256 plan actions index mapping draft =
      .ok { draft with
        actions := draft.actions ++ recoverActions sha256 plan actions index mapping } := by
  induction actions generalizing index mapping draft with
  | nil => simp [addRecoverActions, recoverActions]
  | cons action rest ih =>
    let recovery := recoverAction sha256 plan index action mapping
    have hadded : draft.withAction recovery =
        .ok { draft with actions := draft.actions ++ [recovery] } := by
      simp [ChangePlan.withAction, hdraft]
    have hrest := @ih (index + 1) (mapping ++ [(action.id, recovery.id)])
      { draft with actions := draft.actions ++ [recovery] } hdraft
    rw [addRecoverActions]
    simp only [bind, Except.bind]
    rw [hadded]
    dsimp only
    rw [hrest]
    simp [recoverActions, recovery]

theorem length_recoverActions (actions : List PlanAction) (index : Nat)
    (mapping : List (ActionId × ActionId)) :
    (recoverActions sha256 plan actions index mapping).length = actions.length := by
  induction actions generalizing index mapping with
  | nil => rfl
  | cons action rest ih => simp [recoverActions, ih]

theorem getElem?_recoverActions (actions : List PlanAction) (index i : Nat)
    (mapping : List (ActionId × ActionId)) :
    (recoverActions sha256 plan actions index mapping)[i]? =
      actions[i]?.map fun action =>
        recoverAction sha256 plan (index + i) action
          (mapping ++ rebuiltBefore actions (givenIds sha256 plan (index + 1) actions) i) := by
  induction actions generalizing index i mapping with
  | nil => rfl
  | cons action rest ih =>
    cases i with
    | zero => simp [recoverActions, rebuiltBefore]
    | succ i =>
      rw [recoverActions, getElem?_cons_succ, ih, getElem?_cons_succ]
      simp [recoverAction, rebuiltBefore, givenIds, PlanAction.new, add_assoc, add_comm 1 i]

theorem firstBefore_cons_succ_iff {action : PlanAction} {rest : List PlanAction} {i j : Nat}
    {id : ActionId} : FirstBefore (action :: rest) (i + 1) (j + 1) id ↔
      action.id ≠ id ∧ FirstBefore rest i j id := by
  constructor
  · rintro ⟨hlt, hfound, hfirst⟩
    exact ⟨hfirst 0 action (succ_pos j) rfl, lt_of_succ_lt_succ hlt, hfound,
      fun k other hk hother => hfirst (k + 1) other (succ_lt_succ hk) hother⟩
  · rintro ⟨hne, hlt, hfound, hfirst⟩
    refine ⟨succ_lt_succ hlt, hfound, fun k other hk hother => ?_⟩
    cases k with
    | zero => exact Option.some.inj hother ▸ hne
    | succ k => exact hfirst k other (lt_of_succ_lt_succ hk) hother

theorem firstBefore_cons_zero_iff {action : PlanAction} {rest : List PlanAction} {i : Nat}
    {id : ActionId} : FirstBefore (action :: rest) (i + 1) 0 id ↔ action.id = id := by
  simp [FirstBefore]

variable {actions : List PlanAction}

/-- A lookup among what was rebuilt finds the first action that carries the identity. -/
theorem lookup_rebuiltBefore {given : List ActionId} {i : Nat} {id found : ActionId}
    (hlength : given.length = actions.length) :
    (rebuiltBefore actions given i).lookup id = some found ↔
      ∃ j, FirstBefore actions i j id ∧ given[j]? = some found := by
  induction actions generalizing given i with
  | nil => simp [rebuiltBefore, FirstBefore]
  | cons action rest ih =>
    obtain ⟨first, given, rfl⟩ := exists_cons_of_length_pos
      (show 0 < given.length by rw [hlength]; exact succ_pos _)
    have hrest : given.length = rest.length := by simpa using hlength
    cases i with
    | zero => simp [rebuiltBefore, FirstBefore]
    | succ i =>
      have hcons : rebuiltBefore (action :: rest) (first :: given) (i + 1) =
          (action.id, first) :: rebuiltBefore rest given i := rfl
      rw [hcons, lookup_cons]
      by_cases hid : id = action.id
      · subst hid
        rw [beq_self_eq_true]
        constructor
        · intro h
          exact ⟨0, firstBefore_cons_zero_iff.2 rfl, h⟩
        · rintro ⟨j, hfirst, hfound⟩
          cases j with
          | zero => exact hfound
          | succ j => exact absurd rfl (firstBefore_cons_succ_iff.1 hfirst).1
      · have hne : (id == action.id) = false := by simpa using hid
        rw [hne]
        refine (ih hrest).trans ⟨?_, ?_⟩
        · rintro ⟨j, hfirst, hfound⟩
          exact ⟨j + 1, firstBefore_cons_succ_iff.2 ⟨Ne.symm hid, hfirst⟩, hfound⟩
        · rintro ⟨j, hfirst, hfound⟩
          cases j with
          | zero => exact absurd (firstBefore_cons_zero_iff.1 hfirst).symm hid
          | succ j => exact ⟨j, (firstBefore_cons_succ_iff.1 hfirst).2, hfound⟩

/-- An action depends on a rebuilt one exactly when it depends on its identity, and that is the
first one before that carries it. -/
theorem mem_filterMap_rebuiltBefore_iff {given : List ActionId} {i j : Nat} {a' : PlanAction}
    {found : ActionId} (hlength : given.length = actions.length) (hdistinct : given.Nodup)
    (haction : actions[j]? = some a') (hfound : given[j]? = some found)
    (dependsOn : List ActionId) :
    found ∈ dependsOn.filterMap (fun id => (rebuiltBefore actions given i).lookup id) ↔
      a'.id ∈ dependsOn ∧ FirstBefore actions i j a'.id := by
  simp only [mem_filterMap, lookup_rebuiltBefore hlength]
  constructor
  · rintro ⟨id, hmem, k, hfirst, hgiven⟩
    obtain ⟨hk, rfl⟩ := List.getElem?_eq_some_iff.1 hgiven
    obtain ⟨hj, hsame⟩ := List.getElem?_eq_some_iff.1 hfound
    obtain rfl := hdistinct.getElem_inj_iff.1 hsame
    obtain ⟨action, hat, rfl⟩ := hfirst.2.1
    rw [haction] at hat
    obtain rfl := Option.some.inj hat
    exact ⟨hmem, hfirst⟩
  · rintro ⟨hmem, hfirst⟩
    exact ⟨a'.id, hmem, j, hfirst, hfound⟩

/-- **Rebuilding keeps the actions of a fragment exactly when their dependencies are listed
before.** -/
theorem rebuildsActions_iff (hdistinct : (givenIds sha256 plan 1 actions).Nodup) :
    RebuildsActions actions (recoverActions sha256 plan actions 0 []) ↔ ListedFirst actions := by
  have hgiven {j : Nat} {a : PlanAction} (haction : actions[j]? = some a) :
      (givenIds sha256 plan 1 actions)[j]? = some (ActionId.of sha256 plan (j + 1) a.summary) := by
    rw [getElem?_givenIds, haction, add_comm]
    rfl
  have hnew {i : Nat} {a : PlanAction} (haction : actions[i]? = some a) :
      (recoverActions sha256 plan actions 0 [])[i]? =
        some (recoverAction sha256 plan i a
          (rebuiltBefore actions (givenIds sha256 plan 1 actions) i)) := by
    rw [getElem?_recoverActions, haction, nil_append, zero_add]
    rfl
  have hdepends {i j : Nat} {a a' : PlanAction} (hj : actions[j]? = some a') :=
    @mem_filterMap_rebuiltBefore_iff actions _ i j a' _ (length_givenIds 1 actions) hdistinct hj
      (hgiven hj) a.dependsOn
  constructor
  · intro h i j a a' hi hj hmem
    exact ((hdepends hj).1 ((h.depends_iff hi hj (hnew hi) (hnew hj)).2 hmem)).2
  · intro h
    refine ⟨length_recoverActions .., fun {i a b} ha hb => ?_,
      fun {i j a a' b b'} ha ha' hb hb' => ?_⟩
    · obtain rfl := Option.some.inj ((hnew ha).symm.trans hb)
      exact restores_recoverAction ..
    · obtain rfl := Option.some.inj ((hnew ha).symm.trans hb)
      obtain rfl := Option.some.inj ((hnew ha').symm.trans hb')
      exact (hdepends ha').trans ⟨And.left, fun hmem => ⟨hmem, h ha ha' hmem⟩⟩

end Actions

/-! ### The contracts of a recovery plan -/

section Contracts

variable {request : RecoveryRequest} {sha256 : Sha256} {plan : PlanId}
  {fragment : RecoveryPlanFragment} {restored : List String}

/-- Contracts are given to the objects nothing is stated about. -/
theorem foldl_objectContract (contracts : List VerificationContract) (restored : List String) :
    restored.foldl
        (fun contracts object =>
          if contracts.any fun contract => isAbout contract.subject object then contracts
          else contracts ++ [objectContract request sha256 plan object]) contracts =
      contracts ++ (ungiven
        (fun object => contracts.any fun contract => isAbout contract.subject object)
        restored).map (objectContract request sha256 plan) := by
  induction restored generalizing contracts with
  | nil => simp [ungiven]
  | cons object rest ih =>
    rw [foldl_cons, ih, ungiven]
    by_cases hstated : (contracts.any fun contract => isAbout contract.subject object) = true
    · rw [if_pos hstated, if_pos hstated]
    · rw [if_neg hstated, if_neg hstated]
      simp [objectContract, VerificationContract.new, subjectOf]

/-- **The contracts of a recovery plan** are those of the provider and the ones that are given. -/
theorem contracts_verification :
    (verification request sha256 plan fragment restored).contracts =
      fragment.verification.map (rebindContract sha256 plan) ++
        (ungiven (providerStates fragment) restored).map (objectContract request sha256 plan) := by
  have hstates : providerStates fragment = fun object =>
      (fragment.verification.map (rebindContract sha256 plan)).any
        fun contract => isAbout contract.subject object := by
    funext object
    rw [List.any_map]
    rfl
  rw [verification, foldl_objectContract, hstates]

theorem checks_rebindContract_iff {object : String} {digest : Option String}
    {contract : VerificationContract} :
    Checks object digest (rebindContract sha256 plan contract) ↔ Checks object digest contract :=
  ⟨fun h => ⟨h.required, h.about, h.domain, h.demands⟩,
    fun h => ⟨h.required, h.about, h.domain, h.demands⟩⟩

theorem words_sha256 (digest : String) :
    words isWhitespace ("sha256 == " ++ digest).toList =
      "sha256".toList :: "==".toList :: words isWhitespace digest.toList := by
  have hsplit : ("sha256 == " ++ digest).toList =
      "sha256".toList ++ ' ' :: ("==".toList ++ ' ' :: digest.toList) := by
    rw [String.toList_append]
    rfl
  rw [hsplit,
    Separated.words_append_cons (forall_isWhitespace_eq_false (by decide)) (by decide) rfl,
    Separated.words_append_cons (forall_isWhitespace_eq_false (by decide)) (by decide) rfl]

/-- A contract that is given asks for a digest exactly when the request knows one of these words. -/
theorem demands_objectContract_iff {object known : String} :
    Demands (objectContract request sha256 plan object) known ↔
      ∃ digest ∈ request.captured.lookup object,
        words isWhitespace digest.toList = words isWhitespace known.toList := by
  unfold Demands objectContract
  cases request.captured.lookup object with
  | none =>
    have hexists : words isWhitespace "exists == true".toList =
        ["exists".toList, "==".toList, "true".toList] := by decide
    refine iff_of_false (fun h => ?_) (by simp)
    have hfirst := (cons.inj (hexists.symm.trans h)).1
    exact absurd hfirst (by decide)
  | some digest =>
    refine (Eq.congr_left (words_sha256 digest)).trans ?_
    simp only [cons.injEq, true_and, Option.mem_def, Option.some.injEq, exists_eq_left']

theorem checks_objectContract_iff {object other : String} {digest : Option String} :
    Checks object digest (objectContract request sha256 plan other) ↔
      isAbout (subjectOf other) object = true ∧
        ∀ known ∈ digest, ∃ own ∈ request.captured.lookup other,
          words isWhitespace own.toList = words isWhitespace known.toList := by
  constructor
  · intro h
    exact ⟨h.about, fun known hknown => demands_objectContract_iff.1 (h.demands known hknown)⟩
  · rintro ⟨habout, hdemands⟩
    exact ⟨rfl, habout, rfl,
      fun known hknown => demands_objectContract_iff.2 (hdemands known hknown)⟩

/-- **Every object is checked** by a contract of the plan exactly when it is by one of the provider
or by one that is given. -/
theorem exists_checks_iff {object : String} :
    (∃ contract ∈ (verification request sha256 plan fragment restored).contracts,
        Checks object (knownDigest request fragment object) contract) ↔
      CheckedBy request fragment restored object := by
  rw [contracts_verification, CheckedBy]
  simp only [List.mem_append, List.mem_map, or_and_right, exists_or, exists_exists_and_eq_and,
    checks_rebindContract_iff, checks_objectContract_iff]

end Contracts

/-! ### The plan -/

section Plan

variable {request : RecoveryRequest} {sha256 : Sha256} {render : Renderings} {chosen : MethodOffer}
  {restored : List String} {plan : ChangePlan}

theorem seal'_eq_ok {draft sealedPlan : ChangePlan} {now : Int}
    (h : draft.seal' sha256 render now = .ok sealedPlan) :
    sealedPlan.id = draft.id ∧ sealedPlan.actions = draft.actions ∧
      sealedPlan.verification = draft.verification := by
  unfold ChangePlan.seal' at h
  cases horder : topologicalOrder draft.actions with
  | error cycle =>
    rw [horder] at h
    split_ifs at h
  | ok order =>
    rw [horder] at h
    split_ifs at h
    obtain rfl := Except.ok.inj h
    exact ⟨rfl, rfl, rfl⟩

theorem exists_seal' {draft : ChangePlan} {order : List Nat} (now : Int)
    (hdraft : draft.state.isSealed = false) (horder : topologicalOrder draft.actions = .ok order)
    (hchecked : draft.verification.isEmpty = false) :
    ∃ sealedPlan, draft.seal' sha256 render now = .ok sealedPlan := by
  unfold ChangePlan.seal'
  rw [if_neg (by simp [hdraft]), horder]
  dsimp only
  rw [if_neg (by simp [hchecked])]
  exact ⟨_, rfl⟩

variable (request sha256 render chosen restored) in
/-- The identity of the recovery's change plan. -/
def recoveryId : PlanId :=
  PlanId.of sha256 request.session (render.timestamp request.now)
    ("restore " ++ describe restored ++ " from " ++ chosen.reference)

theorem changePlan_eq_ok (h : changePlan request sha256 render chosen restored = .ok plan) :
    plan.id = recoveryId request sha256 render chosen restored ∧
      plan.actions = recoverActions sha256 plan.id chosen.fragment.actions 0 [] ∧
      plan.verification = verification request sha256 plan.id chosen.fragment restored := by
  unfold changePlan at h
  split_ifs at h
  dsimp only at h
  rw [resolve_eq _ rfl] at h
  simp only [bind, Except.bind] at h
  rw [addRecoverActions_eq _ _ _ rfl] at h
  dsimp only at h
  obtain ⟨hid, hactions, hverification⟩ := seal'_eq_ok h
  rw [hid, hactions, hverification, foldl_binding_eq]
  exact ⟨rfl, rfl, rfl⟩

/-- A fragment with actions makes a plan, where those can be ordered and something is checked. -/
theorem exists_changePlan {order : List Nat} (hactions : chosen.fragment.actions ≠ [])
    (horder : topologicalOrder (recoverActions sha256
      (recoveryId request sha256 render chosen restored) chosen.fragment.actions 0 []) = .ok order)
    (hchecked : (verification request sha256 (recoveryId request sha256 render chosen restored)
      chosen.fragment restored).isEmpty = false) :
    ∃ plan, changePlan request sha256 render chosen restored = .ok plan ∧
      plan.id = recoveryId request sha256 render chosen restored := by
  have hmade : ∃ plan, changePlan request sha256 render chosen restored = .ok plan := by
    unfold changePlan
    rw [if_neg (by simpa using hactions)]
    dsimp only
    rw [resolve_eq _ rfl]
    simp only [bind, Except.bind]
    rw [addRecoverActions_eq _ _ _ rfl]
    dsimp only
    rw [foldl_binding_eq]
    exact exists_seal' _ rfl horder hchecked
  obtain ⟨plan, hplan⟩ := hmade
  exact ⟨plan, hplan, (changePlan_eq_ok hplan).1⟩

/-- **Where a recovery plan keeps the fragment.** Where the identities that rebuilt actions are
given are distinct, the plan keeps the fragment exactly when every dependency is on the first action
with its identity and that is listed before, and every restored object is checked by a contract of
the provider or by one it is given. -/
theorem keepsFragment_iff (h : changePlan request sha256 render chosen restored = .ok plan)
    (hdistinct : (givenIds sha256 plan.id 1 chosen.fragment.actions).Nodup) :
    KeepsFragment request chosen.fragment restored plan ↔
      ListedFirst chosen.fragment.actions ∧
        ∀ object ∈ restored, CheckedBy request chosen.fragment restored object := by
  obtain ⟨-, hactions, hverification⟩ := changePlan_eq_ok h
  constructor
  · rintro ⟨hrebuilds, hchecked⟩
    rw [hactions] at hrebuilds
    rw [hverification] at hchecked
    exact ⟨(rebuildsActions_iff hdistinct).1 hrebuilds,
      fun object hobject => exists_checks_iff.1 (hchecked object hobject)⟩
  · rintro ⟨hlisted, hchecked⟩
    refine ⟨?_, fun object hobject => ?_⟩
    · rw [hactions]
      exact (rebuildsActions_iff hdistinct).2 hlisted
    · rw [hverification]
      exact exists_checks_iff.2 (hchecked object hobject)

end Plan

/-! ### A configuration and the service that reads it -/

/-- A recovery of a configuration whose digest the caller knows. -/
def configurationRequest : RecoveryRequest :=
  { RecoveryRequest.new ⟨[], nodup_nil⟩ [] (fun _ => .absent none) .restoreChangedObjects
      "s" 1 with
    captured := [("/etc/nginx.conf", "ab12")] }

/-- The offer of an archive to carry out some actions. -/
def archiveOffer (actions : List PlanAction) : MethodOffer where
  provider := "ono.recovery.files"
  asset := ⟨"a", Eq.refl true⟩
  reference := "archive"
  fragment := { RecoveryPlanFragment.new "ono.recovery.files" .selectiveFileRestore with actions }
  preserves := []

theorem listedFirst_pair {first second : PlanAction} (hfirst : first.dependsOn = [])
    (hsecond : second.dependsOn = [first.id]) (hne : second.id ≠ first.id) :
    ListedFirst [first, second] := by
  intro i j a a' hi hj hmem
  rcases i with _ | _ | i
  · obtain rfl := Option.some.inj hi
    simp [hfirst] at hmem
  · rcases j with _ | _ | j
    · exact ⟨one_pos, ⟨a', hj, rfl⟩, fun k _ hk _ => absurd hk (not_lt_zero k)⟩
    · obtain rfl := Option.some.inj hi
      obtain rfl := Option.some.inj hj
      simp [hsecond, hne] at hmem
    · cases hj
  · cases hi

/-- A configuration that is written before its service is restarted is recovered so, and its digest
is checked. -/
theorem keepsFragment_configuration :
    ∃ plan,
      changePlan configurationRequest plainHash plainRenderings
          (archiveOffer [writeConfiguration 1, restartService 2 (writeConfiguration 1).id])
          ["/etc/nginx.conf"] = .ok plan ∧
      KeepsFragment configurationRequest
        (archiveOffer [writeConfiguration 1, restartService 2 (writeConfiguration 1).id]).fragment
        ["/etc/nginx.conf"] plan := by
  let chosen := archiveOffer [writeConfiguration 1, restartService 2 (writeConfiguration 1).id]
  let order : List Nat := [0, 1]
  obtain ⟨plan, hplan, hid⟩ := @exists_changePlan configurationRequest plainHash plainRenderings
    chosen ["/etc/nginx.conf"] order (cons_ne_nil _ _) (by decide +kernel) (by decide +kernel)
  have hdistinct : (givenIds plainHash plan.id 1 chosen.fragment.actions).Nodup := by
    rw [hid]
    decide +kernel
  refine ⟨plan, hplan, (keepsFragment_iff hplan hdistinct).2
    ⟨listedFirst_pair rfl rfl (by decide +kernel), fun object hobject => ?_⟩⟩
  obtain rfl := mem_singleton.1 hobject
  refine Or.inr ⟨"/etc/nginx.conf", by decide +kernel, by decide +kernel, fun known hknown => ?_⟩
  obtain rfl : "ab12" = known := Option.some.inj hknown
  exact ⟨"ab12", rfl, rfl⟩

/-- **A dependency on an action listed later is lost.** The service is to be restarted after the
configuration is written, and the recovery restarts it before. -/
theorem not_keepsFragment_later :
    ¬ ∀ (sha256 : Sha256) (render : Renderings) (request : RecoveryRequest) (chosen : MethodOffer)
        (restored : List String) (plan : ChangePlan),
      changePlan request sha256 render chosen restored = .ok plan →
      (givenIds sha256 plan.id 1 chosen.fragment.actions).Nodup →
      (∃ order, topologicalOrder chosen.fragment.actions = .ok order) →
      KeepsFragment request chosen.fragment restored plan := by
  intro h
  let chosen := archiveOffer [restartService 1 (writeConfiguration 2).id, writeConfiguration 2]
  let order : List Nat := [0, 1]
  obtain ⟨plan, hplan, hid⟩ := @exists_changePlan configurationRequest plainHash plainRenderings
    chosen ["/etc/nginx.conf"] order (cons_ne_nil _ _) (by decide +kernel) (by decide +kernel)
  have hdistinct : (givenIds plainHash plan.id 1 chosen.fragment.actions).Nodup := by
    rw [hid]
    decide +kernel
  have hkeeps := (h _ _ _ _ _ _ hplan hdistinct ⟨[1, 0], by decide +kernel⟩).actions
  rw [(changePlan_eq_ok hplan).2.1] at hkeeps
  have hbefore := (rebuildsActions_iff hdistinct).1 hkeeps (rfl : chosen.fragment.actions[0]? = _)
    (rfl : chosen.fragment.actions[1]? = _) mem_cons_self
  exact absurd hbefore.1 (by decide)

end OnoSendai.Recovery
